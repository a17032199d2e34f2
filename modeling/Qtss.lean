import Qtss.Risk.Caps
import Qtss.Risk.Reconcile
import Qtss.Backtest.Engine
import Qtss.Backtest.Runner
import Qtss.Reconcile.Books
import Qtss.Execution.DryLedger
import Qtss.Backtest.Iq.Stops
import Qtss.Backtest.Iq.Runner
import Qtss.Pivots.Batch
import Qtss.ChartPatterns.NextLevel
import Qtss.Scheduler.Store
import Qtss.Worker.StopLog
import Qtss.Worker.TakeProfits
import Qtss.Worker.Ladders
import Qtss.Worker.BridgeBooks
import Qtss.Storage.PnlIsolation
import Qtss.Worker.PositionManager
import Qtss.Worker.VenueResponses
import Qtss.Worker.StreamRecords
import Qtss.Worker.OrderWriters
import Qtss.Worker.KillSwitch
import Qtss.Worker.ExposureCap
import Qtss.Risk.LiquidationGuard
import Qtss.Worker.Hydration
import Qtss.Strategy.CopyTrade
import Qtss.Storage.CopyTradeJobs
import Qtss.Worker.CopyTradeQueue
import Qtss.Worker.CopyTradeBounds
import Qtss.Config.SetJson
import Qtss.Worker.AllocatorSlots
import Qtss.Risk.Selector
import Qtss.Wyckoff.SideMutex
import Qtss.Wyckoff.PhaseOrder
import Qtss.Wyckoff.Timeline
import Qtss.Wyckoff.CycleTiling
import Qtss.ChartPatterns.Parity
import Qtss.ChartPatterns.Matches
import Qtss.Ai.Agreement
import Qtss.Worker.TacticalOnce
import Qtss.Worker.TacticalGate
import Qtss.Worker.HaltedEntries
import Qtss.Api.RefreshOnce
import Qtss.Worker.UnhedgedCloses
import Qtss.Worker.RealizedPnl
import Qtss.Worker.SelectorLoop
import Qtss.Worker.RangeSignalExecution
import Qtss.Worker.FormationBars
import Qtss.Worker.OutcomeIdentity
import Qtss.Worker.InvalidationLatch
import Qtss.Engine.PivotWriter
import Qtss.Elliott.GenuineCounts
import Qtss.Risk.Allocator
import Qtss.Risk.Ratchet
import Qtss.Risk.TpEngine
import Qtss.Worker.StopDirectives
import Qtss.Backtest.Optimize
import Qtss.Pivots.Rejected
import Qtss.Pivots.Threshold
import Qtss.Reconcile.OpenOrdersReport
import Qtss.Backtest.Metrics
import Qtss.Notify.PriceTickStore
import Qtss.Worker.StopLabels
import Qtss.Backtest.GridSearch
import Qtss.Backtest.Iq.TakeProfitFull
import Qtss.ChartPatterns.FormationTradeLevels
import Qtss.ChartPatterns.LinePair
import Qtss.ChartPatterns.TradingRangeMirror
import Qtss.Engine.SwingTags
import Qtss.Secrets.Cipher
import Qtss.Ai.CircuitBreaker
import Qtss.Worker.ValidatorMonotone
import Qtss.Worker.MarketBarsGap
import Qtss.VProfile.Builder
import Qtss.Ai.ParserTruncated
import Qtss.Audit.Writers
import Qtss.Worker.SetupPublisher
import Qtss.Api.Indicators
import Qtss.Indicators.NotNumbers
import Qtss.Indicators.TrailingStops
import Qtss.Storage.RangeEngine
