import CtaManager.Library.Check
import CtaManager.Library.OrdMap
import CtaManager.Library.StableSort
import CtaManager.Library.PartitionPoint
import CtaManager.Library.FirstSeen
import CtaManager.Text
import CtaManager.Nav.Num
import CtaManager.Nav.Types
import CtaManager.Nav.Ledger
import CtaManager.Nav.Snapshot
import CtaManager.Nav.Allocation
import CtaManager.Nav.State
import CtaManager.Nav.Activation
import CtaManager.Nav.Prepare
import CtaManager.Nav.Checkpoint
import CtaManager.Nav.PreparedForm
import CtaManager.Nav.CheckpointReplay
import CtaManager.Nav.Refresh
import CtaManager.Nav.RefreshChain
import CtaManager.Nav.Totals
import CtaManager.Nav.Cache
import CtaManager.Nav.Timeline
import CtaManager.Nav.CachedSource
import CtaManager.Nav.CheckpointQuery
import CtaManager.Nav.LinearLedger
import CtaManager.Nav.ExactTotals
import CtaManager.Nav.LedgerMeasure
import CtaManager.Nav.Shares
import CtaManager.Nav.Attribution
import CtaManager.Nav.StrategyRows
import CtaManager.Nav.TimelineEvents
import CtaManager.Nav.WithoutCorrections
import CtaManager.Nav.WindowRun
import CtaManager.Nav.AccountRows
import CtaManager.Nav.AccountFrame
import CtaManager.Nav.FifoReplay
import CtaManager.Theoretical.Fifo
import CtaManager.Theoretical.FifoAgreement
import CtaManager.Catalog.Symbols
import CtaManager.Catalog.PositionStrategy
import CtaManager.Library.OrdMapRange
import CtaManager.Library.Steps
import CtaManager.Library.Pages
import CtaManager.Archive.PositionArchive
import CtaManager.Archive.History
import CtaManager.Accounts.Followers
import CtaManager.Archive.Reading
import CtaManager.Funding.Runs
import CtaManager.Funding.Late
import CtaManager.Library.SlidingWindow
import CtaManager.Treasury.RateLimit
import CtaManager.Treasury.LimiterRuns
import CtaManager.Exec.Runs
import CtaManager.Candles.EnsureRange
import CtaManager.Candles.WeightGate
import CtaManager.Nav.FillEvidence
import CtaManager.Theoretical.Points
import CtaManager.Treasury.Acceptance
import CtaManager.Bnb.Funds
import CtaManager.Model.UniformRoundTrip
import CtaManager.Nav.JournalRuns
import CtaManager.Candles.Pricing
import CtaManager.Theoretical.MarkToMarket
import CtaManager.Exec.Projection
import CtaManager.Overview.Daily
import CtaManager.Analysis.CacheRuns
import CtaManager.Monitor.AlertRuns
import CtaManager.Reconcile.Once
import CtaManager.Nav.MarketKeys
import CtaManager.Theoretical.Divergence
import CtaManager.Accounts.LiveReading
import CtaManager.Theoretical.TargetQuery
import CtaManager.Overview.NavStore
import CtaManager.Exec.TemplateOverlay
import CtaManager.Treasury.AutoEarnRuns
import CtaManager.Web.TargetDurable
import CtaManager.Web.PublicationRuns
