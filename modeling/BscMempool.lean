import BscMempool.Proofs.ArchiveRate
import BscMempool.Proofs.ArmedExits
import BscMempool.Proofs.BasisPoints
import BscMempool.Proofs.BestQuote
import BscMempool.Proofs.BookRoundTrip
import BscMempool.Proofs.BorrowerDiscovery
import BscMempool.Proofs.BudgetIdentity
import BscMempool.Proofs.BudgetSaves
import BscMempool.Proofs.CaptureFailures
import BscMempool.Proofs.CaptureReplay
import BscMempool.Proofs.CommittedBudget
import BscMempool.Proofs.DailyLossHalt
import BscMempool.Proofs.DedupeLifetimes
import BscMempool.Proofs.DeliveredOnce
import BscMempool.Proofs.EntryFrame
import BscMempool.Proofs.ExitConfirmations
import BscMempool.Proofs.ExitCoverage
import BscMempool.Proofs.FeedOrder
import BscMempool.Proofs.FinalizeRace
import BscMempool.Proofs.FirstSeenOrder
import BscMempool.Proofs.FlowContents
import BscMempool.Proofs.FlowWindow
import BscMempool.Proofs.FullClose
import BscMempool.Proofs.GasCap
import BscMempool.Proofs.HardLimits
import BscMempool.Proofs.HeldMirror
import BscMempool.Proofs.JanitorSweep
import BscMempool.Proofs.KnownPairs
import BscMempool.Proofs.LedgerBuyRow
import BscMempool.Proofs.LedgerHeader
import BscMempool.Proofs.LossBaseline
import BscMempool.Proofs.LossCooldown
import BscMempool.Proofs.MulticallBounds
import BscMempool.Proofs.MulticallReply
import BscMempool.Proofs.MulticallRequest
import BscMempool.Proofs.NonceManager
import BscMempool.Proofs.NonceSequence
import BscMempool.Proofs.OneConfirmation
import BscMempool.Proofs.OpenCount
import BscMempool.Proofs.PaperBook
import BscMempool.Proofs.PaperCsv
import BscMempool.Proofs.PaperGas
import BscMempool.Proofs.PartialCloses
import BscMempool.Proofs.ProportionalExit
import BscMempool.Proofs.QuoteDecoders
import BscMempool.Proofs.ReEntry
import BscMempool.Proofs.RealizedPnl
import BscMempool.Proofs.SellApproval
import BscMempool.Proofs.SellTaxGate
import BscMempool.Proofs.SerialExits
import BscMempool.Proofs.ShadowMode
import BscMempool.Proofs.SniperTimeout
import BscMempool.Proofs.SwapSlippage
import BscMempool.Proofs.TargetToken
import BscMempool.Proofs.TimeoutSweep
import BscMempool.Proofs.TokenAmounts
import BscMempool.Proofs.TokenText
import BscMempool.Proofs.TradesFollowHits
import BscMempool.Proofs.TrailFloors
import BscMempool.Proofs.TrailHistory
import BscMempool.Proofs.TrailKnowledge
import BscMempool.Proofs.TrailMonotone
import BscMempool.Proofs.TrailRuns
import BscMempool.Proofs.TrailWindow
import BscMempool.Proofs.TruthfulMarker
