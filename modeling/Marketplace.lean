import Marketplace.TxnProgram
import Marketplace.TxnInterleaving
import Marketplace.TxnLogic
import Marketplace.TxnSoundness
import Marketplace.TxnProtection
import Marketplace.AccountSpecs
import Marketplace.Accounts
import Marketplace.CallRules
import Marketplace.GateProofs
import Marketplace.Management
import Marketplace.BlockedProofs
import Marketplace.ExactlyOnce
import Marketplace.UserRuns
import Marketplace.Catalog
import Marketplace.ClosedMoney
import Marketplace.ModerationSpecs
import Marketplace.OutboxRuns
import Marketplace.ReservationRuns
import Marketplace.SanctionRuns
import Marketplace.TransferOutcomes
import Marketplace.WithdrawalReplays
import Marketplace.AloneRules
import Marketplace.Chat
import Marketplace.ChatRuns
import Marketplace.FixedWindow
import Marketplace.LoginRuns
import Marketplace.WithdrawalEffects
import Marketplace.AcceptOnce
import Marketplace.ChatBrowser
import Marketplace.Decimals
import Marketplace.DoubleCounting
import Marketplace.LedgerAdequacy
import Marketplace.LifecycleRuns
import Marketplace.PayloadText
import Marketplace.RetryAfter
import Marketplace.ReviewRuns
import Marketplace.ReviewVisibility
import Marketplace.RoomRuns
import Marketplace.SearchForms
import Marketplace.SearchPages
import Marketplace.ChatConsumer
import Marketplace.EditRuns
import Marketplace.Engagement
import Marketplace.EngagementRuns
import Marketplace.LegacySales
import Marketplace.Normalization
import Marketplace.NotificationPurge
import Marketplace.ProductText
import Marketplace.AmountRuns
import Marketplace.ReportRuns
import Marketplace.SessionRuns
import Marketplace.BankRuns
import Marketplace.AuditRuns
import Marketplace.ResidueRuns
