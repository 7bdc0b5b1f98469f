import EvidentLedger.Auth.Lifecycle
import EvidentLedger.Backup.Download
import EvidentLedger.Backup.Server
import EvidentLedger.Identity.Revocation
import EvidentLedger.Ledger.Billing
import EvidentLedger.Ledger.CanonicalJson
import EvidentLedger.Ledger.ChainEndpoints
import EvidentLedger.Ledger.Permanence
import EvidentLedger.Ledger.Projects
import EvidentLedger.Ledger.Quota
import EvidentLedger.Ledger.Tokens
import EvidentLedger.Paddle.Customers
import EvidentLedger.Paddle.Lifecycle
import EvidentLedger.Paddle.Stale
import EvidentLedger.Paddle.Waiting
import EvidentLedger.RateLimiter.Bound
import EvidentLedger.RateLimiter.RetryAfter
import EvidentLedger.Registry.Immutable
import EvidentLedger.Registry.PublicVerify
import EvidentLedger.Report
import EvidentLedger.TsaCache
