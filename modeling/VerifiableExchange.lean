import VerifiableExchange.Matcher.Congruence
import VerifiableExchange.Matcher.Story
import VerifiableExchange.Matcher.MidSample
import VerifiableExchange.Matcher.FillOrKill
import VerifiableExchange.Feed.Heads
import VerifiableExchange.Feed.Cancels
import VerifiableExchange.Validator.Equivocation
import VerifiableExchange.Validator.Verdicts
import VerifiableExchange.Verify.Tradable
import VerifiableExchange.Poller.ClaimChain
import VerifiableExchange.Audit.Requests
import VerifiableExchange.Anchor.AppendOnly
import VerifiableExchange.Ledger.Rows
import VerifiableExchange.Matcher.BookWalks
import VerifiableExchange.Poller.Charts
import VerifiableExchange.Poller.Windows
import VerifiableExchange.Validator.Stall
import VerifiableExchange.Poller.PnlLaw
import VerifiableExchange.Wire.Page
import VerifiableExchange.Matcher.ExactFill
import VerifiableExchange.Merkle.Attribution
import VerifiableExchange.Audit.Scan
import VerifiableExchange.Inbox.Proxies
import VerifiableExchange.Feed.LimitLaw
import VerifiableExchange.Poller.Delta
import VerifiableExchange.Poller.Mirror
import VerifiableExchange.Poller.ClaimsPage
import VerifiableExchange.Poller.Reload
import VerifiableExchange.Poller.TradeList
import VerifiableExchange.Poller.Backed
import VerifiableExchange.Poller.Tracked
import VerifiableExchange.Poller.TradeLaw
