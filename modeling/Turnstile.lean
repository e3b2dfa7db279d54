import Turnstile.Policy.Catalogue
import Turnstile.Proofs.Condition.Signals
import Turnstile.Proofs.Condition.Strings
import Turnstile.Proofs.Counterparts
import Turnstile.Proofs.Policy.Counters
import Turnstile.Proofs.Policy.Fair
import Turnstile.Proofs.Policy.Holds
import Turnstile.Proofs.Policy.Locks
import Turnstile.Proofs.Policy.Permits
import Turnstile.Proofs.Queue.Bequest
import Turnstile.Proofs.Queue.Descent
import Turnstile.Proofs.Queue.Observation
import Turnstile.Proofs.Queue.Successors
import Turnstile.Proofs.Script
import Turnstile.Proofs.World.Acquisition
import Turnstile.Proofs.World.Ages
import Turnstile.Proofs.World.Deeds
import Turnstile.Proofs.World.Drain
import Turnstile.Proofs.World.Halting
import Turnstile.Proofs.World.Membership
import Turnstile.Proofs.World.Order
import Turnstile.Proofs.World.Promise
import Turnstile.Proofs.World.Reasons
import Turnstile.Proofs.World.Refusals
import Turnstile.Proofs.World.Roll
import Turnstile.Proofs.World.Safety
import Turnstile.Proofs.World.Strung
import Turnstile.Proofs.World.Summons
import Turnstile.Proofs.World.TimeLeft
import Turnstile.Proofs.World.Timed
import Turnstile.Proofs.World.Waiters
import Turnstile.Queue.Bench
import Turnstile.Script
import Turnstile.Token.Board
