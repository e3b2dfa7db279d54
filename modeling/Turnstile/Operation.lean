import Turnstile.Clock
import Turnstile.Error
import Turnstile.Node

/-! What actors can be told to do, and what comes of it. -/
namespace Turnstile

/-- When a timed operation gives up. -/
inductive Limit
  | timeout (d : Span)
  | deadline (t : Moment)
  deriving DecidableEq, Repr

def Limit.deadlineFrom (now : Moment) : Limit → Option Moment
  | .timeout d => Moment.after now d
  | .deadline t => some t

/-- How an acquisition may end early. Without a token it cannot be cancelled. -/
inductive Style
  | plain
  /-- A cancellation is put off until the acquisition is over. -/
  | uninterruptible (token : Option TokenId)
  | interruptible (token : Option TokenId)
  | timed (token : Option TokenId) (limit : Limit)
  deriving DecidableEq, Repr

inductive WaitStyle
  | uninterruptible (token : Option TokenId)
  | interruptible (token : Option TokenId)
  /-- Tells whether a signal came in time. -/
  | inTime (token : Option TokenId) (limit : Limit)
  /-- Tells how much of the timeout is left. -/
  | timeLeft (token : Option TokenId) (timeout : Span)
  deriving DecidableEq, Repr

inductive Errand
  | signal
  | signalAll
  | hasWaiters
  | countWaiters
  | listWaiters
  deriving DecidableEq, Repr

inductive Operation
  | acquire (sync : SyncId) (mode : Mode) (arg : Int) (style : Style)
  | release (sync : SyncId) (mode : Mode) (arg : Int)
  | isHeld (sync : SyncId)
  | hasPredecessors (sync : SyncId)
  | isQueued (sync : SyncId) (actor : ActorId)
  | owns (sync : SyncId) (condition : ConditionId)
  | wait (sync : SyncId) (condition : ConditionId) (style : WaitStyle)
  | errand (sync : SyncId) (condition : ConditionId) (errand : Errand)
  | getState (sync : SyncId)
  | setState (sync : SyncId) (value : Int)
  | exchangeState (sync : SyncId) (expected update : Int)
  | setOwner (sync : SyncId) (owner : Option ActorId)
  | claimOwner (sync : SyncId)
  | isOwner (sync : SyncId)
  /-- Without a token nobody else learns of it. -/
  | cancel (token : Option TokenId)
  /-- A request under a name that means nothing. -/
  | unknown
  deriving DecidableEq, Repr

def Operation.firstLooks : Operation → Nat
  | .acquire _ _ _ (.timed _ (.timeout _)) => 1
  | .wait _ _ (.inTime _ (.timeout _)) => 1
  | .wait _ _ (.timeLeft ..) => 2
  | _ => 0

inductive Value
  | done
  | truth (b : Bool)
  | number (n : Int)
  | actors (as : List ActorId)
  | timeLeft (left : Option Span)
  | failed (e : SyncError)
  | faulted (f : Fault)
  | unknown
  deriving DecidableEq, Repr, Inhabited

end Turnstile
