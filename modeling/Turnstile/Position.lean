import Turnstile.Operation
import Turnstile.Policy.Basic

/-! How far an actor has come with its operation. An actor that stops keeps its position and goes
on from there. -/
namespace Turnstile

structure Patience where
  token : Option TokenId := none
  /-- Whether a cancellation ends the wait. Otherwise it is put off. -/
  interruptible : Bool := false
  deadline : Option Moment := none
  deriving DecidableEq, Repr, Inhabited

inductive WaitReport
  | done
  | inTime
  | timeLeft (start : Moment) (timeout : Span)
  deriving DecidableEq, Repr, Inhabited

structure WaitTerms where
  sync : SyncId
  condition : ConditionId
  patience : Patience
  report : WaitReport
  deriving DecidableEq, Repr, Inhabited

inductive Interruption
  | never
  | afterSignal
  | beforeSignal
  deriving DecidableEq, Repr, Inhabited

structure Waiting where
  terms : WaitTerms
  node : NodeId
  /-- The state to acquire again. -/
  saved : Int
  interruption : Interruption := .never
  timedOut : Bool := false
  deriving DecidableEq, Repr, Inhabited

inductive Purpose
  /-- An operation of its own; a timed one tells that it succeeded. -/
  | operation (timed : Bool)
  /-- The end of a wait on a condition. -/
  | afterWait (w : Waiting)
  deriving DecidableEq, Repr, Inhabited

structure Claim where
  sync : SyncId
  mode : Mode
  arg : Int
  patience : Patience
  purpose : Purpose
  deriving DecidableEq, Repr, Inhabited

/-- A claim that has to wait its turn in the queue. -/
structure Queued where
  claim : Claim
  node : NodeId
  /-- Whether a cancellation was put off. -/
  swallowed : Bool := false
  deriving DecidableEq, Repr, Inhabited

inductive Site
  | attempt (c : Claim)
  | turn (q : Queued)
  | release (sync : SyncId) (mode : Mode) (arg : Int)
  | isHeld (sync : SyncId)
  | wait (t : WaitTerms)
  | letGo (t : WaitTerms) (node : NodeId) (saved : Int)
  | errand (sync : SyncId) (condition : ConditionId) (errand : Errand)
  deriving Repr

namespace Site

def hook : Site → Hook
  | .attempt c => .toAcquire c.mode
  | .turn q => .toAcquire q.claim.mode
  | .release _ mode _ => .toRelease mode
  | .letGo .. => .release
  | .isHeld _ | .wait _ | .errand .. => .isHeld

def sync : Site → SyncId
  | .attempt c => c.sync
  | .turn q => q.claim.sync
  | .release s .. | .isHeld s | .errand s .. => s
  | .wait t | .letGo t .. => t.sync

def arg : Site → Int
  | .attempt c => c.arg
  | .turn q => q.claim.arg
  | .release _ _ arg => arg
  | .letGo _ _ saved => saved
  | .isHeld _ | .wait _ | .errand .. => 0

end Site

/-- How far a call of a hook has come; an actor may be made to pause on either side of the hook. -/
inductive Stage
  | arriving
  | entering
  | leaving (answer : Except SyncError Verdict)
  | answered (answer : Except SyncError Verdict)

inductive Position
  | start (op : Operation)
  | call (site : Site) (stage : Stage)
  /-- About to queue, unless the deadline has come. -/
  | queueing (c : Claim)
  /-- At the head of the loop in which a queued actor tries again. -/
  | turn (q : Queued)
  /-- The turn did not come, or came to nothing. -/
  | lingering (q : Queued)
  /-- Back from the park of a queued actor. -/
  | roused (q : Queued)
  /-- At the head of the loop in which a wait looks for its signal. -/
  | waiting (w : Waiting)
  /-- The signal has not come. -/
  | dozing (w : Waiting)
  /-- Back from the park of a wait. -/
  | awoken (w : Waiting)
  /-- About to tell how much of its timeout a wait has left. -/
  | reckoning (start : Moment) (timeout : Span) (timedOut : Bool)

def Position.readsClock : Position → Bool
  | .queueing c => c.patience.deadline.isSome
  | .lingering q => q.claim.patience.deadline.isSome
  | .dozing w => w.terms.patience.deadline.isSome
  | .reckoning .. => true
  | _ => false

end Turnstile
