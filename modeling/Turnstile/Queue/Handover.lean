import Turnstile.Queue.Basic

/-! Handing the turn on: who becomes the head, and who is woken for it. -/
namespace Turnstile.WaitQueue

/-- The hint `next` serves while it leads to a live node. -/
def hintedSuccessor (q : WaitQueue) (n : NodeId) : Option NodeId :=
  (q.node n).next.filter fun s => (q.node s).isLive

/-- The live node met last on the way from the tail to `n`. -/
def scannedSuccessor (q : WaitQueue) (n : NodeId) : Option NodeId :=
  ((q.backward.takeWhile (· != n)).filter fun s => (q.node s).isLive).getLast?

def successor (q : WaitQueue) (n : NodeId) : Option NodeId :=
  (q.hintedSuccessor n).or (q.scannedSuccessor n)

/-- Answers a request for a signal, which lapses with it, and names the actor to wake. -/
def wakeNext (q : WaitQueue) (n : NodeId) : WaitQueue × Option ActorId :=
  let q := if (q.node n).status.pending then q.setStatus n .initial else q
  (q, (q.successor n).bind fun s => (q.node s).actor)

theorem wakeNext_head (q : WaitQueue) (n : NodeId) : (q.wakeNext n).1.head = q.head := by
  unfold wakeNext
  split <;> rfl

def wakeFirst (q : WaitQueue) : WaitQueue × Option ActorId :=
  match q.head with
  | none => (q, none)
  | some h => if (q.node h).status = .initial then (q, none) else q.wakeNext h

/-- A node with its turn is the head and waits no longer. -/
def promote (q : WaitQueue) (n : NodeId) : WaitQueue :=
  (({ q with head := some n } : WaitQueue).clearActor n).setPrev n none

/-- Serves a request made to the head, or leaves word there that a release went by. -/
def wakeShared (q : WaitQueue) : WaitQueue × Option ActorId :=
  match q.head with
  | none => (q, none)
  | some h =>
    if q.tail = some h then (q, none)
    else
      match (q.node h).status with
      | .signal => q.wakeNext h
      | .initial => (q.setStatus h .propagate, none)
      | _ => (q, none)

theorem wakeShared_head (q : WaitQueue) : q.wakeShared.1.head = q.head := by
  unfold wakeShared
  split
  · rfl
  · split
    · rfl
    · split
      · exact q.wakeNext_head _
      · rfl
      · rfl

/-- Promotes a shared node, and lets the turn go on while anything says that more may follow. -/
def promoteShared (q : WaitQueue) (n : NodeId) (cascade : Bool) : WaitQueue × Option ActorId :=
  let before := q.head
  let q := q.promote n
  let goesOn := cascade || before.all (fun h => (q.node h).status.pending) ||
    (q.node n).status.pending
  let mayShare := (q.node n).next.all fun s => (q.node s).mode = .shared
  if goesOn && mayShare then q.wakeShared else (q, none)

theorem promote_head (q : WaitQueue) (n : NodeId) : (q.promote n).head = some n := rfl

end Turnstile.WaitQueue
