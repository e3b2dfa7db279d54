import Turnstile.Queue.Handover

/-! How a node that waits on a condition comes into the wait queue. -/
namespace Turnstile.WaitQueue

/-- A node that waits on a condition or was never linked is not in the queue; one that is followed
by another is. Only the rest have to be looked for. -/
def holds (q : WaitQueue) (n : NodeId) : Bool :=
  (q.node n).status != .condition && (q.node n).prev.isSome &&
    ((q.node n).next.isSome || q.backward.contains n)

/-- Moves a node that waits on a condition because it was signalled; any other stays where it is.
If the node in front cannot be asked for a signal, the actor is woken. -/
def transferSignalled (q : WaitQueue) (n : NodeId) : WaitQueue × Option ActorId × Bool :=
  if (q.node n).status = .condition then
    let (q, p) := (q.setStatus n .initial).enqueue n
    if (q.node p).isLive then (q.setStatus p .signal, none, true)
    else (q, (q.node n).actor, true)
  else (q, none, false)

/-- Moves a node that waits on a condition because its actor waits no longer; it says whether the
node was still there to move. -/
def transferUnsignalled (q : WaitQueue) (n : NodeId) : WaitQueue × Bool :=
  if (q.node n).status = .condition then (((q.setStatus n .initial).enqueue n).1, true)
  else (q, false)

theorem transferSignalled_of_ne {q : WaitQueue} {n : NodeId}
    (h : (q.node n).status ≠ .condition) : q.transferSignalled n = (q, none, false) := by
  simp [transferSignalled, h]

theorem transferUnsignalled_of_ne {q : WaitQueue} {n : NodeId}
    (h : (q.node n).status ≠ .condition) : q.transferUnsignalled n = (q, false) := by
  simp [transferUnsignalled, h]

end Turnstile.WaitQueue
