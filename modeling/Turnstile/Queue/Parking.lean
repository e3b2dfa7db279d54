import Turnstile.Error
import Turnstile.Queue.Handover

/-! Before a queued actor parks, and when it gives up. -/
namespace Turnstile.WaitQueue

/-- Links the node to the nearest live one before it. If there is none, the walk has still led as far
back as it goes. -/
def skipDead (q : WaitQueue) (n : NodeId) : WaitQueue × Option NodeId :=
  let before := q.backFrom (q.node n).prev
  let found := before.find? fun p => (q.node p).isLive
  (q.setPrev n (found.or before.getLast?), found)

/-- An actor may park once the node before its own has been asked for a signal. Asking takes a
round of its own, so that a release which came in between is not missed. -/
def readyToPark (q : WaitQueue) (n : NodeId) : WaitQueue × Except Fault Bool :=
  match (q.node n).prev with
  | none => (q, .error .noPredecessor)
  | some p =>
    if (q.node p).status = .signal then (q, .ok true)
    else if (q.node p).isLive then (q.setStatus p .signal, .ok false)
    else
      match q.skipDead n with
      | (q, some p) => (q.setNext p (some n), .ok false)
      | (q, none) => (q, .error .noPredecessor)

/-- Makes `p` answer for whoever is behind the cancelled node `n`: `p` is asked for a signal and
linked past `n`, or else the successor of `n` is woken to see for itself. -/
def bypass (q : WaitQueue) (p n : NodeId) : WaitQueue × Option ActorId :=
  if q.isHead p then q.wakeNext n
  else
    let q := q.setStatus p .signal
    if (q.node p).actor.isNone then q.wakeNext n
    else
      match q.hintedSuccessor n with
      | some s => (q.setNext p (some s), none)
      | none => (q, none)

/-- Cancels the node and takes it out as far as its neighbours allow. Once is enough: a node that was
cancelled before stays as it is. -/
def withdraw (q : WaitQueue) (n : NodeId) : WaitQueue × Option ActorId × Except Fault Unit :=
  if (q.node n).status = .cancelled then (q, none, .ok ())
  else
    match (q.clearActor n).skipDead n with
    | (q, none) => (q, none, .error .noPredecessor)
    | (q, some p) =>
      let q := q.setStatus n .cancelled
      if q.tail = some n then
        ({ q.setNext p none with tail := some p }, none, .ok ())
      else
        let (q, woken) := q.bypass p n
        (q.setNext n none, woken, .ok ())

theorem withdraw_cancelled {q : WaitQueue} {n : NodeId} (h : (q.node n).status = .cancelled) :
    q.withdraw n = (q, none, .ok ()) := by
  simp [withdraw, h]

end Turnstile.WaitQueue
