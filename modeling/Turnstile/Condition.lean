import Turnstile.Queue.Transfer

/-! Conditions: the chain of nodes whose actors wait to be signalled. -/
namespace Turnstile

/-- The chain runs from `first` along `follower` through the nodes of its synchronizer. -/
structure Condition where
  owner : SyncId
  first : Option NodeId := none
  last : Option NodeId := none
  deriving DecidableEq, Repr, Inhabited

namespace Condition

def waiters (c : Condition) (q : WaitQueue) : List NodeId :=
  trail (fun n => (q.node n).follower) q.nodes.size c.first

def unsignalled (c : Condition) (q : WaitQueue) : List NodeId :=
  (c.waiters q).filter fun n => (q.node n).status = .condition

def actors (c : Condition) (q : WaitQueue) : List ActorId :=
  (c.unsignalled q).filterMap fun n => (q.node n).actor

def chain (q : WaitQueue) : List NodeId → WaitQueue
  | [] => q
  | [n] => q.setFollower n none
  | n :: m :: rest => chain (q.setFollower n (some m)) (m :: rest)

def prune (c : Condition) (q : WaitQueue) : Condition × WaitQueue :=
  let kept := c.unsignalled q
  let gone := (c.waiters q).filter fun n => (q.node n).status != .condition
  ({ c with first := kept.head?, last := kept.getLast? },
    chain (gone.foldl (fun q n => q.setFollower n none) q) kept)

/-- Appends a node of the actor's, after dropping dead nodes if one stands last. -/
def join (c : Condition) (q : WaitQueue) (a : ActorId) : Condition × WaitQueue × NodeId :=
  let stale := c.last.any fun n => (q.node n).status != .condition
  let (c, q) := if stale then c.prune q else (c, q)
  let (q, n) := q.create .exclusive .condition a
  match c.last with
  | none => ({ c with first := some n, last := some n }, q, n)
  | some l => ({ c with last := some n }, q.setFollower l (some n), n)

/-- Takes nodes off the front until one can be moved to the wait queue. -/
def signalFrom (c : Condition) (q : WaitQueue) :
    List NodeId → Condition × WaitQueue × Option ActorId
  | [] => (c, q, none)
  | n :: rest =>
    let c := { c with first := rest.head?, last := if rest.isEmpty then none else c.last }
    match (q.setFollower n none).transferSignalled n with
    | (q, woken, true) => (c, q, woken)
    | (q, _, false) => signalFrom c q rest

def signal (c : Condition) (q : WaitQueue) : Condition × WaitQueue × Option ActorId :=
  c.signalFrom q (c.waiters q)

/-- Moves every node that still waits, in order. The actors to wake come in that order too. -/
def moveAll (q : WaitQueue) : List NodeId → WaitQueue × List ActorId
  | [] => (q, [])
  | n :: rest =>
    let (q, woken, _) := (q.setFollower n none).transferSignalled n
    let (q, others) := moveAll q rest
    (q, woken.toList ++ others)

def signalAll (c : Condition) (q : WaitQueue) : Condition × WaitQueue × List ActorId :=
  ({ c with first := none, last := none }, moveAll q (c.waiters q))

theorem waiters_of_first_none {c : Condition} (q : WaitQueue) (h : c.first = none) :
    c.waiters q = [] := by
  simp [waiters, h]

end Condition

end Turnstile
