import Turnstile.Node
import Turnstile.Table

/-! The wait queue of a synchronizer: nodes linked from the tail back to the head. -/
namespace Turnstile

/-- The first entries met from `start` along `link`, at most as many as given. -/
def trail (link : Nat → Option Nat) : Nat → Option Nat → List Nat
  | 0, _ => []
  | _, none => []
  | bound + 1, some i => i :: trail link bound (link i)

@[simp] theorem trail_none (link : Nat → Option Nat) (bound : Nat) : trail link bound none = [] := by
  cases bound <;> rfl

/-- The table also holds nodes that have left the queue or have not joined it. -/
structure WaitQueue where
  nodes : Table Node
  head : Option NodeId
  tail : Option NodeId

namespace WaitQueue

/-- The node that is the head until an actor has had its turn. -/
def placeholder : NodeId := 0

/-- Before anyone had to wait there is a placeholder, but neither head nor tail. -/
def empty : WaitQueue := ⟨.ofList [{}], none, none⟩

instance : Inhabited WaitQueue := ⟨empty⟩

def node (q : WaitQueue) (n : NodeId) : Node := q.nodes.get n

def update (q : WaitQueue) (n : NodeId) (f : Node → Node) : WaitQueue :=
  { q with nodes := q.nodes.modify n f }

def setStatus (q : WaitQueue) (n : NodeId) (s : Status) : WaitQueue :=
  q.update n ({ · with status := s })

def setNext (q : WaitQueue) (n : NodeId) (next : Option NodeId) : WaitQueue :=
  q.update n ({ · with next })

def setPrev (q : WaitQueue) (n : NodeId) (prev : Option NodeId) : WaitQueue :=
  q.update n ({ · with prev })

def setFollower (q : WaitQueue) (n : NodeId) (follower : Option NodeId) : WaitQueue :=
  q.update n ({ · with follower })

def clearActor (q : WaitQueue) (n : NodeId) : WaitQueue := q.update n ({ · with actor := none })

def isHead (q : WaitQueue) (n : NodeId) : Bool := q.head == some n

def create (q : WaitQueue) (mode : Mode) (status : Status) (a : ActorId) : WaitQueue × NodeId :=
  ({ q with nodes := q.nodes.push { status, mode, actor := some a } }, q.nodes.size)

def opened (q : WaitQueue) : WaitQueue :=
  if q.tail.isNone then { q with head := some placeholder, tail := some placeholder } else q

/-- Appends the node at the tail. The old tail, now in front of it, comes with the queue. -/
def enqueue (q : WaitQueue) (n : NodeId) : WaitQueue × NodeId :=
  let q := q.opened
  let last := q.tail.getD placeholder
  ({ (q.setPrev n (some last)).setNext last (some n) with tail := some n }, last)

def join (q : WaitQueue) (mode : Mode) (a : ActorId) : WaitQueue × NodeId :=
  let (q, n) := q.create mode .initial a
  ((q.enqueue n).1, n)

def backFrom (q : WaitQueue) (n : Option NodeId) : List NodeId :=
  trail (fun i => (q.node i).prev) q.nodes.size n

def backward (q : WaitQueue) : List NodeId := q.backFrom q.tail

def forward (q : WaitQueue) : List NodeId :=
  trail (fun i => (q.node i).next) q.nodes.size q.head

@[simp] theorem head_update (q : WaitQueue) (n : NodeId) (f : Node → Node) :
    (q.update n f).head = q.head := rfl

@[simp] theorem tail_update (q : WaitQueue) (n : NodeId) (f : Node → Node) :
    (q.update n f).tail = q.tail := rfl

@[simp] theorem node_update_of_ne (q : WaitQueue) {n m : NodeId} (f : Node → Node) (h : n ≠ m) :
    (q.update n f).node m = q.node m :=
  q.nodes.get_modify_of_ne f h

theorem node_update_self {q : WaitQueue} {n : NodeId} (f : Node → Node) (h : n < q.nodes.size) :
    (q.update n f).node n = f (q.node n) :=
  q.nodes.get_modify_self f h

theorem node_of_size_le {q : WaitQueue} {n : NodeId} (h : q.nodes.size ≤ n) : q.node n = {} :=
  Table.get_of_size_le h

theorem node_create (q : WaitQueue) (mode : Mode) (status : Status) (a : ActorId) :
    (q.create mode status a).1.node q.nodes.size = { status, mode, actor := some a } := by
  simp [create, node, Table.get_push]

end WaitQueue

end Turnstile
