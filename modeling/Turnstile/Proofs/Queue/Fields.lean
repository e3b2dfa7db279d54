import Turnstile.Queue.Parking
import Turnstile.Queue.Transfer
import Turnstile.Queue.View

/-! What each change of a node leaves as it was, field by field. -/
namespace Turnstile

namespace Status

@[simp] theorem isDead_initial : isDead .initial = false := rfl

@[simp] theorem isDead_cancelled : isDead .cancelled = true := rfl

@[simp] theorem isDead_signal : isDead .signal = false := rfl

@[simp] theorem isDead_condition : isDead .condition = false := rfl

@[simp] theorem isDead_propagate : isDead .propagate = false := rfl

theorem eq_initial_of_code {s : Status} (h : s.code = 0) : s = .initial :=
  code_inj.1 (h.trans rfl)

/-- A node that has not given up either calls for the node behind or has been asked nothing. -/
theorem pending_of_alive {n : Node} (live : n.isLive) (asked : n.status ≠ .initial) :
    n.status.pending := by
  have alive : ¬0 < n.status.code := by
    rw [← isDead_iff]
    simpa [Node.isLive] using live
  have named : n.status.code ≠ 0 := fun h => asked (eq_initial_of_code h)
  rw [pending_iff]
  omega

end Status

namespace WaitQueue

def between (q : WaitQueue) (head tail : Option NodeId) : WaitQueue := { q with head, tail }

section between

variable (q : WaitQueue) (head tail : Option NodeId) (n : NodeId)

@[simp] theorem node_between : (q.between head tail).node n = q.node n := rfl

@[simp] theorem size_between : (q.between head tail).nodes.size = q.nodes.size := rfl

@[simp] theorem head_between : (q.between head tail).head = head := rfl

@[simp] theorem tail_between : (q.between head tail).tail = tail := rfl

end between

variable (q : WaitQueue) (n m : NodeId)

theorem promote_eq :
    q.promote n = ((q.between (some n) q.tail).clearActor n).setPrev n none := rfl

variable {n} in
theorem node_create_of_ne (mode : Mode) (status : Status) (a : ActorId)
    (h : n ≠ q.nodes.size) : (q.create mode status a).1.node n = q.node n := by
  simp [create, node, Table.get_push, h]

theorem size_create (mode : Mode) (status : Status) (a : ActorId) :
    (q.create mode status a).1.nodes.size = q.nodes.size + 1 :=
  q.nodes.size_push _

theorem node_update (f : Node → Node) :
    (q.update n f).node m = if n = m ∧ m < q.nodes.size then f (q.node m) else q.node m :=
  q.nodes.get_modify n m f

@[simp] theorem size_update (f : Node → Node) : (q.update n f).nodes.size = q.nodes.size :=
  q.nodes.size_modify n f

/-- A change that spares a field spares it in every node. -/
theorem field_update {β : Type} (g : Node → β) {f : Node → Node} (same : ∀ x, g (f x) = g x) :
    g ((q.update n f).node m) = g (q.node m) := by
  rw [node_update]
  split
  · exact same _
  · rfl

theorem field_update_of_ne {β : Type} (g : Node → β) (f : Node → Node) (h : m ≠ n) :
    g ((q.update n f).node m) = g (q.node m) := by
  rw [q.node_update_of_ne f h.symm]

section setStatus

variable (s : Status)

@[simp] theorem head_setStatus : (q.setStatus n s).head = q.head := rfl

@[simp] theorem tail_setStatus : (q.setStatus n s).tail = q.tail := rfl

@[simp] theorem size_setStatus : (q.setStatus n s).nodes.size = q.nodes.size := size_update ..

@[simp] theorem mode_setStatus : ((q.setStatus n s).node m).mode = (q.node m).mode :=
  q.field_update n m Node.mode fun _ => rfl

@[simp] theorem actor_setStatus : ((q.setStatus n s).node m).actor = (q.node m).actor :=
  q.field_update n m Node.actor fun _ => rfl

@[simp] theorem prev_setStatus : ((q.setStatus n s).node m).prev = (q.node m).prev :=
  q.field_update n m Node.prev fun _ => rfl

@[simp] theorem next_setStatus : ((q.setStatus n s).node m).next = (q.node m).next :=
  q.field_update n m Node.next fun _ => rfl

@[simp] theorem follower_setStatus : ((q.setStatus n s).node m).follower = (q.node m).follower :=
  q.field_update n m Node.follower fun _ => rfl

variable {q n} in
theorem status_setStatus_self (h : n < q.nodes.size) : ((q.setStatus n s).node n).status = s := by
  rw [setStatus, node_update_self _ h]

variable {n m} in
@[simp] theorem status_setStatus_of_ne (h : m ≠ n) :
    ((q.setStatus n s).node m).status = (q.node m).status :=
  q.field_update_of_ne n m Node.status _ h

end setStatus

section setNext

variable (x : Option NodeId)

@[simp] theorem head_setNext : (q.setNext n x).head = q.head := rfl

@[simp] theorem tail_setNext : (q.setNext n x).tail = q.tail := rfl

@[simp] theorem size_setNext : (q.setNext n x).nodes.size = q.nodes.size := size_update ..

@[simp] theorem status_setNext : ((q.setNext n x).node m).status = (q.node m).status :=
  q.field_update n m Node.status fun _ => rfl

@[simp] theorem mode_setNext : ((q.setNext n x).node m).mode = (q.node m).mode :=
  q.field_update n m Node.mode fun _ => rfl

@[simp] theorem actor_setNext : ((q.setNext n x).node m).actor = (q.node m).actor :=
  q.field_update n m Node.actor fun _ => rfl

@[simp] theorem prev_setNext : ((q.setNext n x).node m).prev = (q.node m).prev :=
  q.field_update n m Node.prev fun _ => rfl

@[simp] theorem follower_setNext : ((q.setNext n x).node m).follower = (q.node m).follower :=
  q.field_update n m Node.follower fun _ => rfl

variable {q n} in
theorem next_setNext_self (h : n < q.nodes.size) : ((q.setNext n x).node n).next = x := by
  rw [setNext, node_update_self _ h]

variable {n m} in
@[simp] theorem next_setNext_of_ne (h : m ≠ n) : ((q.setNext n x).node m).next = (q.node m).next :=
  q.field_update_of_ne n m Node.next _ h

end setNext

section setPrev

variable (x : Option NodeId)

@[simp] theorem head_setPrev : (q.setPrev n x).head = q.head := rfl

@[simp] theorem tail_setPrev : (q.setPrev n x).tail = q.tail := rfl

@[simp] theorem size_setPrev : (q.setPrev n x).nodes.size = q.nodes.size := size_update ..

@[simp] theorem status_setPrev : ((q.setPrev n x).node m).status = (q.node m).status :=
  q.field_update n m Node.status fun _ => rfl

@[simp] theorem mode_setPrev : ((q.setPrev n x).node m).mode = (q.node m).mode :=
  q.field_update n m Node.mode fun _ => rfl

@[simp] theorem actor_setPrev : ((q.setPrev n x).node m).actor = (q.node m).actor :=
  q.field_update n m Node.actor fun _ => rfl

@[simp] theorem next_setPrev : ((q.setPrev n x).node m).next = (q.node m).next :=
  q.field_update n m Node.next fun _ => rfl

@[simp] theorem follower_setPrev : ((q.setPrev n x).node m).follower = (q.node m).follower :=
  q.field_update n m Node.follower fun _ => rfl

variable {q n} in
theorem prev_setPrev_self (h : n < q.nodes.size) : ((q.setPrev n x).node n).prev = x := by
  rw [setPrev, node_update_self _ h]

variable {n m} in
@[simp] theorem prev_setPrev_of_ne (h : m ≠ n) : ((q.setPrev n x).node m).prev = (q.node m).prev :=
  q.field_update_of_ne n m Node.prev _ h

end setPrev

section setFollower

variable (x : Option NodeId)

@[simp] theorem head_setFollower : (q.setFollower n x).head = q.head := rfl

@[simp] theorem tail_setFollower : (q.setFollower n x).tail = q.tail := rfl

@[simp] theorem size_setFollower : (q.setFollower n x).nodes.size = q.nodes.size := size_update ..

@[simp] theorem status_setFollower : ((q.setFollower n x).node m).status = (q.node m).status :=
  q.field_update n m Node.status fun _ => rfl

@[simp] theorem mode_setFollower : ((q.setFollower n x).node m).mode = (q.node m).mode :=
  q.field_update n m Node.mode fun _ => rfl

@[simp] theorem actor_setFollower : ((q.setFollower n x).node m).actor = (q.node m).actor :=
  q.field_update n m Node.actor fun _ => rfl

@[simp] theorem prev_setFollower : ((q.setFollower n x).node m).prev = (q.node m).prev :=
  q.field_update n m Node.prev fun _ => rfl

@[simp] theorem next_setFollower : ((q.setFollower n x).node m).next = (q.node m).next :=
  q.field_update n m Node.next fun _ => rfl

variable {q n} in
theorem follower_setFollower_self (h : n < q.nodes.size) : ((q.setFollower n x).node n).follower = x := by
  rw [setFollower, node_update_self _ h]

variable {n m} in
@[simp] theorem follower_setFollower_of_ne (h : m ≠ n) :
    ((q.setFollower n x).node m).follower = (q.node m).follower :=
  q.field_update_of_ne n m Node.follower _ h

end setFollower

section clearActor

@[simp] theorem head_clearActor : (q.clearActor n).head = q.head := rfl

@[simp] theorem tail_clearActor : (q.clearActor n).tail = q.tail := rfl

@[simp] theorem size_clearActor : (q.clearActor n).nodes.size = q.nodes.size := size_update ..

@[simp] theorem status_clearActor : ((q.clearActor n).node m).status = (q.node m).status :=
  q.field_update n m Node.status fun _ => rfl

@[simp] theorem mode_clearActor : ((q.clearActor n).node m).mode = (q.node m).mode :=
  q.field_update n m Node.mode fun _ => rfl

@[simp] theorem prev_clearActor : ((q.clearActor n).node m).prev = (q.node m).prev :=
  q.field_update n m Node.prev fun _ => rfl

@[simp] theorem next_clearActor : ((q.clearActor n).node m).next = (q.node m).next :=
  q.field_update n m Node.next fun _ => rfl

@[simp] theorem follower_clearActor : ((q.clearActor n).node m).follower = (q.node m).follower :=
  q.field_update n m Node.follower fun _ => rfl

variable {q n} in
theorem actor_clearActor_self (h : n < q.nodes.size) : ((q.clearActor n).node n).actor = none := by
  rw [clearActor, node_update_self _ h]

variable {n m} in
@[simp] theorem actor_clearActor_of_ne (h : m ≠ n) : ((q.clearActor n).node m).actor = (q.node m).actor :=
  q.field_update_of_ne n m Node.actor _ h

end clearActor

/-- The fields after `n` has been linked behind `p`. -/
structure Linked (q q' : WaitQueue) (p n : NodeId) : Prop where
  size : q'.nodes.size = q.nodes.size
  prev_self : (q'.node n).prev = some p
  prev : ∀ m, m ≠ n → (q'.node m).prev = (q.node m).prev
  next_self : (q'.node p).next = some n
  next : ∀ m, m ≠ p → (q'.node m).next = (q.node m).next
  status : ∀ m, (q'.node m).status = (q.node m).status
  actor : ∀ m, (q'.node m).actor = (q.node m).actor

variable {q n} in
theorem linked {p : NodeId} (hp : p < q.nodes.size) (hn : n < q.nodes.size) :
    Linked q ((q.setPrev n (some p)).setNext p (some n)) p n where
  size := by simp
  prev_self := by
    rw [prev_setNext]
    exact prev_setPrev_self (some p) hn
  prev m hm := by simp [hm]
  next_self := next_setNext_self (some n) (by simpa)
  next m hm := by simp [hm]
  status m := by simp
  actor m := by simp

theorem Linked.isLive {q q' : WaitQueue} {p n : NodeId} (hl : Linked q q' p n) (m : NodeId) :
    (q'.node m).isLive = (q.node m).isLive := by
  simp [Node.isLive, hl.status]

end WaitQueue

end Turnstile
