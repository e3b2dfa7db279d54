import Turnstile.Queue.Basic

/-! What can be asked about the wait queue. -/
namespace Turnstile.WaitQueue

def hasQueued (q : WaitQueue) : Bool := q.head != q.tail

def contended (q : WaitQueue) : Bool := q.head.isSome

def actors (q : WaitQueue) : List ActorId := q.backward.filterMap fun n => (q.node n).actor

def actorsIn (q : WaitQueue) (mode : Mode) : List ActorId :=
  (q.backward.filter fun n => (q.node n).mode = mode).filterMap fun n => (q.node n).actor

def length (q : WaitQueue) : Nat := (q.backward.filter fun n => (q.node n).actor.isSome).length

def includes (q : WaitQueue) (a : ActorId) : Bool :=
  q.backward.any fun n => (q.node n).actor = some a

/-- The actor of the node behind the head, if the links between the two agree. -/
def hintedFirst (q : WaitQueue) : Option ActorId := do
  let h ← q.head
  let s ← (q.node h).next
  if (q.node s).prev = q.head then (q.node s).actor else none

/-- The actor met last on the way from the tail to the head. -/
def scannedFirst (q : WaitQueue) : Option ActorId :=
  ((q.backward.takeWhile fun n => q.head != some n).filterMap fun n => (q.node n).actor).getLast?

def first (q : WaitQueue) : Option ActorId :=
  if q.hasQueued then q.hintedFirst.or q.scannedFirst else none

def hasPredecessors (q : WaitQueue) (a : ActorId) : Bool :=
  q.hasQueued &&
    match q.head.bind fun h => (q.node h).next with
    | none => true
    | some s => (q.node s).actor != some a

/-- Does the node behind the head seem to wait for an exclusive turn? -/
def firstIsExclusive (q : WaitQueue) : Bool :=
  match q.head.bind fun h => (q.node h).next with
  | none => false
  | some s => (q.node s).mode = .exclusive && (q.node s).actor.isSome

theorem length_eq (q : WaitQueue) : q.length = q.actors.length := by
  unfold length actors
  induction q.backward with
  | nil => rfl
  | cons n rest ih =>
    cases h : (q.node n).actor with
    | none => simpa [List.filter_cons, h] using ih
    | some a => simpa [List.filter_cons, h] using ih

theorem mem_actors {q : WaitQueue} {a : ActorId} : a ∈ q.actors ↔ q.includes a = true := by
  simp [actors, includes]

end Turnstile.WaitQueue
