import Turnstile.Policy.Basic

/-! Synchronizers: a policy with its words and the queue of those who wait for it. -/
namespace Turnstile

/-- A hook that answers with an error instead of its policy, so many times or for good. -/
structure Failure where
  error : SyncError
  times : Option Nat

def Failure.used (f : Failure) : Option Failure :=
  match f.times with
  | none => some f
  | some n => if n ≤ 1 then none else some { f with times := some (n - 1) }

structure Synchronizer where
  policy : Policy
  state : Int
  owner : Option ActorId := none
  queue : WaitQueue := .empty
  failures : Hook → Option Failure := fun _ => none
  asked : Nat := 0

namespace Synchronizer

instance : Inhabited Synchronizer := ⟨{ policy := .bare, state := 0 }⟩

def setFailure (s : Synchronizer) (h : Hook) (f : Option Failure) : Synchronizer :=
  { s with failures := fun k => if k = h then f else s.failures k }

/-- Lets the next calls of the hook fail. No times at all lifts a failure. -/
def breakHook (s : Synchronizer) (h : Hook) (error : SyncError) (times : Option Nat) :
    Synchronizer :=
  s.setFailure h (if times = some 0 then none else some ⟨error, times⟩)

def inquiry (s : Synchronizer) (a : ActorId) (arg : Int) : Inquiry :=
  ⟨a, arg, s.state, s.owner, s.queue, s.asked⟩

/-- Puts a question to the policy, unless the hook is broken. -/
def ask (s : Synchronizer) (h : Hook) (a : ActorId) (arg : Int) :
    Synchronizer × Except SyncError Verdict :=
  match s.failures h with
  | some f => (s.setFailure h f.used, .error f.error)
  | none =>
    let d := s.policy.decide h (s.inquiry a arg)
    ({ s with state := d.state, owner := d.owner, asked := s.asked + 1 }, d.verdict)

theorem policy_ask (x : Synchronizer) (h : Hook) (a : ActorId) (arg : Int) :
    (x.ask h a arg).1.policy = x.policy := by
  unfold ask
  split <;> rfl

/-- What a policy decides about an inquiry, as far as it shows. -/
def Decides (i : Inquiry) (d : Decision) (r : Synchronizer × Except SyncError Verdict) : Prop :=
  (r.1.state = d.state ∧ r.1.owner = d.owner ∧ r.2 = d.verdict) ∨
    (r.1.state = i.state ∧ r.1.owner = i.owner ∧ ∃ e, r.2 = .error e)

/-- A hook that is broken leaves everything as it is. -/
theorem decides_ask (x : Synchronizer) (h : Hook) (a : ActorId) (arg : Int) :
    Decides (x.inquiry a arg) (x.policy.decide h (x.inquiry a arg)) (x.ask h a arg) := by
  unfold ask
  split
  · exact Or.inr ⟨rfl, rfl, _, rfl⟩
  · exact Or.inl ⟨rfl, rfl, rfl⟩

def summary (s : Synchronizer) : String :=
  "[State = " ++ toString s.state ++ ", " ++ (if s.queue.hasQueued then "nonempty" else "empty") ++
    " queue]"

def describe (s : Synchronizer) : String :=
  let owner := match s.owner with
    | none => "None"
    | some a => "Some(OwnerId(A" ++ toString a ++ "))"
  "QueuedSync \x7b core: SyncCore \x7b state: " ++ toString s.state ++ ", owner: " ++ owner ++
    ", queue_length: " ++ toString s.queue.length ++ " \x7d, hooks: " ++ s.policy.name ++ " \x7d"

/-- The nodes from the head along the hints, each by status, mode and actor. -/
def nodeTexts (s : Synchronizer) : List String :=
  s.queue.forward.map fun n =>
    let node := s.queue.node n
    toString node.status.code ++ node.mode.letter ++
      match node.actor with
      | none => "-"
      | some a => toString a

end Synchronizer

end Turnstile
