import Turnstile.Position
import Turnstile.Synchronizer
import Turnstile.Proofs.Queue.Change
import Turnstile.Proofs.Queue.Turning

/-! The seats that actors have at a synchronizer, by how far they have come: which node they keep, and
what they find there. -/
namespace Turnstile

/-- What an actor needs of a queue in order to go on. -/
inductive Seat
  | none
  /-- In the queue; an actor that is called to its turn stands directly behind the head. -/
  | queued (node : NodeId) (mode : Mode) (called : Bool)
  /-- In the queue or on a condition. -/
  | waiting (node : NodeId)
  /-- On a condition. -/
  | entering (node : NodeId)

namespace Seat

def node : Seat → Option NodeId
  | .none => Option.none
  | .queued n _ _ | .waiting n | .entering n => some n

/-- The queue keeps the seat for the actor. -/
def Held (q : WaitQueue) (a : ActorId) : Seat → Prop
  | .none => True
  | .queued n mode called => n ∈ q.live ∧ (q.node n).actor = some a ∧ (q.node n).mode = mode ∧
      (called = true → (q.node n).prev = q.head)
  | .waiting n => q.InUse n ∧ (q.node n).actor = some a ∧ (q.node n).mode = .exclusive
  | .entering n => (q.node n).status = .condition ∧ (q.node n).actor = some a ∧
      (q.node n).mode = .exclusive

variable {q q' : WaitQueue} {a : ActorId} {x : Seat} {n : NodeId}

theorem Held.inUse (h : x.Held q a) (hn : x.node = some n) : q.InUse n := by
  cases x with
  | none => simp [node] at hn
  | queued m mode called =>
    obtain rfl : m = n := by simpa [node] using hn
    exact Or.inl h.1
  | waiting m =>
    obtain rfl : m = n := by simpa [node] using hn
    exact h.1
  | entering m =>
    obtain rfl : m = n := by simpa [node] using hn
    exact Or.inr h.1

theorem Held.actor (h : x.Held q a) (hn : x.node = some n) : (q.node n).actor = some a := by
  cases x with
  | none => simp [node] at hn
  | queued m mode called =>
    obtain rfl : m = n := by simpa [node] using hn
    exact h.2.1
  | waiting m =>
    obtain rfl : m = n := by simpa [node] using hn
    exact h.2.1
  | entering m =>
    obtain rfl : m = n := by simpa [node] using hn
    exact h.2.1

/-- Others keep their seats through a change that is not theirs. -/
theorem Held.change {woken : List ActorId} {mine mine' : Option NodeId} (h : x.Held q a)
    (hc : q.Change q' woken mine mine') (other : ∀ n, x.node = some n → mine ≠ some n)
    (still : ∀ n, x = .entering n → (q.node n).status = .condition →
      (q'.node n).status = .condition) : x.Held q' a := by
  cases x with
  | none => trivial
  | queued n mode called =>
    obtain ⟨live, actor, hm, turn⟩ := h
    have ne := other n rfl
    refine ⟨hc.live n ne live, ?_, ?_, fun hc' => hc.turn n ne live (turn hc')⟩
    · rw [hc.actor n ne (Or.inl live), actor]
    · rw [hc.mode n ne (Or.inl live), hm]
  | waiting n =>
    obtain ⟨used, actor, hm⟩ := h
    have ne := other n rfl
    refine ⟨used.elim (fun live => Or.inl (hc.live n ne live)) (hc.waits n ne), ?_, ?_⟩
    · rw [hc.actor n ne used, actor]
    · rw [hc.mode n ne used, hm]
  | entering n =>
    obtain ⟨waits, actor, hm⟩ := h
    have ne := other n rfl
    refine ⟨still n rfl waits, ?_, ?_⟩
    · rw [hc.actor n ne (Or.inr waits), actor]
    · rw [hc.mode n ne (Or.inr waits), hm]

theorem Held.served {r : WaitQueue × Option ActorId} (hx : x.Held q a) (hr : q.Served r) :
    x.Held r.1 a := by
  have inUse : ∀ n, r.1.InUse n ↔ q.InUse n := fun n => by
    rw [WaitQueue.InUse, WaitQueue.InUse, hr.live, hr.waits]
  cases x with
  | none => trivial
  | queued n mode called =>
    obtain ⟨live, actor, hm, turn⟩ := hx
    exact ⟨hr.live ▸ live, (hr.actor n).trans actor, (hr.mode n).trans hm,
      fun hc => by rw [hr.prev, hr.head, turn hc]⟩
  | waiting n =>
    exact ⟨(inUse n).2 hx.1, (hr.actor n).trans hx.2.1, (hr.mode n).trans hx.2.2⟩
  | entering n =>
    exact ⟨(hr.waits n).2 hx.1, (hr.actor n).trans hx.2.1, (hr.mode n).trans hx.2.2⟩

theorem Held.alike {h : NodeId} {body : List NodeId} (hx : x.Held q a) (hq : q.Shaped h body)
    (ha : q.Alike q') : x.Held q' a := by
  cases x with
  | none => trivial
  | queued n mode called =>
    obtain ⟨live, actor, hm, turn⟩ := hx
    exact ⟨ha.live hq ▸ live, (ha.actor n).trans actor, (ha.mode n).trans hm,
      fun hc => by rw [ha.prev, ha.head, turn hc]⟩
  | waiting n =>
    exact ⟨(ha.inUse hq n).2 hx.1, (ha.actor n).trans hx.2.1, (ha.mode n).trans hx.2.2⟩
  | entering n =>
    exact ⟨(ha.status n).trans hx.1, (ha.actor n).trans hx.2.1, (ha.mode n).trans hx.2.2⟩

end Seat

def Stage.granted : Stage → Bool
  | .leaving answer | .answered answer => grants answer
  | _ => false

def Stage.refused : Stage → Bool
  | .leaving (.ok v) | .answered (.ok v) => !v.isGrant
  | _ => false

namespace Position

/-- The seat at the synchronizer of an actor that has come so far. -/
def seat (s : SyncId) : Position → Seat
  | .turn q | .lingering q | .roused q =>
    if q.claim.sync = s then .queued q.node q.claim.mode false else .none
  | .call (.turn q) _ => if q.claim.sync = s then .queued q.node q.claim.mode true else .none
  | .waiting v | .dozing v | .awoken v => if v.terms.sync = s then .waiting v.node else .none
  | .call (.letGo t n _) stage =>
    if t.sync = s then (if stage.granted then .waiting n else .entering n) else .none
  | _ => .none

def claim : Position → Int
  | .turn q | .lingering q | .roused q | .call (.turn q) _ => q.claim.arg
  | .waiting v | .dozing v | .awoken v => v.saved
  | .call (.letGo _ _ saved) _ => saved
  | _ => 0

/-- Actors park only here. -/
def parks : Position → Bool
  | .roused _ | .awoken _ => true
  | _ => false

/-- Whether the actor will park next unless it has a permit, or tries in vain if it is called. -/
def sleepy (permit called : Bool) : Position → Bool
  | .dozing _ => !permit
  | .lingering _ => !permit && called
  | .call (.turn _) stage => !permit && called && stage.refused
  | _ => false

/-- Whether a release has been consented to and nobody has been woken for it yet. -/
def releasing (s : SyncId) : Position → Bool
  | .call (.release t _ _) stage => t = s && stage.granted
  | .call (.letGo t _ _) stage => t.sync = s && stage.granted
  | _ => false

/-- Whether a hook of the synchronizer is called next, or its state or owner is written to. -/
def asks (s : SyncId) : Position → Bool
  | .call site .entering => site.sync = s
  | .start (.setState t _) | .start (.exchangeState t _ _) | .start (.setOwner t _)
  | .start (.claimOwner t) => t = s
  | _ => false

/-- Whether nodes of others may be moved to the queue next. -/
def signals (s : SyncId) : Position → Bool
  | .call (.errand t _ _) (.answered (.ok v)) => t = s && v.isGrant
  | _ => false

def takes (s : SyncId) : Position → Option Queued
  | .call (.turn q) (.answered (.ok v)) => if q.claim.sync = s && v.isGrant then some q else none
  | _ => none

theorem signals_eq {s : SyncId} {p : Position} (h : p.signals s = true) :
    ∃ t c e v, p = .call (.errand t c e) (.answered (.ok v)) ∧ t = s ∧ v.isGrant = true := by
  unfold signals at h
  split at h
  · exact ⟨_, _, _, _, rfl, by simpa using h⟩
  · simp at h

theorem takes_eq {s : SyncId} {p : Position} {q : Queued} (h : p.takes s = some q) :
    ∃ v, p = .call (.turn q) (.answered (.ok v)) ∧ q.claim.sync = s ∧ v.isGrant = true := by
  unfold takes at h
  split at h
  · split at h
    · rename_i granted
      obtain rfl := Option.some.inj h
      exact ⟨_, rfl, by simpa using granted⟩
    · simp at h
  · simp at h

/-- Only who has yet to give up the synchronizer is on the way to a condition. -/
theorem entering_eq {s : SyncId} {p : Position} {n : NodeId} (h : p.seat s = .entering n) :
    ∃ t saved stage, p = .call (.letGo t n saved) stage ∧ t.sync = s ∧ stage.granted = false := by
  cases p with
  | call site stage =>
    cases site with
    | letGo t m saved =>
      simp only [seat] at h
      split at h
      · rename_i here
        split at h
        · simp at h
        · rename_i fresh
          obtain rfl := Seat.entering.inj h
          exact ⟨t, saved, stage, rfl, here, by simpa using fresh⟩
      · simp at h
    | turn q =>
      simp only [seat] at h
      split at h <;> simp at h
    | _ => simp [seat] at h
  | turn _ | lingering _ | roused _ | waiting _ | dozing _ | awoken _ =>
    simp only [seat] at h
    split at h <;> simp at h
  | _ => simp [seat] at h

end Position

end Turnstile
