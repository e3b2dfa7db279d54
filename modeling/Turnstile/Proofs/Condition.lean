import Turnstile.Condition
import Turnstile.Proofs.Queue.Effects

/-! Conditions leave the wait queue as it is, save for the nodes that a signal moves there. -/
namespace Turnstile.Condition

open WaitQueue

variable {q : WaitQueue} {h : NodeId} {body : List NodeId}

theorem alike_chain (q : WaitQueue) (ns : List NodeId) : Alike q (chain q ns) := by
  induction ns generalizing q with
  | nil => exact Alike.refl q
  | cons n rest ih =>
    cases rest with
    | nil => exact Alike.setFollower q n none
    | cons m rest => exact (Alike.setFollower q n (some m)).trans (ih _)

theorem alike_unchain (q : WaitQueue) (ns : List NodeId) :
    Alike q (ns.foldl (fun q n => q.setFollower n none) q) := by
  induction ns generalizing q with
  | nil => exact Alike.refl q
  | cons n rest ih => exact (Alike.setFollower q n none).trans (ih _)

theorem alike_prune (c : Condition) (q : WaitQueue) : Alike q (c.prune q).2 :=
  (alike_unchain q _).trans (alike_chain _ _)

/-- Whoever begins to wait has a new node, which is chained to the others. -/
theorem join_spec (c : Condition) (q : WaitQueue) (a : ActorId) :
    ∃ q₁, Alike q q₁ ∧ (c.join q a).2.2 = q₁.nodes.size ∧
      Alike (q₁.create .exclusive .condition a).1 (c.join q a).2.1 := by
  by_cases stale : (c.last.any fun n => (q.node n).status != .condition) = true
  · refine ⟨(c.prune q).2, c.alike_prune q, ?_⟩
    cases last : (c.prune q).1.last with
    | none => simpa [join, stale, last] using ⟨rfl, Alike.refl _⟩
    | some l => simpa [join, stale, last] using ⟨rfl, Alike.setFollower _ _ _⟩
  · refine ⟨q, Alike.refl q, ?_⟩
    cases last : c.last with
    | none => simpa [join, stale, last] using ⟨rfl, Alike.refl _⟩
    | some l =>
      have waits : (q.node l).status = .condition := by simpa [last] using stale
      simpa [join, waits, last] using ⟨rfl, Alike.setFollower _ _ _⟩

theorem change_transfer (hq : Shaped q h body) (n : NodeId) :
    Change q ((q.setFollower n none).transferSignalled n).1 [] none none :=
  have ha := Alike.setFollower q n none
  Change.after_alike ha hq ((ha.shaped hq).change_transferSignalled n)

/-- Nobody is woken by a signal: the node that it moves can always ask for another. -/
theorem woken_transfer (hq : Shaped q h body) (n : NodeId) :
    ((q.setFollower n none).transferSignalled n).2.1 = none := by
  by_cases waits : ((q.setFollower n none).node n).status = .condition
  · have := (((Alike.setFollower q n none).shaped hq).joined_transferSignalled waits).1
    rw [this]
  · rw [transferSignalled_of_ne waits]

theorem change_signalFrom (c : Condition) (hq : Shaped q h body) (ns : List NodeId) :
    Change q (c.signalFrom q ns).2.1 [] none none ∧ (c.signalFrom q ns).2.2 = none := by
  induction ns generalizing c q h body with
  | nil => exact ⟨(Alike.refl q).change hq none, rfl⟩
  | cons n rest ih =>
    have change := change_transfer hq n
    have quiet := woken_transfer hq n
    obtain ⟨h', body', hq'⟩ := change.shaped
    unfold signalFrom
    dsimp only
    split
    · rename_i moved
      rw [moved] at change quiet
      exact ⟨change, quiet⟩
    · rename_i stayed
      rw [stayed] at change hq'
      obtain ⟨later, none⟩ := ih _ hq'
      exact ⟨change.trans later, none⟩

theorem change_moveAll (hq : Shaped q h body) (ns : List NodeId) :
    Change q (moveAll q ns).1 [] none none ∧ (moveAll q ns).2 = [] := by
  induction ns generalizing q h body with
  | nil => exact ⟨(Alike.refl q).change hq none, rfl⟩
  | cons n rest ih =>
    have change := change_transfer hq n
    have quiet := woken_transfer hq n
    obtain ⟨h', body', hq'⟩ := change.shaped
    obtain ⟨later, none⟩ := ih hq'
    refine ⟨change.trans later, ?_⟩
    unfold moveAll
    dsimp only
    rw [quiet, none]
    rfl

end Turnstile.Condition
