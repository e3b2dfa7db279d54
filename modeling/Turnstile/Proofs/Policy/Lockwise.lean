import Turnstile.Policy.Catalogue
import Turnstile.Synchronizer

/-! What locks decide. -/
namespace Turnstile

/-- A lock has an owner if and only if it counts holds. -/
def Owned (state : Int) (owner : Option ActorId) : Prop :=
  (owner = none ∧ state = 0) ∨ ∃ b, owner = some b ∧ 0 < state

/-- What a lock decides, as far as its owner is concerned. -/
structure Lockwise (h : Hook) (i : Inquiry) (d : Decision) : Prop where
  owned : Owned d.state d.owner
  /-- Whoever owns the lock does so until its own release is granted, and others leave the state
  alone. -/
  kept : ∀ b, i.owner = some b → (d.owner = some b ∧ (b ≠ i.actor → d.state = i.state)) ∨
    (b = i.actor ∧ h = .release ∧ grants d.verdict = true)
  gained : ∀ b, d.owner = some b → i.owner = some b ∨ b = i.actor
  taken : grants d.verdict = true → h ≠ .release → d.owner = some i.actor
  held : grants d.verdict = true → h = .isHeld → i.owner = some i.actor
  freed : d.state = 0 → i.state = 0 ∨ (h = .release ∧ grants d.verdict = true)
  refused : h ≠ .release → h ≠ .isHeld → ∀ v, d.verdict = .ok v → v.isGrant = false →
    i.queue.hasPredecessors i.actor = false → d.state ≠ 0

namespace Lockwise

variable {h : Hook} {i : Inquiry}

/-- A hook that changes nothing and names nobody. -/
theorem keep {answer : Except SyncError Verdict} (owned : Owned i.state i.owner)
    (quiet : grants answer = false) (refused : h ≠ .isHeld → ∀ v, answer = .ok v →
      i.queue.hasPredecessors i.actor = false → i.state ≠ 0) : Lockwise h i (i.keep answer) where
  owned := owned
  kept b hb := Or.inl ⟨hb, fun _ => rfl⟩
  gained b hb := Or.inl hb
  taken granted := by simp [Inquiry.keep, quiet] at granted
  held granted := by simp [Inquiry.keep, quiet] at granted
  freed free := Or.inl free
  refused _ other v verdict _ first := refused other v verdict first

theorem fail (owned : Owned i.state i.owner) (e : SyncError) : Lockwise h i (i.fail e) :=
  keep owned rfl (by simp)

theorem seize {state : Int} (owned : Owned i.state i.owner) (positive : 0 < state) :
    Lockwise .acquire i (i.seize state) := by
  unfold Inquiry.seize
  split
  · rename_i free
    have none : i.owner = none := by
      rcases owned with ⟨none, -⟩ | ⟨b, -, positive'⟩
      · exact none
      · omega
    refine ⟨Or.inr ⟨i.actor, rfl, positive⟩, by simp [none], ?_, fun _ _ => rfl,
      by simp, fun zero => ?_, fun _ _ _ verdict refused => ?_⟩
    · intro b hb
      exact Or.inr (Option.some.inj hb).symm
    · exact absurd (show state = 0 from zero) (by omega)
    · obtain rfl := Except.ok.inj verdict
      simp [Verdict.isGrant] at refused
  · rename_i taken
    exact keep owned rfl fun _ _ _ _ => taken

theorem letGo (owner : i.owner = some i.actor) : Lockwise .release i ⟨.ok .granted, 0, none⟩ where
  owned := Or.inl ⟨rfl, rfl⟩
  kept b hb := Or.inr ⟨Option.some.inj (hb.symm.trans owner), rfl, rfl⟩
  gained b hb := by simp at hb
  taken _ other := absurd rfl other
  held _ other := by simp at other
  freed _ := Or.inr ⟨rfl, rfl⟩
  refused other := absurd rfl other

theorem store {state : Int} {v : Verdict} (owner : i.owner = some i.actor) (positive : 0 < state) :
    Lockwise h i (i.store state v) where
  owned := Or.inr ⟨i.actor, owner, positive⟩
  kept b hb := Or.inl ⟨hb, fun other => absurd (Option.some.inj (hb.symm.trans owner)) other⟩
  gained b hb := Or.inl hb
  taken _ _ := owner
  held _ _ := owner
  freed zero := absurd (show state = 0 from zero) (by omega)
  refused _ _ _ _ _ _ := by
    change state ≠ 0
    omega

theorem of_isOwner {d : Decision} (owned : Owned i.state i.owner)
    (own : i.owner = some i.actor → Lockwise h i d) : Lockwise h i (i.asOwner d) := by
  unfold Inquiry.asOwner
  split
  · rename_i owner
    exact own (by simpa [Inquiry.isOwner] using owner)
  · exact fail owned _

theorem reenter {limit : Int} (owned : Owned i.state i.owner) (positive : 0 < i.arg) :
    Lockwise .acquire i (i.reenter limit) := by
  unfold Inquiry.reenter
  split
  · exact seize owned positive
  · rename_i taken
    split
    · rename_i owner
      have owner : i.owner = some i.actor := by simpa [Inquiry.isOwner] using owner
      split
      · rename_i holds found
        obtain ⟨sum, -⟩ := Option.filter_eq_some_iff.1 found
        obtain ⟨rfl, -⟩ := Word.add?_eq_some.1 sum
        have counted : 0 < i.state := by
          rcases owned with ⟨none, -⟩ | ⟨b, -, counted⟩
          · simp [none] at owner
          · exact counted
        exact store owner (by omega)
      · exact fail owned _
    · exact keep owned rfl fun _ _ _ _ => taken

theorem leave {count : Int} (owned : Owned i.state i.owner)
    (enough : i.owner = some i.actor → count ≤ i.state) : Lockwise .release i (i.leave count) := by
  refine of_isOwner owned fun owner => ?_
  split
  · exact fail owned _
  · exact letGo owner
  · rename_i holds other difference
    obtain ⟨rfl, -⟩ := Word.sub?_eq_some.1 difference
    have left := enough owner
    have held : i.state - count ≠ 0 := other
    exact store owner (by omega)

theorem askOwner (owned : Owned i.state i.owner) : Lockwise .isHeld i i.askOwner := by
  unfold Inquiry.askOwner
  cases owner : i.isOwner with
  | false => exact keep owned (by simp) (by simp)
  | true =>
    have owner : i.owner = some i.actor := by simpa [Inquiry.isOwner] using owner
    exact ⟨owned, fun b hb => Or.inl ⟨hb, fun _ => rfl⟩, fun b hb => Or.inl hb,
      fun _ _ => owner, fun _ _ => owner, fun free => Or.inl free, by simp⟩

end Lockwise

namespace Policy

def IsLock (P : Policy) : Prop := P = mutex ∨ P = fair ∨ ∃ limit, P = reentrant limit

theorem IsLock.lockwise {P : Policy} (lock : P.IsLock) (h : Hook) (i : Inquiry)
    (owned : Owned i.state i.owner) (positive : h = .acquire → 0 < i.arg)
    (enough : h = .release → i.owner = some i.actor → i.arg ≤ i.state) :
    Lockwise h i (P.decide h i) := by
  rcases lock with rfl | rfl | ⟨limit, rfl⟩
  · cases h with
    | acquire => exact .seize owned (positive rfl)
    | release => exact .of_isOwner owned .letGo
    | isHeld => exact .askOwner owned
    | _ => exact .fail owned _
  · cases h with
    | acquire =>
      simp only [fair]
      split
      · rename_i behind
        exact .keep owned rfl fun _ _ _ first => by simp [first] at behind
      · exact .seize owned (positive rfl)
    | release => exact .of_isOwner owned .letGo
    | isHeld => exact .askOwner owned
    | _ => exact .fail owned _
  · cases h with
    | acquire => exact .reenter owned (positive rfl)
    | release => exact .leave owned (enough rfl)
    | isHeld => exact .askOwner owned
    | _ => exact .fail owned _

end Policy

end Turnstile
