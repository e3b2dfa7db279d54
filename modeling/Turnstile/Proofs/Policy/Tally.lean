import Turnstile.Proofs.Policy.Lockwise

/-! How many holds a lock's answers give and take. -/
namespace Turnstile

inductive Lock
  | mutex
  | fair
  | reentrant (limit : Int)

/-- What a lock that is in this state and has this owner counts as the actor's. -/
def holdOf (state : Int) (owner : Option ActorId) (a : ActorId) : Int := if owner = some a then state else 0

namespace Lock

def policy : Lock → Policy
  | .mutex => .mutex
  | .fair => .fair
  | .reentrant limit => .reentrant limit

theorem isLock (k : Lock) : k.policy.IsLock := by
  cases k with
  | mutex => exact Or.inl rfl
  | fair => exact Or.inr (Or.inl rfl)
  | reentrant limit => exact Or.inr (Or.inr ⟨limit, rfl⟩)

/-- What is left after a release. Only a reentrant lock counts its holds one by one. -/
def left (k : Lock) (hold arg : Int) : Int :=
  match k with
  | .reentrant _ => hold - arg
  | _ => 0

theorem left_self (k : Lock) (hold : Int) : k.left hold hold = 0 := by
  cases k <;> simp [left]

def tally (k : Lock) (h : Hook) (answer : Except SyncError Verdict) (hold arg : Int) : Int :=
  match h, answer with
  | .acquire, .ok v | .acquireShared, .ok v => if v.isGrant then hold + arg else hold
  | .release, .ok _ | .releaseShared, .ok _ => k.left hold arg
  | _, _ => hold

@[simp] theorem tally_error (k : Lock) (h : Hook) (e : SyncError) (hold arg : Int) :
    k.tally h (.error e) hold arg = hold := by
  cases h <;> rfl

@[simp] theorem tally_isHeld (k : Lock) (answer : Except SyncError Verdict) (hold arg : Int) :
    k.tally .isHeld answer hold arg = hold := by
  cases answer <;> rfl

theorem tally_toAcquire (k : Lock) (m : Mode) (v : Verdict) (hold arg : Int) :
    k.tally (.toAcquire m) (.ok v) hold arg = if v.isGrant then hold + arg else hold := by
  cases m <;> rfl

theorem tally_toRelease (k : Lock) (m : Mode) (v : Verdict) (hold arg : Int) :
    k.tally (.toRelease m) (.ok v) hold arg = k.left hold arg := by
  cases m <;> rfl

end Lock

/-- What a decision does to the holds of the actors. -/
structure Tallied (k : Lock) (h : Hook) (i : Inquiry) (d : Decision) : Prop where
  mine : holdOf d.state d.owner i.actor = k.tally h d.verdict (holdOf i.state i.owner i.actor) i.arg
  others : ∀ b, b ≠ i.actor → holdOf d.state d.owner b = holdOf i.state i.owner b
  /-- A release is granted if and only if it leaves nothing. -/
  last : h = .release → ∀ v, d.verdict = .ok v →
    (v.isGrant = true ↔ k.left (holdOf i.state i.owner i.actor) i.arg = 0)

namespace Tallied

variable {k : Lock} {h : Hook} {i : Inquiry}

theorem fail (e : SyncError) : Tallied k h i (i.fail e) :=
  ⟨by simp [Inquiry.fail, Inquiry.keep], fun _ _ => rfl, by simp [Inquiry.fail, Inquiry.keep]⟩

theorem refuse : Tallied k .acquire i i.refuse :=
  ⟨by simp [Inquiry.refuse, Inquiry.keep, Lock.tally, Verdict.isGrant], fun _ _ => rfl, by simp⟩

theorem askOwner : Tallied k .isHeld i i.askOwner :=
  ⟨by simp [Inquiry.askOwner, Inquiry.keep], fun _ _ => rfl, by simp⟩

theorem seize : Tallied k .acquire i (i.seize i.arg) := by
  unfold Inquiry.seize
  split
  · rename_i free
    have unheld : ∀ b, holdOf i.state i.owner b = 0 := fun b => by simp [holdOf, free]
    refine ⟨?_, fun b other => ?_, by simp⟩
    · simp [holdOf, free, Lock.tally, Verdict.isGrant]
    · rw [unheld, holdOf, if_neg fun e => other (Option.some.inj e).symm]
  · exact refuse

theorem store {state : Int} {v : Verdict} (owner : i.owner = some i.actor)
    (counts : state = k.tally h (.ok v) i.state i.arg)
    (last : h = .release → (v.isGrant = true ↔ k.left i.state i.arg = 0)) :
    Tallied k h i (i.store state v) := by
  have mine : holdOf i.state i.owner i.actor = i.state := if_pos owner
  refine ⟨?_, fun b other => ?_, fun release v' answer => ?_⟩
  · rw [mine]
    exact (if_pos owner).trans counts
  · have unowned : i.owner ≠ some b := fun e => other (Option.some.inj (e.symm.trans owner))
    exact (if_neg unowned).trans (if_neg unowned).symm
  · obtain rfl := Except.ok.inj answer
    rw [mine]
    exact last release

theorem letGo (owner : i.owner = some i.actor) (counts : k.left i.state i.arg = 0) :
    Tallied k .release i ⟨.ok .granted, 0, none⟩ := by
  have mine : holdOf i.state i.owner i.actor = i.state := if_pos owner
  refine ⟨?_, fun b other => ?_, fun _ v answer => ?_⟩
  · rw [mine]
    exact counts.symm
  · have unowned : i.owner ≠ some b := fun e => other (Option.some.inj (e.symm.trans owner))
    exact (if_neg unowned).symm
  · obtain rfl := Except.ok.inj answer
    rw [mine]
    simp [Verdict.isGrant, counts]

theorem of_isOwner {d : Decision} (own : i.owner = some i.actor → Tallied k h i d) :
    Tallied k h i (i.asOwner d) := by
  unfold Inquiry.asOwner
  split
  · rename_i owner
    exact own (by simpa [Inquiry.isOwner] using owner)
  · exact fail _

end Tallied

theorem Lock.tallied (k : Lock) (h : Hook) (i : Inquiry) : Tallied k h i (k.policy.decide h i) := by
  cases k with
  | mutex =>
    cases h with
    | acquire => exact .seize
    | release => exact .of_isOwner fun owner => .letGo owner rfl
    | isHeld => exact .askOwner
    | _ => exact .fail _
  | fair =>
    cases h with
    | acquire =>
      simp only [Lock.policy, Policy.fair]
      split
      · exact .refuse
      · exact .seize
    | release => exact .of_isOwner fun owner => .letGo owner rfl
    | isHeld => exact .askOwner
    | _ => exact .fail _
  | reentrant limit =>
    cases h with
    | acquire =>
      change Tallied _ _ _ (i.reenter limit)
      unfold Inquiry.reenter
      split
      · exact .seize
      · split
        · rename_i owner
          have owner : i.owner = some i.actor := by simpa [Inquiry.isOwner] using owner
          split
          · rename_i holds found
            obtain ⟨sum, -⟩ := Option.filter_eq_some_iff.1 found
            obtain ⟨rfl, -⟩ := Word.add?_eq_some.1 sum
            exact .store owner rfl (by simp)
          · exact .fail _
        · exact .refuse
    | release =>
      change Tallied _ _ _ (i.leave i.arg)
      refine .of_isOwner fun owner => ?_
      split
      · exact .fail _
      · rename_i difference
        obtain ⟨nothing, -⟩ := Word.sub?_eq_some.1 difference
        exact .letGo owner nothing.symm
      · rename_i holds other difference
        obtain ⟨rfl, -⟩ := Word.sub?_eq_some.1 difference
        exact .store owner rfl fun _ => by simpa [Verdict.isGrant, Lock.left] using other
    | isHeld => exact .askOwner
    | _ => exact .fail _

/-- A hook that is broken takes nothing and gives nothing. -/
theorem Synchronizer.tallied_ask {k : Lock} {x : Synchronizer} (policy : x.policy = k.policy) (h : Hook)
    (a : ActorId) (arg : Int) : Tallied k h (x.inquiry a arg)
      ⟨(x.ask h a arg).2, (x.ask h a arg).1.state, (x.ask h a arg).1.owner⟩ := by
  rcases x.decides_ask h a arg with ⟨state, owner, verdict⟩ | ⟨state, owner, e, failed⟩
  · rw [state, owner, verdict, policy]
    exact k.tallied h _
  · rw [state, owner, failed]
    exact .fail e

end Turnstile
