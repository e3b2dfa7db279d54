import Turnstile.Proofs.Policy.Tally
import Turnstile.Proofs.World.Vigil

/-! What an onlooker takes an actor to hold of a lock, from nothing but what its operations came to. -/
namespace Turnstile

/-- A wait that ends so has given its actor back what it held before. -/
def Value.returns : Value → Bool
  | .failed e => e = .interrupted
  | .faulted _ => false
  | _ => true

def Stage.answer : Stage → Option (Except SyncError Verdict)
  | .leaving answer | .answered answer => some answer
  | _ => none

/-- No hook answers as if a cancellation had ended a wait. -/
def World.candid (s : SyncId) (w : World) (e : Event) : Bool :=
  (w.heard s e).all fun (_, _, answer) =>
    match answer with
    | .error e => e ≠ .interrupted
    | .ok _ => true

theorem World.candid_asked {s : SyncId} {w : World} {a : ActorId} (candid : w.candid s (.step a) = true)
    {site : Site} (running : (w.actor a).activity = .busy .running (.call site .entering)) (here : site.sync = s) :
    ((w.sync s).ask site.hook a site.arg).2 ≠ .error .interrupted := by
  intro failed
  simp [World.candid, heard_eq_some.2 ⟨site, rfl, running, here, rfl, rfl⟩, failed] at candid

/-- What an onlooker notes of an actor at a lock. -/
structure Ledger extends Diary where
  hold : Int := 0
  /-- What the actor has given up for as long as it waits on a condition. -/
  lent : Option Int := none

namespace Ledger

/-- What the actor holds once its operation has ended with the value. -/
def settle (k : Lock) (s : SyncId) (l : Ledger) (v : Value) : Int :=
  match l.task with
  | some (.acquire t _ arg _) => if t = s ∧ (v = .done ∨ v = .truth true) then l.hold + arg else l.hold
  | some (.release t _ arg) =>
    if t = s ∧ (v = .truth true ∨ v = .truth false) then k.left l.hold arg else l.hold
  | some (.wait ..) => if v.returns then l.lent.getD l.hold else l.hold
  | _ => l.hold

def waits (l : Ledger) : Bool :=
  match l.task with
  | some (.wait ..) => true
  | _ => false

def note (k : Lock) (s : SyncId) (a : ActorId) (w : World) (e : Event) (l : Ledger) : Ledger :=
  let noted : Ledger := { l with toDiary := l.toDiary.note a w e }
  match e with
  | .step b =>
    if b = a then
      match (w.step a).2 with
      | some v => { noted with hold := l.settle k s v, lent := none }
      | none =>
        if l.waits && w.frees s a (.step a) then { noted with hold := 0, lent := some l.hold } else noted
    else noted
  | _ => noted

def since (k : Lock) (s : SyncId) (w : World) (a : ActorId) (events : List Event) : Ledger :=
  World.collect (note k s a) w events {}

variable {k : Lock} {s : SyncId} {a : ActorId} {w : World} {e : Event} {l : Ledger} {p : Position}

theorem toDiary_note (k : Lock) (s : SyncId) (a : ActorId) (w : World) (e : Event) (l : Ledger) :
    (l.note k s a w e).toDiary = l.toDiary.note a w e := by
  unfold note
  dsimp only
  split
  · split
    · split
      · rfl
      · split <;> rfl
    · rfl
  · rfl

theorem note_ends {v : Value} (ends : (w.step a).2 = some v) :
    (l.note k s a w (.step a)).hold = l.settle k s v ∧ (l.note k s a w (.step a)).lent = none := by
  simp [note, ends]

theorem note_lends (goesOn : (w.step a).2 = none) (waits : l.waits = true)
    (frees : w.frees s a (.step a) = true) :
    (l.note k s a w (.step a)).hold = 0 ∧ (l.note k s a w (.step a)).lent = some l.hold := by
  simp [note, goesOn, waits, frees]

/-- Nothing changes but when an operation ends or a wait gives its lock up. -/
theorem note_keeps (goesOn : e = .step a → (w.step a).2 = none)
    (keeps : e = .step a → l.waits = true → w.frees s a (.step a) = false) :
    (l.note k s a w e).hold = l.hold ∧ (l.note k s a w e).lent = l.lent := by
  cases e with
  | step b =>
    by_cases mine : b = a
    · subst mine
      have unfreed : (l.waits && w.frees s b (.step b)) = false := by
        cases waits : l.waits with
        | true => simp [keeps rfl waits]
        | false => rfl
      simp [note, goesOn, unfreed]
    · simp [note, mine]
  | _ => exact ⟨rfl, rfl⟩

end Ledger

end Turnstile
