import Turnstile.Proofs.World.Promise
import Turnstile.Proofs.World.Turns

/-! What an onlooker can tell of a wait on a condition: when it began, whether it has let go of its
synchronizer, and how its node has left the condition. -/
namespace Turnstile

def WaitStyle.patience (began : Moment) : WaitStyle → Patience
  | .uninterruptible token => { token }
  | .interruptible token => { token, interruptible := true }
  | .inTime token limit => { token, interruptible := true, deadline := limit.deadlineFrom began }
  | .timeLeft token timeout => { token, interruptible := true, deadline := Moment.after began timeout }

def WaitStyle.report (began : Moment) : WaitStyle → WaitReport
  | .uninterruptible _ | .interruptible _ => .done
  | .inTime .. => .inTime
  | .timeLeft _ timeout => .timeLeft began timeout

/-- What the wait tells if it was not cancelled. -/
def WaitStyle.told (began now : Moment) (timedOut : Bool) : WaitStyle → Value
  | .uninterruptible _ | .interruptible _ => .done
  | .inTime .. => .truth !timedOut
  | .timeLeft _ timeout =>
    let left := timeout - (now - began)
    .timeLeft (if timedOut || left = 0 then none else some left)

inductive Parting
  /-- Another actor signalled it. -/
  | signalled (signaller : ActorId)
  /-- Its own actor took the flag of its token. -/
  | cancelled
  /-- Its own actor found that the deadline had come. -/
  | expired
  | unaccounted
  deriving DecidableEq, Repr

namespace World

theorem waitTerms_eq (w : World) (s : SyncId) (c : ConditionId) (style : WaitStyle) :
    w.waitTerms s c style = ⟨s, c, style.patience w.now, style.report w.now⟩ := by
  cases style <;> rfl

/-- The actor is told that its release is granted. -/
def frees (s : SyncId) (a : ActorId) (w : World) (e : Event) : Bool :=
  (w.heard s e).any fun (b, hook, answer) => b = a && hook = .release && grants answer

/-- Who is at work when the event happens, and at what, should the actor's node leave its condition. -/
def parting (s : SyncId) (a : ActorId) (w : World) : Event → Parting
  | .step b =>
    if b = a then
      match (w.actor a).position with
      | some (.awoken v) =>
        let t := v.terms.patience.token
        if w.flagged t && !(w.step a).1.flagged t then .cancelled else .unaccounted
      | some (.dozing v) => if v.terms.patience.deadline.any (· ≤ w.now) then .expired else .unaccounted
      | _ => .unaccounted
    else if (w.actor b).position.any (·.signals s) then .signalled b
    else .unaccounted
  | _ => .unaccounted

/-- How the actor's node leaves its condition, if it does. -/
def departure (s : SyncId) (a : ActorId) (w : World) (e : Event) : Option Parting :=
  ((w.actor a).position.bind fun p => (p.seat s).node).bind fun n =>
    if ((w.queue s).node n).status = .condition ∧ (((w.happen e).queue s).node n).status ≠ .condition then
      some (w.parting s a e)
    else none

section frees

variable {s : SyncId} {a : ActorId} {w : World} {e : Event} {p : Position}

theorem exists_of_frees (freed : w.frees s a e = true) : ∃ site, e = .step a ∧
    (w.actor a).activity = .busy .running (.call site .entering) ∧ site.sync = s ∧
    site.hook = .release := by
  obtain ⟨⟨b, hook, answer⟩, heard, told⟩ := (Option.any_eq_true _ _).1 freed
  obtain ⟨site, e, running, here, asked, -⟩ := heard_eq_some.1 heard
  simp only [Bool.and_eq_true, decide_eq_true_eq] at told
  obtain ⟨⟨rfl, release⟩, -⟩ := told
  exact ⟨site, e, running, here, asked.trans release⟩

/-- Nobody is told anything that stays where it is. -/
theorem unfreed_of_bides (hp : (w.actor a).position = some p) (bides : w.Bides a e p) :
    w.frees s a e = false := by
  by_contra freed
  obtain ⟨site, rfl, running, -, -⟩ := exists_of_frees (by simpa using freed)
  obtain rfl := Option.some.inj ((Actor.position_of_busy running).symm.trans hp)
  simpa [Position.readsClock] using (bides rfl running).1

theorem unfreed_step (running : (w.actor a).activity = .busy .running p)
    (other : ∀ site, p = .call site .entering → site.hook ≠ .release) :
    w.frees s a (.step a) = false := by
  by_contra freed
  obtain ⟨site, -, running', -, release⟩ := exists_of_frees (by simpa using freed)
  obtain ⟨-, rfl⟩ := Activity.busy.inj (running.symm.trans running')
  exact other site rfl release

theorem frees_entering {site : Site} (running : (w.actor a).activity = .busy .running (.call site .entering))
    (here : site.sync = s) : w.frees s a (.step a) =
      (decide (site.hook = .release) && grants ((w.sync s).ask site.hook a site.arg).2) := by
  rw [frees, heard_eq_some.2 ⟨site, rfl, running, here, rfl, rfl⟩]
  simp

end frees

end World

/-- What an onlooker notes of a wait. -/
structure Vigil extends Diary where
  began : Moment := .epoch
  /-- Whether the synchronizer has been released for the wait. -/
  freed : Bool := false
  partings : List Parting := []

namespace Vigil

def note (s : SyncId) (a : ActorId) (w : World) (e : Event) (d : Vigil) : Vigil :=
  match e with
  | .begin b op => if b = a ∧ (w.actor a).position = none then { task := some op, began := w.now } else d
  | e =>
    { toDiary := d.toDiary.note a w e
      began := d.began
      freed := d.freed || w.frees s a e
      partings := d.partings ++ (w.departure s a e).toList }

def since (s : SyncId) (w : World) (a : ActorId) (events : List Event) : Vigil :=
  World.collect (note s a) w events {}

theorem toDiary_note (s : SyncId) (a : ActorId) (w : World) (e : Event) (d : Vigil) :
    (d.note s a w e).toDiary = d.toDiary.note a w e := by
  cases e with
  | begin b op =>
    simp only [note, Diary.note]
    split <;> rfl
  | _ => rfl

end Vigil

end Turnstile
