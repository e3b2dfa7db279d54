import Turnstile.Proofs.World.Halting

/-! The runs that scripts are made of are unbroken: an actor that goes on is let run until it stops, and
only then does anything else happen. -/
namespace Turnstile

variable {w : World} {a b : ActorId} {e : Event}

theorem Actor.Eased.isRunning {x y : Actor} (h : x.Eased y) : y.isRunning = x.isRunning := by
  rcases h.activity with same | ⟨t, p, parked, awake⟩
  · rw [Actor.isRunning, same, Actor.isRunning]
  · rw [Actor.isRunning, awake, Actor.isRunning, parked]

theorem Actor.isRunning_eq_true {x : Actor} :
    x.isRunning = true ↔ ∃ p, x.activity = .busy .running p := by
  unfold isRunning
  split
  · rename_i p running
    exact ⟨fun _ => ⟨p, running⟩, fun _ => rfl⟩
  · rename_i other
    exact ⟨by simp, fun ⟨p, running⟩ => absurd running (other p)⟩

namespace World

def Resting (w : World) : Prop := ∀ a, (w.actor a).isRunning = false

def Solo (w : World) (a : ActorId) : Prop := ∀ b, b ≠ a → (w.actor b).isRunning = false

theorem Solo.resting (h : w.Solo a) (stopped : (w.actor a).isRunning = false) : w.Resting := by
  intro b
  by_cases same : b = a
  · exact same ▸ stopped
  · exact h b same

theorem Resting.unbroken (h : w.Resting) : w.unbroken e = true := by
  refine List.all_eq_true.2 fun a _ => ?_
  simp [h a]

theorem Solo.unbroken (h : w.Solo a) : w.unbroken (.step a) = true := by
  refine List.all_eq_true.2 fun b _ => ?_
  by_cases same : b = a
  · simp [same, Event.isStep]
  · simp [h b same]

theorem isRunning_happen (w : World) (a : ActorId) (begins : ∀ op, e ≠ .begin a op)
    (resumes : e ≠ .resume a) (stopped : (w.actor a).isRunning = false) :
    ((w.happen e).actor a).isRunning = false := by
  have fares := w.fares a e
  generalize (w.happen e).actor a = y at fares
  cases fares with
  | rests eased => exact eased.isRunning.trans stopped
  | begins => exact absurd rfl (begins _)
  | resumes => exact absurd rfl resumes
  | steps running =>
    have runs := Actor.isRunning_eq_true.2 ⟨_, running⟩
    simp [stopped] at runs

theorem Solo.step (h : w.Solo a) : (w.step a).1.Solo a := fun b ne =>
  w.isRunning_happen (e := .step a) b (by simp) (by simp) (h b ne)

theorem step_ends {v : Value} (ends : (w.step a).2 = some v) :
    ((w.step a).1.actor a).activity = .idle := by
  obtain ⟨p, running, next⟩ := running_of_step ends
  rw [activity_step running, next]
  rfl

/-- A run goes on after its first step, or it is over. -/
theorem runFor_cases (w : World) (a : ActorId) (bound : Nat) :
    (runFor (bound + 1) w a = runFor bound (w.step a).1 a ∧
      runTrace (bound + 1) w a = .step a :: runTrace bound (w.step a).1 a) ∨
    ((runFor (bound + 1) w a).1 = (w.step a).1 ∧ ((w.step a).1.actor a).isRunning = false ∧
      runTrace (bound + 1) w a = [.step a]) := by
  have idle : ∀ v, (w.step a).2 = some v → ((w.step a).1.actor a).activity = .idle := fun _ => step_ends
  rw [runFor, runTrace]
  generalize w.step a = r at idle ⊢
  obtain ⟨w', _ | v⟩ := r
  · dsimp only
    rw [Actor.isRunning]
    rcases (w'.actor a).activity with _ | ⟨_ | _ | _ | _ | _, p⟩
    case busy.running => exact Or.inl ⟨rfl, rfl⟩
    all_goals exact Or.inr ⟨rfl, rfl, rfl⟩
  · dsimp only
    rw [Actor.isRunning, idle v rfl]
    exact Or.inr ⟨rfl, rfl, rfl⟩

/-- Whoever is let run is still the only one when it stops. -/
theorem Solo.runFor (h : w.Solo a) (bound : Nat) : (runFor bound w a).1.Solo a := by
  induction bound generalizing w with
  | zero => exact h
  | succ n ih =>
    rcases w.runFor_cases a n with ⟨goesOn, -⟩ | ⟨stops, -⟩
    · exact goesOn ▸ ih h.step
    · exact stops ▸ h.step

theorem stopped_runFor {bound : Nat} (ended : (runFor bound w a).2 ≠ .standing .running) :
    ((runFor bound w a).1.actor a).isRunning = false := by
  induction bound generalizing w with
  | zero => exact absurd rfl ended
  | succ n ih =>
    rcases w.runFor_cases a n with ⟨goesOn, -⟩ | ⟨stops, stopped, -⟩
    · rw [goesOn] at ended ⊢
      exact ih ended
    · rwa [stops]

/-- Nobody runs, and whoever is let run will stop. -/
structure Poised (w : World) : Prop where
  resting : w.Resting
  grounded : ∀ a, w.Grounded a

theorem Poised.reorder (h : w.Poised) (as : List ActorId) : Poised { w with runnable := as } :=
  ⟨h.resting, fun a => ⟨(h.grounded a).rooted, (h.grounded a).capped, (h.grounded a).fresh⟩⟩

/-- What nobody does comes between the runs. -/
theorem Poised.outside (h : w.Poised) (begins : ∀ a op, e ≠ .begin a op) (resumes : ∀ a, e ≠ .resume a) :
    (w.happen e).Poised :=
  ⟨fun a => w.isRunning_happen a (begins a) (resumes a) (h.resting a), fun a => (h.grounded a).happen e⟩

/-- The events never interrupt anyone, and nobody runs in the end. -/
def Whole (w : World) (events : List Event) : Prop :=
  Obeys (fun w e => w.unbroken e) w events ∧ (w.after events).Poised

theorem Obeys.append {rule : World → Event → Prop} {xs ys : List Event} (h : Obeys rule w xs)
    (rest : Obeys rule (w.after xs) ys) : Obeys rule w (xs ++ ys) := by
  induction xs generalizing w with
  | nil => exact rest
  | cons e es ih => exact ⟨h.1, ih h.2 rest⟩

theorem Whole.append {xs ys : List Event} (h : w.Whole xs) (rest : (w.after xs).Whole ys) :
    w.Whole (xs ++ ys) :=
  ⟨h.1.append rest.1, by rw [after_append]; exact rest.2⟩

theorem Poised.nil (h : w.Poised) : w.Whole [] := ⟨trivial, h⟩

theorem Resting.cons (h : w.Resting) {events : List Event} (rest : (w.happen e).Whole events) :
    w.Whole (e :: events) :=
  ⟨⟨h.unbroken, rest.1⟩, rest.2⟩

theorem Solo.runTrace (h : w.Solo a) (grounded : ∀ b, w.Grounded b) {bound : Nat}
    (ended : (World.runFor bound w a).2 ≠ .standing .running) : w.Whole (runTrace bound w a) := by
  refine ⟨?_, ?_, fun b => (grounded b).after _⟩
  swap
  · rw [after_runTrace]
    exact (h.runFor bound).resting (stopped_runFor ended)
  clear ended grounded
  induction bound generalizing w with
  | zero => trivial
  | succ n ih =>
    rcases w.runFor_cases a n with ⟨-, trace⟩ | ⟨-, -, trace⟩
    · rw [trace]
      exact ⟨h.unbroken, ih h.step⟩
    · rw [trace]
      exact ⟨h.unbroken, trivial⟩

theorem Poised.goOn (h : w.Poised) (a : ActorId) : w.Whole (w.goOnTrace a) := by
  have ended := (h.grounded a).goOn
  rw [goOn_eq, run] at ended
  refine h.resting.cons (Solo.runTrace (fun b ne => ?_) (fun b => (h.grounded b).happen (.resume a)) ended)
  rw [happen, (w.solely_resume a).others b ne]
  exact h.resting b

theorem Poised.settle (h : w.Poised) (bound : Nat) : w.Whole (settleTrace bound w) := by
  induction bound generalizing w with
  | zero => exact h.nil
  | succ n ih =>
    rw [settleTrace]
    rcases w.runnable with _ | ⟨a, rest⟩
    · exact h.nil
    · have whole := (h.reorder rest).goOn a
      refine h.resting.cons (whole.append ?_)
      have next := whole.2
      rw [after_goOnTrace] at next ⊢
      exact ih next

end World

namespace Script

open World

theorem whole_commandTrace (h : w.Poised) (c : Command) : w.Whole (commandTrace w c) := by
  have event : ∀ e, (∀ a op, e ≠ .begin a op) → (∀ a, e ≠ .resume a) → w.Whole [e] := fun e begins resumes =>
    h.resting.cons (h.outside begins resumes).nil
  cases c with
  | settle | showNodes | describe | unknown => exact h.nil
  | elapse | cancel | take | breakHook | arm | wake => exact event _ (by simp) (by simp)
  | resume a =>
    rw [commandTrace]
    rcases (w.actor a).activity with _ | ⟨_ | _ | _ | _ | _, p⟩
    case busy.paused => exact h.goOn a
    all_goals exact h.nil
  | run a =>
    rw [commandTrace]
    rcases (w.actor a).activity with _ | ⟨_ | _ | _ | _ | _, p⟩
    case busy.runnable => exact h.resting.cons ((h.reorder _).goOn a)
    case busy.spinning => exact h.goOn a
    all_goals exact h.nil
  | perform a op =>
    rw [commandTrace]
    cases activity : (w.actor a).activity with
    | idle =>
      have begun : w.perform a op = (w.begin a op).run a := by
        rw [begin, activity]
        rfl
      have ended := ((h.grounded a).perform op activity).1
      rw [begun, World.run] at ended
      refine h.resting.cons (Solo.runTrace (fun b ne => ?_) (fun b => (h.grounded b).happen (.begin a op)) ended)
      rw [happen, (w.solely_begin a op).others b ne]
      exact h.resting b
    | busy => exact h.nil

theorem whole_stepTrace (h : w.Poised) (s : Step) : w.Whole (stepTrace w s) := by
  have command := whole_commandTrace h s.command
  rw [stepTrace]
  cases hold : s.hold with
  | true => exact command
  | false =>
    refine command.append ?_
    have next := command.2
    rw [after_commandTrace] at next ⊢
    exact next.resting.cons ((next.reorder _).settle _)

/-- Whatever a script does, nobody is interrupted while it runs. -/
theorem whole_trace (h : w.Poised) (steps : List Step) : w.Whole (trace w steps) := by
  induction steps generalizing w with
  | nil => exact h.nil
  | cons s rest ih =>
    have whole := whole_stepTrace h s
    have next := whole.2
    refine whole.append ?_
    rw [after_stepTrace] at next ⊢
    exact ih next

section

variable {actors tokens : Nat} {syncs : List Synchronizer} {conditions : List SyncId}

theorem poised_create (empty : ∀ x ∈ syncs, x.queue = .empty) :
    (World.create actors tokens syncs conditions).Poised :=
  ⟨fun a => by rw [actor_create]; rfl, fun _ => .create empty⟩

/-- The events that a script is made of never interrupt anyone. -/
theorem unbroken_create (empty : ∀ x ∈ syncs, x.queue = .empty) (steps : List Step) :
    Obeys (fun w e => w.unbroken e) (World.create actors tokens syncs conditions)
      (trace (World.create actors tokens syncs conditions) steps) :=
  (whole_trace (poised_create empty) steps).1

/-- Nobody runs once a script is over. -/
theorem resting_last (empty : ∀ x ∈ syncs, x.queue = .empty) (steps : List Step) :
    (last (World.create actors tokens syncs conditions) steps).Resting :=
  after_trace _ steps ▸ (whole_trace (poised_create empty) steps).2.resting

end

end Script

end Turnstile
