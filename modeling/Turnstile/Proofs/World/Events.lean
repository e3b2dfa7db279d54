import Turnstile.Proofs.World.Frame
import Turnstile.Script

/-! Runs of a world, event by event: whatever order the actors take their steps in, and whatever comes
between them. Every script is such a run. -/
namespace Turnstile

/-- The least that can happen. -/
inductive Event
  /-- An idle actor is given something to do. -/
  | begin (actor : ActorId) (op : Operation)
  /-- An actor that has stopped may go on. -/
  | resume (actor : ActorId)
  | step (actor : ActorId)
  | elapse (d : Span)
  | cancel (token : TokenId)
  | take (token : TokenId)
  | breakHook (sync : SyncId) (hook : Hook) (error : SyncError) (times : Option Nat)
  | arm (pause : Pause)
  | wake (actor : ActorId)
  /-- Those that can run are to run in this order. -/
  | order (actors : List ActorId)

namespace World

def begin (w : World) (a : ActorId) (op : Operation) : World :=
  match (w.actor a).activity with
  | .idle =>
    (w.setLooks a (Actor.freshLooks - op.firstLooks)).setActivity a (.busy .running (.start op))
  | .busy .. => w

def resume (w : World) (a : ActorId) : World :=
  match (w.actor a).activity with
  | .busy s p =>
    let w := match s with
      | .parked _ | .runnable => w.setPermit a false
      | _ => w
    w.setActivity a (.busy .running p)
  | .idle => w

def happen (w : World) : Event → World
  | .begin a op => w.begin a op
  | .resume a => w.resume a
  | .step a => (w.step a).1
  | .elapse d => w.elapse d
  | .cancel t => w.cancel t
  | .take t => (w.takeFlag (some t)).1
  | .breakHook s h e times => w.modifySync s (·.breakHook h e times)
  | .arm p => { w with pauses := w.pauses ++ [p] }
  | .wake a => w.wake a
  | .order as => { w with runnable := as }

def after (w : World) (events : List Event) : World := events.foldl happen w

@[simp] theorem after_nil (w : World) : w.after [] = w := rfl

@[simp] theorem after_cons (w : World) (e : Event) (rest : List Event) :
    w.after (e :: rest) = (w.happen e).after rest := rfl

@[simp] theorem after_append (w : World) (xs ys : List Event) :
    w.after (xs ++ ys) = (w.after xs).after ys :=
  List.foldl_append

/-- Every event is one that the rule admits at its time. -/
def Obeys (rule : World → Event → Prop) : World → List Event → Prop
  | _, [] => True
  | w, e :: rest => rule w e ∧ Obeys rule (w.happen e) rest

instance decidableObeys {rule : World → Event → Prop} [∀ w e, Decidable (rule w e)] :
    ∀ w events, Decidable (Obeys rule w events)
  | _, [] => .isTrue trivial
  | w, e :: rest =>
    have : Decidable (Obeys rule (w.happen e) rest) := decidableObeys _ _
    inferInstanceAs (Decidable (rule w e ∧ Obeys rule (w.happen e) rest))

/-- A rule that asks nothing of the world is about the events alone. -/
theorem Obeys.of_forall {rule : Event → Prop} {w : World} {events : List Event}
    (admitted : ∀ e ∈ events, rule e) : Obeys (fun _ e => rule e) w events := by
  induction events generalizing w with
  | nil => trivial
  | cons e rest ih => exact ⟨admitted e (by simp), ih fun e' he' => admitted e' (by simp [he'])⟩

theorem Obeys.of_append {rule : World → Event → Prop} {w : World} {xs ys : List Event}
    (h : Obeys rule w (xs ++ ys)) : Obeys rule w xs := by
  induction xs generalizing w with
  | nil => trivial
  | cons e rest ih => exact ⟨h.1, ih h.2⟩

theorem invariant {inv : World → Prop} {rule : World → Event → Prop}
    (kept : ∀ w e, inv w → rule w e → inv (w.happen e)) {w : World} {events : List Event} (start : inv w)
    (obeys : Obeys rule w events) : inv (w.after events) := by
  induction events generalizing w with
  | nil => exact start
  | cons e rest ih => exact ih (kept w e start obeys.1) obeys.2

/-! What comes from outside wakes actors at most, and has hooks fail. -/

structure Outside (w w' : World) : Prop where
  eased : ∀ a, (w.actor a).Eased (w'.actor a)
  actors : w'.actors.size = w.actors.size
  syncs : w'.syncs.size = w.syncs.size
  sync : ∀ s, ∃ f, w'.sync s = { w.sync s with failures := f }

section

variable {w w' : World} {a : ActorId}

theorem Outside.of_eased (eased : ∀ a, (w.actor a).Eased (w'.actor a))
    (actors : w'.actors.size = w.actors.size) (syncs : w'.syncs = w.syncs) : Outside w w' :=
  ⟨eased, actors, by rw [syncs], fun s => ⟨(w.sync s).failures, by rw [World.sync, syncs]; rfl⟩⟩

theorem endParks_eased (as : List ActorId) (w : World) (a : ActorId) :
    (w.actor a).Eased ((as.foldl endPark w).actor a) := by
  induction as generalizing w with
  | nil => exact Actor.Eased.refl _
  | cons b rest ih => exact (w.endPark_eased a b).trans (ih (w.endPark b))

theorem endParks_size (as : List ActorId) (w : World) :
    (as.foldl endPark w).actors.size = w.actors.size := by
  induction as generalizing w with
  | nil => rfl
  | cons b rest ih => exact (ih (w.endPark b)).trans (w.size_endPark b)

theorem endParks_syncs (as : List ActorId) (w : World) : (as.foldl endPark w).syncs = w.syncs := by
  induction as generalizing w with
  | nil => rfl
  | cons b rest ih => exact (ih (w.endPark b)).trans (w.syncs_endPark b)

theorem happen_cases (w : World) (e : Event) :
    (Outside w (w.happen e) ∧ ∀ a, e ≠ .step a) ∨ (∃ a op, e = .begin a op) ∨
    (∃ a, e = .resume a) ∨ ∃ a, e = .step a := by
  have same : ∀ w' : World, w'.actors = w.actors → w'.syncs = w.syncs → Outside w w' := by
    intro w' actors syncs
    refine .of_eased (fun a => ?_) (by rw [actors]) syncs
    rw [actor, actor, actors]
    exact Actor.Eased.refl _
  cases e with
  | begin a op => exact Or.inr (Or.inl ⟨a, op, rfl⟩)
  | resume a => exact Or.inr (Or.inr (Or.inl ⟨a, rfl⟩))
  | step a => exact Or.inr (Or.inr (Or.inr ⟨a, rfl⟩))
  | elapse d =>
    refine Or.inl ⟨.of_eased (fun a => ?_) ?_ ?_, by simp⟩
    · exact endParks_eased _ { w with now := w.now + d } a
    · exact endParks_size _ { w with now := w.now + d }
    · exact endParks_syncs _ { w with now := w.now + d }
  | cancel t =>
    refine Or.inl ⟨.of_eased (fun a => ?_) ?_ ?_, by simp⟩
    · exact wakeAll_eased (w.modifyToken (some t) (·.cancel.1)) a _
    · exact size_wakeAll (w.modifyToken (some t) (·.cancel.1)) _
    · exact syncs_wakeAll (w.modifyToken (some t) (·.cancel.1)) _
  | take t => exact Or.inl ⟨same _ rfl rfl, by simp⟩
  | breakHook s h e times =>
    refine Or.inl ⟨⟨fun a => Actor.Eased.refl _, rfl, by simp [happen, modifySync], fun t => ?_⟩, by simp⟩
    rw [happen, sync_modifySync]
    split
    · exact ⟨_, rfl⟩
    · exact ⟨_, rfl⟩
  | arm p => exact Or.inl ⟨same _ rfl rfl, by simp⟩
  | wake a =>
    exact Or.inl ⟨.of_eased (fun b => w.wake_eased b a) (w.size_wake a) (w.syncs_wake a), by simp⟩
  | order as => exact Or.inl ⟨same _ rfl rfl, by simp⟩

/-- Nobody but one actor is not as it was. -/
structure Solely (a : ActorId) (w w' : World) : Prop where
  syncs : w'.syncs = w.syncs
  actors : w'.actors.size = w.actors.size
  others : ∀ b, b ≠ a → w'.actor b = w.actor b

namespace Solely

variable {w'' : World}

theorem refl (w : World) (a : ActorId) : Solely a w w := ⟨rfl, rfl, fun _ _ => rfl⟩

theorem trans (h : Solely a w w') (h' : Solely a w' w'') : Solely a w w'' :=
  ⟨h'.syncs.trans h.syncs, h'.actors.trans h.actors, fun b hb => (h'.others b hb).trans (h.others b hb)⟩

theorem modifyActor (w : World) (a : ActorId) (f : Actor → Actor) : Solely a w (w.modifyActor a f) :=
  ⟨rfl, size_modifyActor w a f, fun b hb => by rw [actor_modifyActor, if_neg fun e => hb e.1.symm]⟩

end Solely

theorem solely_begin (w : World) (a : ActorId) (op : Operation) : Solely a w (w.begin a op) := by
  unfold begin
  split
  · exact (Solely.modifyActor w a _).trans (Solely.modifyActor _ a _)
  · exact Solely.refl w a

theorem solely_resume (w : World) (a : ActorId) : Solely a w (w.resume a) := by
  unfold resume
  split
  · rename_i st p busy
    refine Solely.trans ?_ (Solely.modifyActor _ a _)
    split
    · exact Solely.modifyActor w a _
    · exact Solely.modifyActor w a _
    · exact Solely.refl w a
  · exact Solely.refl w a

theorem begin_cases (w : World) (a : ActorId) (op : Operation) :
    (w.begin a op).actor a = w.actor a ∨ ((w.actor a).activity = .idle ∧
      ((w.begin a op).actor a).activity = .busy .running (.start op)) := by
  by_cases inTable : a < w.actors.size
  · unfold begin
    split
    · rename_i idle
      exact Or.inr ⟨idle, activity_setActivity _ (by simpa)⟩
    · exact Or.inl rfl
  · have outside : w.actors.size ≤ a := Nat.le_of_not_lt inTable
    have outside' : (w.begin a op).actors.size ≤ a := (solely_begin w a op).actors ▸ outside
    exact Or.inl ((actor_of_size_le outside').trans (actor_of_size_le outside).symm)

/-- An actor that goes on uses up its permit if it comes from a park. -/
theorem resume_cases (w : World) (a : ActorId) :
    (w.resume a).actor a = w.actor a ∨ ∃ p, (w.actor a).position = some p ∧
      ((w.resume a).actor a).activity = .busy .running p ∧
      (((w.resume a).actor a).permit = (w.actor a).permit ∨ (w.actor a).Rests p) := by
  unfold resume
  split
  · rename_i st p busy
    have position : (w.actor a).position = some p := Actor.position_of_busy busy
    have inTable : a < w.actors.size := lt_of_position (by simp [position])
    refine Or.inr ⟨p, position, activity_setActivity _ ?_, ?_⟩
    · cases st <;> simpa using inTable
    · rw [permit_setActivity]
      cases st with
      | parked t => exact Or.inr (Or.inl ⟨t, busy⟩)
      | runnable => exact Or.inr (Or.inr busy)
      | _ => exact Or.inl rfl
  · exact Or.inl rfl

end

theorem goOn_eq (w : World) (a : ActorId) : w.goOn a = (w.resume a).run a := by
  rw [goOn, resume]
  rcases (w.actor a).activity with _ | ⟨st, p⟩
  · rfl
  · cases st <;> rfl

/-! A script leaves a trace of events behind. -/

def runTrace : Nat → World → ActorId → List Event
  | 0, _, _ => []
  | bound + 1, w, a =>
    .step a ::
      match w.step a with
      | (_, some _) => []
      | (w, none) =>
        match (w.actor a).activity with
        | .busy .running _ => runTrace bound w a
        | _ => []

theorem after_runTrace (bound : Nat) (w : World) (a : ActorId) :
    w.after (runTrace bound w a) = (runFor bound w a).1 := by
  induction bound generalizing w with
  | zero => rfl
  | succ n ih =>
    rw [runTrace, runFor, after_cons, happen]
    rcases w.step a with ⟨w', _ | v⟩
    · dsimp only
      rcases (w'.actor a).activity with _ | ⟨_ | _ | _ | _ | _, p⟩
      case busy.running => exact ih w'
      all_goals rfl
    · rfl

def goOnTrace (w : World) (a : ActorId) : List Event :=
  .resume a :: runTrace longestRun (w.resume a) a

theorem after_goOnTrace (w : World) (a : ActorId) : w.after (w.goOnTrace a) = (w.goOn a).1 := by
  rw [goOnTrace, after_cons, happen, after_runTrace, goOn_eq]
  rfl

def settleTrace : Nat → World → List Event
  | 0, _ => []
  | bound + 1, w =>
    match w.runnable with
    | [] => []
    | a :: rest =>
      let w : World := { w with runnable := rest }
      .order rest :: (w.goOnTrace a ++ settleTrace bound (w.goOn a).1)

theorem after_settleTrace (bound : Nat) (w : World) :
    w.after (settleTrace bound w) = (settleFor bound w).1 := by
  induction bound generalizing w with
  | zero => rfl
  | succ n ih =>
    rw [settleTrace, settleFor]
    rcases w.runnable with _ | ⟨a, rest⟩
    · rfl
    · rw [after_cons, after_append]
      change World.after (World.after { w with runnable := rest } _) _ = _
      rw [after_goOnTrace, ih]

end World

namespace Script

def commandTrace (w : World) : Command → List Event
  | .settle | .showNodes _ | .describe _ | .unknown => []
  | .elapse d => [.elapse d]
  | .cancel t => [.cancel t]
  | .take t => [.take t]
  | .breakHook s h e times => [.breakHook s h e times]
  | .arm p => [.arm p]
  | .resume a =>
    match (w.actor a).activity with
    | .busy .paused _ => w.goOnTrace a
    | _ => []
  | .run a =>
    match (w.actor a).activity with
    | .busy .runnable _ =>
      let others := w.runnable.filter (· != a)
      .order others :: World.goOnTrace { w with runnable := others } a
    | .busy .spinning _ => w.goOnTrace a
    | _ => []
  | .wake a => [.wake a]
  | .perform a op =>
    match (w.actor a).activity with
    | .idle => .begin a op :: World.runTrace World.longestRun (w.begin a op) a
    | _ => []

theorem after_commandTrace (w : World) (c : Command) :
    w.after (commandTrace w c) = (execute w c).1 := by
  cases c with
  | resume a =>
    rw [commandTrace, execute]
    rcases (w.actor a).activity with _ | ⟨_ | _ | _ | _ | _, p⟩
    case busy.paused => exact w.after_goOnTrace a
    all_goals rfl
  | run a =>
    rw [commandTrace, execute]
    rcases (w.actor a).activity with _ | ⟨_ | _ | _ | _ | _, p⟩
    case busy.runnable =>
      exact World.after_goOnTrace { w with runnable := w.runnable.filter (· != a) } a
    case busy.spinning => exact w.after_goOnTrace a
    all_goals rfl
  | perform a op =>
    rw [commandTrace, execute]
    cases activity : (w.actor a).activity with
    | idle =>
      rw [World.after_cons, World.happen, World.after_runTrace, World.begin, activity]
      rfl
    | busy s p => rfl
  | _ => rfl

def stepTrace (w : World) (s : Step) : List Event :=
  let done := commandTrace w s.command
  if s.hold then done
  else
    let (w, _, ran) := execute w s.command
    let ran := ran.map (·.actor)
    let spinners := (List.range w.actors.size).filter fun a => w.isSpinning a && !ran.contains a
    let w : World := { w with runnable := w.runnable ++ spinners }
    done ++ .order w.runnable :: w.settleTrace (w.runnable.length + 8 * w.actors.size + 8)

theorem after_stepTrace (w : World) (s : Step) : w.after (stepTrace w s) = (step w s).world := by
  unfold stepTrace step
  split
  · exact after_commandTrace w s.command
  · rw [World.after_append, World.after_cons, after_commandTrace]
    exact World.after_settleTrace _ _

/-- The events that a script is made of. -/
def trace (w : World) : List Step → List Event
  | [] => []
  | s :: rest => stepTrace w s ++ trace (step w s).world rest

/-- Where the events of a script lead, the script leads. -/
theorem after_trace (w : World) (steps : List Step) : w.after (trace w steps) = last w steps := by
  induction steps generalizing w with
  | nil => rfl
  | cons s rest ih =>
    rw [trace, World.after_append, after_stepTrace, ih]
    rfl

end Script

end Turnstile
