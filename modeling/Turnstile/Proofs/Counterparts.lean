import Turnstile.Policy.Catalogue
import Turnstile.Proofs.World.Events
import Turnstile.Proofs.World.Twins

/-! Scripts in which operations are replaced by timed counterparts without an effective deadline: everything
goes as before. -/
namespace Turnstile

structure HookCall where
  actor : ActorId
  sync : SyncId
  hook : Hook
  arg : Int
  answer : Except SyncError Verdict

/-- How a run of an actor ends, but for what a timed success tells. -/
inductive Stop.Agrees : Stop → Stop → Prop
  | finished {v v'} (told : v.Agrees v') : Agrees (.finished v) (.finished v')
  | standing (st) : Agrees (.standing st) (.standing st)

structure Run.Agrees (r r' : Run) : Prop where
  actor : r'.actor = r.actor
  stop : r.stop.Agrees r'.stop

namespace World

def call (w : World) : Event → Option HookCall
  | .step a =>
    match (w.actor a).activity with
    | .busy .running (.call site .entering) =>
      some ⟨a, site.sync, site.hook, site.arg, ((w.sync site.sync).ask site.hook a site.arg).2⟩
    | _ => none
  | _ => none

def calls : World → List Event → List HookCall
  | _, [] => []
  | w, e :: rest => (w.call e).toList ++ calls (w.happen e) rest

theorem calls_append (w : World) (xs ys : List Event) : w.calls (xs ++ ys) = w.calls xs ++ (w.after xs).calls ys := by
  induction xs generalizing w with
  | nil => rfl
  | cons e rest ih => simp [calls, ih]

/-- The worlds show the same: they differ at most in what their actors are up to. -/
structure ShowsAs (w w' : World) : Prop where
  now : w'.now = w.now
  syncs : w'.syncs = w.syncs
  conditions : w'.conditions = w.conditions
  tokens : w'.tokens = w.tokens
  pauses : w'.pauses = w.pauses
  runnable : w'.runnable = w.runnable
  size : w'.actors.size = w.actors.size
  permit : ∀ a, (w'.actor a).permit = (w.actor a).permit
  standing : ∀ a, (w'.actor a).standing = (w.actor a).standing

namespace Twins

variable {w w' : World} {a : ActorId}

theorem showsAs (h : Twins w w') : w.ShowsAs w' := by
  obtain ⟨now, syncs, conditions, tokens, pauses, runnable⟩ := h.rest
  exact ⟨now, syncs, conditions, tokens, pauses, runnable, h.size, fun a => (h.actor a).permit,
    fun a => (h.actor a).standing⟩

theorem call (h : Twins w w') (a : ActorId) : w'.call (.step a) = w.call (.step a) := by
  simp only [World.call]
  cases h.actor a with
  | same same =>
    rw [same]
    split
    · rw [h.sync]
    · rfl
  | idle _ idle idle' => simp only [idle, idle']
  | @busy st p p' _ busy busy' pair =>
    simp only [busy, busy']
    cases pair with
    | start => cases st <;> rfl
    | timed =>
      cases p with
      | call site stage =>
        cases st with
        | running =>
          cases stage with
          | entering => simp only [Position.timed, Site.sync_timed, Site.hook_timed, Site.arg_timed, h.sync]
          | _ => rfl
        | _ => rfl
      | _ => cases st <;> rfl

/-- Whoever is let run in both worlds runs alike. -/
theorem runFor (h : Twins w w') (bound : Nat) (a : ActorId) :
    Twins (runFor bound w a).1 (runFor bound w' a).1 ∧ (runFor bound w a).2.Agrees (runFor bound w' a).2 ∧
      w'.calls (runTrace bound w' a) = w.calls (runTrace bound w a) := by
  induction bound generalizing w w' with
  | zero => exact ⟨h, .standing _, rfl⟩
  | succ n ih =>
    obtain ⟨twins, told⟩ := h.step a
    have call := h.call a
    unfold World.runFor runTrace World.calls World.happen
    dsimp only
    rw [call]
    generalize w.step a = r at twins told ⊢
    generalize w'.step a = r' at twins told ⊢
    obtain ⟨w₁, v⟩ := r
    obtain ⟨w₂, v'⟩ := r'
    cases told with
    | some told => exact ⟨twins, .finished told, rfl⟩
    | none =>
      rcases twins.cases a with ⟨idle, idle'⟩ | ⟨st, p, p', busy, busy'⟩
      · dsimp only at idle idle' ⊢
        rw [idle, idle']
        exact ⟨twins, .finished (Or.inl rfl), rfl⟩
      · dsimp only at busy busy' ⊢
        rw [busy, busy']
        cases st with
        | running =>
          obtain ⟨twins', stop, calls⟩ := ih twins
          exact ⟨twins', stop, congrArg _ calls⟩
        | parked | runnable | paused | spinning => exact ⟨twins, .standing _, rfl⟩

theorem run (h : Twins w w') (a : ActorId) :
    Twins (w.run a).1 (w'.run a).1 ∧ (w.run a).2.Agrees (w'.run a).2 ∧
      w'.calls (runTrace longestRun w' a) = w.calls (runTrace longestRun w a) := by
  obtain ⟨twins, stop, calls⟩ := h.runFor longestRun a
  exact ⟨twins, ⟨rfl, stop⟩, calls⟩

theorem goOn (h : Twins w w') (a : ActorId) :
    Twins (w.goOn a).1 (w'.goOn a).1 ∧ (w.goOn a).2.Agrees (w'.goOn a).2 ∧
      w'.calls (w'.goOnTrace a) = w.calls (w.goOnTrace a) := by
  rw [goOn_eq, goOn_eq]
  exact (h.resume a).run a

theorem settleFor (h : Twins w w') (bound : Nat) :
    Twins (settleFor bound w).1 (settleFor bound w').1 ∧
      List.Forall₂ Run.Agrees (settleFor bound w).2 (settleFor bound w').2 ∧
      w'.calls (settleTrace bound w') = w.calls (settleTrace bound w) := by
  induction bound generalizing w w' with
  | zero => exact ⟨h, .nil, rfl⟩
  | succ n ih =>
    obtain ⟨-, -, -, -, -, runnable⟩ := h.rest
    unfold World.settleFor settleTrace
    rw [runnable]
    cases w.runnable with
    | nil => exact ⟨h, .nil, rfl⟩
    | cons a rest =>
      obtain ⟨twins, agrees, calls⟩ := (h.order rest).goOn a
      obtain ⟨twins', runs, calls'⟩ := ih twins
      dsimp only
      rw [h.isSpinning, twins.isSpinning]
      refine ⟨twins', ?_, ?_⟩
      · refine List.rel_append ?_ runs
        split
        · exact .nil
        · exact .cons agrees .nil
      · unfold World.calls
        change World.calls { w' with runnable := rest } _ = World.calls { w with runnable := rest } _
        rw [calls_append, calls_append, after_goOnTrace, after_goOnTrace, calls, calls']

end Twins

end World

namespace Script

/-- The command is the same, or the operation is replaced by its timed counterpart. -/
inductive Command.Counterpart (now : Moment) : Command → Command → Prop
  | same (c) : Counterpart now c c
  | perform {a op op'} (h : op.Counterpart now op') : Counterpart now (.perform a op) (.perform a op')

inductive Counterpart : World → List Step → List Step → Prop
  | nil {w} : Counterpart w [] []
  | cons {w s s' rest rest'} (hold : s'.hold = s.hold) (command : s.command.Counterpart w.now s'.command)
      (goesOn : Counterpart (step w s).world rest rest') : Counterpart w (s :: rest) (s' :: rest')

structure Report.Agrees (r r' : Report) : Prop where
  reply : r'.reply = r.reply
  ran : List.Forall₂ Run.Agrees r.ran r'.ran
  world : r.world.ShowsAs r'.world

variable {w w' : World} {a : ActorId}

theorem actors_of_agrees {runs runs' : List Run} (h : List.Forall₂ Run.Agrees runs runs') :
    runs'.map (·.actor) = runs.map (·.actor) := by
  induction h with
  | nil => rfl
  | cons agrees _ ih => rw [List.map_cons, List.map_cons, agrees.actor, ih]

/-- The same comes of a command in both worlds. -/
structure Twinned (r r' : World × Reply × List Run) (calls calls' : List HookCall) : Prop where
  twins : r.1.Twins r'.1
  reply : r'.2.1 = r.2.1
  runs : List.Forall₂ Run.Agrees r.2.2 r'.2.2
  calls : calls' = calls

theorem twinned_goOn (h : w.Twins w') (a : ActorId) :
    Twinned ((w.goOn a).1, .none, [(w.goOn a).2]) ((w'.goOn a).1, .none, [(w'.goOn a).2])
      (w.calls (w.goOnTrace a)) (w'.calls (w'.goOnTrace a)) := by
  obtain ⟨twins, agrees, calls⟩ := h.goOn a
  exact ⟨twins, rfl, .cons agrees .nil, calls⟩

theorem twinned_perform (h : w.Twins w') (a : ActorId) {op op' : Operation}
    (pair : op' = op ∨ op.Counterpart w.now op') :
    Twinned (execute w (.perform a op)) (execute w' (.perform a op')) (w.calls (commandTrace w (.perform a op)))
      (w'.calls (commandTrace w' (.perform a op'))) := by
  obtain ⟨twins, agrees, calls⟩ := (h.begin a pair).run a
  simp only [execute, commandTrace]
  rcases h.cases a with ⟨idle, idle'⟩ | ⟨st, p, p', busy, busy'⟩
  · have begins : w.perform a op = (w.begin a op).run a := by rw [World.perform, World.begin, idle]
    have begins' : w'.perform a op' = (w'.begin a op').run a := by rw [World.perform, World.begin, idle']
    rw [idle, idle', begins, begins']
    exact ⟨twins, rfl, .cons agrees .nil, calls⟩
  · rw [busy, busy']
    exact ⟨h, rfl, .nil, rfl⟩

theorem twinned_resume (h : w.Twins w') (a : ActorId) :
    Twinned (execute w (.resume a)) (execute w' (.resume a)) (w.calls (commandTrace w (.resume a)))
      (w'.calls (commandTrace w' (.resume a))) := by
  have goesOn := twinned_goOn h a
  simp only [execute, commandTrace]
  rcases h.cases a with ⟨idle, idle'⟩ | ⟨st, p, p', busy, busy'⟩
  · rw [idle, idle']
    exact ⟨h, rfl, .nil, rfl⟩
  · rw [busy, busy']
    cases st with
    | paused => exact goesOn
    | running | parked | runnable | spinning => exact ⟨h, rfl, .nil, rfl⟩

theorem twinned_run (h : w.Twins w') (a : ActorId) :
    Twinned (execute w (.run a)) (execute w' (.run a)) (w.calls (commandTrace w (.run a)))
      (w'.calls (commandTrace w' (.run a))) := by
  have goesOn := twinned_goOn h a
  have called := twinned_goOn (h.order (w.runnable.filter (· != a))) a
  obtain ⟨-, -, -, -, -, runnable⟩ := h.rest
  simp only [execute, commandTrace, runnable]
  rcases h.cases a with ⟨idle, idle'⟩ | ⟨st, p, p', busy, busy'⟩
  · rw [idle, idle']
    exact ⟨h, rfl, .nil, rfl⟩
  · rw [busy, busy']
    cases st with
    | runnable => exact called
    | spinning => exact goesOn
    | running | parked | paused => exact ⟨h, rfl, .nil, rfl⟩

theorem twinned_execute (h : w.Twins w') {c c' : Command} (pair : c.Counterpart w.now c') :
    Twinned (execute w c) (execute w' c') (w.calls (commandTrace w c)) (w'.calls (commandTrace w' c')) := by
  cases pair with
  | perform pair => exact twinned_perform h _ (Or.inr pair)
  | same =>
    cases c with
    | settle | unknown => exact ⟨h, rfl, .nil, rfl⟩
    | elapse d => exact ⟨h.elapse d, rfl, .nil, rfl⟩
    | cancel t => exact ⟨h.cancel t, rfl, .nil, rfl⟩
    | take t => exact ⟨h.take t, congrArg Reply.truth (h.flagged (some t)), .nil, rfl⟩
    | breakHook s hook error times => exact ⟨h.modifySync s _, rfl, .nil, rfl⟩
    | showNodes s | describe s => exact ⟨h, by simp only [execute, h.sync], .nil, rfl⟩
    | arm p => exact ⟨h.arm p, rfl, .nil, rfl⟩
    | resume a => exact twinned_resume h a
    | run a => exact twinned_run h a
    | wake a => exact ⟨h.wake a, rfl, .nil, rfl⟩
    | perform a op => exact twinned_perform h a (Or.inl rfl)

theorem twins_step (h : w.Twins w') {s s' : Step} (hold : s'.hold = s.hold)
    (pair : s.command.Counterpart w.now s'.command) :
    (step w s).world.Twins (step w' s').world ∧ (step w s).Agrees (step w' s') ∧
      w'.calls (stepTrace w' s') = w.calls (stepTrace w s) := by
  obtain ⟨twins, reply, runs, calls⟩ := twinned_execute h pair
  have settled : (execute w s.command).1.isSpinning = (execute w' s'.command).1.isSpinning := by
    funext a
    exact (twins.isSpinning a).symm
  have after := after_commandTrace w s.command
  have after' := after_commandTrace w' s'.command
  unfold step stepTrace
  rw [hold]
  generalize execute w s.command = r at *
  generalize execute w' s'.command = r' at *
  obtain ⟨w₁, reply₁, ran⟩ := r
  obtain ⟨w₂, reply₂, ran'⟩ := r'
  dsimp only at twins reply runs settled after after' ⊢
  subst reply
  split
  · exact ⟨twins, ⟨rfl, runs, twins.showsAs⟩, calls⟩
  · unfold World.settle
    dsimp only
    rw [actors_of_agrees runs, twins.size, ← settled, twins.rest.2.2.2.2.2]
    obtain ⟨twins', runs', calls'⟩ := (twins.order (w₁.runnable ++ (List.range w₁.actors.size).filter
      fun a => w₁.isSpinning a && !(ran.map (·.actor)).contains a)).settleFor _
    refine ⟨twins', ⟨rfl, List.rel_append runs runs', twins'.showsAs⟩, ?_⟩
    rw [World.calls_append, World.calls_append, after, after', calls]
    exact congrArg _ calls'

theorem twins_run {steps steps' : List Step} (h : w.Twins w') (pair : Counterpart w steps steps') :
    List.Forall₂ Report.Agrees (run w steps) (run w' steps') ∧ w'.calls (trace w' steps') = w.calls (trace w steps) := by
  induction pair generalizing w' with
  | nil => exact ⟨.nil, rfl⟩
  | cons hold command _ ih =>
    obtain ⟨twins, agrees, calls⟩ := twins_step h hold command
    obtain ⟨reports, calls'⟩ := ih twins
    refine ⟨.cons agrees reports, ?_⟩
    unfold trace
    rw [World.calls_append, World.calls_append, after_stepTrace, after_stepTrace, calls, calls']

/-- A script shows, stops and asks the same if operations are replaced by their timed counterparts without
an effective deadline. -/
theorem untimed_alike {w : World} {steps steps' : List Step} (h : Counterpart w steps steps') :
    List.Forall₂ Report.Agrees (run w steps) (run w steps') ∧ w.calls (trace w steps') = w.calls (trace w steps) :=
  twins_run (.refl w) h

/-- Someone gets a lock in turn and waits for a signal, and may do so with the longest timeout there is. -/
theorem untimed_alike_longest :
    let w := World.create 2 1 [{ policy := .mutex, state := 0 }] [0]
    let script (acquires : Style) (waits : WaitStyle) : List Step :=
      [⟨.perform 0 (.acquire 0 .exclusive 1 .plain), false⟩, ⟨.perform 1 (.acquire 0 .exclusive 1 acquires), false⟩,
        ⟨.perform 0 (.release 0 .exclusive 1), false⟩, ⟨.perform 1 (.wait 0 0 waits), false⟩,
        ⟨.perform 0 (.acquire 0 .exclusive 1 .plain), false⟩, ⟨.perform 0 (.errand 0 0 .signal), false⟩,
        ⟨.perform 0 (.release 0 .exclusive 1), false⟩]
    let untimed := script (.interruptible (some 0)) (.interruptible (some 0))
    let timed := script (.timed (some 0) (.timeout Span.longest)) (.inTime (some 0) (.timeout Span.longest))
    Counterpart w untimed timed ∧ List.Forall₂ Report.Agrees (run w untimed) (run w timed) ∧
      w.calls (trace w timed) = w.calls (trace w untimed) := by
  intro w script untimed timed
  have far : ∀ now, ¬Moment.Representable (now + Span.longest) := fun now near => by
    have none := Moment.after_longest now
    rw [Moment.after, if_pos near] at none
    simp at none
  have pair : Counterpart w untimed timed :=
    .cons rfl (.same _) (.cons rfl (.perform (.acquire (far _))) (.cons rfl (.same _)
      (.cons rfl (.perform (.wait (far _))) (.cons rfl (.same _) (.cons rfl (.same _) (.cons rfl (.same _) .nil))))))
  exact ⟨pair, untimed_alike pair⟩

end Script

end Turnstile
