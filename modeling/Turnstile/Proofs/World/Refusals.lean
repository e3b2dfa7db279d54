import Turnstile.Proofs.World.Ages
import Turnstile.Proofs.World.Checks
import Turnstile.Proofs.World.Waiters

/-! Operations on conditions that fail. Those that fail at their checks leave nothing behind, and a wait that
cannot give up its synchronizer leaves a node that nobody minds. -/
namespace Turnstile

open WaitQueue (Later Moves)

theorem WaitQueue.notMem_live_of_cancelled {q : WaitQueue} {n : NodeId}
    (gone : (q.node n).status = .cancelled) : n ∉ q.live := by
  intro live
  have alive := (List.mem_filter.1 (List.mem_reverse.1 live)).2
  simp [Node.isLive, gone] at alive

namespace World

variable {s : SyncId} {w : World} {a : ActorId} {c : ConditionId} {n : NodeId}

theorem InOrder.later_after {actors tokens : Nat} {syncs : List Synchronizer} {conditions : List SyncId}
    {x : Synchronizer} (hx : syncs[s]? = some x) (empty : x.queue = .empty) {events later : List Event}
    (orderly : Orderly s (World.create actors tokens syncs conditions) (events ++ later)) :
    Later (((World.create actors tokens syncs conditions).after events).queue s)
      (((World.create actors tokens syncs conditions).after (events ++ later)).queue s) := by
  induction later using List.reverseRecOn with
  | nil => rw [List.append_nil]
  | append_singleton later e ih =>
    rw [← List.append_assoc] at orderly ⊢
    have before := orderly.of_append
    rw [after_append, after_cons, after_nil]
    exact (ih before).trans ((InOrder.after hx empty before).later e)

theorem Listed.after {actors tokens : Nat} {syncs : List Synchronizer} {conditions : List SyncId}
    {x : Synchronizer} (hx : syncs[s]? = some x) (empty : x.queue = .empty) (hc : conditions[c]? = some s)
    {events : List Event} (orderly : Orderly s (World.create actors tokens syncs conditions) events) :
    ∃ ns as, Listed s c ((World.create actors tokens syncs conditions).after events) ns as := by
  obtain ⟨ns, listed⟩ := InOrder.collect (noteWaiters s c) (fun w as => ∃ ns, Listed s c w ns as) [] hx empty
    ⟨_, .create hc⟩ (fun w e as hw ⟨ns, h⟩ => ⟨_, h.happen hw e⟩) orderly
  exact ⟨ns, _, listed⟩

/-- A wait that cannot give up the synchronizer marks its node and fails. -/
theorem step_drops {t : WaitTerms} {saved : Int} {answer : Except SyncError Verdict}
    (running : (w.actor a).activity = .busy .running (.call (.letGo t n saved) (.answered answer)))
    (refused : grants answer = false) :
    w.step a = ((w.setQueue t.sync ((w.queue t.sync).setStatus n .cancelled)).setActivity a .idle,
      some (.failed (refusal .notFreed answer))) := by
  have next : w.stride a (.call (.letGo t n saved) (.answered answer)) =
      w.dropWait t n (refusal .notFreed answer) := by
    cases answer with
    | error e => rfl
    | ok v =>
      have refused : v.isGrant = false := refused
      simp only [stride, Position.readsClock, advance, callHook, resolve, refused]
      rfl
  refine Prod.ext ?_ ?_
  · rw [step_eq running, next]
    rfl
  · rw [step_value running, next]
    rfl

theorem InOrder.cancelled_of_dropped {t : WaitTerms} {saved : Int} {answer : Except SyncError Verdict}
    (hw : InOrder t.sync w)
    (running : (w.actor a).activity = .busy .running (.call (.letGo t n saved) (.answered answer)))
    (refused : grants answer = false) : (((w.step a).1.queue t.sync).node n).status = .cancelled := by
  obtain ⟨waits, -⟩ := hw.seated.waits_of_letGo (Actor.position_of_busy running) rfl refused
  have queue : (w.step a).1.queue t.sync = (w.queue t.sync).setStatus n .cancelled := by
    rw [step_drops running refused]
    exact queue_setQueue_self hw.seated.inTable _
  rw [queue, WaitQueue.status_setStatus_self _ (WaitQueue.Extends.lt_of_waits waits)]

/-- Whoever has its answer about the release has nothing more to do with the world but to use up a pause. -/
theorem step_letGo_leaving {t : WaitTerms} {saved : Int} {answer : Except SyncError Verdict}
    (running : (w.actor a).activity = .busy .running (.call (.letGo t n saved) (.leaving answer))) :
    ∃ pauses, ButFor a { w with pauses } (w.step a).1 := by
  obtain ⟨pauses, fired, eq, -⟩ := w.trip_eq a .release false
  have next : (w.stride a (.call (.letGo t n saved) (.leaving answer))).1 = { w with pauses } := by
    change (w.callHook a (.letGo t n saved) (.leaving answer)).1 = _
    simp only [callHook, Site.hook, eq]
    cases fired <;> rfl
  rw [step_eq running, next]
  exact ⟨pauses, .setActivity _ a _⟩

/-- The node has given up, and nobody minds it: the chain of the condition is as good as without it. -/
structure Forgone (s : SyncId) (c : ConditionId) (n : NodeId) (w : World) : Prop where
  cancelled : ((w.queue s).node n).status = .cancelled
  left : n ∉ (w.queue s).live
  /-- The condition chains its nodes without a break, and the node does not count among those that wait. -/
  chained : (w.condition c).Strings (w.queue s) ((w.condition c).waiters (w.queue s))
  uncounted : n ∉ (w.condition c).unsignalled (w.queue s)
  /-- Whoever asks is told of the actors of those nodes, one for each. -/
  told : ∀ a p errand, (w.actor a).activity = .busy .running p → p.errand s c = some errand →
    ∃ as, ((w.condition c).unsignalled (w.queue s)).map (fun m => ((w.queue s).node m).actor) = as.map some ∧
      (w.step a).2 = some (errand.report as)
  /-- A signal drops whoever has given up before the first that waits, and moves that one. -/
  passed : ∀ a p, (w.actor a).activity = .busy .running p → p.errand s c = some .signal →
    Condition.Signalled (w.condition c) (w.queue s) ((w.condition c).waiters (w.queue s))
      ((w.step a).1.condition c) ((w.step a).1.queue s)
  /-- A signal to all moves those that wait. -/
  moved : ∀ a p errand, (w.actor a).activity = .busy .running p → p.errand s c = some errand →
    Moves (w.queue s) ((w.step a).1.queue s) (errand.signalled ((w.condition c).unsignalled (w.queue s)))

theorem Listed.forgone {ns : ConditionId → List NodeId} {as : List ActorId} (h : Listed s c w ns as)
    (hw : InOrder s w) (gone : ((w.queue s).node n).status = .cancelled) : Forgone s c n w := by
  obtain ⟨k, body, hq⟩ := hw.seated.shaped
  constructor
  case cancelled => exact gone
  case left => exact WaitQueue.notMem_live_of_cancelled gone
  case chained => exact (h.strung.strings h.mine).1
  case uncounted =>
    intro waits
    simpa [gone] using (h.mem_unsignalled.1 waits).2
  case told => exact fun a p errand running does => ⟨as, h.names, h.reports running does⟩
  case passed =>
    intro a p running does
    obtain ⟨v, rfl, granted⟩ := Position.errand_eq does
    obtain ⟨queue, condition⟩ := step_errand hw.seated.inTable h.inTable running granted rfl
    have signalled := Condition.signalled_signalFrom (w.condition c) hq ((w.condition c).waiters (w.queue s))
    rw [← queue, ← condition] at signalled
    exact signalled
  case moved =>
    intro a p errand running does
    obtain ⟨v, rfl, granted⟩ := Position.errand_eq does
    exact h.strung.moves_errand hw granted running

/-- An operation on a condition fails at the first check that is not met, with nothing left behind but what
that check does. A wait whose release comes to nothing leaves a node that has given up for good. -/
theorem failures_contained :
    (∀ (w : World) (a : ActorId) (p : Position) (s : SyncId) (c : ConditionId),
      (w.actor a).activity = .busy .running p → p.Checks s c →
      ∃ r, Check w a s c p r ∧ w.step a = (r.1.setActivity a r.2.activity, r.2.value)) ∧
    (∀ (w : World) (a : ActorId) (op : Operation) (s : SyncId) (c : ConditionId),
      a < w.actors.size → op.condition = some (s, c) → Checked w a op s c) ∧
    (∀ (limit : Int), ∀ policy ∈ Policy.catalogue limit, policy.OnlyLooks) ∧
    (∀ (w : World) (a : ActorId) (t : WaitTerms) (n : NodeId) (saved : Int) (answer : Except SyncError Verdict),
      (w.actor a).activity = .busy .running (.call (.letGo t n saved) (.leaving answer)) →
      ∃ pauses, ButFor a { w with pauses } (w.step a).1) ∧
    ∀ {actors tokens : Nat} {syncs : List Synchronizer} {conditions : List SyncId} {s : SyncId}
      {x : Synchronizer} {events later : List Event} {a : ActorId} {t : WaitTerms} {n : NodeId} {saved : Int}
      {answer : Except SyncError Verdict},
      let start := World.create actors tokens syncs conditions
      let w := start.after events
      syncs[s]? = some x → x.queue = .empty → Orderly s start (events ++ .step a :: later) →
      (w.actor a).activity = .busy .running (.call (.letGo t n saved) (.answered answer)) → t.sync = s →
      grants answer = false →
      w.step a = ((w.setQueue s ((w.queue s).setStatus n .cancelled)).setActivity a .idle,
          some (.failed (refusal .notFreed answer))) ∧
        ∀ c, conditions[c]? = some s → Forgone s c n (w.after (.step a :: later)) := by
  refine ⟨fun w a p s c running checks => ?_, fun w a op s c inTable about => checked inTable about,
    fun limit policy known => Policy.onlyLooks_of_mem known,
    fun w a t n saved answer running => step_letGo_leaving running, ?_⟩
  · exact ⟨_, check_stride w a checks, Prod.ext (step_eq running) (step_value running)⟩
  intro actors tokens syncs conditions s x events later a t n saved answer start w hx empty orderly running
    here refused
  subst here
  refine ⟨step_drops running refused, fun c hc => ?_⟩
  have hw : InOrder t.sync w := .after hx empty orderly.of_append
  rw [List.append_cons] at orderly
  have next : InOrder t.sync (start.after (events ++ [.step a])) := .after hx empty orderly.of_append
  have chain := InOrder.later_after hx empty orderly
  have last : InOrder t.sync (start.after (events ++ [.step a] ++ later)) := .after hx empty orderly
  obtain ⟨ns, as, listed⟩ := Listed.after hx empty hc orderly
  have eq : start.after (events ++ [.step a] ++ later) = w.after (.step a :: later) := by
    rw [after_append, after_append]
    rfl
  rw [eq] at last listed chain
  refine listed.forgone last (chain.cancelled next.seated.shaped ?_)
  rw [after_append]
  exact hw.cancelled_of_dropped running refused

set_option maxRecDepth 8000 in
/-- Of two actors that come to wait the second cannot release, so its node is dropped. It signals the first. -/
theorem failures_contained_dropped :
    let start := World.create 2 1 [{ policy := .mutex, state := 0 }, { policy := .mutex, state := 0 }] [0, 1]
    let told := start.cancel 0
    let before : List Event :=
      .begin 0 (.acquire 0 .exclusive 1 .plain) :: List.replicate 5 (Event.step 0) ++
      .begin 0 (.wait 0 0 (.interruptible none)) :: List.replicate 14 (Event.step 0) ++
      .begin 1 (.acquire 0 .exclusive 1 .plain) :: List.replicate 5 (Event.step 1) ++
      .breakHook 0 .release (.overflow "broken") (some 1) ::
      .begin 1 (.wait 0 0 (.interruptible none)) :: List.replicate 7 (Event.step 1)
    let events := before ++ [.step 1]
    let later : List Event := .begin 1 (.errand 0 0 .signal) :: List.replicate 4 (Event.step 1)
    let w := start.after events
    let w' := w.after (.step 1 :: later)
    FailsWith 0 .foreignCondition start (start.outcome 0 (.errand 0 1 .listWaiters)) ∧
    FailsWith 0 .interrupted (told.modifyToken (some 0) fun _ => { cancelled := false, waiter := some 0 })
      (told.outcome 0 (.wait 0 0 (.interruptible (some 0)))) ∧
    FailsWith 0 .notHeld (start.ask 0 .isHeld 0 0).1 (start.outcome 0 (.errand 0 0 .signal)) ∧
    (∃ pauses, ButFor 1 { start.after before with pauses } ((start.after before).step 1).1) ∧
    (w.step 1).2 = some (.failed (.overflow "broken")) ∧ Forgone 0 0 2 w' ∧
    Moves (w'.queue 0) ((w'.step 1).1.queue 0) [1] := by
  intro start told before events later w w'
  obtain ⟨-, checked, -, released, drops⟩ := failures_contained
  have orderly : Orderly 0 start (events ++ .step 1 :: later) :=
    Or.inr ⟨_, (Locking.create rfl (Or.inl rfl) rfl rfl rfl).honest (by decide +kernel)⟩
  have leaving : ((start.after before).actor 1).activity = .busy .running
      (.call (.letGo ⟨0, 0, { interruptible := true }, .done⟩ 2 1) (.leaving (.error (.overflow "broken")))) := by
    simp only [before, start]
    rfl
  have running : (w.actor 1).activity = .busy .running
      (.call (.letGo ⟨0, 0, { interruptible := true }, .done⟩ 2 1) (.answered (.error (.overflow "broken")))) := by
    simp only [w, events, before, start]
    rfl
  obtain ⟨dropped, forgone⟩ := drops rfl rfl orderly running rfl rfl
  have forgone : Forgone 0 0 2 w' := forgone 0 rfl
  have signals : (w'.actor 1).activity = .busy .running
      (.call (.errand 0 0 .signal) (.answered (.ok .granted))) := by
    simp only [w', w, events, later, before, start]
    rfl
  have moved := forgone.moved 1 _ .signal signals rfl
  rw [show (w'.condition 0).unsignalled (w'.queue 0) = [1] by decide +kernel] at moved
  refine ⟨(checked start 0 (.errand 0 1 .listWaiters) 0 1 (by decide) rfl).foreign rfl,
    (checked told 0 (.wait 0 0 (.interruptible (some 0))) 0 0 (by decide) rfl).interrupted rfl rfl rfl,
    (checked start 0 (.errand 0 0 .signal) 0 0 (by decide) rfl).unheld rfl (by decide) (by simp [start, create])
      rfl, released (start.after before) 1 _ 2 1 _ leaving, congrArg Prod.snd dropped, forgone, moved⟩

end World

end Turnstile
