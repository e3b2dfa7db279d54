import Turnstile.Proofs.Policy.Locks
import Turnstile.Proofs.Queue.Hints
import Turnstile.Proofs.World.Order

/-! A fair lock: nobody takes it while another waits, and whoever is first takes it when it is free. -/
namespace Turnstile

open WaitQueue (Hinted)

namespace Synchronizer

variable {x : Synchronizer} {a : ActorId}

/-- A fair lock is granted only to who is told that nobody is before it. -/
theorem clear_of_fair {arg : Int} (fair : x.policy = .fair)
    (granted : grants (x.ask .acquire a arg).2 = true) : x.queue.hasPredecessors a = false := by
  by_contra behind
  rw [Bool.not_eq_false] at behind
  unfold ask at granted
  split at granted
  · simp at granted
  · simp [fair, Policy.fair, inquiry, behind, Inquiry.refuse, Inquiry.keep, Verdict.isGrant] at granted

/-- A fair lock that is free is granted to who has nobody before it. -/
theorem ask_of_fair (fair : x.policy = .fair) (arg : Int) (free : x.state = 0)
    (unbroken : x.failures .acquire = none) (clear : x.queue.hasPredecessors a = false) :
    (x.ask .acquire a arg).2 = .ok .granted ∧ (x.ask .acquire a arg).1.owner = some a := by
  simp [ask, unbroken, fair, Policy.fair, inquiry, clear, Inquiry.seize, free]

end Synchronizer

namespace World

variable {s : SyncId} {w : World} {a : ActorId}

theorem hinted_turned {q : WaitQueue} (h : Hinted q) (c : Queued) (v : Verdict) : Hinted (turned q c v).1 := by
  unfold turned
  split
  · exact h.promote _
  · exact h.promoteShared _ _

theorem InOrder.hinted_happen (hw : InOrder s w) (h : Hinted (w.queue s)) (e : Event) :
    Hinted ((w.happen e).queue s) := by
  obtain ⟨k, body, hq⟩ := hw.seated.shaped
  rcases hw.tasked.deeds hw.seated.inTable e with ⟨same, -⟩ | ⟨a, p, q', cs, rfl, running, deed, queue, -⟩
  · rwa [same]
  rw [queue]
  clear queue
  have hp : (w.actor a).position = some p := Actor.position_of_busy running
  cases deed with
  | rest => exact h
  | join => exact h.join _ _
  | @ready q => exact h.readyToPark (hq.sound_of_mem (hw.seated.live_of_place hp rfl rfl).1)
  | withdraw => exact h.withdraw _
  | @turn q v q' _ cut =>
    obtain ⟨k, rfl, -⟩ := hw.seated.promoted_of_cut hp rfl cut
    exact (hinted_turned h q v).cut k
  | @finish q v q' c _ cut =>
    obtain ⟨k, rfl, -⟩ := hw.seated.promoted_of_cut hp rfl cut
    exact ((hinted_turned h q v).cut k).of_alike ((w.conditions.get c).alike_prune _)
  | serve _ served =>
    rcases served with rfl | rfl
    · exact h.wakeFirst
    · exact h.wakeShared
  | drop failed => exact h.drop (hw.seated.waits_of_letGo hp rfl failed).1
  | transfer => exact h.transferUnsignalled _
  | enter => exact h.joinCondition _ a
  | signal => exact h.signalFrom _ _
  | signalAll => exact h.moveAll _

/-- What holds throughout at a fair lock. -/
structure Fair (s : SyncId) (w : World) : Prop where
  policy : (w.sync s).policy = .fair
  hinted : Hinted (w.queue s)

theorem Fair.happen (h : Fair s w) (hw : InOrder s w) (e : Event) : Fair s (w.happen e) :=
  ⟨(hw.seated.policy_happen e).trans h.policy, hw.hinted_happen h.hinted e⟩

/-- Nobody takes a fair lock but the first of those who wait, if anyone waits. -/
theorem Fair.first (h : Fair s w) (hw : InOrder s w) {arg : Int}
    (granted : grants ((w.sync s).ask .acquire a arg).2 = true) :
    (w.queue s).live = [] ∨ ∃ f, (w.queue s).live.head? = some f ∧ ((w.queue s).node f).actor = some a := by
  obtain ⟨k, body, hq⟩ := hw.seated.shaped
  exact h.hinted.first_of_hasPredecessors hq (Synchronizer.clear_of_fair h.policy granted)

/-- A fair lock never lets anyone in before one that waits, and never keeps out the first of those who wait
because of another. Neither cancellations nor conditions make a difference. -/
theorem fair_in_turn {actors tokens : Nat} {syncs : List Synchronizer} {conditions : List SyncId}
    {x : Synchronizer} (hx : syncs[s]? = some x) (fair : x.policy = .fair) (empty : x.queue = .empty)
    {events : List Event}
    (lawful : (x.state = 0 ∧ x.owner = none ∧
        Obeys (Proper s) (World.create actors tokens syncs conditions) events) ∨
      Orderly s (World.create actors tokens syncs conditions) events) :
    let w := (World.create actors tokens syncs conditions).after events
    (∀ e a answer, w.heard s e = some (a, .acquire, answer) → grants answer = true →
      (w.queue s).live = [] ∨
        ∃ f, (w.queue s).live.head? = some f ∧ ((w.queue s).node f).actor = some a) ∧
    ∀ a q, (w.actor a).activity = .busy .running (.call (.turn q) .entering) → q.claim.sync = s →
      (w.queue s).live.head? = some q.node ∧ ((w.queue s).node q.node).actor = some a ∧
      (w.queue s).hasPredecessors a = false ∧
      (q.claim.mode = .exclusive → (w.sync s).state = 0 → (w.sync s).failures .acquire = none →
        w.heard s (.step a) = some (a, .acquire, .ok .granted) ∧
          ((w.happen (.step a)).sync s).owner = some a) := by
  intro w
  have start : (World.create actors tokens syncs conditions).sync s = x := sync_create hx
  have orderly : Orderly s (World.create actors tokens syncs conditions) events := by
    rcases lawful with ⟨free, unowned, proper⟩ | orderly
    · exact Or.inr ⟨_, (Locking.create hx (Or.inr (Or.inl fair)) free unowned empty).honest proper⟩
    · exact orderly
  have hw : InOrder s w := .after hx empty orderly
  have kept : Fair s w := by
    refine InOrder.invariant hx empty ⟨start ▸ fair, ?_⟩ (fun _ e hw h => h.happen hw e) orderly
    rw [World.queue, start, empty]
    exact WaitQueue.hinted_empty
  refine ⟨fun e a answer heard granted => ?_, fun a q running here => ?_⟩
  · obtain ⟨site, -, -, -, hook, rfl⟩ := heard_eq_some.1 heard
    rw [hook] at granted
    exact kept.first hw granted
  · have hp : (w.actor a).position = some (.call (.turn q) .entering) := Actor.position_of_busy running
    obtain ⟨k, zs, hq, -, head, prev, first⟩ := hw.seated.called hp here
    obtain ⟨live, actor⟩ := hw.seated.live_of_place hp rfl here
    have clear := hq.hasPredecessors_of_prev live (prev.trans head.symm) actor
    refine ⟨first, actor, clear, fun mode free unbroken => ?_⟩
    have hook : (Site.turn q).hook = .acquire := by rw [Site.hook, mode]; rfl
    obtain ⟨granted, owner⟩ := Synchronizer.ask_of_fair kept.policy q.claim.arg free unbroken clear
    refine ⟨heard_eq_some.2 ⟨_, rfl, running, here, hook, ?_⟩, ?_⟩
    · rw [hook]
      exact granted
    · rw [World.happen, sync_asks hw.seated.inTable running here, hook]
      exact owner

set_option maxRecDepth 8000 in
/-- Of two that wait for a lock the first is cancelled, and after a release the other takes it. -/
theorem fair_in_turn_cancelled :
    let w := (World.create 3 1 [{ policy := .fair, state := 0 }] []).after
      (.begin 0 (.acquire 0 .exclusive 1 .plain) :: List.replicate 5 (.step 0) ++
        .begin 1 (.acquire 0 .exclusive 1 (.interruptible (some 0))) :: List.replicate 18 (.step 1) ++
        .begin 2 (.acquire 0 .exclusive 1 .plain) :: List.replicate 18 (.step 2) ++
        .cancel 0 :: .resume 1 :: List.replicate 2 (.step 1) ++
        .begin 0 (.release 0 .exclusive 1) :: List.replicate 5 (.step 0) ++
        .resume 2 :: List.replicate 5 (.step 2))
    (w.queue 0).live = [2] ∧ (w.queue 0).hasPredecessors 2 = false ∧
      w.heard 0 (.step 2) = some (2, .acquire, .ok .granted) :=
  have reached := (fair_in_turn (s := 0) rfl rfl rfl (Or.inl ⟨rfl, rfl, by decide +kernel⟩)).2 2
    ⟨⟨0, .exclusive, 1, {}, .operation false⟩, 2, false⟩ rfl rfl
  ⟨by decide +kernel, reached.2.2.1, (reached.2.2.2 rfl (by decide +kernel) rfl).1⟩

end World

end Turnstile
