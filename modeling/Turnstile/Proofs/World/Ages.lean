import Turnstile.Proofs.Policy.Locks
import Turnstile.Proofs.Queue.Touch
import Turnstile.Proofs.World.Roll

/-! The statuses of nodes in the course of a run: whatever happens works the queue by its operations alone,
and a node lives once. -/
namespace Turnstile

open WaitQueue (Touch Later Ages Shaped InUse)

namespace WaitQueue

variable {q q' : WaitQueue} {h n : NodeId} {body : List NodeId}

/-- An operation by which every node ages. -/
def Aging (q q' : WaitQueue) : Prop := Touch q q' ∧ ∀ n, Ages q q' n

namespace Later

theorem aging (later : Later q q') (hq : ∃ h body, Shaped q h body) :
    Relation.ReflTransGen Aging q q' := by
  induction later with
  | refl => exact .refl
  | tail earlier touch ih =>
    obtain ⟨h, body, shaped⟩ := Later.shaped earlier hq
    exact ih.tail ⟨touch, (touch.ages shaped).2⟩

theorem wakeFirst (q : WaitQueue) : Later q q.wakeFirst.1 := by
  unfold WaitQueue.wakeFirst
  split
  · exact .refl
  · rename_i h head
    split
    · exact .refl
    · exact .single (.wakeNext head)

theorem transferSignalled (q : WaitQueue) (n : NodeId) : Later q (q.transferSignalled n).1 := by
  by_cases waits : (q.node n).status = .condition
  · exact .single (.transferSignalled waits)
  · rw [transferSignalled_of_ne waits]

theorem transferUnsignalled (q : WaitQueue) (n : NodeId) : Later q (q.transferUnsignalled n).1 := by
  by_cases waits : (q.node n).status = .condition
  · exact .single (.transferUnsignalled waits)
  · rw [transferUnsignalled_of_ne waits]

theorem moved (q : WaitQueue) (n : NodeId) : Later q ((q.setFollower n none).transferSignalled n).1 :=
  .trans (.single (.chain (Alike.setFollower q n none))) (transferSignalled _ n)

theorem signalFrom (c : Condition) (q : WaitQueue) (ns : List NodeId) :
    Later q (c.signalFrom q ns).2.1 := by
  induction ns generalizing c q with
  | nil => exact .refl
  | cons n rest ih =>
    have moved := moved q n
    unfold Condition.signalFrom
    dsimp only
    split
    all_goals
      rename_i e
      rw [e] at moved
    · exact moved
    · exact moved.trans (ih _ _)

theorem moveAll (q : WaitQueue) (ns : List NodeId) : Later q (Condition.moveAll q ns).1 := by
  induction ns generalizing q with
  | nil => exact .refl
  | cons n rest ih => exact (moved q n).trans (ih _)

theorem joinCondition (c : Condition) (q : WaitQueue) (a : ActorId) : Later q (c.join q a).2.1 := by
  obtain ⟨q₁, before, -, after⟩ := c.join_spec q a
  exact .tail (.tail (.single (.chain before)) (.create .exclusive .condition a (.inr rfl))) (.chain after)

end Later

end WaitQueue

namespace World

variable {s : SyncId} {w : World} {a : ActorId} {e : Event} {n : NodeId}

/-- To take a turn is to become the head and to cut the link from the old one. -/
theorem InOrder.later_turned (hw : InOrder s w) {q : Queued} {v : Verdict} {q' : WaitQueue}
    (hp : (w.actor a).position = some (.call (.turn q) (.answered (.ok v)))) (here : q.claim.sync = s)
    (cut : ∀ h, ((w.queue s).node q.node).prev = some h → q' = (turned (w.queue s) q v).1.setNext h none) :
    Later (w.queue s) q' := by
  obtain ⟨h, zs, hq, alive, head, prev, -⟩ := hw.seated.called hp here
  have live := (hw.seated.live_of_place hp rfl here).1
  have turn : ((w.queue s).node q.node).prev = (w.queue s).head := prev.trans head.symm
  obtain ⟨touch, shaped, opened⟩ : Touch (w.queue s) (turned (w.queue s) q v).1 ∧
      Shaped (turned (w.queue s) q v).1 q.node zs ∧ (turned (w.queue s) q v).1.head = some q.node := by
    unfold turned
    split
    · exact ⟨.promote live turn, hq.promote alive, rfl⟩
    · exact ⟨.promoteShared _ live turn, hq.shaped_promoteShared alive _,
        (hq.promoted_promoteShared alive _).head⟩
  have gone : h ∉ (turned (w.queue s) q v).1.backward := by
    rw [shaped.backward_eq, opened, Option.isSome_some, if_pos rfl]
    simpa [or_comm] using hq.front_notMem_promoted
  rw [cut h prev]
  exact .tail (.single touch) (.cutLink (by rw [opened]; rfl) gone)

/-- Whatever happens works the queue by its operations. -/
theorem InOrder.later (hw : InOrder s w) (e : Event) : Later (w.queue s) ((w.happen e).queue s) := by
  rcases hw.tasked.deeds hw.seated.inTable e with ⟨same, -⟩ | ⟨a, p, q', cs, rfl, running, deed, queue, -⟩
  · rw [same]
  rw [queue]
  clear queue
  have hp : (w.actor a).position = some p := Actor.position_of_busy running
  cases deed with
  | rest => exact .refl
  | join => exact Later.join .refl _ _
  | ready => exact .single (.readyToPark (hw.seated.live_of_place hp rfl rfl).1)
  | withdraw place => exact .single (.withdraw (hw.seated.live_of_place hp place rfl).1)
  | turn _ cut => exact hw.later_turned hp rfl cut
  | @finish q v q' c _ cut =>
    exact .tail (hw.later_turned hp rfl cut) (.chain ((w.conditions.get c).alike_prune q'))
  | serve _ served =>
    rcases served with rfl | rfl
    · exact .wakeFirst _
    · exact .single .wakeShared
  | drop failed => exact .single (.drop (hw.seated.waits_of_letGo hp rfl failed).1)
  | transfer => exact .transferUnsignalled _ _
  | enter => exact .joinCondition _ _ a
  | signal => exact .signalFrom _ _ _
  | signalAll => exact .moveAll _ _

/-- An actor learns that it cannot give up the synchronizer for its wait, which has the node. -/
def Drops (s : SyncId) (w : World) (e : Event) (n : NodeId) : Prop :=
  ∃ a t saved answer, e = .step a ∧
    (w.actor a).activity = .busy .running (.call (.letGo t n saved) (.answered answer)) ∧
    t.sync = s ∧ grants answer = false

/-- Whoever waits on a condition waits on it or in the queue afterwards, unless it is dropped. -/
theorem InOrder.used_or_drops (hw : InOrder s w) (e : Event)
    (waits : ((w.queue s).node n).status = .condition) :
    ((w.happen e).queue s).InUse n ∨ w.Drops s e n := by
  obtain ⟨h, body, hq⟩ := hw.seated.shaped
  rcases hw.tasked.deeds hw.seated.inTable e with ⟨same, -⟩ | ⟨a, p, q', cs, rfl, running, deed, queue, -⟩
  · exact Or.inl (Or.inr (same ▸ waits))
  rw [queue]
  clear queue
  have hp : (w.actor a).position = some p := Actor.position_of_busy running
  have joined : ∀ {q' m}, WaitQueue.Joined (w.queue s) q' m → q'.InUse n := by
    intro q' m hj
    by_cases e : n = m
    · exact Or.inl (e ▸ hj.mem_live)
    · exact Or.inr ((hj.spares.waits n e).2 waits)
  have moves : ∀ {q' ns}, WaitQueue.Moves (w.queue s) q' ns → q'.InUse n := by
    intro q' ns hm
    by_cases mem : n ∈ ns
    · exact Or.inl (hm.live ▸ List.mem_append_right _ mem)
    · exact Or.inr ((hm.waits_iff mem).2 waits)
  cases deed with
  | rest => exact Or.inl (Or.inr waits)
  | @join c => exact Or.inl (joined (hq.joined_join c.mode a).1)
  | @ready q =>
    have readied := hq.readied_readyToPark (hw.seated.live_of_place hp rfl rfl).1
    exact Or.inl (Or.inr ((readied.waits n).2 waits))
  | withdraw place =>
    have withdrawn := hq.withdrawn (hw.seated.live_of_place hp place rfl).1
    exact Or.inl (Or.inr ((withdrawn.waits n).2 waits))
  | turn granted cut =>
    obtain ⟨k, -, promoted⟩ := hw.seated.promoted_of_cut hp rfl cut
    exact Or.inl (Or.inr ((promoted.waits n).2 waits))
  | @finish q v q' c granted cut =>
    obtain ⟨k, -, promoted⟩ := hw.seated.promoted_of_cut hp rfl cut
    have same := ((w.conditions.get c).alike_prune q').status n
    exact Or.inl (Or.inr (same.trans ((promoted.waits n).2 waits)))
  | serve _ served =>
    rcases served with rfl | rfl
    · exact Or.inl (Or.inr ((hq.served_wakeFirst.waits n).2 waits))
    · exact Or.inl (Or.inr ((hq.served_wakeShared.waits n).2 waits))
  | @drop t m saved answer failed =>
    by_cases e : n = m
    · subst e
      exact Or.inr ⟨a, t, saved, answer, rfl, running, rfl, failed⟩
    · exact Or.inl (Or.inr (by rwa [WaitQueue.status_setStatus_of_ne _ _ e]))
  | @transfer p v awaits =>
    by_cases leaves : ((w.queue v.terms.sync).node v.node).status = .condition
    · exact Or.inl (joined (hq.joined_transferUnsignalled leaves).1)
    · rw [WaitQueue.transferUnsignalled_of_ne leaves]
      exact Or.inl (Or.inr waits)
  | enter =>
    obtain ⟨q₁, before, -, after⟩ := (w.conditions.get _).join_spec (w.queue _) a
    have waits₁ := (before.status n).trans waits
    have old : n ≠ q₁.nodes.size := Nat.ne_of_lt (WaitQueue.Extends.lt_of_waits waits₁)
    refine Or.inl (Or.inr ((after.status n).trans ?_))
    rwa [q₁.node_create_of_ne _ _ _ old]
  | signal =>
    rcases Condition.signalled_signalFrom (w.conditions.get _) hq _ with
      ⟨-, alike, -, -, -⟩ | ⟨xs, m, ys, -, -, moved, -, -⟩
    · exact Or.inl (Or.inr ((alike.status n).trans waits))
    · exact Or.inl (moves moved)
  | @signalAll s c =>
    obtain ⟨ns, moved⟩ := Condition.exists_moves_moveAll hq ((w.conditions.get c).waiters (w.queue s))
    exact Or.inl (moves moved)

theorem InOrder.settled (hw : InOrder s w) :
    (∀ n ∈ (w.queue s).backward, ((w.queue s).node n).status ≠ .condition) ∧
      ∀ n, (w.queue s).head = some n ∨ (w.queue s).tail = some n →
        ((w.queue s).node n).status ≠ .cancelled := by
  obtain ⟨h, body, hq⟩ := hw.seated.shaped
  constructor
  · intro n hn
    rw [hq.backward_eq] at hn
    split at hn
    · exact hq.joined n (by simpa [or_comm] using hn)
    · simp at hn
  · intro n ends gone
    have alive : ((w.queue s).node n).isLive := by
      rcases hq.ends with ⟨head, tail⟩ | ⟨head, tail, -⟩
      · rcases ends with e | e
        · obtain rfl : h = n := Option.some.inj (head.symm.trans e)
          exact hq.front_live
        · obtain rfl : body.head?.getD h = n := Option.some.inj (tail.symm.trans e)
          cases body with
          | nil => exact hq.front_live
          | cons l rest => exact hq.tail_live l rfl
      · simp [head, tail] at ends
    simp [Node.isLive, gone] at alive

/-- In every state of a run the status of a node fits its place, and from there on the queue is only worked
by operations by which its nodes age. -/
theorem statuses_age {actors tokens : Nat} {syncs : List Synchronizer} {conditions : List SyncId}
    {x : Synchronizer} (hx : syncs[s]? = some x) (empty : x.queue = .empty) {events later : List Event}
    (orderly : Orderly s (World.create actors tokens syncs conditions) (events ++ later)) :
    let w := (World.create actors tokens syncs conditions).after events
    let q := w.queue s
    let q' := (w.after later).queue s
    (∀ n ∈ q.backward, (q.node n).status ≠ .condition) ∧
    (∀ n, q.head = some n ∨ q.tail = some n → (q.node n).status ≠ .cancelled) ∧
    Relation.ReflTransGen WaitQueue.Aging q q' ∧
    (∀ n, (q.node n).status = .cancelled → (q'.node n).status = .cancelled) ∧
    (∀ n < q.nodes.size, (q.node n).status ≠ .condition → (q'.node n).status ≠ .condition) ∧
    ∀ e n, (q.node n).status = .condition → (((w.happen e).queue s).node n).status ≠ .condition →
      n ∈ ((w.happen e).queue s).live ∨ w.Drops s e n := by
  intro w q q'
  have hw : InOrder s w := .after hx empty orderly.of_append
  have chain : Later q q' := by
    unfold q' w
    rw [← after_append]
    induction later using List.reverseRecOn with
    | nil => rw [List.append_nil]
    | append_singleton later e ih =>
      rw [← List.append_assoc] at orderly
      have before := orderly.of_append
      rw [← List.append_assoc, after_append, after_cons, after_nil]
      exact (ih before).trans ((InOrder.after hx empty before).later e)
  obtain ⟨joined, ends⟩ := hw.settled
  refine ⟨joined, ends, chain.aging hw.seated.shaped, fun n => chain.cancelled hw.seated.shaped,
    fun n => chain.settled hw.seated.shaped, fun e n waits off => ?_⟩
  exact (hw.used_or_drops e waits).imp_left fun used => used.resolve_right off

/-- Two actors come to wait. The second cannot release, so its node is dropped; it signals the first. -/
theorem statuses_age_dropped :
    let start := World.create 2 0 [{ policy := .mutex, state := 0 }] [0]
    let events : List Event :=
      .begin 0 (.acquire 0 .exclusive 1 .plain) :: List.replicate 5 (Event.step 0) ++
      .begin 0 (.wait 0 0 (.interruptible none)) :: List.replicate 14 (Event.step 0) ++
      .begin 1 (.acquire 0 .exclusive 1 .plain) :: List.replicate 5 (Event.step 1) ++
      .breakHook 0 .release (.overflow "broken") (some 1) ::
      .begin 1 (.wait 0 0 (.interruptible none)) :: List.replicate 8 (Event.step 1)
    let later : List Event := .step 1 :: .begin 1 (.errand 0 0 .signal) :: List.replicate 5 (Event.step 1)
    let w := start.after events
    let w' := w.after later
    w.Drops 0 (.step 1) 2 ∧ Relation.ReflTransGen WaitQueue.Aging (w.queue 0) (w'.queue 0) ∧
      ((w'.queue 0).node 1).status = .initial ∧ ((w'.queue 0).node 2).status = .cancelled := by
  intro start events later w w'
  have orderly : Orderly 0 start (events ++ later) :=
    Or.inr ⟨_, (Locking.create rfl (Or.inl rfl) rfl rfl rfl).honest (by decide +kernel)⟩
  obtain ⟨-, -, chain, -, -, off⟩ := statuses_age (s := 0) rfl rfl orderly
  have outside : 2 ∉ ((w.happen (.step 1)).queue 0).live := by decide +kernel
  refine ⟨(off _ 2 ?_ ?_).resolve_left outside, chain, ?_, ?_⟩ <;> decide +kernel

end World

end Turnstile
