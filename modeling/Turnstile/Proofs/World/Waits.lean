import Turnstile.Proofs.World.Answers
import Turnstile.Proofs.World.Calls

/-! The steps of an actor that waits, in the queue or on a condition, and with them every step. -/
namespace Turnstile

open WaitQueue (Shaped Alike Change Passes)

namespace World

variable {s : SyncId} {w : World} {me : ActorId} {p : Position} {h : NodeId} {body : List NodeId}

theorem moved_queueing (hs : s < w.syncs.size) (hq : Shaped (w.queue s) h body) (c : Claim) :
    Moved s w me (.queueing c) (w.advance me (.queueing c)) := by
  unfold advance
  dsimp only
  split
  · exact Moved.aside hq (Beside.refl w) rfl rfl rfl (by simp) (by simp [Position.releasing])
  have eq : w.queueUp me c = (w.setQueue c.sync ((w.queue c.sync).join c.mode me).1,
      .goes (.turn ⟨c, (w.queue c.sync).nodes.size, false⟩)) := rfl
  rw [eq]
  by_cases here : c.sync = s
  · subst here
    obtain ⟨joined, actor, mode⟩ := hq.joined_join c.mode me
    have old : ∀ m, (w.queue c.sync).InUse m → m ≠ (w.queue c.sync).nodes.size := by
      rintro m (hm | hm) rfl
      · exact joined.notMem hm
      · rw [WaitQueue.node_of_size_le (Nat.le_refl _)] at hm
        simp at hm
    have after : (Next.goes (.turn ⟨c, (w.queue c.sync).nodes.size, false⟩)).seat c.sync =
        .queued (w.queue c.sync).nodes.size c.mode false := if_pos rfl
    refine Moved.of_change (Beside.setQueue w _)
      (by
        rw [after]
        exact joined.change hq (by simp [Position.seat, Seat.node]) fun _ used => old _ used rfl)
      (by rw [queue_setQueue_self hs]; exact Alike.refl _) (by simp)
      (Or.inr (Or.inr ?_)) (Or.inr fun m _ waits => ?_)
      (by rw [after]; exact ⟨joined.mem_live, actor, mode, by simp⟩) (fun _ _ => rfl) (by simp)
      (by simp [Position.releasing])
    · rw [after]
      exact joined.passes hq fun m hm => hq.status_join c.mode me hm
    · exact (joined.spares.waits m (old m (Or.inr waits))).2 waits
  · exact Moved.aside hq (Beside.setQueue w _) (queue_setQueue_of_ne here _) rfl (if_neg here)
      (by simp) (by simp [Position.releasing])

theorem moved_turn (hq : Shaped (w.queue s) h body) (q : Queued)
    (seat : ((Position.turn q).seat s).Held (w.queue s) me) :
    Moved s w me (.turn q) (w.turn q) := by
  have quiet : (Position.turn q).releasing s = false := rfl
  unfold World.turn
  dsimp only
  by_cases here : q.claim.sync = s
  · subst here
    have before : (Position.turn q).seat q.claim.sync = .queued q.node q.claim.mode false := if_pos rfl
    rw [before] at seat
    obtain ⟨live, actor, mode, -⟩ := seat
    obtain ⟨hb, -⟩ := hq.mem_live.1 live
    obtain ⟨ys, xs, rfl⟩ := List.append_of_mem hb
    rw [hq.prev_eq]
    dsimp only
    split
    · rename_i front
      have after : (Next.goes (.call (.turn q) .arriving)).seat q.claim.sync =
          .queued q.node q.claim.mode true := if_pos rfl
      refine Moved.calm hq (Beside.refl w) (Alike.refl _) (by rw [before, after]; rfl) ?_
        (by simp [Next.sleepy, Position.sleepy]) (by simp)
        (by simp [Next.sleepy, Position.sleepy, Stage.refused]) (by simp [quiet])
      rw [after]
      refine ⟨live, actor, mode, fun _ => ?_⟩
      rw [hq.prev_eq]
      exact (by simpa [WaitQueue.isHead] using front : (w.queue q.claim.sync).head = _).symm
    · rename_i behind
      have after : (Next.goes (.lingering q)).seat q.claim.sync =
          .queued q.node q.claim.mode false := if_pos rfl
      refine Moved.calm hq (Beside.refl w) (Alike.refl _) (by rw [before, after])
        (by rw [after]; exact ⟨live, actor, mode, by simp⟩) (by simp [Next.sleepy, Position.sleepy])
        (by simp) ?_ (by simp [quiet])
      intro n hn _ drowsy
      obtain rfl : q.node = n := by simpa [after, Seat.node] using hn
      have front : ((w.queue q.claim.sync).node q.node).prev = (w.queue q.claim.sync).head := by
        simp only [Next.sleepy, Position.sleepy, Bool.and_eq_true, decide_eq_true_eq] at drowsy
        exact drowsy.2
      rw [hq.prev_eq] at front
      exact absurd (by simp [WaitQueue.isHead, front]) behind
  · have before : (Position.turn q).seat s = .none := if_neg here
    have aside : ∀ n : Next, n.seat s = .none → (∀ st p', n ≠ .stops st p') →
        Moved s w me (.turn q) (w, n) := fun n free goes =>
      Moved.aside hq (Beside.refl w) rfl before free (fun st p' e => absurd e (goes st p'))
        (by simp [quiet])
    split
    · exact aside _ rfl (by simp)
    · split
      · exact aside _ (if_neg here) (by simp)
      · exact aside _ (if_neg here) (by simp)

theorem setQueue_queue (w : World) (s : SyncId) : w.setQueue s (w.queue s) = w := by
  have same : w.syncs.modify s ({ · with queue := w.queue s }) = w.syncs := by
    rw [Table.modify, Table.mk.injEq]
    refine Array.ext (by simp) fun i hi hi' => ?_
    rw [Array.getElem_modify]
    split
    · rename_i here
      subst here
      simp [queue, sync, Table.get, hi']
    · rfl
  rw [setQueue, modifySync, same]

/-- An actor that means to park does, or goes on at once because it has been woken or cancelled. -/
theorem park_cases (w : World) (me : ActorId) (token : Option TokenId) (timeout : Option Span)
    (p : Position) :
    (w.park me token timeout p).1.syncs = w.syncs ∧
    (∀ a, a ≠ me → (w.park me token timeout p).1.actor a = w.actor a) ∧
    (w.park me token timeout p).1.actors.size = w.actors.size ∧
    ((w.park me token timeout p).2 = .goes p ∨
      ((w.actor me).permit = false ∧
        ∃ t, (w.park me token timeout p).2 = .stops (.parked t) p)) := by
  have looks : ∀ a, a ≠ me → (w.setLooks me Actor.freshLooks).actor a = w.actor a := fun a ha => by
    rw [setLooks, actor_modifyActor, if_neg fun e => ha e.1.symm]
  unfold park
  split
  · exact ⟨rfl, fun _ _ => rfl, rfl, Or.inl rfl⟩
  dsimp only
  split
  · refine ⟨rfl, fun a ha => ?_, by simp, Or.inl rfl⟩
    rw [setPermit, actor_modifyActor, if_neg fun e => ha e.1.symm, looks a ha]
  · rename_i none
    refine ⟨rfl, looks, by simp, Or.inr ⟨?_, _, rfl⟩⟩
    rw [setLooks, actor_modifyActor] at none
    split at none
    all_goals simpa using none

/-- An actor parks only where it will be signalled. -/
theorem moved_park (hq : Shaped (w.queue s) h body) {token : Option TokenId} {timeout : Option Span}
    {p' : Position} (same : p'.seat s = p.seat s) (parks : p'.parks = true)
    (seat : (p.seat s).Held (w.queue s) me) (quiet : p.releasing s = false)
    (signalled : (w.actor me).permit = false → ∀ x n, (p.seat s).node = some n →
      Follows (w.queue s).column x n → ((w.queue s).node x).status = .signal)
    (sleepy : (w.actor me).permit = false → ∀ n, (p.seat s).node = some n →
      (w.queue s).live.head? = some n →
        p.sleepy false (((w.queue s).node n).prev = (w.queue s).head)) :
    Moved s w me p (w.park me token timeout p') := by
  obtain ⟨syncs, others, actors, next⟩ := w.park_cases me token timeout p'
  have hsync : (w.park me token timeout p').1.sync s = w.sync s := congrArg (·.get s) syncs
  have hqueue : (w.park me token timeout p').1.queue s = w.queue s :=
    congrArg Synchronizer.queue hsync
  have awake : ∀ permit called, p'.sleepy permit called = false := by
    intro permit called
    cases p' with
    | roused _ | awoken _ => rfl
    | _ => simp [Position.parks] at parks
  have after : (w.park me token timeout p').2.seat s = p.seat s := by
    rcases next with e | ⟨-, t, e⟩ <;> rw [e] <;> exact same
  have drowsy : ∀ permit called, (w.park me token timeout p').2.sleepy permit called = true →
      (w.actor me).permit = false := by
    intro permit called sleepy
    rcases next with e | ⟨none, -⟩
    · rw [e, Next.sleepy, awake] at sleepy
      simp at sleepy
    · exact none
  have beside : Beside s me (p.asks s) w (w.park me token timeout p').1 :=
    ⟨fun a ha => by rw [others a ha]; exact Actor.Eased.refl _, actors, by rw [syncs],
      Or.inr (by rw [hsync])⟩
  refine Moved.calm hq beside (hqueue ▸ Alike.refl _) (by rw [after])
    (by rw [after, hqueue]; exact seat) ?_ ?_ ?_ (by simp [quiet])
  · intro sleeps x n hn hf
    rw [after] at hn
    rw [hqueue] at hf ⊢
    exact signalled (drowsy _ _ sleeps) x n hn hf
  · intro st p'' stops
    rcases next with e | ⟨-, t, e⟩
    · simp [e] at stops
    · obtain ⟨rfl, rfl⟩ := Next.stops.inj (e.symm.trans stops)
      exact Or.inr (Or.inr parks)
  · intro n hn front sleeps
    have none := drowsy _ _ sleeps
    rw [after] at hn
    rw [hqueue] at front
    rw [none]
    exact ⟨hqueue, sleepy none n hn front⟩

/-- A step that only works on the queue of another synchronizer. -/
theorem Moved.elsewhere (hq : Shaped (w.queue s) h body) {t : SyncId} (ne : t ≠ s) (q : WaitQueue)
    {n : Next} (before : p.seat s = .none) (after : n.seat s = .none)
    (goes : ∀ st p', n ≠ .stops st p') (quiet : p.releasing s = false) :
    Moved s w me p (w.setQueue t q, n) :=
  Moved.aside hq (Beside.setQueue w q) (queue_setQueue_of_ne ne q) before after
    (fun st p' e => absurd e (goes st p')) (by simp [quiet])

/-- Before an actor parks it makes sure of its signal. -/
theorem moved_linger (hs : s < w.syncs.size) (hq : Shaped (w.queue s) h body) (q : Queued)
    (seat : ((Position.lingering q).seat s).Held (w.queue s) me) :
    Moved s w me (.lingering q) (w.linger me q) := by
  have quiet : (Position.lingering q).releasing s = false := rfl
  unfold linger
  extract_lets left
  split
  · exact moved_abandon hs hq _ rfl seat quiet
  by_cases here : q.claim.sync = s
  · subst here
    have before : (Position.lingering q).seat q.claim.sync = .queued q.node q.claim.mode false :=
      if_pos rfl
    have turn : (Next.goes (.turn q)).seat q.claim.sync = .queued q.node q.claim.mode false := if_pos rfl
    rw [before] at seat
    obtain ⟨live, actor, mode, -⟩ := seat
    rcases hq.readyToPark_cases live with ⟨p, hp, hf, signal, eq⟩ | ⟨q', eq, readied⟩
    · rw [eq]
      dsimp only
      rw [setQueue_queue]
      split
      · exact Moved.calm hq (Beside.refl w) (Alike.refl _) (by rw [before, turn])
          (by rw [turn]; exact ⟨live, actor, mode, by simp⟩) (by simp [Next.sleepy, Position.sleepy])
          (by simp) (by simp [Next.sleepy, Position.sleepy]) (by simp [quiet])
      · refine moved_park hq rfl rfl (by rw [before]; exact ⟨live, actor, mode, by simp⟩) quiet ?_ ?_
        · intro _ x n hn hf'
          obtain rfl : q.node = n := by simpa [before, Seat.node] using hn
          rwa [hf'.left_unique hq.nodup_column hf]
        · intro _ n hn front
          obtain rfl : q.node = n := by simpa [before, Seat.node] using hn
          obtain ⟨hh, hf'⟩ := hq.head_follows front
          obtain rfl := hf'.left_unique hq.nodup_column hf
          simp [Position.sleepy, hp, hh]
    · rw [eq]
      dsimp only
      refine Moved.of_change (Beside.setQueue w _)
        (by rw [before, turn]; exact readied.change) (by rw [queue_setQueue_self hs]; exact Alike.refl _)
        (by simp) (Or.inr (Or.inr (by rw [turn]; exact readied.passes hq)))
        (Or.inr fun m _ waits => (readied.waits m).2 waits) ?_ (fun _ _ => rfl) (by simp) (by simp [quiet])
      rw [turn]
      exact ⟨readied.live ▸ live, (readied.actor _).trans actor, (readied.mode _).trans mode, by simp⟩
  · have before : (Position.lingering q).seat s = .none := if_neg here
    have turn : (Next.goes (.turn q)).seat s = .none := if_neg here
    set r := (w.queue q.claim.sync).readyToPark q.node
    have back : Moved s w me (.lingering q) (w.setQueue q.claim.sync r.1, .goes (.turn q)) :=
      Moved.elsewhere hq here _ before turn (by simp) quiet
    dsimp only
    split
    · exact Moved.elsewhere hq here _ before rfl (by simp) quiet
    · exact back
    · split
      · exact back
      · have hq' : Shaped ((w.setQueue q.claim.sync r.1).queue s) h body := by
          rwa [queue_setQueue_of_ne here]
        have parked : Moved s (w.setQueue q.claim.sync r.1) me (.lingering q)
            ((w.setQueue q.claim.sync r.1).park me q.claim.patience.token left (.roused q)) :=
          moved_park hq' rfl rfl (by rw [before]; trivial) quiet (by simp [before, Seat.node])
            (by simp [before, Seat.node])
        refine parked.of_same (fun _ _ => rfl) rfl rfl (by simp [setQueue, modifySync]) ?_
        rw [setQueue, sync_modifySync, if_neg fun e => here e.1]

theorem Moved.after_token {x : Option TokenId} {f : Token → Token} {r : World × Next}
    (hm : Moved s (w.modifyToken x f) me p r) : Moved s w me p r := by
  have same : ∀ a, (w.modifyToken x f).actor a = w.actor a := fun a => by
    rw [actor, actors_modifyToken]
    rfl
  exact hm.of_same (fun a _ => same a) (by rw [same]) (by rw [actors_modifyToken])
    (by rw [syncs_modifyToken]) (by rw [sync, syncs_modifyToken]; rfl)

/-- A step from one wide-awake position to another with the same seat. -/
theorem moved_on (hq : Shaped (w.queue s) h body) {p' : Position} (same : p'.seat s = p.seat s)
    (seat : (p.seat s).Held (w.queue s) me) (quiet : p.releasing s = false)
    (awake : ∀ permit called, p'.sleepy permit called = false) : Moved s w me p (w, .goes p') :=
  Moved.calm hq (Beside.refl w) (Alike.refl _) (congrArg Seat.node same)
    (by change (p'.seat s).Held _ _; rwa [same]) (by simp [Next.sleepy, awake]) (by simp)
    (by simp [Next.sleepy, awake]) (by simp [quiet])

/-- Whoever comes back from a park tries again, unless a cancellation ends the wait. -/
theorem moved_rouse (hs : s < w.syncs.size) (hq : Shaped (w.queue s) h body) (q : Queued)
    (seat : ((Position.roused q).seat s).Held (w.queue s) me) :
    Moved s w me (.roused q) (w.rouse q) := by
  refine Moved.after_token (x := q.claim.patience.token) (f := (·.take.1)) ?_
  have same : (w.modifyToken q.claim.patience.token (·.take.1)).queue s = w.queue s :=
    queue_modifyToken w s _ _
  have hs' : s < (w.modifyToken q.claim.patience.token (·.take.1)).syncs.size := by
    rwa [syncs_modifyToken]
  rw [← same] at hq seat
  unfold rouse takeFlag
  split
  · rename_i w' e
    obtain ⟨rfl, -⟩ := Prod.mk.inj e
    exact moved_on hq rfl seat rfl fun _ _ => rfl
  · rename_i w' e
    obtain ⟨rfl, -⟩ := Prod.mk.inj e
    split
    · exact moved_abandon hs' hq _ rfl seat rfl
    · exact moved_on hq rfl seat rfl fun _ _ => rfl

/-- Where a node is in the queue if it is not on a condition. -/
theorem mem_live_of_held {n : NodeId} {q : WaitQueue} (seat : (Seat.waiting n).Held q me)
    (gone : (q.node n).status ≠ .condition) : n ∈ q.live :=
  seat.1.resolve_right gone

theorem moved_waiting (hq : Shaped (w.queue s) h body) (v : Waiting)
    (seat : ((Position.waiting v).seat s).Held (w.queue s) me) :
    Moved s w me (.waiting v) (w.advance me (.waiting v)) := by
  unfold advance
  by_cases here : v.terms.sync = s
  · subst here
    have before : (Position.waiting v).seat v.terms.sync = .waiting v.node := if_pos rfl
    rw [before] at seat
    dsimp only
    split
    · rename_i holds
      have turn : (Next.goes (reclaim v)).seat v.terms.sync = .queued v.node .exclusive false := if_pos rfl
      have gone : ((w.queue v.terms.sync).node v.node).status ≠ .condition := fun e => by
        simp [WaitQueue.holds, e] at holds
      refine Moved.calm hq (Beside.refl w) (Alike.refl _) (by rw [before, turn]; rfl) ?_
        (by simp [Next.sleepy, Position.sleepy, reclaim]) (by simp)
        (by simp [Next.sleepy, Position.sleepy, reclaim]) (by simp [Position.releasing])
      rw [turn]
      exact ⟨mem_live_of_held seat gone, seat.2.1, seat.2.2, by simp⟩
    · rename_i out
      have doze : (Next.goes (.dozing v)).seat v.terms.sync = .waiting v.node := if_pos rfl
      have notMem : v.node ∉ (w.queue v.terms.sync).live := fun live => out (hq.holds_of_mem live)
      refine Moved.calm hq (Beside.refl w) (Alike.refl _) (by rw [before, doze])
        (by rw [doze]; exact seat) ?_ (by simp) ?_ (by simp [Position.releasing])
      · intro _ x n hn hf
        obtain rfl : v.node = n := by simpa [doze, Seat.node] using hn
        exact absurd (hq.mem_live_of_follows hf) notMem
      · intro n hn front _
        obtain rfl : v.node = n := by simpa [doze, Seat.node] using hn
        exact absurd (List.mem_of_mem_head? front) notMem
  · have before : (Position.waiting v).seat s = .none := if_neg here
    have aside : ∀ p', p'.seat s = .none → Moved s w me (.waiting v) (w, .goes p') := fun p' after =>
      Moved.aside hq (Beside.refl w) rfl before after (by simp) (by simp [Position.releasing])
    dsimp only
    split
    · exact aside _ (if_neg here)
    · exact aside _ (if_neg here)

/-- Whoever waits for a signal no longer takes the node to the queue itself. -/
theorem moved_transfer (hs : s < w.syncs.size) (hq : Shaped (w.queue s) h body) {v : Waiting}
    (v' : Waiting) (same : v'.terms = v.terms) (node : v'.node = v.node)
    (before : p.seat s = if v.terms.sync = s then .waiting v.node else .none)
    (seat : (p.seat s).Held (w.queue s) me) (quiet : p.releasing s = false) :
    Moved s w me p (w.setQueue v.terms.sync ((w.queue v.terms.sync).transferUnsignalled v.node).1,
      .goes (reclaim v')) := by
  by_cases here : v.terms.sync = s
  · subst here
    rw [if_pos rfl] at before
    have turn : (Next.goes (reclaim v')).seat v.terms.sync = .queued v.node .exclusive false := by
      rw [← node, ← same]
      exact if_pos rfl
    rw [before] at seat
    by_cases waits : ((w.queue v.terms.sync).node v.node).status = .condition
    · obtain ⟨joined, actor, mode⟩ := hq.joined_transferUnsignalled waits
      have quiet' : ∀ m, m ≠ v.node →
          (((w.queue v.terms.sync).transferUnsignalled v.node).1.node m).status =
            ((w.queue v.terms.sync).node m).status := fun m hm => hq.status_transferUnsignalled waits hm
      refine Moved.of_change (Beside.setQueue w _)
        (by rw [before, turn]; exact joined.change hq (by simp [Seat.node]) (by simp [Seat.node]))
        (by rw [queue_setQueue_self hs]; exact Alike.refl _) (by simp)
        (Or.inr (Or.inr (by rw [turn]; exact joined.passes hq quiet')))
        (Or.inr fun m hm waits' => ?_) ?_ (fun _ _ => rfl) (by simp) (by simp [quiet])
      · rw [quiet' m fun e => hm (by rw [before, e]; rfl), waits']
      · rw [turn]
        exact ⟨joined.mem_live, actor.trans seat.2.1, mode.trans seat.2.2, by simp⟩
    · rw [WaitQueue.transferUnsignalled_of_ne waits, setQueue_queue]
      refine Moved.calm hq (Beside.refl w) (Alike.refl _) (by rw [before, turn]; rfl) ?_
        (by simp [Next.sleepy, Position.sleepy, reclaim]) (by simp)
        (by simp [Next.sleepy, Position.sleepy, reclaim]) (by simp [quiet])
      rw [turn]
      exact ⟨mem_live_of_held seat waits, seat.2.1, seat.2.2, by simp⟩
  · rw [if_neg here] at before
    exact Moved.elsewhere hq here _ before (if_neg (by rwa [same])) (by simp) quiet

/-- An actor without a signal parks, until its time is up. -/
theorem moved_doze (hs : s < w.syncs.size) (hq : Shaped (w.queue s) h body) (v : Waiting)
    (seat : ((Position.dozing v).seat s).Held (w.queue s) me)
    (signalled : (Position.dozing v).sleepy (w.actor me).permit false → ∀ x n,
      ((Position.dozing v).seat s).node = some n → Follows (w.queue s).column x n →
        ((w.queue s).node x).status = .signal) :
    Moved s w me (.dozing v) (w.doze me v) := by
  unfold doze
  extract_lets t left
  split
  · exact moved_transfer hs hq _ rfl rfl rfl seat rfl
  · split
    · exact moved_on hq rfl seat rfl fun _ _ => rfl
    · refine moved_park hq rfl rfl seat rfl ?_ fun _ _ _ _ => rfl
      intro none
      exact signalled (by simp [Position.sleepy, none])

/-- Whoever comes back from a wait looks for the signal again, unless a cancellation ends the wait. -/
theorem moved_awake (hs : s < w.syncs.size) (hq : Shaped (w.queue s) h body) (v : Waiting)
    (seat : ((Position.awoken v).seat s).Held (w.queue s) me) :
    Moved s w me (.awoken v) (w.awake v) := by
  refine Moved.after_token (x := v.terms.patience.token) (f := (·.take.1)) ?_
  have same : (w.modifyToken v.terms.patience.token (·.take.1)).queue s = w.queue s :=
    queue_modifyToken w s _ _
  have hs' : s < (w.modifyToken v.terms.patience.token (·.take.1)).syncs.size := by
    rwa [syncs_modifyToken]
  rw [← same] at hq seat
  unfold awake takeFlag
  extract_lets t
  split
  · rename_i w' e
    obtain ⟨rfl, -⟩ := Prod.mk.inj e
    exact moved_on hq rfl seat rfl fun _ _ => rfl
  · rename_i w' e
    obtain ⟨rfl, -⟩ := Prod.mk.inj e
    split
    · exact moved_transfer hs' hq _ rfl rfl rfl seat rfl
    · exact moved_on hq rfl seat rfl fun _ _ => rfl

theorem moved_advance (hs : s < w.syncs.size) (hq : Shaped (w.queue s) h body) (p : Position)
    (seat : (p.seat s).Held (w.queue s) me)
    (signalled : p.sleepy (w.actor me).permit false → ∀ x n, (p.seat s).node = some n →
      Follows (w.queue s).column x n → ((w.queue s).node x).status = .signal) :
    Moved s w me p (w.advance me p) := by
  cases p with
  | start op => exact moved_start hq op
  | call site stage =>
    cases stage with
    | arriving => exact moved_arriving hq seat
    | entering => exact moved_entering hq seat
    | leaving answer => exact moved_leaving hq answer seat
    | answered answer => exact moved_resolve hs hq site answer seat
  | queueing c => exact moved_queueing hs hq c
  | turn q => exact moved_turn hq q seat
  | lingering q => exact moved_linger hs hq q seat
  | roused q => exact moved_rouse hs hq q seat
  | waiting v => exact moved_waiting hq v seat
  | dozing v => exact moved_doze hs hq v seat signalled
  | awoken v => exact moved_awake hs hq v seat
  | reckoning start timeout timedOut =>
    exact Moved.aside hq (Beside.refl w) rfl rfl rfl (by simp [advance]) (by simp [Position.releasing])

def stride (w : World) (me : ActorId) (p : Position) : World × Next :=
  if p.readsClock then
    if (w.actor me).looks = 0 then (w.setLooks me Actor.looksAfterSpin, .stops .spinning p)
    else (w.setLooks me ((w.actor me).looks - 1)).advance me p
  else w.advance me p

theorem step_eq (running : (w.actor me).activity = .busy .running p) :
    (w.step me).1 = (w.stride me p).1.setActivity me (w.stride me p).2.activity := by
  unfold step stride
  rw [running]
  by_cases clock : p.readsClock
  · by_cases spent : (w.actor me).looks = 0
    · simp only [clock, spent, decide_true, Bool.and_true, if_true]
      rfl
    · simp only [clock, spent, decide_false, Bool.and_false, Bool.false_eq_true, if_false, if_true]
      rcases (w.setLooks me ((w.actor me).looks - 1)).advance me p with ⟨w', _ | _ | _⟩ <;> rfl
  · simp only [clock, Bool.false_and, Bool.false_eq_true, if_false]
    rcases w.advance me p with ⟨w', _ | _ | _⟩ <;> rfl

theorem permit_setLooks (w : World) (n : Nat) :
    ((w.setLooks me n).actor me).permit = (w.actor me).permit := by
  rw [setLooks, actor_modifyActor]
  split <;> rfl

theorem moved_stride (hs : s < w.syncs.size) (hq : Shaped (w.queue s) h body) (p : Position)
    (seat : (p.seat s).Held (w.queue s) me)
    (signalled : p.sleepy (w.actor me).permit false → ∀ x n, (p.seat s).node = some n →
      Follows (w.queue s).column x n → ((w.queue s).node x).status = .signal) :
    Moved s w me p (w.stride me p) := by
  unfold stride
  split
  · split
    · refine Moved.calm hq (Beside.modifyActor w _) (Alike.refl _) rfl seat ?_ (by simp) ?_ id
      · intro drowsy
        exact signalled (by rwa [permit_setLooks] at drowsy)
      · intro n _ _ drowsy
        exact ⟨rfl, by rwa [permit_setLooks] at drowsy⟩
    · have advanced := moved_advance (w := w.setLooks me ((w.actor me).looks - 1)) hs hq p seat
        (by rw [permit_setLooks]; exact signalled)
      refine advanced.of_same (fun a ha => ?_) (w.permit_setLooks _) (w.size_setLooks _ _) rfl rfl
      rw [setLooks, actor_modifyActor, if_neg fun e => ha e.1.symm]
  · exact moved_advance hs hq p seat signalled

end World

end Turnstile
