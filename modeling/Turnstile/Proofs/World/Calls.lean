import Turnstile.Proofs.World.Moves

/-! The steps of an actor up to the answer of a hook: no queue changes before. -/
namespace Turnstile

open WaitQueue (Shaped Alike Change Passes)

namespace World

section start

variable {s : SyncId} {w : World} {me : ActorId} {h : NodeId} {body : List NodeId}

theorem moved_registerThen (hq : Shaped (w.queue s) h body) (op : Operation) (patience : Patience)
    (site : Site) (free : (Position.call site .arriving).seat s = .none) :
    Moved s w me (.start op) (w.registerThen me patience site) := by
  unfold registerThen
  dsimp only
  split
  · refine Moved.aside hq ((Beside.modifyToken _ _ _).trans (Beside.modifyToken _ _ _)) ?_ rfl rfl
      (by simp) (by simp [Position.releasing])
    exact (queue_modifyToken _ s _ _).trans (queue_modifyToken _ s _ _)
  · exact Moved.aside hq (Beside.modifyToken _ _ _) (queue_modifyToken _ s _ _) rfl free
      (by simp) (by simp [Position.releasing])

theorem moved_write (hq : Shaped (w.queue s) h body) {op : Operation} {t : SyncId} {v : Value}
    {f : Synchronizer → Synchronizer} (asks : (Position.start op).asks s = decide (t = s))
    (keeps : ∀ x, (f x).queue = x.queue) : Moved s w me (.start op) (w.modifySync t f, .ends v) := by
  refine Moved.aside hq (Beside.modifySync w ?_) (queue_modifySync w s t keeps) rfl rfl (by simp)
    (by simp [Position.releasing])
  rw [asks]
  by_cases e : t = s
  · exact Or.inl (by simpa using e)
  · exact Or.inr (Or.inl e)

theorem moved_stay (hq : Shaped (w.queue s) h body) {op : Operation} {n : Next}
    (free : n.seat s = .none) (goes : ∀ st p', n ≠ .stops st p') :
    Moved s w me (.start op) (w, n) :=
  Moved.aside hq (Beside.refl w) rfl rfl free (fun st p' e => absurd e (goes st p'))
    (by simp [Position.releasing])

theorem moved_start (hq : Shaped (w.queue s) h body) (op : Operation) :
    Moved s w me (.start op) (w.startOperation me op) := by
  cases op with
  | acquire t mode arg style =>
    simp only [startOperation, startAcquire]
    cases style with
    | _ => exact moved_registerThen hq _ _ _ rfl
  | wait t c style =>
    simp only [startOperation]
    split
    · exact moved_registerThen hq _ _ _ rfl
    · exact moved_stay hq rfl (by simp)
  | errand t c e =>
    simp only [startOperation]
    split
    · exact moved_stay hq rfl (by simp)
    · exact moved_stay hq rfl (by simp)
  | exchangeState t expected update =>
    simp only [startOperation]
    split
    · exact moved_write hq rfl fun _ => rfl
    · exact moved_stay hq rfl (by simp)
  | setState t value => exact moved_write hq rfl fun _ => rfl
  | setOwner t owner => exact moved_write hq rfl fun _ => rfl
  | claimOwner t => exact moved_write hq rfl fun _ => rfl
  | cancel token =>
    cases token with
    | none => exact moved_stay hq rfl (by simp)
    | some t =>
      refine Moved.aside hq ((Beside.modifyToken _ _ _).trans (Beside.wakeAll _ _)) ?_ rfl rfl
        (by simp [startOperation]) (by simp [Position.releasing])
      exact congrArg (fun x => (x.get s).queue) (syncs_wakeAll _ _)
  | _ => exact moved_stay hq rfl (by simp)

end start

section call

variable {s : SyncId} {w w' : World} {me : ActorId} {h : NodeId} {body : List NodeId} {site : Site}
  {stage stage' : Stage} {n : Next}

theorem seat_call (grant : stage'.granted = stage.granted) :
    (Position.call site stage').seat s = (Position.call site stage).seat s := by
  cases site <;> simp [Position.seat, grant]

theorem sleepy_call (refuse : stage'.refused = stage.refused) (permit called : Bool) :
    (Position.call site stage').sleepy permit called =
      (Position.call site stage).sleepy permit called := by
  cases site <;> simp [Position.sleepy, refuse]

theorem releasing_call (grant : stage'.granted = stage.granted) :
    (Position.call site stage').releasing s = (Position.call site stage).releasing s := by
  cases site <;> simp [Position.releasing, grant]

theorem sleepy_call_back (permit : Bool) : (Position.call site stage).sleepy permit false = false := by
  cases site <;> simp [Position.sleepy]

/-- A call that goes on, or pauses on the way, is no event for the queue. -/
theorem moved_stage (hq : Shaped (w.queue s) h body) (actors : w'.actors = w.actors)
    (syncs : w'.syncs = w.syncs) (grant : stage'.granted = stage.granted)
    (refuse : stage'.refused = stage.refused)
    (next : n = .goes (.call site stage') ∨ n = .stops .paused (.call site stage'))
    (seat : ((Position.call site stage).seat s).Held (w.queue s) me) :
    Moved s w me (.call site stage) (w', n) := by
  have queue : w'.queue s = w.queue s := congrArg (fun x => (x.get s).queue) syncs
  have permit : (w'.actor me).permit = (w.actor me).permit :=
    congrArg (fun x => (x.get me).permit) actors
  have after : n.seat s = (Position.call site stage).seat s := by
    rcases next with rfl | rfl <;> exact seat_call grant
  have sleepy : ∀ permit called,
      n.sleepy permit called = (Position.call site stage).sleepy permit called := by
    rcases next with rfl | rfl <;> exact sleepy_call refuse
  refine Moved.calm hq (Beside.of_eq actors syncs) (queue ▸ Alike.refl _) (by rw [after]) ?_ ?_ ?_ ?_ ?_
  · rw [after, queue]
    exact seat
  · intro drowsy
    rw [sleepy, sleepy_call_back] at drowsy
    simp at drowsy
  · rintro st p' rfl
    rcases next with next | next
    · simp at next
    · obtain ⟨rfl, -⟩ := Next.stops.inj next
      exact Or.inl rfl
  · intro k _ _ drowsy
    rw [sleepy, permit, queue] at drowsy
    exact ⟨queue, drowsy⟩
  · intro releasing
    rcases next with rfl | rfl <;> exact (releasing_call grant).trans releasing

theorem moved_arriving (hq : Shaped (w.queue s) h body)
    (seat : ((Position.call site .arriving).seat s).Held (w.queue s) me) :
    Moved s w me (.call site .arriving) (w.callHook me site .arriving) := by
  have grant : Stage.entering.granted = Stage.arriving.granted := rfl
  have refuse : Stage.entering.refused = Stage.arriving.refused := rfl
  unfold callHook trip
  dsimp only
  split
  · rename_i e
    obtain ⟨rfl, -⟩ := Prod.mk.inj e
    exact moved_stage hq rfl rfl grant refuse (Or.inr rfl) seat
  · rename_i e
    obtain ⟨rfl, -⟩ := Prod.mk.inj e
    exact moved_stage hq rfl rfl grant refuse (Or.inl rfl) seat

theorem moved_leaving (hq : Shaped (w.queue s) h body) (answer : Except SyncError Verdict)
    (seat : ((Position.call site (.leaving answer)).seat s).Held (w.queue s) me) :
    Moved s w me (.call site (.leaving answer)) (w.callHook me site (.leaving answer)) := by
  have grant : (Stage.answered answer).granted = (Stage.leaving answer).granted := by
    cases answer <;> rfl
  have refuse : (Stage.answered answer).refused = (Stage.leaving answer).refused := by
    cases answer <;> rfl
  unfold callHook trip
  dsimp only
  split
  · rename_i e
    obtain ⟨rfl, -⟩ := Prod.mk.inj e
    exact moved_stage hq rfl rfl grant refuse (Or.inr rfl) seat
  · rename_i e
    obtain ⟨rfl, -⟩ := Prod.mk.inj e
    exact moved_stage hq rfl rfl grant refuse (Or.inl rfl) seat

/-- The hook itself never works on a queue. -/
theorem queue_ask (w : World) (s t : SyncId) (hook : Hook) (a : ActorId) (arg : Int) :
    (w.ask t hook a arg).1.queue s = w.queue s := by
  have same : ((w.sync t).ask hook a arg).1.queue = (w.sync t).queue := by
    unfold Synchronizer.ask
    split <;> rfl
  change (World.sync (w.modifySync t fun _ => ((w.sync t).ask hook a arg).1) s).queue = _
  rw [sync_modifySync]
  split
  · rename_i here
    rw [same, here.1]
    rfl
  · rfl

theorem node_seat_call :
    ((Position.call site stage').seat s).node = ((Position.call site stage).seat s).node := by
  cases site with
  | letGo t n saved =>
    simp only [Position.seat]
    split
    · split <;> split <;> rfl
    · rfl
  | _ => rfl

theorem sync_of_seat {n : NodeId} (hn : ((Position.call site stage).seat s).node = some n) :
    site.sync = s := by
  by_contra other
  cases site <;> simp_all [Position.seat, Seat.node, Site.sync]

/-- An actor that waits on a condition still does when it has been released. -/
theorem held_call {q : WaitQueue} (seat : ((Position.call site .entering).seat s).Held q me) :
    ((Position.call site stage).seat s).Held q me := by
  cases site with
  | letGo t n saved =>
    simp only [Position.seat] at seat ⊢
    split
    · rename_i here
      have entering : Seat.Held q me (.entering n) := by simpa [here, Stage.granted] using seat
      split
      · exact ⟨Or.inr entering.1, entering.2⟩
      · exact entering
    · trivial
  | _ => exact seat

theorem moved_entering (hq : Shaped (w.queue s) h body)
    (seat : ((Position.call site .entering).seat s).Held (w.queue s) me) :
    Moved s w me (.call site .entering) (w.callHook me site .entering) := by
  have queue := w.queue_ask s site.sync site.hook me site.arg
  have beside : Beside s me ((Position.call site .entering).asks s) w
      (w.ask site.sync site.hook me site.arg).1 := by
    refine Beside.modifySync w ?_
    by_cases here : site.sync = s
    · exact Or.inl (by simp [Position.asks, here])
    · exact Or.inr (Or.inl here)
  unfold callHook
  dsimp only
  have node : ((Position.call site (.leaving (w.ask site.sync site.hook me site.arg).2)).seat s).node =
      ((Position.call site .entering).seat s).node := node_seat_call
  refine ⟨beside.others, beside.actors, beside.syncs, beside.rules, ⟨[], by simp, ?_, ?_⟩, ?_, ?_, ?_,
    by simp, ?_, ?_⟩
  · change Change _ _ _ _ ((Position.call site (.leaving _)).seat s).node
    rw [node, queue]
    exact (Alike.refl _).change hq _
  · rw [queue]
    exact Or.inr (Or.inr ((Alike.refl _).passes hq))
  · exact Or.inr fun m _ waits => by rwa [queue]
  · rw [queue]
    exact held_call seat
  · intro drowsy
    change (Position.call site _).sleepy _ false = true at drowsy
    rw [sleepy_call_back] at drowsy
    simp at drowsy
  · intro n hn _ _
    exact Or.inl (by simpa [Position.asks] using sync_of_seat hn)
  · intro releasing
    cases site <;> simp [Position.releasing, Stage.granted] at releasing

end call

end World

end Turnstile
