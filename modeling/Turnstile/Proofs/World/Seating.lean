import Turnstile.Proofs.World.Events
import Turnstile.Proofs.World.Waits

/-! Every seat at a synchronizer is held by one actor, and nobody goes to sleep without the promise of a
signal. -/
namespace Turnstile

open WaitQueue (Shaped InUse)

namespace Actor

/-- The actor is parked, or parks next unless it is woken before. -/
def Sleepy (x : Actor) (called : Bool) : Prop :=
  (∃ t p, x.activity = .busy (.parked t) p) ∨ ∃ p, x.position = some p ∧ p.sleepy x.permit called = true

variable {x y : Actor} {called : Bool}

theorem sleepy_permit (p : Position) (called : Bool) : p.sleepy true called = false := by
  cases p with
  | call site stage => cases site <;> rfl
  | _ => rfl

theorem Eased.sleepy (h : Eased x y) (hy : y.Sleepy called) : x.Sleepy called := by
  rcases hy with ⟨t, p, parked⟩ | ⟨p, hp, sleepy⟩
  · rcases h.activity with same | ⟨t', p', -, awake⟩
    · exact Or.inl ⟨t, p, same ▸ parked⟩
    · simp [awake] at parked
  · refine Or.inr ⟨p, h.position ▸ hp, ?_⟩
    have permit : y.permit = false := by
      by_contra awake
      rw [Bool.not_eq_false] at awake
      rw [awake, sleepy_permit] at sleepy
      simp at sleepy
    have permit' : x.permit = false := by
      by_contra awake
      rw [h.permit (by simpa using awake)] at permit
      simp at permit
    rw [permit']
    rwa [permit] at sleepy

theorem Alert.not_sleepy (h : Alert x) : ¬x.Sleepy called := by
  rintro (⟨t, p, parked⟩ | ⟨p, -, sleepy⟩)
  · exact h.awake t p parked
  · rw [h.permit, sleepy_permit] at sleepy
    simp at sleepy

/-- The actor has taken no step, though it may have begun an operation or been told to go on. -/
structure Still (x y : Actor) : Prop where
  position : ∀ p, y.position = some p → x.position = some p ∨ ∃ op, p = .start op
  kept : ∀ p, x.position = some p → y.position = some p
  sleepy : ∀ called, y.Sleepy called → x.Sleepy called
  rests : ∀ p, y.Rests p → x.Rests p

theorem Still.refl (x : Actor) : Still x x := ⟨fun _ => Or.inl, fun _ => id, fun _ => id, fun _ => id⟩

theorem Eased.still (h : Eased x y) : Still x y where
  position _ hp := Or.inl (h.position ▸ hp)
  kept _ hp := h.position.trans hp
  sleepy _ := h.sleepy
  rests _ := h.rests

theorem Still.begins {op : Operation} (idle : x.activity = .idle)
    (busy : y.activity = .busy .running (.start op)) : Still x y := by
  have position : y.position = some (.start op) := Actor.position_of_busy busy
  refine ⟨fun p hp => Or.inr ⟨op, ?_⟩, fun p hp => ?_, ?_, fun p rests => ?_⟩
  · exact Option.some.inj (hp.symm.trans position)
  · simp [Actor.position, idle] at hp
  · rintro called (⟨t, p, parked⟩ | ⟨p, hp, sleepy⟩)
    · simp [busy] at parked
    · obtain rfl := Option.some.inj (position.symm.trans hp)
      simp [Position.sleepy] at sleepy
  · simp [Rests, busy] at rests

/-- Nobody parks but where there is nothing left to do before the park ends. -/
theorem Still.goesOn {p : Position} (hp : x.position = some p) (busy : y.activity = .busy .running p)
    (permit : y.permit = x.permit ∨ p.parks = true) : Still x y := by
  have position : y.position = some p := Actor.position_of_busy busy
  refine ⟨fun p' hp' => Or.inl (by rw [hp, ← position, hp']), fun p' hp' => ?_, ?_, fun p' rests => ?_⟩
  · rw [position, ← hp, hp']
  · rintro called (⟨t, p', parked⟩ | ⟨p', hp', sleepy⟩)
    · simp [busy] at parked
    · obtain rfl := Option.some.inj (position.symm.trans hp')
      rcases permit with permit | parks
      · exact Or.inr ⟨p, hp, permit ▸ sleepy⟩
      · cases p <;> simp [Position.parks] at parks <;> simp [Position.sleepy] at sleepy
  · simp [Rests, busy] at rests

end Actor

theorem Next.position_of_actor {x : Actor} {n : Next} (same : x.activity = n.activity) :
    x.position = n.position := by
  rw [Actor.position, same]
  cases n <;> rfl

theorem Next.seat_of_position {s : SyncId} {n : Next} {p : Position} (h : n.position = some p) :
    n.seat s = p.seat s := by
  cases n with
  | ends v => simp [Next.position] at h
  | _ =>
    obtain rfl := Option.some.inj h
    rfl

theorem Next.sleepy_of_actor {x : Actor} {n : Next} {called : Bool} (same : x.activity = n.activity)
    (sleepy : x.Sleepy called) : n.sleepy x.permit called = true := by
  rcases sleepy with ⟨t, p, parked⟩ | ⟨p, hp, sleepy⟩
  · rw [same] at parked
    cases n with
    | stops st p' =>
      obtain ⟨rfl, -⟩ := Activity.busy.inj parked
      rfl
    | _ => simp [Next.activity] at parked
  · rw [Actor.position, same] at hp
    cases n with
    | goes p' =>
      obtain rfl := Option.some.inj hp
      exact sleepy
    | stops st p' =>
      obtain rfl := Option.some.inj hp
      cases st with
      | parked t => rfl
      | _ => exact sleepy
    | ends v => simp [Next.activity] at hp

theorem Next.exists_of_seat {s : SyncId} {n : Next} {m : NodeId} (h : (n.seat s).node = some m) :
    ∃ p, n.position = some p ∧ (p.seat s).node = some m := by
  cases n with
  | ends v => simp [Next.seat, Seat.node] at h
  | _ => exact ⟨_, rfl, h⟩

namespace World

/-- How the actors stand after a step: one where the step leads, the others as they were or woken. -/
structure Stands (w : World) (me : ActorId) (r : World × Next) (w' : World) : Prop where
  mine : (w'.actor me).activity = r.2.activity
  permit : (w'.actor me).permit = (r.1.actor me).permit
  others : ∀ a, a ≠ me → (w.actor a).Eased (w'.actor a)
  alert : ∀ a, a ≠ me → (r.1.actor a).Alert → (w'.actor a).Alert

/-- What holds at a synchronizer whatever its policy is. -/
structure Seated (s : SyncId) (w : World) : Prop where
  inTable : s < w.syncs.size
  shaped : ∃ h body, Shaped (w.queue s) h body
  seats : ∀ a p, (w.actor a).position = some p → (p.seat s).Held (w.queue s) a
  kept : ∀ n, (w.queue s).InUse n →
    ∃ a p, (w.actor a).position = some p ∧ (p.seat s).node = some n
  promise : ∀ a p x n, (w.actor a).position = some p → (w.actor a).Sleepy false →
    (p.seat s).node = some n → Follows (w.queue s).column x n → ((w.queue s).node x).status = .signal
  parks : ∀ a p, (w.actor a).Rests p → p.parks = true

/-- Whoever moves nodes of others does so while nobody is on the way to a condition. -/
def Exclusive (s : SyncId) (w : World) : Prop :=
  ∀ a p b p', (w.actor a).position = some p → (w.actor b).position = some p' → p.signals s →
    a ≠ b → ∀ n, p'.seat s ≠ .entering n

/-- Nobody has taken a step, and all that has happened to synchronizers is that hooks may fail. -/
structure Still (w w' : World) : Prop where
  actors : ∀ a, (w.actor a).Still (w'.actor a)
  syncs : w'.syncs.size = w.syncs.size
  sync : ∀ s, ∃ f, w'.sync s = { w.sync s with failures := f }

section

variable {s : SyncId} {w w' : World} {a b me : ActorId} {p : Position} {r : World × Next}

theorem Still.queue (h : Still w w') (s : SyncId) : w'.queue s = w.queue s := by
  obtain ⟨f, sync⟩ := h.sync s
  rw [World.queue, sync]
  rfl

theorem Still.state (h : Still w w') (s : SyncId) : (w'.sync s).state = (w.sync s).state := by
  obtain ⟨f, sync⟩ := h.sync s
  rw [sync]

theorem Still.of_solely (h : Solely a w w') (still : (w.actor a).Still (w'.actor a)) : Still w w' := by
  refine ⟨fun b => ?_, by rw [h.syncs], fun s => ⟨(w.sync s).failures, ?_⟩⟩
  · by_cases e : b = a
    · exact e ▸ still
    · rw [h.others b e]
      exact Actor.Still.refl _
  · rw [World.sync, h.syncs]
    rfl

theorem Moved.stands (hm : Moved s w me p r) (inTable : me < w.actors.size) :
    Stands w me r (r.1.setActivity me r.2.activity) where
  mine := activity_setActivity _ (hm.actors ▸ inTable)
  permit := permit_setActivity _ _ _
  others a ne := by
    rw [actor_setActivity_of_ne _ _ (Ne.symm ne)]
    exact hm.others a ne
  alert a ne awake := by
    rwa [actor_setActivity_of_ne _ _ (Ne.symm ne)]

theorem Moved.parks_of_rests (hm : Moved s w me p r) {x : Actor} (same : x.activity = r.2.activity)
    {p' : Position} (rests : x.Rests p') : p'.parks = true := by
  rw [Actor.Rests, same] at rests
  cases hr : r.2 with
  | stops st p'' =>
    have stops := hm.parks st p'' hr
    rw [hr] at rests
    rcases rests with ⟨t, parked⟩ | awake
    · obtain ⟨rfl, rfl⟩ := Activity.busy.inj parked
      simpa using stops
    · obtain ⟨rfl, rfl⟩ := Activity.busy.inj awake
      simpa using stops
  | _ => simp [hr, Next.activity] at rests

theorem actor_create (actors tokens : Nat) (syncs : List Synchronizer) (conditions : List SyncId)
    (a : ActorId) : (World.create actors tokens syncs conditions).actor a = {} := by
  by_cases h : a < actors
  · simp [actor, World.create, Table.ofList, Table.get, h]
  · exact actor_of_size_le (by simpa [World.create] using h)

theorem position_create (actors tokens : Nat) (syncs : List Synchronizer) (conditions : List SyncId)
    (a : ActorId) (p : Position) :
    ((World.create actors tokens syncs conditions).actor a).position ≠ some p := by
  rw [actor_create]
  simp [Actor.position]

theorem sync_create {actors tokens : Nat} {syncs : List Synchronizer} {conditions : List SyncId}
    {x : Synchronizer} (hx : syncs[s]? = some x) :
    (World.create actors tokens syncs conditions).sync s = x := by
  simp [sync, World.create, Table.ofList, Table.get, hx]

namespace Seated

theorem actor_node (hw : Seated s w) {n : NodeId} (hp : (w.actor a).position = some p)
    (hn : (p.seat s).node = some n) : ((w.queue s).node n).actor = some a :=
  (hw.seats a p hp).actor hn

theorem still (hw : Seated s w) (h : Still w w') : Seated s w' := by
  have queue := h.queue s
  have before : ∀ a p n, (w'.actor a).position = some p → (p.seat s).node = some n →
      (w.actor a).position = some p := by
    intro a p n hp hn
    rcases (h.actors a).position p hp with same | ⟨op, rfl⟩
    · exact same
    · simp [Position.seat, Seat.node] at hn
  constructor
  case inTable => exact h.syncs ▸ hw.inTable
  case shaped => exact queue ▸ hw.shaped
  case seats =>
    intro a p hp
    rw [queue]
    rcases (h.actors a).position p hp with same | ⟨op, rfl⟩
    · exact hw.seats a p same
    · trivial
  case kept =>
    intro n hn
    obtain ⟨a, p, hp, hn⟩ := hw.kept n (queue ▸ hn)
    exact ⟨a, p, (h.actors a).kept p hp, hn⟩
  case promise =>
    intro a p x n hp sleepy hn hf
    rw [queue] at hf ⊢
    exact hw.promise a p x n (before a p n hp hn) ((h.actors a).sleepy _ sleepy) hn hf
  case parks => exact fun a p hp => hw.parks a p ((h.actors a).rests p hp)

/-- Nobody takes a step but in a step. -/
theorem still_happen (hw : Seated s w) {e : Event} (other : ∀ a, e ≠ .step a) :
    Still w (w.happen e) := by
  rcases w.happen_cases e with ⟨out, -⟩ | ⟨a, op, rfl⟩ | ⟨a, rfl⟩ | ⟨a, rfl⟩
  · exact ⟨fun a => (out.eased a).still, out.syncs, out.sync⟩
  · refine Still.of_solely (w.solely_begin a op) ?_
    rcases w.begin_cases a op with same | ⟨idle, busy⟩
    · exact same ▸ Actor.Still.refl _
    · exact Actor.Still.begins idle busy
  · refine Still.of_solely (w.solely_resume a) ?_
    rcases w.resume_cases a with same | ⟨p, hp, busy, permit⟩
    · exact same ▸ Actor.Still.refl _
    · exact Actor.Still.goesOn hp busy (permit.imp_right (hw.parks a p))
  · exact absurd rfl (other a)

/-- Nobody loses a seat to the step of another. -/
theorem seat_of_other (hw : Seated s w) (ex : Exclusive s w) (hm : Moved s w me p r)
    (position : (w.actor me).position = some p) {p' : Position} (ne : a ≠ me)
    (hp : (w.actor a).position = some p') : (p'.seat s).Held (r.1.queue s) a := by
  obtain ⟨woken, -, change, -⟩ := hm.change
  have own : ∀ n, (p'.seat s).node = some n → (p.seat s).node ≠ some n := by
    intro n hn hn'
    exact ne (Option.some.inj ((hw.actor_node hp hn).symm.trans (hw.actor_node position hn')))
  refine (hw.seats a p' hp).change change own fun n seat waits => ?_
  rcases hm.still with signals | still
  · exact absurd seat (ex me p a p' position hp signals (Ne.symm ne) n)
  · exact still n (own n (by rw [seat]; rfl)) waits

/-- Whoever steps leaves the seats of the others as they were, or wakes them. -/
theorem moved (hw : Seated s w) (running : (w.actor me).activity = .busy .running p)
    (hm : Moved s w me p r) (ex : Exclusive s w) : Seated s (r.1.setActivity me r.2.activity) := by
  have position : (w.actor me).position = some p := Actor.position_of_busy running
  have stands := hm.stands (lt_of_position (by simp [position]))
  generalize hw' : r.1.setActivity me r.2.activity = w' at stands
  have queue : w'.queue s = r.1.queue s := by rw [← hw']; rfl
  have syncs : w'.syncs.size = w.syncs.size := by rw [← hm.syncs, ← hw']; rfl
  have mine : ∀ p', (w'.actor me).position = some p' → r.2.seat s = p'.seat s := fun p' hp =>
    Next.seat_of_position ((Next.position_of_actor stands.mine).symm.trans hp)
  obtain ⟨woken, alert, change, -⟩ := hm.change
  have seats : ∀ a p', (w'.actor a).position = some p' → (p'.seat s).Held (r.1.queue s) a := by
    intro a p' hp
    by_cases e : a = me
    · subst e
      exact mine p' hp ▸ hm.seat
    · exact hw.seat_of_other ex hm position e ((stands.others a e).position ▸ hp)
  constructor
  case inTable => exact syncs ▸ hw.inTable
  case shaped => exact queue ▸ change.shaped
  case seats => exact queue ▸ seats
  case kept =>
    intro n hn
    rcases change.used n (queue ▸ hn) with here | ⟨ne, used⟩
    · obtain ⟨p', hp', hn'⟩ := Next.exists_of_seat here
      exact ⟨me, p', (Next.position_of_actor stands.mine).trans hp', hn'⟩
    · obtain ⟨a, p', hp, hn'⟩ := hw.kept n used
      have e : a ≠ me := by
        rintro rfl
        obtain rfl := Option.some.inj (position.symm.trans hp)
        exact ne hn'
      exact ⟨a, p', (stands.others a e).position.trans hp, hn'⟩
  case promise =>
    intro a p' x n hp sleepy hn hf
    rw [queue] at hf ⊢
    by_cases e : a = me
    · subst e
      rw [← mine p' hp] at hn
      exact hm.drowse (stands.permit ▸ Next.sleepy_of_actor stands.mine sleepy) x n hn hf
    · have hp' := (stands.others a e).position ▸ hp
      have actor := (seats a p' hp).actor hn
      rcases change.honours x n hf with here | signal | ⟨b, woken, hb⟩ | ⟨x', hf', silent⟩
      · exact absurd (Option.some.inj ((hm.seat.actor here).symm.trans actor)).symm e
      · exact signal
      · obtain rfl := Option.some.inj (actor.symm.trans hb)
        have awake := stands.alert a e (alert a woken (lt_of_position (by simp [hp'])))
        exact absurd sleepy awake.not_sleepy
      · exact absurd (hw.promise a p' x' n hp' ((stands.others a e).sleepy sleepy) hn hf') silent
  case parks =>
    intro a p' rests
    by_cases e : a = me
    · subst e
      exact hm.parks_of_rests stands.mine rests
    · exact hw.parks a p' ((stands.others a e).rests rests)

theorem moved_stride (hw : Seated s w) (running : (w.actor me).activity = .busy .running p) :
    Moved s w me p (w.stride me p) := by
  obtain ⟨h, body, hq⟩ := hw.shaped
  have position : (w.actor me).position = some p := Actor.position_of_busy running
  refine World.moved_stride hw.inTable hq p (hw.seats me p position) fun drowsy x n => ?_
  exact hw.promise me p x n position (Or.inr ⟨p, position, drowsy⟩)

theorem step (hw : Seated s w) (ex : Exclusive s w) (me : ActorId) : Seated s (w.step me).1 := by
  by_cases running : ∃ p, (w.actor me).activity = .busy .running p
  · obtain ⟨p, running⟩ := running
    rw [step_eq running]
    exact hw.moved running (hw.moved_stride running) ex
  · rw [step_of_not_running fun p hp => running ⟨p, hp⟩]
    exact hw

theorem happen (hw : Seated s w) (ex : Exclusive s w) (e : Event) : Seated s (w.happen e) := by
  by_cases steps : ∃ a, e = .step a
  · obtain ⟨a, rfl⟩ := steps
    exact hw.step ex a
  · exact hw.still (hw.still_happen fun a e => steps ⟨a, e⟩)

theorem create {actors tokens : Nat} {syncs : List Synchronizer} {conditions : List SyncId}
    {x : Synchronizer} (hx : syncs[s]? = some x) (empty : x.queue = .empty) :
    Seated s (World.create actors tokens syncs conditions) := by
  set w := World.create actors tokens syncs conditions
  have queue : w.queue s = .empty := by rw [World.queue, sync_create hx, empty]
  have idle : ∀ a p, (w.actor a).position ≠ some p := position_create actors tokens syncs conditions
  have shaped := WaitQueue.Shaped.shaped_empty
  refine ⟨?_, queue ▸ ⟨_, _, shaped⟩, fun a p hp => absurd hp (idle a p), fun n hn => ?_,
    fun a p _ _ hp => absurd hp (idle a p), fun a p rests => ?_⟩
  · obtain ⟨inTable, -⟩ := List.getElem?_eq_some_iff.1 hx
    exact (Table.size_ofList syncs).symm ▸ inTable
  · rw [queue] at hn
    rcases hn with live | waits
    · rw [shaped.live_eq] at live
      simp at live
    · rw [WaitQueue.node_empty] at waits
      simp at waits
  · rw [actor_create] at rests
    simp [Actor.Rests] at rests

end Seated

end

end World

end Turnstile
