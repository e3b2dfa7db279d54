import Turnstile.World.Schedule

/-! What the strokes of one actor leave to the others: they may be woken, and the rules and queues of
other synchronizers stay. -/
namespace Turnstile

namespace Actor

def position (x : Actor) : Option Position :=
  match x.activity with
  | .idle => none
  | .busy _ p => some p

theorem position_of_busy {x : Actor} {st : Standing} {p : Position} (busy : x.activity = .busy st p) :
    x.position = some p := by
  rw [position, busy]

def isParked (x : Actor) : Bool :=
  match x.activity with
  | .busy (.parked _) _ => true
  | _ => false

theorem exists_of_isParked {x : Actor} (h : x.isParked = true) :
    ∃ t p, x.activity = .busy (.parked t) p := by
  unfold isParked at h
  split at h
  · rename_i t p parked
    exact ⟨t, p, parked⟩
  · simp at h

/-- Between the two, others may have woken the actor, and that is all. -/
structure Eased (x y : Actor) : Prop where
  permit : x.permit = true → y.permit = true
  activity : y.activity = x.activity ∨
    ∃ t p, x.activity = .busy (.parked t) p ∧ y.activity = .busy .runnable p

/-- The actor has been woken since it last parked. -/
structure Alert (x : Actor) : Prop where
  permit : x.permit = true
  awake : ∀ t p, x.activity ≠ .busy (.parked t) p

variable {x y z : Actor}

theorem Eased.refl (x : Actor) : Eased x x := ⟨id, Or.inl rfl⟩

theorem Eased.trans (h : Eased x y) (h' : Eased y z) : Eased x z := by
  refine ⟨h'.permit ∘ h.permit, ?_⟩
  rcases h'.activity with same | ⟨t, p, parked, awake⟩
  · rw [same]
    exact h.activity
  · rcases h.activity with same | ⟨t', p', -, awake'⟩
    · exact Or.inr ⟨t, p, same ▸ parked, awake⟩
    · simp [awake'] at parked

theorem Eased.position (h : Eased x y) : y.position = x.position := by
  rcases h.activity with same | ⟨t, p, parked, awake⟩
  · rw [Actor.position, same, Actor.position]
  · rw [Actor.position, awake, Actor.position, parked]

/-- The actor is parked, or its park has just ended. -/
def Rests (x : Actor) (p : Position) : Prop :=
  (∃ t, x.activity = .busy (.parked t) p) ∨ x.activity = .busy .runnable p

theorem Eased.rests {p : Position} (h : Eased x y) (hy : y.Rests p) : x.Rests p := by
  rcases h.activity with same | ⟨t, p', parked, awake⟩
  · rwa [Rests, ← same]
  · rcases hy with ⟨t', parked'⟩ | awake'
    · simp [awake] at parked'
    · obtain ⟨-, rfl⟩ := Activity.busy.inj (awake.symm.trans awake')
      exact Or.inl ⟨t, parked⟩

theorem Alert.eased (h : Alert x) (h' : Eased x y) : Alert y := by
  refine ⟨h'.permit h.permit, fun t p => ?_⟩
  rcases h'.activity with same | ⟨t', p', -, awake⟩
  · rw [same]
    exact h.awake t p
  · simp [awake]

end Actor

/-- All of it but the queue: the policy and what it goes by. -/
def Synchronizer.hollow (x : Synchronizer) : Synchronizer := { x with queue := .empty }

namespace World

section actors

variable (w : World) (a b : ActorId)

theorem actor_modifyActor (f : Actor → Actor) :
    (w.modifyActor a f).actor b = if a = b ∧ b < w.actors.size then f (w.actor b) else w.actor b :=
  w.actors.get_modify a b f

theorem modifyActor_modifyActor (f g : Actor → Actor) :
    (w.modifyActor a f).modifyActor a g = w.modifyActor a fun x => g (f x) := by
  unfold modifyActor
  dsimp only
  rw [Table.modify_modify]

theorem actor_of_size_le {w : World} {a : ActorId} (h : w.actors.size ≤ a) : w.actor a = {} :=
  Table.get_of_size_le h

@[simp] theorem size_modifyActor (f : Actor → Actor) :
    (w.modifyActor a f).actors.size = w.actors.size :=
  w.actors.size_modify a f

@[simp] theorem size_setActivity (x : Activity) : (w.setActivity a x).actors.size = w.actors.size :=
  w.size_modifyActor a _

@[simp] theorem size_setLooks (n : Nat) : (w.setLooks a n).actors.size = w.actors.size :=
  w.size_modifyActor a _

@[simp] theorem size_setPermit (x : Bool) : (w.setPermit a x).actors.size = w.actors.size :=
  w.size_modifyActor a _

theorem permit_setActivity (x : Activity) :
    ((w.setActivity a x).actor a).permit = (w.actor a).permit := by
  rw [setActivity, actor_modifyActor]
  split <;> rfl

variable {w a b} in
theorem lt_of_position (h : (w.actor a).position ≠ none) : a < w.actors.size := by
  refine Nat.lt_of_not_le fun hn => h ?_
  rw [actor_of_size_le hn]
  rfl

theorem setPermit_eased (x : ActorId) : ((w.actor a).Eased ((w.setPermit x true).actor a)) := by
  rw [setPermit, actor_modifyActor]
  split
  · exact ⟨fun _ => rfl, Or.inl rfl⟩
  · exact Actor.Eased.refl _

theorem endPark_eased (x : ActorId) : (w.actor a).Eased ((w.endPark x).actor a) := by
  unfold endPark
  split
  · rename_i t p parked
    change (w.actor a).Eased ((w.setActivity x _).actor a)
    rw [setActivity, actor_modifyActor]
    split
    · rename_i same
      exact ⟨id, Or.inr ⟨t, p, same.1 ▸ parked, rfl⟩⟩
    · exact Actor.Eased.refl _
  · exact Actor.Eased.refl _

@[simp] theorem size_endPark : (w.endPark a).actors.size = w.actors.size := by
  unfold endPark
  split
  · exact w.size_setActivity a _
  · rfl

@[simp] theorem size_wake : (w.wake a).actors.size = w.actors.size := by simp [wake]

theorem wake_eased (x : ActorId) : (w.actor a).Eased ((w.wake x).actor a) :=
  (w.setPermit_eased a x).trans (endPark_eased _ a x)

variable {w a} in
theorem wake_alert (h : a < w.actors.size) : ((w.wake a).actor a).Alert := by
  have permit : ((w.setPermit a true).actor a).permit = true := by
    rw [setPermit, actor_modifyActor, if_pos ⟨rfl, h⟩]
  refine ⟨(endPark_eased _ a a).permit permit, fun t p parked => ?_⟩
  unfold wake at parked
  unfold endPark at parked
  split at parked
  · change ((setActivity _ a _).actor a).activity = _ at parked
    rw [activity_setActivity _ (by simpa)] at parked
    simp at parked
  · rename_i awake
    exact awake _ _ parked

variable (as : List ActorId)

@[simp] theorem size_wakeAll : (w.wakeAll as).actors.size = w.actors.size := by
  induction as generalizing w with
  | nil => rfl
  | cons x rest ih => exact (ih (w.wake x)).trans (w.size_wake x)

theorem wakeAll_eased : (w.actor a).Eased ((w.wakeAll as).actor a) := by
  induction as generalizing w with
  | nil => exact Actor.Eased.refl _
  | cons x rest ih => exact (w.wake_eased a x).trans (ih (w.wake x))

variable {w a as} in
theorem wakeAll_alert (h : a ∈ as) (inTable : a < w.actors.size) : ((w.wakeAll as).actor a).Alert := by
  induction as generalizing w with
  | nil => simp at h
  | cons x rest ih =>
    rcases List.mem_cons.1 h with rfl | h
    · exact (wake_alert inTable).eased (wakeAll_eased (w.wake a) a rest)
    · exact ih h (by simpa)

end actors

section syncs

variable (w : World) (s t : SyncId)

theorem sync_modifySync (f : Synchronizer → Synchronizer) :
    (w.modifySync t f).sync s = if t = s ∧ s < w.syncs.size then f (w.sync s) else w.sync s :=
  w.syncs.get_modify t s f

theorem syncs_endPark (a : ActorId) : (w.endPark a).syncs = w.syncs := by
  unfold endPark
  split <;> rfl

theorem syncs_wake (a : ActorId) : (w.wake a).syncs = w.syncs := syncs_endPark _ a

@[simp] theorem syncs_wakeAll (as : List ActorId) : (w.wakeAll as).syncs = w.syncs := by
  induction as generalizing w with
  | nil => rfl
  | cons x rest ih => exact (ih (w.wake x)).trans (w.syncs_wake x)

@[simp] theorem syncs_modifyToken (x : Option TokenId) (f : Token → Token) :
    (w.modifyToken x f).syncs = w.syncs := by
  cases x <;> rfl

theorem actors_modifyToken (x : Option TokenId) (f : Token → Token) :
    (w.modifyToken x f).actors = w.actors := by
  cases x <;> rfl

end syncs

/-- The others were at most woken, and no rule of the synchronizer changed unless it was asked. -/
structure Beside (s : SyncId) (me : ActorId) (asks : Bool) (w w' : World) : Prop where
  others : ∀ a, a ≠ me → (w.actor a).Eased (w'.actor a)
  actors : w'.actors.size = w.actors.size
  syncs : w'.syncs.size = w.syncs.size
  rules : asks = true ∨ (w'.sync s).hollow = (w.sync s).hollow

namespace Beside

variable {s t : SyncId} {me : ActorId} {asks : Bool} {w w' w'' : World}

theorem refl (w : World) : Beside s me asks w w :=
  ⟨fun _ _ => Actor.Eased.refl _, rfl, rfl, Or.inr rfl⟩

theorem trans (h : Beside s me asks w w') (h' : Beside s me asks w' w'') :
    Beside s me asks w w'' := by
  refine ⟨fun a ha => (h.others a ha).trans (h'.others a ha), h'.actors.trans h.actors,
    h'.syncs.trans h.syncs, ?_⟩
  rcases h.rules with asked | same
  · exact Or.inl asked
  · exact h'.rules.imp_right fun same' => same'.trans same

/-- What touches neither actors nor synchronizers. -/
theorem of_eq (actors : w'.actors = w.actors) (syncs : w'.syncs = w.syncs) :
    Beside s me asks w w' := by
  refine ⟨fun a _ => ?_, by rw [actors], by rw [syncs], Or.inr (by rw [sync, sync, syncs])⟩
  rw [actor, actor, actors]
  exact Actor.Eased.refl _

theorem modifyToken (w : World) (x : Option TokenId) (f : Token → Token) :
    Beside s me asks w (w.modifyToken x f) :=
  of_eq (w.actors_modifyToken x f) (w.syncs_modifyToken x f)

theorem modifyActor (w : World) (f : Actor → Actor) :
    Beside s me asks w (w.modifyActor me f) := by
  refine ⟨fun a ha => ?_, by simp, rfl, Or.inr rfl⟩
  rw [actor_modifyActor, if_neg fun h => ha h.1.symm]
  exact Actor.Eased.refl _

/-- Whoever changes a synchronizer asks it, is at another, or only works on the queue. -/
theorem modifySync (w : World) {f : Synchronizer → Synchronizer}
    (h : asks = true ∨ t ≠ s ∨ ∀ x, (f x).hollow = x.hollow) :
    Beside s me asks w (w.modifySync t f) := by
  refine ⟨fun _ _ => Actor.Eased.refl _, rfl, w.syncs.size_modify t _, h.imp_right ?_⟩
  intro h
  rw [sync_modifySync]
  split
  · rename_i same
    exact h.resolve_left (fun ne => ne same.1) _
  · rfl

theorem setQueue (w : World) (q : WaitQueue) : Beside s me asks w (w.setQueue t q) :=
  modifySync w (Or.inr (Or.inr fun _ => rfl))

theorem wakeAll (w : World) (as : List ActorId) : Beside s me asks w (w.wakeAll as) := by
  refine ⟨fun a _ => w.wakeAll_eased a as, by simp, by simp, Or.inr ?_⟩
  rw [sync, sync, syncs_wakeAll]

theorem apply (w : World) (r : WaitQueue × Option ActorId) :
    Beside s me asks w (w.apply t r) :=
  (setQueue w r.1).trans (wakeAll _ _)

end Beside

section queues

variable (w : World) (s t : SyncId)

theorem queue_setQueue (q : WaitQueue) :
    (w.setQueue t q).queue s = if t = s ∧ s < w.syncs.size then q else w.queue s := by
  rw [queue, setQueue, sync_modifySync]
  split <;> rfl

theorem queue_apply (r : WaitQueue × Option ActorId) :
    (w.apply t r).queue s = if t = s ∧ s < w.syncs.size then r.1 else w.queue s := by
  rw [← queue_setQueue]
  exact congrArg (fun x => (x.get s).queue) (syncs_wakeAll _ _)

variable {w s t} in
theorem apply_alert {r : WaitQueue × Option ActorId} {a : ActorId} (h : r.2 = some a)
    (inTable : a < w.actors.size) : ((w.apply t r).actor a).Alert :=
  wakeAll_alert (by simp [h]) inTable

end queues

end World

end Turnstile
