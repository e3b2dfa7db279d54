import Turnstile.Policy.Catalogue
import Turnstile.Proofs.World.Heard

/-! The promise of a signal holds under any policy, as long as no more than one actor at a time can work
on a condition. -/
namespace Turnstile

def Event.waitsAt (s : SyncId) : Event → Bool
  | .begin _ (.wait t _ _) => t = s
  | _ => false

def Site.heads (s : SyncId) : Site → Bool
  | .wait t | .letGo t _ _ => t.sync = s
  | _ => false

/-- With or without the consent of the hook, this is where one works on a condition of the
synchronizer. -/
def Site.guards (s : SyncId) (granted : Bool) : Site → Bool
  | .wait t => t.sync = s && granted
  | .errand t _ _ => t = s && granted
  | .letGo t _ _ => t.sync = s && !granted
  | _ => false

namespace Position

def heads (s : SyncId) : Position → Bool
  | .start (.wait t _ _) => t = s
  | .call site _ => site.heads s
  | _ => false

/-- At work on a condition of the synchronizer. -/
def guards (s : SyncId) : Position → Bool
  | .call site stage => site.guards s stage.granted
  | _ => false

variable {s : SyncId} {p : Position}

theorem heads_of_entering {n : NodeId} (h : p.seat s = .entering n) : p.heads s = true := by
  obtain ⟨t, saved, stage, rfl, here, -⟩ := entering_eq h
  simp [heads, Site.heads, here]

theorem guards_of_entering {n : NodeId} (h : p.seat s = .entering n) : p.guards s = true := by
  obtain ⟨t, saved, stage, rfl, here, fresh⟩ := entering_eq h
  simp [guards, Site.guards, here, fresh]

theorem guards_of_signals (h : p.signals s = true) : p.guards s = true := by
  obtain ⟨t, c, e, v, rfl, here, granted⟩ := signals_eq h
  simp [guards, Site.guards, Stage.granted, here, granted]

/-- Whoever gets on its way to a condition was told to wait there. -/
theorem heads_of_onward {sync : SyncId → Synchronizer} {me : ActorId} {p' : Position}
    (on : Onward sync me p p') (heads : p'.heads s = true) : p.heads s = true := by
  cases on with
  | @start op site opens =>
    cases op <;> cases site <;> simp_all [Operation.Opens, Position.heads, Site.heads]
  | enter | ask | leave | enterWait _ => exact heads
  | again _ _ after =>
    rcases after with rfl | rfl | rfl | rfl <;> simp [Position.heads, Site.heads] at heads
  | wait _ _ after =>
    rcases after with rfl | rfl | rfl | rfl <;> simp [Position.heads, World.reclaim] at heads
  | _ => simp [Position.heads] at heads

/-- Whoever comes to guard a condition has just been named the holder, or guarded one before and has
not been released since. -/
theorem guards_of_onward {sync : SyncId → Synchronizer} {me : ActorId} {p' : Position}
    (on : Onward sync me p p') (guards : p'.guards s = true) :
    (∃ site, p = .call site .entering ∧ site.sync = s ∧ site.hook = .isHeld ∧
      grants ((sync site.sync).ask site.hook me site.arg).2 = true) ∨
    (p.guards s = true ∧ ∀ site, p = .call site .entering →
      grants ((sync site.sync).ask site.hook me site.arg).2 = false) := by
  cases on with
  | @start op site opens =>
    cases site with
    | letGo t n saved => cases op <;> exact opens.elim
    | _ => simp [Position.guards, Site.guards, Stage.granted] at guards
  | enter => exact Or.inr ⟨guards, by simp⟩
  | @ask site =>
    cases site with
    | wait t =>
      obtain ⟨here, granted⟩ : t.sync = s ∧ _ := by
        simpa [Position.guards, Site.guards] using guards
      exact Or.inl ⟨_, rfl, here, rfl, granted⟩
    | errand t c e =>
      obtain ⟨here, granted⟩ : t = s ∧ _ := by
        simpa [Position.guards, Site.guards] using guards
      exact Or.inl ⟨_, rfl, here, rfl, granted⟩
    | letGo t n saved =>
      obtain ⟨here, refused⟩ : t.sync = s ∧ _ := by
        simpa [Position.guards, Site.guards] using guards
      refine Or.inr ⟨by simp [Position.guards, Site.guards, here, Stage.granted], ?_⟩
      rintro site same
      obtain rfl : Site.letGo t n saved = site := (Position.call.inj same).1
      exact refused
    | _ => simp [Position.guards, Site.guards] at guards
  | leave => exact Or.inr ⟨guards, by simp⟩
  | enterWait granted =>
    refine Or.inr ⟨?_, by simp⟩
    simpa [Position.guards, Site.guards, Stage.granted, granted] using guards
  | again _ _ after =>
    rcases after with rfl | rfl | rfl | rfl <;> simp [Position.guards, Site.guards] at guards
  | wait _ _ after =>
    rcases after with rfl | rfl | rfl | rfl <;> simp [Position.guards, World.reclaim] at guards
  | _ => simp [Position.guards] at guards

theorem releasing_of_answered {sync : SyncId → Synchronizer} {me : ActorId} {site : Site}
    {answer : Except SyncError Verdict} {p' : Position}
    (on : Onward sync me (.call site (.answered answer)) p') : p'.releasing s = false := by
  cases on with
  | again _ before _ => simp at before
  | wait _ before _ => simp at before
  | enterWait _ => simp [releasing, Stage.granted]
  | _ => rfl

end Position

namespace World

/-- Nobody but the holder is told to hold the synchronizer, and whoever holds it goes on to until it is
granted a release. -/
def Honest (s : SyncId) : Option ActorId → World → List Event → Prop
  | _, _, [] => True
  | b, w, e :: rest =>
    (∀ a answer, w.heard s e = some (a, .isHeld, answer) → grants answer → b = some a) ∧
    ∃ b', (∀ a, b = some a →
        b' = some a ∨ ∃ answer, w.heard s e = some (a, .release, answer) ∧ grants answer) ∧
      Honest s b' (w.happen e) rest

/-- Only the holder works on conditions. -/
def Guarded (s : SyncId) (b : Option ActorId) (w : World) : Prop :=
  ∀ a p, (w.actor a).position = some p → p.guards s → b = some a

variable {s : SyncId} {w : World} {b b' : Option ActorId} {e : Event} {events : List Event}

theorem Guarded.exclusive (hw : Guarded s b w) : Exclusive s w := by
  intro a p a' p' hp hp' signals ne n seat
  have here := hw a p hp (Position.guards_of_signals signals)
  have there := hw a' p' hp' (Position.guards_of_entering seat)
  exact ne (Option.some.inj (here.symm.trans there))

/-- Whoever is somewhere only because a hook has named it the holder, or because it was already, is the
holder still. -/
theorem Seated.holders (seated : Seated s w) (names : Hook → Prop) {H : Position → Bool}
    (begins : ∀ op, H (.start op) = false)
    (comes : ∀ a p p', Onward w.sync a p p' → H p' = true →
      (∃ site, p = .call site .entering ∧ site.sync = s ∧ names site.hook ∧
        grants ((w.sync site.sync).ask site.hook a site.arg).2 = true) ∨
      (H p = true ∧ ∀ site, p = .call site .entering →
        grants ((w.sync site.sync).ask site.hook a site.arg).2 = false))
    (hold : ∀ a p, (w.actor a).position = some p → H p = true → b = some a)
    (named : ∀ a hook answer, w.heard s e = some (a, hook, answer) → names hook → grants answer →
      b' = some a)
    (kept : ∀ a, b = some a →
      b' = some a ∨ ∃ answer, w.heard s e = some (a, .release, answer) ∧ grants answer) :
    ∀ a p, ((w.happen e).actor a).position = some p → H p = true → b' = some a := by
  intro a p' hp' here
  rcases seated.position_happen e hp' with ⟨hp, still⟩ | ⟨op, -, rfl⟩ | ⟨p, rfl, running, on⟩
  · rcases kept a (hold a p' hp here) with hb' | ⟨answer, heard, -⟩
    · exact hb'
    · obtain ⟨site, rfl, running, -⟩ := heard_eq_some.1 heard
      simpa [Position.readsClock] using still _ rfl running
  · simp [begins] at here
  · rcases comes a p p' on here with ⟨site, rfl, at_, names, granted⟩ | ⟨before, refused⟩
    · refine named a site.hook _ (heard_eq_some.2 ⟨site, rfl, running, at_, rfl, rfl⟩) names ?_
      rwa [← at_]
    · rcases kept a (hold a p (Actor.position_of_busy running) before) with hb' | ⟨answer, heard, granted⟩
      · exact hb'
      · obtain ⟨site, -, running', at_, -, same⟩ := heard_eq_some.1 heard
        obtain ⟨-, rfl⟩ := Activity.busy.inj (running.symm.trans running')
        have := refused site rfl
        rw [at_, same, granted] at this
        simp at this

theorem Guarded.happen (hw : Guarded s b w) (seated : Seated s w)
    (held : ∀ a answer, w.heard s e = some (a, .isHeld, answer) → grants answer → b = some a)
    (kept : ∀ a, b = some a →
      b' = some a ∨ ∃ answer, w.heard s e = some (a, .release, answer) ∧ grants answer) :
    Guarded s b' (w.happen e) := by
  refine seated.holders (· = .isHeld) (fun _ => rfl)
    (fun _ _ _ on => Position.guards_of_onward on) hw ?_ kept
  rintro a hook answer heard rfl granted
  rcases kept a (held a answer heard granted) with hb' | ⟨answer', released, -⟩
  · exact hb'
  · simp [heard] at released

/-- A run in which nobody waits on a condition, or in which the hooks are honest about the holder. -/
def Orderly (s : SyncId) (w : World) (events : List Event) : Prop :=
  (∀ e ∈ events, e.waitsAt s = false) ∨ ∃ b, Honest s b w events

/-- Nobody is about to wait on a condition. -/
def Unwaited (s : SyncId) (w : World) : Prop :=
  ∀ a p, (w.actor a).position = some p → p.heads s = false

theorem Unwaited.exclusive (hw : Unwaited s w) : Exclusive s w := by
  intro a p a' p' _ hp' _ _ n seat
  have heads := Position.heads_of_entering seat
  simp [hw a' p' hp'] at heads

theorem Unwaited.happen (hw : Unwaited s w) (seated : Seated s w) (e : Event)
    (free : e.waitsAt s = false) : Unwaited s (w.happen e) := by
  intro a p' hp'
  rcases seated.position_happen e hp' with ⟨hp, -⟩ | ⟨op, rfl, rfl⟩ | ⟨p, rfl, running, on⟩
  · exact hw a p' hp
  · cases op <;> simp_all [Event.waitsAt, Position.heads]
  · by_contra heads
    have before := Position.heads_of_onward on (by simpa using heads)
    simp [hw a p (Actor.position_of_busy running)] at before

theorem Seated.after_unwaited (hw : Seated s w) (unwaited : Unwaited s w) (events : List Event)
    (free : ∀ e ∈ events, e.waitsAt s = false) :
    Seated s (w.after events) ∧ Exclusive s (w.after events) := by
  induction events generalizing w with
  | nil => exact ⟨hw, unwaited.exclusive⟩
  | cons e rest ih =>
    exact ih (hw.happen unwaited.exclusive e) (unwaited.happen hw e (free e (by simp)))
      fun e' he => free e' (by simp [he])

theorem Seated.after_honest (hw : Seated s w) (guarded : Guarded s b w) (events : List Event)
    (honest : Honest s b w events) : Seated s (w.after events) ∧ Exclusive s (w.after events) := by
  induction events generalizing w b with
  | nil => exact ⟨hw, guarded.exclusive⟩
  | cons e rest ih =>
    obtain ⟨held, b', kept, rest⟩ := honest
    exact ih (hw.happen guarded.exclusive e) (guarded.happen hw held kept) rest

theorem Seated.after_orderly (hw : Seated s w) (idle : ∀ a, (w.actor a).position = none)
    {events : List Event} (orderly : Orderly s w events) :
    Seated s (w.after events) ∧ Exclusive s (w.after events) := by
  rcases orderly with free | ⟨b, honest⟩
  · exact hw.after_unwaited (fun a p hp => by simp [idle] at hp) events free
  · exact hw.after_honest (fun a p hp => by simp [idle] at hp) events honest

theorem Seated.signalled (hw : Seated s w) {n : NodeId} (hn : n ∈ (w.queue s).live) {a : ActorId}
    (ha : ((w.queue s).node n).actor = some a) (sleepy : (w.actor a).Sleepy false) {x : NodeId}
    (hf : Follows (w.queue s).column x n) : ((w.queue s).node x).status = .signal := by
  obtain ⟨a', p, hp, seat⟩ := hw.kept n (Or.inl hn)
  obtain rfl := Option.some.inj ((hw.actor_node hp seat).symm.trans ha)
  exact hw.promise a' p x n hp sleepy seat hf

/-- When a release has been granted and has done its wake-up, whoever is first is awake. -/
theorem Seated.first_awake (hw : Seated s w) (ex : Exclusive s w) {me : ActorId} {site : Site}
    {answer : Except SyncError Verdict}
    (running : (w.actor me).activity = .busy .running (.call site (.answered answer)))
    (releasing : (Position.call site (.answered answer)).releasing s = true) {f : NodeId} {a : ActorId}
    (hf : ((w.step me).1.queue s).live.head? = some f)
    (ha : (((w.step me).1.queue s).node f).actor = some a) : ¬((w.step me).1.actor a).Sleepy false := by
  intro sleepy
  have seated := hw.step ex me
  obtain ⟨h, body, hq⟩ := seated.shaped
  obtain ⟨hh, follows⟩ := hq.head_follows hf
  have live := List.mem_of_mem_head? hf
  have signal := seated.signalled live ha sleepy follows
  rw [step_eq running] at hh live signal
  rcases (hw.moved_stride running).spent releasing with again | spent
  · obtain ⟨p', position, again⟩ := Next.exists_releasing again
    rcases onward_stride position with ⟨clock, -⟩ | on
    · simp [Position.readsClock] at clock
    · simp [Position.releasing_of_answered on] at again
  · exact spent h hh (List.ne_nil_of_mem live) signal

/-- Under any policy, whoever is parked in the queue has been promised a signal by the nearest live node
before its own, and whoever is first is awake once a release has done its wake-up. -/
theorem promise_kept {actors tokens : Nat} {syncs : List Synchronizer} {conditions : List SyncId}
    {x : Synchronizer} (hx : syncs[s]? = some x) (empty : x.queue = .empty) {events : List Event}
    (orderly : Orderly s (World.create actors tokens syncs conditions) events) :
    let w := (World.create actors tokens syncs conditions).after events
    (∀ n ∈ (w.queue s).live, ∀ a, ((w.queue s).node n).actor = some a → (w.actor a).isParked →
        ∃ m, (w.queue s).nearest n = some m ∧ ((w.queue s).node m).status = .signal) ∧
    ∀ me site answer, (w.actor me).activity = .busy .running (.call site (.answered answer)) →
      (Position.call site (.answered answer)).releasing s →
      ∀ f a, ((w.step me).1.queue s).live.head? = some f →
        (((w.step me).1.queue s).node f).actor = some a → ((w.step me).1.actor a).isParked = false := by
  intro w
  obtain ⟨seated, exclusive⟩ := (Seated.create hx empty).after_orderly
    (fun a => by rw [actor_create]; rfl) orderly
  constructor
  · intro n hn a ha parked
    obtain ⟨t, p, parked⟩ := Actor.exists_of_isParked parked
    obtain ⟨h, body, hq⟩ := seated.shaped
    obtain ⟨m, near, hf⟩ := hq.nearest_of_mem hn
    exact ⟨m, near, seated.signalled hn ha (Or.inl ⟨t, p, parked⟩) hf⟩
  · intro me site answer running releasing f a hf ha
    refine Bool.eq_false_iff.2 fun parked => ?_
    obtain ⟨t, p, parked⟩ := Actor.exists_of_isParked parked
    exact seated.first_awake exclusive running releasing hf ha (Or.inl ⟨t, p, parked⟩)

/-- One actor holds a lock, and another parks behind it. -/
theorem promise_kept_contended :
    let w := (World.create 2 0 [{ policy := .mutex, state := 0 }] []).after
      (.begin 0 (.acquire 0 .exclusive 1 .plain) :: List.replicate 5 (.step 0) ++
        .begin 1 (.acquire 0 .exclusive 1 .plain) :: List.replicate 18 (.step 1))
    (w.actor 1).isParked ∧ ∃ m, (w.queue 0).nearest 1 = some m ∧ ((w.queue 0).node m).status = .signal :=
  have parked := by decide +kernel
  ⟨parked, (promise_kept rfl rfl (Or.inl (by decide))).1 1 (by decide +kernel) 1 (by decide +kernel) parked⟩

end World

end Turnstile
