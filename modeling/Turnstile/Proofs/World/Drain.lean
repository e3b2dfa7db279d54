import Turnstile.Proofs.World.Roll
import Turnstile.Proofs.World.Wakeup

/-! A hook that fails for good empties the queue: whoever learns of it gives up its place and wakes the
next. -/
namespace Turnstile

/-- The operation has nothing to do with the conditions of the synchronizer. -/
def Operation.apart (s : SyncId) (op : Operation) : Bool := op.condition.all (·.1 ≠ s)

def Event.apart (s : SyncId) : Event → Bool
  | .begin _ op => op.apart s
  | _ => true

theorem Event.waitsAt_of_apart {s : SyncId} {e : Event} (free : e.apart s = true) : e.waitsAt s = false := by
  cases e with
  | begin a op => cases op <;> simp_all [Event.apart, waitsAt, Operation.apart, Operation.condition]
  | _ => rfl

namespace Position

/-- What the hook has failed with when the actor asked for its turn. -/
def failure : Position → Option SyncError
  | .call (.turn _) (.leaving (.error e)) | .call (.turn _) (.answered (.error e)) => some e
  | _ => none

/-- The hook has answered an actor that asked for its turn, and has not failed. -/
def heeded (s : SyncId) : Position → Bool
  | .call (.turn q) (.leaving (.ok _)) | .call (.turn q) (.answered (.ok _)) => q.claim.sync = s
  | _ => false

variable {s : SyncId} {op : Operation} {p : Position}

theorem called_of_failure {e : SyncError} (h : p.failure = some e) : ∃ q stage, p = .call (.turn q) stage := by
  unfold failure at h
  split at h
  · exact ⟨_, _, rfl⟩
  · exact ⟨_, _, rfl⟩
  · simp at h

theorem called_of_heeded (h : p.heeded s = true) :
    ∃ q stage, p = .call (.turn q) stage ∧ q.claim.sync = s := by
  unfold heeded at h
  split at h
  · exact ⟨_, _, rfl, of_decide_eq_true h⟩
  · exact ⟨_, _, rfl, of_decide_eq_true h⟩
  · simp at h

theorem heads_of_apart (of : p.Of op) (apart : op.apart s = true) : p.heads s = false := by
  by_contra heads
  cases p with
  | start op' =>
    obtain rfl : op' = op := of
    cases op' with
    | wait t => simp_all [Position.heads, Operation.apart, Operation.condition]
    | _ => simp [Position.heads] at heads
  | call site stage =>
    cases site with
    | wait t | letGo t =>
      obtain ⟨w, style, rfl, -⟩ := of
      simp_all [Position.heads, Site.heads, Operation.apart, Operation.condition]
    | _ => simp [Position.heads, Site.heads] at heads
  | _ => simp [Position.heads] at heads

theorem signals_of_apart (of : p.Of op) (apart : op.apart s = true) : p.signals s = false := by
  by_contra signals
  obtain ⟨t, c, e, v, rfl, rfl, -⟩ := signals_eq (by simpa using signals)
  obtain rfl : op = .errand t c e := of
  simp [Operation.apart, Operation.condition] at apart

/-- Whoever has a node there, without a condition, has a place in the queue. -/
theorem place_of_apart (of : p.Of op) (apart : op.apart s = true) {n : NodeId}
    (node : (p.seat s).node = some n) : ∃ q, p.place = some q ∧ q.claim.sync = s := by
  have away : ∀ t : WaitTerms, t.Of op → t.sync ≠ s := by
    rintro t ⟨w, style, rfl, -⟩
    simpa [Operation.apart, Operation.condition] using apart
  cases p with
  | turn q | lingering q | roused q =>
    by_cases here : q.claim.sync = s
    · exact ⟨q, rfl, here⟩
    · simp [seat, here, Seat.node] at node
  | call site stage =>
    cases site with
    | turn q =>
      by_cases here : q.claim.sync = s
      · exact ⟨q, rfl, here⟩
      · simp [seat, here, Seat.node] at node
    | letGo t => simp [seat, away t of, Seat.node] at node
    | _ => simp [seat, Seat.node] at node
  | waiting v | dozing v | awoken v => simp [seat, away v.terms of, Seat.node] at node
  | _ => simp [seat, Seat.node] at node

end Position

/-- An acquisition leaves its place in the queue without having got anything only by giving up, or because it
has been told to, or with the error of a hook. -/
theorem Course.exits {w : World} {me : ActorId} {p : Position} {r : World × Next} {q : Queued}
    (course : Course w me p r) (place : p.place = some q) (failing : p.heeded q.claim.sync = false) :
    (∃ p' q', r.2.position = some p' ∧ p'.place = some q' ∧ q'.claim = q.claim ∧
      ∀ e, p'.failure = some e → p.failure = some e ∨ (p = .call (.turn q) .entering ∧
        ((w.sync q.claim.sync).ask (Site.turn q).hook me q.claim.arg).2 = .error e)) ∨
    ∃ v, r.2 = .ends v ∧ (v = .truth false ∨ v = .failed .interrupted ∨
      (∃ e, p.failure = some e ∧ v = .failed e) ∨ ∃ f, v = .faulted f) := by
  cases course with
  | @enter site _ _ _ _ goes =>
    cases site with
    | turn q' =>
      refine Or.inl ⟨.call (.turn q') .entering, q, ?_, place, rfl, by simp [Position.failure]⟩
      rcases goes with rfl | rfl <;> rfl
    | _ => simp [Position.place] at place
  | @leave site answer _ _ _ _ goes =>
    cases site with
    | turn q' =>
      refine Or.inl ⟨.call (.turn q') (.answered answer), q, ?_, place, rfl, ?_⟩
      · rcases goes with rfl | rfl <;> rfl
      · cases answer <;> exact fun e failed => Or.inl failed
    | _ => simp [Position.place] at place
  | @ask site =>
    cases site with
    | turn q' =>
      obtain rfl := Option.some.inj place
      refine Or.inl ⟨_, q', rfl, rfl, rfl, fun e failed => Or.inr ⟨rfl, ?_⟩⟩
      change ((w.sync q'.claim.sync).ask (Site.turn q').hook me (Site.turn q').arg).2 = _
      cases answer : ((w.sync (Site.turn q').sync).ask (Site.turn q').hook me (Site.turn q').arg).2 with
      | error e' =>
        rw [answer] at failed
        obtain rfl := Option.some.inj failed
        exact answer
      | ok v => simp [answer, Position.failure] at failed
    | _ => simp [Position.place] at place
  | @fail site e _ v _ error =>
    cases site with
    | turn => exact Or.inr ⟨v, rfl, Or.inr (Or.inr (error.imp_left fun told => ⟨e, rfl, told⟩))⟩
    | _ => simp [Position.place] at place
  | @conclude site c _ v _ granted gets =>
    rcases gets with ⟨rfl, -⟩ | ⟨q', rfl, -, -⟩
    · simp [Position.place] at place
    · obtain rfl := Option.some.inj place
      simp [Position.heeded] at failing
  | linger =>
    obtain rfl := Option.some.inj place
    simp [Position.heeded] at failing
  | @refuse site | @grant site =>
    cases site with
    | turn q' =>
      obtain rfl := Option.some.inj place
      simp [Position.heeded] at failing
    | _ => simp [Position.place] at place
  | call | await | again | retry => exact Or.inl ⟨_, q, rfl, place, rfl, by simp [Position.failure]⟩
  | @park q' _ _ _ goes =>
    refine Or.inl ⟨.roused q', q, ?_, place, rfl, by simp [Position.failure]⟩
    rcases goes with rfl | ⟨-, ⟨t, rfl⟩, -⟩ <;> rfl
  | swallow =>
    obtain rfl := Option.some.inj place
    exact Or.inl ⟨_, _, rfl, rfl, rfl, by simp [Position.failure]⟩
  | stray => exact Or.inr ⟨_, rfl, Or.inr (Or.inr (Or.inr ⟨_, rfl⟩))⟩
  | giveUp _ overdue => exact Or.inr ⟨_, rfl, overdue.imp And.left fun fault => Or.inr (Or.inr fault)⟩
  | interrupt _ _ ended => exact Or.inr ⟨_, rfl, Or.inr (ended.imp_right Or.inr)⟩
  | _ => simp [Position.place] at place

namespace World

variable {s : SyncId} {w : World} {a b me : ActorId} {p : Position} {e : Event}

/-- Whoever asks to acquire the synchronizer is answered with an error. -/
def denies (s : SyncId) (w : World) (e : Event) : Bool :=
  (w.heard s e).all fun (_, hook, answer) =>
    match hook, answer with
    | .acquire, .ok _ | .acquireShared, .ok _ => false
    | _, _ => true

theorem error_of_denies (denied : w.denies s (.step a) = true) {site : Site} {m : Mode}
    (running : (w.actor a).activity = .busy .running (.call site .entering)) (here : site.sync = s)
    (acquire : site.hook = .toAcquire m) : ∃ e, ((w.sync s).ask site.hook a site.arg).2 = .error e := by
  have heard : w.heard s (.step a) = some (a, site.hook, ((w.sync s).ask site.hook a site.arg).2) :=
    heard_eq_some.2 ⟨site, rfl, running, here, rfl, rfl⟩
  rw [denies, heard, acquire] at denied
  rw [acquire]
  cases answer : ((w.sync s).ask (.toAcquire m) a site.arg).2 with
  | error e => exact ⟨e, rfl⟩
  | ok v =>
    rw [Option.all_some, answer] at denied
    cases m <;> simp [Hook.toAcquire] at denied

theorem tasks_happen {kind : Operation → Prop}
    (told : ∀ a p, (w.actor a).position = some p → ∃ op, p.Of op ∧ kind op)
    (begins : ∀ a op, e = .begin a op → kind op) :
    ∀ a p, ((w.happen e).actor a).position = some p → ∃ op, p.Of op ∧ kind op := by
  intro a p' hp'
  rcases w.position_cases a hp' with ⟨hp, -⟩ | ⟨op, rfl, -, rfl⟩ | ⟨p, rfl, running, course, next⟩
  · exact told a p' hp
  · exact ⟨op, rfl, begins a op rfl⟩
  · obtain ⟨op, of, known⟩ := told a p (Actor.position_of_busy running)
    exact ⟨op, course.of of next, known⟩

theorem tasks_after {kind : Operation → Prop} {events : List Event}
    (told : ∀ a p, (w.actor a).position = some p → ∃ op, p.Of op ∧ kind op)
    (begins : ∀ a op, Event.begin a op ∈ events → kind op) :
    ∀ a p, ((w.after events).actor a).position = some p → ∃ op, p.Of op ∧ kind op := by
  induction events generalizing w with
  | nil => exact told
  | cons e rest ih =>
    refine ih (tasks_happen told fun a op here => begins a op (by simp [here])) fun a op later => ?_
    exact begins a op (List.mem_cons_of_mem e later)

/-- Nobody is about to have its turn, and the first in the queue is awake, or someone is about to wake it. -/
structure Draining (s : SyncId) (w : World) : Prop where
  seated : Seated s w
  apart : ∀ a p, (w.actor a).position = some p → ∃ op, p.Of op ∧ op.apart s = true
  failing : ∀ a p, (w.actor a).position = some p → p.heeded s = false
  attended : Attended (fun _ _ => True) s w

namespace Draining

theorem exclusive (h : Draining s w) : Exclusive s w := by
  refine Unwaited.exclusive fun a p hp => ?_
  obtain ⟨op, of, apart⟩ := h.apart a p hp
  exact Position.heads_of_apart of apart

/-- Only the actor that asks for its turn is called to it, and it has not been answered. -/
theorem entering_of_asking (hw : InOrder s w) {q q' : Queued} {stage : Stage}
    (asking : (w.actor a).position = some (.call (.turn q) .entering)) (here : q.claim.sync = s)
    (hp : (w.actor b).position = some (.call (.turn q') stage)) (here' : q'.claim.sync = s) :
    stage = .entering := by
  obtain rfl := hw.called_alone asking here hp here'
  exact (Position.call.inj (Option.some.inj (hp.symm.trans asking))).2

/-- When an actor asks for its turn, it is the first of those who wait, and awake. -/
theorem of_asking (hw : InOrder s w) {q : Queued}
    (apart : ∀ a p, (w.actor a).position = some p → ∃ op, p.Of op ∧ op.apart s = true)
    (asks : (w.actor a).activity = .busy .running (.call (.turn q) .entering)) (here : q.claim.sync = s) :
    Draining s w where
  seated := hw.seated
  apart := apart
  failing := by
    intro b p hp
    by_contra heeded
    obtain ⟨q', stage, rfl, here'⟩ := Position.called_of_heeded (by simpa using heeded)
    obtain rfl := entering_of_asking hw (Actor.position_of_busy asks) here hp here'
    simp [Position.heeded] at heeded
  attended := by
    have asking := Actor.position_of_busy asks
    obtain ⟨-, -, -, -, -, -, first⟩ := hw.seated.called asking here
    intro h f b p _ hf _ hp hn sleepy _
    obtain rfl : q.node = f := Option.some.inj (first.symm.trans hf)
    have mine := (hw.seated.live_of_place asking rfl here).2
    obtain rfl : a = b := Option.some.inj (mine.symm.trans (hw.seated.actor_node hp hn))
    rcases sleepy with ⟨t, p', parked⟩ | ⟨p', hp', sleepy⟩
    · simp [asks] at parked
    · obtain rfl := Option.some.inj (asking.symm.trans hp')
      simp [Position.sleepy, Stage.refused] at sleepy

theorem heeds (h : Draining s w) (denied : w.denies s (.step a) = true)
    (running : (w.actor a).activity = .busy .running p) : Heeds (fun _ _ => True) s w a p where
  writes _ _ _ _ := id
  readies _ _ _ := Or.inr fun _ _ => trivial
  refuses := by
    rintro q v rfl here answer - -
    obtain ⟨e, error⟩ := error_of_denies denied running here rfl
    exact absurd (answer.symm.trans error) (by simp)
  holds := by
    have hp := Actor.position_of_busy running
    obtain ⟨op, of, apart⟩ := h.apart a p hp
    rintro (signals | ⟨q, takes, -⟩)
    · simp [Position.signals_of_apart of apart] at signals
    · obtain ⟨v, rfl, here, -⟩ := Position.takes_eq takes
      simpa [Position.heeded, here] using h.failing a _ hp

theorem happen (h : Draining s w) (apart : e.apart s = true) (denied : w.denies s e = true) :
    Draining s (w.happen e) where
  seated := h.seated.happen h.exclusive e
  apart := tasks_happen h.apart fun a op here => by
    subst here
    exact apart
  failing := by
    refine h.seated.positions (P := fun _ p => p.heeded s = false) h.failing (fun _ _ _ => rfl) ?_
    rintro a p p' rfl running on before
    cases on with
    | @start op site => cases op <;> cases site <;> rfl
    | @ask site =>
      cases site with
      | turn q =>
        cases answer : ((w.sync (Site.turn q).sync).ask (Site.turn q).hook a (Site.turn q).arg).2 with
        | error err => rfl
        | ok v =>
          refine decide_eq_false fun here => ?_
          obtain ⟨err, error⟩ := error_of_denies denied running here rfl
          rw [← here] at error
          exact absurd (answer.symm.trans error) (by simp)
      | _ => rfl
    | @leave site answer => cases site <;> cases answer <;> exact before
    | again _ _ after => rcases after with rfl | rfl | rfl | rfl <;> rfl
    | wait _ _ after => rcases after with rfl | rfl | rfl | rfl <;> rfl
    | @enter site => cases site <;> rfl
    | _ => rfl
  attended := by
    refine h.attended.happen h.seated e ?_
    rintro a p rfl running
    exact h.heeds denied running

theorem unfailed_of_asking (hw : InOrder s w) {q q' : Queued}
    (asking : (w.actor a).position = some (.call (.turn q) .entering)) (here : q.claim.sync = s)
    (hp : (w.actor b).position = some p) (place : p.place = some q') (here' : q'.claim.sync = s)
    (err : SyncError) : p.failure ≠ some err := by
  intro failed
  obtain ⟨q₁, stage, rfl⟩ := Position.called_of_failure failed
  obtain rfl := Option.some.inj place
  obtain rfl := entering_of_asking hw asking here hp here'
  simp [Position.failure] at failed

/-- At rest nobody is left, as whoever is first has been woken. -/
theorem live_eq_nil (h : Draining s w) (rests : w.quiet = true) : (w.queue s).live = [] := by
  by_contra waited
  obtain ⟨f, others, live⟩ := List.exists_cons_of_ne_nil waited
  obtain ⟨a, t, p, -, -, unready⟩ := h.attended.unready h.seated rests (f := f) (by rw [live]; rfl)
  exact unready trivial

end Draining

end World

/-- What an onlooker notes of the end of an operation that waits for its turn. -/
structure Exit where
  /-- What the hook last failed with when the actor asked it. -/
  error : Option SyncError := none
  /-- What the operation has come to. -/
  value : Option Value := none

namespace Exit

/-- What the hook of the synchronizer fails with in the next step of the actor, if it is asked, or has failed
with before. -/
def told (s : SyncId) (a : ActorId) (w : World) (x : Exit) : Option SyncError :=
  match w.heard s (.step a) with
  | some (_, _, .error err) => some err
  | _ => x.error

def note (s : SyncId) (a : ActorId) (w : World) (e : Event) (x : Exit) : Exit :=
  match x.value, e with
  | none, .step b => if b = a then ⟨x.told s a w, (w.step a).2⟩ else x
  | _, _ => x

def since (s : SyncId) (w : World) (a : ActorId) (events : List Event) : Exit :=
  World.collect (note s a) w events {}

/-- The operation has ended without having got anything: its time was up, it was interrupted, or the hook
failed when it was asked last. -/
def InVain (x : Exit) : Prop :=
  x.value = some (.truth false) ∨ x.value = some (.failed .interrupted) ∨
    ∃ err, x.error = some err ∧ x.value = some (.failed err)

/-- The operation goes on from the place in the queue, and nothing the hook has failed with is forgotten. -/
structure Waits (s : SyncId) (a : ActorId) (w : World) (x : Exit) (p : Position) (q : Queued) : Prop where
  position : (w.actor a).position = some p
  place : p.place = some q
  here : q.claim.sync = s
  value : x.value = none
  error : ∀ err, p.failure = some err → x.error = some err

/-- The actor still has its place in the queue, or it has left in vain. -/
def Sound (s : SyncId) (a : ActorId) (w : World) (x : Exit) : Prop :=
  (∃ p q, x.Waits s a w p q) ∨ x.InVain

variable {s : SyncId} {a : ActorId} {w : World} {x : Exit} {e : Event} {p : Position} {q : Queued}

theorem told_of_unasked (unasked : ∀ site, (w.actor a).activity ≠ .busy .running (.call site .entering)) :
    x.told s a w = x.error := by
  rw [told, World.unheard_of_unasked unasked]

theorem Waits.step (h : x.Waits s a w p q) (running : (w.actor a).activity = .busy .running p)
    (hw : w.Draining s) : Sound s a (w.happen (.step a)) ⟨x.told s a w, (w.step a).2⟩ := by
  have position : ((w.happen (.step a)).actor a).position = (w.stride a p).2.position :=
    Next.position_of_actor (World.activity_step running)
  have told : ∀ err, p.failure = some err → x.told s a w = some err := by
    intro err failed
    refine (told_of_unasked fun site asking => ?_).trans (h.error err failed)
    obtain ⟨-, rfl⟩ := Activity.busy.inj (running.symm.trans asking)
    cases site <;> simp [Position.failure] at failed
  have unfaulted := hw.seated.unfaulted running h.place h.here
  rw [World.step_value running]
  rcases w.stride_course a p with ⟨clock, -, eq⟩ | ⟨-, course⟩
  · rw [eq] at position ⊢
    exact Or.inl ⟨p, q, position, h.place, h.here, rfl, told⟩
  generalize w.stride a p = r at course position unfaulted
  rcases course.exits h.place (h.here ▸ hw.failing a p h.position) with
    ⟨p', q', next, place, claim, failed⟩ | ⟨v, ends, exits⟩
  · have goesOn : r.2.value = none := by
      cases n : r.2 with
      | ends v => simp [n, Next.position] at next
      | _ => rfl
    refine Or.inl ⟨p', q', position.trans next, place, claim ▸ h.here, goesOn, fun err failed' => ?_⟩
    rcases failed err failed' with before | ⟨rfl, error⟩
    · exact told err before
    · rw [World.sync_looked] at error
      have heard : w.heard s (.step a) = some (a, _, .error err) :=
        World.heard_eq_some.2 ⟨_, rfl, running, h.here, rfl, h.here ▸ error⟩
      rw [Exit.told, heard]
  · rw [ends]
    refine Or.inr ?_
    rcases exits with rfl | rfl | ⟨err, failed, rfl⟩ | ⟨f, rfl⟩
    · exact Or.inl rfl
    · exact Or.inr (Or.inl rfl)
    · exact Or.inr (Or.inr ⟨err, told err failed, rfl⟩)
    · exact absurd ends (unfaulted f)

/-- Nothing changes for whoever takes no step. -/
theorem Waits.still (h : x.Waits s a w p q)
    (still : ∀ p, (w.actor a).activity = .busy .running p → e ≠ .step a) :
    (x.note s a w e).Sound s a (w.happen e) := by
  have same : x.note s a w e = x := by
    cases e with
    | step b =>
      by_cases mine : b = a
      · subst mine
        have idle : (w.step b).2 = none := by
          rw [World.step_of_not_running fun p running => still p running rfl]
        have told : x.told s b w = x.error := told_of_unasked fun site running => still _ running rfl
        calc x.note s b w (.step b)
            _ = ⟨x.told s b w, (w.step b).2⟩ := by simp [note, h.value]
            _ = ⟨x.error, x.value⟩ := by rw [told, idle, h.value]
      · simp [note, h.value, mine]
    | _ => simp [note, h.value]
  rw [same]
  exact Or.inl ⟨p, q, World.position_of_bystander h.position still, h.place, h.here, h.value, h.error⟩

theorem Sound.happen (h : x.Sound s a w) (hw : w.Draining s) (e : Event) :
    (x.note s a w e).Sound s a (w.happen e) := by
  rcases h with ⟨p, q, waits⟩ | vain
  · by_cases steps : e = .step a ∧ (w.actor a).activity = .busy .running p
    · obtain ⟨rfl, running⟩ := steps
      have noted : x.note s a w (.step a) = ⟨x.told s a w, (w.step a).2⟩ := by simp [note, waits.value]
      rw [noted]
      exact waits.step running hw
    · refine waits.still ?_
      rintro p' running rfl
      obtain rfl := Option.some.inj ((Actor.position_of_busy running).symm.trans waits.position)
      exact steps ⟨rfl, running⟩
  · have same : x.note s a w e = x := by
      rcases vain with value | value | ⟨err, -, value⟩ <;> simp [note, value]
    rw [same]
    exact Or.inr vain

theorem Sound.run (h : x.Sound s a w) (hw : w.Draining s) {events : List Event}
    (apart : ∀ e ∈ events, e.apart s = true)
    (denied : World.Obeys (fun w e => w.denies s e = true) w events) :
    (w.after events).Draining s ∧ (World.collect (note s a) w events x).Sound s a (w.after events) := by
  induction events generalizing w x with
  | nil => exact ⟨hw, h⟩
  | cons e rest ih =>
    exact ih (h.happen hw e) (hw.happen (apart e (by simp)) denied.1) (fun e' he' => apart e' (by simp [he']))
      denied.2

end Exit

/-- The actor is asking whether it is its turn. -/
def Activity.asksTurn (s : SyncId) : Activity → Bool
  | .busy .running (.call (.turn q) .entering) => q.claim.sync = s
  | _ => false

theorem Activity.busy_of_asksTurn {act : Activity} {s : SyncId} (asks : act.asksTurn s = true) :
    ∃ q, act = .busy .running (.call (.turn q) .entering) ∧ q.claim.sync = s := by
  unfold asksTurn at asks
  split at asks
  · exact ⟨_, rfl, of_decide_eq_true asks⟩
  · exact absurd asks Bool.false_ne_true

namespace World

variable {s : SyncId}

/-- Once the hooks fail for good an actor that asks for its turn empties the queue: at rest nobody waits any
more, and whoever had a place has ended without having got anything. -/
theorem queue_drained {actors tokens : Nat} {syncs : List Synchronizer} {conditions : List SyncId}
    {x : Synchronizer} (hx : syncs[s]? = some x) (empty : x.queue = .empty) {before later : List Event}
    {a : ActorId} (apart : ∀ e ∈ before ++ .step a :: later, e.apart s = true)
    (asks : (((World.create actors tokens syncs conditions).after before).actor a).activity.asksTurn s = true)
    (denied : Obeys (fun w e => w.denies s e = true)
      ((World.create actors tokens syncs conditions).after before) (.step a :: later)) :
    let w₀ := (World.create actors tokens syncs conditions).after before
    let w := w₀.after (.step a :: later)
    w.quiet = true → (w.queue s).live = [] ∧
      ∀ n ∈ (w₀.queue s).live, ∃ b, ((w₀.queue s).node n).actor = some b ∧
        (Exit.since s w₀ b (.step a :: later)).InVain := by
  intro w₀ w rests
  have before_apart : ∀ e ∈ before, e.apart s = true := fun e he => apart e (List.mem_append_left _ he)
  have later_apart : ∀ e ∈ Event.step a :: later, e.apart s = true :=
    fun e he => apart e (List.mem_append_right _ he)
  have hw₀ : InOrder s w₀ :=
    .after hx empty (Or.inl fun e he => Event.waitsAt_of_apart (before_apart e he))
  obtain ⟨q, running, here⟩ := Activity.busy_of_asksTurn asks
  have asking : (w₀.actor a).position = some (.call (.turn q) .entering) := Actor.position_of_busy running
  have told : ∀ b p, (w₀.actor b).position = some p → ∃ op, p.Of op ∧ op.apart s = true :=
    tasks_after (fun b p hp => absurd hp (position_create actors tokens syncs conditions b p))
      fun b op begins => before_apart _ begins
  have draining : Draining s w₀ := .of_asking hw₀ told running here
  have sound : ∀ b p q', (w₀.actor b).position = some p → p.place = some q' → q'.claim.sync = s →
      Draining s w ∧ (Exit.since s w₀ b (.step a :: later)).Sound s b w := by
    intro b p q' hp place here'
    refine Exit.Sound.run (Or.inl ⟨p, q', hp, place, here', rfl, fun err failed => ?_⟩) draining
      later_apart denied
    exact absurd failed (Draining.unfailed_of_asking hw₀ asking here hp place here' err)
  have drained : Draining s w := (sound a _ q asking rfl here).1
  have live := drained.live_eq_nil rests
  refine ⟨live, fun n hn => ?_⟩
  obtain ⟨b, p, hp, node⟩ := hw₀.seated.kept n (Or.inl hn)
  obtain ⟨op, of, apart⟩ := told b p hp
  obtain ⟨q', place, here'⟩ := Position.place_of_apart of apart node
  refine ⟨b, hw₀.seated.actor_node hp node, (sound b p q' hp place here').2.resolve_left ?_⟩
  rintro ⟨p', q₁, waits⟩
  simpa [live] using (drained.seated.live_of_place waits.position waits.place waits.here).1

set_option maxRecDepth 8000 in
/-- Three wait when the hooks are broken. The first fails, the time of the second is up meanwhile, and the
third is cancelled. -/
theorem queue_drained_broken :
    let start := World.create 4 1 [{ policy := .readWrite, state := 0 }] []
    let poisoned : SyncError := .illegalMonitorState "poisoned"
    let before : List Event :=
      .begin 0 (.acquire 0 .exclusive 1 .plain) :: List.replicate 5 (Event.step 0) ++
      .begin 1 (.acquire 0 .exclusive 1 .plain) :: List.replicate 18 (Event.step 1) ++
      .begin 2 (.acquire 0 .shared 1 (.timed none (.timeout 1000000))) ::
      List.replicate 18 (Event.step 2) ++
      .begin 3 (.acquire 0 .shared 1 (.interruptible (some 0))) :: List.replicate 18 (Event.step 3) ++
      .breakHook 0 .acquire poisoned none :: .breakHook 0 .acquireShared poisoned none ::
      .begin 0 (.release 0 .exclusive 1) :: List.replicate 5 (Event.step 0) ++
      .resume 1 :: List.replicate 3 (Event.step 1)
    let later : List Event :=
      .elapse 1000000 :: .resume 2 :: List.replicate 10 (Event.step 2) ++
      .cancel 0 :: List.replicate 2 (Event.step 1) ++ .resume 3 :: List.replicate 10 (Event.step 3)
    let w₀ := start.after before
    (w₀.queue 0).live = [1, 2, 3] ∧ ((w₀.after (.step 1 :: later)).queue 0).live = [] ∧
      ∀ n ∈ [1, 2, 3], ∃ b, ((w₀.queue 0).node n).actor = some b ∧
        (Exit.since 0 w₀ b (.step 1 :: later)).InVain := by
  intro start poisoned before later w₀
  have waiting : (w₀.queue 0).live = [1, 2, 3] := by decide +kernel
  have rests : (w₀.after (.step 1 :: later)).quiet = true := by decide +kernel
  have apart : ∀ e ∈ before ++ .step 1 :: later, e.apart 0 = true := by decide +kernel
  have denied : Obeys (fun w e => w.denies 0 e = true) w₀ (.step 1 :: later) := by decide +kernel
  have asks : (w₀.actor 1).activity.asksTurn 0 = true := by decide +kernel
  obtain ⟨live, vain⟩ := queue_drained rfl rfl apart asks denied rests
  exact ⟨waiting, live, waiting ▸ vain⟩

end World

end Turnstile
