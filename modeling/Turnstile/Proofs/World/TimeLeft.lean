import Turnstile.Proofs.World.Order
import Turnstile.Proofs.World.Reasons

/-! How waits with a deadline account for time: none gives up early, and none is told of more or less time
than it has left. -/
namespace Turnstile

namespace World

def KeepsOn (a : ActorId) (w : World) (events : List Event) : Prop :=
  ∀ xs op, xs ++ [.begin a op] <+: events → ((w.after xs).actor a).position ≠ none

theorem KeepsOn.nil {a : ActorId} (w : World) : w.KeepsOn a [] := fun xs op starts => by simp at starts

theorem KeepsOn.concat {a : ActorId} {w : World} {events : List Event} {e : Event} (h : w.KeepsOn a events)
    (busy : ∀ op, e = .begin a op → ((w.after events).actor a).position ≠ none) :
    w.KeepsOn a (events ++ [e]) := by
  intro xs op starts
  rcases List.prefix_concat_iff.1 starts with same | earlier
  · obtain ⟨rfl, last⟩ := List.append_inj' same rfl
    exact busy op (List.singleton_inj.1 last).symm
  · exact h xs op earlier

end World

namespace Vigil

variable {s : SyncId} {c : ConditionId} {style : WaitStyle} {a : ActorId} {w : World} {d : Vigil} {e : Event}
  {x : Parting}

/-- With each operation of the actor the notes begin anew. Otherwise they only grow. -/
theorem note_cases (s : SyncId) (a : ActorId) (w : World) (e : Event) (d : Vigil) :
    (d.note s a w e).partings = [] ∨ ((∀ op, e = .begin a op → (w.actor a).position ≠ none) ∧
      (d.note s a w e).task = d.task ∧ (d.note s a w e).began = d.began ∧
      ((d.note s a w e).partings = d.partings ∨
        (d.note s a w e).partings = d.partings ++ (w.departure s a e).toList)) := by
  cases e with
  | begin b op =>
    simp only [note]
    split
    · exact Or.inl rfl
    · rename_i busy
      refine Or.inr ⟨fun op' same idle => busy ⟨?_, idle⟩, rfl, rfl, Or.inl rfl⟩
      exact (Event.begin.inj same).1
  | _ => exact Or.inr ⟨fun op same => by simp at same, rfl, rfl, Or.inr rfl⟩

/-- How a node left its condition was noted when it did, of the same operation. -/
theorem exists_departure {events : List Event} (noted : x ∈ (Vigil.since s w a events).partings) :
    ∃ xs e ys, events = xs ++ e :: ys ∧ (w.after xs).departure s a e = some x ∧
      (Vigil.since s w a xs).task = (Vigil.since s w a events).task ∧
      (Vigil.since s w a xs).began = (Vigil.since s w a events).began ∧
      ((w.after xs).happen e).KeepsOn a ys := by
  induction events using List.reverseRecOn with
  | nil => simp [since, World.collect] at noted
  | append_singleton events e ih =>
    have eq : Vigil.since s w a (events ++ [e]) = (Vigil.since s w a events).note s a (w.after events) e :=
      World.collect_concat _ _ _ _ _
    rw [eq] at noted ⊢
    rcases note_cases s a (w.after events) e (Vigil.since s w a events) with
      none | ⟨goesOn, task, began, grows⟩
    · simp [none] at noted
    rw [task, began]
    have noted : x ∈ (Vigil.since s w a events).partings ∨ (w.after events).departure s a e = some x := by
      rcases grows with same | grown
      · exact Or.inl (same ▸ noted)
      · simpa [grown] using noted
    rcases noted with old | new
    · obtain ⟨xs, e', ys, rfl, left, task, began, keepsOn⟩ := ih old
      refine ⟨xs, e', ys ++ [e], by simp, left, task, began, keepsOn.concat ?_⟩
      rwa [World.after_append] at goesOn
    · exact ⟨events, e, [], rfl, new, rfl, rfl, World.KeepsOn.nil _⟩

theorem began_le (w : World) (a : ActorId) (epoch : Moment.epoch ≤ w.now) (events : List Event) :
    (Vigil.since s w a events).began ≤ (w.after events).now := by
  have kept : ∀ (w : World) e (d : Vigil), d.began ≤ w.now → (d.note s a w e).began ≤ (w.happen e).now := by
    intro w e d le
    refine Nat.le_trans ?_ (w.now_le_happen e)
    cases e with
    | begin b op =>
      simp only [note]
      split
      · exact Nat.le_refl w.now
      · exact le
    | _ => exact le
  exact World.collect_always kept epoch events

theorem Fits.freed_of_ends {p : Position} {v : Value} (h : d.Fits s c style a w p) (of : p.Of (.wait s c style))
    (course : Course (w.looked a p) a p (w.stride a p)) (ends : (w.stride a p).2 = .ends v)
    (unfailed : ∀ e, v ≠ .failed e) (unfaulted : ∀ f, v ≠ .faulted f) : d.freed = true := by
  cases p with
  | start op =>
    obtain rfl : op = .wait s c style := of
    generalize w.stride a (.start (.wait s c style)) = r at course ends
    cases course with
    | decline unmet =>
      obtain rfl := Next.ends.inj ends
      rcases unmet _ rfl with rfl | rfl
      all_goals exact absurd rfl (unfailed _)
    | _ => simp at ends
  | call site stage =>
    cases site with
    | wait t | letGo t n saved =>
      generalize w.stride a _ = r at course ends
      cases course with
      | fail _ error =>
        obtain rfl := Next.ends.inj ends
        rcases error with rfl | ⟨f, rfl⟩
        · exact absurd rfl (unfailed _)
        · exact absurd rfl (unfaulted _)
      | refuse _ _ told =>
        obtain rfl := Next.ends.inj ends
        rcases told with
          ⟨⟨_, _, _, other⟩ | ⟨_, other⟩, -⟩ | ⟨-, -, told⟩ | ⟨-, -, -, -, told⟩ | ⟨-, -, -, -, told⟩
        · simp at other
        · simp at other
        all_goals exact absurd told (unfailed _)
      | enter _ _ goes | leave _ _ goes => rcases goes with rfl | rfl <;> simp at ends
      | conclude _ gets => simp at gets
      | grant _ _ told => simp at told
      | _ => simp at ends
    | turn q =>
      obtain ⟨-, -, -, freed, -⟩ := h
      exact freed
    | _ => exact h.elim
  | turn q | lingering q | roused q =>
    obtain ⟨-, -, -, freed, -⟩ := h
    exact freed
  | waiting v | dozing v | awoken v => exact h.freed
  | reckoning => exact h.2.2.1
  | queueing => exact h.elim

end Vigil

namespace World

variable {s : SyncId} {a : ActorId} {w : World} {e : Event}

theorem parting_expired (expired : w.parting s a e = .expired) : e = .step a ∧
    ∃ v t, (w.actor a).position = some (.dozing v) ∧ v.terms.patience.deadline = some t ∧ t ≤ w.now := by
  unfold parting at expired
  split at expired
  · rename_i b
    split at expired
    · rename_i own
      subst own
      refine ⟨rfl, ?_⟩
      split at expired
      · dsimp only at expired
        split at expired <;> simp at expired
      · rename_i v hp
        split at expired
        · rename_i overdue
          obtain ⟨t, deadline, le⟩ := (Option.any_eq_true _ _).1 overdue
          exact ⟨v, t, hp, deadline, of_decide_eq_true le⟩
        · simp at expired
      · simp at expired
    · split at expired <;> simp at expired
  · simp at expired

/-- A node expires by a step of its own actor, which finds it on its condition with the deadline come. -/
theorem departure_expired (left : w.departure s a e = some .expired) : e = .step a ∧
    ∃ v t, (w.actor a).position = some (.dozing v) ∧ v.terms.patience.deadline = some t ∧ t ≤ w.now ∧
      ((w.queue s).node v.node).status = .condition ∧
      (((w.happen e).queue s).node v.node).status ≠ .condition := by
  simp only [departure, Option.bind_eq_some_iff] at left
  obtain ⟨n, ⟨p, hp, hn⟩, left⟩ := left
  split at left
  · rename_i gone
    obtain ⟨rfl, v, t, hp', deadline, le⟩ := parting_expired (Option.some.inj left)
    obtain rfl := Option.some.inj (hp.symm.trans hp')
    obtain rfl : v.node = n := by
      simp only [Position.seat] at hn
      split at hn
      · simpa [Seat.node] using hn
      · simp [Seat.node] at hn
    exact ⟨rfl, v, t, hp, deadline, le, gone⟩
  · simp at left

end World

namespace Vigil

variable {s : SyncId} {c : ConditionId} {style : WaitStyle} {a : ActorId} {w : World} {d : Vigil}

/-- A wait that comes to something tells what the notes on it explain. -/
theorem Attested.tells {v : Value} (h : d.Attested s a w) (hw : w.Seated s) (ends : (w.step a).2 = some v)
    (task : d.task = some (.wait s c style)) (unfailed : ∀ e, v ≠ .failed e) (unfaulted : ∀ f, v ≠ .faulted f) :
    d.Tells a w.now style v := by
  obtain ⟨p, running, ends⟩ := World.running_of_step ends
  have hp := Actor.position_of_busy running
  obtain ⟨op, task', of, -⟩ := h.accounted.owing p hp
  obtain rfl := Option.some.inj (task'.symm.trans task)
  have fits := h.fits p c style hp task
  rcases w.stride_course a p with ⟨-, -, spins⟩ | ⟨-, course⟩
  · simp [spins] at ends
  have freed : (d.note s a w (.step a)).freed = true := by
    rw [note_of_busy hp, fits.freed_of_ends of course ends unfailed unfaulted]
    rfl
  refine (fits.ends hw running course ends freed ?_).1
  rintro q e rfl
  generalize w.stride a _ = r at course ends
  cases course with
  | fail _ error =>
    obtain rfl := Next.ends.inj ends
    rcases error with rfl | ⟨f, rfl⟩
    · exact unfailed _ rfl
    · exact unfaulted _ rfl

theorem Tells.untold {v : Value} {now : Moment} (h : d.Tells a now style v)
    (other : v ≠ .failed .interrupted ∧ ∀ timedOut, v ≠ style.told d.began now timedOut) : False := by
  obtain ⟨interruption, timedOut, -, told⟩ := h
  split at told
  · exact other.1 told
  · exact other.2 timedOut told

theorem Tells.timeLeft {token : Option TokenId} {timeout : Span} {left : Option Span} {now : Moment}
    (h : d.Tells a now (.timeLeft token timeout) (.timeLeft left)) :
    (∀ r, left = some r ↔
      (d.partings ≠ [.expired] ∧ now - d.began < timeout) ∧ r = timeout - (now - d.began)) ∧
    (∀ r, left = some r → 0 < r ∧ r ≤ timeout) ∧
    (left = none ↔ d.partings = [.expired] ∨ timeout ≤ now - d.began) ∧
    (d.partings = [.expired] → timeout ≤ now - d.began) := by
  obtain ⟨interruption, timedOut, explains, told⟩ := h
  split at told
  · simp at told
  obtain rfl := Value.timeLeft.inj told
  rcases explains with ⟨b, -, signalled, -, rfl⟩ | ⟨-, cancelled, -⟩ | ⟨expired, -, rfl, t, deadline, come⟩
  · have unexpired : d.partings ≠ [.expired] := by simp [signalled]
    by_cases spent : timeout ≤ now - d.began
    · have nothing : timeout - (now - d.began) = 0 := Nat.sub_eq_zero_of_le spent
      exact ⟨fun r => by simp [nothing, Nat.not_lt.2 spent], by simp [nothing], by simp [nothing, spent],
        fun _ => spent⟩
    · have something : timeout - (now - d.began) ≠ 0 := Nat.sub_ne_zero_of_lt (Nat.not_le.1 spent)
      refine ⟨fun r => ?_, fun r eq => ?_, by simp [something, unexpired, spent],
        fun expired => absurd expired unexpired⟩
      · simp [something, unexpired, Nat.not_le.1 spent, eq_comm]
      · obtain rfl : timeout - (now - d.began) = r := by simpa [something] using eq
        exact ⟨Nat.pos_of_ne_zero something, Nat.sub_le _ _⟩
  · contradiction
  · obtain ⟨rfl, -⟩ := Moment.after_eq_some.1 deadline
    have spent : timeout ≤ now - d.began := Nat.le_sub_of_add_le' come
    exact ⟨fun r => by simp [expired], by simp, by simp [expired], fun _ => spent⟩

theorem Tells.inTime {token : Option TokenId} {limit : Limit} {b : Bool} {now : Moment}
    (h : d.Tells a now (.inTime token limit) (.truth b)) : b = false ↔ d.partings = [.expired] := by
  obtain ⟨interruption, timedOut, explains, told⟩ := h
  split at told
  · simp at told
  obtain rfl := Value.truth.inj told
  rcases explains with ⟨b, -, signalled, -, rfl⟩ | ⟨-, cancelled, -⟩ | ⟨expired, -, rfl, -⟩
  · simp [signalled]
  · contradiction
  · simp [expired]

end Vigil

namespace World

/-- At a step of its own, the actor's wait has found that its deadline had come. Until then nobody had
signalled its node, and since then the actor has begun nothing else. -/
def Expires (s : SyncId) (start : World) (a : ActorId) (deadline : Option Moment) (events : List Event) : Prop :=
  ∃ xs ys v t, events = xs ++ .step a :: ys ∧
    let w := start.after xs
    deadline = some t ∧ t ≤ w.now ∧ (w.actor a).position = some (.dozing v) ∧
      ((w.queue s).node v.node).status = .condition ∧ (Vigil.since s start a xs).partings = [] ∧
      (((w.step a).1.queue s).node v.node).status ≠ .condition ∧ (w.step a).1.KeepsOn a ys

/-- In an unbroken run with honest hooks, a wait gives up only when its deadline has come with no signal
before, and tells exactly how much of its timeout is left. -/
theorem time_accounted {s : SyncId} {actors tokens : Nat} {syncs : List Synchronizer}
    {conditions : List SyncId} {x : Synchronizer} (hx : syncs[s]? = some x) (empty : x.queue = .empty)
    {events : List Event}
    (honest : ∃ b, Honest s b (World.create actors tokens syncs conditions) events)
    (unbroken : Obeys (fun w e => w.unbroken e) (World.create actors tokens syncs conditions) events)
    {a : ActorId} {c : ConditionId} {style : WaitStyle} :
    let start := World.create actors tokens syncs conditions
    let w := start.after events
    let d := Vigil.since s start a events
    let deadline := (style.patience d.began).deadline
    d.task = some (.wait s c style) →
      d.began ≤ w.now ∧
      (.expired ∈ d.partings → Expires s start a deadline events) ∧
      (∀ token timeout left, style = .timeLeft token timeout → (w.step a).2 = some (.timeLeft left) →
        (∀ r, left = some r ↔
          (d.partings ≠ [.expired] ∧ w.now - d.began < timeout) ∧ r = timeout - (w.now - d.began)) ∧
        (∀ r, left = some r → 0 < r ∧ r ≤ timeout) ∧
        (left = none ↔ d.partings = [.expired] ∨ timeout ≤ w.now - d.began) ∧
        (d.partings = [.expired] → timeout ≤ w.now - d.began)) ∧
      (∀ token limit b, style = .inTime token limit → (w.step a).2 = some (.truth b) →
        (b = false ↔ d.partings = [.expired])) ∧
      (deadline = none → .expired ∉ d.partings ∧ (w.step a).2 ≠ some (.truth false) ∧
        (w.now.Representable → (w.step a).2 ≠ some (.timeLeft none))) := by
  intro start w d deadline task
  obtain ⟨b, honest⟩ := honest
  have idle : ∀ a p, (start.actor a).position ≠ some p := position_create actors tokens syncs conditions
  have fresh : ({} : Vigil).Attested s a start :=
    ⟨.create, fun p c style hp => absurd hp (idle a p)⟩
  have attested : ∀ xs ys, events = xs ++ ys →
      (Vigil.since s start a xs).Attested s a (start.after xs) ∧ (start.after xs).Seated s := by
    rintro xs ys rfl
    exact fresh.after (.create hx empty) (fun a p hp => absurd hp (idle a p)) honest.of_append
      unbroken.of_append
  obtain ⟨now, seated⟩ := attested events [] (List.append_nil _).symm
  have expires : .expired ∈ d.partings → Expires s start a deadline events := by
    intro expired
    obtain ⟨xs, e, ys, eq, left, task', began, keepsOn⟩ := Vigil.exists_departure expired
    obtain ⟨rfl, v, t, hp, overdue, le, waits, gone⟩ := departure_expired left
    have attends := (attested xs _ eq).1.fits _ c style hp (task'.trans task)
    rw [attends.terms, began] at overdue
    refine ⟨xs, ys, v, t, eq, overdue, le, hp, waits, ?_, gone, keepsOn⟩
    exact (attends.astir.resolve_right fun ⟨_, _, _, joined⟩ => joined waits).1
  have timeLeft : ∀ token timeout left, style = .timeLeft token timeout →
      (w.step a).2 = some (.timeLeft left) → d.Tells a w.now (.timeLeft token timeout) (.timeLeft left) := by
    rintro token timeout left rfl ends
    exact now.tells seated ends task (by simp) (by simp)
  have inTime : ∀ token limit b, style = .inTime token limit → (w.step a).2 = some (.truth b) →
      d.Tells a w.now (.inTime token limit) (.truth b) := by
    rintro token timeout left rfl ends
    exact now.tells seated ends task (by simp) (by simp)
  have le : d.began ≤ w.now := Vigil.began_le start a (Nat.le_refl _) events
  refine ⟨le, expires,
    fun token timeout left eq ends => (timeLeft token timeout left eq ends).timeLeft,
    fun token limit b eq ends => (inTime token limit b eq ends).inTime, fun none => ?_⟩
  have unexpired : .expired ∉ d.partings := fun expired => by
    obtain ⟨_, _, _, t, _, some, _⟩ := expires expired
    simp [none] at some
  refine ⟨unexpired, fun ends => ?_, fun representable ends => ?_⟩
  · have tells : d.Tells a w.now style (.truth false) := now.tells seated ends task (by simp) (by simp)
    cases style with
    | inTime => exact unexpired (by simp [tells.inTime.1 rfl])
    | _ => exact tells.untold (by simp [WaitStyle.told])
  · have tells : d.Tells a w.now style (.timeLeft Option.none) := now.tells seated ends task (by simp) (by simp)
    cases style with
    | timeLeft token timeout =>
      rcases tells.timeLeft.2.2.1.1 rfl with expired | spent
      · exact unexpired (by simp [expired])
      · have near : d.began + timeout ≤ w.now := Nat.add_le_of_le_sub' le spent
        exact absurd none (by simp [deadline, WaitStyle.patience, Moment.after, representable.earlier near])
    | _ => exact tells.untold (by simp [WaitStyle.told])

/-- One wait lapses. Another is signalled in time and gets its lock back within its timeout. The deadline of a
third is too far to come. -/
theorem time_accounted_lapsed :
    let start := World.create 2 0 [{ policy := .mutex, state := 0 }] [0]
    let waits (style : WaitStyle) : List Event :=
      .begin 0 (.acquire 0 .exclusive 1 .plain) :: List.replicate 5 (.step 0) ++
        .begin 0 (.wait 0 0 style) :: List.replicate 11 (.step 0)
    let signals : List Event :=
      .begin 1 (.acquire 0 .exclusive 1 .plain) :: List.replicate 5 (.step 1) ++
        .begin 1 (.errand 0 0 .signal) :: List.replicate 5 (.step 1) ++
        .begin 1 (.release 0 .exclusive 1) :: List.replicate 5 (.step 1)
    let returns : List Event := .resume 0 :: List.replicate 7 (.step 0)
    let lapsed := waits (.inTime none (.timeout 2000)) ++ .elapse 2000 :: returns
    let signalled := waits (.timeLeft none 1000000) ++ .elapse 400 :: (signals ++ returns)
    let endless := waits (.timeLeft none Span.longest) ++ .elapse 400 :: (signals ++ returns)
    Expires 0 start 0 (some (Moment.epoch + 2000)) lapsed ∧
    (∃ r, ((start.after signalled).step 0).2 = some (.timeLeft (some r)) ∧
      r = 1000000 - ((start.after signalled).now - Moment.epoch)) ∧
    ((start.after endless).step 0).2 ≠ some (.timeLeft none) := by
  intro start waits signals returns lapsed signalled endless
  have honest : ∀ events, Obeys (Proper 0) start events → ∃ b, Honest 0 b start events := fun events proper =>
    ⟨_, (Locking.create rfl (Or.inl rfl) rfl rfl rfl).honest proper⟩
  refine ⟨?_, ?_, ?_⟩
  · have task : (Vigil.since 0 start 0 lapsed).task = some (.wait 0 0 (.inTime none (.timeout 2000))) := by
      decide +kernel
    obtain ⟨-, expires, -, inTime, -⟩ :=
      time_accounted rfl rfl (honest lapsed (by decide +kernel)) (by decide +kernel) task
    have expired := (inTime none (.timeout 2000) false rfl (by decide +kernel)).1 rfl
    have began : (Vigil.since 0 start 0 lapsed).began = .epoch := by decide +kernel
    have expires := expires (by simp [expired])
    rw [began] at expires
    exact expires
  · have task : (Vigil.since 0 start 0 signalled).task = some (.wait 0 0 (.timeLeft none 1000000)) := by
      decide +kernel
    obtain ⟨-, -, timeLeft, -⟩ :=
      time_accounted rfl rfl (honest signalled (by decide +kernel)) (by decide +kernel) task
    have ends : ((start.after signalled).step 0).2 = some (.timeLeft (some 999600)) := by decide +kernel
    have began : (Vigil.since 0 start 0 signalled).began = .epoch := by decide +kernel
    have left := (((timeLeft none 1000000 (some 999600) rfl ends).1 999600).1 rfl).2
    rw [began] at left
    exact ⟨_, ends, left⟩
  · have task : (Vigil.since 0 start 0 endless).task = some (.wait 0 0 (.timeLeft none Span.longest)) := by
      decide +kernel
    obtain ⟨-, -, -, -, far⟩ :=
      time_accounted rfl rfl (honest endless (by decide +kernel)) (by decide +kernel) task
    exact (far (Moment.after_longest _)).2.2 (by decide +kernel)

end World

end Turnstile
