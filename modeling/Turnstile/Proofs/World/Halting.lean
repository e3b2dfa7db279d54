import Mathlib.Logic.Function.Iterate
import Turnstile.Proofs.World.Drain
import Turnstile.Proofs.World.Laps

/-! Nobody runs for ever. Whoever is told to do something or goes on comes to a stop or to the end within a
number of steps that depends neither on the others nor on the queues nor on what has happened before. -/
namespace Turnstile

open Actor (freshLooks looksAfterSpin)

/-- With so many looks at the clock in hand and so many rounds ahead, the actor will not spend them all
while its deadline is far. -/
def Position.Ample (now : Moment) (looks rounds : Nat) : Position → Prop
  | .start _ | .queueing _ | .call (.attempt _) _ | .call (.wait _) _ | .call (.letGo ..) _ => 6 ≤ looks
  | p => p.patience.deadline ≠ none → p.patience.isNear now = false → rounds < looks

theorem Proceeds.ample {m n looks looks' : Nat} {now : Moment} {p p' : Position} (h : Proceeds m n p p')
    (ample : p.Ample now looks m) (few : p'.patience.isNear now = false → n ≤ 4)
    (keeps : ∀ k ≤ freshLooks, k ≤ (if p.readsClock then looks - 1 else looks) → k ≤ looks') :
    p'.Ample now looks' n := by
  have six : 6 ≤ freshLooks := by decide
  -- Away from the clock no look is spent, and a look at it takes up a round.
  have unread : p'.patience.isNear now = false → p.readsClock = false → n ≤ m → m < looks → n < looks' := by
    intro far clock le less
    have four := few far
    exact keeps (n + 1) (by omega) (by rw [clock]; exact Nat.lt_of_le_of_lt le less)
  have read : p'.patience.isNear now = false → n < m → m < looks → n < looks' := by
    intro far fewer less
    have four := few far
    exact keeps (n + 1) (by omega) (by split <;> omega)
  have begun : p'.patience.isNear now = false → 6 ≤ looks → n < looks' := by
    intro far enough
    have four := few far
    exact keeps (n + 1) (by omega) (by split <;> omega)
  cases h with
  | @opens op site apart =>
    cases site with
    | turn q => exact absurd rfl (apart q)
    | attempt | wait | letGo => exact keeps 6 six ample
    | _ => exact fun timed => absurd rfl timed
  | @calls site stage stage' le nearer =>
    cases site with
    | attempt | wait | letGo => exact keeps 6 six ample
    | turn q => exact fun timed far => unread far rfl le (ample timed far)
    | _ => exact fun timed => absurd rfl timed
  | queues | enters => exact keeps 6 six ample
  | joins | letsGo => exact fun _ far => begun far ample
  | attempts le | awaits le | lingers le | rouses le | dozes le | awakes le =>
    exact fun timed far => unread far rfl le (ample timed far)
  | again lt | parks lt | sleeps lt => exact fun timed far => read far lt (ample timed far)
  | concludes | reclaims => exact fun timed => absurd rfl timed

namespace World

variable {w : World} {a : ActorId} {p p' : Position} {st : Standing}

/-- The actor is done, or it has stopped: it is parked, it was made to pause, or its deadline is so near
that it does nothing but look at the clock. -/
def Halts (w : World) (a : ActorId) : Prop :=
  match (w.actor a).activity with
  | .idle | .busy (.parked _) _ | .busy .paused _ => True
  | .busy .spinning p => p.patience.isNear w.now = true
  | .busy .running _ | .busy .runnable _ => False

def stroke (a : ActorId) (w : World) : World :=
  if (w.actor a).isRunning then (w.step a).1 else w.resume a

/-- How many strokes the actor is away at most from where it halts. Between two stops for spinning it takes a
step that brings it nearer. -/
def strokesLeft (w : World) (a : ActorId) : Nat :=
  match (w.actor a).activity with
  | .idle => 0
  | .busy st p => 3 * p.burden (w.tries a p) + (if (w.actor a).looks = 0 then 2 else 0) +
      if st = .running then 1 else 2

/-- What the bounds rest on, whatever happens: links back stay among the nodes, looks are limited, and they
are renewed where an actor stops. -/
structure Grounded (w : World) (a : ActorId) : Prop where
  rooted : ∀ s, (w.queue s).Rooted
  capped : (w.actor a).looks ≤ looksAfterSpin
  fresh : (w.actor a).Fresh

theorem Grounded.happen (h : w.Grounded a) (e : Event) : (w.happen e).Grounded a := by
  refine ⟨fun s => ((w.queues_happen e).2 s).rooted (h.rooted s), ?_, h.fresh.happen e⟩
  have fares := w.fares a e
  generalize (w.happen e).actor a = y at fares
  cases fares with
  | rests _ looks | resumes _ _ looks => exact looks ▸ h.capped
  | begins _ _ looks =>
    have most : freshLooks ≤ looksAfterSpin := by decide
    omega
  | steps running _ looks =>
    have inTable : a < w.actors.size := lt_of_position (by simp [Actor.position, running])
    exact looks ▸ capped_stride inTable h.capped

theorem Grounded.after (h : w.Grounded a) (events : List Event) : (w.after events).Grounded a := by
  induction events generalizing w with
  | nil => exact h
  | cons e rest ih => exact ih (h.happen e)

theorem Grounded.create {actors tokens : Nat} {syncs : List Synchronizer} {conditions : List SyncId}
    (empty : ∀ x ∈ syncs, x.queue = .empty) :
    (World.create actors tokens syncs conditions).Grounded a := by
  refine ⟨fun s => ?_, by rw [actor_create]; decide, by simp [actor_create, Actor.Fresh]⟩
  cases hx : syncs[s]? with
  | none =>
    have outside : (World.create actors tokens syncs conditions).queue s = .empty := by
      simp [World.queue, World.sync, World.create, Table.ofList, Table.get, hx]
      rfl
    exact outside ▸ WaitQueue.rooted_empty
  | some x =>
    rw [World.queue, sync_create hx, empty x (List.mem_of_getElem? hx)]
    exact WaitQueue.rooted_empty

/-- Whoever goes on has no more rounds ahead of it than where it stopped. -/
theorem tries_resume (busy : (w.actor a).activity = .busy st p) :
    (w.resume a).tries a p ≤ w.tries a p := by
  obtain ⟨tokens, now, -⟩ := w.resume_spec a
  obtain ⟨-, looks, permit⟩ := resume_busy busy
  refine tries_mono ?_ tokens fun s => ?_
  · rw [slack, slack, looks, now]
    exact Nat.add_le_add_right permit _
  · rw [queue, sync, (w.solely_resume a).syncs]
    rfl

/-- Far from its deadline new looks at the clock do not keep an actor from parking. -/
theorem tries_setLooks (calm : p.patience.isNear w.now = false) (n : Nat) :
    (w.setLooks a n).tries a p ≤ w.tries a p := by
  refine tries_mono (Nat.le_of_eq ?_) rfl fun _ => rfl
  have now : (w.setLooks a n).now = w.now := rfl
  rw [slack, slack, permit_setLooks, now, if_neg (by simp [calm]), if_neg (by simp [calm])]

/-- A step that does not lead on is the actor's last before it halts, unless it stops for spinning far from
its deadline. -/
theorem halts_or_spins (running : (w.actor a).activity = .busy .running p)
    (last : ∀ p', (w.stride a p).2 ≠ .goes p') : (w.step a).1.Halts a ∨
      (p.readsClock = true ∧ (w.actor a).looks = 0 ∧ p.patience.isNear w.now = false ∧
        w.stride a p = (w.setLooks a looksAfterSpin, .stops .spinning p)) := by
  have inTable : a < w.actors.size := lt_of_position (by simp [Actor.position, running])
  have activity := activity_step running
  have now := now_step running
  rcases w.stride_course a p with ⟨clock, spent, eq⟩ | ⟨-, course⟩
  · cases near : p.patience.isNear w.now with
    | false => exact Or.inr ⟨clock, spent, rfl, eq⟩
    | true =>
      left
      rw [Halts, activity, eq, now]
      exact near
  · left
    cases next : (w.stride a p).2 with
    | goes p' => exact absurd next (last p')
    | stops st p' =>
      rw [Halts, activity, next]
      rcases stops_cases course (by simpa using inTable) next with rfl | ⟨t, rfl, -⟩
      · trivial
      · trivial
    | ends v =>
      rw [Halts, activity, next]
      trivial

theorem strokesLeft_of_busy (busy : (w.actor a).activity = .busy st p) : w.strokesLeft a =
    3 * p.burden (w.tries a p) + (if (w.actor a).looks = 0 then 2 else 0) +
      if st = .running then 1 else 2 := by
  rw [strokesLeft, busy]

theorem step_nears (h : w.Grounded a) (running : (w.actor a).activity = .busy .running p) :
    (w.step a).1.Halts a ∨ (w.step a).1.strokesLeft a < w.strokesLeft a := by
  have inTable : a < w.actors.size := lt_of_position (by simp [Actor.position, running])
  have activity := activity_step running
  by_cases on : ∃ p', (w.stride a p).2 = .goes p'
  · obtain ⟨p', next⟩ := on
    have nearer := burden_step running h.rooted h.capped next
    rw [next] at activity
    right
    rw [strokesLeft_of_busy running, strokesLeft_of_busy activity, if_pos rfl]
    split <;> split <;> omega
  rcases halts_or_spins running fun p' next => on ⟨p', next⟩ with halts | ⟨-, spent, calm, eq⟩
  · exact Or.inl halts
  · have fresh : ((w.step a).1.actor a).looks ≠ 0 := by
      rw [step_eq running, eq, looks_setActivity, setLooks, actor_modifyActor, if_pos ⟨rfl, inTable⟩]
      exact (by decide : looksAfterSpin ≠ 0)
    have same : p.burden ((w.step a).1.tries a p) ≤ p.burden (w.tries a p) := by
      rw [tries_step running, eq]
      exact p.burden_mono (tries_setLooks calm looksAfterSpin)
    rw [eq] at activity
    right
    rw [strokesLeft_of_busy running, strokesLeft_of_busy activity, if_neg fresh, if_pos spent, if_pos rfl,
      if_neg (by simp)]
    omega

theorem resume_nears (busy : (w.actor a).activity = .busy st p) (stopped : st ≠ .running) :
    (w.resume a).strokesLeft a < w.strokesLeft a := by
  obtain ⟨goes, looks, -⟩ := resume_busy busy
  have same := p.burden_mono (tries_resume busy)
  rw [strokesLeft_of_busy busy, strokesLeft_of_busy goes, looks, if_pos rfl, if_neg stopped]
  omega

/-- A stroke brings an actor that does not halt yet nearer to that. -/
theorem stroke_nears (h : w.Grounded a) (going : ¬w.Halts a) : (stroke a w).Grounded a ∧
    ((stroke a w).Halts a ∨ (stroke a w).strokesLeft a < w.strokesLeft a) := by
  unfold stroke
  cases activity : (w.actor a).activity with
  | idle => simp [Halts, activity] at going
  | busy st p =>
    by_cases running : st = .running
    · subst running
      rw [if_pos (by simp [Actor.isRunning, activity])]
      exact ⟨h.happen (.step a), step_nears h activity⟩
    · have stopped : (w.actor a).isRunning = false := by
        cases st <;> simp_all [Actor.isRunning]
      rw [if_neg (by simp [stopped])]
      exact ⟨h.happen (.resume a), Or.inr (resume_nears activity running)⟩

theorem strokesLeft_pos (going : ¬w.Halts a) : 0 < w.strokesLeft a := by
  cases activity : (w.actor a).activity with
  | idle => simp [Halts, activity] at going
  | busy st p =>
    rw [strokesLeft_of_busy activity]
    split <;> split <;> omega

theorem strokesLeft_le (h : w.Grounded a) : w.strokesLeft a ≤ 1744 := by
  cases activity : (w.actor a).activity with
  | idle => simp [strokesLeft, activity]
  | busy st p =>
    have most := p.burden_le (tries_le h.capped p)
    rw [strokesLeft_of_busy activity]
    split <;> split <;> omega

theorem halts_within {n : Nat} (h : w.Grounded a) (few : w.strokesLeft a ≤ n) :
    ∃ k ≤ n, ((stroke a)^[k] w).Halts a := by
  induction n generalizing w with
  | zero =>
    refine ⟨0, Nat.le_refl _, Classical.not_not.1 fun going => ?_⟩
    have more : 0 < w.strokesLeft a := strokesLeft_pos going
    omega
  | succ n ih =>
    by_cases halts : w.Halts a
    · exact ⟨0, Nat.zero_le _, halts⟩
    obtain ⟨grounded, there | nearer⟩ := stroke_nears h halts
    · exact ⟨1, Nat.succ_le_succ (Nat.zero_le n), there⟩
    · obtain ⟨k, le, there⟩ := ih grounded (by omega)
      exact ⟨k + 1, Nat.succ_le_succ le, there⟩

/-! Whoever has looks enough at the clock does not stop for want of them. -/

theorem ample_of_enough (enough : 6 ≤ (w.actor a).looks) : p.Ample w.now (w.actor a).looks (w.tries a p) := by
  have few : p.patience.isNear w.now = false → w.tries a p < (w.actor a).looks := fun far =>
    Nat.lt_of_le_of_lt (tries_le_of_calm far) (by omega)
  cases p with
  | start | queueing => exact enough
  | call site stage =>
    cases site with
    | attempt | wait | letGo => exact enough
    | _ => exact fun _ => few
  | _ => exact fun _ => few

theorem spares_of_enough {op : Operation} {looks : Nat} (of : p.Of op) (enough : 4 ≤ looks) :
    w.Spares looks p := by
  have claim : ∀ c : Claim, c.Of op → c.Spares looks := by
    rintro c of ⟨v, purpose⟩
    rw [Claim.Of, purpose] at of
    exact ⟨of.2 ▸ rfl, by omega⟩
  have three : 3 ≤ looks := Nat.le_of_succ_le enough
  cases p with
  | start op =>
    cases op with
    | wait => exact three
    | _ => trivial
  | call site stage =>
    cases site with
    | attempt c => exact claim c of.1
    | turn q => exact claim q.claim of
    | wait | letGo => exact three
    | _ => trivial
  | queueing c => exact claim c of.1
  | turn q | lingering q | roused q => exact claim q.claim of
  | waiting v | awoken v => exact Or.inl three
  | dozing v => exact Or.inl enough
  | reckoning => exact Nat.le_trans (by decide) three

/-- The actor will not spend all its looks at the clock far from its deadline, nor before it tells how much
of its timeout is left. -/
structure Supplied (w : World) (a : ActorId) (p : Position) : Prop where
  ample : p.Ample w.now (w.actor a).looks (w.tries a p)
  thrifty : w.Thrifty (w.actor a)

theorem Grounded.supplied {op : Operation} (h : w.Grounded a)
    (running : (w.actor a).activity = .busy .running p) (of : p.Of op) (enough : 6 ≤ (w.actor a).looks) :
    w.Supplied a p := by
  refine ⟨ample_of_enough enough, fun p' busy => ?_, fun st p' busy stopped => ?_, h.fresh⟩
  · obtain ⟨-, rfl⟩ := Activity.busy.inj (running.symm.trans busy)
    exact spares_of_enough of (by omega)
  · obtain ⟨rfl, -⟩ := Activity.busy.inj (running.symm.trans busy)
    exact absurd rfl stopped

theorem Supplied.step (h : w.Supplied a p) (grounded : w.Grounded a)
    (running : (w.actor a).activity = .busy .running p) (next : (w.stride a p).2 = .goes p') :
    (w.step a).1.Supplied a p' := by
  have inTable : a < w.actors.size := lt_of_position (by simp [Actor.position, running])
  obtain ⟨-, eq, -⟩ := course_goes next
  have leaves : Leaves a (w.looked a p) _ := Leaves.advance (w.looked a p) p
  rw [← eq] at leaves
  have looks : ((w.step a).1.actor a).looks = ((w.stride a p).1.actor a).looks := by
    rw [step_eq running, looks_setActivity]
  have now := now_step running
  constructor
  case thrifty => exact h.thrifty.step running (activity_step running) looks (grounded.happen (.step a)).fresh
  case ample =>
    rw [now, tries_step running]
    refine (proceeds inTable grounded.rooted next).ample h.ample (fun far => ?_) fun n hn enough => ?_
    · rw [← tries_step running]
      exact tries_le_of_calm (now.symm ▸ far)
    · rw [looks]
      exact leaves.looks n hn (by rwa [looks_looked inTable])

/-- With looks enough the actor does not stop for spinning far from its deadline. -/
theorem Supplied.halts (h : w.Supplied a p) (running : (w.actor a).activity = .busy .running p)
    (last : ∀ p', (w.stride a p).2 ≠ .goes p') : (w.step a).1.Halts a := by
  refine (halts_or_spins running last).resolve_right ?_
  rintro ⟨clock, spent, far, -⟩
  have ample := h.ample
  have spares := h.thrifty.runs p running
  rw [spent] at ample spares
  cases p with
  | queueing c => exact absurd ample (by decide : ¬6 ≤ 0)
  | lingering q | dozing v =>
    have timed := Option.isSome_iff_ne_none.1 clock
    exact absurd (ample timed far) (Nat.not_lt_zero _)
  | reckoning => exact absurd spares (by decide : ¬1 ≤ 0)
  | _ => simp [Position.readsClock] at clock

theorem runFor_of_last {bound : Nat} (running : (w.actor a).activity = .busy .running p)
    (last : ∀ p', (w.stride a p).2 ≠ .goes p') : (runFor (bound + 1) w a).1 = (w.step a).1 ∧
      (runFor (bound + 1) w a).2 ≠ .standing .running := by
  have inTable : a < w.actors.size := lt_of_position (by simp [Actor.position, running])
  have ended : (runFor 1 w a).2 ≠ .standing .running := by
    cases next : (w.stride a p).2 with
    | goes p' => exact absurd next (last p')
    | ends v => simp [runFor_of_ends running next]
    | stops st p' =>
      have stopped : st ≠ .running := by
        rcases w.stride_course a p with ⟨-, -, eq⟩ | ⟨-, course⟩
        · obtain ⟨rfl, -⟩ := Next.stops.inj ((congrArg Prod.snd eq).symm.trans next)
          simp
        · rcases stops_cases course (by simpa using inTable) next with rfl | ⟨t, rfl, -⟩ <;> simp
      simpa [runFor_of_stops running next stopped] using stopped
  have one : (runFor 1 w a).1 = (w.step a).1 := by
    rw [runFor]
    rcases w.step a with ⟨w', _ | v⟩
    · dsimp only
      rcases (w'.actor a).activity with _ | ⟨_ | _ | _ | _ | _, p⟩ <;> rfl
    · rfl
  rw [runFor_of_le (Nat.succ_le_succ (Nat.zero_le bound)) ended]
  exact ⟨one, ended⟩

/-- A run comes to its end before it is cut off, and there the actor halts if it had looks enough. -/
theorem Grounded.runFor {bound : Nat} (h : w.Grounded a)
    (running : (w.actor a).activity = .busy .running p) (few : p.burden (w.tries a p) < bound) :
    (runFor bound w a).2 ≠ .standing .running ∧
      (w.Supplied a p → (World.runFor bound w a).1.Halts a) := by
  induction bound generalizing w p with
  | zero => exact absurd few (Nat.not_lt_zero _)
  | succ n ih =>
    by_cases on : ∃ p', (w.stride a p).2 = .goes p'
    · obtain ⟨p', next⟩ := on
      have nearer := burden_step running h.rooted h.capped next
      have running' : ((w.step a).1.actor a).activity = .busy .running p' := by
        rw [activity_step running, next]
        rfl
      rw [runFor_of_goes running next]
      have less := Nat.lt_of_lt_of_le nearer (Nat.le_of_lt_succ few)
      obtain ⟨ended, halts⟩ := ih (h.happen (.step a)) running' less
      exact ⟨ended, fun supplied => halts (supplied.step h running next)⟩
    · have last : ∀ p', (w.stride a p).2 ≠ .goes p' := fun p' next => on ⟨p', next⟩
      obtain ⟨eq, ended⟩ := @runFor_of_last w a p n running last
      exact ⟨ended, fun supplied => eq ▸ supplied.halts running last⟩

theorem Grounded.run (h : w.Grounded a) (running : (w.actor a).activity = .busy .running p) :
    (w.run a).2.stop ≠ .standing .running ∧ (w.Supplied a p → (w.run a).1.Halts a) := by
  have most := p.burden_le (tries_le h.capped p)
  exact h.runFor running (Nat.lt_of_le_of_lt most (by decide : 580 < longestRun))

theorem run_of_idle (idle : (w.actor a).activity = .idle) : w.run a = (w, ⟨a, .finished .done⟩) := by
  have still : w.step a = (w, none) := step_of_not_running fun p running => by simp [idle] at running
  have first : runFor longestRun w a = (w, .finished .done) := by
    change runFor (4095 + 1) w a = _
    rw [World.runFor, still]
    dsimp only
    rw [idle]
  rw [World.run, first]

/-- Nobody looks at the clock more than twice before it does anything. -/
theorem firstLooks_le (op : Operation) : op.firstLooks ≤ 2 := by
  unfold Operation.firstLooks
  split <;> omega

theorem begin_idle (op : Operation) (idle : (w.actor a).activity = .idle) :
    ((w.begin a op).actor a).activity = .idle ∨
      (((w.begin a op).actor a).activity = .busy .running (.start op) ∧
        6 ≤ ((w.begin a op).actor a).looks) := by
  have fares := w.fares_begin a a op
  generalize (w.begin a op).actor a = y at fares ⊢
  cases fares with
  | rests eased =>
    rcases eased.activity with same | ⟨t, p, parked, -⟩
    · exact Or.inl (same.trans idle)
    · simp [idle] at parked
  | begins _ busy looks =>
    have few := firstLooks_le op
    have many : freshLooks = 64 := rfl
    exact Or.inr ⟨busy, by omega⟩

/-- An actor that is told to do something runs until it halts. -/
theorem Grounded.perform (h : w.Grounded a) (op : Operation) (idle : (w.actor a).activity = .idle) :
    (w.perform a op).2.stop ≠ .standing .running ∧ (w.perform a op).1.Halts a := by
  have eq : w.perform a op = (w.begin a op).run a := by
    rw [World.perform, begin, idle]
  have grounded : (w.begin a op).Grounded a := h.happen (.begin a op)
  rw [eq]
  rcases begin_idle op idle with idle' | ⟨running, enough⟩
  · rw [run_of_idle idle']
    exact ⟨by simp, by simp [Halts, idle']⟩
  · obtain ⟨ended, halts⟩ := grounded.run running
    have of : (Position.start op).Of op := rfl
    exact ⟨ended, halts (grounded.supplied running of enough)⟩

theorem goOn_of_idle (idle : (w.actor a).activity = .idle) : w.goOn a = (w, ⟨a, .finished .done⟩) := by
  rw [goOn, idle]
  exact run_of_idle idle

theorem Grounded.goOn (h : w.Grounded a) : (w.goOn a).2.stop ≠ .standing .running := by
  cases activity : (w.actor a).activity with
  | idle => simp [goOn_of_idle activity]
  | busy st p =>
    obtain ⟨running, -⟩ := resume_busy activity
    have grounded : (w.resume a).Grounded a := h.happen (.resume a)
    rw [goOn_eq]
    exact (grounded.run running).1

theorem Grounded.halts_goOn {op : Operation} (h : w.Grounded a)
    (busy : (w.actor a).activity = .busy st p) (of : p.Of op) (enough : 6 ≤ (w.actor a).looks) :
    (w.goOn a).1.Halts a := by
  obtain ⟨running, looks, -⟩ := resume_busy busy
  have grounded : (w.resume a).Grounded a := h.happen (.resume a)
  rw [goOn_eq]
  exact (grounded.run running).2 (grounded.supplied running of (looks.symm ▸ enough))

/-- In every world that can be reached, as many strokes as are enough for all take an actor to where it halts,
and the schedule lets it run until then. -/
theorem halts_soon {actors tokens : Nat} {syncs : List Synchronizer} {conditions : List SyncId}
    (empty : ∀ x ∈ syncs, x.queue = .empty) (events : List Event) (a : ActorId) :
    let w := (World.create actors tokens syncs conditions).after events
    (∃ k ≤ 1744, ((stroke a)^[k] w).Halts a) ∧
      (∀ op, (w.actor a).activity = .idle →
        (w.perform a op).2.stop ≠ .standing .running ∧ (w.perform a op).1.Halts a) ∧
      (w.goOn a).2.stop ≠ .standing .running ∧
      (((w.actor a).standing ≠ some .running ∧ (w.actor a).standing ≠ some .paused) ∨
        6 ≤ (w.actor a).looks → (w.goOn a).1.Halts a) := by
  intro w
  have grounded : w.Grounded a := (Grounded.create empty).after events
  refine ⟨halts_within grounded (strokesLeft_le grounded), fun op idle => grounded.perform op idle,
    grounded.goOn, ?_⟩
  cases activity : (w.actor a).activity with
  | idle =>
    rw [goOn_of_idle activity]
    exact fun _ => by simp [Halts, activity]
  | busy st p =>
    have told : ∀ b p, ((World.create actors tokens syncs conditions).actor b).position = some p →
        ∃ op, p.Of op ∧ True := fun b p hp => absurd hp (position_create _ _ _ _ b p)
    obtain ⟨op, of, -⟩ : ∃ op, p.Of op ∧ True :=
      tasks_after told (fun _ _ _ => trivial) a p (Actor.position_of_busy activity)
    refine fun enough => grounded.halts_goOn activity of ?_
    rw [Actor.standing, activity] at enough
    rcases enough with ⟨running, paused⟩ | enough
    · have fresh := grounded.fresh st p activity
      have many : freshLooks = 64 := rfl
      obtain ⟨looks, -⟩ :=
        fresh.resolve_left (by simpa using running) |>.resolve_left (by simpa using paused)
      omega
    · exact enough

/-- Someone waits for a lock and is woken in vain. -/
theorem halts_soon_woken :
    let w := (World.create 2 0 [{ policy := .mutex, state := 0 }] []).after
      (.begin 0 (.acquire 0 .exclusive 1 .plain) :: List.replicate 5 (.step 0) ++
        .begin 1 (.acquire 0 .exclusive 1 .plain) :: List.replicate 18 (.step 1) ++ [.wake 1])
    (w.actor 1).standing = some .runnable ∧ (∃ k ≤ 1744, ((stroke 1)^[k] w).Halts 1) ∧
      (w.goOn 1).2.stop ≠ .standing .running ∧ (w.goOn 1).1.Halts 1 := by
  have halts := @halts_soon 2 0 [{ policy := .mutex, state := 0 }] [] (by simp)
  -- Nothing but the standing is read off the world, so the rest need not be worked out.
  generalize here : World.after _ _ = w
  have standing : (w.actor 1).standing = some .runnable := by
    rw [← here]
    decide +kernel
  obtain ⟨soon, -, ended, there⟩ := here ▸ halts _ 1
  exact ⟨standing, soon, ended, there (Or.inl (by simp [standing]))⟩

end World

end Turnstile
