import Turnstile.Proofs.World.Diary

/-! Unbroken runs: whoever runs goes on until it stops, and nothing else happens before. An actor that
has got back what it waited for never stops again before it tells how much of its timeout is left. -/
namespace Turnstile

open Actor (freshLooks looksAfterSpin)

def Actor.isRunning (x : Actor) : Bool :=
  match x.activity with
  | .busy .running _ => true
  | _ => false

def Event.isStep (a : ActorId) : Event → Bool
  | .step b => b = a
  | _ => false

/-- If an actor runs, the event is its next step. -/
def World.unbroken (w : World) (e : Event) : Bool :=
  (List.range w.actors.size).all fun a => !(w.actor a).isRunning || e.isStep a

/-- A claim that ends a wait takes no look at the clock, and leaves one for the end. -/
def Claim.Spares (looks : Nat) (c : Claim) : Prop :=
  (∃ v, c.purpose = .afterWait v) → c.patience.deadline = none ∧ 1 ≤ looks

namespace World

variable {w : World} {e : Event} {a me : ActorId} {p : Position}

theorem step_of_unbroken (unbroken : w.unbroken e = true)
    (running : (w.actor a).activity = .busy .running p) : e = .step a := by
  have inTable : a < w.actors.size := lt_of_position (by simp [Actor.position, running])
  have here := List.all_eq_true.1 unbroken a (List.mem_range.2 inTable)
  simp only [Actor.isRunning, running, Bool.not_true, Bool.false_or] at here
  cases e with
  | step b => exact congrArg Event.step (by simpa [Event.isStep] using here)
  | _ => simp [Event.isStep] at here

/-- The signal has not come, nor a cancellation, nor the deadline. -/
structure Calm (w : World) (v : Waiting) : Prop where
  unmoved : (w.queue v.terms.sync).holds v.node = false
  early : ¬v.terms.patience.isOver w.now
  unflagged : w.flagged v.terms.patience.token = false

/-- Whoever goes on from the position will have a look at the clock left when it has got back what it waited
for. A calm wait stays in its loop until it spins. -/
def Spares (w : World) (looks : Nat) : Position → Prop
  | .start (.wait ..) | .call (.wait _) _ | .call (.letGo ..) _ => 3 ≤ looks
  | .call (.attempt c) _ | .queueing c => c.Spares looks
  | .turn q | .lingering q | .roused q | .call (.turn q) _ => q.claim.Spares looks
  | .waiting v => 3 ≤ looks ∨ w.Calm v
  | .dozing v => 4 ≤ looks ∨ (3 ≤ looks ∧ (w.queue v.terms.sync).holds v.node = false) ∨ w.Calm v
  | .awoken v => 3 ≤ looks ∨ (2 ≤ looks ∧ (w.queue v.terms.sync).holds v.node = false ∧
      ¬v.terms.patience.isOver w.now) ∨ w.Calm v
  | .reckoning .. => 1 ≤ looks
  | _ => True

/-- Whoever stops may find the world changed when it goes on. -/
def SparesNext (w : World) (looks : Nat) : Next → Prop
  | .goes p => w.Spares looks p
  | .stops _ p => (∀ start timeout timedOut, p ≠ .reckoning start timeout timedOut) ∧
      ∀ w : World, w.Spares looks p
  | .ends _ => True

/-- However the actor stands, it spares a look for the end. While it does not run, the world may
change. -/
structure Thrifty (w : World) (x : Actor) : Prop where
  runs : ∀ p, x.activity = .busy .running p → w.Spares x.looks p
  stands : ∀ st p, x.activity = .busy st p → st ≠ .running → w.SparesNext x.looks (.stops st p)
  fresh : x.Fresh

theorem Calm.congr {w' : World} {v : Waiting} (h : w.Calm v) (syncs : w'.syncs = w.syncs)
    (now : w'.now = w.now) (unflagged : w'.flagged v.terms.patience.token = false) : w'.Calm v := by
  refine ⟨?_, now ▸ h.early, unflagged⟩
  rw [queue, sync, syncs]
  exact h.unmoved

theorem Spares.congr {w' : World} {looks : Nat} (h : w.Spares looks p) (syncs : w'.syncs = w.syncs)
    (now : w'.now = w.now) (tokens : w'.tokens = w.tokens) : w'.Spares looks p := by
  have flagged : ∀ t, w'.flagged t = w.flagged t := fun t => by rw [World.flagged, tokens]; rfl
  have queue : ∀ t, w'.queue t = w.queue t := fun t => by rw [World.queue, sync, syncs]; rfl
  have calm : ∀ v, w.Calm v → w'.Calm v := fun v h => h.congr syncs now ((flagged _).trans h.unflagged)
  cases p with
  | waiting v => exact Or.imp_right (calm v) h
  | dozing v =>
    rw [Spares, queue]
    exact Or.imp_right (Or.imp_right (calm v)) h
  | awoken v =>
    rw [Spares, queue, now]
    exact Or.imp_right (Or.imp_right (calm v)) h
  | start op => cases op <;> exact h
  | call site stage => cases site <;> exact h
  | _ => exact h

theorem flagged_takeFlag {w' : World} {t : Option TokenId} (tokens : w'.tokens = (w.takeFlag t).1.tokens) :
    w'.flagged t = false := by
  rw [flagged, tokens]
  cases t with
  | none => rfl
  | some t =>
    change ((w.tokens.modify t (·.take.1)).get t).cancelled = false
    rw [Table.get_modify]
    split
    · rfl
    · rename_i outside
      rw [Table.get_of_size_le (Nat.le_of_not_lt fun h => outside ⟨rfl, h⟩)]
      rfl

theorem spares_call {site : Site} {stage stage' : Stage} {looks looks' : Nat}
    (h : w.Spares looks (.call site stage)) (keeps : ∀ n ≤ freshLooks, n ≤ looks → n ≤ looks')
    (w' : World) : w'.Spares looks' (.call site stage') := by
  cases site with
  | attempt c | turn q => exact fun final => ⟨(h final).1, keeps 1 (by decide) (h final).2⟩
  | wait t | letGo t n saved => exact keeps 3 (by decide) h
  | _ => trivial

section course

variable {r : World × Next} {looks looks' : Nat}

/-- Claims that end a wait take no look at the clock. -/
theorem spares_claim {c : Claim} {clock : Bool} (h : c.Spares looks)
    (timed : clock = c.patience.deadline.isSome ∨ clock = false)
    (keeps : ∀ n ≤ freshLooks, n ≤ (if clock then looks - 1 else looks) → n ≤ looks') :
    c.Spares looks' := by
  intro final
  obtain ⟨none, enough⟩ := h final
  refine ⟨none, keeps 1 (by decide) ?_⟩
  rcases timed with clock | clock <;> simpa [clock, none] using enough

theorem spares_called {site : Site} {stage : Stage} (course : Course w me (.call site stage) r)
    (h : w.Spares looks (.call site stage)) (keeps : ∀ n ≤ freshLooks, n ≤ looks → n ≤ looks') :
    r.1.SparesNext looks' r.2 := by
  cases course with
  | enter _ _ goes | leave _ _ goes =>
    rcases goes with rfl | rfl
    · exact spares_call h keeps _
    · exact ⟨by simp, spares_call h keeps⟩
  | ask => exact spares_call h keeps _
  | queue | linger => exact spares_claim h (Or.inr (rfl : false = false)) keeps
  | @conclude _ c swallowed v w' granted gets =>
    have spares : c.Spares looks := by
      rcases gets with ⟨rfl, -⟩ | ⟨q, rfl, rfl, -⟩ <;> exact h
    rcases c.outcome_cases swallowed with ⟨v, eq⟩ | ⟨v, start, timeout, purpose, -, -, eq⟩
    · exact eq ▸ trivial
    · exact eq ▸ keeps 1 (by decide) (spares ⟨v, purpose⟩).2
  | enterWait => exact keeps 3 (by decide) h
  | letGo => exact Or.inl (keeps 3 (by decide) h)
  | fail | refuse | grant => trivial

theorem spares_waiting {v : Waiting} (course : Course w me (.waiting v) r) (h : w.Spares looks (.waiting v))
    (keeps : ∀ n ≤ freshLooks, n ≤ looks → n ≤ looks') : r.1.SparesNext looks' r.2 := by
  cases course with
  | reclaim moved =>
    rcases h with enough | calm
    · exact fun _ => ⟨rfl, keeps 1 (by decide) (Nat.le_trans (by decide) enough)⟩
    · simp [calm.unmoved] at moved
  | doze unmoved =>
    rcases h with enough | calm
    · exact Or.inr (Or.inl ⟨keeps 3 (by decide) enough, unmoved⟩)
    · exact Or.inr (Or.inr calm)

theorem spares_dozing {v : Waiting} (course : Course w me (.dozing v) r) (h : w.Spares looks (.dozing v))
    (now : r.1.now = w.now) (keeps : ∀ n ≤ freshLooks, n + 1 ≤ looks → n ≤ looks')
    (fresh : ∀ t p', r.2 = .stops (.parked t) p' → freshLooks ≤ looks') : r.1.SparesNext looks' r.2 := by
  cases course with
  | timeOut tokens overdue moves =>
    rcases h with enough | ⟨enough, -⟩ | calm
    · exact fun _ => ⟨rfl, keeps 1 (by decide) (by omega)⟩
    · exact fun _ => ⟨rfl, keeps 1 (by decide) (by omega)⟩
    · exact absurd overdue calm.early
  | @sleep _ w' n tokens syncs early goes =>
    rcases goes with rfl | ⟨-, ⟨t, rfl⟩, -⟩
    · rcases h with enough | ⟨enough, unmoved⟩ | calm
      · exact Or.inl (keeps 3 (by decide) enough)
      · refine Or.inr (Or.inl ⟨keeps 2 (by decide) enough, ?_, now ▸ early⟩)
        change (w'.queue v.terms.sync).holds v.node = false
        rwa [World.queue, sync, syncs]
      · refine Or.inr (Or.inr (calm.congr syncs now ?_))
        rw [flagged, tokens]
        exact calm.unflagged
    · refine ⟨by simp, fun _ => Or.inl ?_⟩
      exact Nat.le_trans (by decide) (fresh t _ rfl)

theorem spares_awoken {v : Waiting} (course : Course w me (.awoken v) r) (h : w.Spares looks (.awoken v))
    (now : r.1.now = w.now) (keeps : ∀ n ≤ freshLooks, n ≤ looks → n ≤ looks') :
    r.1.SparesNext looks' r.2 := by
  cases course with
  | look unflagged tokens syncs =>
    have looked := flagged_takeFlag tokens
    rcases h with enough | ⟨enough, unmoved, early⟩ | calm
    · exact Or.inl (keeps 3 (by decide) enough)
    · exact Or.inr (Calm.congr ⟨unmoved, early, unflagged⟩ syncs now looked)
    · exact Or.inr (calm.congr syncs now looked)
  | cancel raised =>
    rcases h with enough | ⟨enough, -⟩ | calm
    · exact fun _ => ⟨rfl, keeps 1 (by decide) (Nat.le_trans (by decide) enough)⟩
    · exact fun _ => ⟨rfl, keeps 1 (by decide) (Nat.le_trans (by decide) enough)⟩
    · simp [calm.unflagged] at raised
  | putOff raised uninterruptible tokens syncs =>
    have looked := flagged_takeFlag tokens
    rcases h with enough | ⟨enough, unmoved, early⟩ | calm
    · exact Or.inl (keeps 3 (by decide) enough)
    · refine Or.inr ⟨?_, now ▸ early, looked⟩
      rwa [World.queue, sync, syncs]
    · simp [calm.unflagged] at raised

/-- Each step spares a look for the end. -/
theorem spares_course (course : Course w me p r) (h : w.Spares looks p) (now : r.1.now = w.now)
    (keeps : ∀ n ≤ freshLooks, n ≤ (if p.readsClock then looks - 1 else looks) → n ≤ looks')
    (fresh : ∀ t p', r.2 = .stops (.parked t) p' → freshLooks ≤ looks') :
    r.1.SparesNext looks' r.2 := by
  cases p with
  | start op =>
    cases course with
    | decline => trivial
    | «open» opens =>
      cases op with
      | acquire s mode arg style =>
        obtain rfl := Option.some.inj opens
        simp [SparesNext, Spares, Claim.Spares]
      | wait s c style =>
        obtain rfl := Option.some.inj opens
        exact keeps 3 (by decide) h
      | release | isHeld | errand =>
        obtain rfl := Option.some.inj opens
        trivial
      | _ => simp [Operation.site] at opens
  | call site stage => exact spares_called course h keeps
  | queueing c =>
    cases course with
    | expire => trivial
    | join => exact spares_claim h (Or.inl rfl) keeps
  | turn q =>
    cases course with
    | stray => trivial
    | call | await => exact spares_claim h (Or.inr rfl) keeps
  | lingering q =>
    have spares : q.claim.Spares looks' := spares_claim h (Or.inl rfl) keeps
    cases course with
    | giveUp => trivial
    | again => exact spares
    | park _ goes =>
      rcases goes with rfl | ⟨-, ⟨t, rfl⟩, -⟩
      · exact spares
      · exact ⟨by simp, fun _ => spares⟩
  | roused q =>
    cases course with
    | interrupt => trivial
    | retry | swallow => exact spares_claim h (Or.inr rfl) keeps
  | waiting v => exact spares_waiting course h keeps
  | dozing v =>
    refine spares_dozing course h now (fun n hn enough => keeps n hn ?_) fresh
    split <;> omega
  | awoken v => exact spares_awoken course h now keeps
  | reckoning =>
    cases course
    trivial

end course

theorem spares_spin (clock : p.readsClock = true) (h : w.Spares 0 p) (w' : World) :
    w'.SparesNext looksAfterSpin (.stops .spinning p) := by
  cases p with
  | queueing c | lingering q =>
    refine ⟨by simp, fun _ final => ?_⟩
    have enough := (h final).2
    omega
  | dozing v => exact ⟨by simp, fun _ => Or.inl (by decide)⟩
  | reckoning =>
    have enough : 1 ≤ 0 := h
    omega
  | _ => simp [Position.readsClock] at clock

theorem Thrifty.step {y : Actor} (h : w.Thrifty (w.actor a))
    (running : (w.actor a).activity = .busy .running p)
    (activity : y.activity = (w.stride a p).2.activity)
    (looks : y.looks = ((w.stride a p).1.actor a).looks) (fresh : y.Fresh) : (w.step a).1.Thrifty y := by
  have inTable : a < w.actors.size := lt_of_position (by simp [Actor.position, running])
  have spares := h.runs p running
  have next : (w.step a).1.SparesNext y.looks (w.stride a p).2 := by
    rcases w.stride_course a p with ⟨clock, spent, eq⟩ | ⟨eq, course⟩
    · have looks' : y.looks = looksAfterSpin := by
        rw [looks, eq, setLooks, actor_modifyActor, if_pos ⟨rfl, inTable⟩]
      rw [eq, looks']
      exact spares_spin clock (spent ▸ spares) _
    · have leaves : Leaves a (w.looked a p) _ := Leaves.advance (w.looked a p) p
      rw [← eq] at leaves
      have spared : (w.stride a p).1.SparesNext y.looks (w.stride a p).2 := by
        refine spares_course course (spares.congr (by simp) (by simp) (by simp)) leaves.now ?_ ?_
        · intro n hn enough
          rw [looks]
          exact leaves.looks n hn (by rwa [looks_looked inTable])
        · intro t p' parked
          rw [parked] at activity
          exact ((fresh _ p' activity).resolve_left (by simp) |>.resolve_left (by simp)).1
      rw [step_eq running]
      cases n : (w.stride a p).2 with
      | goes p' =>
        rw [n] at spared
        exact Spares.congr spared rfl rfl rfl
      | stops | ends =>
        rw [n] at spared
        exact spared
  generalize (w.stride a p).2 = n at activity next
  cases n with
  | goes p' =>
    refine ⟨fun p'' busy => ?_, fun st p'' busy other => ?_, fresh⟩
    · obtain ⟨-, rfl⟩ := Activity.busy.inj (activity.symm.trans busy)
      exact next
    · obtain ⟨rfl, -⟩ := Activity.busy.inj (activity.symm.trans busy)
      exact absurd rfl other
  | stops st p' =>
    refine ⟨fun p'' busy => ?_, fun st p'' busy _ => ?_, fresh⟩
    · obtain ⟨-, rfl⟩ := Activity.busy.inj (activity.symm.trans busy)
      exact next.2 _
    · obtain ⟨rfl, rfl⟩ := Activity.busy.inj (activity.symm.trans busy)
      exact next
  | ends v => exact ⟨by simp [activity, Next.activity], by simp [activity, Next.activity], fresh⟩

/-- As long as nobody is interrupted, everyone is thrifty. -/
theorem Thrifty.happen (h : w.Thrifty (w.actor a)) (unbroken : w.unbroken e = true) :
    (w.happen e).Thrifty ((w.happen e).actor a) := by
  have fares := w.fares a e
  have fresh := h.fresh.happen e
  generalize (w.happen e).actor a = y at fares fresh
  cases fares with
  | rests eased looks other =>
    have still : ∀ p, (w.actor a).activity ≠ .busy .running p := fun p running =>
      other p running (step_of_unbroken unbroken running)
    rcases eased.activity with same | ⟨t, p, parked, awake⟩
    · refine ⟨fun p busy => absurd (same ▸ busy) (still p), fun st p busy other => ?_, fresh⟩
      rw [looks]
      exact h.stands st p (same ▸ busy) other
    · refine ⟨by simp [awake], fun st p' busy _ => ?_, fresh⟩
      obtain ⟨-, rfl⟩ := Activity.busy.inj (awake.symm.trans busy)
      rw [looks]
      exact h.stands _ p parked (by simp)
  | @begins op _ idle busy looks =>
    refine ⟨fun p busy' => ?_, fun st p busy' other => ?_, fresh⟩
    · obtain ⟨-, rfl⟩ := Activity.busy.inj (busy.symm.trans busy')
      rw [looks]
      cases op with
      | wait s c style =>
        have few : (Operation.wait s c style).firstLooks ≤ 2 := by
          rcases style with _ | _ | ⟨_, _ | _⟩ | _ <;> simp [Operation.firstLooks]
        have many : freshLooks = 64 := rfl
        change 3 ≤ freshLooks - _
        omega
      | _ => trivial
    · obtain ⟨rfl, -⟩ := Activity.busy.inj (busy.symm.trans busy')
      exact absurd rfl other
  | @resumes st p _ busy goesOn looks =>
    have stopped : st ≠ .running := by
      rintro rfl
      simpa using step_of_unbroken unbroken busy
    refine ⟨fun p' busy' => ?_, fun st' p' busy' other => ?_, fresh⟩
    · obtain ⟨-, rfl⟩ := Activity.busy.inj (goesOn.symm.trans busy')
      rw [looks]
      exact (h.stands st p busy stopped).2 _
    · obtain ⟨rfl, -⟩ := Activity.busy.inj (goesOn.symm.trans busy')
      exact absurd rfl other
  | steps running activity looks => exact h.step running activity looks fresh

/-- As long as nobody is interrupted, whoever has only to tell how much time is left does so at once. -/
theorem Thrifty.running (h : w.Thrifty (w.actor a)) {start : Moment} {timeout : Span} {timedOut : Bool}
    (position : (w.actor a).position = some (.reckoning start timeout timedOut)) :
    (w.actor a).activity = .busy .running (.reckoning start timeout timedOut) ∧ 0 < (w.actor a).looks := by
  cases activity : (w.actor a).activity with
  | idle => simp [Actor.position, activity] at position
  | busy st p =>
    obtain rfl := Option.some.inj ((Actor.position_of_busy activity).symm.trans position)
    by_cases runs : st = .running
    · subst runs
      exact ⟨rfl, h.runs _ activity⟩
    · exact absurd rfl ((h.stands st _ activity runs).1 start timeout timedOut)

end World

end Turnstile
