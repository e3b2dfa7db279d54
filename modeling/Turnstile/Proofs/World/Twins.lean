import Turnstile.Proofs.World.Mirror

/-! Two worlds in step: in the one an actor does an operation, in the other it may do the timed counterpart
without an effective deadline. Whatever happens, they stay in step. -/
namespace Turnstile

theorem Operation.Counterpart.later {now now' : Moment} {op op' : Operation} (h : op.Counterpart now op')
    (le : now ≤ now') : op.Counterpart now' op' := by
  cases h with
  | acquire far => exact .acquire fun near => far (near.earlier (Nat.add_le_add_right le _))
  | wait far => exact .wait fun near => far (near.earlier (Nat.add_le_add_right le _))

/-- Where two actors stand that do an operation and its timed counterpart. -/
inductive Position.Counterpart (now : Moment) : Position → Position → Prop
  | start {op op'} (h : op.Counterpart now op') : Counterpart now (.start op) (.start op')
  | timed {p} (h : p.Untimed) : Counterpart now p p.timed

/-- The two actors are the same, or they have nothing to do, or the one does the timed counterpart of what the
other does. -/
inductive Actor.Twin (now : Moment) (x y : Actor) : Prop
  | same (same : y = x)
  | idle (permit : y.permit = x.permit) (idle : x.activity = .idle) (idle' : y.activity = .idle)
  | busy {st p p'} (permit : y.permit = x.permit) (busy : x.activity = .busy st p) (busy' : y.activity = .busy st p')
      (pair : p.Counterpart now p')

/-- A timed operation tells that it succeeded, where its counterpart just ends. -/
def Value.Agrees (v v' : Value) : Prop := v' = v ∨ (v = .done ∧ v' = .truth true)

namespace Actor.Twin

variable {now now' : Moment} {x y : Actor}

theorem permit (h : Twin now x y) : y.permit = x.permit := by
  cases h with
  | same same => rw [same]
  | idle permit | busy permit => exact permit

theorem standing (h : Twin now x y) : y.standing = x.standing := by
  cases h with
  | same same => rw [same]
  | idle _ idle idle' => rw [Actor.standing, Actor.standing, idle, idle']
  | busy _ busy busy' => rw [Actor.standing, Actor.standing, busy, busy']

theorem lasting (now : Moment) : Lasting (Twin now) where
  permit := Twin.permit
  standing := Twin.standing
  setPermit h permit := by
    cases h with
    | same same => exact .same (by rw [same])
    | idle _ idle idle' => exact .idle rfl idle idle'
    | busy _ busy busy' pair => exact .busy rfl busy busy' pair
  setLooks h looks := by
    cases h with
    | same same => exact .same (by rw [same])
    | idle permit idle idle' => exact .idle permit idle idle'
    | busy permit busy busy' pair => exact .busy permit busy busy' pair
  wake h parked parked' := by
    cases h with
    | same same =>
      subst same
      obtain ⟨-, rfl⟩ := Activity.busy.inj (parked.symm.trans parked')
      exact .same rfl
    | idle _ idle => simp [parked] at idle
    | busy permit busy busy' pair =>
      obtain ⟨rfl, rfl⟩ := Activity.busy.inj (parked.symm.trans busy)
      obtain ⟨-, rfl⟩ := Activity.busy.inj (parked'.symm.trans busy')
      exact .busy permit rfl rfl pair

theorem later (h : Twin now x y) (le : now ≤ now') : Twin now' x y := by
  cases h with
  | same same => exact .same same
  | idle permit idle idle' => exact .idle permit idle idle'
  | busy permit busy busy' pair =>
    cases pair with
    | start h => exact .busy permit busy busy' (.start (h.later le))
    | timed h => exact .busy permit busy busy' (.timed h)

/-- Where the one goes on untimed, the other may go on with the timed counterpart. -/
theorem goesOn {n : Next} (permit : y.permit = x.permit) (untimed : n.Untimed) :
    Twin now { x with activity := n.activity } { y with activity := n.timed.activity } := by
  cases n with
  | goes p | stops st p => exact .busy permit rfl rfl (.timed untimed)
  | ends v => exact .idle permit rfl rfl

end Actor.Twin

namespace World

/-- The two worlds are in step. -/
def Twins (w w' : World) : Prop := Mirrors (fun _ => Actor.Twin w.now) w w'

namespace Twins

variable {w w' : World} {me a : ActorId} {e : Event}

theorem of_mirrors {now : Moment} (h : Mirrors (fun _ => Actor.Twin now) w w') (le : now ≤ w.now) : Twins w w' :=
  h.setActors fun a => (h.actor a).later le

theorem refl (w : World) : Twins w w := .intro rfl fun _ => .same rfl

/-- The actors are twins, and the one actor is the same in both worlds. While it takes a step it has to stay
the same, down to its looks at the clock. -/
def At (now : Moment) (me a : ActorId) (x y : Actor) : Prop := Actor.Twin now x y ∧ (a = me → y = x)

theorem at_lasting (now : Moment) (me a : ActorId) : Lasting (At now me a) := by
  have twin := Actor.Twin.lasting now
  refine ⟨fun h => twin.permit h.1, fun h => twin.standing h.1, fun h permit => ⟨twin.setPermit h.1 permit, ?_⟩,
    fun h looks => ⟨twin.setLooks h.1 looks, ?_⟩, fun h parked parked' => ⟨twin.wake h.1 parked parked', ?_⟩⟩
  · intro here
    rw [h.2 here]
  · intro here
    rw [h.2 here]
  · intro here
    obtain rfl := h.2 here
    obtain ⟨-, rfl⟩ := Activity.busy.inj (parked.symm.trans parked')
    rfl

theorem at_same (h : Twins w w') (same : w'.actor me = w.actor me) : Mirrors (At w.now me) w w' :=
  h.setActors fun a => ⟨h.actor a, fun here => here ▸ same⟩

theorem setActivity_same {now : Moment} (h : Mirrors (At now me) w w') (activity : Activity) :
    Mirrors (fun _ => Actor.Twin now) (w.setActivity me activity) (w'.setActivity me activity) := by
  have both : Mirrors (At now me) (w.setActivity me activity) (w'.setActivity me activity) :=
    h.modifyActor fun related => ⟨.same (by rw [related.2 rfl]), fun _ => by rw [related.2 rfl]⟩
  exact both.setActors fun a => (both.actor a).1

theorem step_same (h : Twins w w') (same : w'.actor me = w.actor me) {p : Position}
    (running : (w.actor me).activity = .busy .running p) :
    Mirrors (fun _ => Actor.Twin w.now) (w.step me).1 (w'.step me).1 ∧ (w'.step me).2 = (w.step me).2 := by
  have running' : (w'.actor me).activity = .busy .running p := same ▸ running
  have lasting := at_lasting w.now me
  have mirrors := h.at_same same
  have alike : Matches (At w.now me) (w.stride me p) (w'.stride me p) := by
    unfold stride
    rw [same]
    split
    · split
      · exact ⟨mirrors.setLooks lasting _ _, rfl⟩
      · exact (mirrors.setLooks lasting _ _).advance lasting p
    · exact mirrors.advance lasting p
  rw [step_eq running, step_eq running', step_value running, step_value running', alike.same]
  exact ⟨setActivity_same alike.mirrors _, rfl⟩

/-- Where an untimed operation goes on, its timed counterpart does in the other world. -/
theorem step_pair (h : Twins w w') {p p' : Position} (running : (w.actor me).activity = .busy .running p)
    (running' : (w'.actor me).activity = .busy .running p') (pair : p.Counterpart w.now p') :
    Mirrors (fun _ => Actor.Twin w.now) (w.step me).1 (w'.step me).1 ∧
      Option.Rel Value.Agrees (w.step me).2 (w'.step me).2 := by
  have lasting := fun _ : ActorId => Actor.Twin.lasting w.now
  have strides : w.stride me p = w.advance me p ∧ w'.stride me p' = w'.advance me p' ∧
      Pair (w'.advance me p) (w'.advance me p') := by
    cases pair with
    | start h' => exact ⟨rfl, rfl, Pair.start (h.rest.1 ▸ h')⟩
    | timed untimed =>
      obtain ⟨clockless, clockless'⟩ := untimed.clockless
      exact ⟨by simp [stride, clockless], by simp [stride, clockless'], Pair.advance untimed⟩
  obtain ⟨stride, stride', untimed, timed⟩ := strides
  -- Across the worlds the position is the same; the counterpart is for the second world alone.
  have alike : Matches _ (w.advance me p) (w'.advance me p) := Mirrors.advance lasting h p
  rw [alike.same] at untimed timed
  rw [step_eq running, step_eq running', step_value running, step_value running', stride, stride', timed]
  refine ⟨alike.mirrors.modifyActor fun related => ?_, ?_⟩
  · exact .goesOn related.permit untimed
  · generalize (w.advance me p).2 = n
    cases n with
    | goes | stops => exact .none
    | ends v =>
      refine .some ?_
      cases v with
      | done => exact Or.inr ⟨rfl, rfl⟩
      | _ => exact Or.inl rfl

/-- Worlds in step stay in step when an actor takes a step, and the actors are told alike. -/
theorem step (h : Twins w w') (me : ActorId) : Twins (w.step me).1 (w'.step me).1 ∧
    Option.Rel Value.Agrees (w.step me).2 (w'.step me).2 := by
  have le : w.now ≤ (w.step me).1.now := w.now_le_happen (.step me)
  have still : (∀ p, (w.actor me).activity ≠ .busy .running p) → (∀ p, (w'.actor me).activity ≠ .busy .running p) →
      Twins (w.step me).1 (w'.step me).1 ∧ Option.Rel Value.Agrees (w.step me).2 (w'.step me).2 := by
    intro idle idle'
    rw [step_of_not_running idle, step_of_not_running idle']
    exact ⟨h, .none⟩
  cases h.actor me with
  | same same =>
    by_cases running : ∃ p, (w.actor me).activity = .busy .running p
    · obtain ⟨p, running⟩ := running
      obtain ⟨mirrors, value⟩ := h.step_same same running
      refine ⟨.of_mirrors mirrors le, ?_⟩
      rw [value]
      cases (w.step me).2 with
      | none => exact .none
      | some v => exact .some (Or.inl rfl)
    · have idle : ∀ p, (w.actor me).activity ≠ .busy .running p := fun p hp => running ⟨p, hp⟩
      exact still idle (same ▸ idle)
  | idle _ idle idle' => exact still (by simp [idle]) (by simp [idle'])
  | @busy st p p' _ busy busy' pair =>
    by_cases running : st = .running
    · subst running
      obtain ⟨mirrors, value⟩ := h.step_pair busy busy' pair
      exact ⟨.of_mirrors mirrors le, value⟩
    · exact still (by simp [busy, running]) (by simp [busy', running])

theorem cases (h : Twins w w') (a : ActorId) : ((w.actor a).activity = .idle ∧ (w'.actor a).activity = .idle) ∨
    ∃ st p p', (w.actor a).activity = .busy st p ∧ (w'.actor a).activity = .busy st p' :=
  Actor.standing_cases (h.actor a).standing

theorem begin (h : Twins w w') (a : ActorId) {op op' : Operation} (pair : op' = op ∨ op.Counterpart w.now op') :
    Twins (w.begin a op) (w'.begin a op') := by
  refine .of_mirrors ?_ (Nat.le_of_eq (w.now_begin a op).symm)
  unfold World.begin
  rcases h.cases a with ⟨idle, idle'⟩ | ⟨st, p, p', busy, busy'⟩
  · rw [idle, idle']
    dsimp only [setLooks, setActivity]
    rw [modifyActor_modifyActor, modifyActor_modifyActor]
    refine h.modifyActor fun related => ?_
    rcases pair with rfl | pair
    · exact .same (by rw [related.permit])
    · exact .busy related.permit rfl rfl (.start pair)
  · rw [busy, busy']
    exact h

theorem resume (h : Twins w w') (a : ActorId) : Twins (w.resume a) (w'.resume a) := by
  refine .of_mirrors ?_ (w.now_le_happen (.resume a))
  cases h.actor a with
  | same same =>
    have mirrors := h.at_same same
    have permits := mirrors.setPermit (at_lasting w.now a) a false
    unfold World.resume
    rw [same]
    cases (w.actor a).activity with
    | idle => exact h
    | busy st p =>
      cases st with
      | parked | runnable => exact setActivity_same permits _
      | running | paused | spinning => exact setActivity_same mirrors _
  | idle _ idle idle' =>
    unfold World.resume
    rw [idle, idle']
    exact h
  | @busy st p p' _ busy busy' pair =>
    have permits := Mirrors.setPermit (fun _ => Actor.Twin.lasting w.now) h a false
    unfold World.resume
    rw [busy, busy']
    cases st with
    | parked | runnable => exact permits.modifyActor fun related => .busy related.permit rfl rfl pair
    | running | paused | spinning => exact Mirrors.modifyActor h fun related => .busy related.permit rfl rfl pair

theorem overdue (h : Twins w w') : w'.overdue = w.overdue := by
  unfold World.overdue
  rw [h.size, h.rest.1]
  dsimp only
  congr 2
  refine List.filterMap_congr fun a _ => ?_
  rcases h.cases a with ⟨idle, idle'⟩ | ⟨st, p, p', busy, busy'⟩
  · rw [idle, idle']
  · rw [busy, busy']
    rcases st with _ | (_ | t) | _ | _ | _ <;> rfl

theorem endParks (h : Twins w w') (as : List ActorId) : Twins (as.foldl endPark w) (as.foldl endPark w') := by
  refine .of_mirrors ?_ (Nat.le_of_eq (w.now_endParks as).symm)
  unfold Twins at h
  generalize w.now = now at h
  induction as generalizing w w' with
  | nil => exact h
  | cons a rest ih => exact ih (h.endPark (fun _ => Actor.Twin.lasting now) a)

theorem elapse (h : Twins w w') (d : Span) : Twins (w.elapse d) (w'.elapse d) := by
  have later : Twins { w with now := w.now + d } { w' with now := w'.now + d } := by
    refine .of_mirrors ?_ (Nat.le_add_right w.now d)
    rw [h.rest.1]
    exact Mirrors.setNow h _
  unfold World.elapse
  dsimp only
  rw [later.overdue]
  exact later.endParks _

theorem order (h : Twins w w') (as : List ActorId) : Twins { w with runnable := as } { w' with runnable := as } :=
  .of_mirrors (Mirrors.setRunnable h as) (Nat.le_refl _)

theorem wake (h : Twins w w') (a : ActorId) : Twins (w.wake a) (w'.wake a) :=
  .of_mirrors (Mirrors.wake (fun _ => Actor.Twin.lasting w.now) h a) (w.now_le_happen (.wake a))

theorem cancel (h : Twins w w') (t : TokenId) : Twins (w.cancel t) (w'.cancel t) := by
  refine .of_mirrors ?_ (w.now_le_happen (.cancel t))
  obtain ⟨-, -, -, tokens, -, -⟩ := h.rest
  unfold World.cancel
  rw [tokens]
  exact (Mirrors.modifyToken h _ _).wakeAll (fun _ => Actor.Twin.lasting w.now) _

theorem take (h : Twins w w') (t : TokenId) : Twins (w.takeFlag (some t)).1 (w'.takeFlag (some t)).1 :=
  Mirrors.modifyToken h (some t) _

theorem arm (h : Twins w w') (p : Pause) :
    Twins { w with pauses := w.pauses ++ [p] } { w' with pauses := w'.pauses ++ [p] } := by
  obtain ⟨-, -, -, -, pauses, -⟩ := h.rest
  rw [pauses]
  exact .of_mirrors (Mirrors.setPauses h _) (Nat.le_refl _)

theorem isSpinning (h : Twins w w') (a : ActorId) : w'.isSpinning a = w.isSpinning a := by
  unfold World.isSpinning
  rcases h.cases a with ⟨idle, idle'⟩ | ⟨st, p, p', busy, busy'⟩
  · rw [idle, idle']
  · rw [busy, busy']
    cases st <;> rfl

end Twins

end World

end Turnstile
