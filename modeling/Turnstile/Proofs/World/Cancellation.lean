import Turnstile.Policy.Catalogue
import Turnstile.Proofs.World.Seating
import Turnstile.Proofs.World.Unbroken

/-! A cancellation that an operation does not heed is put back: if an actor has taken the flag of its
token and its operation comes to a good end all the same, the flag is up again. -/
namespace Turnstile

/-- A cancellation has been taken for the claim, and is still to be answered for. -/
def Claim.Owes (c : Claim) (swallowed : Bool) : Prop :=
  match c.purpose with
  | .operation _ => swallowed = true ∧ c.patience.interruptible = false
  | .afterWait v => swallowed = true ∨ v.interruption ≠ .never

theorem Claim.Owes.patient {op : Operation} {c : Claim} {swallowed : Bool} (owes : c.Owes swallowed)
    (of : c.Of op) : c.patience.deadline = none := by
  unfold Claim.Owes at owes
  unfold Claim.Of at of
  split at of
  · rename_i purpose
    obtain ⟨now, style, -, patience, -⟩ := of
    rw [purpose] at owes
    rw [patience] at owes ⊢
    cases style with
    | plain | uninterruptible => rfl
    | interruptible | timed => simp [Style.patience] at owes
  · rw [of.2]
    rfl

/-- Whoever has taken the flag of its token is in one of these positions. -/
def Position.Owes (w : World) (t : Option TokenId) : Position → Prop
  | .turn q | .lingering q | .roused q | .call (.turn q) _ => q.claim.Owes q.swallowed
  | .waiting v | .dozing v | .awoken v => v.interruption ≠ .never
  | .reckoning .. => w.flagged t = true
  | _ => False

namespace World

variable {w w' : World} {op : Operation} {me a : ActorId} {p p' : Position} {r : World × Next} {took : Bool}
  {t : Option TokenId}

theorem exists_of_flagged (raised : w.flagged t = true) : ∃ x, t = some x ∧ x < w.tokens.size := by
  cases t with
  | none => simp [flagged] at raised
  | some x =>
    refine ⟨x, rfl, Nat.lt_of_not_le fun outside => ?_⟩
    rw [flagged, Option.any_some, Table.get_of_size_le outside] at raised
    exact Bool.false_ne_true raised

theorem flagged_restoreFlag {x : TokenId} (ht : t = some x) (inTable : x < w.tokens.size)
    (tokens : w'.tokens = (w.restoreFlag t).tokens) : w'.flagged t = true := by
  subst ht
  rw [flagged, tokens]
  change ((w.tokens.modify x (·.restore)).get x).cancelled = true
  rw [Table.get_modify_self _ inTable]
  rfl

/-- A claim that is granted answers for a cancellation that was taken, unless the wait was cancelled
before its signal. -/
theorem restores_of_owes {c : Claim} {swallowed : Bool} (owes : c.Owes swallowed)
    (heedless : c.outcome swallowed ≠ .ends (.failed .interrupted)) : c.restores swallowed = true := by
  unfold Claim.Owes at owes
  unfold Claim.outcome at heedless
  unfold Claim.restores
  cases purpose : c.purpose with
  | operation =>
    rw [purpose] at owes
    exact owes.1
  | afterWait v =>
    rw [purpose] at owes heedless
    dsimp only at owes heedless ⊢
    unfold Waiting.outcome at heedless
    split at heedless
    · exact absurd rfl heedless
    · rename_i early
      unfold Waiting.settled at early ⊢
      split
      · simp
      · rename_i late
        rw [if_neg late] at early
        have kept : swallowed = false := by
          simpa [early] using late
        cases interruption : v.interruption with
        | never => simp [kept, interruption] at owes
        | afterSignal => simp
        | beforeSignal => exact absurd interruption early

/-- What the actor owes while it has the position. -/
def Owing (w : World) (op : Operation) (took : Bool) (p : Position) : Prop :=
  took = true → (∃ x, op.token = some x ∧ x < w.tokens.size) ∧ p.Owes w op.token

def Lowers (w w' : World) (t : Option TokenId) : Prop := w.flagged t = true ∧ w'.flagged t = false

theorem not_lowers (same : w'.flagged t = w.flagged t) : ¬Lowers w w' t := by
  rintro ⟨raised, lowered⟩
  rw [same, raised] at lowered
  simp at lowered

theorem Owing.known (owing : w.Owing op took p) (takes : took = true ∨ Lowers w w' op.token) :
    ∃ x, op.token = some x ∧ x < w.tokens.size :=
  takes.elim (fun took => (owing took).1) fun lowers => exists_of_flagged lowers.1

/-- A claim that is granted puts back what was taken for it. -/
theorem flagged_of_granted {c : Claim} {swallowed : Bool} (of : c.Of op)
    (known : ∃ x, op.token = some x ∧ x < w.tokens.size)
    (owes : w'.flagged op.token = w.flagged op.token → c.Owes swallowed)
    (heedless : c.outcome swallowed ≠ .ends (.failed .interrupted))
    (tokens : w'.tokens = (if c.restores swallowed then w.restoreFlag c.token else w).tokens) :
    w'.flagged op.token = true := by
  by_cases restores : c.restores swallowed
  · rw [if_pos restores, (Claim.Of.token of).2] at tokens
    obtain ⟨x, ht, inTable⟩ := known
    exact flagged_restoreFlag ht inTable tokens
  · rw [if_neg restores] at tokens
    exact absurd (restores_of_owes (owes (flagged_of_tokens tokens)) heedless) restores

theorem Owing.owes (owing : w.Owing op took p) (takes : took = true ∨ Lowers w w' op.token)
    (same : w'.flagged op.token = w.flagged op.token) : p.Owes w op.token :=
  (owing (takes.resolve_right (not_lowers same))).2

/-- A call takes no flag, so whoever is at one owes what it owed before. -/
theorem owes_call {site : Site} {stage : Stage} (course : Course w me (.call site stage) r) (of : site.Of op)
    (owing : w.Owing op took (.call site stage)) (next : r.2.position = some p')
    (takes : took = true ∨ Lowers w r.1 op.token) : p'.Owes r.1 op.token := by
  have already := owing.owes takes
  cases course with
  | enter tokens _ goes | leave tokens _ goes =>
    have owes := already (flagged_of_tokens tokens)
    obtain rfl := Next.position_of_pauses goes next
    cases site <;> exact owes
  | ask =>
    have owes := already (flagged_of_tokens rfl)
    obtain rfl := Option.some.inj next
    cases site <;> exact owes
  | queue => exact (already (flagged_of_tokens rfl)).elim
  | @conclude _ c swallowed v w' granted gets tokens =>
    rcases c.outcome_cases swallowed with ⟨v, eq⟩ | ⟨v, start, timeout, purpose, -, -, eq⟩
    · simp [eq, Next.position] at next
    · obtain rfl := Option.some.inj ((congrArg Next.position eq).symm.trans next)
      rcases gets with ⟨rfl, -⟩ | ⟨q, rfl, rfl, rfl⟩
      · obtain ⟨-, timed, other⟩ := of
        simp [other] at purpose
      exact flagged_of_granted of (owing.known takes) already (by simp [eq]) tokens
  | enterWait _ tokens => exact (already (flagged_of_tokens tokens)).elim
  | letGo => exact (already (flagged_of_tokens (tokens_apply _ _ _))).elim
  | linger =>
    have owes := already (flagged_of_tokens rfl)
    obtain rfl := Option.some.inj next
    exact owes
  | _ => simp [Next.position] at next

/-- Whoever comes back from a park owes what it owed before, or has swallowed a cancellation. -/
theorem owes_roused {q : Queued} (course : Course w me (.roused q) r) (of : q.claim.Of op)
    (owing : w.Owing op took (.roused q)) (next : r.2.position = some p')
    (takes : took = true ∨ Lowers w r.1 op.token) : p'.Owes r.1 op.token := by
  cases course with
  | retry calm =>
    rw [(Claim.Of.token of).1] at calm
    obtain rfl := Option.some.inj next
    exact (owing (takes.resolve_right fun lowers => by simp [Lowers, calm] at lowers)).2
  | swallow _ uninterruptible =>
    obtain rfl := Option.some.inj next
    change q.claim.Owes true
    unfold Claim.Owes
    split
    · exact ⟨rfl, uninterruptible⟩
    · exact Or.inl rfl
  | interrupt => simp [Next.position] at next

/-- A wait remembers the flag that it has taken by the way it was interrupted. -/
theorem owes_awoken {v : Waiting} (course : Course w me (.awoken v) r) (of : v.terms.Of op)
    (owing : w.Owing op took (.awoken v)) (next : r.2.position = some p')
    (takes : took = true ∨ Lowers w r.1 op.token) : p'.Owes r.1 op.token := by
  cases course with
  | look calm =>
    rw [WaitTerms.Of.token of] at calm
    obtain rfl := Option.some.inj next
    exact (owing (takes.resolve_right fun lowers => by simp [Lowers, calm] at lowers)).2
  | cancel _ _ _ moves =>
    obtain rfl := Option.some.inj next
    refine Or.inr ?_
    rw [moves]
    dsimp only
    split <;> simp
  | putOff =>
    obtain rfl := Option.some.inj next
    simp [Position.Owes]

/-- Who takes the flag of its token gets to where it owes it. -/
theorem owes_course (course : Course w me p r) (of : p.Of op) (owing : w.Owing op took p)
    (next : r.2.position = some p') (takes : took = true ∨ Lowers w r.1 op.token) :
    p'.Owes r.1 op.token := by
  have already := owing.owes takes
  cases p with
  | start =>
    cases course with
    | «open» _ flags => exact (already (flags _)).elim
    | decline => simp [Next.position] at next
  | call => exact owes_call course of owing next takes
  | queueing =>
    cases course with
    | join => exact (already (flagged_of_tokens rfl)).elim
    | expire => simp [Next.position] at next
  | turn =>
    cases course with
    | stray => simp [Next.position] at next
    | call | await =>
      have owes := already (flagged_of_tokens rfl)
      obtain rfl := Option.some.inj next
      exact owes
  | lingering =>
    cases course with
    | giveUp => simp [Next.position] at next
    | again tokens =>
      have owes := already (flagged_of_tokens tokens)
      obtain rfl := Option.some.inj next
      exact owes
    | park tokens goes =>
      have owes := already (flagged_of_tokens tokens)
      obtain rfl := Next.position_of_parks goes next
      exact owes
  | roused => exact owes_roused course of owing next takes
  | waiting =>
    cases course with
    | reclaim =>
      have owes := already (flagged_of_tokens rfl)
      obtain rfl := Option.some.inj next
      exact Or.inr owes
    | doze =>
      have owes := already (flagged_of_tokens rfl)
      obtain rfl := Option.some.inj next
      exact owes
  | dozing =>
    cases course with
    | timeOut tokens =>
      have owes := already (flagged_of_tokens tokens)
      obtain rfl := Option.some.inj next
      exact Or.inr owes
    | sleep tokens _ _ goes =>
      have owes := already (flagged_of_tokens tokens)
      obtain rfl := Next.position_of_parks goes next
      exact owes
  | awoken => exact owes_awoken course of owing next takes
  | reckoning =>
    cases course with
    | reckon => simp [Next.position] at next

/-- Only a claim that is granted ends well at a call and owes anything. -/
theorem flagged_of_call {site : Site} {stage : Stage} {v : Value}
    (course : Course w me (.call site stage) r) (of : site.Of op)
    (owing : w.Owing op took (.call site stage)) (ends : r.2 = .ends v)
    (takes : took = true ∨ Lowers w r.1 op.token) (unfailed : ∀ e, v ≠ .failed e)
    (unfaulted : ∀ f, v ≠ .faulted f) : r.1.flagged op.token = true := by
  have already := owing.owes takes
  cases course with
  | fail _ error =>
    obtain rfl := Next.ends.inj ends
    rcases error with rfl | ⟨f, rfl⟩
    · exact absurd rfl (unfailed _)
    · exact absurd rfl (unfaulted _)
  | refuse _ tokens told =>
    have owes := already (flagged_of_tokens tokens)
    rcases told with ⟨⟨s, mode, arg, rfl⟩ | ⟨s, rfl⟩, -⟩ | ⟨t, rfl, -⟩ | ⟨s, c, e, rfl, -⟩ |
      ⟨t, n, saved, rfl, -⟩
    all_goals exact owes.elim
  | grant _ tokens told =>
    have owes := already (flagged_of_tokens tokens)
    rcases told with ⟨⟨s, mode, arg, rfl⟩ | ⟨s, rfl⟩, -⟩ | ⟨s, c, e, rfl⟩
    all_goals exact owes.elim
  | @conclude _ c swallowed v' w' granted gets tokens =>
    change c.outcome swallowed = .ends v at ends
    rcases gets with ⟨rfl, rfl⟩ | ⟨q, rfl, rfl, rfl⟩
    · have restores : c.restores false = false := by
        obtain ⟨-, timed, purpose⟩ := of
        rw [Claim.restores, purpose]
      rw [restores] at tokens
      exact (already (flagged_of_tokens tokens)).elim
    · have heedless : q.claim.outcome q.swallowed ≠ .ends (.failed .interrupted) := by
        rw [ends]
        exact fun failed => unfailed _ (Next.ends.inj failed)
      exact flagged_of_granted of (owing.known takes) already heedless tokens
  | enter _ _ goes | leave _ _ goes => rcases goes with rfl | rfl <;> simp at ends
  | _ => simp at ends

/-- An operation that comes to a good end owes nothing. -/
theorem flagged_of_ends {v : Value} (course : Course w me p r) (of : p.Of op)
    (owing : w.Owing op took p) (ends : r.2 = .ends v) (takes : took = true ∨ Lowers w r.1 op.token)
    (unfailed : ∀ e, v ≠ .failed e) (unfaulted : ∀ f, v ≠ .faulted f) :
    r.1.flagged op.token = true := by
  have already := owing.owes takes
  cases p with
  | start op' =>
    cases course with
    | @decline _ w' v' unmet =>
      obtain rfl : op' = op := of
      obtain rfl := Next.ends.inj ends
      have unheard : ∀ site, op'.site w ≠ some site := fun site here =>
        (unmet site here).elim (unfailed _) (unfailed _)
      obtain ⟨x, ht, -⟩ := owing.known takes
      cases op' with
      | acquire | wait => exact absurd rfl (unheard _)
      | _ => simp [Operation.token] at ht
    | «open» => simp at ends
  | call => exact flagged_of_call course of owing ends takes unfailed unfaulted
  | queueing =>
    cases course with
    | expire => exact (already rfl).elim
    | join => simp at ends
  | turn =>
    cases course with
    | stray => exact absurd (Next.ends.inj ends).symm (unfaulted _)
    | _ => simp at ends
  | lingering =>
    cases course with
    | giveUp tokens overdue =>
      have owes := already (flagged_of_tokens tokens)
      obtain rfl := Next.ends.inj ends
      rcases overdue with ⟨-, d, deadline, -⟩ | ⟨f, rfl⟩
      · simp [Claim.Owes.patient owes of] at deadline
      · exact absurd rfl (unfaulted _)
    | again => simp at ends
    | park _ goes => rcases goes with rfl | ⟨-, ⟨t, rfl⟩, -⟩ <;> simp at ends
  | roused =>
    cases course with
    | interrupt _ _ ended =>
      obtain rfl := Next.ends.inj ends
      rcases ended with rfl | ⟨f, rfl⟩
      · exact absurd rfl (unfailed _)
      · exact absurd rfl (unfaulted _)
    | _ => simp at ends
  | waiting | awoken => cases course <;> simp at ends
  | dozing =>
    cases course with
    | timeOut => simp at ends
    | sleep _ _ _ goes => rcases goes with rfl | ⟨-, ⟨t, rfl⟩, -⟩ <;> simp at ends
  | reckoning =>
    cases course with
    | reckon => exact already rfl

theorem owes_congr (h : p.Owes w t) (tokens : w'.tokens = w.tokens) : p.Owes w' t := by
  cases p with
  | reckoning => exact (flagged_of_tokens tokens).trans h
  | call site stage => cases site <;> exact h
  | _ => exact h

/-- What holds of an actor and its diary as long as nobody is interrupted. -/
structure Accounted (a : ActorId) (w : World) (d : Diary) : Prop where
  thrifty : w.Thrifty (w.actor a)
  owing : ∀ p, (w.actor a).position = some p → ∃ op, d.task = some op ∧ p.Of op ∧ w.Owing op d.took p

theorem Owing.congr (h : w.Owing op took p) (tokens : w'.tokens = w.tokens) : w'.Owing op took p :=
  fun taken => ⟨tokens ▸ (h taken).1, owes_congr (h taken).2 tokens⟩

/-- What others do to the tokens does not matter to whoever has yet to end. -/
theorem Owing.aside (h : w.Owing op took p) (size : w'.tokens.size = w.tokens.size)
    (unended : ∀ start timeout late, p ≠ .reckoning start timeout late) : w'.Owing op took p := by
  intro taken
  obtain ⟨known, owes⟩ := h taken
  refine ⟨size.symm ▸ known, ?_⟩
  cases p with
  | reckoning => exact absurd rfl (unended _ _ _)
  | call site stage => cases site <;> exact owes
  | _ => exact owes

/-- The diary tells of every flag that a step takes down. -/
theorem took_note {d : Diary} (task : d.task = some op) :
    (d.note a w (.step a)).took = true ↔ d.took = true ∨ Lowers w (w.step a).1 op.token := by
  have token : d.token = op.token := by rw [Diary.token, task]; rfl
  simp [Diary.note, token, Lowers]

theorem Accounted.happen {d : Diary} {e : Event} (h : Accounted a w d) (unbroken : w.unbroken e = true) :
    Accounted a (w.happen e) (d.note a w e) := by
  refine ⟨h.thrifty.happen unbroken, fun p' hp' => ?_⟩
  have size := w.size_tokens_happen e
  rcases w.position_cases a hp' with ⟨hp, bides⟩ | ⟨op, rfl, idle, rfl⟩ | ⟨p, rfl, running, course, next⟩
  · obtain ⟨op, task, of, owing⟩ := h.owing p' hp
    refine ⟨op, by rwa [Diary.task_note_of_busy (by simp [hp])], of, ?_⟩
    by_cases mine : e = .step a
    · subst mine
      have tokens := (bides.step hp).1
      intro took
      have before := ((took_note task).1 took).resolve_right (not_lowers (flagged_of_tokens tokens))
      exact owing.congr tokens before
    · rw [Diary.note_of_busy (by simp [hp]) mine]
      refine owing.aside size ?_
      rintro start timeout late rfl
      exact absurd (step_of_unbroken unbroken (h.thrifty.running hp).1) mine
  · exact ⟨op, by rw [Diary.note_begin idle], rfl, by simp [Owing, Diary.note_begin idle]⟩
  · obtain ⟨op, task, of, owing⟩ := h.owing p (Actor.position_of_busy running)
    refine ⟨op, task, course.of of next, fun took => ?_⟩
    have takes := (took_note task).1 took
    refine ⟨?_, ?_⟩
    · rw [size]
      exact owing.known takes
    · have tokens := tokens_step w a running
      have looked : (w.looked a p).Owing op d.took p := owing.congr (tokens_looked w a p)
      rw [Lowers, flagged_of_tokens tokens, ← flagged_looked w a p] at takes
      exact owes_congr (owes_course course of looked next takes) tokens

theorem Accounted.create {actors tokens : Nat} {syncs : List Synchronizer} {conditions : List SyncId} :
    Accounted a (World.create actors tokens syncs conditions) {} := by
  have idle : ((World.create actors tokens syncs conditions).actor a).activity = .idle := by
    rw [actor_create]
  refine ⟨⟨?_, ?_, fun st p busy => ?_⟩, fun p hp => ?_⟩
  · simp [idle]
  · simp [idle]
  · simp [idle] at busy
  · simp [Actor.position, idle] at hp

/-- Whoever has taken the flag of its token and comes to a good end has put it back. -/
theorem Accounted.put_back {d : Diary} {v : Value} (h : Accounted a w d)
    (running : (w.actor a).activity = .busy .running p) (task : d.task = some op)
    (ends : (w.stride a p).2 = .ends v) (took : (d.note a w (.step a)).took = true)
    (unfailed : ∀ e, v ≠ .failed e) (unfaulted : ∀ f, v ≠ .faulted f) :
    (w.step a).1.flagged op.token = true := by
  obtain ⟨op', task', of, owing⟩ := h.owing p (Actor.position_of_busy running)
  obtain rfl := Option.some.inj (task'.symm.trans task)
  have tokens := tokens_step w a running
  have takes := (took_note task).1 took
  rw [flagged_of_tokens tokens]
  rw [Lowers, flagged_of_tokens tokens, ← flagged_looked w a p] at takes
  rcases w.stride_course a p with ⟨-, -, spins⟩ | ⟨-, course⟩
  · simp [spins] at ends
  · exact flagged_of_ends course of (owing.congr (tokens_looked w a p)) ends takes unfailed unfaulted

/-- A cancellation that an operation takes and does not heed is put back by the time the operation comes
to a good end. A hook's error puts nothing back. -/
theorem unheeded_put_back {actors tokens : Nat} {syncs : List Synchronizer} {conditions : List SyncId}
    {events : List Event}
    (unbroken : Obeys (fun w e => w.unbroken e) (World.create actors tokens syncs conditions) events)
    {a : ActorId} {v : Value} :
    let start := World.create actors tokens syncs conditions
    let w := start.after events
    let d := Diary.since start a (events ++ [.step a])
    (w.step a).2 = some v → d.took = true →
      ((∀ e, v ≠ .failed e) → (∀ f, v ≠ .faulted f) → (w.step a).1.flagged d.token = true) ∧
      ∀ q e, (w.actor a).activity = .busy .running (.call (.turn q) (.answered (.error e))) →
        (w.step a).1.tokens = w.tokens := by
  intro start w d ends took
  have accounted : Accounted a w (Diary.since start a events) :=
    collect_invariant (fun _ _ _ => Accounted.happen) .create unbroken
  obtain ⟨p, running, ends⟩ := running_of_step ends
  obtain ⟨op, task, -, -⟩ := accounted.owing p (Actor.position_of_busy running)
  have eq : d = (Diary.since start a events).note a w (.step a) := collect_concat _ _ _ _ _
  have token : d.token = op.token := by
    rw [eq]
    change (Diary.since start a events).task.bind _ = _
    rw [task]
    rfl
  have tokens := tokens_step w a running
  constructor
  · intro unfailed unfaulted
    rw [eq] at took
    rw [token]
    exact accounted.put_back running task ends took unfailed unfaulted
  · intro q e failing
    obtain ⟨-, rfl⟩ := Activity.busy.inj (running.symm.trans failing)
    rw [tokens]
    rcases w.stride_course a (.call (.turn q) (.answered (.error e))) with ⟨clock, -⟩ | ⟨-, course⟩
    · simp [Position.readsClock] at clock
    · generalize w.stride a (.call (.turn q) (.answered (.error e))) = r at course ends
      cases course with
      | fail tokens => exact tokens.trans (tokens_looked w a _)

/-- Someone waits for a lock, is cancelled, waits on and gets it in the end. -/
theorem unheeded_put_back_granted :
    let start := World.create 2 1 [{ policy := .mutex, state := 0 }] []
    let w := start.after
      (.begin 0 (.acquire 0 .exclusive 1 .plain) :: List.replicate 5 (.step 0) ++
        .begin 1 (.acquire 0 .exclusive 1 (.uninterruptible (some 0))) :: List.replicate 18 (.step 1) ++
        .cancel 0 :: .resume 1 :: List.replicate 7 (.step 1) ++
        .begin 0 (.release 0 .exclusive 1) :: List.replicate 5 (.step 0) ++
        .resume 1 :: List.replicate 5 (.step 1))
    (w.step 1).2 = some .done ∧ (w.step 1).1.flagged (some 0) = true :=
  have ends := by decide +kernel
  ⟨ends, (unheeded_put_back (by decide +kernel) ends (by decide +kernel)).1 (by simp) (by simp)⟩

/-- If a hook fails it instead, the cancellation is lost. -/
theorem unheeded_lost :
    let start := World.create 2 1 [{ policy := .mutex, state := 0 }] []
    let events : List Event :=
      .begin 0 (.acquire 0 .exclusive 1 .plain) :: List.replicate 5 (.step 0) ++
        .begin 1 (.acquire 0 .exclusive 1 (.uninterruptible (some 0))) :: List.replicate 18 (.step 1) ++
        .cancel 0 :: .resume 1 :: List.replicate 7 (.step 1) ++
        .breakHook 0 .acquire (.overflow "boom") none ::
        .begin 0 (.release 0 .exclusive 1) :: List.replicate 5 (.step 0) ++
        .resume 1 :: List.replicate 5 (.step 1)
    let w := start.after events
    Obeys (fun w e => w.unbroken e) start events ∧ (w.step 1).2 = some (.failed (.overflow "boom")) ∧
      (Diary.since start 1 (events ++ [.step 1])).took = true ∧ (w.step 1).1.flagged (some 0) = false :=
  ⟨by decide +kernel, by decide +kernel, by decide +kernel, by decide +kernel⟩

end World

end Turnstile
