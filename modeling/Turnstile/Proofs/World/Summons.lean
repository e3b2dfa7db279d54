import Turnstile.Proofs.World.Cancellation
import Turnstile.Proofs.World.Timed

/-! No cancellation is lost to an actor that is parked: while each token is in the hands of one operation
at a time, it would wake whoever waits by it, and nobody is parked with the flag of its token up. -/
namespace Turnstile

namespace Site

def token : Site → Option TokenId
  | .attempt c => c.token
  | .turn q => q.claim.token
  | .wait t | .letGo t .. => t.patience.token
  | .release .. | .isHeld _ | .errand .. => none

end Site

namespace Position

/-- The token that the operation may still look at. -/
def token : Position → Option TokenId
  | .start op => op.token
  | .call site _ => site.token
  | .queueing c => c.token
  | .turn q | .lingering q | .roused q => q.claim.token
  | .waiting v | .dozing v | .awoken v => v.terms.patience.token
  | .reckoning .. => none

/-- An operation keeps to its token as long as it looks at any. -/
theorem Of.token {op : Operation} {p : Position} (of : p.Of op) :
    p.token = op.token ∨ ∃ start timeout timedOut, p = .reckoning start timeout timedOut := by
  cases p with
  | start op' => exact Or.inl (congrArg Operation.token of)
  | call site stage =>
    refine Or.inl ?_
    cases site with
    | attempt c => exact (Claim.Of.token of.1).2
    | turn q => exact (Claim.Of.token of).2
    | wait t | letGo t n saved => exact WaitTerms.Of.token of
    | release | isHeld | errand =>
      obtain rfl : op = _ := of
      rfl
  | queueing c => exact Or.inl (Claim.Of.token of.1).2
  | turn q | lingering q | roused q => exact Or.inl (Claim.Of.token of).2
  | waiting v | dozing v | awoken v => exact Or.inl (WaitTerms.Of.token of)
  | reckoning start timeout timedOut => exact Or.inr ⟨start, timeout, timedOut, rfl⟩

/-- Whoever parks looks at its token first. -/
theorem Of.token_of_parks {op : Operation} {p : Position} (of : p.Of op) (parks : p.parks = true) :
    p.token = op.token := by
  rcases of.token with same | ⟨_, _, _, rfl⟩
  · exact same
  · simp [Position.parks] at parks

end Position

theorem Actor.Alert.not_isParked {y : Actor} (alert : y.Alert) : y.isParked = false := by
  refine Bool.eq_false_iff.2 fun parked => ?_
  obtain ⟨t, p, parked⟩ := Actor.exists_of_isParked parked
  exact alert.awake t p parked

namespace World

/-- What a step does to the tokens. -/
inductive Handles (w : World) (me : ActorId) : Position → World × Next → Prop
  /-- The operation makes itself known to its token, and may find itself cancelled already. -/
  | registers {op w' n} (tokens : w'.tokens = (w.register op.token me).tokens ∨
      w'.tokens = ((w.register op.token me).takeFlag op.token).1.tokens) :
      Handles w me (.start op) (w', n)
  | declines {op w' v} (tokens : w'.tokens = w.tokens) : Handles w me (.start op) (w', .ends v)
  | cancels {x v} : Handles w me (.start (.cancel (some x))) (w.cancel x, .ends v)
  | leaves {p w' n} (begun : ∀ op, p ≠ .start op) (tokens : w'.tokens = w.tokens) : Handles w me p (w', n)
  | takes {p w' n} (begun : ∀ op, p ≠ .start op) (tokens : w'.tokens = (w.takeFlag p.token).1.tokens) :
      Handles w me p (w', n)
  | restores {p w' n} (begun : ∀ op, p ≠ .start op) (tokens : w'.tokens = (w.restoreFlag p.token).tokens) :
      Handles w me p (w', n)

variable {w w' : World} {me a b : ActorId} {p p' : Position} {r : World × Next} {op : Operation}
  {x : TokenId}

/-- A token is given to an operation only while no other may still look at it. -/
def sole (w : World) : Event → Bool
  | .begin a op => (w.actor a).position.isSome || op.token.all fun x =>
      (List.range w.actors.size).all fun b => (w.actor b).position.bind Position.token != some x
  | _ => true

theorem handles_registerThen {patience : Patience} (site : Site) (token : patience.token = op.token) :
    Handles w me (.start op) (w.registerThen me patience site) := by
  unfold registerThen
  rw [token]
  dsimp only
  split
  · exact .registers (Or.inr rfl)
  · exact .registers (Or.inl rfl)

theorem handles_start (op : Operation) : Handles w me (.start op) (w.startOperation me op) := by
  cases op with
  | acquire s mode arg style =>
    have eq : w.startOperation me (.acquire s mode arg style) = w.registerThen me (style.patience w.now)
        (.attempt ⟨s, mode, arg, style.patience w.now, .operation style.isTimed⟩) := by
      cases style <;> rfl
    rw [eq]
    exact handles_registerThen _ (by cases style <;> rfl)
  | wait s c style =>
    simp only [startOperation]
    split
    · exact handles_registerThen _ (by cases style <;> rfl)
    · exact .declines rfl
  | cancel t =>
    cases t with
    | none => exact .registers (Or.inl rfl)
    | some x => exact .cancels
  | errand s c e =>
    simp only [startOperation]
    split <;> exact .registers (Or.inl rfl)
  | exchangeState s expected update =>
    simp only [startOperation]
    split <;> exact .registers (Or.inl rfl)
  | _ => exact .registers (Or.inl rfl)

theorem tokens_rouse (w : World) (q : Queued) :
    (w.rouse q).1.tokens = (w.takeFlag q.claim.patience.token).1.tokens := by
  unfold rouse
  split
  · rename_i w' e
    rw [e]
  · rename_i w' e
    rw [e]
    split
    · obtain ⟨w'', v, eq, tokens, -⟩ := w'.abandon_spec q (.failed .interrupted)
      rw [eq, tokens]
    · rfl

theorem handles_of_course (course : Course w me p r) (begun : ∀ op, p ≠ .start op)
    (calm : ∀ q, p ≠ .roused q) : Handles w me p r := by
  cases course with
  | decline | «open» => exact absurd rfl (begun _)
  | retry | interrupt | swallow => exact absurd rfl (calm _)
  | look _ tokens | cancel _ _ tokens | putOff _ _ tokens => exact .takes begun tokens
  | @conclude site c swallowed v w' granted gets tokens =>
    have own : (Position.call site (.answered (.ok v))).token = c.token := by
      rcases gets with ⟨rfl, -⟩ | ⟨q, rfl, rfl, -⟩ <;> rfl
    by_cases restores : c.restores swallowed = true
    · rw [if_pos restores, ← own] at tokens
      exact .restores begun tokens
    · rw [if_neg restores] at tokens
      exact .leaves begun tokens
  | letGo => exact .leaves begun (tokens_apply _ _ _)
  | enter tokens | leave tokens | fail tokens | refuse _ tokens | grant _ tokens | enterWait _ tokens
  | giveUp tokens | again tokens | park tokens | timeOut tokens | sleep tokens =>
    exact .leaves begun tokens
  | _ => exact .leaves begun rfl

/-- Whatever a step does to a token, it does to its operation's own, unless it cancels. -/
theorem handles_advance (of : p.Of op) : Handles w me p (w.advance me p) := by
  cases p with
  | start op' => exact handles_start op'
  | roused q =>
    refine .takes (by simp) ?_
    change (w.rouse q).1.tokens = (w.takeFlag q.claim.token).1.tokens
    rw [tokens_rouse, (Claim.Of.token of).1, (Claim.Of.token of).2]
  | _ => exact handles_of_course (course_advance _) (by simp) (by simp)

theorem get_modifyToken (w : World) (t : Option TokenId) (f : Token → Token) (x : TokenId) :
    (w.modifyToken t f).tokens.get x =
      if t = some x ∧ x < w.tokens.size then f (w.tokens.get x) else w.tokens.get x := by
  cases t with
  | none => simp [modifyToken]
  | some t =>
    change (w.tokens.modify t f).get x = _
    rw [Table.get_modify]
    simp only [Option.some.injEq]

theorem waiter_modifyToken (w : World) (f : Token → Token) (keeps : ∀ y, (f y).waiter = y.waiter)
    (t : Option TokenId) (x : TokenId) :
    ((w.modifyToken t f).tokens.get x).waiter = (w.tokens.get x).waiter := by
  rw [get_modifyToken]
  split
  · exact keeps _
  · rfl

theorem Handles.waiter (h : Handles w me p r) (x : TokenId) :
    (r.1.tokens.get x).waiter = (w.tokens.get x).waiter ∨ ∃ op, p = .start op ∧ op.token = some x := by
  cases h with
  | @registers op _ _ tokens =>
    by_cases mine : op.token = some x
    · exact Or.inr ⟨op, rfl, mine⟩
    · have same : ((w.register op.token me).tokens.get x) = w.tokens.get x := by
        rw [register, get_modifyToken, if_neg fun h => mine h.1]
      rcases tokens with tokens | tokens
      · exact Or.inl (by rw [tokens, same])
      · refine Or.inl ?_
        rw [tokens, takeFlag, waiter_modifyToken _ (·.take.1) (fun _ => rfl), same]
  | declines tokens | leaves _ tokens => exact Or.inl (by rw [tokens])
  | cancels =>
    refine Or.inl ?_
    rw [World.cancel, tokens_wakeAll, waiter_modifyToken _ (·.cancel.1) fun _ => rfl]
  | takes _ tokens => exact Or.inl (by rw [tokens, takeFlag, waiter_modifyToken _ (·.take.1) fun _ => rfl])
  | restores _ tokens =>
    exact Or.inl (by rw [tokens, restoreFlag, waiter_modifyToken _ (·.restore) fun _ => rfl])

/-- An operation that goes on from its start has made itself known to its token. -/
theorem Handles.known (h : Handles w me (.start op) r) (goes : r.2.position = some p')
    (token : op.token = some x) (inTable : x < w.tokens.size) :
    (r.1.tokens.get x).waiter = some me := by
  have registered : ((w.register op.token me).tokens.get x).waiter = some me := by
    rw [register, get_modifyToken, if_pos ⟨token, inTable⟩]
    rfl
  cases h with
  | registers tokens =>
    rcases tokens with tokens | tokens
    · rw [tokens, registered]
    · rw [tokens, takeFlag, waiter_modifyToken _ (·.take.1) fun _ => rfl, registered]
  | declines | cancels => simp [Next.position] at goes
  | leaves begun | takes begun | restores begun => exact absurd rfl (begun op)

/-- A step raises no flag but that of its operation's own token, unless it cancels. -/
theorem Handles.flag (h : Handles w me p r) (raised : r.1.flagged (some x) = true) :
    w.flagged (some x) = true ∨ p.token = some x ∨
      (p = .start (.cancel (some x)) ∧ ∃ v, r = (w.cancel x, .ends v)) := by
  have lowered : ∀ (w w' : World) t, w'.tokens = (w.takeFlag t).1.tokens → w'.flagged (some x) = true →
      w.flagged (some x) = true := by
    intro w w' t tokens raised
    change (w'.tokens.get x).cancelled = true at raised
    rw [tokens, takeFlag, get_modifyToken] at raised
    split at raised
    · simp [Token.take] at raised
    · exact raised
  have register : ∀ t, (w.register t me).flagged (some x) = w.flagged (some x) :=
    fun t => w.flagged_modifyToken (·.register me) (fun _ => rfl) t (some x)
  cases h with
  | registers tokens =>
    refine Or.inl ?_
    rcases tokens with tokens | tokens
    · rw [← register, ← raised, flagged_of_tokens tokens]
    · rw [← register]
      exact lowered _ _ _ tokens raised
  | declines tokens | leaves _ tokens => exact Or.inl ((flagged_of_tokens tokens).symm.trans raised)
  | @cancels y v =>
    by_cases mine : y = x
    · exact Or.inr (Or.inr ⟨by rw [mine], v, by rw [mine]⟩)
    · refine Or.inl ?_
      change ((w.cancel y).tokens.get x).cancelled = true at raised
      rw [World.cancel, tokens_wakeAll, get_modifyToken, if_neg fun h => mine (Option.some.inj h.1)] at raised
      exact raised
  | takes _ tokens => exact Or.inl (lowered _ _ _ tokens raised)
  | restores _ tokens =>
    by_cases mine : p.token = some x
    · exact Or.inr (Or.inl mine)
    · refine Or.inl ?_
      change (World.tokens _ |>.get x).cancelled = true at raised
      rw [tokens, restoreFlag, get_modifyToken, if_neg fun h => mine h.1] at raised
      exact raised

/-- Tokens are touched by steps, and by cancellations and their withdrawal from outside. -/
theorem tokens_happen (w : World) (e : Event) : (w.happen e).tokens = w.tokens ∨
    (∃ a p, e = .step a ∧ (w.actor a).activity = .busy .running p) ∨ (∃ x, e = .cancel x) ∨
      ∃ x, e = .take x := by
  cases e with
  | begin b op =>
    refine Or.inl ?_
    change (w.begin b op).tokens = _
    unfold World.begin
    split <;> rfl
  | resume b =>
    refine Or.inl ?_
    change (w.resume b).tokens = _
    unfold World.resume
    split
    · rename_i st p busy
      cases st <;> rfl
    · rfl
  | step b =>
    by_cases running : ∃ p, (w.actor b).activity = .busy .running p
    · obtain ⟨p, running⟩ := running
      exact Or.inr (Or.inl ⟨b, p, rfl, running⟩)
    · exact Or.inl (by rw [happen, step_of_not_running fun p hp => running ⟨p, hp⟩])
  | elapse d => exact Or.inl (tokens_endParks { w with now := w.now + d } _)
  | cancel x => exact Or.inr (Or.inr (Or.inl ⟨x, rfl⟩))
  | take x => exact Or.inr (Or.inr (Or.inr ⟨x, rfl⟩))
  | wake b => exact Or.inl (tokens_endPark _ b)
  | breakHook | arm | order => exact Or.inl rfl

theorem waiter_happen {e : Event} (of : ∀ a p, (w.actor a).position = some p → ∃ op, p.Of op) (x : TokenId) :
    ((w.happen e).tokens.get x).waiter = (w.tokens.get x).waiter ∨
      ∃ a op, e = .step a ∧ (w.actor a).activity = .busy .running (.start op) ∧ op.token = some x := by
  rcases w.tokens_happen e with same | ⟨a, p, rfl, running⟩ | ⟨y, rfl⟩ | ⟨y, rfl⟩
  · exact Or.inl (by rw [same])
  · rw [happen, tokens_step w a running]
    rcases w.stride_course a p with ⟨-, -, eq⟩ | ⟨eq, -⟩
    · exact Or.inl (by rw [eq]; rfl)
    · obtain ⟨op, of⟩ := of a p (Actor.position_of_busy running)
      rw [eq]
      rcases (handles_advance of).waiter x with same | ⟨op', rfl, token⟩
      · exact Or.inl (by rw [same, tokens_looked])
      · exact Or.inr ⟨a, op', rfl, running, token⟩
  · refine Or.inl ?_
    rw [happen, World.cancel, tokens_wakeAll, waiter_modifyToken _ (·.cancel.1) fun _ => rfl]
  · refine Or.inl ?_
    rw [happen, takeFlag, waiter_modifyToken _ (·.take.1) fun _ => rfl]

theorem cancel_alert (known : (w.tokens.get x).waiter = some b) (inTable : b < w.actors.size) :
    ((w.cancel x).actor b).Alert :=
  wakeAll_alert (by rw [Token.cancel, known]; simp) inTable

/-- Whoever raises the flag of a token is at an operation of that token, or wakes whom the token knows. -/
theorem flag_happen {e : Event} (of : ∀ a p, (w.actor a).position = some p → ∃ op, p.Of op)
    (raised : (w.happen e).flagged (some x) = true) : w.flagged (some x) = true ∨
      (∃ a p, e = .step a ∧ (w.actor a).activity = .busy .running p ∧ p.token = some x) ∨
      ∀ b, (w.tokens.get x).waiter = some b → b < w.actors.size →
        ((w.happen e).actor b).isParked = false := by
  rcases w.tokens_happen e with same | ⟨a, p, rfl, running⟩ | ⟨y, rfl⟩ | ⟨y, rfl⟩
  · exact Or.inl ((flagged_of_tokens same).symm.trans raised)
  · have inTable : a < w.actors.size := lt_of_position (by simp [Actor.position, running])
    rw [happen, flagged_of_tokens (tokens_step w a running)] at raised
    rcases w.stride_course a p with ⟨-, -, eq⟩ | ⟨eq, -⟩
    · rw [eq] at raised
      exact Or.inl raised
    · obtain ⟨op, of⟩ := of a p (Actor.position_of_busy running)
      rw [eq] at raised
      rcases (handles_advance of).flag raised with before | own | ⟨rfl, v, cancels⟩
      · exact Or.inl ((flagged_looked w a p (some x)).symm.trans before)
      · exact Or.inr (Or.inl ⟨a, p, rfl, running, own⟩)
      · refine Or.inr (Or.inr fun b known there => ?_)
        rw [happen, step_eq running, eq, cancels]
        by_cases mine : b = a
        · subst mine
          refine Bool.eq_false_iff.2 fun parked => ?_
          obtain ⟨t, p, parked⟩ := Actor.exists_of_isParked parked
          rw [activity_setActivity _ ?_] at parked
          · simp [Next.activity] at parked
          · change _ < (World.wakeAll _ _).actors.size
            rw [size_wakeAll]
            exact inTable
        · rw [actor_setActivity_of_ne _ _ (Ne.symm mine)]
          exact (cancel_alert (by rw [tokens_looked, known]) (by rwa [size_looked])).not_isParked
  · by_cases mine : y = x
    · exact Or.inr (Or.inr fun b known there => (cancel_alert (mine ▸ known) there).not_isParked)
    · refine Or.inl ?_
      change ((w.cancel y).tokens.get x).cancelled = true at raised
      rw [World.cancel, tokens_wakeAll, get_modifyToken, if_neg fun h => mine (Option.some.inj h.1)] at raised
      exact raised
  · refine Or.inl ?_
    change ((w.modifyToken (some y) (·.take.1)).tokens.get x).cancelled = true at raised
    rw [get_modifyToken] at raised
    split at raised
    · simp [Token.take] at raised
    · exact raised

/-- Whoever is given a token can be reached by it: the token knows whom to wake, and no flag is up for
somebody who is parked. -/
structure Summonable (w : World) : Prop where
  of : ∀ a p, (w.actor a).position = some p → ∃ op, p.Of op
  apart : ∀ a p b q x, (w.actor a).position = some p → (w.actor b).position = some q →
    p.token = some x → q.token = some x → a = b
  known : ∀ a p x, (w.actor a).position = some p → (∀ op, p ≠ .start op) → p.token = some x →
    x < w.tokens.size → (w.tokens.get x).waiter = some a
  parked : ∀ a t p, (w.actor a).activity = .busy (.parked t) p →
    p.parks = true ∧ w.flagged p.token = false

namespace Summonable

/-- An operation that has a token had it before, or was given it. -/
theorem held {e : Event} (h : Summonable w) (hp : ((w.happen e).actor a).position = some p')
    (token : p'.token = some x) : (∃ p, (w.actor a).position = some p ∧ p.token = some x) ∨
      ∃ op, e = .begin a op ∧ (w.actor a).activity = .idle ∧ op.token = some x := by
  rcases w.position_cases a hp with ⟨before, -⟩ | ⟨op, rfl, idle, rfl⟩ | ⟨p, rfl, running, course, next⟩
  · exact Or.inl ⟨p', before, token⟩
  · exact Or.inr ⟨op, rfl, idle, token⟩
  · have position := Actor.position_of_busy running
    refine Or.inl ⟨p, position, ?_⟩
    obtain ⟨op, of⟩ := h.of a p position
    rcases of.token with same | ⟨_, _, _, rfl⟩
    · rcases (course.of of next).token with same' | ⟨_, _, _, rfl⟩
      · rw [same, ← same', token]
      · simp [Position.token] at token
    · generalize w.stride a _ = r at course next
      cases course with
      | reckon => simp [Next.position] at next

/-- Nobody is given a token that another may still look at. -/
theorem fresh (sole : w.sole (.begin a op) = true) (idle : (w.actor a).activity = .idle)
    (token : op.token = some x) (hp : (w.actor b).position = some p) : p.token ≠ some x := by
  have inTable : b < w.actors.size := lt_of_position (by simp [hp])
  have free : (w.actor a).position.isSome = false := by rw [Actor.position, idle]; rfl
  simp only [World.sole, free, token, Bool.false_or, Option.all_some, List.all_eq_true] at sole
  have ne := sole b (List.mem_range.2 inTable)
  rw [hp] at ne
  simpa using ne

theorem apart_happen {e : Event} (h : Summonable w) (sole : w.sole e = true) {q : Position}
    (hp : ((w.happen e).actor a).position = some p) (hq : ((w.happen e).actor b).position = some q)
    (token : p.token = some x) (token' : q.token = some x) : a = b := by
  rcases h.held hp token with ⟨p₀, before, same⟩ | ⟨op, rfl, idle, given⟩
  · rcases h.held hq token' with ⟨q₀, before', same'⟩ | ⟨op, rfl, idle, given⟩
    · exact h.apart a p₀ b q₀ x before before' same same'
    · exact absurd same (fresh sole idle given before)
  · rcases h.held hq token' with ⟨q₀, before', same'⟩ | ⟨op', begins, -, -⟩
    · exact absurd same' (fresh sole idle given before')
    · exact (Event.begin.inj begins).1

theorem known_happen {e : Event} (h : Summonable w) (hp : ((w.happen e).actor a).position = some p')
    (begun : ∀ op, p' ≠ .start op) (token : p'.token = some x) (inTable : x < w.tokens.size) :
    ((w.happen e).tokens.get x).waiter = some a := by
  rcases w.position_cases a hp with ⟨before, bides⟩ | ⟨op, -, -, rfl⟩ | ⟨p, rfl, running, course, next⟩
  · rcases waiter_happen (e := e) h.of x with same | ⟨b, op, rfl, running, given⟩
    · rw [same]
      exact h.known a p' x before begun token inTable
    · obtain rfl := h.apart b _ a p' x (Actor.position_of_busy running) before given token
      obtain rfl := Option.some.inj (before.symm.trans (Actor.position_of_busy running))
      exact absurd rfl (begun op)
  · exact absurd rfl (begun op)
  · have position := Actor.position_of_busy running
    obtain ⟨op, of⟩ := h.of a p position
    obtain ⟨p₀, same, own⟩ | ⟨_, begins, -⟩ := h.held hp token
    swap
    · simp at begins
    obtain rfl := Option.some.inj (position.symm.trans same)
    rw [World.happen, tokens_step w a running]
    rcases w.stride_course a p with ⟨-, -, eq⟩ | ⟨eq, -⟩
    · rw [eq] at next ⊢
      obtain rfl := Option.some.inj next
      exact h.known a p x position begun token inTable
    · have handles : Handles (w.looked a p) a p ((w.looked a p).advance a p) := handles_advance of
      rw [← eq] at handles
      by_cases starts : ∃ op, p = .start op
      · obtain ⟨op', rfl⟩ := starts
        exact handles.known next own (by rwa [tokens_looked])
      · have begun : ∀ op, p ≠ .start op := fun op e => starts ⟨op, e⟩
        rcases handles.waiter x with unchanged | ⟨op', e, -⟩
        · rw [unchanged, tokens_looked]
          exact h.known a p x position begun own inTable
        · exact absurd e (begun op')

theorem happen {e : Event} (h : Summonable w) (sole : w.sole e = true) : Summonable (w.happen e) where
  of a p' hp := by
    rcases w.position_cases a hp with ⟨before, -⟩ | ⟨op, -, -, rfl⟩ | ⟨p, rfl, running, course, next⟩
    · exact h.of a p' before
    · exact ⟨op, rfl⟩
    · obtain ⟨op, of⟩ := h.of a p (Actor.position_of_busy running)
      exact ⟨op, course.of of next⟩
  apart a p b q x hp hq token token' := h.apart_happen sole hp hq token token'
  known a p x hp begun token inTable :=
    h.known_happen hp begun token (w.size_tokens_happen e ▸ inTable)
  parked a t p' parked := by
    have fares := w.fares a e
    generalize same : (w.happen e).actor a = y at fares parked
    cases fares with
    | rests eased _ other =>
      have before : (w.actor a).activity = .busy (.parked t) p' := by
        rcases eased.activity with same | ⟨_, _, _, awake⟩
        · rw [← same, parked]
        · simp [awake] at parked
      have position := Actor.position_of_busy before
      obtain ⟨parks, calm⟩ := h.parked a t p' before
      refine ⟨parks, Bool.eq_false_iff.2 fun raised => ?_⟩
      obtain ⟨x, token, known⟩ := exists_of_flagged raised
      rw [size_tokens_happen] at known
      rw [token] at raised calm
      rcases flag_happen h.of raised with up | ⟨b, p, rfl, running, own⟩ | wakes
      · simp [up] at calm
      · obtain rfl := h.apart b p a p' x (Actor.position_of_busy running) position own token
        exact other p running rfl
      · have begun : ∀ op, p' ≠ .start op := by
          rintro op rfl
          simp [Position.parks] at parks
        have inTable : a < w.actors.size := lt_of_position (by simp [position])
        have woken := wakes a (h.known a p' x position begun token known) inTable
        rw [same, Actor.isParked, parked] at woken
        simp at woken
    | begins _ busy | resumes _ busy => simp [busy] at parked
    | @steps p _ running activity =>
      have inTable : a < w.actors.size := lt_of_position (by simp [Actor.position, running])
      obtain ⟨op, of⟩ := h.of a p (Actor.position_of_busy running)
      have calm := unflagged_of_parks running of (same ▸ parked)
      rw [activity] at parked
      rcases w.stride_course a p with ⟨-, -, spins⟩ | ⟨-, course⟩
      · simp [spins, Next.activity] at parked
      · have stops : (w.stride a p).2 = .stops (.parked t) p' := by
          cases next : (w.stride a p).2 <;> simp_all [Next.activity]
        have parks : p'.parks = true := by
          rcases stops_cases course (by rwa [size_looked]) stops with paused | ⟨_, -, parks, -⟩
          · simp at paused
          · exact parks
        have of' : p'.Of op := course.of of (by rw [stops]; rfl)
        exact ⟨parks, of'.token_of_parks parks ▸ calm⟩

theorem create {actors tokens : Nat} {syncs : List Synchronizer} {conditions : List SyncId} :
    Summonable (World.create actors tokens syncs conditions) where
  of a p hp := absurd hp (position_create actors tokens syncs conditions a p)
  apart a p _ _ _ hp := absurd hp (position_create actors tokens syncs conditions a p)
  known a p _ hp := absurd hp (position_create actors tokens syncs conditions a p)
  parked a _ p parked :=
    absurd (Actor.position_of_busy parked) (position_create actors tokens syncs conditions a p)

end Summonable

/-- While each token is given to at most one operation at a time, nobody is parked with the flag of its
token up, whatever it waits for; and a cancellation that comes now ends the park. -/
theorem parked_unflagged {actors tokens : Nat} {syncs : List Synchronizer} {conditions : List SyncId}
    {events : List Event}
    (sole : Obeys (fun w e => w.sole e) (World.create actors tokens syncs conditions) events) :
    let start := World.create actors tokens syncs conditions
    let w := start.after events
    (w.actor a).isParked = true → (Diary.since start a events).token = some x →
      w.flagged (some x) = false ∧ (x < w.tokens.size → ((w.cancel x).actor a).isParked = false) := by
  intro start w parked given
  have summonable : Summonable w := invariant (fun _ _ => Summonable.happen) .create sole
  obtain ⟨t, p, parked⟩ := Actor.exists_of_isParked parked
  have position := Actor.position_of_busy parked
  have tracks : Diary.Tracks a w (Diary.since start a events) :=
    collect_always (fun _ e _ h => h.happen e)
      (fun p hp => absurd hp (position_create actors tokens syncs conditions a p)) events
  obtain ⟨op, task, of⟩ := tracks p position
  obtain ⟨parks, calm⟩ := summonable.parked a t p parked
  have token : p.token = some x := by
    rw [of.token_of_parks parks, ← given, Diary.token, task]
    rfl
  have begun : ∀ op, p ≠ .start op := by
    rintro op rfl
    simp [Position.parks] at parks
  refine ⟨token ▸ calm, fun inTable => ?_⟩
  have there : a < w.actors.size := lt_of_position (by simp [position])
  exact (cancel_alert (summonable.known a p x position begun token inTable) there).not_isParked

/-- Someone waits on a condition and is signalled, but has to queue for its lock; the cancellation that
comes is put off, and it parks again. -/
theorem parked_unflagged_requeued :
    let w := (World.create 2 1 [{ policy := .mutex, state := 0 }] [0]).after
      (.begin 1 (.acquire 0 .exclusive 1 .plain) :: List.replicate 5 (.step 1) ++
        .begin 1 (.wait 0 0 (.uninterruptible (some 0))) :: List.replicate 11 (.step 1) ++
        .begin 0 (.acquire 0 .exclusive 1 .plain) :: List.replicate 5 (.step 0) ++
        .begin 0 (.errand 0 0 .signal) :: List.replicate 5 (.step 0) ++
        .cancel 0 :: .resume 1 :: List.replicate 8 (.step 1))
    (w.actor 1).isParked = true ∧ w.flagged (some 0) = false ∧ ((w.cancel 0).actor 1).isParked = false :=
  have parked := by decide +kernel
  have reached := parked_unflagged (by decide +kernel) parked (by decide +kernel)
  ⟨parked, reached.1, reached.2 (by decide +kernel)⟩

end World

end Turnstile
