import Turnstile.Proofs.World.Waits

/-! The course of an operation, step by step: where each step may lead, how the operation may end, and
what becomes of the flags of tokens. -/
namespace Turnstile

def Style.patience (now : Moment) : Style → Patience
  | .plain => {}
  | .uninterruptible token => { token }
  | .interruptible token => { token, interruptible := true }
  | .timed token limit => { token, interruptible := true, deadline := limit.deadlineFrom now }

def Style.isTimed : Style → Bool
  | .timed .. => true
  | _ => false

def Operation.site (w : World) : Operation → Option Site
  | .acquire s mode arg style =>
    some (.attempt ⟨s, mode, arg, style.patience w.now, .operation style.isTimed⟩)
  | .release s mode arg => some (.release s mode arg)
  | .isHeld s => some (.isHeld s)
  | .wait s c style => some (.wait (w.waitTerms s c style))
  | .errand s c e => some (.errand s c e)
  | _ => none

/-- A cancellation that was put off while the saved state was claimed came after the signal. -/
def Waiting.settled (v : Waiting) (swallowed : Bool) : Waiting :=
  if swallowed && v.interruption != .beforeSignal then { v with interruption := .afterSignal } else v

def Waiting.outcome (v : Waiting) : Next :=
  if v.interruption = .beforeSignal then .ends (.failed .interrupted)
  else
    match v.terms.report with
    | .done => .ends .done
    | .inTime => .ends (.truth !v.timedOut)
    | .timeLeft start timeout => .goes (.reckoning start timeout v.timedOut)

namespace Claim

def outcome (c : Claim) (swallowed : Bool) : Next :=
  match c.purpose with
  | .operation timed => .ends (if timed then .truth true else .done)
  | .afterWait v => (v.settled swallowed).outcome

/-- Whether the flag of its token has to be raised again. -/
def restores (c : Claim) (swallowed : Bool) : Bool :=
  match c.purpose with
  | .operation _ => swallowed
  | .afterWait v => (v.settled swallowed).interruption = .afterSignal

def token (c : Claim) : Option TokenId :=
  match c.purpose with
  | .operation _ => c.patience.token
  | .afterWait v => v.terms.patience.token

end Claim

theorem Waiting.settled_same (v : Waiting) (swallowed : Bool) :
    (v.settled swallowed).terms = v.terms ∧ (v.settled swallowed).timedOut = v.timedOut ∧
      ((v.settled swallowed).interruption = .beforeSignal ↔ v.interruption = .beforeSignal) := by
  unfold Waiting.settled
  split
  · rename_i late
    have ne : v.interruption ≠ .beforeSignal := by simpa using (Bool.and_eq_true_iff.1 late).2
    exact ⟨rfl, rfl, by simp [ne]⟩
  · exact ⟨rfl, rfl, Iff.rfl⟩

/-- A claim that is granted ends the operation, unless a wait has to tell how much of its timeout is
left. -/
theorem Claim.outcome_cases (c : Claim) (swallowed : Bool) : (∃ v, c.outcome swallowed = .ends v) ∨
    ∃ v start timeout, c.purpose = .afterWait v ∧ v.terms.report = .timeLeft start timeout ∧
      v.interruption ≠ .beforeSignal ∧
      c.outcome swallowed = .goes (.reckoning start timeout v.timedOut) := by
  unfold outcome
  split
  · exact Or.inl ⟨_, rfl⟩
  · rename_i v purpose
    obtain ⟨terms, timedOut, interruption⟩ := v.settled_same swallowed
    unfold Waiting.outcome
    split
    · exact Or.inl ⟨_, rfl⟩
    · rename_i unfinished
      rw [terms]
      split
      · exact Or.inl ⟨_, rfl⟩
      · exact Or.inl ⟨_, rfl⟩
      · rename_i start timeout report
        refine Or.inr ⟨v, start, timeout, purpose, report, fun e => unfinished (interruption.2 e), ?_⟩
        rw [timedOut]

def Patience.isOver (x : Patience) (now : Moment) : Prop := ∃ d, x.deadline = some d ∧ d ≤ now

/-- The actor parks, and its looks at the clock are renewed. -/
def Parks (w : World) (me : ActorId) (w' : World) (n : Next) (p : Position) : Prop :=
  (∃ t, n = .stops (.parked t) p) ∧ (me < w.actors.size → (w'.actor me).looks = Actor.freshLooks)

/-- What an actor may come to in one step from a position. -/
inductive Course (w : World) (me : ActorId) : Position → World × Next → Prop
  | decline {op w' v} (unmet : ∀ site, op.site w = some site →
      v = .failed .interrupted ∨ v = .failed .foreignCondition) : Course w me (.start op) (w', .ends v)
  | open {op w' site} (opens : op.site w = some site) (flags : ∀ t, w'.flagged t = w.flagged t) :
      Course w me (.start op) (w', .goes (.call site .arriving))
  | enter {site w' n} (tokens : w'.tokens = w.tokens) (syncs : w'.syncs = w.syncs)
      (next : n = .goes (.call site .entering) ∨ n = .stops .paused (.call site .entering)) :
      Course w me (.call site .arriving) (w', n)
  | ask {site} : Course w me (.call site .entering)
      ((w.ask site.sync site.hook me site.arg).1,
        .goes (.call site (.leaving ((w.sync site.sync).ask site.hook me site.arg).2)))
  | leave {site answer w' n} (tokens : w'.tokens = w.tokens) (syncs : w'.syncs = w.syncs)
      (next : n = .goes (.call site (.answered answer)) ∨
        n = .stops .paused (.call site (.answered answer))) :
      Course w me (.call site (.leaving answer)) (w', n)
  | fail {site e w' v} (tokens : w'.tokens = w.tokens) (error : v = .failed e ∨ ∃ f, v = .faulted f) :
      Course w me (.call site (.answered (.error e))) (w', .ends v)
  | queue {c v} (refused : v.isGrant = false) :
      Course w me (.call (.attempt c) (.answered (.ok v))) (w, .goes (.queueing c))
  | linger {q v} (refused : v.isGrant = false) :
      Course w me (.call (.turn q) (.answered (.ok v))) (w, .goes (.lingering q))
  | refuse {site v w' x} (refused : v.isGrant = false) (tokens : w'.tokens = w.tokens)
      (told : (((∃ s mode arg, site = .release s mode arg) ∨ ∃ s, site = .isHeld s) ∧ x = .truth false) ∨
        (∃ t, site = .wait t ∧ x = .failed .notHeld) ∨
        (∃ s c e, site = .errand s c e ∧ x = .failed .notHeld) ∨
        ∃ t n saved, site = .letGo t n saved ∧ x = .failed .notFreed) :
      Course w me (.call site (.answered (.ok v))) (w', .ends x)
  | conclude {site c swallowed v w'} (granted : v.isGrant = true)
      (gets : (site = .attempt c ∧ swallowed = false) ∨
        ∃ q, site = .turn q ∧ c = q.claim ∧ swallowed = q.swallowed)
      (tokens : w'.tokens = (if c.restores swallowed then w.restoreFlag c.token else w).tokens) :
      Course w me (.call site (.answered (.ok v))) (w', c.outcome swallowed)
  | grant {site v w' x} (granted : v.isGrant = true) (tokens : w'.tokens = w.tokens)
      (told : (((∃ s mode arg, site = .release s mode arg) ∨ ∃ s, site = .isHeld s) ∧ x = .truth true) ∨
        ∃ s c e, site = .errand s c e) : Course w me (.call site (.answered (.ok v))) (w', .ends x)
  | enterWait {t n v w'} (granted : v.isGrant = true) (tokens : w'.tokens = w.tokens) :
      Course w me (.call (.wait t) (.answered (.ok v)))
        (w', .goes (.call (.letGo t n (w.sync t.sync).state) .arriving))
  | letGo {t n saved v} (granted : v.isGrant = true) :
      Course w me (.call (.letGo t n saved) (.answered (.ok v)))
        (w.apply t.sync (w.queue t.sync).wakeFirst, .goes (.waiting { terms := t, node := n, saved }))
  | expire {c} (overdue : c.patience.isOver w.now) : Course w me (.queueing c) (w, .ends (.truth false))
  | join {c} : Course w me (.queueing c) (w.setQueue c.sync ((w.queue c.sync).join c.mode me).1,
      .goes (.turn ⟨c, (w.queue c.sync).nodes.size, false⟩))
  | stray {q f} : Course w me (.turn q) (w, .ends (.faulted f))
  | call {q} : Course w me (.turn q) (w, .goes (.call (.turn q) .arriving))
  | await {q} : Course w me (.turn q) (w, .goes (.lingering q))
  | giveUp {q w' v} (tokens : w'.tokens = w.tokens)
      (overdue : (v = .truth false ∧ q.claim.patience.isOver w.now) ∨ ∃ f, v = .faulted f) :
      Course w me (.lingering q) (w', .ends v)
  | again {q w'} (tokens : w'.tokens = w.tokens) : Course w me (.lingering q) (w', .goes (.turn q))
  | park {q w' n} (tokens : w'.tokens = w.tokens)
      (next : n = .goes (.roused q) ∨
        (w.flagged q.claim.patience.token = false ∧ Parks w me w' n (.roused q))) :
      Course w me (.lingering q) (w', n)
  | retry {q w'} (calm : w.flagged q.claim.patience.token = false)
      (tokens : w'.tokens = (w.takeFlag q.claim.patience.token).1.tokens) :
      Course w me (.roused q) (w', .goes (.turn q))
  | interrupt {q w' v} (raised : w.flagged q.claim.patience.token = true)
      (interruptible : q.claim.patience.interruptible = true)
      (ended : v = .failed .interrupted ∨ ∃ f, v = .faulted f) : Course w me (.roused q) (w', .ends v)
  | swallow {q w'} (raised : w.flagged q.claim.patience.token = true)
      (uninterruptible : q.claim.patience.interruptible = false)
      (tokens : w'.tokens = (w.takeFlag q.claim.patience.token).1.tokens) :
      Course w me (.roused q) (w', .goes (.turn { q with swallowed := true }))
  | reclaim {v} (moved : (w.queue v.terms.sync).holds v.node = true) :
      Course w me (.waiting v) (w, .goes (World.reclaim v))
  | doze {v} (unmoved : (w.queue v.terms.sync).holds v.node = false) :
      Course w me (.waiting v) (w, .goes (.dozing v))
  | timeOut {v w' timedOut} (tokens : w'.tokens = w.tokens) (overdue : v.terms.patience.isOver w.now)
      (moves : timedOut = decide (((w.queue v.terms.sync).node v.node).status = .condition)) :
      Course w me (.dozing v) (w', .goes (World.reclaim { v with timedOut }))
  | sleep {v w' n} (tokens : w'.tokens = w.tokens) (syncs : w'.syncs = w.syncs)
      (early : ¬v.terms.patience.isOver w.now)
      (next : n = .goes (.awoken v) ∨
        (w.flagged v.terms.patience.token = false ∧ Parks w me w' n (.awoken v))) :
      Course w me (.dozing v) (w', n)
  | look {v w'} (calm : w.flagged v.terms.patience.token = false)
      (tokens : w'.tokens = (w.takeFlag v.terms.patience.token).1.tokens) (syncs : w'.syncs = w.syncs) :
      Course w me (.awoken v) (w', .goes (.waiting v))
  | cancel {v w' interruption} (raised : w.flagged v.terms.patience.token = true)
      (interruptible : v.terms.patience.interruptible = true)
      (tokens : w'.tokens = (w.takeFlag v.terms.patience.token).1.tokens)
      (moves : interruption = if ((w.queue v.terms.sync).node v.node).status = .condition then
        .beforeSignal else .afterSignal) :
      Course w me (.awoken v) (w', .goes (World.reclaim { v with interruption }))
  | putOff {v w'} (raised : w.flagged v.terms.patience.token = true)
      (uninterruptible : v.terms.patience.interruptible = false)
      (tokens : w'.tokens = (w.takeFlag v.terms.patience.token).1.tokens) (syncs : w'.syncs = w.syncs) :
      Course w me (.awoken v) (w', .goes (.waiting { v with interruption := .afterSignal }))
  | reckon {start timeout timedOut} : Course w me (.reckoning start timeout timedOut)
      (w, .ends (.timeLeft (if timedOut || timeout - (w.now - start) = 0 then none
        else some (timeout - (w.now - start)))))

theorem Next.position_of_pauses {n : Next} {p p' : Position} (goes : n = .goes p ∨ n = .stops .paused p)
    (next : n.position = some p') : p = p' := by
  rcases goes with rfl | rfl <;> exact Option.some.inj next

theorem Next.position_of_parks {w w' : World} {me : ActorId} {n : Next} {p p' : Position} {calm : Prop}
    (goes : n = .goes p ∨ (calm ∧ Parks w me w' n p)) (next : n.position = some p') : p = p' := by
  rcases goes with rfl | ⟨-, ⟨t, rfl⟩, -⟩ <;> exact Option.some.inj next

theorem WaitQueue.moves_transferUnsignalled (q : WaitQueue) (n : NodeId) :
    (q.transferUnsignalled n).2 = decide ((q.node n).status = .condition) := by
  unfold WaitQueue.transferUnsignalled
  split <;> simp_all

theorem Patience.isOver_iff {x : Patience} {now : Moment} :
    x.deadline.map (Moment.left now) = some 0 ↔ x.isOver now := by
  simp [Patience.isOver, Moment.left_eq_zero]

namespace World

section tokens

variable (w : World)

theorem tokens_endPark (a : ActorId) : (w.endPark a).tokens = w.tokens := by
  unfold endPark
  split <;> rfl

@[simp] theorem tokens_wakeAll (as : List ActorId) : (w.wakeAll as).tokens = w.tokens := by
  induction as generalizing w with
  | nil => rfl
  | cons a rest ih => exact (ih (w.wake a)).trans (tokens_endPark _ a)

@[simp] theorem tokens_apply (s : SyncId) (r : WaitQueue × Option ActorId) :
    (w.apply s r).tokens = w.tokens :=
  tokens_wakeAll _ _

theorem tokens_modifyToken {w w' : World} (same : w'.tokens = w.tokens) (t : Option TokenId)
    (f : Token → Token) : (w'.modifyToken t f).tokens = (w.modifyToken t f).tokens := by
  cases t with
  | none => exact same
  | some t => exact congrArg (·.modify t f) same

theorem flagged_of_tokens {w w' : World} (tokens : w'.tokens = w.tokens) {t : Option TokenId} :
    w'.flagged t = w.flagged t := by
  rw [flagged, tokens]
  rfl

theorem flagged_modifyToken (f : Token → Token) (keeps : ∀ x, (f x).cancelled = x.cancelled)
    (t t' : Option TokenId) : (w.modifyToken t f).flagged t' = w.flagged t' := by
  cases t with
  | none => rfl
  | some t =>
    cases t' with
    | none => rfl
    | some t' =>
      change ((w.tokens.modify t f).get t').cancelled = (w.tokens.get t').cancelled
      rw [Table.get_modify]
      split
      · exact keeps _
      · rfl

end tokens

variable {w : World} {me : ActorId}

theorem course_registerThen {op : Operation} {patience : Patience} {site : Site}
    (opens : op.site w = some site) :
    Course w me (.start op) (w.registerThen me patience site) := by
  have flags : ∀ t, (w.register patience.token me).flagged t = w.flagged t :=
    fun t => w.flagged_modifyToken (·.register me) (fun _ => rfl) patience.token t
  unfold registerThen
  dsimp only
  split
  · exact .decline fun _ _ => Or.inl rfl
  · exact .open opens flags

theorem startOperation_acquire (s : SyncId) (mode : Mode) (arg : Int) (style : Style) :
    w.startOperation me (.acquire s mode arg style) = w.registerThen me (style.patience w.now)
      (.attempt ⟨s, mode, arg, style.patience w.now, .operation style.isTimed⟩) := by
  cases style <;> rfl

theorem course_start (op : Operation) : Course w me (.start op) (w.startOperation me op) := by
  cases op with
  | acquire s mode arg style =>
    rw [startOperation_acquire]
    exact course_registerThen rfl
  | release s mode arg => exact .open rfl fun _ => rfl
  | isHeld s => exact .open rfl fun _ => rfl
  | wait s c style =>
    simp only [startOperation]
    split
    · exact course_registerThen rfl
    · exact .decline fun _ _ => Or.inr rfl
  | errand s c e =>
    simp only [startOperation]
    split
    · exact .open rfl fun _ => rfl
    · exact .decline fun _ _ => Or.inr rfl
  | exchangeState s expected update =>
    simp only [startOperation]
    split <;> exact .decline fun _ site => by simp [Operation.site] at site
  | _ => exact .decline fun _ site => by simp [Operation.site] at site

theorem endWait_spec (w : World) (v : Waiting) :
    (w.endWait v).2 = v.outcome ∧ (w.endWait v).1.tokens =
      (if v.interruption = .afterSignal then w.restoreFlag v.terms.patience.token else w).tokens := by
  unfold endWait
  extract_lets t linked w₁ w₂
  have pruned : w₁.tokens = w.tokens := by
    unfold w₁
    split <;> rfl
  have restored : w₂.tokens =
      (if v.interruption = .afterSignal then w.restoreFlag v.terms.patience.token else w).tokens := by
    unfold w₂
    split
    · exact tokens_modifyToken pruned _ _
    · exact pruned
  unfold Waiting.outcome
  split
  · exact ⟨rfl, restored⟩
  · have same : v.terms.report = t.report := rfl
    rw [same]
    cases t.report <;> exact ⟨rfl, restored⟩

theorem conclude_spec (w : World) (c : Claim) (swallowed : Bool) :
    (w.conclude c swallowed).2 = c.outcome swallowed ∧ (w.conclude c swallowed).1.tokens =
      (if c.restores swallowed then w.restoreFlag c.token else w).tokens := by
  unfold conclude Claim.outcome Claim.restores Claim.token
  cases c.purpose with
  | operation timed => exact ⟨rfl, rfl⟩
  | afterWait v =>
    have settled := (v.settled_same swallowed).1
    obtain ⟨outcome, tokens⟩ := endWait_spec w (v.settled swallowed)
    rw [settled] at tokens
    refine ⟨outcome, tokens.trans ?_⟩
    simp only [decide_eq_true_eq]

theorem course_conclude {site : Site} {c : Claim} {swallowed : Bool} {v : Verdict} {w₁ : World}
    (granted : v.isGrant = true) (same : w₁.tokens = w.tokens)
    (gets : (site = .attempt c ∧ swallowed = false) ∨
      ∃ q, site = .turn q ∧ c = q.claim ∧ swallowed = q.swallowed) :
    Course w me (.call site (.answered (.ok v))) (w₁.conclude c swallowed) := by
  obtain ⟨outcome, tokens⟩ := w₁.conclude_spec c swallowed
  generalize w₁.conclude c swallowed = r at outcome tokens
  obtain ⟨w', n⟩ := r
  obtain rfl : n = c.outcome swallowed := outcome
  refine .conclude granted gets (tokens.trans ?_)
  split
  · exact tokens_modifyToken same _ _
  · exact same

theorem abandon_spec (w : World) (q : Queued) (v : Value) :
    ∃ w' v', w.abandon q v = (w', .ends v') ∧ w'.tokens = w.tokens ∧ (v' = v ∨ ∃ f, v' = .faulted f) := by
  unfold abandon
  have tokens : (w.withdraw q.claim.sync q.node).1.tokens = w.tokens := tokens_apply _ _ _
  split
  · rename_i w' e
    rw [e] at tokens
    exact ⟨w', v, rfl, tokens, Or.inl rfl⟩
  · rename_i w' f e
    rw [e] at tokens
    exact ⟨w', _, rfl, tokens, Or.inr ⟨f, rfl⟩⟩

theorem course_resolve (site : Site) (answer : Except SyncError Verdict) :
    Course w me (.call site (.answered answer)) (w.resolve me site answer) := by
  cases answer with
  | error e =>
    cases site with
    | turn q =>
      obtain ⟨w', v, eq, tokens, error⟩ := w.abandon_spec q (.failed e)
      rw [resolve, resolveError, eq]
      exact .fail tokens error
    | _ => exact .fail rfl (Or.inl rfl)
  | ok v =>
    unfold resolve
    dsimp only
    split
    · rename_i granted
      cases site with
      | attempt c => exact course_conclude granted rfl (Or.inl ⟨rfl, rfl⟩)
      | turn q =>
        obtain ⟨queue, eq, -⟩ := w.takeTurn_eq q v
        rw [resolveGrant, eq]
        exact course_conclude granted (tokens_apply _ _ _) (Or.inr ⟨q, rfl, rfl, rfl⟩)
      | release s mode arg =>
        cases mode with
        | _ => exact .grant granted (tokens_apply _ _ _) (Or.inl ⟨Or.inl ⟨s, _, arg, rfl⟩, rfl⟩)
      | isHeld s => exact .grant granted rfl (Or.inl ⟨Or.inr ⟨s, rfl⟩, rfl⟩)
      | wait t =>
        have state : ∀ q c, (((w.setQueue t.sync q).setCondition t.condition c).sync t.sync).state =
            (w.sync t.sync).state := by
          intro q c
          change ((w.setQueue t.sync q).sync t.sync).state = _
          rw [setQueue, sync_modifySync]
          split <;> rfl
        rw [resolveGrant, enterCondition]
        dsimp only
        rw [state]
        exact .enterWait granted rfl
      | letGo t n saved => exact .letGo granted
      | errand s c e =>
        have tokens : (w.runErrand s c e).1.tokens = w.tokens := by
          cases e <;> first | rfl | exact tokens_wakeAll _ _
        exact .grant granted tokens (Or.inr ⟨s, c, e, rfl⟩)
    · rename_i refused
      have refused : v.isGrant = false := by simpa using refused
      cases site with
      | attempt c => exact .queue refused
      | turn q => exact .linger refused
      | release s mode arg => exact .refuse refused rfl (Or.inl ⟨Or.inl ⟨s, mode, arg, rfl⟩, rfl⟩)
      | isHeld s => exact .refuse refused rfl (Or.inl ⟨Or.inr ⟨s, rfl⟩, rfl⟩)
      | wait t => exact .refuse refused rfl (Or.inr (Or.inl ⟨t, rfl, rfl⟩))
      | errand s c e => exact .refuse refused rfl (Or.inr (Or.inr (Or.inl ⟨s, c, e, rfl, rfl⟩)))
      | letGo t n saved => exact .refuse refused rfl (Or.inr (Or.inr (Or.inr ⟨t, n, saved, rfl, rfl⟩)))

theorem course_call (site : Site) (stage : Stage) :
    Course w me (.call site stage) (w.callHook me site stage) := by
  cases stage with
  | arriving =>
    unfold callHook trip
    dsimp only
    split
    · rename_i e
      obtain ⟨rfl, -⟩ := Prod.mk.inj e
      exact .enter rfl rfl (Or.inr rfl)
    · rename_i e
      obtain ⟨rfl, -⟩ := Prod.mk.inj e
      exact .enter rfl rfl (Or.inl rfl)
  | entering => exact .ask
  | leaving answer =>
    unfold callHook trip
    dsimp only
    split
    · rename_i e
      obtain ⟨rfl, -⟩ := Prod.mk.inj e
      exact .leave rfl rfl (Or.inr rfl)
    · rename_i e
      obtain ⟨rfl, -⟩ := Prod.mk.inj e
      exact .leave rfl rfl (Or.inl rfl)
  | answered answer => exact course_resolve site answer

/-- An actor parks only while its token's flag is down. -/
theorem park_spec (w : World) (me : ActorId) (token : Option TokenId) (timeout : Option Span)
    (p : Position) : (w.park me token timeout p).1.tokens = w.tokens ∧
      ((w.park me token timeout p).2 = .goes p ∨ (w.flagged token = false ∧
        Parks w me (w.park me token timeout p).1 (w.park me token timeout p).2 p)) := by
  unfold park
  split
  · exact ⟨rfl, Or.inl rfl⟩
  · rename_i calm
    dsimp only
    split
    · exact ⟨rfl, Or.inl rfl⟩
    · refine ⟨rfl, Or.inr ⟨by simpa using calm, ⟨_, rfl⟩, fun inTable => ?_⟩⟩
      rw [setLooks, actor_modifyActor, if_pos ⟨rfl, inTable⟩]

theorem course_turn (q : Queued) : Course w me (.turn q) (w.turn q) := by
  unfold World.turn
  dsimp only
  split
  · exact .stray
  · split
    · exact .call
    · exact .await

theorem course_linger (q : Queued) : Course w me (.lingering q) (w.linger me q) := by
  unfold linger
  extract_lets left
  split
  · rename_i overdue
    obtain ⟨w', v, eq, tokens, told⟩ := w.abandon_spec q (.truth false)
    rw [eq]
    exact .giveUp tokens (told.imp_left fun told => ⟨told, Patience.isOver_iff.1 overdue⟩)
  · dsimp only
    split
    · rename_i f _
      exact .giveUp rfl (Or.inr ⟨f, rfl⟩)
    · exact .again rfl
    · split
      · exact .again rfl
      · obtain ⟨tokens, next⟩ :=
          park_spec (w.setQueue q.claim.sync _) me q.claim.patience.token left (.roused q)
        exact .park tokens next

theorem course_rouse (q : Queued) : Course w me (.roused q) (w.rouse q) := by
  have eq : w.takeFlag q.claim.patience.token =
    (w.modifyToken q.claim.patience.token (·.take.1), w.flagged q.claim.patience.token) := rfl
  unfold rouse
  split
  · rename_i w' e
    obtain ⟨rfl, calm⟩ := Prod.mk.inj (eq.symm.trans e)
    exact .retry calm rfl
  · rename_i w' e
    obtain ⟨rfl, raised⟩ := Prod.mk.inj (eq.symm.trans e)
    split
    · rename_i interruptible
      obtain ⟨w', v, eq, -, ended⟩ := abandon_spec (w.modifyToken q.claim.patience.token (·.take.1)) q
        (.failed .interrupted)
      rw [eq]
      exact .interrupt raised interruptible ended
    · rename_i uninterruptible
      exact .swallow raised (by simpa using uninterruptible) rfl

theorem course_doze (v : Waiting) : Course w me (.dozing v) (w.doze me v) := by
  unfold doze
  extract_lets t left
  split
  · rename_i overdue
    exact .timeOut rfl (Patience.isOver_iff.1 overdue) (WaitQueue.moves_transferUnsignalled _ _)
  · rename_i early
    have early : ¬v.terms.patience.isOver w.now := fun overdue => early (Patience.isOver_iff.2 overdue)
    split
    · exact .sleep rfl rfl early (Or.inl rfl)
    · obtain ⟨tokens, next⟩ := park_spec w me t.patience.token left (.awoken v)
      exact .sleep tokens (w.park_cases me t.patience.token left (.awoken v)).1 early next

theorem course_awake (v : Waiting) : Course w me (.awoken v) (w.awake v) := by
  have eq : w.takeFlag v.terms.patience.token =
    (w.modifyToken v.terms.patience.token (·.take.1), w.flagged v.terms.patience.token) := rfl
  unfold awake
  extract_lets t
  split
  · rename_i w' e
    obtain ⟨rfl, calm⟩ := Prod.mk.inj (eq.symm.trans e)
    exact .look calm rfl (syncs_modifyToken w _ _)
  · rename_i w' e
    obtain ⟨rfl, raised⟩ := Prod.mk.inj (eq.symm.trans e)
    split
    · rename_i interruptible
      dsimp only
      have queue : (w.modifyToken t.patience.token (·.take.1)).queue t.sync = w.queue t.sync :=
        queue_modifyToken w _ _ _
      refine .cancel raised interruptible rfl ?_
      rw [queue, WaitQueue.moves_transferUnsignalled]
      simp only [decide_eq_true_eq]
      rfl
    · rename_i uninterruptible
      exact .putOff raised (by simpa using uninterruptible) rfl (syncs_modifyToken w _ _)

theorem course_advance (p : Position) : Course w me p (w.advance me p) := by
  cases p with
  | start op => exact course_start op
  | call site stage => exact course_call site stage
  | queueing c =>
    unfold advance
    dsimp only
    split
    · rename_i overdue
      exact .expire (by simpa [Patience.isOver, Moment.left_eq_zero, Option.any_eq_true] using overdue)
    · exact .join
  | turn q => exact course_turn q
  | lingering q => exact course_linger q
  | roused q => exact course_rouse q
  | waiting v =>
    unfold advance
    dsimp only
    split
    · rename_i moved
      exact .reclaim moved
    · rename_i unmoved
      exact .doze (by simpa using unmoved)
  | dozing v => exact course_doze v
  | awoken v => exact course_awake v
  | reckoning start timeout timedOut => exact .reckon

end World

end Turnstile
