import Turnstile.Proofs.Policy.Locks
import Turnstile.Proofs.World.Cancellation
import Turnstile.Proofs.World.Ledger

/-! Locks count their holds: what actors have been told adds up to the state of the lock, across
acquisitions, releases and waits on conditions. -/
namespace Turnstile

def World.held (s : SyncId) (w : World) (a : ActorId) : Int :=
  holdOf (w.sync s).state (w.sync s).owner a

variable {k : Lock} {s : SyncId} {a : ActorId} {w : World} {e : Event} {l l' : Ledger} {p p' : Position}
  {op : Operation} {held : Int}

def Claim.lends (s : SyncId) (c : Claim) : Option Int :=
  match c.purpose with
  | .operation _ => none
  | .afterWait v => if v.terms.sync = s then some v.saved else none

theorem Stage.granted_eq (stage : Stage) : stage.granted = stage.answer.any grants := by
  cases stage <;> rfl

namespace Position

/-- What the actor has given up for a wait and not got back. -/
def lends (s : SyncId) : Position → Option Int
  | .call (.letGo t _ saved) stage => if t.sync = s ∧ stage.granted = true then some saved else none
  | .waiting v | .dozing v | .awoken v => if v.terms.sync = s then some v.saved else none
  | .turn q | .lingering q | .roused q | .call (.turn q) _ => q.claim.lends s
  | _ => none

def reckons : Position → Bool
  | .reckoning .. => true
  | _ => false

end Position

/-- Whoever makes a claim acquires a synchronizer, or gets back what it has lent for a wait. -/
theorem Claim.of_cases {c : Claim} (of : c.Of op) :
    (∃ timed style, c.purpose = .operation timed ∧ op = .acquire c.sync c.mode c.arg style ∧
      c.lends s = none) ∨
    ∃ (v : Waiting) (style : WaitStyle), c = v.claim ∧ op = .wait v.terms.sync v.terms.condition style ∧
      c.lends s = if v.terms.sync = s then some v.saved else none := by
  unfold Claim.Of at of
  split at of
  · rename_i purpose
    obtain ⟨-, style, rfl, -, -⟩ := of
    exact Or.inl ⟨_, style, purpose, rfl, by rw [Claim.lends, purpose]⟩
  · rename_i v purpose
    obtain ⟨⟨-, style, rfl, -⟩, same⟩ := of
    exact Or.inr ⟨v, style, same, rfl, by rw [Claim.lends, purpose]⟩

namespace Ledger

/-- What the lock counts as the actor's, though it may not have been told. -/
def due (k : Lock) (s : SyncId) (l : Ledger) : Position → Int
  | .call (.letGo ..) _ => l.hold
  | .call site stage =>
    match stage.answer with
    | some answer => if site.sync = s then k.tally site.hook answer l.hold site.arg else l.hold
    | none => l.hold
  | .reckoning .. => l.lent.getD l.hold
  | _ => l.hold

structure Books (k : Lock) (s : SyncId) (l : Ledger) (held : Int) (p : Position) : Prop where
  due : held = l.due k s p
  lent : p.reckons = false → l.lent = p.lends s
  away : ∀ h, l.lent = some h → l.hold = 0
  saved : ∀ t n saved stage, p = .call (.letGo t n saved) stage → t.sync = s → stage.granted = false →
    saved = l.hold
  candid : ∀ site stage, p = .call site stage → site.sync = s → stage.answer ≠ some (.error .interrupted)

theorem Books.congr (h : l.Books k s held p) (same : l'.hold = l.hold ∧ l'.lent = l.lent) :
    l'.Books k s held p := by
  obtain ⟨hold, lent⟩ := same
  refine ⟨?_, lent ▸ h.lent, ?_, hold ▸ h.saved, h.candid⟩
  · rw [h.due]
    unfold Ledger.due
    rw [hold, lent]
  · rw [lent, hold]
    exact h.away

theorem Books.stage {site : Site} {stage stage' : Stage} (h : l.Books k s held (.call site stage))
    (same : stage'.answer = stage.answer) : l.Books k s held (.call site stage') := by
  have granted : stage'.granted = stage.granted := by rw [stage'.granted_eq, same, stage.granted_eq]
  refine ⟨h.due.trans ?_, fun _ => (h.lent rfl).trans ?_, h.away, ?_, ?_⟩
  · cases site <;> simp only [Ledger.due, same]
  · cases site <;> simp only [Position.lends, granted]
  · intro t n saved stage₁ e here ungranted
    obtain ⟨rfl, rfl⟩ := Position.call.inj e
    exact h.saved t n saved stage rfl here (granted.symm.trans ungranted)
  · intro site₁ stage₁ e here
    obtain ⟨rfl, rfl⟩ := Position.call.inj e
    rw [same]
    exact h.candid _ stage rfl here

/-- Whoever goes on to a position where nothing is asked or answered keeps its books. -/
theorem Books.quiet (h : l.Books k s held p) (due : l.due k s p = l.hold) (due' : l.due k s p' = l.hold)
    (lent : l.lent = p'.lends s) (uncalled : ∀ site stage, p' ≠ .call site stage) :
    l.Books k s held p' :=
  ⟨h.due.trans (due.trans due'.symm), fun _ => lent, h.away, fun _ _ _ _ e => absurd e (uncalled _ _),
    fun _ _ e => absurd e (uncalled _ _)⟩

theorem settle_failed {x : Value} (failed : x ≠ .done ∧ ∀ b, x ≠ .truth b)
    (lent : l.lent = none ∨ x.returns = false) : l.settle k s x = l.hold := by
  unfold settle
  split
  · simp [failed]
  · simp [failed]
  · rcases lent with none | stays
    · simp [none]
    · simp [stays]
  · rfl

theorem due_answered {site : Site} {answer : Except SyncError Verdict}
    (other : ∀ t n saved, site ≠ .letGo t n saved) : l.due k s (.call site (.answered answer)) =
      if site.sync = s then k.tally site.hook answer l.hold site.arg else l.hold := by
  cases site with
  | letGo t n saved => exact absurd rfl (other t n saved)
  | _ => rfl

theorem due_error {site : Site} {err : SyncError} :
    l.due k s (.call site (.answered (.error err))) = l.hold := by
  by_cases letGo : ∃ t n saved, site = .letGo t n saved
  · obtain ⟨t, n, saved, rfl⟩ := letGo
    rfl
  · rw [due_answered fun t n saved e => letGo ⟨t, n, saved, e⟩, Lock.tally_error, ite_self]

theorem due_isHeld {site : Site} {answer : Except SyncError Verdict} (asks : site.hook = .isHeld) :
    l.due k s (.call site (.answered answer)) = l.hold := by
  rw [due_answered fun t n saved e => by simp [e, Site.hook] at asks, asks, Lock.tally_isHeld, ite_self]

theorem due_toAcquire {site : Site} {m : Mode} {v : Verdict} (asks : site.hook = .toAcquire m) :
    l.due k s (.call site (.answered (.ok v))) =
      if site.sync = s then (if v.isGrant then l.hold + site.arg else l.hold) else l.hold := by
  rw [due_answered fun t n saved e => by cases m <;> simp [e, Site.hook, Hook.toAcquire] at asks, asks,
    Lock.tally_toAcquire]

theorem settle_released {t : SyncId} {m : Mode} {arg : Int} {v : Verdict} {b : Bool}
    (task : l.task = some (.release t m arg)) :
    l.due k s (.call (.release t m arg) (.answered (.ok v))) = l.settle k s (.truth b) := by
  rw [due_answered (by simp), Site.hook, Lock.tally_toRelease, Ledger.settle, task]
  exact if_congr (by cases b <;> simp [Site.sync]) rfl rfl

/-- A hook's error gives a wait nothing back. -/
theorem Books.failed {site : Site} {err : SyncError} {x : Value}
    (h : l.Books k s held (.call site (.answered (.error err)))) (of : site.Of op)
    (failed : x = .failed err ∨ ∃ f, x = .faulted f) : held = l.settle k s x := by
  rw [h.due, due_error, settle_failed]
  · rcases failed with rfl | ⟨f, rfl⟩ <;> simp
  rcases failed with rfl | ⟨f, rfl⟩
  · have lent := h.lent rfl
    cases site with
    | turn q =>
      rcases Claim.of_cases (s := s) of with ⟨-, -, -, -, none⟩ | ⟨v, -, claim, -, lends⟩
      · exact Or.inl (lent.trans none)
      · by_cases here : v.terms.sync = s
        · have heard := h.candid _ _ rfl (show q.claim.sync = s by rw [claim]; exact here)
          exact Or.inr (by simpa [Stage.answer, Value.returns] using heard)
        · exact Or.inl (lent.trans (lends.trans (if_neg here)))
    | letGo => exact Or.inl (lent.trans (if_neg (by simp [Stage.granted])))
    | _ => exact Or.inl lent
  · exact Or.inr rfl

theorem settle_granted {c : Claim} {swallowed : Bool} {x : Value} (task : l.task = some op) (of : c.Of op)
    (lent : l.lent = c.lends s) (away : ∀ h, l.lent = some h → l.hold = 0)
    (ends : c.outcome swallowed = .ends x) :
    l.settle k s x = if c.sync = s then l.hold + c.arg else l.hold := by
  rcases Claim.of_cases (s := s) of with ⟨timed, style, purpose, rfl, -⟩ | ⟨v, style, rfl, rfl, lends⟩
  · rw [Claim.outcome, purpose] at ends
    obtain rfl := Next.ends.inj ends
    rw [settle, task]
    cases timed <;> simp
  · rw [v.outcome_claim] at ends
    have returns : x.returns = true := by
      unfold Waiting.outcome at ends
      split at ends
      · obtain rfl := Next.ends.inj ends
        rfl
      · split at ends
        · obtain rfl := Next.ends.inj ends
          rfl
        · obtain rfl := Next.ends.inj ends
          rfl
        · simp at ends
    rw [lends] at lent
    rw [settle, task]
    simp only [returns, if_true, lent]
    change _ = if v.terms.sync = s then l.hold + v.saved else l.hold
    split
    · rename_i here
      rw [if_pos here] at lent
      simp [away _ lent]
    · rfl

theorem settle_abandoned {c : Claim} {x : Value} (task : l.task = some op) (of : c.Of op)
    (lent : l.lent = c.lends s) (abandoned : (x = .truth false ∧ c.patience.deadline.isSome = true) ∨
      (x = .failed .interrupted ∧ c.patience.interruptible = true) ∨ ∃ f, x = .faulted f) :
    l.settle k s x = l.hold := by
  rcases Claim.of_cases (s := s) of with ⟨timed, style, purpose, rfl, none⟩ | ⟨v, style, rfl, rfl, lends⟩
  · rw [settle, task]
    rcases abandoned with ⟨rfl, -⟩ | ⟨rfl, -⟩ | ⟨f, rfl⟩ <;> simp
  · rcases abandoned with ⟨-, timed⟩ | ⟨-, interruptible⟩ | ⟨f, rfl⟩
    · simp [Waiting.claim] at timed
    · simp [Waiting.claim] at interruptible
    · exact settle_failed (by simp) (Or.inr rfl)

theorem Books.concluded {site : Site} {c : Claim} {swallowed : Bool} {v : Verdict} {x : Value}
    (h : l.Books k s held (.call site (.answered (.ok v)))) (task : l.task = some op) (of : site.Of op)
    (granted : v.isGrant = true) (ends : c.outcome swallowed = .ends x)
    (gets : (site = .attempt c ∧ swallowed = false) ∨
      ∃ q, site = .turn q ∧ c = q.claim ∧ swallowed = q.swallowed) : held = l.settle k s x := by
  have due := h.due
  rcases gets with ⟨rfl, -⟩ | ⟨q, rfl, rfl, -⟩
  · obtain ⟨-, style, purpose, rfl, none⟩ | ⟨v, -, rfl, -, -⟩ := Claim.of_cases (s := s) of.1
    · rw [settle_granted task of.1 ((h.lent rfl).trans none.symm) h.away ends, due, due_toAcquire rfl,
        if_pos granted]
      rfl
    · obtain ⟨-, timed, other⟩ := of
      simp [Waiting.claim] at other
  · rw [settle_granted task of (h.lent rfl) h.away ends, due, due_toAcquire rfl, if_pos granted]
    rfl

/-- An operation that ends on the answer of a hook. -/
theorem Books.settle_call {site : Site} {stage : Stage} {x : Value} {me : ActorId} {r : World × Next}
    (h : l.Books k s held (.call site stage)) (task : l.task = some op) (of : site.Of op)
    (course : Course w me (.call site stage) r) (ends : r.2 = .ends x) : held = l.settle k s x := by
  have due := h.due
  cases course with
  | fail _ error =>
    obtain rfl := Next.ends.inj ends
    exact h.failed of error
  | refuse refused _ told =>
    obtain rfl := Next.ends.inj ends
    rcases told with ⟨⟨t, mode, arg, rfl⟩ | ⟨t, rfl⟩, rfl⟩ | ⟨t, rfl, rfl⟩ | ⟨t, c, e, rfl, rfl⟩ |
      ⟨t, n, saved, rfl, rfl⟩
    · obtain rfl : op = .release t mode arg := of
      exact due.trans (settle_released task)
    · obtain rfl : op = .isHeld t := of
      rw [due, due_isHeld rfl, Ledger.settle, task]
    · exact (due.trans (due_isHeld rfl)).trans (settle_failed (by simp) (Or.inl (h.lent rfl))).symm
    · exact (due.trans (due_isHeld rfl)).trans (settle_failed (by simp) (Or.inl (h.lent rfl))).symm
    · exact due.trans (settle_failed (by simp) (Or.inr rfl)).symm
  | conclude granted gets => exact h.concluded task of granted ends gets
  | grant granted _ told =>
    obtain rfl := Next.ends.inj ends
    rcases told with ⟨⟨t, mode, arg, rfl⟩ | ⟨t, rfl⟩, rfl⟩ | ⟨t, c, e, rfl⟩
    · obtain rfl : op = .release t mode arg := of
      exact due.trans (settle_released task)
    · obtain rfl : op = .isHeld t := of
      rw [due, due_isHeld rfl, Ledger.settle, task]
    · obtain rfl : op = .errand t c e := of
      rw [due, due_isHeld rfl, Ledger.settle, task]
  | enter _ _ goes | leave _ _ goes => rcases goes with rfl | rfl <;> simp at ends
  | _ => simp at ends

theorem Books.settle {x : Value} {me : ActorId} {r : World × Next} (h : l.Books k s held p)
    (task : l.task = some op) (of : p.Of op) (course : Course w me p r) (ends : r.2 = .ends x) :
    held = l.settle k s x := by
  have due := h.due
  cases p with
  | start op' =>
    cases course with
    | @decline _ w' x unmet =>
      obtain rfl : op' = op := of
      obtain rfl := Next.ends.inj ends
      have declined : (x = .failed .interrupted ∨ x = .failed .foreignCondition) → held = l.settle k s x :=
        fun told => due.trans
          (settle_failed (by rcases told with rfl | rfl <;> simp) (Or.inl (h.lent rfl))).symm
      cases op' with
      | acquire | release | wait => exact declined (unmet _ rfl)
      | _ =>
        rw [due, Ledger.settle, task]
        rfl
    | _ => simp at ends
  | call => exact h.settle_call task of course ends
  | queueing c =>
    cases course with
    | expire overdue =>
      obtain rfl := Next.ends.inj ends
      obtain ⟨of, timed, purpose⟩ := of
      obtain ⟨t, deadline, -⟩ := overdue
      have lent : l.lent = c.lends s := (h.lent rfl).trans (by rw [Claim.lends, purpose]; rfl)
      exact due.trans (settle_abandoned task of lent (Or.inl ⟨rfl, by simp [deadline]⟩)).symm
    | _ => simp at ends
  | turn =>
    cases course with
    | stray =>
      obtain rfl := Next.ends.inj ends
      exact due.trans (settle_failed (by simp) (Or.inr rfl)).symm
    | _ => simp at ends
  | lingering =>
    cases course with
    | giveUp _ overdue =>
      obtain rfl := Next.ends.inj ends
      refine due.trans (settle_abandoned task of (h.lent rfl) ?_).symm
      rcases overdue with ⟨rfl, t, deadline, -⟩ | fault
      · exact Or.inl ⟨rfl, by simp [deadline]⟩
      · exact Or.inr (Or.inr fault)
    | park _ goes => rcases goes with rfl | ⟨-, ⟨t, rfl⟩, -⟩ <;> simp at ends
    | _ => simp at ends
  | roused =>
    cases course with
    | interrupt _ interruptible ended =>
      obtain rfl := Next.ends.inj ends
      refine due.trans (settle_abandoned task of (h.lent rfl) (Or.inr ?_)).symm
      exact ended.imp_left fun told => ⟨told, interruptible⟩
    | _ => simp at ends
  | waiting | awoken => cases course <;> simp at ends
  | dozing =>
    cases course with
    | sleep _ _ _ goes => rcases goes with rfl | ⟨-, ⟨t, rfl⟩, -⟩ <;> simp at ends
    | _ => simp at ends
  | reckoning =>
    cases course with
    | reckon =>
      obtain rfl := Next.ends.inj ends
      obtain ⟨t, c, token, rfl⟩ := of
      rw [due, Ledger.settle, task]
      rfl

/-- Whoever has been granted its claim and has only to tell what is left of its time. -/
theorem Books.reckons {c : Claim} {start : Moment} {timeout : Span} {timedOut : Bool} (of : c.Of op)
    (waited : ∃ v, c.purpose = .afterWait v) (lent : l.lent = c.lends s)
    (away : ∀ h, l.lent = some h → l.hold = 0)
    (due : held = if c.sync = s then l.hold + c.arg else l.hold) :
    l.Books k s held (.reckoning start timeout timedOut) := by
  refine ⟨?_, by simp [Position.reckons], away, by simp, by simp⟩
  obtain ⟨v, purpose⟩ := waited
  rcases Claim.of_cases (s := s) of with ⟨_, _, other, -, -⟩ | ⟨v', _, rfl, -, lends⟩
  · simp [other] at purpose
  · rw [lends] at lent
    change held = l.lent.getD l.hold
    rw [due, lent]
    change (if v'.terms.sync = s then l.hold + v'.saved else l.hold) = _
    split
    · rename_i here
      rw [if_pos here] at lent
      simp [away _ lent]
    · rfl

/-- What a hook has answered is entered once the actor acts on it. -/
theorem Books.step_call {site : Site} {stage : Stage} {me : ActorId} {r : World × Next}
    (h : l.Books k s held (.call site stage)) (of : site.Of op) (course : Course w me (.call site stage) r)
    (next : r.2.position = some p') (unasked : stage ≠ .entering)
    (holder : (Position.call site stage).guards s = true → (w.sync s).state = held) :
    l.Books k s held p' := by
  have lent := h.lent rfl
  cases course with
  | enter _ _ goes | leave _ _ goes =>
    obtain rfl := Next.position_of_pauses goes next
    exact h.stage rfl
  | ask => exact absurd rfl unasked
  | queue refused | linger refused =>
    obtain rfl := Option.some.inj next
    refine h.quiet ?_ rfl lent (by simp)
    rw [due_toAcquire rfl, refused]
    simp
  | @conclude _ c swallowed v _ granted gets =>
    rcases c.outcome_cases swallowed with ⟨x, eq⟩ | ⟨v', start, timeout, purpose, -, -, eq⟩
    · simp [eq, Next.position] at next
    · obtain rfl := Option.some.inj ((congrArg Next.position eq).symm.trans next)
      rcases gets with ⟨rfl, -⟩ | ⟨q, rfl, rfl, -⟩
      · obtain ⟨-, timed, other⟩ := of
        simp [other] at purpose
      · refine Books.reckons of ⟨v', purpose⟩ lent h.away ?_
        rw [h.due, due_toAcquire rfl, if_pos granted]
        rfl
  | @enterWait t n v _ granted =>
    obtain rfl := Option.some.inj next
    have due : held = l.hold := by
      rw [h.due, due_isHeld rfl]
    refine ⟨due, fun _ => lent.trans (by simp [Position.lends, Stage.granted]), h.away, ?_, ?_⟩
    · rintro t' n' saved stage e here -
      obtain ⟨same, -⟩ := Position.call.inj e
      obtain ⟨rfl, rfl, rfl⟩ := Site.letGo.inj same
      rw [here, holder (by simp [Position.guards, Site.guards, Stage.granted, here, granted]), due]
    · rintro _ stage e -
      obtain ⟨-, rfl⟩ := Position.call.inj e
      simp [Stage.answer]
  | letGo granted =>
    obtain rfl := Option.some.inj next
    exact h.quiet rfl rfl (lent.trans (by simp [Position.lends, Stage.granted, granted])) (by simp)
  | _ => simp [Next.position] at next

/-- Before a hook is called nothing has been entered for the call. -/
theorem Books.arrives {site : Site} (h : l.Books k s held p) (due : l.due k s p = l.hold)
    (due' : l.due k s (.call site .arriving) = l.hold)
    (lent : l.lent = (Position.call site .arriving).lends s)
    (other : ∀ t n saved, site ≠ .letGo t n saved) : l.Books k s held (.call site .arriving) := by
  refine ⟨h.due.trans (due.trans due'.symm), fun _ => lent, h.away, fun t n saved _ e => ?_,
    fun _ stage e => ?_⟩
  · exact absurd (Position.call.inj e).1 (other t n saved)
  · obtain ⟨-, rfl⟩ := Position.call.inj e
    simp [Stage.answer]

/-- Steps that ask no hook keep the books in order. -/
theorem Books.step {me : ActorId} {r : World × Next} (h : l.Books k s held p) (of : p.Of op)
    (course : Course w me p r) (next : r.2.position = some p') (unasked : ∀ site, p ≠ .call site .entering)
    (holder : p.guards s = true → (w.sync s).state = held) : l.Books k s held p' := by
  cases p with
  | start op' =>
    cases course with
    | «open» opens =>
      obtain rfl := Option.some.inj next
      cases op' with
      | acquire | release | isHeld | wait | errand =>
        obtain rfl := Option.some.inj opens
        exact h.arrives rfl rfl (h.lent rfl) (by simp)
      | _ => simp [Operation.site] at opens
    | _ => simp [Next.position] at next
  | call site stage => exact h.step_call of course next (fun e => unasked site (e ▸ rfl)) holder
  | queueing c =>
    cases course with
    | join =>
      obtain rfl := Option.some.inj next
      obtain ⟨-, timed, purpose⟩ := of
      exact h.quiet rfl rfl ((h.lent rfl).trans (by simp [Position.lends, Claim.lends, purpose])) (by simp)
    | _ => simp [Next.position] at next
  | turn =>
    cases course with
    | call =>
      obtain rfl := Option.some.inj next
      exact h.arrives rfl rfl (h.lent rfl) (by simp)
    | await =>
      obtain rfl := Option.some.inj next
      exact h.quiet rfl rfl (h.lent rfl) (by simp)
    | _ => simp [Next.position] at next
  | lingering =>
    cases course with
    | again =>
      obtain rfl := Option.some.inj next
      exact h.quiet rfl rfl (h.lent rfl) (by simp)
    | park _ goes =>
      obtain rfl := Next.position_of_parks goes next
      exact h.quiet rfl rfl (h.lent rfl) (by simp)
    | _ => simp [Next.position] at next
  | roused =>
    cases course with
    | retry | swallow =>
      obtain rfl := Option.some.inj next
      exact h.quiet rfl rfl (h.lent rfl) (by simp)
    | _ => simp [Next.position] at next
  | dozing =>
    cases course with
    | timeOut =>
      obtain rfl := Option.some.inj next
      exact h.quiet rfl rfl (h.lent rfl) (by simp [World.reclaim])
    | sleep _ _ _ goes =>
      obtain rfl := Next.position_of_parks goes next
      exact h.quiet rfl rfl (h.lent rfl) (by simp)
  | waiting | awoken =>
    cases course
    all_goals
      obtain rfl := Option.some.inj next
      exact h.quiet rfl rfl (h.lent rfl) (by simp [World.reclaim])
  | reckoning =>
    cases course with
    | reckon => simp [Next.position] at next

theorem Books.elsewhere {site : Site} {answer : Except SyncError Verdict}
    (h : l.Books k s held (.call site .entering)) (there : site.sync ≠ s) :
    l.Books k s held (.call site (.leaving answer)) := by
  refine ⟨h.due.trans ?_, fun _ => (h.lent rfl).trans ?_, h.away, ?_, ?_⟩
  · cases site with
    | letGo => rfl
    | _ => exact (if_neg there).symm
  · cases site with
    | letGo => exact (if_neg fun e => there e.1).trans (if_neg fun e => there e.1).symm
    | _ => rfl
  · rintro t n saved stage e here
    obtain ⟨rfl, -⟩ := Position.call.inj e
    exact absurd here there
  · rintro site' stage e here
    obtain ⟨rfl, -⟩ := Position.call.inj e
    exact absurd here there

/-- A hook of the lock is asked, but not for a wait to give it up. -/
theorem Books.answered {site : Site} {answer : Except SyncError Verdict}
    (h : l.Books k s held (.call site .entering)) (here : site.sync = s)
    (other : ∀ t n saved, site ≠ .letGo t n saved) (candid : answer ≠ .error .interrupted) :
    l.Books k s (k.tally site.hook answer held site.arg) (.call site (.leaving answer)) := by
  have due : held = l.hold := by
    rw [h.due]
    cases site with
    | letGo t n saved => exact absurd rfl (other t n saved)
    | _ => rfl
  refine ⟨?_, fun _ => (h.lent rfl).trans ?_, h.away, ?_, ?_⟩
  · rw [due]
    cases site with
    | letGo t n saved => exact absurd rfl (other t n saved)
    | _ => exact (if_pos here).symm
  · cases site with
    | letGo t n saved => exact absurd rfl (other t n saved)
    | _ => rfl
  · rintro t n saved stage e
    exact absurd (Position.call.inj e).1 (other t n saved)
  · rintro site' stage e -
    obtain ⟨rfl, rfl⟩ := Position.call.inj e
    simpa [Stage.answer] using candid

/-- A wait gives the lock up as a whole, or not at all. -/
theorem Books.letGo {t : WaitTerms} {n : NodeId} {saved held' : Int} {answer : Except SyncError Verdict}
    (h : l.Books k s held (.call (.letGo t n saved) .entering)) (here : t.sync = s)
    (tally : held' = k.tally .release answer held saved)
    (last : ∀ v, answer = .ok v → (v.isGrant = true ↔ k.left held saved = 0))
    (candid : answer ≠ .error .interrupted)
    (lends : grants answer = true → l'.hold = 0 ∧ l'.lent = some l.hold)
    (keeps : grants answer = false → l'.hold = l.hold ∧ l'.lent = l.lent) :
    l'.Books k s held' (.call (.letGo t n saved) (.leaving answer)) := by
  have due : held = l.hold := h.due
  obtain rfl := h.saved t n saved _ rfl here rfl
  have heeds : ∀ site stage, Position.call (.letGo t n l.hold) (.leaving answer) = .call site stage →
      site.sync = s → stage.answer ≠ some (.error .interrupted) := by
    rintro site stage e -
    obtain ⟨-, rfl⟩ := Position.call.inj e
    simpa [Stage.answer] using candid
  have all : k.left held l.hold = 0 := by rw [due, k.left_self]
  cases answer with
  | error e =>
    obtain ⟨hold, lent⟩ := keeps rfl
    refine ⟨?_, fun _ => ?_, fun x hx => ?_, ?_, heeds⟩
    · rw [tally, k.tally_error, due]
      exact hold.symm
    · rw [lent, h.lent rfl]
      simp [Position.lends, Stage.granted]
    · rw [hold]
      exact h.away x (lent ▸ hx)
    · rintro t' n' saved stage e -
      obtain ⟨-, -, rfl⟩ := Site.letGo.inj (Position.call.inj e).1
      exact fun _ => hold.symm
  | ok v =>
    have granted : v.isGrant = true := (last v rfl).2 all
    obtain ⟨hold, lent⟩ := lends granted
    refine ⟨?_, fun _ => ?_, fun _ _ => hold, ?_, heeds⟩
    · rw [tally]
      exact all.trans hold.symm
    · rw [lent]
      exact (if_pos ⟨here, granted⟩).symm
    · rintro t' n' saved stage e - ungranted
      obtain ⟨-, rfl⟩ := Position.call.inj e
      rw [Stage.granted, grants_ok, granted] at ungranted
      simp at ungranted

end Ledger

namespace World

namespace Locking

theorem held_asked (hw : Locking s w) (policy : (w.sync s).policy = k.policy) {site : Site}
    (running : (w.actor a).activity = .busy .running (.call site .entering)) (here : site.sync = s) :
    (w.step a).1.held s a =
        k.tally site.hook ((w.sync s).ask site.hook a site.arg).2 (w.held s a) site.arg ∧
      (site.hook = .release → ∀ v, ((w.sync s).ask site.hook a site.arg).2 = .ok v →
        (v.isGrant = true ↔ k.left (w.held s a) site.arg = 0)) := by
  have tallied := Synchronizer.tallied_ask policy site.hook a site.arg
  rw [held, sync_asks hw.seated.inTable running here]
  exact ⟨tallied.mine, tallied.last⟩

/-- Nobody takes or gives up holds for another. -/
theorem held_happen (hw : Locking s w) (policy : (w.sync s).policy = k.policy) (e : Event)
    (unasked : ∀ site, e = .step a → (w.actor a).activity = .busy .running (.call site .entering) →
      site.sync ≠ s) : (w.happen e).held s a = w.held s a := by
  rcases hw.seated.sync_happen e with ⟨b, op, -, running, asks, -⟩ |
    ⟨b, site, rfl, running, here, sync⟩ | ⟨-, q, f, same⟩
  · simp [hw.unwritten b op (Actor.position_of_busy running)] at asks
  · have other : a ≠ b := by
      rintro rfl
      exact unasked site rfl running here
    rw [held, sync]
    exact (Synchronizer.tallied_ask policy site.hook b site.arg).others a other
  · rw [held, same]
    rfl

/-- Whoever works on a condition of the lock has all of it. -/
theorem state_of_guards (hw : Locking s w) (hp : (w.actor a).position = some p)
    (guards : p.guards s = true) : (w.sync s).state = w.held s a :=
  (if_pos (hw.guarded a p hp guards)).symm

end Locking

/-- Nobody runs, and nobody has been made to pause. -/
def resting (w : World) : Bool :=
  (List.range w.actors.size).all fun a =>
    match (w.actor a).activity with
    | .busy .running _ | .busy .paused _ => false
    | _ => true

theorem standing_of_resting (rests : w.resting = true) {st : Standing}
    (busy : (w.actor a).activity = .busy st p) : st ≠ .running ∧ st ≠ .paused := by
  have inTable : a < w.actors.size := lt_of_position (by simp [Actor.position, busy])
  have here := List.all_eq_true.1 rests a (List.mem_range.2 inTable)
  rw [busy] at here
  cases st <;> simp at here ⊢

end World

namespace Ledger

/-- The books of the actor agree with what the lock counts. -/
structure Agrees (k : Lock) (s : SyncId) (a : ActorId) (w : World) (l : Ledger) : Prop where
  locking : w.Locking s
  policy : (w.sync s).policy = k.policy
  accounted : w.Accounted a l.toDiary
  idle : (w.actor a).position = none → w.held s a = l.hold ∧ l.lent = none
  busy : ∀ p, (w.actor a).position = some p → l.Books k s (w.held s a) p

theorem Agrees.ask {site : Site} (h : l.Agrees k s a w) (candid : w.candid s (.step a) = true)
    (running : (w.actor a).activity = .busy .running (.call site .entering)) :
    (l.note k s a w (.step a)).Books k s ((w.step a).1.held s a)
      (.call site (.leaving ((w.sync site.sync).ask site.hook a site.arg).2)) := by
  have hp := Actor.position_of_busy running
  have books := h.busy _ hp
  obtain ⟨op, task, of, -⟩ := h.accounted.owing _ hp
  have goesOn : (w.step a).2 = none := by
    rw [World.step_value running]
    rfl
  by_cases here : site.sync = s
  swap
  · have same := h.locking.held_happen (a := a) h.policy (.step a) fun site' _ running' => by
      obtain ⟨-, e⟩ := Activity.busy.inj (running.symm.trans running')
      obtain ⟨rfl, -⟩ := Position.call.inj e
      exact here
    have keeps := note_keeps (e := .step a) (k := k) (s := s) (l := l) (fun _ => goesOn) fun _ _ => by
      by_contra freed
      obtain ⟨site', -, running', there, -⟩ := World.exists_of_frees (by simpa using freed)
      obtain ⟨-, e⟩ := Activity.busy.inj (running.symm.trans running')
      obtain ⟨rfl, -⟩ := Position.call.inj e
      exact here there
    rw [World.happen] at same
    rw [same]
    exact (books.elsewhere here).congr keeps
  obtain ⟨tally, last⟩ := h.locking.held_asked h.policy running here
  have unmoved := World.candid_asked candid running here
  have frees := World.frees_entering running here
  rw [here]
  by_cases letGo : ∃ t n saved, site = .letGo t n saved
  · obtain ⟨t, n, saved, rfl⟩ := letGo
    have waits : l.waits = true := by
      obtain ⟨-, style, rfl, -⟩ := of
      simp [waits, task]
    refine books.letGo here tally (last rfl) unmoved (fun granted => ?_) fun refused => ?_
    · exact note_lends goesOn waits (frees.trans (by rw [Site.hook] at granted ⊢; simp [granted]))
    · exact note_keeps (fun _ => goesOn) fun _ _ => frees.trans (by rw [refused, Bool.and_false])
  · have other : ∀ t n saved, site ≠ .letGo t n saved := fun t n saved e => letGo ⟨t, n, saved, e⟩
    rw [tally]
    refine (books.answered here other unmoved).congr (note_keeps (fun _ => goesOn) fun _ waits => ?_)
    rw [frees, Bool.and_eq_false_iff, decide_eq_false_iff_not]
    refine Or.inl fun release => ?_
    cases site with
    | release t mode arg =>
      obtain rfl : op = .release t mode arg := of
      simp [Ledger.waits, task] at waits
    | letGo t n saved => exact other t n saved rfl
    | attempt c => cases mode : c.mode <;> simp [Site.hook, Hook.toAcquire, mode] at release
    | turn q => cases mode : q.claim.mode <;> simp [Site.hook, Hook.toAcquire, mode] at release
    | _ => simp [Site.hook] at release

/-- Only a hook moves the holds of whoever steps. -/
theorem Agrees.held_step (h : l.Agrees k s a w) (running : (w.actor a).activity = .busy .running p)
    (unasked : ∀ site, p ≠ .call site .entering) : (w.step a).1.held s a = w.held s a :=
  h.locking.held_happen h.policy (.step a) fun site _ running' => by
    obtain ⟨-, rfl⟩ := Activity.busy.inj (running.symm.trans running')
    exact absurd rfl (unasked site)

theorem Agrees.step (h : l.Agrees k s a w) (candid : w.candid s (.step a) = true)
    (running : (w.actor a).activity = .busy .running p)
    (course : Course (w.looked a p) a p (w.stride a p)) (next : (w.stride a p).2.position = some p') :
    (l.note k s a w (.step a)).Books k s ((w.step a).1.held s a) p' := by
  have hp := Actor.position_of_busy running
  obtain ⟨op, task, of, -⟩ := h.accounted.owing p hp
  by_cases asked : ∃ site, p = .call site .entering
  · obtain ⟨site, rfl⟩ := asked
    generalize w.stride a (.call site .entering) = r at course next
    cases course with
    | ask =>
      obtain rfl := Option.some.inj next
      rw [World.sync_looked]
      exact h.ask candid running
  · have unasked : ∀ site, p ≠ .call site .entering := fun site e => asked ⟨site, e⟩
    have goesOn : (w.step a).2 = none := by
      rw [World.step_value running]
      cases n : (w.stride a p).2 with
      | ends v => simp [n, Next.position] at next
      | _ => rfl
    rw [h.held_step running unasked]
    refine ((h.busy p hp).step of course next unasked fun guards => ?_).congr
      (note_keeps (fun _ => goesOn) fun _ _ => ?_)
    · rw [World.sync_looked]
      exact h.locking.state_of_guards hp guards
    · exact World.unfreed_step running fun site e => absurd e (unasked site)

/-- An actor that has nothing to do, or nothing left to do, knows what it holds. -/
theorem Agrees.idles (h : l.Agrees k s a w) (stands : ((w.happen e).actor a).position = none) :
    (w.happen e).held s a = (l.note k s a w e).hold ∧ (l.note k s a w e).lent = none := by
  rcases w.idle_cases a stands with ⟨idle, idly⟩ | ⟨p, v, rfl, running, course, ends⟩
  · have same : (w.happen e).held s a = w.held s a :=
      h.locking.held_happen h.policy e fun _ mine running => absurd running (idly _ mine)
    obtain ⟨held, lent⟩ := note_keeps (k := k) (s := s) (l := l) (fun mine => by
      rw [World.step_of_not_running fun p => idly p mine]) fun mine _ => by
        by_contra freed
        obtain ⟨site, -, running, -⟩ := World.exists_of_frees (by simpa using freed)
        exact idly _ mine running
    rw [same, held, lent]
    exact h.idle idle
  · have hp := Actor.position_of_busy running
    obtain ⟨op, task, of, -⟩ := h.accounted.owing p hp
    have same : (w.happen (.step a)).held s a = w.held s a := h.held_step running fun site e => by
      subst e
      cases ends
    have told : (w.step a).2 = some v := by
      rw [World.step_value running, ends]
      rfl
    obtain ⟨hold, lent⟩ := note_ends (k := k) (s := s) (l := l) told
    exact ⟨same.trans (((h.busy p hp).settle task of course ends).trans hold.symm), lent⟩

theorem Agrees.happen (h : l.Agrees k s a w) (proper : w.Proper s e) (candid : w.candid s e = true)
    (unbroken : w.unbroken e = true) : (l.note k s a w e).Agrees k s a (w.happen e) := by
  refine ⟨h.locking.happen proper, (h.locking.upholds e).policy.trans h.policy,
    toDiary_note k s a w e l ▸ h.accounted.happen unbroken, h.idles, fun p' hp' => ?_⟩
  rcases w.position_cases a hp' with ⟨hp, bides⟩ | ⟨op, rfl, idle, rfl⟩ | ⟨p, rfl, running, course, next⟩
  · have same : (w.happen e).held s a = w.held s a :=
      h.locking.held_happen h.policy e fun site mine running => by
        obtain rfl := Option.some.inj ((Actor.position_of_busy running).symm.trans hp)
        simpa [Position.readsClock] using (bides mine running).1
    rw [same]
    refine (h.busy p' hp).congr (note_keeps ?_ fun mine _ => ?_)
    · rintro rfl
      exact bides.goesOn hp
    · exact mine ▸ World.unfreed_of_bides hp bides
  · obtain ⟨held, lent⟩ := h.idle (by rw [Actor.position, idle])
    have same : (w.happen (.begin a op)).held s a = w.held s a :=
      h.locking.held_happen h.policy (.begin a op) fun site mine => by simp at mine
    rw [same]
    refine Books.congr ?_ (note_keeps (fun mine => by simp at mine) fun mine => by simp at mine)
    exact ⟨held, fun _ => lent, by simp [lent], by simp, by simp⟩
  · exact h.step candid running course next

/-- Whoever parks or looks at the clock has been told all that there is to tell. -/
theorem Books.told (h : l.Books k s held p) (rests : p.parks = true ∨ p.readsClock = true)
    (silent : p.reckons = false) : held = l.hold := by
  have due := h.due
  cases p with
  | reckoning => simp [Position.reckons] at silent
  | call => simp [Position.parks, Position.readsClock] at rests
  | _ => exact due

theorem Agrees.create {actors tokens : Nat} {syncs : List Synchronizer} {conditions : List SyncId}
    (hx : syncs[s]? = some { policy := k.policy, state := 0 }) :
    Agrees k s a (World.create actors tokens syncs conditions) {} := by
  refine ⟨.create hx k.isLock rfl rfl rfl, by rw [World.sync_create hx], .create, fun _ => ⟨?_, rfl⟩,
    fun p hp => ?_⟩
  · rw [World.held, World.sync_create hx]
    rfl
  · exact absurd hp (World.position_create actors tokens syncs conditions a p)

/-- At rest every actor has been told what the lock counts as its own. -/
theorem Agrees.told (h : l.Agrees k s a w) (rests : w.resting = true) : w.held s a = l.hold := by
  cases activity : (w.actor a).activity with
  | idle => exact (h.idle (by rw [Actor.position, activity])).1
  | busy st p =>
    obtain ⟨running, paused⟩ := World.standing_of_resting rests activity
    have position := Actor.position_of_busy activity
    have stops := (h.accounted.thrifty.fresh st p activity).resolve_left running |>.resolve_left paused
    refine (h.busy p position).told stops.2 ?_
    cases p with
    | reckoning start timeout timedOut =>
      obtain ⟨runs, -⟩ := h.accounted.thrifty.running position
      exact absurd (Activity.busy.inj (activity.symm.trans runs)).1 running
    | _ => rfl

end Ledger

namespace World

/-- Locks exclude, and count exactly: at rest a lock is free, or one actor owns it and the state is what that
actor has been told it holds. -/
theorem holds_counted {actors tokens : Nat} {syncs : List Synchronizer} {conditions : List SyncId}
    (hx : syncs[s]? = some { policy := k.policy, state := 0 }) {events : List Event}
    (obeys : Obeys (fun w e => Proper s w e ∧ w.candid s e = true ∧ w.unbroken e = true)
      (World.create actors tokens syncs conditions) events) :
    let start := World.create actors tokens syncs conditions
    let w := start.after events
    let hold := fun a => (Ledger.since k s start a events).hold
    w.resting = true →
      ((∀ a, hold a = 0) ∧ (w.sync s).state = 0 ∧ (w.sync s).owner = none) ∨
      ∃ a, 0 < hold a ∧ (∀ b, b ≠ a → hold b = 0) ∧ (w.sync s).state = hold a ∧
        (w.sync s).owner = some a := by
  intro start w hold rests
  have agrees : ∀ a, (Ledger.since k s start a events).Agrees k s a w := fun a =>
    collect_invariant (fun _ _ _ agrees rule => Ledger.Agrees.happen agrees rule.1 rule.2.1 rule.2.2)
      (.create hx) obeys
  have told : ∀ a, hold a = holdOf (w.sync s).state (w.sync s).owner a := fun a =>
    ((agrees a).told rests).symm
  rcases (agrees 0).locking.owned with ⟨unowned, free⟩ | ⟨a, owner, taken⟩
  · refine Or.inl ⟨fun a => ?_, free, unowned⟩
    rw [told, unowned]
    rfl
  · have mine : hold a = (w.sync s).state := (told a).trans (if_pos owner)
    refine Or.inr ⟨a, mine ▸ taken, fun b other => ?_, mine.symm, owner⟩
    rw [told, owner]
    exact if_neg fun e => other (Option.some.inj e).symm

/-- Someone holds a lock three times over, waits on its condition while another takes and leaves the lock,
and has its three holds back. -/
theorem holds_counted_waited :
    let start := World.create 2 0 [{ policy := .reentrant 5, state := 0 }] [0]
    let events : List Event :=
      .begin 0 (.acquire 0 .exclusive 1 .plain) :: List.replicate 5 (.step 0) ++
        .begin 0 (.acquire 0 .exclusive 2 .plain) :: List.replicate 5 (.step 0) ++
        .begin 0 (.wait 0 0 (.interruptible none)) :: List.replicate 11 (.step 0) ++
        .begin 1 (.acquire 0 .exclusive 1 .plain) :: List.replicate 5 (.step 1) ++
        .begin 1 (.errand 0 0 .signal) :: List.replicate 5 (.step 1) ++
        .begin 1 (.release 0 .exclusive 1) :: List.replicate 5 (.step 1) ++
        .resume 0 :: List.replicate 7 (.step 0)
    let w := start.after events
    (Ledger.since (.reentrant 5) 0 start 0 events).hold = 3 ∧ (w.sync 0).state = 3 ∧
      (w.sync 0).owner = some 0 := by
  intro start events w
  have hold : (Ledger.since (.reentrant 5) 0 start 0 events).hold = 3 := by decide +kernel
  have obeys : Obeys (fun w e => Proper 0 w e ∧ w.candid 0 e = true ∧ w.unbroken e = true) start events := by
    decide +kernel
  have rests : w.resting = true := by decide +kernel
  rcases holds_counted (k := .reentrant 5) rfl obeys rests with
    ⟨nothing, -⟩ | ⟨a, -, others, state, owner⟩
  · exact absurd (hold.symm.trans (nothing 0)) (by decide)
  · obtain rfl : 0 = a := by
      by_contra other
      exact absurd (hold.symm.trans (others 0 other)) (by decide)
    exact ⟨hold, state.trans hold, owner⟩

end World

end Turnstile
