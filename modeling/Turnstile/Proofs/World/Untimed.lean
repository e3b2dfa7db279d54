import Turnstile.Proofs.World.Course

/-! An operation without an effective deadline goes through the same motions as its untimed counterpart:
where the one goes on, the other does, and they end alike. -/
namespace Turnstile

/-- An untimed operation, and a timed one whose deadline is too far off to be represented. -/
inductive Operation.Counterpart (now : Moment) : Operation → Operation → Prop
  | acquire {s mode arg token timeout} (far : ¬Moment.Representable (now + timeout)) :
      Counterpart now (.acquire s mode arg (.interruptible token)) (.acquire s mode arg (.timed token (.timeout timeout)))
  | wait {s c token timeout} (far : ¬Moment.Representable (now + timeout)) :
      Counterpart now (.wait s c (.interruptible token)) (.wait s c (.inTime token (.timeout timeout)))

/-! Whatever an untimed operation carries along has a timed counterpart, which differs in what is to be told
in the end. -/

namespace WaitTerms

def Untimed (t : WaitTerms) : Prop := t.patience.deadline = none ∧ t.report = .done

def timed (t : WaitTerms) : WaitTerms := { t with report := .inTime }

end WaitTerms

namespace Waiting

def Untimed (v : Waiting) : Prop := v.terms.Untimed ∧ v.timedOut = false

def timed (v : Waiting) : Waiting := { v with terms := v.terms.timed }

end Waiting

namespace Claim

def Untimed (c : Claim) : Prop :=
  c.patience.deadline = none ∧
    match c.purpose with
    | .operation timed => timed = false
    | .afterWait v => v.Untimed

def timed (c : Claim) : Claim :=
  { c with
    purpose :=
      match c.purpose with
      | .operation _ => .operation true
      | .afterWait v => .afterWait v.timed }

end Claim

def Queued.timed (q : Queued) : Queued := { q with claim := q.claim.timed }

namespace Site

def Untimed : Site → Prop
  | .attempt c => c.Untimed
  | .turn q => q.claim.Untimed
  | .wait t | .letGo t _ _ => t.Untimed
  | _ => False

def timed : Site → Site
  | .attempt c => .attempt c.timed
  | .turn q => .turn q.timed
  | .wait t => .wait t.timed
  | .letGo t n saved => .letGo t.timed n saved
  | site => site

@[simp] theorem hook_timed (site : Site) : site.timed.hook = site.hook := by
  cases site <;> rfl

@[simp] theorem sync_timed (site : Site) : site.timed.sync = site.sync := by
  cases site <;> rfl

@[simp] theorem arg_timed (site : Site) : site.timed.arg = site.arg := by
  cases site <;> rfl

end Site

namespace Position

def Untimed : Position → Prop
  | .call site _ => site.Untimed
  | .queueing c => c.Untimed
  | .turn q | .lingering q | .roused q => q.claim.Untimed
  | .waiting v | .dozing v | .awoken v => v.Untimed
  | _ => False

def timed : Position → Position
  | .call site stage => .call site.timed stage
  | .queueing c => .queueing c.timed
  | .turn q => .turn q.timed
  | .lingering q => .lingering q.timed
  | .roused q => .roused q.timed
  | .waiting v => .waiting v.timed
  | .dozing v => .dozing v.timed
  | .awoken v => .awoken v.timed
  | p => p

theorem Untimed.clockless {p : Position} (h : p.Untimed) : p.readsClock = false ∧ p.timed.readsClock = false := by
  cases p with
  | queueing c | lingering q => simp [readsClock, timed, Queued.timed, Claim.timed, h.1]
  | dozing v => simp [readsClock, timed, Waiting.timed, WaitTerms.timed, h.1.1]
  | reckoning => exact h.elim
  | _ => exact ⟨rfl, rfl⟩

end Position

def Value.timed : Value → Value
  | .done => .truth true
  | v => v

namespace Next

def Untimed : Next → Prop
  | .goes p | .stops _ p => p.Untimed
  | .ends v => ∀ b, v ≠ .truth b

def timed : Next → Next
  | .goes p => .goes p.timed
  | .stops st p => .stops st p.timed
  | .ends v => .ends v.timed

end Next

namespace World

def Pair (r r' : World × Next) : Prop := r.2.Untimed ∧ r' = (r.1, r.2.timed)

namespace Pair

variable {w : World} {me : ActorId} {c : Claim} {q : Queued} {t : WaitTerms} {v : Waiting} {site : Site} {p : Position}

theorem registerThen (h : site.Untimed) (patience : Patience) :
    Pair (w.registerThen me patience site) (w.registerThen me patience site.timed) := by
  unfold World.registerThen
  dsimp only
  split
  · exact ⟨by simp [Next.Untimed], rfl⟩
  · exact ⟨h, rfl⟩

theorem endWait (h : v.Untimed) : Pair (w.endWait v) (w.endWait v.timed) := by
  obtain ⟨⟨-, report⟩, inTime⟩ := h
  unfold World.endWait Waiting.timed WaitTerms.timed
  dsimp only
  rw [report, inTime]
  split
  · exact ⟨by simp [Next.Untimed], rfl⟩
  · exact ⟨by simp [Next.Untimed], rfl⟩

theorem conclude (h : c.Untimed) (swallowed : Bool) : Pair (w.conclude c swallowed) (w.conclude c.timed swallowed) := by
  obtain ⟨-, purpose⟩ := h
  unfold World.conclude Claim.timed
  cases eq : c.purpose with
  | operation timed =>
    rw [eq] at purpose
    obtain rfl : timed = false := purpose
    exact ⟨by simp [Next.Untimed], rfl⟩
  | afterWait v =>
    rw [eq] at purpose
    dsimp only
    have same : v.timed.interruption = v.interruption := rfl
    rw [same]
    split
    · exact endWait purpose
    · exact endWait purpose

theorem abandon {x : Value} (untold : ∀ b, x ≠ .truth b) (timed : x.timed = x) :
    Pair (w.abandon q x) (w.abandon q.timed x) := by
  unfold World.abandon
  have same : w.withdraw q.timed.claim.sync q.timed.node = w.withdraw q.claim.sync q.node := rfl
  rw [same]
  split
  · exact ⟨untold, by rw [Next.timed, timed]⟩
  · exact ⟨by simp [Next.Untimed], rfl⟩

theorem takeTurn (h : q.claim.Untimed) (x : Verdict) : Pair (w.takeTurn q x) (w.takeTurn q.timed x) :=
  conclude h _

theorem resolve (h : site.Untimed) (answer : Except SyncError Verdict) :
    Pair (w.resolve me site answer) (w.resolve me site.timed answer) := by
  cases answer with
  | error e =>
    cases site with
    | turn q => exact abandon (by simp) rfl
    | attempt | wait | letGo => exact ⟨by simp [World.resolve, resolveError, dropWait, Next.Untimed], rfl⟩
    | _ => exact h.elim
  | ok x =>
    unfold World.resolve
    dsimp only
    split
    · cases site with
      | attempt c => exact conclude h false
      | turn q => exact takeTurn h x
      | wait t => exact ⟨h, rfl⟩
      | letGo t n saved => exact ⟨⟨h, rfl⟩, rfl⟩
      | _ => exact h.elim
    · cases site with
      | attempt c | turn q => exact ⟨h, rfl⟩
      | wait t | letGo t n saved => exact ⟨by simp [resolveRefusal, dropWait, Next.Untimed], rfl⟩
      | _ => exact h.elim

theorem call (h : site.Untimed) (stage : Stage) : Pair (w.callHook me site stage) (w.callHook me site.timed stage) := by
  cases stage with
  | arriving =>
    simp only [World.callHook, Site.hook_timed]
    split
    · exact ⟨h, rfl⟩
    · exact ⟨h, rfl⟩
  | entering =>
    simp only [World.callHook, Site.hook_timed, Site.sync_timed, Site.arg_timed]
    exact ⟨h, rfl⟩
  | leaving answer =>
    simp only [World.callHook, Site.hook_timed]
    split
    · exact ⟨h, rfl⟩
    · exact ⟨h, rfl⟩
  | answered answer => exact resolve h answer

theorem park (h : p.Untimed) (token : Option TokenId) (timeout : Option Span) :
    Pair (w.park me token timeout p) (w.park me token timeout p.timed) := by
  unfold World.park
  split
  · exact ⟨h, rfl⟩
  · dsimp only
    split
    · exact ⟨h, rfl⟩
    · exact ⟨h, rfl⟩

theorem linger (h : q.claim.Untimed) : Pair (w.linger me q) (w.linger me q.timed) := by
  have same : q.timed.claim.sync = q.claim.sync ∧ q.timed.node = q.node ∧
    q.timed.claim.patience = q.claim.patience := ⟨rfl, rfl, rfl⟩
  unfold World.linger
  rw [same.1, same.2.1, same.2.2, h.1]
  dsimp only [Option.map]
  rw [if_neg (by simp), if_neg (by simp)]
  split
  · exact ⟨by simp [Next.Untimed], rfl⟩
  · exact ⟨h, rfl⟩
  · exact park (p := .roused q) h _ _

theorem rouse (h : q.claim.Untimed) : Pair (w.rouse q) (w.rouse q.timed) := by
  have same : q.timed.claim.patience = q.claim.patience := rfl
  unfold World.rouse
  rw [same]
  split
  · exact ⟨h, rfl⟩
  · split
    · exact abandon (by simp) rfl
    · exact ⟨h, rfl⟩

theorem doze (h : v.Untimed) : Pair (w.doze me v) (w.doze me v.timed) := by
  have same : v.timed.terms.patience = v.terms.patience := rfl
  unfold World.doze
  dsimp only
  rw [same, h.1.1]
  exact park (p := .awoken v) h _ _

theorem awake (h : v.Untimed) : Pair (w.awake v) (w.awake v.timed) := by
  have same : v.timed.terms.patience = v.terms.patience ∧ v.timed.terms.sync = v.terms.sync ∧
    v.timed.node = v.node := ⟨rfl, rfl, rfl⟩
  unfold World.awake
  dsimp only
  rw [same.1, same.2.1, same.2.2]
  split
  · exact ⟨h, rfl⟩
  · split
    · exact ⟨⟨rfl, h⟩, rfl⟩
    · exact ⟨h, rfl⟩

/-- Where an untimed operation goes on, its timed counterpart does. -/
theorem advance (h : p.Untimed) : Pair (w.advance me p) (w.advance me p.timed) := by
  cases p with
  | call site stage => exact call h stage
  | queueing c =>
    have same : c.timed.patience = c.patience := rfl
    unfold World.advance Position.timed
    dsimp only
    rw [same, h.1]
    exact ⟨h, rfl⟩
  | turn q =>
    have same : q.timed.claim.sync = q.claim.sync ∧ q.timed.node = q.node := ⟨rfl, rfl⟩
    change Pair (w.turn q) (w.turn q.timed)
    unfold World.turn
    rw [same.1, same.2]
    dsimp only
    split
    · exact ⟨by simp [Next.Untimed], rfl⟩
    · split
      · exact ⟨h, rfl⟩
      · exact ⟨h, rfl⟩
  | lingering q => exact linger h
  | roused q => exact rouse h
  | waiting v =>
    have same : v.timed.terms.sync = v.terms.sync ∧ v.timed.node = v.node := ⟨rfl, rfl⟩
    unfold World.advance Position.timed
    dsimp only
    rw [same.1, same.2]
    split
    · exact ⟨⟨rfl, h⟩, rfl⟩
    · exact ⟨h, rfl⟩
  | dozing v => exact doze h
  | awoken v => exact awake h
  | start | reckoning => exact h.elim

/-- A deadline that cannot be represented is none. -/
theorem start {op op' : Operation} (h : op.Counterpart w.now op') :
    Pair (w.startOperation me op) (w.startOperation me op') := by
  cases h with
  | @acquire s mode arg token timeout far =>
    have none : Moment.after w.now timeout = none := if_neg far
    rw [startOperation_acquire, startOperation_acquire]
    have same : (Style.timed token (.timeout timeout)).patience w.now = (Style.interruptible token).patience w.now := by
      simp [Style.patience, Limit.deadlineFrom, none]
    rw [same]
    have untimed : (Site.attempt ⟨s, mode, arg, (Style.interruptible token).patience w.now, .operation false⟩).Untimed :=
      ⟨rfl, rfl⟩
    exact registerThen untimed _
  | @wait s c token timeout far =>
    have none : Moment.after w.now timeout = none := if_neg far
    have same : w.waitTerms s c (.inTime token (.timeout timeout)) = (w.waitTerms s c (.interruptible token)).timed := by
      simp [waitTerms, Limit.deadlineFrom, none, WaitTerms.timed]
    simp only [startOperation]
    rw [same]
    split
    · have untimed : (Site.wait (w.waitTerms s c (.interruptible token))).Untimed := ⟨rfl, rfl⟩
      exact registerThen untimed _
    · exact ⟨by simp [Next.Untimed], rfl⟩

end Pair

end World

end Turnstile
