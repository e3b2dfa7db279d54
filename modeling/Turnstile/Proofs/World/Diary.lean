import Turnstile.Proofs.World.Passage

/-! Whose operation it is that an actor is busy with, and what an onlooker can tell of it. -/
namespace Turnstile

def Style.token : Style → Option TokenId
  | .plain => none
  | .uninterruptible token | .interruptible token | .timed token _ => token

def WaitStyle.token : WaitStyle → Option TokenId
  | .uninterruptible token | .interruptible token | .inTime token _ | .timeLeft token _ => token

def Operation.token : Operation → Option TokenId
  | .acquire _ _ _ style => style.token
  | .wait _ _ style => style.token
  | _ => none

/-- The claim by which a wait gets its synchronizer back. -/
def Waiting.claim (v : Waiting) : Claim :=
  ⟨v.terms.sync, .exclusive, v.saved, { token := v.terms.patience.token }, .afterWait v⟩

/-- A cancellation that was put off changes nothing about what a wait comes to. -/
theorem Waiting.outcome_claim (v : Waiting) (swallowed : Bool) : v.claim.outcome swallowed = v.outcome := by
  obtain ⟨terms, timedOut, interruption⟩ := v.settled_same swallowed
  change (v.settled swallowed).outcome = _
  unfold Waiting.outcome
  rw [terms, timedOut]
  simp only [interruption]

/-- The terms on which the operation waits. -/
def WaitTerms.Of (op : Operation) (t : WaitTerms) : Prop :=
  ∃ (w : World) (style : WaitStyle), op = .wait t.sync t.condition style ∧
    t = w.waitTerms t.sync t.condition style

/-- A claim that the operation makes. -/
def Claim.Of (op : Operation) (c : Claim) : Prop :=
  match c.purpose with
  | .operation timed => ∃ (now : Moment) (style : Style), op = .acquire c.sync c.mode c.arg style ∧
      c.patience = style.patience now ∧ timed = style.isTimed
  | .afterWait v => v.terms.Of op ∧ c = v.claim

def Site.Of (op : Operation) : Site → Prop
  | .attempt c => c.Of op ∧ ∃ timed, c.purpose = .operation timed
  | .turn q => q.claim.Of op
  | .release s mode arg => op = .release s mode arg
  | .isHeld s => op = .isHeld s
  | .wait t | .letGo t _ _ => t.Of op
  | .errand s c e => op = .errand s c e

/-- A position that the operation may come to. -/
def Position.Of (op : Operation) : Position → Prop
  | .start op' => op' = op
  | .call site _ => site.Of op
  | .queueing c => c.Of op ∧ ∃ timed, c.purpose = .operation timed
  | .turn q | .lingering q | .roused q => q.claim.Of op
  | .waiting v | .dozing v | .awoken v => v.terms.Of op
  | .reckoning _ timeout _ => ∃ s c token, op = .wait s c (.timeLeft token timeout)

section

variable {op : Operation} {p p' : Position} {w : World} {me : ActorId} {r : World × Next}

theorem WaitTerms.Of.token {t : WaitTerms} (h : t.Of op) : t.patience.token = op.token := by
  obtain ⟨w, style, rfl, eq⟩ := h
  rw [eq]
  cases style <;> rfl

theorem Claim.Of.token {c : Claim} (h : c.Of op) : c.patience.token = op.token ∧ c.token = op.token := by
  unfold Claim.Of at h
  unfold Claim.token
  cases purpose : c.purpose with
  | operation =>
    rw [purpose] at h
    obtain ⟨now, style, rfl, eq, -⟩ := h
    have same : c.patience.token = style.token := by
      rw [eq]
      cases style <;> rfl
    exact ⟨same, same⟩
  | afterWait v =>
    rw [purpose] at h
    obtain ⟨terms, eq⟩ := h
    exact ⟨eq ▸ terms.token, terms.token⟩

theorem Claim.of_waiting {v : Waiting} (h : v.terms.Of op) : v.claim.Of op := ⟨h, rfl⟩

theorem Site.of_operation {site : Site} (h : op.site w = some site) : site.Of op := by
  cases op with
  | acquire s mode arg style =>
    obtain rfl := Option.some.inj h
    exact ⟨⟨w.now, style, rfl, rfl, rfl⟩, style.isTimed, rfl⟩
  | wait s c style =>
    obtain rfl := Option.some.inj h
    refine ⟨w, style, ?_, ?_⟩ <;> cases style <;> rfl
  | release | isHeld | errand =>
    obtain rfl := Option.some.inj h
    rfl
  | _ => simp [Operation.site] at h

theorem Position.of_outcome {c : Claim} {swallowed : Bool} (h : c.Of op)
    (next : (c.outcome swallowed).position = some p') : p'.Of op := by
  rcases c.outcome_cases swallowed with ⟨v, eq⟩ | ⟨v, start, timeout, purpose, report, -, eq⟩
  · simp [eq, Next.position] at next
  · obtain rfl := Option.some.inj ((congrArg Next.position eq).symm.trans next)
    rw [Claim.Of, purpose] at h
    obtain ⟨⟨w, style, rfl, terms⟩, -⟩ := h
    rw [terms] at report
    cases style with
    | timeLeft token limit =>
      obtain ⟨-, rfl⟩ := WaitReport.timeLeft.inj report
      exact ⟨_, _, token, rfl⟩
    | _ => simp [World.waitTerms] at report

/-- Nothing but its own operation takes an actor anywhere. -/
theorem Course.of (h : Course w me p r) (of : p.Of op) (next : r.2.position = some p') : p'.Of op := by
  cases h with
  | «open» opens =>
    obtain rfl := Option.some.inj next
    obtain rfl : _ = op := of
    exact Site.of_operation opens
  | enter _ _ goes | leave _ _ goes =>
    obtain rfl := Next.position_of_pauses goes next
    exact of
  | park _ goes | sleep _ _ _ goes =>
    obtain rfl := Next.position_of_parks goes next
    exact of
  | conclude _ gets =>
    refine Position.of_outcome ?_ next
    rcases gets with ⟨rfl, -⟩ | ⟨q, rfl, rfl, -⟩
    · exact of.1
    · exact of
  | join =>
    obtain rfl := Option.some.inj next
    exact of.1
  | reclaim | timeOut | cancel =>
    obtain rfl := Option.some.inj next
    exact Claim.of_waiting of
  | ask | queue | linger | enterWait | letGo | call | await | again | retry | swallow | doze | look |
    putOff =>
    obtain rfl := Option.some.inj next
    exact of
  | _ => simp [Next.position] at next

end

namespace World

/-- What comes of notes that are made event by event. -/
def collect {β : Type} (note : World → Event → β → β) : World → List Event → β → β
  | _, [], x => x
  | w, e :: rest, x => collect note (w.happen e) rest (note w e x)

theorem collect_concat {β : Type} (note : World → Event → β → β) (w : World) (events : List Event)
    (e : Event) (x : β) :
    collect note w (events ++ [e]) x = note (w.after events) e (collect note w events x) := by
  induction events generalizing w x with
  | nil => rfl
  | cons e' rest ih => exact ih (w.happen e') (note w e' x)

/-- What the notes say of every state, if each event keeps it so. -/
theorem collect_invariant {β : Type} {note : World → Event → β → β} {inv : World → β → Prop}
    {rule : World → Event → Prop}
    (kept : ∀ w e x, inv w x → rule w e → inv (w.happen e) (note w e x)) {w : World}
    {events : List Event} {x : β} (start : inv w x) (obeys : Obeys rule w events) :
    inv (w.after events) (collect note w events x) := by
  induction events generalizing w x with
  | nil => exact start
  | cons e rest ih => exact ih (kept w e x start obeys.1) obeys.2

theorem collect_always {β : Type} {note : World → Event → β → β} {inv : World → β → Prop}
    (kept : ∀ w e x, inv w x → inv (w.happen e) (note w e x)) {w : World} {x : β} (start : inv w x)
    (events : List Event) : inv (w.after events) (collect note w events x) := by
  induction events generalizing w x with
  | nil => exact start
  | cons e rest ih => exact ih (kept w e x start)

end World

/-- What an onlooker notes of the operation of an actor. -/
structure Diary where
  /-- What the actor was last told to do. -/
  task : Option Operation := none
  /-- Whether the actor has taken the flag of its token since. -/
  took : Bool := false

namespace Diary

def token (d : Diary) : Option TokenId := d.task.bind Operation.token

/-- With every operation the actor turns over a new leaf. -/
def note (a : ActorId) (w : World) (e : Event) (d : Diary) : Diary :=
  match e with
  | .begin b op => if b = a ∧ (w.actor a).position = none then { task := some op } else d
  | .step b =>
    { d with took := d.took || (b = a && w.flagged d.token && !(w.step b).1.flagged d.token) }
  | _ => d

def Tracks (a : ActorId) (w : World) (d : Diary) : Prop :=
  ∀ p, (w.actor a).position = some p → ∃ op, d.task = some op ∧ p.Of op

def since (w : World) (a : ActorId) (events : List Event) : Diary := World.collect (note a) w events {}

variable {a : ActorId} {w : World} {d : Diary} {e : Event}

theorem note_of_busy (busy : (w.actor a).position ≠ none) (other : e ≠ .step a) : d.note a w e = d := by
  cases e with
  | begin b op => exact if_neg fun h => busy h.2
  | step b =>
    have ne : b ≠ a := fun e => other (e ▸ rfl)
    simp [note, ne]
  | _ => rfl

theorem task_note_of_busy (busy : (w.actor a).position ≠ none) : (d.note a w e).task = d.task := by
  by_cases other : e = .step a
  · rw [other]
    rfl
  · rw [note_of_busy busy other]

theorem note_begin {op : Operation} (idle : (w.actor a).activity = .idle) :
    d.note a w (.begin a op) = { task := some op } :=
  if_pos ⟨rfl, by rw [Actor.position, idle]⟩

theorem Tracks.happen (h : Tracks a w d) (e : Event) : Tracks a (w.happen e) (d.note a w e) := by
  intro p' hp'
  rcases w.position_cases a hp' with ⟨hp, -⟩ | ⟨op, rfl, idle, rfl⟩ | ⟨p, rfl, running, course, next⟩
  · rw [task_note_of_busy (by simp [hp])]
    exact h p' hp
  · exact ⟨op, by rw [note_begin idle], rfl⟩
  · obtain ⟨op, task, of⟩ := h p (Actor.position_of_busy running)
    exact ⟨op, task, course.of of next⟩

end Diary

end Turnstile
