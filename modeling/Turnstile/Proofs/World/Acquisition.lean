import Turnstile.Proofs.World.Account
import Turnstile.Proofs.World.Ledger
import Turnstile.Proofs.World.Tenure

/-! What an acquisition comes to: it tells what really happened, and leaves nothing behind if it fails. -/
namespace Turnstile

namespace Position

/-- The claim that an acquisition makes. -/
def pursued : Position → Option Claim
  | .call (.attempt c) _ | .queueing c => some c
  | .turn q | .lingering q | .roused q | .call (.turn q) _ => some q.claim
  | _ => none

/-- What the hook has answered where the actor has yet to act on it. -/
def answer : Position → Option (Except SyncError Verdict)
  | .call _ stage => stage.answer
  | _ => none

/-- Whether the actor is where only a refusal leads. -/
def tried : Position → Bool
  | .queueing _ | .turn _ | .lingering _ | .roused _ => true
  | _ => false

/-- The hook has refused all along, save perhaps for the answer that is yet to be acted on. -/
def Told (p : Position) (answers : List (Except SyncError Verdict)) : Prop :=
  ∃ earlier, answers = p.answer.toList ++ earlier ∧ (∀ x ∈ earlier, x = .ok .refused) ∧
    (p.tried = true → earlier ≠ [])

end Position

inductive Pursuit (w : World) (me : ActorId) (style : Style) : Position → Position → Prop
  | setOut {op c} (patience : c.patience = style.patience w.now) :
      Pursuit w me style (.start op) (.call (.attempt c) .arriving)
  | call {site stage stage'} (asked : stage ≠ .entering) (same : stage'.answer = stage.answer) :
      Pursuit w me style (.call site stage) (.call site stage')
  | ask {site} : Pursuit w me style (.call site .entering)
      (.call site (.leaving ((w.sync site.sync).ask site.hook me site.arg).2))
  | lineUp {c v} (refused : v.isGrant = false) :
      Pursuit w me style (.call (.attempt c) (.answered (.ok v))) (.queueing c)
  | linger {q v} (refused : v.isGrant = false) :
      Pursuit w me style (.call (.turn q) (.answered (.ok v))) (.lingering q)
  | join {c n} : Pursuit w me style (.queueing c) (.turn ⟨c, n, false⟩)
  | round {p p' q q'} (tried : p.tried = true) (place : p.place = some q) (place' : p'.place = some q')
      (claim : q'.claim = q.claim) (node : q'.node = q.node) (unanswered : p'.answer = none) :
      Pursuit w me style p p'

namespace Claim

theorem Of.acquired {c : Claim} {s : SyncId} {mode : Mode} {arg : Int} {style : Style}
    (of : c.Of (.acquire s mode arg style)) : c.sync = s ∧ c.purpose = .operation style.isTimed := by
  unfold Claim.Of at of
  split at of
  · rename_i timed purpose
    obtain ⟨now, style', eq, -, rfl⟩ := of
    obtain ⟨rfl, -, -, rfl⟩ := Operation.acquire.inj eq
    exact ⟨rfl, purpose⟩
  · obtain ⟨⟨w, style', eq, -⟩, -⟩ := of
    simp at eq

theorem Of.outcome {c : Claim} {s : SyncId} {mode : Mode} {arg : Int} {style : Style}
    (of : c.Of (.acquire s mode arg style)) (swallowed : Bool) :
    c.outcome swallowed = .ends (if style.isTimed then .truth true else .done) := by
  unfold Claim.outcome
  rw [of.acquired.2]

end Claim

section

variable {w : World} {me : ActorId} {p p' : Position} {r : World × Next} {s : SyncId} {mode : Mode} {arg : Int}
  {style : Style}

theorem Course.pursuit (course : Course w me p r) (of : p.Of (.acquire s mode arg style))
    (next : r.2.position = some p') : Pursuit w me style p p' := by
  cases course with
  | «open» opens =>
    obtain rfl := Option.some.inj next
    obtain rfl : _ = Operation.acquire s mode arg style := of
    obtain rfl := Option.some.inj opens
    exact .setOut rfl
  | enter _ _ goes | leave _ _ goes =>
    obtain rfl := Next.position_of_pauses goes next
    exact .call (by simp) rfl
  | ask =>
    obtain rfl := Option.some.inj next
    exact .ask
  | queue refused =>
    obtain rfl := Option.some.inj next
    exact .lineUp refused
  | linger refused =>
    obtain rfl := Option.some.inj next
    exact .linger refused
  | join =>
    obtain rfl := Option.some.inj next
    exact .join
  | call | await | again | retry | swallow =>
    obtain rfl := Option.some.inj next
    exact .round rfl rfl rfl rfl rfl rfl
  | park _ goes =>
    obtain rfl := Next.position_of_parks goes next
    exact .round rfl rfl rfl rfl rfl rfl
  | @conclude site c swallowed v w' granted gets =>
    have of : c.Of (.acquire s mode arg style) := by
      rcases gets with ⟨rfl, -⟩ | ⟨q, rfl, rfl, -⟩
      · exact of.1
      · exact of
    simp [of.outcome, Next.position] at next
  | enterWait | letGo | reclaim | timeOut | cancel | doze | sleep | look | putOff =>
    obtain ⟨w', style', eq, -⟩ := of
    simp at eq
  | _ => simp [Next.position] at next

/-- Only on an answer does an operation end at a call. -/
theorem Course.answered {site : Site} {stage : Stage} {v : Value} (course : Course w me (.call site stage) r)
    (ends : r.2 = .ends v) : ∃ answer, stage = .answered answer := by
  cases course with
  | enter _ _ goes | leave _ _ goes => rcases goes with rfl | rfl <;> simp at ends
  | ask => simp at ends
  | _ => exact ⟨_, rfl⟩

theorem Course.concludes {site : Site} {x : Verdict} {v : Value}
    (course : Course w me (.call site (.answered (.ok x))) r)
    (of : (Position.call site (.answered (.ok x))).Of (.acquire s mode arg style)) (grant : x.isGrant = true)
    (ends : r.2 = .ends v) : ∃ (c : Claim) (swallowed : Bool), c.Of (.acquire s mode arg style) ∧
      c.outcome swallowed = .ends v ∧
      r.1.tokens = (if c.restores swallowed then w.restoreFlag c.token else w).tokens := by
  cases course with
  | @conclude _ c swallowed _ _ _ gets tokens =>
    refine ⟨c, swallowed, ?_, ends, tokens⟩
    rcases gets with ⟨rfl, -⟩ | ⟨q, rfl, rfl, -⟩
    · exact of.1
    · exact of
  | grant _ _ told =>
    rcases told with ⟨⟨_, _, _, rfl⟩ | ⟨_, rfl⟩, -⟩ | ⟨_, _, _, rfl⟩ <;>
      simp [Position.Of, Site.Of] at of
  | refuse refused => simp [refused] at grant
  | _ => simp at ends

/-- An acquisition asks the hooks of its synchronizer. -/
theorem Position.Of.sync {site : Site} {stage : Stage} (of : (Position.call site stage).Of (.acquire s mode arg style)) :
    site.sync = s := by
  cases site with
  | attempt c => exact of.1.acquired.1
  | turn q => exact Claim.Of.acquired of |>.1
  | wait | letGo =>
    obtain ⟨_, style', eq, -⟩ := of
    simp at eq
  | _ => simp [Position.Of, Site.Of] at of

/-- Only an acquisition that puts cancellations off owes one. -/
theorem Position.Of.owes {t : Option TokenId} (of : p.Of (.acquire s mode arg style)) (owes : p.Owes w t) :
    ∃ q, p.place = some q ∧ q.swallowed = true ∧ q.claim.patience.interruptible = false := by
  have put_off : ∀ {q : Queued}, q.claim.Of (.acquire s mode arg style) → q.claim.Owes q.swallowed →
      q.swallowed = true ∧ q.claim.patience.interruptible = false := by
    intro q of owes
    rwa [Claim.Owes, of.acquired.2] at owes
  cases p with
  | turn q | lingering q | roused q => exact ⟨q, rfl, put_off of owes⟩
  | call site stage =>
    cases site with
    | turn q => exact ⟨q, rfl, put_off of owes⟩
    | _ => exact owes.elim
  | waiting | dozing | awoken =>
    obtain ⟨_, style', eq, -⟩ := of
    simp at eq
  | reckoning =>
    obtain ⟨_, _, _, eq⟩ := of
    simp at eq
  | _ => exact owes.elim

theorem Position.pursued_of_place {q : Queued} (place : p.place = some q) : p.pursued = some q.claim := by
  cases p with
  | turn | lingering | roused =>
    obtain rfl := Option.some.inj place
    rfl
  | call site stage =>
    cases site with
    | turn k =>
      obtain rfl := Option.some.inj place
      rfl
    | _ => simp [Position.place] at place
  | _ => simp [Position.place] at place

theorem Position.answer_of_tried (tried : p.tried = true) : p.answer = none := by
  cases p with
  | call => simp [Position.tried] at tried
  | _ => rfl

namespace Pursuit

theorem pursued (h : Pursuit w me style p p') :
    (∃ op, p = .start op ∧ ∀ c, p'.pursued = some c → c.patience = style.patience w.now) ∨
      ((∀ op, p ≠ .start op) ∧ p'.pursued = p.pursued) := by
  cases h with
  | @setOut op c patience =>
    refine Or.inl ⟨op, rfl, fun c' here => ?_⟩
    obtain rfl := Option.some.inj here
    exact patience
  | @call site | @ask site => exact Or.inr ⟨by simp, by cases site <;> rfl⟩
  | lineUp | linger | join => exact Or.inr ⟨by simp, rfl⟩
  | round tried place place' claim =>
    refine Or.inr ⟨?_, ?_⟩
    · rintro op rfl
      simp [Position.tried] at tried
    · rw [Position.pursued_of_place place, Position.pursued_of_place place', claim]

/-- What is heard on the way is told of. -/
theorem told (h : Pursuit w me style p p') (new : List (Except SyncError Verdict))
    {answers : List (Except SyncError Verdict)} (told : p.Told answers)
    (asks : ∀ site, p = .call site .entering → new = [((w.sync site.sync).ask site.hook me site.arg).2])
    (quiet : (∀ site, p ≠ .call site .entering) → new = []) : p'.Told (new ++ answers) := by
  obtain ⟨earlier, rfl, refused, tried⟩ := told
  have refusal : ∀ {v : Verdict}, v.isGrant = false → v = .refused := by
    intro v hv
    cases v <;> simp [Verdict.isGrant] at hv ⊢
  cases h with
  | setOut =>
    rw [quiet (by simp)]
    exact ⟨earlier, rfl, refused, by simp [Position.tried]⟩
  | @call site stage stage' asked same =>
    rw [quiet fun site' e => asked (Position.call.inj e).2]
    exact ⟨earlier, by simp [Position.answer, same], refused, by simp [Position.tried]⟩
  | @ask site =>
    rw [asks site rfl]
    exact ⟨earlier, rfl, refused, by simp [Position.tried]⟩
  | @lineUp c v hv | @linger q v hv =>
    rw [quiet (by simp)]
    refine ⟨.ok v :: earlier, rfl, fun x hx => ?_, by simp⟩
    rcases List.mem_cons.1 hx with rfl | hx
    · rw [refusal hv]
    · exact refused x hx
  | join =>
    rw [quiet (by simp)]
    exact ⟨earlier, rfl, refused, fun _ => tried rfl⟩
  | round was _ _ _ _ unanswered =>
    rw [quiet ?_]
    · refine ⟨earlier, ?_, refused, fun _ => tried was⟩
      rw [unanswered, Position.answer_of_tried was]
      rfl
    · rintro site rfl
      simp [Position.tried] at was

end Pursuit

end

namespace Account

variable {s : SyncId} {a : ActorId} {w : World} {e : Event} {d : Account} {p p' : Position}
  {mode : Mode} {arg : Int} {style : Style}

/-- What the account tells of an acquisition that has come to the position. -/
structure Fits (s : SyncId) (mode : Mode) (arg : Int) (style : Style) (w : World) (d : Account) (p : Position) :
    Prop where
  of : p.Of (.acquire s mode arg style)
  patience : ∀ c, p.pursued = some c → c.patience = style.patience d.began
  told : p.Told d.answers
  candid : ∀ x ∈ d.answers, x ≠ .error .interrupted
  owing : w.Owing (.acquire s mode arg style) (decide (0 < d.takes)) p
  marks : Marks d.strokes (p.place.map Queued.node)

/-- The account is right whenever the actor is busy with an acquisition. -/
structure Sound (s : SyncId) (a : ActorId) (w : World) (d : Account) : Prop where
  tenured : w.Tenured s
  fits : ∀ p mode arg style, (w.actor a).position = some p → d.task = some (.acquire s mode arg style) →
    d.Fits s mode arg style w p

theorem Fits.begins (task : Operation) (h : task = .acquire s mode arg style) :
    ({ task := some task } : Account).Fits s mode arg style w (.start task) where
  of := h
  patience := by simp [Position.pursued]
  told := ⟨[], rfl, by simp, by simp [Position.tried]⟩
  candid := by simp
  owing := by simp [World.Owing]
  marks := by simp [Marks, Position.place]

/-- Before the hook has been asked, or while it is asked for the first time, an acquisition does nothing to
the queue. -/
theorem queue_idle (hw : w.Tenured s) (running : (w.actor a).activity = .busy .running p)
    (of : p.Of (.acquire s mode arg style)) (place : p.place = none) (early : ∀ c, p ≠ .queueing c) :
    (w.step a).1.queue s = w.queue s := by
  rcases hw.tasked.deeds hw.inTable (.step a) with ⟨same, -⟩ | ⟨b, p', q', cs, here, running', deed, queue, -⟩
  · exact same
  obtain rfl := Event.step.inj here
  obtain ⟨-, rfl⟩ := Activity.busy.inj (running.symm.trans running')
  refine Eq.trans queue ?_
  clear queue
  cases deed with
  | rest => rfl
  | join => exact absurd rfl (early _)
  | withdraw place' => simp [place] at place'
  | ready | turn | finish => simp [Position.place] at place
  | serve releasing =>
    cases p with
    | call site stage =>
      cases site with
      | release => simp [Position.Of, Site.Of] at of
      | letGo =>
        obtain ⟨_, style', eq, -⟩ := of
        simp at eq
      | _ => simp [Position.releasing] at releasing
    | _ => simp [Position.releasing] at releasing
  | drop | enter =>
    obtain ⟨_, style', eq, -⟩ := of
    simp at eq
  | transfer awaits =>
    rcases awaits with rfl | rfl
    all_goals
      obtain ⟨_, style', eq, -⟩ := of
      simp at eq
  | signal | signalAll => simp [Position.Of, Site.Of] at of

namespace Fits

theorem bides (h : d.Fits s mode arg style w p) (hp : (w.actor a).position = some p)
    (task : d.task = some (.acquire s mode arg style)) (bides : w.Bides a e p) :
    (d.note s a w e).Fits s mode arg style (w.happen e) p := by
  have size := w.size_tokens_happen e
  have unended : ∀ start timeout late, p ≠ .reckoning start timeout late := by
    rintro start timeout late rfl
    obtain ⟨s', c, token, eq⟩ := h.of
    simp at eq
  by_cases mine : e = .step a
  swap
  · rw [note_of_busy (by simp [hp]) mine]
    exact { h with owing := h.owing.aside size unended }
  subst mine
  obtain ⟨tokens, syncs⟩ := bides.step hp
  have clock : ∀ p', (w.actor a).activity = .busy .running p' → p'.readsClock = true := by
    intro p' running
    obtain rfl := Option.some.inj ((Actor.position_of_busy running).symm.trans hp)
    exact (bides rfl running).1
  have began := began_note_of_begun (s := s) (d := d) fun op starts => by
    simpa [Position.readsClock] using clock _ starts
  have answers := answers_note_of_unasked (s := s) (d := d) fun site asking => by
    simpa [Position.readsClock] using clock _ asking
  have takes := takes_kept (a := a) task tokens
  constructor
  case of => exact h.of
  case patience => rw [began]; exact h.patience
  case told => rw [answers]; exact h.told
  case candid => rw [answers]; exact h.candid
  case owing => rw [takes]; exact h.owing.aside size unended
  case marks =>
    rw [strokes_note, World.queue_congr syncs]
    have marks := h.marks
    generalize p.place.map Queued.node = node at marks ⊢
    cases node with
    | none => exact marks.still rfl
    | some n => exact marks.keep rfl

section onward

variable (h : d.Fits s mode arg style w p) (running : (w.actor a).activity = .busy .running p)

include h running

/-- The account takes down what the hook answers. -/
theorem heard_on (candid : w.candid s (.step a) = true) (pursuit : Pursuit (w.looked a p) a style p p') :
    p'.Told (d.note s a w (.step a)).answers ∧ ∀ x ∈ (d.note s a w (.step a)).answers, x ≠ .error .interrupted := by
  by_cases asks : ∃ site, p = .call site .entering
  · obtain ⟨site, rfl⟩ := asks
    have here := h.of.sync
    rw [answers_note running here]
    constructor
    · refine pursuit.told [_] h.told (fun site' e => ?_) fun quiet => absurd rfl (quiet site)
      obtain rfl := (Position.call.inj e).1
      rw [World.sync_looked, here]
    · intro x hx
      rcases List.mem_cons.1 hx with rfl | hx
      · exact World.candid_asked candid running here
      · exact h.candid x hx
  · have unasked : ∀ site, p ≠ .call site .entering := fun site e => asks ⟨site, e⟩
    rw [answers_kept running unasked]
    exact ⟨pursuit.told [] h.told (fun site e => absurd e (unasked site)) fun _ => rfl, h.candid⟩

theorem owing_on (task : d.task = some (.acquire s mode arg style))
    (course : Course (w.looked a p) a p (w.stride a p)) (next : (w.stride a p).2.position = some p') :
    (w.step a).1.Owing (.acquire s mode arg style) (decide (0 < (d.note s a w (.step a)).takes)) p' := by
  intro taken
  have tokens := World.tokens_step w a running
  have takes : decide (0 < d.takes) = true ∨ w.Lowers (w.step a).1 style.token := by
    rcases takes_note task with ⟨-, lowers⟩ | ⟨same, -⟩
    · exact Or.inr lowers
    · exact Or.inl (same ▸ taken)
  refine ⟨w.size_tokens_happen (.step a) ▸ h.owing.known takes, ?_⟩
  have owing := h.owing.congr (w.tokens_looked a p)
  rw [World.Lowers, World.flagged_of_tokens tokens, ← World.flagged_looked w a p] at takes
  exact World.owes_congr (World.owes_course course h.of owing next takes) tokens

/-- Without a place in the queue, the step has left the queue alone. -/
theorem still_on (hw : w.Tenured s) (course : Course (w.looked a p) a p (w.stride a p))
    (next : (w.stride a p).2.position = some p') (place' : p'.place = none) :
    p.place = none ∧ (w.step a).1.queue s = w.queue s := by
  have place : p.place = none := by
    by_contra taken
    obtain ⟨q, place⟩ := Option.ne_none_iff_exists'.1 taken
    rcases course.keeps_place place next with ⟨q', kept, -⟩ | ⟨swallowed, ends⟩
    · simp [place'] at kept
    · rw [ends, (h.of.place place).outcome] at next
      simp [Next.position] at next
  have early : ∀ c, p ≠ .queueing c := by
    rintro c rfl
    cases course.pursuit h.of next with
    | join => simp [Position.place] at place'
    | round _ taken => simp [place] at taken
  exact ⟨place, queue_idle hw running h.of place early⟩

/-- With a place in the queue, the step has brought the node in, or it has left those in the queue alone. -/
theorem marks_on (hw : w.Tenured s) (course : Course (w.looked a p) a p (w.stride a p))
    (next : (w.stride a p).2.position = some p') :
    Marks (d.note s a w (.step a)).strokes (p'.place.map Queued.node) := by
  obtain ⟨k, body, hq⟩ := hw.spine
  have queue : (w.step a).1.queue s = (w.stride a p).1.queue s := World.queue_step running s
  have marks := h.marks
  rw [strokes_note]
  cases place' : p'.place with
  | none =>
    obtain ⟨place, still⟩ := h.still_on running hw course next place'
    rw [place] at marks
    exact marks.still still
  | some q' =>
    obtain ⟨sync, purpose⟩ := ((course.of h.of next).place place').acquired
    rcases course.place next place' purpose with ⟨c, rfl, rfl, stride⟩ | ⟨q, place, claim, node⟩
    · -- The actor joins just now, and its node is a new one.
      obtain rfl : c.sync = s := sync
      obtain ⟨-, live, -⟩ := hq.respects_join c.mode a
      refine marks.join (fun hm => ?_) ?_
      · rw [World.queue_looked] at hm
        exact Nat.lt_irrefl _ (hq.inTable _ (List.mem_cons_of_mem _ (hq.mem_live.1 hm).1))
      · rw [queue, stride, World.queue_setQueue_self (by simpa using hw.inTable), World.queue_looked]
        exact live
    · rw [place] at marks
      have live := hw.live_stride (Actor.position_of_busy running) place (claim ▸ sync) next place'
      rw [← queue] at live
      rw [Option.map_some, ← node]
      exact marks.keep (by rw [live])

/-- The account goes on with the acquisition. -/
theorem on (hw : w.Tenured s) (task : d.task = some (.acquire s mode arg style))
    (candid : w.candid s (.step a) = true) (course : Course (w.looked a p) a p (w.stride a p))
    (next : (w.stride a p).2.position = some p') :
    (d.note s a w (.step a)).Fits s mode arg style (w.step a).1 p' := by
  have pursuit := course.pursuit h.of next
  obtain ⟨told, answers⟩ := h.heard_on running candid pursuit
  refine ⟨course.of h.of next, fun c pursued => ?_, told, answers, h.owing_on running task course next,
    h.marks_on running hw course next⟩
  rcases pursuit.pursued with ⟨op, rfl, set⟩ | ⟨begun, same⟩
  · rw [began_note running, set c pursued, World.now_looked]
  · rw [began_kept running begun]
    exact h.patience c (same ▸ pursued)

end onward

/-- Whoever heeds cancellations has taken none and gone on. -/
theorem heedless (h : d.Fits s mode arg style w p) (heeds : style.heeds = true) : d.takes = 0 := by
  by_contra taken
  obtain ⟨-, owes⟩ := h.owing (by simpa [Nat.pos_iff_ne_zero] using taken)
  obtain ⟨q, place, -, heedless⟩ := h.of.owes owes
  rw [h.patience _ (Position.pursued_of_place place), Style.interruptible_patience, heeds] at heedless
  simp at heedless

/-- An acquisition ends well where the hook has granted it. -/
theorem granted {site : Site} {x : Verdict} {v : Value}
    (h : d.Fits s mode arg style w (.call site (.answered (.ok x))))
    (running : (w.actor a).activity = .busy .running (.call site (.answered (.ok x))))
    (task : d.task = some (.acquire s mode arg style)) (grant : x.isGrant = true)
    (ends : (w.stride a (.call site (.answered (.ok x)))).2 = .ends v) :
    (d.note s a w (.step a)).Outcome s style w (w.step a).1 v := by
  have step := World.tokens_step w a running
  have looked := w.tokens_looked a (.call site (.answered (.ok x)))
  rcases w.stride_course a (.call site (.answered (.ok x))) with ⟨clock, -⟩ | ⟨-, course⟩
  · simp [Position.readsClock] at clock
  obtain ⟨c, swallowed, of, outcome, tokens⟩ := course.concludes h.of grant ends
  have good : v = .done ∨ v = .truth true := by
    rw [of.outcome] at outcome
    cases timed : style.isTimed <;> simp [timed] at outcome <;> simp [← outcome]
  have kept : ¬w.Lowers (w.step a).1 style.token := by
    split at tokens
    · rintro ⟨raised, lowered⟩
      rw [← World.flagged_looked w a (.call site (.answered (.ok x)))] at raised
      obtain ⟨t, ht, inTable⟩ := World.exists_of_flagged raised
      have put_back := World.flagged_restoreFlag (of.token.2.trans ht) inTable (step.trans tokens)
      rw [of.token.2] at put_back
      exact Bool.false_ne_true (lowered.symm.trans put_back)
    · exact World.not_lowers (World.flagged_of_tokens (step.trans (tokens.trans looked)))
  have takes := ((takes_note (s := s) (a := a) task).resolve_left fun taken => kept taken.2).1
  have unasked := answers_kept (s := s) (d := d) running (by simp)
  obtain ⟨earlier, answers, refused, -⟩ := h.told
  refine .granted good (unasked.trans answers) grant refused (fun taken => ?_) fun heeds => ?_
  · rw [takes] at taken
    rw [World.flagged_of_tokens step]
    refine World.flagged_of_ends course h.of (h.owing.congr looked) ends (Or.inl (by simpa using taken)) ?_ ?_
    all_goals rcases good with rfl | rfl <;> simp
  · rw [takes]
    exact h.heedless heeds

/-- Whoever gives up its place leaves nothing behind. -/
theorem givesUp {q : Queued} {v : Value} (h : d.Fits s mode arg style w p) (hw : w.Tenured s)
    (running : (w.actor a).activity = .busy .running p) (task : d.task = some (.acquire s mode arg style))
    (place : p.place = some q) (gives : World.GivesUp (w.looked a p) q p (w.stride a p).1 v)
    (queue : (w.step a).1.queue s = ((w.queue s).withdraw q.node).1) :
    (d.note s a w (.step a)).Outcome s style w (w.step a).1 v := by
  obtain ⟨k, body, hq⟩ := hw.spine
  have of := h.of.place place
  have patience := h.patience _ (Position.pursued_of_place place)
  have step := World.tokens_step w a running
  have looked := w.tokens_looked a p
  have unasked := answers_kept (s := s) (d := d) running fun site asking => by
    subst asking
    cases gives
  have begun := began_kept (s := s) (d := d) running fun op starts => by
    subst starts
    cases gives
  have leaves : (d.note s a w (.step a)).LeavesNothing ((w.step a).1.queue s) := by
    have marks := h.marks
    rw [place] at marks
    obtain ⟨called, seat⟩ := Position.seat_of_place place of.acquired.1
    have kept := hw.kept a p (Actor.position_of_busy running)
    rw [seat] at kept
    obtain ⟨cancelled, gone, left⟩ := marks.withdraw hq kept.1 queue
    rw [← strokes_note] at left
    exact left.leaves cancelled gone
  obtain ⟨earlier, answers, refused, tried⟩ := h.told
  cases gives with
  | late overdue tokens =>
    rw [patience, World.now_looked] at overdue
    obtain ⟨token, limit, -, rfl, -⟩ := Style.timed_of_isOver overdue
    obtain ⟨y, rest, rfl⟩ := List.exists_cons_of_ne_nil (tried rfl)
    obtain rfl := refused y (by simp)
    refine .late (begun ▸ overdue) (unasked.trans answers) (fun z hz => refused z (by simp [hz])) ?_ leaves
    exact (takes_kept task (step.trans (tokens.trans looked))).trans (h.heedless rfl)
  | interrupted raised interruptible tokens =>
    rw [patience, Style.interruptible_patience] at interruptible
    have token : q.claim.patience.token = style.token := of.token.1
    rw [World.flagged_looked, token] at raised
    have lowers : w.Lowers (w.step a).1 style.token :=
      ⟨raised, token ▸ World.flagged_takeFlag (step.trans tokens)⟩
    have takes := takes_lowered task lowers
    rw [h.heedless interruptible] at takes
    refine .interrupted interruptible ?_ takes leaves
    rw [unasked, answers]
    exact refused
  | @failed w' err tokens =>
    have told := unasked.trans answers
    refine .failed told refused ?_ (fun heeds => ?_) leaves
    · rintro rfl
      exact h.candid (.error .interrupted) (by simp [answers, Position.answer, Stage.answer]) rfl
    · exact (takes_kept task (step.trans (tokens.trans looked))).trans (h.heedless heeds)

/-- What never queued leaves nothing behind where its last step leaves the queue alone. -/
theorem untouched (h : d.Fits s mode arg style w p) (place : p.place = none)
    (same : (w.step a).1.queue s = w.queue s) (q : WaitQueue) : (d.note s a w (.step a)).LeavesNothing q := by
  have marks := h.marks
  rw [place] at marks
  refine Marks.leaves_of_still ?_ q
  rw [strokes_note]
  exact marks.still same

theorem turnedAway {op : Operation} {v : Value} (h : d.Fits s mode arg style w (.start op)) (hw : w.Tenured s)
    (running : (w.actor a).activity = .busy .running (.start op)) (task : d.task = some (.acquire s mode arg style))
    (ends : (w.stride a (.start op)).2 = .ends v) :
    (d.note s a w (.step a)).Outcome s style w (w.step a).1 v := by
  have step := World.tokens_step w a running
  have stride : w.stride a (.start op) = w.startOperation a op := rfl
  obtain rfl : op = .acquire s mode arg style := h.of
  have token : (style.patience w.now).token = style.token := by cases style <;> rfl
  rw [stride, World.startOperation_acquire, World.registerThen, Style.interruptible_patience, token] at ends
  rw [stride, World.startOperation_acquire, World.registerThen, Style.interruptible_patience, token] at step
  split at ends
  swap
  · simp at ends
  rename_i cancelled
  obtain rfl := Next.ends.inj ends
  rw [if_pos cancelled] at step
  obtain ⟨heeds, raised⟩ := Bool.and_eq_true_iff.1 cancelled
  have raised : w.flagged style.token = true :=
    (w.flagged_modifyToken (·.register a) (fun _ => rfl) style.token style.token).symm.trans raised
  have takes := takes_lowered task ⟨raised, World.flagged_takeFlag step⟩
  rw [h.heedless heeds] at takes
  obtain ⟨earlier, answers, refused, -⟩ := h.told
  have unasked := answers_kept (s := s) (d := d) running (by simp)
  refine .interrupted heeds ?_ takes (h.untouched rfl (queue_idle hw running h.of rfl (by simp)) _)
  rw [unasked, answers]
  exact refused

theorem expires {c : Claim} {v : Value} (h : d.Fits s mode arg style w (.queueing c))
    (running : (w.actor a).activity = .busy .running (.queueing c))
    (task : d.task = some (.acquire s mode arg style)) (ends : (w.stride a (.queueing c)).2 = .ends v) :
    (d.note s a w (.step a)).Outcome s style w (w.step a).1 v := by
  have queue : (w.step a).1.queue s = (w.stride a (.queueing c)).1.queue s := World.queue_step running s
  have step := World.tokens_step w a running
  rcases w.stride_course a (.queueing c) with ⟨-, -, spins⟩ | ⟨-, course⟩
  · simp [spins] at ends
  generalize w.stride a (.queueing c) = r at course ends queue step
  cases course with
  | expire overdue =>
    obtain rfl := Next.ends.inj ends
    rw [h.patience c rfl, World.now_looked] at overdue
    obtain ⟨token, limit, -, rfl, -⟩ := Style.timed_of_isOver overdue
    obtain ⟨earlier, answers, refused, tried⟩ := h.told
    obtain ⟨y, rest, rfl⟩ := List.exists_cons_of_ne_nil (tried rfl)
    obtain rfl := refused y (by simp)
    have begun := began_kept (s := s) (d := d) running (by simp)
    have unasked := answers_kept (s := s) (d := d) running (by simp)
    have takes := takes_kept task (step.trans (w.tokens_looked a _))
    exact .late (begun ▸ overdue) (unasked.trans answers) (fun x hx => refused x (by simp [hx]))
      (takes.trans (h.heedless rfl)) (h.untouched rfl (queue.trans (w.queue_looked a _ s)) _)
  | join => simp at ends

theorem fails {c : Claim} {e : SyncError} {v : Value}
    (h : d.Fits s mode arg style w (.call (.attempt c) (.answered (.error e))))
    (running : (w.actor a).activity = .busy .running (.call (.attempt c) (.answered (.error e))))
    (task : d.task = some (.acquire s mode arg style))
    (ends : (w.stride a (.call (.attempt c) (.answered (.error e)))).2 = .ends v) :
    (d.note s a w (.step a)).Outcome s style w (w.step a).1 v := by
  have stride : w.stride a (.call (.attempt c) (.answered (.error e))) = (w, .ends (.failed e)) := rfl
  obtain rfl := Next.ends.inj ((congrArg Prod.snd stride).symm.trans ends)
  have same : (w.step a).1.queue s = w.queue s := World.queue_step running s
  obtain ⟨earlier, answers, refused, -⟩ := h.told
  have unasked := answers_kept (s := s) (d := d) running (by simp)
  have takes := takes_kept task (World.tokens_step w a running)
  refine .failed (unasked.trans answers) refused ?_ (fun heeds => takes.trans (h.heedless heeds))
    (h.untouched rfl same _)
  rintro rfl
  exact h.candid (.error .interrupted) (by simp [answers, Position.answer, Stage.answer]) rfl

/-- Whoever leaves its place in the queue has been granted what it waits for, or gives it up. -/
theorem leaves {q : Queued} {v : Value} (h : d.Fits s mode arg style w p) (hw : w.Tenured s)
    (running : (w.actor a).activity = .busy .running p) (task : d.task = some (.acquire s mode arg style))
    (place : p.place = some q) (stride : w.stride a p = (w.looked a p).advance a p)
    (ends : (w.stride a p).2 = .ends v) : (d.note s a w (.step a)).Outcome s style w (w.step a).1 v := by
  obtain ⟨k, body, hq⟩ := hw.spine
  have kept := hw.kept a p (Actor.position_of_busy running)
  rw [← w.queue_looked a p s] at hq kept
  have sync := (h.of.place place).acquired.1
  rcases World.leave_advance (by simpa using hw.inTable) hq kept place sync (stride ▸ ends) with
    ⟨x, rfl, grant⟩ | ⟨gives, queue⟩
  · exact h.granted running task grant ends
  · rw [← stride] at gives queue
    refine h.givesUp hw running task place gives ?_
    rw [World.queue_step running, ← w.queue_looked a p s]
    exact queue

/-- However an acquisition ends, the account tells it right. -/
theorem ends {v : Value} (h : d.Fits s mode arg style w p) (hw : w.Tenured s)
    (running : (w.actor a).activity = .busy .running p) (task : d.task = some (.acquire s mode arg style))
    (ends : (w.stride a p).2 = .ends v) :
    (d.note s a w (.step a)).Outcome s style w (w.step a).1 v := by
  rcases w.stride_course a p with ⟨-, -, spins⟩ | ⟨stride, course⟩
  · simp [spins] at ends
  have of := h.of
  cases p with
  | start op => exact h.turnedAway hw running task ends
  | queueing c => exact h.expires running task ends
  | turn q | lingering q | roused q => exact h.leaves hw running task rfl stride ends
  | call site stage =>
    obtain ⟨answer, rfl⟩ := course.answered ends
    cases site with
    | turn q => exact h.leaves hw running task rfl stride ends
    | attempt c =>
      cases answer with
      | error e => exact h.fails running task ends
      | ok x =>
        by_cases grant : x.isGrant = true
        · exact h.granted running task grant ends
        · change (w.resolve a (.attempt c) (.ok x)).2 = _ at ends
          simp [World.resolve, grant, World.resolveRefusal] at ends
    | wait | letGo =>
      obtain ⟨_, style', eq, -⟩ := of
      simp at eq
    | _ => simp [Position.Of, Site.Of] at of
  | waiting | dozing | awoken =>
    obtain ⟨_, style', eq, -⟩ := of
    simp at eq
  | reckoning =>
    obtain ⟨_, _, _, eq⟩ := of
    simp at eq

end Fits

theorem Sound.create {actors tokens : Nat} {syncs : List Synchronizer} {conditions : List SyncId}
    {x : Synchronizer} (hx : syncs[s]? = some x) (empty : x.queue = .empty) :
    Sound s a (World.create actors tokens syncs conditions) {} where
  tenured := .create hx empty
  fits p _ _ _ hp _ := absurd hp (World.position_create actors tokens syncs conditions a p)

theorem Sound.happen (h : Sound s a w d) (candid : w.candid s e = true) :
    Sound s a (w.happen e) (d.note s a w e) := by
  refine ⟨h.tenured.happen e, fun p' mode arg style hp' task => ?_⟩
  have diary := congrArg Diary.task (toDiary_note s a w e d)
  rcases w.position_cases a hp' with ⟨hp, bides⟩ | ⟨op, rfl, idle, rfl⟩ | ⟨p, rfl, running, course, next⟩
  · have before : d.task = some (.acquire s mode arg style) := by
      rw [← task, diary, Diary.task_note_of_busy (by simp [hp])]
    exact (h.fits p' mode arg style hp before).bides hp before bides
  · have noted : d.note s a w (.begin a op) = { task := some op } :=
      if_pos ⟨rfl, by rw [Actor.position, idle]⟩
    rw [noted] at task ⊢
    exact Fits.begins op (Option.some.inj task)
  · have before : d.task = some (.acquire s mode arg style) := by
      rw [← task, diary]
      rfl
    have fits := h.fits p mode arg style (Actor.position_of_busy running) before
    exact fits.on running h.tenured before candid course next

end Account

namespace World

/-- An acquisition tells what really happened, and leaves nothing behind if it fails. -/
theorem acquire_reports {actors tokens : Nat} {syncs : List Synchronizer} {conditions : List SyncId} {s : SyncId}
    {x : Synchronizer} (hx : syncs[s]? = some x) (empty : x.queue = .empty) {events : List Event}
    (candid : Obeys (fun w e => w.candid s e = true) (World.create actors tokens syncs conditions) events)
    {a : ActorId} {mode : Mode} {arg : Int} {style : Style} {v : Value} :
    let start := World.create actors tokens syncs conditions
    let w := start.after events
    let w' := (w.step a).1
    let d := Account.since s start a (events ++ [.step a])
    let succeeds := v = .done ∨ v = .truth true
    (w.step a).2 = some v → d.task = some (.acquire s mode arg style) →
      (succeeds ∨ v = .truth false ∨ ∃ e, v = .failed e) ∧
      (succeeds ↔ ∃ last earlier, d.answers = last :: earlier ∧ grants last = true ∧
        ∀ x ∈ earlier, grants x = false) ∧
      (succeeds → 0 < d.takes → w'.flagged style.token = true) ∧
      (v = .truth false → (∃ token limit deadline, style = .timed token limit ∧
        limit.deadlineFrom d.began = some deadline ∧ deadline ≤ w.now) ∧
        d.answers.head? = some (.ok .refused) ∧ d.takes = 0) ∧
      (v = .failed .interrupted ↔ style.heeds = true ∧ d.takes = 1) ∧
      (∀ e, v = .failed e → e ≠ .interrupted → d.answers.head? = some (.error e)) ∧
      (¬succeeds → (∀ x ∈ d.answers, grants x = false) ∧ d.LeavesNothing (w'.queue s)) := by
  intro start w w' d succeeds ends task
  have sound : Account.Sound s a w (Account.since s start a events) :=
    collect_invariant (fun _ _ _ => Account.Sound.happen) (.create hx empty) candid
  obtain ⟨p, running, ends⟩ := running_of_step ends
  have eq : d = (Account.since s start a events).note s a w (.step a) := collect_concat _ _ _ _ _
  have before : (Account.since s start a events).task = some (.acquire s mode arg style) := by
    rw [← task, eq, congrArg Diary.task (Account.toDiary_note s a w _ _)]
    rfl
  have fits := sound.fits p mode arg style (Actor.position_of_busy running) before
  have outcome : d.Outcome s style w w' v := eq ▸ fits.ends sound.tenured running before ends
  refine ⟨outcome.told, outcome.succeeds_iff, outcome.put_back, ?_, outcome.interrupted_iff, outcome.error,
    outcome.unsuccessful⟩
  rintro rfl
  exact outcome.out_of_time

/-- Someone lines up for a lock with a deadline far off, and is cancelled. -/
theorem acquire_reports_cancelled :
    let start := World.create 2 1 [{ policy := .mutex, state := 0 }] []
    let w := start.after
      (.begin 0 (.acquire 0 .exclusive 1 .plain) :: List.replicate 5 (.step 0) ++
        .begin 1 (.acquire 0 .exclusive 1 (.timed (some 0) (.timeout 1000000))) :: List.replicate 18 (.step 1) ++
        [.cancel 0, .resume 1])
    let d := Account.since 0 start 1
      (.begin 0 (.acquire 0 .exclusive 1 .plain) :: List.replicate 5 (.step 0) ++
        .begin 1 (.acquire 0 .exclusive 1 (.timed (some 0) (.timeout 1000000))) :: List.replicate 18 (.step 1) ++
        [.cancel 0, .resume 1] ++ [.step 1])
    (w.step 1).2 = some (.failed .interrupted) ∧ (w.queue 0).live ≠ [] ∧ d.takes = 1 ∧
      d.LeavesNothing ((w.step 1).1.queue 0) :=
  have ends := by decide +kernel
  have told := acquire_reports rfl rfl (by decide +kernel) ends
    (by decide +kernel : Diary.task _ = some (.acquire 0 .exclusive 1 (.timed (some 0) (.timeout 1000000))))
  ⟨ends, by decide +kernel, (told.2.2.2.2.1.1 rfl).2, (told.2.2.2.2.2.2 (by simp)).2⟩

end World

end Turnstile
