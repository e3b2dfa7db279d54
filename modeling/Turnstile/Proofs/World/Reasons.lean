import Turnstile.Proofs.Policy.Locks
import Turnstile.Proofs.World.Cancellation
import Turnstile.Proofs.World.Vigil

/-! Every wait on a condition ends for one reason: its node leaves the condition once, by a signal, by a
cancellation or by the deadline, and what the wait tells is true of it. -/
namespace Turnstile

open WaitQueue (Shaped)

def WaitStyle.terms (s : SyncId) (c : ConditionId) (began : Moment) (style : WaitStyle) : WaitTerms :=
  ⟨s, c, style.patience began, style.report began⟩

theorem Waiting.told_of_outcome {s : SyncId} {c : ConditionId} {began : Moment} {style : WaitStyle}
    {v : Waiting} {x : Value} (terms : v.terms = style.terms s c began) (ends : v.outcome = .ends x)
    (now : Moment) : x = if v.interruption = .beforeSignal then .failed .interrupted
      else style.told began now v.timedOut := by
  unfold Waiting.outcome at ends
  split at ends
  · rename_i cancelled
    rw [if_pos cancelled]
    exact (Next.ends.inj ends).symm
  · rename_i unheeding
    rw [if_neg unheeding]
    rw [terms] at ends
    cases style with
    | timeLeft => simp [WaitStyle.terms, WaitStyle.report] at ends
    | _ => exact (Next.ends.inj ends).symm

namespace World

variable {s : SyncId} {a b : ActorId} {w : World} {e : Event} {p : Position} {n : NodeId}

theorem departure_of_free (hp : (w.actor a).position = some p) (free : (p.seat s).node = none) :
    w.departure s a e = none := by
  simp [departure, hp, free]

theorem departure_of_node (hp : (w.actor a).position = some p) (hn : (p.seat s).node = some n) :
    w.departure s a e = if ((w.queue s).node n).status = .condition ∧
      (((w.happen e).queue s).node n).status ≠ .condition then some (w.parting s a e) else none := by
  simp [departure, hp, hn]

theorem Seated.joined (hw : Seated s w) {m : Mode} {called : Bool}
    (hp : (w.actor a).position = some p) (seat : p.seat s = .queued n m called) :
    ((w.queue s).node n).status ≠ .condition := by
  obtain ⟨h, body, hq⟩ := hw.shaped
  have held := hw.seats a p hp
  rw [seat] at held
  exact hq.joined n (List.mem_cons_of_mem h (hq.mem_live.1 held.1).1)

/-- While its own actor stays where it is, a node leaves its condition through a signal alone, and none
comes back. -/
theorem Seated.status_of_bides (hw : Seated s w) (hp : (w.actor a).position = some p)
    (hn : (p.seat s).node = some n) (bides : w.Bides a e p) :
    (((w.queue s).node n).status ≠ .condition → (((w.happen e).queue s).node n).status ≠ .condition) ∧
    (((w.queue s).node n).status = .condition → (((w.happen e).queue s).node n).status ≠ .condition →
      ∃ b, b ≠ a ∧ e = .step b ∧ ∃ p', (w.actor b).position = some p' ∧ p'.signals s = true) := by
  have same : (w.happen e).queue s = w.queue s → (((w.queue s).node n).status ≠ .condition →
      (((w.happen e).queue s).node n).status ≠ .condition) ∧ (((w.queue s).node n).status = .condition →
      (((w.happen e).queue s).node n).status ≠ .condition → ∃ b, b ≠ a ∧ e = .step b ∧
        ∃ p', (w.actor b).position = some p' ∧ p'.signals s = true) := by
    intro same
    rw [same]
    exact ⟨id, fun waits left => absurd waits left⟩
  by_cases mine : e = .step a
  · subst mine
    refine same ?_
    rw [World.queue, World.sync, World.happen, (bides.step hp).2]
    rfl
  by_cases steps : ∃ b p', e = .step b ∧ (w.actor b).activity = .busy .running p'
  · obtain ⟨b, p', rfl, running⟩ := steps
    have ne : b ≠ a := fun e => mine (e ▸ rfl)
    have position : (w.actor b).position = some p' := Actor.position_of_busy running
    have own : (p'.seat s).node ≠ some n := fun hn' =>
      ne (Option.some.inj ((hw.actor_node position hn').symm.trans (hw.actor_node hp hn)))
    have moved := hw.moved_stride running
    have queue : (w.happen (.step b)).queue s = (w.stride b p').1.queue s := queue_step running s
    obtain ⟨woken, -, change, -⟩ := moved.change
    obtain ⟨h, body, hq⟩ := change.shaped
    rw [queue]
    refine ⟨fun joined => ?_, fun waits left => ?_⟩
    · have live := ((hw.seats a p hp).inUse hn).resolve_right joined
      exact hq.joined n (List.mem_cons_of_mem h (hq.mem_live.1 (change.live n own live)).1)
    · refine ⟨b, ne, rfl, p', position, ?_⟩
      exact moved.still.resolve_right fun still => left (still n own waits)
  · refine same ?_
    by_cases step : ∃ b, e = .step b
    · obtain ⟨b, rfl⟩ := step
      rw [World.happen, step_of_not_running fun p' running => steps ⟨b, p', rfl, running⟩]
    · exact (hw.still_happen fun b e => step ⟨b, e⟩).queue s

end World

namespace Vigil

/-- The node of the wait is on the condition, or has been signalled. -/
def Astir (s : SyncId) (a : ActorId) (w : World) (n : NodeId) (d : Vigil) : Prop :=
  (d.partings = [] ∧ ((w.queue s).node n).status = .condition) ∨
    ∃ b, b ≠ a ∧ d.partings = [.signalled b] ∧ ((w.queue s).node n).status ≠ .condition

/-- What the wait knows agrees with how its node left the condition. -/
def Explains (a : ActorId) (now : Moment) (patience : Patience) (interruption : Interruption)
    (timedOut : Bool) (d : Vigil) : Prop :=
  (∃ b, b ≠ a ∧ d.partings = [.signalled b] ∧ interruption ≠ .beforeSignal ∧ timedOut = false) ∨
  (d.partings = [.cancelled] ∧ interruption = .beforeSignal ∧ patience.interruptible = true) ∨
  (d.partings = [.expired] ∧ interruption ≠ .beforeSignal ∧ timedOut = true ∧ patience.isOver now)

/-- The wait has released its synchronizer, and does not know yet how it will end. -/
structure Attends (s : SyncId) (c : ConditionId) (style : WaitStyle) (a : ActorId) (w : World) (d : Vigil)
    (v : Waiting) : Prop where
  terms : v.terms = style.terms s c d.began
  inTime : v.timedOut = false
  unheeding : v.interruption ≠ .beforeSignal
  freed : d.freed = true
  astir : Astir s a w v.node d

/-- What the notes on a wait say while its actor has the position. -/
def Fits (s : SyncId) (c : ConditionId) (style : WaitStyle) (a : ActorId) (w : World) (d : Vigil) :
    Position → Prop
  | .start op => d.freed = false ∧ d.partings = [] ∧ w.now = d.began ∧
      (w.actor a).activity = .busy .running (.start op)
  | .call (.wait t) _ => t = style.terms s c d.began ∧ d.freed = false ∧ d.partings = []
  | .call (.letGo t n _) stage => t = style.terms s c d.began ∧
      if stage.granted then d.freed = true ∧ Astir s a w n d else d.freed = false ∧ d.partings = []
  | .waiting v | .dozing v | .awoken v => d.Attends s c style a w v
  | .turn q | .lingering q | .roused q | .call (.turn q) _ => ∃ v : Waiting, q.claim = v.claim ∧
      v.terms = style.terms s c d.began ∧ d.freed = true ∧
      d.Explains a w.now v.terms.patience v.interruption v.timedOut
  | .reckoning start timeout timedOut => (∃ token, style = .timeLeft token timeout) ∧ start = d.began ∧
      d.freed = true ∧ ∃ interruption, interruption ≠ .beforeSignal ∧
        d.Explains a w.now (style.patience d.began) interruption timedOut
  | _ => False

variable {s : SyncId} {c : ConditionId} {style : WaitStyle} {a b : ActorId} {w w' : World} {d : Vigil}
  {e : Event} {p p' : Position} {n : NodeId}

theorem note_of_busy (hp : (w.actor a).position = some p) :
    d.note s a w e = { toDiary := d.toDiary.note a w e
                       began := d.began
                       freed := d.freed || w.frees s a e
                       partings := d.partings ++ (w.departure s a e).toList } := by
  cases e with
  | begin b op =>
    have syncs := (w.solely_begin b op).syncs
    have still : w.departure s a (.begin b op) = none := by
      unfold World.departure
      simp only [World.happen, World.queue, World.sync, syncs]
      cases ((w.actor a).position.bind fun p => (p.seat s).node) with
      | none => rfl
      | some n => simp
    simp [note, hp, still, Diary.note, World.frees, World.heard]
  | _ => rfl

theorem began_note (hp : (w.actor a).position = some p) : (d.note s a w e).began = d.began := by
  rw [note_of_busy hp]

/-- A node that does not leave its condition leaves no note. -/
theorem partings_note (hp : (w.actor a).position = some p)
    (stays : ∀ n, (p.seat s).node = some n → ((w.queue s).node n).status = .condition →
      (((w.happen e).queue s).node n).status = .condition) :
    (d.note s a w e).partings = d.partings := by
  rw [note_of_busy hp]
  cases hn : (p.seat s).node with
  | none => simp [World.departure_of_free hp hn]
  | some n =>
    have still := stays n hn
    simp only [World.departure_of_node hp hn, List.append_right_eq_self]
    rw [if_neg fun left => left.2 (still left.1)]
    rfl

theorem Explains.mono {d' : Vigil} {now now' : Moment} {patience : Patience} {interruption : Interruption}
    {timedOut : Bool} (h : d.Explains a now patience interruption timedOut)
    (partings : d'.partings = d.partings) (later : now ≤ now') :
    d'.Explains a now' patience interruption timedOut := by
  rw [Explains, partings]
  refine h.imp_right (Or.imp_right fun ⟨expired, early, late, t, deadline, overdue⟩ => ?_)
  exact ⟨expired, early, late, t, deadline, Nat.le_trans overdue later⟩

theorem partings_of_free (hp : (w.actor a).position = some p) (free : (p.seat s).node = none) :
    (d.note s a w e).partings = d.partings :=
  partings_note hp fun n hn => by simp [free] at hn

/-- Whoever has a place in the queue has left its condition. -/
theorem partings_of_place {q : Queued} (hw : w.Seated s) (hp : (w.actor a).position = some p)
    (place : p.place = some q) (here : q.claim.sync = s) : (d.note s a w e).partings = d.partings :=
  partings_note hp fun n hn waits => by
    obtain ⟨called, seat⟩ := Position.seat_of_place place here
    obtain rfl : q.node = n := by simpa [seat, Seat.node] using hn
    exact absurd waits (hw.joined hp seat)

/-- Who tries again from a place in the queue knows how its wait ended. -/
def Settled (s : SyncId) (c : ConditionId) (style : WaitStyle) (a : ActorId) (now : Moment) (d : Vigil)
    (claim : Claim) : Prop :=
  ∃ v : Waiting, claim = v.claim ∧ v.terms = style.terms s c d.began ∧ d.freed = true ∧
    d.Explains a now v.terms.patience v.interruption v.timedOut

theorem Settled.sync {now : Moment} {claim : Claim} (h : d.Settled s c style a now claim) :
    claim.sync = s := by
  obtain ⟨v, rfl, terms, -⟩ := h
  rw [Waiting.claim, terms]
  rfl

theorem Settled.mono {d' : Vigil} {now now' : Moment} {claim : Claim} (h : d.Settled s c style a now claim)
    (began : d'.began = d.began) (freed : d'.freed = d.freed) (partings : d'.partings = d.partings)
    (later : now ≤ now') : d'.Settled s c style a now' claim := by
  obtain ⟨v, purpose, terms, waited, explains⟩ := h
  exact ⟨v, purpose, began ▸ terms, freed.trans waited, explains.mono partings later⟩

theorem fits_of_place {q : Queued} (place : p.place = some q) :
    d.Fits s c style a w p ↔ d.Settled s c style a w.now q.claim := by
  cases p with
  | call site stage =>
    cases site with
    | turn q' =>
      obtain rfl := Option.some.inj place
      exact Iff.rfl
    | _ => simp [Position.place] at place
  | turn | lingering | roused =>
    obtain rfl := Option.some.inj place
    exact Iff.rfl
  | _ => simp [Position.place] at place

/-- While its actor stays where it is, a node leaves its condition for a signal. -/
theorem Astir.bides (h : Astir s a w n d) (hw : w.Seated s) (hp : (w.actor a).position = some p)
    (hn : (p.seat s).node = some n) (bides : w.Bides a e p) :
    Astir s a (w.happen e) n (d.note s a w e) := by
  obtain ⟨gone, left⟩ := hw.status_of_bides hp hn bides
  rw [Astir, note_of_busy hp, World.departure_of_node hp hn]
  rcases h with ⟨partings, waits⟩ | ⟨b, ne, partings, joined⟩
  · by_cases still : (((w.happen e).queue s).node n).status = .condition
    · exact Or.inl ⟨by simp [partings, still], still⟩
    · obtain ⟨b, ne, rfl, p', position, signals⟩ := left waits still
      refine Or.inr ⟨b, ne, ?_, still⟩
      simp [partings, waits, still, World.parting, ne, position, signals]
  · exact Or.inr ⟨b, ne, by simp [partings, joined], gone joined⟩

theorem Fits.bides (h : d.Fits s c style a w p) (hw : w.Seated s) (ex : w.Exclusive s)
    (hp : (w.actor a).position = some p) (bides : w.Bides a e p) (unbroken : w.unbroken e = true) :
    (d.note s a w e).Fits s c style a (w.happen e) p := by
  have later := w.now_le_happen e
  have unfreed := World.unfreed_of_bides (s := s) hp bides
  have note := note_of_busy (s := s) (d := d) (e := e) hp
  have stays : ∀ n, (p.seat s).node = some n → Astir s a w n d →
      Astir s a (w.happen e) n (d.note s a w e) := fun n hn astir => astir.bides hw hp hn bides
  have freed : (d.note s a w e).freed = d.freed := by rw [note, unfreed]; simp
  have began : (d.note s a w e).began = d.began := began_note hp
  -- Whoever has a place in the queue does not forget how its wait ended.
  have placed : ∀ q, p.place = some q → (d.note s a w e).Fits s c style a (w.happen e) p := fun q place =>
    have settled := (fits_of_place place).1 h
    (fits_of_place place).2
      (settled.mono began freed (partings_of_place hw hp place settled.sync) later)
  cases p with
  | start op =>
    obtain ⟨-, -, -, running⟩ := h
    have clock := (bides (World.step_of_unbroken unbroken running) running).1
    simp [Position.readsClock] at clock
  | call site stage =>
    cases site with
    | wait t => exact ⟨began ▸ h.1, freed.trans h.2.1, (partings_of_free hp rfl).trans h.2.2⟩
    | letGo t n saved =>
      obtain ⟨rfl, h⟩ := h
      refine ⟨by rw [began], ?_⟩
      have seat : (Position.call (.letGo (style.terms s c d.began) n saved) stage).seat s =
          if stage.granted then .waiting n else .entering n := if_pos rfl
      split at h
      · rename_i granted
        rw [if_pos granted] at seat ⊢
        exact ⟨freed.trans h.1, stays n (by rw [seat]; rfl) h.2⟩
      · rename_i ungranted
        rw [if_neg ungranted] at seat ⊢
        refine ⟨freed.trans h.1, ?_⟩
        have waits := hw.seats a _ hp
        rw [seat] at waits
        have hn : ((Position.call (.letGo (style.terms s c d.began) n saved) stage).seat s).node =
            some n := by
          rw [seat]
          rfl
        refine (partings_note hp fun n' hn' _ => ?_).trans h.2
        obtain rfl := Option.some.inj (hn.symm.trans hn')
        by_contra gone
        obtain ⟨b, ne, -, p', position, signals⟩ := (hw.status_of_bides hp hn bides).2 waits.1 gone
        exact ex b p' a _ position hp signals ne n seat
    | turn q => exact placed q rfl
    | _ => exact h
  | waiting v | dozing v | awoken v =>
    refine ⟨began ▸ h.terms, h.inTime, h.unheeding, freed.trans h.freed, stays v.node ?_ h.astir⟩
    simp [Position.seat, h.terms, WaitStyle.terms, Seat.node]
  | turn q | lingering q | roused q => exact placed q rfl
  | reckoning =>
    obtain ⟨token, start, h, interruption, uncancelled, explains⟩ := h
    refine ⟨token, start.trans began.symm, freed.trans h, interruption, uncancelled, ?_⟩
    rw [began]
    exact explains.mono (partings_of_free hp rfl) later
  | _ => exact h

/-- A step that leaves the node of its own actor on the condition, or off it. -/
theorem Astir.step (h : Astir s a w n d) (hp : (w.actor a).position = some p)
    (hn : (p.seat s).node = some n)
    (same : (((w.step a).1.queue s).node n).status = .condition ↔
      ((w.queue s).node n).status = .condition) :
    Astir s a (w.step a).1 n (d.note s a w (.step a)) := by
  have still : (d.note s a w (.step a)).partings = d.partings := partings_note hp fun n' hn' waits => by
    obtain rfl := Option.some.inj (hn.symm.trans hn')
    exact same.2 waits
  simp only [Astir, still, ne_eq, same]
  exact h

theorem partings_of_left (hp : (w.actor a).position = some p) (hn : (p.seat s).node = some n)
    (waits : ((w.queue s).node n).status = .condition)
    (gone : (((w.happen e).queue s).node n).status ≠ .condition) :
    (d.note s a w e).partings = d.partings ++ [w.parting s a e] := by
  rw [note_of_busy hp, World.departure_of_node hp hn, if_pos ⟨waits, gone⟩]
  rfl

/-- A node that left its condition before was signalled. -/
theorem Astir.signalled (h : Astir s a w n d) (hp : (w.actor a).position = some p)
    (hn : (p.seat s).node = some n) (joined : ((w.queue s).node n).status ≠ .condition) :
    ∃ b, b ≠ a ∧ (d.note s a w e).partings = [.signalled b] := by
  obtain ⟨b, ne, partings, -⟩ := h.resolve_left fun still => joined still.2
  refine ⟨b, ne, (partings_note hp fun n' hn' waits => ?_).trans partings⟩
  obtain rfl := Option.some.inj (hn.symm.trans hn')
  exact absurd waits joined

theorem Astir.left (h : Astir s a w n d) (hp : (w.actor a).position = some p)
    (hn : (p.seat s).node = some n) (waits : ((w.queue s).node n).status = .condition)
    (gone : (((w.happen e).queue s).node n).status ≠ .condition) :
    (d.note s a w e).partings = [w.parting s a e] := by
  obtain ⟨fresh, -⟩ := h.resolve_right fun ⟨_, _, _, joined⟩ => joined waits
  rw [partings_of_left hp hn waits gone, fresh]
  rfl

theorem freed_step (running : (w.actor a).activity = .busy .running p)
    (other : ∀ site, p = .call site .entering → site.hook ≠ .release) :
    (d.note s a w (.step a)).freed = d.freed := by
  rw [note_of_busy (Actor.position_of_busy running), World.unfreed_step running other]
  simp

/-- Whoever tries again from a place in the queue does not forget how its wait ended. -/
theorem Fits.step_place {q : Queued} (h : d.Fits s c style a w p) (hw : w.Seated s)
    (running : (w.actor a).activity = .busy .running p) (place : p.place = some q)
    (course : Course (w.looked a p) a p (w.stride a p)) (next : (w.stride a p).2.position = some p') :
    (d.note s a w (.step a)).Fits s c style a (w.step a).1 p' := by
  have settled := (fits_of_place place).1 h
  have hp : (w.actor a).position = some p := Actor.position_of_busy running
  have began : (d.note s a w (.step a)).began = d.began := began_note hp
  have freed : (d.note s a w (.step a)).freed = d.freed := freed_step running fun site e => by
    subst e
    cases site with
    | turn q' => cases mode : q'.claim.mode <;> simp [Site.hook, Hook.toAcquire, mode]
    | _ => simp [Position.place] at place
  have partings := partings_of_place (d := d) (e := .step a) hw hp place settled.sync
  have settled' : (d.note s a w (.step a)).Settled s c style a (w.step a).1.now q.claim :=
    settled.mono began freed partings (w.now_le_happen (.step a))
  rcases course.keeps_place place next with ⟨q', place', same⟩ | ⟨swallowed, outcome⟩
  · exact (fits_of_place place').2 (same ▸ settled')
  · obtain ⟨v, claim, terms, waited, explains⟩ := settled'
    rcases q.claim.outcome_cases swallowed with ⟨x, eq⟩ | ⟨v', start, timeout, purpose, report, early, eq⟩
    · simp [outcome, eq, Next.position] at next
    · rw [outcome, eq] at next
      obtain rfl := Option.some.inj next
      obtain rfl : v = v' := by simpa [claim, Waiting.claim] using purpose
      rw [terms] at report explains
      cases style with
      | timeLeft token limit =>
        obtain ⟨rfl, rfl⟩ := WaitReport.timeLeft.inj report
        exact ⟨⟨token, rfl⟩, rfl, waited, v.interruption, early, explains⟩
      | _ => simp [WaitStyle.terms, WaitStyle.report] at report

/-- The first call of a wait asks who holds the synchronizer, and changes nothing. -/
theorem Fits.step_wait {t : WaitTerms} {stage : Stage} (h : d.Fits s c style a w (.call (.wait t) stage))
    (running : (w.actor a).activity = .busy .running (.call (.wait t) stage))
    (course : Course (w.looked a (.call (.wait t) stage)) a (.call (.wait t) stage)
      (w.stride a (.call (.wait t) stage)))
    (next : (w.stride a (.call (.wait t) stage)).2.position = some p') :
    (d.note s a w (.step a)).Fits s c style a (w.step a).1 p' := by
  obtain ⟨terms, unfreed, fresh⟩ := h
  have hp := Actor.position_of_busy running
  have began : (d.note s a w (.step a)).began = d.began := began_note hp
  have freed : (d.note s a w (.step a)).freed = false := by
    refine (freed_step running fun site e => ?_).trans unfreed
    obtain ⟨rfl, -⟩ := Position.call.inj e
    simp [Site.hook]
  have partings : (d.note s a w (.step a)).partings = [] := (partings_of_free hp rfl).trans fresh
  generalize w.stride a (.call (.wait t) stage) = r at course next
  cases course with
  | enter _ _ goes | leave _ _ goes =>
    obtain rfl := Next.position_of_pauses goes next
    exact ⟨began ▸ terms, freed, partings⟩
  | ask | enterWait =>
    obtain rfl := Option.some.inj next
    exact ⟨began ▸ terms, freed, partings⟩
  | conclude _ gets => simp at gets
  | _ => simp [Next.position] at next

theorem seat_letGo {t : WaitTerms} {stage : Stage} {saved : Int}
    (h : d.Fits s c style a w (.call (.letGo t n saved) stage)) :
    (Position.call (.letGo t n saved) stage).seat s =
      if stage.granted then .waiting n else .entering n :=
  if_pos (by rw [h.1]; rfl)

theorem node_letGo {t : WaitTerms} {stage : Stage} {saved : Int}
    (h : d.Fits s c style a w (.call (.letGo t n saved) stage)) :
    ((Position.call (.letGo t n saved) stage).seat s).node = some n := by
  rw [seat_letGo h]
  split <;> rfl

/-- Nothing comes of a pause on the way to the hook or back. -/
theorem Fits.pause_letGo {t : WaitTerms} {stage stage' : Stage} {saved : Int}
    (h : d.Fits s c style a w (.call (.letGo t n saved) stage))
    (running : (w.actor a).activity = .busy .running (.call (.letGo t n saved) stage))
    (queue : (w.step a).1.queue s = w.queue s) (unasked : stage ≠ .entering)
    (same : stage'.granted = stage.granted) :
    (d.note s a w (.step a)).Fits s c style a (w.step a).1 (.call (.letGo t n saved) stage') := by
  have hp := Actor.position_of_busy running
  have hn := node_letGo h
  have began : (d.note s a w (.step a)).began = d.began := began_note hp
  have freed : (d.note s a w (.step a)).freed = d.freed :=
    freed_step running fun site e => absurd (Position.call.inj e).2 unasked
  obtain ⟨terms, h⟩ := h
  refine ⟨began ▸ terms, ?_⟩
  rw [freed, same]
  split at h
  · rename_i granted
    rw [if_pos granted]
    exact ⟨h.1, h.2.step hp hn (by rw [queue])⟩
  · rename_i ungranted
    rw [if_neg ungranted]
    exact ⟨h.1, (partings_note hp fun m _ waits => by rwa [World.happen, queue]).trans h.2⟩

/-- Until the synchronizer is released nobody signals the node. -/
theorem Fits.ask_letGo {t : WaitTerms} {saved : Int} (hw : w.Seated s)
    (h : d.Fits s c style a w (.call (.letGo t n saved) .entering))
    (running : (w.actor a).activity = .busy .running (.call (.letGo t n saved) .entering))
    (queue : (w.step a).1.queue s = w.queue s) :
    (d.note s a w (.step a)).Fits s c style a (w.step a).1
      (.call (.letGo t n saved) (.leaving ((w.sync s).ask .release a saved).2)) := by
  have hp := Actor.position_of_busy running
  have waits : ((w.queue s).node n).status = .condition := by
    have held := hw.seats a _ hp
    rw [seat_letGo h] at held
    exact held.1
  obtain ⟨terms, unfreed, fresh⟩ := h
  have began : (d.note s a w (.step a)).began = d.began := began_note hp
  have here : t.sync = s := by rw [terms]; rfl
  have partings : (d.note s a w (.step a)).partings = [] :=
    (partings_note hp fun m _ waits => by rwa [World.happen, queue]).trans fresh
  have freed : (d.note s a w (.step a)).freed = grants ((w.sync s).ask .release a saved).2 := by
    rw [note_of_busy hp, unfreed, World.frees_entering running here]
    simp [Site.hook, Site.arg]
  refine ⟨began ▸ terms, ?_⟩
  rw [freed]
  split
  · rename_i granted
    exact ⟨granted, Or.inl ⟨partings, by rwa [queue]⟩⟩
  · rename_i ungranted
    exact ⟨Bool.eq_false_iff.2 ungranted, partings⟩

/-- While the synchronizer is being released the node waits on the condition. -/
theorem Fits.step_letGo {t : WaitTerms} {stage : Stage} {saved : Int} (hw : w.Seated s)
    (h : d.Fits s c style a w (.call (.letGo t n saved) stage))
    (running : (w.actor a).activity = .busy .running (.call (.letGo t n saved) stage))
    (course : Course (w.looked a (.call (.letGo t n saved) stage)) a (.call (.letGo t n saved) stage)
      (w.stride a (.call (.letGo t n saved) stage)))
    (next : (w.stride a (.call (.letGo t n saved) stage)).2.position = some p') :
    (d.note s a w (.step a)).Fits s c style a (w.step a).1 p' := by
  have hp := Actor.position_of_busy running
  have began : (d.note s a w (.step a)).began = d.began := began_note hp
  have here : t.sync = s := by rw [h.1]; rfl
  have stepped := World.queue_step running s
  generalize w.stride a (.call (.letGo t n saved) stage) = r at course next stepped
  cases course with
  | enter _ syncs goes | leave _ syncs goes =>
    have same := stepped.trans (World.queue_congr (syncs.trans (w.syncs_looked a _)))
    obtain rfl := Next.position_of_pauses goes next
    exact h.pause_letGo running same (by simp) rfl
  | ask =>
    obtain rfl := Option.some.inj next
    rw [World.queue_ask, World.queue_looked] at stepped
    rw [World.sync_looked, Site.sync, here]
    exact h.ask_letGo hw running stepped
  | @letGo _ _ _ v granted =>
    have hn := node_letGo h
    have consent : (Stage.answered (.ok v)).granted = true := granted
    obtain ⟨terms, h⟩ := h
    rw [if_pos consent] at h
    obtain ⟨freed, astir⟩ := h
    obtain rfl := Option.some.inj next
    obtain ⟨h, body, hq⟩ := hw.shaped
    have waits : (((w.step a).1.queue s).node n).status = .condition ↔
        ((w.queue s).node n).status = .condition := by
      rw [stepped, here, World.queue_apply_self (by simpa using hw.inTable), World.queue_looked]
      exact hq.served_wakeFirst.waits n
    exact ⟨began ▸ terms, rfl, by simp, (freed_step running fun site e => by simp at e).trans freed,
      astir.step hp hn waits⟩
  | conclude _ gets => simp at gets
  | _ => simp [Next.position] at next

theorem Attends.node {v : Waiting} (h : d.Attends s c style a w v)
    (waits : p = .waiting v ∨ p = .dozing v ∨ p = .awoken v) : (p.seat s).node = some v.node := by
  have here : v.terms.sync = s := by rw [h.terms]; rfl
  rcases waits with rfl | rfl | rfl <;> simp [Position.seat, here, Seat.node]

theorem Attends.freed_step {v : Waiting} (h : d.Attends s c style a w v)
    (waits : p = .waiting v ∨ p = .dozing v ∨ p = .awoken v)
    (running : (w.actor a).activity = .busy .running p) : (d.note s a w (.step a)).freed = true := by
  refine (Vigil.freed_step running fun site e => ?_).trans h.freed
  rcases waits with rfl | rfl | rfl <;> simp at e

/-- A wait that leaves the queue as it is goes on, and may put its cancellation off. -/
theorem Attends.goesOn {v : Waiting} {i : Interruption} (h : d.Attends s c style a w v)
    (waits : p = .waiting v ∨ p = .dozing v ∨ p = .awoken v)
    (running : (w.actor a).activity = .busy .running p) (same : (w.step a).1.queue s = w.queue s)
    (unheeding : i ≠ .beforeSignal) :
    (d.note s a w (.step a)).Attends s c style a (w.step a).1 { v with interruption := i } := by
  have hp := Actor.position_of_busy running
  have began : (d.note s a w (.step a)).began = d.began := began_note hp
  exact ⟨began ▸ h.terms, h.inTime, unheeding, h.freed_step waits running,
    h.astir.step hp (h.node waits) (by rw [same])⟩

/-- A wait that finds its node off the condition ends for the signal. -/
theorem Attends.signalled {v v' : Waiting} (h : d.Attends s c style a w v)
    (waits : p = .waiting v ∨ p = .dozing v ∨ p = .awoken v)
    (running : (w.actor a).activity = .busy .running p)
    (joined : ((w.queue s).node v.node).status ≠ .condition) (terms : v'.terms = v.terms)
    (unheeding : v'.interruption ≠ .beforeSignal) (inTime : v'.timedOut = false) :
    (d.note s a w (.step a)).Settled s c style a (w.step a).1.now v'.claim := by
  have hp := Actor.position_of_busy running
  have began : (d.note s a w (.step a)).began = d.began := began_note hp
  obtain ⟨b, ne, partings⟩ := h.astir.signalled hp (h.node waits) joined
  exact ⟨v', rfl, began ▸ terms.trans h.terms, h.freed_step waits running,
    Or.inl ⟨b, ne, partings, unheeding, inTime⟩⟩

/-- A wait that gives its condition up is the first to take its node off it. -/
theorem Attends.quits {v v' : Waiting} (h : d.Attends s c style a w v)
    (waits : p = .waiting v ∨ p = .dozing v ∨ p = .awoken v)
    (running : (w.actor a).activity = .busy .running p) (hw' : (w.step a).1.Seated s)
    (turned : ((w.step a).1.actor a).position = some (World.reclaim v')) (terms : v'.terms = v.terms)
    (node : v'.node = v.node) (still : ((w.queue s).node v.node).status = .condition) :
    (d.note s a w (.step a)).partings = [w.parting s a (.step a)] := by
  have here : v'.terms.sync = s := by rw [terms, h.terms]; rfl
  have seat : (World.reclaim v').seat s = .queued v.node v'.claim.mode false := node ▸ if_pos here
  exact h.astir.left (Actor.position_of_busy running) (h.node waits) still (hw'.joined turned seat)

/-- Where the wait looks whether its node has left the condition. -/
theorem Fits.step_waiting {v : Waiting} (h : d.Attends s c style a w v)
    (running : (w.actor a).activity = .busy .running (.waiting v))
    (course : Course (w.looked a (.waiting v)) a (.waiting v) (w.stride a (.waiting v)))
    (next : (w.stride a (.waiting v)).2.position = some p') :
    (d.note s a w (.step a)).Fits s c style a (w.step a).1 p' := by
  have stepped := World.queue_step running s
  generalize w.stride a (.waiting v) = r at course next stepped
  cases course with
  | reclaim moved =>
    obtain rfl := Option.some.inj next
    have joined : ((w.queue s).node v.node).status ≠ .condition := by
      rw [World.queue_looked, h.terms] at moved
      intro still
      simp [WaitStyle.terms, WaitQueue.holds, still] at moved
    exact h.signalled (by simp) running joined rfl h.unheeding h.inTime
  | doze =>
    obtain rfl := Option.some.inj next
    exact h.goesOn (by simp) running (stepped.trans (w.queue_looked a _ s)) h.unheeding

/-- Where the wait looks at the clock, and gives up once it is too late. -/
theorem Fits.step_dozing {v : Waiting} (hw' : (w.step a).1.Seated s) (h : d.Attends s c style a w v)
    (running : (w.actor a).activity = .busy .running (.dozing v))
    (course : Course (w.looked a (.dozing v)) a (.dozing v) (w.stride a (.dozing v)))
    (next : (w.stride a (.dozing v)).2.position = some p') :
    (d.note s a w (.step a)).Fits s c style a (w.step a).1 p' := by
  have hp := Actor.position_of_busy running
  have began : (d.note s a w (.step a)).began = d.began := began_note hp
  have stepped := World.queue_step running s
  have turned : ((w.step a).1.actor a).position = some p' := by
    rw [Next.position_of_actor (World.activity_step running), next]
  generalize w.stride a (.dozing v) = r at course next stepped
  cases course with
  | @timeOut _ _ timedOut _ overdue moves =>
    obtain rfl := Option.some.inj next
    rw [World.queue_looked, h.terms] at moves
    rw [World.now_looked] at overdue
    by_cases still : ((w.queue s).node v.node).status = .condition
    · obtain rfl : timedOut = true := by simpa [WaitStyle.terms, still] using moves
      have expired : w.parting s a (.step a) = .expired := by
        obtain ⟨t, deadline, due⟩ := overdue
        simp [World.parting, hp, deadline, due]
      have partings := h.quits (by simp) running hw' turned rfl rfl still
      exact ⟨_, rfl, began ▸ h.terms, h.freed_step (by simp) running,
        Or.inr (Or.inr ⟨expired ▸ partings, h.unheeding, rfl, World.now_step running ▸ overdue⟩)⟩
    · obtain rfl : timedOut = false := by simpa [WaitStyle.terms, still] using moves
      exact h.signalled (by simp) running still rfl h.unheeding rfl
  | sleep _ syncs _ goes =>
    have same := stepped.trans (World.queue_congr (syncs.trans (w.syncs_looked a _)))
    obtain rfl := Next.position_of_parks goes next
    exact h.goesOn (by simp) running same h.unheeding

/-- Where the wait looks at its token, and heeds a cancellation if it may. -/
theorem Fits.step_awoken {v : Waiting} (hw' : (w.step a).1.Seated s) (h : d.Attends s c style a w v)
    (running : (w.actor a).activity = .busy .running (.awoken v))
    (course : Course (w.looked a (.awoken v)) a (.awoken v) (w.stride a (.awoken v)))
    (next : (w.stride a (.awoken v)).2.position = some p') :
    (d.note s a w (.step a)).Fits s c style a (w.step a).1 p' := by
  have hp := Actor.position_of_busy running
  have began : (d.note s a w (.step a)).began = d.began := began_note hp
  have stepped := World.queue_step running s
  have tokens := World.tokens_step w a running
  have turned : ((w.step a).1.actor a).position = some p' := by
    rw [Next.position_of_actor (World.activity_step running), next]
  generalize w.stride a (.awoken v) = r at course next stepped tokens
  cases course with
  | look _ _ syncs =>
    obtain rfl := Option.some.inj next
    have same := stepped.trans (World.queue_congr (syncs.trans (w.syncs_looked a _)))
    exact h.goesOn (by simp) running same h.unheeding
  | @cancel _ _ interruption raised interruptible taken moves =>
    obtain rfl := Option.some.inj next
    rw [World.queue_looked, h.terms] at moves
    rw [World.flagged_looked] at raised
    by_cases still : ((w.queue s).node v.node).status = .condition
    · obtain rfl : interruption = .beforeSignal := by simpa [WaitStyle.terms, still] using moves
      have lowered : (w.step a).1.flagged v.terms.patience.token = false :=
        (World.flagged_of_tokens tokens).trans (World.flagged_takeFlag taken)
      have cancelled : w.parting s a (.step a) = .cancelled := by
        simp [World.parting, hp, raised, lowered]
      have partings := h.quits (by simp) running hw' turned rfl rfl still
      exact ⟨_, rfl, began ▸ h.terms, h.freed_step (by simp) running,
        Or.inr (Or.inl ⟨cancelled ▸ partings, rfl, interruptible⟩)⟩
    · obtain rfl : interruption = .afterSignal := by simpa [WaitStyle.terms, still] using moves
      exact h.signalled (by simp) running still rfl (by simp) h.inTime
  | putOff _ _ _ syncs =>
    obtain rfl := Option.some.inj next
    have same := stepped.trans (World.queue_congr (syncs.trans (w.syncs_looked a _)))
    exact h.goesOn (by simp) running same (by simp)

theorem Fits.step (h : d.Fits s c style a w p) (of : p.Of (.wait s c style)) (hw : w.Seated s)
    (hw' : (w.step a).1.Seated s) (running : (w.actor a).activity = .busy .running p)
    (course : Course (w.looked a p) a p (w.stride a p)) (next : (w.stride a p).2.position = some p') :
    (d.note s a w (.step a)).Fits s c style a (w.step a).1 p' := by
  cases p with
  | start op =>
    obtain rfl : op = .wait s c style := of
    obtain ⟨unfreed, fresh, now, -⟩ := h
    have hp := Actor.position_of_busy running
    have began : (d.note s a w (.step a)).began = d.began := began_note hp
    have freed := (freed_step (s := s) (d := d) running fun site e => by simp at e).trans unfreed
    have partings := (partings_of_free (s := s) (d := d) (e := .step a) hp rfl).trans fresh
    generalize w.stride a (.start (.wait s c style)) = r at course next
    cases course with
    | «open» opens =>
      obtain rfl := Option.some.inj next
      obtain rfl := Option.some.inj opens
      refine ⟨?_, freed, partings⟩
      rw [World.waitTerms_eq, World.now_looked, now, began]
      rfl
    | _ => simp [Next.position] at next
  | call site stage =>
    cases site with
    | wait t => exact h.step_wait running course next
    | letGo t n saved => exact Fits.step_letGo hw h running course next
    | turn q => exact h.step_place hw running rfl course next
    | _ => exact h.elim
  | turn q | lingering q | roused q => exact h.step_place hw running rfl course next
  | waiting v => exact Fits.step_waiting h running course next
  | dozing v => exact Fits.step_dozing hw' h running course next
  | awoken v => exact Fits.step_awoken hw' h running course next
  | reckoning =>
    generalize w.stride a (.reckoning _ _ _) = r at course next
    cases course with
    | reckon => simp [Next.position] at next
  | queueing => exact h.elim

/-- What the wait tells once it has its synchronizer back. -/
def Tells (a : ActorId) (now : Moment) (style : WaitStyle) (d : Vigil) (x : Value) : Prop :=
  ∃ interruption timedOut, d.Explains a now (style.patience d.began) interruption timedOut ∧
    x = if interruption = .beforeSignal then .failed .interrupted else style.told d.began now timedOut

theorem Fits.ends_place {q : Queued} {x : Value} (h : d.Fits s c style a w p) (hw : w.Seated s)
    (running : (w.actor a).activity = .busy .running p) (place : p.place = some q)
    (course : Course (w.looked a p) a p (w.stride a p)) (ends : (w.stride a p).2 = .ends x)
    (unfailed : ∀ q e, p ≠ .call (.turn q) (.answered (.error e))) :
    d.Tells a w.now style x ∧ (d.note s a w (.step a)).partings = d.partings := by
  have settled := (fits_of_place place).1 h
  have here := settled.sync
  obtain ⟨v, claim, terms, -, explains⟩ := settled
  refine ⟨?_, partings_of_place hw (Actor.position_of_busy running) place here⟩
  have unfaulted : ∀ f, x ≠ .faulted f := fun f e => hw.unfaulted running place here f (e ▸ ends)
  generalize w.stride a p = r at course ends
  cases course with
  | @fail site e =>
    cases site with
    | turn q' => exact absurd rfl (unfailed q' e)
    | _ => simp [Position.place] at place
  | refuse _ _ told =>
    rcases told with ⟨⟨s, mode, arg, rfl⟩ | ⟨s, rfl⟩, -⟩ | ⟨t, rfl, -⟩ | ⟨s, c, e, rfl, -⟩ |
      ⟨t, n, saved, rfl, -⟩
    all_goals simp [Position.place] at place
  | grant _ _ told =>
    rcases told with ⟨⟨s, mode, arg, rfl⟩ | ⟨s, rfl⟩, -⟩ | ⟨s, c, e, rfl⟩
    all_goals simp [Position.place] at place
  | @conclude site c' swallowed _ _ _ gets =>
    rcases gets with ⟨rfl, -⟩ | ⟨q', rfl, rfl, -⟩
    · simp [Position.place] at place
    · obtain rfl := Option.some.inj place
      change q'.claim.outcome swallowed = .ends x at ends
      rw [claim, v.outcome_claim] at ends
      rw [terms] at explains
      exact ⟨v.interruption, v.timedOut, explains, Waiting.told_of_outcome terms ends w.now⟩
  | stray => exact absurd (Next.ends.inj ends).symm (unfaulted _)
  | giveUp _ overdue =>
    obtain rfl := Option.some.inj place
    rcases overdue with ⟨-, t, deadline, -⟩ | ⟨f, rfl⟩
    · simp [claim, Waiting.claim] at deadline
    · exact absurd (Next.ends.inj ends).symm (unfaulted f)
  | interrupt _ interruptible =>
    obtain rfl := Option.some.inj place
    simp [claim, Waiting.claim] at interruptible
  | enter _ _ goes | leave _ _ goes => rcases goes with rfl | rfl <;> simp at ends
  | park _ goes => rcases goes with rfl | ⟨-, ⟨t, rfl⟩, -⟩ <;> simp at ends
  | decline | expire | sleep | reckon => simp [Position.place] at place
  | _ => simp at ends

theorem Fits.ends {x : Value} (h : d.Fits s c style a w p) (hw : w.Seated s)
    (running : (w.actor a).activity = .busy .running p)
    (course : Course (w.looked a p) a p (w.stride a p)) (ends : (w.stride a p).2 = .ends x)
    (freed : (d.note s a w (.step a)).freed = true)
    (unfailed : ∀ q e, p ≠ .call (.turn q) (.answered (.error e))) :
    d.Tells a w.now style x ∧ (d.note s a w (.step a)).partings = d.partings := by
  have unfreed : (∀ site, p = .call site .entering → site.hook ≠ .release) → d.freed = false → False := by
    intro other unfreed
    rw [freed_step running other, unfreed] at freed
    simp at freed
  cases p with
  | start op => exact (unfreed (fun site e => by simp at e) h.1).elim
  | call site stage =>
    cases site with
    | wait t =>
      refine (unfreed (fun site e => ?_) h.2.1).elim
      obtain ⟨rfl, -⟩ := Position.call.inj e
      simp [Site.hook]
    | letGo t n saved =>
      generalize w.stride a (.call (.letGo t n saved) stage) = r at course ends
      obtain ⟨-, h⟩ := h
      cases course with
      | fail => exact (unfreed (fun site e => by simp at e) h.1).elim
      | @refuse _ v _ _ refused =>
        have ungranted : (Stage.answered (.ok v)).granted = false := refused
        rw [ungranted] at h
        exact (unfreed (fun site e => by simp at e) h.1).elim
      | enter _ _ goes | leave _ _ goes => rcases goes with rfl | rfl <;> simp at ends
      | conclude _ gets => simp at gets
      | grant _ _ told => simp at told
      | _ => simp at ends
    | turn q => exact h.ends_place hw running rfl course ends unfailed
    | _ => exact h.elim
  | turn q | lingering q | roused q => exact h.ends_place hw running rfl course ends unfailed
  | reckoning start timeout timedOut =>
    obtain ⟨⟨token, rfl⟩, rfl, -, interruption, unheeding, explains⟩ := h
    refine ⟨⟨interruption, timedOut, explains, ?_⟩, partings_of_free (Actor.position_of_busy running) rfl⟩
    generalize w.stride a (.reckoning _ _ _) = r at course ends
    cases course with
    | reckon =>
      rw [if_neg unheeding, ← Next.ends.inj ends, World.now_looked]
      rfl
  | waiting v | awoken v =>
    generalize w.stride a _ = r at course ends
    cases course <;> simp at ends
  | dozing v =>
    generalize w.stride a _ = r at course ends
    cases course with
    | sleep _ _ _ goes => rcases goes with rfl | ⟨-, ⟨t, rfl⟩, -⟩ <;> simp at ends
    | _ => simp at ends
  | queueing => exact h.elim

theorem note_begin {op : Operation} (idle : (w.actor a).activity = .idle) :
    d.note s a w (.begin a op) = { task := some op, began := w.now } :=
  if_pos ⟨rfl, by rw [Actor.position, idle]⟩

/-- The notes on every wait of the actor fit. -/
structure Attested (s : SyncId) (a : ActorId) (w : World) (d : Vigil) : Prop where
  accounted : w.Accounted a d.toDiary
  fits : ∀ p c style, (w.actor a).position = some p → d.task = some (.wait s c style) →
    d.Fits s c style a w p

theorem Attested.happen (h : d.Attested s a w) (hw : w.Seated s) (ex : w.Exclusive s)
    (unbroken : w.unbroken e = true) : (d.note s a w e).Attested s a (w.happen e) := by
  refine ⟨toDiary_note s a w e d ▸ h.accounted.happen unbroken, fun p' c style hp' task => ?_⟩
  have kept : (w.actor a).position ≠ none → (d.note s a w e).task = d.task := fun busy =>
    (congrArg Diary.task (toDiary_note s a w e d)).trans (Diary.task_note_of_busy busy)
  rcases w.position_cases a hp' with ⟨hp, bides⟩ | ⟨op, rfl, idle, rfl⟩ | ⟨p, rfl, running, course, next⟩
  · rw [kept (by simp [hp])] at task
    exact (h.fits p' c style hp task).bides hw ex hp bides unbroken
  · have busy : ((w.happen (.begin a op)).actor a).activity = .busy .running (.start op) := by
      rcases w.begin_cases a op with same | ⟨-, busy⟩
      · rw [World.happen, same, Actor.position, idle] at hp'
        simp at hp'
      · exact busy
    rw [note_begin idle] at task ⊢
    obtain rfl : op = .wait s c style := by simpa using task
    exact ⟨rfl, rfl, w.now_begin a _, busy⟩
  · have hp := Actor.position_of_busy running
    rw [kept (by simp [hp])] at task
    obtain ⟨op, task', of, -⟩ := h.accounted.owing p hp
    obtain rfl := Option.some.inj (task'.symm.trans task)
    exact (h.fits p c style hp task).step of hw (hw.step ex a) running course next

theorem Attested.after {b : Option ActorId} {events : List Event} (h : d.Attested s a w) (hw : w.Seated s)
    (guarded : w.Guarded s b) (honest : World.Honest s b w events)
    (unbroken : World.Obeys (fun w e => w.unbroken e) w events) :
    (World.collect (Vigil.note s a) w events d).Attested s a (w.after events) ∧
      (w.after events).Seated s := by
  induction events generalizing w b d with
  | nil => exact ⟨h, hw⟩
  | cons e rest ih =>
    obtain ⟨held, b', kept, rest⟩ := honest
    exact ih (h.happen hw guarded.exclusive unbroken.1) (hw.happen guarded.exclusive e)
      (guarded.happen hw held kept) rest unbroken.2

end Vigil

namespace World

/-- Where the hooks are honest, a wait that gets its synchronizer back ends for one reason, for which its
node has left the condition once. -/
theorem wait_ends {s : SyncId} {actors tokens : Nat} {syncs : List Synchronizer}
    {conditions : List SyncId} {x : Synchronizer} (hx : syncs[s]? = some x) (empty : x.queue = .empty)
    {events : List Event}
    (honest : ∃ b, Honest s b (World.create actors tokens syncs conditions) events)
    (unbroken : Obeys (fun w e => w.unbroken e) (World.create actors tokens syncs conditions) events)
    {a : ActorId} {c : ConditionId} {style : WaitStyle} {v : Value} :
    let start := World.create actors tokens syncs conditions
    let w := start.after events
    let d := Vigil.since s start a (events ++ [.step a])
    (w.step a).2 = some v → d.task = some (.wait s c style) → d.freed = true →
    (∀ q e, (w.actor a).activity ≠ .busy .running (.call (.turn q) (.answered (.error e)))) →
      (∃ b, b ≠ a ∧ d.partings = [.signalled b] ∧ v = style.told d.began w.now false ∧
        (d.took = true → (w.step a).1.flagged style.token = true)) ∨
      (d.partings = [.cancelled] ∧ (style.patience d.began).interruptible = true ∧
        v = .failed .interrupted) ∨
      (d.partings = [.expired] ∧ (style.patience d.began).isOver w.now ∧
        v = style.told d.began w.now true ∧
        (d.took = true → (w.step a).1.flagged style.token = true)) := by
  intro start w d ends task freed unfailed
  obtain ⟨b, honest⟩ := honest
  have idle : ∀ a p, (start.actor a).position ≠ some p := position_create actors tokens syncs conditions
  have fresh : ({} : Vigil).Attested s a start :=
    ⟨.create, fun p c style hp => absurd hp (idle a p)⟩
  have attested : (Vigil.since s start a events).Attested s a w ∧ w.Seated s :=
    fresh.after (.create hx empty) (fun a p hp => absurd hp (idle a p)) honest unbroken
  obtain ⟨attested, seated⟩ := attested
  have eq : d = (Vigil.since s start a events).note s a w (.step a) := collect_concat _ _ _ _ _
  generalize Vigil.since s start a events = d₀ at attested eq
  obtain ⟨p, running, ends⟩ := running_of_step ends
  have hp := Actor.position_of_busy running
  rw [eq, Vigil.note_of_busy hp] at task
  have fits := attested.fits p c style hp task
  obtain ⟨tells, partings⟩ : d₀.Tells a w.now style v ∧ d.partings = d₀.partings := by
    rcases w.stride_course a p with ⟨-, -, spins⟩ | ⟨-, course⟩
    · simp [spins] at ends
    · rw [eq] at freed ⊢
      exact fits.ends seated running course ends freed fun q e here => unfailed q e (here ▸ running)
  have began : d.began = d₀.began := by rw [eq, Vigil.began_note hp]
  have back : ∀ timedOut, v = style.told d.began w.now timedOut → d.took = true →
      (w.step a).1.flagged style.token = true := by
    rintro timedOut rfl took
    rw [eq] at took
    refine attested.accounted.put_back running task ends ((Vigil.toDiary_note s a w _ d₀) ▸ took) ?_ ?_
    · cases style <;> simp [WaitStyle.told]
    · cases style <;> simp [WaitStyle.told]
  rw [partings]
  obtain ⟨interruption, timedOut, explains, told⟩ := tells
  rw [began] at back ⊢
  rcases explains with ⟨b, ne, signalled, unheeding, rfl⟩ | ⟨cancelled, rfl, interruptible⟩ |
    ⟨expired, unheeding, rfl, overdue⟩
  · rw [if_neg unheeding] at told
    exact Or.inl ⟨b, ne, signalled, told, back false told⟩
  · exact Or.inr (Or.inl ⟨cancelled, interruptible, told⟩)
  · rw [if_neg unheeding] at told
    exact Or.inr (Or.inr ⟨expired, overdue, told, back true told⟩)

/-- Someone is signalled, and cancelled before it has its lock back. -/
theorem wait_ends_signalled :
    let start := World.create 2 1 [{ policy := .mutex, state := 0 }] [0]
    let events : List Event :=
      .begin 0 (.acquire 0 .exclusive 1 .plain) :: List.replicate 5 (.step 0) ++
        .begin 0 (.wait 0 0 (.timeLeft (some 0) 1000000)) :: List.replicate 11 (.step 0) ++
        .begin 1 (.acquire 0 .exclusive 1 .plain) :: List.replicate 5 (.step 1) ++
        .begin 1 (.errand 0 0 .signal) :: List.replicate 5 (.step 1) ++
        .begin 1 (.release 0 .exclusive 1) :: List.replicate 5 (.step 1) ++
        .cancel 0 :: .resume 0 :: List.replicate 6 (.step 0)
    let w := start.after events
    (w.step 0).2 = some (.timeLeft (some 1000000)) ∧ ∃ b, b ≠ 0 ∧
      (Vigil.since 0 start 0 (events ++ [.step 0])).partings = [.signalled b] ∧
      (w.step 0).1.flagged (some 0) = true := by
  intro start events w
  have proper : Obeys (Proper 0) start events := by decide +kernel
  have ends : (w.step 0).2 = some (.timeLeft (some 1000000)) := by decide +kernel
  have task : (Vigil.since 0 start 0 (events ++ [.step 0])).task =
      some (.wait 0 0 (.timeLeft (some 0) 1000000)) := by decide +kernel
  have unfailed : ∀ q e, (w.actor 0).activity ≠ .busy .running (.call (.turn q) (.answered (.error e))) := by
    intro q e failing
    have reckons : (w.actor 0).place = none := by decide +kernel
    simp [Actor.place, Actor.position, failing, Position.place] at reckons
  refine ⟨ends, ?_⟩
  rcases wait_ends rfl rfl ⟨_, (Locking.create rfl (Or.inl rfl) rfl rfl rfl).honest proper⟩
    (by decide +kernel) ends task (by decide +kernel) unfailed with
    ⟨b, ne, signalled, -, back⟩ | ⟨-, -, told⟩ | ⟨-, -, told, -⟩
  · exact ⟨b, ne, signalled, back (by decide +kernel)⟩
  · simp at told
  · simp [WaitStyle.told] at told

/-- Someone is signalled in time, and told nonetheless that it has run out of time. -/
theorem wait_ends_late :
    let start := World.create 2 0 [{ policy := .mutex, state := 0 }] [0]
    let events : List Event :=
      .begin 0 (.acquire 0 .exclusive 1 .plain) :: List.replicate 5 (.step 0) ++
        .begin 0 (.wait 0 0 (.timeLeft none 1000000)) :: List.replicate 11 (.step 0) ++
        .begin 1 (.acquire 0 .exclusive 1 .plain) :: List.replicate 5 (.step 1) ++
        .begin 1 (.errand 0 0 .signal) :: List.replicate 5 (.step 1) ++
        .elapse 1000000 :: .begin 1 (.release 0 .exclusive 1) :: List.replicate 5 (.step 1) ++
        .resume 0 :: List.replicate 7 (.step 0)
    Obeys (Proper 0) start events ∧ Obeys (fun w e => w.unbroken e) start events ∧
      (Vigil.since 0 start 0 (events ++ [.step 0])).partings = [.signalled 1] ∧
      ((start.after events).step 0).2 = some (.timeLeft none) :=
  ⟨by decide +kernel, by decide +kernel, by decide +kernel, by decide +kernel⟩

end World

end Turnstile
