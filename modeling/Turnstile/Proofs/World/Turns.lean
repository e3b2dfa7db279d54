import Turnstile.Proofs.World.Diary
import Turnstile.Proofs.World.Seating

/-! Actors that try again from a place in the queue: where the place comes from, that it stays in the
table, and that nothing goes wrong there as long as the seats are kept. -/
namespace Turnstile

open WaitQueue (Shaped)

/-- The place in the queue from which the actor tries again. -/
def Position.place : Position → Option Queued
  | .turn q | .lingering q | .roused q | .call (.turn q) _ => some q
  | _ => none

namespace Actor

def standing (x : Actor) : Option Standing :=
  match x.activity with
  | .idle => none
  | .busy st _ => some st

def place (x : Actor) : Option Queued := x.position.bind Position.place

theorem exists_of_place {x : Actor} {q : Queued} (h : x.place = some q) :
    ∃ st p, x.activity = .busy st p ∧ p.place = some q := by
  obtain ⟨p, hp, place⟩ := Option.bind_eq_some_iff.1 h
  unfold position at hp
  split at hp
  · simp at hp
  · obtain rfl := Option.some.inj hp
    exact ⟨_, _, ‹_›, place⟩

end Actor

theorem Position.seat_of_place {s : SyncId} {p : Position} {q : Queued} (place : p.place = some q)
    (here : q.claim.sync = s) : ∃ called, p.seat s = .queued q.node q.claim.mode called := by
  cases p with
  | turn | lingering | roused =>
    obtain rfl := Option.some.inj place
    exact ⟨false, if_pos here⟩
  | call site stage =>
    cases site with
    | turn q' =>
      obtain rfl := Option.some.inj place
      exact ⟨true, if_pos here⟩
    | _ => simp [Position.place] at place
  | _ => simp [Position.place] at place

theorem Position.Of.place {op : Operation} {p : Position} {q : Queued} (of : p.Of op)
    (place : p.place = some q) : q.claim.Of op := by
  cases p with
  | turn | lingering | roused =>
    obtain rfl := Option.some.inj place
    exact of
  | call site stage =>
    cases site with
    | turn q' =>
      obtain rfl := Option.some.inj place
      exact of
    | _ => simp [Position.place] at place
  | _ => simp [Position.place] at place

theorem Site.place_of_operation {op : Operation} {w : World} {site : Site} {stage : Stage}
    (opens : op.site w = some site) : (Position.call site stage).place = none := by
  cases op with
  | acquire | release | isHeld | wait | errand =>
    obtain rfl := Option.some.inj opens
    rfl
  | _ => simp [Operation.site] at opens

theorem Claim.unfaulted_outcome (c : Claim) (swallowed : Bool) (f : Fault) :
    c.outcome swallowed ≠ .ends (.faulted f) := by
  unfold Claim.outcome Waiting.outcome
  split
  · split <;> simp
  · split
    · simp
    · split <;> simp

theorem Course.place {w : World} {me : ActorId} {p p' : Position} {r : World × Next} {q' : Queued}
    {timed : Bool} (course : Course w me p r) (next : r.2.position = some p') (place : p'.place = some q')
    (purpose : q'.claim.purpose = .operation timed) :
    (∃ c, p = .queueing c ∧ q' = ⟨c, (w.queue c.sync).nodes.size, false⟩ ∧
      r.1 = w.setQueue c.sync ((w.queue c.sync).join c.mode me).1) ∨
    ∃ q, p.place = some q ∧ q.claim = q'.claim ∧ q.node = q'.node := by
  cases course with
  | @enter site _ _ _ _ goes | @leave site _ _ _ _ _ goes =>
    obtain rfl := Next.position_of_pauses goes next
    cases site with
    | turn q => exact Or.inr ⟨q', place, rfl, rfl⟩
    | _ => simp [Position.place] at place
  | @ask site =>
    obtain rfl := Option.some.inj next
    cases site with
    | turn q => exact Or.inr ⟨q', place, rfl, rfl⟩
    | _ => simp [Position.place] at place
  | @conclude site c swallowed =>
    rcases c.outcome_cases swallowed with ⟨v, eq⟩ | ⟨v, start, timeout, -, -, -, eq⟩
    · simp [eq, Next.position] at next
    · obtain rfl := Option.some.inj ((congrArg Next.position eq).symm.trans next)
      simp [Position.place] at place
  | @join c =>
    obtain rfl := Option.some.inj next
    exact Or.inl ⟨c, rfl, (Option.some.inj place).symm, rfl⟩
  | linger | call | await | again | retry =>
    obtain rfl := Option.some.inj next
    exact Or.inr ⟨q', place, rfl, rfl⟩
  | swallow =>
    obtain rfl := Option.some.inj next
    obtain rfl := Option.some.inj place
    exact Or.inr ⟨_, rfl, rfl, rfl⟩
  | park _ goes =>
    obtain rfl := Next.position_of_parks goes next
    exact Or.inr ⟨q', place, rfl, rfl⟩
  | sleep _ _ _ goes =>
    obtain rfl := Next.position_of_parks goes next
    simp [Position.place] at place
  | reclaim | timeOut | cancel =>
    obtain rfl := Option.some.inj next
    obtain rfl := Option.some.inj place
    simp at purpose
  | «open» opens =>
    obtain rfl := Option.some.inj next
    simp [Site.place_of_operation opens] at place
  | queue | enterWait | letGo | doze | look | putOff =>
    obtain rfl := Option.some.inj next
    simp [Position.place] at place
  | _ => simp [Next.position] at next

/-- Whoever has a place in the queue keeps it and goes on with its claim until that is granted. -/
theorem Course.keeps_place {w : World} {me : ActorId} {p p' : Position} {r : World × Next} {q : Queued}
    (course : Course w me p r) (place : p.place = some q) (next : r.2.position = some p') :
    (∃ q', p'.place = some q' ∧ q'.claim = q.claim) ∨ ∃ swallowed, r.2 = q.claim.outcome swallowed := by
  cases course with
  | @enter site _ _ _ _ goes | @leave site _ _ _ _ _ goes =>
    obtain rfl := Next.position_of_pauses goes next
    cases site with
    | turn => exact Or.inl ⟨q, place, rfl⟩
    | _ => simp [Position.place] at place
  | @ask site =>
    obtain rfl := Option.some.inj next
    cases site with
    | turn => exact Or.inl ⟨q, place, rfl⟩
    | _ => simp [Position.place] at place
  | @conclude site c swallowed v w' granted gets tokens =>
    rcases gets with ⟨rfl, -⟩ | ⟨q', rfl, rfl, -⟩
    · simp [Position.place] at place
    · obtain rfl := Option.some.inj place
      exact Or.inr ⟨swallowed, rfl⟩
  | linger | call | await | again | retry =>
    obtain rfl := Option.some.inj next
    exact Or.inl ⟨q, place, rfl⟩
  | swallow =>
    obtain rfl := Option.some.inj next
    obtain rfl := Option.some.inj place
    exact Or.inl ⟨_, rfl, rfl⟩
  | park _ goes =>
    obtain rfl := Next.position_of_parks goes next
    exact Or.inl ⟨q, place, rfl⟩
  | fail | refuse | grant | stray | giveUp | interrupt => simp [Next.position] at next
  | _ => simp [Position.place] at place

namespace World

variable {s : SyncId} {w : World} {a : ActorId} {p : Position} {q : Queued} {e : Event}

/-- The place of an acquisition is in the table of the queue. -/
def Placed (s : SyncId) (w : World) (a : ActorId) : Prop :=
  ∀ p q timed, (w.actor a).position = some p → p.place = some q → q.claim.sync = s →
    q.claim.purpose = .operation timed → q.node < (w.queue s).nodes.size

theorem Placed.happen (h : Placed s w a) (inTable : s < w.syncs.size) (e : Event) :
    Placed s (w.happen e) a := by
  intro p' q' timed hp' place here purpose
  rcases w.position_cases a hp' with ⟨hp, -⟩ | ⟨op, -, -, rfl⟩ | ⟨p, rfl, running, course, next⟩
  · exact Nat.lt_of_lt_of_le (h p' q' timed hp place here purpose) ((w.queues_happen e).2 s).size
  · simp [Position.place] at place
  · rcases course.place next place purpose with ⟨c, rfl, rfl, eq⟩ | ⟨q, before, claim, node⟩
    · obtain rfl : c.sync = s := here
      have queue : (w.happen (.step a)).queue c.sync = ((w.queue c.sync).join c.mode a).1 := by
        rw [World.happen, step_eq running, eq]
        change ((w.looked a _).setQueue c.sync _).queue c.sync = _
        rw [queue_setQueue, if_pos ⟨rfl, by simpa using inTable⟩, queue_looked]
      rw [queue, queue_looked, WaitQueue.size_join]
      exact Nat.lt_succ_self _
    · have known := h p q timed (Actor.position_of_busy running) before (claim ▸ here) (claim ▸ purpose)
      rw [← node]
      exact Nat.lt_of_lt_of_le known ((w.queues_happen (.step a)).2 s).size

theorem abandon_of_live {h : NodeId} {body : List NodeId} (hq : Shaped (w.queue q.claim.sync) h body)
    (live : q.node ∈ (w.queue q.claim.sync).live) (v : Value) : (w.abandon q v).2 = .ends v := by
  have done := (hq.withdrawn live).done
  unfold abandon World.withdraw
  dsimp only
  rw [done]

theorem unfaulted_park (w : World) (me : ActorId) (token : Option TokenId) (left : Option Span) (f : Fault) :
    (w.park me token left p).2 ≠ .ends (.faulted f) := by
  rcases (park_spec w me token left p).2 with goesOn | ⟨-, ⟨t, parks⟩, -⟩
  · simp [goesOn]
  · simp [parks]

section live

variable {h : NodeId} {body : List NodeId} (hq : Shaped (w.queue q.claim.sync) h body)
  (live : q.node ∈ (w.queue q.claim.sync).live) (f : Fault)

include hq live

theorem unfaulted_abandon {v : Value} (unfaulted : v ≠ .faulted f) :
    (w.abandon q v).2 ≠ .ends (.faulted f) := by
  rw [abandon_of_live hq live v]
  exact fun same => unfaulted (Next.ends.inj same)

theorem unfaulted_turn : (w.turn q).2 ≠ .ends (.faulted f) := by
  obtain ⟨hb, -⟩ := hq.mem_live.1 live
  obtain ⟨ys, xs, rfl⟩ := List.append_of_mem hb
  unfold World.turn
  dsimp only
  rw [hq.prev_eq]
  dsimp only
  split <;> simp

theorem unfaulted_linger (me : ActorId) : (w.linger me q).2 ≠ .ends (.faulted f) := by
  unfold World.linger
  extract_lets left
  split
  · exact unfaulted_abandon hq live f (by simp)
  · rcases hq.readyToPark_cases live with ⟨p, -, -, -, eq⟩ | ⟨q', eq, -⟩
    · rw [eq]
      dsimp only
      split
      · simp
      · exact unfaulted_park _ me _ left f
    · rw [eq]
      simp

theorem unfaulted_rouse : (w.rouse q).2 ≠ .ends (.faulted f) := by
  unfold World.rouse takeFlag
  split
  · simp
  · rename_i e
    obtain ⟨rfl, -⟩ := Prod.mk.inj e
    have same : (w.modifyToken q.claim.patience.token (·.take.1)).queue q.claim.sync =
        w.queue q.claim.sync := queue_modifyToken w _ _ _
    split
    · exact unfaulted_abandon (same ▸ hq) (same ▸ live) f (by simp)
    · simp

theorem unfaulted_call (me : ActorId) (stage : Stage) :
    (w.callHook me (.turn q) stage).2 ≠ .ends (.faulted f) := by
  cases stage with
  | arriving | leaving answer =>
    unfold callHook trip
    dsimp only
    split <;> simp
  | entering => simp [callHook]
  | answered answer =>
    cases answer with
    | error e => exact unfaulted_abandon hq live f (by simp)
    | ok v =>
      simp only [callHook, World.resolve]
      split
      · obtain ⟨queue, eq, -⟩ := w.takeTurn_eq q v
        rw [resolveGrant, eq, (conclude_spec _ _ _).1]
        exact q.claim.unfaulted_outcome q.swallowed f
      · simp [resolveRefusal]

end live

/-- As long as the seats are kept, nothing goes wrong for those who try again. -/
theorem Seated.unfaulted (hw : Seated s w) (running : (w.actor a).activity = .busy .running p)
    (place : p.place = some q) (here : q.claim.sync = s) (f : Fault) :
    (w.stride a p).2 ≠ .ends (.faulted f) := by
  subst here
  obtain ⟨h, body, hq⟩ := hw.shaped
  obtain ⟨called, seat⟩ := Position.seat_of_place place rfl
  have held := hw.seats a p (Actor.position_of_busy running)
  rw [seat] at held
  obtain ⟨live, -, -, -⟩ := held
  have looked : (w.looked a p).queue q.claim.sync = w.queue q.claim.sync := queue_looked w a p _
  rw [← looked] at hq live
  rw [stride_eq]
  split
  · simp
  cases p with
  | turn =>
    obtain rfl := Option.some.inj place
    exact unfaulted_turn hq live f
  | lingering =>
    obtain rfl := Option.some.inj place
    exact unfaulted_linger hq live f a
  | roused =>
    obtain rfl := Option.some.inj place
    exact unfaulted_rouse hq live f
  | call site stage =>
    cases site with
    | turn =>
      obtain rfl := Option.some.inj place
      exact unfaulted_call hq live f a stage
    | _ => simp [Position.place] at place
  | _ => simp [Position.place] at place

end World

end Turnstile
