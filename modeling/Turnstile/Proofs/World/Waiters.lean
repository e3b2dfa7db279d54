import Turnstile.Proofs.World.Reasons
import Turnstile.Proofs.World.Strung

/-! Who waits on a condition, by what the actors are seen to do: from the step that puts an actor on the
condition until it is signalled, gives up or fails to release. The chain of the condition knows no others. -/
namespace Turnstile

open WaitQueue (Alike InUse Moves Shaped)

namespace Position

/-- The condition of the synchronizer that the actor waits on until its node is claimed back, and the node. -/
def awaits (s : SyncId) : Position → Option (ConditionId × NodeId)
  | .call (.letGo t n _) _ => if t.sync = s then some (t.condition, n) else none
  | .waiting v | .dozing v | .awoken v =>
    if v.terms.sync = s then some (v.terms.condition, v.node) else none
  | _ => none

/-- The errand that the actor is about to do on the condition, having been found to hold the synchronizer. -/
def errand (s : SyncId) (c : ConditionId) : Position → Option Errand
  | .call (.errand t d e) (.answered answer) =>
    if t = s ∧ d = c ∧ grants answer = true then some e else none
  | _ => none

variable {s : SyncId} {p p' : Position} {c : ConditionId} {n : NodeId}

theorem node_of_awaits (h : p.awaits s = some (c, n)) : (p.seat s).node = some n := by
  cases p with
  | call site stage =>
    cases site with
    | letGo t m saved =>
      simp only [awaits] at h
      split at h
      · rename_i here
        obtain ⟨-, rfl⟩ := Prod.mk.inj (Option.some.inj h)
        simp only [seat, if_pos here]
        split <;> rfl
      · simp at h
    | _ => simp [awaits] at h
  | waiting | dozing | awoken =>
    simp only [awaits] at h
    split at h
    · rename_i here
      obtain ⟨-, rfl⟩ := Prod.mk.inj (Option.some.inj h)
      simp only [seat, if_pos here]
      rfl
    · simp at h
  | _ => simp [awaits] at h

/-- Whoever keeps a node has a place in the queue by it, or waits on a condition. -/
theorem queued_or_awaits (h : (p.seat s).node = some n) :
    (∃ m called, p.seat s = .queued n m called) ∨ ∃ c, p.awaits s = some (c, n) := by
  cases p with
  | call site stage =>
    cases site with
    | letGo t m saved =>
      simp only [seat] at h
      split at h
      · rename_i here
        have : m = n := by split at h <;> simpa [Seat.node] using h
        exact Or.inr ⟨t.condition, by simp [awaits, here, this]⟩
      · simp [Seat.node] at h
    | turn q =>
      simp only [seat] at h ⊢
      split at h
      · rename_i here
        obtain rfl : q.node = n := by simpa [Seat.node] using h
        exact Or.inl ⟨_, _, if_pos here⟩
      · simp [Seat.node] at h
    | _ => simp [seat, Seat.node] at h
  | turn q | lingering q | roused q =>
    simp only [seat] at h ⊢
    split at h
    · rename_i here
      obtain rfl : q.node = n := by simpa [Seat.node] using h
      exact Or.inl ⟨_, _, if_pos here⟩
    · simp [Seat.node] at h
  | waiting v | dozing v | awoken v =>
    simp only [seat] at h
    split at h
    · rename_i here
      obtain rfl : v.node = n := by simpa [Seat.node] using h
      exact Or.inr ⟨v.terms.condition, if_pos here⟩
    · simp [Seat.node] at h
  | _ => simp [seat, Seat.node] at h

theorem errand_eq {e : Errand} (h : p.errand s c = some e) :
    ∃ v, p = .call (.errand s c e) (.answered (.ok v)) ∧ v.isGrant = true := by
  unfold errand at h
  split at h
  · rename_i t d e' answer
    split at h
    · rename_i here
      obtain ⟨rfl, rfl, granted⟩ := here
      obtain rfl := Option.some.inj h
      cases answer with
      | error => simp [grants] at granted
      | ok v => exact ⟨v, rfl, by simpa [grants] using granted⟩
    · simp at h
  · simp at h

end Position

namespace Errand

variable {α β : Type} (e : Errand) (l : List α)

/-- Of those who wait, the ones that the errand signals. -/
def signalled : Errand → List α → List α
  | .signal, l => l.take 1
  | .signalAll, l => l
  | _, _ => []

def leaves : Errand → List α → List α
  | .signal, l => l.tail
  | .signalAll, _ => []
  | _, l => l

def report (as : List ActorId) : Errand → Value
  | .signal | .signalAll => .done
  | .hasWaiters => .truth !as.isEmpty
  | .countWaiters => .number as.length
  | .listWaiters => .actors as

theorem signalled_subset : e.signalled l ⊆ l := by
  cases e with
  | signal => exact List.take_subset 1 l
  | signalAll => exact List.Subset.refl l
  | _ => exact List.nil_subset l

theorem map_leaves (f : α → β) : (e.leaves l).map f = e.leaves (l.map f) := by
  cases e with
  | signal => exact List.map_tail
  | _ => rfl

theorem leaves_eq [DecidableEq α] {l : List α} (nodup : l.Nodup) :
    e.leaves l = l.filter fun x => x ∉ e.signalled l := by
  cases e with
  | signal =>
    cases l with
    | nil => rfl
    | cons x rest =>
      have out := (List.nodup_cons.1 nodup).1
      simp only [leaves, signalled, List.tail_cons, List.take_one, List.head?_cons, Option.toList_some,
        List.mem_singleton]
      rw [List.filter_cons_of_neg (by simp), List.filter_eq_self.2]
      exact fun y hy => decide_eq_true fun eq => out (eq ▸ hy)
  | signalAll => exact (List.filter_eq_nil_iff.2 fun x hx => by simp [signalled, hx]).symm
  | _ => simp [leaves, signalled]

end Errand

/-- A signal moves the first that waits, if anyone does. -/
theorem Condition.Strings.moves_signal {c : Condition} {q : WaitQueue} {l body : List NodeId} {h : NodeId}
    (hs : Strings c q l) (hq : Shaped q h body) : Moves q (c.signal q).2.1 ((c.unsignalled q).take 1) := by
  rw [unsignalled, hs.waiters_eq]
  have nobody : ∀ l : List NodeId, (∀ m ∈ l, (q.node m).status ≠ .condition) →
      (l.filter fun n => (q.node n).status = .condition) = [] :=
    fun l none => List.filter_eq_nil_iff.2 (by simpa using none)
  rcases hs.signal hq with ⟨none, alike, -, -⟩ | ⟨xs, n, ys, rfl, none, moves, -⟩
  · rw [nobody l none]
    exact Moves.of_alike alike hq
  · have waits : (q.node n).status = .condition := moves.waited n (by simp)
    rw [List.filter_append, nobody xs none, List.nil_append, List.filter_cons_of_pos (by simpa using waits)]
    exact moves

/-- Nobody comes to wait on a condition but by putting a node on it. -/
theorem Course.awaits {w : World} {me : ActorId} {p p' : Position} {r : World × Next} {s : SyncId}
    {x : ConditionId × NodeId} (course : Course w me p r) (next : r.2.position = some p')
    (h : p'.awaits s = some x) : p.awaits s = some x ∨ p.begins s = some x.1 := by
  cases course with
  | @«open» op _ site opens =>
    obtain rfl := Option.some.inj next
    cases op with
    | acquire | release | isHeld | wait | errand =>
      obtain rfl := Option.some.inj opens
      simp [Position.awaits] at h
    | _ => simp [Operation.site] at opens
  | @enter site _ _ _ _ goes | @leave site _ _ _ _ _ goes =>
    obtain rfl := Next.position_of_pauses goes next
    cases site with
    | letGo => exact Or.inl h
    | _ => simp [Position.awaits] at h
  | @ask site =>
    obtain rfl := Option.some.inj next
    cases site with
    | letGo => exact Or.inl h
    | _ => simp [Position.awaits] at h
  | @conclude site c swallowed =>
    rcases c.outcome_cases swallowed with ⟨v, eq⟩ | ⟨v, start, timeout, -, -, -, eq⟩
    · simp [eq, Next.position] at next
    · obtain rfl := Option.some.inj ((congrArg Next.position eq).symm.trans next)
      simp [Position.awaits] at h
  | enterWait granted =>
    obtain rfl := Option.some.inj next
    simp only [Position.awaits] at h
    split at h
    · rename_i here
      refine Or.inr ?_
      rw [← Option.some.inj h]
      simp [Position.begins, here, grants, granted]
    · simp at h
  | letGo | doze | look | putOff =>
    obtain rfl := Option.some.inj next
    exact Or.inl h
  | park _ goes =>
    obtain rfl := Next.position_of_parks goes next
    simp [Position.awaits] at h
  | sleep _ _ _ goes =>
    obtain rfl := Next.position_of_parks goes next
    exact Or.inl h
  | queue | linger | join | call | await | again | retry | swallow | reclaim | timeOut | cancel =>
    obtain rfl := Option.some.inj next
    simp [Position.awaits, World.reclaim] at h
  | _ => simp [Next.position] at next

namespace World

/-- Whether the actor waits no longer for its signal once it has taken a step: its release has come to
nothing, its deadline has come, or it takes the flag of its token. -/
def quits (w : World) (a : ActorId) : Position → Bool
  | .call (.letGo ..) (.answered answer) => !grants answer
  | .dozing v => (w.actor a).looks != 0 && v.terms.patience.deadline.any (· ≤ w.now)
  | .awoken v => v.terms.patience.interruptible && w.flagged v.terms.patience.token
  | _ => false

/-- Of those who wait on the condition, the ones that the actor's step leaves waiting. -/
def staying (s : SyncId) (c : ConditionId) (w : World) (a : ActorId) (p : Position) (as : List ActorId) :
    List ActorId :=
  match p.errand s c with
  | some errand => errand.leaves as
  | none => if w.quits a p then as.filter (· ≠ a) else as

def noteWaiters (s : SyncId) (c : ConditionId) (w : World) (e : Event) (as : List ActorId) : List ActorId :=
  match e with
  | .step a =>
    match (w.actor a).activity with
    | .busy .running p => w.staying s c a p as ++ if p.begins s = some c then [a] else []
    | _ => as
  | _ => as

/-- Those who wait on the condition for a signal, from the one that came first, by what the actors have done
since the start of a run. -/
def waitersSince (s : SyncId) (c : ConditionId) (w : World) (events : List Event) : List ActorId :=
  World.collect (noteWaiters s c) w events []

section

variable {s : SyncId} {c : ConditionId} {w : World} {a : ActorId} {p : Position} {n : NodeId} {e : Event}
  {ns : ConditionId → List NodeId} {as : List ActorId}

theorem noteWaiters_of_still (still : ∀ a p, e = .step a → (w.actor a).activity ≠ .busy .running p) :
    noteWaiters s c w e as = as := by
  cases e with
  | step a =>
    unfold noteWaiters
    dsimp only
    split
    · rename_i p running
      exact absurd running (still a p rfl)
    · rfl
  | _ => rfl

theorem Seated.awaits (hw : Seated s w) (waits : ((w.queue s).node n).status = .condition) :
    ∃ a p d, (w.actor a).position = some p ∧ p.awaits s = some (d, n) ∧
      ((w.queue s).node n).actor = some a := by
  obtain ⟨a, p, hp, hn⟩ := hw.kept n (Or.inr waits)
  rcases Position.queued_or_awaits hn with ⟨m, called, seat⟩ | ⟨d, awaits⟩
  · exact absurd waits (hw.joined hp seat)
  · exact ⟨a, p, d, hp, awaits, hw.actor_node hp hn⟩

/-- A node that is in use before and after an event keeps its actor. -/
theorem InOrder.actor_happen (hw : InOrder s w) (before : InUse (w.queue s) n)
    (after : InUse ((w.happen e).queue s) n) :
    (((w.happen e).queue s).node n).actor = ((w.queue s).node n).actor := by
  rcases w.unsteps_cases e with ⟨a, p, rfl, running⟩ | ⟨queue, -⟩
  · have moved := hw.seated.moved_stride running
    have position : (w.actor a).position = some p := Actor.position_of_busy running
    rw [World.happen, queue_step running] at after ⊢
    obtain ⟨woken, -, change, -⟩ := moved.change
    by_cases mine : (p.seat s).node = some n
    · have kept := (change.used n after).resolve_right fun other => other.1 mine
      exact (moved.seat.actor kept).trans (hw.seated.actor_node position mine).symm
    · exact change.actor n mine before
  · rw [queue]

/-- Whoever does not signal leaves the others where they wait. -/
theorem InOrder.waits_of_other (hw : InOrder s w) (running : (w.actor a).activity = .busy .running p)
    (silent : p.signals s = false) (other : (p.seat s).node ≠ some n)
    (waits : ((w.queue s).node n).status = .condition) :
    (((w.happen (.step a)).queue s).node n).status = .condition := by
  have still := (hw.seated.moved_stride running).still.resolve_left (by simp [silent])
  rw [World.happen, step_eq running]
  exact still n other waits

/-- Whoever goes on waiting stays on its condition. -/
theorem InOrder.waits_of_own (hw : InOrder s w) (running : (w.actor a).activity = .busy .running p)
    {d : ConditionId} (awaits : p.awaits s = some (d, n)) (stays : w.quits a p = false)
    (waits : ((w.queue s).node n).status = .condition) :
    (((w.happen (.step a)).queue s).node n).status = .condition := by
  obtain ⟨h, body, hq⟩ := hw.seated.shaped
  have same : ∀ w' : World, w'.syncs = w.syncs → ((w'.queue s).node n).status = .condition := by
    intro w' syncs
    rwa [queue_congr syncs]
  rw [World.happen, step_eq running]
  change (((w.stride a p).1.queue s).node n).status = .condition
  rw [stride_eq]
  split
  · exact same _ rfl
  rename_i awake
  have syncs := w.syncs_looked a p
  have course : Course (w.looked a p) a p _ := course_advance p
  generalize (w.looked a p).advance a p = r at course
  cases course with
  | enter _ unchanged | leave _ unchanged => exact same _ (unchanged.trans syncs)
  | @ask site =>
    dsimp only
    rw [queue_ask, queue_looked]
    exact waits
  | @fail site | @refuse site =>
    cases site with
    | letGo => simp_all [quits, grants]
    | _ => simp [Position.awaits] at awaits
  | @letGo t m saved v granted =>
    rw [queue_apply, queue_looked]
    split
    · rename_i here
      obtain ⟨rfl, -⟩ := here
      exact (hq.served_wakeFirst.waits n).2 waits
    · exact waits
  | reclaim | doze => exact same _ syncs
  | @timeOut v _ _ _ overdue =>
    obtain ⟨t, deadline, le⟩ := overdue
    rw [now_looked] at le
    simp_all [quits, Position.readsClock]
  | sleep _ unchanged | putOff _ _ _ unchanged => exact same _ (unchanged.trans syncs)
  | look _ _ unchanged => exact same _ (unchanged.trans syncs)
  | cancel raised interruptible => simp_all [quits]
  | @conclude site | @grant site =>
    cases site with
    | letGo => simp_all
    | _ => simp [Position.awaits] at awaits
  | _ => simp [Position.awaits] at awaits

theorem InOrder.left_of_own (hw : InOrder s w) (running : (w.actor a).activity = .busy .running p)
    {d : ConditionId} (awaits : p.awaits s = some (d, n)) (quits : w.quits a p = true) :
    (((w.happen (.step a)).queue s).node n).status ≠ .condition := by
  have hp : (w.actor a).position = some p := Actor.position_of_busy running
  have hn := Position.node_of_awaits awaits
  intro waits
  have own := hw.actor_happen ((hw.seated.seats a p hp).inUse hn) (Or.inr waits)
  obtain ⟨b, p', d', hp', awaits', actor⟩ := (hw.seated.happen hw.exclusive (.step a)).awaits waits
  obtain rfl : b = a := Option.some.inj (actor.symm.trans (own.trans (hw.seated.actor_node hp hn)))
  have next := (Next.position_of_actor (activity_step running)).symm.trans hp'
  rw [stride_eq] at next
  split at next
  · rename_i spent
    cases p <;> simp_all [World.quits, Position.readsClock]
  have course : Course (w.looked b p) b p _ := course_advance p
  generalize (w.looked b p).advance b p = r at course next
  cases course with
  | fail | refuse => simp [Next.position] at next
  | timeOut | cancel =>
    obtain rfl := Option.some.inj next
    simp [Position.awaits, World.reclaim] at awaits'
  | sleep _ _ early =>
    refine early ?_
    simp only [World.quits, Bool.and_eq_true, Option.any_eq_true, decide_eq_true_eq] at quits
    rw [now_looked]
    exact quits.2
  | letGo granted => simp [World.quits, grants, granted] at quits
  | look calm => simp_all [World.quits]
  | putOff _ uninterruptible => simp [World.quits, uninterruptible] at quits
  | @conclude site | @grant site =>
    cases site with
    | letGo => simp_all
    | _ => simp [Position.awaits] at awaits
  | _ => simp [World.quits] at quits

theorem queue_posted (inTable : s < w.syncs.size) (q : WaitQueue) (x : Condition) (woken : List ActorId) :
    (((w.setQueue s q).setCondition c x).wakeAll woken).queue s = q :=
  (queue_congr (syncs_wakeAll _ _)).trans (queue_setQueue_self inTable q)

/-- A granted errand moves the nodes that it signals and no others. -/
theorem Strung.moves_errand (h : Strung s w ns) (hw : InOrder s w) {v : Verdict} {d : ConditionId}
    {errand : Errand} (granted : v.isGrant = true)
    (running : (w.actor a).activity = .busy .running (.call (.errand s d errand) (.answered (.ok v)))) :
    Moves (w.queue s) ((w.happen (.step a)).queue s)
      (errand.signalled ((w.condition d).unsignalled (w.queue s))) := by
  have mine := hw.tasked.owner running rfl
  obtain ⟨k, body, hq⟩ := hw.seated.shaped
  have queue : (w.happen (.step a)).queue s = (w.runErrand s d errand).1.queue s := by
    rw [World.happen, step_eq running]
    simp only [stride, Position.readsClock, advance, callHook, resolve, granted, resolveGrant, if_true,
      Bool.false_eq_true, if_false]
    rfl
  rw [queue]
  cases errand with
  | signal =>
    have posted : (w.runErrand s d .signal).1.queue s = ((w.condition d).signal (w.queue s)).2.1 :=
      queue_posted hw.seated.inTable _ _ _
    rw [posted]
    exact (h.strings mine).1.moves_signal hq
  | signalAll =>
    have posted : (w.runErrand s d .signalAll).1.queue s = ((w.condition d).signalAll (w.queue s)).2.1 :=
      queue_posted hw.seated.inTable _ _ _
    rw [posted]
    exact ((h.strings mine).1.signalAll hq).1
  | _ => exact Moves.of_alike (Alike.refl _) hq

theorem Strung.apart_errand (h : Strung s w ns) {d : ConditionId} (mine : (w.condition d).owner = s)
    (ne : c ≠ d) (hn : n ∈ ns c) (errand : Errand) :
    n ∉ errand.signalled ((w.condition d).unsignalled (w.queue s)) := by
  intro moved
  have chained := (List.mem_filter.1 (errand.signalled_subset _ moved)).1
  exact ne (h.noted.apart c d n hn ((h.strings mine).2 chained))

/-- The chain of the condition lists those who wait on it. -/
structure Listed (s : SyncId) (c : ConditionId) (w : World) (ns : ConditionId → List NodeId)
    (as : List ActorId) : Prop where
  strung : Strung s w ns
  mine : (w.condition c).owner = s
  inTable : c < w.conditions.size
  entered : ∀ a p d n, (w.actor a).position = some p → p.awaits s = some (d, n) → n ∈ ns d
  names : ((w.condition c).unsignalled (w.queue s)).map (fun n => ((w.queue s).node n).actor) = as.map some

namespace Listed

theorem unsignalled_eq (h : Listed s c w ns as) : (w.condition c).unsignalled (w.queue s) =
    (ns c).filter fun n => ((w.queue s).node n).status = .condition :=
  (h.strung.keeps c h.inTable h.mine).unsignalled_eq (h.strung.noted.order c)

theorem mem_unsignalled (h : Listed s c w ns as) : n ∈ (w.condition c).unsignalled (w.queue s) ↔
    n ∈ ns c ∧ ((w.queue s).node n).status = .condition := by
  rw [h.unsignalled_eq, List.mem_filter, decide_eq_true_eq]

/-- Everyone in the chain who still waits is an actor that waits on this condition. -/
theorem owner (h : Listed s c w ns as) (seated : Seated s w)
    (hn : n ∈ (w.condition c).unsignalled (w.queue s)) :
    ∃ a p, (w.actor a).position = some p ∧ p.awaits s = some (c, n) ∧
      ((w.queue s).node n).actor = some a := by
  obtain ⟨noted, waits⟩ := h.mem_unsignalled.1 hn
  obtain ⟨a, p, d, hp, awaits, actor⟩ := seated.awaits waits
  obtain rfl : d = c := h.strung.noted.apart d c n (h.entered a p d n hp awaits) noted
  exact ⟨a, p, hp, awaits, actor⟩

theorem kept_names (h : Listed s c w ns as) (hw : InOrder s w) (e : Event) :
    ((ns c).filter fun n => (((w.happen e).queue s).node n).status = .condition).map
        (fun n => (((w.happen e).queue s).node n).actor) =
      (((w.condition c).unsignalled (w.queue s)).filter fun n =>
        (((w.happen e).queue s).node n).status = .condition).map fun n => ((w.queue s).node n).actor := by
  have waited : ∀ n ∈ ns c, (((w.happen e).queue s).node n).status = .condition →
      ((w.queue s).node n).status = .condition := fun n hn waits =>
    ((hw.shifted e).waits n waits).resolve_right (Nat.not_le.2 (h.strung.noted.inTable c n hn))
  rw [h.unsignalled_eq, List.filter_filter]
  rw [show (ns c).filter (fun n => (((w.happen e).queue s).node n).status = .condition) = _ from
    List.filter_congr (q := fun n => decide ((((w.happen e).queue s).node n).status = .condition) &&
      decide (((w.queue s).node n).status = .condition)) fun n hn => ?_]
  · refine List.map_congr_left fun n hn => ?_
    obtain ⟨hn, both⟩ := List.mem_filter.1 hn
    simp only [Bool.and_eq_true, decide_eq_true_eq] at both
    exact hw.actor_happen (Or.inr both.2) (Or.inr both.1)
  · by_cases waits : (((w.happen e).queue s).node n).status = .condition
    · simp [waits, waited n hn waits]
    · simp [waits]

/-- An errand on the condition leaves those behind whom it does not signal. -/
theorem filter_errand (h : Listed s c w ns as) (hw : InOrder s w) {errand : Errand}
    (running : (w.actor a).activity = .busy .running p) (does : p.errand s c = some errand) :
    ((w.condition c).unsignalled (w.queue s)).filter (fun n =>
        (((w.happen (.step a)).queue s).node n).status = .condition) =
      errand.leaves ((w.condition c).unsignalled (w.queue s)) := by
  obtain ⟨v, rfl, granted⟩ := Position.errand_eq does
  have moves := h.strung.moves_errand hw granted running
  have nodup : ((w.condition c).unsignalled (w.queue s)).Nodup := by
    rw [h.unsignalled_eq]
    exact ((h.strung.noted.order c).imp Nat.ne_of_lt).filter _
  rw [errand.leaves_eq nodup]
  refine List.filter_congr fun n hn => decide_eq_decide.2 ⟨moves.notMem, fun out => ?_⟩
  exact (moves.waits_iff out).2 (h.mem_unsignalled.1 hn).2

/-- Whoever does anything else leaves everyone waiting but itself. -/
theorem filter_other (h : Listed s c w ns as) (hw : InOrder s w)
    (running : (w.actor a).activity = .busy .running p) (other : p.errand s c = none) :
    ((w.condition c).unsignalled (w.queue s)).filter (fun n =>
        (((w.happen (.step a)).queue s).node n).status = .condition) =
      ((w.condition c).unsignalled (w.queue s)).filter fun n =>
        ¬(w.quits a p = true ∧ ((w.queue s).node n).actor = some a) := by
  refine List.filter_congr fun n hn => decide_eq_decide.2 ?_
  obtain ⟨noted, waits⟩ := h.mem_unsignalled.1 hn
  obtain ⟨b, p', hp', awaits, actor⟩ := h.owner hw.seated hn
  have hp := Actor.position_of_busy running
  by_cases mine : b = a
  · subst mine
    obtain rfl := Option.some.inj (hp.symm.trans hp')
    cases quits : w.quits b p with
    | true => simpa [actor] using hw.left_of_own running awaits quits
    | false => simpa using hw.waits_of_own running awaits quits waits
  · have theirs : ¬(w.quits a p = true ∧ ((w.queue s).node n).actor = some a) := fun quits =>
      mine (Option.some.inj (actor.symm.trans quits.2))
    refine iff_of_true ?_ theirs
    by_cases signals : p.signals s = true
    · obtain ⟨t, d, errand, v, rfl, rfl, granted⟩ := Position.signals_eq signals
      have ne : c ≠ d := by
        rintro rfl
        simp [Position.errand, grants, granted] at other
      have out := h.strung.apart_errand (hw.tasked.owner running rfl) ne noted errand
      exact ((h.strung.moves_errand hw granted running).waits_iff out).2 waits
    · refine hw.waits_of_other running (by simpa using signals) (fun own => mine ?_) waits
      exact Option.some.inj (actor.symm.trans (hw.seated.actor_node hp own))

theorem names_staying (h : Listed s c w ns as) (hw : InOrder s w)
    (running : (w.actor a).activity = .busy .running p) :
    (((w.condition c).unsignalled (w.queue s)).filter fun n =>
        (((w.happen (.step a)).queue s).node n).status = .condition).map
          (fun n => ((w.queue s).node n).actor) = (w.staying s c a p as).map some := by
  unfold staying
  split
  · rename_i errand does
    rw [h.filter_errand hw running does, errand.map_leaves, h.names, errand.map_leaves]
  · rename_i other
    rw [h.filter_other hw running other]
    split
    · rename_i quits
      have named := congrArg (List.filter fun x => x ≠ some a) h.names
      rw [List.filter_map, List.filter_map] at named
      refine Eq.trans ?_ (named.trans ?_)
      · simp [quits, Function.comp_def]
      · simp [Function.comp_def]
    · rename_i stays
      simp [stays, h.names]

/-- Whoever comes onto the condition is listed last. -/
theorem names_begun (h : Listed s c w ns as) (hw : InOrder s w)
    (running : (w.actor a).activity = .busy .running p) (begins : p.begins s = some c) :
    ∃ n, w.begun s c (.step a) = some n ∧ (((w.happen (.step a)).queue s).node n).status = .condition ∧
      (((w.happen (.step a)).queue s).node n).actor = some a := by
  obtain ⟨t, v, rfl, here, rfl, granted⟩ := Position.begins_eq begins
  obtain ⟨queue, -, begun⟩ := step_enters hw.seated.inTable running here granted
  obtain ⟨q₁, before, -, after⟩ := (w.condition t.condition).join_spec (w.queue s) a
  have created := q₁.node_create .exclusive .condition a
  rw [before.size] at created
  refine ⟨_, (begun t.condition).trans (if_pos rfl), ?_, ?_⟩
  · rw [queue, after.status, created]
  · rw [queue, after.actor, created]

theorem happen (h : Listed s c w ns as) (hw : InOrder s w) (e : Event) :
    Listed s c (w.happen e) (fun d => ns d ++ (w.begun s d e).toList) (noteWaiters s c w e as) := by
  have strung := h.strung.happen hw e
  have mine := (hw.tasked.owner_happen hw.seated.inTable e c).trans h.mine
  have inTable : c < (w.happen e).conditions.size :=
    (hw.tasked.size_happen hw.seated.inTable e).symm ▸ h.inTable
  constructor
  case strung => exact strung
  case mine => exact mine
  case inTable => exact inTable
  case entered =>
    intro a p' d n hp' awaits
    rcases w.position_cases a hp' with ⟨hp, -⟩ | ⟨op, -, -, rfl⟩ | ⟨p, rfl, running, course, next⟩
    · exact List.mem_append_left _ (h.entered a p' d n hp awaits)
    · simp [Position.awaits] at awaits
    · rcases course.awaits next awaits with same | begins
      · exact List.mem_append_left _ (h.entered a p d n (Actor.position_of_busy running) same)
      · have begun : w.begun s d (.step a) = some n := by
          simp only [World.begun, running, begins, if_true, hp', Option.bind_some]
          exact Position.node_of_awaits awaits
        simp [begun]
  case names =>
    rw [(strung.keeps c inTable mine).unsignalled_eq (strung.noted.order c), List.filter_append,
      List.map_append, h.kept_names hw e]
    by_cases steps : ∃ a p, e = .step a ∧ (w.actor a).activity = .busy .running p
    · obtain ⟨a, p, rfl, running⟩ := steps
      rw [h.names_staying hw running]
      simp only [noteWaiters, running, List.map_append]
      congr 1
      split
      · rename_i begins
        obtain ⟨n, begun, waits, actor⟩ := h.names_begun hw running begins
        simp [begun, waits, actor]
      · rename_i other
        simp [World.begun, running, other]
    · have still := fun a p he running => steps ⟨a, p, he, running⟩
      have queue := ((w.unsteps_cases e).resolve_left steps).1 s
      rw [begun_eq_none fun a p he running => absurd running (still a p he), noteWaiters_of_still still,
        queue, List.filter_eq_self.2 fun n hn => decide_eq_true (h.mem_unsignalled.1 hn).2, h.names]
      exact List.append_nil _

theorem create {actors tokens : Nat} {syncs : List Synchronizer} {conditions : List SyncId}
    (hc : conditions[c]? = some s) :
    Listed s c (World.create actors tokens syncs conditions) (fun _ => []) [] := by
  obtain ⟨lt, -⟩ := List.getElem?_eq_some_iff.1 hc
  have fresh : (World.create actors tokens syncs conditions).condition c = { owner := s } := by
    rw [conditions_create, hc]
    rfl
  constructor
  case strung => exact .create
  case mine => rw [fresh]
  case inTable => simpa [World.create] using lt
  case entered => exact fun a p _ _ hp => absurd hp (position_create _ _ _ _ a p)
  case names =>
    rw [fresh, Condition.unsignalled, Condition.waiters_of_first_none _ rfl]
    rfl

theorem nodup (h : Listed s c w ns as) (seated : Seated s w) : as.Nodup := by
  have distinct : ((w.condition c).unsignalled (w.queue s)).Nodup := by
    rw [h.unsignalled_eq]
    exact ((h.strung.noted.order c).imp Nat.ne_of_lt).filter _
  refine List.Nodup.of_map some (h.names ▸ distinct.map_on fun m hm n hn same => ?_)
  obtain ⟨a, p, hp, awaits, actor⟩ := h.owner seated hm
  obtain ⟨b, p', hp', awaits', actor'⟩ := h.owner seated hn
  obtain rfl : a = b := Option.some.inj (actor.symm.trans (same.trans actor'))
  obtain rfl := Option.some.inj (hp.symm.trans hp')
  exact congrArg Prod.snd (Option.some.inj (awaits.symm.trans awaits'))

/-- An actor that waits on the condition is listed as long as its node waits in the chain. -/
theorem mem_iff (h : Listed s c w ns as) (seated : Seated s w) (hp : (w.actor a).position = some p)
    (awaits : p.awaits s = some (c, n)) : a ∈ as ↔ ((w.queue s).node n).status = .condition := by
  have own := seated.actor_node hp (Position.node_of_awaits awaits)
  have listed : a ∈ as ↔ some a ∈ as.map some := by simp
  rw [listed, ← h.names, List.mem_map]
  constructor
  · rintro ⟨m, hm, actor⟩
    obtain ⟨b, p', hp', awaits', actor'⟩ := h.owner seated hm
    obtain rfl : b = a := Option.some.inj (actor'.symm.trans actor)
    obtain rfl := Option.some.inj (hp.symm.trans hp')
    obtain ⟨-, rfl⟩ := Prod.mk.inj (Option.some.inj (awaits.symm.trans awaits'))
    exact (h.mem_unsignalled.1 hm).2
  · exact fun waits => ⟨n, h.mem_unsignalled.2 ⟨h.entered a p c n hp awaits, waits⟩, own⟩

/-- The holder is told of those who are listed. -/
theorem reports (h : Listed s c w ns as) {errand : Errand} (running : (w.actor a).activity = .busy .running p)
    (does : p.errand s c = some errand) : (w.step a).2 = some (errand.report as) := by
  obtain ⟨v, rfl, granted⟩ := Position.errand_eq does
  have value : (w.step a).2 = some (w.runErrand s c errand).2 := by
    rw [step_value running]
    simp only [stride, Position.readsClock, advance, callHook, resolve, granted, resolveGrant, if_true,
      Bool.false_eq_true, if_false]
    rfl
  have length : ((w.condition c).unsignalled (w.queue s)).length = as.length := by
    simpa using congrArg List.length h.names
  have actors : (w.condition c).actors (w.queue s) = as := by
    have named := congrArg (List.filterMap id) h.names
    rw [List.filterMap_map, List.filterMap_map] at named
    exact named.trans (List.filterMap_some)
  rw [value]
  cases errand with
  | signal | signalAll => rfl
  | hasWaiters =>
    have empty : ((w.condition c).unsignalled (w.queue s)).isEmpty = as.isEmpty := by
      rw [Bool.eq_iff_iff, List.isEmpty_iff, List.isEmpty_iff, ← List.length_eq_zero_iff, length,
        List.length_eq_zero_iff]
    rw [runErrand, empty]
    rfl
  | countWaiters =>
    rw [runErrand, length]
    rfl
  | listWaiters =>
    rw [runErrand, actors]
    rfl

end Listed

/-- In every state of a run the chain of a condition lists those who wait on it, in the order in which the
waits began, and what the holder is told of the waiters is told of them. -/
theorem waiters_listed {actors tokens : Nat} {syncs : List Synchronizer} {conditions : List SyncId}
    {x : Synchronizer} (hx : syncs[s]? = some x) (empty : x.queue = .empty) (hc : conditions[c]? = some s)
    {events : List Event} (orderly : Orderly s (World.create actors tokens syncs conditions) events) :
    let start := World.create actors tokens syncs conditions
    let w := start.after events
    let chain := (w.condition c).waiters (w.queue s)
    let waiting := waitersSince s c start events
    (Leads (fun n => ((w.queue s).node n).follower) chain none ∧ chain.Nodup ∧
      (w.condition c).first = chain.head? ∧ (w.condition c).last = chain.getLast?) ∧
    (chain.filter fun n => ((w.queue s).node n).status = .condition).map
      (fun n => ((w.queue s).node n).actor) = waiting.map some ∧ waiting.Nodup ∧
    (∀ a ∈ waiting, ∃ p n, (w.actor a).position = some p ∧ p.awaits s = some (c, n)) ∧
    (∀ a p n, (w.actor a).position = some p → p.awaits s = some (c, n) →
      (a ∈ waiting ↔ n ∈ chain ∧ ((w.queue s).node n).status = .condition)) ∧
    ∀ a p errand, (w.actor a).activity = .busy .running p → p.errand s c = some errand →
      (w.step a).2 = some (errand.report waiting) := by
  intro start w chain waiting
  have hw : InOrder s w := .after hx empty orderly
  obtain ⟨ns, h⟩ : ∃ ns, Listed s c w ns waiting :=
    InOrder.collect (noteWaiters s c) (fun w as => ∃ ns, Listed s c w ns as) [] hx empty ⟨_, .create hc⟩
      (fun w e as hw ⟨ns, h⟩ => ⟨_, h.happen hw e⟩) orderly
  have strings := (h.strung.strings h.mine).1
  refine ⟨⟨strings.links, strings.nodup, strings.first, strings.last⟩, h.names, h.nodup hw.seated,
    fun a ha => ?_, fun a p n hp awaits => ?_, fun a p errand running does => h.reports running does⟩
  · have named : some a ∈ waiting.map some := by simpa using ha
    rw [← h.names] at named
    obtain ⟨n, hn, actor⟩ := List.mem_map.1 named
    obtain ⟨b, p, hp, awaits, actor'⟩ := h.owner hw.seated hn
    obtain rfl : b = a := Option.some.inj (actor'.symm.trans actor)
    exact ⟨p, n, hp, awaits⟩
  · rw [h.mem_iff hw.seated hp awaits]
    refine ⟨fun waits => ⟨?_, waits⟩, And.right⟩
    exact (List.mem_filter.1 (h.mem_unsignalled.2 ⟨h.entered a p c n hp awaits, waits⟩)).1

set_option maxRecDepth 8000 in
/-- Of three that wait for a signal the first is cancelled. Its node is still in the chain when the holder
asks who waits, but only the others are told. -/
theorem waiters_listed_cancelled :
    let start := World.create 4 1 [{ policy := .mutex, state := 0 }] [0]
    let events : List Event :=
      .begin 0 (.acquire 0 .exclusive 1 .plain) :: List.replicate 5 (Event.step 0) ++
      .begin 0 (.wait 0 0 (.interruptible (some 0))) :: List.replicate 14 (Event.step 0) ++
      .begin 1 (.acquire 0 .exclusive 1 .plain) :: List.replicate 5 (Event.step 1) ++
      .begin 1 (.wait 0 0 (.interruptible none)) :: List.replicate 14 (Event.step 1) ++
      .begin 2 (.acquire 0 .exclusive 1 .plain) :: List.replicate 5 (Event.step 2) ++
      .begin 2 (.wait 0 0 (.interruptible none)) :: List.replicate 14 (Event.step 2) ++
      .begin 3 (.acquire 0 .exclusive 1 .plain) :: List.replicate 5 (Event.step 3) ++
      .cancel 0 :: .resume 0 :: .step 0 ::
      .begin 3 (.errand 0 0 .listWaiters) :: List.replicate 4 (Event.step 3)
    let w := start.after events
    waitersSince 0 0 start events = [1, 2] ∧ (w.condition 0).waiters (w.queue 0) = [1, 2, 3] ∧
      (w.step 3).2 = some (.actors [1, 2]) := by
  intro start events w
  have orderly : Orderly 0 start events :=
    Or.inr ⟨_, (Locking.create rfl (Or.inl rfl) rfl rfl rfl).honest (by decide +kernel)⟩
  have waiting : waitersSince 0 0 start events = [1, 2] := by decide +kernel
  have chain : (w.condition 0).waiters (w.queue 0) = [1, 2, 3] := by decide +kernel
  have told : (w.step 3).2 = some (Errand.listWaiters.report (waitersSince 0 0 start events)) :=
    (waiters_listed rfl rfl rfl orderly).2.2.2.2.2 3 _ .listWaiters rfl rfl
  exact ⟨waiting, chain, by rw [told, waiting]; rfl⟩

end

end World

end Turnstile
