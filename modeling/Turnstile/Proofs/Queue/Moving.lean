import Turnstile.Proofs.Queue.Effects

/-! Nodes that are moved to the end of the queue because of a signal: they come in one behind the other, and
each stands behind one that has been asked for a signal. -/
namespace Turnstile.WaitQueue

/-- The head, or the placeholder that will be the head once somebody queues. -/
def front (q : WaitQueue) : NodeId := q.head.getD placeholder

/-- These nodes, which waited on a condition, have been moved to the end of the queue in this order, and
nothing else has changed but that signals have been asked for. -/
structure Moves (q q' : WaitQueue) (ns : List NodeId) : Prop where
  shaped : ∃ h body, Shaped q' h body
  live : q'.live = q.live ++ ns
  head : q'.head = if ns = [] then q.head else some q.front
  size : q'.nodes.size = q.nodes.size
  actor : ∀ m, (q'.node m).actor = (q.node m).actor
  mode : ∀ m, (q'.node m).mode = (q.node m).mode
  waited : ∀ n ∈ ns, (q.node n).status = .condition
  prev : ∀ m, m ∉ ns → (q'.node m).prev = (q.node m).prev
  status : ∀ m, m ∉ ns → (q'.node m).status = (q.node m).status ∨
    ((q'.node m).status = .signal ∧ (q.node m).status ≠ .condition)
  asked : ∀ n ∈ ns, (q'.node n).status ≠ .condition ∧
    ∃ p, (q'.node n).prev = some p ∧ (q'.node p).status = .signal

section

variable {q q' q'' : WaitQueue} {h n : NodeId} {body xs ys : List NodeId}

theorem Shaped.front_eq (hq : Shaped q h body) : q.front = h := by
  rcases hq.ends with ⟨hh, -⟩ | ⟨hh, -, -, rfl⟩
  · simp [front, hh]
  · simp [front, hh]

/-- Whoever queues first finds the placeholder put up. -/
theorem Shaped.head_enqueue (hq : Shaped q h body) (n : NodeId) : (q.enqueue n).1.head = some q.front := by
  rw [hq.enqueue_eq n, head_between, hq.front_eq]

theorem Shaped.head_join (hq : Shaped q h body) (mode : Mode) (a : ActorId) :
    (q.join mode a).1.head = some q.front :=
  (hq.create mode .initial a).head_enqueue _

theorem Shaped.head_release (hq : Shaped q h body) (waits : (q.node n).status = .condition) :
    ((q.setStatus n .initial).enqueue n).1.head = some q.front :=
  (hq.released waits).1.head_enqueue n

namespace Moves

theorem of_alike (ha : Alike q q') (hq : Shaped q h body) : Moves q q' [] where
  shaped := ⟨h, body, ha.shaped hq⟩
  live := by rw [ha.live hq, List.append_nil]
  head := ha.head
  size := ha.size
  actor := ha.actor
  mode := ha.mode
  waited := by simp
  prev m _ := ha.prev m
  status m _ := Or.inl (ha.status m)
  asked := by simp

theorem notMem (hm : Moves q q' xs) {m : NodeId} (waits : (q'.node m).status = .condition) : m ∉ xs :=
  fun mem => (hm.asked m mem).1 waits

theorem waits_iff (hm : Moves q q' xs) {m : NodeId} (out : m ∉ xs) :
    (q'.node m).status = .condition ↔ (q.node m).status = .condition := by
  rcases hm.status m out with same | ⟨signal, settled⟩
  · rw [same]
  · simp [signal, settled]

theorem trans (hm : Moves q q' xs) (hm' : Moves q' q'' ys) : Moves q q'' (xs ++ ys) := by
  have later : ∀ n ∈ ys, n ∉ xs := fun n hn => hm.notMem (hm'.waited n hn)
  have earlier : ∀ n ∈ xs, n ∉ ys := fun n hn hn' => later n hn' hn
  constructor
  case shaped => exact hm'.shaped
  case live => rw [hm'.live, hm.live, List.append_assoc]
  case head =>
    rw [hm'.head, front, hm.head]
    by_cases hx : xs = []
    · simp [hx, front]
    · simp [hx]
  case size => rw [hm'.size, hm.size]
  case actor => exact fun m => (hm'.actor m).trans (hm.actor m)
  case mode => exact fun m => (hm'.mode m).trans (hm.mode m)
  case waited =>
    intro n hn
    rcases List.mem_append.1 hn with hn | hn
    · exact hm.waited n hn
    · exact (hm.waits_iff (later n hn)).1 (hm'.waited n hn)
  case prev =>
    intro m out
    rw [List.mem_append, not_or] at out
    rw [hm'.prev m out.2, hm.prev m out.1]
  case status =>
    intro m out
    rw [List.mem_append, not_or] at out
    rcases hm'.status m out.2 with same | ⟨signal, settled⟩
    · rw [same]
      exact hm.status m out.1
    · exact Or.inr ⟨signal, fun waits => settled ((hm.waits_iff out.1).2 waits)⟩
  case asked =>
    intro n hn
    rcases List.mem_append.1 hn with hn | hn
    · obtain ⟨moved, p, hp, signal⟩ := hm.asked n hn
      have out : p ∉ ys := fun mem => by simp [hm'.waited p mem] at signal
      refine ⟨fun waits => moved ((hm'.waits_iff (earlier n hn)).1 waits), p, ?_, ?_⟩
      · rw [hm'.prev n (earlier n hn), hp]
      · rcases hm'.status p out with same | ⟨now, -⟩
        · rw [same, signal]
        · exact now
    · exact hm'.asked n hn

theorem after_alike (hm : Moves q' q'' xs) (ha : Alike q q') (hq : Shaped q h body) : Moves q q'' xs :=
  (of_alike ha hq).trans hm

end Moves

theorem Shaped.moves_transferSignalled (hq : Shaped q h body) (waits : (q.node n).status = .condition) :
    Moves q (q.transferSignalled n).1 [n] := by
  obtain ⟨hq', fresh⟩ := hq.released waits
  obtain ⟨-, joined, actor, mode, -⟩ := hq.joined_transferSignalled waits
  have hf := (hq'.follows_enqueue fresh).2 (Or.inr ⟨rfl, rfl⟩)
  obtain ⟨k, b, shaped⟩ := (hq.joined_release waits).1.shaped
  obtain ⟨hp, alive⟩ := shaped.mem_of_follows hf
  have eq : (q.transferSignalled n).1 = ((q.setStatus n .initial).enqueue n).1.setStatus
      ((q.setStatus n .initial).enqueue n).2 .signal := by
    simp [transferSignalled, waits, alive]
  have prev : ((q.transferSignalled n).1.node n).prev = some ((q.setStatus n .initial).enqueue n).2 := by
    rw [eq, prev_setStatus, hq'.enqueue_eq n]
    simp [prev_setPrev_self _ fresh.inTable]
  have signal : ((q.transferSignalled n).1.node ((q.setStatus n .initial).enqueue n).2).status = .signal := by
    rw [eq]
    exact status_setStatus_self .signal (shaped.inTable _ hp)
  constructor
  case shaped => exact joined.shaped
  case live => exact joined.live
  case head =>
    rw [eq, head_setStatus, hq.head_release waits]
    rfl
  case size => rw [eq, size_setStatus, hq'.enqueue_eq n]; simp
  case actor =>
    intro m
    by_cases e : m = n
    · rw [e, actor]
    · exact joined.spares.actor m e
  case mode =>
    intro m
    by_cases e : m = n
    · rw [e, mode]
    · exact joined.spares.mode m e
  case waited => simpa using waits
  case prev =>
    intro m out
    exact joined.spares.prev m (by simpa using out)
  case status =>
    intro m out
    have ne : m ≠ n := by simpa using out
    refine (joined.status m ne).imp_right fun asked => ⟨asked.1, fun before => ?_⟩
    have after := (joined.spares.waits m ne).2 before
    simp [asked.1] at after
  case asked =>
    intro m hm
    obtain rfl : m = n := by simpa using hm
    refine ⟨fun after => ?_, _, prev, signal⟩
    obtain ⟨k', b', shaped'⟩ := joined.shaped
    exact shaped'.joined m (List.mem_cons_of_mem _ (shaped'.mem_live.1 joined.mem_live).1) after

end

end Turnstile.WaitQueue
