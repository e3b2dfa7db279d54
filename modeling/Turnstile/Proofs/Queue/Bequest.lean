import Turnstile.Proofs.Queue.Touch

/-! What a node that gives up leaves to those around it, wherever in the queue it stood. -/
namespace Turnstile.WaitQueue

variable {q q' : WaitQueue} {r : WaitQueue × Option ActorId × Except Fault Unit}
  {h n p s : NodeId} {body : List NodeId}

namespace Shaped

theorem next_tail (hq : Shaped q h body) (last : q.tail = some p) : (q.node p).next = none := by
  rcases hq.ends with ⟨-, ht⟩ | ⟨-, ht, -⟩
  · obtain rfl : body.head?.getD h = p := Option.some.inj (ht.symm.trans last)
    cases body with
    | nil => exact hq.next_front_none.2 rfl
    | cons l rest =>
      rw [← List.nil_append (l :: rest)] at hq
      simpa using hq.next_eq (hq.tail_live l rfl)
  · simp [ht] at last

theorem tail_eq_getLast? (hq : Shaped q h body) (opened : q.head.isSome) :
    q.tail = q.column.getLast? := by
  rcases hq.ends with ⟨hh, ht⟩ | ⟨hh, -⟩
  · rw [ht, column, hh, Option.toList_some, List.singleton_append, hq.getLast?_column]
  · simp [hh] at opened

end Shaped

namespace Withdrawn

theorem column (hw : Withdrawn q r n) (hq : Shaped q h body) (hn : n ∈ q.live) :
    r.1.column = q.column.erase n := by
  have apart : n ∉ q.head.toList := by
    simpa [Option.mem_toList] using hq.ne_head hn
  rw [WaitQueue.column, WaitQueue.column, hw.head, hw.live, List.erase_append_right _ apart]

/-- Those around the node come together. -/
theorem next_front (hw : Withdrawn q r n) (hq : Shaped q h body) (before : Follows q.column p n)
    (behind : Follows q.column n s) (front : q.head ≠ some p) : (r.1.node p).next = some s := by
  have hn := hq.mem_live_of_follows before
  obtain ⟨k, body', shaped⟩ := hw.shaped
  have together : Follows r.1.column p s := by
    rw [hw.column hq hn]
    exact before.erase hq.nodup_column behind
  refine shaped.next_of_follows together fun e => front ?_
  rw [← hw.head, e]
  exact shaped.head_eq_of_mem (shaped.mem_live.1 (shaped.mem_live_of_follows together)).1

theorem tail_last (hw : Withdrawn q r n) (hq : Shaped q h body) (before : Follows q.column p n)
    (last : q.live.getLast? = some n) : r.1.tail = some p := by
  have hn := hq.mem_live_of_follows before
  obtain ⟨k, body', shaped⟩ := hw.shaped
  have opened : r.1.head.isSome := by
    rw [hw.head, hq.head_eq_of_mem (hq.mem_live.1 hn).1]
    rfl
  rw [shaped.tail_eq_getLast? opened, hw.column hq hn]
  refine before.getLast?_erase hq.nodup_column ?_
  rw [WaitQueue.column, List.getLast?_append, last, Option.some_or]

end Withdrawn

/-- The node is out of the queue, and the nearest one before it is to those behind it what the node was: it
will signal the next of them, which is awake if that one is the head. -/
structure Bequeathed (q : WaitQueue) (r : WaitQueue × Option ActorId × Except Fault Unit)
    (n p : NodeId) : Prop where
  done : r.2.2 = .ok ()
  gone : (r.1.node n).status = .cancelled
  nobody : (r.1.node n).actor = none
  live : r.1.live = q.live.erase n
  nearest : q.nearest n = some p
  behind : ∀ s, Follows q.live n s →
    (r.1.head ≠ some p ∧ (r.1.node p).status = .signal ∧ (r.1.node p).next = some s) ∨
      ∃ a, (q.node s).actor = some a ∧ r.2.1 = some a
  last : q.live.getLast? = some n → r.1.tail = some p ∧ (r.1.node p).next = none

theorem Shaped.bequeathed (hq : Shaped q h body) (hn : n ∈ q.live) :
    ∃ p, Bequeathed q (q.withdraw n) n p := by
  have hw := hq.withdrawn hn
  obtain ⟨p, near, before⟩ := hq.nearest_of_mem hn
  refine ⟨p, hw.done, hw.status_self, hw.actor_self, hw.live, near, fun s hs => ?_, fun last => ?_⟩
  · have behind : Follows q.column n s := hq.follows_column.2 hs.cons
    obtain ⟨p', before', care⟩ := hw.guarded s behind
    obtain rfl := before.left_unique hq.nodup_column before'
    rcases care with ⟨-, woken⟩ | ⟨front, signal⟩
    · obtain ⟨a, ha⟩ := hq.actor_of_mem (hq.mem_live_of_follows behind)
      exact Or.inr ⟨a, ha, woken.trans ha⟩
    · exact Or.inl ⟨hw.head ▸ front, signal, hw.next_front hq before behind front⟩
  · obtain ⟨k, body', shaped⟩ := hw.shaped
    have tail := hw.tail_last hq before last
    exact ⟨tail, shaped.next_tail tail⟩

/-- Whoever gives up leaves the queue for good and in good order: those who wait behind it are cared
for, and giving up again at any later time does nothing. -/
theorem withdrawn_for_good (earlier : Later .empty q) (hn : n ∈ q.live) :
    (∃ p, Bequeathed q (q.withdraw n) n p) ∧
      ∀ q', Later (q.withdraw n).1 q' → q'.withdraw n = (q', none, .ok ()) := by
  obtain ⟨h, body, shaped⟩ := earlier.shaped ⟨_, _, Shaped.shaped_empty⟩
  refine ⟨shaped.bequeathed hn, fun q' later => ?_⟩
  have hw := shaped.withdrawn hn
  exact withdraw_cancelled (later.cancelled hw.shaped hw.status_self)

/-- Of four who came, the second and then the third have given up. -/
theorem withdrawn_for_good_middle :
    let joined := (((WaitQueue.empty.join .exclusive 3).1.join .shared 5).1.join .shared 7).1
    let q := ((joined.join .exclusive 8).1.withdraw 2).1
    (3 ∈ q.live ∧ ∃ p, Bequeathed q (q.withdraw 3) 3 p) ∧
      ∀ q', Later (q.withdraw 3).1 q' → q'.withdraw 3 = (q', none, .ok ()) := by
  intro joined q
  have earlier : Later .empty (joined.join .exclusive 8).1 :=
    (((Later.join .refl .exclusive 3).join .shared 5).join .shared 7).join .exclusive 8
  have hn : 3 ∈ q.live := by decide
  obtain ⟨left, again⟩ := withdrawn_for_good (earlier.tail (.withdraw (by decide))) hn
  exact ⟨⟨hn, left⟩, again⟩

end Turnstile.WaitQueue
