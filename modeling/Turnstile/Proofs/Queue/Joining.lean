import Turnstile.Proofs.Queue.Shape

/-! Coming into the queue: a node that joins stands behind all others. -/
namespace Turnstile.WaitQueue

/-- A node that may be put into the queue behind `h` and `body`. -/
structure Fresh (q : WaitQueue) (h : NodeId) (body : List NodeId) (n : NodeId) : Prop where
  notMem : n ∉ h :: body
  inTable : n < q.nodes.size
  live : (q.node n).isLive
  apart : (q.node n).status ≠ .condition
  actor : (q.node n).actor.isSome
  next : (q.node n).next = none

namespace Shaped

variable {q : WaitQueue} {h n : NodeId} {body : List NodeId}

theorem create (hq : Shaped q h body) (mode : Mode) (status : Status) (a : ActorId) :
    Shaped (q.create mode status a).1 h body := by
  have same : ∀ m, m < q.nodes.size → (q.create mode status a).1.node m = q.node m := fun m hm =>
    q.node_create_of_ne mode status a (Nat.ne_of_lt hm)
  have old : ∀ m ∈ h :: body, (q.create mode status a).1.node m = q.node m := fun m hm =>
    same m (hq.inTable m hm)
  refine hq.congr rfl rfl (by simp [size_create]) (fun m hm => by rw [old m hm])
    (fun m hm => by rw [old m hm]) (fun m hm => by rw [old m hm]) (fun m hm => by rw [old m hm])
    (fun m hm => ?_) (fun m hm => by rw [old m hm]; exact hq.joined m hm) fun m hm => ?_
  · rw [same m (lt_of_dead hm), hm]
  · by_cases hn : m = q.nodes.size
    · subst hn
      simp [node_create]
    · rw [q.node_create_of_ne mode status a hn] at hm ⊢
      exact hq.apart m hm

theorem enqueue_eq (hq : Shaped q h body) (n : NodeId) :
    q.enqueue n = ((((q.setPrev n (some (body.head?.getD h))).setNext (body.head?.getD h)
      (some n)).between (some h) (some n)), body.head?.getD h) := hq.spine.enqueue_eq n

theorem linked_enqueue (hq : Shaped q h body) (inTable : n < q.nodes.size) :
    Linked q (q.enqueue n).1 (body.head?.getD h) n := by
  rw [hq.enqueue_eq n]
  obtain ⟨size, prev_self, prev, next_self, next, status, actor⟩ :=
    WaitQueue.linked (hq.inTable _ (last_mem h body)) inTable
  exact ⟨size, prev_self, prev, next_self, next, status, actor⟩

theorem filter_enqueue (hq : Shaped q h body) (hn : Fresh q h body n) :
    ((n :: body).filter fun m => ((q.enqueue n).1.node m).isLive) =
      n :: body.filter fun m => (q.node m).isLive := by
  simp [(hq.linked_enqueue hn.inTable).isLive, hn.live]

/-- The hint of the last live node leads to the new one. -/
theorem nexts_enqueue (hq : Shaped q h body) (hn : Fresh q h body n) :
    Leads (fun m => ((q.enqueue n).1.node m).next)
      ((n :: body).filter fun m => ((q.enqueue n).1.node m).isLive).reverse none := by
  have linked := hq.linked_enqueue hn.inTable
  have last : ((q.enqueue n).1.node n).next = none := by
    rw [linked.next n fun e => hn.notMem (e ▸ last_mem h body), hn.next]
  rw [hq.filter_enqueue hn, List.reverse_cons]
  cases body with
  | nil => simpa [Leads] using last
  | cons l rest =>
    have only : ∀ m ∈ rest.filter fun m => (q.node m).isLive, m ≠ l := fun m hm e =>
      (List.nodup_cons.1 hq.body_nodup).1 (e ▸ (List.mem_filter.1 hm).1)
    have nexts := hq.nexts
    rw [List.filter_cons_of_pos (by simpa using hq.tail_live l rfl), List.reverse_cons] at nexts ⊢
    refine leads_append.2 ⟨?_, by simpa [Leads] using last⟩
    exact nexts.relink linked.next_self fun m hm => linked.next m (only m (List.mem_reverse.1 hm))

/-- The front gets a new hint only from whoever comes first. -/
theorem next_front_enqueue (hq : Shaped q h body) (inTable : n < q.nodes.size) :
    (body = [] ∧ ((q.enqueue n).1.node h).next = some n) ∨
      (body ≠ [] ∧ ((q.enqueue n).1.node h).next = (q.node h).next) := by
  have linked := hq.linked_enqueue inTable
  cases body with
  | nil => exact Or.inl ⟨rfl, linked.next_self⟩
  | cons l rest => exact Or.inr ⟨by simp, linked.next h fun e => hq.front_notMem (List.mem_cons.2 (Or.inl e))⟩

theorem enqueue (hq : Shaped q h body) (hn : Fresh q h body n) :
    Shaped (q.enqueue n).1 h (n :: body) := by
  have linked := hq.linked_enqueue hn.inTable
  have spine := hq.spine.enqueue hn.notMem hn.inTable hn.apart
  refine spine.shaped (hq.nexts_enqueue hn) ?next_front ?next_front_none ?next_settled ?tail_live
    ?front_actor ?actors ?apart
  case next_front =>
    intro m hm
    rw [hq.filter_enqueue hn, linked.isLive]
    rcases hq.next_front_enqueue hn.inTable with ⟨rfl, new⟩ | ⟨-, old⟩
    · exact Or.inr (by simpa using new.symm.trans hm)
    · refine (hq.next_front m (old ▸ hm)).imp_right fun first => ?_
      rw [List.getLast?_cons, first, Option.getD_some]
  case next_front_none =>
    refine iff_of_false (fun none => ?_) (by simp)
    rcases hq.next_front_enqueue hn.inTable with ⟨-, new⟩ | ⟨some, old⟩
    · simp [new] at none
    · exact some (hq.next_front_none.1 (old ▸ none))
  case next_settled =>
    intro m hm live
    rw [linked.isLive] at live
    rcases hq.next_front_enqueue hn.inTable with ⟨rfl, new⟩ | ⟨some, old⟩
    · rw [new, ← hm]
      rfl
    · rw [getLast?_of_suffix (List.suffix_cons n body) some] at hm
      exact old ▸ hq.next_settled m hm live
  case tail_live => simp [linked.isLive, hn.live]
  case front_actor => rw [linked.actor, hq.front_actor]
  case actors =>
    intro m hm
    rw [linked.actor, linked.isLive]
    rcases List.mem_cons.1 hm with rfl | hm
    · rw [hn.actor, hn.live]
    · exact hq.actors m hm
  case apart =>
    intro m hm
    rw [linked.status] at hm
    have off_last : m ≠ body.head?.getD h := fun e => hq.joined m (e ▸ last_mem h body) hm
    have off_n : m ≠ n := fun e => hn.apart (e ▸ hm)
    rw [linked.actor, linked.prev m off_n, linked.next m off_last]
    exact hq.apart m hm

theorem live_create (hq : Shaped q h body) (mode : Mode) (status : Status) (a : ActorId) :
    (q.create mode status a).1.live = q.live := by
  have old : ∀ m ∈ body, (q.create mode status a).1.node m = q.node m := fun m hm =>
    q.node_create_of_ne mode status a (Nat.ne_of_lt (hq.inTable m (by simp [hm])))
  rw [(hq.create mode status a).live_eq, hq.live_eq]
  exact congrArg _ (List.filter_congr fun m hm => by rw [old m hm])

theorem live_enqueue (hq : Shaped q h body) (hn : Fresh q h body n) :
    (q.enqueue n).1.live = q.live ++ [n] := by
  have life : ∀ m, ((q.enqueue n).1.node m).isLive = (q.node m).isLive := by
    simp [hq.enqueue_eq n, Node.isLive]
  rw [(hq.enqueue hn).live_eq, hq.live_eq]
  simp [life, hn.live]

theorem spares_enqueue (hq : Shaped q h body) (hn : Fresh q h body n) :
    Spares q (q.enqueue n).1 n := by
  refine ⟨?_, ?_, ?_, ?_, ?_⟩ <;> intro m hm
  · simp [hq.enqueue_eq n]
  · simp [hq.enqueue_eq n]
  · simp [hq.enqueue_eq n, hm]
  · simp [hq.enqueue_eq n]
  · simp [hq.live_enqueue hn, hm]

/-- Only the new node has someone in front whom it did not have before. -/
theorem follows_enqueue (hq : Shaped q h body) (hn : Fresh q h body n) {p m : NodeId} :
    Follows (q.enqueue n).1.column p m ↔
      Follows q.column p m ∨ (p = (q.enqueue n).2 ∧ m = n) := by
  rw [(hq.enqueue hn).follows_column, hq.live_enqueue hn, ← List.cons_append,
    follows_append_singleton, hq.getLast?_column, ← hq.follows_column, hq.enqueue_eq n]
  simp [eq_comm]

/-- A node that is as it was made has never been in the queue. -/
theorem fresh_of_made (hq : Shaped q h body) {mode : Mode} {a : ActorId}
    (made : q.node n = { mode, actor := some a }) : Fresh q h body n := by
  refine ⟨fun hm => ?_, ?_, ?_, ?_, ?_, ?_⟩
  · rcases List.mem_cons.1 hm with rfl | hm
    · have := hq.front_actor
      simp [made] at this
    · obtain ⟨ys, xs, rfl⟩ := List.append_of_mem hm
      have := hq.prev_eq
      simp [made] at this
  · by_contra hlt
    rw [node_of_size_le (Nat.le_of_not_lt hlt)] at made
    simp at made
  all_goals simp [made, Node.isLive]

/-- A node that waits on a condition can join once it is told to stop waiting. -/
theorem released (hq : Shaped q h body) (hn : (q.node n).status = .condition) :
    Shaped (q.setStatus n .initial) h body ∧ Fresh (q.setStatus n .initial) h body n := by
  have outside : n ∉ h :: body := fun hm => hq.joined n hm hn
  have inTable : n < q.nodes.size := by
    by_contra hlt
    rw [node_of_size_le (Nat.le_of_not_lt hlt)] at hn
    exact absurd hn (by decide)
  have other : ∀ m ∈ h :: body, m ≠ n := fun m hm e => outside (e ▸ hm)
  obtain ⟨actor, prev, next⟩ := hq.apart n hn
  refine ⟨hq.congr rfl rfl (by simp) (by simp) (by simp) (by simp) ?_ ?_ ?_ ?_, outside,
    by simpa, ?_, ?_, by simpa, by simpa⟩
  · intro m hm
    simp [Node.isLive, other m hm]
  · intro m hm
    have : m ≠ n := by
      rintro rfl
      simp [Node.isLive, hn] at hm
    simpa [Node.isLive, this] using hm
  · intro m hm
    simpa [other m hm] using hq.joined m hm
  · intro m hm
    by_cases e : m = n
    · subst e
      simp [status_setStatus_self _ inTable] at hm
    · simpa using hq.apart m (by simpa [e] using hm)
  · simp [Node.isLive, status_setStatus_self _ inTable]
  · simp [status_setStatus_self _ inTable]

end Shaped

/-- The node has come in at the end, and nothing else has changed but that a signal may have been
asked for on its behalf. -/
structure Joined (q q' : WaitQueue) (n : NodeId) : Prop where
  shaped : ∃ h body, Shaped q' h body
  spares : Spares q q' n
  head : ∀ h, q.head = some h → q'.head = some h
  live : q'.live = q.live ++ [n]
  follows : ∀ p m, Follows q'.column p m → Follows q.column p m ∨ m = n
  status : ∀ m, m ≠ n → (q'.node m).status = (q.node m).status ∨
    ((q'.node m).status = .signal ∧ Follows q'.column m n)

namespace Shaped

variable {q : WaitQueue} {h n : NodeId} {body : List NodeId}

theorem joined_enqueue (hq : Shaped q h body) (hn : Fresh q h body n) :
    Joined q (q.enqueue n).1 n := by
  constructor
  case shaped => exact ⟨h, _, hq.enqueue hn⟩
  case spares => exact hq.spares_enqueue hn
  case head =>
    intro k hk
    rcases hq.head_isSome_or with hh | ⟨hh, -⟩
    · rw [← hk, hh, hq.enqueue_eq n, head_between]
    · simp [hh] at hk
  case live => exact hq.live_enqueue hn
  case follows =>
    intro p m hf
    exact ((hq.follows_enqueue hn).1 hf).imp_right (·.2)
  case status =>
    intro m _
    simp [hq.enqueue_eq n]

end Shaped

theorem Spares.trans {q q' q'' : WaitQueue} {n : NodeId} (h : Spares q q' n) (h' : Spares q' q'' n) :
    Spares q q'' n where
  actor m hm := (h'.actor m hm).trans (h.actor m hm)
  mode m hm := (h'.mode m hm).trans (h.mode m hm)
  prev m hm := (h'.prev m hm).trans (h.prev m hm)
  waits m hm := (h'.waits m hm).trans (h.waits m hm)
  live m hm := (h'.live m hm).trans (h.live m hm)

namespace Joined

variable {q q' q'' : WaitQueue} {n : NodeId}

/-- What was done to the node before it came in does not matter. -/
theorem after (hj : Joined q' q'' n) (spares : Spares q q' n) (head : q'.head = q.head)
    (live : q'.live = q.live) (status : ∀ m, m ≠ n → (q'.node m).status = (q.node m).status) :
    Joined q q'' n where
  shaped := hj.shaped
  spares := spares.trans hj.spares
  head h hh := hj.head h (head.trans hh)
  live := by rw [hj.live, live]
  follows p m hf := by simpa [column, head, live] using hj.follows p m hf
  status m hm := by simpa [status m hm] using hj.status m hm

/-- Whoever stands in front of the new node can be asked for a signal. -/
theorem ask (hj : Joined q q' n) {p : NodeId} (hf : Follows q'.column p n) :
    Joined q (q'.setStatus p .signal) n ∧ ((q'.setStatus p .signal).node p).status = .signal := by
  obtain ⟨h, body, hq⟩ := hj.shaped
  obtain ⟨hp, alive⟩ := hq.mem_of_follows hf
  have signal := status_setStatus_self .signal (hq.inTable p hp)
  have live := hq.live_setStatus (s := .signal) alive rfl (by simp)
  have column : (q'.setStatus p .signal).column = q'.column := by simp [column, live]
  have waits : ∀ m, ((q'.setStatus p .signal).node m).status = .condition ↔
      (q'.node m).status = .condition := by
    intro m
    by_cases e : m = p
    · subst e
      simp [signal, hq.joined m hp]
    · simp [e]
  refine ⟨⟨⟨h, body, hq.setStatus alive rfl (by simp)⟩, ?_, hj.head, by rw [live, hj.live], ?_, ?_⟩,
    signal⟩
  · refine ⟨?_, ?_, ?_, ?_, ?_⟩ <;> intro m hm
    · simpa using hj.spares.actor m hm
    · simpa using hj.spares.mode m hm
    · simpa using hj.spares.prev m hm
    · rw [waits, hj.spares.waits m hm]
    · rw [live, hj.spares.live m hm]
  · intro x m hx
    exact hj.follows x m (column ▸ hx)
  · intro m hm
    rw [column]
    by_cases e : m = p
    · exact Or.inr ⟨e ▸ signal, e ▸ hf⟩
    · simpa [e] using hj.status m hm

theorem mem_live (hj : Joined q q' n) : n ∈ q'.live := by simp [hj.live]

theorem notMem (hj : Joined q q' n) : n ∉ q.live := by
  obtain ⟨h, body, hq⟩ := hj.shaped
  have nodup := hq.live_nodup
  rw [hj.live, List.nodup_append] at nodup
  exact fun hn => nodup.2.2 n hn n (by simp) rfl

theorem ne_head (hj : Joined q q' n) {h : NodeId} (hh : q.head = some h) : h ≠ n := by
  rintro rfl
  obtain ⟨k, body, hq⟩ := hj.shaped
  have hk := hq.head_eq_of_mem (hq.mem_live.1 hj.mem_live).1
  obtain rfl : h = k := by simpa [hj.head h hh] using hk
  exact hq.front_notMem_live hj.mem_live

theorem ne_of_follows (hj : Joined q q' n) {p m : NodeId} (hf : Follows q.column p m) : p ≠ n := by
  have mem := hf.mem_left
  rw [column, List.mem_append, Option.mem_toList] at mem
  rcases mem with head | live
  · exact hj.ne_head head
  · rintro rfl
    exact hj.notMem live

end Joined

namespace Shaped

variable {q : WaitQueue} {h n : NodeId} {body : List NodeId}

theorem joined_join (hq : Shaped q h body) (mode : Mode) (a : ActorId) :
    Joined q (q.join mode a).1 q.nodes.size ∧
      ((q.join mode a).1.node q.nodes.size).actor = some a ∧
      ((q.join mode a).1.node q.nodes.size).mode = mode := by
  have created := hq.create mode .initial a
  have node := q.node_create mode .initial a
  have size := q.size_create mode .initial a
  have fresh : Fresh (q.create mode .initial a).1 h body q.nodes.size := by
    refine ⟨fun hm => Nat.lt_irrefl _ (hq.inTable _ hm), by simp [size], ?_, ?_, ?_, ?_⟩ <;>
      simp [node, Node.isLive]
  have live := hq.live_create mode .initial a
  have other : ∀ m, m ≠ q.nodes.size → (q.create mode .initial a).1.node m = q.node m := fun m hm =>
    q.node_create_of_ne mode .initial a hm
  have spares : Spares q (q.create mode .initial a).1 q.nodes.size := by
    refine ⟨?_, ?_, ?_, ?_, ?_⟩ <;> intro m hm
    · rw [other m hm]
    · rw [other m hm]
    · rw [other m hm]
    · rw [other m hm]
    · rw [live]
  refine ⟨(created.joined_enqueue fresh).after spares rfl live fun m hm => by rw [other m hm], ?_, ?_⟩
  · change (((q.create mode .initial a).1.enqueue q.nodes.size).1.node _).actor = _
    rw [created.enqueue_eq]
    simp [node]
  · change (((q.create mode .initial a).1.enqueue q.nodes.size).1.node _).mode = _
    rw [created.enqueue_eq]
    simp [node]

theorem status_join (hq : Shaped q h body) (mode : Mode) (a : ActorId) {m : NodeId}
    (hm : m ≠ q.nodes.size) : ((q.join mode a).1.node m).status = (q.node m).status := by
  change (((q.create mode .initial a).1.enqueue q.nodes.size).1.node m).status = _
  rw [(hq.create mode .initial a).enqueue_eq]
  simp [q.node_create_of_ne mode .initial a hm]

/-- A node that waits on a condition can be moved. -/
theorem joined_release (hq : Shaped q h body) (hn : (q.node n).status = .condition) :
    Joined q ((q.setStatus n .initial).enqueue n).1 n ∧
      (((q.setStatus n .initial).enqueue n).1.node n).actor = (q.node n).actor ∧
      (((q.setStatus n .initial).enqueue n).1.node n).mode = (q.node n).mode := by
  obtain ⟨hq', fresh⟩ := hq.released hn
  have live : (q.setStatus n .initial).live = q.live := by
    rw [hq'.live_eq, hq.live_eq]
    refine congrArg _ (List.filter_congr fun m hm => ?_)
    have ne : m ≠ n := fun e => fresh.notMem (by simp [← e, hm])
    simp [Node.isLive, ne]
  have spares : Spares q (q.setStatus n .initial) n := by
    refine ⟨?_, ?_, ?_, ?_, ?_⟩ <;> intro m hm
    · simp
    · simp
    · simp
    · simp [hm]
    · rw [live]
  refine ⟨(hq'.joined_enqueue fresh).after spares rfl live fun m hm => by simp [hm], ?_, ?_⟩
  · simp [hq'.enqueue_eq]
  · simp [hq'.enqueue_eq]

theorem joined_transferUnsignalled (hq : Shaped q h body) (hn : (q.node n).status = .condition) :
    Joined q (q.transferUnsignalled n).1 n ∧
      ((q.transferUnsignalled n).1.node n).actor = (q.node n).actor ∧
      ((q.transferUnsignalled n).1.node n).mode = (q.node n).mode := by
  simpa [transferUnsignalled, hn] using hq.joined_release hn

theorem status_transferUnsignalled (hq : Shaped q h body) (hn : (q.node n).status = .condition)
    {m : NodeId} (hm : m ≠ n) : ((q.transferUnsignalled n).1.node m).status = (q.node m).status := by
  simp [transferUnsignalled, hn, (hq.released hn).1.enqueue_eq, hm]

/-- A node that is moved because of a signal has asked for one. -/
theorem joined_transferSignalled (hq : Shaped q h body) (hn : (q.node n).status = .condition) :
    (q.transferSignalled n).2 = (none, true) ∧ Joined q (q.transferSignalled n).1 n ∧
      ((q.transferSignalled n).1.node n).actor = (q.node n).actor ∧
      ((q.transferSignalled n).1.node n).mode = (q.node n).mode ∧
      ∃ p, Follows (q.transferSignalled n).1.column p n ∧
        ((q.transferSignalled n).1.node p).status = .signal := by
  obtain ⟨hq', fresh⟩ := hq.released hn
  obtain ⟨joined, actor, mode⟩ := hq.joined_release hn
  have hf := (hq'.follows_enqueue fresh).2 (Or.inr ⟨rfl, rfl⟩)
  obtain ⟨k, b, shaped⟩ := joined.shaped
  obtain ⟨hp, alive⟩ := shaped.mem_of_follows hf
  have eq : q.transferSignalled n = (((q.setStatus n .initial).enqueue n).1.setStatus
      ((q.setStatus n .initial).enqueue n).2 .signal, none, true) := by
    simp [transferSignalled, hn, alive]
  obtain ⟨joined', signal⟩ := joined.ask hf
  have live := shaped.live_setStatus (s := .signal) alive rfl (by simp)
  rw [eq]
  refine ⟨rfl, joined', by simpa using actor, by simpa using mode, _, ?_, signal⟩
  simpa [column, live] using hf

end Shaped

end Turnstile.WaitQueue
