import Mathlib.Logic.Relation
import Turnstile.Proofs.Queue.Rooted

/-! What befalls a queue one operation at a time, and what its nodes say of themselves meanwhile: each
comes from a condition at most once, and whoever has given up stays so. -/
namespace Turnstile.WaitQueue

/-- One operation of the queue, as it is called. -/
inductive Touch (q : WaitQueue) : WaitQueue → Prop
  /-- A node that stands in no queue yet, as an acquirer or a wait makes it. -/
  | create (mode : Mode) (status : Status) (a : ActorId)
      (new : status = .initial ∨ status = .condition) : Touch q (q.create mode status a).1
  | enqueue {n mode a} (made : q.node n = { mode, actor := some a }) : Touch q (q.enqueue n).1
  | transferSignalled {n} (waits : (q.node n).status = .condition) : Touch q (q.transferSignalled n).1
  | transferUnsignalled {n} (waits : (q.node n).status = .condition) :
      Touch q (q.transferUnsignalled n).1
  | readyToPark {n} (live : n ∈ q.live) : Touch q (q.readyToPark n).1
  | wakeNext {h} (head : q.head = some h) : Touch q (q.wakeNext h).1
  | wakeShared : Touch q q.wakeShared.1
  | withdraw {n} (live : n ∈ q.live) : Touch q (q.withdraw n).1
  | promote {n} (live : n ∈ q.live) (turn : (q.node n).prev = q.head) : Touch q (q.promote n)
  | promoteShared {n} (cascade : Bool) (live : n ∈ q.live) (turn : (q.node n).prev = q.head) :
      Touch q (q.promoteShared n cascade).1
  /-- Whoever was the head loses its link to the one that took its place. -/
  | cutLink {m} (opened : q.head.isSome) (gone : m ∉ q.backward) : Touch q (q.setNext m none)
  /-- A wait that could not begin leaves a dead node on its condition. -/
  | drop {n} (waits : (q.node n).status = .condition) : Touch q (q.setStatus n .cancelled)
  /-- Conditions chain their nodes as they like. -/
  | chain {q'} (alike : Alike q q') : Touch q q'

abbrev Later : WaitQueue → WaitQueue → Prop := Relation.ReflTransGen Touch

/-- The node has been moved from its condition to the end of the queue. -/
structure Transferred (q q' : WaitQueue) (n : NodeId) : Prop where
  moved : q' = (q.transferSignalled n).1 ∨ q' = (q.transferUnsignalled n).1
  status : (q'.node n).status = .initial
  live : q'.live = q.live ++ [n]

/-- What may become of a node's word by one operation. -/
structure Ages (q q' : WaitQueue) (n : NodeId) : Prop where
  ended : (q.node n).status = .cancelled → (q'.node n).status = .cancelled
  /-- Nobody but a new node comes to wait on a condition. -/
  waits : (q'.node n).status = .condition → (q.node n).status = .condition ∨ n = q.nodes.size
  /-- Who waits no longer has been moved, or dropped. -/
  leaves : (q.node n).status = .condition → (q'.node n).status = .condition ∨ Transferred q q' n ∨
    q' = q.setStatus n .cancelled
  passes : (q'.node n).status = .propagate → (q.node n).status = .propagate ∨ q'.head = some n

variable {q q' q'' : WaitQueue} {h n m : NodeId} {body : List NodeId}

namespace Ages

theorem same (status : (q'.node n).status = (q.node n).status) : Ages q q' n := by
  constructor <;> rw [status]
  · exact id
  · exact Or.inl
  · exact Or.inl
  · exact Or.inl

/-- Whoever is alive and does not wait on a condition may be asked for a signal. -/
theorem asked (alive : (q.node n).isLive) (settled : (q.node n).status ≠ .condition)
    (signal : (q'.node n).status = .signal) : Ages q q' n := by
  refine ⟨fun ended => ?_, ?_, fun waits => absurd waits settled, ?_⟩
  · simp [Node.isLive, ended] at alive
  · simp [signal]
  · simp [signal]

/-- The head may say what it likes but that it waits or has given up. -/
theorem head (alive : (q.node n).isLive) (settled : (q.node n).status ≠ .condition)
    (settled' : (q'.node n).status ≠ .condition) (head : q'.head = some n) : Ages q q' n := by
  refine ⟨fun ended => ?_, fun waits => absurd waits settled', fun waits => absurd waits settled,
    fun _ => Or.inr head⟩
  simp [Node.isLive, ended] at alive

theorem gone (settled : (q.node n).status ≠ .condition) (gone : (q'.node n).status = .cancelled) :
    Ages q q' n := by
  refine ⟨fun _ => gone, ?_, fun waits => absurd waits settled, ?_⟩
  · simp [gone]
  · simp [gone]

end Ages

theorem Shaped.ages_asked (hq : Shaped q h body) (hf : Follows q.column m n)
    (signal : (q'.node m).status = .signal) : Ages q q' m := by
  obtain ⟨mem, alive⟩ := hq.mem_of_follows hf
  exact .asked alive (hq.joined m mem) signal

theorem Readied.ages (hr : Readied q q' n) (hq : Shaped q h body) (m : NodeId) : Ages q q' m := by
  rcases hr.status m with same | ⟨signal, hf⟩
  · exact .same same
  · exact hq.ages_asked hf signal

theorem Withdrawn.ages {r : WaitQueue × Option ActorId × Except Fault Unit} (hw : Withdrawn q r n)
    (hq : Shaped q h body) (hn : n ∈ q.live) (m : NodeId) : Ages q r.1 m := by
  by_cases e : m = n
  · subst e
    exact .gone (hq.joined m (List.mem_cons_of_mem _ (hq.mem_live.1 hn).1)) hw.status_self
  · rcases hw.status m e with same | ⟨signal, hf, -⟩
    · exact .same same
    · exact hq.ages_asked hf signal

theorem Served.ages {r : WaitQueue × Option ActorId} (hr : Served q r) (hq : Shaped q h body)
    (m : NodeId) : Ages q r.1 m := by
  by_cases front : q.head = some m
  · obtain rfl : h = m := by
      rcases hq.head_isSome_or with hh | ⟨hh, -⟩
      · exact Option.some.inj (hh.symm.trans front)
      · simp [hh] at front
    exact .head hq.front_live (hq.joined h (by simp)) ((hr.shaped h body hq).joined h (by simp))
      (hr.head.trans front)
  · exact .same (hr.status m front)

theorem Promoted.ages {r : WaitQueue × Option ActorId} (hp : Promoted q r n) (hq : Shaped q h body)
    (m : NodeId) : Ages q r.1 m := by
  by_cases e : m = n
  · subst e
    obtain ⟨body', shaped⟩ := hp.shaped
    obtain ⟨mem, alive⟩ := hq.mem_live.1 (hp.live ▸ List.mem_cons_self : m ∈ q.live)
    exact .head alive (hq.joined m (List.mem_cons_of_mem _ mem)) (shaped.joined m (by simp)) hp.head
  · exact .same (hp.status m e)

/-- Whoever was asked for a signal on behalf of the one that comes in was there before. -/
theorem Joined.ages (hj : Joined q q' n) (hq : Shaped q h body) (head : q'.head = some h)
    (hm : m ≠ n) : Ages q q' m := by
  rcases hj.status m hm with same | ⟨signal, hf⟩
  · exact .same same
  · have mem := hf.mem_left
    rw [column, head, hj.live, Option.toList_some, List.singleton_append] at mem
    rcases List.mem_cons.1 mem with rfl | mem
    · exact .asked hq.front_live (hq.joined m (by simp)) signal
    · have live : m ∈ q.live := by simpa [hm] using mem
      obtain ⟨mem, alive⟩ := hq.mem_live.1 live
      exact .asked alive (hq.joined m (List.mem_cons_of_mem _ mem)) signal

namespace Shaped

/-- Whoever is released from a condition has been asked for nothing. -/
theorem status_released (hq : Shaped q h body) (waits : (q.node n).status = .condition) :
    ((q.transferSignalled n).1.node n).status = .initial ∧
      ((q.transferUnsignalled n).1.node n).status = .initial := by
  obtain ⟨hq', fresh⟩ := hq.released waits
  have initial : ((q.setStatus n .initial).node n).status = .initial :=
    status_setStatus_self _ (by simpa using fresh.inTable)
  have ne : n ≠ body.head?.getD h := fun e => fresh.notMem (e ▸ last_mem h body)
  constructor
  · unfold WaitQueue.transferSignalled
    rw [if_pos waits, hq'.enqueue_eq n]
    dsimp only
    split
    · rw [status_setStatus_of_ne _ _ ne]
      simpa using initial
    · simpa using initial
  · simp [WaitQueue.transferUnsignalled, waits, hq'.enqueue_eq n, initial]

theorem ages_transferSignalled (hq : Shaped q h body) (waits : (q.node n).status = .condition)
    (m : NodeId) : Ages q (q.transferSignalled n).1 m := by
  obtain ⟨-, joined, -⟩ := hq.joined_transferSignalled waits
  have initial := (hq.status_released waits).1
  by_cases e : m = n
  · subst e
    exact ⟨by simp [waits], by simp [initial],
      fun _ => Or.inr (Or.inl ⟨Or.inl rfl, initial, joined.live⟩), by simp [initial]⟩
  · refine joined.ages hq ?_ e
    obtain ⟨hq', fresh⟩ := hq.released waits
    have front : ((q.setStatus n .initial).enqueue n).1.head = some h := by
      rw [hq'.enqueue_eq n, head_between]
    unfold WaitQueue.transferSignalled
    rw [if_pos waits]
    dsimp only
    split
    · exact front
    · exact front

theorem ages_transferUnsignalled (hq : Shaped q h body) (waits : (q.node n).status = .condition)
    (m : NodeId) : Ages q (q.transferUnsignalled n).1 m := by
  have joined := (hq.joined_transferUnsignalled waits).1
  have initial := (hq.status_released waits).2
  by_cases e : m = n
  · subst e
    exact ⟨by simp [waits], by simp [initial],
      fun _ => Or.inr (Or.inl ⟨Or.inr rfl, initial, joined.live⟩), by simp [initial]⟩
  · exact .same (hq.status_transferUnsignalled waits e)

theorem ages_create (mode : Mode) {status : Status} (a : ActorId)
    (new : status = .initial ∨ status = .condition) (m : NodeId) :
    Ages q (q.create mode status a).1 m := by
  by_cases e : m = q.nodes.size
  · subst e
    have blank := node_of_size_le (Nat.le_refl q.nodes.size)
    refine ⟨by simp [blank], fun _ => Or.inr rfl, by simp [blank], fun propagate => ?_⟩
    rw [node_create] at propagate
    rcases new with rfl | rfl <;> simp at propagate
  · exact .same (by rw [q.node_create_of_ne mode status a e])

end Shaped

/-- Whatever is done to it, the queue keeps its shape, and its nodes age. -/
theorem Touch.ages (touch : Touch q q') (hq : Shaped q h body) :
    (∃ h' body', Shaped q' h' body') ∧ ∀ m, Ages q q' m := by
  cases touch with
  | create mode status a new =>
    exact ⟨⟨h, body, hq.create mode status a⟩, Shaped.ages_create mode a new⟩
  | @enqueue n mode a made =>
    have fresh := hq.fresh_of_made made
    exact ⟨⟨h, _, hq.enqueue fresh⟩, fun m => .same (by simp [hq.enqueue_eq n])⟩
  | transferSignalled waits =>
    exact ⟨(hq.joined_transferSignalled waits).2.1.shaped, hq.ages_transferSignalled waits⟩
  | transferUnsignalled waits =>
    exact ⟨(hq.joined_transferUnsignalled waits).1.shaped, hq.ages_transferUnsignalled waits⟩
  | readyToPark live =>
    rcases hq.readyToPark_cases live with ⟨p, -, -, -, eq⟩ | ⟨q', eq, readied⟩
    · rw [eq]
      exact ⟨⟨h, body, hq⟩, fun m => .same rfl⟩
    · rw [eq]
      exact ⟨readied.shaped, readied.ages hq⟩
  | @wakeNext k head =>
    obtain rfl : h = k := by
      rcases hq.head_isSome_or with hh | ⟨hh, -⟩
      · exact Option.some.inj (hh.symm.trans head)
      · simp [hh] at head
    by_cases pending : (q.node h).status.pending
    · have served := hq.served_wakeNext head pending
      exact ⟨⟨h, body, served.shaped h body hq⟩, served.ages hq⟩
    · have same : (q.wakeNext h).1 = q := by simp [WaitQueue.wakeNext, pending]
      rw [same]
      exact ⟨⟨h, body, hq⟩, fun m => .same rfl⟩
  | wakeShared => exact ⟨⟨h, body, hq.served_wakeShared.shaped h body hq⟩, hq.served_wakeShared.ages hq⟩
  | withdraw live => exact ⟨(hq.withdrawn live).shaped, (hq.withdrawn live).ages hq live⟩
  | promote live turn =>
    obtain ⟨mem, alive⟩ := hq.mem_live.1 live
    obtain ⟨ys, rfl⟩ := hq.split_of_prev mem turn
    exact ⟨⟨_, ys, hq.promote alive⟩, (hq.promoted_promote alive).ages hq⟩
  | promoteShared cascade live turn =>
    obtain ⟨mem, alive⟩ := hq.mem_live.1 live
    obtain ⟨ys, rfl⟩ := hq.split_of_prev mem turn
    have promoted := hq.promoted_promoteShared alive cascade
    exact ⟨⟨_, promoted.shaped⟩, promoted.ages hq⟩
  | @cutLink m opened gone =>
    have outside : m ∉ h :: body := by
      rw [hq.backward_eq, if_pos opened] at gone
      simpa [or_comm] using gone
    exact ⟨⟨h, body, hq.setNext_outside outside⟩, fun m => .same (by simp)⟩
  | @drop n waits =>
    obtain ⟨shaped, -, cancelled, -⟩ := hq.dropped waits
    refine ⟨⟨h, body, shaped⟩, fun m => ?_⟩
    by_cases e : m = n
    · subst e
      exact ⟨fun _ => cancelled, by simp [cancelled], fun _ => Or.inr (Or.inr rfl), by simp [cancelled]⟩
    · exact .same (by simp [e])
  | chain alike => exact ⟨⟨h, body, alike.shaped hq⟩, fun m => .same (alike.status m)⟩

theorem Touch.size_le (touch : Touch q q') : q.nodes.size ≤ q'.nodes.size := by
  cases touch with
  | create => exact (Extends.create q _ _ _).size
  | @enqueue n mode a made =>
    refine (Extends.enqueue q (n := n) (Nat.lt_of_not_le fun outside => ?_)).size
    rw [node_of_size_le outside] at made
    simp at made
  | transferSignalled => exact (Extends.transferSignalled q _).size
  | transferUnsignalled => exact (Extends.transferUnsignalled q _).size
  | readyToPark => exact (Extends.readyToPark q _).size
  | wakeNext => exact (Extends.wakeNext q _).size
  | wakeShared => exact (Extends.wakeShared q).size
  | withdraw => exact (Extends.withdraw q _).size
  | promote => exact (Extends.promote q _).size
  | promoteShared => exact (Extends.promoteShared q _ _).size
  | cutLink => exact (Extends.setNext q _ _).size
  | drop => exact (Extends.setStatus q _ _).size
  | chain alike => exact Nat.le_of_eq alike.size.symm

namespace Later

theorem shaped (later : Later q q') (hq : ∃ h body, Shaped q h body) : ∃ h body, Shaped q' h body := by
  induction later with
  | refl => exact hq
  | tail _ touch ih =>
    obtain ⟨h, body, shaped⟩ := ih
    exact (touch.ages shaped).1

theorem join (later : Later q q') (mode : Mode) (a : ActorId) : Later q (q'.join mode a).1 :=
  (later.tail (.create mode .initial a (.inl rfl))).tail (.enqueue (node_create q' mode .initial a))

theorem cancelled (later : Later q q') (hq : ∃ h body, Shaped q h body)
    (gone : (q.node n).status = .cancelled) : (q'.node n).status = .cancelled := by
  induction later with
  | refl => exact gone
  | tail earlier touch ih =>
    obtain ⟨h, body, shaped⟩ := Later.shaped earlier hq
    exact ((touch.ages shaped).2 n).ended ih

theorem size_le (later : Later q q') : q.nodes.size ≤ q'.nodes.size := by
  induction later with
  | refl => exact Nat.le_refl _
  | tail _ touch ih => exact Nat.le_trans ih touch.size_le

theorem settled (later : Later q q') (hq : ∃ h body, Shaped q h body) (inTable : n < q.nodes.size)
    (off : (q.node n).status ≠ .condition) : (q'.node n).status ≠ .condition := by
  induction later with
  | refl => exact off
  | tail earlier touch ih =>
    obtain ⟨h, body, shaped⟩ := Later.shaped earlier hq
    intro waits
    rcases ((touch.ages shaped).2 n).waits waits with before | new
    · exact ih before
    · exact absurd (Nat.lt_of_lt_of_le inTable (Later.size_le earlier)) (new ▸ Nat.lt_irrefl _)

end Later

end Turnstile.WaitQueue
