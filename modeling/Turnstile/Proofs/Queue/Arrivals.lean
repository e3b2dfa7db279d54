import Turnstile.Proofs.Queue.Touch

/-! The order in which nodes have come into a queue. Those who wait stand in that order, and the hint of the
head leads to the first of them or to one that came before and has given up. -/
namespace Turnstile.WaitQueue

/-- The queue has come about by its operations, and these nodes came into it one after the other. -/
inductive Arrived : WaitQueue → List NodeId → Prop
  | empty : Arrived .empty []
  | touch {q q' : WaitQueue} {line : List NodeId} (earlier : Arrived q line) (touch : Touch q q') :
      Arrived q' (line ++ q'.live.filter (· ∉ q.live))

/-- What an operation does to those who wait and to the hint of the head. -/
structure Marshals (q q' : WaitQueue) : Prop where
  /-- Whoever comes in stands behind those who stay. -/
  live : q'.live = q.live.filter (· ∈ q'.live) ++ q'.live.filter (· ∉ q.live)
  fresh : ∀ n ∈ q'.live, n ∉ q.live → (q.node n).actor.isSome
  left : ∀ n ∈ q.live, n ∉ q'.live →
    (q'.node n).actor = none ∧ ((q'.node n).status = .cancelled ∨ q'.head = some n)
  nobody : ∀ n < q.nodes.size, (q.node n).actor = none → (q'.node n).actor = none
  /-- The hint of the head is turned to live nodes only. -/
  hint : ∀ h m, q'.head = some h → (q'.node h).next = some m →
    m ∈ q'.live ∨ (q.head = some h ∧ (q.node h).next = some m)

/-- What the order of arrival says about a queue. -/
structure Ordered (q : WaitQueue) (line : List NodeId) : Prop where
  nodup : line.Nodup
  inTable : ∀ n ∈ line, n < q.nodes.size
  gone : ∀ n ∈ line, n ∉ q.live → (q.node n).actor = none
  live : q.live.Sublist line
  hint : ∀ h m, q.head = some h → (q.node h).next = some m → m ∉ q.live →
    (q.node m).status = .cancelled ∧ (m :: q.live).Sublist line

variable {q q' : WaitQueue} {h n : NodeId} {body line xs ys : List NodeId}

section next

variable (q : WaitQueue) (n m : NodeId)

@[simp] theorem next_wakeNext : ((q.wakeNext n).1.node m).next = (q.node m).next := by
  unfold wakeNext
  split
  · exact q.next_setStatus n m .initial
  · rfl

@[simp] theorem next_wakeShared : (q.wakeShared.1.node m).next = (q.node m).next := by
  unfold wakeShared
  split
  · rfl
  · split
    · rfl
    · split
      · exact q.next_wakeNext _ m
      · exact q.next_setStatus _ m .propagate
      · rfl

@[simp] theorem next_promote : ((q.promote n).node m).next = (q.node m).next := by simp [promote_eq]

@[simp] theorem next_promoteShared (cascade : Bool) :
    ((q.promoteShared n cascade).1.node m).next = (q.node m).next := by
  unfold promoteShared
  dsimp only
  split <;> simp

theorem next_setNext (x : Option NodeId) :
    ((q.setNext n x).node m).next = x ∨ ((q.setNext n x).node m).next = (q.node m).next := by
  rw [setNext, node_update]
  split
  · exact Or.inl rfl
  · exact Or.inr rfl

theorem next_readyToPark :
    ((q.readyToPark n).1.node m).next = some n ∨ ((q.readyToPark n).1.node m).next = (q.node m).next := by
  have skipped : ((q.skipDead n).1.node m).next = (q.node m).next := q.next_setPrev n m _
  unfold readyToPark
  split
  · exact Or.inr rfl
  split
  · exact Or.inr rfl
  split
  · exact Or.inr (q.next_setStatus _ m .signal)
  split
  all_goals
    rename_i found
    rw [found] at skipped
  · rw [← skipped]
    exact next_setNext _ _ m (some n)
  · exact Or.inr skipped

end next

theorem filter_mem_of_subset (sub : xs ⊆ ys) : xs.filter (· ∈ ys) = xs :=
  List.filter_eq_self.2 fun n hn => by simpa using sub hn

theorem filter_notMem_of_subset (sub : xs ⊆ ys) : xs.filter (· ∉ ys) = [] :=
  List.filter_eq_nil_iff.2 fun n hn => by simpa using sub hn

namespace Marshals

theorem stay (live : q'.live = q.live) (head : q'.head = q.head)
    (actor : ∀ m < q.nodes.size, (q'.node m).actor = (q.node m).actor)
    (hint : ∀ h m, q.head = some h → (q'.node h).next = some m → m ∈ q.live ∨ (q.node h).next = some m) :
    Marshals q q' where
  live := by
    rw [live, filter_mem_of_subset (List.Subset.refl _), filter_notMem_of_subset (List.Subset.refl _),
      List.append_nil]
  fresh n hn out := absurd (live ▸ hn) out
  left n hn out := absurd (live ▸ hn) out
  nobody n inTable := (actor n inTable).trans
  hint h m hh hm := by
    rw [head] at hh
    rw [live]
    exact (hint h m hh hm).imp_right fun link => ⟨hh, link⟩

/-- One comes in behind all the others. -/
theorem come (live : q'.live = q.live ++ [n]) (out : n ∉ q.live) (someone : (q.node n).actor.isSome)
    (actor : ∀ m, (q'.node m).actor = (q.node m).actor)
    (hint : ∀ h m, q'.head = some h → (q'.node h).next = some m →
      m = n ∨ (q.head = some h ∧ (q.node h).next = some m)) : Marshals q q' where
  live := by
    have come : q'.live.filter (· ∉ q.live) = [n] := by
      rw [live, List.filter_append, filter_notMem_of_subset (List.Subset.refl _)]
      simp [out]
    rw [filter_mem_of_subset fun m hm => live ▸ List.mem_append_left [n] hm, come, live]
  fresh m hm other := by
    obtain rfl : m = n := by simpa [live, other] using hm
    exact someone
  left m hm other := absurd (live ▸ List.mem_append_left [n] hm) other
  nobody m _ := (actor m).trans
  hint h m hh hm := (hint h m hh hm).imp_left fun e => by simp [live, e]

theorem leave (live : q'.live = q.live.erase n) (nodup : q.live.Nodup) (nobody : (q'.node n).actor = none)
    (word : (q'.node n).status = .cancelled ∨ q'.head = some n)
    (actor : ∀ m, m ≠ n → (q'.node m).actor = (q.node m).actor)
    (hint : ∀ h m, q'.head = some h → (q'.node h).next = some m →
      m ∈ q'.live ∨ (q.head = some h ∧ (q.node h).next = some m)) : Marshals q q' where
  live := by
    have stay : q.live.filter (· ∈ q'.live) = q.live.erase n := by
      rw [nodup.erase_eq_filter]
      exact List.filter_congr fun m hm => Bool.eq_iff_iff.2 (by simp [live, nodup.mem_erase_iff, hm])
    rw [filter_notMem_of_subset fun m hm => List.mem_of_mem_erase (live ▸ hm), List.append_nil, stay, live]
  fresh m hm other := by
    rw [live] at hm
    exact absurd (List.mem_of_mem_erase hm) other
  left m hm other := by
    obtain rfl : m = n := by
      by_contra ne
      exact other (live ▸ (List.mem_erase_of_ne ne).2 hm)
    exact ⟨nobody, word⟩
  nobody m _ was := by
    by_cases e : m = n
    · rw [e, nobody]
    · rw [actor m e, was]
  hint := hint

end Marshals

namespace Shaped

/-- Whoever comes in is linked to by the last one, which is the head if nobody else waits. -/
theorem hint_enqueue (hq : Shaped q h body) (n : NodeId) {m : NodeId}
    (link : ((q.enqueue n).1.node h).next = some m) :
    m = n ∨ (q.head = some h ∧ (q.node h).next = some m) := by
  rw [hq.enqueue_eq n, node_between] at link
  cases body with
  | nil =>
    have turned : (((q.setPrev n (some h)).setNext h (some n)).node h).next = some n :=
      next_setNext_self _ (by simpa using hq.inTable h (by simp))
    exact Or.inl (Option.some.inj (link.symm.trans turned))
  | cons l rest =>
    have ne : h ≠ l := fun e => hq.front_notMem (by simp [e])
    exact Or.inr ⟨hq.head_eq_of_mem (n := l) (by simp), by simpa [ne] using link⟩

theorem marshals_enqueue (hq : Shaped q h body) (fresh : Fresh q h body n) (someone : (q.node n).actor.isSome) :
    Marshals q (q.enqueue n).1 := by
  have out : n ∉ q.live := fun hn => fresh.notMem (List.mem_cons_of_mem h (hq.mem_live.1 hn).1)
  refine .come (hq.live_enqueue fresh) out someone (fun m => by simp [hq.enqueue_eq n]) fun k m hk link => ?_
  obtain rfl : h = k := by simpa [hq.enqueue_eq n] using hk
  exact hq.hint_enqueue n link

theorem hint_release (hq : Shaped q h body) (waits : (q.node n).status = .condition) {k m : NodeId}
    (front : ((q.setStatus n .initial).enqueue n).1.head = some k)
    (link : (((q.setStatus n .initial).enqueue n).1.node k).next = some m) :
    m = n ∨ (q.head = some k ∧ (q.node k).next = some m) := by
  obtain ⟨hq', -⟩ := hq.released waits
  obtain rfl : h = k := by simpa [hq'.enqueue_eq n] using front
  simpa using hq'.hint_enqueue n link

/-- A node that comes off its condition has its actor. -/
theorem marshals_transferUnsignalled (hq : Shaped q h body) (waits : (q.node n).status = .condition) :
    Marshals q (q.transferUnsignalled n).1 := by
  obtain ⟨joined, actor, -⟩ := hq.joined_transferUnsignalled waits
  refine .come joined.live joined.notMem (hq.apart n waits).1 (fun m => ?_) fun k m front link => ?_
  · by_cases e : m = n
    · rw [e, actor]
    · exact joined.spares.actor m e
  · simp only [transferUnsignalled, waits, if_true] at front link
    exact hq.hint_release waits front link

theorem marshals_transferSignalled (hq : Shaped q h body) (waits : (q.node n).status = .condition) :
    Marshals q (q.transferSignalled n).1 := by
  obtain ⟨-, joined, actor, -, -⟩ := hq.joined_transferSignalled waits
  refine .come joined.live joined.notMem (hq.apart n waits).1 (fun m => ?_) fun k m front link => ?_
  · by_cases e : m = n
    · rw [e, actor]
    · exact joined.spares.actor m e
  · simp only [transferSignalled, waits, if_true] at front link
    split at front
    all_goals
      rename_i asked
      simp only [asked, if_true, if_false, head_setStatus, next_setStatus, Bool.false_eq_true] at front link
      exact hq.hint_release waits front link

theorem next_withdraw (hq : Shaped q h body) (hn : n ∈ q.live) :
    ((q.withdraw n).1.node h).next = none ∨ ((q.withdraw n).1.node h).next = (q.node h).next := by
  obtain ⟨hb, alive⟩ := hq.mem_live.1 hn
  obtain ⟨ys, xs, rfl⟩ := List.append_of_mem hb
  have ne : h ≠ n := fun e => hq.front_notMem (by simp [e])
  rw [hq.withdraw_eq alive rfl]
  set p := (q.fromLive xs).head?.getD h
  split
  · rw [node_between, ← q.next_dropped p n h]
    exact next_setNext _ p h none
  split
  · exact Or.inr (by simp [ne])
  · rename_i front
    exact Or.inr (by simp [ne, Ne.symm front])

theorem marshals_withdraw (hq : Shaped q h body) (hn : n ∈ q.live) : Marshals q (q.withdraw n).1 := by
  have hw := hq.withdrawn hn
  have head := hq.head_eq_of_mem (hq.mem_live.1 hn).1
  refine .leave hw.live hq.live_nodup hw.actor_self (Or.inl hw.status_self) hw.actor fun k m front link => ?_
  obtain rfl : h = k := Option.some.inj (head.symm.trans (hw.head.symm.trans front))
  rcases hq.next_withdraw hn with cut | same
  · simp [cut] at link
  · exact Or.inr ⟨head, same ▸ link⟩

theorem marshals_promoted {r : WaitQueue × Option ActorId} (hq : Shaped q h body) (hp : Promoted q r n)
    (same : (r.1.node n).next = (q.node n).next) : Marshals q r.1 := by
  have erased : r.1.live = q.live.erase n := by rw [hp.live, List.erase_cons_head]
  obtain ⟨body', shaped⟩ := hp.shaped
  refine .leave erased hq.live_nodup shaped.front_actor (Or.inr hp.head) hp.actor fun k m front link => Or.inl ?_
  obtain rfl : n = k := Option.some.inj (hp.head.symm.trans front)
  have next : (q.node n).next = r.1.live.head? := by
    have nexts := hq.nexts_live
    rw [hp.live] at nexts
    simpa using nexts.1
  exact List.mem_of_mem_head? (next.symm.trans (same.symm.trans link))

end Shaped

theorem Served.marshals {r : WaitQueue × Option ActorId} (hr : Served q r)
    (same : ∀ m, (r.1.node m).next = (q.node m).next) : Marshals q r.1 :=
  .stay hr.live hr.head (fun m _ => hr.actor m) fun k _ _ link => Or.inr (same k ▸ link)

/-- No operation turns the order of those who wait. -/
theorem Touch.marshals (touch : Touch q q') (hq : Shaped q h body) : Marshals q q' := by
  cases touch with
  | create mode status a new =>
    have old : ∀ m < q.nodes.size, (q.create mode status a).1.node m = q.node m := fun m inTable =>
      q.node_create_of_ne mode status a (Nat.ne_of_lt inTable)
    refine .stay (hq.live_create mode status a) rfl (fun m inTable => by rw [old m inTable])
      fun k m front link => ?_
    obtain rfl := hq.eq_of_head front
    exact Or.inr (by rwa [old h (hq.inTable h (by simp))] at link)
  | enqueue made => exact hq.marshals_enqueue (hq.fresh_of_made made) (by simp [made])
  | transferSignalled waits => exact hq.marshals_transferSignalled waits
  | transferUnsignalled waits => exact hq.marshals_transferUnsignalled waits
  | @readyToPark n live =>
    have hint : ∀ k m, q.head = some k → ((q.readyToPark n).1.node k).next = some m →
        m ∈ q.live ∨ (q.node k).next = some m := fun k m _ link => by
      rcases q.next_readyToPark n k with turned | same
      · obtain rfl : n = m := Option.some.inj (turned.symm.trans link)
        exact Or.inl live
      · exact Or.inr (same ▸ link)
    rcases hq.readyToPark_cases live with ⟨p, -, -, -, eq⟩ | ⟨q', eq, readied⟩
    all_goals rw [eq] at hint ⊢
    · exact .stay rfl rfl (fun m _ => rfl) hint
    · exact .stay readied.live readied.head (fun m _ => readied.actor m) hint
  | @wakeNext k head =>
    obtain rfl := hq.eq_of_head head
    by_cases pending : (q.node h).status.pending
    · exact (hq.served_wakeNext head pending).marshals (q.next_wakeNext h)
    · have same : (q.wakeNext h).1 = q := by simp [WaitQueue.wakeNext, pending]
      rw [same]
      exact .stay rfl rfl (fun m _ => rfl) fun k m _ => Or.inr
  | wakeShared => exact hq.served_wakeShared.marshals q.next_wakeShared
  | withdraw live => exact hq.marshals_withdraw live
  | promote live turn =>
    obtain ⟨mem, alive⟩ := hq.mem_live.1 live
    obtain ⟨ys, rfl⟩ := hq.split_of_prev mem turn
    exact hq.marshals_promoted (hq.promoted_promote alive) (q.next_promote _ _)
  | promoteShared cascade live turn =>
    obtain ⟨mem, alive⟩ := hq.mem_live.1 live
    obtain ⟨ys, rfl⟩ := hq.split_of_prev mem turn
    exact hq.marshals_promoted (hq.promoted_promoteShared alive cascade) (q.next_promoteShared _ _ cascade)
  | @cutLink m opened gone =>
    have outside : m ∉ h :: body := by
      rw [hq.backward_eq, if_pos opened] at gone
      simpa [or_comm] using gone
    have live : (q.setNext m none).live = q.live := by
      rw [(hq.setNext_outside outside).live_eq, hq.live_eq]
      simp [Node.isLive]
    refine .stay live rfl (by simp) fun k s _ link => Or.inr ?_
    rcases q.next_setNext m k none with cut | same
    · simp [cut] at link
    · exact same ▸ link
  | drop waits =>
    obtain ⟨-, live, -⟩ := hq.dropped waits
    exact .stay live rfl (by simp) fun k m _ link => Or.inr (by simpa using link)
  | chain alike =>
    exact .stay (alike.live hq) alike.head (fun m _ => alike.actor m)
      fun k m _ link => Or.inr (alike.next k ▸ link)

namespace Ordered

theorem empty : Ordered .empty [] := by
  refine ⟨List.nodup_nil, by simp, by simp, ?_, by simp [WaitQueue.empty]⟩
  rw [Shaped.shaped_empty.live_eq]
  exact List.Sublist.refl []

/-- Whoever comes in was never in the queue before. -/
theorem notMem_of_fresh (ho : Ordered q line) (hs : Marshals q q') (hn : n ∈ q'.live) (out : n ∉ q.live) :
    n ∉ line := fun old => by
  have someone := hs.fresh n hn out
  rw [ho.gone n old out] at someone
  simp at someone

/-- The dead node that the head is linked to came before all who wait. -/
theorem hint_marshal (ho : Ordered q line) (hs : Marshals q q') (hq : Shaped q h body)
    (ages : ∀ m, Ages q q' m) {k m : NodeId} (front : q'.head = some k) (link : (q'.node k).next = some m)
    (out : m ∉ q'.live) : (q'.node m).status = .cancelled ∧
      (m :: q'.live).Sublist (line ++ q'.live.filter (· ∉ q.live)) := by
  obtain ⟨front', link'⟩ := (hs.hint k m front link).resolve_left out
  obtain rfl := hq.eq_of_head front'
  suffices before : (q'.node m).status = .cancelled ∧ (m :: q.live.filter (· ∈ q'.live)).Sublist line by
    have longer := before.2.append (List.Sublist.refl (q'.live.filter (· ∉ q.live)))
    rw [List.cons_append, ← hs.live] at longer
    exact ⟨before.1, longer⟩
  by_cases waited : m ∈ q.live
  · -- it was the first of those who waited, and has left
    obtain ⟨rest, first⟩ : ∃ rest, q.live = m :: rest := by
      rcases hq.next_front m link' with dead | last
      · simp [(hq.mem_live.1 waited).2] at dead
      · refine List.head?_eq_some_iff.1 ?_
        rw [hq.live_eq, List.head?_reverse, last]
    have gone := (hs.left m waited out).2.resolve_right fun head =>
      hq.ne_head waited (front'.trans (front.symm.trans head))
    refine ⟨gone, ?_⟩
    have kept : q.live.filter (· ∈ q'.live) = rest.filter (· ∈ q'.live) := by simp [first, out]
    rw [kept]
    exact ((List.filter_sublist.cons_cons m).trans (first ▸ List.Sublist.refl _)).trans ho.live
  · obtain ⟨gone, before⟩ := ho.hint h m front' link' waited
    exact ⟨(ages m).ended gone, (List.filter_sublist.cons_cons m).trans before⟩

theorem marshal (ho : Ordered q line) (hs : Marshals q q') (hq : Shaped q h body)
    (hq' : ∃ h body, Shaped q' h body) (size : q.nodes.size ≤ q'.nodes.size) (ages : ∀ m, Ages q q' m) :
    Ordered q' (line ++ q'.live.filter (· ∉ q.live)) := by
  obtain ⟨h', body', shaped⟩ := hq'
  constructor
  case nodup =>
    refine List.nodup_append.2 ⟨ho.nodup, shaped.live_nodup.filter _, ?_⟩
    rintro n old m new rfl
    rw [List.mem_filter, decide_eq_true_iff] at new
    exact ho.notMem_of_fresh hs new.1 new.2 old
  case inTable =>
    intro n hn
    rcases List.mem_append.1 hn with old | new
    · exact Nat.lt_of_lt_of_le (ho.inTable n old) size
    · exact shaped.inTable n (List.mem_cons_of_mem h' (shaped.mem_live.1 (List.mem_of_mem_filter new)).1)
  case gone =>
    intro n hn out
    have old : n ∈ line := (List.mem_append.1 hn).resolve_right fun new => out (List.mem_of_mem_filter new)
    by_cases waited : n ∈ q.live
    · exact (hs.left n waited out).1
    · exact hs.nobody n (ho.inTable n old) (ho.gone n old waited)
  case live =>
    have kept : (q.live.filter (· ∈ q'.live)).Sublist line := List.filter_sublist.trans ho.live
    have longer := kept.append (List.Sublist.refl (q'.live.filter (· ∉ q.live)))
    rwa [← hs.live] at longer
  case hint => exact fun k m front link out => ho.hint_marshal hs hq ages front link out

end Ordered

namespace Arrived

theorem ordered (arrived : Arrived q line) : (∃ h body, Shaped q h body) ∧ Ordered q line := by
  induction arrived with
  | empty => exact ⟨⟨_, _, Shaped.shaped_empty⟩, Ordered.empty⟩
  | touch earlier touch ih =>
    obtain ⟨⟨h, body, shaped⟩, ordered⟩ := ih
    obtain ⟨shaped', ages⟩ := touch.ages shaped
    exact ⟨shaped', ordered.marshal (touch.marshals shaped) shaped shaped' touch.size_le ages⟩

/-- Every queue that operations lead to has an order of arrival. -/
theorem of_later (later : Later .empty q) : ∃ line, Arrived q line := by
  induction later with
  | refl => exact ⟨[], .empty⟩
  | tail _ touch ih =>
    obtain ⟨line, earlier⟩ := ih
    exact ⟨_, earlier.touch touch⟩

theorem join (arrived : Arrived q line) (mode : Mode) (a : ActorId) :
    Arrived (q.join mode a).1 (line ++ [q.nodes.size]) := by
  obtain ⟨⟨h, body, shaped⟩, -⟩ := arrived.ordered
  have made := node_create q mode .initial a
  have created := shaped.create mode .initial a
  have before := arrived.touch (.create mode .initial a (.inl rfl))
  rw [shaped.live_create, filter_notMem_of_subset (List.Subset.refl _), List.append_nil] at before
  have after := before.touch (.enqueue made)
  have fresh := created.fresh_of_made made
  have out : q.nodes.size ∉ q.live := fun hn =>
    Nat.lt_irrefl _ (shaped.inTable _ (List.mem_cons_of_mem h (shaped.mem_live.1 hn).1))
  have new : [q.nodes.size].filter (· ∉ q.live) = [q.nodes.size] := by simp [out]
  rw [created.live_enqueue fresh, shaped.live_create, List.filter_append,
    filter_notMem_of_subset (List.Subset.refl _), new] at after
  exact after

theorem withdraw (arrived : Arrived q line) (hn : n ∈ q.live) : Arrived (q.withdraw n).1 line := by
  obtain ⟨⟨h, body, shaped⟩, -⟩ := arrived.ordered
  have after := arrived.touch (.withdraw hn)
  rwa [(shaped.withdrawn hn).live, filter_notMem_of_subset List.erase_subset, List.append_nil] at after

theorem later (arrived : Arrived q line) : Later .empty q := by
  induction arrived with
  | empty => exact .refl
  | touch _ touch ih => exact ih.tail touch

end Arrived

end Turnstile.WaitQueue
