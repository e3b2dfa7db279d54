import Turnstile.Proofs.Queue.Leaving

/-! A live node dies: the queue without it keeps its shape, whether those in front of it that are dead
are taken along or passed over. -/
namespace Turnstile.WaitQueue

/-- The fields after `n` has died behind `p`, its nearest live predecessor, which is linked to where
`n` was linked unless it stays a hint of the head. -/
structure Died (q q' : WaitQueue) (p n : NodeId) : Prop where
  head : q'.head = q.head
  size : q'.nodes.size = q.nodes.size
  actor_self : (q'.node n).actor = none
  actor : ∀ m, m ≠ n → (q'.node m).actor = (q.node m).actor
  mode : ∀ m, (q'.node m).mode = (q.node m).mode
  prev_self : (q'.node n).prev = some p
  prev : ∀ m, m ≠ n → (q'.node m).prev = (q.node m).prev
  next_front : q.head ≠ some p → (q'.node p).next = (q.node n).next
  next : ∀ m, m ≠ n → m ≠ p → (q'.node m).next = (q.node m).next
  status_self : (q'.node n).status = .cancelled
  status : ∀ m, m ≠ n → (q'.node m).status = (q.node m).status ∨
    (m = p ∧ q.head ≠ some p ∧ (q'.node m).status = .signal)

namespace Died

variable {q q' : WaitQueue} {h p n : NodeId} {xs ys : List NodeId}

theorem life_self (hd : Died q q' p n) : (q'.node n).isLive = false := by
  simp [Node.isLive, hd.status_self]

theorem life (hd : Died q q' p n) (alive : (q.node p).isLive) {m : NodeId} (hm : m ≠ n) :
    (q'.node m).isLive = (q.node m).isLive := by
  rcases hd.status m hm with same | ⟨rfl, -, signal⟩
  · simp [Node.isLive, same]
  · rw [alive]
    simp [Node.isLive, signal]

/-- Nobody rises from the dead. -/
theorem dead (hd : Died q q' p n) (alive : (q.node p).isLive) {m : NodeId}
    (hm : (q.node m).isLive = false) : (q'.node m).isLive = false := by
  by_cases e : m = n
  · rw [e, hd.life_self]
  · rw [hd.life alive e, hm]

theorem waits (hd : Died q q' p n) (apart : (q.node n).status ≠ .condition)
    (joined : (q.node p).status ≠ .condition) (m : NodeId) :
    (q'.node m).status = .condition ↔ (q.node m).status = .condition := by
  by_cases e : m = n
  · subst e
    simp [hd.status_self, apart]
  · rcases hd.status m e with same | ⟨rfl, -, signal⟩
    · rw [same]
    · simp [signal, joined]

end Died

namespace Shaped

variable {q q' : WaitQueue} {h p n : NodeId} {body xs ys : List NodeId}

/-- A live node is linked to the live node behind it. -/
theorem next_eq (hq : Shaped q h (ys ++ n :: xs)) (live : (q.node n).isLive) :
    (q.node n).next = (ys.filter fun m => (q.node m).isLive).reverse.head? := by
  have nexts := hq.nexts_live
  rw [hq.live_split live, leads_append] at nexts
  simpa using nexts.2.1

theorem filter_died (hq : Shaped q h (ys ++ n :: xs)) (hd : Died q q' p n) (alive : (q.node p).isLive) :
    (ys.filter fun m => (q'.node m).isLive) = (ys.filter fun m => (q.node m).isLive) ∧
      (q.fromLive xs).filter (fun m => (q'.node m).isLive) = xs.filter fun m => (q.node m).isLive := by
  have nodup := hq.body_nodup
  rw [List.nodup_append, List.nodup_cons] at nodup
  constructor
  · exact List.filter_congr fun m hm => hd.life alive (nodup.2.2 m hm n (by simp))
  · rw [← q.filter_fromLive]
    refine List.filter_congr fun m hm => hd.life alive ?_
    rintro rfl
    exact nodup.2.1.1 ((q.fromLive_suffix xs).subset hm)

/-- The hints of those who stay lead past the one that dies. -/
theorem nexts_died (hq : Shaped q h (ys ++ n :: xs)) (live : (q.node n).isLive)
    (hp : (q.fromLive xs).head?.getD h = p) (hd : Died q q' p n) :
    Leads (fun m => (q'.node m).next) ((xs.filter fun m => (q.node m).isLive).reverse ++
      (ys.filter fun m => (q.node m).isLive).reverse) none := by
  have split := hq.live_split live
  have nodup := hq.live_nodup
  have hf := hp ▸ hq.follows_skip live
  have nexts := hq.nexts_live
  rw [split] at nexts nodup
  refine nexts.skip nodup (by simp) fun m hm => ?_
  have hlive : m ∈ q.live := by
    rw [split]
    simp only [List.mem_append, List.mem_cons] at hm ⊢
    tauto
  have ne_n : m ≠ n := by
    rintro rfl
    rw [List.nodup_append, List.nodup_cons] at nodup
    rcases List.mem_append.1 hm with hm | hm
    · exact nodup.2.2 m hm m (by simp) rfl
    · exact nodup.2.1.1 hm
  have hh : q.head = some h := hq.head_eq_of_mem (n := n) (by simp)
  by_cases e : m = p
  · subst e
    have ne : m ≠ h := fun e => hq.front_notMem_live (e ▸ hlive)
    rw [if_pos (hq.next_of_follows hf ne), hd.next_front (by simpa [hh] using ne.symm)]
  · rw [hd.next m ne_n e, if_neg]
    intro linked
    refine e ((hq.follows_column.1 hf).left_unique hq.column_nodup ?_).symm
    exact (hq.nexts_live.follows hlive linked (by simp)).cons

/-- What it takes for the nodes that are left to be in shape, wherever the dead node stood. -/
theorem apart_died (hq : Shaped q h (ys ++ n :: xs)) (live : (q.node n).isLive)
    (hp : (q.fromLive xs).head?.getD h = p) (hd : Died q q' p n) (m : NodeId)
    (hm : (q'.node m).status = .condition) :
    (q'.node m).actor.isSome ∧ (q'.node m).prev = none ∧ (q'.node m).next = none := by
  have hf := hp ▸ hq.follows_skip live
  have hpm := (hq.mem_of_follows hf).1
  have hm := (hd.waits (hq.joined n (by simp)) (hq.joined p hpm) m).1 hm
  have ne_n : m ≠ n := fun e => hq.joined m (by simp [e]) hm
  have ne_p : m ≠ p := fun e => hq.joined m (e ▸ hpm) hm
  rw [hd.actor m ne_n, hd.prev m ne_n, hd.next m ne_n ne_p]
  exact hq.apart m hm

theorem joined_died (hq : Shaped q h (ys ++ n :: xs)) (live : (q.node n).isLive)
    (hp : (q.fromLive xs).head?.getD h = p) (hd : Died q q' p n) (m : NodeId)
    (hm : m ∈ h :: (ys ++ n :: xs)) : (q'.node m).status ≠ .condition := by
  have hpm := (hq.mem_of_follows (hp ▸ hq.follows_skip live)).1
  exact mt (hd.waits (hq.joined n (by simp)) (hq.joined p hpm) m).1 (hq.joined m hm)

/-- The last one dies, and with it whoever was dead in front of it. -/
theorem rolledBack (hq : Shaped q h (n :: xs)) (live : (q.node n).isLive)
    (hp : (q.fromLive xs).head?.getD h = p) (hd : Died q q' p n) (tail : q'.tail = some p)
    (next_p : (q'.node p).next = none) : Shaped q' h (q.fromLive xs) := by
  have whole : Shaped q h ([] ++ n :: xs) := hq
  have alive := (hq.mem_of_follows (hp ▸ whole.follows_skip live)).2
  have front := hp ▸ whole.skip_eq_front
  have suffix := q.fromLive_suffix xs
  have ne_front : h ≠ n := fun e => hq.front_notMem (by simp [e])
  have ne : ∀ m ∈ q.fromLive xs, m ≠ n := by
    rintro m hm rfl
    exact (List.nodup_cons.1 hq.body_nodup).1 (suffix.subset hm)
  have lives := (whole.filter_died hd alive).2
  have next_h : p ≠ h → (q'.node h).next = (q.node h).next := fun e => hd.next h ne_front (Ne.symm e)
  have spine := hq.spine.rollBack hd.head (hp ▸ tail) hd.size hd.prev
    ((hd.life alive ne_front).trans hq.front_live) (whole.joined_died live hp hd)
  refine spine.shaped ?nexts ?next_front ?next_front_none ?next_settled ?tail_live ?front_actor ?actors
    (whole.apart_died live hp hd)
  case nexts =>
    rw [lives]
    simpa using whole.nexts_died live hp hd
  case next_front =>
    intro m hm
    by_cases e : p = h
    · rw [← e, next_p] at hm
      simp at hm
    · rw [next_h e] at hm
      refine (hq.next_front m hm).imp (hd.dead alive) fun first => ?_
      have some : xs.filter (fun m => (q.node m).isLive) ≠ [] := by
        rw [← q.filter_fromLive]
        obtain ⟨x, rest, hr⟩ := List.exists_cons_of_ne_nil (mt front.2 e)
        obtain rfl : x = p := by simpa [hr] using hp
        simp [hr, alive]
      rw [List.filter_cons_of_pos (by simpa using live)] at first
      rw [lives, ← first]
      exact (getLast?_of_suffix (List.suffix_cons n _) some).symm
  case next_front_none =>
    by_cases e : p = h
    · rw [← e, next_p]
      simpa using front.1 e
    · refine iff_of_false (fun none => ?_) (mt front.2 e)
      exact absurd (hq.next_front_none.1 (next_h e ▸ none)) (by simp)
  case next_settled =>
    intro m hm hl
    have mem : m ∈ q.fromLive xs := List.mem_of_getLast? hm
    have some : q.fromLive xs ≠ [] := List.ne_nil_of_mem mem
    rw [next_h (mt front.1 some)]
    rw [hd.life alive (ne m mem)] at hl
    exact hq.next_settled m ((getLast?_of_suffix (suffix.trans (List.suffix_cons n xs)) some).trans hm) hl
  case tail_live =>
    intro m hm
    rw [hd.life alive (ne m (List.mem_of_mem_head? hm))]
    rw [head?_fromLive] at hm
    exact List.find?_some (p := fun m => (q.node m).isLive) hm
  case front_actor => rw [hd.actor h ne_front, hq.front_actor]
  case actors =>
    intro m hm
    rw [hd.actor m (ne m hm), hd.life alive (ne m hm)]
    exact hq.actors m (List.mem_cons_of_mem n (suffix.subset hm))

/-- One dies with others behind it, and stays where it is until those pass it over. -/
theorem bypassed (hq : Shaped q h (ys ++ n :: xs)) (live : (q.node n).isLive) (behind : ys ≠ [])
    (hp : (q.fromLive xs).head?.getD h = p) (hd : Died q q' p n) (tail : q'.tail = q.tail)
    (next_h : (q'.node h).next = (q.node h).next) : Shaped q' h (ys ++ n :: q.fromLive xs) := by
  have alive := (hq.mem_of_follows (hp ▸ hq.follows_skip live)).2
  have ne_front : h ≠ n := fun e => hq.front_notMem (by simp [e])
  have ne_behind : ∀ m ∈ ys, m ≠ n := by
    rintro m hm rfl
    exact (List.nodup_append.1 hq.body_nodup).2.2 m hm m (by simp) rfl
  have head : ∀ zs : List NodeId, (ys ++ zs).head? = ys.head? := by
    obtain ⟨y, rest, rfl⟩ := List.exists_cons_of_ne_nil behind
    exact fun _ => rfl
  obtain ⟨lives_ys, lives_xs⟩ := hq.filter_died hd alive
  have lives : ((ys ++ n :: q.fromLive xs).filter fun m => (q'.node m).isLive) =
      ys.filter (fun m => (q.node m).isLive) ++ xs.filter fun m => (q.node m).isLive := by
    rw [List.filter_append, List.filter_cons_of_neg (by simp [hd.life_self]), lives_ys, lives_xs]
  have spine := hq.spine.skip hd.head tail hd.size (hp ▸ hd.prev_self) hd.prev
    ((hd.life alive ne_front).trans hq.front_live) (hq.joined_died live hp hd)
  refine spine.shaped ?nexts ?next_front ?next_front_none ?next_settled ?tail_live ?front_actor ?actors
    (hq.apart_died live hp hd)
  case nexts =>
    rw [lives, List.reverse_append]
    exact hq.nexts_died live hp hd
  case next_front =>
    intro m hm
    rw [next_h] at hm
    rcases hq.next_front m hm with dead | first
    · exact Or.inl (hd.dead alive dead)
    rw [List.filter_append, List.filter_cons_of_pos (by simpa using live), getLast?_append_cons,
      Option.some.injEq] at first
    by_cases none : xs.filter (fun m => (q.node m).isLive) = []
    · rw [none] at first
      exact Or.inl (first ▸ hd.life_self)
    · rw [lives, getLast?_of_suffix (List.suffix_append _ _) none, List.getLast?_eq_some_getLast none]
      rw [List.getLast?_eq_some_getLast none] at first
      exact Or.inr (congrArg some first)
  case next_front_none =>
    rw [next_h, hq.next_front_none]
    simp
  case next_settled =>
    intro m hm hl
    have ne : m ≠ n := by
      rintro rfl
      rw [hd.life_self] at hl
      simp at hl
    rw [hd.life alive ne] at hl
    rw [next_h]
    refine hq.next_settled m ?_ hl
    rw [getLast?_append_cons, Option.some.injEq] at hm ⊢
    by_cases none : q.fromLive xs = []
    · rw [none] at hm
      exact absurd hm.symm ne
    · rwa [getLast?_of_suffix (q.fromLive_suffix xs) none]
  case tail_live =>
    intro m hm
    rw [head] at hm
    rw [hd.life alive (ne_behind m (List.mem_of_mem_head? hm))]
    exact hq.tail_live m ((head _).trans hm)
  case front_actor => rw [hd.actor h ne_front, hq.front_actor]
  case actors =>
    intro m hm
    by_cases e : m = n
    · rw [e, hd.actor_self, hd.life_self]
      rfl
    · rw [hd.actor m e, hd.life alive e]
      exact hq.actors m ((sublist_skip q n xs ys).subset hm)

theorem skipDead_clearActor (hq : Shaped q h (ys ++ n :: xs))
    (hp : (q.fromLive xs).head?.getD h = p) :
    (q.clearActor n).skipDead n = ((q.clearActor n).setPrev n (some p), some p) :=
  hq.spine.skipDead_clearActor hp

theorem live_died (hq : Shaped q h (ys ++ n :: xs)) (live : (q.node n).isLive)
    (hd : Died q q' p n) (alive : (q.node p).isLive) {body' : List NodeId} (hq' : Shaped q' h body')
    (left : (body'.filter fun m => (q'.node m).isLive) =
      ((ys ++ q.fromLive xs).filter fun m => (q'.node m).isLive)) : q'.live = q.live.erase n := by
  obtain ⟨lives_ys, lives_xs⟩ := hq.filter_died hd alive
  have nodup := hq.live_nodup
  rw [hq.live_split live, List.nodup_append] at nodup
  have apart : n ∉ (xs.filter fun m => (q.node m).isLive).reverse := fun hm =>
    nodup.2.2 n hm n (by simp) rfl
  rw [hq'.live_eq, left, List.filter_append, lives_ys, lives_xs, hq.live_split live,
    List.erase_append_right _ apart, List.erase_cons_head, List.reverse_append]

end Shaped

end Turnstile.WaitQueue
