import Turnstile.Proofs.Queue.Spine

/-! The shape of a wait queue: its spine, and what else the links, the actors and the statuses of its nodes
keep to. -/
namespace Turnstile.WaitQueue

/-- Nothing that the keeper of a node other than `n` relies on differs. -/
structure Spares (q q' : WaitQueue) (n : NodeId) : Prop where
  actor : ∀ m, m ≠ n → (q'.node m).actor = (q.node m).actor
  mode : ∀ m, m ≠ n → (q'.node m).mode = (q.node m).mode
  prev : ∀ m, m ≠ n → (q'.node m).prev = (q.node m).prev
  waits : ∀ m, m ≠ n → ((q'.node m).status = .condition ↔ (q.node m).status = .condition)
  live : ∀ m, m ≠ n → (m ∈ q'.live ↔ m ∈ q.live)

theorem lt_of_dead {q : WaitQueue} {n : NodeId} (h : (q.node n).isLive = false) :
    n < q.nodes.size := by
  by_contra hn
  rw [node_of_size_le (Nat.le_of_not_lt hn)] at h
  exact absurd h (by decide)

/-- Links hold the nodes of `body` together, from the tail on, and in front of them `h`. Before the
queue is opened it is the placeholder that stands in front, and it is not yet the head. -/
structure Shaped (q : WaitQueue) (h : NodeId) (body : List NodeId) : Prop where
  ends : (q.head = some h ∧ q.tail = some (body.head?.getD h)) ∨
    (q.head = none ∧ q.tail = none ∧ body = [] ∧ h = placeholder)
  nodup : (h :: body).Nodup
  inTable : ∀ n ∈ h :: body, n < q.nodes.size
  prevs : Leads (fun n => (q.node n).prev) body (some h)
  prev_front : (q.node h).prev = none
  /-- The hints of the live nodes are right. -/
  nexts : Leads (fun n => (q.node n).next) (body.filter fun n => (q.node n).isLive).reverse none
  /-- In front the hint may lead to a node that has given up, -/
  next_front : ∀ m, (q.node h).next = some m →
    (q.node m).isLive = false ∨ (body.filter fun n => (q.node n).isLive).getLast? = some m
  /-- but it is there if anyone waits, -/
  next_front_none : (q.node h).next = none ↔ body = []
  /-- and is right once the node behind is live. -/
  next_settled : ∀ m, body.getLast? = some m → (q.node m).isLive → (q.node h).next = some m
  front_live : (q.node h).isLive
  tail_live : ∀ n, body.head? = some n → (q.node n).isLive
  front_actor : (q.node h).actor = none
  actors : ∀ n ∈ body, (q.node n).actor.isSome = (q.node n).isLive
  joined : ∀ n ∈ h :: body, (q.node n).status ≠ .condition
  apart : ∀ n, (q.node n).status = .condition →
    (q.node n).actor.isSome ∧ (q.node n).prev = none ∧ (q.node n).next = none

/-- What is to be seen to besides the spine: the hints, the actors, and whoever waits on a condition. -/
theorem Spine.shaped {q : WaitQueue} {h : NodeId} {body : List NodeId} (spine : Spine q h body)
    (nexts : Leads (fun n => (q.node n).next) (body.filter fun n => (q.node n).isLive).reverse none)
    (next_front : ∀ m, (q.node h).next = some m →
      (q.node m).isLive = false ∨ (body.filter fun n => (q.node n).isLive).getLast? = some m)
    (next_front_none : (q.node h).next = none ↔ body = [])
    (next_settled : ∀ m, body.getLast? = some m → (q.node m).isLive → (q.node h).next = some m)
    (tail_live : ∀ n, body.head? = some n → (q.node n).isLive) (front_actor : (q.node h).actor = none)
    (actors : ∀ n ∈ body, (q.node n).actor.isSome = (q.node n).isLive)
    (apart : ∀ n, (q.node n).status = .condition →
      (q.node n).actor.isSome ∧ (q.node n).prev = none ∧ (q.node n).next = none) : Shaped q h body :=
  ⟨spine.ends, spine.nodup, spine.inTable, spine.prevs, spine.prev_front, nexts, next_front,
    next_front_none, next_settled, spine.front_live, tail_live, front_actor, actors, spine.joined, apart⟩

namespace Shaped

variable {q : WaitQueue} {h n : NodeId} {body : List NodeId}

theorem shaped_empty : Shaped .empty placeholder [] := by
  refine ⟨Or.inr ⟨rfl, rfl, rfl, rfl⟩, by simp, by simp [empty, placeholder], trivial, ?_, trivial,
    ?_, ?_, by simp, ?_, by simp, ?_, by simp, ?_, ?_⟩ <;> simp [node_empty, Node.isLive]

theorem spine (hq : Shaped q h body) : Spine q h body where
  ends := hq.ends
  nodup := hq.nodup
  inTable := hq.inTable
  prevs := hq.prevs
  prev_front := hq.prev_front
  front_live := hq.front_live
  joined := hq.joined

theorem body_nodup (hq : Shaped q h body) : body.Nodup := hq.spine.body_nodup

theorem front_notMem (hq : Shaped q h body) : h ∉ body := hq.spine.front_notMem

theorem backward_eq (hq : Shaped q h body) :
    q.backward = if q.head.isSome then body ++ [h] else [] := hq.spine.backward_eq

theorem live_eq (hq : Shaped q h body) :
    q.live = (body.filter fun n => (q.node n).isLive).reverse := hq.spine.live_eq

theorem nexts_live (hq : Shaped q h body) : Leads (fun n => (q.node n).next) q.live none :=
  hq.live_eq ▸ hq.nexts

theorem mem_live (hq : Shaped q h body) : n ∈ q.live ↔ n ∈ body ∧ (q.node n).isLive := hq.spine.mem_live

theorem live_nodup (hq : Shaped q h body) : q.live.Nodup := hq.spine.live_nodup

theorem front_notMem_live (hq : Shaped q h body) : h ∉ q.live := fun hm =>
  hq.front_notMem (hq.mem_live.1 hm).1

theorem live_eq_nil (hq : Shaped q h body) : q.live = [] ↔ body = [] := by
  rw [hq.live_eq, List.reverse_eq_nil_iff, List.filter_eq_nil_iff]
  constructor
  · intro none
    cases body with
    | nil => rfl
    | cons n rest => exact absurd (hq.tail_live n rfl) (none n (by simp))
  · rintro rfl
    simp

/-- A change that leaves the links, the actors and the life of these nodes leaves their shape. -/
theorem congr (hq : Shaped q h body) {q' : WaitQueue} (head : q'.head = q.head)
    (tail : q'.tail = q.tail) (size : q.nodes.size ≤ q'.nodes.size)
    (prev : ∀ n ∈ h :: body, (q'.node n).prev = (q.node n).prev)
    (next : ∀ n ∈ h :: body, (q'.node n).next = (q.node n).next)
    (actor : ∀ n ∈ h :: body, (q'.node n).actor = (q.node n).actor)
    (life : ∀ n ∈ h :: body, (q'.node n).isLive = (q.node n).isLive)
    (dead : ∀ n, (q.node n).isLive = false → (q'.node n).isLive = false)
    (joined : ∀ n ∈ h :: body, (q'.node n).status ≠ .condition)
    (apart : ∀ n, (q'.node n).status = .condition →
      (q'.node n).actor.isSome ∧ (q'.node n).prev = none ∧ (q'.node n).next = none) :
    Shaped q' h body := by
  have front : h ∈ h :: body := by simp
  have behind : ∀ n ∈ body, n ∈ h :: body := fun n hn => by simp [hn]
  have lives : (body.filter fun n => (q'.node n).isLive) = body.filter fun n => (q.node n).isLive :=
    List.filter_congr fun n hn => life n (behind n hn)
  have spine := hq.spine.congr head tail size prev ((life h front).trans hq.front_live) joined
  refine spine.shaped ?nexts ?next_front ?next_front_none ?next_settled ?tail_live ?front_actor ?actors apart
  case nexts =>
    rw [lives]
    refine hq.nexts.congr fun n hn => next n (behind n ?_)
    exact (List.mem_filter.1 (List.mem_reverse.1 hn)).1
  case next_front =>
    intro m hm
    rw [lives]
    exact (hq.next_front m (next h front ▸ hm)).imp_left (dead m)
  case next_front_none => rw [next h front, hq.next_front_none]
  case next_settled =>
    intro m hm
    rw [next h front, life m (behind m (List.mem_of_mem_getLast? hm))]
    exact hq.next_settled m hm
  case tail_live =>
    intro m hm
    rw [life m (behind m (List.mem_of_mem_head? hm))]
    exact hq.tail_live m hm
  case front_actor => rw [actor h front, hq.front_actor]
  case actors =>
    intro m hm
    rw [actor m (behind m hm), life m (behind m hm)]
    exact hq.actors m hm

theorem head_eq_of_mem (hq : Shaped q h body) (hn : n ∈ body) : q.head = some h :=
  hq.spine.head_eq_of_mem hn

theorem head_isSome_or (hq : Shaped q h body) : q.head = some h ∨ (q.head = none ∧ body = []) :=
  hq.spine.head_isSome_or

theorem eq_of_head (hq : Shaped q h body) {k : NodeId} (head : q.head = some k) : h = k := by
  rcases hq.head_isSome_or with hh | ⟨hh, -⟩
  · exact Option.some.inj (hh.symm.trans head)
  · simp [hh] at head

theorem follows_column (hq : Shaped q h body) {p : NodeId} :
    Follows q.column p n ↔ Follows (h :: q.live) p n := by
  rcases hq.head_isSome_or with hh | ⟨hh, hb⟩
  · simp [column, hh]
  · simp [column, hh, hq.live_eq_nil.2 hb, Follows]

theorem column_nodup (hq : Shaped q h body) : (h :: q.live).Nodup :=
  List.nodup_cons.2 ⟨hq.front_notMem_live, hq.live_nodup⟩

theorem getLast?_column (hq : Shaped q h body) :
    (h :: q.live).getLast? = some (body.head?.getD h) := by
  cases body with
  | nil => simp [hq.live_eq_nil.2 rfl]
  | cons l rest =>
    rw [hq.live_eq, List.filter_cons_of_pos (by simpa using hq.tail_live l rfl)]
    simp [List.getLast?_cons]

theorem life_setStatus {p : NodeId} {s : Status} (alive : (q.node p).isLive)
    (hs : s.isDead = false) (m : NodeId) :
    ((q.setStatus p s).node m).isLive = (q.node m).isLive := by
  by_cases e : m = p
  · subst e
    by_cases hm : m < q.nodes.size
    · rw [alive]
      simp [Node.isLive, status_setStatus_self s hm, hs]
    · rw [node_of_size_le (by simpa using hm), node_of_size_le (by simpa using hm)]
  · simp [Node.isLive, e]

theorem status_setStatus_ne {p : NodeId} {s t : Status} (hs : s ≠ t) {m : NodeId}
    (hm : (q.node m).status ≠ t) : ((q.setStatus p s).node m).status ≠ t := by
  by_cases e : m = p
  · subst e
    by_cases hlt : m < q.nodes.size
    · rwa [status_setStatus_self s hlt]
    · rw [node_of_size_le (by simpa using hlt)] at hm ⊢
      exact hm
  · rwa [status_setStatus_of_ne q s e]

/-- Live nodes may say anything but that they wait on a condition. -/
theorem setStatus (hq : Shaped q h body) {p : NodeId} {s : Status} (alive : (q.node p).isLive)
    (hs : s.isDead = false) (hc : s ≠ .condition) : Shaped (q.setStatus p s) h body := by
  have life := life_setStatus alive hs
  refine hq.congr rfl rfl (by simp) (by simp) (by simp) (by simp) (fun m _ => life m)
    (fun m hm => (life m).trans hm) (fun m hm => status_setStatus_ne hc (hq.joined m hm)) ?_
  intro m hm
  simpa using hq.apart m (by_contra fun hn => status_setStatus_ne hc hn hm)

theorem live_setStatus (hq : Shaped q h body) {p : NodeId} {s : Status} (alive : (q.node p).isLive)
    (hs : s.isDead = false) (hc : s ≠ .condition) : (q.setStatus p s).live = q.live := by
  rw [(hq.setStatus alive hs hc).live_eq, hq.live_eq]
  simp only [life_setStatus alive hs]

section split

variable {xs ys : List NodeId}

theorem prev_eq (hq : Shaped q h (ys ++ n :: xs)) : (q.node n).prev = some (xs.head?.getD h) :=
  hq.spine.prev_eq

theorem nearest_eq (hq : Shaped q h (ys ++ n :: xs)) :
    q.nearest n = some ((xs.find? fun p => (q.node p).isLive).getD h) := hq.spine.nearest_eq

theorem live_split (hq : Shaped q h (ys ++ n :: xs)) (live : (q.node n).isLive) :
    q.live = (xs.filter fun m => (q.node m).isLive).reverse ++
      n :: (ys.filter fun m => (q.node m).isLive).reverse := hq.spine.live_split live

end split

theorem mem_of_follows (hq : Shaped q h body) {p : NodeId} (hf : Follows q.column p n) :
    p ∈ h :: body ∧ (q.node p).isLive := by
  rcases List.mem_cons.1 (hq.follows_column.1 hf).mem_left with rfl | hp
  · exact ⟨by simp, hq.front_live⟩
  · exact (hq.mem_live.1 hp).imp_left (List.mem_cons_of_mem _)

theorem holds_of_mem (hq : Shaped q h body) (hn : n ∈ q.live) : q.holds n = true := by
  obtain ⟨hb, -⟩ := hq.mem_live.1 hn
  have found : n ∈ q.backward := by
    rw [hq.backward_eq, hq.head_eq_of_mem hb]
    simp [hb]
  have joined := hq.joined n (List.mem_cons_of_mem h hb)
  obtain ⟨ys, xs, rfl⟩ := List.append_of_mem hb
  simp [holds, joined, hq.prev_eq, found]

theorem nodup_column (hq : Shaped q h body) : q.column.Nodup := by
  rcases hq.head_isSome_or with hh | ⟨hh, -⟩
  · simpa [column, hh] using hq.column_nodup
  · simpa [column, hh] using hq.live_nodup

theorem ne_head (hq : Shaped q h body) (hn : n ∈ q.live) : q.head ≠ some n := by
  rw [hq.head_eq_of_mem (hq.mem_live.1 hn).1]
  exact fun e => hq.front_notMem_live (Option.some.inj e ▸ hn)

theorem actor_of_mem (hq : Shaped q h body) (hn : n ∈ q.live) : ∃ a, (q.node n).actor = some a := by
  obtain ⟨hb, live⟩ := hq.mem_live.1 hn
  exact Option.isSome_iff_exists.1 ((hq.actors n hb).trans live)

/-- Only the first of the live stands behind the head. -/
theorem follows_head (hq : Shaped q h body) {k f : NodeId} (hk : q.head = some k)
    (hf : q.live.head? = some f) (hn : Follows q.column k n) : f = n := by
  have nodup := hq.nodup_column
  rw [column, hk, Option.toList_some, List.singleton_append] at hn nodup
  rcases hn with ⟨-, first⟩ | hn
  · simpa [hf] using first
  · exact absurd hn.mem_left (List.nodup_cons.1 nodup).1

theorem head_follows (hq : Shaped q h body) {f : NodeId} (hf : q.live.head? = some f) :
    q.head = some h ∧ Follows q.column h f := by
  have hh := hq.head_eq_of_mem (hq.mem_live.1 (List.mem_of_mem_head? hf)).1
  refine ⟨hh, ?_⟩
  rw [column, hh]
  exact Or.inl ⟨rfl, hf⟩

theorem mem_live_of_follows (hq : Shaped q h body) {p : NodeId} (hf : Follows q.column p n) :
    n ∈ q.live := (hq.follows_column.1 hf).mem_right

/-- Between live nodes the hint is right. -/
theorem next_of_follows (hq : Shaped q h body) {p : NodeId} (hf : Follows q.column p n)
    (hp : p ≠ h) : (q.node p).next = some n := by
  rcases hq.follows_column.1 hf with ⟨rfl, -⟩ | hf
  · exact absurd rfl hp
  · exact hq.nexts_live.of_follows hf

theorem nearest_of_mem (hq : Shaped q h body) (hn : n ∈ q.live) :
    ∃ p, q.nearest n = some p ∧ Follows q.column p n := by
  obtain ⟨hb, live⟩ := hq.mem_live.1 hn
  obtain ⟨ys, xs, rfl⟩ := List.append_of_mem hb
  refine ⟨_, hq.nearest_eq, hq.follows_column.2 ?_⟩
  rw [hq.live_split live, ← List.head?_filter]
  cases xs.filter fun m => (q.node m).isLive with
  | nil => exact Or.inl ⟨rfl, rfl⟩
  | cons p rest => simpa using follows_middle (h :: rest.reverse) _

end Shaped

end Turnstile.WaitQueue
