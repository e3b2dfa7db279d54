import Mathlib.Data.List.Nodup
import Turnstile.Proofs.Queue.Chain
import Turnstile.Proofs.Queue.Fields

/-! The spine of a wait queue: the nodes that the links back from the tail hold together, dead ones among
them, and the live nodes in the order in which they came. -/
namespace Turnstile.WaitQueue

/-- The nodes that wait in the queue, from the one that came first. -/
def live (q : WaitQueue) : List NodeId :=
  (q.backward.filter fun n => (q.node n).isLive && !q.isHead n).reverse

/-- The head and those who wait behind it. -/
def column (q : WaitQueue) : List NodeId := q.head.toList ++ q.live

/-- The nearest node before the given one that has not given up. -/
def nearest (q : WaitQueue) (n : NodeId) : Option NodeId :=
  (q.backFrom (q.node n).prev).find? fun p => (q.node p).isLive

def fromLive (q : WaitQueue) (xs : List NodeId) : List NodeId :=
  xs.dropWhile fun m => !(q.node m).isLive

section fromLive

variable (q : WaitQueue) (n : NodeId) (xs ys : List NodeId)

theorem fromLive_suffix : q.fromLive xs <:+ xs := List.dropWhile_suffix _

theorem filter_fromLive :
    ((q.fromLive xs).filter fun m => (q.node m).isLive) = xs.filter fun m => (q.node m).isLive := by
  induction xs with
  | nil => rfl
  | cons x rest ih =>
    by_cases hx : (q.node x).isLive
    · simp [fromLive, hx]
    · simpa [fromLive, hx] using ih

theorem filter_skip : ((ys ++ n :: q.fromLive xs).filter fun m => (q.node m).isLive) =
    (ys ++ n :: xs).filter fun m => (q.node m).isLive := by
  simp only [List.filter_append, List.filter_cons, q.filter_fromLive]

theorem head?_fromLive : (q.fromLive xs).head? = xs.find? fun m => (q.node m).isLive := by
  induction xs with
  | nil => rfl
  | cons x rest ih =>
    by_cases hx : (q.node x).isLive
    · simp [fromLive, hx]
    · simpa [fromLive, hx] using ih

theorem sublist_skip : List.Sublist (ys ++ n :: q.fromLive xs) (ys ++ n :: xs) :=
  List.Sublist.append_left (List.Sublist.cons_cons n (q.fromLive_suffix xs).sublist) ys

end fromLive

theorem last_mem (h : NodeId) (body : List NodeId) : body.head?.getD h ∈ h :: body := by
  cases body <;> simp

theorem node_empty (n : NodeId) : empty.node n = {} := by
  by_cases hn : n = 0
  · subst hn
    rfl
  · exact node_of_size_le (show 1 ≤ n from Nat.pos_of_ne_zero hn)

/-- Links hold the nodes of `body` together, from the tail on, and in front of them `h`, which has not given
up. Before the queue is opened it is the placeholder that stands in front, and it is not yet the head. -/
structure Spine (q : WaitQueue) (h : NodeId) (body : List NodeId) : Prop where
  ends : (q.head = some h ∧ q.tail = some (body.head?.getD h)) ∨
    (q.head = none ∧ q.tail = none ∧ body = [] ∧ h = placeholder)
  nodup : (h :: body).Nodup
  inTable : ∀ n ∈ h :: body, n < q.nodes.size
  prevs : Leads (fun n => (q.node n).prev) body (some h)
  prev_front : (q.node h).prev = none
  front_live : (q.node h).isLive
  joined : ∀ n ∈ h :: body, (q.node n).status ≠ .condition

namespace Spine

variable {q : WaitQueue} {h n : NodeId} {body : List NodeId}

theorem empty : Spine .empty placeholder [] := by
  refine ⟨Or.inr ⟨rfl, rfl, rfl, rfl⟩, by simp, by simp [WaitQueue.empty, placeholder], trivial, ?_, ?_, ?_⟩ <;>
    simp [node_empty, Node.isLive]

theorem body_nodup (hq : Spine q h body) : body.Nodup := (List.nodup_cons.1 hq.nodup).2

theorem front_notMem (hq : Spine q h body) : h ∉ body := (List.nodup_cons.1 hq.nodup).1

theorem backFrom_head? (hq : Spine q h body) (xs ys : List NodeId)
    (hb : body ++ [h] = ys ++ xs) : q.backFrom xs.head? = xs := by
  have all : Leads (fun n => (q.node n).prev) (body ++ [h]) none := by
    rw [leads_append]
    exact ⟨by simpa using hq.prevs, by simp [Leads, hq.prev_front]⟩
  have nodup : (body ++ [h]).Nodup :=
    (List.perm_append_singleton h body).nodup_iff.2 hq.nodup
  have lt : ∀ n ∈ body ++ [h], n < q.nodes.size := fun n hn => hq.inTable n (by simpa [or_comm] using hn)
  rw [hb] at all nodup lt
  refine trail_of_leads (leads_append.1 all).2 ?_
  exact length_le_of_nodup (List.nodup_append.1 nodup).2.1 fun n hn => lt n (by simp [hn])

theorem backward_eq (hq : Spine q h body) :
    q.backward = if q.head.isSome then body ++ [h] else [] := by
  rcases hq.ends with ⟨hh, ht⟩ | ⟨hh, ht, -, -⟩
  · have := hq.backFrom_head? (body ++ [h]) [] rfl
    rw [List.head?_append, List.head?_singleton, Option.or_some] at this
    simp [backward, ht, hh, this]
  · simp [backward, backFrom, ht, hh]

theorem live_eq (hq : Spine q h body) :
    q.live = (body.filter fun n => (q.node n).isLive).reverse := by
  have others : ∀ n ∈ body, n ≠ h := fun n hn e => hq.front_notMem (e ▸ hn)
  rcases hq.ends with ⟨hh, -⟩ | ⟨hh, -, rfl, -⟩
  · rw [live, hq.backward_eq, hh, Option.isSome_some, if_pos rfl, List.filter_append]
    have : (body.filter fun n => (q.node n).isLive && !q.isHead n) =
        body.filter fun n => (q.node n).isLive :=
      List.filter_congr fun n hn => by simp [isHead, hh, (others n hn).symm]
    rw [this]
    simp [isHead, hh]
  · simp [live, hq.backward_eq, hh]

theorem mem_live (hq : Spine q h body) : n ∈ q.live ↔ n ∈ body ∧ (q.node n).isLive := by
  simp [hq.live_eq]

theorem live_nodup (hq : Spine q h body) : q.live.Nodup := by
  rw [hq.live_eq, List.nodup_reverse]
  exact hq.body_nodup.filter _

theorem head_eq_of_mem (hq : Spine q h body) (hn : n ∈ body) : q.head = some h := by
  rcases hq.ends with ⟨hh, -⟩ | ⟨-, -, rfl, -⟩
  · exact hh
  · simp at hn

theorem head_isSome_or (hq : Spine q h body) : q.head = some h ∨ (q.head = none ∧ body = []) :=
  hq.ends.imp (·.1) fun ends => ⟨ends.1, ends.2.2.1⟩

theorem ne_front (hq : Spine q h body) (hn : n ∈ q.live) : n ≠ h := fun e =>
  hq.front_notMem (e ▸ (hq.mem_live.1 hn).1)

theorem notMem_of_waits (hq : Spine q h body) (waits : (q.node n).status = .condition) : n ∉ h :: body :=
  fun hm => hq.joined n hm waits

section split

variable {xs ys : List NodeId}

theorem prev_eq (hq : Spine q h (ys ++ n :: xs)) : (q.node n).prev = some (xs.head?.getD h) := by
  refine (leads_append.1 hq.prevs).2.1.trans ?_
  cases xs <;> rfl

theorem tail_eq (hq : Spine q h (ys ++ n :: xs)) : q.tail = some n ↔ ys = [] := by
  rcases hq.ends with ⟨-, ht⟩ | ⟨-, -, hb, -⟩
  · rw [ht]
    cases ys with
    | nil => simp
    | cons y rest =>
      have ne : y ≠ n := by
        rintro rfl
        have := hq.body_nodup
        simp at this
      simpa using ne
  · simp at hb

theorem backFrom_prev (hq : Spine q h (ys ++ n :: xs)) : q.backFrom (q.node n).prev = xs ++ [h] := by
  have := hq.backFrom_head? (xs ++ [h]) (ys ++ [n]) (by simp)
  rw [hq.prev_eq]
  cases xs <;> simpa using this

theorem nearest_eq (hq : Spine q h (ys ++ n :: xs)) :
    q.nearest n = some ((xs.find? fun p => (q.node p).isLive).getD h) := by
  rw [nearest, hq.backFrom_prev, List.find?_append]
  cases xs.find? fun p => (q.node p).isLive <;> simp [hq.front_live]

theorem live_split (hq : Spine q h (ys ++ n :: xs)) (live : (q.node n).isLive) :
    q.live = (xs.filter fun m => (q.node m).isLive).reverse ++
      n :: (ys.filter fun m => (q.node m).isLive).reverse := by
  simp [hq.live_eq, List.filter_append, live]

theorem nearest_live (hq : Spine q h (ys ++ n :: xs)) {p : NodeId} (hp : (q.fromLive xs).head?.getD h = p) :
    p ∈ h :: q.fromLive xs ∧ p ≠ n ∧ (q.node p).isLive := by
  have hm := last_mem h (q.fromLive xs)
  rw [hp] at hm
  refine ⟨hm, ?_, ?_⟩
  · rintro rfl
    rcases List.mem_cons.1 hm with e | hm
    · exact hq.front_notMem (by simp [e])
    · have nodup := (List.nodup_append.1 hq.body_nodup).2.1
      exact (List.nodup_cons.1 nodup).1 ((q.fromLive_suffix xs).subset hm)
  · cases e : (q.fromLive xs).head? with
    | none =>
      rw [e] at hp
      obtain rfl : h = p := hp
      exact hq.front_live
    | some k =>
      rw [e] at hp
      obtain rfl : k = p := hp
      rw [head?_fromLive] at e
      simpa using List.find?_some e

/-- The nearest node in front is live, and nothing but dead nodes stands between. -/
theorem skipDead_eq (hq : Spine q h (ys ++ n :: xs)) :
    q.skipDead n = (q.setPrev n (some ((q.fromLive xs).head?.getD h)),
      some ((q.fromLive xs).head?.getD h)) := by
  have := hq.nearest_eq
  rw [nearest] at this
  simp [skipDead, this, head?_fromLive]

theorem skipDead_clearActor (hq : Spine q h (ys ++ n :: xs)) {p : NodeId}
    (hp : (q.fromLive xs).head?.getD h = p) :
    (q.clearActor n).skipDead n = ((q.clearActor n).setPrev n (some p), some p) := by
  have same : (q.clearActor n).nearest n = q.nearest n := by
    simp [nearest, backFrom, Node.isLive]
  have found := hq.nearest_eq
  rw [← head?_fromLive, hp, ← same] at found
  rw [nearest] at found
  unfold skipDead
  dsimp only
  rw [found, Option.some_or]

theorem prevs_skip (hq : Spine q h (ys ++ n :: xs)) {q' : WaitQueue}
    (prev_n : (q'.node n).prev = some ((q.fromLive xs).head?.getD h))
    (prev_ne : ∀ m, m ≠ n → (q'.node m).prev = (q.node m).prev) :
    Leads (fun m => (q'.node m).prev) (ys ++ n :: q.fromLive xs) (some h) := by
  have ne := hq.body_nodup
  rw [List.nodup_append, List.nodup_cons] at ne
  obtain ⟨ds, hds⟩ := q.fromLive_suffix xs
  have prevs := hq.prevs
  rw [leads_append] at prevs ⊢
  refine ⟨prevs.1.congr fun m hm => prev_ne m ?_, ?_, ?_⟩
  · exact ne.2.2 m hm n (by simp)
  · exact prev_n.trans (by cases q.fromLive xs <;> rfl)
  · have rest := prevs.2.2
    rw [← hds, leads_append] at rest
    refine rest.2.congr fun m hm => prev_ne m ?_
    rintro rfl
    exact ne.2.1.1 (hds ▸ List.mem_append_right _ hm)

end split

theorem enqueue_eq (hq : Spine q h body) (n : NodeId) :
    q.enqueue n = ((((q.setPrev n (some (body.head?.getD h))).setNext (body.head?.getD h)
      (some n)).between (some h) (some n)), body.head?.getD h) := by
  rcases hq.ends with ⟨hh, ht⟩ | ⟨hh, ht, rfl, rfl⟩
  · simp [WaitQueue.enqueue, opened, hh, ht, between]
  · simp [WaitQueue.enqueue, opened, ht, between]
    rfl

section changes

variable {q' : WaitQueue} {xs ys : List NodeId}

/-- A change that leaves the links back and the life of these nodes leaves their spine. -/
theorem congr (hq : Spine q h body) (head : q'.head = q.head) (tail : q'.tail = q.tail)
    (size : q.nodes.size ≤ q'.nodes.size)
    (prev : ∀ m ∈ h :: body, (q'.node m).prev = (q.node m).prev) (front : (q'.node h).isLive)
    (joined : ∀ m ∈ h :: body, (q'.node m).status ≠ .condition) : Spine q' h body where
  ends := by
    rw [head, tail]
    exact hq.ends
  nodup := hq.nodup
  inTable m hm := Nat.lt_of_lt_of_le (hq.inTable m hm) size
  prevs := hq.prevs.congr fun m hm => prev m (List.mem_cons_of_mem _ hm)
  prev_front := by rw [prev h (by simp), hq.prev_front]
  front_live := front
  joined := joined

theorem create (hq : Spine q h body) (mode : Mode) (status : Status) (a : ActorId) :
    Spine (q.create mode status a).1 h body := by
  have same : ∀ m ∈ h :: body, (q.create mode status a).1.node m = q.node m := fun m hm =>
    q.node_create_of_ne mode status a (Nat.ne_of_lt (hq.inTable m hm))
  refine hq.congr rfl rfl ?_ (fun m hm => by rw [same m hm]) ?_ fun m hm => ?_
  · rw [size_create]
    exact Nat.le_succ _
  · rw [same h (by simp)]
    exact hq.front_live
  · rw [same m hm]
    exact hq.joined m hm

theorem enqueue (hq : Spine q h body) (outside : n ∉ h :: body) (inTable : n < q.nodes.size)
    (apart : (q.node n).status ≠ .condition) : Spine (q.enqueue n).1 h (n :: body) := by
  have last := last_mem h body
  have linked := WaitQueue.linked (hq.inTable _ last) inTable
  rw [hq.enqueue_eq n]
  set q' := (q.setPrev n (some (body.head?.getD h))).setNext (body.head?.getD h) (some n)
  have ne : ∀ m ∈ h :: body, m ≠ n := fun m hm e => outside (e ▸ hm)
  constructor
  case ends => exact Or.inl ⟨rfl, rfl⟩
  case nodup =>
    refine List.nodup_cons.2 ⟨?_, List.nodup_cons.2 ⟨fun hn => outside (by simp [hn]), hq.body_nodup⟩⟩
    simpa using ⟨ne h (by simp), hq.front_notMem⟩
  case inTable =>
    intro m hm
    rw [size_between, linked.size]
    rcases List.mem_cons.1 hm with rfl | hm
    · exact hq.inTable m (by simp)
    rcases List.mem_cons.1 hm with rfl | hm
    · exact inTable
    · exact hq.inTable m (by simp [hm])
  case prevs =>
    constructor
    · exact linked.prev_self.trans (by cases body <;> rfl)
    · exact hq.prevs.congr fun m hm => linked.prev m (ne m (by simp [hm]))
  case prev_front => exact (linked.prev h (ne h (by simp))).trans hq.prev_front
  case front_live => exact (linked.isLive h).trans hq.front_live
  case joined =>
    intro m hm
    rw [node_between, linked.status]
    rcases List.mem_cons.1 hm with rfl | hm
    · exact hq.joined m (by simp)
    rcases List.mem_cons.1 hm with rfl | hm
    · exact apart
    · exact hq.joined m (by simp [hm])

theorem promote (hq : Spine q h (ys ++ [n])) (alive : (q.node n).isLive) : Spine (q.promote n) n ys := by
  have eq := q.promote_eq n
  have nodup := hq.body_nodup
  have ne : ∀ m ∈ ys, m ≠ n := by
    rintro m hm rfl
    exact (List.nodup_append.1 nodup).2.2 m hm m (by simp) rfl
  have mem : ∀ m ∈ n :: ys, m ∈ ys ++ [n] := fun m hm => by simpa [or_comm] using hm
  constructor
  case ends =>
    refine Or.inl ⟨rfl, ?_⟩
    rcases hq.ends with ⟨-, tail⟩ | ⟨-, -, none, -⟩
    · rw [eq, tail_setPrev, tail_clearActor, tail_between, tail]
      cases ys <;> rfl
    · simp at none
  case nodup => exact (List.perm_append_singleton n ys).nodup_iff.1 nodup
  case inTable => exact fun m hm => by simpa [eq] using hq.inTable m (List.mem_cons_of_mem h (mem m hm))
  case prevs => exact (leads_append.1 hq.prevs).1.congr fun m hm => by simp [eq, ne m hm]
  case prev_front =>
    rw [eq]
    exact prev_setPrev_self none (by simpa using hq.inTable n (by simp))
  case front_live => simpa [eq, Node.isLive] using alive
  case joined => exact fun m hm => by simpa [eq] using hq.joined m (List.mem_cons_of_mem h (mem m hm))

/-- Dead nodes in front of one may be passed over. -/
theorem skip (hq : Spine q h (ys ++ n :: xs)) (head : q'.head = q.head) (tail : q'.tail = q.tail)
    (size : q'.nodes.size = q.nodes.size)
    (prev_n : (q'.node n).prev = some ((q.fromLive xs).head?.getD h))
    (prev : ∀ m, m ≠ n → (q'.node m).prev = (q.node m).prev)
    (front : (q'.node h).isLive) (joined : ∀ m ∈ h :: (ys ++ n :: xs), (q'.node m).status ≠ .condition) :
    Spine q' h (ys ++ n :: q.fromLive xs) := by
  have sub : List.Sublist (h :: (ys ++ n :: q.fromLive xs)) (h :: (ys ++ n :: xs)) :=
    (q.sublist_skip n xs ys).cons_cons h
  have ne : h ≠ n := fun e => hq.front_notMem (by simp [e])
  constructor
  case ends =>
    rw [head, tail]
    rcases hq.ends with ends | ⟨-, -, none, -⟩
    · refine Or.inl ⟨ends.1, ends.2.trans ?_⟩
      cases ys <;> rfl
    · simp at none
  case nodup => exact hq.nodup.sublist sub
  case inTable => exact fun m hm => size ▸ hq.inTable m (sub.subset hm)
  case prevs => exact hq.prevs_skip prev_n prev
  case prev_front => rw [prev h ne, hq.prev_front]
  case front_live => exact front
  case joined => exact fun m hm => joined m (sub.subset hm)

/-- The last one leaves, and with it whoever is dead in front of it. -/
theorem rollBack (hq : Spine q h (n :: xs)) (head : q'.head = q.head)
    (tail : q'.tail = some ((q.fromLive xs).head?.getD h)) (size : q'.nodes.size = q.nodes.size)
    (prev : ∀ m, m ≠ n → (q'.node m).prev = (q.node m).prev) (front : (q'.node h).isLive)
    (joined : ∀ m ∈ h :: n :: xs, (q'.node m).status ≠ .condition) : Spine q' h (q.fromLive xs) := by
  obtain ⟨ds, hds⟩ := q.fromLive_suffix xs
  have sub : List.Sublist (h :: q.fromLive xs) (h :: n :: xs) :=
    ((q.fromLive_suffix xs).sublist.cons n).cons_cons h
  have ne : ∀ m ∈ h :: q.fromLive xs, m ≠ n := by
    have nodup := hq.nodup
    simp only [List.nodup_cons, List.mem_cons, not_or] at nodup
    rintro m hm rfl
    rcases List.mem_cons.1 hm with e | hm
    · exact nodup.1.1 e.symm
    · exact nodup.2.1 ((q.fromLive_suffix xs).subset hm)
  have prevs := hq.prevs.2
  rw [← hds, leads_append] at prevs
  constructor
  case ends => exact Or.inl ⟨head.trans (hq.head_eq_of_mem List.mem_cons_self), tail⟩
  case nodup => exact hq.nodup.sublist sub
  case inTable => exact fun m hm => size ▸ hq.inTable m (sub.subset hm)
  case prevs => exact prevs.2.congr fun m hm => prev m (ne m (by simp [hm]))
  case prev_front => rw [prev h (ne h (by simp)), hq.prev_front]
  case front_live => exact front
  case joined => exact fun m hm => joined m (sub.subset hm)

end changes

theorem split_of_prev (hq : Spine q h body) (hn : n ∈ body) (hp : (q.node n).prev = q.head) :
    ∃ ys, body = ys ++ [n] := by
  obtain ⟨ys, xs, rfl⟩ := List.append_of_mem hn
  rw [hq.prev_eq, hq.head_eq_of_mem hn, Option.some.injEq] at hp
  cases xs with
  | nil => exact ⟨ys, rfl⟩
  | cons x xs =>
    obtain rfl : x = h := hp
    exact absurd hq.front_notMem (by simp)

end Spine

end Turnstile.WaitQueue
