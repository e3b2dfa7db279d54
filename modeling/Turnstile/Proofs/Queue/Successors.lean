import Mathlib.Data.List.TakeWhile
import Turnstile.Proofs.Queue.Arrivals
import Turnstile.Proofs.Queue.Courtesy

/-! The hints lead to those whom a walk back from the tail would find, wherever they are followed. -/
namespace Turnstile.WaitQueue

variable {q : WaitQueue} {h n p : NodeId} {body line us vs xs ys behind : List NodeId}

namespace Spine

/-- The scan for whoever is behind a node finds the one that is nearest to it. -/
theorem scanned_behind (hq : Spine q h (vs ++ n :: us)) :
    q.scannedSuccessor n = (vs.filter fun m => (q.node m).isLive).reverse.head? := by
  have others : ∀ m ∈ vs, (m != n) = true := by
    rintro m hm
    have apart := (List.nodup_append.1 hq.body_nodup).2.2 m hm n (by simp)
    simpa using apart
  rw [scannedSuccessor, hq.backward_eq, hq.head_eq_of_mem (n := n) (by simp), Option.isSome_some, if_pos rfl,
    List.append_assoc, List.takeWhile_append_of_pos others]
  simp

theorem scanned_outside (hq : Spine q h body) (head : q.head = some h) (out : n ∉ h :: body) :
    q.scannedSuccessor n = some h := by
  have others : ∀ m ∈ body ++ [h], (m != n) = true := by
    intro m hm
    have : m ≠ n := fun e => out (by simpa [e, or_comm] using hm)
    simpa using this
  rw [scannedSuccessor, hq.backward_eq, head, Option.isSome_some, if_pos rfl, List.takeWhile_eq_self_iff.2 others]
  simp [List.filter_append, hq.front_live]

end Spine

theorem woken_of_calm (calm : (q.node n).status.pending = false) :
    (q.wakeNext n).2 = (q.successor n).bind fun s => (q.node s).actor := by
  simp [wakeNext, calm]

/-- Whoever answers for a node wakes the first of those behind it and nobody else, whichever way it takes to
find it. -/
structure Serves (q : WaitQueue) (n : NodeId) (behind : List NodeId) : Prop where
  hint : ∀ s, q.hintedSuccessor n = some s → behind.head? = some s
  scan : q.scannedSuccessor n = behind.head?
  woken : (q.wakeNext n).2 = behind.head?.bind fun s => (q.node s).actor
  someone : ∀ s ∈ behind, (q.node s).actor.isSome

/-- The hints say the same as the links back, as far as anyone relies on them. -/
structure Agrees (q : WaitQueue) (line : List NodeId) : Prop where
  behind : ∀ xs a ys, q.live = xs ++ a :: ys → (q.node a).next = ys.head?
  last : ∀ a ∈ q.live, ((q.node a).next = none ↔ q.tail = some a)
  alone : ∀ h, q.head = some h → ((q.node h).next = none ↔ q.live = [])
  /-- The head may be linked to one that has given up, if that one came before all who wait. -/
  front : ∀ h m, q.head = some h → (q.node h).next = some m →
    q.live.head? = some m ∨ ((q.node m).status = .cancelled ∧ (m :: q.live).Sublist line)
  first : ∀ h a, q.head = some h → a ∈ q.live → (q.node a).prev = some h → (q.node h).next = some a

/-- The node in front of the one that gives up is `p`, and those behind are taken care of: one of them is woken
if `p` is the head, and whoever looks for them later finds the same one. -/
structure Succeeded (q : WaitQueue) (n p : NodeId) (behind : List NodeId) : Prop where
  nearest : q.nearest n = some p
  serves : Serves (q.dropped p n) n behind
  woken : (q.withdraw n).2.1 = if q.head = some p then behind.head?.bind fun s => (q.node s).actor else none
  later : ((q.withdraw n).1.wakeNext n).2 = behind.head?.bind fun s => (q.node s).actor

/-- Whoever asks on behalf of a node that has been cut off finds those behind it by the scan. -/
theorem Spine.woken_cut (hq : Spine q h (vs ++ n :: us)) (gone : (q.node n).status = .cancelled)
    (cut : (q.node n).next = none) : (q.wakeNext n).2 =
      (vs.filter fun m => (q.node m).isLive).reverse.head?.bind fun s => (q.node s).actor := by
  have hint : ∀ {s}, q.hintedSuccessor n = some s →
      (vs.filter fun m => (q.node m).isLive).reverse.head? = some s := by simp [hintedSuccessor, cut]
  rw [woken_of_calm (by rw [gone]; rfl), successor_eq hint hq.scanned_behind]

theorem Spine.woken_outside (hq : Spine q h body) (head : q.head = some h) (out : n ∉ h :: body)
    (gone : (q.node n).status = .cancelled) (cut : (q.node n).next = none) (nobody : (q.node h).actor = none) :
    (q.wakeNext n).2 = none := by
  have hint : ∀ {s}, q.hintedSuccessor n = some s → some h = some s := by simp [hintedSuccessor, cut]
  rw [woken_of_calm (by rw [gone]; rfl), successor_eq hint (hq.scanned_outside head out), Option.bind_some, nobody]

namespace Withdrawn

variable {r : WaitQueue × Option ActorId × Except Fault Unit}

theorem life (hw : Withdrawn q r n) (hq : Shaped q h body) {m : NodeId} (hm : m ≠ n) :
    (r.1.node m).isLive = (q.node m).isLive := by
  rcases hw.status m hm with same | ⟨signal, before, -⟩
  · simp [Node.isLive, same]
  · rw [(hq.mem_of_follows before).2]
    simp [Node.isLive, signal]

end Withdrawn

namespace Shaped

theorem split_of_live (hq : Shaped q h body) (split : q.live = xs ++ n :: ys) :
    ∃ us vs, body = vs ++ n :: us ∧ (q.node n).isLive ∧
      ys = (vs.filter fun m => (q.node m).isLive).reverse := by
  have hn : n ∈ q.live := by simp [split]
  obtain ⟨mem, live⟩ := hq.mem_live.1 hn
  obtain ⟨vs, us, rfl⟩ := List.append_of_mem mem
  have nodup := split ▸ hq.live_nodup
  have split' := split.symm.trans (hq.live_split live)
  rw [List.nodup_append, List.nodup_cons] at nodup
  have before : n ∉ xs := fun hm => nodup.2.2 n hm n (by simp) rfl
  have eq := (List.append_cons_inj_of_notMem before nodup.2.1.1).1 split'
  exact ⟨us, vs, rfl, live, eq.2.2⟩

theorem agrees (hq : Shaped q h body) (ho : Ordered q line) : Agrees q line where
  behind xs a ys split := by
    obtain ⟨us, vs, rfl, live, rfl⟩ := hq.split_of_live split
    exact hq.next_eq live
  last a ha := by
    obtain ⟨mem, live⟩ := hq.mem_live.1 ha
    obtain ⟨vs, us, rfl⟩ := List.append_of_mem mem
    rw [hq.next_eq live, hq.tail_eq, List.head?_eq_none_iff, List.reverse_eq_nil_iff]
    cases vs with
    | nil => simp
    | cons v rest => simp [hq.tail_live v rfl]
  alone k head := by
    obtain rfl := hq.eq_of_head head
    rw [hq.next_front_none, hq.live_eq_nil]
  front k m head link := by
    obtain rfl := hq.eq_of_head head
    by_cases waits : m ∈ q.live
    · refine Or.inl ?_
      rcases hq.next_front m link with dead | first
      · simp [(hq.mem_live.1 waits).2] at dead
      · rw [hq.live_eq, List.head?_reverse, first]
    · exact Or.inr (ho.hint h m head link waits)
  first k a head ha turn := by
    obtain rfl := hq.eq_of_head head
    obtain ⟨mem, live⟩ := hq.mem_live.1 ha
    obtain ⟨ys, rfl⟩ := hq.split_of_prev mem (turn.trans head.symm)
    exact hq.next_settled a (by simp) live

/-- Whoever answers for the head serves the first of those who wait. -/
theorem serves_front (hq : Shaped q h body) (head : q.head = some h) : Serves q h q.live where
  hint _ := hq.hinted_front
  scan := hq.scanned_front head
  woken := by rw [hq.wakeNext_front head]
  someone s hs := Option.isSome_iff_exists.2 (hq.actor_of_mem hs)

section split

variable (hq : Shaped q h (vs ++ n :: us)) (live : (q.node n).isLive) (hp : (q.fromLive us).head?.getD h = p)

include hq live hp

/-- The node that has given up still leads to those behind it. -/
theorem serves_dropped : Serves (q.dropped p n) n (vs.filter fun m => (q.node m).isLive).reverse := by
  have ne : ∀ m ∈ vs, m ≠ n := fun m hm => (List.nodup_append.1 hq.body_nodup).2.2 m hm n (by simp)
  have life : (vs.filter fun m => ((q.dropped p n).node m).isLive) = vs.filter fun m => (q.node m).isLive :=
    List.filter_congr fun m hm => by simp [Node.isLive, ne m hm]
  have hint : ∀ {s}, (q.dropped p n).hintedSuccessor n = some s →
      (vs.filter fun m => (q.node m).isLive).reverse.head? = some s := fun {s} hs => by
    rw [← hq.next_eq live, ← q.next_dropped p n]
    exact (Option.filter_eq_some_iff.1 hs).1
  have scan := (hq.spine.dropped hp).scanned_behind
  rw [life] at scan
  have calm : ((q.dropped p n).node n).status.pending = false := by
    rw [hq.spine.status_dropped_self p]
    rfl
  refine ⟨fun _ => hint, scan, by rw [woken_of_calm calm, successor_eq hint scan], fun s hs => ?_⟩
  obtain ⟨mem, alive⟩ := List.mem_filter.1 (List.mem_reverse.1 hs)
  rw [actor_dropped q p (ne s mem), hq.actors s (by simp [mem])]
  exact alive

/-- The links back after one has given up, with its own hint cut. -/
theorem spine_withdrawn (behind : vs ≠ []) : Spine (q.withdraw n).1 h (vs ++ n :: q.fromLive us) ∧
    ((q.withdraw n).1.node n).next = none := by
  have spine := hq.spine.dropped hp
  have inTable : n < q.nodes.size := hq.inTable n (by simp)
  rw [hq.withdraw_eq live hp, if_neg behind]
  split
  · refine ⟨spine.congr (by simp) (by simp) (by simp) (by simp) ?_ fun m hm => ?_,
      next_setNext_self _ (by simpa)⟩
    · simpa [Node.isLive] using spine.front_live
    · simpa using spine.joined m hm
  · rename_i front
    refine ⟨spine.congr (by simp) (by simp) (by simp) (by simp) ?_ fun m hm => ?_,
      next_setNext_self _ (by simpa)⟩
    · simpa [Node.isLive, Ne.symm front] using spine.front_live
    · simpa using status_setStatus_ne (by simp) (spine.joined m hm)

/-- The last one is not among those that are left, and leads to nobody. -/
theorem spine_withdrawn_last (last : vs = []) : Spine (q.withdraw n).1 h (q.fromLive us) ∧
    ((q.withdraw n).1.node n).next = none ∧ n ∉ h :: q.fromLive us := by
  subst last
  have spine := hq.spine.dropped hp
  have left := spine.retreat
  have ne := (hq.spine.nearest_live hp).2.1
  have next : (q.node n).next = none := by simpa using hq.next_eq live
  have nodup := spine.nodup
  simp only [List.nil_append, List.nodup_cons, List.mem_cons, not_or] at nodup
  rw [hq.withdraw_eq live hp, if_pos rfl]
  refine ⟨left.congr rfl (by simp [hp]) (by simp) (by simp) ?_ fun m hm => ?_, ?_, ?_⟩
  · simpa [Node.isLive] using left.front_live
  · simpa using left.joined m hm
  · simp [Ne.symm ne, next]
  · simpa [eq_comm] using And.intro nodup.1.1 nodup.2.1

/-- It does not matter to the scan whether the own link of the node has been cut. -/
theorem woken_withdrawn : ((q.withdraw n).1.wakeNext n).2 =
    (vs.filter fun m => (q.node m).isLive).reverse.head?.bind fun s => (q.node s).actor := by
  have hw := hq.withdrawn (hq.mem_live.2 ⟨by simp, live⟩)
  by_cases last : vs = []
  · obtain ⟨spine, cut, out⟩ := hq.spine_withdrawn_last live hp last
    have head := hw.head.trans (hq.head_eq_of_mem (n := n) (by simp))
    have nobody : ((q.withdraw n).1.node h).actor = none := by
      rw [hw.actor h (fun e => hq.front_notMem (by simp [e])), hq.front_actor]
    rw [spine.woken_outside head out hw.status_self cut nobody, last]
    rfl
  · obtain ⟨spine, cut⟩ := hq.spine_withdrawn live hp last
    have ne : ∀ m ∈ vs, m ≠ n := fun m hm => (List.nodup_append.1 hq.body_nodup).2.2 m hm n (by simp)
    rw [spine.woken_cut hw.status_self cut, List.filter_congr fun m hm => hw.life hq (ne m hm)]
    refine Option.bind_congr fun s hs => hw.actor s (ne s ?_)
    exact List.mem_of_mem_filter (List.mem_reverse.1 (List.mem_of_mem_head? hs))

/-- While it gives up it wakes the first of those behind it if it stands behind the head, and else nobody. -/
theorem woken_withdraw : (q.withdraw n).2.1 = if q.head = some p then
    (vs.filter fun m => (q.node m).isLive).reverse.head?.bind fun s => (q.node s).actor else none := by
  have head := hq.head_eq_of_mem (n := n) (by simp)
  rw [← hq.next_eq live, hq.withdraw_eq live hp, head]
  by_cases last : vs = []
  · have next : (q.node n).next = none := by
      subst last
      simpa using hq.next_eq live
    simp [last, next]
  · rw [if_neg last]
    by_cases front : p = h
    · rw [if_pos front, if_pos (congrArg some front.symm)]
    · rw [if_neg front, if_neg fun e => front (Option.some.inj e).symm]

end split

theorem succeeded (hq : Shaped q h body) (split : q.live = xs ++ n :: ys) : ∃ p, Succeeded q n p ys := by
  obtain ⟨us, vs, rfl, live, rfl⟩ := hq.split_of_live split
  refine ⟨(q.fromLive us).head?.getD h, ?_, hq.serves_dropped live rfl, hq.woken_withdraw live rfl,
    hq.woken_withdrawn live rfl⟩
  rw [hq.nearest_eq, ← head?_fromLive]

end Shaped

/-- In every queue that operations lead to, the hints are as good as the links back wherever they are used. -/
theorem hints_suffice (reached : Later .empty q) :
    (∃ line, Arrived q line) ∧ (∀ line, Arrived q line → Agrees q line) ∧
      (∀ h, q.head = some h → Serves q h q.live) ∧
      ∀ xs n ys, q.live = xs ++ n :: ys → ∃ p, Succeeded q n p ys := by
  obtain ⟨line, arrived⟩ := Arrived.of_later reached
  obtain ⟨⟨h, body, shaped⟩, -⟩ := arrived.ordered
  refine ⟨⟨line, arrived⟩, fun line arrived => shaped.agrees arrived.ordered.2, fun k head => ?_,
    fun xs n ys split => shaped.succeeded split⟩
  obtain rfl := shaped.eq_of_head head
  exact shaped.serves_front head

/-- Of four who came, the first and then the second have given up; the head is still linked to the first. -/
theorem hints_suffice_behind_dead :
    let joined := ((((WaitQueue.empty.join .exclusive 3).1.join .shared 5).1.join .shared 7).1.join
      .exclusive 8).1
    let q := ((joined.withdraw 1).1.withdraw 2).1
    q.head = some 0 ∧ (q.node 0).next = some 1 ∧ q.live = [3, 4] ∧ Later .empty q ∧
      Agrees q [1, 2, 3, 4] ∧ Serves q 0 [3, 4] ∧ ∃ p, Succeeded q 3 p [4] := by
  intro joined q
  have arrived : Arrived joined [1, 2, 3, 4] :=
    (((Arrived.empty.join .exclusive 3).join .shared 5).join .shared 7).join .exclusive 8
  have left := (arrived.withdraw (n := 1) (by decide)).withdraw (n := 2) (by decide)
  have live : q.live = [3, 4] := by decide
  obtain ⟨-, agrees, front, gives⟩ := hints_suffice left.later
  exact ⟨by decide, by decide, live, left.later, agrees _ left, live ▸ front 0 (by decide), gives [] 3 [4] live⟩

end Turnstile.WaitQueue
