import Turnstile.Proofs.Queue.Shape

/-! Before a node parks and when it gives up: dead nodes in front of it are passed over, and whoever
is behind it is either linked past it or woken. -/
namespace Turnstile.WaitQueue

namespace Shaped

variable {q : WaitQueue} {h n : NodeId} {body xs ys : List NodeId}

theorem skipDead_eq (hq : Shaped q h (ys ++ n :: xs)) :
    q.skipDead n = (q.setPrev n (some ((q.fromLive xs).head?.getD h)),
      some ((q.fromLive xs).head?.getD h)) := hq.spine.skipDead_eq

/-- In front of a live node stands the nearest live one. -/
theorem follows_skip (hq : Shaped q h (ys ++ n :: xs)) (live : (q.node n).isLive) :
    Follows q.column ((q.fromLive xs).head?.getD h) n := by
  obtain ⟨p, hp, hf⟩ := hq.nearest_of_mem (hq.mem_live.2 ⟨by simp, live⟩)
  rw [hq.nearest_eq, ← head?_fromLive, Option.some.injEq] at hp
  exact hp ▸ hf

/-- The nearest live node in front is the front itself if nothing live stands between. -/
theorem skip_eq_front (hq : Shaped q h (ys ++ n :: xs)) :
    (q.fromLive xs).head?.getD h = h ↔ q.fromLive xs = [] := by
  cases hr : q.fromLive xs with
  | nil => simp
  | cons p rest =>
    have hp : p ∈ xs := (q.fromLive_suffix xs).subset (by simp [hr])
    have : p ≠ h := fun e => hq.front_notMem (by simp [← e, hp])
    simpa using this

/-- The node is linked to the nearest live one before it, and that one to it. -/
theorem relink (hq : Shaped q h (ys ++ n :: xs)) (live : (q.node n).isLive) {p : NodeId}
    (hp : (q.fromLive xs).head?.getD h = p) :
    Shaped ((q.setPrev n (some p)).setNext p (some n)) h (ys ++ n :: q.fromLive xs) := by
  have hf := hp ▸ hq.follows_skip live
  have front := hp ▸ hq.skip_eq_front
  have linked := WaitQueue.linked (hq.inTable p (hq.mem_of_follows hf).1) (hq.inTable n (by simp))
  have head : (ys ++ n :: q.fromLive xs).head? = (ys ++ n :: xs).head? := by
    cases ys <;> rfl
  have spine : Spine ((q.setPrev n (some p)).setNext p (some n)) h (ys ++ n :: q.fromLive xs) :=
    hq.spine.skip rfl rfl linked.size (hp ▸ linked.prev_self) linked.prev
      ((linked.isLive h).trans hq.front_live) fun m hm => linked.status m ▸ hq.joined m hm
  set q' := (q.setPrev n (some p)).setNext p (some n)
  have next : ∀ m, m ≠ h → (q'.node m).next = (q.node m).next := by
    intro m hm
    by_cases e : m = p
    · subst e
      rw [linked.next_self, hq.next_of_follows hf hm]
    · exact linked.next m e
  have next_h : (p = h ∧ (q'.node h).next = some n) ∨ (p ≠ h ∧ (q'.node h).next = (q.node h).next) := by
    by_cases e : p = h
    · exact Or.inl ⟨e, e ▸ linked.next_self⟩
    · exact Or.inr ⟨e, linked.next h (Ne.symm e)⟩
  refine spine.shaped ?nexts ?next_front ?next_front_none ?next_settled ?tail_live ?front_actor ?actors ?apart
  case nexts =>
    simp only [linked.isLive, q.filter_skip n xs ys]
    refine hq.nexts.congr fun m hm => next m fun e => hq.front_notMem ?_
    exact e ▸ (List.mem_filter.1 (List.mem_reverse.1 hm)).1
  case next_front =>
    intro m hm
    simp only [linked.isLive]
    rcases next_h with ⟨e, new⟩ | ⟨-, old⟩
    · obtain rfl : n = m := by simpa using new.symm.trans hm
      exact Or.inr (by simp [front.1 e, live])
    · rw [q.filter_skip n xs ys]
      exact hq.next_front m (old ▸ hm)
  case next_front_none =>
    refine iff_of_false (fun none => ?_) (by simp)
    rcases next_h with ⟨-, new⟩ | ⟨-, old⟩
    · simp [new] at none
    · exact absurd (hq.next_front_none.1 (old ▸ none)) (by simp)
  case next_settled =>
    intro m hm hl
    rw [linked.isLive] at hl
    rcases next_h with ⟨e, new⟩ | ⟨e, old⟩
    · rw [new, ← hm, front.1 e]
      simp
    · rw [old]
      refine hq.next_settled m ?_ hl
      rw [← hm, getLast?_append_cons, getLast?_append_cons,
        getLast?_of_suffix (q.fromLive_suffix xs) (mt front.2 e)]
  case tail_live =>
    intro m hm
    rw [linked.isLive]
    exact hq.tail_live m (head ▸ hm)
  case front_actor => rw [linked.actor, hq.front_actor]
  case actors =>
    intro m hm
    rw [linked.actor, linked.isLive]
    exact hq.actors m ((q.sublist_skip n xs ys).subset hm)
  case apart =>
    intro m hm
    rw [linked.status] at hm
    have outside := hq.spine.notMem_of_waits hm
    rw [linked.actor, linked.prev m fun e => outside (by simp [e]), next m fun e => outside (by simp [e])]
    exact hq.apart m hm

/-- A live node directly in front is the nearest one. -/
theorem follows_prev (hq : Shaped q h body) (hn : n ∈ q.live) {p : NodeId}
    (hp : (q.node n).prev = some p) (live : (q.node p).isLive) : Follows q.column p n := by
  obtain ⟨hb, hl⟩ := hq.mem_live.1 hn
  obtain ⟨ys, xs, rfl⟩ := List.append_of_mem hb
  have hf := hq.follows_skip hl
  rw [hq.prev_eq, Option.some.injEq] at hp
  subst hp
  cases xs with
  | nil => exact hf
  | cons x rest =>
    have hx : (q.node x).isLive := live
    simpa [fromLive, hx] using hf

end Shaped

/-- The node stands where it stood, and has asked for a signal or been linked to a live node. -/
structure Readied (q q' : WaitQueue) (n : NodeId) : Prop where
  shaped : ∃ h body, Shaped q' h body
  head : q'.head = q.head
  live : q'.live = q.live
  actor : ∀ m, (q'.node m).actor = (q.node m).actor
  mode : ∀ m, (q'.node m).mode = (q.node m).mode
  prev : ∀ m, m ≠ n → (q'.node m).prev = (q.node m).prev
  waits : ∀ m, (q'.node m).status = .condition ↔ (q.node m).status = .condition
  status : ∀ m, (q'.node m).status = (q.node m).status ∨
    ((q'.node m).status = .signal ∧ Follows q.column m n)

namespace Shaped

variable {q : WaitQueue} {h n : NodeId} {body xs ys : List NodeId}

theorem readied_ask (hq : Shaped q h body) {p : NodeId} (hf : Follows q.column p n) :
    Readied q (q.setStatus p .signal) n := by
  obtain ⟨hp, live⟩ := hq.mem_of_follows hf
  have status : ((q.setStatus p .signal).node p).status = .signal :=
    status_setStatus_self _ (hq.inTable p hp)
  refine ⟨⟨h, body, hq.setStatus live rfl (by simp)⟩, rfl, hq.live_setStatus live rfl (by simp),
    by simp, by simp, by simp, ?_, ?_⟩ <;> intro m <;> by_cases e : m = p
  · subst e
    simp [status, hq.joined m hp]
  · simp [e]
  · subst e
    exact Or.inr ⟨status, hf⟩
  · simp [e]

theorem readied_relink (hq : Shaped q h (ys ++ n :: xs)) (live : (q.node n).isLive) {p : NodeId}
    (hp : (q.fromLive xs).head?.getD h = p) :
    Readied q ((q.setPrev n (some p)).setNext p (some n)) n := by
  have linked := hq.relink live hp
  have status : ∀ m, (((q.setPrev n (some p)).setNext p (some n)).node m).status =
      (q.node m).status := by simp
  refine ⟨⟨h, _, linked⟩, rfl, ?_, by simp, by simp, fun m hm => by simp [hm], by simp,
    fun m => Or.inl (status m)⟩
  rw [linked.live_eq, hq.live_eq, ← q.filter_skip n xs ys]
  simp only [Node.isLive, status]

/-- Before an actor parks, the node in front has been asked for a signal in an earlier round. -/
theorem readyToPark_cases (hq : Shaped q h body) (hn : n ∈ q.live) :
    (∃ p, (q.node n).prev = some p ∧ Follows q.column p n ∧ (q.node p).status = .signal ∧
      q.readyToPark n = (q, .ok true)) ∨
    ∃ q', q.readyToPark n = (q', .ok false) ∧ Readied q q' n := by
  obtain ⟨hb, hl⟩ := hq.mem_live.1 hn
  obtain ⟨ys, xs, rfl⟩ := List.append_of_mem hb
  have hp := hq.prev_eq
  generalize xs.head?.getD h = p at hp
  unfold readyToPark
  rw [hp]
  dsimp only
  by_cases asked : (q.node p).status = .signal
  · have live : (q.node p).isLive := by simp [Node.isLive, asked]
    exact Or.inl ⟨p, rfl, hq.follows_prev hn hp live, asked, by simp [asked]⟩
  rw [if_neg asked]
  by_cases live : (q.node p).isLive
  · have hf := hq.follows_prev hn hp live
    exact Or.inr ⟨_, by rw [if_pos live], hq.readied_ask hf⟩
  · exact Or.inr ⟨_, by rw [if_neg live, hq.skipDead_eq], hq.readied_relink hl rfl⟩

end Shaped

end Turnstile.WaitQueue
