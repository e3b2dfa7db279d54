import Turnstile.Proofs.Queue.Death

/-! Giving up: a live node dies, and whoever is behind it is left to the node in front, or is woken if
that is the head. -/
namespace Turnstile.WaitQueue

/-- A node dies and is linked to `p`, however far off that is. -/
def dropped (q : WaitQueue) (p n : NodeId) : WaitQueue :=
  ((q.clearActor n).setPrev n (some p)).setStatus n .cancelled

section dropped

variable (q : WaitQueue) (p n : NodeId)

@[simp] theorem head_dropped : (q.dropped p n).head = q.head := rfl

@[simp] theorem tail_dropped : (q.dropped p n).tail = q.tail := rfl

@[simp] theorem size_dropped : (q.dropped p n).nodes.size = q.nodes.size := by simp [dropped]

@[simp] theorem next_dropped (m : NodeId) : ((q.dropped p n).node m).next = (q.node m).next := by
  simp [dropped]

variable {n} in
@[simp] theorem actor_dropped {m : NodeId} (h : m ≠ n) :
    ((q.dropped p n).node m).actor = (q.node m).actor := by
  simp [dropped, h]

variable {n} in
@[simp] theorem status_dropped {m : NodeId} (h : m ≠ n) :
    ((q.dropped p n).node m).status = (q.node m).status := by
  simp [dropped, h]

end dropped

/-- The node has given up, and whoever stood behind it has been woken or has someone else to rely on. -/
structure Withdrawn (q : WaitQueue) (r : WaitQueue × Option ActorId × Except Fault Unit) (n : NodeId) :
    Prop where
  done : r.2.2 = .ok ()
  shaped : ∃ h body, Shaped r.1 h body
  head : r.1.head = q.head
  live : r.1.live = q.live.erase n
  actor_self : (r.1.node n).actor = none
  actor : ∀ m, m ≠ n → (r.1.node m).actor = (q.node m).actor
  mode : ∀ m, (r.1.node m).mode = (q.node m).mode
  prev : ∀ m, m ≠ n → (r.1.node m).prev = (q.node m).prev
  waits : ∀ m, (r.1.node m).status = .condition ↔ (q.node m).status = .condition
  status_self : (r.1.node n).status = .cancelled
  status : ∀ m, m ≠ n → (r.1.node m).status = (q.node m).status ∨
    ((r.1.node m).status = .signal ∧ Follows q.column m n ∧ q.head ≠ some m)
  guarded : ∀ s, Follows q.column n s → ∃ p, Follows q.column p n ∧
    ((q.head = some p ∧ r.2.1 = (q.node s).actor) ∨
      (q.head ≠ some p ∧ (r.1.node p).status = .signal))

namespace Shaped

variable {q q' : WaitQueue} {h p n : NodeId} {body xs ys : List NodeId}

/-- Where one has died, it is left to look at those behind it. -/
theorem withdrawn_of_died (hq : Shaped q h (ys ++ n :: xs)) (live : (q.node n).isLive)
    (hp : (q.fromLive xs).head?.getD h = p) (hd : Died q q' p n) {body' : List NodeId}
    (hq' : Shaped q' h body') (left : (body'.filter fun m => (q'.node m).isLive) =
      ((ys ++ q.fromLive xs).filter fun m => (q'.node m).isLive)) {woken : Option ActorId}
    (guarded : ∀ s, (q.node n).next = some s →
      (p = h ∧ woken = (q.node s).actor) ∨ (p ≠ h ∧ (q'.node p).status = .signal)) :
    Withdrawn q (q', woken, .ok ()) n := by
  have hh : q.head = some h := hq.head_eq_of_mem (n := n) (by simp)
  have hf := hp ▸ hq.follows_skip live
  obtain ⟨hpm, alive⟩ := hq.mem_of_follows hf
  have ne_front : n ≠ h := fun e => hq.front_notMem (by simp [← e])
  refine ⟨rfl, ⟨h, body', hq'⟩, hd.head, hq.live_died live hd alive hq' left, hd.actor_self,
    hd.actor, hd.mode, hd.prev, hd.waits (hq.joined n (by simp)) (hq.joined p hpm),
    hd.status_self, ?_, ?_⟩
  · intro m hm
    exact (hd.status m hm).imp_right fun ⟨e, front, signal⟩ => ⟨signal, e ▸ hf, e ▸ front⟩
  · intro s hs
    refine ⟨p, hf, ?_⟩
    rcases guarded s (hq.next_of_follows hs ne_front) with ⟨rfl, woken⟩ | ⟨front, signal⟩
    · exact Or.inl ⟨hh, woken⟩
    · exact Or.inr ⟨by simpa [hh] using front.symm, signal⟩

/-- The first change of a node that gives up leaves open only its neighbours' hints. -/
theorem died_of_dropped (hn : n < q.nodes.size) (head : q'.head = q.head)
    (size : q'.nodes.size = q.nodes.size)
    (actor : ∀ m, (q'.node m).actor = ((q.dropped p n).node m).actor)
    (mode : ∀ m, (q'.node m).mode = ((q.dropped p n).node m).mode)
    (prev : ∀ m, (q'.node m).prev = ((q.dropped p n).node m).prev)
    (next_front : q.head ≠ some p → (q'.node p).next = (q.node n).next)
    (next : ∀ m, m ≠ n → m ≠ p → (q'.node m).next = (q.node m).next)
    (status : ∀ m, (q'.node m).status = ((q.dropped p n).node m).status ∨
      (m = p ∧ m ≠ n ∧ q.head ≠ some p ∧ (q'.node m).status = .signal)) : Died q q' p n := by
  have status_n : ((q.dropped p n).node n).status = .cancelled :=
    status_setStatus_self _ (by simpa)
  have prev_n : ((q.dropped p n).node n).prev = some p := by
    rw [dropped, prev_setStatus, prev_setPrev_self _ (by simpa)]
  have actor_n : ((q.dropped p n).node n).actor = none := by
    rw [dropped, actor_setStatus, actor_setPrev, actor_clearActor_self hn]
  constructor
  case head => exact head
  case size => exact size
  case actor_self => exact (actor n).trans actor_n
  case actor =>
    intro m hm
    rw [actor]
    simp [dropped, hm]
  case mode =>
    intro m
    rw [mode]
    simp [dropped]
  case prev_self => exact (prev n).trans prev_n
  case prev =>
    intro m hm
    rw [prev]
    simp [dropped, hm]
  case next_front => exact next_front
  case next => exact next
  case status_self =>
    rcases status n with same | ⟨-, ne, -⟩
    · exact same.trans status_n
    · exact absurd rfl ne
  case status =>
    intro m hm
    rcases status m with same | ⟨e, -, front, signal⟩
    · rw [same]
      simp [dropped, hm]
    · exact Or.inr ⟨e, front, signal⟩

section cases

variable (hq : Shaped q h (ys ++ n :: xs)) (live : (q.node n).isLive)
  (hp : (q.fromLive xs).head?.getD h = p)

include hq live hp

theorem withdrawn_last (last : ys = []) :
    Withdrawn q (((q.dropped p n).setNext p none).between q.head (some p), none, .ok ()) n := by
  subst last
  have hf := hp ▸ hq.follows_skip live
  have lt_p : p < (q.dropped p n).nodes.size := by
    simpa using hq.inTable p (hq.mem_of_follows hf).1
  have next_p : (((q.dropped p n).setNext p none).node p).next = none := next_setNext_self _ lt_p
  have next_n : (q.node n).next = none := by simpa using hq.next_eq live
  have died : Died q (((q.dropped p n).setNext p none).between q.head (some p)) p n := by
    refine died_of_dropped (hq.inTable n (by simp)) (by simp) (by simp) (by simp) (by simp)
      (by simp) (fun _ => next_p.trans next_n.symm) (fun m _ hm => by simp [hm])
      (fun m => Or.inl (by simp))
  refine hq.withdrawn_of_died live hp died
    (hq.rolledBack live hp died (by simp) next_p) rfl fun s hs => ?_
  rw [next_n] at hs
  simp at hs

/-- Behind the head one wakes whoever comes next. -/
theorem withdrawn_first (behind : ys ≠ []) (front : p = h) :
    Withdrawn q ((q.dropped p n).setNext n none, (q.node n).next.bind fun s => (q.node s).actor,
      .ok ()) n := by
  subst front
  have hh : q.head = some p := hq.head_eq_of_mem (n := n) (by simp)
  have hf := hp ▸ hq.follows_skip live
  have ne : p ≠ n := (hq.follows_column.1 hf).ne hq.column_nodup
  have died : Died q ((q.dropped p n).setNext n none) p n :=
    died_of_dropped (hq.inTable n (by simp)) (by simp) (by simp) (by simp) (by simp) (by simp)
      (fun front => absurd hh front) (fun m hm _ => by simp [hm])
      (fun m => Or.inl (by simp))
  refine hq.withdrawn_of_died live hp died
    (hq.bypassed live behind hp died (by simp) (by simp [ne])) ?_ fun s hs => Or.inl ⟨rfl, ?_⟩
  · simp [List.filter_append, died.life_self]
  · simp [hs]

/-- Elsewhere the node in front is asked for a signal and linked to whoever comes next. -/
theorem withdrawn_middle (behind : ys ≠ []) (front : p ≠ h) :
    Withdrawn q ((((q.dropped p n).setStatus p .signal).setNext p (q.node n).next).setNext n none,
      none, .ok ()) n := by
  have hh : q.head = some h := hq.head_eq_of_mem (n := n) (by simp)
  have hf := hp ▸ hq.follows_skip live
  have ne : p ≠ n := (hq.follows_column.1 hf).ne hq.column_nodup
  have lt_p : p < q.nodes.size := hq.inTable p (hq.mem_of_follows hf).1
  set q' := (((q.dropped p n).setStatus p .signal).setNext p (q.node n).next).setNext n none with hq'
  have next_p : (q'.node p).next = (q.node n).next := by
    rw [hq', next_setNext_of_ne _ _ ne, next_setNext_self _ (by simpa)]
  have signal : (q'.node p).status = .signal := by
    rw [hq', status_setNext, status_setNext, status_setStatus_self _ (by simpa)]
  have asked : q.head ≠ some p := by simpa [hh] using front.symm
  have died : Died q q' p n := by
    refine died_of_dropped (hq.inTable n (by simp)) (by simp [hq']) (by simp [hq']) (by simp [hq'])
      (by simp [hq']) (by simp [hq']) (fun _ => next_p) (fun m hn hp => by simp [hq', hn, hp])
      fun m => ?_
    by_cases e : m = p
    · subst e
      exact Or.inr ⟨rfl, ne, asked, signal⟩
    · exact Or.inl (by simp [hq', e])
  have ne_front : h ≠ n := fun e => hq.front_notMem (by simp [e])
  refine hq.withdrawn_of_died live hp died
    (hq.bypassed live behind hp died (by simp [hq']) (died.next h ne_front front.symm)) ?_
    fun s _ => Or.inr ⟨front, signal⟩
  simp [List.filter_append, died.life_self]

end cases

theorem tail_eq (hq : Shaped q h (ys ++ n :: xs)) : q.tail = some n ↔ ys = [] := hq.spine.tail_eq

/-- With somebody behind, the hint of a live node leads to one that is live. -/
theorem next_isSome (hq : Shaped q h (ys ++ n :: xs)) (live : (q.node n).isLive) (behind : ys ≠ []) :
    ∃ s, (q.node n).next = some s ∧ s ∈ q.live := by
  have split := hq.live_split live
  have next := hq.next_eq live
  cases hr : (ys.filter fun m => (q.node m).isLive).reverse with
  | nil =>
    obtain ⟨y, rest, rfl⟩ := List.exists_cons_of_ne_nil behind
    have := hq.tail_live y rfl
    simp [this] at hr
  | cons s rest =>
    rw [hr] at next split
    exact ⟨s, next, by simp [split]⟩

/-- What is done for those behind depends on whether the head is in front. -/
theorem bypass_dropped (hq : Shaped q h (ys ++ n :: xs)) (live : (q.node n).isLive)
    (hp : (q.fromLive xs).head?.getD h = p) (behind : ys ≠ []) :
    (q.dropped p n).bypass p n =
      if p = h then (q.dropped p n, (q.node n).next.bind fun s => (q.node s).actor)
      else (((q.dropped p n).setStatus p .signal).setNext p (q.node n).next, none) := by
  have hh : q.head = some h := hq.head_eq_of_mem (n := n) (by simp)
  have hf := hp ▸ hq.follows_skip live
  obtain ⟨hpm, live_p⟩ := hq.mem_of_follows hf
  have ne : p ≠ n := (hq.follows_column.1 hf).ne hq.column_nodup
  obtain ⟨s, hs, hsl⟩ := hq.next_isSome live behind
  have ne_s : s ≠ n := by
    rintro rfl
    exact (hq.nexts_live.follows hsl hs (by simp)).ne hq.live_nodup rfl
  have live_s : (q.node s).isLive := (hq.mem_live.1 hsl).2
  have hinted : ∀ q' : WaitQueue, (q'.node n).next = (q.node n).next → (q'.node s).isLive →
      q'.hintedSuccessor n = some s := fun q' next live => by
    simp [hintedSuccessor, next, hs, Option.filter, live]
  unfold bypass
  by_cases front : p = h
  · have isHead : (q.dropped p n).isHead p := by simp [isHead, hh, front]
    have calm : ((q.dropped p n).node n).status.pending = false := by
      rw [dropped, status_setStatus_self _ (by simpa using hq.inTable n (by simp))]
      rfl
    have hint := hinted (q.dropped p n) (by simp) (by simpa [Node.isLive, ne_s] using live_s)
    rw [if_pos isHead, if_pos front]
    simp [wakeNext, calm, successor, hint, hs, ne_s]
  · have isHead : ¬(q.dropped p n).isHead p := by simpa [isHead, hh] using Ne.symm front
    have waits : (q.node p).actor.isSome := by
      rw [hq.actors p ((List.mem_cons.1 hpm).resolve_left front), live_p]
    have live_s' : (((q.dropped p n).setStatus p .signal).node s).isLive := by
      by_cases e : s = p
      · subst e
        simp [Node.isLive, status_setStatus_self (q := q.dropped s n) .signal
          (by simpa using hq.inTable s hpm)]
      · simpa [Node.isLive, e, ne_s] using live_s
    rw [if_neg isHead, if_neg front]
    simp [ne, Option.isSome_iff_ne_none.1 waits, hinted _ (by simp) live_s', hs]

/-- What giving up comes to, by whether anyone is behind the node and the head in front of it. -/
theorem withdraw_eq (hq : Shaped q h (ys ++ n :: xs)) (live : (q.node n).isLive)
    (hp : (q.fromLive xs).head?.getD h = p) :
    q.withdraw n =
      if ys = [] then (((q.dropped p n).setNext p none).between q.head (some p), none, .ok ())
      else if p = h then
        ((q.dropped p n).setNext n none, (q.node n).next.bind fun s => (q.node s).actor, .ok ())
      else
        ((((q.dropped p n).setStatus p .signal).setNext p (q.node n).next).setNext n none, none,
          .ok ()) := by
  have alive : (q.node n).status ≠ .cancelled := fun e => by simp [Node.isLive, e] at live
  have dropped : ((q.clearActor n).setPrev n (some p)).setStatus n .cancelled = q.dropped p n := rfl
  rw [withdraw, if_neg alive, hq.skipDead_clearActor hp]
  dsimp only
  rw [dropped, tail_dropped]
  by_cases last : ys = []
  · rw [if_pos (hq.tail_eq.2 last), if_pos last]
    rfl
  rw [if_neg (mt hq.tail_eq.1 last), if_neg last, hq.bypass_dropped live hp last]
  by_cases front : p = h
  · rw [if_pos front, if_pos front]
  · rw [if_neg front, if_neg front]

/-- Giving up is safe wherever the node stands. -/
theorem withdrawn (hq : Shaped q h body) (hn : n ∈ q.live) : Withdrawn q (q.withdraw n) n := by
  obtain ⟨hb, live⟩ := hq.mem_live.1 hn
  obtain ⟨ys, xs, rfl⟩ := List.append_of_mem hb
  obtain ⟨p, hp⟩ : ∃ p, (q.fromLive xs).head?.getD h = p := ⟨_, rfl⟩
  rw [hq.withdraw_eq live hp]
  by_cases last : ys = []
  · rw [if_pos last]
    exact hq.withdrawn_last live hp last
  rw [if_neg last]
  by_cases front : p = h
  · rw [if_pos front]
    exact hq.withdrawn_first live hp last front
  · rw [if_neg front]
    exact hq.withdrawn_middle live hp last front

end Shaped

end Turnstile.WaitQueue
