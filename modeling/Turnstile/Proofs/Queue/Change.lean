import Turnstile.Proofs.Queue.Shape

/-! What a change of the wait queue means to those who are not at work on it: they keep their nodes,
and whoever relied on a signal is woken or relies on one still. -/
namespace Turnstile.WaitQueue

/-- Somebody waits by this node, in the queue or on a condition. -/
def InUse (q : WaitQueue) (n : NodeId) : Prop := n ∈ q.live ∨ (q.node n).status = .condition

/-- The actor at work kept `mine` before and keeps `mine'` now. -/
structure Change (q q' : WaitQueue) (woken : List ActorId) (mine mine' : Option NodeId) : Prop where
  shaped : ∃ h body, Shaped q' h body
  actor : ∀ m, mine ≠ some m → InUse q m → (q'.node m).actor = (q.node m).actor
  mode : ∀ m, mine ≠ some m → InUse q m → (q'.node m).mode = (q.node m).mode
  live : ∀ m, mine ≠ some m → m ∈ q.live → m ∈ q'.live
  waits : ∀ m, mine ≠ some m → (q.node m).status = .condition → InUse q' m
  turn : ∀ m, mine ≠ some m → m ∈ q.live → (q.node m).prev = q.head → (q'.node m).prev = q'.head
  used : ∀ m, InUse q' m → mine' = some m ∨ (mine ≠ some m ∧ InUse q m)
  /-- A request for a signal lapses only if whoever relied on it is woken. -/
  honours : ∀ p m, Follows q'.column p m → mine' = some m ∨ (q'.node p).status = .signal ∨
    (∃ a ∈ woken, (q'.node m).actor = some a) ∨
    ∃ p', Follows q.column p' m ∧ (q.node p').status ≠ .signal

/-- Whoever comes to be first behind a head that is asked for a signal was there before or is
woken. -/
def Passes (q q' : WaitQueue) (woken : List ActorId) (mine' : Option NodeId) : Prop :=
  ∀ h f, q'.head = some h → q'.live.head? = some f → (q'.node h).status = .signal →
    mine' = some f ∨ (∃ a ∈ woken, (q'.node f).actor = some a) ∨
    (q.head = some h ∧ q.live.head? = some f ∧ (q.node h).status = .signal ∧
      (q'.node f).prev = (q.node f).prev)

/-- Nothing but how nodes are chained on conditions tells the two apart. -/
structure Alike (q q' : WaitQueue) : Prop where
  head : q'.head = q.head
  tail : q'.tail = q.tail
  size : q'.nodes.size = q.nodes.size
  actor : ∀ m, (q'.node m).actor = (q.node m).actor
  mode : ∀ m, (q'.node m).mode = (q.node m).mode
  prev : ∀ m, (q'.node m).prev = (q.node m).prev
  next : ∀ m, (q'.node m).next = (q.node m).next
  status : ∀ m, (q'.node m).status = (q.node m).status

section

variable {q q' q'' : WaitQueue} {h n : NodeId} {body : List NodeId} {woken : List ActorId}
  {mine mine' : Option NodeId}

/-- Whoever stays behind the same node relies on it as before if that node says what it said, or that
it was asked for a signal. -/
theorem honoured {p m : NodeId} (hf : Follows q.column p m)
    (status : (q'.node p).status = (q.node p).status ∨ (q'.node p).status = .signal) :
    mine' = some m ∨ (q'.node p).status = .signal ∨ (∃ a ∈ woken, (q'.node m).actor = some a) ∨
      ∃ p', Follows q.column p' m ∧ (q.node p').status ≠ .signal := by
  by_cases signal : (q'.node p).status = .signal
  · exact Or.inr (Or.inl signal)
  · refine Or.inr (Or.inr (Or.inr ⟨p, hf, fun was => ?_⟩))
    rcases status with same | now
    · exact signal (same.trans was)
    · exact signal now

namespace Alike

theorem refl (q : WaitQueue) : Alike q q :=
  ⟨rfl, rfl, rfl, by simp, by simp, by simp, by simp, by simp⟩

theorem trans (ha : Alike q q') (ha' : Alike q' q'') : Alike q q'' where
  head := ha'.head.trans ha.head
  tail := ha'.tail.trans ha.tail
  size := ha'.size.trans ha.size
  actor m := (ha'.actor m).trans (ha.actor m)
  mode m := (ha'.mode m).trans (ha.mode m)
  prev m := (ha'.prev m).trans (ha.prev m)
  next m := (ha'.next m).trans (ha.next m)
  status m := (ha'.status m).trans (ha.status m)

theorem setFollower (q : WaitQueue) (n : NodeId) (x : Option NodeId) :
    Alike q (q.setFollower n x) :=
  ⟨rfl, rfl, by simp, by simp, by simp, by simp, by simp, by simp⟩

theorem isLive (ha : Alike q q') (m : NodeId) : (q'.node m).isLive = (q.node m).isLive := by
  simp [Node.isLive, ha.status]

theorem shaped (ha : Alike q q') (hq : Shaped q h body) : Shaped q' h body :=
  hq.congr ha.head ha.tail (Nat.le_of_eq ha.size.symm) (fun m _ => ha.prev m) (fun m _ => ha.next m)
    (fun m _ => ha.actor m) (fun m _ => ha.isLive m) (fun m hm => (ha.isLive m).trans hm)
    (fun m hm => by rw [ha.status]; exact hq.joined m hm) fun m hm => by
      rw [ha.status] at hm
      rw [ha.actor, ha.prev, ha.next]
      exact hq.apart m hm

theorem live (ha : Alike q q') (hq : Shaped q h body) : q'.live = q.live := by
  rw [(ha.shaped hq).live_eq, hq.live_eq]
  simp only [ha.isLive]

theorem column (ha : Alike q q') (hq : Shaped q h body) : q'.column = q.column := by
  rw [WaitQueue.column, WaitQueue.column, ha.head, ha.live hq]

theorem inUse (ha : Alike q q') (hq : Shaped q h body) (m : NodeId) : InUse q' m ↔ InUse q m := by
  rw [InUse, InUse, ha.live hq, ha.status]

/-- Where nothing is done, nothing is asked of anyone. -/
theorem change (ha : Alike q q') (hq : Shaped q h body) (mine : Option NodeId) :
    Change q q' [] mine mine where
  shaped := ⟨h, body, ha.shaped hq⟩
  actor m _ _ := ha.actor m
  mode m _ _ := ha.mode m
  live m _ hm := ha.live hq ▸ hm
  waits m _ hm := Or.inr ((ha.status m).trans hm)
  turn m _ _ hm := by rw [ha.prev, ha.head, hm]
  used m hm := by
    by_cases e : mine = some m
    · exact Or.inl e
    · exact Or.inr ⟨e, (ha.inUse hq m).1 hm⟩
  honours p m hf := by
    exact honoured (ha.column hq ▸ hf) (Or.inl (ha.status p))

theorem passes (ha : Alike q q') (hq : Shaped q h body) : Passes q q' woken mine' := by
  intro k f hk hf hs
  rw [ha.head] at hk
  rw [ha.live hq] at hf
  rw [ha.status] at hs
  exact Or.inr (Or.inr ⟨hk, hf, hs, ha.prev f⟩)

end Alike

theorem Change.alike (hc : Change q q' woken mine mine') (ha : Alike q' q'') :
    Change q q'' woken mine mine' := by
  obtain ⟨h, body, hq⟩ := hc.shaped
  constructor
  case shaped => exact ⟨h, body, ha.shaped hq⟩
  case actor =>
    intro m hm used
    rw [ha.actor, hc.actor m hm used]
  case mode =>
    intro m hm used
    rw [ha.mode, hc.mode m hm used]
  case live =>
    intro m hm live
    rw [ha.live hq]
    exact hc.live m hm live
  case waits =>
    intro m hm waits
    exact (ha.inUse hq m).2 (hc.waits m hm waits)
  case turn =>
    intro m hm live turn
    rw [ha.prev, ha.head, hc.turn m hm live turn]
  case used =>
    intro m hm
    exact hc.used m ((ha.inUse hq m).1 hm)
  case honours =>
    intro p m hf
    rw [ha.column hq] at hf
    rw [ha.status, ha.actor]
    exact hc.honours p m hf

theorem Passes.alike (hp : Passes q q' woken mine') (hq : Shaped q' h body) (ha : Alike q' q'') :
    Passes q q'' woken mine' := by
  intro k f hk hf hs
  rw [ha.actor, ha.prev]
  rw [ha.head] at hk
  rw [ha.live hq] at hf
  rw [ha.status] at hs
  exact hp k f hk hf hs

theorem Passes.after_alike (ha : Alike q q') (hq : Shaped q h body)
    (hp : Passes q' q'' woken mine') : Passes q q'' woken mine' := by
  intro k f hk hf hs
  rw [← ha.head, ← ha.live hq, ← ha.status, ← ha.prev]
  exact hp k f hk hf hs

theorem Change.after_alike (ha : Alike q q') (hq : Shaped q h body)
    (hc : Change q' q'' woken mine mine') : Change q q'' woken mine mine' := by
  constructor
  case shaped => exact hc.shaped
  case actor =>
    intro m hm used
    rw [hc.actor m hm ((ha.inUse hq m).2 used), ha.actor]
  case mode =>
    intro m hm used
    rw [hc.mode m hm ((ha.inUse hq m).2 used), ha.mode]
  case live =>
    intro m hm live
    exact hc.live m hm (ha.live hq ▸ live)
  case waits =>
    intro m hm waits
    exact hc.waits m hm ((ha.status m).trans waits)
  case turn =>
    intro m hm live turn
    exact hc.turn m hm (ha.live hq ▸ live) (by rw [ha.prev, ha.head, turn])
  case used =>
    intro m hm
    exact (hc.used m hm).imp_right fun used => ⟨used.1, (ha.inUse hq m).1 used.2⟩
  case honours =>
    intro p m hf
    refine (hc.honours p m hf).imp_right (Or.imp_right (Or.imp_right ?_))
    rintro ⟨p', hf', hs⟩
    exact ⟨p', ha.column hq ▸ hf', ha.status p' ▸ hs⟩

end

end Turnstile.WaitQueue
