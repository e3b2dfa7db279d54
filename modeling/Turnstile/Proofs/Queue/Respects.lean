import Turnstile.Proofs.Queue.Rooted
import Turnstile.Proofs.Queue.Withdrawal

/-! What an operation of the queue leaves to the others, even where nodes have died out of turn: whoever has a
node in the queue or on a condition still has it. -/
namespace Turnstile.WaitQueue

/-- Nobody but the keeper of `mine` loses by the change what its node is to it. -/
structure Respects (q q' : WaitQueue) (mine : Option NodeId) : Prop where
  spine : ∃ h body, Spine q' h body
  actor : ∀ m, mine ≠ some m → InUse q m → (q'.node m).actor = (q.node m).actor
  live : ∀ m, mine ≠ some m → m ∈ q.live → m ∈ q'.live
  waits : ∀ m, mine ≠ some m → (q.node m).status = .condition → InUse q' m
  turn : ∀ m, mine ≠ some m → m ∈ q.live → (q.node m).prev = q.head → (q'.node m).prev = q'.head

/-- The links back lead where they led, and nobody but perhaps `mine` has lost its actor. -/
structure Level (q q' : WaitQueue) (mine : Option NodeId) : Prop where
  head : q'.head = q.head
  tail : q'.tail = q.tail
  size : q'.nodes.size = q.nodes.size
  prev : ∀ m, (q'.node m).prev = (q.node m).prev
  life : ∀ m, (q'.node m).isLive = (q.node m).isLive
  gone : ∀ m, (q.node m).status = .cancelled → (q'.node m).status = .cancelled
  waits : ∀ m, (q'.node m).status = .condition ↔ (q.node m).status = .condition
  actor : ∀ m, mine ≠ some m → (q'.node m).actor = (q.node m).actor

variable {q q' q'' : WaitQueue} {h n p : NodeId} {body xs ys : List NodeId} {mine : Option NodeId}

namespace Spine

theorem live_congr (hq : Spine q h body) (hq' : Spine q' h body)
    (life : ∀ m ∈ body, (q'.node m).isLive = (q.node m).isLive) : q'.live = q.live := by
  rw [hq.live_eq, hq'.live_eq]
  exact congrArg _ (List.filter_congr life)

theorem ne_of_waits (hq : Spine q h body) (waits : (q.node n).status = .condition) {m : NodeId}
    (hm : m ∈ h :: body) : m ≠ n := fun e => hq.notMem_of_waits waits (e ▸ hm)

theorem retreat (hq : Spine q h (n :: xs)) : Spine (q.between q.head (some (xs.head?.getD h))) h xs := by
  have sub : List.Sublist (h :: xs) (h :: n :: xs) := (List.sublist_cons_self n xs).cons_cons h
  constructor
  case ends => exact Or.inl ⟨hq.head_eq_of_mem (List.mem_cons_self), rfl⟩
  case nodup => exact hq.nodup.sublist sub
  case inTable => exact fun m hm => hq.inTable m (sub.subset hm)
  case prevs => exact hq.prevs.2
  case prev_front => exact hq.prev_front
  case front_live => exact hq.front_live
  case joined => exact fun m hm => hq.joined m (sub.subset hm)

end Spine

namespace Respects

theorem mono (hr : Respects q q' none) (mine : Option NodeId) : Respects q q' mine where
  spine := hr.spine
  actor m _ := hr.actor m (by simp)
  live m _ := hr.live m (by simp)
  waits m _ := hr.waits m (by simp)
  turn m _ := hr.turn m (by simp)

theorem inUse (hr : Respects q q' mine) {m : NodeId} (other : mine ≠ some m) (used : InUse q m) : InUse q' m :=
  used.elim (fun live => Or.inl (hr.live m other live)) (hr.waits m other)

theorem trans (hr : Respects q q' mine) (hr' : Respects q' q'' mine) : Respects q q'' mine where
  spine := hr'.spine
  actor m other used := (hr'.actor m other (hr.inUse other used)).trans (hr.actor m other used)
  live m other live := hr'.live m other (hr.live m other live)
  waits m other waits := hr'.inUse other (hr.waits m other waits)
  turn m other live turn := hr'.turn m other (hr.live m other live) (hr.turn m other live turn)

end Respects

namespace Level

theorem refl (q : WaitQueue) (mine : Option NodeId) : Level q q mine :=
  ⟨rfl, rfl, rfl, fun _ => rfl, fun _ => rfl, fun _ => id, fun _ => Iff.rfl, fun _ _ => rfl⟩

theorem trans (hl : Level q q' mine) (hl' : Level q' q'' mine) : Level q q'' mine where
  head := hl'.head.trans hl.head
  tail := hl'.tail.trans hl.tail
  size := hl'.size.trans hl.size
  prev m := (hl'.prev m).trans (hl.prev m)
  life m := (hl'.life m).trans (hl.life m)
  gone m := hl'.gone m ∘ hl.gone m
  waits m := (hl'.waits m).trans (hl.waits m)
  actor m other := (hl'.actor m other).trans (hl.actor m other)

theorem spine (hl : Level q q' mine) (hq : Spine q h body) : Spine q' h body :=
  hq.congr hl.head hl.tail (Nat.le_of_eq hl.size.symm) (fun m _ => hl.prev m)
    ((hl.life h).trans hq.front_live) fun m hm => mt (hl.waits m).1 (hq.joined m hm)

theorem live (hl : Level q q' mine) (hq : Spine q h body) : q'.live = q.live :=
  hq.live_congr (hl.spine hq) fun m _ => hl.life m

theorem respects (hl : Level q q' mine) (hq : Spine q h body) : Respects q q' mine where
  spine := ⟨h, body, hl.spine hq⟩
  actor m other _ := hl.actor m other
  live m _ hm := hl.live hq ▸ hm
  waits m _ waits := Or.inr ((hl.waits m).2 waits)
  turn m _ _ turn := by rw [hl.prev, hl.head, turn]

theorem of_alike (ha : Alike q q') (mine : Option NodeId) : Level q q' mine :=
  ⟨ha.head, ha.tail, ha.size, ha.prev, ha.isLive, fun m => (ha.status m).trans, fun m => by rw [ha.status],
    fun m _ => ha.actor m⟩

theorem setNext (q : WaitQueue) (n : NodeId) (x : Option NodeId) (mine : Option NodeId) :
    Level q (q.setNext n x) mine :=
  ⟨rfl, rfl, by simp, by simp, by simp [Node.isLive], by simp, by simp, by simp⟩

theorem setStatus (alive : (q.node p).isLive) (settled : (q.node p).status ≠ .condition) {t : Status}
    (ht : t.isDead = false) (hc : t ≠ .condition) (mine : Option NodeId) : Level q (q.setStatus p t) mine := by
  refine ⟨rfl, rfl, by simp, by simp, Shaped.life_setStatus alive ht, fun m gone => ?_, fun m => ?_, by simp⟩
  · have e : m ≠ p := by
      rintro rfl
      simp [Node.isLive, gone] at alive
    simp [e, gone]
  · by_cases e : m = p
    · subst e
      exact iff_of_false (Shaped.status_setStatus_ne hc settled) settled
    · rw [status_setStatus_of_ne _ _ e]

/-- Whoever is asked to wake the next has no say in where anyone stands. -/
theorem wakeNext (settled : (q.node n).status ≠ .condition) (mine : Option NodeId) :
    Level q (q.wakeNext n).1 mine := by
  unfold WaitQueue.wakeNext
  split
  · rename_i pending
    refine setStatus ?_ settled (by simp) (by simp) mine
    have negative := (Status.pending_iff _).1 pending
    simp only [Node.isLive, Bool.not_eq_true', ← Bool.not_eq_true, Status.isDead_iff]
    omega
  · exact refl q mine

end Level

end Turnstile.WaitQueue
