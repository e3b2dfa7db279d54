import Turnstile.Proofs.Condition
import Turnstile.Proofs.Queue.Rooted

/-! Where the hints lead: never to a node on a condition, and if to one that has given up then to one that
belongs to nobody any more. So whoever looks at the hint of the head sees who is first. -/
namespace Turnstile.WaitQueue

/-- A node that a hint may lead to. -/
structure Sound (q : WaitQueue) (n : NodeId) : Prop where
  inTable : n < q.nodes.size
  apart : (q.node n).status ≠ .condition
  gone : (q.node n).isLive = false → (q.node n).actor = none

def Hinted (q : WaitQueue) : Prop := ∀ n m, (q.node n).next = some m → q.Sound m

theorem hinted_empty : Hinted .empty := fun n m h => by simp [node_empty] at h

theorem Shaped.sound_of_mem {q : WaitQueue} {h n : NodeId} {body : List NodeId} (hq : Shaped q h body)
    (hn : n ∈ q.live) : q.Sound n := by
  obtain ⟨hb, live⟩ := hq.mem_live.1 hn
  have mem := List.mem_cons_of_mem h hb
  exact ⟨hq.inTable n mem, hq.joined n mem, fun dead => by simp [live] at dead⟩

namespace Hinted

variable {q q' : WaitQueue} {n m : NodeId}

/-- Hints stay sound where nodes do and no others are led to. -/
theorem change (h : Hinted q) (sound : ∀ m, q.Sound m → q'.Sound m)
    (next : ∀ n m, (q'.node n).next = some m → (q.node n).next = some m ∨ q'.Sound m) : Hinted q' := by
  intro n m hm
  rcases next n m hm with before | now
  · exact sound m (h n m before)
  · exact now

theorem of_alike (h : Hinted q) (ha : Alike q q') : Hinted q' := by
  refine h.change (fun m sound => ⟨?_, ?_, ?_⟩) fun n m hm => Or.inl ((ha.next n).symm.trans hm)
  · exact ha.size ▸ sound.inTable
  · exact ha.status m ▸ sound.apart
  · rw [ha.isLive, ha.actor]
    exact sound.gone

/-- A node may take any status but that it waits on a condition, and die only once it is nobody's. -/
theorem setStatus (h : Hinted q) (n : NodeId) {t : Status} (apart : t ≠ .condition)
    (gone : t.isDead = true → (q.node n).actor = none) : Hinted (q.setStatus n t) := by
  refine h.change (fun m sound => ⟨by simpa using sound.inTable, ?_, ?_⟩) fun n m hm => ?_
  · by_cases e : m = n
    · subst e
      rwa [status_setStatus_self _ sound.inTable]
    · rw [status_setStatus_of_ne _ _ e]
      exact sound.apart
  · by_cases e : m = n
    · subst e
      rw [Node.isLive, status_setStatus_self _ sound.inTable, actor_setStatus]
      exact fun dead => gone (by simpa using dead)
    · rw [Node.isLive, status_setStatus_of_ne _ _ e, actor_setStatus]
      exact sound.gone
  · exact Or.inl (by simpa using hm)

/-- A node on a condition may die as well, since no hint leads to it. -/
theorem drop (h : Hinted q) (waits : (q.node n).status = .condition) : Hinted (q.setStatus n .cancelled) := by
  have others : ∀ m, q.Sound m → m ≠ n := fun m sound e => sound.apart (e ▸ waits)
  refine h.change (fun m sound => ⟨by simpa using sound.inTable, ?_, ?_⟩) fun n m hm => ?_
  · rw [status_setStatus_of_ne _ _ (others m sound)]
    exact sound.apart
  · rw [Node.isLive, status_setStatus_of_ne _ _ (others m sound), actor_setStatus]
    exact sound.gone
  · exact Or.inl (by simpa using hm)

theorem setNext (h : Hinted q) (n : NodeId) {x : Option NodeId} (sound : ∀ m, x = some m → q.Sound m) :
    Hinted (q.setNext n x) := by
  have kept : ∀ m, q.Sound m → (q.setNext n x).Sound m := fun m sound =>
    ⟨by simpa using sound.inTable, by simpa using sound.apart, by simpa [Node.isLive] using sound.gone⟩
  refine h.change kept fun k m hm => ?_
  rw [WaitQueue.setNext, node_update] at hm
  split at hm
  · exact Or.inr (kept m (sound m hm))
  · exact Or.inl hm

theorem cut (h : Hinted q) (n : NodeId) : Hinted (q.setNext n none) := h.setNext n (by simp)

theorem setPrev (h : Hinted q) (n : NodeId) (x : Option NodeId) : Hinted (q.setPrev n x) := by
  refine h.change (fun m sound => ⟨?_, ?_, ?_⟩) fun n m hm => Or.inl (by simpa using hm)
  · simpa using sound.inTable
  · simpa using sound.apart
  · simpa [Node.isLive] using sound.gone

theorem setFollower (h : Hinted q) (n : NodeId) (x : Option NodeId) : Hinted (q.setFollower n x) :=
  h.of_alike (Alike.setFollower q n x)

theorem actor_cleared (q : WaitQueue) (n : NodeId) : ((q.clearActor n).node n).actor = none := by
  by_cases inTable : n < q.nodes.size
  · exact actor_clearActor_self inTable
  · rw [node_of_size_le (by simpa using inTable)]

theorem clearActor (h : Hinted q) (n : NodeId) : Hinted (q.clearActor n) := by
  refine h.change (fun m sound => ⟨?_, ?_, fun dead => ?_⟩) fun n m hm => Or.inl (by simpa using hm)
  · simpa using sound.inTable
  · simpa using sound.apart
  · by_cases e : m = n
    · rw [e, actor_cleared]
    · rw [actor_clearActor_of_ne _ e]
      exact sound.gone (by simpa [Node.isLive] using dead)

theorem between (h : Hinted q) (head tail : Option NodeId) : Hinted (q.between head tail) :=
  h.change (fun _ sound => ⟨sound.inTable, sound.apart, sound.gone⟩) fun _ _ => Or.inl

theorem create (h : Hinted q) (mode : Mode) (status : Status) (a : ActorId) :
    Hinted (q.create mode status a).1 := by
  have old : ∀ m, m < q.nodes.size → (q.create mode status a).1.node m = q.node m := fun m hm =>
    q.node_create_of_ne mode status a (Nat.ne_of_lt hm)
  refine h.change (fun m sound => ⟨?_, ?_, ?_⟩) fun n m hm => ?_
  · rw [size_create]
    exact Nat.lt_succ_of_lt sound.inTable
  · rw [old m sound.inTable]
    exact sound.apart
  · rw [old m sound.inTable]
    exact sound.gone
  · by_cases e : n = q.nodes.size
    · subst e
      simp [node_create] at hm
    · exact Or.inl (by rwa [q.node_create_of_ne mode status a e] at hm)

theorem opened (h : Hinted q) : Hinted q.opened := by
  unfold WaitQueue.opened
  split
  · exact h.between _ _
  · exact h

theorem enqueue (h : Hinted q) (sound : q.Sound n) : Hinted (q.enqueue n).1 := by
  have same : q.opened.nodes = q.nodes := by
    unfold WaitQueue.opened
    split <;> rfl
  have node : ∀ m, q.opened.node m = q.node m := fun m => congrArg (·.get m) same
  refine ((h.opened.setPrev n _).setNext _ fun m hm => ?_).between _ _
  obtain rfl := Option.some.inj hm
  refine ⟨?_, ?_, ?_⟩
  · simpa [same] using sound.inTable
  · simpa [node] using sound.apart
  · simpa [node, Node.isLive] using sound.gone

theorem join (h : Hinted q) (mode : Mode) (a : ActorId) : Hinted (q.join mode a).1 := by
  refine (h.create mode .initial a).enqueue ⟨by simp [size_create], ?_, ?_⟩ <;> simp [node_create, Node.isLive]

theorem readyToPark (h : Hinted q) (sound : q.Sound n) : Hinted (q.readyToPark n).1 := by
  unfold WaitQueue.readyToPark
  split
  · exact h
  · split
    · exact h
    · split
      · exact h.setStatus _ (by simp) (by simp)
      · have skipped : Hinted (q.skipDead n).1 := h.setPrev n _
        have still : (q.skipDead n).1.Sound n :=
          ⟨by simpa [skipDead] using sound.inTable, by simpa [skipDead] using sound.apart,
            by simpa [skipDead, Node.isLive] using sound.gone⟩
        split
        all_goals
          rename_i e
          rw [e] at skipped still
        · exact skipped.setNext _ fun m hm => Option.some.inj hm ▸ still
        · exact skipped

theorem wakeNext (h : Hinted q) (n : NodeId) : Hinted (q.wakeNext n).1 := by
  unfold WaitQueue.wakeNext
  split
  · exact h.setStatus n (by simp) (by simp)
  · exact h

theorem wakeFirst (h : Hinted q) : Hinted q.wakeFirst.1 := by
  unfold WaitQueue.wakeFirst
  split
  · exact h
  · split
    · exact h
    · exact h.wakeNext _

theorem wakeShared (h : Hinted q) : Hinted q.wakeShared.1 := by
  unfold WaitQueue.wakeShared
  split
  · exact h
  · split
    · exact h
    · split
      · exact h.wakeNext _
      · exact h.setStatus _ (by simp) (by simp)
      · exact h

theorem bypass (h : Hinted q) (p n : NodeId) : Hinted (q.bypass p n).1 := by
  have asked : Hinted (q.setStatus p .signal) := h.setStatus p (by simp) (by simp)
  unfold WaitQueue.bypass
  split
  · exact h.wakeNext n
  · dsimp only
    split
    · exact asked.wakeNext n
    · split
      · rename_i found
        refine asked.setNext p fun m hm => asked n m ?_
        exact hm ▸ (Option.filter_eq_some_iff.1 found).1
      · exact asked

theorem withdraw (h : Hinted q) (n : NodeId) : Hinted (q.withdraw n).1 := by
  unfold WaitQueue.withdraw
  split
  · exact h
  · have skipped : Hinted ((q.clearActor n).skipDead n).1 := (h.clearActor n).setPrev n _
    have cleared : ((((q.clearActor n).skipDead n).1).node n).actor = none := by
      simp [skipDead, actor_cleared]
    split
    all_goals
      rename_i e
      rw [e] at skipped cleared
    · exact skipped
    · have dead := skipped.setStatus n (t := .cancelled) (by simp) fun _ => cleared
      dsimp only
      split
      · exact (dead.cut _).between _ _
      · exact (dead.bypass _ n).cut n

theorem promote (h : Hinted q) (n : NodeId) : Hinted (q.promote n) :=
  ((h.between (some n) q.tail).clearActor n).setPrev n none

theorem promoteShared (h : Hinted q) (n : NodeId) (cascade : Bool) :
    Hinted (q.promoteShared n cascade).1 := by
  unfold WaitQueue.promoteShared
  dsimp only
  split
  · exact (h.promote n).wakeShared
  · exact h.promote n

theorem release (h : Hinted q) (waits : (q.node n).status = .condition) :
    Hinted ((q.setStatus n .initial).enqueue n).1 := by
  have inTable := Extends.lt_of_waits waits
  have status := status_setStatus_self .initial inTable
  refine (h.setStatus n (by simp) (by simp)).enqueue ⟨by simpa using inTable, by simp [status], ?_⟩
  simp [Node.isLive, status]

theorem transferSignalled (h : Hinted q) (n : NodeId) : Hinted (q.transferSignalled n).1 := by
  unfold WaitQueue.transferSignalled
  split
  · rename_i waits
    dsimp only
    split
    · exact (h.release waits).setStatus _ (by simp) (by simp)
    · exact h.release waits
  · exact h

theorem transferUnsignalled (h : Hinted q) (n : NodeId) : Hinted (q.transferUnsignalled n).1 := by
  unfold WaitQueue.transferUnsignalled
  split
  · rename_i waits
    exact h.release waits
  · exact h

theorem joinCondition (h : Hinted q) (c : Condition) (a : ActorId) : Hinted (c.join q a).2.1 := by
  obtain ⟨q₁, before, -, after⟩ := c.join_spec q a
  exact ((h.of_alike before).create .exclusive .condition a).of_alike after

theorem signalFrom (h : Hinted q) (c : Condition) (ns : List NodeId) : Hinted (c.signalFrom q ns).2.1 := by
  induction ns generalizing c q with
  | nil => exact h
  | cons n rest ih =>
    have moved := (h.setFollower n none).transferSignalled n
    unfold Condition.signalFrom
    dsimp only
    split
    all_goals
      rename_i e
      rw [e] at moved
    · exact moved
    · exact ih moved _

theorem moveAll (h : Hinted q) (ns : List NodeId) : Hinted (Condition.moveAll q ns).1 := by
  induction ns generalizing q with
  | nil => exact h
  | cons n rest ih => exact ih ((h.setFollower n none).transferSignalled n)

/-- Who is told that nobody is before it is the first, unless nobody waits at all. -/
theorem first_of_hasPredecessors (h : Hinted q) {k : NodeId} {body : List NodeId} (hq : Shaped q k body)
    {a : ActorId} (clear : q.hasPredecessors a = false) :
    q.live = [] ∨ ∃ f, q.live.head? = some f ∧ (q.node f).actor = some a := by
  by_cases alone : q.live = []
  · exact Or.inl alone
  obtain ⟨n, hn⟩ := List.exists_mem_of_ne_nil _ alone
  have head := hq.head_eq_of_mem (hq.mem_live.1 hn).1
  have queued : q.hasQueued = true := by
    have apart : q.tail ≠ some k := fun tail => alone ((hq.tail_eq_head_iff head).1 tail)
    simpa [hasQueued, head] using apart.symm
  obtain ⟨m, link⟩ : ∃ m, (q.node k).next = some m :=
    Option.ne_none_iff_exists'.1 fun none => alone (hq.live_eq_nil.2 (hq.next_front_none.1 none))
  have mine : (q.node m).actor = some a := by
    simpa [hasPredecessors, queued, head, link] using clear
  rcases hq.next_front m link with dead | first
  · simp [(h k m link).gone dead] at mine
  · refine Or.inr ⟨m, ?_, mine⟩
    rw [hq.live_eq, List.head?_reverse, first]

end Hinted

end Turnstile.WaitQueue
