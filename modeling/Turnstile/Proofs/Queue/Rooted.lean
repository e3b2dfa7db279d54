import Turnstile.Proofs.Condition

/-! The links back through a queue never lead out of its table, whatever is done to it. -/
namespace Turnstile

theorem mem_trail {link : Nat → Option Nat} {bound : Nat} {start : Option Nat} {i : Nat}
    (h : i ∈ trail link bound start) : start = some i ∨ ∃ j, link j = some i := by
  induction bound generalizing start with
  | zero => simp [trail] at h
  | succ n ih =>
    cases start with
    | none => simp at h
    | some j =>
      rcases List.mem_cons.1 h with rfl | h
      · exact Or.inl rfl
      · exact Or.inr ((ih h).elim (fun e => ⟨j, e⟩) id)

namespace WaitQueue

theorem size_join (q : WaitQueue) (mode : Mode) (a : ActorId) :
    (q.join mode a).1.nodes.size = q.nodes.size + 1 := by
  have opened : ∀ r : WaitQueue, r.opened.nodes = r.nodes := fun r => by
    unfold WaitQueue.opened
    split <;> rfl
  simp [join, enqueue, setPrev, setNext, opened, create]

structure Rooted (q : WaitQueue) : Prop where
  opens : placeholder < q.nodes.size
  tail : ∀ n, q.tail = some n → n < q.nodes.size
  prev : ∀ n p, (q.node n).prev = some p → p < q.nodes.size

theorem rooted_empty : Rooted .empty :=
  ⟨by decide, by simp [empty], fun n p h => by
    by_cases hn : n = 0
    · subst hn
      simp [node, empty, Table.ofList, Table.get] at h
    · rw [node_of_size_le (show 1 ≤ n from Nat.pos_of_ne_zero hn)] at h
      simp at h⟩

/-- The nodes become no fewer, and the links stay among them. -/
structure Extends (q q' : WaitQueue) : Prop where
  size : q.nodes.size ≤ q'.nodes.size
  rooted : q.Rooted → q'.Rooted

namespace Extends

variable {q q' q'' : WaitQueue} {n : NodeId}

theorem refl (q : WaitQueue) : Extends q q := ⟨Nat.le_refl _, id⟩

theorem trans (h : Extends q q') (h' : Extends q' q'') : Extends q q'' :=
  ⟨Nat.le_trans h.size h'.size, h'.rooted ∘ h.rooted⟩

theorem update (q : WaitQueue) (n : NodeId) {f : Node → Node} (keeps : ∀ x, (f x).prev = x.prev) :
    Extends q (q.update n f) := by
  refine ⟨by simp, fun rooted => ⟨?_, ?_, fun m p h => ?_⟩⟩
  · simpa using rooted.opens
  · simpa using rooted.tail
  · rw [q.field_update n m Node.prev keeps] at h
    simpa using rooted.prev m p h

theorem setPrev (q : WaitQueue) (n : NodeId) {p : Option NodeId}
    (inTable : q.Rooted → ∀ m, p = some m → m < q.nodes.size) : Extends q (q.setPrev n p) := by
  refine ⟨by simp [WaitQueue.setPrev], fun rooted => ⟨?_, ?_, fun m k h => ?_⟩⟩
  · simpa [WaitQueue.setPrev] using rooted.opens
  · simpa [WaitQueue.setPrev] using rooted.tail
  · have known : k < q.nodes.size := by
      rw [WaitQueue.setPrev, node_update] at h
      split at h
      · exact inTable rooted k h
      · exact rooted.prev m k h
    simpa [WaitQueue.setPrev] using known

theorem between (q : WaitQueue) (head tail : Option NodeId)
    (inTable : q.Rooted → ∀ m, tail = some m → m < q.nodes.size) : Extends q (q.between head tail) :=
  ⟨Nat.le_refl _, fun rooted => ⟨rooted.opens, inTable rooted, rooted.prev⟩⟩

theorem create (q : WaitQueue) (mode : Mode) (status : Status) (a : ActorId) :
    Extends q (q.create mode status a).1 := by
  have grown : (q.create mode status a).1.nodes.size = q.nodes.size + 1 := Table.size_push _ _
  refine ⟨grown ▸ Nat.le_succ _, fun rooted => ⟨?_, fun m h => ?_, fun m p h => ?_⟩⟩
  · exact grown ▸ Nat.lt_succ_of_lt rooted.opens
  · exact grown ▸ Nat.lt_succ_of_lt (rooted.tail m h)
  · rw [WaitQueue.create, node, Table.get_push] at h
    split at h
    · simp at h
    · exact grown ▸ Nat.lt_succ_of_lt (rooted.prev m p h)

theorem setStatus (q : WaitQueue) (n : NodeId) (s : Status) : Extends q (q.setStatus n s) :=
  update q n fun _ => rfl

theorem setNext (q : WaitQueue) (n : NodeId) (next : Option NodeId) : Extends q (q.setNext n next) :=
  update q n fun _ => rfl

theorem setFollower (q : WaitQueue) (n : NodeId) (follower : Option NodeId) :
    Extends q (q.setFollower n follower) :=
  update q n fun _ => rfl

theorem clearActor (q : WaitQueue) (n : NodeId) : Extends q (q.clearActor n) := update q n fun _ => rfl

theorem opened (q : WaitQueue) : Extends q q.opened := by
  unfold WaitQueue.opened
  split
  · exact between q _ _ fun rooted m h => Option.some.inj h ▸ rooted.opens
  · exact refl q

theorem enqueue (q : WaitQueue) (inTable : n < q.nodes.size) : Extends q (q.enqueue n).1 := by
  have last : q.opened.Rooted → ∀ m, some (q.opened.tail.getD placeholder) = some m →
      m < q.opened.nodes.size := by
    intro rooted m h
    obtain rfl := Option.some.inj h
    cases tail : q.opened.tail with
    | none => exact rooted.opens
    | some k => exact rooted.tail k tail
  have linked := (opened q).trans ((setPrev q.opened n last).trans
    (setNext _ (q.opened.tail.getD placeholder) (some n)))
  refine linked.trans (between _ _ (some n) fun _ m h => ?_)
  exact Option.some.inj h ▸ Nat.lt_of_lt_of_le inTable linked.size

theorem join (q : WaitQueue) (mode : Mode) (a : ActorId) : Extends q (q.join mode a).1 :=
  (create q mode .initial a).trans (enqueue _ (by simp [WaitQueue.create]))

theorem lt_of_mem_backFrom (rooted : q.Rooted) {m : NodeId} (h : m ∈ q.backFrom (q.node n).prev) :
    m < q.nodes.size := by
  rcases mem_trail h with start | ⟨j, link⟩
  · exact rooted.prev n m start
  · exact rooted.prev j m link

theorem skipDead (q : WaitQueue) (n : NodeId) : Extends q (q.skipDead n).1 := by
  refine setPrev q n fun rooted m h => lt_of_mem_backFrom (n := n) rooted ?_
  rw [Option.or_eq_some_iff] at h
  rcases h with found | ⟨-, last⟩
  · exact List.mem_of_find?_eq_some found
  · exact List.mem_of_getLast? last

theorem readyToPark (q : WaitQueue) (n : NodeId) : Extends q (q.readyToPark n).1 := by
  have skip := skipDead q n
  unfold WaitQueue.readyToPark
  split
  · exact refl q
  · split
    · exact refl q
    · split
      · exact setStatus q _ _
      · split
        all_goals
          rename_i e
          rw [e] at skip
        · exact skip.trans (setNext _ _ _)
        · exact skip

theorem wakeNext (q : WaitQueue) (n : NodeId) : Extends q (q.wakeNext n).1 := by
  unfold WaitQueue.wakeNext
  split
  · exact setStatus q _ _
  · exact refl q

theorem bypass (q : WaitQueue) (p n : NodeId) : Extends q (q.bypass p n).1 := by
  have asked := setStatus q p .signal
  unfold WaitQueue.bypass
  split
  · exact wakeNext q n
  · dsimp only
    split
    · exact asked.trans (wakeNext _ n)
    · split
      · exact asked.trans (setNext _ _ _)
      · exact asked

theorem withdraw (q : WaitQueue) (n : NodeId) : Extends q (q.withdraw n).1 := by
  unfold WaitQueue.withdraw
  split
  · exact refl q
  · have cleared := clearActor q n
    have skip := cleared.trans (skipDead (q.clearActor n) n)
    split
    · rename_i e
      rw [e] at skip
      exact skip
    · rename_i q' p e
      obtain ⟨-, found⟩ := Prod.mk.inj e
      rw [e] at skip
      have inTable : q.Rooted → p < q.nodes.size := fun rooted => by
        simpa using lt_of_mem_backFrom (cleared.rooted rooted) (List.mem_of_find?_eq_some found)
      have dead := skip.trans (setStatus q' n .cancelled)
      dsimp only
      split
      · have cut := dead.trans (setNext _ p none)
        refine ⟨cut.size, fun rooted => ?_⟩
        refine (between _ (q'.head) (some p) fun _ m h => ?_).rooted (cut.rooted rooted)
        exact Option.some.inj h ▸ Nat.lt_of_lt_of_le (inTable rooted) cut.size
      · exact dead.trans ((bypass _ p n).trans (setNext _ n none))

theorem wakeFirst (q : WaitQueue) : Extends q q.wakeFirst.1 := by
  unfold WaitQueue.wakeFirst
  split
  · exact refl q
  · split
    · exact refl q
    · exact wakeNext q _

theorem wakeShared (q : WaitQueue) : Extends q q.wakeShared.1 := by
  unfold WaitQueue.wakeShared
  split
  · exact refl q
  · split
    · exact refl q
    · split
      · exact wakeNext q _
      · exact setStatus q _ _
      · exact refl q

theorem promote (q : WaitQueue) (n : NodeId) : Extends q (q.promote n) := by
  refine (between q (some n) q.tail fun rooted => rooted.tail).trans ?_
  have cut : ∀ r : WaitQueue, Extends r (r.setPrev n none) := fun r => setPrev r n fun _ m h => by simp at h
  exact (clearActor _ n).trans (cut _)

theorem promoteShared (q : WaitQueue) (n : NodeId) (cascade : Bool) :
    Extends q (q.promoteShared n cascade).1 := by
  unfold WaitQueue.promoteShared
  dsimp only
  split
  · exact (promote q n).trans (wakeShared _)
  · exact promote q n

theorem lt_of_waits (waits : (q.node n).status = .condition) : n < q.nodes.size := by
  refine Nat.lt_of_not_le fun outside => ?_
  rw [node_of_size_le outside] at waits
  simp at waits

theorem transferSignalled (q : WaitQueue) (n : NodeId) : Extends q (q.transferSignalled n).1 := by
  unfold WaitQueue.transferSignalled
  split
  · rename_i waits
    have moved := (setStatus q n .initial).trans (enqueue _ (by simpa using lt_of_waits waits))
    dsimp only
    split
    · exact moved.trans (setStatus _ _ _)
    · exact moved
  · exact refl q

theorem transferUnsignalled (q : WaitQueue) (n : NodeId) : Extends q (q.transferUnsignalled n).1 := by
  unfold WaitQueue.transferUnsignalled
  split
  · rename_i waits
    exact (setStatus q n .initial).trans (enqueue _ (by simpa using lt_of_waits waits))
  · exact refl q

theorem of_alike (h : Alike q q') : Extends q q' := by
  refine ⟨Nat.le_of_eq h.size.symm, fun rooted => ⟨?_, fun m tail => ?_, fun m p prev => ?_⟩⟩
  · exact h.size ▸ rooted.opens
  · exact h.size ▸ rooted.tail m (h.tail ▸ tail)
  · exact h.size ▸ rooted.prev m p (h.prev m ▸ prev)

theorem joinCondition (c : Condition) (q : WaitQueue) (a : ActorId) : Extends q (c.join q a).2.1 := by
  obtain ⟨q₁, before, -, after⟩ := c.join_spec q a
  exact (of_alike before).trans ((create q₁ .exclusive .condition a).trans (of_alike after))

theorem signalFrom (c : Condition) (q : WaitQueue) (ns : List NodeId) :
    Extends q (c.signalFrom q ns).2.1 := by
  induction ns generalizing c q with
  | nil => exact refl q
  | cons n rest ih =>
    have moved := (setFollower q n none).trans (transferSignalled _ n)
    unfold Condition.signalFrom
    dsimp only
    split
    all_goals
      rename_i e
      rw [e] at moved
    · exact moved
    · exact moved.trans (ih _ _)

theorem moveAll (q : WaitQueue) (ns : List NodeId) : Extends q (Condition.moveAll q ns).1 := by
  induction ns generalizing q with
  | nil => exact refl q
  | cons n rest ih => exact ((setFollower q n none).trans (transferSignalled _ n)).trans (ih _)

end Extends

end WaitQueue

end Turnstile
