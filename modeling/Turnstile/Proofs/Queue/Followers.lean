import Turnstile.Proofs.Queue.Joining
import Turnstile.Proofs.Queue.Turning

/-! No operation of the wait queue touches the chains of conditions. -/
namespace Turnstile.WaitQueue

variable (q : WaitQueue) (n m : NodeId)

theorem follower_unlinked :
    ((q.setFollower n none).node m).follower = if m = n then none else (q.node m).follower := by
  by_cases e : m = n
  · subst e
    rw [if_pos rfl]
    by_cases inTable : m < q.nodes.size
    · exact follower_setFollower_self _ inTable
    · rw [node_of_size_le (by simpa using inTable)]
  · rw [if_neg e, follower_setFollower_of_ne _ _ e]

@[simp] theorem follower_create (mode : Mode) (status : Status) (a : ActorId) :
    ((q.create mode status a).1.node m).follower = (q.node m).follower := by
  by_cases e : m = q.nodes.size
  · subst e
    rw [node_create, node_of_size_le (Nat.le_refl _)]
  · rw [q.node_create_of_ne mode status a e]

@[simp] theorem follower_enqueue :
    ((q.enqueue n).1.node m).follower = (q.node m).follower := by
  have opened : (q.opened.node m).follower = (q.node m).follower := by
    unfold opened
    split <;> rfl
  change (((q.opened.setPrev n _).setNext _ (some n)).node m).follower = _
  rw [follower_setNext, follower_setPrev, opened]

@[simp] theorem follower_transferSignalled :
    ((q.transferSignalled n).1.node m).follower = (q.node m).follower := by
  unfold transferSignalled
  split
  · dsimp only
    split <;> simp
  · rfl

@[simp] theorem follower_join (mode : Mode) (a : ActorId) :
    ((q.join mode a).1.node m).follower = (q.node m).follower := by
  simp [join]

@[simp] theorem follower_skipDead : ((q.skipDead n).1.node m).follower = (q.node m).follower := by
  simp [skipDead]

@[simp] theorem follower_readyToPark : ((q.readyToPark n).1.node m).follower = (q.node m).follower := by
  have skipped := q.follower_skipDead n m
  unfold readyToPark
  split
  · rfl
  · split
    · rfl
    · split
      · simp
      · split
        all_goals
          rename_i e
          rw [e] at skipped
          simpa using skipped

@[simp] theorem follower_wakeNext : ((q.wakeNext n).1.node m).follower = (q.node m).follower := by
  unfold wakeNext
  dsimp only
  split <;> simp

@[simp] theorem follower_wakeFirst : (q.wakeFirst.1.node m).follower = (q.node m).follower := by
  unfold wakeFirst
  split
  · rfl
  · split <;> simp

@[simp] theorem follower_wakeShared : (q.wakeShared.1.node m).follower = (q.node m).follower := by
  unfold wakeShared
  split
  · rfl
  · split
    · rfl
    · split <;> simp

@[simp] theorem follower_bypass (p : NodeId) :
    ((q.bypass p n).1.node m).follower = (q.node m).follower := by
  unfold bypass
  split
  · simp
  · dsimp only
    split
    · simp
    · split <;> simp

@[simp] theorem follower_withdraw : ((q.withdraw n).1.node m).follower = (q.node m).follower := by
  have skipped := (q.clearActor n).follower_skipDead n m
  unfold withdraw
  split
  · rfl
  · split
    all_goals
      rename_i e
      rw [e] at skipped
    · simpa using skipped
    · dsimp only
      split
      · change (((WaitQueue.setNext _ _ _).node m).follower) = _
        simpa using skipped
      · simpa using skipped

@[simp] theorem follower_promote : ((q.promote n).node m).follower = (q.node m).follower := by
  rw [promote_eq]
  simp

@[simp] theorem follower_promoteShared (cascade : Bool) :
    ((q.promoteShared n cascade).1.node m).follower = (q.node m).follower := by
  unfold promoteShared
  dsimp only
  split <;> simp

@[simp] theorem follower_transferUnsignalled :
    ((q.transferUnsignalled n).1.node m).follower = (q.node m).follower := by
  unfold transferUnsignalled
  split <;> simp

end Turnstile.WaitQueue
