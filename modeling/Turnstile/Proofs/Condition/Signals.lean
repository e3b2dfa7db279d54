import Turnstile.Proofs.Condition
import Turnstile.Proofs.Queue.Followers
import Turnstile.Proofs.Queue.Moving

/-! What a signal does to the chain of a condition: the nodes that no longer wait are dropped from its
front, and the one that has waited longest is moved to the queue. -/
namespace Turnstile

namespace Condition

open WaitQueue

variable {q : WaitQueue} {c : Condition} {h n : NodeId} {body ns : List NodeId}

/-- What a signal comes to on the chain `ns` of a condition. -/
inductive Signalled (c : Condition) (q : WaitQueue) (ns : List NodeId) (c' : Condition) (q' : WaitQueue) :
    Prop
  /-- Nobody waits, and the whole chain is dropped. -/
  | nobody (none : ∀ n ∈ ns, (q.node n).status ≠ .condition) (alike : Alike q q')
      (followers : ∀ m, (q'.node m).follower = if m ∈ ns then Option.none else (q.node m).follower)
      (empty : ns ≠ [] → c' = { c with first := Option.none, last := Option.none }) (same : ns = [] → c' = c)
  /-- The first that waits is moved, and what was before it is dropped. -/
  | somebody (xs : List NodeId) (n : NodeId) (ys : List NodeId) (chain : ns = xs ++ n :: ys)
      (none : ∀ m ∈ xs, (q.node m).status ≠ .condition) (moves : Moves q q' [n])
      (followers : ∀ m, (q'.node m).follower = if m ∈ xs ++ [n] then Option.none else (q.node m).follower)
      (rest : c' = { c with first := ys.head?, last := if ys.isEmpty then Option.none else c.last })

theorem signalled_signalFrom (c : Condition) (hq : Shaped q h body) (ns : List NodeId) :
    Signalled c q ns (c.signalFrom q ns).1 (c.signalFrom q ns).2.1 := by
  induction ns generalizing c q h body with
  | nil => exact .nobody (by simp) (Alike.refl q) (by simp [signalFrom]) (by simp) fun _ => rfl
  | cons n rest ih =>
    have unlinked := Alike.setFollower q n none
    have hq' := unlinked.shaped hq
    by_cases waits : (q.node n).status = .condition
    · have waits' : ((q.setFollower n none).node n).status = .condition := (unlinked.status n).trans waits
      have moves := (hq'.moves_transferSignalled waits').after_alike unlinked hq
      have moved : ((q.setFollower n none).transferSignalled n).2.2 = true := by
        rw [(hq'.joined_transferSignalled waits').1]
      unfold signalFrom
      dsimp only
      split
      · rename_i e
        rw [e] at moves
        refine .somebody [] n rest rfl (by simp) moves (fun m => ?_) rfl
        have follower := follower_transferSignalled (q.setFollower n none) n m
        rw [e, follower_unlinked] at follower
        simpa using follower
      · rename_i e
        simp [e] at moved
    · have stays : (q.setFollower n none).transferSignalled n = (q.setFollower n none, none, false) :=
        transferSignalled_of_ne fun e => waits ((unlinked.status n).symm.trans e)
      unfold signalFrom
      rw [stays]
      dsimp only
      rcases ih { c with first := rest.head?, last := if rest.isEmpty then none else c.last } hq' with
        ⟨none, alike, followers, empty, same⟩ | ⟨xs, m, ys, chain, none, moves, followers, left⟩
      · refine .nobody ?_ (unlinked.trans alike) (fun m => ?_) (fun _ => ?_) (by simp)
        · intro m hm
          rcases List.mem_cons.1 hm with rfl | hm
          · exact waits
          · exact unlinked.status m ▸ none m hm
        · rw [followers, follower_unlinked]
          by_cases e : m = n <;> simp [e]
        · cases rest with
          | nil => exact same rfl
          | cons m rest => exact empty (by simp)
      · subst chain
        refine .somebody (n :: xs) m ys rfl ?_ (moves.after_alike unlinked hq) (fun k => ?_) ?_
        · intro k hk
          rcases List.mem_cons.1 hk with rfl | hk
          · exact waits
          · exact unlinked.status k ▸ none k hk
        · rw [followers, follower_unlinked]
          by_cases e : k = n <;> simp [e]
        · rw [left]
          simp

/-- Whoever is taken off the chain is moved if it waits. -/
theorem moves_unlinked (hq : Shaped q h body) (n : NodeId) :
    Moves q ((q.setFollower n none).transferSignalled n).1
      ([n].filter fun n => (q.node n).status = .condition) := by
  have unlinked := Alike.setFollower q n none
  by_cases waits : (q.node n).status = .condition
  · have moves := (unlinked.shaped hq).moves_transferSignalled ((unlinked.status n).trans waits)
    simpa [waits] using moves.after_alike unlinked hq
  · rw [transferSignalled_of_ne fun e => waits ((unlinked.status n).symm.trans e)]
    simpa [waits] using Moves.of_alike unlinked hq

theorem exists_moves_moveAll (hq : Shaped q h body) (ns : List NodeId) :
    ∃ ms, Moves q (moveAll q ns).1 ms := by
  induction ns generalizing q h body with
  | nil => exact ⟨[], Moves.of_alike (Alike.refl q) hq⟩
  | cons n rest ih =>
    have first := moves_unlinked hq n
    obtain ⟨k, b, shaped⟩ := first.shaped
    obtain ⟨ms, later⟩ := ih shaped
    exact ⟨_, first.trans later⟩

/-- When all are signalled, those who wait are moved in order and the chain is dissolved. -/
theorem moves_moveAll (hq : Shaped q h body) (nodup : ns.Nodup) :
    Moves q (moveAll q ns).1 (ns.filter fun n => (q.node n).status = .condition) ∧
      ∀ m, ((moveAll q ns).1.node m).follower = if m ∈ ns then none else (q.node m).follower := by
  induction ns generalizing q h body with
  | nil => exact ⟨Moves.of_alike (Alike.refl q) hq, by simp [moveAll]⟩
  | cons n rest ih =>
    obtain ⟨outside, nodup⟩ := List.nodup_cons.1 nodup
    have first := moves_unlinked hq n
    obtain ⟨k, b, shaped⟩ := first.shaped
    obtain ⟨later, followers⟩ := ih shaped nodup
    -- Nobody else on the chain is touched by the first move.
    have others : rest.filter (fun m => decide ((((q.setFollower n none).transferSignalled n).1.node m).status =
        .condition)) = rest.filter fun m => (q.node m).status = .condition := by
      refine List.filter_congr fun m hm => ?_
      have out : m ∉ [n].filter fun n => (q.node n).status = .condition := fun mem => by
        obtain rfl : m = n := List.mem_singleton.1 (List.mem_filter.1 mem).1
        exact outside hm
      exact decide_eq_decide.2 (first.waits_iff out)
    rw [others] at later
    refine ⟨?_, fun m => ?_⟩
    · have both := first.trans later
      rwa [← List.filter_append] at both
    · change ((moveAll ((q.setFollower n none).transferSignalled n).1 rest).1.node m).follower = _
      rw [followers, follower_transferSignalled, follower_unlinked]
      by_cases e : m = n <;> simp [e]

end Condition

end Turnstile
