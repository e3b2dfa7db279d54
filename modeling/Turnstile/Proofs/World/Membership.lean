import Mathlib.Logic.Relation
import Turnstile.Proofs.Policy.Locks
import Turnstile.Proofs.World.Order

/-! Whether a node is in the queue, seen from its status, its hint and the links back: for those who wait all
three say the same, so a wait goes on to claim its turn just when its node has been moved. -/
namespace Turnstile

open WaitQueue (Shaped InUse)

/-- Links lead from the first entry of a chain to its members and to nothing else. -/
theorem Leads.reaches_iff {link : Nat → Option Nat} {xs : List Nat} {t n : Nat} (h : Leads link xs none)
    (first : xs.head? = some t) :
    Relation.ReflTransGen (fun i j => link i = some j) t n ↔ n ∈ xs := by
  constructor
  · intro reaches
    induction reaches with
    | refl => exact List.mem_of_mem_head? first
    | tail _ linked ih => exact List.mem_of_mem_tail (h.follows ih linked (by simp)).mem_right
  · intro hn
    induction xs generalizing t with
    | nil => simp at hn
    | cons x rest ih =>
      obtain rfl : x = t := by simpa using first
      rcases List.mem_cons.1 hn with rfl | hn
      · exact .refl
      · obtain ⟨y, ys, rfl⟩ := List.exists_cons_of_ne_nil (List.ne_nil_of_mem hn)
        exact .head (by simpa using h.1) (ih h.2 rfl hn)

namespace WaitQueue

/-- Links lead from the tail back to the node. -/
def Reaches (q : WaitQueue) (n : NodeId) : Prop :=
  ∃ t, q.tail = some t ∧ Relation.ReflTransGen (fun i j => (q.node i).prev = some j) t n

/-- All that is asked of a node that waits agrees on whether it is in the queue. -/
structure Exact (q : WaitQueue) (n : NodeId) : Prop where
  ne_head : q.head ≠ some n
  alive : (q.node n).status ≠ .cancelled
  holds : q.holds n = true ↔ (q.node n).status ≠ .condition
  reaches : (q.node n).status ≠ .condition ↔ q.Reaches n
  shortcut : (q.node n).next.isSome → q.Reaches n

variable {q : WaitQueue} {h n : NodeId} {body : List NodeId}

namespace Shaped

theorem prevs_backward (hq : Shaped q h body) : Leads (fun n => (q.node n).prev) q.backward none := by
  rw [hq.backward_eq]
  split
  · rw [leads_append]
    exact ⟨by simpa using hq.prevs, by simp [Leads, hq.prev_front]⟩
  · trivial

theorem head?_backward (hq : Shaped q h body) : q.backward.head? = q.tail := by
  rw [hq.backward_eq]
  rcases hq.ends with ⟨head, tail⟩ | ⟨head, tail, -⟩
  · rw [head, tail]
    cases body <;> rfl
  · rw [head, tail]
    rfl

/-- The walk from the tail finds all that links lead to. -/
theorem reaches_iff (hq : Shaped q h body) : q.Reaches n ↔ n ∈ q.backward := by
  constructor
  · rintro ⟨t, tail, reaches⟩
    exact (hq.prevs_backward.reaches_iff (hq.head?_backward.trans tail)).1 reaches
  · intro hn
    obtain ⟨t, rest, split⟩ := List.exists_cons_of_ne_nil (List.ne_nil_of_mem hn)
    have first : q.backward.head? = some t := by rw [split]; rfl
    exact ⟨t, hq.head?_backward ▸ first, (hq.prevs_backward.reaches_iff first).2 hn⟩

theorem reaches_of_live (hq : Shaped q h body) (hn : n ∈ q.live) : q.Reaches n := by
  obtain ⟨mem, -⟩ := hq.mem_live.1 hn
  rw [hq.reaches_iff, hq.backward_eq, hq.head_eq_of_mem mem]
  simp [mem]

theorem not_reaches_of_waits (hq : Shaped q h body) (waits : (q.node n).status = .condition) :
    ¬q.Reaches n := by
  rw [hq.reaches_iff, hq.backward_eq]
  intro hn
  split at hn
  · exact hq.joined n (by simpa [or_comm] using hn) waits
  · simp at hn

theorem exact (hq : Shaped q h body) (used : q.InUse n) : Exact q n := by
  rcases used with live | waits
  · obtain ⟨mem, alive⟩ := hq.mem_live.1 live
    have joined := hq.joined n (List.mem_cons_of_mem h mem)
    have reaches := hq.reaches_of_live live
    refine ⟨hq.ne_head live, fun gone => by simp [Node.isLive, gone] at alive, ?_, ?_, fun _ => reaches⟩
    · exact iff_of_true (hq.holds_of_mem live) joined
    · exact iff_of_true joined reaches
  · have out := hq.not_reaches_of_waits waits
    refine ⟨fun head => ?_, by simp [waits], by simp [holds, waits], by simp [waits, out], fun next => ?_⟩
    · exact hq.joined n (by simp [hq.eq_of_head head]) waits
    · simp [(hq.apart n waits).2.2] at next

end Shaped

end WaitQueue

def Position.watch : Position → Option Waiting
  | .waiting v | .dozing v | .awoken v => some v
  | _ => none

theorem Position.watch_eq {p : Position} {v : Waiting} (h : p.watch = some v) :
    p = .waiting v ∨ p = .dozing v ∨ p = .awoken v := by
  cases p <;> simp_all [watch]

namespace World

variable {s : SyncId} {w : World} {a : ActorId} {p : Position} {v : Waiting}

/-- A wait that looks out for its signal goes on to do so, or to claim what it saved. -/
theorem watch_step (running : (w.actor a).activity = .busy .running p) (watch : p.watch = some v) :
    ∃ p', ((w.step a).1.actor a).position = some p' ∧
      ((∃ v', p'.watch = some v' ∧ v'.node = v.node) ∨
        ∃ v', p' = reclaim v' ∧ v'.terms.sync = v.terms.sync ∧ v'.node = v.node) := by
  rw [Next.position_of_actor (activity_step running)]
  rcases w.stride_course a p with ⟨-, -, spins⟩ | ⟨-, course⟩
  · rw [spins]
    exact ⟨p, rfl, Or.inl ⟨v, watch, rfl⟩⟩
  generalize w.stride a p = r at course
  rcases Position.watch_eq watch with rfl | rfl | rfl
  · cases course with
    | reclaim => exact ⟨_, rfl, Or.inr ⟨v, rfl, rfl, rfl⟩⟩
    | doze => exact ⟨_, rfl, Or.inl ⟨v, rfl, rfl⟩⟩
  · cases course with
    | @timeOut _ w' timedOut => exact ⟨_, rfl, Or.inr ⟨{ v with timedOut }, rfl, rfl, rfl⟩⟩
    | sleep _ _ _ next =>
      rcases next with rfl | ⟨-, ⟨t, rfl⟩, -⟩
      · exact ⟨_, rfl, Or.inl ⟨v, rfl, rfl⟩⟩
      · exact ⟨_, rfl, Or.inl ⟨v, rfl, rfl⟩⟩
  · cases course with
    | look => exact ⟨_, rfl, Or.inl ⟨v, rfl, rfl⟩⟩
    | @cancel _ w' interruption => exact ⟨_, rfl, Or.inr ⟨{ v with interruption }, rfl, rfl, rfl⟩⟩
    | putOff => exact ⟨_, rfl, Or.inl ⟨_, rfl, rfl⟩⟩

/-- At the test of its loop a wait sees whether its node has been moved. -/
theorem test_step (running : (w.actor a).activity = .busy .running (.waiting v))
    (exact : (w.queue v.terms.sync).Exact v.node) : ((w.step a).1.actor a).activity = .busy .running
      (if ((w.queue v.terms.sync).node v.node).status = .condition then .dozing v else reclaim v) := by
  rw [activity_step running]
  change (w.advance a (.waiting v)).2.activity = _
  unfold advance
  dsimp only
  by_cases waits : ((w.queue v.terms.sync).node v.node).status = .condition
  · have out : ¬(w.queue v.terms.sync).holds v.node = true := fun holds => exact.holds.1 holds waits
    rw [if_neg out, if_pos waits]
    rfl
  · rw [if_pos (exact.holds.2 waits), if_neg waits]
    rfl

/-- Whoever has a node is told truly whether it is in the queue, and a wait that looks out for its signal
leaves its loop just when its node has been moved. -/
theorem membership_exact {actors tokens : Nat} {syncs : List Synchronizer} {conditions : List SyncId}
    {x : Synchronizer} (hx : syncs[s]? = some x) (empty : x.queue = .empty) {events : List Event}
    (orderly : Orderly s (World.create actors tokens syncs conditions) events) :
    let w := (World.create actors tokens syncs conditions).after events
    let q := w.queue s
    (∀ n, q.backward.contains n = true ↔ q.Reaches n) ∧
    (∀ a p n, (w.actor a).position = some p → (p.seat s).node = some n → q.Exact n) ∧
    (∀ a v, (w.actor a).activity = .busy .running (.waiting v) → v.terms.sync = s →
      ((w.step a).1.actor a).activity = .busy .running
        (if (q.node v.node).status = .condition then .dozing v else reclaim v)) ∧
    ∀ a p v, (w.actor a).activity = .busy .running p → p.watch = some v → v.terms.sync = s →
      ∃ p', ((w.step a).1.actor a).position = some p' ∧
        ((∃ v', p'.watch = some v' ∧ v'.node = v.node) ∨
          ∃ v', p' = reclaim v' ∧ v'.node = v.node ∧ ((w.step a).1.queue s).Reaches v.node ∧
            (((w.step a).1.queue s).node v.node).status ≠ .condition) := by
  intro w q
  have hw : InOrder s w := .after hx empty orderly
  obtain ⟨h, body, hq⟩ := hw.seated.shaped
  have exact : ∀ a p n, (w.actor a).position = some p → (p.seat s).node = some n → q.Exact n :=
    fun a p n hp hn => hq.exact ((hw.seated.seats a p hp).inUse hn)
  refine ⟨fun n => by rw [List.contains_iff_mem, hq.reaches_iff], exact, ?_, ?_⟩
  · rintro a v running rfl
    exact test_step running (exact a _ v.node (Actor.position_of_busy running) (by simp [Position.seat, Seat.node]))
  · rintro a p v running watch rfl
    obtain ⟨p', hp', goesOn⟩ := watch_step running watch
    refine ⟨p', hp', goesOn.imp_right ?_⟩
    rintro ⟨v', rfl, here, node⟩
    have after := hw.seated.step hw.exclusive a
    obtain ⟨h', body', hq'⟩ := after.shaped
    have held := after.seats a _ hp'
    rw [reclaim, Position.seat, if_pos here, node] at held
    have reaches := hq'.reaches_of_live held.1
    exact ⟨v', rfl, node, reaches, fun waits => hq'.not_reaches_of_waits waits reaches⟩

set_option maxRecDepth 8000 in
/-- Of two that wait the first has been signalled, and looks after its node again. -/
theorem membership_exact_signalled :
    let start := World.create 3 0 [{ policy := .mutex, state := 0 }] [0]
    let events : List Event :=
      .begin 0 (.acquire 0 .exclusive 1 .plain) :: List.replicate 5 (Event.step 0) ++
      .begin 0 (.wait 0 0 (.interruptible none)) :: List.replicate 14 (Event.step 0) ++
      .begin 1 (.acquire 0 .exclusive 1 .plain) :: List.replicate 5 (Event.step 1) ++
      .begin 1 (.wait 0 0 (.interruptible none)) :: List.replicate 14 (Event.step 1) ++
      .begin 2 (.acquire 0 .exclusive 1 .plain) :: List.replicate 5 (Event.step 2) ++
      .begin 2 (.errand 0 0 .signal) :: List.replicate 5 (Event.step 2) ++
      .begin 2 (.release 0 .exclusive 1) :: List.replicate 5 (Event.step 2) ++ [.resume 0, .step 0]
    let w := start.after events
    let q := w.queue 0
    let v : Waiting := ⟨⟨0, 0, { interruptible := true }, .done⟩, 1, 1, .never, false⟩
    (q.Reaches 1 ∧ q.holds 1 = true) ∧ (¬q.Reaches 2 ∧ q.holds 2 = false) ∧
      ((w.step 0).1.actor 0).activity = .busy .running (reclaim v) := by
  intro start events w q v
  have orderly : Orderly 0 start events :=
    Or.inr ⟨_, (Locking.create rfl (Or.inl rfl) rfl rfl rfl).honest (by decide +kernel)⟩
  obtain ⟨-, exact, test, -⟩ := membership_exact rfl rfl orderly
  have moved : (q.node 1).status = .initial := by decide +kernel
  have waits : (q.node 2).status = .condition := by decide +kernel
  have first := exact 0 _ 1 rfl rfl
  have second := exact 1 _ 2 rfl rfl
  have off : (q.node 1).status ≠ .condition := by simp [moved]
  refine ⟨⟨first.reaches.1 off, first.holds.2 off⟩, ⟨fun reaches => second.reaches.2 reaches waits, ?_⟩, ?_⟩
  · rw [← Bool.not_eq_true]
    exact fun holds => second.holds.1 holds waits
  · have claims := test 0 v rfl rfl
    rwa [if_neg (show (q.node v.node).status ≠ .condition from off)] at claims

end World

end Turnstile
