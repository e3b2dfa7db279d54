import Mathlib.Data.List.Induction
import Turnstile.Proofs.World.Deeds
import Turnstile.Proofs.World.Promise

/-! Orderly runs: what every event of one preserves holds in all its states. -/
namespace Turnstile

open WaitQueue (Shaped)

namespace World

variable {s : SyncId} {w : World} {a : ActorId} {p : Position} {xs ys : List Event}

theorem Honest.of_append {b : Option ActorId} (honest : Honest s b w (xs ++ ys)) : Honest s b w xs := by
  induction xs generalizing w b with
  | nil => trivial
  | cons e rest ih =>
    obtain ⟨held, b', kept, honest⟩ := honest
    exact ⟨held, b', kept, ih honest⟩

theorem Orderly.of_append (orderly : Orderly s w (xs ++ ys)) : Orderly s w xs :=
  orderly.imp (fun free e he => free e (List.mem_append_left _ he)) fun ⟨b, honest⟩ => ⟨b, honest.of_append⟩

/-- What holds throughout an orderly run. -/
structure InOrder (s : SyncId) (w : World) : Prop where
  seated : Seated s w
  exclusive : Exclusive s w
  tasked : Tasked w

theorem Tasked.after (h : Tasked w) (inTable : s < w.syncs.size) (events : List Event) :
    Tasked (w.after events) := by
  induction events generalizing w with
  | nil => exact h
  | cons e rest ih => exact ih (h.happen inTable e) ((w.queues_happen e).1 ▸ inTable)

namespace Seated

/-- Whoever has a place in the queue waits there. -/
theorem live_of_place (hw : Seated s w) (hp : (w.actor a).position = some p) {q : Queued}
    (place : p.place = some q) (here : q.claim.sync = s) :
    q.node ∈ (w.queue s).live ∧ ((w.queue s).node q.node).actor = some a := by
  obtain ⟨called, seat⟩ := Position.seat_of_place place here
  have held := hw.seats a p hp
  rw [seat] at held
  exact ⟨held.1, held.2.1⟩

/-- Whoever is called to its turn is the first of those who wait, and stands behind the head. -/
theorem called (hw : Seated s w) {q : Queued} {stage : Stage}
    (hp : (w.actor a).position = some (.call (.turn q) stage)) (here : q.claim.sync = s) :
    ∃ h zs, Shaped (w.queue s) h (zs ++ [q.node]) ∧ ((w.queue s).node q.node).isLive ∧
      (w.queue s).head = some h ∧ ((w.queue s).node q.node).prev = some h ∧
      (w.queue s).live.head? = some q.node := by
  have held := hw.seats a _ hp
  rw [Position.seat, if_pos here] at held
  obtain ⟨live, -, -, behind⟩ := held
  obtain ⟨h, body, hq⟩ := hw.shaped
  obtain ⟨hb, alive⟩ := hq.mem_live.1 live
  have prev := behind rfl
  have head := hq.head_eq_of_mem hb
  obtain ⟨zs, rfl⟩ := hq.split_of_prev hb prev
  exact ⟨h, zs, hq, alive, head, prev.trans head, by rw [hq.live_front alive]; rfl⟩

/-- Whoever takes its turn comes to be the head, and the link from the old one is cut. -/
theorem promoted_of_cut (hw : Seated s w) {q : Queued} {v : Verdict} {q' : WaitQueue}
    (hp : (w.actor a).position = some (.call (.turn q) (.answered (.ok v)))) (here : q.claim.sync = s)
    (cut : ∀ h, ((w.queue s).node q.node).prev = some h → q' = (turned (w.queue s) q v).1.setNext h none) :
    ∃ h, q' = (turned (w.queue s) q v).1.setNext h none ∧
      (w.queue s).Promoted (q', (turned (w.queue s) q v).2) q.node := by
  obtain ⟨h, zs, hq, alive, -, prev, -⟩ := hw.called hp here
  exact ⟨h, cut h prev, cut h prev ▸ promoted_turned v hq alive⟩

theorem waits_of_letGo (hw : Seated s w) {t : WaitTerms} {n : NodeId} {saved : Int} {stage : Stage}
    (hp : (w.actor a).position = some (.call (.letGo t n saved) stage)) (here : t.sync = s)
    (fresh : stage.granted = false) :
    ((w.queue s).node n).status = .condition ∧ ((w.queue s).node n).actor = some a := by
  have held := hw.seats a _ hp
  rw [Position.seat, if_pos here, fresh] at held
  exact ⟨held.1, held.2.1⟩

end Seated

namespace InOrder

variable {actors tokens : Nat} {syncs : List Synchronizer} {conditions : List SyncId} {x : Synchronizer}
  {events : List Event}

theorem after (hx : syncs[s]? = some x) (empty : x.queue = .empty)
    (orderly : Orderly s (World.create actors tokens syncs conditions) events) :
    InOrder s ((World.create actors tokens syncs conditions).after events) := by
  have start : Seated s (World.create actors tokens syncs conditions) := .create hx empty
  obtain ⟨seated, exclusive⟩ := start.after_orderly (fun a => by rw [actor_create]; rfl) orderly
  exact ⟨seated, exclusive, Tasked.create.after start.inTable events⟩

/-- What each event of an orderly run preserves together with the notes on it holds in the end. -/
theorem collect {β : Type} (note : World → Event → β → β) (inv : World → β → Prop) (y : β)
    (hx : syncs[s]? = some x) (empty : x.queue = .empty)
    (start : inv (World.create actors tokens syncs conditions) y)
    (kept : ∀ w e y, InOrder s w → inv w y → inv (w.happen e) (note w e y))
    (orderly : Orderly s (World.create actors tokens syncs conditions) events) :
    inv ((World.create actors tokens syncs conditions).after events)
      (World.collect note (World.create actors tokens syncs conditions) events y) := by
  induction events using List.reverseRecOn with
  | nil => exact start
  | append_singleton events e ih =>
    have before := orderly.of_append
    rw [collect_concat, after_append, after_cons, after_nil]
    exact kept _ e _ (.after hx empty before) (ih before)

theorem invariant {inv : World → Prop} (hx : syncs[s]? = some x) (empty : x.queue = .empty)
    (start : inv (World.create actors tokens syncs conditions))
    (kept : ∀ w e, InOrder s w → inv w → inv (w.happen e))
    (orderly : Orderly s (World.create actors tokens syncs conditions) events) :
    inv ((World.create actors tokens syncs conditions).after events) :=
  collect (fun _ _ (y : Unit) => y) (fun w _ => inv w) () hx empty start (fun w e _ => kept w e) orderly

end InOrder

end World

end Turnstile
