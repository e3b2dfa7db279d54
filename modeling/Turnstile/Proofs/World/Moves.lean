import Turnstile.Proofs.Condition
import Turnstile.Proofs.World.Frame
import Turnstile.Proofs.World.Seat

/-! The steps of an actor, seen from one synchronizer: what becomes of its queue, of the actor's seat in
it, and of those who rely on a signal there. -/
namespace Turnstile

open WaitQueue (Shaped Alike Change Passes)

namespace Next

def seat (s : SyncId) : Next → Seat
  | .goes p | .stops _ p => p.seat s
  | .ends _ => .none

def sleepy (permit called : Bool) : Next → Bool
  | .stops (.parked _) _ => true
  | .goes p | .stops _ p => p.sleepy permit called
  | .ends _ => false

def releasing (s : SyncId) : Next → Bool
  | .goes p | .stops _ p => p.releasing s
  | .ends _ => false

def position : Next → Option Position
  | .goes p | .stops _ p => some p
  | .ends _ => none

theorem exists_releasing {s : SyncId} {n : Next} (h : n.releasing s = true) :
    ∃ p, n.position = some p ∧ p.releasing s = true := by
  cases n with
  | ends v => simp [releasing] at h
  | _ => exact ⟨_, rfl, h⟩

def activity : Next → Activity
  | .goes p => .busy .running p
  | .stops s p => .busy s p
  | .ends _ => .idle

end Next

namespace World

/-- What a step from position `p` does at synchronizer `s`. -/
structure Moved (s : SyncId) (w : World) (me : ActorId) (p : Position) (r : World × Next) : Prop where
  others : ∀ a, a ≠ me → (w.actor a).Eased (r.1.actor a)
  actors : r.1.actors.size = w.actors.size
  syncs : r.1.syncs.size = w.syncs.size
  rules : p.asks s ∨ (r.1.sync s).hollow = (w.sync s).hollow
  change : ∃ woken, (∀ a ∈ woken, a < w.actors.size → (r.1.actor a).Alert) ∧
    Change (w.queue s) (r.1.queue s) woken (p.seat s).node (r.2.seat s).node ∧
    (p.signals s ∨
      (∃ q, p.takes s = some q ∧
        ¬(q.claim.mode = .shared ∧ ∀ m ∈ (w.queue s).live, ((w.queue s).node m).mode = .shared)) ∨
      Passes (w.queue s) (r.1.queue s) woken (r.2.seat s).node)
  still : p.signals s ∨ ∀ m, (p.seat s).node ≠ some m →
    ((w.queue s).node m).status = .condition → ((r.1.queue s).node m).status = .condition
  seat : (r.2.seat s).Held (r.1.queue s) me
  /-- The actor parks, or is about to, only if it will be signalled, -/
  drowse : r.2.sleepy (r.1.actor me).permit false → ∀ x n, (r.2.seat s).node = some n →
    Follows (r.1.queue s).column x n → ((r.1.queue s).node x).status = .signal
  parks : ∀ st p', r.2 = .stops st p' → st = .paused ∨ st = .spinning ∨ p'.parks
  /-- and at the front only if it was about to already or has just been refused. -/
  sleeps : ∀ n, (r.2.seat s).node = some n → (r.1.queue s).live.head? = some n →
    r.2.sleepy (r.1.actor me).permit (((r.1.queue s).node n).prev = (r.1.queue s).head) →
    p.asks s ∨ (r.1.queue s = w.queue s ∧ (p.seat s).node = some n ∧
      p.sleepy (w.actor me).permit (((w.queue s).node n).prev = (w.queue s).head))
  spent : p.releasing s → r.2.releasing s ∨ ∀ h, (r.1.queue s).head = some h →
    (r.1.queue s).live ≠ [] → ((r.1.queue s).node h).status ≠ .signal

section

variable {s : SyncId} {w : World} {me : ActorId} {p : Position} {r : World × Next} {h : NodeId}
  {body : List NodeId}

/-- A step that leaves the queue alone. -/
theorem Moved.calm (hq : Shaped (w.queue s) h body) (beside : Beside s me (p.asks s) w r.1)
    (alike : Alike (w.queue s) (r.1.queue s)) (node : (r.2.seat s).node = (p.seat s).node)
    (seat : (r.2.seat s).Held (r.1.queue s) me)
    (drowse : r.2.sleepy (r.1.actor me).permit false → ∀ x n, (r.2.seat s).node = some n →
      Follows (r.1.queue s).column x n → ((r.1.queue s).node x).status = .signal)
    (parks : ∀ st p', r.2 = .stops st p' → st = .paused ∨ st = .spinning ∨ p'.parks)
    (sleeps : ∀ n, (r.2.seat s).node = some n → (r.1.queue s).live.head? = some n →
      r.2.sleepy (r.1.actor me).permit (((r.1.queue s).node n).prev = (r.1.queue s).head) →
      r.1.queue s = w.queue s ∧
        p.sleepy (w.actor me).permit (((w.queue s).node n).prev = (w.queue s).head))
    (spent : p.releasing s → r.2.releasing s) : Moved s w me p r where
  others := beside.others
  actors := beside.actors
  syncs := beside.syncs
  rules := beside.rules
  change := ⟨[], by simp, node ▸ alike.change hq _, Or.inr (Or.inr (alike.passes hq))⟩
  still := Or.inr fun m _ waits => (alike.status m).trans waits
  seat := seat
  drowse := drowse
  parks := parks
  sleeps n hn front sleepy := by
    obtain ⟨same, was⟩ := sleeps n hn front sleepy
    exact Or.inr ⟨same, node ▸ hn, was⟩
  spent releasing := Or.inl (spent releasing)

/-- A step of an actor that has no seat and takes none. -/
theorem Moved.apart (hq : Shaped (w.queue s) h body) (beside : Beside s me (p.asks s) w r.1)
    (alike : Alike (w.queue s) (r.1.queue s)) (before : p.seat s = .none) (after : r.2.seat s = .none)
    (parks : ∀ st p', r.2 = .stops st p' → st = .paused ∨ st = .spinning ∨ p'.parks)
    (spent : p.releasing s → r.2.releasing s) : Moved s w me p r := by
  have none : (r.2.seat s).node = Option.none := by rw [after]; rfl
  refine Moved.calm hq beside alike (by rw [before, after]) (by rw [after]; trivial) ?_ parks ?_ spent
  · intro _ x n hn
    simp [none] at hn
  · intro n hn
    simp [none] at hn

/-- A step that changes the queue leaves the actor wide awake. -/
theorem Moved.of_change (beside : Beside s me (p.asks s) w r.1) {q' : WaitQueue}
    {woken : List ActorId}
    (change : Change (w.queue s) q' woken (p.seat s).node (r.2.seat s).node)
    (alike : Alike q' (r.1.queue s)) (alert : ∀ a ∈ woken, a < w.actors.size → (r.1.actor a).Alert)
    (passes : p.signals s ∨
      (∃ q, p.takes s = some q ∧
        ¬(q.claim.mode = .shared ∧ ∀ m ∈ (w.queue s).live, ((w.queue s).node m).mode = .shared)) ∨
      Passes (w.queue s) q' woken (r.2.seat s).node)
    (still : p.signals s ∨ ∀ m, (p.seat s).node ≠ some m →
      ((w.queue s).node m).status = .condition → (q'.node m).status = .condition)
    (seat : (r.2.seat s).Held q' me) (awake : ∀ permit called, r.2.sleepy permit called = false)
    (goes : ∀ st p', r.2 ≠ .stops st p')
    (spent : p.releasing s → ∀ h, q'.head = some h → q'.live ≠ [] → (q'.node h).status ≠ .signal) :
    Moved s w me p r := by
  obtain ⟨h, body, hq'⟩ := change.shaped
  refine ⟨beside.others, beside.actors, beside.syncs, beside.rules,
    ⟨woken, alert, change.alike alike, ?_⟩, ?_, seat.alike hq' alike, ?_, ?_, ?_, ?_⟩
  · exact passes.imp_right (Or.imp_right fun passes => passes.alike hq' alike)
  · exact still.imp_right fun still m hm waits => (alike.status m).trans (still m hm waits)
  · intro drowsy
    simp [awake] at drowsy
  · intro st p' e
    exact absurd e (goes st p')
  · intro n _ _ drowsy
    simp [awake] at drowsy
  · intro releasing
    refine Or.inr fun k hk ne => ?_
    rw [alike.status]
    exact spent releasing k (alike.head.symm.trans hk) (alike.live hq' ▸ ne)

/-- Tokens, looks at the clock and other synchronizers do not matter to a step. -/
theorem Moved.of_same {w₁ : World} (hm : Moved s w₁ me p r)
    (others : ∀ a, a ≠ me → w₁.actor a = w.actor a)
    (permit : (w₁.actor me).permit = (w.actor me).permit)
    (actors : w₁.actors.size = w.actors.size) (syncs : w₁.syncs.size = w.syncs.size)
    (same : w₁.sync s = w.sync s) : Moved s w me p r := by
  have hqueue : w₁.queue s = w.queue s := congrArg Synchronizer.queue same
  obtain ⟨h₁, h₂, h₃, h₄, h₅, h₆, h₇, h₈, h₉, h₁₀, h₁₁⟩ := hm
  rw [actors] at h₂ h₅
  rw [syncs] at h₃
  rw [same] at h₄
  rw [hqueue] at h₅ h₆ h₁₀
  rw [permit] at h₁₀
  exact ⟨fun a ha => others a ha ▸ h₁ a ha, h₂, h₃, h₄, h₅, h₆, h₇, h₈, h₉, h₁₀, h₁₁⟩

end

section

variable {s : SyncId} {w : World} {me : ActorId} {h : NodeId} {body : List NodeId}

theorem queue_modifyToken (w : World) (s : SyncId) (x : Option TokenId) (f : Token → Token) :
    (w.modifyToken x f).queue s = w.queue s := by
  rw [queue, sync, syncs_modifyToken]
  rfl

theorem queue_modifySync (w : World) (s t : SyncId) {f : Synchronizer → Synchronizer}
    (keeps : ∀ x, (f x).queue = x.queue) : (w.modifySync t f).queue s = w.queue s := by
  rw [queue, sync_modifySync]
  split
  · exact keeps _
  · rfl

/-- A step to where there is no seat, by an actor that has none, which leaves the queue as it was. -/
theorem Moved.aside {p : Position} {r : World × Next} (hq : Shaped (w.queue s) h body)
    (beside : Beside s me (p.asks s) w r.1) (same : r.1.queue s = w.queue s)
    (before : p.seat s = .none) (after : r.2.seat s = .none)
    (parks : ∀ st p', r.2 = .stops st p' → st = .paused ∨ st = .spinning ∨ p'.parks)
    (spent : p.releasing s → r.2.releasing s) : Moved s w me p r :=
  Moved.apart hq beside (same ▸ Alike.refl _) before after parks spent

end

end World

end Turnstile
