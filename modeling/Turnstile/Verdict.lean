import Turnstile.Error
import Turnstile.Node

/-! Hooks, and what comes of an attempt to acquire or release: a verdict, or an error. -/
namespace Turnstile

inductive Hook
  | acquire
  | acquireShared
  | release
  | releaseShared
  | isHeld
  deriving DecidableEq, Repr, Inhabited

def Hook.word : Hook → String
  | .acquire => "try_acquire"
  | .acquireShared => "try_acquire_shared"
  | .release => "try_release"
  | .releaseShared => "try_release_shared"
  | .isHeld => "is_held_exclusively"

def Hook.toAcquire : Mode → Hook
  | .exclusive => .acquire
  | .shared => .acquireShared

def Hook.toRelease : Mode → Hook
  | .exclusive => .release
  | .shared => .releaseShared

inductive Verdict
  | refused
  | granted
  /-- Granted, and the next shared acquirer may be granted too. -/
  | cascading
  deriving DecidableEq, Repr, Inhabited

namespace Verdict

def isGrant : Verdict → Bool
  | .refused => false
  | _ => true

def ofBool (b : Bool) : Verdict := if b then .granted else .refused

/-- Judges a shared attempt by what it would leave over. -/
def ofRemaining (n : Int) : Verdict :=
  if n < 0 then .refused else if n = 0 then .granted else .cascading

@[simp] theorem isGrant_ofBool (b : Bool) : (ofBool b).isGrant = b := by cases b <;> rfl

theorem isGrant_ofRemaining (n : Int) : (ofRemaining n).isGrant = true ↔ 0 ≤ n := by
  unfold ofRemaining
  split
  · simp [isGrant]; omega
  · split <;> simp [isGrant] <;> omega

end Verdict

def grants : Except SyncError Verdict → Bool
  | .ok v => v.isGrant
  | .error _ => false

@[simp] theorem grants_ok (v : Verdict) : grants (.ok v) = v.isGrant := rfl

@[simp] theorem grants_error (e : SyncError) : grants (.error e) = false := rfl

end Turnstile
