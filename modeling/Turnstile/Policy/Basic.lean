import Turnstile.Queue.View
import Turnstile.Verdict

/-! Policies: what it means to acquire and release a synchronizer. -/
namespace Turnstile

structure Inquiry where
  actor : ActorId
  arg : Int
  state : Int
  owner : Option ActorId
  queue : WaitQueue
  /-- How many times the policy was asked before, so that its answers may change with time. -/
  asked : Nat

/-- What a policy answers, and what it leaves behind. -/
structure Decision where
  verdict : Except SyncError Verdict
  state : Int
  owner : Option ActorId

structure Policy where
  name : String
  decide : Hook → Inquiry → Decision

namespace Inquiry

def keep (i : Inquiry) (v : Except SyncError Verdict) : Decision := ⟨v, i.state, i.owner⟩

def refuse (i : Inquiry) : Decision := i.keep (.ok .refused)

def fail (i : Inquiry) (e : SyncError) : Decision := i.keep (.error e)

def unsupported (i : Inquiry) (h : Hook) : Decision := i.fail (.unsupported h.word)

def store (i : Inquiry) (state : Int) (v : Verdict) : Decision := ⟨.ok v, state, i.owner⟩

def isOwner (i : Inquiry) : Bool := i.owner == some i.actor

/-- Only the owner may do this. -/
def asOwner (i : Inquiry) (d : Decision) : Decision :=
  if i.isOwner then d else i.fail (.illegalMonitorState "lock not held")

def askOwner (i : Inquiry) : Decision := i.keep (.ok (.ofBool i.isOwner))

end Inquiry

namespace Policy

def bare : Policy := ⟨"none", fun h i => i.unsupported h⟩

instance : Inhabited Policy := ⟨bare⟩

end Policy

end Turnstile
