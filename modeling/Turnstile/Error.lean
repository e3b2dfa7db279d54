/-! What can go wrong in an operation, and the text that says so. -/
namespace Turnstile

inductive SyncError
  | interrupted
  | unsupported (hook : String)
  | illegalMonitorState (reason : String)
  | overflow (what : String)
  | foreignCondition
  deriving DecidableEq, Repr, Inhabited

def SyncError.message : SyncError → String
  | .interrupted => "Interrupted while waiting"
  | .unsupported hook => hook ++ " is not supported by this synchronizer"
  | .illegalMonitorState reason => "Illegal monitor state: " ++ reason
  | .overflow what => "Synchronizer state overflowed: " ++ what
  | .foreignCondition => "The condition was not created by this synchronizer"

/-- Whoever works on a condition must hold its synchronizer. -/
def SyncError.notHeld : SyncError :=
  .illegalMonitorState "the synchronizer is not held exclusively by the calling thread"

def SyncError.notFreed : SyncError :=
  .illegalMonitorState "releasing the saved state did not free the synchronizer"

/-- A broken promise of the wait queue itself, which ends the operation that meets it. -/
inductive Fault
  | noPredecessor
  deriving DecidableEq, Repr

def Fault.message : Fault → String
  | .noPredecessor => "Queued nodes which are not the head always have a predecessor"

end Turnstile
