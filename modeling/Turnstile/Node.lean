/-! The nodes by which actors wait: what a node's status means, and what it links to. -/
namespace Turnstile

abbrev ActorId := Nat

abbrev NodeId := Nat

abbrev TokenId := Nat

abbrev SyncId := Nat

abbrev ConditionId := Nat

/-- A node's status speaks for the node behind it, save `cancelled` and `condition`. -/
inductive Status
  /-- Nothing has been asked of this node. -/
  | initial
  /-- Its actor gave up. -/
  | cancelled
  /-- The node behind has to be woken when this one is done. -/
  | signal
  /-- It waits on a condition, outside the queue. -/
  | condition
  /-- A shared release went by while it was the head and nobody had asked for a signal. -/
  | propagate
  /-- A code without a name. Only its sign counts. -/
  | other (code : Int) (unnamed : code < -3 ∨ 1 < code)
  deriving DecidableEq, Repr, Inhabited

namespace Status

def code : Status → Int
  | .initial => 0
  | .cancelled => 1
  | .signal => -1
  | .condition => -2
  | .propagate => -3
  | .other c _ => c

def ofCode (c : Int) : Status :=
  if h : c < -3 ∨ 1 < c then .other c h
  else if c = 1 then .cancelled
  else if c = -1 then .signal
  else if c = -2 then .condition
  else if c = -3 then .propagate
  else .initial

/-- Any negative code may call for the node behind. -/
def pending (s : Status) : Bool := s.code < 0

def isDead (s : Status) : Bool := 0 < s.code

theorem ofCode_code (s : Status) : ofCode s.code = s := by
  cases s with
  | other c unnamed => simp [code, ofCode, unnamed]
  | _ => rfl

theorem code_inj {s t : Status} : s.code = t.code ↔ s = t :=
  ⟨fun h => by rw [← ofCode_code s, h, ofCode_code], fun h => h ▸ rfl⟩

theorem pending_iff (s : Status) : s.pending = true ↔ s.code < 0 := by simp [pending]

theorem isDead_iff (s : Status) : s.isDead = true ↔ 0 < s.code := by simp [isDead]

end Status

inductive Mode
  | exclusive
  | shared
  deriving DecidableEq, Repr, Inhabited

namespace Mode

def letter : Mode → String
  | .exclusive => "x"
  | .shared => "s"

def word : Mode → String
  | .exclusive => "Exclusive"
  | .shared => "Shared"

end Mode

/-- The link `prev` is binding; `next` is a hint that may be missing or stale. -/
structure Node where
  status : Status := .initial
  mode : Mode := .exclusive
  /-- Whom to wake. It goes once the node is the head or is cancelled. -/
  actor : Option ActorId := none
  prev : Option NodeId := none
  next : Option NodeId := none
  /-- The node behind it on a condition. -/
  follower : Option NodeId := none
  deriving DecidableEq, Repr, Inhabited

namespace Node

def isLive (n : Node) : Bool := !n.status.isDead

def describe (n : Node) : String :=
  "Node \x7b status: " ++ toString n.status.code ++ ", mode: " ++ n.mode.word ++
    ", has_thread: " ++ (if n.actor.isSome then "true" else "false") ++ " \x7d"

end Node

end Turnstile
