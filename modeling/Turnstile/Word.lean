/-! The state word of a synchronizer: a signed integer of 64 bits. -/
namespace Turnstile

namespace Word

def least : Int := -9223372036854775808

def greatest : Int := 9223372036854775807

def fits (value : Int) : Bool := least ≤ value && value ≤ greatest

def add? (a b : Int) : Option Int := if fits (a + b) then some (a + b) else none

def sub? (a b : Int) : Option Int := if fits (a - b) then some (a - b) else none

theorem add?_eq_some {a b c : Int} : add? a b = some c ↔ c = a + b ∧ fits (a + b) = true := by
  by_cases h : fits (a + b) = true <;> simp [add?, h, eq_comm]

theorem sub?_eq_some {a b c : Int} : sub? a b = some c ↔ c = a - b ∧ fits (a - b) = true := by
  by_cases h : fits (a - b) = true <;> simp [sub?, h, eq_comm]

end Word

/-- A word of its own, read and written a step at a time. -/
structure WordCell where
  value : Int := 0
  deriving DecidableEq, Repr

namespace WordCell

inductive Step
  | read
  | write (value : Int)
  | exchange (expected update : Int)
  | describe

inductive Reply
  | read
  | done
  | exchanged (ok : Bool)
  | described (text : String)

def describe (c : WordCell) : String := "StateCell \x7b value: " ++ toString c.value ++ " \x7d"

def step (c : WordCell) : Step → WordCell × Reply
  | .read => (c, .read)
  | .write v => (⟨v⟩, .done)
  | .exchange expected update =>
    if c.value = expected then (⟨update⟩, .exchanged true) else (c, .exchanged false)
  | .describe => (c, .described c.describe)

def run (c : WordCell) : List Step → List (Reply × Int)
  | [] => []
  | s :: rest => let (c', r) := c.step s; (r, c'.value) :: run c' rest

end WordCell

end Turnstile
