/-! Points in time and spans between them, in whole nanoseconds. -/
namespace Turnstile

abbrev Span := Nat

abbrev Moment := Nat

namespace Span

def perSecond : Nat := 1000000000

def ofParts (seconds nanoseconds : Nat) : Span := seconds * perSecond + nanoseconds

def parts (d : Span) : Nat × Nat := (d / perSecond, d % perSecond)

/-- The longest span: the seconds fill an unsigned word of 64 bits. -/
def longest : Span := ofParts 18446744073709551615 (perSecond - 1)

/-- With this much time left or less, an actor tries again at once instead of parking. -/
def tooShortToPark : Span := 1000

end Span

namespace Moment

def epoch : Moment := Span.ofParts 1000 0

def Representable (t : Moment) : Prop := t / Span.perSecond < 9223372036854775808

instance (t : Moment) : Decidable (Representable t) := inferInstanceAs (Decidable (_ < _))

theorem Representable.earlier {t t' : Moment} (h : Representable t') (le : t ≤ t') : Representable t :=
  Nat.lt_of_le_of_lt (Nat.div_le_div_right le) h

/-- The deadline a timeout sets; one too far to represent is no deadline. -/
def after (now : Moment) (timeout : Span) : Option Moment :=
  if Representable (now + timeout) then some (now + timeout) else none

def left (now : Moment) (deadline : Moment) : Span := deadline - now

/-- The time left until a deadline, if there is one, after each of the clock's advances. -/
def countdown (now : Moment) (deadline : Option Moment) : List Span → List (Option Span)
  | [] => []
  | d :: rest => deadline.map (left (now + d)) :: countdown (now + d) deadline rest

theorem left_eq_zero {now deadline : Moment} : left now deadline = 0 ↔ deadline ≤ now :=
  Nat.sub_eq_zero_iff_le

theorem after_eq_some {now deadline : Moment} {timeout : Span} :
    after now timeout = some deadline ↔
      deadline = now + timeout ∧ Representable (now + timeout) := by
  by_cases h : Representable (now + timeout) <;> simp [after, h, eq_comm]

theorem after_longest (now : Moment) : after now Span.longest = none := by
  have h : ∀ n : Nat, 9223372036854775808 ≤ (n + 18446744073709551615999999999) / 1000000000 :=
    fun n => by omega
  exact if_neg (Nat.not_lt_of_le (h now))

end Moment

end Turnstile
