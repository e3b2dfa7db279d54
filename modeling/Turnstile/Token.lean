import Turnstile.Node

/-! Tokens by which one actor asks another to stop waiting. -/
namespace Turnstile

/-- The flag stays until a wait takes it; the waiter is whoever registered last. -/
structure Token where
  cancelled : Bool := false
  waiter : Option ActorId := none
  deriving DecidableEq, Repr, Inhabited

namespace Token

/-- Raises the flag. The actor to wake comes with it. -/
def cancel (t : Token) : Token × Option ActorId := ({ t with cancelled := true }, t.waiter)

def take (t : Token) : Token × Bool := ({ t with cancelled := false }, t.cancelled)

/-- Raises the flag again for the actor that took it, so nobody is woken. -/
def restore (t : Token) : Token := { t with cancelled := true }

def register (t : Token) (a : ActorId) : Token := { t with waiter := some a }

def describe (t : Token) : String :=
  "CancelToken \x7b cancelled: " ++ (if t.cancelled then "true" else "false") ++ " \x7d"

end Token

end Turnstile
