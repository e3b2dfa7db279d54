import Turnstile.Policy.Basic
import Turnstile.Word

/-! The policies that are known by name: locks, where state zero is free, and counters, which are acquired
in shared mode only. -/
namespace Turnstile

namespace Inquiry

def seize (i : Inquiry) (state : Int) : Decision :=
  if i.state = 0 then ⟨.ok .granted, state, some i.actor⟩ else i.refuse

def free (i : Inquiry) : Decision := i.asOwner ⟨.ok .granted, 0, none⟩

def reenter (i : Inquiry) (limit : Int) : Decision :=
  if i.state = 0 then i.seize i.arg
  else if i.isOwner then
    match (Word.add? i.state i.arg).filter (· ≤ limit) with
    | some holds => i.store holds .granted
    | none => i.fail (.overflow "maximum hold count exceeded")
  else i.refuse

/-- The owner gives up that many holds; with the last one the lock is free. -/
def leave (i : Inquiry) (count : Int) : Decision :=
  i.asOwner <|
    match Word.sub? i.state count with
    | none => i.fail (.overflow "hold count")
    | some 0 => ⟨.ok .granted, 0, none⟩
    | some holds => i.store holds .refused

def takePermits (i : Inquiry) : Decision :=
  match Word.sub? i.state i.arg with
  | none => i.fail (.overflow "permit count")
  | some left => i.store (if 0 ≤ left then left else i.state) (.ofRemaining left)

def givePermits (i : Inquiry) : Decision :=
  match Word.add? i.state i.arg with
  | none => i.fail (.overflow "permit count")
  | some permits => i.store permits .granted

end Inquiry

namespace Policy

def mutex : Policy := ⟨"mutex", fun h i =>
  match h with
  | .acquire => i.seize i.arg
  | .release => i.free
  | .isHeld => i.askOwner
  | _ => i.unsupported h⟩

/-- Nobody overtakes an actor that waits. -/
def fair : Policy := ⟨"fair", fun h i =>
  match h with
  | .acquire => if i.queue.hasPredecessors i.actor then i.refuse else i.seize i.arg
  | .release => i.free
  | .isHeld => i.askOwner
  | _ => i.unsupported h⟩

/-- A lock without an owner: anyone may release it, and anyone counts as its holder. -/
def flag : Policy := ⟨"flag", fun h i =>
  match h with
  | .acquire => if i.state = 0 then i.store 1 .granted else i.refuse
  | .release => i.store 0 .granted
  | .isHeld => i.keep (.ok (.ofBool (i.state = 1)))
  | _ => i.unsupported h⟩

def reentrant (limit : Int) : Policy := ⟨"reentrant", fun h i =>
  match h with
  | .acquire => i.reenter limit
  | .release => i.leave i.arg
  | .isHeld => i.askOwner
  | _ => i.unsupported h⟩

/-- Takes any number of holds, but gives them up one at a time. -/
def sticky (limit : Int) : Policy := ⟨"sticky", fun h i =>
  match h with
  | .acquire => i.reenter limit
  | .release => i.leave 1
  | .isHeld => i.askOwner
  | _ => i.unsupported h⟩

/-- One writer at state -1, or as many readers as the state says. A reader lets a writer that waits
first in the queue go before it. -/
def readWrite : Policy := ⟨"rw", fun h i =>
  match h with
  | .acquire => i.seize (-1)
  | .release => i.free
  | .isHeld => i.askOwner
  | .acquireShared =>
    if i.state < 0 || i.queue.firstIsExclusive then i.refuse
    else
      match Word.add? i.state 1 with
      | some readers => i.store readers .cascading
      | none => i.fail (.overflow "reader count")
  | .releaseShared =>
    if i.state ≤ 0 then i.fail (.illegalMonitorState "read lock not held")
    else i.store (i.state - 1) (.ofBool (i.state = 1))⟩

def permits : Policy := ⟨"permits", fun h i =>
  match h with
  | .acquireShared => i.takePermits
  | .releaseShared => i.givePermits
  | _ => i.unsupported h⟩

def fairPermits : Policy := ⟨"fair_permits", fun h i =>
  match h with
  | .acquireShared => if i.queue.hasPredecessors i.actor then i.refuse else i.takePermits
  | .releaseShared => i.givePermits
  | _ => i.unsupported h⟩

/-- Opens for everyone once it has been counted down to zero. -/
def latch : Policy := ⟨"latch", fun h i =>
  match h with
  | .acquireShared => i.keep (.ok (if i.state = 0 then .cascading else .refused))
  | .releaseShared =>
    if i.state = 0 then i.refuse else i.store (i.state - 1) (.ofBool (i.state = 1))
  | _ => i.unsupported h⟩

/-- Open while the state is not zero; a release sets it. -/
def gate : Policy := ⟨"gate", fun h i =>
  match h with
  | .acquireShared => i.keep (.ok (if i.state = 0 then .refused else .cascading))
  | .releaseShared => i.store i.arg .granted
  | _ => i.unsupported h⟩

/-- The limit is for locks that count their holds. -/
def catalogue (limit : Int) : List Policy :=
  [bare, mutex, fair, flag, reentrant limit, sticky limit, readWrite, permits, fairPermits, latch,
    gate]

def find? (name : String) (limit : Int) : Option Policy :=
  (catalogue limit).find? (·.name = name)

end Policy

end Turnstile
