import Turnstile.Table
import Turnstile.Token

/-! A board of tokens under several handles, beside the wake-up permits of the actors. -/
namespace Turnstile.Token

/-- Handles to one cell share its flag. -/
structure Board where
  cells : Table Token
  handles : Table Nat
  permits : Table Bool

namespace Board

inductive Step
  | create
  | duplicate (handle : Nat)
  | cancel (handle : Nat)
  | take (handle : Nat)
  | restore (handle : Nat)
  | describe (handle : Nat)
  | register (handle : Nat) (actor : ActorId)
  | consume (actor : ActorId)

inductive Reply
  | done
  | handle (index : Nat)
  | truth (b : Bool)
  | text (s : String)

def start (actors : Nat) : Board where
  cells := .ofList [{}]
  handles := .ofList [0]
  permits := .ofList (List.replicate actors false)

def token (b : Board) (handle : Nat) : Token := b.cells.get (b.handles.get handle)

def change (b : Board) (handle : Nat) (f : Token → Token) : Board :=
  { b with cells := b.cells.modify (b.handles.get handle) f }

def addHandle (b : Board) (cell : Nat) : Board × Reply :=
  ({ b with handles := b.handles.push cell }, .handle b.handles.size)

def step (b : Board) : Step → Board × Reply
  | .create => { b with cells := b.cells.push {} }.addHandle b.cells.size
  | .duplicate h => b.addHandle (b.handles.get h)
  | .cancel h =>
    let woken := (b.token h).cancel.2
    let b := b.change h (·.cancel.1)
    (match woken with
      | some a => { b with permits := b.permits.modify a fun _ => true }
      | none => b, .done)
  | .take h => (b.change h (·.take.1), .truth (b.token h).take.2)
  | .restore h => (b.change h restore, .done)
  | .describe h => (b, .text (b.token h).describe)
  | .register h a => (b.change h (·.register a), .done)
  | .consume a => ({ b with permits := b.permits.modify a fun _ => false }, .truth (b.permits.get a))

def flags (b : Board) : List Bool :=
  b.handles.toList.map fun cell => (b.cells.get cell).cancelled

def permitted (b : Board) : List ActorId :=
  (List.range b.permits.size).filter b.permits.get

def run (b : Board) : List Step → List (Reply × List Bool × List ActorId)
  | [] => []
  | s :: rest => let (b', r) := b.step s; (r, b'.flags, b'.permitted) :: run b' rest

end Board

end Turnstile.Token
