import Turnstile.Queue.Parking
import Turnstile.Queue.Transfer
import Turnstile.Queue.View

/-! A bench on which a single wait queue is worked step by step, and what it shows after each. -/
namespace Turnstile.WaitQueue

structure Bench where
  queue : WaitQueue
  permits : Table Bool
  /-- The nodes that have been put into the queue at some time. -/
  members : List NodeId

namespace Bench

inductive Target
  | head
  /-- Counted in the order of creation, without the placeholder. -/
  | created (index : Nat)

inductive Action
  | enqueue
  | transferSignalled
  | transferUnsignalled
  | promote
  | promoteShared (cascade : Bool)
  | wakeNext
  | readyToPark
  | withdraw
  | isIn
  | isHead
  | belongsTo (actor : ActorId)
  | setStatus (status : Status)
  | exchangeStatus (expected update : Status)
  | clearActor
  | clearNext
  | clearPrev
  | wake
  | describe

inductive Step
  | join (mode : Mode) (actor : ActorId)
  | create (mode : Mode) (status : Status) (actor : ActorId)
  | wakeShared
  | hasPredecessors (actor : ActorId)
  | includes (actor : ActorId)
  | actors (mode : Option Mode)
  | act (target : Target) (action : Action)

/-- Why an action is not tried. -/
inductive Refusal
  | noSuchNode
  | alreadyQueued
  | wouldWait
  | notQueued

inductive Reply
  | done
  | truth (b : Bool)
  | node (n : NodeId)
  | actors (as : List ActorId)
  | text (s : String)
  | refused (why : Refusal)
  | fault (f : Fault)

def start (actors : Nat) : Bench := ⟨.empty, .ofList (List.replicate actors false), []⟩

def wake (b : Bench) : Option ActorId → Bench
  | none => b
  | some a => { b with permits := b.permits.modify a fun _ => true }

def find? (b : Bench) : Target → Option NodeId
  | .head => b.queue.head
  | .created i => if i + 1 < b.queue.nodes.size then some (i + 1) else none

def isMember (b : Bench) (t : Target) (n : NodeId) : Bool :=
  match t with
  | .head => true
  | .created _ => b.members.contains n

def refuses (b : Bench) (t : Target) (n : NodeId) (action : Action) : Option Refusal :=
  let waiting := (b.queue.node n).status = .condition
  match action with
  | .enqueue => if b.isMember t n then some .alreadyQueued else none
  | .transferSignalled => if b.isMember t n && waiting then some .alreadyQueued else none
  | .transferUnsignalled =>
    if waiting then (if b.isMember t n then some .alreadyQueued else none)
    else if b.queue.holds n then none else some .wouldWait
  | .promote | .promoteShared _ => if b.isMember t n then none else some .notQueued
  | _ => none

def act (b : Bench) (n : NodeId) : Action → Bench × Reply
  | .enqueue =>
    let (queue, p) := b.queue.enqueue n
    ({ b with queue, members := n :: b.members }, .node p)
  | .transferSignalled =>
    let (queue, woken, moved) := b.queue.transferSignalled n
    (({ b with queue, members := if moved then n :: b.members else b.members } : Bench).wake woken,
      .truth moved)
  | .transferUnsignalled =>
    let (queue, moved) := b.queue.transferUnsignalled n
    ({ b with queue, members := if moved then n :: b.members else b.members }, .truth moved)
  | .promote => ({ b with queue := b.queue.promote n }, .done)
  | .promoteShared cascade =>
    let (queue, woken) := b.queue.promoteShared n cascade
    (({ b with queue } : Bench).wake woken, .done)
  | .wakeNext =>
    let (queue, woken) := b.queue.wakeNext n
    (({ b with queue } : Bench).wake woken, .done)
  | .readyToPark =>
    let (queue, ready) := b.queue.readyToPark n
    ({ b with queue }, match ready with | .ok r => .truth r | .error f => .fault f)
  | .withdraw =>
    let (queue, woken, r) := b.queue.withdraw n
    (({ b with queue } : Bench).wake woken, match r with | .ok () => .done | .error f => .fault f)
  | .isIn => (b, .truth (b.queue.holds n))
  | .isHead => (b, .truth (b.queue.isHead n))
  | .belongsTo a => (b, .truth ((b.queue.node n).actor = some a))
  | .setStatus s => ({ b with queue := b.queue.setStatus n s }, .done)
  | .exchangeStatus expected update =>
    if (b.queue.node n).status = expected then
      ({ b with queue := b.queue.setStatus n update }, .truth true)
    else (b, .truth false)
  | .clearActor => ({ b with queue := b.queue.clearActor n }, .done)
  | .clearNext => ({ b with queue := b.queue.setNext n none }, .done)
  | .clearPrev => ({ b with queue := b.queue.setPrev n none }, .done)
  | .wake => (b.wake (b.queue.node n).actor, .done)
  | .describe => (b, .text (b.queue.node n).describe)

def step (b : Bench) : Step → Bench × Reply
  | .join mode a =>
    let (queue, n) := b.queue.join mode a
    ({ b with queue, members := n :: b.members }, .node n)
  | .create mode status a =>
    let (queue, n) := b.queue.create mode status a
    ({ b with queue }, .node n)
  | .wakeShared =>
    let (queue, woken) := b.queue.wakeShared
    (({ b with queue } : Bench).wake woken, .done)
  | .hasPredecessors a => (b, .truth (b.queue.hasPredecessors a))
  | .includes a => (b, .truth (b.queue.includes a))
  | .actors none => (b, .actors b.queue.actors)
  | .actors (some mode) => (b, .actors (b.queue.actorsIn mode))
  | .act t action =>
    match b.find? t with
    | none => (b, .refused .noSuchNode)
    | some n =>
      match b.refuses t n action with
      | some why => (b, .refused why)
      | none => b.act n action

def permitted (b : Bench) : List ActorId :=
  (List.range b.permits.size).filter b.permits.get

/-- Each step's reply with the bench as it then stands. -/
def run (b : Bench) : List Step → List (Reply × Bench)
  | [] => []
  | s :: rest => let (b', r) := b.step s; (r, b') :: run b' rest

end Bench

end Turnstile.WaitQueue
