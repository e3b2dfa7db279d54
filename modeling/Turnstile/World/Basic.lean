import Turnstile.Condition
import Turnstile.Position
import Turnstile.Queue.Parking
import Turnstile.Synchronizer
import Turnstile.Token

/-! The world that actors share, and what one of them can do to it at a stroke. -/
namespace Turnstile

/-- Why an actor with an operation on its hands is not done. -/
inductive Standing
  | running
  /-- Until it is woken, or the moment comes. -/
  | parked (wakes : Option Moment)
  | runnable
  | paused
  /-- It keeps looking at a clock that stands still. -/
  | spinning
  deriving DecidableEq, Repr

inductive Activity
  | idle
  | busy (standing : Standing) (position : Position)

structure Actor where
  /-- A wake-up that came while the actor was not parked; the next park uses it up. -/
  permit : Bool := false
  /-- How many more times the actor may look at the clock before it counts as spinning. -/
  looks : Nat := 0
  activity : Activity := .idle

namespace Actor

instance : Inhabited Actor := ⟨{}⟩

/-- The looks at the clock that come with a new operation and with each park. -/
def freshLooks : Nat := 64

/-- After a stop for spinning, the look that was put off comes on top. -/
def looksAfterSpin : Nat := 65

end Actor

structure Pause where
  actor : ActorId
  hook : Hook
  before : Bool
  skip : Nat
  deriving DecidableEq, Repr

/-- The pause that was armed first decides: it fires and is used up, or it is one call nearer. -/
def Pause.trip (actor : ActorId) (hook : Hook) (before : Bool) : List Pause → List Pause × Bool
  | [] => ([], false)
  | p :: rest =>
    if p.actor = actor ∧ p.hook = hook ∧ p.before = before then
      if p.skip = 0 then (rest, true) else ({ p with skip := p.skip - 1 } :: rest, false)
    else
      let (rest, fired) := trip actor hook before rest
      (p :: rest, fired)

structure World where
  now : Moment
  actors : Table Actor
  syncs : Table Synchronizer
  conditions : Table Condition
  tokens : Table Token
  pauses : List Pause
  /-- The actors that have been woken, in that order. -/
  runnable : List ActorId

namespace World

def create (actors tokens : Nat) (syncs : List Synchronizer) (conditions : List SyncId) : World where
  now := .epoch
  actors := .ofList (List.replicate actors {})
  syncs := .ofList syncs
  conditions := .ofList (conditions.map ({ owner := · }))
  tokens := .ofList (List.replicate tokens {})
  pauses := []
  runnable := []

def actor (w : World) (a : ActorId) : Actor := w.actors.get a

def sync (w : World) (s : SyncId) : Synchronizer := w.syncs.get s

def condition (w : World) (c : ConditionId) : Condition := w.conditions.get c

def queue (w : World) (s : SyncId) : WaitQueue := (w.sync s).queue

def modifyActor (w : World) (a : ActorId) (f : Actor → Actor) : World :=
  { w with actors := w.actors.modify a f }

def modifySync (w : World) (s : SyncId) (f : Synchronizer → Synchronizer) : World :=
  { w with syncs := w.syncs.modify s f }

def setQueue (w : World) (s : SyncId) (queue : WaitQueue) : World := w.modifySync s ({ · with queue })

def setCondition (w : World) (c : ConditionId) (condition : Condition) : World :=
  { w with conditions := w.conditions.modify c fun _ => condition }

def setActivity (w : World) (a : ActorId) (activity : Activity) : World :=
  w.modifyActor a ({ · with activity })

def setLooks (w : World) (a : ActorId) (looks : Nat) : World := w.modifyActor a ({ · with looks })

def setPermit (w : World) (a : ActorId) (permit : Bool) : World :=
  w.modifyActor a ({ · with permit })

/-- Ends the park of an actor. It runs after those woken before it. -/
def endPark (w : World) (a : ActorId) : World :=
  match (w.actor a).activity with
  | .busy (.parked _) p =>
    { w.setActivity a (.busy .runnable p) with runnable := w.runnable ++ [a] }
  | _ => w

/-- Gives the actor a permit, for the park that this ends or else for the next one. -/
def wake (w : World) (a : ActorId) : World := (w.setPermit a true).endPark a

def wakeAll (w : World) (as : List ActorId) : World := as.foldl wake w

/-- Puts back a queue that was worked on, and wakes whom that work calls for. -/
def apply (w : World) (s : SyncId) (worked : WaitQueue × Option ActorId) : World :=
  (w.setQueue s worked.1).wakeAll worked.2.toList

def flagged (w : World) (t : Option TokenId) : Bool := t.any fun t => (w.tokens.get t).cancelled

def modifyToken (w : World) (t : Option TokenId) (f : Token → Token) : World :=
  match t with
  | none => w
  | some t => { w with tokens := w.tokens.modify t f }

def register (w : World) (t : Option TokenId) (a : ActorId) : World := w.modifyToken t (·.register a)

def takeFlag (w : World) (t : Option TokenId) : World × Bool :=
  (w.modifyToken t (·.take.1), w.flagged t)

def restoreFlag (w : World) (t : Option TokenId) : World := w.modifyToken t (·.restore)

def cancel (w : World) (t : TokenId) : World :=
  (w.modifyToken (some t) (·.cancel.1)).wakeAll (w.tokens.get t).cancel.2.toList

def trip (w : World) (a : ActorId) (h : Hook) (before : Bool) : World × Bool :=
  let (pauses, fired) := Pause.trip a h before w.pauses
  ({ w with pauses }, fired)

def ask (w : World) (s : SyncId) (h : Hook) (a : ActorId) (arg : Int) :
    World × Except SyncError Verdict :=
  let (sync, answer) := (w.sync s).ask h a arg
  (w.modifySync s fun _ => sync, answer)

def withdraw (w : World) (s : SyncId) (n : NodeId) : World × Except Fault Unit :=
  let (queue, woken, r) := (w.queue s).withdraw n
  (w.apply s (queue, woken), r)

def prune (w : World) (s : SyncId) (c : ConditionId) : World :=
  let (condition, queue) := (w.condition c).prune (w.queue s)
  (w.setQueue s queue).setCondition c condition

theorem actor_setActivity_of_ne (w : World) {a b : ActorId} (activity : Activity) (h : a ≠ b) :
    (w.setActivity a activity).actor b = w.actor b :=
  w.actors.get_modify_of_ne _ h

theorem activity_setActivity {w : World} {a : ActorId} (activity : Activity)
    (h : a < w.actors.size) : ((w.setActivity a activity).actor a).activity = activity := by
  simp [setActivity, modifyActor, actor, Table.get_modify, h]

end World

end Turnstile
