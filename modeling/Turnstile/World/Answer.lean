import Turnstile.World.Start

/-! Calls of hooks, and what an actor does with the answers. -/
namespace Turnstile.World

def abandon (w : World) (q : Queued) (v : Value) : World × Next :=
  match w.withdraw q.claim.sync q.node with
  | (w, .ok ()) => (w, .ends v)
  | (w, .error f) => (w, .ends (.faulted f))

def endWait (w : World) (v : Waiting) : World × Next :=
  let t := v.terms
  let linked := ((w.queue t.sync).node v.node).follower.isSome
  let w := if t.patience.interruptible && linked then w.prune t.sync t.condition else w
  let w := if v.interruption = .afterSignal then w.restoreFlag t.patience.token else w
  if v.interruption = .beforeSignal then (w, .ends (.failed .interrupted))
  else
    match t.report with
    | .done => (w, .ends .done)
    | .inTime => (w, .ends (.truth !v.timedOut))
    | .timeLeft start timeout => (w, .goes (.reckoning start timeout v.timedOut))

/-- What follows once a claim is granted. A cancellation that was put off counts now. -/
def conclude (w : World) (c : Claim) (swallowed : Bool) : World × Next :=
  match c.purpose with
  | .operation timed =>
    (if swallowed then w.restoreFlag c.patience.token else w,
      .ends (if timed then .truth true else .done))
  | .afterWait v =>
    w.endWait
      (if swallowed && v.interruption != .beforeSignal then { v with interruption := .afterSignal }
       else v)

/-- Becomes the head and cuts the link from the old one. -/
def takeTurn (w : World) (q : Queued) (v : Verdict) : World × Next :=
  let queue := w.queue q.claim.sync
  let old := (queue.node q.node).prev
  let (queue, woken) := match q.claim.mode with
    | .exclusive => (queue.promote q.node, none)
    | .shared => queue.promoteShared q.node (v == Verdict.cascading)
  let queue := match old with
    | some p => queue.setNext p none
    | none => queue
  (w.apply q.claim.sync (queue, woken)).conclude q.claim q.swallowed

/-- Puts a node of the actor's on the condition and goes on to release the synchronizer. -/
def enterCondition (w : World) (me : ActorId) (t : WaitTerms) : World × Next :=
  let (condition, queue, n) := (w.condition t.condition).join (w.queue t.sync) me
  let w := (w.setQueue t.sync queue).setCondition t.condition condition
  (w, .goes (.call (.letGo t n (w.sync t.sync).state) .arriving))

/-- A wait that could not release leaves a dead node on its condition. -/
def dropWait (w : World) (t : WaitTerms) (n : NodeId) (e : SyncError) : World × Next :=
  (w.setQueue t.sync ((w.queue t.sync).setStatus n .cancelled), .ends (.failed e))

def runErrand (w : World) (s : SyncId) (c : ConditionId) : Errand → World × Value
  | .signal =>
    let (condition, queue, woken) := (w.condition c).signal (w.queue s)
    (((w.setQueue s queue).setCondition c condition).wakeAll woken.toList, .done)
  | .signalAll =>
    let (condition, queue, woken) := (w.condition c).signalAll (w.queue s)
    (((w.setQueue s queue).setCondition c condition).wakeAll woken, .done)
  | .hasWaiters => (w, .truth !((w.condition c).unsignalled (w.queue s)).isEmpty)
  | .countWaiters => (w, .number ((w.condition c).unsignalled (w.queue s)).length)
  | .listWaiters => (w, .actors ((w.condition c).actors (w.queue s)))

def resolveError (w : World) (e : SyncError) : Site → World × Next
  | .turn q => w.abandon q (.failed e)
  | .letGo t n _ => w.dropWait t n e
  | _ => (w, .ends (.failed e))

def resolveRefusal (w : World) : Site → World × Next
  | .attempt c => (w, .goes (.queueing c))
  | .turn q => (w, .goes (.lingering q))
  | .release .. | .isHeld _ => (w, .ends (.truth false))
  | .wait _ | .errand .. => (w, .ends (.failed .notHeld))
  | .letGo t n _ => w.dropWait t n .notFreed

def resolveGrant (w : World) (me : ActorId) (v : Verdict) : Site → World × Next
  | .attempt c => w.conclude c false
  | .turn q => w.takeTurn q v
  | .release s .exclusive _ => (w.apply s (w.queue s).wakeFirst, .ends (.truth true))
  | .release s .shared _ => (w.apply s (w.queue s).wakeShared, .ends (.truth true))
  | .isHeld _ => (w, .ends (.truth true))
  | .wait t => w.enterCondition me t
  | .letGo t n saved =>
    (w.apply t.sync (w.queue t.sync).wakeFirst, .goes (.waiting { terms := t, node := n, saved }))
  | .errand s c e => let (w, v) := w.runErrand s c e; (w, .ends v)

def resolve (w : World) (me : ActorId) (site : Site) : Except SyncError Verdict → World × Next
  | .error e => w.resolveError e site
  | .ok v => if v.isGrant then w.resolveGrant me v site else w.resolveRefusal site

def callHook (w : World) (me : ActorId) (site : Site) : Stage → World × Next
  | .arriving =>
    match w.trip me site.hook true with
    | (w, true) => (w, .stops .paused (.call site .entering))
    | (w, false) => (w, .goes (.call site .entering))
  | .entering =>
    let (w, answer) := w.ask site.sync site.hook me site.arg
    (w, .goes (.call site (.leaving answer)))
  | .leaving answer =>
    match w.trip me site.hook false with
    | (w, true) => (w, .stops .paused (.call site (.answered answer)))
    | (w, false) => (w, .goes (.call site (.answered answer)))
  | .answered answer => w.resolve me site answer

end Turnstile.World
