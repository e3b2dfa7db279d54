import Turnstile.World.Answer

/-! The steps by which a running actor gets on with its operation. -/
namespace Turnstile.World

/-- Parks the actor, unless its token is flagged already or it has a permit to use up. -/
def park (w : World) (me : ActorId) (token : Option TokenId) (timeout : Option Span)
    (p : Position) : World × Next :=
  if w.flagged token then (w, .goes p)
  else
    let w := w.setLooks me Actor.freshLooks
    if (w.actor me).permit then (w.setPermit me false, .goes p)
    else (w, .stops (.parked (timeout.map (w.now + ·))) p)

def queueUp (w : World) (me : ActorId) (c : Claim) : World × Next :=
  let (queue, n) := (w.queue c.sync).join c.mode me
  (w.setQueue c.sync queue, .goes (.turn ⟨c, n, false⟩))

def turn (w : World) (q : Queued) : World × Next :=
  let queue := w.queue q.claim.sync
  match (queue.node q.node).prev with
  | none => (w, .ends (.faulted .noPredecessor))
  | some p =>
    if queue.isHead p then (w, .goes (.call (.turn q) .arriving)) else (w, .goes (.lingering q))

def linger (w : World) (me : ActorId) (q : Queued) : World × Next :=
  let left := q.claim.patience.deadline.map (Moment.left w.now)
  if left = some 0 then w.abandon q (.truth false)
  else
    let (queue, ready) := (w.queue q.claim.sync).readyToPark q.node
    let w := w.setQueue q.claim.sync queue
    match ready with
    | .error f => (w, .ends (.faulted f))
    | .ok false => (w, .goes (.turn q))
    | .ok true =>
      if left.any (· ≤ Span.tooShortToPark) then (w, .goes (.turn q))
      else w.park me q.claim.patience.token left (.roused q)

def rouse (w : World) (q : Queued) : World × Next :=
  match w.takeFlag q.claim.patience.token with
  | (w, false) => (w, .goes (.turn q))
  | (w, true) =>
    if q.claim.patience.interruptible then w.abandon q (.failed .interrupted)
    else (w, .goes (.turn { q with swallowed := true }))

/-- The node of a wait is in the queue and claims the saved state. -/
def reclaim (v : Waiting) : Position :=
  .turn ⟨⟨v.terms.sync, .exclusive, v.saved, { token := v.terms.patience.token }, .afterWait v⟩,
    v.node, false⟩

def doze (w : World) (me : ActorId) (v : Waiting) : World × Next :=
  let t := v.terms
  let left := t.patience.deadline.map (Moment.left w.now)
  if left = some 0 then
    let (queue, timedOut) := (w.queue t.sync).transferUnsignalled v.node
    (w.setQueue t.sync queue, .goes (reclaim { v with timedOut }))
  else if left.any (· ≤ Span.tooShortToPark) then (w, .goes (.awoken v))
  else w.park me t.patience.token left (.awoken v)

def awake (w : World) (v : Waiting) : World × Next :=
  let t := v.terms
  match w.takeFlag t.patience.token with
  | (w, false) => (w, .goes (.waiting v))
  | (w, true) =>
    if t.patience.interruptible then
      let (queue, moved) := (w.queue t.sync).transferUnsignalled v.node
      let interruption := if moved then .beforeSignal else .afterSignal
      (w.setQueue t.sync queue, .goes (reclaim { v with interruption }))
    else (w, .goes (.waiting { v with interruption := .afterSignal }))

/-- One step from a position, with the clock to look at where it needs it. -/
def advance (w : World) (me : ActorId) : Position → World × Next
  | .start op => w.startOperation me op
  | .call site stage => w.callHook me site stage
  | .queueing c =>
    if c.patience.deadline.any fun d => Moment.left w.now d = 0 then (w, .ends (.truth false))
    else w.queueUp me c
  | .turn q => w.turn q
  | .lingering q => w.linger me q
  | .roused q => w.rouse q
  | .waiting v =>
    if (w.queue v.terms.sync).holds v.node then (w, .goes (reclaim v)) else (w, .goes (.dozing v))
  | .dozing v => w.doze me v
  | .awoken v => w.awake v
  | .reckoning start timeout timedOut =>
    let left := timeout - (w.now - start)
    (w, .ends (.timeLeft (if timedOut || left = 0 then none else some left)))

/-- One step of a running actor, and the value if it is its operation's last. -/
def step (w : World) (me : ActorId) : World × Option Value :=
  match (w.actor me).activity with
  | .busy .running p =>
    if p.readsClock && (w.actor me).looks = 0 then
      ((w.setLooks me Actor.looksAfterSpin).setActivity me (.busy .spinning p), none)
    else
      let w := if p.readsClock then w.setLooks me ((w.actor me).looks - 1) else w
      match w.advance me p with
      | (w, .goes p) => (w.setActivity me (.busy .running p), none)
      | (w, .stops s p) => (w.setActivity me (.busy s p), none)
      | (w, .ends v) => (w.setActivity me .idle, some v)
  | _ => (w, none)

theorem step_of_not_running {w : World} {me : ActorId}
    (h : ∀ p, (w.actor me).activity ≠ .busy .running p) : w.step me = (w, none) := by
  unfold step
  split
  next p found => exact absurd found (h p)
  next => rfl

end Turnstile.World
