import Turnstile.World.Basic

/-! How an actor begins an operation. -/
namespace Turnstile

inductive Next
  | goes (p : Position)
  | stops (s : Standing) (p : Position)
  | ends (v : Value)

namespace World

/-- Tells the token whom to wake. A cancellation that came first ends what it can. -/
def registerThen (w : World) (me : ActorId) (patience : Patience) (site : Site) : World × Next :=
  let w := w.register patience.token me
  if patience.interruptible && w.flagged patience.token then
    ((w.takeFlag patience.token).1, .ends (.failed .interrupted))
  else (w, .goes (.call site .arriving))

def startAcquire (w : World) (me : ActorId) (sync : SyncId) (mode : Mode) (arg : Int)
    (style : Style) : World × Next :=
  let claim (patience : Patience) (timed : Bool) : World × Next :=
    w.registerThen me patience (.attempt ⟨sync, mode, arg, patience, .operation timed⟩)
  match style with
  | .plain => claim {} false
  | .uninterruptible token => claim { token } false
  | .interruptible token => claim { token, interruptible := true } false
  | .timed token limit =>
    claim { token, interruptible := true, deadline := limit.deadlineFrom w.now } true

def waitTerms (w : World) (sync : SyncId) (condition : ConditionId) : WaitStyle → WaitTerms
  | .uninterruptible token => ⟨sync, condition, { token }, .done⟩
  | .interruptible token => ⟨sync, condition, { token, interruptible := true }, .done⟩
  | .inTime token limit =>
    let deadline := limit.deadlineFrom w.now
    ⟨sync, condition, { token, interruptible := true, deadline }, .inTime⟩
  | .timeLeft token timeout =>
    let deadline := Moment.after w.now timeout
    ⟨sync, condition, { token, interruptible := true, deadline }, .timeLeft w.now timeout⟩

def owns (w : World) (sync : SyncId) (condition : ConditionId) : Bool :=
  (w.condition condition).owner == sync

def startOperation (w : World) (me : ActorId) : Operation → World × Next
  | .acquire s mode arg style => w.startAcquire me s mode arg style
  | .release s mode arg => (w, .goes (.call (.release s mode arg) .arriving))
  | .isHeld s => (w, .goes (.call (.isHeld s) .arriving))
  | .hasPredecessors s => (w, .ends (.truth ((w.queue s).hasPredecessors me)))
  | .isQueued s a => (w, .ends (.truth ((w.queue s).includes a)))
  | .owns s c => (w, .ends (.truth (w.owns s c)))
  | .wait s c style =>
    let t := w.waitTerms s c style
    if w.owns s c then w.registerThen me t.patience (.wait t)
    else (w, .ends (.failed .foreignCondition))
  | .errand s c e =>
    if w.owns s c then (w, .goes (.call (.errand s c e) .arriving))
    else (w, .ends (.failed .foreignCondition))
  | .getState s => (w, .ends (.number (w.sync s).state))
  | .setState s state => (w.modifySync s ({ · with state }), .ends .done)
  | .exchangeState s expected state =>
    if (w.sync s).state = expected then (w.modifySync s ({ · with state }), .ends (.truth true))
    else (w, .ends (.truth false))
  | .setOwner s owner => (w.modifySync s ({ · with owner }), .ends .done)
  | .claimOwner s => (w.modifySync s ({ · with owner := some me }), .ends .done)
  | .isOwner s => (w, .ends (.truth ((w.sync s).owner == some me)))
  | .cancel token => (token.elim w w.cancel, .ends .done)
  | .unknown => (w, .ends .unknown)

end World

end Turnstile
