import Turnstile.Proofs.World.Passage
import Turnstile.Proofs.World.Turns
import Turnstile.Proofs.World.Untimed

/-! Worlds that differ in their actors only: what an actor does comes to the same in both. -/
namespace Turnstile

/-- Two actors that stand alike have nothing to do both, or are busy both. -/
theorem Actor.standing_cases {x y : Actor} (h : y.standing = x.standing) :
    (x.activity = .idle ∧ y.activity = .idle) ∨
      ∃ st p p', x.activity = .busy st p ∧ y.activity = .busy st p' := by
  unfold standing at h
  cases activity : x.activity with
  | idle =>
    rw [activity] at h
    cases activity' : y.activity with
    | idle => exact Or.inl ⟨rfl, rfl⟩
    | busy => simp [activity'] at h
  | busy st p =>
    rw [activity] at h
    cases activity' : y.activity with
    | idle => simp [activity'] at h
    | busy st' p' =>
      rw [activity'] at h
      obtain rfl : st' = st := Option.some.inj h
      exact Or.inr ⟨st', p, p', rfl, rfl⟩

/-- A relation between actors that lasts while others wake them. -/
structure Lasting (R : Actor → Actor → Prop) : Prop where
  permit : ∀ {x y}, R x y → y.permit = x.permit
  standing : ∀ {x y}, R x y → y.standing = x.standing
  setPermit : ∀ {x y}, R x y → ∀ permit, R { x with permit } { y with permit }
  setLooks : ∀ {x y}, R x y → ∀ looks, R { x with looks } { y with looks }
  wake : ∀ {x y t t' p p'}, R x y → x.activity = .busy (.parked t) p → y.activity = .busy (.parked t') p' →
    R { x with activity := .busy .runnable p } { y with activity := .busy .runnable p' }

namespace World

/-- Nothing but the actors differs, and they are related one by one. -/
inductive Mirrors (R : ActorId → Actor → Actor → Prop) (w : World) : World → Prop
  | intro {actors : Table Actor} (size : actors.size = w.actors.size)
      (related : ∀ a, R a (w.actor a) (actors.get a)) : Mirrors R w { w with actors }

/-- The same comes of both, and the worlds mirror each other. -/
structure Matches (R : ActorId → Actor → Actor → Prop) (r r' : World × Next) : Prop where
  mirrors : Mirrors R r.1 r'.1
  same : r'.2 = r.2

namespace Mirrors

variable {R : ActorId → Actor → Actor → Prop} {w w' : World} {me a : ActorId} {s : SyncId} {c : ConditionId}
  {t : Option TokenId} {q : Queued} {v : Waiting} {site : Site} {p : Position}

theorem actor (h : Mirrors R w w') (a : ActorId) : R a (w.actor a) (w'.actor a) := by
  cases h with | intro size related => exact related a

theorem size (h : Mirrors R w w') : w'.actors.size = w.actors.size := by
  cases h with | intro size related => exact size

theorem modifySync (h : Mirrors R w w') (s : SyncId) (f : Synchronizer → Synchronizer) :
    Mirrors R (w.modifySync s f) (w'.modifySync s f) := by
  cases h with | intro size related => exact .intro size related

theorem setCondition (h : Mirrors R w w') (c : ConditionId) (condition : Condition) :
    Mirrors R (w.setCondition c condition) (w'.setCondition c condition) := by
  cases h with | intro size related => exact .intro size related

theorem modifyToken (h : Mirrors R w w') (t : Option TokenId) (f : Token → Token) :
    Mirrors R (w.modifyToken t f) (w'.modifyToken t f) := by
  cases h with
  | intro size related =>
    cases t with
    | none => exact .intro size related
    | some t => exact .intro size related

theorem modifyActor (h : Mirrors R w w') {f g : Actor → Actor}
    (keeps : R a (w.actor a) (w'.actor a) → R a (f (w.actor a)) (g (w'.actor a))) :
    Mirrors R (w.modifyActor a f) (w'.modifyActor a g) := by
  cases h with
  | @intro actors size related =>
    refine .intro (by simp [World.modifyActor, size]) fun b => ?_
    rw [actor_modifyActor, Table.get_modify, size]
    split
    · rename_i here
      exact here.1 ▸ keeps (related a)
    · exact related b

theorem rest (h : Mirrors R w w') : w'.now = w.now ∧ w'.syncs = w.syncs ∧ w'.conditions = w.conditions ∧
    w'.tokens = w.tokens ∧ w'.pauses = w.pauses ∧ w'.runnable = w.runnable := by
  cases h with | intro size related => exact ⟨rfl, rfl, rfl, rfl, rfl, rfl⟩

theorem sync (h : Mirrors R w w') (s : SyncId) : w'.sync s = w.sync s := by
  cases h with | intro size related => rfl

theorem queue (h : Mirrors R w w') (s : SyncId) : w'.queue s = w.queue s := by
  cases h with | intro size related => rfl

theorem condition (h : Mirrors R w w') (c : ConditionId) : w'.condition c = w.condition c := by
  cases h with | intro size related => rfl

theorem flagged (h : Mirrors R w w') (t : Option TokenId) : w'.flagged t = w.flagged t := by
  cases h with | intro size related => rfl

theorem setQueue (h : Mirrors R w w') (s : SyncId) (q : WaitQueue) : Mirrors R (w.setQueue s q) (w'.setQueue s q) :=
  h.modifySync s _

theorem setActors (h : Mirrors R w w') {R' : ActorId → Actor → Actor → Prop}
    (related : ∀ a, R' a (w.actor a) (w'.actor a)) : Mirrors R' w w' := by
  cases h with | intro size => exact .intro size related

theorem setRunnable (h : Mirrors R w w') (as : List ActorId) :
    Mirrors R { w with runnable := as } { w' with runnable := as } := by
  cases h with | intro size related => exact .intro size related

theorem setPauses (h : Mirrors R w w') (pauses : List Pause) : Mirrors R { w with pauses } { w' with pauses } := by
  cases h with | intro size related => exact .intro size related

theorem setNow (h : Mirrors R w w') (now : Moment) : Mirrors R { w with now } { w' with now } := by
  cases h with | intro size related => exact .intro size related

section lasting

variable (lasting : ∀ a, Lasting (R a))

include lasting

theorem setPermit (h : Mirrors R w w') (a : ActorId) (permit : Bool) :
    Mirrors R (w.setPermit a permit) (w'.setPermit a permit) :=
  h.modifyActor fun related => (lasting a).setPermit related permit

theorem setLooks (h : Mirrors R w w') (a : ActorId) (looks : Nat) :
    Mirrors R (w.setLooks a looks) (w'.setLooks a looks) :=
  h.modifyActor fun related => (lasting a).setLooks related looks

theorem endPark (h : Mirrors R w w') (a : ActorId) : Mirrors R (w.endPark a) (w'.endPark a) := by
  obtain ⟨-, -, -, -, -, runnable⟩ := h.rest
  unfold World.endPark
  rcases Actor.standing_cases ((lasting a).standing (h.actor a)) with ⟨idle, idle'⟩ | ⟨st, p, p', busy, busy'⟩
  · rw [idle, idle']
    exact h
  · rw [busy, busy']
    cases st with
    | parked t =>
      dsimp only
      rw [runnable]
      exact (h.modifyActor fun related => (lasting a).wake related busy busy').setRunnable _
    | _ => exact h

theorem wake (h : Mirrors R w w') (a : ActorId) : Mirrors R (w.wake a) (w'.wake a) :=
  (h.setPermit lasting a true).endPark lasting a

theorem wakeAll (h : Mirrors R w w') (as : List ActorId) : Mirrors R (w.wakeAll as) (w'.wakeAll as) := by
  induction as generalizing w w' with
  | nil => exact h
  | cons a rest ih => exact ih (h.wake lasting a)

theorem apply (h : Mirrors R w w') (s : SyncId) (r : WaitQueue × Option ActorId) :
    Mirrors R (w.apply s r) (w'.apply s r) :=
  (h.setQueue s r.1).wakeAll lasting r.2.toList

theorem abandon (h : Mirrors R w w') (q : Queued) (x : Value) : Matches R (w.abandon q x) (w'.abandon q x) := by
  have applied := h.apply lasting q.claim.sync
    (((w.queue q.claim.sync).withdraw q.node).1, ((w.queue q.claim.sync).withdraw q.node).2.1)
  unfold World.abandon World.withdraw
  rw [h.queue]
  dsimp only
  cases ((w.queue q.claim.sync).withdraw q.node).2.2 with
  | error f => exact ⟨applied, rfl⟩
  | ok => exact ⟨applied, rfl⟩

end lasting

theorem turn (h : Mirrors R w w') (q : Queued) : Matches R (w.turn q) (w'.turn q) := by
  unfold World.turn
  rw [h.queue]
  dsimp only
  split
  · exact ⟨h, rfl⟩
  · split
    · exact ⟨h, rfl⟩
    · exact ⟨h, rfl⟩

theorem registerThen (h : Mirrors R w w') (patience : Patience) (site : Site) :
    Matches R (w.registerThen me patience site) (w'.registerThen me patience site) := by
  have registered := h.modifyToken patience.token (·.register me)
  unfold World.registerThen World.register
  dsimp only
  rw [registered.flagged]
  split
  · exact ⟨registered.modifyToken _ _, rfl⟩
  · exact ⟨registered, rfl⟩

theorem endWait (h : Mirrors R w w') (v : Waiting) : Matches R (w.endWait v) (w'.endWait v) := by
  have pruned : ∀ linked : Bool, Mirrors R (if linked then w.prune v.terms.sync v.terms.condition else w)
      (if linked then w'.prune v.terms.sync v.terms.condition else w') := by
    intro linked
    split
    · unfold World.prune
      rw [h.queue, h.condition]
      exact (h.setQueue _ _).setCondition _ _
    · exact h
  have restored : ∀ {w₁ w₂}, Mirrors R w₁ w₂ →
      Mirrors R (if v.interruption = .afterSignal then w₁.restoreFlag v.terms.patience.token else w₁)
        (if v.interruption = .afterSignal then w₂.restoreFlag v.terms.patience.token else w₂) := by
    intro w₁ w₂ h
    split
    · exact h.modifyToken _ _
    · exact h
  unfold World.endWait
  dsimp only
  rw [h.queue]
  split
  · exact ⟨restored (pruned _), rfl⟩
  · split
    · exact ⟨restored (pruned _), rfl⟩
    · exact ⟨restored (pruned _), rfl⟩
    · exact ⟨restored (pruned _), rfl⟩

theorem conclude (h : Mirrors R w w') (c : Claim) (swallowed : Bool) :
    Matches R (w.conclude c swallowed) (w'.conclude c swallowed) := by
  unfold World.conclude
  split
  · cases swallowed with
    | false => exact ⟨h, rfl⟩
    | true => exact ⟨h.modifyToken _ _, rfl⟩
  · exact h.endWait _

theorem enterCondition (h : Mirrors R w w') (t : WaitTerms) :
    Matches R (w.enterCondition me t) (w'.enterCondition me t) := by
  have entered : ∀ q c, Mirrors R ((w.setQueue t.sync q).setCondition t.condition c)
      ((w'.setQueue t.sync q).setCondition t.condition c) := fun q c => (h.setQueue _ q).setCondition _ c
  unfold World.enterCondition
  dsimp only
  rw [h.queue, h.condition]
  exact ⟨entered _ _, by rw [(entered _ _).sync]⟩

theorem dropWait (h : Mirrors R w w') (t : WaitTerms) (n : NodeId) (e : SyncError) :
    Matches R (w.dropWait t n e) (w'.dropWait t n e) := by
  unfold World.dropWait
  rw [h.queue]
  exact ⟨h.setQueue _ _, rfl⟩

theorem queueUp (h : Mirrors R w w') (c : Claim) : Matches R (w.queueUp me c) (w'.queueUp me c) := by
  unfold World.queueUp
  rw [h.queue]
  exact ⟨h.setQueue _ _, rfl⟩

theorem trip (h : Mirrors R w w') (me : ActorId) (hook : Hook) (before : Bool) :
    Mirrors R (w.trip me hook before).1 (w'.trip me hook before).1 ∧
      (w'.trip me hook before).2 = (w.trip me hook before).2 := by
  obtain ⟨-, -, -, -, pauses, -⟩ := h.rest
  unfold World.trip
  rw [pauses]
  exact ⟨h.setPauses _, rfl⟩

theorem ask (h : Mirrors R w w') (s : SyncId) (hook : Hook) (me : ActorId) (arg : Int) :
    Mirrors R (w.ask s hook me arg).1 (w'.ask s hook me arg).1 ∧
      (w'.ask s hook me arg).2 = (w.ask s hook me arg).2 := by
  unfold World.ask
  rw [h.sync]
  exact ⟨h.modifySync _ _, rfl⟩

theorem awake (h : Mirrors R w w') (v : Waiting) : Matches R (w.awake v) (w'.awake v) := by
  have taken := h.modifyToken v.terms.patience.token (·.take.1)
  unfold World.awake World.takeFlag
  dsimp only
  rw [h.flagged]
  cases w.flagged v.terms.patience.token with
  | false => exact ⟨taken, rfl⟩
  | true =>
    dsimp only
    rw [taken.queue]
    split
    · exact ⟨taken.setQueue _ _, rfl⟩
    · exact ⟨taken, rfl⟩

section lasting

variable (lasting : ∀ a, Lasting (R a))

include lasting

theorem takeTurn (h : Mirrors R w w') (q : Queued) (x : Verdict) : Matches R (w.takeTurn q x) (w'.takeTurn q x) := by
  unfold World.takeTurn
  dsimp only
  rw [h.queue]
  exact (h.apply lasting _ _).conclude _ _

theorem runErrand (h : Mirrors R w w') (s : SyncId) (c : ConditionId) (e : Errand) :
    Mirrors R (w.runErrand s c e).1 (w'.runErrand s c e).1 ∧ (w'.runErrand s c e).2 = (w.runErrand s c e).2 := by
  unfold World.runErrand
  rw [h.queue, h.condition]
  cases e with
  | signal | signalAll => exact ⟨((h.setQueue _ _).setCondition _ _).wakeAll lasting _, rfl⟩
  | _ => exact ⟨h, rfl⟩

theorem resolve (h : Mirrors R w w') (site : Site) (answer : Except SyncError Verdict) :
    Matches R (w.resolve me site answer) (w'.resolve me site answer) := by
  cases answer with
  | error e =>
    cases site with
    | turn q => exact h.abandon lasting q _
    | letGo t n saved => exact h.dropWait t n e
    | _ => exact ⟨h, rfl⟩
  | ok x =>
    unfold World.resolve
    dsimp only
    split
    · unfold World.resolveGrant
      cases site with
      | attempt c => exact h.conclude c false
      | turn q => exact h.takeTurn lasting q x
      | release s mode arg =>
        cases mode with
        | exclusive | shared =>
          dsimp only
          rw [h.queue]
          exact ⟨h.apply lasting _ _, rfl⟩
      | isHeld s => exact ⟨h, rfl⟩
      | wait t => exact h.enterCondition t
      | letGo t n saved =>
        dsimp only
        rw [h.queue]
        exact ⟨h.apply lasting _ _, rfl⟩
      | errand s c e =>
        obtain ⟨mirrors, same⟩ := h.runErrand lasting s c e
        exact ⟨mirrors, congrArg Next.ends same⟩
    · cases site with
      | letGo t n saved => exact h.dropWait t n _
      | _ => exact ⟨h, rfl⟩

theorem call (h : Mirrors R w w') (site : Site) (stage : Stage) :
    Matches R (w.callHook me site stage) (w'.callHook me site stage) := by
  cases stage with
  | arriving | leaving answer =>
    unfold World.callHook
    dsimp only
    obtain ⟨mirrors, same⟩ := h.trip me site.hook _
    generalize w.trip me site.hook _ = r at mirrors same ⊢
    generalize w'.trip me site.hook _ = r' at mirrors same ⊢
    obtain ⟨w₁, fired⟩ := r
    obtain ⟨w₂, fired'⟩ := r'
    obtain rfl : fired' = fired := same
    cases fired' with
    | true => exact ⟨mirrors, rfl⟩
    | false => exact ⟨mirrors, rfl⟩
  | entering =>
    obtain ⟨mirrors, same⟩ := h.ask site.sync site.hook me site.arg
    exact ⟨mirrors, congrArg (fun answer => Next.goes (.call site (.leaving answer))) same⟩
  | answered answer => exact h.resolve lasting site answer

theorem start (h : Mirrors R w w') (op : Operation) : Matches R (w.startOperation me op) (w'.startOperation me op) := by
  obtain ⟨now, -, -, tokens, -, -⟩ := h.rest
  have owns : ∀ s c, w'.owns s c = w.owns s c := fun s c => by rw [World.owns, h.condition, World.owns]
  have terms : ∀ s c style, w'.waitTerms s c style = w.waitTerms s c style := by
    intro s c style
    cases style <;> simp only [World.waitTerms, now]
  cases op with
  | acquire s mode arg style =>
    rw [startOperation_acquire, startOperation_acquire, now]
    exact h.registerThen _ _
  | wait s c style =>
    simp only [startOperation]
    rw [owns, terms]
    split
    · exact h.registerThen _ _
    · exact ⟨h, rfl⟩
  | errand s c e =>
    simp only [startOperation]
    rw [owns]
    split
    · exact ⟨h, rfl⟩
    · exact ⟨h, rfl⟩
  | exchangeState s expected update =>
    simp only [startOperation]
    rw [h.sync]
    split
    · exact ⟨h.modifySync _ _, rfl⟩
    · exact ⟨h, rfl⟩
  | setState s | setOwner s | claimOwner s => exact ⟨h.modifySync _ _, rfl⟩
  | cancel t =>
    cases t with
    | none => exact ⟨h, rfl⟩
    | some t =>
      refine ⟨?_, rfl⟩
      change Mirrors R (w.cancel t) (w'.cancel t)
      unfold World.cancel
      rw [tokens]
      exact (h.modifyToken _ _).wakeAll lasting _
  | hasPredecessors s | isQueued s => exact ⟨h, by simp only [startOperation, h.queue]⟩
  | owns s c => exact ⟨h, by simp only [startOperation, owns]⟩
  | getState s | isOwner s => exact ⟨h, by simp only [startOperation, h.sync]⟩
  | release | isHeld | unknown => exact ⟨h, rfl⟩

theorem park (h : Mirrors R w w') (token : Option TokenId) (timeout : Option Span) (p : Position) :
    Matches R (w.park me token timeout p) (w'.park me token timeout p) := by
  have fresh := h.setLooks lasting me Actor.freshLooks
  have permit := (lasting me).permit (fresh.actor me)
  unfold World.park
  rw [h.flagged]
  dsimp only
  rw [permit]
  split
  · exact ⟨h, rfl⟩
  · split
    · exact ⟨fresh.setPermit lasting me false, rfl⟩
    · exact ⟨fresh, by rw [fresh.rest.1]⟩

theorem linger (h : Mirrors R w w') (q : Queued) : Matches R (w.linger me q) (w'.linger me q) := by
  have ready := h.setQueue q.claim.sync ((w.queue q.claim.sync).readyToPark q.node).1
  obtain ⟨now, -⟩ := h.rest
  unfold World.linger
  dsimp only
  rw [h.queue, now]
  split
  · exact h.abandon lasting q _
  · split
    · exact ⟨ready, rfl⟩
    · exact ⟨ready, rfl⟩
    · split
      · exact ⟨ready, rfl⟩
      · exact ready.park lasting _ _ _

theorem rouse (h : Mirrors R w w') (q : Queued) : Matches R (w.rouse q) (w'.rouse q) := by
  have taken := h.modifyToken q.claim.patience.token (·.take.1)
  unfold World.rouse World.takeFlag
  rw [h.flagged]
  cases w.flagged q.claim.patience.token with
  | false => exact ⟨taken, rfl⟩
  | true =>
    dsimp only
    split
    · exact taken.abandon lasting q _
    · exact ⟨taken, rfl⟩

theorem doze (h : Mirrors R w w') (v : Waiting) : Matches R (w.doze me v) (w'.doze me v) := by
  obtain ⟨now, -⟩ := h.rest
  unfold World.doze
  dsimp only
  rw [h.queue, now]
  split
  · exact ⟨h.setQueue _ _, rfl⟩
  · split
    · exact ⟨h, rfl⟩
    · exact h.park lasting _ _ _

/-- From the same position, the actor comes to the same. -/
theorem advance (h : Mirrors R w w') (p : Position) : Matches R (w.advance me p) (w'.advance me p) := by
  obtain ⟨now, -⟩ := h.rest
  cases p with
  | start op => exact h.start lasting op
  | call site stage => exact h.call lasting site stage
  | queueing c =>
    unfold World.advance
    dsimp only
    rw [now]
    split
    · exact ⟨h, rfl⟩
    · exact h.queueUp c
  | turn q => exact h.turn q
  | lingering q => exact h.linger lasting q
  | roused q => exact h.rouse lasting q
  | waiting v =>
    unfold World.advance
    dsimp only
    rw [h.queue]
    split
    · exact ⟨h, rfl⟩
    · exact ⟨h, rfl⟩
  | dozing v => exact h.doze lasting v
  | awoken v => exact h.awake v
  | reckoning start timeout timedOut => exact ⟨h, by simp only [World.advance, now]⟩

end lasting

end Mirrors

end World

end Turnstile
