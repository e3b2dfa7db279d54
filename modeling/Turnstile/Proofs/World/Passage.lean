import Turnstile.Proofs.Queue.Rooted
import Turnstile.Proofs.World.Course
import Turnstile.Proofs.World.Events

/-! What an event comes to for one actor, whatever the policies are. -/
namespace Turnstile

open Actor (freshLooks looksAfterSpin)
open WaitQueue (Extends)

/-- Unless it was made to pause, an actor that has stopped has all its looks at the clock before it, and
has stopped to park or to take one. -/
def Actor.Fresh (x : Actor) : Prop :=
  ∀ st p, x.activity = .busy st p → st = .running ∨ st = .paused ∨
    (freshLooks ≤ x.looks ∧ (p.parks = true ∨ p.readsClock = true))

def Next.value : Next → Option Value
  | .ends v => some v
  | _ => none

namespace World

section

variable (w : World) (a b : ActorId)

theorem looks_setActivity (x : Activity) :
    ((w.setActivity b x).actor a).looks = (w.actor a).looks := by
  rw [setActivity, actor_modifyActor]
  split <;> rfl

theorem looks_setPermit (x : Bool) : ((w.setPermit b x).actor a).looks = (w.actor a).looks := by
  rw [setPermit, actor_modifyActor]
  split <;> rfl

theorem looks_endPark : ((w.endPark b).actor a).looks = (w.actor a).looks := by
  unfold endPark
  split
  · exact looks_setActivity w a b _
  · rfl

theorem looks_wake : ((w.wake b).actor a).looks = (w.actor a).looks := by
  rw [wake, looks_endPark, looks_setPermit]

theorem looks_wakeAll (as : List ActorId) : ((w.wakeAll as).actor a).looks = (w.actor a).looks := by
  induction as generalizing w with
  | nil => rfl
  | cons b rest ih => exact (ih (w.wake b)).trans (w.looks_wake a b)

theorem looks_endParks (as : List ActorId) :
    ((as.foldl endPark w).actor a).looks = (w.actor a).looks := by
  induction as generalizing w with
  | nil => rfl
  | cons b rest ih => exact (ih (w.endPark b)).trans (w.looks_endPark a b)

theorem now_endPark : (w.endPark a).now = w.now := by
  unfold endPark
  split <;> rfl

end

/-- The tables keep their sizes, but for the queues', which lose nothing, and the clock stands. -/
structure Keeps (w w' : World) : Prop where
  actors : w'.actors.size = w.actors.size
  tokens : w'.tokens.size = w.tokens.size
  syncs : w'.syncs.size = w.syncs.size
  now : w'.now = w.now
  queues : ∀ s, (w.queue s).Extends (w'.queue s)

theorem Keeps.trans {w w' w'' : World} (h : Keeps w w') (h' : Keeps w' w'') : Keeps w w'' where
  actors := h'.actors.trans h.actors
  tokens := h'.tokens.trans h.tokens
  syncs := h'.syncs.trans h.syncs
  now := h'.now.trans h.now
  queues s := (h.queues s).trans (h'.queues s)

/-- What the strokes of an actor leave to the others, and that they renew its looks at the clock at most. -/
structure Leaves (me : ActorId) (w w' : World) : Prop extends Keeps w w' where
  others : ∀ a, a ≠ me → (w.actor a).Eased (w'.actor a) ∧ (w'.actor a).looks = (w.actor a).looks
  renewed : (w'.actor me).looks = (w.actor me).looks ∨ (w'.actor me).looks = freshLooks

namespace Leaves

variable {me : ActorId} {w w' w'' : World}

/-- Up to what a park renews, no look is lost. -/
theorem looks (h : Leaves me w w') (n : Nat) (hn : n ≤ freshLooks) (enough : n ≤ (w.actor me).looks) :
    n ≤ (w'.actor me).looks := by
  rcases h.renewed with same | fresh
  · rwa [same]
  · rwa [fresh]

theorem trans (h : Leaves me w w') (h' : Leaves me w' w'') : Leaves me w w'' where
  toKeeps := h.toKeeps.trans h'.toKeeps
  others a ha := by
    obtain ⟨eased, looks⟩ := h.others a ha
    obtain ⟨eased', looks'⟩ := h'.others a ha
    exact ⟨eased.trans eased', looks'.trans looks⟩
  renewed := h'.renewed.elim (fun same => same ▸ h.renewed) Or.inr

theorem of_actors (actors : w'.actors = w.actors) (tokens : w'.tokens.size = w.tokens.size)
    (syncs : w'.syncs.size = w.syncs.size) (now : w'.now = w.now)
    (queues : ∀ s, (w.queue s).Extends (w'.queue s)) : Leaves me w w' := by
  have same : ∀ a, w'.actor a = w.actor a := fun a => congrArg (·.get a) actors
  refine ⟨⟨by rw [actors], tokens, syncs, now, queues⟩, fun a _ => ?_, Or.inl (by rw [same])⟩
  rw [same]
  exact ⟨Actor.Eased.refl _, rfl⟩

theorem refl (w : World) : Leaves me w w := of_actors rfl rfl rfl rfl fun _ => Extends.refl _

theorem modifyToken (w : World) (t : Option TokenId) (f : Token → Token) :
    Leaves me w (w.modifyToken t f) := by
  cases t with
  | none => exact refl w
  | some t => exact of_actors rfl (Table.size_modify _ _ _) rfl rfl fun _ => Extends.refl _

/-- What is done to a synchronizer but not to its queue. -/
theorem modifySync (w : World) (s : SyncId) {f : Synchronizer → Synchronizer}
    (keeps : (f (w.sync s)).queue = (w.sync s).queue) : Leaves me w (w.modifySync s f) := by
  refine of_actors rfl rfl (Table.size_modify _ _ _) rfl fun t => ?_
  rw [queue, queue, sync_modifySync]
  split
  · rename_i here
    rw [← here.1, keeps]
    exact Extends.refl _
  · exact Extends.refl _

theorem setQueue {s : SyncId} {q : WaitQueue} (extends_ : (w.queue s).Extends q) :
    Leaves me w (w.setQueue s q) := by
  refine of_actors rfl rfl (Table.size_modify _ _ _) rfl fun t => ?_
  rw [queue_setQueue]
  split
  · rename_i here
    exact here.1 ▸ extends_
  · exact Extends.refl _

theorem setCondition (w : World) (c : ConditionId) (condition : Condition) :
    Leaves me w (w.setCondition c condition) :=
  of_actors rfl rfl rfl rfl fun _ => Extends.refl _

theorem modifyActor (w : World) {f : Actor → Actor}
    (renews : ∀ x : Actor, (f x).looks = x.looks ∨ (f x).looks = freshLooks) :
    Leaves me w (w.modifyActor me f) := by
  refine ⟨⟨w.size_modifyActor me f, rfl, rfl, rfl, fun _ => Extends.refl _⟩, fun a ha => ?_, ?_⟩
  · rw [actor_modifyActor, if_neg fun h => ha h.1.symm]
    exact ⟨Actor.Eased.refl _, rfl⟩
  · rw [actor_modifyActor]
    split
    · exact renews _
    · exact Or.inl rfl

theorem wakeAll (w : World) (as : List ActorId) : Leaves me w (w.wakeAll as) where
  others a _ := ⟨wakeAll_eased w a as, looks_wakeAll w a as⟩
  renewed := Or.inl (looks_wakeAll w me as)
  actors := size_wakeAll w as
  tokens := by rw [tokens_wakeAll]
  syncs := by rw [syncs_wakeAll]
  now := by
    induction as generalizing w with
    | nil => rfl
    | cons b rest ih => exact (ih (w.wake b)).trans (now_endPark _ b)
  queues s := by
    have same : (w.wakeAll as).queue s = w.queue s := by
      rw [queue, sync, syncs_wakeAll]
      rfl
    exact same ▸ Extends.refl _

theorem apply {s : SyncId} {r : WaitQueue × Option ActorId} (extends_ : (w.queue s).Extends r.1) :
    Leaves me w (w.apply s r) :=
  (setQueue extends_).trans (wakeAll _ _)

theorem endWait (w : World) (v : Waiting) : Leaves me w (w.endWait v).1 := by
  unfold World.endWait
  extract_lets t linked w₁ w₂
  have pruned : Leaves me w w₁ := by
    unfold w₁
    split
    · exact (setQueue (Extends.of_alike ((w.condition _).alike_prune _))).trans (setCondition _ _ _)
    · exact refl w
  have restored : Leaves me w w₂ := by
    refine pruned.trans ?_
    unfold w₂
    split
    · exact modifyToken w₁ _ _
    · exact refl w₁
  split
  · exact restored
  · split <;> exact restored

theorem conclude (w : World) (c : Claim) (swallowed : Bool) : Leaves me w (w.conclude c swallowed).1 := by
  unfold World.conclude
  split
  · dsimp only
    split
    · exact modifyToken w _ _
    · exact refl w
  · exact endWait w _

theorem abandon (w : World) (q : Queued) (v : Value) : Leaves me w (w.abandon q v).1 := by
  obtain ⟨v', eq⟩ := w.abandon_eq q v
  rw [eq]
  exact apply (Extends.withdraw _ _)

theorem registerThen (w : World) (patience : Patience) (site : Site) :
    Leaves me w (w.registerThen me patience site).1 := by
  unfold World.registerThen
  dsimp only
  split
  · exact (modifyToken w _ _).trans (modifyToken _ _ _)
  · exact modifyToken w _ _

theorem start (w : World) (op : Operation) : Leaves me w (w.startOperation me op).1 := by
  cases op with
  | acquire s mode arg style => cases style <;> exact registerThen w _ _
  | wait s c style =>
    simp only [startOperation]
    split
    · exact registerThen w _ _
    · exact refl w
  | cancel t =>
    cases t with
    | none => exact refl w
    | some t => exact (modifyToken w (some t) _).trans (wakeAll _ _)
  | errand s c e =>
    simp only [startOperation]
    split <;> exact refl w
  | exchangeState s expected update =>
    simp only [startOperation]
    split
    · exact modifySync w s rfl
    · exact refl w
  | setState s | setOwner s | claimOwner s => exact modifySync w s rfl
  | _ => exact refl w

theorem takeTurn (w : World) (q : Queued) (v : Verdict) : Leaves me w (w.takeTurn q v).1 := by
  unfold World.takeTurn
  dsimp only
  refine (apply ?_).trans (conclude _ _ _)
  cases q.claim.mode with
  | exclusive =>
    have promoted := Extends.promote (w.queue q.claim.sync) q.node
    cases ((w.queue q.claim.sync).node q.node).prev with
    | none => exact promoted
    | some p => exact promoted.trans (Extends.setNext _ _ _)
  | shared =>
    have promoted := Extends.promoteShared (w.queue q.claim.sync) q.node (v == .cascading)
    cases ((w.queue q.claim.sync).node q.node).prev with
    | none => exact promoted
    | some p => exact promoted.trans (Extends.setNext _ _ _)

theorem enterCondition (w : World) (t : WaitTerms) : Leaves me w (w.enterCondition me t).1 :=
  (setQueue (Extends.joinCondition _ _ _)).trans (setCondition _ _ _)

theorem runErrand (w : World) (s : SyncId) (c : ConditionId) (e : Errand) :
    Leaves me w (w.runErrand s c e).1 := by
  cases e with
  | signal =>
    exact ((setQueue (Extends.signalFrom _ _ _)).trans (setCondition _ _ _)).trans (wakeAll _ _)
  | signalAll =>
    exact ((setQueue (Extends.moveAll _ _)).trans (setCondition _ _ _)).trans (wakeAll _ _)
  | _ => exact refl w

theorem resolve (w : World) (site : Site) (answer : Except SyncError Verdict) :
    Leaves me w (w.resolve me site answer).1 := by
  have dropWait : ∀ (t : WaitTerms) n e, Leaves me w (w.dropWait t n e).1 :=
    fun t n e => setQueue (Extends.setStatus _ _ _)
  cases answer with
  | error e =>
    cases site with
    | turn q => exact abandon w q _
    | letGo t n saved => exact dropWait t n e
    | _ => exact refl w
  | ok v =>
    unfold World.resolve
    dsimp only
    split
    · cases site with
      | attempt c => exact conclude w c false
      | turn q => exact takeTurn w q v
      | release s mode arg =>
        cases mode with
        | exclusive => exact apply (Extends.wakeFirst _)
        | shared => exact apply (Extends.wakeShared _)
      | isHeld s => exact refl w
      | wait t => exact enterCondition w t
      | letGo t n saved => exact apply (Extends.wakeFirst _)
      | errand s c e => exact runErrand w s c e
    · cases site with
      | letGo t n saved => exact dropWait t n _
      | _ => exact refl w

theorem call (w : World) (site : Site) (stage : Stage) : Leaves me w (w.callHook me site stage).1 := by
  cases stage with
  | arriving | leaving answer =>
    unfold callHook trip
    dsimp only
    split
    all_goals
      rename_i e
      obtain ⟨rfl, -⟩ := Prod.mk.inj e
      exact of_actors rfl rfl rfl rfl fun _ => Extends.refl _
  | entering =>
    refine modifySync w site.sync ?_
    dsimp only [Synchronizer.ask]
    split <;> rfl
  | answered answer => exact resolve w site answer

theorem park (w : World) (token : Option TokenId) (timeout : Option Span) (p : Position) :
    Leaves me w (w.park me token timeout p).1 := by
  have fresh : Leaves me w (w.setLooks me freshLooks) := modifyActor w fun _ => Or.inr rfl
  unfold World.park
  split
  · exact refl w
  · dsimp only
    split
    · exact fresh.trans (modifyActor _ fun _ => Or.inl rfl)
    · exact fresh

theorem linger (w : World) (q : Queued) : Leaves me w (w.linger me q).1 := by
  have set : Leaves me w (w.setQueue q.claim.sync ((w.queue q.claim.sync).readyToPark q.node).1) :=
    setQueue (Extends.readyToPark _ _)
  unfold World.linger
  dsimp only
  split
  · exact abandon w q _
  · split
    · exact set
    · exact set
    · split
      · exact set
      · exact set.trans (park _ _ _ _)

theorem rouse (w : World) (q : Queued) : Leaves me w (w.rouse q).1 := by
  have taken : Leaves me w _ := modifyToken w q.claim.patience.token (·.take.1)
  unfold World.rouse takeFlag
  split
  · rename_i e
    obtain ⟨rfl, -⟩ := Prod.mk.inj e
    exact taken
  · rename_i e
    obtain ⟨rfl, -⟩ := Prod.mk.inj e
    split
    · exact taken.trans (abandon _ q _)
    · exact taken

theorem doze (w : World) (v : Waiting) : Leaves me w (w.doze me v).1 := by
  unfold World.doze
  dsimp only
  split
  · exact setQueue (Extends.transferUnsignalled _ _)
  · split
    · exact refl w
    · exact park w _ _ _

theorem awake (w : World) (v : Waiting) : Leaves me w (w.awake v).1 := by
  have taken : Leaves me w _ := modifyToken w v.terms.patience.token (·.take.1)
  unfold World.awake takeFlag
  extract_lets t
  split
  · rename_i e
    obtain ⟨rfl, -⟩ := Prod.mk.inj e
    exact taken
  · rename_i e
    obtain ⟨rfl, -⟩ := Prod.mk.inj e
    split
    · exact taken.trans (setQueue (Extends.transferUnsignalled _ _))
    · exact taken

theorem advance (w : World) (p : Position) : Leaves me w (w.advance me p).1 := by
  cases p with
  | start op => exact start w op
  | call site stage => exact call w site stage
  | queueing c =>
    unfold World.advance
    dsimp only
    split
    · exact refl w
    · exact setQueue (Extends.join _ _ _)
  | turn q =>
    unfold World.advance World.turn
    dsimp only
    split
    · exact refl w
    · split <;> exact refl w
  | lingering q => exact linger w q
  | roused q => exact rouse w q
  | waiting v =>
    unfold World.advance
    dsimp only
    split <;> exact refl w
  | dozing v => exact doze w v
  | awoken v => exact awake w v
  | reckoning start timeout timedOut => exact refl w

end Leaves

/-- An actor that is about to look at the clock uses up a look. -/
def looked (w : World) (me : ActorId) (p : Position) : World :=
  if p.readsClock then w.setLooks me ((w.actor me).looks - 1) else w

section looked

variable (w : World) (me : ActorId) (p : Position)

@[simp] theorem tokens_looked : (w.looked me p).tokens = w.tokens := by
  unfold looked
  split <;> rfl

@[simp] theorem syncs_looked : (w.looked me p).syncs = w.syncs := by
  unfold looked
  split <;> rfl

@[simp] theorem now_looked : (w.looked me p).now = w.now := by
  unfold looked
  split <;> rfl

@[simp] theorem size_looked : (w.looked me p).actors.size = w.actors.size := by
  unfold looked
  split
  · exact size_setLooks w me _
  · rfl

@[simp] theorem flagged_looked (t : Option TokenId) : (w.looked me p).flagged t = w.flagged t := by
  rw [flagged, tokens_looked]
  rfl

@[simp] theorem sync_looked (s : SyncId) : (w.looked me p).sync s = w.sync s := by
  rw [sync, syncs_looked]
  rfl

@[simp] theorem queue_looked (s : SyncId) : (w.looked me p).queue s = w.queue s := by
  rw [queue, sync_looked]
  rfl

variable {me p}

theorem stride_eq : w.stride me p = if p.readsClock = true ∧ (w.actor me).looks = 0 then
    (w.setLooks me looksAfterSpin, .stops .spinning p) else (w.looked me p).advance me p := by
  unfold stride looked
  by_cases clock : p.readsClock
  · simp only [clock, if_true, true_and]
  · simp only [clock, if_false, false_and, Bool.false_eq_true]

variable (me p) in
/-- A step is a stop for spinning, or takes its course after the look at the clock. -/
theorem stride_course : (p.readsClock = true ∧ (w.actor me).looks = 0 ∧
      w.stride me p = (w.setLooks me looksAfterSpin, .stops .spinning p)) ∨
    (w.stride me p = (w.looked me p).advance me p ∧ Course (w.looked me p) me p (w.stride me p)) := by
  rw [stride_eq]
  split
  · rename_i spent
    exact Or.inl ⟨spent.1, spent.2, rfl⟩
  · exact Or.inr ⟨rfl, course_advance p⟩

end looked

theorem step_value {w : World} {me : ActorId} {p : Position}
    (running : (w.actor me).activity = .busy .running p) : (w.step me).2 = (w.stride me p).2.value := by
  unfold step stride
  rw [running]
  by_cases clock : p.readsClock
  · by_cases spent : (w.actor me).looks = 0
    · simp only [clock, spent, decide_true, Bool.and_true, if_true]
      rfl
    · simp only [clock, spent, decide_false, Bool.and_false, Bool.false_eq_true, if_false, if_true]
      rcases (w.setLooks me ((w.actor me).looks - 1)).advance me p with ⟨w', _ | _ | _⟩ <;> rfl
  · simp only [clock, Bool.false_and, Bool.false_eq_true, if_false]
    rcases w.advance me p with ⟨w', _ | _ | _⟩ <;> rfl

theorem running_of_step {w : World} {a : ActorId} {v : Value} (ends : (w.step a).2 = some v) :
    ∃ p, (w.actor a).activity = .busy .running p ∧ (w.stride a p).2 = .ends v := by
  by_cases running : ∃ p, (w.actor a).activity = .busy .running p
  · obtain ⟨p, running⟩ := running
    rw [step_value running] at ends
    refine ⟨p, running, ?_⟩
    cases next : (w.stride a p).2 <;> simp_all [Next.value]
  · rw [step_of_not_running fun p hp => running ⟨p, hp⟩] at ends
    simp at ends

/-- A step leaves the other actors alone but for waking them. -/
theorem stride_others (w : World) {me a : ActorId} (p : Position) (other : a ≠ me) :
    (w.actor a).Eased ((w.stride me p).1.actor a) ∧
      ((w.stride me p).1.actor a).looks = (w.actor a).looks := by
  have set : ∀ n, (w.setLooks me n).actor a = w.actor a := fun n => by
    rw [setLooks, actor_modifyActor, if_neg fun h => other h.1.symm]
  have looked : (w.looked me p).actor a = w.actor a := by
    unfold World.looked
    split
    · exact set _
    · rfl
  rw [stride_eq]
  split
  · rw [set]
    exact ⟨Actor.Eased.refl _, rfl⟩
  · rw [← looked]
    exact (Leaves.advance (w.looked me p) p).others a other

theorem keeps_looked (w : World) (me : ActorId) (p : Position) : Keeps w (w.looked me p) :=
  ⟨by simp, by simp, by simp, by simp, fun s => by rw [queue_looked]; exact Extends.refl _⟩

theorem keeps_stride (w : World) (me : ActorId) (p : Position) : Keeps w (w.stride me p).1 := by
  rw [stride_eq]
  split
  · exact ⟨size_setLooks w me _, rfl, rfl, rfl, fun _ => Extends.refl _⟩
  · have leaves : Leaves me (w.looked me p) _ := Leaves.advance (w.looked me p) p
    exact (keeps_looked w me p).trans leaves.toKeeps

/-- An actor stops for a pause, or it parks and its looks are renewed. -/
theorem stops_cases {w : World} {me : ActorId} {p : Position} {r : World × Next} {st : Standing}
    {p' : Position} (course : Course w me p r) (inTable : me < w.actors.size) (stops : r.2 = .stops st p') :
    st = .paused ∨ ∃ t, st = .parked t ∧ p'.parks = true ∧ (r.1.actor me).looks = freshLooks := by
  cases course with
  | park _ goes | sleep _ _ _ goes =>
    rcases goes with rfl | ⟨-, ⟨t, rfl⟩, fresh⟩
    · simp at stops
    · obtain ⟨rfl, rfl⟩ := Next.stops.inj stops
      exact Or.inr ⟨t, rfl, rfl, fresh inTable⟩
  | enter _ _ goes | leave _ _ goes =>
    rcases goes with rfl | rfl
    · simp at stops
    · obtain ⟨rfl, -⟩ := Next.stops.inj stops
      exact Or.inl rfl
  | @conclude site c swallowed =>
    rcases c.outcome_cases swallowed with ⟨v, eq⟩ | ⟨v, start, timeout, -, -, -, eq⟩ <;>
      simp [eq] at stops
  | _ => simp at stops

theorem looks_looked {w : World} {me : ActorId} {p : Position} (inTable : me < w.actors.size) :
    ((w.looked me p).actor me).looks =
    if p.readsClock then (w.actor me).looks - 1 else (w.actor me).looks := by
  unfold looked
  split
  · rw [setLooks, actor_modifyActor, if_pos ⟨rfl, inTable⟩]
  · rfl

/-- How an event finds an actor and leaves it. -/
inductive Fares (w : World) (a : ActorId) : Event → Actor → Prop
  /-- It may have been woken. -/
  | rests {e y} (eased : (w.actor a).Eased y) (looks : y.looks = (w.actor a).looks)
      (other : ∀ p, (w.actor a).activity = .busy .running p → e ≠ .step a) : Fares w a e y
  | begins {op y} (idle : (w.actor a).activity = .idle)
      (busy : y.activity = .busy .running (.start op)) (looks : y.looks = freshLooks - op.firstLooks) :
      Fares w a (.begin a op) y
  | resumes {st p y} (busy : (w.actor a).activity = .busy st p)
      (goesOn : y.activity = .busy .running p) (looks : y.looks = (w.actor a).looks) :
      Fares w a (.resume a) y
  | steps {p y} (running : (w.actor a).activity = .busy .running p)
      (activity : y.activity = (w.stride a p).2.activity)
      (looks : y.looks = ((w.stride a p).1.actor a).looks) : Fares w a (.step a) y

section

variable (w : World) (a : ActorId)

variable {w a} in
theorem Fares.same {e : Event} {y : Actor} (same : y = w.actor a)
    (other : ∀ p, (w.actor a).activity = .busy .running p → e ≠ .step a) : Fares w a e y :=
  same ▸ .rests (Actor.Eased.refl _) rfl other

theorem fares_begin (b : ActorId) (op : Operation) :
    Fares w a (.begin b op) ((w.begin b op).actor a) := by
  by_cases mine : a = b
  · subst mine
    rcases w.begin_cases a op with same | ⟨idle, busy⟩
    · exact .same same (by simp)
    · refine .begins idle busy ?_
      have inTable : a < (w.begin a op).actors.size := lt_of_position (by simp [Actor.position, busy])
      rw [(w.solely_begin a op).actors] at inTable
      unfold World.begin
      rw [idle]
      dsimp only
      rw [looks_setActivity, setLooks, actor_modifyActor, if_pos ⟨rfl, inTable⟩]
  · exact .same ((w.solely_begin b op).others a mine) (by simp)

theorem fares_resume (b : ActorId) : Fares w a (.resume b) ((w.resume b).actor a) := by
  by_cases mine : a = b
  · subst mine
    unfold World.resume
    split
    · rename_i st p busy
      have inTable : a < w.actors.size := lt_of_position (by simp [Actor.position, busy])
      refine .resumes busy (activity_setActivity _ ?_) ?_
      · cases st <;> simpa using inTable
      · rw [looks_setActivity]
        cases st <;> first | rfl | exact looks_setPermit w a a false
    · exact .same rfl (by simp)
  · exact .same ((w.solely_resume b).others a mine) (by simp)

theorem fares_step (b : ActorId) : Fares w a (.step b) ((w.step b).1.actor a) := by
  by_cases running : ∃ p, (w.actor b).activity = .busy .running p
  · obtain ⟨p, running⟩ := running
    rw [step_eq running]
    by_cases mine : a = b
    · subst mine
      have inTable : a < w.actors.size := lt_of_position (by simp [Actor.position, running])
      refine .steps running (activity_setActivity _ ?_) (looks_setActivity _ _ _ _)
      rwa [(w.keeps_stride a p).actors]
    · obtain ⟨eased, looks⟩ := w.stride_others p mine
      rw [actor_setActivity_of_ne _ _ (Ne.symm mine)]
      exact .rests eased looks fun _ _ e => mine (Event.step.inj e).symm
  · rw [step_of_not_running fun p hp => running ⟨p, hp⟩]
    refine .same rfl fun p running' e => ?_
    obtain rfl := Event.step.inj e
    exact running ⟨p, running'⟩

theorem fares (e : Event) : Fares w a e ((w.happen e).actor a) := by
  cases e with
  | begin b op => exact w.fares_begin a b op
  | resume b => exact w.fares_resume a b
  | step b => exact w.fares_step a b
  | elapse d =>
    refine .rests (endParks_eased _ { w with now := w.now + d } a) ?_ (by simp)
    exact looks_endParks { w with now := w.now + d } a _
  | cancel t =>
    refine .rests (wakeAll_eased (w.modifyToken (some t) (·.cancel.1)) a _) ?_ (by simp)
    exact (looks_wakeAll _ a _).trans (congrArg (fun t => (t.get a).looks) (w.actors_modifyToken _ _))
  | wake b => exact .rests (w.wake_eased a b) (w.looks_wake a b) (by simp)
  | take | breakHook | arm | order => exact .same rfl (by simp)

variable {w a} in
theorem activity_step {p : Position} (running : (w.actor a).activity = .busy .running p) :
    ((w.step a).1.actor a).activity = (w.stride a p).2.activity := by
  have fares : Fares w a (.step a) ((w.step a).1.actor a) := w.fares a (.step a)
  generalize (w.step a).1.actor a = y at fares
  cases fares with
  | rests _ _ other => exact absurd rfl (other p running)
  | steps running' activity =>
    obtain ⟨-, rfl⟩ := Activity.busy.inj (running.symm.trans running')
    exact activity

variable {w a} in
theorem position_step_of_ne {b : ActorId} (ne : b ≠ a) :
    ((w.step a).1.actor b).position = (w.actor b).position := by
  have fares : Fares w b (.step a) ((w.step a).1.actor b) := w.fares b (.step a)
  generalize (w.step a).1.actor b = y at fares
  cases fares with
  | rests eased => exact eased.position
  | steps => exact absurd rfl ne

variable {w a} in
/-- Whoever is busy and takes no step stays where it is. -/
theorem position_of_bystander {e : Event} {p : Position} (hp : (w.actor a).position = some p)
    (other : ∀ p, (w.actor a).activity = .busy .running p → e ≠ .step a) :
    ((w.happen e).actor a).position = some p := by
  have fares := w.fares a e
  generalize (w.happen e).actor a = y at fares
  cases fares with
  | rests eased => exact eased.position.trans hp
  | begins idle => simp [Actor.position, idle] at hp
  | resumes busy goesOn => exact (Actor.position_of_busy goesOn).trans ((Actor.position_of_busy busy).symm.trans hp)
  | steps running => exact absurd rfl (other _ running)

/-- The event does not get the actor on from the position. At most it stops for spinning there. -/
def Bides (e : Event) (p : Position) : Prop :=
  e = .step a → (w.actor a).activity = .busy .running p →
    p.readsClock = true ∧ w.stride a p = (w.setLooks a looksAfterSpin, .stops .spinning p)

/-- Where an actor is after an event it was before, or it has just begun, or a step took it there. -/
theorem position_cases {e : Event} {p' : Position} (h : ((w.happen e).actor a).position = some p') :
    ((w.actor a).position = some p' ∧ w.Bides a e p') ∨
    (∃ op, e = .begin a op ∧ (w.actor a).activity = .idle ∧ p' = .start op) ∨
    ∃ p, e = .step a ∧ (w.actor a).activity = .busy .running p ∧
      Course (w.looked a p) a p (w.stride a p) ∧ (w.stride a p).2.position = some p' := by
  have fares := w.fares a e
  generalize (w.happen e).actor a = y at fares h
  cases fares with
  | rests eased looks other =>
    exact Or.inl ⟨eased.position ▸ h, fun here running => absurd here (other p' running)⟩
  | @begins op _ idle busy looks =>
    have position := Actor.position_of_busy busy
    exact Or.inr (Or.inl ⟨op, rfl, idle, Option.some.inj (h.symm.trans position)⟩)
  | resumes busy goesOn looks =>
    obtain rfl := Option.some.inj ((Actor.position_of_busy goesOn).symm.trans h)
    exact Or.inl ⟨Actor.position_of_busy busy, by simp [Bides]⟩
  | @steps p _ running activity looks =>
    have position : (w.stride a p).2.position = some p' := by
      rw [← h, Actor.position, activity]
      cases (w.stride a p).2 <;> rfl
    rcases w.stride_course a p with ⟨clock, -, eq⟩ | ⟨-, course⟩
    · rw [eq] at position
      obtain rfl := Option.some.inj position
      exact Or.inl ⟨Actor.position_of_busy running, fun _ _ => ⟨clock, eq⟩⟩
    · exact Or.inr (Or.inr ⟨p, rfl, running, course, position⟩)

/-- An actor that has nothing to do had nothing before, or its last step has ended its operation. -/
theorem idle_cases {e : Event} (h : ((w.happen e).actor a).position = none) :
    ((w.actor a).position = none ∧ ∀ p, e = .step a → (w.actor a).activity ≠ .busy .running p) ∨
    ∃ p v, e = .step a ∧ (w.actor a).activity = .busy .running p ∧
      Course (w.looked a p) a p (w.stride a p) ∧ (w.stride a p).2 = .ends v := by
  have fares := w.fares a e
  generalize (w.happen e).actor a = y at fares h
  cases fares with
  | rests eased looks other =>
    exact Or.inl ⟨eased.position ▸ h, fun p here running => absurd here (other p running)⟩
  | begins _ busy | resumes _ busy => simp [Actor.position, busy] at h
  | @steps p _ running activity looks =>
    rw [Actor.position, activity] at h
    rcases w.stride_course a p with ⟨-, -, eq⟩ | ⟨-, course⟩
    · simp [eq, Next.activity] at h
    · refine Or.inr ⟨p, ?_⟩
      cases n : (w.stride a p).2 with
      | ends v => exact ⟨v, rfl, running, course, rfl⟩
      | _ => simp [n, Next.activity] at h

theorem tokens_step {p : Position} (running : (w.actor a).activity = .busy .running p) :
    (w.step a).1.tokens = (w.stride a p).1.tokens := by
  rw [step_eq running]
  rfl

variable {w a} in
theorem queue_step {p : Position} (running : (w.actor a).activity = .busy .running p) (s : SyncId) :
    (w.step a).1.queue s = (w.stride a p).1.queue s := by
  rw [step_eq running]
  rfl

variable {w a} in
theorem now_step {p : Position} (running : (w.actor a).activity = .busy .running p) :
    (w.step a).1.now = w.now := by
  rw [step_eq running]
  exact (w.keeps_stride a p).now

variable {w a} in
/-- An actor that stays where it is does nothing to tokens or synchronizers. -/
theorem Bides.step {p : Position} (bides : w.Bides a (.step a) p)
    (position : (w.actor a).position = some p) :
    (w.step a).1.tokens = w.tokens ∧ (w.step a).1.syncs = w.syncs := by
  by_cases running : ∃ p, (w.actor a).activity = .busy .running p
  · obtain ⟨p', running⟩ := running
    obtain rfl := Option.some.inj ((Actor.position_of_busy running).symm.trans position)
    rw [step_eq running, (bides rfl running).2]
    exact ⟨rfl, rfl⟩
  · rw [step_of_not_running fun p hp => running ⟨p, hp⟩]
    exact ⟨rfl, rfl⟩

variable {w a} in
theorem Bides.goesOn {p : Position} (bides : w.Bides a (.step a) p)
    (position : (w.actor a).position = some p) : (w.step a).2 = none := by
  by_cases running : ∃ p, (w.actor a).activity = .busy .running p
  · obtain ⟨p', running⟩ := running
    obtain rfl := Option.some.inj ((Actor.position_of_busy running).symm.trans position)
    rw [step_value running, (bides rfl running).2]
    rfl
  · rw [step_of_not_running fun p hp => running ⟨p, hp⟩]

@[simp] theorem size_tokens_modifyToken (t : Option TokenId) (f : Token → Token) :
    (w.modifyToken t f).tokens.size = w.tokens.size := by
  cases t with
  | none => rfl
  | some t => exact Table.size_modify _ _ _

theorem tokens_endParks (as : List ActorId) : (as.foldl endPark w).tokens = w.tokens := by
  induction as generalizing w with
  | nil => rfl
  | cons b rest ih => exact (ih (w.endPark b)).trans (w.tokens_endPark b)

theorem size_tokens_happen (e : Event) : (w.happen e).tokens.size = w.tokens.size := by
  cases e with
  | begin b op =>
    change (w.begin b op).tokens.size = _
    unfold World.begin
    split <;> rfl
  | resume b =>
    change (w.resume b).tokens.size = _
    unfold World.resume
    split
    · rename_i st p busy
      cases st <;> rfl
    · rfl
  | step b =>
    change (w.step b).1.tokens.size = _
    by_cases running : ∃ p, (w.actor b).activity = .busy .running p
    · obtain ⟨p, running⟩ := running
      rw [tokens_step w b running, (w.keeps_stride b p).tokens]
    · rw [step_of_not_running fun p hp => running ⟨p, hp⟩]
  | elapse d => exact congrArg Table.size (tokens_endParks { w with now := w.now + d } _)
  | cancel t =>
    change ((w.modifyToken (some t) (·.cancel.1)).wakeAll _).tokens.size = _
    rw [tokens_wakeAll, size_tokens_modifyToken]
  | take t => exact w.size_tokens_modifyToken (some t) _
  | wake b => exact congrArg Table.size (tokens_endPark _ b)
  | breakHook | arm | order => rfl

theorem now_endParks (as : List ActorId) : (as.foldl endPark w).now = w.now := by
  induction as generalizing w with
  | nil => rfl
  | cons b rest ih => exact (ih (w.endPark b)).trans (w.now_endPark b)

theorem now_begin (b : ActorId) (op : Operation) : (w.begin b op).now = w.now := by
  unfold World.begin
  split <;> rfl

/-- The clock does not go back. -/
theorem now_le_happen (e : Event) : w.now ≤ (w.happen e).now := by
  cases e with
  | begin b op => exact Nat.le_of_eq (w.now_begin b op).symm
  | resume b =>
    change _ ≤ (w.resume b).now
    unfold World.resume
    split
    · rename_i st p busy
      cases st <;> exact Nat.le_refl _
    · exact Nat.le_refl _
  | step b =>
    change _ ≤ (w.step b).1.now
    by_cases running : ∃ p, (w.actor b).activity = .busy .running p
    · obtain ⟨p, running⟩ := running
      rw [step_eq running]
      exact Nat.le_of_eq (w.keeps_stride b p).now.symm
    · have still := step_of_not_running fun p hp => running ⟨p, hp⟩
      exact Nat.le_of_eq (congrArg (·.1.now) still).symm
  | elapse d =>
    refine Nat.le_trans (Nat.le_add_right w.now d) (Nat.le_of_eq ?_)
    exact (now_endParks { w with now := w.now + d } _).symm
  | cancel t =>
    have keeps : Leaves 0 w (w.cancel t) := (Leaves.modifyToken w (some t) _).trans (Leaves.wakeAll _ _)
    exact Nat.le_of_eq keeps.now.symm
  | wake b => exact Nat.le_of_eq (now_endPark (w.setPermit b true) b).symm
  | take | breakHook | arm | order => exact Nat.le_refl _

theorem queues_happen (e : Event) :
    (w.happen e).syncs.size = w.syncs.size ∧ ∀ s, (w.queue s).Extends ((w.happen e).queue s) := by
  have same : ∀ w' : World, w'.syncs = w.syncs →
      w'.syncs.size = w.syncs.size ∧ ∀ s, (w.queue s).Extends (w'.queue s) := by
    refine fun w' syncs => ⟨by rw [syncs], fun s => ?_⟩
    rw [queue, queue, sync, sync, syncs]
    exact Extends.refl _
  rcases w.happen_cases e with ⟨out, -⟩ | ⟨b, op, rfl⟩ | ⟨b, rfl⟩ | ⟨b, rfl⟩
  · refine ⟨out.syncs, fun s => ?_⟩
    obtain ⟨f, sync⟩ := out.sync s
    rw [queue, queue, sync]
    exact Extends.refl _
  · exact same _ (w.solely_begin b op).syncs
  · exact same _ (w.solely_resume b).syncs
  · by_cases running : ∃ p, (w.actor b).activity = .busy .running p
    · obtain ⟨p, running⟩ := running
      have keeps := w.keeps_stride b p
      rw [happen, step_eq running]
      exact ⟨keeps.syncs, keeps.queues⟩
    · rw [happen, step_of_not_running fun p hp => running ⟨p, hp⟩]
      exact same _ rfl

end

end World

theorem Actor.Fresh.happen {w : World} {a : ActorId} (h : (w.actor a).Fresh) (e : Event) :
    ((w.happen e).actor a).Fresh := by
  have fares := w.fares a e
  generalize (w.happen e).actor a = y at fares
  cases fares with
  | rests eased looks other =>
    intro st p busy
    rw [looks]
    rcases eased.activity with same | ⟨t, p', parked, awake⟩
    · exact h st p (same ▸ busy)
    · obtain ⟨-, rfl⟩ := Activity.busy.inj (awake.symm.trans busy)
      exact Or.inr (Or.inr ((h _ _ parked).resolve_left (by simp) |>.resolve_left (by simp)))
  | begins idle busy looks | resumes busy' busy looks =>
    intro st p busy'
    obtain ⟨rfl, -⟩ := Activity.busy.inj (busy.symm.trans busy')
    exact Or.inl rfl
  | @steps p _ running activity looks =>
    have inTable : a < w.actors.size := World.lt_of_position (by simp [Actor.position, running])
    intro st p' busy
    rw [looks]
    rcases w.stride_course a p with ⟨clock, -, eq⟩ | ⟨-, course⟩
    · rw [eq] at activity
      obtain ⟨-, rfl⟩ := Activity.busy.inj (activity.symm.trans busy)
      rw [eq, World.setLooks, World.actor_modifyActor, if_pos ⟨rfl, inTable⟩]
      exact Or.inr (Or.inr ⟨show freshLooks ≤ looksAfterSpin by decide, Or.inr clock⟩)
    · cases next : (w.stride a p).2 with
      | goes p'' =>
        rw [activity, next] at busy
        exact Or.inl (Activity.busy.inj busy).1.symm
      | stops st' p'' =>
        rw [activity, next] at busy
        obtain ⟨rfl, rfl⟩ := Activity.busy.inj busy
        rcases World.stops_cases course (by rwa [World.size_looked]) next with paused | ⟨t, -, parks, fresh⟩
        · exact Or.inr (Or.inl paused)
        · exact Or.inr (Or.inr ⟨Nat.le_of_eq fresh.symm, Or.inl parks⟩)
      | ends v => simp [activity, next, Next.activity] at busy

end Turnstile
