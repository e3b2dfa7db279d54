import Turnstile.Policy.Catalogue
import Turnstile.Proofs.World.Deeds
import Turnstile.Proofs.World.Vigil

/-! How an operation on a condition makes sure that it may go ahead, and what it leaves behind where it may
not. -/
namespace Turnstile

def Operation.patience (now : Moment) : Operation → Patience
  | .acquire _ _ _ style => style.patience now
  | .wait _ _ style => style.patience now
  | _ => {}

/-- The condition, and its synchronizer, for which the call asks whether its actor holds the synchronizer. -/
def Site.asksFor : Site → Option (SyncId × ConditionId)
  | .wait t => some (t.sync, t.condition)
  | .errand s c _ => some (s, c)
  | _ => none

/-- The operation on the condition has not made sure yet that it may go ahead, or has found that it may not. -/
def Position.Checks (s : SyncId) (c : ConditionId) : Position → Prop
  | .start op => op.condition = some (s, c)
  | .call site stage => site.asksFor = some (s, c) ∧ stage.granted = false
  | _ => False

/-- What comes of an answer that is no consent: the hook's own error, or else this one. -/
def refusal (otherwise : SyncError) : Except SyncError Verdict → SyncError
  | .error e => e
  | .ok _ => otherwise

/-- The policy only looks when it is asked whether the synchronizer is held. -/
def Policy.OnlyLooks (policy : Policy) : Prop :=
  ∀ i, (policy.decide .isHeld i).state = i.state ∧ (policy.decide .isHeld i).owner = i.owner

theorem Policy.onlyLooks_of_mem {policy : Policy} {limit : Int} (known : policy ∈ catalogue limit) :
    policy.OnlyLooks := by
  intro i
  simp only [catalogue, List.mem_cons, List.not_mem_nil, or_false] at known
  rcases known with rfl | rfl | rfl | rfl | rfl | rfl | rfl | rfl | rfl | rfl | rfl
  all_goals exact ⟨rfl, rfl⟩

namespace Synchronizer

theorem ask_of_onlyLooks {x : Synchronizer} (a : ActorId) (arg : Int) (looks : x.policy.OnlyLooks) :
    (x.ask .isHeld a arg).1.state = x.state ∧ (x.ask .isHeld a arg).1.owner = x.owner := by
  rcases x.decides_ask .isHeld a arg with ⟨state, owner, -⟩ | ⟨state, owner, -⟩
  · exact ⟨state.trans (looks _).1, owner.trans (looks _).2⟩
  · exact ⟨state, owner⟩

end Synchronizer

theorem Pause.trip_of_disarmed {a : ActorId} {h : Hook} {before : Bool} {ps : List Pause}
    (disarmed : ∀ p ∈ ps, p.actor = a → p.hook ≠ h) : trip a h before ps = (ps, false) := by
  induction ps with
  | nil => rfl
  | cons p rest ih =>
    have other : ¬(p.actor = a ∧ p.hook = h ∧ p.before = before) := fun armed =>
      disarmed p (by simp) armed.1 armed.2.1
    rw [trip, if_neg other, ih fun p hp => disarmed p (by simp [hp])]

namespace World

variable {w w' w'' : World} {a : ActorId} {s : SyncId} {c : ConditionId} {p : Position}

/-- A step by which an operation on a condition makes sure that it may go ahead: what it leaves of the world,
the actor's standing apart, and where it leads. -/
inductive Check (w : World) (a : ActorId) (s : SyncId) (c : ConditionId) : Position → World × Next → Prop
  /-- The condition is to be one of the synchronizer's. -/
  | foreign {op} (about : op.condition = some (s, c)) (foreign : w.owns s c = false) :
      Check w a s c (.start op) (w, .ends (.failed .foreignCondition))
  /-- Then a cancellation that came first ends what it can. -/
  | interrupted {op} (about : op.condition = some (s, c)) (owned : w.owns s c = true)
      (interruptible : (op.patience w.now).interruptible = true)
      (raised : w.flagged (op.patience w.now).token = true) :
      Check w a s c (.start op)
        (w.modifyToken (op.patience w.now).token fun _ => { cancelled := false, waiter := some a },
          .ends (.failed .interrupted))
  | open {op site} (about : op.condition = some (s, c)) (owned : w.owns s c = true)
      (calm : ¬((op.patience w.now).interruptible = true ∧ w.flagged (op.patience w.now).token = true))
      (asks : site.asksFor = some (s, c)) :
      Check w a s c (.start op) (w.register (op.patience w.now).token a, .goes (.call site .arriving))
  | arrive {site pauses n} (asks : site.asksFor = some (s, c))
      (next : n = .goes (.call site .entering) ∨ n = .stops .paused (.call site .entering))
      (disarmed : (∀ p ∈ w.pauses, p.actor = a → p.hook ≠ .isHeld) →
        pauses = w.pauses ∧ n = .goes (.call site .entering)) :
      Check w a s c (.call site .arriving) ({ w with pauses }, n)
  /-- Then the actor is to hold the synchronizer. -/
  | ask {site} (asks : site.asksFor = some (s, c)) :
      Check w a s c (.call site .entering) ((w.ask s .isHeld a 0).1,
        .goes (.call site (.leaving ((w.sync s).ask .isHeld a 0).2)))
  | leave {site answer pauses n} (asks : site.asksFor = some (s, c))
      (next : n = .goes (.call site (.answered answer)) ∨ n = .stops .paused (.call site (.answered answer)))
      (disarmed : (∀ p ∈ w.pauses, p.actor = a → p.hook ≠ .isHeld) →
        pauses = w.pauses ∧ n = .goes (.call site (.answered answer))) :
      Check w a s c (.call site (.leaving answer)) ({ w with pauses }, n)
  | unheld {site answer} (asks : site.asksFor = some (s, c)) (refused : grants answer = false) :
      Check w a s c (.call site (.answered answer)) (w, .ends (.failed (refusal .notHeld answer)))

theorem startOperation_eq {op : Operation} (about : op.condition = some (s, c)) :
    ∃ site, site.asksFor = some (s, c) ∧ w.startOperation a op =
      if w.owns s c then w.registerThen a (op.patience w.now) site
      else (w, .ends (.failed .foreignCondition)) := by
  cases op with
  | wait s' c' style =>
    obtain ⟨rfl, rfl⟩ := Prod.mk.inj (Option.some.inj about)
    refine ⟨.wait (w.waitTerms s' c' style), ?_, ?_⟩
    · rw [waitTerms_eq]
      rfl
    · simp only [startOperation, waitTerms_eq]
      rfl
  | errand s' c' e =>
    obtain ⟨rfl, rfl⟩ := Prod.mk.inj (Option.some.inj about)
    exact ⟨.errand s' c' e, rfl, rfl⟩
  | _ => simp [Operation.condition] at about

/-- To register with a token and to take its flag is to leave it lowered, with the actor to be woken. -/
theorem takeFlag_register (w : World) (t : Option TokenId) (a : ActorId) :
    ((w.register t a).takeFlag t).1 = w.modifyToken t fun _ => { cancelled := false, waiter := some a } := by
  cases t with
  | none => rfl
  | some t =>
    simp [takeFlag, register, modifyToken, Table.modify_modify, Token.take, Token.register]

theorem flagged_register (w : World) (t u : Option TokenId) (a : ActorId) :
    (w.register t a).flagged u = w.flagged u :=
  w.flagged_modifyToken (·.register a) (fun _ => rfl) t u

theorem sync_register (w : World) (t : Option TokenId) (a : ActorId) (s : SyncId) :
    (w.register t a).sync s = w.sync s := by
  cases t <;> rfl

theorem pauses_register (w : World) (t : Option TokenId) (a : ActorId) :
    (w.register t a).pauses = w.pauses := by
  cases t <;> rfl

theorem ask_register (w : World) (t : Option TokenId) (a : ActorId) (s : SyncId) (k : Hook) (b : ActorId)
    (arg : Int) : ((w.register t a).ask s k b arg).1 = (w.ask s k b arg).1.register t a := by
  cases t <;> rfl

theorem check_start {op : Operation} (about : op.condition = some (s, c)) :
    Check w a s c (.start op) (w.startOperation a op) := by
  obtain ⟨site, asks, eq⟩ := startOperation_eq (w := w) (a := a) about
  rw [eq]
  split
  · rename_i owned
    simp only [registerThen, flagged_register, takeFlag_register, Bool.and_eq_true]
    split
    · rename_i raised
      exact .interrupted about owned raised.1 raised.2
    · rename_i calm
      exact .open about owned calm asks
  · rename_i foreign
    exact .foreign about (by simpa using foreign)

theorem Site.asksFor_eq {site : Site} (asks : site.asksFor = some (s, c)) :
    site.sync = s ∧ site.hook = .isHeld ∧ site.arg = 0 := by
  cases site with
  | wait t =>
    obtain ⟨rfl, -⟩ := Prod.mk.inj (Option.some.inj asks)
    exact ⟨rfl, rfl, rfl⟩
  | errand t d e =>
    obtain ⟨rfl, -⟩ := Prod.mk.inj (Option.some.inj asks)
    exact ⟨rfl, rfl, rfl⟩
  | _ => simp [Site.asksFor] at asks

/-- What a pause that is armed comes to; without one nothing does. -/
theorem trip_eq (w : World) (a : ActorId) (h : Hook) (before : Bool) :
    ∃ pauses fired, w.trip a h before = ({ w with pauses }, fired) ∧
      ((∀ p ∈ w.pauses, p.actor = a → p.hook ≠ h) → pauses = w.pauses ∧ fired = false) := by
  refine ⟨_, _, rfl, fun disarmed => ?_⟩
  rw [Pause.trip_of_disarmed disarmed]
  exact ⟨rfl, rfl⟩

theorem check_call {site : Site} {stage : Stage} (asks : site.asksFor = some (s, c))
    (refused : stage.granted = false) : Check w a s c (.call site stage) (w.callHook a site stage) := by
  obtain ⟨here, hook, arg⟩ := Site.asksFor_eq asks
  cases stage with
  | arriving =>
    obtain ⟨pauses, fired, eq, disarmed⟩ := w.trip_eq a .isHeld true
    simp only [callHook, hook, eq]
    cases fired with
    | true => exact .arrive asks (Or.inr rfl) fun none => by simpa using (disarmed none).2
    | false => exact .arrive asks (Or.inl rfl) fun none => ⟨(disarmed none).1, rfl⟩
  | entering =>
    simp only [callHook, here, hook, arg]
    exact .ask asks
  | leaving answer =>
    obtain ⟨pauses, fired, eq, disarmed⟩ := w.trip_eq a .isHeld false
    simp only [callHook, hook, eq]
    cases fired with
    | true => exact .leave asks (Or.inr rfl) fun none => by simpa using (disarmed none).2
    | false => exact .leave asks (Or.inl rfl) fun none => ⟨(disarmed none).1, rfl⟩
  | answered answer =>
    have unheld : w.callHook a site (.answered answer) = (w, .ends (.failed (refusal .notHeld answer))) := by
      cases answer with
      | error e =>
        cases site with
        | wait | errand => rfl
        | _ => simp [Site.asksFor] at asks
      | ok v =>
        have refused : v.isGrant = false := refused
        cases site with
        | wait | errand =>
          simp only [callHook, resolve, refused]
          rfl
        | _ => simp [Site.asksFor] at asks
    rw [unheld]
    exact .unheld asks refused

theorem check_stride (w : World) (a : ActorId) (checks : p.Checks s c) : Check w a s c p (w.stride a p) := by
  cases p with
  | start op => exact check_start checks
  | call site stage => exact check_call checks.1 checks.2
  | _ => exact checks.elim

/-- Nothing but the actor's own standing has changed. -/
def ButFor (a : ActorId) (w w' : World) : Prop := ∃ f, w' = w.modifyActor a f

namespace ButFor

theorem setLooks (w : World) (a : ActorId) (looks : Nat) : ButFor a w (w.setLooks a looks) := ⟨_, rfl⟩

theorem setActivity (w : World) (a : ActorId) (x : Activity) : ButFor a w (w.setActivity a x) := ⟨_, rfl⟩

theorem trans (h : ButFor a w w') (h' : ButFor a w' w'') : ButFor a w w'' := by
  obtain ⟨f, rfl⟩ := h
  obtain ⟨g, rfl⟩ := h'
  exact ⟨_, w.modifyActor_modifyActor a f g⟩

theorem sync (h : ButFor a w w') : w'.sync s = w.sync s := by
  obtain ⟨f, rfl⟩ := h
  rfl

theorem pauses (h : ButFor a w w') : w'.pauses = w.pauses := by
  obtain ⟨f, rfl⟩ := h
  rfl

theorem owns (h : ButFor a w w') : w'.owns s c = w.owns s c := by
  obtain ⟨f, rfl⟩ := h
  rfl

theorem flagged (h : ButFor a w w') (t : Option TokenId) : w'.flagged t = w.flagged t := by
  obtain ⟨f, rfl⟩ := h
  rfl

theorem now (h : ButFor a w w') : w'.now = w.now := by
  obtain ⟨f, rfl⟩ := h
  rfl

theorem modifyToken (h : ButFor a w w') (t : Option TokenId) (f : Token → Token) :
    ButFor a (w.modifyToken t f) (w'.modifyToken t f) := by
  obtain ⟨g, rfl⟩ := h
  exact ⟨g, by cases t <;> rfl⟩

theorem ask (h : ButFor a w w') (s : SyncId) (k : Hook) (b : ActorId) (arg : Int) :
    ButFor a (w.ask s k b arg).1 (w'.ask s k b arg).1 := by
  obtain ⟨g, rfl⟩ := h
  exact ⟨g, rfl⟩

end ButFor

/-- What becomes of the operation if the actor is given it to do, and how its run ends. -/
def outcome (w : World) (a : ActorId) (op : Operation) : World × Stop :=
  ((w.perform a op).1, (w.perform a op).2.stop)

/-- The run has failed with the error, and but for the actor it has led to this world. -/
def FailsWith (a : ActorId) (e : SyncError) (w' : World) (r : World × Stop) : Prop :=
  r.2 = .finished (.failed e) ∧ ButFor a w' r.1

section run

variable {n : Nat} {e : SyncError} {site : Site} {answer : Except SyncError Verdict}

theorem failsWith_of_ends (running : (w.actor a).activity = .busy .running p)
    (next : w.stride a p = (w', .ends (.failed e))) : FailsWith a e w' (runFor (n + 1) w a) := by
  have stepped : w.step a = (w'.setActivity a .idle, some (.failed e)) :=
    Prod.ext ((step_eq running).trans (by rw [next]; rfl)) ((step_value running).trans (by rw [next]; rfl))
  rw [runFor, stepped]
  exact ⟨rfl, .setActivity w' a _⟩

theorem failsWith_of_goes {p' : Position} (running : (w.actor a).activity = .busy .running p)
    (next : w.stride a p = (w', .goes p'))
    (later : ∀ v, ButFor a w' v → (v.actor a).activity = .busy .running p' →
      FailsWith a e w'' (runFor n v a)) :
    FailsWith a e w'' (runFor (n + 1) w a) := by
  have stepped : w.step a = (w'.setActivity a (.busy .running p'), none) :=
    Prod.ext ((step_eq running).trans (by rw [next]; rfl)) ((step_value running).trans (by rw [next]; rfl))
  have activity := activity_step running
  rw [stepped, next] at activity
  rw [runFor, stepped]
  dsimp only
  rw [activity]
  exact later _ (.setActivity w' a _) activity

/-! Where it is not made to pause, whoever asks and is refused fails with the refusal. -/

theorem failsWith_of_leaving (asks : site.asksFor = some (s, c)) (refused : grants answer = false)
    (disarmed : ∀ p ∈ w.pauses, p.actor = a → p.hook ≠ .isHeld)
    (running : (w.actor a).activity = .busy .running (.call site (.leaving answer))) :
    FailsWith a (refusal .notHeld answer) w (runFor (n + 2) w a) := by
  have check : Check w a s c _ (w.stride a (.call site (.leaving answer))) := check_stride w a ⟨asks, refused⟩
  generalize next : w.stride a (.call site (.leaving answer)) = r at check
  cases check with
  | leave _ _ goes =>
    obtain ⟨rfl, rfl⟩ := goes disarmed
    refine failsWith_of_goes running next fun v hv running => ?_
    have check : Check v a s c _ (v.stride a (.call site (.answered answer))) :=
      check_stride v a ⟨asks, refused⟩
    generalize next : v.stride a (.call site (.answered answer)) = r at check
    cases check with
    | unheld =>
      obtain ⟨told, but⟩ : FailsWith a _ v _ := failsWith_of_ends running next
      exact ⟨told, hv.trans but⟩

theorem failsWith_of_arriving (asks : site.asksFor = some (s, c))
    (disarmed : ∀ p ∈ w.pauses, p.actor = a → p.hook ≠ .isHeld)
    (refused : grants ((w.sync s).ask .isHeld a 0).2 = false)
    (running : (w.actor a).activity = .busy .running (.call site .arriving)) :
    FailsWith a (refusal .notHeld ((w.sync s).ask .isHeld a 0).2) (w.ask s .isHeld a 0).1
      (runFor (n + 4) w a) := by
  have check : Check w a s c _ (w.stride a (.call site .arriving)) := check_stride w a ⟨asks, rfl⟩
  generalize next : w.stride a (.call site .arriving) = r at check
  cases check with
  | arrive _ _ goes =>
    obtain ⟨rfl, rfl⟩ := goes disarmed
    refine failsWith_of_goes running next fun v hv running => ?_
    have check : Check v a s c _ (v.stride a (.call site .entering)) := check_stride v a ⟨asks, rfl⟩
    generalize next : v.stride a (.call site .entering) = r at check
    cases check with
    | ask =>
      rw [hv.sync] at next
      refine failsWith_of_goes running next fun u hu running => ?_
      have pauses : u.pauses = w.pauses := hu.pauses.trans hv.pauses
      obtain ⟨told, but⟩ := failsWith_of_leaving (n := n) asks refused (pauses ▸ disarmed) running
      exact ⟨told, (hv.ask s .isHeld a 0).trans (hu.trans but)⟩

end run

/-- Where an operation on the condition fails before it has come to anything, it tells why, and this is all
that it leaves behind. -/
structure Checked (w : World) (a : ActorId) (op : Operation) (s : SyncId) (c : ConditionId) : Prop where
  foreign : w.owns s c = false → FailsWith a .foreignCondition w (w.outcome a op)
  /-- The flag of the token is lowered, and the actor is the one to be woken by it. -/
  interrupted : w.owns s c = true → (op.patience w.now).interruptible = true →
    w.flagged (op.patience w.now).token = true →
    FailsWith a .interrupted
      (w.modifyToken (op.patience w.now).token fun _ => { cancelled := false, waiter := some a }) (w.outcome a op)
  /-- The actor is the one to be woken by the token, and the synchronizer is as the hook has left it. -/
  unheld : w.owns s c = true →
    ¬((op.patience w.now).interruptible = true ∧ w.flagged (op.patience w.now).token = true) →
    (∀ p ∈ w.pauses, p.actor = a → p.hook ≠ .isHeld) → grants ((w.sync s).ask .isHeld a 0).2 = false →
    FailsWith a (refusal .notHeld ((w.sync s).ask .isHeld a 0).2)
      ((w.ask s .isHeld a 0).1.register (op.patience w.now).token a) (w.outcome a op)
  /-- A hook that is asked has no hand on the queue, and one that only looks changes nothing. -/
  asked : ∀ t, (w.ask s .isHeld a 0).1.queue t = w.queue t ∧ ((w.sync s).policy.OnlyLooks →
    ((w.ask s .isHeld a 0).1.sync t).state = (w.sync t).state ∧
      ((w.ask s .isHeld a 0).1.sync t).owner = (w.sync t).owner)

theorem sync_ask (w : World) (s t : SyncId) (k : Hook) (a : ActorId) (arg : Int) :
    (w.ask s k a arg).1.sync t = w.sync t ∨
      s = t ∧ (w.ask s k a arg).1.sync t = ((w.sync s).ask k a arg).1 := by
  unfold ask
  rw [sync_modifySync]
  split
  · rename_i here
    exact Or.inr ⟨here.1, rfl⟩
  · exact Or.inl rfl

theorem asked_isHeld (w : World) (s t : SyncId) (a : ActorId) :
    (w.ask s .isHeld a 0).1.queue t = w.queue t ∧ ((w.sync s).policy.OnlyLooks →
      ((w.ask s .isHeld a 0).1.sync t).state = (w.sync t).state ∧
        ((w.ask s .isHeld a 0).1.sync t).owner = (w.sync t).owner) := by
  refine ⟨w.queue_ask t s .isHeld a 0, fun looks => ?_⟩
  rcases w.sync_ask s t .isHeld a 0 with same | ⟨rfl, asked⟩
  · rw [same]
    exact ⟨rfl, rfl⟩
  · rw [asked]
    exact Synchronizer.ask_of_onlyLooks a 0 looks

theorem checked (inTable : a < w.actors.size) {op : Operation} (about : op.condition = some (s, c)) :
    Checked w a op s c := by
  -- The actor has been told what to do.
  obtain ⟨v, hv, running, eq⟩ : ∃ v, ButFor a w v ∧ (v.actor a).activity = .busy .running (.start op) ∧
      w.outcome a op = runFor (4091 + 5) v a :=
    ⟨_, .trans (.setLooks w a _) (.setActivity _ a _), activity_setActivity _ (by simpa), rfl⟩
  have owns := hv.owns (s := s) (c := c)
  have raised := hv.flagged (op.patience w.now).token
  have check : Check v a s c _ (v.stride a (.start op)) := check_stride v a about
  generalize next : v.stride a (.start op) = r at check
  constructor
  case foreign =>
    intro foreign
    cases check with
    | foreign =>
      obtain ⟨told, but⟩ := failsWith_of_ends (n := 4095) running next
      exact eq ▸ ⟨told, hv.trans but⟩
    | interrupted _ owned | «open» _ owned => simp [owns, foreign] at owned
  case interrupted =>
    intro owned interruptible flagged
    cases check with
    | foreign _ foreign => simp [owns, owned] at foreign
    | interrupted =>
      obtain ⟨told, but⟩ := failsWith_of_ends (n := 4095) running next
      rw [hv.now] at but
      exact eq ▸ ⟨told, (hv.modifyToken _ _).trans but⟩
    | «open» _ _ calm =>
      rw [hv.now, raised] at calm
      exact absurd ⟨interruptible, flagged⟩ calm
  case unheld =>
    intro owned calm disarmed refused
    cases check with
    | foreign _ foreign => simp [owns, owned] at foreign
    | interrupted _ _ interruptible flagged =>
      rw [hv.now] at interruptible flagged
      exact absurd ⟨interruptible, raised ▸ flagged⟩ calm
    | «open» _ _ _ asks =>
      rw [hv.now] at next
      refine eq ▸ failsWith_of_goes running next fun u hu running => ?_
      have registered : ButFor a (w.register (op.patience w.now).token a) u := (hv.modifyToken _ _).trans hu
      have sync : u.sync s = w.sync s := registered.sync.trans (w.sync_register _ a s)
      have pauses : u.pauses = w.pauses := registered.pauses.trans (w.pauses_register _ a)
      obtain ⟨told, but⟩ := failsWith_of_arriving (n := 4091) asks (pauses ▸ disarmed) (sync ▸ refused) running
      rw [sync] at told
      exact ⟨told, w.ask_register _ a s .isHeld a 0 ▸ (registered.ask s .isHeld a 0).trans but⟩
  case asked => exact fun t => w.asked_isHeld s t a

end World

end Turnstile
