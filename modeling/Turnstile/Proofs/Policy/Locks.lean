import Turnstile.Proofs.Policy.Lockwise
import Turnstile.Proofs.World.Promise
import Turnstile.Proofs.World.Wakeup

/-! Locks: at rest nobody is queued for one that is free. -/
namespace Turnstile

/-- The actor has been granted its turn at the synchronizer, and is not through with it. -/
def Position.seizes (s : SyncId) : Position → Bool
  | .call (.turn q) stage => q.claim.sync = s && stage.granted
  | _ => false

def Position.returns (s : SyncId) : Position → Option Int
  | .start (.release t .exclusive arg) => if t = s then some arg else none
  | .call site .arriving | .call site .entering =>
    if site.sync = s ∧ site.hook = .release then some site.arg else none
  | _ => none

def Event.returns (s : SyncId) : Event → Option (ActorId × Int)
  | .begin a op => ((Position.start op).returns s).map (a, ·)
  | _ => none

namespace Position

variable {s : SyncId} {sync : SyncId → Synchronizer} {me : ActorId} {p p' : Position}

theorem seizes_of_onward (on : Onward sync me p p') (seizes : p'.seizes s = true) :
    (∃ site, p = .call site .entering ∧ site.sync = s ∧ site.hook ≠ .release ∧
      grants ((sync site.sync).ask site.hook me site.arg).2 = true) ∨
    (p.seizes s = true ∧ ∀ site, p = .call site .entering →
      grants ((sync site.sync).ask site.hook me site.arg).2 = false) := by
  cases on with
  | @start op site opens => cases site <;> simp [Position.seizes, Stage.granted] at seizes
  | @enter site | @leave site =>
    refine Or.inr ⟨?_, by simp⟩
    cases site <;> exact seizes
  | @ask site =>
    cases site with
    | turn q =>
      obtain ⟨here, granted⟩ : q.claim.sync = s ∧ _ := by simpa [Position.seizes] using seizes
      refine Or.inl ⟨_, rfl, here, ?_, granted⟩
      cases mode : q.claim.mode <;> simp [Site.hook, mode, Hook.toAcquire]
    | _ => simp [Position.seizes] at seizes
  | again _ _ after =>
    rcases after with rfl | rfl | rfl | rfl <;> simp [Position.seizes, Stage.granted] at seizes
  | wait _ _ after =>
    rcases after with rfl | rfl | rfl | rfl <;> simp [Position.seizes, World.reclaim] at seizes
  | _ => simp [Position.seizes] at seizes

/-- Whoever waits gives up all of it. -/
theorem returns_of_onward {c : Int} (on : Onward sync me p p') (returns : p'.returns s = some c) :
    (p.returns s = some c ∨ c = (sync s).state) ∧ ∀ site, p ≠ .call site .entering := by
  cases on with
  | @start op site opens =>
    refine ⟨Or.inl ?_, by simp⟩
    obtain ⟨⟨here, release⟩, rfl⟩ : (site.sync = s ∧ site.hook = .release) ∧ site.arg = c := by
      simpa [Position.returns] using returns
    cases op with
    | release t mode arg =>
      cases site with
      | release t' mode' arg' =>
        obtain ⟨rfl, rfl, rfl⟩ := opens
        cases mode' with
        | exclusive => exact if_pos here
        | shared => simp [Site.hook, Hook.toRelease] at release
      | _ => exact opens.elim
    | acquire t mode arg style =>
      cases site with
      | attempt c => cases mode : c.mode <;> simp [Site.hook, mode, Hook.toAcquire] at release
      | _ => exact opens.elim
    | _ => cases site <;> first | exact opens.elim | simp [Site.hook] at release
  | enter => exact ⟨Or.inl returns, by simp⟩
  | @enterWait t n v granted =>
    refine ⟨Or.inr ?_, by simp⟩
    obtain ⟨here, rfl⟩ : t.sync = s ∧ _ := by
      simpa [Position.returns, Site.sync, Site.hook, Site.arg] using returns
    rw [← here]
  | @again q q' p p' same before after =>
    rcases after with rfl | rfl | rfl | rfl
    · simp [Position.returns] at returns
    · simp [Position.returns] at returns
    · simp [Position.returns] at returns
    · cases mode : q'.claim.mode <;>
        simp [Position.returns, Site.hook, mode, Hook.toAcquire] at returns
  | wait _ _ after =>
    rcases after with rfl | rfl | rfl | rfl <;> simp [Position.returns, World.reclaim] at returns
  | _ => simp [Position.returns] at returns

end Position

namespace World

/-- Nobody writes to the lock directly, claims less than one hold or gives up several that it does not
have. -/
def Proper (s : SyncId) (w : World) (e : Event) : Prop :=
  e.meddles s = false ∧ (∀ c ∈ e.demands s, 0 < c) ∧
    ∀ r ∈ e.returns s, 1 < r.2 → (w.sync s).owner = some r.1 → r.2 ≤ (w.sync s).state

instance (s : SyncId) (w : World) (e : Event) : Decidable (Proper s w e) :=
  inferInstanceAs (Decidable (_ ∧ _ ∧ _))

/-- What holds throughout at a synchronizer that is a lock. -/
structure Locking (s : SyncId) (w : World) : Prop where
  seated : Seated s w
  attended : Attended (fun state _ => state = 0) s w
  lock : (w.sync s).policy.IsLock
  owned : Owned (w.sync s).state (w.sync s).owner
  guarded : Guarded s (w.sync s).owner w
  seized : ∀ a p, (w.actor a).position = some p → p.seizes s = true → (w.sync s).owner = some a
  unwritten : Unwritten s w
  claims : ∀ a p c, (w.actor a).position = some p → p.claims s = some c → 0 < c
  returns : ∀ a p c, (w.actor a).position = some p → p.returns s = some c →
    (w.sync s).owner = some a → c ≤ (w.sync s).state

structure Upholds (s : SyncId) (w : World) (e : Event) : Prop where
  policy : ((w.happen e).sync s).policy = (w.sync s).policy
  owned : Owned ((w.happen e).sync s).state ((w.happen e).sync s).owner
  held : ∀ a answer, w.heard s e = some (a, .isHeld, answer) → grants answer → (w.sync s).owner = some a
  named : ∀ a hook answer, w.heard s e = some (a, hook, answer) → hook ≠ .release → grants answer →
    ((w.happen e).sync s).owner = some a
  kept : ∀ a, (w.sync s).owner = some a → ((w.happen e).sync s).owner = some a ∨
    ∃ answer, w.heard s e = some (a, .release, answer) ∧ grants answer
  /-- The holds of an owner are its own to change. -/
  counted : ∀ a, ((w.happen e).sync s).owner = some a →
    ((w.sync s).owner = some a ∧ ((w.happen e).sync s).state = (w.sync s).state) ∨
      ∃ site, e = .step a ∧ (w.actor a).activity = .busy .running (.call site .entering)

namespace Locking

variable {s : SyncId} {w : World} {e : Event} {me : ActorId} {site : Site}

theorem lockwise (hw : Locking s w) (hp : (w.actor me).position = some (.call site .entering))
    (here : site.sync = s) {r : Synchronizer × Except SyncError Verdict}
    (hr : (w.sync s).ask site.hook me site.arg = r) :
    Lockwise site.hook ((w.sync s).inquiry me site.arg) ⟨r.2, r.1.state, r.1.owner⟩ := by
  have decides := (w.sync s).decides_ask site.hook me site.arg
  rw [hr] at decides
  rcases decides with ⟨state, owner, verdict⟩ | ⟨state, owner, error, failed⟩
  · rw [state, owner, verdict]
    refine hw.lock.lockwise site.hook ((w.sync s).inquiry me site.arg) hw.owned ?_ ?_
    · intro acquire
      exact hw.claims me _ _ hp (Position.claims_of_toAcquire (m := .exclusive) acquire here _)
    · intro release
      exact hw.returns me _ _ hp (if_pos ⟨here, release⟩)
  · rw [state, owner, failed]
    exact Lockwise.fail hw.owned error

theorem upholds (hw : Locking s w) (e : Event) : Upholds s w e := by
  rcases hw.seated.sync_happen e with ⟨a, op, -, running, asks, -⟩ |
    ⟨a, site, rfl, running, here, sync⟩ | ⟨unheard, q, f, same⟩
  · simp [hw.unwritten a op (Actor.position_of_busy running)] at asks
  · have hp : (w.actor a).position = some (.call site .entering) := Actor.position_of_busy running
    have lockwise := hw.lockwise hp here rfl
    have heard := heard_eq_some.2 ⟨site, rfl, running, here, rfl, rfl⟩
    constructor
    case policy => rw [sync, Synchronizer.policy_ask]
    case owned =>
      rw [sync]
      exact lockwise.owned
    case held =>
      intro b answer heard' granted
      rw [heard] at heard'
      obtain ⟨rfl, hook, rfl⟩ : a = b ∧ site.hook = .isHeld ∧ _ = answer := by simpa using heard'
      exact lockwise.held granted hook
    case named =>
      intro b hook answer heard' other granted
      rw [heard] at heard'
      obtain ⟨rfl, rfl, rfl⟩ : a = b ∧ site.hook = hook ∧ _ = answer := by simpa using heard'
      rw [sync]
      exact lockwise.taken granted other
    case kept =>
      intro b owner
      rcases lockwise.kept b owner with ⟨still, -⟩ | ⟨rfl, release, granted⟩
      · rw [sync]
        exact Or.inl still
      · exact Or.inr ⟨_, by rw [heard, release], granted⟩
    case counted =>
      intro b owner
      rw [sync] at owner ⊢
      by_cases mine : b = a
      · subst mine
        exact Or.inr ⟨site, rfl, running⟩
      · have before := (lockwise.gained b owner).resolve_right mine
        rcases lockwise.kept b before with ⟨-, state⟩ | ⟨same, -⟩
        · exact Or.inl ⟨before, state mine⟩
        · exact absurd same mine
  · rw [Option.eq_none_iff_forall_ne_some] at unheard
    constructor
    case policy => rw [same]
    case owned =>
      rw [same]
      exact hw.owned
    case held => exact fun a answer heard => absurd heard (unheard _)
    case named => exact fun a hook answer heard => absurd heard (unheard _)
    case kept => exact fun a owner => Or.inl (by rw [same]; exact owner)
    case counted => exact fun a owner => Or.inl (by rw [same] at owner ⊢; exact ⟨owner, rfl⟩)

theorem taken (hw : Locking s w) (owner : (w.sync s).owner = some me) : 0 < (w.sync s).state := by
  rcases hw.owned with ⟨none, -⟩ | ⟨b, -, positive⟩
  · simp [none] at owner
  · exact positive

theorem heeds (hw : Locking s w) {p : Position} (running : (w.actor me).activity = .busy .running p) :
    Heeds (fun state _ => state = 0) s w me p := by
  have hp : (w.actor me).position = some p := Actor.position_of_busy running
  constructor
  case writes =>
    rintro op rfl asks
    simp [hw.unwritten me op hp] at asks
  case readies =>
    rintro site rfl here
    have lockwise := hw.lockwise hp here rfl
    by_cases freed : site.hook = .release ∧ grants ((w.sync s).ask site.hook me site.arg).2 = true
    · exact Or.inl (Position.releasing_of_toRelease (m := .exclusive) freed.1 here freed.2)
    · exact Or.inr fun _ free => (lockwise.freed free).resolve_right freed
  case refuses =>
    rintro q v rfl here answer refused first
    refine (hw.lockwise hp here rfl).refused ?_ ?_ v answer refused first
    · cases mode : q.claim.mode <;> simp [Site.hook, mode, Hook.toAcquire]
    · cases mode : q.claim.mode <;> simp [Site.hook, mode, Hook.toAcquire]
  case holds =>
    intro busy _ free
    have owner : (w.sync s).owner = some me := by
      rcases busy with signals | ⟨q, takes, -⟩
      · exact hw.guarded me p hp (Position.guards_of_signals signals)
      · obtain ⟨v, rfl, here, granted⟩ := Position.takes_eq takes
        exact hw.seized me _ hp (by simp [Position.seizes, Stage.granted, here, granted])
    have taken := hw.taken owner
    omega

theorem claims_happen (hw : Locking s w) (e : Event) (demands : ∀ c ∈ e.demands s, 0 < c) :
    ∀ a p c, ((w.happen e).actor a).position = some p → p.claims s = some c → 0 < c := by
  intro a p c hp
  revert c
  refine hw.seated.positions (P := fun _ p => ∀ c, p.claims s = some c → 0 < c) (e := e)
    (fun a p hp c => hw.claims a p c hp) ?_ ?_ a p hp
  · rintro a op rfl
    exact demands
  · rintro a p p' - running on positive c claims
    rcases on.claims claims with before | ⟨t, v, rfl, granted, here, rfl⟩
    · exact positive c before
    · refine hw.taken (hw.guarded a _ (Actor.position_of_busy running) ?_)
      simp [Position.guards, Site.guards, Stage.granted, here, granted]

theorem returns_happen (hw : Locking s w) (e : Event)
    (returns : ∀ r ∈ e.returns s, 1 < r.2 → (w.sync s).owner = some r.1 → r.2 ≤ (w.sync s).state) :
    ∀ a p c, ((w.happen e).actor a).position = some p → p.returns s = some c →
      ((w.happen e).sync s).owner = some a → c ≤ ((w.happen e).sync s).state := by
  intro a p' c hp' here owner
  have counted := (hw.upholds e).counted a owner
  rcases hw.seated.position_happen e hp' with ⟨hp, still⟩ | ⟨op, rfl, rfl⟩ | ⟨p, rfl, running, on⟩
  · rcases counted with ⟨before, state⟩ | ⟨site, rfl, running⟩
    · rw [state]
      exact hw.returns a p' c hp here before
    · simpa [Position.readsClock] using still _ rfl running
  · obtain ⟨before, state⟩ := counted.resolve_right (by simp)
    have taken := hw.taken before
    rw [state]
    by_cases several : 1 < c
    · exact returns (a, c) (by simp [Event.returns, here]) several before
    · omega
  · obtain ⟨before, other⟩ := Position.returns_of_onward on here
    have unasked : ¬∃ site, Event.step a = .step a ∧
        (w.actor a).activity = .busy .running (.call site .entering) := by
      rintro ⟨site, -, running'⟩
      exact other site (Activity.busy.inj (running.symm.trans running')).2
    obtain ⟨owner, state⟩ := counted.resolve_right unasked
    rw [state]
    rcases before with already | rfl
    · exact hw.returns a p c (Actor.position_of_busy running) already owner
    · exact Int.le_refl _

theorem happen (hw : Locking s w) (proper : Proper s w e) : Locking s (w.happen e) := by
  obtain ⟨unmeddled, demands, returns⟩ := proper
  have upholds := hw.upholds e
  constructor
  case seated => exact hw.seated.happen hw.guarded.exclusive e
  case attended => exact hw.attended.happen hw.seated e fun a p _ => hw.heeds
  case lock => exact upholds.policy ▸ hw.lock
  case owned => exact upholds.owned
  case guarded => exact hw.guarded.happen hw.seated upholds.held upholds.kept
  case seized =>
    exact hw.seated.holders (· ≠ .release) (fun _ => rfl) (fun _ _ _ on => Position.seizes_of_onward on)
      hw.seized upholds.named upholds.kept
  case unwritten => exact hw.seated.unwritten_happen hw.unwritten e unmeddled
  case claims => exact hw.claims_happen e demands
  case returns => exact hw.returns_happen e returns

theorem create {actors tokens : Nat} {syncs : List Synchronizer} {conditions : List SyncId}
    {x : Synchronizer} (hx : syncs[s]? = some x) (lock : x.policy.IsLock) (free : x.state = 0)
    (unowned : x.owner = none) (empty : x.queue = .empty) :
    Locking s (World.create actors tokens syncs conditions) := by
  have idle := position_create actors tokens syncs conditions
  have sync : (World.create actors tokens syncs conditions).sync s = x := sync_create hx
  refine ⟨.create hx empty, .create, sync ▸ lock, sync ▸ Or.inl ⟨unowned, free⟩, ?_, ?_, ?_, ?_, ?_⟩
  · exact fun a p hp => absurd hp (idle a p)
  · exact fun a p hp => absurd hp (idle a p)
  · exact fun a op hp => absurd hp (idle a _)
  · exact fun a p c hp => absurd hp (idle a p)
  · exact fun a p c hp => absurd hp (idle a p)

/-- A lock's hooks are honest about who holds it. -/
theorem honest (hw : Locking s w) {events : List Event} (proper : Obeys (Proper s) w events) :
    Honest s (w.sync s).owner w events := by
  induction events generalizing w with
  | nil => trivial
  | cons e rest ih =>
    have upholds := hw.upholds e
    exact ⟨upholds.held, _, upholds.kept, ih (hw.happen proper.1) proper.2⟩

theorem unqueued (hw : Locking s w) (rest : w.quiet = true) (free : (w.sync s).state = 0) :
    (w.queue s).live = [] := by
  by_contra waited
  obtain ⟨f, others, live⟩ := List.exists_cons_of_ne_nil waited
  obtain ⟨a, t, p, -, -, unready⟩ := hw.attended.unready hw.seated rest (f := f) (by rw [live]; rfl)
  exact unready free

end Locking

/-- At rest nobody is queued for a lock that is free. Whoever is still parked is queued elsewhere, or
waits on a condition and has not been signalled. -/
theorem locks_at_rest {s : SyncId} {actors tokens : Nat} {syncs : List Synchronizer}
    {conditions : List SyncId} {x : Synchronizer} (hx : syncs[s]? = some x) (lock : x.policy.IsLock)
    (free : x.state = 0) (unowned : x.owner = none) (empty : x.queue = .empty) {events : List Event}
    (proper : Obeys (Proper s) (World.create actors tokens syncs conditions) events) :
    let w := (World.create actors tokens syncs conditions).after events
    w.quiet = true → (w.sync s).state = 0 →
      (w.queue s).live = [] ∧ ∀ a t p, (w.actor a).activity = .busy (.parked t) p →
        (∃ q, p = .roused q ∧ q.claim.sync ≠ s) ∨
          ∃ v, p = .awoken v ∧ (v.terms.sync = s → ((w.queue s).node v.node).status = .condition) := by
  intro w rest isFree
  have locking : Locking s w :=
    invariant (fun _ _ => Locking.happen) (.create hx lock free unowned empty) proper
  have unqueued := locking.unqueued rest isFree
  refine ⟨unqueued, fun a t p parked => ?_⟩
  have hp : (w.actor a).position = some p := Actor.position_of_busy parked
  have seat := locking.seated.seats a p hp
  have parks := locking.seated.parks a p (Or.inl ⟨t, parked⟩)
  cases p with
  | roused q =>
    refine Or.inl ⟨q, rfl, fun here => ?_⟩
    rw [Position.seat, if_pos here] at seat
    have live := seat.1
    simp [unqueued] at live
  | awoken v =>
    refine Or.inr ⟨v, rfl, fun here => ?_⟩
    rw [Position.seat, if_pos here] at seat
    exact seat.1.resolve_left (by simp [unqueued])
  | _ => simp [Position.parks] at parks

/-- One actor takes a lock from another that waits on a condition, and gives it back. -/
theorem locks_at_rest_unsignalled :
    let w := (World.create 2 0 [{ policy := .mutex, state := 0 }] [0]).after
      (.begin 0 (.acquire 0 .exclusive 1 .plain) :: List.replicate 5 (.step 0) ++
        .begin 1 (.acquire 0 .exclusive 1 .plain) :: List.replicate 18 (.step 1) ++
        .begin 0 (.wait 0 0 (.interruptible none)) :: List.replicate 14 (.step 0) ++
        .resume 1 :: List.replicate 8 (.step 1) ++
        .begin 1 (.release 0 .exclusive 1) :: List.replicate 5 (.step 1))
    (w.queue 0).live = [] ∧ ∀ a t p, (w.actor a).activity = .busy (.parked t) p →
      (∃ q, p = .roused q ∧ q.claim.sync ≠ 0) ∨
        ∃ v, p = .awoken v ∧ (v.terms.sync = 0 → ((w.queue 0).node v.node).status = .condition) :=
  locks_at_rest rfl (Or.inl rfl) rfl rfl rfl (by decide +kernel) (by decide +kernel) (by decide +kernel)

end World

end Turnstile
