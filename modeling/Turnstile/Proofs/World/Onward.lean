import Turnstile.Proofs.World.Course
import Turnstile.Proofs.World.Seating

/-! Where the steps of an actor may lead. -/
namespace Turnstile

def Operation.Opens : Operation → Site → Prop
  | .acquire s mode arg _, .attempt c => c.sync = s ∧ c.mode = mode ∧ c.arg = arg
  | .release s mode arg, .release t mode' arg' => t = s ∧ mode' = mode ∧ arg' = arg
  | .isHeld s, .isHeld t => t = s
  | .wait s _ _, .wait t => t.sync = s
  | .errand s _ _, .errand t _ _ => t = s
  | _, _ => False

/-- What two actors that wait with these terms have in common, however far they have come. -/
def Waiting.Same (v v' : Waiting) : Prop := v'.terms = v.terms ∧ v'.node = v.node ∧ v'.saved = v.saved

def Queued.Same (q q' : Queued) : Prop := q'.claim = q.claim ∧ q'.node = q.node

/-- One step may lead from the one position to the other. -/
inductive Onward (sync : SyncId → Synchronizer) (me : ActorId) : Position → Position → Prop
  | start {op site} (opens : op.Opens site) : Onward sync me (.start op) (.call site .arriving)
  | enter {site} : Onward sync me (.call site .arriving) (.call site .entering)
  | ask {site} : Onward sync me (.call site .entering)
      (.call site (.leaving ((sync site.sync).ask site.hook me site.arg).2))
  | leave {site answer} : Onward sync me (.call site (.leaving answer)) (.call site (.answered answer))
  | queue {c v} : Onward sync me (.call (.attempt c) (.answered (.ok v))) (.queueing c)
  | join {c n} : Onward sync me (.queueing c) (.turn ⟨c, n, false⟩)
  | again {q q' p p'} (same : q.Same q') (before : p = .turn q ∨ p = .lingering q ∨ p = .roused q)
      (after : p' = .turn q' ∨ p' = .lingering q' ∨ p' = .roused q' ∨ p' = .call (.turn q') .arriving) :
      Onward sync me p p'
  | refuse {q v} (refused : v.isGrant = false) :
      Onward sync me (.call (.turn q) (.answered (.ok v))) (.lingering q)
  | enterWait {t n v} (granted : v.isGrant) : Onward sync me (.call (.wait t) (.answered (.ok v)))
      (.call (.letGo t n (sync t.sync).state) .arriving)
  | letGo {t n saved v} (granted : v.isGrant) :
      Onward sync me (.call (.letGo t n saved) (.answered (.ok v)))
        (.waiting { terms := t, node := n, saved })
  | wait {v v' p p'} (same : v.Same v') (before : p = .waiting v ∨ p = .dozing v ∨ p = .awoken v)
      (after : p' = .waiting v' ∨ p' = .dozing v' ∨ p' = .awoken v' ∨ p' = World.reclaim v') :
      Onward sync me p p'
  | reckon {site answer start timeout timedOut} :
      Onward sync me (.call site (.answered answer)) (.reckoning start timeout timedOut)

/-- Whoever keeps a node keeps to what it claims. -/
theorem Onward.claim {sync : SyncId → Synchronizer} {me : ActorId} {s : SyncId} {p p' : Position}
    (on : Onward sync me p p') (seat : (p.seat s).node ≠ none) (seat' : (p'.seat s).node ≠ none) :
    p'.claim = p.claim := by
  cases on with
  | @again q q' p p' same before after =>
    have claimed : p.claim = q.claim.arg := by
      rcases before with rfl | rfl | rfl <;> rfl
    have claimed' : p'.claim = q'.claim.arg := by
      rcases after with rfl | rfl | rfl | rfl <;> rfl
    rw [claimed, claimed', same.1]
  | @wait v v' p p' same before after =>
    have claimed : p.claim = v.saved := by
      rcases before with rfl | rfl | rfl <;> rfl
    have claimed' : p'.claim = v'.saved := by
      rcases after with rfl | rfl | rfl | rfl <;> rfl
    rw [claimed, claimed', same.2.2]
  | @enter site | @ask site | @leave site => cases site <;> rfl
  | refuse _ | letGo _ => rfl
  | reckon => exact absurd rfl seat'
  | _ => exact absurd rfl seat

theorem Onward.ne_start {sync : SyncId → Synchronizer} {me : ActorId} {p : Position} {op : Operation} :
    ¬Onward sync me p (.start op) := by
  rintro (_ | _ | _ | _ | _ | _ | ⟨_, _, after⟩ | _ | _ | _ | ⟨_, _, after⟩ | _)
  · simp at after
  · simp [World.reclaim] at after

def Position.claims (s : SyncId) : Position → Option Int
  | .start (.acquire t _ arg _) => if t = s then some arg else none
  | .call (.attempt c) _ | .queueing c => if c.sync = s then some c.arg else none
  | .turn q | .lingering q | .roused q | .call (.turn q) _ =>
    if q.claim.sync = s then some q.claim.arg else none
  | .call (.letGo t _ saved) _ => if t.sync = s then some saved else none
  | .waiting v | .dozing v | .awoken v => if v.terms.sync = s then some v.saved else none
  | _ => none

theorem Position.claims_of_toAcquire {s : SyncId} {site : Site} {m : Mode}
    (acquire : site.hook = .toAcquire m) (here : site.sync = s) (stage : Stage) :
    (Position.call site stage).claims s = some site.arg := by
  cases site with
  | attempt c => exact if_pos here
  | turn q => exact if_pos here
  | release t mode arg =>
    cases m <;> cases mode <;> simp [Site.hook, Hook.toAcquire, Hook.toRelease] at acquire
  | _ => cases m <;> simp [Site.hook, Hook.toAcquire] at acquire

/-- The synchronizer is written to directly. -/
def Event.meddles (s : SyncId) : Event → Bool
  | .begin _ op => (Position.start op).asks s
  | _ => false

/-- The operation writes the state of the synchronizer directly. -/
def Operation.sets (s : SyncId) : Operation → Bool
  | .setState t _ | .exchangeState t _ _ => t = s
  | _ => false

def Event.sets (s : SyncId) : Event → Bool
  | .begin _ op => op.sets s
  | _ => false

def Event.demands (s : SyncId) : Event → Option Int
  | .begin _ op => (Position.start op).claims s
  | _ => none

/-- Claims are made when an operation begins, or when a wait does. -/
theorem Onward.claims {sync : SyncId → Synchronizer} {me : ActorId} {s : SyncId} {p p' : Position}
    {c : Int} (on : Onward sync me p p') (claims : p'.claims s = some c) :
    p.claims s = some c ∨ ∃ t v, p = .call (.wait t) (.answered (.ok v)) ∧ v.isGrant = true ∧
      t.sync = s ∧ c = (sync s).state := by
  cases on with
  | @start op site opens =>
    refine Or.inl ?_
    cases op with
    | acquire t mode arg style =>
      cases site with
      | attempt c' =>
        obtain ⟨rfl, -, rfl⟩ := opens
        exact claims
      | _ => exact opens.elim
    | _ => cases site <;> first | exact opens.elim | simp [Position.claims] at claims
  | @enter site | @ask site | @leave site => exact Or.inl (by cases site <;> exact claims)
  | queue | join | refuse _ | letGo _ => exact Or.inl claims
  | @again q q' p p' same before after =>
    have claims' : p'.claims s = if q.claim.sync = s then some q.claim.arg else none := by
      rw [← same.1]
      rcases after with rfl | rfl | rfl | rfl <;> rfl
    refine Or.inl ?_
    rw [← claims, claims']
    rcases before with rfl | rfl | rfl <;> rfl
  | @wait v v' p p' same before after =>
    have claims' : p'.claims s = if v.terms.sync = s then some v.saved else none := by
      rw [← same.1, ← same.2.2]
      rcases after with rfl | rfl | rfl | rfl <;> rfl
    refine Or.inl ?_
    rw [← claims, claims']
    rcases before with rfl | rfl | rfl <;> rfl
  | @enterWait t n v granted =>
    simp only [Position.claims] at claims
    split at claims
    · rename_i here
      exact Or.inr ⟨t, v, rfl, granted, here, by rw [← here]; exact (Option.some.inj claims).symm⟩
    · simp at claims
  | reckon => simp [Position.claims] at claims

namespace World

variable {w : World} {me : ActorId} {p p' : Position} {r : World × Next}

theorem opens_of_site {op : Operation} {site : Site} (h : op.site w = some site) : op.Opens site := by
  cases op with
  | acquire | release => exact Option.some.inj h ▸ ⟨rfl, rfl, rfl⟩
  | isHeld | errand => exact Option.some.inj h ▸ rfl
  | wait s c style =>
    obtain rfl := Option.some.inj h
    cases style <;> rfl
  | _ => simp [Operation.site] at h

/-- The course of an operation leads onward. -/
theorem onward_of_course (h : Course w me p r) (next : r.2.position = some p') :
    Onward w.sync me p p' := by
  have again {q q' p p'} (before : p = .turn q ∨ p = .lingering q ∨ p = .roused q)
      (after : p' = .turn q' ∨ p' = .lingering q' ∨ p' = .roused q' ∨ p' = .call (.turn q') .arriving)
      (same : q.Same q') : Onward w.sync me p p' := .again same before after
  have wait {v v' p p'} (before : p = .waiting v ∨ p = .dozing v ∨ p = .awoken v)
      (after : p' = .waiting v' ∨ p' = .dozing v' ∨ p' = .awoken v' ∨ p' = World.reclaim v')
      (same : v.Same v') : Onward w.sync me p p' := .wait same before after
  cases h with
  | «open» opens =>
    obtain rfl := Option.some.inj next
    exact .start (opens_of_site opens)
  | enter _ _ goes =>
    rcases goes with rfl | rfl <;> exact Option.some.inj next ▸ .enter
  | ask => exact Option.some.inj next ▸ .ask
  | leave _ _ goes =>
    rcases goes with rfl | rfl <;> exact Option.some.inj next ▸ .leave
  | queue => exact Option.some.inj next ▸ .queue
  | linger refused => exact Option.some.inj next ▸ .refuse refused
  | @conclude site c swallowed =>
    rcases c.outcome_cases swallowed with ⟨v, eq⟩ | ⟨v, start, timeout, -, -, -, eq⟩
    · simp [eq, Next.position] at next
    · obtain rfl := Option.some.inj ((congrArg Next.position eq).symm.trans next)
      exact .reckon
  | enterWait granted => exact Option.some.inj next ▸ .enterWait granted
  | letGo granted => exact Option.some.inj next ▸ .letGo granted
  | join => exact Option.some.inj next ▸ .join
  | call =>
    obtain rfl := Option.some.inj next
    exact again (Or.inl rfl) (Or.inr (Or.inr (Or.inr rfl))) ⟨rfl, rfl⟩
  | await =>
    obtain rfl := Option.some.inj next
    exact again (Or.inl rfl) (Or.inr (Or.inl rfl)) ⟨rfl, rfl⟩
  | again =>
    obtain rfl := Option.some.inj next
    exact again (Or.inr (Or.inl rfl)) (Or.inl rfl) ⟨rfl, rfl⟩
  | park _ goes =>
    obtain rfl := Next.position_of_parks goes next
    exact again (Or.inr (Or.inl rfl)) (Or.inr (Or.inr (Or.inl rfl))) ⟨rfl, rfl⟩
  | retry | swallow =>
    obtain rfl := Option.some.inj next
    exact again (Or.inr (Or.inr rfl)) (Or.inl rfl) ⟨rfl, rfl⟩
  | reclaim =>
    obtain rfl := Option.some.inj next
    exact wait (Or.inl rfl) (Or.inr (Or.inr (Or.inr rfl))) ⟨rfl, rfl, rfl⟩
  | doze =>
    obtain rfl := Option.some.inj next
    exact wait (Or.inl rfl) (Or.inr (Or.inl rfl)) ⟨rfl, rfl, rfl⟩
  | timeOut =>
    obtain rfl := Option.some.inj next
    exact wait (Or.inr (Or.inl rfl)) (Or.inr (Or.inr (Or.inr rfl))) ⟨rfl, rfl, rfl⟩
  | sleep _ _ _ goes =>
    obtain rfl := Next.position_of_parks goes next
    exact wait (Or.inr (Or.inl rfl)) (Or.inr (Or.inr (Or.inl rfl))) ⟨rfl, rfl, rfl⟩
  | look | putOff =>
    obtain rfl := Option.some.inj next
    exact wait (Or.inr (Or.inr rfl)) (Or.inl rfl) ⟨rfl, rfl, rfl⟩
  | cancel =>
    obtain rfl := Option.some.inj next
    exact wait (Or.inr (Or.inr rfl)) (Or.inr (Or.inr (Or.inr rfl))) ⟨rfl, rfl, rfl⟩
  | _ => simp [Next.position] at next

theorem onward_advance (h : (w.advance me p).2.position = some p') : Onward w.sync me p p' :=
  onward_of_course (course_advance p) h

theorem onward_stride (h : (w.stride me p).2.position = some p') :
    (p.readsClock = true ∧ p' = p) ∨ Onward w.sync me p p' := by
  unfold stride at h
  split at h
  · rename_i clock
    split at h
    · exact Or.inl ⟨clock, (Option.some.inj h).symm⟩
    · exact Or.inr (onward_advance (w := w.setLooks me _) h)
  · exact Or.inr (onward_advance h)

end World

end Turnstile
