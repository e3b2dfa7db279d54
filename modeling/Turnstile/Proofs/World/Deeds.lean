import Turnstile.Proofs.World.Heard
import Turnstile.Proofs.World.Turns

/-! What one step can do to the queue of a synchronizer and to the conditions, all told. -/
namespace Turnstile

def Operation.condition : Operation → Option (SyncId × ConditionId)
  | .wait s c _ | .errand s c _ => some (s, c)
  | _ => none

def Claim.condition (c : Claim) : Option (SyncId × ConditionId) :=
  match c.purpose with
  | .operation _ => none
  | .afterWait v => some (v.terms.sync, v.terms.condition)

/-- The condition that the actor may yet change, with its synchronizer. -/
def Position.condition : Position → Option (SyncId × ConditionId)
  | .call (.turn q) _ => q.claim.condition
  | .call (.wait t) _ | .call (.letGo t ..) _ => some (t.sync, t.condition)
  | .call (.errand s c _) _ => some (s, c)
  | _ => none

section

variable {op : Operation} {p : Position} {x : SyncId × ConditionId}

theorem Claim.Of.condition {c : Claim} (of : c.Of op) (h : c.condition = some x) :
    op.condition = some x ∧ x.1 = c.sync := by
  unfold Claim.Of at of
  unfold Claim.condition at h
  split at h
  · simp at h
  · rename_i v purpose
    rw [purpose] at of
    obtain ⟨⟨_, style, rfl, -⟩, eq⟩ := of
    obtain rfl := Option.some.inj h
    exact ⟨rfl, by rw [eq]; rfl⟩

/-- An operation keeps to its condition. -/
theorem Position.Of.condition (of : p.Of op) (h : p.condition = some x) : op.condition = some x := by
  cases p with
  | call site stage =>
    cases site with
    | turn q => exact (Claim.Of.condition of h).1
    | wait t | letGo t n saved =>
      obtain ⟨_, style, rfl, -⟩ : t.Of op := of
      obtain rfl := Option.some.inj h
      rfl
    | errand s c e =>
      obtain rfl : op = _ := of
      exact h
    | _ => simp [Position.condition] at h
  | _ => simp [Position.condition] at h

end

namespace Condition

theorem owner_prune (c : Condition) (q : WaitQueue) : (c.prune q).1.owner = c.owner := rfl

theorem owner_signalAll (c : Condition) (q : WaitQueue) : (c.signalAll q).1.owner = c.owner := rfl

theorem owner_join (c : Condition) (q : WaitQueue) (a : ActorId) : (c.join q a).1.owner = c.owner := by
  unfold join
  dsimp only
  split
  · split <;> rfl
  · split <;> rfl

theorem owner_signalFrom (c : Condition) (q : WaitQueue) (ns : List NodeId) :
    (c.signalFrom q ns).1.owner = c.owner := by
  induction ns generalizing c q with
  | nil => rfl
  | cons n rest ih =>
    unfold signalFrom
    dsimp only
    split
    · rfl
    · exact ih _ _

end Condition

/-- What an actor may do to the queue of a synchronizer, and to conditions, by a step from a position. -/
inductive Deed (queue : SyncId → WaitQueue) (conditions : Table Condition) (me : ActorId) :
    Position → SyncId → WaitQueue → Table Condition → Prop
  | rest {p s} : Deed queue conditions me p s (queue s) conditions
  | join {c} : Deed queue conditions me (.queueing c) c.sync ((queue c.sync).join c.mode me).1 conditions
  | ready {q} : Deed queue conditions me (.lingering q) q.claim.sync
      ((queue q.claim.sync).readyToPark q.node).1 conditions
  | withdraw {p q} (place : p.place = some q) : Deed queue conditions me p q.claim.sync
      ((queue q.claim.sync).withdraw q.node).1 conditions
  | turn {q v q'} (granted : v.isGrant = true)
      (cut : ∀ h, ((queue q.claim.sync).node q.node).prev = some h →
        q' = (World.turned (queue q.claim.sync) q v).1.setNext h none) :
      Deed queue conditions me (.call (.turn q) (.answered (.ok v))) q.claim.sync q' conditions
  /-- A wait that takes its turn may drop dead nodes from its condition. -/
  | finish {q v q' c} (granted : v.isGrant = true)
      (cut : ∀ h, ((queue q.claim.sync).node q.node).prev = some h →
        q' = (World.turned (queue q.claim.sync) q v).1.setNext h none)
      (about : q.claim.condition = some (q.claim.sync, c)) :
      Deed queue conditions me (.call (.turn q) (.answered (.ok v))) q.claim.sync
        ((conditions.get c).prune q').2 (conditions.modify c fun _ => ((conditions.get c).prune q').1)
  | serve {p s q'} (releasing : p.releasing s = true)
      (served : q' = (queue s).wakeFirst.1 ∨ q' = (queue s).wakeShared.1) :
      Deed queue conditions me p s q' conditions
  | drop {t n saved answer} (failed : grants answer = false) :
      Deed queue conditions me (.call (.letGo t n saved) (.answered answer)) t.sync
        ((queue t.sync).setStatus n .cancelled) conditions
  | transfer {p v} (awaits : p = .dozing v ∨ p = .awoken v) : Deed queue conditions me p v.terms.sync
      ((queue v.terms.sync).transferUnsignalled v.node).1 conditions
  | enter {t v} (granted : v.isGrant = true) :
      Deed queue conditions me (.call (.wait t) (.answered (.ok v))) t.sync
        ((conditions.get t.condition).join (queue t.sync) me).2.1
        (conditions.modify t.condition fun _ =>
          ((conditions.get t.condition).join (queue t.sync) me).1)
  | signal {s c v} (granted : v.isGrant = true) :
      Deed queue conditions me (.call (.errand s c .signal) (.answered (.ok v))) s
        ((conditions.get c).signal (queue s)).2.1
        (conditions.modify c fun _ => ((conditions.get c).signal (queue s)).1)
  | signalAll {s c v} (granted : v.isGrant = true) :
      Deed queue conditions me (.call (.errand s c .signalAll) (.answered (.ok v))) s
        ((conditions.get c).signalAll (queue s)).2.1
        (conditions.modify c fun _ => ((conditions.get c).signalAll (queue s)).1)

namespace World

variable {s : SyncId} {w w' : World} {me : ActorId} {p : Position} {op : Operation}

theorem conditions_endPark (w : World) (a : ActorId) : (w.endPark a).conditions = w.conditions := by
  unfold endPark
  split <;> rfl

@[simp] theorem conditions_wakeAll (w : World) (as : List ActorId) :
    (w.wakeAll as).conditions = w.conditions := by
  induction as generalizing w with
  | nil => rfl
  | cons a rest ih => exact (ih (w.wake a)).trans (conditions_endPark _ a)

@[simp] theorem conditions_apply (w : World) (t : SyncId) (r : WaitQueue × Option ActorId) :
    (w.apply t r).conditions = w.conditions :=
  conditions_wakeAll _ _

@[simp] theorem conditions_modifyToken (w : World) (t : Option TokenId) (f : Token → Token) :
    (w.modifyToken t f).conditions = w.conditions := by
  cases t <;> rfl

/-- The step does one of these deeds at the synchronizer, or what it does to conditions it does for another
one. -/
def Acts (s : SyncId) (w : World) (me : ActorId) (p : Position) (w' : World) : Prop :=
  (∃ q' cs, Deed w.queue w.conditions me p s q' cs ∧ w'.queue s = q' ∧ w'.conditions = cs) ∨
  (w'.queue s = w.queue s ∧ w'.conditions.size = w.conditions.size ∧
    ∀ c, w'.condition c = w.condition c ∨ ((w'.condition c).owner = (w.condition c).owner ∧
      ∃ t, p.condition = some (t, c) ∧ t ≠ s))

namespace Acts

theorem rest (queue : w'.queue s = w.queue s) (conditions : w'.conditions = w.conditions) :
    Acts s w me p w' :=
  Or.inl ⟨_, _, .rest, queue, conditions⟩

theorem of_syncs (syncs : w'.syncs = w.syncs) (conditions : w'.conditions = w.conditions) :
    Acts s w me p w' :=
  rest (queue_congr syncs) conditions

/-- What is done to the queue alone. -/
theorem of_queue {t : SyncId} {q' : WaitQueue} (inTable : s < w.syncs.size)
    (deed : Deed w.queue w.conditions me p t q' w.conditions)
    (queue : w'.queue s = (w.setQueue t q').queue s) (conditions : w'.conditions = w.conditions) :
    Acts s w me p w' := by
  rw [queue_setQueue] at queue
  by_cases here : t = s
  · subst here
    rw [if_pos ⟨rfl, inTable⟩] at queue
    exact Or.inl ⟨q', _, deed, queue, conditions⟩
  · rw [if_neg fun h => here h.1] at queue
    exact rest queue conditions

theorem of_condition {t : SyncId} {r : WaitQueue} {c : ConditionId} {x : Condition}
    (inTable : s < w.syncs.size) (about : p.condition = some (t, c)) (owner : x.owner = (w.condition c).owner)
    (deed : t = s → Deed w.queue w.conditions me p t r (w.conditions.modify c fun _ => x))
    (queue : w'.queue s = (w.setQueue t r).queue s)
    (conditions : w'.conditions = w.conditions.modify c fun _ => x) : Acts s w me p w' := by
  rw [queue_setQueue] at queue
  by_cases here : t = s
  · subst here
    rw [if_pos ⟨rfl, inTable⟩] at queue
    exact Or.inl ⟨r, _, deed rfl, queue, conditions⟩
  · rw [if_neg fun h => here h.1] at queue
    refine Or.inr ⟨queue, by rw [conditions, Table.size_modify], fun d => ?_⟩
    by_cases mine : c = d
    · subst mine
      refine Or.inr ⟨?_, t, about, here⟩
      rw [World.condition, conditions, Table.get_modify]
      split
      · exact owner
      · rfl
    · refine Or.inl ?_
      rw [World.condition, conditions]
      exact Table.get_modify_of_ne _ _ mine

theorem of_token {x : Option TokenId} {f : Token → Token} (acts : Acts s (w.modifyToken x f) me p w') :
    Acts s w me p w' := by
  have queue : (w.modifyToken x f).queue = w.queue := funext fun t => queue_modifyToken w t x f
  have conditions := w.conditions_modifyToken x f
  unfold Acts World.condition at acts ⊢
  rwa [queue, conditions] at acts

end Acts

theorem apply_queue (w : World) (s t : SyncId) (r : WaitQueue × Option ActorId) :
    (w.apply t r).queue s = (w.setQueue t r.1).queue s := by
  rw [queue_apply, queue_setQueue]

theorem acts_start (op : Operation) : Acts s w me (.start op) (w.startOperation me op).1 := by
  have registers : ∀ patience site, Acts s w me (.start op) (w.registerThen me patience site).1 := by
    intro patience site
    unfold registerThen
    dsimp only
    split
    · exact .of_syncs (by rw [takeFlag, syncs_modifyToken, register, syncs_modifyToken])
        (by rw [takeFlag, conditions_modifyToken, register, conditions_modifyToken])
    · exact .of_syncs (syncs_modifyToken _ _ _) (conditions_modifyToken _ _ _)
  have writes : ∀ t (f : Synchronizer → Synchronizer), (∀ x, (f x).queue = x.queue) →
      Acts s w me (.start op) (w.modifySync t f) := by
    intro t f keeps
    refine .rest ?_ rfl
    rw [queue, queue, sync_modifySync]
    split
    · exact keeps _
    · rfl
  cases op with
  | acquire _ _ _ style => cases style <;> exact registers _ _
  | wait _ _ style =>
    simp only [startOperation]
    split
    · exact registers _ _
    · exact .rest rfl rfl
  | errand =>
    simp only [startOperation]
    split <;> exact .rest rfl rfl
  | exchangeState =>
    simp only [startOperation]
    split
    · exact writes _ _ fun _ => rfl
    · exact .rest rfl rfl
  | setState | setOwner | claimOwner => exact writes _ _ fun _ => rfl
  | cancel t =>
    cases t with
    | none => exact .rest rfl rfl
    | some x => exact .of_syncs ((syncs_wakeAll _ _).trans rfl) ((conditions_wakeAll _ _).trans rfl)
  | _ => exact .rest rfl rfl

theorem acts_abandon (inTable : s < w.syncs.size) {q : Queued} (place : p.place = some q) (v : Value) :
    Acts s w me p (w.abandon q v).1 := by
  obtain ⟨v', eq⟩ := w.abandon_eq q v
  rw [eq]
  exact .of_queue inTable (.withdraw place) (apply_queue w _ _ _) (conditions_apply w _ _)

/-- Once it holds its synchronizer again, a wait drops dead nodes from its condition at most. -/
theorem endWait_tidies (w : World) (v : Waiting) :
    ∃ w₁, (w₁ = w ∨ w₁ = w.prune v.terms.sync v.terms.condition) ∧
      (w.endWait v).1.syncs = w₁.syncs ∧ (w.endWait v).1.conditions = w₁.conditions := by
  unfold endWait
  extract_lets t linked w₁ w₂
  have restored : w₂.syncs = w₁.syncs ∧ w₂.conditions = w₁.conditions := by
    unfold w₂
    split
    · exact ⟨syncs_modifyToken _ _ _, conditions_modifyToken _ _ _⟩
    · exact ⟨rfl, rfl⟩
  refine ⟨w₁, ?_, ?_⟩
  · unfold w₁
    split
    · exact Or.inr rfl
    · exact Or.inl rfl
  · split
    · exact restored
    · split <;> exact restored

theorem conclude_tidies (w : World) (c : Claim) (swallowed : Bool) :
    ∃ w₁, (w₁ = w ∨ ∃ t d, c.condition = some (t, d) ∧ w₁ = w.prune t d) ∧
      (w.conclude c swallowed).1.syncs = w₁.syncs ∧
      (w.conclude c swallowed).1.conditions = w₁.conditions := by
  unfold conclude Claim.condition
  cases c.purpose with
  | operation timed =>
    refine ⟨w, Or.inl rfl, ?_⟩
    dsimp only
    split
    · exact ⟨syncs_modifyToken _ _ _, conditions_modifyToken _ _ _⟩
    · exact ⟨rfl, rfl⟩
  | afterWait v =>
    obtain ⟨w₁, pruned, syncs, conditions⟩ := w.endWait_tidies (v.settled swallowed)
    rw [(v.settled_same swallowed).1] at pruned
    exact ⟨w₁, pruned.imp_right fun eq => ⟨_, _, rfl, eq⟩, syncs, conditions⟩

theorem acts_takeTurn (inTable : s < w.syncs.size) {q : Queued} (of : q.claim.Of op) {v : Verdict}
    (granted : v.isGrant = true) :
    Acts s w me (.call (.turn q) (.answered (.ok v))) (w.takeTurn q v).1 := by
  obtain ⟨q', eq, cut⟩ := w.takeTurn_eq q v
  rw [eq]
  set w₁ := w.apply q.claim.sync (q', (turned (w.queue q.claim.sync) q v).2) with hw₁
  have unchanged : w₁.conditions = w.conditions := conditions_apply w _ _
  have size : w₁.syncs.size = w.syncs.size :=
    (Beside.apply w _ : Beside s me false w (w.apply q.claim.sync _)).syncs
  obtain ⟨w₂, pruned, syncs, conditions⟩ := w₁.conclude_tidies q.claim q.swallowed
  have queue : (w₁.conclude q.claim q.swallowed).1.queue s = w₂.queue s :=
    queue_congr syncs
  rcases pruned with rfl | ⟨t, c, about, rfl⟩
  · exact .of_queue inTable (.turn granted cut) (queue.trans (apply_queue w _ _ _))
      (conditions.trans unchanged)
  · obtain rfl : t = q.claim.sync := (Claim.Of.condition of about).2
    have same : w₁.condition c = w.conditions.get c := congrArg (·.get c) unchanged
    refine .of_condition (t := q.claim.sync) (r := ((w₁.condition c).prune (w₁.queue q.claim.sync)).2)
      (c := c) (x := ((w₁.condition c).prune (w₁.queue q.claim.sync)).1) inTable about ?_ ?_ ?_ ?_
    · exact (Condition.owner_prune _ _).trans (congrArg Condition.owner same)
    · rintro rfl
      rw [hw₁, queue_apply_self inTable, ← hw₁, same]
      exact .finish granted cut about
    · rw [queue]
      change (w₁.setQueue q.claim.sync _).queue s = _
      rw [queue_setQueue, queue_setQueue, size]
      split
      · rfl
      · rename_i elsewhere
        rw [hw₁, queue_apply, if_neg elsewhere]
    · rw [conditions]
      change w₁.conditions.modify c _ = _
      rw [unchanged]
      rfl

theorem acts_errand (inTable : s < w.syncs.size) {t : SyncId} {c : ConditionId} {e : Errand} {v : Verdict}
    (granted : v.isGrant = true) :
    Acts s w me (.call (.errand t c e) (.answered (.ok v))) (w.runErrand t c e).1 := by
  cases e with
  | signal =>
    refine .of_condition inTable rfl (Condition.owner_signalFrom _ _ _) (fun _ => Deed.signal granted) ?_
      (conditions_wakeAll _ _)
    exact queue_congr (syncs_wakeAll _ _)
  | signalAll =>
    refine .of_condition inTable rfl (Condition.owner_signalAll _ _) (fun _ => Deed.signalAll granted) ?_
      (conditions_wakeAll _ _)
    exact queue_congr (syncs_wakeAll _ _)
  | _ => exact .rest rfl rfl

theorem acts_resolve (inTable : s < w.syncs.size) {site : Site} {answer : Except SyncError Verdict}
    (of : site.Of op) : Acts s w me (.call site (.answered answer)) (w.resolve me site answer).1 := by
  cases answer with
  | error e =>
    cases site with
    | turn q => exact acts_abandon inTable rfl _
    | letGo t n saved => exact .of_queue inTable (.drop rfl) rfl rfl
    | _ => exact .rest rfl rfl
  | ok v =>
    unfold resolve
    dsimp only
    split
    · rename_i granted
      cases site with
      | attempt c =>
        obtain ⟨w₁, pruned, syncs, conditions⟩ := w.conclude_tidies c false
        obtain ⟨-, timed, purpose⟩ := of
        obtain rfl : w₁ = w := pruned.resolve_right (by simp [Claim.condition, purpose])
        exact .of_syncs syncs conditions
      | turn q => exact acts_takeTurn inTable of granted
      | release t mode arg =>
        have releasing : (Position.call (.release t mode arg) (.answered (.ok v))).releasing t = true := by
          simp [Position.releasing, Stage.granted, grants, granted]
        cases mode with
        | exclusive =>
          exact .of_queue inTable (.serve releasing (Or.inl rfl)) (apply_queue w _ _ _) (conditions_apply w _ _)
        | shared =>
          exact .of_queue inTable (.serve releasing (Or.inr rfl)) (apply_queue w _ _ _) (conditions_apply w _ _)
      | isHeld t => exact .rest rfl rfl
      | wait t =>
        exact .of_condition inTable rfl (Condition.owner_join _ _ _) (fun _ => Deed.enter granted) rfl rfl
      | letGo t n saved =>
        have releasing : (Position.call (.letGo t n saved) (.answered (.ok v))).releasing t.sync = true := by
          simp [Position.releasing, Stage.granted, grants, granted]
        exact .of_queue inTable (.serve releasing (Or.inl rfl)) (apply_queue w _ _ _) (conditions_apply w _ _)
      | errand t c e => exact acts_errand inTable granted
    · rename_i refused
      cases site with
      | letGo t n saved => exact .of_queue inTable (.drop (by simpa [grants] using refused)) rfl rfl
      | _ => exact .rest rfl rfl

theorem acts_park (w : World) (me : ActorId) (p' : Position) (token : Option TokenId) (timeout : Option Span) :
    (∀ s, (w.park me token timeout p').1.queue s = w.queue s) ∧
      (w.park me token timeout p').1.conditions = w.conditions := by
  unfold park
  split
  · exact ⟨fun _ => rfl, rfl⟩
  · dsimp only
    split <;> exact ⟨fun _ => rfl, rfl⟩

theorem acts_linger (inTable : s < w.syncs.size) (q : Queued) :
    Acts s w me (.lingering q) (w.linger me q).1 := by
  have readied : ∀ w', (w'.queue s = (w.setQueue q.claim.sync
      ((w.queue q.claim.sync).readyToPark q.node).1).queue s) → w'.conditions = w.conditions →
      Acts s w me (.lingering q) w' := fun _ => .of_queue inTable .ready
  unfold linger
  extract_lets left
  split
  · exact acts_abandon inTable rfl _
  · dsimp only
    split
    · exact readied _ rfl rfl
    · exact readied _ rfl rfl
    · split
      · exact readied _ rfl rfl
      · obtain ⟨queue, conditions⟩ := acts_park
          (w.setQueue q.claim.sync ((w.queue q.claim.sync).readyToPark q.node).1) me (.roused q)
          q.claim.patience.token left
        exact readied _ (queue s) conditions

theorem acts_rouse (inTable : s < w.syncs.size) (q : Queued) :
    Acts s w me (.roused q) (w.rouse q).1 := by
  refine .of_token (x := q.claim.patience.token) (f := (·.take.1)) ?_
  unfold rouse takeFlag
  split
  · rename_i w' e
    obtain ⟨rfl, -⟩ := Prod.mk.inj e
    exact .rest rfl rfl
  · rename_i w' e
    obtain ⟨rfl, -⟩ := Prod.mk.inj e
    split
    · exact acts_abandon (by rwa [syncs_modifyToken]) rfl _
    · exact .rest rfl rfl

theorem acts_doze (inTable : s < w.syncs.size) (v : Waiting) :
    Acts s w me (.dozing v) (w.doze me v).1 := by
  unfold doze
  extract_lets t left
  split
  · exact .of_queue inTable (.transfer (Or.inl rfl)) rfl rfl
  · split
    · exact .rest rfl rfl
    · obtain ⟨queue, conditions⟩ := acts_park w me (.awoken v) t.patience.token left
      exact .rest (queue s) conditions

theorem acts_awake (inTable : s < w.syncs.size) (v : Waiting) :
    Acts s w me (.awoken v) (w.awake v).1 := by
  refine .of_token (x := v.terms.patience.token) (f := (·.take.1)) ?_
  unfold awake takeFlag
  extract_lets t
  split
  · rename_i w' e
    obtain ⟨rfl, -⟩ := Prod.mk.inj e
    exact .rest rfl rfl
  · rename_i w' e
    obtain ⟨rfl, -⟩ := Prod.mk.inj e
    split
    · exact .of_queue (by rwa [syncs_modifyToken]) (.transfer (Or.inr rfl)) rfl rfl
    · exact .rest rfl rfl

/-- Every step does one of these deeds. -/
theorem acts_advance (inTable : s < w.syncs.size) (of : p.Of op) : Acts s w me p (w.advance me p).1 := by
  cases p with
  | start op => exact acts_start op
  | call site stage =>
    cases stage with
    | arriving | leaving answer =>
      unfold advance callHook trip
      dsimp only
      split
      all_goals
        rename_i e
        obtain ⟨rfl, -⟩ := Prod.mk.inj e
        exact .rest rfl rfl
    | entering => exact .rest (queue_ask w _ _ _ _ _) rfl
    | answered answer => exact acts_resolve inTable of
  | queueing c =>
    unfold advance
    dsimp only
    split
    · exact .rest rfl rfl
    · exact .of_queue inTable .join rfl rfl
  | turn q =>
    unfold advance World.turn
    dsimp only
    split
    · exact .rest rfl rfl
    · split <;> exact .rest rfl rfl
  | lingering q => exact acts_linger inTable q
  | roused q => exact acts_rouse inTable q
  | waiting v =>
    unfold advance
    dsimp only
    split <;> exact .rest rfl rfl
  | dozing v => exact acts_doze inTable v
  | awoken v => exact acts_awake inTable v
  | reckoning => exact .rest rfl rfl

theorem Acts.owner (acts : Acts s w me p w') (c : ConditionId) :
    (w'.condition c).owner = (w.condition c).owner := by
  have modified : ∀ (d : ConditionId) (x : Condition), x.owner = (w.conditions.get d).owner →
      w'.conditions = w.conditions.modify d (fun _ => x) →
      (w'.condition c).owner = (w.condition c).owner := by
    intro d x owner conditions
    rw [World.condition, conditions, Table.get_modify]
    split
    · rename_i here
      rw [owner, here.1]
      rfl
    · rfl
  rcases acts with ⟨q', cs, deed, -, conditions⟩ | ⟨-, -, others⟩
  · cases deed with
    | finish => exact modified _ _ (Condition.owner_prune _ _) conditions
    | signalAll => exact modified _ _ (Condition.owner_signalAll _ _) conditions
    | enter => exact modified _ _ (Condition.owner_join _ _ _) conditions
    | signal => exact modified _ _ (Condition.owner_signalFrom _ _ _) conditions
    | _ => rw [World.condition, conditions]; rfl
  · rcases others c with same | ⟨owner, -⟩
    · rw [same]
    · exact owner

theorem Acts.size (acts : Acts s w me p w') : w'.conditions.size = w.conditions.size := by
  rcases acts with ⟨q', cs, deed, -, conditions⟩ | ⟨-, size, -⟩
  · rw [conditions]
    clear conditions
    cases deed with
    | finish | enter | signal | signalAll => exact Table.size_modify _ _ _
    | _ => rfl
  · exact size

/-- Everyone is busy with an operation, and those that are about a condition have made sure that it belongs
to their synchronizer. -/
def Tasked (w : World) : Prop :=
  ∀ a p, (w.actor a).position = some p → ∃ op, p.Of op ∧
    ((∀ op', p ≠ .start op') → ∀ t c, op.condition = some (t, c) → (w.condition c).owner = t)

theorem conditions_endParks (w : World) (as : List ActorId) :
    (as.foldl endPark w).conditions = w.conditions := by
  induction as generalizing w with
  | nil => rfl
  | cons b rest ih => exact (ih (w.endPark b)).trans (w.conditions_endPark b)

/-- But for steps, nothing that happens touches queues or conditions. -/
theorem unsteps_cases (w : World) (e : Event) :
    (∃ a p, e = .step a ∧ (w.actor a).activity = .busy .running p) ∨
      ((∀ s, (w.happen e).queue s = w.queue s) ∧ (w.happen e).conditions = w.conditions) := by
  cases e with
  | begin b op =>
    refine Or.inr ⟨fun _ => queue_congr (w.solely_begin b op).syncs, ?_⟩
    change (w.begin b op).conditions = _
    unfold World.begin
    split <;> rfl
  | resume b =>
    refine Or.inr ⟨fun _ => queue_congr (w.solely_resume b).syncs, ?_⟩
    change (w.resume b).conditions = _
    unfold World.resume
    split
    · rename_i st p busy
      cases st <;> rfl
    · rfl
  | step b =>
    by_cases running : ∃ p, (w.actor b).activity = .busy .running p
    · obtain ⟨p, running⟩ := running
      exact Or.inl ⟨b, p, rfl, running⟩
    · rw [happen, step_of_not_running fun p hp => running ⟨p, hp⟩]
      exact Or.inr ⟨fun _ => rfl, rfl⟩
  | elapse d =>
    exact Or.inr ⟨fun _ => queue_congr (endParks_syncs _ { w with now := w.now + d }),
      conditions_endParks { w with now := w.now + d } _⟩
  | cancel t => exact Or.inr ⟨fun _ => queue_congr (syncs_wakeAll _ _), conditions_wakeAll _ _⟩
  | wake b => exact Or.inr ⟨fun _ => queue_congr (w.syncs_wake b), conditions_endPark _ b⟩
  | breakHook s h f times =>
    refine Or.inr ⟨fun t => ?_, rfl⟩
    rw [happen, queue, queue, sync_modifySync]
    split <;> rfl
  | take | arm | order => exact Or.inr ⟨fun _ => rfl, rfl⟩

theorem queue_looked_eq (w : World) (me : ActorId) (p : Position) :
    (w.looked me p).queue = w.queue ∧ (w.looked me p).conditions = w.conditions := by
  refine ⟨funext fun s => queue_looked w me p s, ?_⟩
  unfold looked
  split <;> rfl

/-- A step does nothing to the queue and to conditions but what the deeds are. -/
theorem acts_step (inTable : s < w.syncs.size) (running : (w.actor me).activity = .busy .running p)
    (of : p.Of op) : Acts s w me p (w.step me).1 := by
  rw [step_eq running]
  rcases w.stride_course me p with ⟨-, -, eq⟩ | ⟨eq, -⟩
  · rw [eq]
    exact .rest rfl rfl
  · rw [eq]
    have acts : Acts s (w.looked me p) me p ((w.looked me p).advance me p).1 :=
      acts_advance (by simpa using inTable) of
    obtain ⟨queue, conditions⟩ := w.queue_looked_eq me p
    unfold Acts World.condition at acts ⊢
    rwa [queue, conditions] at acts

/-- An operation goes on from its start only if the condition belongs to the synchronizer. -/
theorem owner_of_start {t : SyncId} {c : ConditionId} {p' : Position} (about : op.condition = some (t, c))
    (next : (w.startOperation me op).2.position = some p') : (w.condition c).owner = t := by
  cases op with
  | wait | errand =>
    obtain ⟨rfl, rfl⟩ := Prod.mk.inj (Option.some.inj about)
    simp only [startOperation] at next
    split at next
    · rename_i owns
      exact eq_of_beq owns
    · simp [Next.position] at next
  | _ => simp [Operation.condition] at about

namespace Tasked

theorem owner_happen (h : Tasked w) (inTable : s < w.syncs.size) (e : Event) (c : ConditionId) :
    ((w.happen e).condition c).owner = (w.condition c).owner := by
  rcases w.unsteps_cases e with ⟨a, p, rfl, running⟩ | ⟨-, conditions⟩
  · obtain ⟨op, of, -⟩ := h a p (Actor.position_of_busy running)
    exact (acts_step inTable running of).owner c
  · rw [World.condition, conditions]
    rfl

theorem size_happen (h : Tasked w) (inTable : s < w.syncs.size) (e : Event) :
    (w.happen e).conditions.size = w.conditions.size := by
  rcases w.unsteps_cases e with ⟨a, p, rfl, running⟩ | ⟨-, conditions⟩
  · obtain ⟨op, of, -⟩ := h a p (Actor.position_of_busy running)
    exact (acts_step inTable running of).size
  · rw [conditions]

/-- Whoever may yet change a condition has made sure whose it is. -/
theorem owner (h : Tasked w) (running : (w.actor me).activity = .busy .running p) {t : SyncId}
    {c : ConditionId} (about : p.condition = some (t, c)) : (w.condition c).owner = t := by
  obtain ⟨op, of, owned⟩ := h me p (Actor.position_of_busy running)
  refine owned ?_ t c (of.condition about)
  rintro op' rfl
  simp [Position.condition] at about

theorem happen (h : Tasked w) (inTable : s < w.syncs.size) (e : Event) : Tasked (w.happen e) := by
  have owner := h.owner_happen inTable e
  intro a p' hp
  rcases w.position_cases a hp with ⟨before, -⟩ | ⟨op, -, -, rfl⟩ | ⟨p, rfl, running, course, next⟩
  · obtain ⟨op, of, owned⟩ := h a p' before
    exact ⟨op, of, fun begun t c about => (owner c).trans (owned begun t c about)⟩
  · exact ⟨op, rfl, fun begun => absurd rfl (begun op)⟩
  · obtain ⟨op, of, owned⟩ := h a p (Actor.position_of_busy running)
    refine ⟨op, course.of of next, fun _ t c about => (owner c).trans ?_⟩
    by_cases starts : ∃ op', p = .start op'
    · obtain ⟨op', rfl⟩ := starts
      obtain rfl : op' = op := of
      exact owner_of_start about next
    · exact owned (fun op' e => starts ⟨op', e⟩) t c about

theorem create {actors tokens : Nat} {syncs : List Synchronizer} {conditions : List SyncId} :
    Tasked (World.create actors tokens syncs conditions) :=
  fun a p hp => absurd hp (position_create actors tokens syncs conditions a p)

/-- Whatever happens, the queue and its conditions stay as they are but for one deed. -/
theorem deeds (h : Tasked w) (inTable : s < w.syncs.size) (e : Event) :
    ((w.happen e).queue s = w.queue s ∧
      ∀ c, (w.condition c).owner = s → (w.happen e).condition c = w.condition c) ∨
    ∃ a p q' cs, e = .step a ∧ (w.actor a).activity = .busy .running p ∧
      Deed w.queue w.conditions a p s q' cs ∧ (w.happen e).queue s = q' ∧ (w.happen e).conditions = cs := by
  rcases w.unsteps_cases e with ⟨a, p, rfl, running⟩ | ⟨queue, conditions⟩
  · obtain ⟨op, of, -⟩ := h a p (Actor.position_of_busy running)
    rcases acts_step inTable running of with ⟨q', cs, deed, queue, conditions⟩ | ⟨queue, -, others⟩
    · exact Or.inr ⟨a, p, q', cs, rfl, running, deed, queue, conditions⟩
    · refine Or.inl ⟨queue, fun c owner => (others c).resolve_right ?_⟩
      rintro ⟨-, t, about, elsewhere⟩
      exact elsewhere ((h.owner running about).symm.trans owner)
  · exact Or.inl ⟨queue s, fun c _ => congrArg (·.get c) conditions⟩

end Tasked

end World

end Turnstile
