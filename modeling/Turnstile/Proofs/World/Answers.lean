import Turnstile.Proofs.World.Moves

/-! What an actor does with the answer of a hook. -/
namespace Turnstile

open WaitQueue (Shaped Alike Change Passes)

namespace World

variable {s : SyncId} {w : World} {me : ActorId} {p : Position} {h : NodeId} {body : List NodeId}

theorem queue_apply_self (hs : s < w.syncs.size) (r : WaitQueue × Option ActorId) :
    (w.apply s r).queue s = r.1 := by
  rw [queue_apply, if_pos ⟨rfl, hs⟩]

theorem queue_apply_of_ne {t : SyncId} (ne : t ≠ s) (r : WaitQueue × Option ActorId) :
    (w.apply t r).queue s = w.queue s := by
  rw [queue_apply, if_neg fun e => ne e.1]

theorem alert_of_toList {r : WaitQueue × Option ActorId} {t : SyncId} :
    ∀ a ∈ r.2.toList, a < w.actors.size → ((w.apply t r).actor a).Alert := by
  intro a ha lt
  exact apply_alert (Option.mem_toList.1 ha) lt

theorem abandon_eq (w : World) (q : Queued) (v : Value) :
    ∃ v', w.abandon q v = (w.apply q.claim.sync (((w.queue q.claim.sync).withdraw q.node).1,
      ((w.queue q.claim.sync).withdraw q.node).2.1), .ends v') := by
  unfold abandon World.withdraw
  dsimp only
  split
  · rename_i e
    obtain ⟨rfl, -⟩ := Prod.mk.inj e
    exact ⟨_, rfl⟩
  · rename_i e
    obtain ⟨rfl, -⟩ := Prod.mk.inj e
    exact ⟨_, rfl⟩

/-- Giving up a place in the queue. -/
theorem moved_abandon (hs : s < w.syncs.size) (hq : Shaped (w.queue s) h body) {q : Queued} (v : Value)
    {called : Bool}
    (before : p.seat s = if q.claim.sync = s then .queued q.node q.claim.mode called else .none)
    (seat : (p.seat s).Held (w.queue s) me) (quiet : p.releasing s = false) :
    Moved s w me p (w.abandon q v) := by
  obtain ⟨v', eq⟩ := w.abandon_eq q v
  rw [eq]
  by_cases here : q.claim.sync = s
  · subst here
    rw [if_pos rfl] at before
    have node : (p.seat q.claim.sync).node = some q.node := by rw [before]; rfl
    have live : q.node ∈ (w.queue q.claim.sync).live := by
      rw [before] at seat
      exact seat.1
    have gone := hq.withdrawn live
    refine Moved.of_change (Beside.apply w _) (node ▸ gone.change hq live)
      (queue_apply_self hs _ ▸ Alike.refl _) alert_of_toList (Or.inr (Or.inr (gone.passes hq live)))
      (Or.inr fun m _ waits => (gone.waits m).2 waits) trivial (fun _ _ => rfl) (by simp)
      (by simp [quiet])
  · rw [if_neg here] at before
    exact Moved.aside hq (Beside.apply w _) (queue_apply_of_ne here _) before rfl (by simp)
      (by simp [quiet])

theorem queue_setQueue_self (hs : s < w.syncs.size) (q : WaitQueue) :
    (w.setQueue s q).queue s = q := by
  rw [queue_setQueue, if_pos ⟨rfl, hs⟩]

theorem queue_setQueue_of_ne {t : SyncId} (ne : t ≠ s) (q : WaitQueue) :
    (w.setQueue t q).queue s = w.queue s := by
  rw [queue_setQueue, if_neg fun e => ne e.1]

/-- A wait whose release came to nothing. -/
theorem moved_dropWait (hs : s < w.syncs.size) (hq : Shaped (w.queue s) h body) {t : WaitTerms}
    {n : NodeId} (e : SyncError)
    (before : p.seat s = if t.sync = s then .entering n else .none)
    (seat : (p.seat s).Held (w.queue s) me) (quiet : p.releasing s = false) :
    Moved s w me p (w.dropWait t n e) := by
  unfold dropWait
  by_cases here : t.sync = s
  · subst here
    rw [if_pos rfl] at before
    have node : (p.seat t.sync).node = some n := by rw [before]; rfl
    rw [before] at seat
    obtain ⟨change, passes⟩ := hq.change_drop seat.1
    refine Moved.of_change (Beside.setQueue w _) (node ▸ change)
      (queue_setQueue_self hs _ ▸ Alike.refl _) (by simp) (Or.inr (Or.inr passes))
      (Or.inr fun m hm waits => ?_) trivial (fun _ _ => rfl) (by simp) (by simp [quiet])
    have ne : m ≠ n := fun e => hm (by rw [node, e])
    simpa [ne] using waits
  · rw [if_neg here] at before
    exact Moved.aside hq (Beside.setQueue w _) (queue_setQueue_of_ne here _) before rfl (by simp)
      (by simp [quiet])

/-- Nobody's place in a queue is touched, and nobody is woken. -/
structure Tidied (w w' : World) : Prop where
  actors : w'.actors = w.actors
  beside : ∀ s me asks, Beside s me asks w w'
  alike : ∀ s, Alike (w.queue s) (w'.queue s)

namespace Tidied

variable {w' w'' : World}

theorem refl (w : World) : Tidied w w := ⟨rfl, fun _ _ _ => Beside.refl w, fun _ => Alike.refl _⟩

theorem trans (h : Tidied w w') (h' : Tidied w' w'') : Tidied w w'' :=
  ⟨h'.actors.trans h.actors, fun s me asks => (h.beside s me asks).trans (h'.beside s me asks),
    fun s => (h.alike s).trans (h'.alike s)⟩

theorem modifyToken (w : World) (x : Option TokenId) (f : Token → Token) :
    Tidied w (w.modifyToken x f) :=
  ⟨w.actors_modifyToken x f, fun _ _ _ => Beside.modifyToken w x f,
    fun s => queue_modifyToken w s x f ▸ Alike.refl _⟩

theorem prune (w : World) (t : SyncId) (c : ConditionId) : Tidied w (w.prune t c) := by
  refine ⟨rfl, fun _ _ _ => (Beside.setQueue w _).trans (Beside.of_eq rfl rfl), fun s => ?_⟩
  change Alike _ ((w.setQueue t _).queue s)
  rw [queue_setQueue]
  split
  · rename_i here
    rw [here.1]
    exact (w.condition c).alike_prune _
  · exact Alike.refl _

end Tidied

/-- The step ends an operation, or has only the clock left to look at. -/
structure Closes (w : World) (r : World × Next) : Prop where
  tidied : Tidied w r.1
  free : ∀ s, r.2.seat s = .none
  awake : ∀ permit called, r.2.sleepy permit called = false
  goes : ∀ st p', r.2 ≠ .stops st p'

theorem closes_endWait (w : World) (v : Waiting) : Closes w (w.endWait v) := by
  unfold endWait
  extract_lets t linked w₁ w₂
  have pruned : Tidied w w₁ := by
    unfold w₁
    split
    · exact Tidied.prune w _ _
    · exact Tidied.refl w
  have restored : Tidied w w₂ := by
    refine pruned.trans ?_
    unfold w₂
    split
    · exact Tidied.modifyToken w₁ _ _
    · exact Tidied.refl w₁
  split
  · exact ⟨restored, fun _ => rfl, fun _ _ => rfl, by simp⟩
  · split
    all_goals exact ⟨restored, fun _ => rfl, fun _ _ => rfl, by simp⟩

theorem closes_conclude (w : World) (c : Claim) (swallowed : Bool) :
    Closes w (w.conclude c swallowed) := by
  unfold conclude
  split
  · refine ⟨?_, fun _ => rfl, fun _ _ => rfl, by simp⟩
    dsimp only
    split
    · exact Tidied.modifyToken w _ _
    · exact Tidied.refl w
  · exact closes_endWait w _

theorem Closes.moved {r : World × Next} (hc : Closes w r) (hq : Shaped (w.queue s) h body)
    (before : p.seat s = .none) (quiet : p.releasing s = false) : Moved s w me p r :=
  Moved.apart hq (hc.tidied.beside s me _) (hc.tidied.alike s) before (hc.free s)
    (fun st p' e => absurd e (hc.goes st p')) (by simp [quiet])

/-- What becomes of the queue when a turn is taken. -/
def turned (q : WaitQueue) (c : Queued) (v : Verdict) : WaitQueue × Option ActorId :=
  match c.claim.mode with
  | .exclusive => (q.promote c.node, none)
  | .shared => q.promoteShared c.node (v == Verdict.cascading)

theorem takeTurn_eq (w : World) (q : Queued) (v : Verdict) :
    ∃ queue, w.takeTurn q v = (w.apply q.claim.sync
        (queue, (turned (w.queue q.claim.sync) q v).2)).conclude q.claim q.swallowed ∧
      ∀ p, ((w.queue q.claim.sync).node q.node).prev = some p →
        queue = (turned (w.queue q.claim.sync) q v).1.setNext p none := by
  unfold takeTurn turned
  dsimp only
  cases q.claim.mode with
  | exclusive => exact ⟨_, rfl, fun p hp => by rw [hp]⟩
  | shared => exact ⟨_, rfl, fun p hp => by rw [hp]⟩

theorem promoted_turned {q : WaitQueue} {c : Queued} {ys : List NodeId} (v : Verdict)
    (hq : Shaped q h (ys ++ [c.node])) (live : (q.node c.node).isLive) :
    q.Promoted ((turned q c v).1.setNext h none, (turned q c v).2) c.node := by
  unfold turned
  split
  · exact hq.promoted_exclusive live
  · exact hq.promoted_shared live _

/-- Where all are shared, a turn that is taken answers every request made to the node. -/
theorem lapsed_turned {q : WaitQueue} {c : Queued} {ys : List NodeId} (v : Verdict)
    (hq : Shaped q h (ys ++ [c.node])) (live : (q.node c.node).isLive) (mode : c.claim.mode = .shared)
    (shared : ∀ m ∈ q.live, (q.node m).mode = .shared)
    (waited : ((turned q c v).1.setNext h none).live ≠ []) :
    (((turned q c v).1.setNext h none).node c.node).status ≠ .signal := by
  have cut := promoted_turned v hq live
  have uncut := hq.promoted_promoteShared live (v == Verdict.cascading)
  have same := cut.live.symm.trans uncut.live
  have eq : (turned q c v).1 = (q.promoteShared c.node (v == Verdict.cascading)).1 := by
    rw [turned, mode]
  rw [WaitQueue.status_setNext, eq]
  refine hq.lapsed_promoteShared live shared _ ?_
  rw [← (List.cons.inj same).2]
  exact waited

theorem moved_takeTurn (hs : s < w.syncs.size) (hq : Shaped (w.queue s) h body) {q : Queued}
    {v : Verdict} (granted : v.isGrant = true)
    (seat : ((Position.call (.turn q) (.answered (.ok v))).seat s).Held (w.queue s) me) :
    Moved s w me (.call (.turn q) (.answered (.ok v))) (w.takeTurn q v) := by
  obtain ⟨queue, eq, cut⟩ := w.takeTurn_eq q v
  rw [eq]
  set w₁ := w.apply q.claim.sync (queue, (turned (w.queue q.claim.sync) q v).2) with hw₁
  have closes := closes_conclude w₁ q.claim q.swallowed
  have beside : Beside s me ((Position.call (.turn q) (.answered (.ok v))).asks s) w
      (w₁.conclude q.claim q.swallowed).1 :=
    (Beside.apply w _).trans (closes.tidied.beside s me _)
  by_cases here : q.claim.sync = s
  · subst here
    have before : (Position.call (.turn q) (.answered (.ok v))).seat q.claim.sync =
        .queued q.node q.claim.mode true := if_pos rfl
    rw [before] at seat
    obtain ⟨live, -, -, front⟩ := seat
    obtain ⟨hb, alive⟩ := hq.mem_live.1 live
    obtain ⟨ys, rfl⟩ := hq.split_of_prev hb (front rfl)
    have hh : (w.queue q.claim.sync).head = some h := hq.head_eq_of_mem hb
    obtain rfl := cut h ((front rfl).trans hh)
    have promoted := promoted_turned v hq alive
    have node : ((Position.call (.turn q) (.answered (.ok v))).seat q.claim.sync).node = some q.node := by
      rw [before]
      rfl
    have after : ((w₁.conclude q.claim q.swallowed).2.seat q.claim.sync).node = none := by
      rw [closes.free]
      rfl
    have alike := closes.tidied.alike q.claim.sync
    rw [hw₁, queue_apply_self hs] at alike
    refine Moved.of_change beside (by rw [node, after]; exact promoted.change hq) alike ?_ ?_ ?_
      (by rw [closes.free]; trivial) closes.awake closes.goes (by simp [Position.releasing])
    · intro a ha lt
      have alert : (w₁.actor a).Alert := alert_of_toList a ha lt
      have same : (w₁.conclude q.claim q.swallowed).1.actor a = w₁.actor a :=
        congrArg (·.get a) closes.tidied.actors
      rwa [same]
    · by_cases shared : q.claim.mode = .shared ∧
          ∀ m ∈ (w.queue q.claim.sync).live, ((w.queue q.claim.sync).node m).mode = .shared
      · exact Or.inr (Or.inr (promoted.passes (lapsed_turned v hq alive shared.1 shared.2)))
      · exact Or.inr (Or.inl ⟨q, by simp [Position.takes, granted], shared⟩)
    · exact Or.inr fun m _ waits => (promoted.waits m).2 waits
  · have before : (Position.call (.turn q) (.answered (.ok v))).seat s = .none := if_neg here
    have alike := closes.tidied.alike s
    rw [hw₁, queue_apply_of_ne here] at alike
    exact Moved.apart hq beside alike before (closes.free s) (fun st p' e => absurd e (closes.goes st p'))
      (by simp [Position.releasing])

/-- A release that was granted wakes whoever is first. -/
theorem moved_serve (hs : s < w.syncs.size) (hq : Shaped (w.queue s) h body) {t : SyncId}
    {f : WaitQueue → WaitQueue × Option ActorId} (served : ∀ h body, Shaped (w.queue s) h body →
      (w.queue s).Served (f (w.queue s))) {n : Next} (same : n.seat s = p.seat s)
    (free : t ≠ s → p.seat s = .none) (seat : (p.seat s).Held (w.queue s) me)
    (awake : ∀ permit called, n.sleepy permit called = false) (goes : ∀ st p', n ≠ .stops st p')
    (here : p.releasing s → t = s) : Moved s w me p (w.apply t (f (w.queue t)), n) := by
  by_cases e : t = s
  · subst e
    have done := served h body hq
    refine Moved.of_change (Beside.apply w _) (by rw [same]; exact done.change hq _)
      (queue_apply_self hs _ ▸ Alike.refl _) alert_of_toList (Or.inr (Or.inr done.passes))
      (Or.inr fun m _ waits => (done.waits m).2 waits) (by rw [same]; exact seat.served done) awake goes ?_
    intro _ k hk ne
    exact done.lapsed k (done.head.symm.trans hk) (done.live ▸ ne)
  · exact Moved.aside hq (Beside.apply w _) (queue_apply_of_ne e _) (free e) (same.trans (free e))
      (fun st p' eq => absurd eq (goes st p')) fun releasing => absurd (here releasing) e

theorem moved_enterCondition (hs : s < w.syncs.size) (hq : Shaped (w.queue s) h body) {t : WaitTerms}
    (before : p.seat s = .none) (quiet : p.releasing s = false) :
    Moved s w me p (w.enterCondition me t) := by
  unfold enterCondition
  dsimp only
  have beside : ∀ q c, Beside s me (p.asks s) w ((w.setQueue t.sync q).setCondition t.condition c) :=
    fun q c => (Beside.setQueue w q).trans (Beside.of_eq rfl rfl)
  have queue : ∀ q c, ((w.setQueue t.sync q).setCondition t.condition c).queue s =
      (w.setQueue t.sync q).queue s := fun _ _ => rfl
  by_cases here : t.sync = s
  · subst here
    obtain ⟨q₁, ha, hn, ha'⟩ := (w.condition t.condition).join_spec (w.queue t.sync) me
    have hq₁ := ha.shaped hq
    obtain ⟨change, passes⟩ := hq₁.change_create .exclusive me
    have node := q₁.node_create .exclusive .condition me
    have none : (p.seat t.sync).node = none := by rw [before]; rfl
    have after : ∀ saved, (Next.goes (.call (.letGo t q₁.nodes.size saved) .arriving)).seat t.sync =
        .entering q₁.nodes.size := fun saved => if_pos rfl
    rw [hn]
    refine Moved.of_change (beside _ _) (by rw [none, after]; exact Change.after_alike ha hq change)
      (by rw [queue, queue_setQueue_self hs]; exact ha') (by simp)
      (Or.inr (Or.inr (by rw [after]; exact passes.after_alike ha hq))) (Or.inr fun m _ waits => ?_)
      (by rw [after]; exact ⟨by rw [node], by rw [node], by rw [node]⟩) (fun _ _ => rfl) (by simp)
      (by simp [quiet])
    have waits₁ := (ha.status m).trans waits
    have old : m ≠ q₁.nodes.size := by
      rintro rfl
      rw [WaitQueue.node_of_size_le (Nat.le_refl _)] at waits₁
      simp at waits₁
    rwa [q₁.node_create_of_ne .exclusive .condition me old]
  · refine Moved.aside hq (beside _ _) ?_ before (if_neg here) (by simp) (by simp [quiet])
    rw [queue, queue_setQueue_of_ne here]

/-- An errand moves nodes of others at most. -/
theorem moved_errand (hs : s < w.syncs.size) (hq : Shaped (w.queue s) h body) {t : SyncId}
    {c : ConditionId} {e : Errand} (before : p.seat s = .none) (quiet : p.releasing s = false)
    (signals : t = s → p.signals s = true) :
    Moved s w me p ((w.runErrand t c e).1, .ends (w.runErrand t c e).2) := by
  have none : (p.seat s).node = none := by rw [before]; rfl
  have stay : ∀ v, Moved s w me p (w, .ends v) := fun v =>
    Moved.aside hq (Beside.refl w) rfl before rfl (by simp) (by simp [quiet])
  have signalled : ∀ (q : WaitQueue) (d : Condition) (as : List ActorId) (v : Value),
      (t = s → Change (w.queue s) q [] Option.none Option.none) →
      Moved s w me p (((w.setQueue t q).setCondition c d).wakeAll as, .ends v) := by
    intro q d as v change
    have set : Beside s me (p.asks s) w ((w.setQueue t q).setCondition c d) :=
      (Beside.setQueue w q).trans (Beside.of_eq rfl rfl)
    have beside := set.trans (Beside.wakeAll _ as)
    have queue : (((w.setQueue t q).setCondition c d).wakeAll as).queue s = (w.setQueue t q).queue s :=
      congrArg (fun x => (x.get s).queue) (syncs_wakeAll _ as)
    by_cases here : t = s
    · subst here
      rw [queue_setQueue_self hs] at queue
      exact Moved.of_change beside (by rw [none]; exact change rfl)
        (by rw [queue]; exact Alike.refl _) (by simp) (Or.inl (signals rfl)) (Or.inl (signals rfl))
        trivial (fun _ _ => rfl) (by simp) (by simp [quiet])
    · exact Moved.aside hq beside (queue.trans (queue_setQueue_of_ne here q)) before rfl (by simp)
        (by simp [quiet])
  cases e with
  | signal =>
    refine signalled _ _ _ _ ?_
    rintro rfl
    exact ((w.condition c).change_signalFrom hq _).1
  | signalAll =>
    refine signalled _ _ _ _ ?_
    rintro rfl
    exact (Condition.change_moveAll hq _).1
  | _ => exact stay _

theorem moved_refused (hq : Shaped (w.queue s) h body) {q : Queued} {v : Verdict}
    (refused : v.isGrant = false)
    (seat : ((Position.call (.turn q) (.answered (.ok v))).seat s).Held (w.queue s) me) :
    Moved s w me (.call (.turn q) (.answered (.ok v))) (w, .goes (.lingering q)) := by
  refine Moved.calm hq (Beside.refl w) (Alike.refl _) ?_ ?_ (by simp [Next.sleepy, Position.sleepy])
    (by simp) ?_ (by simp [Position.releasing])
  · simp only [Next.seat, Position.seat]
    split <;> rfl
  · simp only [Next.seat, Position.seat] at seat ⊢
    split
    · rename_i here
      rw [if_pos here] at seat
      exact ⟨seat.1, seat.2.1, seat.2.2.1, by simp⟩
    · trivial
  · intro n _ _ drowsy
    exact ⟨rfl, by simpa [Next.sleepy, Position.sleepy, Stage.refused, refused] using drowsy⟩

theorem moved_resolve (hs : s < w.syncs.size) (hq : Shaped (w.queue s) h body) (site : Site)
    (answer : Except SyncError Verdict)
    (seat : ((Position.call site (.answered answer)).seat s).Held (w.queue s) me) :
    Moved s w me (.call site (.answered answer)) (w.resolve me site answer) := by
  have ends : ∀ v, (Position.call site (.answered answer)).seat s = .none →
      (Position.call site (.answered answer)).releasing s = false →
      Moved s w me (.call site (.answered answer)) (w, .ends v) := fun v before quiet =>
    Moved.aside hq (Beside.refl w) rfl before rfl (by simp) (by simp [quiet])
  cases answer with
  | error e =>
    cases site with
    | turn q => exact moved_abandon hs hq _ rfl seat rfl
    | letGo t n saved =>
      exact moved_dropWait hs hq e (by simp [Position.seat, Stage.granted]) seat
        (by simp [Position.releasing, Stage.granted])
    | release t mode arg => exact ends _ rfl (by simp [Position.releasing, Stage.granted])
    | _ => exact ends _ rfl rfl
  | ok v =>
    unfold resolve
    dsimp only
    split
    · rename_i granted
      cases site with
      | attempt c => exact (closes_conclude w c false).moved hq rfl rfl
      | turn q => exact moved_takeTurn hs hq granted seat
      | release t mode arg =>
        have here : (Position.call (.release t mode arg) (.answered (.ok v))).releasing s → t = s := by
          simp +contextual [Position.releasing]
        cases mode with
        | exclusive =>
          exact moved_serve (f := WaitQueue.wakeFirst) hs hq (fun h b hb => hb.served_wakeFirst) rfl
            (fun _ => rfl) trivial (fun _ _ => rfl) (by simp) here
        | shared =>
          exact moved_serve (f := WaitQueue.wakeShared) hs hq (fun h b hb => hb.served_wakeShared) rfl
            (fun _ => rfl) trivial (fun _ _ => rfl) (by simp) here
      | isHeld t => exact ends _ rfl rfl
      | wait t => exact moved_enterCondition hs hq rfl rfl
      | letGo t n saved =>
        have here : (Position.call (.letGo t n saved) (.answered (.ok v))).releasing s → t.sync = s := by
          simp +contextual [Position.releasing]
        have after : (Position.call (.letGo t n saved) (.answered (.ok v))).seat s =
            (Position.waiting { terms := t, node := n, saved }).seat s := by
          simp [Position.seat, Stage.granted, granted]
        exact moved_serve (f := WaitQueue.wakeFirst) hs hq (fun h b hb => hb.served_wakeFirst)
          after.symm (fun e => if_neg e) seat (fun _ _ => rfl) (by simp) here
      | errand t c e =>
        exact moved_errand hs hq rfl rfl fun here => by simp [Position.signals, here, granted]
    · rename_i refused
      have refused : v.isGrant = false := by simpa using refused
      cases site with
      | attempt c =>
        exact Moved.aside hq (Beside.refl w) rfl rfl rfl (by simp [resolveRefusal])
          (by simp [Position.releasing])
      | turn q => exact moved_refused hq refused seat
      | letGo t n saved =>
        exact moved_dropWait hs hq _ (by simp [Position.seat, Stage.granted, refused]) seat
          (by simp [Position.releasing, Stage.granted, refused])
      | release t mode arg =>
        exact ends _ rfl (by simp [Position.releasing, Stage.granted, refused])
      | _ => exact ends _ rfl rfl

end World

end Turnstile
