import Turnstile.Proofs.World.Heard

/-! No wake-up is lost: whoever is first in the queue and could go ahead is awake, or about to be woken,
provided that the policy never lets it go ahead without a release that is granted. -/
namespace Turnstile

theorem Position.releasing_of_toRelease {s : SyncId} {site : Site} {m : Mode}
    {answer : Except SyncError Verdict} (release : site.hook = .toRelease m) (here : site.sync = s)
    (granted : grants answer = true) : (Position.call site (.leaving answer)).releasing s = true := by
  cases site with
  | release t mode arg =>
    have here : t = s := here
    simp [releasing, Stage.granted, here, granted]
  | letGo t n saved =>
    have here : t.sync = s := here
    simp [releasing, Stage.granted, here, granted]
  | attempt c | turn q =>
    revert release
    simp only [Site.hook, Hook.toAcquire, Hook.toRelease]
    split <;> split <;> simp
  | _ => cases m <;> simp [Site.hook, Hook.toRelease] at release

namespace World

/-- Everyone is idle or parked. -/
def quiet (w : World) : Bool :=
  (List.range w.actors.size).all fun a =>
    match (w.actor a).activity with
    | .idle | .busy (.parked _) _ => true
    | _ => false

/-- If the first in the queue sleeps though the claim that it makes is ready to be met, then a release
is about to wake it. -/
def Attended (ready : Int → Int → Prop) (s : SyncId) (w : World) : Prop :=
  ∀ h f a p, (w.queue s).head = some h → (w.queue s).live.head? = some f →
    ((w.queue s).node h).status = .signal → (w.actor a).position = some p →
    (p.seat s).node = some f → (w.actor a).Sleepy (((w.queue s).node f).prev = (w.queue s).head) →
    ready (w.sync s).state p.claim →
      ∃ b p', (w.actor b).position = some p' ∧ p'.releasing s = true

/-- What an actor may do to the readiness of claims at the synchronizer from where it stands. -/
structure Heeds (ready : Int → Int → Prop) (s : SyncId) (w : World) (me : ActorId) (p : Position) :
    Prop where
  /-- Whoever writes to the synchronizer directly readies no claim. -/
  writes : ∀ op, p = .start op → p.asks s = true →
    ∀ c, ready ((w.step me).1.sync s).state c → ready (w.sync s).state c
  /-- No claim becomes ready but through a release. -/
  readies : ∀ site, p = .call site .entering → site.sync = s →
    (Position.call site (.leaving ((w.sync s).ask site.hook me site.arg).2)).releasing s = true ∨
      ∀ c, ready ((w.sync s).ask site.hook me site.arg).1.state c → ready (w.sync s).state c
  /-- Nobody is turned away whose claim is ready, if no one is before it. -/
  refuses : ∀ q v, p = .call (.turn q) .entering → q.claim.sync = s →
    ((w.sync s).ask (.toAcquire q.claim.mode) me q.claim.arg).2 = .ok v → v.isGrant = false →
    (w.queue s).hasPredecessors me = false →
      ¬ready ((w.sync s).ask (.toAcquire q.claim.mode) me q.claim.arg).1.state q.claim.arg
  /-- No claim is ready while an actor moves nodes of others, or takes a turn that it need not
  hand on. -/
  holds : (p.signals s = true ∨ ∃ q, p.takes s = some q ∧
    ¬(q.claim.mode = .shared ∧ ∀ m ∈ (w.queue s).live, ((w.queue s).node m).mode = .shared)) →
      ∀ c, ¬ready (w.sync s).state c

variable {ready : Int → Int → Prop} {s : SyncId} {w w' : World} {me : ActorId} {p : Position}

theorem quiet_iff : w.quiet = true ↔
    ∀ a p, (w.actor a).position = some p → ∃ t, (w.actor a).activity = .busy (.parked t) p := by
  simp only [quiet, List.all_eq_true, List.mem_range]
  constructor
  · intro all a p hp
    have inTable : a < w.actors.size := lt_of_position (by simp [hp])
    have here := all a inTable
    unfold Actor.position at hp
    split at here <;> simp_all
  · intro all a _
    cases activity : (w.actor a).activity with
    | idle => rfl
    | busy st p =>
      obtain ⟨t, parked⟩ := all a p (Actor.position_of_busy activity)
      rw [activity] at parked
      obtain ⟨rfl, -⟩ := Activity.busy.inj parked
      rfl

/-- Once everything has come to rest, the first in the queue could not go ahead. -/
theorem Attended.unready (hw : Attended ready s w) (seated : Seated s w) (rest : w.quiet = true)
    {f : NodeId} (hf : (w.queue s).live.head? = some f) :
    ∃ a t p, (w.actor a).activity = .busy (.parked t) p ∧ (p.seat s).node = some f ∧
      ¬ready (w.sync s).state p.claim := by
  have live := List.mem_of_mem_head? hf
  obtain ⟨a, p, hp, hn⟩ := seated.kept f (Or.inl live)
  obtain ⟨t, parked⟩ := quiet_iff.1 rest a p hp
  obtain ⟨h, body, hq⟩ := seated.shaped
  obtain ⟨hh, follows⟩ := hq.head_follows hf
  have signal := seated.promise a p h f hp (Or.inl ⟨t, p, parked⟩) hn follows
  refine ⟨a, t, p, parked, hn, fun isReady => ?_⟩
  obtain ⟨b, p', hp', releasing⟩ := hw h f a p hh hf signal hp hn (Or.inl ⟨t, p, parked⟩) isReady
  obtain ⟨t', parked'⟩ := quiet_iff.1 rest b p' hp'
  have parks := seated.parks b p' (Or.inl ⟨t', parked'⟩)
  cases p' <;> simp [Position.parks] at parks <;> simp [Position.releasing] at releasing

theorem Attended.still (hw : Attended ready s w) (h : Still w w') : Attended ready s w' := by
  intro k f a p hk hf signal hp hn sleepy isReady
  rw [h.queue s] at hk hf signal sleepy
  rw [h.state s] at isReady
  rcases (h.actors a).position p hp with same | ⟨op, rfl⟩
  · obtain ⟨b, p', hp', releasing⟩ :=
      hw k f a p hk hf signal same hn ((h.actors a).sleepy _ sleepy) isReady
    exact ⟨b, p', (h.actors b).kept p' hp', releasing⟩
  · simp [Position.seat, Seat.node] at hn

/-- Whoever is turned away while nobody is before it makes a claim that is not ready. -/
theorem Heeds.refused {site : Site} (heeds : Heeds ready s w me (.call site .entering))
    (here : site.sync = s) {permit : Bool}
    (sleepy : (Position.call site (.leaving ((w.sync s).ask site.hook me site.arg).2)).sleepy permit
      true = true) (first : (w.queue s).hasPredecessors me = false) :
    ¬ready ((w.sync s).ask site.hook me site.arg).1.state
      (Position.call site (.leaving ((w.sync s).ask site.hook me site.arg).2)).claim := by
  cases site with
  | turn q =>
    cases answer : ((w.sync s).ask (Site.turn q).hook me (Site.turn q).arg).2 with
    | error e => simp [answer, Position.sleepy, Stage.refused] at sleepy
    | ok v =>
      refine heeds.refuses q v rfl here answer ?_ first
      rw [answer] at sleepy
      simp only [Position.sleepy, Stage.refused, Bool.and_eq_true, Bool.not_eq_true'] at sleepy
      exact sleepy.2
  | _ => simp [Position.sleepy] at sleepy

theorem Attended.asked (hw : Attended ready s w) (seated : Seated s w) {site : Site}
    (running : (w.actor me).activity = .busy .running (.call site .entering)) (here : site.sync = s)
    (heeds : Heeds ready s w me (.call site .entering)) : Attended ready s (w.step me).1 := by
  set x := (w.sync s).ask site.hook me site.arg with hx
  have position : (w.actor me).position = some (.call site .entering) := Actor.position_of_busy running
  have inTable : me < w.actors.size := lt_of_position (by simp [position])
  have step := step_asks running
  rw [here] at step
  have mine : ((w.step me).1.actor me).activity = .busy .running (.call site (.leaving x.2)) := by
    rw [step]
    exact activity_setActivity _ inTable
  have others : ∀ b, b ≠ me → (w.step me).1.actor b = w.actor b := by
    intro b ne
    rw [step, actor_setActivity_of_ne _ _ (Ne.symm ne)]
    rfl
  have queue : (w.step me).1.queue s = w.queue s := by
    rw [step]
    exact queue_ask w s s site.hook me site.arg
  have state : ((w.step me).1.sync s).state = x.1.state := by
    rw [sync_asks seated.inTable running here]
  intro h f a p hh hf signal hp hn sleepy isReady
  rw [queue] at hh hf signal sleepy
  rw [state] at isReady
  rcases heeds.readies site rfl here with releasing | mono
  · exact ⟨me, _, Actor.position_of_busy mine, releasing⟩
  · by_cases e : a = me
    · subst e
      rw [Actor.position, mine] at hp
      obtain rfl := Option.some.inj hp
      rcases sleepy with ⟨t, p', parked⟩ | ⟨p', hp', sleepy⟩
      · simp [mine] at parked
      · rw [Actor.position, mine] at hp'
        obtain rfl := Option.some.inj hp'
        have called : ((w.queue s).node f).prev = (w.queue s).head := by
          by_contra behind
          rw [decide_eq_false behind, sleepy_call_back] at sleepy
          simp at sleepy
        rw [decide_eq_true called] at sleepy
        obtain ⟨k, body, hq⟩ := seated.shaped
        have own := seated.actor_node position ((node_seat_call).symm.trans hn)
        have first := hq.hasPredecessors_of_prev (List.mem_of_mem_head? hf) called own
        exact absurd isReady (heeds.refused here sleepy first)
    · rw [others a e] at hp sleepy
      obtain ⟨b, p', hp', releasing⟩ := hw h f a p hh hf signal hp hn sleepy (mono _ isReady)
      by_cases e' : b = me
      · subst e'
        obtain rfl := Option.some.inj (position.symm.trans hp')
        cases site <;> simp [Position.releasing, Stage.granted] at releasing
      · exact ⟨b, p', by rw [others b e', hp'], releasing⟩

/-- A release that was granted is not forgotten while someone relies on a signal from the head. -/
theorem Stands.released {r : World × Next} (stands : Stands w me r w') (moved : Moved s w me p r)
    (position : (w.actor me).position = some p) {h : NodeId} (hh : (r.1.queue s).head = some h)
    (live : (r.1.queue s).live ≠ []) (signal : ((r.1.queue s).node h).status = .signal) {b : ActorId}
    {p' : Position} (hp' : (w.actor b).position = some p') (releasing : p'.releasing s = true) :
    ∃ b p', (w'.actor b).position = some p' ∧ p'.releasing s = true := by
  by_cases e : b = me
  · subst e
    obtain rfl := Option.some.inj (position.symm.trans hp')
    rcases moved.spent releasing with again | spent
    · obtain ⟨p'', hp'', again⟩ := Next.exists_releasing again
      exact ⟨b, p'', (Next.position_of_actor stands.mine).trans hp'', again⟩
    · exact absurd signal (spent h hh live)
  · exact ⟨b, p', (stands.others b e).position.trans hp', releasing⟩

/-- Where no hook is asked, the first goes to sleep only if it did before, or if no claim is ready. -/
theorem Attended.unasked (hw : Attended ready s w) (seated : Seated s w)
    (running : (w.actor me).activity = .busy .running p) (quiet : p.asks s = false)
    (heeds : Heeds ready s w me p) : Attended ready s (w.step me).1 := by
  have moved := seated.moved_stride running
  have onward : ∀ p', (w.stride me p).2.position = some p' →
      (p.readsClock = true ∧ p' = p) ∨ Onward w.sync me p p' := fun p' => onward_stride
  rw [step_eq running]
  generalize w.stride me p = r at moved onward
  have position : (w.actor me).position = some p := Actor.position_of_busy running
  have stands := moved.stands (lt_of_position (by simp [position]))
  have state : ((r.1.setActivity me r.2.activity).sync s).state = (w.sync s).state := by
    change (r.1.sync s).hollow.state = (w.sync s).hollow.state
    rw [moved.rules.resolve_left (by simp [quiet])]
  have queue : (r.1.setActivity me r.2.activity).queue s = r.1.queue s := rfl
  generalize r.1.setActivity me r.2.activity = w' at stands state queue
  intro h f a p₁ hh hf signal hp hn sleepy isReady
  rw [queue] at hh hf signal sleepy
  rw [state] at isReady
  have live : f ∈ (r.1.queue s).live := List.mem_of_mem_head? hf
  have released : ∀ b p', (w.actor b).position = some p' → p'.releasing s = true →
      ∃ b p', (w'.actor b).position = some p' ∧ p'.releasing s = true := fun b p' =>
    stands.released moved position hh (List.ne_nil_of_mem live) signal
  by_cases e : a = me
  · subst e
    have here := (Next.position_of_actor stands.mine).symm.trans hp
    have seat : r.2.seat s = p₁.seat s := Next.seat_of_position here
    rw [← seat] at hn
    have drowsy := stands.permit ▸ Next.sleepy_of_actor stands.mine sleepy
    obtain ⟨same, hn', was⟩ := (moved.sleeps f hn hf drowsy).resolve_left (by simp [quiet])
    have claim : p₁.claim = p.claim := by
      rcases onward p₁ here with ⟨-, rfl⟩ | on
      · rfl
      · exact on.claim (s := s) (by rw [hn']; simp) (by rw [← seat, hn]; simp)
    rw [same] at hh hf signal
    obtain ⟨b, p', hp', releasing⟩ := hw h f a p hh hf signal position hn' (Or.inr ⟨p, position, was⟩)
      (claim ▸ isReady)
    exact released b p' hp' releasing
  · have hp₁ := (stands.others a e).position ▸ hp
    have sleepy₁ := (stands.others a e).sleepy sleepy
    obtain ⟨woken, alert, change, passes⟩ := moved.change
    have own : ((r.1.queue s).node f).actor = some a := by
      have before := seated.actor_node hp₁ hn
      rw [change.actor f ?_ ((seated.seats a p₁ hp₁).inUse hn), before]
      intro here
      exact e (Option.some.inj (before.symm.trans (seated.actor_node position here)))
    rcases passes with signals | takes | passes
    · exact absurd isReady (heeds.holds (Or.inl signals) _)
    · exact absurd isReady (heeds.holds (Or.inr takes) _)
    · rcases passes h f hh hf signal with mine | ⟨b, woke, hb⟩ | ⟨hh', hf', signal', prev⟩
      · exact absurd (Option.some.inj (own.symm.trans (moved.seat.actor mine))) e
      · obtain rfl := Option.some.inj (own.symm.trans hb)
        have awake := stands.alert a e (alert a woke (lt_of_position (by simp [hp₁])))
        exact absurd sleepy awake.not_sleepy
      · rw [prev, hh, ← hh'] at sleepy₁
        obtain ⟨b, p', hp', releasing⟩ := hw h f a p₁ hh' hf' signal' hp₁ hn sleepy₁ isReady
        exact released b p' hp' releasing

/-- A direct write that readies no claim makes no difference to those who wait. -/
theorem Attended.written (hw : Attended ready s w) {op : Operation}
    (running : (w.actor me).activity = .busy .running (.start op))
    (asks : (Position.start op).asks s = true)
    (mono : ∀ c, ready ((w.step me).1.sync s).state c → ready (w.sync s).state c) :
    Attended ready s (w.step me).1 := by
  obtain ⟨w', v, starts, actors, rewritten⟩ := w.start_of_asks me asks
  have step : (w.step me).1 = w'.setActivity me .idle := by
    rw [step_eq running]
    change (w.startOperation me op).1.setActivity me (w.startOperation me op).2.activity = _
    rw [starts]
    rfl
  have inTable : me < w'.actors.size := by
    rw [actors]
    exact lt_of_position (by simp [Actor.position, running])
  have mine : ((w.step me).1.actor me).activity = .idle := by
    rw [step]
    exact activity_setActivity _ inTable
  have others : ∀ b, b ≠ me → (w.step me).1.actor b = w.actor b := by
    intro b ne
    rw [step, actor_setActivity_of_ne _ _ (Ne.symm ne), actor, actors]
    rfl
  have same : (w.step me).1.queue s = w.queue s := by
    rw [step]
    exact rewritten.queue
  intro h f a p hh hf signal hp hn sleepy isReady
  rw [same] at hh hf signal sleepy
  have ne : a ≠ me := by
    rintro rfl
    simp [Actor.position, mine] at hp
  rw [others a ne] at hp sleepy
  obtain ⟨b, p', hp', releasing⟩ := hw h f a p hh hf signal hp hn sleepy (mono _ isReady)
  refine ⟨b, p', ?_, releasing⟩
  by_cases e : b = me
  · subst e
    obtain rfl := Option.some.inj ((Actor.position_of_busy running).symm.trans hp')
    simp [Position.releasing] at releasing
  · rw [others b e, hp']

theorem Attended.happen (hw : Attended ready s w) (seated : Seated s w) (e : Event)
    (heeds : ∀ a p, e = .step a → (w.actor a).activity = .busy .running p → Heeds ready s w a p) :
    Attended ready s (w.happen e) := by
  by_cases steps : ∃ a, e = .step a
  · obtain ⟨a, rfl⟩ := steps
    by_cases running : ∃ p, (w.actor a).activity = .busy .running p
    · obtain ⟨p, running⟩ := running
      have heeds := heeds a p rfl running
      cases asks : p.asks s with
      | false => exact hw.unasked seated running asks heeds
      | true =>
        cases p with
        | start op => exact hw.written running asks (heeds.writes op rfl asks)
        | call site stage =>
          cases stage with
          | entering => exact hw.asked seated running (by simpa [Position.asks] using asks) heeds
          | _ => simp [Position.asks] at asks
        | _ => simp [Position.asks] at asks
    · rw [World.happen, step_of_not_running fun p hp => running ⟨p, hp⟩]
      exact hw
  · exact hw.still (seated.still_happen fun a e => steps ⟨a, e⟩)

theorem Attended.create {actors tokens : Nat} {syncs : List Synchronizer} {conditions : List SyncId} :
    Attended ready s (World.create actors tokens syncs conditions) := by
  intro h f a p _ _ _ hp
  exact absurd hp (position_create _ _ _ _ a p)

end World

end Turnstile
