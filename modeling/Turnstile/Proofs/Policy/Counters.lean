import Turnstile.Policy.Catalogue
import Turnstile.Proofs.World.Wakeup

/-! Counters, which are acquired in shared mode only: nobody sleeps first in the queue while there is
enough for it. -/
namespace Turnstile

/-- What makes a policy a counter. An argument that is valid may be asked for, and a claim that is ready
would be granted. -/
structure Policy.Counter (P : Policy) (valid : Int → Prop) (ready : Int → Int → Prop) : Prop where
  only : ∀ h i, h ≠ .acquireShared → h ≠ .releaseShared → P.decide h i = i.unsupported h
  acquires : ∀ i, valid i.arg → ∀ c, ready (P.decide .acquireShared i).state c → ready i.state c
  refuses : ∀ i v, (P.decide .acquireShared i).verdict = .ok v → v.isGrant = false →
    i.queue.hasPredecessors i.actor = false → ¬ready (P.decide .acquireShared i).state i.arg
  releases : ∀ i, (∃ v, (P.decide .releaseShared i).verdict = .ok v ∧ v.isGrant = true) ∨
    ∀ c, ready (P.decide .releaseShared i).state c → ready i.state c

namespace Policy

theorem counter_permits : permits.Counter (0 < ·) (fun state c => c ≤ state) where
  only h i ne ne' := by cases h <;> first | rfl | contradiction
  acquires i positive c isReady := by
    change c ≤ i.takePermits.state at isReady
    unfold Inquiry.takePermits at isReady
    split at isReady
    · exact isReady
    · rename_i left difference
      obtain ⟨rfl, -⟩ := Word.sub?_eq_some.1 difference
      simp only [Inquiry.store] at isReady
      split at isReady <;> omega
  refuses i v verdict refused _ := by
    change ¬i.arg ≤ i.takePermits.state
    change i.takePermits.verdict = .ok v at verdict
    unfold Inquiry.takePermits at verdict ⊢
    split at verdict
    · simp [Inquiry.fail, Inquiry.keep] at verdict
    · rename_i left difference
      obtain ⟨rfl, -⟩ := Word.sub?_eq_some.1 difference
      obtain rfl := Except.ok.inj verdict
      have short : ¬0 ≤ i.state - i.arg := by
        rw [← Verdict.isGrant_ofRemaining, refused]
        simp
      simp only [Inquiry.store, if_neg short]
      omega
  releases i := by
    change (∃ v, i.givePermits.verdict = .ok v ∧ _) ∨ ∀ c, c ≤ i.givePermits.state → _
    unfold Inquiry.givePermits
    split
    · exact Or.inr fun c isReady => isReady
    · exact Or.inl ⟨_, rfl, rfl⟩

theorem counter_latch : latch.Counter (fun _ => True) (fun state _ => state = 0) where
  only h i ne ne' := by cases h <;> first | rfl | contradiction
  acquires i _ c isReady := isReady
  refuses i v verdict refused _ isOpen := by
    change i.state = 0 at isOpen
    change Except.ok (if i.state = 0 then Verdict.cascading else .refused) = Except.ok v at verdict
    rw [if_pos isOpen, Except.ok.injEq] at verdict
    subst verdict
    simp [Verdict.isGrant] at refused
  releases i := by
    simp only [latch]
    split
    · exact Or.inr fun c isReady => isReady
    · by_cases last : i.state = 1
      · exact Or.inl ⟨_, rfl, by simp [last]⟩
      · refine Or.inr fun c isReady => absurd isReady ?_
        simp only [Inquiry.store]
        omega

end Policy

def Stage.ok : Stage → Bool
  | .leaving (.ok _) | .answered (.ok _) => true
  | _ => false

/-- At the synchronizer this site is for acquiring in shared mode, unless the hook has yet to be
asked. -/
def Site.shares (s : SyncId) (ok : Bool) : Site → Bool
  | .attempt c => c.sync ≠ s || c.mode = .shared || !ok
  | .turn q => q.claim.sync ≠ s || q.claim.mode = .shared
  | .wait t => t.sync ≠ s || !ok
  | .errand t _ _ => t ≠ s || !ok
  | .letGo t _ _ => t.sync ≠ s
  | _ => true

/-- Nobody waits for the synchronizer from here but in shared mode. -/
def Position.shares (s : SyncId) : Position → Bool
  | .call site stage => site.shares s stage.ok
  | .queueing c => c.sync ≠ s || c.mode = .shared
  | .turn q | .lingering q | .roused q => q.claim.sync ≠ s || q.claim.mode = .shared
  | .waiting v | .dozing v | .awoken v => v.terms.sync ≠ s
  | _ => true

theorem Position.seat_of_shares {s : SyncId} {p : Position} (h : p.shares s = true) :
    p.seat s = .none ∨ ∃ n called, p.seat s = .queued n .shared called := by
  cases p with
  | call site stage =>
    cases site with
    | turn q =>
      by_cases here : q.claim.sync = s
      · have mode : q.claim.mode = .shared := by simpa [shares, Site.shares, here] using h
        exact Or.inr ⟨q.node, true, by simp [seat, here, mode]⟩
      · exact Or.inl (if_neg here)
    | letGo t n saved =>
      have away : t.sync ≠ s := by simpa [shares, Site.shares] using h
      exact Or.inl (if_neg away)
    | _ => exact Or.inl rfl
  | turn q | lingering q | roused q =>
    by_cases here : q.claim.sync = s
    · have mode : q.claim.mode = .shared := by simpa [shares, here] using h
      exact Or.inr ⟨q.node, false, by simp [seat, here, mode]⟩
    · exact Or.inl (if_neg here)
  | waiting v | dozing v | awoken v =>
    have away : v.terms.sync ≠ s := by simpa [shares] using h
    exact Or.inl (if_neg away)
  | _ => exact Or.inl rfl

namespace Policy.Counter

variable {P : Policy} {valid : Int → Prop} {ready : Int → Int → Prop} {x : Synchronizer}

/-- Only the shared hooks do anything. -/
theorem ask_other (hP : P.Counter valid ready) (policy : x.policy = P) {h : Hook} (a : ActorId)
    (arg : Int) (ne : h ≠ .acquireShared) (ne' : h ≠ .releaseShared) :
    (x.ask h a arg).1.state = x.state ∧ ∃ e, (x.ask h a arg).2 = .error e := by
  have decides := x.decides_ask h a arg
  rw [policy, hP.only h _ ne ne'] at decides
  rcases decides with ⟨state, -, verdict⟩ | ⟨state, -, error⟩
  · exact ⟨state, _, verdict⟩
  · exact ⟨state, error⟩

theorem shares_of_ask (hP : P.Counter valid ready) {sync : SyncId → Synchronizer} {s : SyncId}
    (policy : (sync s).policy = P) {me : ActorId} {site : Site} (shares : site.shares s false = true) :
    site.shares s (Stage.ok (.leaving ((sync site.sync).ask site.hook me site.arg).2)) = true := by
  have other : site.sync = s → site.hook ≠ .acquireShared → site.hook ≠ .releaseShared →
      Stage.ok (.leaving ((sync site.sync).ask site.hook me site.arg).2) = false := by
    rintro here ne ne'
    obtain ⟨-, e, error⟩ := hP.ask_other (x := sync site.sync) (by rw [here, policy]) me site.arg ne ne'
    rw [error]
    rfl
  cases site with
  | attempt c =>
    by_cases here : c.sync = s
    · cases mode : c.mode with
      | shared => simp [Site.shares, mode]
      | exclusive =>
        have failed := other here (by simp [Site.hook, mode, Hook.toAcquire])
          (by simp [Site.hook, mode, Hook.toAcquire])
        rw [failed]
        simp [Site.shares]
    · simp [Site.shares, here]
  | wait t =>
    by_cases here : t.sync = s
    · rw [other here (by simp [Site.hook]) (by simp [Site.hook])]
      simp [Site.shares]
    · simp [Site.shares, here]
  | errand t c e =>
    by_cases here : t = s
    · rw [other here (by simp [Site.hook]) (by simp [Site.hook])]
      simp [Site.shares]
    · simp [Site.shares, here]
  | _ => exact shares

theorem shares_of_onward (hP : P.Counter valid ready) {sync : SyncId → Synchronizer} {s : SyncId}
    (policy : (sync s).policy = P) {me : ActorId} {p p' : Position} (on : Onward sync me p p')
    (shares : p.shares s = true) : p'.shares s = true := by
  cases on with
  | @start op site opens =>
    cases site with
    | turn q | letGo t n saved => cases op <;> exact opens.elim
    | _ => simp [Position.shares, Site.shares, Stage.ok]
  | enter => exact shares
  | ask => exact hP.shares_of_ask policy shares
  | @leave site answer => cases answer <;> exact shares
  | queue => simpa [Position.shares, Site.shares, Stage.ok] using shares
  | join | refuse _ | letGo _ => exact shares
  | @again q q' p p' same before after =>
    have shares' : (q.claim.sync ≠ s || q.claim.mode = .shared) = true := by
      rcases before with rfl | rfl | rfl <;> exact shares
    rw [← same.1] at shares'
    rcases after with rfl | rfl | rfl | rfl <;> exact shares'
  | enterWait _ => simpa [Position.shares, Site.shares, Stage.ok] using shares
  | @wait v v' p p' same before after =>
    have away : v'.terms.sync ≠ s := by
      rw [same.1]
      rcases before with rfl | rfl | rfl <;> simpa [Position.shares] using shares
    rcases after with rfl | rfl | rfl | rfl <;> simp [Position.shares, World.reclaim, away]
  | reckon => rfl

end Policy.Counter

namespace World

/-- Where everyone waits in shared mode nobody is on the way to a condition. -/
theorem exclusive_of_shares {s : SyncId} {w : World}
    (shares : ∀ a p, (w.actor a).position = some p → p.shares s = true) : Exclusive s w := by
  intro a p b p' _ hp' _ _ n seat
  rcases Position.seat_of_shares (shares b p' hp') with none | ⟨m, called, queued⟩
  · simp [none] at seat
  · simp [queued] at seat

/-- What holds throughout at a synchronizer that is a counter. -/
structure Counting (P : Policy) (valid : Int → Prop) (ready : Int → Int → Prop) (s : SyncId)
    (w : World) : Prop where
  seated : Seated s w
  attended : Attended ready s w
  policy : (w.sync s).policy = P
  shares : ∀ a p, (w.actor a).position = some p → p.shares s = true
  unset : ∀ a op, (w.actor a).position = some (.start op) → op.sets s = false
  claims : ∀ a p c, (w.actor a).position = some p → p.claims s = some c → valid c

namespace Counting

variable {P : Policy} {valid : Int → Prop} {ready : Int → Int → Prop} {s : SyncId} {w : World}

theorem exclusive (hw : Counting P valid ready s w) : Exclusive s w := exclusive_of_shares hw.shares

theorem mode (hw : Counting P valid ready s w) {n : NodeId} (hn : n ∈ (w.queue s).live) :
    ((w.queue s).node n).mode = .shared := by
  obtain ⟨a, p, hp, node⟩ := hw.seated.kept n (Or.inl hn)
  have held := hw.seated.seats a p hp
  rcases Position.seat_of_shares (hw.shares a p hp) with none | ⟨m, called, queued⟩
  · simp [none, Seat.node] at node
  · rw [queued] at held node
    obtain rfl : m = n := by simpa [Seat.node] using node
    exact held.2.2.1

/-- A hook that is asked readies no claim but by a release. -/
theorem readies (hw : Counting P valid ready s w) (hP : P.Counter valid ready) {me : ActorId}
    {site : Site} (hp : (w.actor me).position = some (.call site .entering)) (here : site.sync = s) :
    (Position.call site (.leaving ((w.sync s).ask site.hook me site.arg).2)).releasing s = true ∨
      ∀ c, ready ((w.sync s).ask site.hook me site.arg).1.state c → ready (w.sync s).state c := by
  have decides := (w.sync s).decides_ask site.hook me site.arg
  rw [hw.policy] at decides
  by_cases acquire : site.hook = .acquireShared
  · have asked : valid site.arg := by
      refine hw.claims me _ site.arg hp ?_
      cases site with
      | attempt c => exact if_pos here
      | turn q => exact if_pos here
      | release t mode arg => cases mode <;> simp [Site.hook, Hook.toRelease] at acquire
      | _ => simp [Site.hook] at acquire
    refine Or.inr fun c isReady => ?_
    rcases decides with ⟨state, -, -⟩ | ⟨state, -, -⟩
    · rw [state, acquire] at isReady
      exact hP.acquires ((w.sync s).inquiry me site.arg) asked c isReady
    · rwa [state] at isReady
  by_cases release : site.hook = .releaseShared
  · rcases decides with ⟨state, -, verdict⟩ | ⟨state, -, -⟩
    · rw [release] at state verdict
      rcases hP.releases ((w.sync s).inquiry me site.arg) with ⟨v, answer, granted⟩ | mono
      · refine Or.inl ?_
        have consent : grants ((w.sync s).ask site.hook me site.arg).2 = true := by
          rw [release, verdict, answer]
          exact granted
        exact Position.releasing_of_toRelease (m := .shared) release here consent
      · refine Or.inr fun c isReady => mono c ?_
        rwa [release, state] at isReady
    · exact Or.inr fun c isReady => by rwa [state] at isReady
  · obtain ⟨state, -⟩ := hP.ask_other hw.policy me site.arg acquire release
    exact Or.inr fun c isReady => by rwa [state] at isReady

theorem heeds (hw : Counting P valid ready s w) (hP : P.Counter valid ready) {me : ActorId}
    {p : Position} (running : (w.actor me).activity = .busy .running p) : Heeds ready s w me p := by
  have hp : (w.actor me).position = some p := Actor.position_of_busy running
  have shares := hw.shares me p hp
  constructor
  case writes =>
    rintro op rfl asks c
    rw [(rewritten_step running asks).state (hw.unset me op hp)]
    exact id
  case readies =>
    rintro site rfl here
    exact hw.readies hP hp here
  case refuses =>
    rintro q v rfl here answer refused first isReady
    have mode : q.claim.mode = .shared := by simpa [Position.shares, Site.shares, here] using shares
    have decides := (w.sync s).decides_ask (.toAcquire q.claim.mode) me q.claim.arg
    rw [hw.policy] at decides
    rcases decides with ⟨state, -, verdict⟩ | ⟨-, -, e, error⟩
    · rw [state] at isReady
      rw [mode] at isReady verdict answer
      exact hP.refuses _ v (verdict.symm.trans answer) refused first isReady
    · simp [error] at answer
  case holds =>
    rintro (signals | ⟨q, takes, unshared⟩)
    · obtain ⟨t, c, e, v, rfl, here, -⟩ := Position.signals_eq signals
      simp [Position.shares, Site.shares, Stage.ok, here] at shares
    · obtain ⟨v, rfl, here, -⟩ := Position.takes_eq takes
      have mode : q.claim.mode = .shared := by simpa [Position.shares, Site.shares, here] using shares
      exact absurd ⟨mode, fun m hm => hw.mode hm⟩ unshared

theorem happen (hw : Counting P valid ready s w) (hP : P.Counter valid ready) (e : Event)
    (unset : e.sets s = false) (demands : ∀ c ∈ e.demands s, valid c) :
    Counting P valid ready s (w.happen e) := by
  have fits := hw.seated.positions (e := e)
    (P := fun _ p => p.shares s = true ∧ (∀ op, p = .start op → op.sets s = false) ∧
      ∀ c, p.claims s = some c → valid c)
    (fun a p hp => ⟨hw.shares a p hp, fun op here => hw.unset a op (here ▸ hp), fun c => hw.claims a p c hp⟩)
    (by
      rintro a op rfl
      exact ⟨rfl, fun op' here => Position.start.inj here ▸ unset, demands⟩)
    (by
      rintro a p p' rfl running on ⟨shares, -, claims⟩
      refine ⟨hP.shares_of_onward hw.policy on shares, ?_, fun c hc => ?_⟩
      · rintro op rfl
        exact absurd on Onward.ne_start
      rcases on.claims hc with before | ⟨t, v, rfl, -, here, -⟩
      · exact claims c before
      · simp [Position.shares, Site.shares, Stage.ok, here] at shares)
  constructor
  case seated => exact hw.seated.happen hw.exclusive e
  case attended => exact hw.attended.happen hw.seated e fun a p _ => hw.heeds hP
  case policy => exact (hw.seated.policy_happen e).trans hw.policy
  case shares => exact fun a p hp => (fits a p hp).1
  case unset => exact fun a op hp => (fits a _ hp).2.1 op rfl
  case claims => exact fun a p c hp => (fits a p hp).2.2 c

theorem create {actors tokens : Nat} {syncs : List Synchronizer} {conditions : List SyncId}
    {x : Synchronizer} (hx : syncs[s]? = some x) (empty : x.queue = .empty) :
    Counting x.policy valid ready s (World.create actors tokens syncs conditions) := by
  have idle := position_create actors tokens syncs conditions
  exact ⟨.create hx empty, .create, by rw [sync_create hx], fun a p hp => absurd hp (idle a p),
    fun a op hp => absurd hp (idle a _), fun a p c hp => absurd hp (idle a p)⟩

theorem after (hw : Counting P valid ready s w) (hP : P.Counter valid ready) (events : List Event)
    (unset : ∀ e ∈ events, e.sets s = false)
    (demands : ∀ e ∈ events, ∀ c ∈ e.demands s, valid c) :
    Counting P valid ready s (w.after events) := by
  induction events generalizing w with
  | nil => exact hw
  | cons e rest ih =>
    refine ih (hw.happen hP e (unset e (by simp)) (demands e (by simp))) ?_ ?_
    · exact fun e he => unset e (by simp [he])
    · exact fun e he => demands e (by simp [he])

/-- Whoever is first at rest is parked in an acquisition that would not be granted. -/
theorem unready (hw : Counting P valid ready s w) (rest : w.quiet = true) {f : NodeId}
    (hf : (w.queue s).live.head? = some f) :
    ∃ a t q, (w.actor a).activity = .busy (.parked t) (.roused q) ∧ q.node = f ∧ q.claim.sync = s ∧
      ¬ready (w.sync s).state q.claim.arg := by
  obtain ⟨a, t, p, parked, node, unready⟩ := hw.attended.unready hw.seated rest hf
  have hp : (w.actor a).position = some p := Actor.position_of_busy parked
  have parks := hw.seated.parks a p (Or.inl ⟨t, parked⟩)
  cases p with
  | roused q =>
    simp only [Position.seat] at node
    split at node
    · rename_i here
      exact ⟨a, t, q, parked, by simpa [Seat.node] using node, here, unready⟩
    · simp [Seat.node] at node
  | awoken v =>
    have away : v.terms.sync ≠ s := by simpa [Position.shares] using hw.shares a _ hp
    simp [Position.seat, away, Seat.node] at node
  | _ => simp [Position.parks] at parks

end Counting

/-- At rest, whoever is first waits for more permits than there are, and nobody waits for a latch that
is down. -/
theorem counters_at_rest {s : SyncId} {actors tokens : Nat} {syncs : List Synchronizer}
    {conditions : List SyncId} {x : Synchronizer} (hx : syncs[s]? = some x) (empty : x.queue = .empty)
    {events : List Event} (unset : ∀ e ∈ events, e.sets s = false)
    (positive : x.policy = .permits → ∀ e ∈ events, ∀ c ∈ e.demands s, 0 < c) :
    let w := (World.create actors tokens syncs conditions).after events
    w.quiet = true →
      (x.policy = .permits → ∀ f, (w.queue s).live.head? = some f →
        ∃ a t q, (w.actor a).activity = .busy (.parked t) (.roused q) ∧ q.node = f ∧ q.claim.sync = s ∧
          (w.sync s).state < q.claim.arg) ∧
      (x.policy = .latch → (w.sync s).state = 0 → (w.queue s).live = []) := by
  intro w rest
  constructor
  · intro policy f hf
    have counter : x.policy.Counter (0 < ·) (fun state c => c ≤ state) := policy ▸ Policy.counter_permits
    have counting : Counting x.policy _ _ s w :=
      (Counting.create hx empty).after counter events unset (positive policy)
    obtain ⟨a, t, q, parked, node, here, short⟩ := counting.unready rest hf
    exact ⟨a, t, q, parked, node, here, Int.not_le.1 short⟩
  · intro policy down
    have counter : x.policy.Counter (fun _ => True) (fun state _ => state = 0) :=
      policy ▸ Policy.counter_latch
    have counting : Counting x.policy _ _ s w :=
      (Counting.create hx empty).after counter events unset fun _ _ _ _ => trivial
    by_contra waited
    obtain ⟨f, others, live⟩ := List.exists_cons_of_ne_nil waited
    have hf : (w.queue s).live.head? = some f := by rw [live]; rfl
    obtain ⟨a, t, q, -, -, -, unready⟩ := counting.unready rest hf
    exact unready down

/-- Two permits are asked for where there is one. -/
theorem counters_at_rest_short :
    let w := (World.create 1 0 [{ policy := .permits, state := 1 }] []).after
      (.begin 0 (.acquire 0 .shared 2 .plain) :: List.replicate 18 (.step 0))
    ∃ a t q, (w.actor a).activity = .busy (.parked t) (.roused q) ∧ q.node = 1 ∧ q.claim.sync = 0 ∧
      (w.sync 0).state < q.claim.arg :=
  (counters_at_rest (x := { policy := .permits, state := 1 }) rfl rfl (by decide) (fun _ => by decide)
    (by decide +kernel)).1 rfl 1 (by decide +kernel)

end World

end Turnstile
