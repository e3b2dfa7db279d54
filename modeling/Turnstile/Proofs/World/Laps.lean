import Turnstile.Proofs.World.Timed
import Turnstile.Proofs.World.Unbroken

/-! The rounds of an actor through the loops of an acquisition and of a wait. Whatever keeps it from parking
is used up by that: a permit, the flag of its token, a round in which the node before it is asked for a
signal, or a look at the clock when its deadline is near. -/
namespace Turnstile

open Actor (freshLooks looksAfterSpin)

/-- With so little left until the deadline the actor looks at the clock again instead of parking. -/
def Patience.isNear (x : Patience) (now : Moment) : Bool :=
  (x.deadline.map (Moment.left now)).any (· ≤ Span.tooShortToPark)

theorem Patience.isNear_of_none {x : Patience} (none : x.deadline = none) (now : Moment) :
    x.isNear now = false := by
  simp [isNear, none]

def Position.patience : Position → Patience
  | .queueing c | .call (.attempt c) _ => c.patience
  | .turn q | .lingering q | .roused q | .call (.turn q) _ => q.claim.patience
  | .waiting v | .dozing v | .awoken v => v.terms.patience
  | _ => {}

/-- How many steps of a call are to come before its answer is made use of. -/
def Stage.ahead : Stage → Nat
  | .answered _ => 0
  | .leaving _ => 1
  | .entering => 2
  | .arriving => 3

/-- How many steps the actor is away at most from a stop or the end, if so many rounds are ahead of it at
most. The loop of an acquisition takes eight steps a round, and that of a wait four. -/
def Position.burden (rounds : Nat) : Position → Nat
  | .reckoning .. => 0
  | .lingering _ => 8 * rounds + 2
  | .call (.turn _) stage => 8 * rounds + 3 + stage.ahead
  | .turn _ => 8 * rounds + 7
  | .roused _ => 8 * rounds + 8
  -- A wait leads on to an acquisition without a deadline, which four rounds are enough for.
  | .dozing _ => 4 * rounds + 42
  | .waiting _ => 4 * rounds + 43
  | .awoken _ => 4 * rounds + 44
  | .call (.letGo ..) stage => 320 + stage.ahead
  | .call (.wait _) stage => 330 + stage.ahead
  -- Any other acquisition takes 69 rounds at most.
  | .queueing _ => 560
  | .call (.attempt _) stage => 570 + stage.ahead
  | .call _ stage => 1 + stage.ahead
  | .start _ => 580

theorem Stage.ahead_le (stage : Stage) : stage.ahead ≤ 3 := by
  cases stage <;> simp [ahead]

theorem Position.burden_mono {m n : Nat} (le : m ≤ n) (p : Position) : p.burden m ≤ p.burden n := by
  unfold burden
  split <;> omega

theorem Position.burden_le {n : Nat} (few : n ≤ 69) (p : Position) : p.burden n ≤ 580 := by
  cases p with
  | call site stage =>
    have ahead := stage.ahead_le
    cases site <;> simp only [burden] <;> omega
  | _ =>
    simp only [burden]
    omega

/-- Where a step that leads on leads, and what it does to the number of rounds ahead. -/
inductive Proceeds (rounds rounds' : Nat) : Position → Position → Prop
  | opens {op site} (apart : ∀ q, site ≠ .turn q) :
      Proceeds rounds rounds' (.start op) (.call site .arriving)
  | calls {site stage stage'} (le : rounds' ≤ rounds) (nearer : stage'.ahead < stage.ahead) :
      Proceeds rounds rounds' (.call site stage) (.call site stage')
  | queues {c answer} : Proceeds rounds rounds' (.call (.attempt c) (.answered answer)) (.queueing c)
  | joins {c n} : Proceeds rounds rounds' (.queueing c) (.turn ⟨c, n, false⟩)
  | attempts {q} (le : rounds' ≤ rounds) : Proceeds rounds rounds' (.turn q) (.call (.turn q) .arriving)
  | awaits {q} (le : rounds' ≤ rounds) : Proceeds rounds rounds' (.turn q) (.lingering q)
  | lingers {q answer} (le : rounds' ≤ rounds) :
      Proceeds rounds rounds' (.call (.turn q) (.answered answer)) (.lingering q)
  | again {q} (lt : rounds' < rounds) : Proceeds rounds rounds' (.lingering q) (.turn q)
  | parks {q} (lt : rounds' < rounds) : Proceeds rounds rounds' (.lingering q) (.roused q)
  | rouses {q swallowed} (le : rounds' ≤ rounds) :
      Proceeds rounds rounds' (.roused q) (.turn { q with swallowed })
  | concludes {site answer start timeout timedOut} :
      Proceeds rounds rounds' (.call site (.answered answer)) (.reckoning start timeout timedOut)
  | enters {t n saved answer} :
      Proceeds rounds rounds' (.call (.wait t) (.answered answer)) (.call (.letGo t n saved) .arriving)
  | letsGo {t n saved answer} : Proceeds rounds rounds' (.call (.letGo t n saved) (.answered answer))
      (.waiting { terms := t, node := n, saved })
  | reclaims {p v v'} (from_ : p = .waiting v ∨ p = .dozing v ∨ p = .awoken v) :
      Proceeds rounds rounds' p (World.reclaim v')
  | dozes {v} (le : rounds' ≤ rounds) : Proceeds rounds rounds' (.waiting v) (.dozing v)
  | sleeps {v} (lt : rounds' < rounds) : Proceeds rounds rounds' (.dozing v) (.awoken v)
  | awakes {v interruption} (le : rounds' ≤ rounds) :
      Proceeds rounds rounds' (.awoken v) (.waiting { v with interruption })

/-- A step that leads on leads nearer to a stop or the end. -/
theorem Proceeds.burden_lt {m n : Nat} {p p' : Position} (h : Proceeds m n p p') (few : n ≤ 69)
    (untimed : p'.patience.deadline = none → n ≤ 4) : p'.burden n < p.burden m := by
  cases h with
  | @opens op site apart =>
    cases site with
    | turn q => exact absurd rfl (apart q)
    | _ => simp [Position.burden, Stage.ahead]
  | @calls site stage stage' le nearer =>
    cases site <;> (simp only [Position.burden]; omega)
  | @reclaims p v v' from_ =>
    have four : n ≤ 4 := untimed rfl
    change 8 * n + 7 < _
    rcases from_ with rfl | rfl | rfl <;> simp only [Position.burden] <;> omega
  | @concludes site =>
    cases site <;> simp only [Position.burden] <;> omega
  | _ =>
    simp only [Position.burden, Stage.ahead]
    omega

/-- An actor that is allowed to park leaves the queue as it is. -/
theorem WaitQueue.readyToPark_eq_self {q : WaitQueue} {n : NodeId} (told : (q.readyToPark n).2 = .ok true) :
    (q.readyToPark n).1 = q := by
  unfold readyToPark at told ⊢
  split
  · rfl
  · rename_i p prev
    rw [prev] at told
    dsimp only at told
    split
    · rfl
    · rename_i unasked
      rw [if_neg unasked] at told
      split at told
      · simp at told
      · split at told <;> simp at told

namespace World

variable {w w' : World} {a : ActorId} {p p' : Position} {x : Patience}

section

variable (w a)

/-- How often the actor can be kept from parking by a permit or, near its deadline, by the clock. -/
def slack (x : Patience) : Nat :=
  (w.actor a).permit.toNat + if x.isNear w.now then (w.actor a).looks else 0

/-- A flag that is up keeps it from parking once more. -/
def laps (x : Patience) : Nat := w.slack a x + (w.flagged x.token).toNat

/-- How many rounds are ahead of the actor at most. -/
def tries : Position → Nat
  | .turn q | .lingering q | .call (.turn q) _ =>
    w.laps a q.claim.patience + (w.queue q.claim.sync).rounds q.node
  | .roused q => w.slack a q.claim.patience + (w.queue q.claim.sync).rounds q.node
  | .waiting v | .dozing v => w.laps a v.terms.patience
  | .awoken v => w.slack a v.terms.patience
  | _ => 0

theorem slack_le (x : Patience) : w.slack a x ≤ 1 + (w.actor a).looks := by
  unfold slack
  have permit := Bool.toNat_le (w.actor a).permit
  split <;> omega

theorem laps_le (x : Patience) : w.laps a x ≤ w.slack a x + 1 :=
  Nat.add_le_add_left (Bool.toNat_le _) _

variable {w a}

theorem slack_le_of_calm (calm : x.isNear w.now = false) : w.slack a x ≤ 1 := by
  rw [slack, if_neg (by simp [calm])]
  exact Bool.toNat_le _

theorem tries_le_of_slack {n : Nat} (few : w.slack a p.patience ≤ n) : w.tries a p ≤ n + 3 := by
  have queued : ∀ q : Queued, (w.queue q.claim.sync).rounds q.node ≤ 2 := fun q => WaitQueue.rounds_le _ _
  have flag := w.laps_le a p.patience
  cases p with
  | turn q | lingering q | roused q =>
    have rounds := queued q
    simp only [Position.patience] at few flag
    simp only [tries]
    omega
  | call site stage =>
    cases site with
    | turn q =>
      have rounds := queued q
      simp only [Position.patience] at few flag
      simp only [tries]
      omega
    | _ => exact Nat.zero_le _
  | waiting v | dozing v | awoken v =>
    simp only [Position.patience] at few flag
    simp only [tries]
    omega
  | _ => exact Nat.zero_le _

theorem tries_le (capped : (w.actor a).looks ≤ looksAfterSpin) (p : Position) : w.tries a p ≤ 69 := by
  refine tries_le_of_slack (n := 66) ?_
  have slack := w.slack_le a p.patience
  have most : looksAfterSpin = 65 := rfl
  omega

theorem tries_le_of_calm (calm : p.patience.isNear w.now = false) : w.tries a p ≤ 4 :=
  tries_le_of_slack (slack_le_of_calm calm)

/-! What the rounds ahead of an actor depend on. -/

theorem slack_congr (permit : (w'.actor a).permit = (w.actor a).permit)
    (looks : (w'.actor a).looks = (w.actor a).looks) (now : w'.now = w.now) (x : Patience) :
    w'.slack a x = w.slack a x := by
  rw [slack, permit, looks, now]
  rfl

theorem tries_mono (slack : w'.slack a p.patience ≤ w.slack a p.patience) (tokens : w'.tokens = w.tokens)
    (queue : ∀ s, w'.queue s = w.queue s) : w'.tries a p ≤ w.tries a p := by
  have flagged : ∀ t, w'.flagged t = w.flagged t := fun _ => flagged_of_tokens tokens
  cases p with
  | turn q | lingering q | roused q =>
    simp only [Position.patience] at slack
    simp only [tries, laps, flagged, queue]
    omega
  | call site stage =>
    cases site with
    | turn q =>
      simp only [Position.patience] at slack
      simp only [tries, laps, flagged, queue]
      omega
    | _ => exact Nat.le_refl _
  | waiting v | dozing v | awoken v =>
    simp only [Position.patience] at slack
    simp only [tries, laps, flagged]
    omega
  | _ => exact Nat.le_refl _

theorem tries_congr (permit : (w'.actor a).permit = (w.actor a).permit)
    (looks : (w'.actor a).looks = (w.actor a).looks) (tokens : w'.tokens = w.tokens)
    (now : w'.now = w.now) (queue : ∀ s, w'.queue s = w.queue s) (p : Position) :
    w'.tries a p = w.tries a p := by
  have slack := slack_congr permit looks now p.patience
  exact Nat.le_antisymm (tries_mono (Nat.le_of_eq slack) tokens queue)
    (tries_mono (Nat.le_of_eq slack.symm) tokens.symm fun s => (queue s).symm)

theorem tries_step (running : (w.actor a).activity = .busy .running p) (p' : Position) :
    (w.step a).1.tries a p' = (w.stride a p).1.tries a p' := by
  rw [step_eq running]
  exact tries_congr (permit_setActivity _ a _) (looks_setActivity _ a a _) rfl rfl (fun _ => rfl) p'

theorem tries_call (site : Site) (stage stage' : Stage) :
    w.tries a (.call site stage) = w.tries a (.call site stage') := by
  cases site <;> rfl

end

/-! What each step of the loops uses up. -/

/-- Near the deadline a look at the clock brings the actor nearer to the end of its looks. -/
theorem slack_looked (inTable : a < w.actors.size) (clock : p.readsClock = x.deadline.isSome)
    (unspent : p.readsClock = true → (w.actor a).looks ≠ 0) :
    (w.looked a p).slack a x + (x.isNear w.now).toNat ≤ w.slack a x := by
  have permit : ((w.looked a p).actor a).permit = (w.actor a).permit := by
    unfold looked
    split
    · exact w.permit_setLooks _
    · rfl
  rw [slack, slack, permit, now_looked, looks_looked inTable]
  cases near : x.isNear w.now with
  | false => simp
  | true =>
    have some : p.readsClock = true := by
      rw [clock]
      cases none : x.deadline with
      | none => simp [Patience.isNear_of_none none] at near
      | some d => rfl
    have many := unspent some
    simp only [some, if_true, Bool.toNat_true]
    omega

/-- An actor that goes on instead of parking has used up its permit, or the flag of its token is up. -/
theorem park_goes {timeout : Option Span} (calm : x.isNear w.now = false)
    (next : (w.park a x.token timeout p).2 = .goes p') :
    p' = p ∧ (w.park a x.token timeout p).1.slack a x < w.laps a x := by
  unfold park at next ⊢
  split
  · rename_i raised
    rw [if_pos raised] at next
    refine ⟨(Next.goes.inj next).symm, ?_⟩
    rw [laps, raised]
    exact Nat.lt_succ_self _
  · rename_i unflagged
    rw [if_neg unflagged] at next
    dsimp only at next ⊢
    split
    · rename_i permit
      rw [if_pos permit] at next
      refine ⟨(Next.goes.inj next).symm, ?_⟩
      rw [permit_setLooks] at permit
      have inTable : a < w.actors.size := by
        refine Nat.lt_of_not_le fun outside => ?_
        rw [actor_of_size_le outside] at permit
        simp at permit
      have used : (((w.setLooks a freshLooks).setPermit a false).actor a).permit = false := by
        rw [setPermit, actor_modifyActor, if_pos ⟨rfl, by simpa using inTable⟩]
      have now : ((w.setLooks a freshLooks).setPermit a false).now = w.now := rfl
      rw [laps, slack, slack, used, permit, now, if_neg (by simp [calm]), if_neg (by simp [calm])]
      exact Nat.lt_add_right _ Nat.one_pos
    · rename_i none
      rw [if_neg none] at next
      simp at next

theorem queue_park (w : World) (a : ActorId) (token : Option TokenId) (timeout : Option Span) (p : Position)
    (s : SyncId) : (w.park a token timeout p).1.queue s = w.queue s := by
  rw [queue, sync, (w.park_cases a token timeout p).1]
  rfl

/-- Asking the node before for a signal takes up a round; being allowed to park changes nothing. -/
theorem rounds_put {s : SyncId} {n : NodeId} {ready : Bool} (rooted : (w.queue s).Rooted)
    (told : ((w.queue s).readyToPark n).2 = .ok ready) :
    ((w.setQueue s ((w.queue s).readyToPark n).1).queue s).rounds n + (!ready).toNat ≤
      (w.queue s).rounds n := by
  obtain ⟨p, prev⟩ : ∃ p, ((w.queue s).node n).prev = some p := by
    cases prev : ((w.queue s).node n).prev with
    | none => simp [WaitQueue.readyToPark, prev] at told
    | some p => exact ⟨p, rfl⟩
  have sync : s < w.syncs.size := by
    refine Nat.lt_of_not_le fun outside => ?_
    have none : w.queue s = .empty := by
      rw [queue, World.sync, Table.get_of_size_le outside]
      rfl
    simp [none, WaitQueue.node_empty] at prev
  have node : n < (w.queue s).nodes.size := by
    refine Nat.lt_of_not_le fun outside => ?_
    simp [WaitQueue.node_of_size_le outside] at prev
  rw [queue_setQueue_self sync]
  cases ready with
  | false => exact WaitQueue.rounds_readyToPark rooted node told
  | true => rw [WaitQueue.readyToPark_eq_self told]; exact Nat.le_refl _

/-- A round of the loop of an acquisition does not go on for nothing. -/
theorem linger_goes {q : Queued} (rooted : (w.queue q.claim.sync).Rooted)
    (next : (w.linger a q).2 = .goes p') : (p' = .turn q ∨ p' = .roused q) ∧
      (w.linger a q).1.tries a p' < w.laps a q.claim.patience + (q.claim.patience.isNear w.now).toNat +
        (w.queue q.claim.sync).rounds q.node := by
  have put := fun ready => @rounds_put w q.claim.sync q.node ready rooted
  unfold linger at next ⊢
  dsimp only at next ⊢
  split
  · rename_i overdue
    rw [if_pos overdue] at next
    obtain ⟨w', v, eq, -⟩ := w.abandon_spec q (.truth false)
    simp [eq] at next
  rename_i early
  rw [if_neg early] at next
  generalize (w.queue q.claim.sync).readyToPark q.node = r at next put ⊢
  obtain ⟨queue, f | _ | _⟩ := r
  · simp at next
  · obtain rfl := Next.goes.inj next
    have fewer : ((w.setQueue q.claim.sync queue).queue q.claim.sync).rounds q.node + 1 ≤ _ := put false rfl
    refine ⟨Or.inl rfl, ?_⟩
    change w.laps a _ + ((w.setQueue q.claim.sync queue).queue _).rounds _ < _
    omega
  · have same : ((w.setQueue q.claim.sync queue).queue q.claim.sync).rounds q.node ≤ _ := put true rfl
    dsimp only at next ⊢
    split
    · rename_i near
      rw [if_pos near] at next
      obtain rfl := Next.goes.inj next
      have near : q.claim.patience.isNear w.now = true := near
      refine ⟨Or.inl rfl, ?_⟩
      change w.laps a _ + ((w.setQueue q.claim.sync queue).queue _).rounds _ < _
      rw [near, Bool.toNat_true]
      omega
    · rename_i far
      rw [if_neg far] at next
      have calm : q.claim.patience.isNear w.now = false := Bool.eq_false_iff.2 far
      have less := park_goes (w := w.setQueue q.claim.sync queue) calm next
      have still := queue_park (w.setQueue q.claim.sync queue) a q.claim.patience.token
        (q.claim.patience.deadline.map (Moment.left w.now)) (.roused q) q.claim.sync
      obtain ⟨rfl, less⟩ := less
      refine ⟨Or.inr rfl, ?_⟩
      rw [calm, tries, still]
      change _ < w.laps a _ + 0 + _
      change _ < w.laps a _ at less
      omega

/-- A round of the loop of a wait does not go on for nothing, unless it leads out of the loop. -/
theorem doze_goes {v : Waiting} (next : (w.doze a v).2 = .goes p') : (∃ v', p' = reclaim v') ∨
    (p' = .awoken v ∧ (w.doze a v).1.slack a v.terms.patience <
      w.laps a v.terms.patience + (v.terms.patience.isNear w.now).toNat) := by
  unfold doze at next ⊢
  dsimp only at next ⊢
  split
  · rename_i overdue
    rw [if_pos overdue] at next
    exact Or.inl ⟨_, (Next.goes.inj next).symm⟩
  rename_i early
  rw [if_neg early] at next
  split
  · rename_i near
    rw [if_pos near] at next
    have near : v.terms.patience.isNear w.now = true := near
    refine Or.inr ⟨(Next.goes.inj next).symm, ?_⟩
    rw [near]
    exact Nat.lt_succ_of_le (Nat.le_add_right _ _)
  · rename_i far
    rw [if_neg far] at next
    have calm : v.terms.patience.isNear w.now = false := Bool.eq_false_iff.2 far
    rw [calm]
    exact Or.inr (park_goes calm next)

theorem laps_takeFlag (x : Patience) : (w.takeFlag x.token).1.laps a x = w.slack a x := by
  have same : (w.takeFlag x.token).1.actor a = w.actor a :=
    congrArg (·.get a) (w.actors_modifyToken x.token _)
  have now : (w.takeFlag x.token).1.now = w.now := by
    cases token : x.token <;> rfl
  rw [laps, flagged_takeFlag rfl]
  exact slack_congr (by rw [same]) (by rw [same]) now x

theorem rouse_goes {q : Queued} (next : (w.rouse q).2 = .goes p') :
    ∃ swallowed, p' = .turn { q with swallowed } ∧ (w.rouse q).1.tries a p' = w.tries a (.roused q) := by
  have taken : ∀ r : Queued, r.claim = q.claim → r.node = q.node →
      (w.takeFlag q.claim.patience.token).1.tries a (.turn r) = w.tries a (.roused q) := by
    intro r claim node
    rw [tries, claim, node, laps_takeFlag]
    exact congrArg (_ + WaitQueue.rounds · _) (queue_modifyToken w _ _ _)
  unfold rouse takeFlag at next ⊢
  cases flag : w.flagged q.claim.patience.token with
  | false =>
    simp only [flag] at next ⊢
    obtain rfl := Next.goes.inj next
    exact ⟨q.swallowed, rfl, taken q rfl rfl⟩
  | true =>
    simp only [flag] at next ⊢
    split
    · rename_i interruptible
      obtain ⟨w', v, eq, -⟩ := abandon_spec (w.modifyToken q.claim.patience.token (·.take.1)) q
        (.failed .interrupted)
      rw [if_pos interruptible, eq] at next
      simp at next
    · rename_i uninterruptible
      rw [if_neg uninterruptible] at next
      obtain rfl := Next.goes.inj next
      exact ⟨true, rfl, taken { q with swallowed := true } rfl rfl⟩

theorem awake_goes {v : Waiting} (next : (w.awake v).2 = .goes p') : (∃ v', p' = reclaim v') ∨
    ∃ interruption, p' = .waiting { v with interruption } ∧
      (w.awake v).1.tries a p' = w.tries a (.awoken v) := by
  have taken : ∀ u : Waiting, u.terms = v.terms →
      (w.takeFlag v.terms.patience.token).1.tries a (.waiting u) = w.tries a (.awoken v) := by
    intro u terms
    rw [tries, terms, laps_takeFlag]
    rfl
  unfold awake takeFlag at next ⊢
  cases flag : w.flagged v.terms.patience.token with
  | false =>
    simp only [flag] at next ⊢
    obtain rfl := Next.goes.inj next
    exact Or.inr ⟨v.interruption, rfl, taken v rfl⟩
  | true =>
    simp only [flag] at next ⊢
    split
    · rename_i interruptible
      rw [if_pos interruptible] at next
      exact Or.inl ⟨_, (Next.goes.inj next).symm⟩
    · rename_i uninterruptible
      rw [if_neg uninterruptible] at next
      obtain rfl := Next.goes.inj next
      exact Or.inr ⟨.afterSignal, rfl, taken { v with interruption := .afterSignal } rfl⟩

/-- A step that leads on is no stop for spinning. -/
theorem course_goes (next : (w.stride a p).2 = .goes p') :
    (p.readsClock = true → (w.actor a).looks ≠ 0) ∧ w.stride a p = (w.looked a p).advance a p ∧
      Course (w.looked a p) a p (w.stride a p) := by
  rcases w.stride_course a p with ⟨-, -, eq⟩ | ⟨eq, course⟩
  · simp [eq] at next
  · refine ⟨fun clock spent => ?_, eq, course⟩
    rw [stride_eq, if_pos ⟨clock, spent⟩] at next
    simp at next

/-- A step of a call that leads on. -/
theorem proceeds_call {site : Site} {stage : Stage} (next : (w.stride a (.call site stage)).2 = .goes p') :
    Proceeds (w.tries a (.call site stage)) ((w.stride a (.call site stage)).1.tries a p')
      (.call site stage) p' := by
  have stride : w.stride a (.call site stage) = w.callHook a site stage := rfl
  cases stage with
  | arriving | leaving answer =>
    rw [stride] at next ⊢
    unfold callHook trip at next ⊢
    dsimp only at next ⊢
    split at next
    all_goals
      rename_i e
      obtain ⟨rfl, -⟩ := Prod.mk.inj e
    · simp at next
    · obtain rfl := Next.goes.inj next
      exact .calls (Nat.le_of_eq (tries_call site _ _)) (by simp [Stage.ahead])
  | entering =>
    rw [stride] at next ⊢
    obtain rfl := Next.goes.inj next
    have same : ∀ p, (w.ask site.sync site.hook a site.arg).1.tries a p = w.tries a p :=
      tries_congr rfl rfl rfl rfl fun s => w.queue_ask s _ _ _ _
    exact .calls (Nat.le_of_eq ((same _).trans (tries_call site _ _))) (by simp [Stage.ahead])
  | answered answer =>
    obtain ⟨-, -, course⟩ := course_goes next
    generalize w.stride a (.call site (.answered answer)) = r at next course ⊢
    cases course with
    | queue =>
      obtain rfl := Next.goes.inj next
      exact .queues
    | linger =>
      obtain rfl := Next.goes.inj next
      exact .lingers (Nat.le_refl _)
    | @conclude site c swallowed =>
      rcases c.outcome_cases swallowed with ⟨v, eq⟩ | ⟨v, start, timeout, -, -, -, eq⟩
      · simp [eq] at next
      · obtain rfl := Next.goes.inj (eq.symm.trans next)
        exact .concludes
    | enterWait =>
      obtain rfl := Next.goes.inj next
      exact .enters
    | letGo =>
      obtain rfl := Next.goes.inj next
      exact .letsGo
    | _ => simp at next

theorem proceeds (inTable : a < w.actors.size) (rooted : ∀ s, (w.queue s).Rooted)
    (next : (w.stride a p).2 = .goes p') :
    Proceeds (w.tries a p) ((w.stride a p).1.tries a p') p p' := by
  obtain ⟨unspent, eq, course⟩ := course_goes next
  cases p with
  | start op =>
    generalize w.stride a (.start op) = r at next course ⊢
    cases course with
    | «open» opens =>
      obtain rfl := Next.goes.inj next
      refine .opens fun q here => ?_
      cases op <;> simp [Operation.site, here] at opens
    | decline => simp at next
  | call site stage => exact proceeds_call next
  | queueing c =>
    generalize w.stride a (.queueing c) = r at next course ⊢
    cases course with
    | join =>
      obtain rfl := Next.goes.inj next
      exact .joins
    | expire => simp at next
  | turn q =>
    generalize w.stride a (.turn q) = r at next course ⊢
    cases course with
    | call =>
      obtain rfl := Next.goes.inj next
      exact .attempts (Nat.le_refl _)
    | await =>
      obtain rfl := Next.goes.inj next
      exact .awaits (Nat.le_refl _)
    | stray => simp at next
  | lingering q =>
    rw [eq] at next ⊢
    obtain ⟨goes, less⟩ := linger_goes (by simpa using rooted q.claim.sync) next
    have used := slack_looked (x := q.claim.patience) (p := .lingering q) inTable rfl unspent
    have less : ((w.looked a (.lingering q)).advance a (.lingering q)).1.tries a p' <
        w.tries a (.lingering q) := by
      refine Nat.lt_of_lt_of_le less ?_
      simp only [tries, laps, queue_looked, flagged_looked, now_looked]
      omega
    rcases goes with rfl | rfl
    · exact .again less
    · exact .parks less
  | roused q =>
    obtain ⟨swallowed, rfl, same⟩ := rouse_goes (a := a) next
    exact .rouses (Nat.le_of_eq same)
  | waiting v =>
    generalize w.stride a (.waiting v) = r at next course ⊢
    cases course with
    | reclaim =>
      obtain rfl := Next.goes.inj next
      exact .reclaims (Or.inl rfl)
    | doze =>
      obtain rfl := Next.goes.inj next
      exact .dozes (Nat.le_refl _)
  | dozing v =>
    rw [eq] at next ⊢
    rcases doze_goes next with ⟨v', rfl⟩ | ⟨rfl, less⟩
    · exact .reclaims (Or.inr (Or.inl rfl))
    · have used := slack_looked (x := v.terms.patience) (p := .dozing v) inTable rfl unspent
      refine .sleeps (Nat.lt_of_lt_of_le less ?_)
      simp only [tries, laps, flagged_looked, now_looked]
      omega
  | awoken v =>
    rcases awake_goes (a := a) next with ⟨v', rfl⟩ | ⟨interruption, rfl, same⟩
    · exact .reclaims (Or.inr (Or.inr rfl))
    · exact .awakes (Nat.le_of_eq same)
  | reckoning start timeout timedOut =>
    generalize w.stride a (.reckoning start timeout timedOut) = r at next course
    cases course with
    | reckon => simp at next

/-- Nobody ever has more looks at the clock than after a stop for spinning. -/
theorem capped_stride (inTable : a < w.actors.size) (capped : (w.actor a).looks ≤ looksAfterSpin) :
    ((w.stride a p).1.actor a).looks ≤ looksAfterSpin := by
  rw [stride_eq]
  split
  · refine Nat.le_of_eq ?_
    rw [setLooks, actor_modifyActor, if_pos ⟨rfl, inTable⟩]
  · have leaves : Leaves a (w.looked a p) _ := Leaves.advance (w.looked a p) p
    have less : ((w.looked a p).actor a).looks ≤ (w.actor a).looks := by
      rw [looks_looked inTable]
      split <;> omega
    rcases leaves.renewed with same | fresh
    · exact same ▸ Nat.le_trans less capped
    · exact fresh ▸ (by decide : freshLooks ≤ looksAfterSpin)

/-- Each step that leads on leads nearer to a stop or the end. -/
theorem burden_step (running : (w.actor a).activity = .busy .running p) (rooted : ∀ s, (w.queue s).Rooted)
    (capped : (w.actor a).looks ≤ looksAfterSpin) (next : (w.stride a p).2 = .goes p') :
    p'.burden ((w.step a).1.tries a p') < p.burden (w.tries a p) := by
  have inTable : a < w.actors.size := lt_of_position (by simp [Actor.position, running])
  rw [tries_step running]
  exact (proceeds inTable rooted next).burden_lt (tries_le (capped_stride inTable capped) p') fun untimed =>
    tries_le_of_calm (Patience.isNear_of_none untimed _)

end World

end Turnstile
