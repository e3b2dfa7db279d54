import Mathlib.Algebra.Order.BigOperators.Group.Finset
import Mathlib.Algebra.Order.Ring.Int
import Turnstile.Proofs.Policy.Counters
import Turnstile.Proofs.Policy.Holds

/-! Permits are conserved: what is left of them is always what there was at first, less what has been
acquired and not been released. -/
namespace Turnstile

open scoped BigOperators

/-- What the answer of the hook has taken out of a counter. -/
def Hook.draws (arg : Int) : Hook → Except SyncError Verdict → Int
  | .acquireShared, .ok v => if v.isGrant then arg else 0
  | .releaseShared, .ok _ => -arg
  | _, _ => 0

/-- What has been taken out and the actor has yet to be told of. -/
def Position.draws (s : SyncId) : Position → Int
  | .call site stage =>
    stage.answer.elim 0 fun answer => if site.sync = s then site.hook.draws site.arg answer else 0
  | _ => 0

namespace Operation

/-- What has been acquired in shared mode once the operation has ended with the value. -/
def acquires (s : SyncId) : Operation → Value → Int
  | .acquire t .shared arg _, v => if t = s ∧ (v = .done ∨ v = .truth true) then arg else 0
  | _, _ => 0

/-- What has been released in shared mode once the operation has ended with the value. -/
def releases (s : SyncId) : Operation → Value → Int
  | .release t .shared arg, .truth _ => if t = s then arg else 0
  | _, _ => 0

/-- What the operation is to give back. -/
def yields (s : SyncId) : Operation → Int
  | .release t .shared arg => if t = s then arg else 0
  | _ => 0

/-- Whatever is acquired or released is more than nothing, and the state is left to the hooks. -/
def rations (s : SyncId) : Operation → Bool
  | .acquire t _ arg _ | .release t _ arg => t ≠ s || 0 < arg
  | .setState t _ | .exchangeState t _ _ => t ≠ s
  | _ => true

end Operation

def Position.yields (s : SyncId) : Position → Int
  | .start op => op.yields s
  | .call (.release t m arg) _ => (Operation.release t m arg).yields s
  | _ => 0

def Event.rations (s : SyncId) : Event → Bool
  | .begin _ op => op.rations s
  | _ => true

section

variable {s : SyncId} {arg : Int} {m : Mode} {v : Verdict} {x : Synchronizer} {op : Operation} {p : Position}

theorem Hook.draws_error (h : Hook) (e : SyncError) : h.draws arg (.error e) = 0 := by cases h <;> rfl

theorem Hook.draws_toAcquire :
    (Hook.toAcquire m).draws arg (.ok v) = if m = .shared ∧ v.isGrant = true then arg else 0 := by
  cases m <;> simp [toAcquire, draws]

theorem Hook.draws_toRelease : (Hook.toRelease m).draws arg (.ok v) = if m = .shared then -arg else 0 := by
  cases m <;> rfl

theorem Inquiry.draws_takePermits (i : Inquiry) :
    i.takePermits.state = i.state - Hook.draws i.arg .acquireShared i.takePermits.verdict ∧
      (0 ≤ i.state → 0 ≤ i.takePermits.state) := by
  unfold takePermits
  split
  · simp [fail, keep, Hook.draws]
  · rename_i left difference
    obtain ⟨rfl, -⟩ := Word.sub?_eq_some.1 difference
    simp only [store, Hook.draws, Verdict.isGrant_ofRemaining]
    constructor <;> split <;> omega

theorem Inquiry.draws_givePermits (i : Inquiry) :
    i.givePermits.state = i.state - Hook.draws i.arg .releaseShared i.givePermits.verdict ∧
      (0 ≤ i.state → 0 < i.arg → 0 ≤ i.givePermits.state) := by
  unfold givePermits
  split
  · exact ⟨(Int.sub_zero _).symm, fun enough _ => enough⟩
  · rename_i permits sum
    obtain ⟨rfl, -⟩ := Word.add?_eq_some.1 sum
    simp only [store, Hook.draws]
    constructor <;> omega

/-- The state of a counter of permits goes down by what its hooks hand out, and never below zero. -/
theorem Synchronizer.draws_ask (x : Synchronizer) (policy : x.policy = .permits) (h : Hook) (a : ActorId)
    (arg : Int) :
    (x.ask h a arg).1.state = x.state - h.draws arg (x.ask h a arg).2 ∧
      (0 ≤ x.state → (h = .releaseShared → 0 < arg) → 0 ≤ (x.ask h a arg).1.state) := by
  rcases x.decides_ask h a arg with ⟨state, -, verdict⟩ | ⟨state, -, e, error⟩
  · rw [policy] at state verdict
    rw [state, verdict]
    cases h with
    | acquireShared =>
      obtain ⟨draws, enough⟩ := (x.inquiry a arg).draws_takePermits
      exact ⟨draws, fun before _ => enough before⟩
    | releaseShared =>
      obtain ⟨draws, enough⟩ := (x.inquiry a arg).draws_givePermits
      exact ⟨draws, fun before positive => enough before (positive rfl)⟩
    | _ => exact ⟨(Int.sub_zero _).symm, fun before _ => before⟩
  · rw [state, error, Hook.draws_error, Int.sub_zero]
    exact ⟨rfl, fun before _ => before⟩

def Operation.draws (s : SyncId) (op : Operation) (v : Value) : Int := op.acquires s v - op.releases s v

theorem Operation.draws_of_failed {x : Value} (failed : x ≠ .done ∧ ∀ b, x ≠ .truth b) :
    op.draws s x = 0 := by
  obtain ⟨ne, untrue⟩ := failed
  have acquires : op.acquires s x = 0 := by
    unfold acquires
    split
    · exact if_neg fun h => h.2.elim ne (untrue true)
    · rfl
  have releases : op.releases s x = 0 := by
    unfold releases
    split
    · exact absurd rfl (untrue _)
    · rfl
  rw [draws, acquires, releases, Int.sub_zero]

/-- A release tells no more than that the hook has answered. -/
theorem Operation.draws_release {t : SyncId} {b : Bool} :
    (Operation.release t m arg).draws s (.truth b) =
      if t = s then (Hook.toRelease m).draws arg (.ok v) else 0 := by
  rw [Hook.draws_toRelease]
  cases m
  · simp [draws, acquires, releases]
  · by_cases here : t = s <;> simp [draws, acquires, releases, here]

def Next.draws (s : SyncId) (op : Operation) : Next → Int
  | .goes p | .stops _ p => p.draws s
  | .ends v => op.draws s v

theorem Position.draws_answered {site : Site} {answer : Except SyncError Verdict} :
    (Position.call site (.answered answer)).draws s =
      if site.sync = s then site.hook.draws site.arg answer else 0 := rfl

/-- A claim that is granted has what it was for, and whoever makes it is told so. -/
theorem Claim.draws_outcome {c : Claim} {swallowed : Bool} (of : c.Of op) :
    (c.outcome swallowed).draws s op = if c.sync = s then (if c.mode = .shared then c.arg else 0) else 0 := by
  rcases Claim.of_cases (s := s) of with ⟨timed, style, purpose, rfl, -⟩ | ⟨v, style, rfl, rfl, -⟩
  · rw [Claim.outcome, purpose]
    cases mode : c.mode <;> cases timed <;>
      simp [Next.draws, Operation.draws, Operation.acquires, Operation.releases]
  · have nothing : v.claim.mode ≠ .shared := by simp [Waiting.claim]
    rw [if_neg nothing, ite_self]
    rcases v.claim.outcome_cases swallowed with ⟨x, eq⟩ | ⟨v', start, timeout, -, -, -, eq⟩
    · rw [eq]
      rfl
    · rw [eq]
      rfl

/-- Whoever gives up its claim in time has taken nothing. -/
theorem Claim.draws_late {c : Claim} (of : c.Of op) : op.draws s (.truth false) = 0 := by
  rcases Claim.of_cases (s := s) of with ⟨-, style, -, rfl, -⟩ | ⟨v, style, -, rfl, -⟩
  · cases mode : c.mode <;> simp [Operation.draws, Operation.acquires, Operation.releases]
  · rfl

/-- Nothing is handed out or taken back but by the hooks. -/
theorem Course.draws {w : World} {me : ActorId} {r : World × Next} (course : Course w me p r) (of : p.Of op)
    (unasked : ∀ site, p ≠ .call site .entering) : r.2.draws s op = p.draws s := by
  cases course with
  | @decline op' w' v unmet =>
    obtain rfl : op' = op := of
    have declined : (v = .failed .interrupted ∨ v = .failed .foreignCondition) → op'.draws s v = 0 :=
      fun told => Operation.draws_of_failed (by rcases told with rfl | rfl <;> simp)
    cases op' with
    | acquire | release => exact declined (unmet _ rfl)
    | _ => rfl
  | ask => exact absurd rfl (unasked _)
  | enter _ _ goes | leave _ _ goes => rcases goes with rfl | rfl <;> rfl
  | fail _ error =>
    rw [Position.draws_answered, Hook.draws_error, ite_self]
    exact Operation.draws_of_failed (by rcases error with rfl | ⟨f, rfl⟩ <;> simp)
  | queue refused | linger refused =>
    rw [Position.draws_answered, Site.hook, Hook.draws_toAcquire, refused]
    simp [Next.draws, Position.draws]
  | refuse refused _ told =>
    rw [Position.draws_answered]
    rcases told with ⟨⟨t, mode, arg, rfl⟩ | ⟨t, rfl⟩, rfl⟩ | ⟨t, rfl, rfl⟩ | ⟨t, c, e, rfl, rfl⟩ |
      ⟨t, n, saved, rfl, rfl⟩
    · obtain rfl : op = .release t mode arg := of
      exact Operation.draws_release
    · obtain rfl : op = .isHeld t := of
      exact (ite_self _).symm
    all_goals exact (Operation.draws_of_failed (by simp)).trans (ite_self _).symm
  | @conclude site c swallowed v _ granted gets =>
    rw [Position.draws_answered]
    rcases gets with ⟨rfl, -⟩ | ⟨q, rfl, rfl, -⟩
    · rw [Claim.draws_outcome of.1, Site.hook, Hook.draws_toAcquire]
      simp [granted, Site.sync, Site.arg]
    · rw [Claim.draws_outcome of, Site.hook, Hook.draws_toAcquire]
      simp [granted, Site.sync, Site.arg]
  | grant granted _ told =>
    rw [Position.draws_answered]
    rcases told with ⟨⟨t, mode, arg, rfl⟩ | ⟨t, rfl⟩, rfl⟩ | ⟨t, c, e, rfl⟩
    · obtain rfl : op = .release t mode arg := of
      exact Operation.draws_release
    · obtain rfl : op = .isHeld t := of
      exact (ite_self _).symm
    · obtain rfl : op = .errand t c e := of
      exact (ite_self _).symm
  | enterWait | letGo => exact (ite_self _).symm
  | expire => exact Claim.draws_late of.1
  | stray => exact Operation.draws_of_failed (by simp)
  | giveUp _ overdue =>
    rcases overdue with ⟨rfl, -⟩ | ⟨f, rfl⟩
    · exact Claim.draws_late of
    · exact Operation.draws_of_failed (by simp)
  | interrupt _ _ ended => exact Operation.draws_of_failed (by rcases ended with rfl | ⟨f, rfl⟩ <;> simp)
  | reckon => exact Operation.draws_of_failed (by simp)
  | park _ goes | sleep _ _ _ goes => rcases goes with rfl | ⟨-, ⟨t, rfl⟩, -⟩ <;> rfl
  | _ => rfl

theorem Claim.draws_nonneg {c : Claim} {answer : Except SyncError Verdict} (of : c.Of op)
    (rations : op.rations s = true) :
    0 ≤ if c.sync = s then (Hook.toAcquire c.mode).draws c.arg answer else 0 := by
  split
  swap
  · exact Int.le_refl 0
  rename_i here
  cases answer with
  | error e => rw [Hook.draws_error]
  | ok v =>
    rw [Hook.draws_toAcquire]
    split
    swap
    · exact Int.le_refl 0
    rename_i shared
    rcases Claim.of_cases (s := s) of with ⟨-, style, -, rfl, -⟩ | ⟨v, style, rfl, -, -⟩
    · exact Int.le_of_lt (by simpa [Operation.rations, here] using rations)
    · simp [Waiting.claim] at shared

/-- Whoever is rationed leaves the state to the hooks. -/
theorem Operation.unset_of_rations (rations : op.rations s = true) : op.sets s = false := by
  cases op <;> simp_all [sets, Operation.rations]

theorem Operation.yields_nonneg (rations : op.rations s = true) : 0 ≤ op.yields s := by
  unfold yields
  split
  · rename_i t arg
    split
    · rename_i here
      exact Int.le_of_lt (by simpa [Operation.rations, here] using rations)
    · exact Int.le_refl 0
  · exact Int.le_refl 0

theorem Operation.covered {t : SyncId} {answer : Except SyncError Verdict}
    (rations : (Operation.release t m arg).rations s = true) :
    0 ≤ (if t = s then (Hook.toRelease m).draws arg answer else 0) +
      (Operation.release t m arg).yields s := by
  have enough := yields_nonneg rations
  cases answer with
  | error e => rwa [Hook.draws_error, ite_self, Int.zero_add]
  | ok v =>
    rw [Hook.draws_toRelease]
    cases m
    · simpa using enough
    · rw [if_pos rfl, yields]
      split <;> omega

/-- What a release has taken back the actor is still giving back. -/
theorem Position.covered (of : p.Of op) (rations : op.rations s = true) : 0 ≤ p.draws s + p.yields s := by
  cases p with
  | start op' =>
    obtain rfl : op' = op := of
    exact (Int.zero_add _).symm ▸ Operation.yields_nonneg rations
  | call site stage =>
    cases told : stage.answer with
    | none =>
      have nothing : (call site stage).draws s = 0 := by rw [draws, told, Option.elim_none]
      rw [nothing, Int.zero_add]
      cases site with
      | release t m arg =>
        obtain rfl : op = .release t m arg := of
        exact Operation.yields_nonneg rations
      | _ => exact Int.le_refl 0
    | some answer =>
      have drawn : (call site stage).draws s =
          if site.sync = s then site.hook.draws site.arg answer else 0 := by
        rw [draws, told, Option.elim_some]
      rw [drawn]
      cases site with
      | attempt c => exact Int.add_nonneg (Claim.draws_nonneg of.1 rations) (Int.le_refl 0)
      | turn q => exact Int.add_nonneg (Claim.draws_nonneg of rations) (Int.le_refl 0)
      | release t m arg =>
        obtain rfl : op = .release t m arg := of
        exact Operation.covered rations
      | _ => exact Int.add_nonneg (Int.le_of_eq (ite_self _).symm) (Int.le_refl 0)
  | _ => exact Int.le_refl 0

end

/-- What an onlooker notes of everyone's operations. -/
structure Journal where
  diary : ActorId → Diary := fun _ => {}
  /-- The operations that have ended, each with its value. -/
  ended : List (Operation × Value) := []

namespace Journal

def ending (w : World) (j : Journal) : Event → Option (Operation × Value)
  | .step a => (w.step a).2.bind fun v => (j.diary a).task.map (·, v)
  | _ => none

def note (w : World) (e : Event) (j : Journal) : Journal where
  diary a := (j.diary a).note a w e
  ended := j.ended ++ (j.ending w e).toList

def since (w : World) (events : List Event) : Journal := World.collect note w events {}

def acquired (s : SyncId) (j : Journal) : Int := (j.ended.map fun x => x.1.acquires s x.2).sum

def released (s : SyncId) (j : Journal) : Int := (j.ended.map fun x => x.1.releases s x.2).sum

/-- What is taken out of a counter by everything that has ended. -/
def out (s : SyncId) (j : Journal) : Int := j.acquired s - j.released s

variable {s : SyncId} {w : World} {j : Journal} {e : Event}

theorem out_note_of_quiet (quiet : j.ending w e = none) : (j.note w e).out s = j.out s := by
  simp [out, acquired, released, note, quiet]

theorem out_note_of_ending {op : Operation} {v : Value} (ends : j.ending w e = some (op, v)) :
    (j.note w e).out s = j.out s + op.draws s v := by
  simp only [out, acquired, released, note, ends, Option.toList_some, List.map_append, List.map_cons,
    List.map_nil, List.sum_append, List.sum_singleton, Operation.draws]
  omega

end Journal

namespace World

section total

variable {f : Position → Int} {w : World} {a : ActorId} {p : Position} {e : Event}

def total (f : Position → Int) (w : World) : Int :=
  ∑ a ∈ Finset.range w.actors.size, (w.actor a).position.elim 0 f

/-- Everything that has been taken out of the counter without anyone having been told. -/
def draws (s : SyncId) (w : World) : Int := w.total (·.draws s)

def yields (s : SyncId) (w : World) : Int := w.total (·.yields s)

theorem size_actors_happen (w : World) (e : Event) : (w.happen e).actors.size = w.actors.size := by
  rcases w.happen_cases e with ⟨out, -⟩ | ⟨b, op, rfl⟩ | ⟨b, rfl⟩ | ⟨b, rfl⟩
  · exact out.actors
  · exact (w.solely_begin b op).actors
  · exact (w.solely_resume b).actors
  · by_cases running : ∃ p, (w.actor b).activity = .busy .running p
    · obtain ⟨p, running⟩ := running
      rw [happen, step_eq running, size_setActivity, (w.keeps_stride b p).actors]
    · rw [happen, step_of_not_running fun p hp => running ⟨p, hp⟩]

theorem total_eq_zero (none : ∀ a p, (w.actor a).position = some p → f p = 0) : w.total f = 0 := by
  refine Finset.sum_eq_zero fun a _ => ?_
  cases hp : (w.actor a).position with
  | none => rfl
  | some p => exact none a p hp

theorem total_happen (begins : ∀ op, f (.start op) = 0)
    (still : ∀ a p, e = .step a → (w.actor a).activity ≠ .busy .running p) :
    (w.happen e).total f = w.total f := by
  unfold total
  rw [size_actors_happen]
  refine Finset.sum_congr rfl fun a _ => ?_
  cases hp' : ((w.happen e).actor a).position with
  | none =>
    rcases w.idle_cases a hp' with ⟨hp, -⟩ | ⟨p, -, rfl, running, -⟩
    · rw [hp]
    · exact absurd running (still a p rfl)
  | some p' =>
    rcases w.position_cases a hp' with ⟨hp, -⟩ | ⟨op, rfl, idle, rfl⟩ | ⟨p, rfl, running, -⟩
    · rw [hp]
    · have hp : (w.actor a).position = none := by rw [Actor.position, idle]
      rw [hp]
      exact begins op
    · exact absurd running (still a p rfl)

theorem total_step (running : (w.actor a).activity = .busy .running p) :
    (w.happen (.step a)).total f = w.total f - f p + (w.stride a p).2.position.elim 0 f := by
  have inTable : a ∈ Finset.range w.actors.size :=
    Finset.mem_range.2 (lt_of_position (by simp [Actor.position, running]))
  have mine : ((w.happen (.step a)).actor a).position = (w.stride a p).2.position :=
    Next.position_of_actor (activity_step running)
  have others : ∀ b ∈ Finset.erase (Finset.range w.actors.size) a,
      ((w.happen (.step a)).actor b).position.elim 0 f = (w.actor b).position.elim 0 f := by
    intro b hb
    rw [happen, position_step_of_ne (Finset.ne_of_mem_erase hb)]
  have before := Finset.add_sum_erase _ (fun b : Nat => (w.actor b).position.elim 0 f) inTable
  have after := Finset.add_sum_erase _
    (fun b : Nat => ((w.happen (.step a)).actor b).position.elim 0 f) inTable
  rw [Actor.position_of_busy running, Option.elim_some] at before
  rw [Finset.sum_congr rfl others, mine] at after
  unfold total
  rw [size_actors_happen, ← before, ← after]
  omega

end total

/-- What a step takes out it tells of, or has yet to tell of. -/
theorem drawn_step {s : SyncId} {w : World} {a : ActorId} {p : Position} {j : Journal}
    (running : (w.actor a).activity = .busy .running p) {op : Operation} (task : (j.diary a).task = some op) :
    (j.note w (.step a)).out s + (w.happen (.step a)).draws s =
      j.out s + w.draws s + ((w.stride a p).2.draws s op - p.draws s) := by
  have moves : (w.happen (.step a)).draws s = _ := total_step running
  rw [moves]
  have value := step_value running
  cases next : (w.stride a p).2 with
  | ends v =>
    have ends : j.ending w (.step a) = some (op, v) := by
      simp [Journal.ending, value, next, Next.value, task]
    rw [Journal.out_note_of_ending ends]
    simp only [Next.position, Next.draws, Option.elim_none, draws]
    omega
  | _ =>
    have quiet : j.ending w (.step a) = none := by simp [Journal.ending, value, next, Next.value]
    rw [Journal.out_note_of_quiet quiet]
    simp only [Next.position, Next.draws, Option.elim_some, draws]
    omega

/-- The journal accounts for all permits: those that are left, those that have been acquired, and those
that are on their way. -/
structure Rationed (s : SyncId) (capacity : Int) (w : World) (j : Journal) : Prop where
  seated : Seated s w
  policy : (w.sync s).policy = .permits
  shares : ∀ a p, (w.actor a).position = some p → p.shares s = true
  tracks : ∀ a, (j.diary a).Tracks a w
  rations : ∀ a op, (j.diary a).task = some op → op.rations s = true
  fresh : ∀ a, (w.actor a).Fresh
  enough : 0 ≤ (w.sync s).state
  balance : (w.sync s).state + j.out s + w.draws s = capacity

namespace Rationed

variable {s : SyncId} {capacity : Int} {w : World} {j : Journal} {e : Event} {a : ActorId} {p : Position}

theorem known (h : Rationed s capacity w j) (hp : (w.actor a).position = some p) :
    ∃ op, (j.diary a).task = some op ∧ p.Of op ∧ op.rations s = true := by
  obtain ⟨op, task, of⟩ := h.tracks a p hp
  exact ⟨op, task, of, h.rations a op task⟩

/-- Nothing but its hooks changes what there is in the counter. -/
theorem kept (h : Rationed s capacity w j) (unasked : ∀ a site, e = .step a →
    (w.actor a).activity = .busy .running (.call site .entering) → site.sync ≠ s) :
    ((w.happen e).sync s).policy = (w.sync s).policy ∧ ((w.happen e).sync s).state = (w.sync s).state := by
  rcases h.seated.sync_happen e with ⟨a, op, rfl, running, -, rewritten⟩ |
    ⟨a, site, rfl, running, here, -⟩ | ⟨-, q, f, same⟩
  · obtain ⟨op', -, of, rations⟩ := h.known (Actor.position_of_busy running)
    obtain rfl : op = op' := of
    exact ⟨rewritten.policy, rewritten.state (Operation.unset_of_rations rations)⟩
  · exact absurd here (unasked a site rfl running)
  · rw [same]
    exact ⟨rfl, rfl⟩

/-- Permits go from the counter to whoever asks it, and back. -/
theorem step (h : Rationed s capacity w j) (running : (w.actor a).activity = .busy .running p) :
    ((w.happen (.step a)).sync s).policy = .permits ∧ 0 ≤ ((w.happen (.step a)).sync s).state ∧
      ((w.happen (.step a)).sync s).state + (j.note w (.step a)).out s + (w.happen (.step a)).draws s =
        capacity := by
  obtain ⟨op, task, of, rations⟩ := h.known (Actor.position_of_busy running)
  have drawn := drawn_step (s := s) running task
  have balance := h.balance
  by_cases asked : ∃ site, p = .call site .entering ∧ site.sync = s
  · obtain ⟨site, rfl, rfl⟩ := asked
    have sync : (w.happen (.step a)).sync site.sync = ((w.sync site.sync).ask site.hook a site.arg).1 :=
      sync_asks h.seated.inTable running rfl
    have draws : (w.stride a (.call site .entering)).2.draws site.sync op =
        site.hook.draws site.arg ((w.sync site.sync).ask site.hook a site.arg).2 := if_pos rfl
    have nothing : (Position.call site .entering).draws site.sync = 0 := rfl
    obtain ⟨state, enough⟩ := (w.sync site.sync).draws_ask h.policy site.hook a site.arg
    rw [sync, Synchronizer.policy_ask]
    refine ⟨h.policy, enough h.enough fun releases => ?_, by omega⟩
    cases site with
    | release t mode arg =>
      obtain rfl : op = .release t mode arg := of
      simpa [Operation.rations, Site.sync, Site.arg] using rations
    | attempt c => cases mode : c.mode <;> simp [Site.hook, Hook.toAcquire, mode] at releases
    | turn q => cases mode : q.claim.mode <;> simp [Site.hook, Hook.toAcquire, mode] at releases
    | _ => simp [Site.hook] at releases
  · obtain ⟨policy, state⟩ := h.kept (e := .step a) fun b site here running' there => by
      obtain rfl := Event.step.inj here
      obtain ⟨-, rfl⟩ := Activity.busy.inj (running.symm.trans running')
      exact asked ⟨site, rfl, there⟩
    have same : (w.stride a p).2.draws s op = p.draws s := by
      rcases w.stride_course a p with ⟨-, -, eq⟩ | ⟨eq, course⟩
      · rw [eq]
        rfl
      · by_cases elsewhere : ∃ site, p = .call site .entering
        · obtain ⟨site, rfl⟩ := elsewhere
          exact if_neg fun here => asked ⟨site, rfl, here⟩
        · exact course.draws of fun site here => elsewhere ⟨site, here⟩
    exact ⟨policy.trans h.policy, state ▸ h.enough, by omega⟩

theorem happen (h : Rationed s capacity w j) (rations : e.rations s = true) :
    Rationed s capacity (w.happen e) (j.note w e) := by
  have accounts : ((w.happen e).sync s).policy = .permits ∧ 0 ≤ ((w.happen e).sync s).state ∧
      ((w.happen e).sync s).state + (j.note w e).out s + (w.happen e).draws s = capacity := by
    by_cases steps : ∃ a p, e = .step a ∧ (w.actor a).activity = .busy .running p
    · obtain ⟨a, p, rfl, running⟩ := steps
      exact h.step running
    have still : ∀ a p, e = .step a → (w.actor a).activity ≠ .busy .running p :=
      fun a p here running => steps ⟨a, p, here, running⟩
    obtain ⟨policy, state⟩ := h.kept (e := e) fun a site here running => absurd running (still a _ here)
    have quiet : j.ending w e = none := by
      cases e with
      | step a =>
        rw [Journal.ending, step_of_not_running fun p => still a p rfl]
        rfl
      | _ => rfl
    have draws : (w.happen e).draws s = w.draws s := total_happen (fun _ => rfl) still
    rw [policy, state, Journal.out_note_of_quiet quiet, draws]
    exact ⟨h.policy, h.enough, h.balance⟩
  obtain ⟨policy, enough, balance⟩ := accounts
  refine ⟨h.seated.happen (exclusive_of_shares h.shares) e, policy, ?_, fun a => (h.tracks a).happen e,
    fun a op task => ?_, fun a => (h.fresh a).happen e, enough, balance⟩
  · refine h.seated.positions (P := fun _ p => p.shares s = true) h.shares (fun _ _ _ => rfl) ?_
    exact fun a p p' _ _ on => Policy.counter_permits.shares_of_onward h.policy on
  · cases e with
    | begin b op' =>
      change ((j.diary a).note a w (.begin b op')).task = some op at task
      rw [Diary.note] at task
      split at task
      · obtain rfl := Option.some.inj task
        exact rations
      · exact h.rations a op task
    | _ => exact h.rations a op task

theorem create {actors tokens : Nat} {syncs : List Synchronizer} {conditions : List SyncId}
    {x : Synchronizer} (hx : syncs[s]? = some x) (policy : x.policy = .permits) (empty : x.queue = .empty)
    (enough : 0 ≤ x.state) :
    Rationed s x.state (World.create actors tokens syncs conditions) {} := by
  have idle := position_create actors tokens syncs conditions
  have same : (World.create actors tokens syncs conditions).sync s = x := sync_create hx
  refine ⟨.create hx empty, by rw [same, policy], fun a p hp => absurd hp (idle a p),
    fun a p hp => absurd hp (idle a p), fun a op task => by simp at task, fun a st p busy => ?_,
    by rw [same]; exact enough, ?_⟩
  · exact absurd (Actor.position_of_busy busy) (idle a p)
  · have nothing : (World.create actors tokens syncs conditions).draws s = 0 := by
      exact total_eq_zero fun a p hp => absurd hp (idle a p)
    rw [same, nothing]
    exact (Int.add_zero _).trans (Int.add_zero _)

/-- At rest everyone has been told of what has been taken out. -/
theorem draws_eq_zero (h : Rationed s capacity w j) (rests : w.resting = true) : w.draws s = 0 := by
  refine total_eq_zero fun a p hp => ?_
  cases activity : (w.actor a).activity with
  | idle => simp [Actor.position, activity] at hp
  | busy st p' =>
    obtain rfl := Option.some.inj ((Actor.position_of_busy activity).symm.trans hp)
    obtain ⟨running, paused⟩ := standing_of_resting rests activity
    have stops := ((h.fresh a st p' activity).resolve_left running |>.resolve_left paused).2
    cases p' with
    | call => simp [Position.parks, Position.readsClock] at stops
    | _ => rfl

/-- Nobody has given back more than it is about to tell. -/
theorem covered (h : Rationed s capacity w j) : 0 ≤ w.draws s + w.yields s := by
  rw [draws, yields, total, total, ← Finset.sum_add_distrib]
  refine Finset.sum_nonneg fun a _ => ?_
  cases hp : (w.actor a).position with
  | none => exact Int.le_refl 0
  | some p =>
    obtain ⟨op, -, of, rations⟩ := h.known hp
    exact Position.covered of rations

end Rationed

/-- There is always enough left in the counter, and what is left at rest adds up with what has been acquired
and not released to what there was. -/
theorem permits_conserved {s : SyncId} {actors tokens : Nat} {syncs : List Synchronizer}
    {conditions : List SyncId} {x : Synchronizer} (hx : syncs[s]? = some x) (policy : x.policy = .permits)
    (empty : x.queue = .empty) (enough : 0 ≤ x.state) {events : List Event}
    (rations : ∀ e ∈ events, e.rations s = true) :
    let start := World.create actors tokens syncs conditions
    let w := start.after events
    let j := Journal.since start events
    0 ≤ (w.sync s).state ∧ j.acquired s - j.released s - w.yields s ≤ x.state ∧
      (w.resting = true → (w.sync s).state + j.acquired s - j.released s = x.state) := by
  intro start w j
  have rationed : Rationed s x.state w j :=
    collect_invariant (fun _ _ _ => Rationed.happen) (.create hx policy empty enough)
      (Obeys.of_forall rations)
  have balance := rationed.balance
  have covered := rationed.covered
  have left := rationed.enough
  rw [Journal.out] at balance
  refine ⟨left, by omega, fun rests => ?_⟩
  have told := rationed.draws_eq_zero rests
  omega

/-- Two of three permits are out when another two are asked for in vain, and one comes back. -/
theorem permits_conserved_short :
    let start := World.create 2 0 [{ policy := .permits, state := 3 }] []
    let events : List Event :=
      .begin 0 (.acquire 0 .shared 2 .plain) :: List.replicate 5 (Event.step 0) ++
        .begin 1 (.acquire 0 .shared 2 (.timed none (.timeout 1000000))) ::
        List.replicate 24 (Event.step 1) ++
        .begin 0 (.release 0 .shared 1) :: .breakHook 0 .acquireShared .notHeld (some 1) ::
        .elapse 1000000 :: .resume 1 :: List.replicate 12 (Event.step 1) ++ List.replicate 5 (Event.step 0)
    let w := start.after events
    let j := Journal.since start events
    j.acquired 0 = 2 ∧ j.released 0 = 1 ∧ (w.sync 0).state = 2 := by
  intro start events w j
  have acquired : j.acquired 0 = 2 := by decide +kernel
  have released : j.released 0 = 1 := by decide +kernel
  have rests : w.resting = true := by decide +kernel
  have rations : ∀ e ∈ events, e.rations 0 = true := by decide +kernel
  have sum : (w.sync 0).state + j.acquired 0 - j.released 0 = 3 :=
    (permits_conserved (x := { policy := .permits, state := 3 }) rfl rfl rfl (by decide) rations).2.2 rests
  exact ⟨acquired, released, by omega⟩

end World

end Turnstile
