import Turnstile.Proofs.World.Order

/-! Nothing goes wrong in an orderly run: whoever looks for the node before its own finds one, whoever takes
its synchronizer back after a wait gives up only if a hook fails, and whoever waits no longer for a signal
that has come is in the queue already. -/
namespace Turnstile

open WaitQueue (Shaped)

/-- The walk back from a place in the queue leads through nodes that have given up to one that has not. -/
theorem WaitQueue.Shaped.walk {q : WaitQueue} {h n : NodeId} {body : List NodeId} (hq : Shaped q h body)
    (hn : n ∈ q.live) : ∃ dead m, Leads (fun n => (q.node n).prev) (n :: dead) (some m) ∧
      (∀ k ∈ dead, (q.node k).isLive = false) ∧ (q.node m).isLive = true := by
  obtain ⟨ys, xs, rfl⟩ := List.append_of_mem (hq.mem_live.1 hn).1
  have links := (leads_append.1 hq.prevs).2
  set dead := xs.takeWhile fun k => !(q.node k).isLive with hdead
  have parts : dead ++ xs.dropWhile (fun k => !(q.node k).isLive) = xs := List.takeWhile_append_dropWhile
  have gone : ∀ k ∈ dead, (q.node k).isLive = false := fun k hk => by
    simpa using List.all_eq_true.1 List.all_takeWhile k hk
  cases rest : xs.dropWhile fun k => !(q.node k).isLive with
  | nil =>
    rw [rest, List.append_nil] at parts
    exact ⟨dead, h, parts.symm ▸ links, gone, hq.front_live⟩
  | cons m rest' =>
    rw [rest] at parts
    rw [← parts, ← List.cons_append] at links
    refine ⟨dead, m, (leads_append.1 links).1, gone, ?_⟩
    have alive := List.head?_dropWhile_not (fun k => !(q.node k).isLive) xs
    simpa [rest] using alive

/-- The synchronizer without which the actor would not be where it is: a hook of it has answered with more
than an error, or the actor has a node there. -/
def Position.relies : Position → Option SyncId
  | .call (.turn q) _ => some q.claim.sync
  | .call (.letGo t _ _) _ => some t.sync
  | .call site (.leaving (.ok _)) | .call site (.answered (.ok _)) => some site.sync
  | .queueing c => some c.sync
  | .turn q | .lingering q | .roused q => some q.claim.sync
  | .waiting v | .dozing v | .awoken v => some v.terms.sync
  | _ => none

theorem Position.relies_of_place {p : Position} {q : Queued} (place : p.place = some q) :
    p.relies = some q.claim.sync := by
  cases p with
  | turn | lingering | roused =>
    obtain rfl := Option.some.inj place
    rfl
  | call site stage =>
    cases site with
    | turn =>
      obtain rfl := Option.some.inj place
      rfl
    | _ => simp [Position.place] at place
  | _ => simp [Position.place] at place

/-- Nobody comes to rely on a synchronizer but by an answer of its hooks. -/
theorem Course.relies {w : World} {me : ActorId} {p p' : Position} {r : World × Next} {s : SyncId}
    (course : Course w me p r) (next : r.2.position = some p') (relies : p'.relies = some s) :
    p.relies = some s ∨ ∃ site v, p = .call site .entering ∧ site.sync = s ∧
      ((w.sync s).ask site.hook me site.arg).2 = .ok v := by
  cases course with
  | @«open» op _ site opens =>
    obtain rfl := Option.some.inj next
    cases op with
    | acquire | release | isHeld | wait | errand =>
      obtain rfl := Option.some.inj opens
      simp [Position.relies] at relies
    | _ => simp [Operation.site] at opens
  | @enter site _ _ _ _ goes =>
    obtain rfl := Next.position_of_pauses goes next
    cases site <;> exact Or.inl relies
  | @leave site answer _ _ _ _ goes =>
    obtain rfl := Next.position_of_pauses goes next
    cases site <;> cases answer <;> exact Or.inl relies
  | @ask site =>
    obtain rfl := Option.some.inj next
    cases answer : ((w.sync site.sync).ask site.hook me site.arg).2 with
    | error e =>
      rw [answer] at relies
      cases site <;> exact Or.inl relies
    | ok v =>
      rw [answer] at relies
      have here : site.sync = s := by cases site <;> exact Option.some.inj relies
      exact Or.inr ⟨site, v, rfl, here, here ▸ answer⟩
  | @conclude site c swallowed =>
    rcases c.outcome_cases swallowed with ⟨v, eq⟩ | ⟨v, start, timeout, -, -, -, eq⟩
    · simp [eq, Next.position] at next
    · obtain rfl := Option.some.inj ((congrArg Next.position eq).symm.trans next)
      simp [Position.relies] at relies
  | park _ goes | sleep _ _ _ goes =>
    obtain rfl := Next.position_of_parks goes next
    exact Or.inl relies
  | queue | linger | enterWait | letGo | join | call | await | again | retry | swallow | reclaim | doze |
    timeOut | look | cancel | putOff =>
    obtain rfl := Option.some.inj next
    exact Or.inl relies
  | _ => simp [Next.position] at next

namespace World

variable {w : World} {a : ActorId} {p : Position} {q : Queued} {s : SyncId} {e : Event}

theorem size_syncs_after (w : World) (events : List Event) : (w.after events).syncs.size = w.syncs.size := by
  induction events generalizing w with
  | nil => rfl
  | cons e rest ih => exact (ih (w.happen e)).trans (w.queues_happen e).1

/-- Everyone relies on synchronizers that there are. -/
def Rooted (w : World) : Prop :=
  ∀ a p s, (w.actor a).position = some p → p.relies = some s → s < w.syncs.size

/-- A synchronizer that there is not answers with errors alone. -/
theorem inTable_of_ok {hook : Hook} {arg : Int} {v : Verdict}
    (ok : ((w.sync s).ask hook a arg).2 = .ok v) : s < w.syncs.size := by
  by_contra outside
  have bare : w.sync s = default := Table.get_of_size_le (Nat.le_of_not_lt outside)
  rw [bare] at ok
  exact nomatch ok

theorem Rooted.happen (h : Rooted w) (e : Event) : Rooted (w.happen e) := by
  intro a p' s hp' relies
  rw [(w.queues_happen e).1]
  rcases w.position_cases a hp' with ⟨hp, -⟩ | ⟨op, -, -, rfl⟩ | ⟨p, rfl, running, course, next⟩
  · exact h a p' s hp relies
  · simp [Position.relies] at relies
  · rcases course.relies next relies with before | ⟨site, v, rfl, -, ok⟩
    · exact h a p s (Actor.position_of_busy running) before
    · rw [sync_looked] at ok
      exact inTable_of_ok ok

theorem Rooted.create {actors tokens : Nat} {syncs : List Synchronizer} {conditions : List SyncId} :
    Rooted (World.create actors tokens syncs conditions) :=
  fun a p _ hp => absurd hp (position_create _ _ _ _ a p)

theorem Rooted.after (h : Rooted w) (events : List Event) : Rooted (w.after events) := by
  induction events generalizing w with
  | nil => exact h
  | cons e rest ih => exact ih (h.happen e)

/-! Only those who try again from a place in the queue look for the node before their own. -/

theorem unfaulted_start (op : Operation) (f : Fault) : (w.startOperation a op).2 ≠ .ends (.faulted f) := by
  have registers : ∀ patience site, (w.registerThen a patience site).2 ≠ .ends (.faulted f) := by
    intro patience site
    unfold registerThen
    dsimp only
    split <;> simp
  cases op with
  | acquire _ _ _ style => cases style <;> exact registers _ _
  | wait =>
    simp only [startOperation]
    split
    · exact registers _ _
    · simp
  | errand | exchangeState =>
    simp only [startOperation]
    split <;> simp
  | _ => simp [startOperation]

theorem unfaulted_resolve {site : Site} (apart : ∀ q, site ≠ .turn q) (answer : Except SyncError Verdict)
    (f : Fault) : (w.resolve a site answer).2 ≠ .ends (.faulted f) := by
  cases answer with
  | error e =>
    cases site with
    | turn q => exact absurd rfl (apart q)
    | _ => simp [World.resolve, resolveError, dropWait]
  | ok v =>
    unfold World.resolve
    dsimp only
    split
    · cases site with
      | turn q => exact absurd rfl (apart q)
      | attempt c =>
        rw [resolveGrant, (w.conclude_spec c false).1]
        exact c.unfaulted_outcome false f
      | release s mode => cases mode <;> simp [resolveGrant]
      | errand s c e => cases e <;> simp [resolveGrant, World.runErrand]
      | _ => simp [resolveGrant, World.enterCondition]
    · cases site with
      | turn q => exact absurd rfl (apart q)
      | _ => simp [resolveRefusal, dropWait]

theorem place_of_faulted {f : Fault} (faulted : (w.advance a p).2 = .ends (.faulted f)) :
    ∃ q, p.place = some q := by
  by_contra nowhere
  have apart : ∀ q, p.place ≠ some q := fun q place => nowhere ⟨q, place⟩
  cases p with
  | start op => exact unfaulted_start op f faulted
  | call site stage =>
    cases stage with
    | arriving | leaving =>
      unfold World.advance callHook trip at faulted
      dsimp only at faulted
      split at faulted <;> simp at faulted
    | entering => simp [World.advance, callHook] at faulted
    | answered answer =>
      refine unfaulted_resolve (fun q same => ?_) answer f faulted
      exact apart q (by rw [same]; rfl)
  | turn q | lingering q | roused q => exact apart q rfl
  | queueing c =>
    unfold World.advance at faulted
    dsimp only at faulted
    split at faulted <;> simp [World.queueUp] at faulted
  | waiting v =>
    unfold World.advance at faulted
    dsimp only at faulted
    split at faulted <;> simp at faulted
  | dozing v =>
    have course : Course w a (.dozing v) (w.advance a (.dozing v)) := course_doze v
    generalize w.advance a (.dozing v) = r at course faulted
    cases course with
    | timeOut => simp at faulted
    | sleep _ _ _ goes => rcases goes with rfl | ⟨-, ⟨t, rfl⟩, -⟩ <;> simp at faulted
  | awoken v =>
    have course : Course w a (.awoken v) (w.advance a (.awoken v)) := course_awake v
    generalize w.advance a (.awoken v) = r at course faulted
    cases course <;> simp at faulted
  | reckoning => simp [World.advance] at faulted

/-- As long as everybody relies on synchronizers where the seats are kept, no step goes wrong. -/
theorem Rooted.unfaulted (h : Rooted w) (seated : ∀ s < w.syncs.size, Seated s w) (f : Fault) :
    (w.step a).2 ≠ some (.faulted f) := by
  intro faulted
  obtain ⟨p, running, ends⟩ := running_of_step faulted
  rcases w.stride_course a p with ⟨-, -, eq⟩ | ⟨eq, -⟩
  · simp [eq] at ends
  · obtain ⟨q, place⟩ := place_of_faulted (eq ▸ ends)
    have inTable := h a p _ (Actor.position_of_busy running) (Position.relies_of_place place)
    exact (seated _ inTable).unfaulted running place rfl f ends

/-- Whoever takes its synchronizer back after a wait goes on until a hook consents or fails. -/
theorem Seated.ends_afterWait (hw : Seated s w) {op : Operation} (of : q.claim.Of op)
    (here : q.claim.sync = s) (running : (w.actor a).activity = .busy .running p)
    (place : p.place = some q) {v : Waiting} (purpose : q.claim.purpose = .afterWait v) {x : Value}
    (ends : (w.step a).2 = some x) :
    ∃ answer, p = .call (.turn q) (.answered answer) ∧
      (grants answer = true ∨ ∃ e, answer = .error e ∧ x = .failed e) := by
  obtain ⟨-, eq⟩ : v.terms.Of op ∧ q.claim = v.claim := by
    rw [Claim.Of, purpose] at of
    exact of
  have patience : q.claim.patience = { token := v.terms.patience.token } := by
    rw [eq]
    rfl
  obtain ⟨p', running', next⟩ := running_of_step ends
  obtain ⟨-, rfl⟩ := Activity.busy.inj (running.symm.trans running')
  have sound : ∀ f, x ≠ .faulted f := by
    rintro f rfl
    exact hw.unfaulted running place here f next
  rcases w.stride_course a p with ⟨-, -, spins⟩ | ⟨-, course⟩
  · simp [spins] at next
  generalize w.stride a p = r at course next
  cases course with
  | @fail site e w' v' _ error =>
    obtain rfl := Next.ends.inj next
    cases site with
    | turn =>
      obtain rfl := Option.some.inj place
      refine ⟨_, rfl, Or.inr ⟨e, rfl, error.resolve_right ?_⟩⟩
      rintro ⟨f, faulted⟩
      exact sound f faulted
    | _ => simp [Position.place] at place
  | @conclude site c swallowed verdict w' granted =>
    cases site with
    | turn =>
      obtain rfl := Option.some.inj place
      exact ⟨_, rfl, Or.inl granted⟩
    | _ => simp [Position.place] at place
  | stray =>
    obtain rfl := Next.ends.inj next
    exact absurd rfl (sound _)
  | giveUp _ overdue =>
    obtain rfl := Option.some.inj place
    obtain rfl := Next.ends.inj next
    rcases overdue with ⟨-, t, deadline, -⟩ | ⟨f, faulted⟩
    · simp [patience] at deadline
    · exact absurd faulted (sound f)
  | interrupt _ interruptible =>
    obtain rfl := Option.some.inj place
    simp [patience] at interruptible
  | park _ goes =>
    rcases goes with rfl | ⟨-, ⟨t, rfl⟩, -⟩ <;> simp at next
  | enter _ _ goes | leave _ _ goes =>
    rcases goes with rfl | rfl <;> simp at next
  | @refuse site | @grant site =>
    cases site with
    | turn => simp_all
    | _ => simp [Position.place] at place
  | ask | linger | call | await | again | retry | swallow => simp at next
  | _ => simp [Position.place] at place

/-- Whoever waits on a condition no longer is found in the queue. -/
theorem Seated.holds_of_left (hw : Seated s w) {v : Waiting} (here : v.terms.sync = s)
    (hp : (w.actor a).position = some (.waiting v) ∨ (w.actor a).position = some (.dozing v) ∨
      (w.actor a).position = some (.awoken v)) (left : ((w.queue s).node v.node).status ≠ .condition) :
    (w.queue s).holds v.node = true := by
  obtain ⟨h, body, hq⟩ := hw.shaped
  have seat : ∀ p, (w.actor a).position = some p → p.seat s = .waiting v.node →
      (w.queue s).holds v.node = true := by
    intro p hp seat
    exact hq.holds_of_mem (((hw.seats a p hp).inUse (by rw [seat]; rfl)).resolve_right left)
  rcases hp with hp | hp | hp <;> exact seat _ hp (if_pos here)

/-- Nothing goes wrong in a run that is orderly at every synchronizer, whatever the hooks answer. -/
theorem faultless {actors tokens : Nat} {syncs : List Synchronizer} {conditions : List SyncId}
    {events : List Event} (orderly : ∀ s x, syncs[s]? = some x →
      x.queue = .empty ∧ Orderly s (World.create actors tokens syncs conditions) events) :
    let w := (World.create actors tokens syncs conditions).after events
    (∀ a f, (w.step a).2 ≠ some (.faulted f)) ∧
    (∀ a q, (w.actor a).place = some q →
      let queue := w.queue q.claim.sync
      ∃ dead m, Leads (fun n => (queue.node n).prev) (q.node :: dead) (some m) ∧
        (∀ k ∈ dead, (queue.node k).isLive = false) ∧ (queue.node m).isLive = true) ∧
    (∀ a p q v x, (w.actor a).activity = .busy .running p → p.place = some q →
      q.claim.purpose = .afterWait v → (w.step a).2 = some x →
      ∃ answer, p = .call (.turn q) (.answered answer) ∧
        (grants answer = true ∨ ∃ e, answer = .error e ∧ x = .failed e)) ∧
    ∀ a v, (w.actor a).position = some (.waiting v) ∨ (w.actor a).position = some (.dozing v) ∨
        (w.actor a).position = some (.awoken v) →
      ((w.queue v.terms.sync).node v.node).status ≠ .condition →
      (w.queue v.terms.sync).holds v.node = true := by
  intro w
  have rooted : Rooted w := Rooted.create.after events
  have size : w.syncs.size = syncs.length :=
    (World.size_syncs_after _ events).trans (by simp [World.create])
  have ordered : ∀ s < w.syncs.size, InOrder s w := by
    intro s inTable
    rw [size] at inTable
    obtain ⟨empty, orderly⟩ := orderly s syncs[s] (List.getElem?_eq_getElem inTable)
    exact .after (List.getElem?_eq_getElem inTable) empty orderly
  have root : ∀ {a p s}, (w.actor a).position = some p → p.relies = some s → InOrder s w :=
    fun hp relies => ordered _ (rooted _ _ _ hp relies)
  refine ⟨fun a f => rooted.unfaulted (fun s inTable => (ordered s inTable).seated) f, fun a q place => ?_,
    fun a p q v x running place purpose ends => ?_, fun a v hp left => ?_⟩
  · obtain ⟨p, hp, place⟩ := Option.bind_eq_some_iff.1 place
    have hw := root hp (Position.relies_of_place place)
    obtain ⟨h, body, hq⟩ := hw.seated.shaped
    exact hq.walk (hw.seated.live_of_place hp place rfl).1
  · have hp := Actor.position_of_busy running
    have hw := root hp (Position.relies_of_place place)
    obtain ⟨op, of, -⟩ := hw.tasked a p hp
    exact hw.seated.ends_afterWait (of.place place) rfl running place purpose ends
  · have hw : InOrder v.terms.sync w := by
      rcases hp with hp | hp | hp <;> exact root hp rfl
    exact hw.seated.holds_of_left rfl hp left

set_option maxRecDepth 8000 in
/-- Of three behind the holder the second has been cancelled, and the third still stands behind its node. -/
theorem faultless_cancelled :
    let w := (World.create 4 1 [{ policy := .mutex, state := 0 }] []).after
      (.begin 0 (.acquire 0 .exclusive 1 .plain) :: List.replicate 5 (Event.step 0) ++
        .begin 1 (.acquire 0 .exclusive 1 .plain) :: List.replicate 18 (Event.step 1) ++
        .begin 2 (.acquire 0 .exclusive 1 (.interruptible (some 0))) :: List.replicate 18 (Event.step 2) ++
        .begin 3 (.acquire 0 .exclusive 1 .plain) :: List.replicate 18 (Event.step 3) ++
        .cancel 0 :: .resume 2 :: [.step 2])
    let q : Queued := ⟨⟨0, .exclusive, 1, {}, .operation false⟩, 3, false⟩
    (w.actor 3).place = some q ∧ ((w.queue 0).node 3).prev = some 2 ∧
      ((w.queue 0).node 2).isLive = false ∧
      ∃ dead m, Leads (fun n => ((w.queue 0).node n).prev) (3 :: dead) (some m) ∧
        (∀ k ∈ dead, ((w.queue 0).node k).isLive = false) ∧ ((w.queue 0).node m).isLive = true :=
  have orderly : ∀ s x, ([{ policy := .mutex, state := 0 }] : List Synchronizer)[s]? = some x →
      x.queue = WaitQueue.empty ∧ Orderly s _ _
    | 0, _, rfl => ⟨rfl, Or.inl (by decide)⟩
    | _ + 1, _, h => nomatch h
  have place := by decide +kernel
  have behind := (faultless orderly).2.1 3 _ place
  ⟨place, by decide +kernel, by decide +kernel, behind⟩

end World

end Turnstile
