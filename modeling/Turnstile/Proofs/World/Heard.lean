import Turnstile.Proofs.World.Onward

/-! What an event comes to: where the actors stand after it, and what becomes of a synchronizer. -/
namespace Turnstile

namespace World

variable {w : World} {me : ActorId} {p' : Position}

theorem step_asks {site : Site}
    (running : (w.actor me).activity = .busy .running (.call site .entering)) :
    (w.step me).1 = (w.ask site.sync site.hook me site.arg).1.setActivity me
      (.busy .running (.call site (.leaving ((w.sync site.sync).ask site.hook me site.arg).2))) := by
  rw [step_eq running]
  rfl

theorem sync_asks {s : SyncId} {site : Site} (inTable : s < w.syncs.size)
    (running : (w.actor me).activity = .busy .running (.call site .entering)) (here : site.sync = s) :
    (w.step me).1.sync s = ((w.sync s).ask site.hook me site.arg).1 := by
  subst here
  rw [step_asks running]
  change (w.modifySync site.sync _).sync site.sync = _
  rw [sync_modifySync, if_pos ⟨rfl, inTable⟩]
  rfl

theorem queue_congr {w' : World} {s : SyncId} (syncs : w'.syncs = w.syncs) : w'.queue s = w.queue s := by
  rw [queue, sync, syncs]
  rfl

/-- What a direct write makes of a synchronizer: it may change the state or the owner. -/
def Rewritten (s : SyncId) (op : Operation) (x y : Synchronizer) : Prop :=
  ∃ state owner, y = { x with state := state, owner := owner } ∧ (op.sets s = false → state = x.state)

namespace Rewritten

variable {s : SyncId} {op : Operation} {x y : Synchronizer}

theorem policy (h : Rewritten s op x y) : y.policy = x.policy := by
  obtain ⟨state, owner, rfl, -⟩ := h
  rfl

theorem queue (h : Rewritten s op x y) : y.queue = x.queue := by
  obtain ⟨state, owner, rfl, -⟩ := h
  rfl

theorem state (h : Rewritten s op x y) (unset : op.sets s = false) : y.state = x.state := by
  obtain ⟨state, owner, rfl, keeps⟩ := h
  exact keeps unset

end Rewritten

/-- Whoever writes to a synchronizer directly touches nothing else, and is done. -/
theorem start_of_asks (w : World) (me : ActorId) {s : SyncId} {op : Operation}
    (asks : (Position.start op).asks s = true) :
    ∃ w' v, w.startOperation me op = (w', .ends v) ∧ w'.actors = w.actors ∧
      Rewritten s op (w.sync s) (w'.sync s) := by
  have rewritten : ∀ (t : SyncId) (f : Synchronizer → Synchronizer), (∀ x, Rewritten s op x (f x)) →
      Rewritten s op (w.sync s) ((w.modifySync t f).sync s) := by
    intro t f writes
    rw [sync_modifySync]
    split
    · exact writes _
    · exact ⟨_, _, rfl, fun _ => rfl⟩
  cases op with
  | setState t state =>
    obtain rfl : t = s := by simpa [Position.asks] using asks
    exact ⟨_, _, rfl, rfl, rewritten t _ fun _ => ⟨state, _, rfl, by simp [Operation.sets]⟩⟩
  | exchangeState t expected state =>
    obtain rfl : t = s := by simpa [Position.asks] using asks
    by_cases expects : (w.sync t).state = expected
    · exact ⟨_, _, if_pos expects, rfl, rewritten t _ fun _ => ⟨state, _, rfl, by simp [Operation.sets]⟩⟩
    · exact ⟨_, _, if_neg expects, rfl, ⟨_, _, rfl, fun _ => rfl⟩⟩
  | setOwner t owner => exact ⟨_, _, rfl, rfl, rewritten t _ fun _ => ⟨_, owner, rfl, fun _ => rfl⟩⟩
  | claimOwner t => exact ⟨_, _, rfl, rfl, rewritten t _ fun _ => ⟨_, some me, rfl, fun _ => rfl⟩⟩
  | _ => simp [Position.asks] at asks

theorem rewritten_step {s : SyncId} {op : Operation}
    (running : (w.actor me).activity = .busy .running (.start op))
    (asks : (Position.start op).asks s = true) : Rewritten s op (w.sync s) ((w.step me).1.sync s) := by
  obtain ⟨w', v, starts, -, rewritten⟩ := w.start_of_asks me asks
  rw [step_eq running]
  change Rewritten s op (w.sync s) ((w.startOperation me op).1.sync s)
  rwa [starts]

/-- The hook of the synchronizer that answers, to whom, and what. -/
def heard (s : SyncId) (w : World) : Event → Option (ActorId × Hook × Except SyncError Verdict)
  | .step a =>
    match (w.actor a).activity with
    | .busy .running (.call site .entering) =>
      if site.sync = s then some (a, site.hook, ((w.sync s).ask site.hook a site.arg).2) else none
    | _ => none
  | _ => none

theorem heard_eq_some {s : SyncId} {e : Event} {a : ActorId} {hook : Hook}
    {answer : Except SyncError Verdict} :
    w.heard s e = some (a, hook, answer) ↔ ∃ site, e = .step a ∧
      (w.actor a).activity = .busy .running (.call site .entering) ∧ site.sync = s ∧
      site.hook = hook ∧ ((w.sync s).ask site.hook a site.arg).2 = answer := by
  constructor
  · intro h
    cases e with
    | step a' =>
      unfold heard at h
      dsimp only at h
      split at h
      · rename_i site running
        split at h
        · rename_i here
          simp only [Option.some.injEq, Prod.mk.injEq] at h
          obtain ⟨rfl, hook, answer⟩ := h
          exact ⟨site, rfl, running, here, hook, answer⟩
        · simp at h
      · simp at h
    | _ => simp [heard] at h
  · rintro ⟨site, rfl, running, here, rfl, rfl⟩
    simp [heard, running, here]

theorem unheard_of_unasked {s : SyncId} {a : ActorId}
    (unasked : ∀ site, (w.actor a).activity ≠ .busy .running (.call site .entering)) :
    w.heard s (.step a) = none := by
  refine Option.eq_none_iff_forall_ne_some.2 fun ⟨b, hook, answer⟩ heard => ?_
  obtain ⟨site, same, running, -⟩ := heard_eq_some.1 heard
  obtain rfl := Event.step.inj same
  exact unasked site running

/-- Nobody is about to write to the synchronizer directly. -/
def Unwritten (s : SyncId) (w : World) : Prop :=
  ∀ a op, (w.actor a).position = some (.start op) → (Position.start op).asks s = false

namespace Seated

variable {s : SyncId} {a : ActorId}

/-- Where an actor is after an event it was before, or it has just begun, or it has come there by a
step. -/
theorem position_happen (hw : Seated s w) (e : Event) (h : ((w.happen e).actor a).position = some p') :
    ((w.actor a).position = some p' ∧ ∀ p, e = .step a → (w.actor a).activity = .busy .running p →
      p.readsClock = true) ∨ (∃ op, e = .begin a op ∧ p' = .start op) ∨
      ∃ p, e = .step a ∧ (w.actor a).activity = .busy .running p ∧ Onward w.sync a p p' := by
  rcases w.happen_cases e with ⟨out, still⟩ | ⟨b, op, rfl⟩ | ⟨b, rfl⟩ | ⟨b, rfl⟩
  · exact Or.inl ⟨(out.eased a).position ▸ h, fun p e => absurd e (still a)⟩
  · have others := (w.solely_begin b op).others
    have mine := w.begin_cases b op
    by_cases e : a = b
    · subst e
      rcases mine with same | ⟨-, busy⟩
      · exact Or.inl ⟨same ▸ h, by simp⟩
      · rw [World.happen, Actor.position, busy] at h
        exact Or.inr (Or.inl ⟨op, rfl, (Option.some.inj h).symm⟩)
    · exact Or.inl ⟨others a e ▸ h, by simp⟩
  · have others := (w.solely_resume b).others
    have mine := w.resume_cases b
    by_cases e : a = b
    · subst e
      rcases mine with same | ⟨p, hp, busy, -⟩
      · exact Or.inl ⟨same ▸ h, by simp⟩
      · rw [World.happen, Actor.position, busy] at h
        exact Or.inl ⟨Option.some.inj h ▸ hp, by simp⟩
    · exact Or.inl ⟨others a e ▸ h, by simp⟩
  · by_cases running : ∃ p, (w.actor b).activity = .busy .running p
    · obtain ⟨p, running⟩ := running
      have moved := hw.moved_stride running
      have inTable : b < w.actors.size := lt_of_position (by simp [Actor.position, running])
      have stands := moved.stands inTable
      rw [World.happen, step_eq running] at h
      by_cases e : a = b
      · subst e
        have position := (Next.position_of_actor stands.mine).symm.trans h
        rcases onward_stride position with ⟨clock, rfl⟩ | on
        · refine Or.inl ⟨Actor.position_of_busy running, fun p _ running' => ?_⟩
          obtain ⟨-, rfl⟩ := Activity.busy.inj (running.symm.trans running')
          exact clock
        · exact Or.inr (Or.inr ⟨p, rfl, running, on⟩)
      · refine Or.inl ⟨(stands.others a e).position ▸ h, fun _ here => ?_⟩
        exact absurd (Event.step.inj here).symm e
    · rw [World.happen, step_of_not_running fun p hp => running ⟨p, hp⟩] at h
      refine Or.inl ⟨h, fun p here running' => ?_⟩
      obtain rfl := Event.step.inj here
      exact absurd ⟨p, running'⟩ running

/-- What holds of every position, wherever steps lead, holds on. -/
theorem positions (hw : Seated s w) {P : ActorId → Position → Prop} {e : Event}
    (hold : ∀ a p, (w.actor a).position = some p → P a p)
    (begins : ∀ a op, e = .begin a op → P a (.start op))
    (on : ∀ a p p', e = .step a → (w.actor a).activity = .busy .running p → Onward w.sync a p p' →
      P a p → P a p') :
    ∀ a p, ((w.happen e).actor a).position = some p → P a p := by
  intro a p' hp'
  rcases hw.position_happen e hp' with ⟨hp, -⟩ | ⟨op, rfl, rfl⟩ | ⟨p, rfl, running, onward⟩
  · exact hold a p' hp
  · exact begins a op rfl
  · exact on a p p' rfl running onward (hold a p (Actor.position_of_busy running))

/-- Nobody comes to write to a synchronizer but by beginning to. -/
theorem unwritten_happen (hw : Seated s w) (unwritten : Unwritten s w) (e : Event)
    (unmeddled : e.meddles s = false) : Unwritten s (w.happen e) := by
  intro a op hp
  rcases hw.position_happen e hp with ⟨before, -⟩ | ⟨op', rfl, same⟩ | ⟨p, -, -, on⟩
  · exact unwritten a op before
  · obtain rfl := Position.start.inj same
    exact unmeddled
  · exact absurd on Onward.ne_start

/-- An event in which nobody asks anything of a synchronizer leaves what that goes by. -/
theorem sync_unasked (hw : Seated s w) {e : Event}
    (unasked : ∀ a p, e = .step a → (w.actor a).activity = .busy .running p → p.asks s = false) :
    w.heard s e = none ∧ ∃ q f, (w.happen e).sync s = { w.sync s with queue := q, failures := f } := by
  constructor
  · refine Option.eq_none_iff_forall_ne_some.2 fun x heard => ?_
    obtain ⟨a, hook, answer⟩ := x
    obtain ⟨site, rfl, running, here, -⟩ := heard_eq_some.1 heard
    simpa [Position.asks, here] using unasked a _ rfl running
  by_cases steps : ∃ b, e = .step b
  swap
  · obtain ⟨f, sync⟩ := (hw.still_happen fun b e => steps ⟨b, e⟩).sync s
    exact ⟨(w.sync s).queue, f, sync⟩
  obtain ⟨b, rfl⟩ := steps
  by_cases running : ∃ p, (w.actor b).activity = .busy .running p
  · obtain ⟨p, running⟩ := running
    have same := (hw.moved_stride running).rules.resolve_left (by simp [unasked b p rfl running])
    refine ⟨((w.stride b p).1.sync s).queue, (w.sync s).failures, ?_⟩
    rw [World.happen, step_eq running]
    exact congrArg (fun x : Synchronizer => { x with queue := ((w.stride b p).1.sync s).queue }) same
  · rw [World.happen, step_of_not_running fun p hp => running ⟨p, hp⟩]
    exact ⟨(w.sync s).queue, (w.sync s).failures, rfl⟩

/-- What a synchronizer goes by changes only where it is written to, or where one of its hooks is asked. -/
theorem sync_happen (hw : Seated s w) (e : Event) :
    (∃ a op, e = .step a ∧ (w.actor a).activity = .busy .running (.start op) ∧
      (Position.start op).asks s = true ∧ Rewritten s op (w.sync s) ((w.happen e).sync s)) ∨
    (∃ a site, e = .step a ∧ (w.actor a).activity = .busy .running (.call site .entering) ∧
      site.sync = s ∧ (w.happen e).sync s = ((w.sync s).ask site.hook a site.arg).1) ∨
    (w.heard s e = none ∧ ∃ q f, (w.happen e).sync s = { w.sync s with queue := q, failures := f }) := by
  by_cases asked : ∃ a p, e = .step a ∧ (w.actor a).activity = .busy .running p ∧ p.asks s = true
  · obtain ⟨a, p, rfl, running, asks⟩ := asked
    cases p with
    | start op => exact Or.inl ⟨a, op, rfl, running, asks, rewritten_step running asks⟩
    | call site stage =>
      cases stage with
      | entering =>
        have here : site.sync = s := by simpa [Position.asks] using asks
        exact Or.inr (Or.inl ⟨a, site, rfl, running, here, sync_asks hw.inTable running here⟩)
      | _ => simp [Position.asks] at asks
    | _ => simp [Position.asks] at asks
  · refine Or.inr (Or.inr (hw.sync_unasked fun a p here running => ?_))
    by_contra asks
    exact asked ⟨a, p, here, running, by simpa using asks⟩

/-- Nothing changes the policy of a synchronizer. -/
theorem policy_happen (hw : Seated s w) (e : Event) :
    ((w.happen e).sync s).policy = (w.sync s).policy := by
  rcases hw.sync_happen e with ⟨a, op, -, -, -, written⟩ | ⟨a, site, -, -, -, asked⟩ | ⟨-, q, f, same⟩
  · exact written.policy
  · rw [asked, Synchronizer.policy_ask]
  · rw [same]

end Seated

end World

end Turnstile
