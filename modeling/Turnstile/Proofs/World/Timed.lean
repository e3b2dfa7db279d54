import Turnstile.Policy.Catalogue
import Turnstile.Proofs.World.Promise
import Turnstile.Proofs.World.Turns

/-! Timed acquisitions and cancellation: nobody parks with the flag of its token up, and an acquisition
that is cancelled while it is queued comes to its end as soon as it goes on, unless its deadline is near. -/
namespace Turnstile

open WaitQueue (Shaped)

namespace WaitQueue

/-- How many rounds it takes the node at most to have the one before it asked for a signal. -/
def rounds (q : WaitQueue) (n : NodeId) : Nat :=
  match (q.node n).prev with
  | none => 0
  | some p => if (q.node p).status = .signal then 0 else if (q.node p).isLive then 1 else 2

variable {q : WaitQueue} {n p : NodeId}

theorem rounds_le (q : WaitQueue) (n : NodeId) : q.rounds n ≤ 2 := by
  unfold rounds
  split
  · omega
  · split
    · omega
    · split <;> omega

theorem rounds_le_of_live (prev : (q.node n).prev = some p) (live : (q.node p).isLive) :
    q.rounds n ≤ 1 := by
  rw [rounds, prev]
  simp [live]
  split <;> omega

theorem rounds_readyToPark (rooted : q.Rooted) (inTable : n < q.nodes.size)
    (wait : (q.readyToPark n).2 = .ok false) : (q.readyToPark n).1.rounds n < q.rounds n := by
  cases prev : (q.node n).prev with
  | none => simp [readyToPark, prev] at wait
  | some p =>
    have before : q.rounds n =
        if (q.node p).status = .signal then 0 else if (q.node p).isLive then 1 else 2 := by
      rw [rounds, prev]
    rw [before]
    unfold readyToPark at wait ⊢
    rw [prev] at wait ⊢
    dsimp only at wait ⊢
    split
    · rename_i asked
      simp [asked] at wait
    · split
      · have asked : ((q.setStatus p .signal).node p).status = .signal :=
          status_setStatus_self _ (rooted.prev n p prev)
        rw [rounds, prev_setStatus, prev]
        simp [asked]
      · rename_i unasked dead
        rw [if_neg unasked, if_neg dead] at wait
        unfold skipDead at wait ⊢
        dsimp only at wait ⊢
        split at wait
        · rename_i k e
          obtain ⟨rfl, found⟩ := Prod.mk.inj e
          rw [found]
          have live : (q.node k).isLive := by simpa using List.find?_some found
          refine Nat.lt_succ_of_le (rounds_le_of_live (p := k) ?_ ?_)
          · simp [prev_setPrev_self _ inTable]
          · simpa [Node.isLive] using live
        · simp at wait

end WaitQueue

/-- How many steps the actor is away at most from a stop or the end, by where it is in its round. -/
def Position.ahead (rounds : Nat) : Position → Nat
  | .roused _ => 1
  | .lingering _ => 8 * rounds + 2
  | .call _ (.answered _) => 8 * rounds + 3
  | .call _ (.leaving _) => 8 * rounds + 4
  | .call _ .entering => 8 * rounds + 5
  | .call _ .arriving => 8 * rounds + 6
  | .turn _ => 8 * rounds + 7
  | _ => 0

theorem Position.ahead_le (rounds : Nat) (p : Position) : p.ahead rounds ≤ 8 * rounds + 7 := by
  unfold ahead
  split <;> omega

namespace World

variable {s : SyncId} {w w' : World} {a b : ActorId} {p p' : Position} {q : Queued} {e : Event}

/-- Who tries again from a place in the queue is neither at work on a condition nor on the way to one. -/
theorem Exclusive.step (ex : Exclusive s w) (position : ((w.step a).1.actor a).position = some p)
    (place : p.place = some q) : Exclusive s (w.step a).1 := by
  intro b r c r' hb hc signals ne n entering
  by_cases mine : b = a
  · subst mine
    obtain rfl := Option.some.inj (position.symm.trans hb)
    obtain ⟨t, k, e, v, rfl, -⟩ := Position.signals_eq signals
    simp [Position.place] at place
  · rw [position_step_of_ne mine] at hb
    by_cases mine' : c = a
    · subst mine'
      obtain rfl := Option.some.inj (position.symm.trans hc)
      obtain ⟨t, saved, stage, rfl, -⟩ := Position.entering_eq entering
      simp [Position.place] at place
    · rw [position_step_of_ne mine'] at hc
      exact ex b r c r' hb hc signals ne n entering

/-! What one step makes of a run. -/

section runFor

variable {bound : Nat}

theorem runFor_of_ends (running : (w.actor a).activity = .busy .running p) {v : Value}
    (next : (w.stride a p).2 = .ends v) : (runFor (bound + 1) w a).2 = .finished v := by
  have value := step_value running
  rw [next] at value
  rw [runFor]
  generalize w.step a = r at value
  obtain ⟨w', _ | v'⟩ := r
  · simp [Next.value] at value
  · obtain rfl := Option.some.inj value
    rfl

theorem runFor_of_stops (running : (w.actor a).activity = .busy .running p) {st : Standing}
    (next : (w.stride a p).2 = .stops st p') (stopped : st ≠ .running) :
    (runFor (bound + 1) w a).2 = .standing st := by
  have value := step_value running
  have activity := activity_step running
  rw [next] at value activity
  rw [runFor]
  generalize w.step a = r at value activity
  obtain ⟨w', _ | v⟩ := r
  · dsimp only at activity ⊢
    rw [activity]
    cases st with
    | running => exact absurd rfl stopped
    | _ => rfl
  · simp [Next.value] at value

theorem runFor_of_goes (running : (w.actor a).activity = .busy .running p)
    (next : (w.stride a p).2 = .goes p') : runFor (bound + 1) w a = runFor bound (w.step a).1 a := by
  have value := step_value running
  have activity := activity_step running
  rw [next] at value activity
  rw [runFor]
  generalize w.step a = r at value activity
  obtain ⟨w', _ | v⟩ := r
  · dsimp only at activity ⊢
    rw [activity]
    rfl
  · simp [Next.value] at value

end runFor

def Hears (w : World) (a : ActorId) (e : SyncError) : Prop :=
  ∃ k site, ((w.after (List.replicate k (.step a))).actor a).activity =
    .busy .running (.call site (.answered (.error e)))

/-- How a timed acquisition that is cancelled comes to its end. Where the seats are kept, it does not
fault. -/
def Comes (sound : Prop) (w : World) (a : ActorId) (v : Value) : Prop :=
  v = .truth true ∨ (∃ e, v = .failed e ∧ (e = .interrupted ∨ w.Hears a e)) ∨
    ∃ f, v = .faulted f ∧ ¬sound

/-- The actor runs and tries again from a place in the queue, the flag of its token is up, and its
deadline is not near. It has more looks at the clock left than it takes rounds to be asked for. -/
structure Pressed (sound : Prop) (w : World) (a : ActorId) (q : Queued) (p : Position) : Prop where
  running : (w.actor a).activity = .busy .running p
  place : p.place = some q
  purpose : q.claim.purpose = .operation true
  interruptible : q.claim.patience.interruptible = true
  flagged : w.flagged q.claim.patience.token = true
  early : ∀ d, q.claim.patience.deadline = some d → w.now + Span.tooShortToPark < d
  sync : q.claim.sync < w.syncs.size
  rooted : (w.queue q.claim.sync).Rooted
  node : q.node < (w.queue q.claim.sync).nodes.size
  looks : p = .roused q ∨ (w.queue q.claim.sync).rounds q.node < (w.actor a).looks
  seats : sound → Seated q.claim.sync w ∧ Exclusive q.claim.sync w

theorem Hears.step {e : SyncError} (h : (w.step a).1.Hears a e) : w.Hears a e := by
  obtain ⟨k, site, heard⟩ := h
  exact ⟨k + 1, site, heard⟩

theorem Comes.step {sound : Prop} {v : Value} (h : Comes sound (w.step a).1 a v) : Comes sound w a v := by
  refine h.imp_right (Or.imp_left ?_)
  rintro ⟨e, rfl, heard⟩
  exact ⟨e, rfl, heard.imp_right Hears.step⟩

namespace Pressed

abbrev Nears (sound : Prop) (w : World) (a : ActorId) (q : Queued) (p : Position) : Prop :=
  ∃ p', (w.stride a p).2 = .goes p' ∧ Pressed sound (w.step a).1 a q p' ∧
    p'.ahead (((w.step a).1.queue q.claim.sync).rounds q.node) <
      p.ahead ((w.queue q.claim.sync).rounds q.node)

variable {sound : Prop}

/-- A step that leads on keeps up the pressure. -/
theorem on (h : Pressed sound w a q p) (next : w.stride a p = (w', .goes p')) (place : p'.place = some q)
    (tokens : w'.tokens = w.tokens) (syncs : w'.syncs.size = w.syncs.size)
    (looks : p' = .roused q ∨ (w'.queue q.claim.sync).rounds q.node < (w'.actor a).looks) :
    Pressed sound (w.step a).1 a q p' := by
  have running : ((w.step a).1.actor a).activity = .busy .running p' := by
    rw [activity_step h.running, next]
    rfl
  have eq : (w.step a).1 = w'.setActivity a (.busy .running p') := by
    rw [step_eq h.running, next]
    rfl
  have queues := (w.keeps_stride a p).queues q.claim.sync
  have now := (w.keeps_stride a p).now
  rw [next] at queues now
  refine ⟨running, place, h.purpose, h.interruptible, ?_, ?_, ?_, ?_, ?_, ?_, fun sound => ?_⟩
  · rw [eq]
    change w'.flagged _ = true
    rw [World.flagged, tokens]
    exact h.flagged
  · intro d deadline
    rw [eq]
    exact now.symm ▸ h.early d deadline
  · rw [eq]
    exact syncs.symm ▸ h.sync
  · rw [eq]
    exact queues.rooted h.rooted
  · rw [eq]
    exact Nat.lt_of_lt_of_le h.node queues.size
  · rw [eq, looks_setActivity]
    exact looks
  · obtain ⟨seated, ex⟩ := h.seats sound
    exact ⟨seated.happen ex (.step a), ex.step (Actor.position_of_busy running) place⟩

/-- A step that does nothing to the queue and needs no look at the clock. -/
theorem quiet (h : Pressed sound w a q p) (clock : p.readsClock = false)
    (next : w.advance a p = (w', .goes p')) (place : p'.place = some q) (tokens : w'.tokens = w.tokens)
    (syncs : w'.syncs.size = w.syncs.size) (queue : w'.queue q.claim.sync = w.queue q.claim.sync)
    (unroused : p ≠ .roused q) (nearer : ∀ n, p'.ahead n < p.ahead n) :
    Nears sound w a q p := by
  have stride : w.stride a p = (w', .goes p') := by simp [stride_eq, looked, clock, next]
  have leaves : Leaves a w _ := Leaves.advance w p
  rw [next] at leaves
  have few := (w.queue q.claim.sync).rounds_le q.node
  have many : Actor.freshLooks = 64 := rfl
  have looks := leaves.looks ((w.queue q.claim.sync).rounds q.node + 1) (by omega)
    (h.looks.resolve_left unroused)
  have same : (w.step a).1.queue q.claim.sync = w.queue q.claim.sync := by
    rw [step_eq h.running, stride]
    exact queue
  exact ⟨p', by rw [stride], h.on stride place tokens syncs (Or.inr (queue ▸ looks)), same ▸ nearer _⟩

/-- A round that does not end with the turn has the node before asked for a signal, or shows that it has
been. -/
theorem linger (h : Pressed sound w a q (.lingering q)) :
    (∃ f, (w.stride a (.lingering q)).2 = .ends (.faulted f)) ∨ Nears sound w a q (.lingering q) := by
  have inTable : a < w.actors.size := lt_of_position (by simp [Actor.position, h.running])
  have enough := h.looks.resolve_left (by simp)
  have looks := looks_looked (p := .lingering q) inTable
  have queue := queue_looked w a (.lingering q) q.claim.sync
  have tokens := tokens_looked w a (.lingering q)
  have now := now_looked w a (.lingering q)
  have syncs := congrArg Table.size (syncs_looked w a (.lingering q))
  have raised := (flagged_looked w a (.lingering q) q.claim.patience.token).trans h.flagged
  have stride : w.stride a (.lingering q) = (w.looked a (.lingering q)).linger a q := by
    have unspent : (w.actor a).looks ≠ 0 := by omega
    rw [stride_eq, if_neg fun spent => unspent spent.2]
    rfl
  generalize w.looked a (.lingering q) = w₁ at *
  have sync : q.claim.sync < w₁.syncs.size := syncs ▸ h.sync
  have far : ∀ left, q.claim.patience.deadline.map (Moment.left w₁.now) = some left →
      Span.tooShortToPark < left := by
    intro left eq
    obtain ⟨d, deadline, rfl⟩ := Option.map_eq_some_iff.1 eq
    have early := h.early d deadline
    rw [now]
    exact Nat.lt_sub_of_add_lt (Nat.add_comm _ _ ▸ early)
  have unmoved : ∀ r, (w₁.setQueue q.claim.sync r).queue q.claim.sync = r := fun r => by
    rw [queue_setQueue, if_pos ⟨rfl, sync⟩]
  have size : ∀ r, (w₁.setQueue q.claim.sync r).syncs.size = w.syncs.size := fun r => by
    rw [← syncs]
    exact Table.size_modify _ _ _
  have after : ∀ r p', w.stride a (.lingering q) = (w₁.setQueue q.claim.sync r, .goes p') →
      (w.step a).1.queue q.claim.sync = r := fun r p' eq => by
    rw [step_eq h.running, eq]
    exact unmoved r
  have short := fun wait => WaitQueue.rounds_readyToPark (n := q.node) h.rooted h.node wait
  unfold World.linger at stride
  dsimp only at stride
  rw [queue, if_neg fun overdue => absurd (far 0 overdue) (by decide)] at stride
  generalize (w.queue q.claim.sync).readyToPark q.node = ready at stride short
  obtain ⟨r, f | _ | _⟩ := ready
  · exact Or.inl ⟨f, by rw [stride]⟩
  · have short := short rfl
    dsimp only at stride short
    refine Or.inr ⟨.turn q, by rw [stride], ?_, ?_⟩
    · refine h.on stride rfl tokens (size r) (Or.inr ?_)
      rw [unmoved]
      change _ < (w₁.actor a).looks
      rw [looks]
      split <;> omega
    · rw [after r _ stride]
      dsimp only [Position.ahead]
      omega
  · have park : ¬(q.claim.patience.deadline.map (Moment.left w₁.now)).any (· ≤ Span.tooShortToPark) := by
      intro short
      obtain ⟨left, eq, le⟩ := (Option.any_eq_true _ _).1 short
      exact Nat.lt_irrefl _ (Nat.lt_of_lt_of_le (far left eq) (by simpa using le))
    dsimp only at stride
    rw [if_neg park, World.park, if_pos (show (w₁.setQueue q.claim.sync r).flagged _ = true from raised)]
      at stride
    refine Or.inr ⟨.roused q, by rw [stride], ?_, ?_⟩
    · exact h.on stride rfl tokens (size r) (Or.inl rfl)
    · simp only [Position.ahead]
      omega

theorem call {stage : Stage} (h : Pressed sound w a q (.call (.turn q) stage)) :
    (∃ v, (w.stride a (.call (.turn q) stage)).2 = .ends v ∧
      (v = .truth true ∨ (∃ e, v = .failed e ∧ w.Hears a e) ∨ ∃ f, v = .faulted f)) ∨
    (∃ p', (w.stride a (.call (.turn q) stage)).2 = .stops .paused p') ∨
    Nears sound w a q (.call (.turn q) stage) := by
  have stride : w.stride a (.call (.turn q) stage) = w.callHook a (.turn q) stage := rfl
  cases stage with
  | arriving | leaving answer =>
    unfold callHook trip at stride
    dsimp only at stride
    split at stride
    all_goals
      rename_i e
      obtain ⟨rfl, -⟩ := Prod.mk.inj e
    · exact Or.inr (Or.inl ⟨_, by rw [stride]⟩)
    · refine Or.inr (Or.inr (h.quiet rfl stride rfl rfl rfl rfl (by simp) fun n => ?_))
      simp [Position.ahead]
  | entering =>
    refine Or.inr (Or.inr (h.quiet rfl stride rfl rfl ?_ ?_ (by simp) fun n => ?_))
    · exact Table.size_modify _ _ _
    · exact queue_ask w _ _ _ _ _
    · simp [Position.ahead]
  | answered answer =>
    cases answer with
    | error e =>
      obtain ⟨w', v, eq, -, told⟩ := w.abandon_spec q (.failed e)
      have stride := stride.trans eq
      refine Or.inl ⟨v, by rw [stride], ?_⟩
      rcases told with rfl | fault
      · exact Or.inr (Or.inl ⟨e, rfl, 0, .turn q, h.running⟩)
      · exact Or.inr (Or.inr fault)
    | ok v =>
      simp only [callHook, World.resolve] at stride
      split at stride
      · obtain ⟨queue, eq, -⟩ := w.takeTurn_eq q v
        rw [resolveGrant, eq] at stride
        have outcome := (conclude_spec (w.apply q.claim.sync (queue, (turned (w.queue q.claim.sync) q v).2))
          q.claim q.swallowed).1
        rw [← stride, Claim.outcome, h.purpose] at outcome
        exact Or.inl ⟨_, outcome, Or.inl rfl⟩
      · refine Or.inr (Or.inr (h.quiet rfl stride rfl rfl rfl rfl (by simp) fun n => ?_))
        simp [Position.ahead]

/-- Each step of an actor under pressure brings it nearer to the end. -/
theorem step (h : Pressed sound w a q p) :
    (∃ v, (w.stride a p).2 = .ends v ∧ Comes sound w a v) ∨
    (∃ p', (w.stride a p).2 = .stops .paused p') ∨ Nears sound w a q p := by
  have faults : ∀ f, (w.stride a p).2 = .ends (.faulted f) → Comes sound w a (.faulted f) := fun f fault =>
    Or.inr (Or.inr ⟨f, rfl, fun sound => (h.seats sound).1.unfaulted h.running h.place rfl f fault⟩)
  have place := h.place
  cases p with
  | turn q' =>
    obtain rfl := Option.some.inj place
    have stride : w.stride a (.turn q') = w.turn q' := rfl
    unfold World.turn at stride
    dsimp only at stride
    split at stride
    · exact Or.inl ⟨_, by rw [stride], faults _ (by rw [stride])⟩
    · split at stride
      all_goals
        refine Or.inr (Or.inr (h.quiet rfl stride rfl rfl rfl rfl (by simp) fun n => ?_))
        simp [Position.ahead]
  | lingering q' =>
    obtain rfl := Option.some.inj place
    rcases h.linger with ⟨f, fault⟩ | goes
    · exact Or.inl ⟨_, fault, faults f fault⟩
    · exact Or.inr (Or.inr goes)
  | roused q' =>
    obtain rfl := Option.some.inj place
    have stride : w.stride a (.roused q') = w.rouse q' := rfl
    unfold World.rouse takeFlag at stride
    simp only [h.flagged, h.interruptible, if_true] at stride
    obtain ⟨w', v, eq, -, told⟩ :=
      (w.modifyToken q'.claim.patience.token (·.take.1)).abandon_spec q' (.failed .interrupted)
    rw [eq] at stride
    refine Or.inl ⟨v, by rw [stride], ?_⟩
    rcases told with rfl | ⟨f, rfl⟩
    · exact Or.inr (Or.inl ⟨_, rfl, Or.inl rfl⟩)
    · exact faults f (by rw [stride])
  | call site stage =>
    cases site with
    | turn q' =>
      obtain rfl := Option.some.inj place
      rcases h.call with ⟨v, ends, told⟩ | stopped | goes
      · refine Or.inl ⟨v, ends, ?_⟩
        rcases told with rfl | ⟨e, rfl, heard⟩ | ⟨f, rfl⟩
        · exact Or.inl rfl
        · exact Or.inr (Or.inl ⟨e, rfl, Or.inr heard⟩)
        · exact faults f ends
      · exact Or.inr (Or.inl stopped)
      · exact Or.inr (Or.inr goes)
    | _ => simp [Position.place] at place
  | _ => simp [Position.place] at place

/-- An actor under pressure comes to its end before it stops, unless it is made to pause. -/
theorem run {bound : Nat} (h : Pressed sound w a q p)
    (enough : p.ahead ((w.queue q.claim.sync).rounds q.node) ≤ bound) :
    (runFor bound w a).2 = .standing .paused ∨
      ∃ v, (runFor bound w a).2 = .finished v ∧ Comes sound w a v := by
  induction bound generalizing w p with
  | zero =>
    have place := h.place
    cases p with
    | call site stage => cases stage <;> simp [Position.ahead] at enough
    | turn | lingering | roused => simp [Position.ahead] at enough
    | _ => simp [Position.place] at place
  | succ n ih =>
    rcases h.step with ⟨v, ends, comes⟩ | ⟨p', stops⟩ | ⟨p', goes, pressed, nearer⟩
    · exact Or.inr ⟨v, runFor_of_ends h.running ends, comes⟩
    · exact Or.inl (runFor_of_stops h.running stops (by simp))
    · rw [runFor_of_goes h.running goes]
      rcases ih pressed (by omega) with paused | ⟨v, ends, comes⟩
      · exact Or.inl paused
      · exact Or.inr ⟨v, ends, comes.step⟩

end Pressed

theorem resume_spec (w : World) (a : ActorId) : (w.resume a).tokens = w.tokens ∧
    (w.resume a).now = w.now ∧ ∀ b, ((w.resume a).actor b).position = (w.actor b).position := by
  refine ⟨?_, ?_, fun b => ?_⟩
  · unfold resume
    split
    · rename_i st p busy
      cases st <;> rfl
    · rfl
  · unfold resume
    split
    · rename_i st p busy
      cases st <;> rfl
    · rfl
  · have fares := w.fares b (.resume a)
    change Fares w b (.resume a) ((w.resume a).actor b) at fares
    generalize (w.resume a).actor b = y at fares
    cases fares with
    | rests eased => exact eased.position
    | resumes busy goesOn => rw [Actor.position_of_busy busy, Actor.position_of_busy goesOn]

theorem resume_busy {st : Standing} (busy : (w.actor a).activity = .busy st p) :
    ((w.resume a).actor a).activity = .busy .running p ∧
      ((w.resume a).actor a).looks = (w.actor a).looks ∧
      ((w.resume a).actor a).permit.toNat ≤ (w.actor a).permit.toNat := by
  have inTable : a < w.actors.size := lt_of_position (by simp [Actor.position, busy])
  have used : ((w.setPermit a false).actor a).permit.toNat ≤ (w.actor a).permit.toNat := by
    rw [setPermit, actor_modifyActor, if_pos ⟨rfl, inTable⟩]
    exact Nat.zero_le _
  unfold resume
  rw [busy]
  dsimp only
  rw [looks_setActivity, permit_setActivity]
  refine ⟨activity_setActivity _ ?_, ?_, ?_⟩
  · cases st <;> simpa using inTable
  · cases st <;> first | rfl | exact looks_setPermit w a a false
  · cases st <;> first | exact Nat.le_refl _ | exact used

/-- What holds of an actor and its diary whatever happens. -/
structure Steady (s : SyncId) (a : ActorId) (w : World) (d : Diary) : Prop where
  tracks : d.Tracks a w
  placed : Placed s w a
  fresh : (w.actor a).Fresh
  sync : s < w.syncs.size
  rooted : (w.queue s).Rooted

theorem Steady.happen {d : Diary} (h : Steady s a w d) (e : Event) :
    Steady s a (w.happen e) (d.note a w e) where
  tracks := h.tracks.happen e
  placed := h.placed.happen h.sync e
  fresh := h.fresh.happen e
  sync := (w.queues_happen e).1.symm ▸ h.sync
  rooted := ((w.queues_happen e).2 s).rooted h.rooted

theorem Steady.create {actors tokens : Nat} {syncs : List Synchronizer} {conditions : List SyncId}
    {x : Synchronizer} (hx : syncs[s]? = some x) (empty : x.queue = .empty) :
    Steady s a (World.create actors tokens syncs conditions) {} := by
  have idle := actor_create actors tokens syncs conditions a
  refine ⟨fun p hp => ?_, fun p q timed hp => ?_, fun st p busy => ?_, ?_, ?_⟩
  · simp [Actor.position, idle] at hp
  · simp [Actor.position, idle] at hp
  · simp [idle] at busy
  · simpa [World.create] using (List.getElem?_eq_some_iff.1 hx).1
  · rw [World.queue, sync_create hx, empty]
    exact WaitQueue.rooted_empty

/-- Nobody parks with the flag of its token up. -/
theorem unflagged_of_parks {op : Operation} (running : (w.actor a).activity = .busy .running p)
    (of : p.Of op) {t : Option Moment} (parks : ((w.step a).1.actor a).activity = .busy (.parked t) p') :
    (w.step a).1.flagged op.token = false := by
  rw [activity_step running] at parks
  rw [World.flagged, tokens_step w a running]
  change (w.stride a p).1.flagged op.token = false
  rcases w.stride_course a p with ⟨-, -, eq⟩ | ⟨-, course⟩
  · simp [eq, Next.activity] at parks
  generalize w.stride a p = r at course parks
  cases course with
  | park tokens goes =>
    rcases goes with rfl | ⟨calm, -⟩
    · simp [Next.activity] at parks
    · rw [(Claim.Of.token of).1] at calm
      exact (flagged_of_tokens tokens).trans calm
  | sleep tokens _ _ goes =>
    rcases goes with rfl | ⟨calm, -⟩
    · simp [Next.activity] at parks
    · rw [WaitTerms.Of.token of] at calm
      exact (flagged_of_tokens tokens).trans calm
  | enter _ _ goes | leave _ _ goes => rcases goes with rfl | rfl <;> simp [Next.activity] at parks
  | @conclude site c swallowed =>
    rcases c.outcome_cases swallowed with ⟨v, eq⟩ | ⟨v, start, timeout, -, -, -, eq⟩ <;>
      simp [eq, Next.activity] at parks
  | _ => simp [Next.activity] at parks

theorem Exclusive.congr (ex : Exclusive s w)
    (same : ∀ b, (w'.actor b).position = (w.actor b).position) : Exclusive s w' :=
  fun b r c r' hb hc => ex b r c r' (same b ▸ hb) (same c ▸ hc)

/-- An actor that is cancelled while it is queued is under pressure once it goes on. -/
theorem Steady.pressed {d : Diary} {mode : Mode} {arg : Int} {token : Option TokenId} {limit : Limit}
    {st : Standing} {sound : Prop} (h : Steady s a w d)
    (task : d.task = some (.acquire s mode arg (.timed token limit)))
    (busy : (w.actor a).activity = .busy st p) (place : p.place = some q) (raised : w.flagged token = true)
    (early : ∀ d, q.claim.patience.deadline = some d → w.now + Span.tooShortToPark < d)
    (looks : (st ≠ .running ∧ st ≠ .paused) ∨ 3 ≤ (w.actor a).looks)
    (seats : sound → Seated s w ∧ Exclusive s w) :
    Pressed sound (w.resume a) a q p ∧ q.claim.sync = s := by
  obtain ⟨op, task', of⟩ := h.tracks p (Actor.position_of_busy busy)
  obtain rfl := Option.some.inj (task'.symm.trans task)
  have claim := of.place place
  obtain ⟨tokens, now, positions⟩ := w.resume_spec a
  have syncs := (w.solely_resume a).syncs
  have queue : ∀ t, (w.resume a).queue t = w.queue t := fun t => by
    rw [World.queue, World.sync, syncs]
    rfl
  have owned := (Claim.Of.token claim).1
  unfold Claim.Of at claim
  split at claim
  swap
  · obtain ⟨⟨w', style, eq, -⟩, -⟩ := claim
    simp at eq
  rename_i timed purpose
  obtain ⟨moment, style, eq, patience, rfl⟩ := claim
  obtain ⟨rfl, -, -, rfl⟩ := Operation.acquire.inj eq
  have enough : 3 ≤ (w.actor a).looks := by
    rcases looks with ⟨running, paused⟩ | enough
    · have many : Actor.freshLooks = 64 := rfl
      obtain ⟨fresh, -⟩ := (h.fresh st p busy).resolve_left running |>.resolve_left paused
      omega
    · exact enough
  obtain ⟨running, same, -⟩ := resume_busy busy
  refine ⟨⟨running, place, purpose, ?_, ?_, ?_, ?_, ?_, ?_, ?_, ?_⟩, rfl⟩
  · rw [patience]
    rfl
  · rw [flagged_of_tokens tokens, owned]
    exact raised
  · exact now.symm ▸ early
  · rw [syncs]
    exact h.sync
  · exact queue _ ▸ h.rooted
  · rw [queue]
    exact h.placed p q _ (Actor.position_of_busy busy) place rfl purpose
  · rw [queue, same]
    have few := (w.queue q.claim.sync).rounds_le q.node
    exact Or.inr (by omega)
  · intro sound
    obtain ⟨seated, ex⟩ := seats sound
    exact ⟨seated.happen ex (.resume a), ex.congr positions⟩

/-- Nobody parks in a timed acquisition with the flag of its token up, and if it is cancelled before its
deadline is near it does not stop again before it is done, unless it is made to pause. -/
theorem timed_cancellable {actors tokens : Nat} {syncs : List Synchronizer} {conditions : List SyncId}
    {x : Synchronizer} (hx : syncs[s]? = some x) (empty : x.queue = .empty) {events : List Event}
    {mode : Mode} {arg : Int} {token : Option TokenId} {limit : Limit} :
    let start := World.create actors tokens syncs conditions
    let w := start.after events
    (Diary.since start a events).task = some (.acquire s mode arg (.timed token limit)) →
      (∀ p t p', (w.actor a).activity = .busy .running p →
        ((w.step a).1.actor a).activity = .busy (.parked t) p' → (w.step a).1.flagged token = false) ∧
      ∀ q, (w.actor a).place = some q → w.flagged token = true →
        (∀ d ∈ q.claim.patience.deadline, w.now + Span.tooShortToPark < d) →
        ((w.actor a).standing ≠ some .running ∧ (w.actor a).standing ≠ some .paused) ∨
          3 ≤ (w.actor a).looks →
        (w.goOn a).2.stop = .standing .paused ∨ (w.goOn a).2.stop = .finished (.truth true) ∨
          (∃ e, (w.goOn a).2.stop = .finished (.failed e) ∧
            (e = .interrupted ∨ (w.resume a).Hears a e)) ∨
          ∃ f, (w.goOn a).2.stop = .finished (.faulted f) ∧ ¬Orderly s start events := by
  intro start w task
  have kept : ∀ w e d, Steady s a w d → Steady s a (w.happen e) (d.note a w e) :=
    fun _ e _ h => h.happen e
  have steady : Steady s a w (Diary.since start a events) := collect_always kept (.create hx empty) events
  constructor
  · intro p t p' running parks
    obtain ⟨op, task', of⟩ := steady.tracks p (Actor.position_of_busy running)
    obtain rfl := Option.some.inj (task'.symm.trans task)
    exact unflagged_of_parks running of parks
  · intro q here raised early looks
    obtain ⟨st, p, busy, place⟩ := Actor.exists_of_place here
    rw [Actor.standing, busy] at looks
    have seats : Orderly s start events → Seated s w ∧ Exclusive s w := fun orderly =>
      (Seated.create hx empty).after_orderly (fun a => by rw [actor_create]; rfl) orderly
    obtain ⟨pressed, rfl⟩ := steady.pressed task busy place raised early (by simpa using looks) seats
    rw [goOn_eq]
    have enough : p.ahead (((w.resume a).queue q.claim.sync).rounds q.node) ≤ longestRun := by
      have few := ((w.resume a).queue q.claim.sync).rounds_le q.node
      have bound := p.ahead_le (((w.resume a).queue q.claim.sync).rounds q.node)
      have many : longestRun = 4096 := rfl
      omega
    rcases pressed.run enough with paused | ⟨v, ends, rfl | ⟨e, rfl, told⟩ | ⟨f, rfl, unsound⟩⟩
    · exact Or.inl paused
    · exact Or.inr (Or.inl ends)
    · exact Or.inr (Or.inr (Or.inl ⟨e, ends, told⟩))
    · exact Or.inr (Or.inr (Or.inr ⟨f, ends, unsound⟩))

/-- Someone waits for a lock with plenty of time, and is cancelled. -/
theorem timed_cancellable_parked :
    let start := World.create 2 1 [{ policy := .mutex, state := 0 }] []
    let events : List Event :=
      .begin 0 (.acquire 0 .exclusive 1 .plain) :: List.replicate 5 (.step 0) ++
        .begin 1 (.acquire 0 .exclusive 1 (.timed (some 0) (.timeout 1000000))) ::
          List.replicate 18 (.step 1) ++ [.cancel 0]
    let w := start.after events
    (w.actor 1).standing = some .runnable ∧ w.flagged (some 0) = true ∧
      ((w.goOn 1).2.stop = .standing .paused ∨ (w.goOn 1).2.stop = .finished (.truth true) ∨
        (∃ e, (w.goOn 1).2.stop = .finished (.failed e) ∧
          (e = .interrupted ∨ (w.resume 1).Hears 1 e)) ∨
        ∃ f, (w.goOn 1).2.stop = .finished (.faulted f) ∧ ¬Orderly 0 start events) :=
  have standing := by decide +kernel
  have raised := by decide +kernel
  ⟨standing, raised,
    (@timed_cancellable 0 1 _ _ _ _ _ rfl rfl _ .exclusive 1 (some 0) (.timeout 1000000) rfl).2
      ⟨⟨0, .exclusive, 1, ⟨some 0, true, some 1000001000000⟩, .operation true⟩, 1, false⟩
      (by decide +kernel) raised (by decide +kernel) (Or.inr (by decide +kernel))⟩

/-- Near its deadline someone is cancelled, but goes on as if it had not been, until the deadline comes. -/
theorem timed_unheeded :
    let start := World.create 2 1 [{ policy := .mutex, state := 0 }] []
    let taken := (start.perform 0 (.acquire 0 .exclusive 1 .plain)).1
    let queued := (taken.perform 1 (.acquire 0 .exclusive 1 (.timed (some 0) (.timeout 1000)))).1
    let before := queued.cancel 0
    let after := (before.goOn 1).1
    let late := (after.elapse 1000).resume 1
    (before.actor 1).standing = some .spinning ∧ (before.actor 1).place.isSome ∧
      before.now < Moment.epoch + 1000 ∧
      (after.actor 1).standing = some .spinning ∧ after.flagged (some 0) = true ∧
      (late.step 1).2 = some (.truth false) ∧ (late.step 1).1.flagged (some 0) = true :=
  ⟨by decide +kernel, by decide +kernel, by decide +kernel, by decide +kernel, by decide +kernel,
    by decide +kernel, by decide +kernel⟩

end World

end Turnstile
