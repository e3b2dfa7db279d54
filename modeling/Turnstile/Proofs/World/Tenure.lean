import Turnstile.Proofs.Queue.Courtesy
import Turnstile.Proofs.World.Deeds

/-! Everybody keeps the node by which they wait, whatever the hooks answer and whoever is at work on the
conditions, so that nobody who tries again from a place in the queue finds it gone. -/
namespace Turnstile

open WaitQueue (Spine Respects Level InUse)

namespace Seat

/-- The node of the seat is still the actor's. -/
def Kept (q : WaitQueue) (a : ActorId) : Seat → Prop
  | .none => True
  | .queued n _ called => n ∈ q.live ∧ (q.node n).actor = some a ∧ (called = true → (q.node n).prev = q.head)
  | .waiting n | .entering n => q.InUse n ∧ (q.node n).actor = some a

namespace Kept

variable {q q' : WaitQueue} {a : ActorId} {x : Seat} {n : NodeId} {mine : Option NodeId}

theorem of_node (h : x.Kept q a) (hn : x.node = some n) : q.InUse n ∧ (q.node n).actor = some a := by
  cases x with
  | none => simp [node] at hn
  | queued m mode called =>
    obtain rfl := Option.some.inj hn
    exact ⟨Or.inl h.1, h.2.1⟩
  | waiting m | entering m =>
    obtain rfl := Option.some.inj hn
    exact h

/-- Nobody loses a seat by what respects it. -/
theorem respects (h : x.Kept q a) (hr : Respects q q' mine) (other : ∀ n, x.node = some n → mine ≠ some n) :
    x.Kept q' a := by
  cases x with
  | none => trivial
  | queued m mode called =>
    obtain ⟨live, actor, turn⟩ := h
    have ne := other m rfl
    exact ⟨hr.live m ne live, (hr.actor m ne (Or.inl live)).trans actor,
      fun called => hr.turn m ne live (turn called)⟩
  | waiting m | entering m =>
    obtain ⟨used, actor⟩ := h
    have ne := other m rfl
    exact ⟨hr.inUse ne used, (hr.actor m ne used).trans actor⟩

end Kept

end Seat

section

variable {s : SyncId} {q : WaitQueue} {a : ActorId}

/-- What the hook answers is nothing to whoever keeps the seat. -/
theorem Position.kept_call {site : Site} {stage stage' : Stage}
    (h : ((Position.call site stage).seat s).Kept q a) : ((Position.call site stage').seat s).Kept q a := by
  cases site with
  | letGo t n saved =>
    simp only [seat] at h ⊢
    split
    · rename_i here
      rw [if_pos here] at h
      split at h <;> split <;> exact h
    · trivial
  | _ => exact h

theorem Site.seat_of_operation {op : Operation} {w : World} {site : Site} {stage : Stage}
    (opens : op.site w = some site) : (Position.call site stage).seat s = .none := by
  cases op with
  | acquire | release | isHeld | wait | errand =>
    obtain rfl := Option.some.inj opens
    rfl
  | _ => simp [Operation.site] at opens

theorem Position.seat_outcome {c : Claim} {swallowed : Bool} {p : Position}
    (h : (c.outcome swallowed).position = some p) : p.seat s = .none := by
  rcases c.outcome_cases swallowed with ⟨v, eq⟩ | ⟨v, start, timeout, -, -, -, eq⟩
  · simp [eq, Next.position] at h
  · obtain rfl := Option.some.inj ((congrArg Next.position eq).symm.trans h)
    rfl

end

section deeds

variable {queue : SyncId → WaitQueue} {conditions cs : Table Condition} {me : ActorId} {p : Position}
  {s : SyncId} {q' : WaitQueue} {h : NodeId} {body : List NodeId}

/-- A turn that is taken leaves the rest of the queue as it was. -/
theorem WaitQueue.Spine.respects_turned {q : WaitQueue} {c : Queued} (hq : Spine q h body)
    (live : c.node ∈ q.live) (turn : (q.node c.node).prev = q.head) (v : Verdict)
    (cut : ∀ k, (q.node c.node).prev = some k → q' = (World.turned q c v).1.setNext k none) :
    Respects q q' (some c.node) ∧ q.live = c.node :: q'.live := by
  have head := hq.head_eq_of_mem (hq.mem_live.1 live).1
  obtain rfl := cut h (turn.trans head)
  have cuts : ∀ r ys, Spine r c.node ys → Respects q r (some c.node) → q.live = c.node :: r.live →
      Respects q (r.setNext h none) (some c.node) ∧ q.live = c.node :: (r.setNext h none).live := by
    intro r ys hr respects same
    have level := Level.setNext r h none (some c.node)
    exact ⟨respects.trans (level.respects hr), by rw [same, level.live hr]⟩
  unfold World.turned
  split
  · obtain ⟨⟨ys, promoted⟩, respects, same⟩ := hq.respects_promote live turn
    exact cuts _ ys promoted respects same
  · obtain ⟨⟨ys, promoted⟩, respects, same⟩ := hq.respects_promoteShared live turn (v == Verdict.cascading)
    exact cuts _ ys promoted respects same

/-- No deed costs anyone but its doer anything. -/
theorem Deed.respects (deed : Deed queue conditions me p s q' cs) (hq : Spine (queue s) h body)
    (kept : (p.seat s).Kept (queue s) me) : Respects (queue s) q' (p.seat s).node := by
  have alone : ∀ {r}, Level (queue s) r none → Respects (queue s) r (p.seat s).node := fun level =>
    (level.respects hq).mono _
  cases deed with
  | rest => exact alone (.refl _ _)
  | @join c => exact (hq.respects_join c.mode me).1.mono _
  | @ready q =>
    rw [Position.seat, if_pos rfl] at kept
    exact (hq.respects_readyToPark kept.1).2.1.mono _
  | @withdraw _ q place =>
    obtain ⟨called, seat⟩ := Position.seat_of_place place rfl
    rw [seat] at kept ⊢
    exact (hq.respects_withdraw kept.1).2.1
  | @turn q v _ _ cut =>
    rw [Position.seat, if_pos rfl] at kept ⊢
    exact (hq.respects_turned kept.1 (kept.2.2 rfl) v cut).1
  | @finish q v r c _ cut =>
    rw [Position.seat, if_pos rfl] at kept ⊢
    obtain ⟨turned, -⟩ := hq.respects_turned kept.1 (kept.2.2 rfl) v cut
    obtain ⟨k, ys, hr⟩ := turned.spine
    exact turned.trans ((hr.respects_alike (Condition.alike_prune _ _)).mono _)
  | serve _ served =>
    rcases served with rfl | rfl
    · exact alone (hq.level_wakeFirst _)
    · exact alone (hq.level_wakeShared _)
  | @drop t n saved answer failed =>
    have seat : (Position.call (.letGo t n saved) (.answered answer)).seat t.sync = .entering n := by
      simp [Position.seat, Stage.granted, failed]
    rw [seat] at kept ⊢
    exact hq.respects_drop kept.1
  | @transfer p v =>
    by_cases waits : ((queue v.terms.sync).node v.node).status = .condition
    · exact (hq.respects_transferUnsignalled waits).1.mono _
    · rw [WaitQueue.transferUnsignalled_of_ne waits]
      exact alone (.refl _ _)
  | enter => exact (hq.respects_joinCondition _ me).1.mono _
  | signal => exact (hq.respects_signalFrom _ _).mono _
  | signalAll => exact (hq.respects_moveAll _).mono _

end deeds

namespace World

variable {s : SyncId} {w : World} {me : ActorId} {p p' : Position} {h : NodeId} {body : List NodeId}

/-! Where an actor goes on, it is known what it has done to the queue. -/

theorem queue_linger {q : Queued} (next : (w.linger me q).2.position = some p') :
    (w.linger me q).1.queue s = (w.setQueue q.claim.sync
      ((w.queue q.claim.sync).readyToPark q.node).1).queue s := by
  unfold linger at next ⊢
  extract_lets at next ⊢
  split at next
  · obtain ⟨v, eq⟩ := w.abandon_eq q (.truth false)
    simp [eq, Next.position] at next
  rename_i early
  rw [if_neg early]
  generalize (w.queue q.claim.sync).readyToPark q.node = ready at next ⊢
  obtain ⟨r, f | _ | _⟩ := ready
  · simp [Next.position] at next
  · rfl
  · dsimp only
    split
    · rfl
    · exact (acts_park (w.setQueue q.claim.sync r) me _ _ _).1 s

theorem queue_rouse {q : Queued} (next : (w.rouse q).2.position = some p') :
    (w.rouse q).1.queue s = w.queue s := by
  unfold rouse takeFlag at next ⊢
  cases raised : w.flagged q.claim.patience.token with
  | false => exact queue_modifyToken w s _ _
  | true =>
    rw [raised] at next
    dsimp only at next ⊢
    split at next
    · obtain ⟨v, eq⟩ := World.abandon_eq (w.modifyToken q.claim.patience.token (·.take.1)) q
        (.failed .interrupted)
      simp [eq, Next.position] at next
    · rename_i heedless
      rw [if_neg heedless]
      exact queue_modifyToken w s _ _

theorem queue_doze {v : Waiting} (overdue : v.terms.patience.isOver w.now) :
    (w.doze me v).1.queue s = (w.setQueue v.terms.sync
      ((w.queue v.terms.sync).transferUnsignalled v.node).1).queue s := by
  unfold doze
  dsimp only
  rw [if_pos (Patience.isOver_iff.2 overdue)]

theorem queue_awake {v : Waiting} (raised : w.flagged v.terms.patience.token = true)
    (interruptible : v.terms.patience.interruptible = true) :
    (w.awake v).1.queue s = (w.setQueue v.terms.sync
      ((w.queue v.terms.sync).transferUnsignalled v.node).1).queue s := by
  unfold awake takeFlag
  dsimp only
  rw [raised]
  dsimp only
  rw [if_pos interruptible, queue_setQueue, queue_setQueue, syncs_modifyToken]
  simp only [queue_modifyToken]

theorem park_ne_ends (w : World) (me : ActorId) (token : Option TokenId) (timeout : Option Span) (p : Position)
    (v : Value) : (w.park me token timeout p).2 ≠ .ends v := by
  rcases (w.park_cases me token timeout p).2.2.2 with goes | ⟨-, t, stops⟩
  · simp [goes]
  · simp [stops]

theorem prev_turn {q : Queued} {site : Site} {stage : Stage} (next : (w.turn q).2 = .goes (.call site stage)) :
    ((w.queue q.claim.sync).node q.node).prev = (w.queue q.claim.sync).head := by
  unfold World.turn at next
  dsimp only at next
  split at next
  · simp at next
  · rename_i x prev
    split at next
    · rename_i front
      exact prev.trans (eq_of_beq front).symm
    · simp at next

theorem enterCondition_eq (w : World) (me : ActorId) (t : WaitTerms) :
    (w.enterCondition me t).1.queue s =
      (w.setQueue t.sync ((w.condition t.condition).join (w.queue t.sync) me).2.1).queue s ∧
    ∃ saved, (w.enterCondition me t).2 =
      .goes (.call (.letGo t ((w.condition t.condition).join (w.queue t.sync) me).2.2 saved) .arriving) :=
  ⟨rfl, _, rfl⟩

/-- How an actor that tries again from its place in the queue comes to give it up. -/
inductive GivesUp (w : World) (q : Queued) : Position → World → Value → Prop
  | late {w'} (overdue : q.claim.patience.isOver w.now) (tokens : w'.tokens = w.tokens) :
      GivesUp w q (.lingering q) w' (.truth false)
  | interrupted {w'} (raised : w.flagged q.claim.patience.token = true)
      (interruptible : q.claim.patience.interruptible = true)
      (tokens : w'.tokens = (w.takeFlag q.claim.patience.token).1.tokens) :
      GivesUp w q (.roused q) w' (.failed .interrupted)
  | failed {w' e} (tokens : w'.tokens = w.tokens) :
      GivesUp w q (.call (.turn q) (.answered (.error e))) w' (.failed e)

theorem Seat.Kept.turn {q : WaitQueue} {k : Queued} (called : Bool)
    (kept : k.claim.sync = s → (Seat.queued k.node k.claim.mode called).Kept q me) :
    ((Position.turn k).seat s).Kept q me := by
  rw [Position.seat]
  split
  · rename_i here
    exact ⟨(kept here).1, (kept here).2.1, by simp⟩
  · trivial

theorem turn_ne_ends (hq : Spine (w.queue s) h body) {q : Queued} (here : q.claim.sync = s)
    (live : q.node ∈ (w.queue s).live) (v : Value) : (w.turn q).2 ≠ .ends v := by
  obtain ⟨hb, -⟩ := hq.mem_live.1 live
  obtain ⟨ys, xs, rfl⟩ := List.append_of_mem hb
  have prev := hq.prev_eq
  intro ends
  unfold World.turn at ends
  rw [here] at ends
  dsimp only at ends
  rw [prev] at ends
  dsimp only at ends
  split at ends <;> simp at ends

/-! Steps that leave the queue as it is. -/

theorem kept_start {op : Operation} {r : World × Next} (eq : w.advance me (.start op) = r)
    (next : r.2.position = some p') : (p'.seat s).Kept (r.1.queue s) me := by
  have course : Course w me (.start op) r := eq ▸ course_advance _
  cases course with
  | «open» opens =>
    obtain rfl := Option.some.inj next
    rw [Site.seat_of_operation opens]
    trivial
  | decline => simp [Next.position] at next

theorem kept_turn {q : Queued} {r : World × Next} (eq : w.advance me (.turn q) = r)
    (kept : ((Position.turn q).seat s).Kept (w.queue s) me) (next : r.2.position = some p') :
    (p'.seat s).Kept (r.1.queue s) me := by
  have course : Course w me (.turn q) r := eq ▸ course_advance _
  cases course with
  | call =>
    obtain rfl := Option.some.inj next
    have turn := prev_turn (congrArg Prod.snd eq)
    simp only [Position.seat] at kept ⊢
    split
    · rename_i here
      rw [if_pos here] at kept
      exact ⟨kept.1, kept.2.1, fun _ => here ▸ turn⟩
    · trivial
  | await =>
    obtain rfl := Option.some.inj next
    exact kept
  | stray => simp [Next.position] at next

theorem kept_roused {q : Queued} {r : World × Next} (eq : w.advance me (.roused q) = r)
    (kept : ((Position.roused q).seat s).Kept (w.queue s) me) (next : r.2.position = some p') :
    (p'.seat s).Kept (r.1.queue s) me := by
  have goes : (w.rouse q).2.position = some p' := (congrArg (·.2.position) eq).trans next
  have queue : r.1.queue s = w.queue s := (congrArg (·.1.queue s) eq).symm.trans (queue_rouse goes)
  have course : Course w me (.roused q) r := eq ▸ course_advance _
  rw [queue]
  cases course with
  | retry | swallow =>
    obtain rfl := Option.some.inj next
    exact kept
  | interrupt => simp [Next.position] at next

theorem kept_waiting {v : Waiting} {r : World × Next} (eq : w.advance me (.waiting v) = r)
    (kept : ((Position.waiting v).seat s).Kept (w.queue s) me) (next : r.2.position = some p') :
    (p'.seat s).Kept (r.1.queue s) me := by
  have course : Course w me (.waiting v) r := eq ▸ course_advance _
  cases course with
  | reclaim moved =>
    obtain rfl := Option.some.inj next
    refine Seat.Kept.turn false fun here => ?_
    rw [Position.seat, if_pos here] at kept
    obtain ⟨used, actor⟩ := kept
    refine ⟨used.resolve_right fun waits => ?_, actor, by simp⟩
    dsimp only at here
    rw [here, WaitQueue.holds, waits] at moved
    simp at moved
  | doze =>
    obtain rfl := Option.some.inj next
    exact kept

section advance

variable (inTable : s < w.syncs.size) (hq : Spine (w.queue s) h body)

include inTable hq

/-! Steps that may change it. -/

theorem kept_readied {w' : World} {k : Queued} (kept : ((Position.turn k).seat s).Kept (w.queue s) me)
    (queue : w'.queue s = (w.setQueue k.claim.sync
      ((w.queue k.claim.sync).readyToPark k.node).1).queue s) :
    ((Position.turn k).seat s).Kept (w'.queue s) me := by
  refine Seat.Kept.turn false fun here => ?_
  rw [Position.seat, if_pos here] at kept
  subst here
  rw [queue, queue_setQueue_self inTable]
  exact kept.respects (hq.respects_readyToPark kept.1).2.1 (by simp)

theorem kept_transferred {w' : World} {v v' : Waiting} (kept : ((Position.waiting v).seat s).Kept (w.queue s) me)
    (queue : w'.queue s = (w.setQueue v.terms.sync
      ((w.queue v.terms.sync).transferUnsignalled v.node).1).queue s)
    (terms : v'.terms = v.terms) (node : v'.node = v.node) :
    ((World.reclaim v').seat s).Kept (w'.queue s) me := by
  refine Seat.Kept.turn false fun here => ?_
  dsimp only at here ⊢
  rw [terms] at here
  rw [Position.seat, if_pos here] at kept
  subst here
  obtain ⟨used, actor⟩ := kept
  rw [queue, queue_setQueue_self inTable, node]
  by_cases waits : ((w.queue v.terms.sync).node v.node).status = .condition
  · obtain ⟨respects, live⟩ := hq.respects_transferUnsignalled waits
    exact ⟨by simp [live], (respects.actor _ (by simp) used).trans actor, by simp⟩
  · rw [WaitQueue.transferUnsignalled_of_ne waits]
    exact ⟨used.resolve_right waits, actor, by simp⟩

/-- A wait that begins puts a node of the actor's on the condition. -/
theorem kept_enterCondition (t : WaitTerms) (next : (w.enterCondition me t).2.position = some p') :
    (p'.seat s).Kept ((w.enterCondition me t).1.queue s) me := by
  obtain ⟨queue, saved, goes⟩ := w.enterCondition_eq (s := s) me t
  rw [goes] at next
  obtain rfl := Option.some.inj next
  simp only [Position.seat]
  split
  · rename_i here
    subst here
    rw [queue, queue_setQueue_self inTable]
    obtain ⟨-, waits, actor⟩ := hq.respects_joinCondition (w.condition t.condition) me
    split <;> exact ⟨Or.inr waits, actor⟩
  · trivial

/-- To release the synchronizer for a wait costs nobody a node on the condition. -/
theorem kept_letGo {v : Waiting} {stage : Stage}
    (kept : ((Position.call (.letGo v.terms v.node v.saved) stage).seat s).Kept (w.queue s) me) :
    ((Position.waiting v).seat s).Kept
      ((w.apply v.terms.sync (w.queue v.terms.sync).wakeFirst).queue s) me := by
  simp only [Position.seat] at kept ⊢
  split
  · rename_i here
    subst here
    rw [if_pos rfl] at kept
    have waiting : (Seat.waiting v.node).Kept (w.queue v.terms.sync) me := by split at kept <;> exact kept
    rw [queue_apply_self inTable]
    exact waiting.respects ((hq.level_wakeFirst none).respects hq) (by simp)
  · trivial

theorem kept_call {site : Site} {stage : Stage} {r : World × Next}
    (eq : w.advance me (.call site stage) = r)
    (kept : ((Position.call site stage).seat s).Kept (w.queue s) me) (next : r.2.position = some p') :
    (p'.seat s).Kept (r.1.queue s) me := by
  have course : Course w me (.call site stage) r := eq ▸ course_advance _
  cases course with
  | enter _ syncs goes | leave _ syncs goes =>
    rw [queue_congr syncs]
    obtain rfl := Next.position_of_pauses goes next
    exact Position.kept_call kept
  | ask =>
    obtain rfl := Option.some.inj next
    rw [queue_ask]
    exact Position.kept_call kept
  | queue =>
    obtain rfl := Option.some.inj next
    trivial
  | @linger q v =>
    obtain rfl := Option.some.inj next
    refine Seat.Kept.turn true fun here => ?_
    rwa [Position.seat, if_pos here] at kept
  | conclude =>
    rw [Position.seat_outcome next]
    trivial
  | @enterWait t n v w' granted =>
    have enters : w.advance me (.call (.wait t) (.answered (.ok v))) = w.enterCondition me t := by
      simp [advance, callHook, resolve, granted, resolveGrant]
    have kept' : (w.enterCondition me t).2.position = some p' →
        (p'.seat s).Kept ((w.enterCondition me t).1.queue s) me := kept_enterCondition inTable hq t
    rw [← enters, eq] at kept'
    exact kept' next
  | @letGo t n saved =>
    obtain rfl := Option.some.inj next
    exact kept_letGo (v := { terms := t, node := n, saved }) inTable hq kept
  | fail | refuse | grant => simp [Next.position] at next

theorem kept_queueing {c : Claim} {r : World × Next} (eq : w.advance me (.queueing c) = r)
    (next : r.2.position = some p') : (p'.seat s).Kept (r.1.queue s) me := by
  have course : Course w me (.queueing c) r := eq ▸ course_advance _
  cases course with
  | join =>
    obtain rfl := Option.some.inj next
    obtain ⟨-, live, actor⟩ := hq.respects_join c.mode me
    refine Seat.Kept.turn false fun here => ?_
    subst here
    rw [queue_setQueue_self inTable]
    exact ⟨by simp [live], actor, by simp⟩
  | expire => simp [Next.position] at next

theorem kept_lingering {q : Queued} {r : World × Next} (eq : w.advance me (.lingering q) = r)
    (kept : ((Position.lingering q).seat s).Kept (w.queue s) me) (next : r.2.position = some p') :
    (p'.seat s).Kept (r.1.queue s) me := by
  have goes : (w.linger me q).2.position = some p' := (congrArg (·.2.position) eq).trans next
  have queue := (congrArg (·.1.queue s) eq).symm.trans (queue_linger goes)
  have course : Course w me (.lingering q) r := eq ▸ course_advance _
  have seat : p'.seat s = (Position.turn q).seat s := by
    cases course with
    | again =>
      obtain rfl := Option.some.inj next
      rfl
    | park _ stops =>
      rcases stops with rfl | ⟨-, ⟨t, rfl⟩, -⟩ <;>
        obtain rfl := Option.some.inj next <;>
        rfl
    | giveUp => simp [Next.position] at next
  rw [seat]
  exact kept_readied inTable hq kept queue

/-- Whoever sees that the deadline has come moves its node to the queue, if nobody has done so. -/
theorem kept_dozing {v : Waiting} {r : World × Next} (eq : w.advance me (.dozing v) = r)
    (kept : ((Position.dozing v).seat s).Kept (w.queue s) me) (next : r.2.position = some p') :
    (p'.seat s).Kept (r.1.queue s) me := by
  have course : Course w me (.dozing v) r := eq ▸ course_advance _
  cases course with
  | timeOut _ overdue =>
    have queue := (congrArg (·.1.queue s) eq).symm.trans (queue_doze (s := s) overdue)
    obtain rfl := Option.some.inj next
    exact kept_transferred inTable hq kept queue rfl rfl
  | sleep _ syncs _ goes =>
    rw [queue_congr syncs]
    obtain rfl := Next.position_of_parks goes next
    exact kept

theorem kept_awoken {v : Waiting} {r : World × Next} (eq : w.advance me (.awoken v) = r)
    (kept : ((Position.awoken v).seat s).Kept (w.queue s) me) (next : r.2.position = some p') :
    (p'.seat s).Kept (r.1.queue s) me := by
  have course : Course w me (.awoken v) r := eq ▸ course_advance _
  cases course with
  | cancel raised interruptible =>
    have queue := (congrArg (·.1.queue s) eq).symm.trans (queue_awake (s := s) raised interruptible)
    obtain rfl := Option.some.inj next
    exact kept_transferred inTable hq kept queue rfl rfl
  | look _ _ syncs | putOff _ _ _ syncs =>
    obtain rfl := Option.some.inj next
    rw [queue_congr syncs]
    exact kept

/-- Wherever a step leads, the actor keeps its seat. -/
theorem kept_advance {r : World × Next} (eq : w.advance me p = r) (kept : (p.seat s).Kept (w.queue s) me)
    (next : r.2.position = some p') : (p'.seat s).Kept (r.1.queue s) me := by
  cases p with
  | start op => exact kept_start eq next
  | call site stage => exact kept_call inTable hq eq kept next
  | queueing c => exact kept_queueing inTable hq eq next
  | turn q => exact kept_turn eq kept next
  | lingering q => exact kept_lingering inTable hq eq kept next
  | roused q => exact kept_roused eq kept next
  | waiting v => exact kept_waiting eq kept next
  | dozing v => exact kept_dozing inTable hq eq kept next
  | awoken v => exact kept_awoken inTable hq eq kept next
  | reckoning =>
    subst eq
    simp [advance, Next.position] at next

/-- While an actor tries again from its place in the queue, nobody comes or goes by its doing. -/
theorem live_advance {q q' : Queued} {r : World × Next} (eq : w.advance me p = r)
    (kept : (p.seat s).Kept (w.queue s) me) (place : p.place = some q) (here : q.claim.sync = s)
    (next : r.2.position = some p') (place' : p'.place = some q') : (r.1.queue s).live = (w.queue s).live := by
  have course : Course w me p r := eq ▸ course_advance p
  cases course with
  | enter _ syncs | leave _ syncs => rw [queue_congr syncs]
  | ask => rw [queue_ask]
  | conclude =>
    obtain ⟨called, seat⟩ := Position.seat_of_place (s := q'.claim.sync) place' rfl
    rw [Position.seat_outcome next] at seat
    simp at seat
  | call | await | linger => rfl
  | @retry k w' | @swallow k w' =>
    have goes : (w.rouse k).2.position = some p' := (congrArg (·.2.position) eq).trans next
    exact congrArg WaitQueue.live ((congrArg (·.1.queue s) eq).symm.trans (queue_rouse goes))
  | @again k w' | @park k w' =>
    have goes : (w.linger me k).2.position = some p' := (congrArg (·.2.position) eq).trans next
    have queue := (congrArg (·.1.queue s) eq).symm.trans (queue_linger goes)
    obtain rfl := Option.some.inj place
    rw [Position.seat, if_pos here] at kept
    subst here
    rw [queue_setQueue_self inTable] at queue
    exact (congrArg WaitQueue.live queue).trans (hq.respects_readyToPark kept.1).2.2
  | «open» | queue | enterWait | letGo | join | reclaim | timeOut | cancel | doze | sleep | look | putOff =>
    simp [Position.place] at place
  | _ => simp [Next.position] at next

theorem abandon_kept {q : Queued} (here : q.claim.sync = s) (live : q.node ∈ (w.queue s).live) (v : Value) :
    (w.abandon q v).2 = .ends v ∧ (w.abandon q v).1.queue s = ((w.queue s).withdraw q.node).1 ∧
      (w.abandon q v).1.tokens = w.tokens := by
  subst here
  have done := (hq.respects_withdraw live).1
  unfold abandon World.withdraw
  dsimp only
  rw [done]
  exact ⟨rfl, queue_apply_self inTable _, tokens_apply _ _ _⟩

theorem leave_lingering {q : Queued} {v : Value} (here : q.claim.sync = s)
    (live : q.node ∈ (w.queue s).live) (ends : (w.linger me q).2 = .ends v) :
    GivesUp w q (.lingering q) (w.linger me q).1 v ∧
      (w.linger me q).1.queue s = ((w.queue s).withdraw q.node).1 := by
  obtain ⟨⟨b, ready⟩, -⟩ := hq.respects_readyToPark live
  obtain ⟨told, queue, tokens⟩ := abandon_kept inTable hq here live (.truth false)
  unfold linger at ends ⊢
  dsimp only at ends ⊢
  split at ends
  · rename_i overdue
    rw [if_pos overdue]
    obtain rfl := Next.ends.inj (told.symm.trans ends)
    exact ⟨.late (Patience.isOver_iff.1 overdue) tokens, queue⟩
  · rw [here, ready] at ends
    cases b with
    | false => simp at ends
    | true =>
      dsimp only at ends
      split at ends
      · simp at ends
      · exact absurd ends (park_ne_ends _ _ _ _ _ _)

theorem leave_roused {q : Queued} {v : Value} (here : q.claim.sync = s)
    (live : q.node ∈ (w.queue s).live) (ends : (w.rouse q).2 = .ends v) :
    GivesUp w q (.roused q) (w.rouse q).1 v ∧ (w.rouse q).1.queue s = ((w.queue s).withdraw q.node).1 := by
  have abandon := abandon_kept (w := w.modifyToken q.claim.patience.token (·.take.1))
    (by rwa [syncs_modifyToken]) (by rwa [queue_modifyToken]) here (by rwa [queue_modifyToken])
    (.failed .interrupted)
  rw [queue_modifyToken] at abandon
  obtain ⟨told, queue, tokens⟩ := abandon
  unfold rouse takeFlag at ends ⊢
  cases raised : w.flagged q.claim.patience.token with
  | false => simp [raised] at ends
  | true =>
    rw [raised] at ends
    dsimp only at ends ⊢
    split at ends
    · rename_i interruptible
      rw [if_pos interruptible]
      obtain rfl := Next.ends.inj (told.symm.trans ends)
      exact ⟨.interrupted raised interruptible tokens, queue⟩
    · simp at ends

/-- Of those who ask for their turn, only one whom the hook has answered comes to an end. -/
theorem leave_asking {q : Queued} {stage : Stage} {v : Value} (here : q.claim.sync = s)
    (live : q.node ∈ (w.queue s).live) (ends : (w.advance me (.call (.turn q) stage)).2 = .ends v) :
    (∃ x, stage = .answered (.ok x) ∧ x.isGrant = true) ∨
    (GivesUp w q (.call (.turn q) stage) (w.advance me (.call (.turn q) stage)).1 v ∧
      (w.advance me (.call (.turn q) stage)).1.queue s = ((w.queue s).withdraw q.node).1) := by
  have course : Course w me (.call (.turn q) stage) (w.advance me _) := course_advance _
  cases stage with
  | answered answer =>
    cases answer with
    | error e =>
      obtain ⟨told, queue, tokens⟩ := abandon_kept inTable hq here live (.failed e)
      obtain rfl := Next.ends.inj (told.symm.trans ends)
      exact Or.inr ⟨.failed tokens, queue⟩
    | ok x =>
      by_cases granted : x.isGrant = true
      · exact Or.inl ⟨x, rfl, granted⟩
      · simp [advance, callHook, resolve, granted, resolveRefusal] at ends
  | arriving =>
    generalize w.advance me _ = r at course ends
    cases course with
    | enter _ _ goes => rcases goes with rfl | rfl <;> simp at ends
  | entering =>
    generalize w.advance me _ = r at course ends
    cases course with
    | ask => simp at ends
  | leaving answer =>
    generalize w.advance me _ = r at course ends
    cases course with
    | leave _ _ goes => rcases goes with rfl | rfl <;> simp at ends

/-- Whoever leaves its place in the queue has been granted its claim, or gives up and takes its node along. -/
theorem leave_advance {q : Queued} {v : Value} (kept : (p.seat s).Kept (w.queue s) me) (place : p.place = some q)
    (here : q.claim.sync = s) (ends : (w.advance me p).2 = .ends v) :
    (∃ x, p = .call (.turn q) (.answered (.ok x)) ∧ x.isGrant = true) ∨
    (GivesUp w q p (w.advance me p).1 v ∧
      (w.advance me p).1.queue s = ((w.queue s).withdraw q.node).1) := by
  obtain ⟨called, seat⟩ := Position.seat_of_place place here
  rw [seat] at kept
  cases p with
  | turn k =>
    obtain rfl := Option.some.inj place
    exact absurd ends (turn_ne_ends hq here kept.1 v)
  | lingering k =>
    obtain rfl := Option.some.inj place
    exact Or.inr (leave_lingering inTable hq here kept.1 ends)
  | roused k =>
    obtain rfl := Option.some.inj place
    exact Or.inr (leave_roused inTable hq here kept.1 ends)
  | call site stage =>
    cases site with
    | turn k =>
      obtain rfl := Option.some.inj place
      refine (leave_asking inTable hq here kept.1 ends).imp_left ?_
      rintro ⟨x, rfl, granted⟩
      exact ⟨x, rfl, granted⟩
    | _ => simp [Position.place] at place
  | _ => simp [Position.place] at place

end advance

/-- What holds at a synchronizer whatever its policy is and whatever is done to its state: the queue holds
together, and everybody keeps their seat. -/
structure Tenured (s : SyncId) (w : World) : Prop where
  inTable : s < w.syncs.size
  tasked : Tasked w
  spine : ∃ h body, Spine (w.queue s) h body
  kept : ∀ a p, (w.actor a).position = some p → (p.seat s).Kept (w.queue s) a

namespace Tenured

variable {a b : ActorId} {n : NodeId}

theorem apart (hw : Tenured s w) (hp : (w.actor a).position = some p) (hn : (p.seat s).node = some n)
    (hp' : (w.actor b).position = some p') (ne : a ≠ b) : (p'.seat s).node ≠ some n := fun hn' => by
  have mine := ((hw.kept a p hp).of_node hn).2
  have theirs := ((hw.kept b p' hp').of_node hn').2
  exact ne (Option.some.inj (mine.symm.trans theirs))

theorem kept_stride (hw : Tenured s w) (hp : (w.actor a).position = some p)
    (next : (w.stride a p).2.position = some p') : (p'.seat s).Kept ((w.stride a p).1.queue s) a := by
  obtain ⟨h, body, hq⟩ := hw.spine
  have kept := hw.kept a p hp
  rcases w.stride_course a p with ⟨-, -, spins⟩ | ⟨eq, -⟩
  · rw [spins] at next ⊢
    obtain rfl := Option.some.inj next
    exact kept
  · rw [← w.queue_looked a p s] at hq kept
    exact kept_advance (by simpa using hw.inTable) hq eq.symm kept next

theorem live_stride (hw : Tenured s w) (hp : (w.actor a).position = some p) {q q' : Queued}
    (place : p.place = some q) (here : q.claim.sync = s) (next : (w.stride a p).2.position = some p')
    (place' : p'.place = some q') : ((w.stride a p).1.queue s).live = (w.queue s).live := by
  obtain ⟨h, body, hq⟩ := hw.spine
  have kept := hw.kept a p hp
  rcases w.stride_course a p with ⟨-, -, spins⟩ | ⟨eq, -⟩
  · rw [spins]
    rfl
  · rw [← w.queue_looked a p s] at hq kept ⊢
    exact live_advance (by simpa using hw.inTable) hq eq.symm kept place here next place'

theorem happen (hw : Tenured s w) (e : Event) : Tenured s (w.happen e) := by
  obtain ⟨h, body, hq⟩ := hw.spine
  have deeds := hw.tasked.deeds hw.inTable e
  refine ⟨(w.queues_happen e).1 ▸ hw.inTable, hw.tasked.happen hw.inTable e, ?_, fun a p' hp' => ?_⟩
  · rcases deeds with ⟨same, -⟩ | ⟨b, p, q', cs, -, running, deed, rfl, -⟩
    · rw [same]
      exact ⟨h, body, hq⟩
    · exact (deed.respects hq (hw.kept b p (Actor.position_of_busy running))).spine
  · rcases w.position_cases a hp' with ⟨hp, bides⟩ | ⟨op, -, -, rfl⟩ | ⟨p, rfl, running, -, next⟩
    · have kept := hw.kept a p' hp
      by_cases mine : e = .step a
      · subst mine
        rw [World.happen, queue_congr (bides.step hp).2]
        exact kept
      · rcases deeds with ⟨same, -⟩ | ⟨b, p, q', cs, rfl, running, deed, rfl, -⟩
        · rwa [same]
        · have hb := Actor.position_of_busy running
          have ne : a ≠ b := fun e => mine (e ▸ rfl)
          exact kept.respects (deed.respects hq (hw.kept b p hb)) fun n hn => hw.apart hp hn hb ne
    · trivial
    · rw [World.happen, step_eq running]
      exact hw.kept_stride (Actor.position_of_busy running) next

theorem create {actors tokens : Nat} {syncs : List Synchronizer} {conditions : List SyncId}
    {x : Synchronizer} (hx : syncs[s]? = some x) (empty : x.queue = .empty) :
    Tenured s (World.create actors tokens syncs conditions) := by
  refine ⟨(Seated.create hx empty).inTable, .create, ⟨WaitQueue.placeholder, [], ?_⟩,
    fun a p hp => absurd hp (position_create actors tokens syncs conditions a p)⟩
  rw [queue, sync_create hx, empty]
  exact .empty

end Tenured

end World

end Turnstile
