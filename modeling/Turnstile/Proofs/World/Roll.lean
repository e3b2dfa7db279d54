import Turnstile.Proofs.Condition.Signals
import Turnstile.Proofs.World.Order

/-! First come, first served: who comes into the queue of a synchronizer in the course of a run, and who
has its turn. -/
namespace Turnstile

open WaitQueue (Shaped Alike Moves)

namespace WaitQueue

variable {takes : NodeId → Prop} {q q' : WaitQueue} {h n : NodeId} {body : List NodeId}

/-- Who comes, who goes and who has its turn, by one event. Only some may have their turn by it. -/
inductive Shifts (takes : NodeId → Prop) (q q' : WaitQueue) : Prop
  | stays (head : q'.head = q.head) (live : q'.live = q.live)
  | leaves (n : NodeId) (head : q'.head = q.head) (live : q'.live = q.live.erase n)
  /-- Some come in at the end, who were on a condition or are new. -/
  | joins (ns : List NodeId) (nonempty : ns ≠ []) (apart : ∀ n ∈ ns, (q.node n).status = .condition ∨
      n = q.nodes.size) (head : q'.head = some q.front) (live : q'.live = q.live ++ ns)
  | turns (n : NodeId) (may : takes n) (head : q'.head = some n) (live : q.live = n :: q'.live)

/-- As for who waits on a condition, nobody comes to but by a new node. -/
structure Shifted (takes : NodeId → Prop) (q q' : WaitQueue) : Prop where
  shifts : Shifts takes q q'
  waits : ∀ m, (q'.node m).status = .condition → (q.node m).status = .condition ∨ q.nodes.size ≤ m

namespace Shifted

theorem stays (head : q'.head = q.head) (live : q'.live = q.live)
    (waits : ∀ m, (q'.node m).status = .condition → (q.node m).status = .condition) : Shifted takes q q' :=
  ⟨.stays head live, fun m hm => Or.inl (waits m hm)⟩

theorem refl (q : WaitQueue) : Shifted takes q q := stays rfl rfl fun _ => id

theorem of_alike (ha : Alike q q') (hq : Shaped q h body) : Shifted takes q q' :=
  stays ha.head (ha.live hq) fun m hm => (ha.status m).symm.trans hm

theorem of_joined (hj : Joined q q' n) (head : q'.head = some q.front)
    (apart : (q.node n).status = .condition ∨ n = q.nodes.size) : Shifted takes q q' := by
  refine ⟨.joins [n] (by simp) (by simpa using apart) head hj.live, fun m hm => ?_⟩
  by_cases e : m = n
  · subst e
    exact apart.imp_right fun new => Nat.le_of_eq new.symm
  · exact Or.inl ((hj.spares.waits m e).1 hm)

theorem of_readied (hr : Readied q q' n) : Shifted takes q q' :=
  stays hr.head hr.live fun m => (hr.waits m).1

theorem of_withdrawn {r : WaitQueue × Option ActorId × Except Fault Unit} (hw : Withdrawn q r n) :
    Shifted takes q r.1 :=
  ⟨.leaves n hw.head hw.live, fun m hm => Or.inl ((hw.waits m).1 hm)⟩

theorem of_served {r : WaitQueue × Option ActorId} (hr : Served q r) : Shifted takes q r.1 :=
  stays hr.head hr.live fun m => (hr.waits m).1

theorem of_promoted {r : WaitQueue × Option ActorId} (hp : Promoted q r n) (may : takes n) :
    Shifted takes q r.1 :=
  ⟨.turns n may hp.head hp.live, fun m hm => Or.inl ((hp.waits m).1 hm)⟩

theorem of_moves {ns : List NodeId} (hm : Moves q q' ns) : Shifted takes q q' := by
  refine ⟨?_, fun m waits => Or.inl ((hm.waits_iff (hm.notMem waits)).1 waits)⟩
  by_cases none : ns = []
  · refine .stays ?_ ?_
    · rw [hm.head, if_pos none]
    · rw [hm.live, none, List.append_nil]
  · refine .joins ns none (fun n hn => Or.inl (hm.waited n hn)) ?_ hm.live
    rw [hm.head, if_neg none]

theorem then_alike {q'' : WaitQueue} (hs : Shifted takes q q') (ha : Alike q' q'') (hq' : Shaped q' h body) :
    Shifted takes q q'' := by
  refine ⟨?_, fun m hm => hs.waits m ((ha.status m).symm.trans hm)⟩
  have live := ha.live hq'
  rcases hs.shifts with
    ⟨head, kept⟩ | ⟨n, head, left⟩ | ⟨ns, nonempty, apart, head, came⟩ | ⟨n, may, head, turn⟩
  · exact .stays (ha.head.trans head) (live.trans kept)
  · exact .leaves n (ha.head.trans head) (live.trans left)
  · exact .joins ns nonempty apart (ha.head.trans head) (live.trans came)
  · exact .turns n may (ha.head.trans head) (live ▸ turn)

end Shifted

theorem Shaped.readied_readyToPark (hq : Shaped q h body) (hn : n ∈ q.live) :
    Readied q (q.readyToPark n).1 n := by
  rcases hq.readyToPark_cases hn with ⟨p, -, -, -, eq⟩ | ⟨q', eq, readied⟩
  · rw [eq]
    exact ⟨⟨h, body, hq⟩, rfl, rfl, fun _ => rfl, fun _ => rfl, fun _ _ => rfl, fun _ => Iff.rfl,
      fun _ => Or.inl rfl⟩
  · rw [eq]
    exact readied

theorem Shaped.settled_of_column (hq : Shaped q h body) (hn : n ∈ q.column) :
    n < q.nodes.size ∧ (q.node n).status ≠ .condition := by
  have mem : n ∈ h :: body := by
    rw [column, List.mem_append, Option.mem_toList] at hn
    rcases hn with head | live
    · rcases hq.head_isSome_or with hh | ⟨hh, -⟩
      · exact Option.some.inj (hh.symm.trans head) ▸ List.mem_cons_self
      · simp [hh] at head
    · exact List.mem_cons_of_mem _ (hq.mem_live.1 live).1
  exact ⟨hq.inTable n mem, hq.joined n mem⟩

/-- A node that is made for a condition is in nobody's way. -/
theorem Shaped.shifted_joinCondition (hq : Shaped q h body) (c : Condition) (a : ActorId) :
    Shifted takes q (c.join q a).2.1 := by
  obtain ⟨q₁, before, -, after⟩ := c.join_spec q a
  have hq₁ := before.shaped hq
  have created := hq₁.create .exclusive .condition a
  have shifted : Shifted takes q (q₁.create .exclusive .condition a).1 := by
    refine ⟨.stays before.head ?_, fun m hm => ?_⟩
    · rw [hq₁.live_create, before.live hq]
    · by_cases new : m = q₁.nodes.size
      · exact Or.inr (Nat.le_of_eq (new.trans before.size).symm)
      · rw [q₁.node_create_of_ne _ _ _ new, before.status] at hm
        exact Or.inl hm
  exact shifted.then_alike after created

end WaitQueue

namespace World

variable {s : SyncId} {w : World} {a : ActorId} {e : Event}

def Takes (s : SyncId) (w : World) (e : Event) (n : NodeId) : Prop :=
  ∃ a p q, e = .step a ∧ (w.actor a).activity = .busy .running p ∧ p.takes s = some q ∧ q.node = n

open WaitQueue (Shifted) in
/-- Whatever happens, the nodes of the queue are shifted in one of these ways. -/
theorem InOrder.shifted (hw : InOrder s w) (e : Event) :
    Shifted (w.Takes s e) (w.queue s) ((w.happen e).queue s) := by
  obtain ⟨h, body, hq⟩ := hw.seated.shaped
  rcases hw.tasked.deeds hw.seated.inTable e with ⟨same, -⟩ | ⟨a, p, q', cs, rfl, running, deed, queue, -⟩
  · rw [same]
    exact .refl _
  rw [queue]
  clear queue
  have hp : (w.actor a).position = some p := Actor.position_of_busy running
  have takes : ∀ {q : Queued} {v : Verdict}, q.claim.sync = s → v.isGrant = true →
      p = .call (.turn q) (.answered (.ok v)) → w.Takes s (.step a) q.node := by
    rintro q v here granted rfl
    exact ⟨a, _, q, rfl, running, by simp [Position.takes, here, granted], rfl⟩
  cases deed with
  | rest => exact .refl _
  | @join c => exact .of_joined (hq.joined_join c.mode a).1 (hq.head_join c.mode a) (Or.inr rfl)
  | @ready q => exact .of_readied (hq.readied_readyToPark (hw.seated.live_of_place hp rfl rfl).1)
  | withdraw place => exact .of_withdrawn (hq.withdrawn (hw.seated.live_of_place hp place rfl).1)
  | turn granted cut =>
    obtain ⟨k, -, promoted⟩ := hw.seated.promoted_of_cut hp rfl cut
    exact .of_promoted promoted (takes rfl granted rfl)
  | @finish q v q' c granted cut =>
    obtain ⟨k, -, promoted⟩ := hw.seated.promoted_of_cut hp rfl cut
    obtain ⟨body', hq'⟩ := promoted.shaped
    exact Shifted.then_alike (.of_promoted promoted (takes rfl granted rfl))
      ((w.conditions.get c).alike_prune q') hq'
  | serve _ served =>
    rcases served with rfl | rfl
    · exact .of_served hq.served_wakeFirst
    · exact .of_served hq.served_wakeShared
  | @drop t n saved answer failed =>
    have waits := (hw.seated.waits_of_letGo hp rfl failed).1
    obtain ⟨-, live, cancelled, -⟩ := hq.dropped waits
    refine .stays rfl live fun m hm => ?_
    by_cases e : m = n
    · exact e ▸ waits
    · rwa [WaitQueue.status_setStatus_of_ne _ _ e] at hm
  | @transfer p v awaits =>
    by_cases waits : ((w.queue v.terms.sync).node v.node).status = .condition
    · refine .of_joined (hq.joined_transferUnsignalled waits).1 ?_ (Or.inl waits)
      simpa [WaitQueue.transferUnsignalled, waits] using hq.head_release waits
    · rw [WaitQueue.transferUnsignalled_of_ne waits]
      exact .refl _
  | enter => exact hq.shifted_joinCondition _ a
  | signal =>
    rcases Condition.signalled_signalFrom (w.conditions.get _) hq _ with
      ⟨-, alike, -, -, -⟩ | ⟨xs, n, ys, -, -, moves, -, -⟩
    · exact .of_alike alike hq
    · exact .of_moves moves
  | @signalAll s c =>
    obtain ⟨ns, moves⟩ := Condition.exists_moves_moveAll hq ((w.conditions.get c).waiters (w.queue s))
    exact .of_moves moves

theorem InOrder.called_alone (hw : InOrder s w) {b : ActorId} {q q' : Queued} {stage stage' : Stage}
    (hp : (w.actor a).position = some (.call (.turn q) stage)) (here : q.claim.sync = s)
    (hp' : (w.actor b).position = some (.call (.turn q') stage')) (here' : q'.claim.sync = s) : b = a := by
  obtain ⟨-, -, -, -, -, -, first⟩ := hw.seated.called hp here
  obtain ⟨-, -, -, -, -, -, first'⟩ := hw.seated.called hp' here'
  have mine := (hw.seated.live_of_place hp rfl here).2
  have others := (hw.seated.live_of_place hp' rfl here').2
  obtain same : q.node = q'.node := Option.some.inj (first.symm.trans first')
  rw [← same, mine] at others
  exact (Option.some.inj others).symm

/-- While an actor is called to its turn nobody comes to be the head, until it takes its turn itself. -/
theorem InOrder.head_happen (hw : InOrder s w) {q : Queued} {stage : Stage}
    (hp : (w.actor a).position = some (.call (.turn q) stage)) (here : q.claim.sync = s) (e : Event) :
    ((w.happen e).queue s).head = (w.queue s).head ∨ (e = .step a ∧
      (∃ v, stage = .answered (.ok v) ∧ v.isGrant = true) ∧ ((w.happen e).queue s).head = some q.node) := by
  obtain ⟨h, -, -, -, opened, -, first⟩ := hw.seated.called hp here
  rcases (hw.shifted e).shifts with ⟨head, -⟩ | ⟨-, head, -⟩ | ⟨-, -, -, head, -⟩ |
    ⟨n, ⟨b, p, q', rfl, running, takes, rfl⟩, head, live⟩
  · exact Or.inl head
  · exact Or.inl head
  · exact Or.inl (by rw [head, WaitQueue.front, opened]; rfl)
  · obtain ⟨v, rfl, here', granted⟩ := Position.takes_eq takes
    have hp' := Actor.position_of_busy running
    obtain rfl := hw.called_alone hp here hp' here'
    obtain ⟨same, answered⟩ := Position.call.inj (Option.some.inj (hp.symm.trans hp'))
    obtain rfl := Site.turn.inj same
    exact Or.inr ⟨rfl, ⟨v, answered, granted⟩, head⟩

end World

/-- What an onlooker notes of the queue of a synchronizer. -/
structure Roll where
  /-- Who has come into the queue, in order. -/
  came : List NodeId := []
  /-- Who has come to be the head, in order. -/
  served : List NodeId := []

namespace Roll

def note (s : SyncId) (w : World) (e : Event) (r : Roll) : Roll :=
  let q := w.queue s
  let q' := (w.happen e).queue s
  { came := r.came ++ q'.column.filter fun n => n ∉ q.column
    served := if q'.head = q.head then r.served else r.served ++ q'.head.toList }

def since (s : SyncId) (w : World) (events : List Event) : Roll := World.collect (note s) w events {}

/-- The roll is right about who waits and who is the head, and has nobody twice. -/
structure Agrees (s : SyncId) (w : World) (r : Roll) : Prop where
  order : (r.served ++ (w.queue s).live).Sublist r.came
  head : r.served.getLast? = (w.queue s).head
  nodup : r.came.Nodup
  settled : ∀ n ∈ r.came, n < (w.queue s).nodes.size ∧ ((w.queue s).node n).status ≠ .condition
  unopened : (w.queue s).head = none → r.came = []

namespace Agrees

variable {s : SyncId} {w : World} {r : Roll} {e : Event}

theorem mem_of_column (h : Agrees s w r) {n : NodeId} (hn : n ∈ (w.queue s).column) : n ∈ r.came := by
  refine h.order.subset ?_
  rw [WaitQueue.column, List.mem_append, Option.mem_toList, ← h.head] at hn
  exact List.mem_append.2 (hn.imp_left List.mem_of_getLast?)

theorem create {actors tokens : Nat} {syncs : List Synchronizer} {conditions : List SyncId}
    {x : Synchronizer} (hx : syncs[s]? = some x) (empty : x.queue = .empty) :
    Agrees s (World.create actors tokens syncs conditions) {} := by
  have queue : (World.create actors tokens syncs conditions).queue s = .empty := by
    rw [World.queue, World.sync_create hx, empty]
  have live : WaitQueue.empty.live = [] := Shaped.shaped_empty.live_eq
  refine ⟨?_, by rw [queue]; rfl, List.nodup_nil, by simp, fun _ => rfl⟩
  rw [queue, live]
  exact List.Sublist.refl _

/-- Where nobody comes in, nobody is noted. -/
theorem came_note (sub : ((w.happen e).queue s).column ⊆ (w.queue s).column) :
    (r.note s w e).came = r.came := by
  have none : ((w.happen e).queue s).column.filter (fun n => n ∉ (w.queue s).column) = [] :=
    List.filter_eq_nil_iff.2 fun n hn => by simpa using sub hn
  rw [note, none, List.append_nil]

theorem settled_happen (h : Agrees s w r) (hw : World.InOrder s w) (e : Event) :
    ∀ n ∈ (r.note s w e).came, n < ((w.happen e).queue s).nodes.size ∧
      (((w.happen e).queue s).node n).status ≠ .condition := by
  obtain ⟨k, body, hq⟩ := (hw.seated.happen hw.exclusive e).shaped
  have size := ((w.queues_happen e).2 s).size
  intro n hn
  rcases List.mem_append.1 hn with before | came
  · obtain ⟨inTable, settled⟩ := h.settled n before
    refine ⟨Nat.lt_of_lt_of_le inTable size, fun waits => ?_⟩
    rcases (hw.shifted e).waits n waits with waits | new
    · exact settled waits
    · exact Nat.not_lt.2 new inTable
  · exact hq.settled_of_column (List.mem_filter.1 came).1

theorem keep (h : Agrees s w r) (hw : World.InOrder s w)
    (head : ((w.happen e).queue s).head = (w.queue s).head)
    (live : ((w.happen e).queue s).live.Sublist (w.queue s).live) : Agrees s (w.happen e) (r.note s w e) := by
  have came : (r.note s w e).came = r.came := by
    refine came_note fun n hn => ?_
    rw [WaitQueue.column, head, List.mem_append] at hn
    exact List.mem_append.2 (hn.imp_right fun hn => live.subset hn)
  have served : (r.note s w e).served = r.served := if_pos head
  refine ⟨?_, ?_, ?_, h.settled_happen hw e, ?_⟩
  · rw [came, served]
    exact (live.append_left r.served).trans h.order
  · rw [served, h.head, head]
  · rw [came]
    exact h.nodup
  · rw [came, head]
    exact h.unopened

theorem join (h : Agrees s w r) (hw : World.InOrder s w) {ns : List NodeId}
    (apart : ∀ n ∈ ns, ((w.queue s).node n).status = .condition ∨ n = (w.queue s).nodes.size)
    (head : ((w.happen e).queue s).head = some (w.queue s).front)
    (live : ((w.happen e).queue s).live = (w.queue s).live ++ ns) :
    Agrees s (w.happen e) (r.note s w e) := by
  obtain ⟨k, body, hq⟩ := (hw.seated.happen hw.exclusive e).shaped
  have fresh : ∀ n ∈ ns, n ∉ r.came := by
    intro n hn came
    obtain ⟨inTable, settled⟩ := h.settled n came
    rcases apart n hn with waits | rfl
    · exact settled waits
    · exact Nat.lt_irrefl _ inTable
  have nodup := hq.nodup_column
  cases opened : (w.queue s).head with
  | some k =>
    have front : (w.queue s).front = k := by simp [WaitQueue.front, opened]
    have column : ((w.happen e).queue s).column = (w.queue s).column ++ ns := by
      rw [WaitQueue.column, WaitQueue.column, head, live, front, opened, List.append_assoc]
    have came : (r.note s w e).came = r.came ++ ns := by
      have new : ns.filter (fun n => n ∉ (w.queue s).column) = ns :=
        List.filter_eq_self.2 fun n hn => by simpa using fun old => fresh n hn (h.mem_of_column old)
      have old : (w.queue s).column.filter (fun n => n ∉ (w.queue s).column) = [] := by simp
      rw [note, column, List.filter_append, old, new, List.nil_append]
    have served : (r.note s w e).served = r.served := if_pos (by rw [head, front, opened])
    rw [column] at nodup
    refine ⟨?_, ?_, ?_, h.settled_happen hw e, by simp [head]⟩
    · rw [came, served, live, ← List.append_assoc]
      exact h.order.append_right ns
    · rw [served, h.head, head, front, opened]
    · rw [came]
      refine List.nodup_append.2 ⟨h.nodup, (List.nodup_append.1 nodup).2.1, ?_⟩
      rintro n old m new rfl
      exact fresh n new old
  | none =>
    -- The placeholder comes in first, and is the head at once.
    have empty := h.unopened opened
    have column : (w.queue s).column = [] := by
      refine List.eq_nil_iff_forall_not_mem.2 fun n hn => ?_
      simpa [empty] using h.mem_of_column hn
    have served : r.served = [] := by
      rw [← List.getLast?_eq_none_iff, h.head, opened]
    have alone : (w.queue s).live = [] := (List.append_eq_nil_iff.1 column).2
    have came : (r.note s w e).came = ((w.happen e).queue s).column := by
      simp [note, column, empty]
    have served' : (r.note s w e).served = ((w.happen e).queue s).head.toList := by
      rw [note, opened, if_neg (by simp [head]), served, List.nil_append]
    refine ⟨?_, ?_, ?_, h.settled_happen hw e, by simp [head]⟩
    · rw [came, served', ← WaitQueue.column]
    · rw [served', head]
      rfl
    · rwa [came]

/-- Who has its turn is the first of those who wait. -/
theorem turn (h : Agrees s w r) (hw : World.InOrder s w) {n : NodeId}
    (head : ((w.happen e).queue s).head = some n)
    (live : (w.queue s).live = n :: ((w.happen e).queue s).live) : Agrees s (w.happen e) (r.note s w e) := by
  obtain ⟨k, body, hq⟩ := hw.seated.shaped
  have waited : n ∈ (w.queue s).live := by simp [live]
  have came : (r.note s w e).came = r.came := by
    refine came_note fun m hm => List.mem_append_right _ ?_
    rw [live]
    simpa [WaitQueue.column, head] using hm
  have served : (r.note s w e).served = r.served ++ [n] := by
    rw [note, head, if_neg (hq.ne_head waited).symm]
    rfl
  refine ⟨?_, ?_, ?_, h.settled_happen hw e, by simp [head]⟩
  · rw [came, served, List.append_assoc, List.singleton_append, ← live]
    exact h.order
  · rw [served, head, List.getLast?_concat]
  · rw [came]
    exact h.nodup

theorem happen (h : Agrees s w r) (hw : World.InOrder s w) (e : Event) :
    Agrees s (w.happen e) (r.note s w e) := by
  rcases (hw.shifted e).shifts with ⟨head, live⟩ | ⟨n, head, live⟩ | ⟨ns, -, apart, head, live⟩ |
    ⟨n, -, head, live⟩
  · exact h.keep hw head (live ▸ List.Sublist.refl _)
  · exact h.keep hw head (live ▸ List.erase_sublist)
  · exact h.join hw apart head live
  · exact h.turn hw head live

end Agrees

end Roll

namespace World

variable {s : SyncId}

/-- Under any policy, at most one queued actor is asking for its turn, which is the first of those who wait,
and turns are taken in the order in which they came. -/
theorem served_in_order {actors tokens : Nat} {syncs : List Synchronizer} {conditions : List SyncId}
    {x : Synchronizer} (hx : syncs[s]? = some x) (empty : x.queue = .empty) {events : List Event}
    (orderly : Orderly s (World.create actors tokens syncs conditions) events) :
    let start := World.create actors tokens syncs conditions
    let w := start.after events
    let roll := Roll.since s start events
    (∀ a q stage, (w.actor a).position = some (.call (.turn q) stage) → q.claim.sync = s →
      (w.queue s).live.head? = some q.node ∧ ((w.queue s).node q.node).actor = some a ∧
      (∃ h, (w.queue s).head = some h ∧ ((w.queue s).node q.node).prev = some h) ∧
      (∀ b q' stage', (w.actor b).position = some (.call (.turn q') stage') → q'.claim.sync = s → b = a) ∧
      ∀ e, ((w.happen e).queue s).head = (w.queue s).head ∨ (e = .step a ∧
        (∃ v, stage = .answered (.ok v) ∧ v.isGrant = true) ∧ ((w.happen e).queue s).head = some q.node)) ∧
    roll.came.Nodup ∧ roll.served.Nodup ∧ roll.served.Sublist roll.came ∧
      roll.served.getLast? = (w.queue s).head := by
  intro start w roll
  have hw : InOrder s w := .after hx empty orderly
  have agrees : roll.Agrees s w :=
    InOrder.collect (Roll.note s) (Roll.Agrees s) {} hx empty (.create hx empty)
      (fun _ e _ hw h => h.happen hw e) orderly
  refine ⟨fun a q stage hp here => ?_, agrees.nodup, ?_, ?_, agrees.head⟩
  · obtain ⟨h, -, -, -, head, prev, first⟩ := hw.seated.called hp here
    exact ⟨first, (hw.seated.live_of_place hp rfl here).2, ⟨h, head, prev⟩,
      fun b q' stage' => hw.called_alone hp here, hw.head_happen hp here⟩
  · exact ((List.sublist_append_left _ _).trans agrees.order).nodup agrees.nodup
  · exact (List.sublist_append_left _ _).trans agrees.order

set_option maxRecDepth 2000 in
/-- One actor has been woken and asks for its turn; the placeholder stays the head, whatever happens next. -/
theorem served_in_order_contended :
    let start := World.create 2 0 [{ policy := .mutex, state := 0 }] []
    let events : List Event := .begin 0 (.acquire 0 .exclusive 1 .plain) :: List.replicate 5 (.step 0) ++
      .begin 1 (.acquire 0 .exclusive 1 .plain) :: List.replicate 18 (.step 1) ++
      .begin 0 (.release 0 .exclusive 1) :: List.replicate 5 (.step 0) ++
      .resume 1 :: List.replicate 3 (.step 1)
    let w := start.after events
    let q : Queued := ⟨⟨0, .exclusive, 1, {}, .operation false⟩, 1, false⟩
    (w.actor 1).position = some (.call (.turn q) .entering) ∧
      (Roll.since 0 start events).came = [0, 1] ∧ (Roll.since 0 start events).served = [0] ∧
      ∀ e, ((w.happen e).queue 0).head = some 0 :=
  have position := rfl
  have reached := served_in_order (s := 0) rfl rfl (Or.inl (by decide))
  ⟨position, by decide +kernel, by decide +kernel, fun e =>
    ((reached.1 1 _ _ position rfl).2.2.2.2 e).elim (·.trans (by decide +kernel)) fun h => by simp at h⟩

end World

end Turnstile
