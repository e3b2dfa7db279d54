import Turnstile.Proofs.Queue.Joining
import Turnstile.Proofs.Queue.Turning
import Turnstile.Proofs.Queue.Withdrawal

/-! The wait queue as a plain list of those who wait, first come first. -/
namespace Turnstile.WaitQueue

structure Entry where
  node : NodeId
  actor : ActorId
  mode : Mode
  deriving DecidableEq

/-- The queue shows just these entries, in this order. -/
structure Represents (q : WaitQueue) (entries : List Entry) : Prop where
  shaped : ∃ h body, Shaped q h body
  live : q.live = entries.map Entry.node
  actor : ∀ e ∈ entries, (q.node e.node).actor = some e.actor
  mode : ∀ e ∈ entries, (q.node e.node).mode = e.mode
  gone : ∀ n, (q.node n).isLive = false → (q.node n).actor = none

/-- What the operations of the queue can make of an empty one, as they are called, and of the list
beside it. -/
inductive Worked : WaitQueue → List Entry → Prop
  | empty : Worked .empty []
  /-- A node that stands in no queue yet, as an acquirer or a wait makes it. -/
  | create {q L} (mode : Mode) (status : Status) (a : ActorId)
      (new : status = .initial ∨ status = .condition) (before : Worked q L) :
      Worked (q.create mode status a).1 L
  | join {q L} (mode : Mode) (a : ActorId) (before : Worked q L) :
      Worked (q.join mode a).1 (L ++ [⟨(q.join mode a).2, a, mode⟩])
  | enqueue {q L n mode a} (fresh : q.node n = { mode, actor := some a }) (before : Worked q L) :
      Worked (q.enqueue n).1 (L ++ [⟨n, a, mode⟩])
  | transferSignalled {q L n mode a} (waits : (q.node n).status = .condition)
      (actor : (q.node n).actor = some a) (hm : (q.node n).mode = mode) (before : Worked q L) :
      Worked (q.transferSignalled n).1 (L ++ [⟨n, a, mode⟩])
  | transferUnsignalled {q L n mode a} (waits : (q.node n).status = .condition)
      (actor : (q.node n).actor = some a) (hm : (q.node n).mode = mode) (before : Worked q L) :
      Worked (q.transferUnsignalled n).1 (L ++ [⟨n, a, mode⟩])
  | readyToPark {q L e} (live : e ∈ L) (before : Worked q L) : Worked (q.readyToPark e.node).1 L
  | wakeNext {q L h} (head : q.head = some h) (before : Worked q L) : Worked (q.wakeNext h).1 L
  | wakeShared {q L} (before : Worked q L) : Worked q.wakeShared.1 L
  | withdraw {q L e} (live : e ∈ L) (before : Worked q L) :
      Worked (q.withdraw e.node).1 (L.erase e)
  | withdrawAgain {q L n} (cancelled : (q.node n).status = .cancelled) (before : Worked q L) :
      Worked (q.withdraw n).1 L
  | promote {q e L} (first : (q.node e.node).prev = q.head) (before : Worked q (e :: L)) :
      Worked (q.promote e.node) L
  | promoteShared {q e L} (cascade : Bool) (first : (q.node e.node).prev = q.head)
      (before : Worked q (e :: L)) : Worked (q.promoteShared e.node cascade).1 L
  /-- Whoever was the head loses its link to the one that took its place. -/
  | cutLink {q L m} (opened : q.head.isSome) (gone : m ∉ q.backward) (before : Worked q L) :
      Worked (q.setNext m none) L

theorem map_erase_node {L : List Entry} {e : Entry} (nodup : (L.map Entry.node).Nodup) (he : e ∈ L) :
    (L.erase e).map Entry.node = (L.map Entry.node).erase e.node := by
  induction L with
  | nil => simp at he
  | cons x rest ih =>
    rw [List.map_cons, List.nodup_cons] at nodup
    by_cases same : x = e
    · subst same
      simp
    · have hr : e ∈ rest := (List.mem_cons.1 he).resolve_left (Ne.symm same)
      have ne : x.node ≠ e.node := fun h => nodup.1 (h ▸ List.mem_map_of_mem hr)
      rw [List.erase_cons_tail (by simpa using same), List.map_cons, List.map_cons,
        List.erase_cons_tail (by simpa using ne), ih nodup.2 hr]

namespace Represents

variable {q q' : WaitQueue} {L : List Entry} {e : Entry} {n : NodeId}

/-- A change that leaves those who wait as they are leaves the list. -/
theorem congr (hr : Represents q L) (shaped : ∃ h body, Shaped q' h body) (live : q'.live = q.live)
    (actor : ∀ n ∈ q.live, (q'.node n).actor = (q.node n).actor)
    (mode : ∀ n ∈ q.live, (q'.node n).mode = (q.node n).mode)
    (gone : ∀ n, (q'.node n).isLive = false → (q'.node n).actor = none) : Represents q' L := by
  have mem : ∀ e ∈ L, e.node ∈ q.live := fun e he => hr.live ▸ List.mem_map_of_mem he
  refine ⟨shaped, live.trans hr.live, fun e he => ?_, fun e he => ?_, gone⟩
  · rw [actor _ (mem e he), hr.actor e he]
  · rw [mode _ (mem e he), hr.mode e he]

/-- Nobody who is dead has an actor after a change that lets nobody else die. -/
theorem gone_of_status (hr : Represents q L) {m : NodeId} (actor : (q'.node m).actor = (q.node m).actor)
    (status : (q'.node m).status = (q.node m).status ∨ (q'.node m).isLive)
    (dead : (q'.node m).isLive = false) : (q'.node m).actor = none := by
  rcases status with same | live
  · rw [actor]
    exact hr.gone m (by simpa [Node.isLive, same] using dead)
  · simp [dead] at live

theorem mem_live (hr : Represents q L) (he : e ∈ L) : e.node ∈ q.live :=
  hr.live ▸ List.mem_map_of_mem he

theorem joined (hr : Represents q L) {a : ActorId} {mode : Mode} (hj : Joined q q' n)
    (actor : (q'.node n).actor = some a) (hm : (q'.node n).mode = mode) :
    Represents q' (L ++ [⟨n, a, mode⟩]) := by
  obtain ⟨h, body, shaped⟩ := hj.shaped
  have nodup := shaped.live_nodup
  rw [hj.live] at nodup
  have ne : ∀ e ∈ L, e.node ≠ n := by
    rintro e he rfl
    exact (List.nodup_append.1 nodup).2.2 _ (hr.mem_live he) _ (by simp) rfl
  constructor
  case shaped => exact hj.shaped
  case live =>
    rw [hj.live, hr.live]
    simp
  case actor =>
    intro e he
    rcases List.mem_append.1 he with he | he
    · rw [hj.spares.actor _ (ne e he), hr.actor e he]
    · obtain rfl := List.mem_singleton.1 he
      exact actor
  case mode =>
    intro e he
    rcases List.mem_append.1 he with he | he
    · rw [hj.spares.mode _ (ne e he), hr.mode e he]
    · obtain rfl := List.mem_singleton.1 he
      exact hm
  case gone =>
    intro m dead
    by_cases e : m = n
    · have live := (shaped.mem_live.1 hj.mem_live).2
      rw [← e, dead] at live
      simp at live
    · refine hr.gone_of_status (hj.spares.actor m e) ?_ dead
      exact (hj.status m e).imp_right fun signal => by simp [Node.isLive, signal.1]

theorem served (hr : Represents q L) {r : WaitQueue × Option ActorId} (hs : Served q r) :
    Represents r.1 L := by
  obtain ⟨h, body, shaped⟩ := hr.shaped
  have shaped' := hs.shaped h body shaped
  refine hr.congr ⟨h, body, shaped'⟩ hs.live (fun n _ => hs.actor n) (fun n _ => hs.mode n) fun m dead =>
    hr.gone_of_status (hs.actor m) ?_ dead
  by_cases front : q.head = some m
  · right
    rcases shaped.head_isSome_or with hh | ⟨hh, -⟩
    · obtain rfl : h = m := by simpa [front] using hh.symm
      exact shaped'.front_live
    · simp [front] at hh
  · exact Or.inl (hs.status m front)

theorem withdrawn (hr : Represents q L) (he : e ∈ L) {r : WaitQueue × Option ActorId × Except Fault Unit}
    (hw : Withdrawn q r e.node) : Represents r.1 (L.erase e) := by
  obtain ⟨h, body, shaped⟩ := hr.shaped
  have nodup : (L.map Entry.node).Nodup := hr.live ▸ shaped.live_nodup
  have erased := map_erase_node nodup he
  have ne : ∀ e' ∈ L.erase e, e'.node ≠ e.node := by
    intro e' he' same
    have := List.mem_map_of_mem (f := Entry.node) he'
    rw [erased, same] at this
    exact nodup.not_mem_erase this
  constructor
  case shaped => exact hw.shaped
  case live => rw [hw.live, hr.live, erased]
  case actor =>
    intro e' he'
    rw [hw.actor _ (ne e' he'), hr.actor e' (List.mem_of_mem_erase he')]
  case mode =>
    intro e' he'
    rw [hw.mode, hr.mode e' (List.mem_of_mem_erase he')]
  case gone =>
    intro m dead
    by_cases same : m = e.node
    · rw [same, hw.actor_self]
    · refine hr.gone_of_status (hw.actor m same) ?_ dead
      exact (hw.status m same).imp_right fun signal => by simp [Node.isLive, signal.1]

theorem promoted (hr : Represents q (e :: L)) {r : WaitQueue × Option ActorId}
    (hp : Promoted q r e.node) : Represents r.1 L := by
  obtain ⟨h, body, shaped⟩ := hr.shaped
  have live : r.1.live = L.map Entry.node := by
    have := hp.live.symm.trans hr.live
    simpa using this
  have nodup := shaped.live_nodup
  rw [hr.live, List.map_cons, List.nodup_cons] at nodup
  have ne : ∀ e' ∈ L, e'.node ≠ e.node := fun e' he' same =>
    nodup.1 (same ▸ List.mem_map_of_mem he')
  constructor
  case shaped => exact ⟨e.node, hp.shaped⟩
  case live => exact live
  case actor =>
    intro e' he'
    rw [hp.actor _ (ne e' he'), hr.actor e' (List.mem_cons_of_mem _ he')]
  case mode =>
    intro e' he'
    rw [hp.mode, hr.mode e' (List.mem_cons_of_mem _ he')]
  case gone =>
    intro m dead
    by_cases same : m = e.node
    · obtain ⟨body', shaped'⟩ := hp.shaped
      rw [same, shaped'.front_actor]
    · exact hr.gone_of_status (hp.actor m same) (Or.inl (hp.status m same)) dead

theorem create (hr : Represents q L) (mode : Mode) {status : Status} (a : ActorId)
    (new : status = .initial ∨ status = .condition) : Represents (q.create mode status a).1 L := by
  obtain ⟨h, body, shaped⟩ := hr.shaped
  have old : ∀ n ∈ q.live, (q.create mode status a).1.node n = q.node n := fun n hn =>
    q.node_create_of_ne mode status a
      (Nat.ne_of_lt (shaped.inTable n (List.mem_cons_of_mem h (shaped.mem_live.1 hn).1)))
  refine hr.congr ⟨h, body, shaped.create mode status a⟩ (shaped.live_create mode status a)
    (fun n hn => by rw [old n hn]) (fun n hn => by rw [old n hn]) fun m dead => ?_
  by_cases e : m = q.nodes.size
  · subst e
    rw [node_create] at dead
    rcases new with rfl | rfl <;> simp [Node.isLive] at dead
  · rw [q.node_create_of_ne mode status a e] at dead ⊢
    exact hr.gone m dead

theorem enqueue (hr : Represents q L) {mode : Mode} {a : ActorId}
    (fresh : q.node n = { mode, actor := some a }) :
    Represents (q.enqueue n).1 (L ++ [⟨n, a, mode⟩]) := by
  obtain ⟨h, body, shaped⟩ := hr.shaped
  have new := shaped.fresh_of_made fresh
  have same := shaped.enqueue_eq n
  refine hr.joined (shaped.joined_enqueue new) ?_ ?_ <;> simp [same, fresh]

theorem wakeNext (hr : Represents q L) {h : NodeId} (head : q.head = some h) :
    Represents (q.wakeNext h).1 L := by
  obtain ⟨k, body, shaped⟩ := hr.shaped
  by_cases pending : (q.node h).status.pending
  · obtain rfl : h = k := by
      rcases shaped.head_isSome_or with hh | ⟨hh, -⟩
      · simpa [head] using hh
      · simp [head] at hh
    exact hr.served (shaped.served_wakeNext head pending)
  · simpa [WaitQueue.wakeNext, pending] using hr

theorem readyToPark (hr : Represents q L) (he : e ∈ L) : Represents (q.readyToPark e.node).1 L := by
  obtain ⟨h, body, shaped⟩ := hr.shaped
  rcases shaped.readyToPark_cases (hr.mem_live he) with ⟨p, -, -, -, same⟩ | ⟨q', eq, ready⟩
  · rwa [same]
  · rw [eq]
    refine hr.congr ready.shaped ready.live (fun n _ => ready.actor n) (fun n _ => ready.mode n)
      fun m dead => hr.gone_of_status (ready.actor m) ?_ dead
    exact (ready.status m).imp_right fun signal => by simp [Node.isLive, signal.1]

theorem split_first (hr : Represents q (e :: L)) (first : (q.node e.node).prev = q.head) :
    ∃ h ys, Shaped q h (ys ++ [e.node]) ∧ (q.node e.node).isLive := by
  obtain ⟨h, body, shaped⟩ := hr.shaped
  obtain ⟨hb, live⟩ := shaped.mem_live.1 (hr.mem_live (List.mem_cons_self ..))
  obtain ⟨ys, rfl⟩ := shaped.split_of_prev hb first
  exact ⟨h, ys, shaped, live⟩

theorem cutLink (hr : Represents q L) (opened : q.head.isSome) (gone : n ∉ q.backward) :
    Represents (q.setNext n none) L := by
  obtain ⟨h, body, shaped⟩ := hr.shaped
  have outside : n ∉ h :: body := by
    rw [shaped.backward_eq, if_pos opened] at gone
    simpa [or_comm] using gone
  have cut := shaped.setNext_outside outside
  refine hr.congr ⟨h, body, cut⟩ ?_ (fun _ _ => by simp) (fun _ _ => by simp) fun m dead => ?_
  · rw [cut.live_eq, shaped.live_eq]
    simp [Node.isLive]
  · rw [actor_setNext]
    exact hr.gone m (by simpa [Node.isLive] using dead)

end Represents

theorem represents_empty : Represents .empty [] :=
  ⟨⟨_, _, Shaped.shaped_empty⟩, rfl, by simp, by simp, fun n dead => by
    have := lt_of_dead dead
    obtain rfl : n = 0 := by simpa [WaitQueue.empty] using this
    rfl⟩

/-- Each operation does to the list what it is for. -/
theorem Worked.represents {q : WaitQueue} {L : List Entry} (hw : Worked q L) : Represents q L := by
  induction hw with
  | empty => exact represents_empty
  | create mode status a new before ih => exact ih.create mode a new
  | @join q L mode a before ih =>
    obtain ⟨h, body, shaped⟩ := ih.shaped
    obtain ⟨joined, actor, hm⟩ := shaped.joined_join mode a
    exact ih.joined joined actor hm
  | enqueue fresh before ih => exact ih.enqueue fresh
  | transferSignalled waits actor hm before ih =>
    obtain ⟨h, body, shaped⟩ := ih.shaped
    obtain ⟨-, joined, actor', mode', -⟩ := shaped.joined_transferSignalled waits
    exact ih.joined joined (actor'.trans actor) (mode'.trans hm)
  | transferUnsignalled waits actor hm before ih =>
    obtain ⟨h, body, shaped⟩ := ih.shaped
    obtain ⟨joined, actor', mode'⟩ := shaped.joined_transferUnsignalled waits
    exact ih.joined joined (actor'.trans actor) (mode'.trans hm)
  | readyToPark live before ih => exact ih.readyToPark live
  | wakeNext head before ih => exact ih.wakeNext head
  | wakeShared before ih =>
    obtain ⟨h, body, shaped⟩ := ih.shaped
    exact ih.served shaped.served_wakeShared
  | withdraw live before ih =>
    obtain ⟨h, body, shaped⟩ := ih.shaped
    exact ih.withdrawn live (shaped.withdrawn (ih.mem_live live))
  | withdrawAgain cancelled before ih => rwa [withdraw_cancelled cancelled]
  | promote first before ih =>
    obtain ⟨h, ys, shaped, live⟩ := ih.split_first first
    exact ih.promoted (shaped.promoted_promote live)
  | promoteShared cascade first before ih =>
    obtain ⟨h, ys, shaped, live⟩ := ih.split_first first
    exact ih.promoted (shaped.promoted_promoteShared live cascade)
  | cutLink opened gone before ih => exact ih.cutLink opened gone

end Turnstile.WaitQueue
