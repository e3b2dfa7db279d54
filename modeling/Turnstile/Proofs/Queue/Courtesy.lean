import Turnstile.Proofs.Condition
import Turnstile.Proofs.Queue.Respects

/-! How the operations of the queue respect those who are not at work on it, even where nodes have died out of
turn. -/
namespace Turnstile.WaitQueue

variable {q q' : WaitQueue} {h n p : NodeId} {body xs ys : List NodeId} {mine : Option NodeId}

namespace Spine

theorem settled_front (hq : Spine q h body) {k : NodeId} (head : q.head = some k) :
    (q.node k).isLive ∧ (q.node k).status ≠ .condition := by
  rcases hq.head_isSome_or with hh | ⟨hh, -⟩
  · obtain rfl : h = k := Option.some.inj (hh.symm.trans head)
    exact ⟨hq.front_live, hq.joined h (by simp)⟩
  · simp [hh] at head

theorem level_wakeFirst (hq : Spine q h body) (mine : Option NodeId) : Level q q.wakeFirst.1 mine := by
  unfold wakeFirst
  split
  · exact .refl q mine
  · rename_i k head
    split
    · exact .refl q mine
    · exact .wakeNext (hq.settled_front head).2 mine

theorem level_wakeShared (hq : Spine q h body) (mine : Option NodeId) : Level q q.wakeShared.1 mine := by
  unfold wakeShared
  split
  · exact .refl q mine
  · rename_i k head
    obtain ⟨alive, settled⟩ := hq.settled_front head
    split
    · exact .refl q mine
    · split
      · exact .wakeNext settled mine
      · exact .setStatus alive settled (by simp) (by simp) mine
      · exact .refl q mine

theorem respects_create (hq : Spine q h body) (mode : Mode) (status : Status) (a : ActorId) :
    Respects q (q.create mode status a).1 none := by
  have created := hq.create mode status a
  have same : ∀ m, m < q.nodes.size → (q.create mode status a).1.node m = q.node m := fun m hm =>
    q.node_create_of_ne mode status a (Nat.ne_of_lt hm)
  have known : ∀ m, InUse q m → m < q.nodes.size := fun m used =>
    used.elim (fun live => hq.inTable m (List.mem_cons_of_mem _ (hq.mem_live.1 live).1)) Extends.lt_of_waits
  have live : (q.create mode status a).1.live = q.live := hq.live_congr created fun m hm => by
    rw [same m (hq.inTable m (List.mem_cons_of_mem _ hm))]
  refine ⟨⟨h, body, created⟩, fun m _ used => ?_, fun m _ hm => live ▸ hm, fun m _ waits => Or.inr ?_,
    fun m _ hm turn => ?_⟩
  · rw [same m (known m used)]
  · rwa [same m (known m (Or.inr waits))]
  · rw [same m (known m (Or.inl hm)), turn]
    rfl

section enqueue

variable (hq : Spine q h body) (outside : n ∉ h :: body) (inTable : n < q.nodes.size)
  (apart : (q.node n).status ≠ .condition) (alive : (q.node n).isLive)

include hq outside inTable apart alive

theorem live_enqueue : (q.enqueue n).1.live = q.live ++ [n] := by
  have linked := WaitQueue.linked (hq.inTable _ (last_mem h body)) inTable
  rw [(hq.enqueue outside inTable apart).live_eq, hq.live_eq, hq.enqueue_eq n]
  simp [linked.isLive, alive]

theorem respects_enqueue : Respects q (q.enqueue n).1 none := by
  have linked := WaitQueue.linked (hq.inTable _ (last_mem h body)) inTable
  have live := hq.live_enqueue outside inTable apart alive
  refine ⟨⟨h, _, hq.enqueue outside inTable apart⟩, fun m _ _ => ?_, fun m _ hm => ?_, fun m _ waits => ?_,
    fun m _ hm turn => ?_⟩
  · rw [hq.enqueue_eq n]
    exact linked.actor m
  · rw [live]
    exact List.mem_append_left _ hm
  · refine Or.inr ?_
    rw [hq.enqueue_eq n]
    exact (congrArg (· = Status.condition) (linked.status m)).mpr waits
  · have hb := (hq.mem_live.1 hm).1
    have ne : m ≠ n := fun e => outside (e ▸ List.mem_cons_of_mem _ hb)
    rw [hq.head_eq_of_mem hb] at turn
    rw [hq.enqueue_eq n]
    exact (linked.prev m ne).trans turn

end enqueue

theorem respects_join (hq : Spine q h body) (mode : Mode) (a : ActorId) :
    Respects q (q.join mode a).1 none ∧ (q.join mode a).1.live = q.live ++ [q.nodes.size] ∧
      ((q.join mode a).1.node q.nodes.size).actor = some a := by
  have created := hq.create mode .initial a
  have node := node_create q mode .initial a
  have outside : q.nodes.size ∉ h :: body := fun hm => Nat.lt_irrefl _ (hq.inTable _ hm)
  have inTable : q.nodes.size < (q.create mode .initial a).1.nodes.size := by
    rw [size_create]
    exact Nat.lt_succ_self _
  have apart : ((q.create mode .initial a).1.node q.nodes.size).status ≠ .condition := by simp [node]
  have alive : ((q.create mode .initial a).1.node q.nodes.size).isLive := by simp [node, Node.isLive]
  have live : (q.create mode .initial a).1.live = q.live := hq.live_congr created fun m hm => by
    rw [q.node_create_of_ne _ _ _ (Nat.ne_of_lt (hq.inTable m (List.mem_cons_of_mem _ hm)))]
  have linked := WaitQueue.linked (created.inTable _ (last_mem h body)) inTable
  refine ⟨(hq.respects_create mode .initial a).trans
    (created.respects_enqueue outside inTable apart alive), ?_, ?_⟩
  · rw [← live]
    exact created.live_enqueue outside inTable apart alive
  · change (((q.create mode .initial a).1.enqueue q.nodes.size).1.node q.nodes.size).actor = _
    rw [created.enqueue_eq]
    exact (linked.actor _).trans (by rw [node])

section release

variable (hq : Spine q h body) (waits : (q.node n).status = .condition)

include hq waits

theorem released : Spine (q.setStatus n .initial) h body ∧ (q.setStatus n .initial).live = q.live := by
  have ne : ∀ {m}, m ∈ h :: body → m ≠ n := hq.ne_of_waits waits
  have marked : Spine (q.setStatus n .initial) h body :=
    hq.congr rfl rfl (by simp) (by simp) (by simpa [Node.isLive, ne List.mem_cons_self] using hq.front_live)
      fun m hm => by simpa [ne hm] using hq.joined m hm
  exact ⟨marked, hq.live_congr marked fun m hm => by simp [Node.isLive, ne (List.mem_cons_of_mem _ hm)]⟩

theorem respects_release : Respects q ((q.setStatus n .initial).enqueue n).1 none ∧
    ((q.setStatus n .initial).enqueue n).1.live = q.live ++ [n] := by
  obtain ⟨marked, live⟩ := hq.released waits
  have outside := hq.notMem_of_waits waits
  have inTable : n < (q.setStatus n .initial).nodes.size := by simpa using Extends.lt_of_waits waits
  have status := status_setStatus_self .initial (Extends.lt_of_waits waits)
  have apart : ((q.setStatus n .initial).node n).status ≠ .condition := by simp [status]
  have alive : ((q.setStatus n .initial).node n).isLive := by simp [Node.isLive, status]
  have moved := marked.respects_enqueue outside inTable apart alive
  have came := marked.live_enqueue outside inTable apart alive
  rw [live] at came
  refine ⟨⟨moved.spine, fun m _ used => ?_, fun m _ hm => ?_, fun m _ hm => ?_, fun m _ hm turn => ?_⟩, came⟩
  · have linked := WaitQueue.linked (marked.inTable _ (last_mem h body)) inTable
    rw [marked.enqueue_eq n]
    exact (linked.actor m).trans (by simp)
  · rw [came]
    exact List.mem_append_left _ hm
  · by_cases e : m = n
    · exact Or.inl (by simp [came, e])
    · exact moved.waits m (by simp) (by simpa [e] using hm)
  · exact moved.turn m (by simp) (live ▸ hm) (by simpa using turn)

theorem respects_transferUnsignalled : Respects q (q.transferUnsignalled n).1 none ∧
    (q.transferUnsignalled n).1.live = q.live ++ [n] := by
  simpa [transferUnsignalled, waits] using hq.respects_release waits

end release

theorem respects_transferSignalled (hq : Spine q h body) (n : NodeId) :
    Respects q (q.transferSignalled n).1 none := by
  by_cases waits : (q.node n).status = .condition
  · obtain ⟨moved, -⟩ := hq.respects_release waits
    obtain ⟨marked, -⟩ := hq.released waits
    have inTable : n < (q.setStatus n .initial).nodes.size := by simpa using Extends.lt_of_waits waits
    have status := status_setStatus_self .initial (Extends.lt_of_waits waits)
    have joined := marked.enqueue (hq.notMem_of_waits waits) inTable (by simp [status])
    have front : ((q.setStatus n .initial).enqueue n).2 ∈ h :: n :: body := by
      rw [marked.enqueue_eq n]
      rcases List.mem_cons.1 (last_mem h body) with e | e <;> simp [e]
    unfold transferSignalled
    rw [if_pos waits]
    dsimp only
    split
    · rename_i alive
      have asked := Level.setStatus alive (joined.joined _ front) (t := .signal) (by simp) (by simp) none
      exact moved.trans (asked.respects joined)
    · exact moved
  · rw [transferSignalled_of_ne waits]
    exact (Level.refl q none).respects hq

theorem respects_alike (hq : Spine q h body) (ha : Alike q q') : Respects q q' none :=
  (Level.of_alike ha none).respects hq

theorem respects_transfer (hq : Spine q h body) (n : NodeId) :
    Respects q ((q.setFollower n none).transferSignalled n).1 none :=
  have ha := Alike.setFollower q n none
  (hq.respects_alike ha).trans (((Level.of_alike ha none).spine hq).respects_transferSignalled n)

theorem respects_signalFrom (c : Condition) (hq : Spine q h body) (ns : List NodeId) :
    Respects q (c.signalFrom q ns).2.1 none := by
  induction ns generalizing c q h body with
  | nil => exact (Level.refl q none).respects hq
  | cons n rest ih =>
    have moved := hq.respects_transfer n
    obtain ⟨h', body', hq'⟩ := moved.spine
    unfold Condition.signalFrom
    dsimp only
    split
    all_goals
      rename_i e
      rw [e] at moved hq'
    · exact moved
    · exact moved.trans (ih _ hq')

theorem respects_moveAll (hq : Spine q h body) (ns : List NodeId) :
    Respects q (Condition.moveAll q ns).1 none := by
  induction ns generalizing q h body with
  | nil => exact (Level.refl q none).respects hq
  | cons n rest ih =>
    have moved := hq.respects_transfer n
    obtain ⟨h', body', hq'⟩ := moved.spine
    exact moved.trans (ih hq')

/-- Whoever comes to wait on a condition gets a node of its own, and nobody else is any the worse for it. -/
theorem respects_joinCondition (c : Condition) (hq : Spine q h body) (a : ActorId) :
    Respects q (c.join q a).2.1 none ∧
      ((c.join q a).2.1.node (c.join q a).2.2).status = .condition ∧
      ((c.join q a).2.1.node (c.join q a).2.2).actor = some a := by
  obtain ⟨q₁, before, new, after⟩ := c.join_spec q a
  have hq₁ := (Level.of_alike before none).spine hq
  have created := hq₁.create .exclusive .condition a
  have node := node_create q₁ .exclusive .condition a
  refine ⟨?_, ?_, ?_⟩
  · exact ((hq.respects_alike before).trans (hq₁.respects_create .exclusive .condition a)).trans
      (created.respects_alike after)
  · rw [new, after.status, node]
  · rw [new, after.actor, node]

/-- To look for whom to ask for a signal, and to ask, does no harm to anyone. -/
theorem respects_readyToPark (hq : Spine q h body) (hn : n ∈ q.live) :
    (∃ b, (q.readyToPark n).2 = .ok b) ∧ Respects q (q.readyToPark n).1 none ∧
      (q.readyToPark n).1.live = q.live := by
  obtain ⟨hb, alive⟩ := hq.mem_live.1 hn
  obtain ⟨ys, xs, rfl⟩ := List.append_of_mem hb
  have front : xs.head?.getD h ∈ h :: (ys ++ n :: xs) := by
    rcases List.mem_cons.1 (last_mem h xs) with e | e <;> simp [e]
  unfold readyToPark
  rw [hq.prev_eq]
  dsimp only
  split
  · exact ⟨⟨true, rfl⟩, (Level.refl q none).respects hq, rfl⟩
  split
  · rename_i live
    have asked := Level.setStatus live (hq.joined _ front) (t := .signal) (by simp) (by simp) none
    exact ⟨⟨false, rfl⟩, asked.respects hq, asked.live hq⟩
  rename_i dead
  rw [hq.skipDead_eq]
  dsimp only
  set p := (q.fromLive xs).head?.getD h
  have inTable : n < q.nodes.size := hq.inTable n (by simp)
  have ne : h ≠ n := fun e => hq.front_notMem (by simp [e])
  have skipped : Spine (q.setPrev n (some p)) h (ys ++ n :: q.fromLive xs) :=
    hq.skip rfl rfl (by simp) (prev_setPrev_self _ inTable) (fun m hm => by simp [hm])
      (by simpa [Node.isLive] using hq.front_live) fun m hm => by simpa using hq.joined m hm
  have live : (q.setPrev n (some p)).live = q.live := by
    rw [skipped.live_eq, hq.live_eq, ← q.filter_skip n xs ys]
    simp [Node.isLive]
  have linked := Level.setNext (q.setPrev n (some p)) p (some n) none
  refine ⟨⟨false, rfl⟩, Respects.trans ⟨⟨h, _, skipped⟩, by simp, fun m _ hm => live ▸ hm,
    fun m _ waits => Or.inr (by simpa using waits), fun m _ hm turn => ?_⟩ (linked.respects skipped),
    (linked.live skipped).trans live⟩
  have moved : m ≠ n := by
    rintro rfl
    rw [hq.prev_eq, hq.head_eq_of_mem hb, Option.some.injEq] at turn
    rw [turn] at dead
    exact dead hq.front_live
  simpa [moved] using turn

section withdraw

variable (hq : Spine q h (ys ++ n :: xs)) (alive : (q.node n).isLive) (hp : (q.fromLive xs).head?.getD h = p)

include hq

theorem status_dropped_self (p : NodeId) : ((q.dropped p n).node n).status = .cancelled :=
  status_setStatus_self _ (by simpa using hq.inTable n (by simp))

include hp in
theorem dropped : Spine (q.dropped p n) h (ys ++ n :: q.fromLive xs) := by
  have ne : h ≠ n := fun e => hq.front_notMem (by simp [e])
  have prev_n : ((q.dropped p n).node n).prev = some p := by
    rw [WaitQueue.dropped, prev_setStatus, prev_setPrev_self _ (by simpa using hq.inTable n (by simp))]
  refine hq.skip rfl rfl (by simp) (hp ▸ prev_n) (fun m hm => by simp [WaitQueue.dropped, hm])
    (by simpa [Node.isLive, ne] using hq.front_live) fun m hm => ?_
  by_cases e : m = n
  · simp [e, hq.status_dropped_self p]
  · simpa [e] using hq.joined m hm

include alive hp in
theorem live_dropped : (q.dropped p n).live = q.live.erase n := by
  have life : ∀ m, m ≠ n → ((q.dropped p n).node m).isLive = (q.node m).isLive := fun m hm => by
    simp [Node.isLive, hm]
  have dead : ((q.dropped p n).node n).isLive = false := by simp [Node.isLive, hq.status_dropped_self p]
  have nodup := hq.body_nodup
  rw [List.nodup_append, List.nodup_cons] at nodup
  have behind : ∀ m ∈ ys, m ≠ n := fun m hm => nodup.2.2 m hm n (by simp)
  have before : ∀ m ∈ q.fromLive xs, m ≠ n := by
    rintro m hm rfl
    exact nodup.2.1.1 ((q.fromLive_suffix xs).subset hm)
  have apart : n ∉ (xs.filter fun m => (q.node m).isLive).reverse := fun hm =>
    nodup.2.1.1 (List.mem_of_mem_filter (List.mem_reverse.1 hm))
  rw [(hq.dropped hp).live_eq, hq.live_split alive, List.erase_append_right _ apart, List.erase_cons_head,
    List.filter_append, List.filter_cons, dead, List.filter_congr fun m hm => life m (behind m hm),
    List.filter_congr fun m hm => life m (before m hm), q.filter_fromLive]
  simp

include alive hp in
theorem respects_dropped : Respects q (q.dropped p n) (some n) := by
  refine ⟨⟨h, _, hq.dropped hp⟩, fun m other _ => ?_, fun m other hm => ?_, fun m other waits => Or.inr ?_,
    fun m other _ turn => ?_⟩
  all_goals have ne : m ≠ n := fun e => other (by rw [e])
  · simp [ne]
  · rw [hq.live_dropped alive hp, hq.live_nodup.mem_erase_iff]
    exact ⟨ne, hm⟩
  · simpa [ne] using waits
  · simpa [WaitQueue.dropped, ne] using turn

end withdraw

theorem respects_retreat (hq : Spine q h (n :: xs)) (dead : (q.node n).isLive = false) :
    Respects q (q.between q.head (some (xs.head?.getD h))) none ∧
      (q.between q.head (some (xs.head?.getD h))).live = q.live := by
  have live : (q.between q.head (some (xs.head?.getD h))).live = q.live := by
    rw [hq.retreat.live_eq, hq.live_eq]
    simp [dead]
  exact ⟨⟨⟨h, xs, hq.retreat⟩, fun _ _ _ => rfl, fun _ _ hm => live ▸ hm, fun _ _ waits => Or.inr waits,
    fun _ _ _ turn => turn⟩, live⟩

theorem level_bypass (gone : (q.node n).status = .cancelled) (alive : (q.node p).isLive)
    (settled : (q.node p).status ≠ .condition) (mine : Option NodeId) : Level q (q.bypass p n).1 mine := by
  have left : (q.node n).status ≠ .condition := by simp [gone]
  unfold bypass
  split
  · exact .wakeNext left mine
  have asked := Level.setStatus alive settled (t := .signal) (by simp) (by simp) mine
  dsimp only
  split
  · exact asked.trans (.wakeNext (mt (asked.waits n).1 left) mine)
  · split
    · exact asked.trans (.setNext _ _ _ _)
    · exact asked

/-- Whoever gives up gets away with it, and nobody else loses their place. -/
theorem respects_withdraw (hq : Spine q h body) (hn : n ∈ q.live) :
    (q.withdraw n).2.2 = .ok () ∧ Respects q (q.withdraw n).1 (some n) ∧
      ((q.withdraw n).1.node n).status = .cancelled ∧ (q.withdraw n).1.live = q.live.erase n := by
  obtain ⟨hb, alive⟩ := hq.mem_live.1 hn
  obtain ⟨ys, xs, rfl⟩ := List.append_of_mem hb
  obtain ⟨p, hp⟩ : ∃ p, (q.fromLive xs).head?.getD h = p := ⟨_, rfl⟩
  have staying : (q.node n).status ≠ .cancelled := fun e => by simp [Node.isLive, e] at alive
  have gone := hq.status_dropped_self p
  have dropped := hq.dropped hp
  have respects := hq.respects_dropped alive hp
  have live := hq.live_dropped alive hp
  have inFront : p ∈ h :: (ys ++ n :: q.fromLive xs) ∧ ((q.dropped p n).node p).isLive := by
    obtain ⟨front, ne, alive⟩ := hq.nearest_live hp
    refine ⟨?_, by simpa [Node.isLive, ne] using alive⟩
    rcases List.mem_cons.1 front with e | e <;> simp [e]
  have eq : ((q.clearActor n).setPrev n (some p)).setStatus n .cancelled = q.dropped p n := rfl
  rw [withdraw, if_neg staying, hq.skipDead_clearActor hp]
  dsimp only
  rw [eq]
  generalize q.dropped p n = d at *
  split
  · rename_i last
    have cut := Level.setNext d p none (some n)
    obtain rfl : ys = [] := dropped.tail_eq.1 last
    have dead : ((d.setNext p none).node n).isLive = false := by simp [Node.isLive, gone]
    obtain ⟨retreats, same⟩ := (cut.spine dropped).respects_retreat dead
    rw [hp] at retreats same
    refine ⟨rfl, (respects.trans (cut.respects dropped)).trans (retreats.mono _), cut.gone n gone, ?_⟩
    exact same.trans ((cut.live dropped).trans live)
  · have bypassed := level_bypass gone inFront.2 (dropped.joined p inFront.1) (some n)
    have cut := bypassed.trans (Level.setNext _ n none (some n))
    exact ⟨rfl, respects.trans (cut.respects dropped), cut.gone n gone, (cut.live dropped).trans live⟩

theorem respects_promote (hq : Spine q h body) (hn : n ∈ q.live) (turn : (q.node n).prev = q.head) :
    (∃ ys, Spine (q.promote n) n ys) ∧ Respects q (q.promote n) (some n) ∧
      q.live = n :: (q.promote n).live := by
  obtain ⟨hb, alive⟩ := hq.mem_live.1 hn
  obtain ⟨ys, rfl⟩ := hq.split_of_prev hb turn
  have promoted := hq.promote alive
  have eq := q.promote_eq n
  have life : ∀ m, ((q.promote n).node m).isLive = (q.node m).isLive := fun m => by
    simp [eq, Node.isLive]
  have live : q.live = n :: (q.promote n).live := by
    rw [hq.live_eq, promoted.live_eq]
    simp [life, alive]
  refine ⟨⟨ys, promoted⟩, ⟨⟨n, ys, promoted⟩, fun m other _ => ?_, fun m other hm => ?_,
    fun m other waits => Or.inr ?_, fun m other hm turn' => ?_⟩, live⟩
  all_goals have ne : m ≠ n := fun e => other (by rw [e])
  · simp [eq, ne]
  · rw [live] at hm
    exact (List.mem_cons.1 hm).resolve_left ne
  · simpa [eq] using waits
  · obtain ⟨zs, split⟩ := hq.split_of_prev (hq.mem_live.1 hm).1 turn'
    have last := congrArg List.getLast? split
    rw [List.getLast?_concat, List.getLast?_concat] at last
    exact absurd last other

theorem respects_promoteShared (hq : Spine q h body) (hn : n ∈ q.live) (turn : (q.node n).prev = q.head)
    (cascade : Bool) : (∃ ys, Spine (q.promoteShared n cascade).1 n ys) ∧
      Respects q (q.promoteShared n cascade).1 (some n) ∧ q.live = n :: (q.promoteShared n cascade).1.live := by
  obtain ⟨⟨ys, promoted⟩, respects, live⟩ := hq.respects_promote hn turn
  unfold promoteShared
  dsimp only
  split
  · have woken := promoted.level_wakeShared (some n)
    exact ⟨⟨ys, woken.spine promoted⟩, respects.trans (woken.respects promoted), by rw [live, woken.live promoted]⟩
  · exact ⟨⟨ys, promoted⟩, respects, live⟩

theorem respects_drop (hq : Spine q h body) (used : InUse q n) :
    Respects q (q.setStatus n .cancelled) (some n) := by
  have ne : h ≠ n := used.elim (fun live => (hq.ne_front live).symm) fun waits =>
    hq.ne_of_waits waits List.mem_cons_self
  have dies : Spine (q.setStatus n .cancelled) h body := by
    refine hq.congr rfl rfl (by simp) (by simp) (by simpa [Node.isLive, ne] using hq.front_live) fun m hm => ?_
    by_cases e : m = n
    · subst e
      simp [status_setStatus_self .cancelled (hq.inTable m hm)]
    · simpa [e] using hq.joined m hm
  refine ⟨⟨h, body, dies⟩, by simp, fun m other hm => ?_, fun m other waits => Or.inr ?_,
    fun m _ _ turn => by simpa using turn⟩
  all_goals have ne : m ≠ n := fun e => other (by rw [e])
  · rw [dies.mem_live]
    rw [hq.mem_live] at hm
    simpa [Node.isLive, ne] using hm
  · simpa [ne] using waits

end Spine

end Turnstile.WaitQueue
