import Turnstile.Proofs.Queue.Change
import Turnstile.Proofs.Queue.Joining
import Turnstile.Proofs.Queue.Turning
import Turnstile.Proofs.Queue.Withdrawal

/-! What each operation of the wait queue means to those who are not at work on it. -/
namespace Turnstile.WaitQueue

variable {q q' q'' : WaitQueue} {h n : NodeId} {body : List NodeId} {woken : List ActorId}
  {mine mine' : Option NodeId}

theorem Readied.inUse (hr : Readied q q' n) (m : NodeId) : InUse q' m ↔ InUse q m := by
  rw [InUse, InUse, hr.live, hr.waits]

/-- To ask for a signal, or to look for whom to ask, is no concern of others. -/
theorem Readied.change (hr : Readied q q' n) : Change q q' [] (some n) (some n) := by
  have column : q'.column = q.column := by rw [column, column, hr.head, hr.live]
  constructor
  case shaped => exact hr.shaped
  case actor => exact fun m _ _ => hr.actor m
  case mode => exact fun m _ _ => hr.mode m
  case live =>
    intro m _ live
    rwa [hr.live]
  case waits =>
    intro m _ waits
    exact Or.inr ((hr.waits m).2 waits)
  case turn =>
    intro m hm _ turn
    have ne : m ≠ n := fun e => hm (by rw [e])
    rw [hr.prev m ne, hr.head, turn]
  case used =>
    intro m used
    by_cases e : n = m
    · exact Or.inl (by rw [e])
    · exact Or.inr ⟨by simpa using e, (hr.inUse m).1 used⟩
  case honours =>
    intro p m hf
    exact honoured (column ▸ hf) ((hr.status p).imp_right And.left)

theorem Readied.passes (hr : Readied q q' n) (hq : Shaped q h body) :
    Passes q q' woken (some n) := by
  intro k f hk hf hs
  by_cases e : f = n
  · exact Or.inl (by rw [e])
  rw [hr.head] at hk
  rw [hr.live] at hf
  refine Or.inr (Or.inr ⟨hk, hf, ?_, hr.prev f e⟩)
  rcases hr.status k with same | ⟨-, hn⟩
  · rw [← same, hs]
  · exact absurd (hq.follows_head hk hf hn) e

theorem Joined.change (hj : Joined q q' n) (hq : Shaped q h body)
    (own : ∀ m, mine = some m → m = n) (new : mine = none → ¬InUse q n) :
    Change q q' [] mine (some n) := by
  have other : ∀ m, mine ≠ some m → InUse q m → m ≠ n := by
    rintro m hm used rfl
    cases hmine : mine with
    | none => exact new hmine used
    | some k => exact hm (by rw [hmine, own k hmine])
  constructor
  case shaped => exact hj.shaped
  case actor => exact fun m hm used => hj.spares.actor m (other m hm used)
  case mode => exact fun m hm used => hj.spares.mode m (other m hm used)
  case live =>
    intro m _ hm
    rw [hj.live]
    exact List.mem_append_left _ hm
  case waits =>
    intro m hm waits
    exact Or.inr ((hj.spares.waits m (other m hm (Or.inr waits))).2 waits)
  case turn =>
    intro m hm hl turn
    have hh := hq.head_eq_of_mem (hq.mem_live.1 hl).1
    rw [hj.spares.prev m (other m hm (Or.inl hl)), turn, hh, hj.head h hh]
  case used =>
    intro m used
    by_cases e : n = m
    · exact Or.inl (by rw [e])
    · refine Or.inr ⟨fun hm => e (own m hm).symm, used.imp ?_ ?_⟩
      · exact (hj.spares.live m (Ne.symm e)).1
      · exact (hj.spares.waits m (Ne.symm e)).1
  case honours =>
    intro p m hf
    rcases hj.follows p m hf with old | rfl
    · exact honoured old ((hj.status p (hj.ne_of_follows old)).imp_right And.left)
    · exact Or.inl rfl

/-- Behind those who wait already, nobody comes to be first. -/
theorem Joined.passes (hj : Joined q q' n) (hq : Shaped q h body)
    (quiet : ∀ m, m ≠ n → (q'.node m).status = (q.node m).status) :
    Passes q q' woken (some n) := by
  intro k f hk hf hs
  cases hl : q.live with
  | nil =>
    rw [hj.live, hl] at hf
    exact Or.inl hf
  | cons g rest =>
    obtain rfl : g = f := by
      rw [hj.live, hl] at hf
      simpa using hf
    have hg : g ∈ q.live := by simp [hl]
    have hh := hq.head_eq_of_mem (hq.mem_live.1 hg).1
    obtain rfl : h = k := by simpa [hj.head h hh] using hk
    have ne' : g ≠ n := fun e => hj.notMem (e ▸ hg)
    refine Or.inr (Or.inr ⟨hh, by simp, ?_, hj.spares.prev g ne'⟩)
    rw [← quiet h (hj.ne_head hh), hs]

theorem Withdrawn.change {r : WaitQueue × Option ActorId × Except Fault Unit} (hw : Withdrawn q r n)
    (hq : Shaped q h body) (hn : n ∈ q.live) : Change q r.1 r.2.1.toList (some n) none := by
  have erased : ∀ m, m ∈ r.1.live ↔ m ≠ n ∧ m ∈ q.live := by
    intro m
    rw [hw.live, hq.live_nodup.mem_erase_iff]
  constructor
  case shaped => exact hw.shaped
  case actor =>
    intro m hm _
    exact hw.actor m fun e => hm (by rw [e])
  case mode => exact fun m _ _ => hw.mode m
  case live =>
    intro m hm live
    exact (erased m).2 ⟨fun e => hm (by rw [e]), live⟩
  case waits =>
    intro m _ waits
    exact Or.inr ((hw.waits m).2 waits)
  case turn =>
    intro m hm _ turn
    rw [hw.prev m fun e => hm (by rw [e]), hw.head, turn]
  case used =>
    rintro m (live | waits)
    · obtain ⟨ne, live⟩ := (erased m).1 live
      exact Or.inr ⟨by simpa using ne.symm, Or.inl live⟩
    · have waits' := (hw.waits m).1 waits
      refine Or.inr ⟨?_, Or.inr waits'⟩
      rintro e
      obtain rfl : n = m := by simpa using e
      exact hq.joined n (List.mem_cons_of_mem _ (hq.mem_live.1 hn).1) waits'
  case honours =>
    intro p m hf
    have column : r.1.column = q.column.erase n := by
      rw [WaitQueue.column, WaitQueue.column, hw.head, hw.live, List.erase_append_right]
      simpa using hq.ne_head hn
    rw [column] at hf
    have ne : p ≠ n := (hq.nodup_column.mem_erase_iff.1 hf.mem_left).1
    rcases hf.of_erase hq.nodup_column with old | ⟨hp, hm⟩
    · exact honoured old ((hw.status p ne).imp_right And.left)
    · obtain ⟨p', hp', guard⟩ := hw.guarded m hm
      obtain rfl := hp'.left_unique hq.nodup_column hp
      rcases guard with ⟨-, woken⟩ | ⟨-, signal⟩
      · have live := hq.mem_live_of_follows hm
        have ne_m : m ≠ n := (hm.ne hq.nodup_column).symm
        obtain ⟨a, ha⟩ := hq.actor_of_mem live
        exact Or.inr (Or.inr (Or.inl ⟨a, by simp [woken, ha], by rw [hw.actor m ne_m, ha]⟩))
      · exact Or.inr (Or.inl signal)

theorem Withdrawn.passes {r : WaitQueue × Option ActorId × Except Fault Unit} (hw : Withdrawn q r n)
    (hq : Shaped q h body) (hn : n ∈ q.live) : Passes q r.1 r.2.1.toList mine' := by
  intro k f hk hf hs
  rw [hw.head] at hk
  have ne_k : k ≠ n := by
    rintro rfl
    exact hq.ne_head hn hk
  have hf' : f ∈ q.live.erase n := hw.live ▸ List.mem_of_mem_head? hf
  obtain ⟨ne_f, live_f⟩ := hq.live_nodup.mem_erase_iff.1 hf'
  have status : (q.node k).status = .signal := by
    rcases hw.status k ne_k with same | ⟨-, -, front⟩
    · rw [← same, hs]
    · exact absurd hk front
  rw [hw.live] at hf
  have hcol : q.column = k :: q.live := by rw [WaitQueue.column, hk]; rfl
  cases hl : q.live with
  | nil => simp [hl] at hn
  | cons g rest =>
    by_cases e : g = n
    · subst e
      rw [hl, List.erase_cons_head] at hf
      have hs' : Follows q.column g f := by
        rw [hcol, hl]
        exact Or.inr (Or.inl ⟨rfl, hf⟩)
      have hk' : Follows q.column k g := by
        rw [hcol, hl]
        exact Or.inl ⟨rfl, rfl⟩
      obtain ⟨p', hp', guard⟩ := hw.guarded f hs'
      obtain rfl := hp'.left_unique hq.nodup_column hk'
      obtain ⟨a, ha⟩ := hq.actor_of_mem live_f
      rcases guard with ⟨-, woken⟩ | ⟨front, -⟩
      · exact Or.inr (Or.inl ⟨a, by simp [woken, ha], by rw [hw.actor f ne_f, ha]⟩)
      · exact absurd hk front
    · rw [hl, List.erase_cons_tail (by simpa using e)] at hf
      exact Or.inr (Or.inr ⟨hk, hf, status, hw.prev f ne_f⟩)

/-- A request that was made to the head is answered by waking whoever made it. -/
theorem Served.change {r : WaitQueue × Option ActorId} (hr : Served q r) (hq : Shaped q h body)
    (mine : Option NodeId) : Change q r.1 r.2.toList mine mine := by
  have inUse : ∀ m, InUse r.1 m ↔ InUse q m := fun m => by rw [InUse, InUse, hr.live, hr.waits]
  refine ⟨⟨h, body, hr.shaped h body hq⟩, fun m _ _ => hr.actor m, fun m _ _ => hr.mode m, ?_, ?_,
    ?_, ?_, ?_⟩
  · intro m _ live
    rwa [hr.live]
  · intro m _ waits
    exact (inUse m).2 (Or.inr waits)
  · intro m _ _ turn
    rw [hr.prev, hr.head, turn]
  · intro m used
    by_cases e : mine = some m
    · exact Or.inl e
    · exact Or.inr ⟨e, (inUse m).1 used⟩
  · intro p m hf
    have column : r.1.column = q.column := by
      rw [WaitQueue.column, WaitQueue.column, hr.head, hr.live]
    rw [column] at hf
    by_cases front : q.head = some p
    · by_cases signal : (q.node p).status = .signal
      · have live := hq.mem_live_of_follows hf
        obtain ⟨f, hf'⟩ : ∃ f, q.live.head? = some f :=
          Option.ne_none_iff_exists'.1 fun none => by simp [List.head?_eq_none_iff.1 none] at live
        obtain rfl := hq.follows_head front hf' hf
        obtain ⟨a, ha⟩ := hq.actor_of_mem live
        have woken := hr.woken p f front hf' signal
        exact Or.inr (Or.inr (Or.inl ⟨a, by simp [woken, ha], by rw [hr.actor, ha]⟩))
      · exact Or.inr (Or.inr (Or.inr ⟨p, hf, signal⟩))
    · exact honoured hf (Or.inl (hr.status p front))

theorem Served.passes {r : WaitQueue × Option ActorId} (hr : Served q r) :
    Passes q r.1 woken mine' := by
  intro k f hk hf hs
  rw [hr.head] at hk
  rw [hr.live] at hf
  exact absurd hs (hr.lapsed k hk (by rintro e; simp [e] at hf))

/-- Whoever has its turn leaves the requests that were made to it in force, or wakes who made them. -/
theorem Promoted.change {r : WaitQueue × Option ActorId} {ys : List NodeId} (hp : Promoted q r n)
    (hq : Shaped q h (ys ++ [n])) : Change q r.1 r.2.toList (some n) none := by
  have hh : q.head = some h := hq.head_eq_of_mem (n := n) (by simp)
  have nodup := hq.live_nodup
  rw [hp.live, List.nodup_cons] at nodup
  obtain ⟨body', shaped⟩ := hp.shaped
  constructor
  case shaped => exact ⟨n, body', shaped⟩
  case actor =>
    intro m hm _
    exact hp.actor m fun e => hm (by rw [e])
  case mode => exact fun m _ _ => hp.mode m
  case live =>
    intro m hm live
    rw [hp.live] at live
    exact (List.mem_cons.1 live).resolve_left fun e => hm (by rw [e])
  case waits =>
    intro m _ waits
    exact Or.inr ((hp.waits m).2 waits)
  case turn =>
    intro m hm live turn
    obtain ⟨zs, split⟩ := hq.split_of_prev (hq.mem_live.1 live).1 turn
    have last := congrArg List.getLast? split
    rw [List.getLast?_concat, List.getLast?_concat] at last
    exact absurd last hm
  case used =>
    rintro m (live | waits)
    · refine Or.inr ⟨?_, Or.inl (by rw [hp.live]; exact List.mem_cons_of_mem _ live)⟩
      rintro e
      obtain rfl : n = m := by simpa using e
      exact nodup.1 live
    · have waits' := (hp.waits m).1 waits
      refine Or.inr ⟨?_, Or.inr waits'⟩
      rintro e
      obtain rfl : n = m := by simpa using e
      exact hq.joined n (by simp) waits'
  case honours =>
    intro p m hf
    have column : q.column = h :: r.1.column := by
      rw [WaitQueue.column, WaitQueue.column, hh, hp.head, hp.live]
      rfl
    have old : Follows q.column p m := column ▸ hf.cons
    by_cases e : p = n
    · subst e
      have first : r.1.live.head? = some m := by
        rw [WaitQueue.column, hp.head] at hf
        rcases hf with ⟨-, hf⟩ | hf
        · exact hf
        · exact absurd hf.mem_left nodup.1
      by_cases signal : (q.node p).status = .signal
      · rcases hp.woken m first signal with kept | woken
        · exact Or.inr (Or.inl kept)
        · have live := List.mem_of_mem_head? first
          have ne : m ≠ p := fun e => nodup.1 (e ▸ live)
          obtain ⟨a, ha⟩ := shaped.actor_of_mem live
          rw [hp.actor m ne] at ha
          exact Or.inr (Or.inr (Or.inl ⟨a, by simp [woken, ha], by rw [hp.actor m ne, ha]⟩))
      · exact Or.inr (Or.inr (Or.inr ⟨p, old, signal⟩))
    · exact honoured old (Or.inl (hp.status p e))

theorem Promoted.passes {r : WaitQueue × Option ActorId} (hp : Promoted q r n)
    (lapsed : r.1.live ≠ [] → (r.1.node n).status ≠ .signal) : Passes q r.1 woken mine' := by
  intro k f hk hf hs
  obtain rfl : n = k := by simpa [hp.head] using hk
  exact absurd hs (lapsed (by rintro e; simp [e] at hf))

/-- Nobody comes to be first where those who wait stay, and the head says what it said. -/
theorem passes_of_same (head : q'.head = q.head) (live : q'.live = q.live)
    (status : ∀ k, q.head = some k → (q'.node k).status = (q.node k).status)
    (prev : ∀ f ∈ q.live, (q'.node f).prev = (q.node f).prev) : Passes q q' woken mine' := by
  intro k f hk hf hs
  rw [head] at hk
  rw [live] at hf
  exact Or.inr (Or.inr ⟨hk, hf, by rw [← status k hk, hs], prev f (List.mem_of_mem_head? hf)⟩)

/-- A node that is made to wait on a condition is nobody else's. -/
theorem Shaped.change_create (hq : Shaped q h body) (mode : Mode) (a : ActorId) :
    Change q (q.create mode .condition a).1 [] none (some q.nodes.size) ∧
      Passes q (q.create mode .condition a).1 [] (some q.nodes.size) := by
  have same : ∀ m, m ≠ q.nodes.size → (q.create mode .condition a).1.node m = q.node m := fun m hm =>
    q.node_create_of_ne mode .condition a hm
  have live := hq.live_create mode .condition a
  have old : ∀ m, InUse q m → m ≠ q.nodes.size := by
    rintro m (hm | hm) rfl
    · exact Nat.lt_irrefl _ (hq.inTable _ (List.mem_cons_of_mem _ (hq.mem_live.1 hm).1))
    · rw [node_of_size_le (Nat.le_refl _)] at hm
      simp at hm
  have front : ∀ k, q.head = some k → k ≠ q.nodes.size := by
    intro k hk
    rcases hq.head_isSome_or with hh | ⟨hh, -⟩
    · obtain rfl : h = k := by simpa [hk] using hh.symm
      exact Nat.ne_of_lt (hq.inTable h (by simp))
    · simp [hk] at hh
  refine ⟨⟨⟨h, body, hq.create mode .condition a⟩, ?_, ?_, ?_, ?_, ?_, ?_, ?_⟩,
    passes_of_same rfl live (fun k hk => by rw [same k (front k hk)])
      fun f hf => by rw [same f (old f (Or.inl hf))]⟩
  · intro m _ used
    rw [same m (old m used)]
  · intro m _ used
    rw [same m (old m used)]
  · intro m _ hm
    rwa [live]
  · intro m _ waits
    exact Or.inr (by rwa [same m (old m (Or.inr waits))])
  · intro m _ hm turn
    rw [same m (old m (Or.inl hm)), turn]
    rfl
  · intro m used
    by_cases e : m = q.nodes.size
    · exact Or.inl (by rw [e])
    · rw [InUse, live, same m e] at used
      exact Or.inr ⟨by simp, used⟩
  · intro p m hf
    have column : (q.create mode .condition a).1.column = q.column := by
      rw [WaitQueue.column, WaitQueue.column, live]
      rfl
    rw [column] at hf
    have ne : p ≠ q.nodes.size := Nat.ne_of_lt (hq.inTable p (hq.mem_of_follows hf).1)
    exact honoured hf (Or.inl (by rw [same p ne]))

/-- A node that waits on a condition may die there. -/
theorem Shaped.dropped (hq : Shaped q h body) (hn : (q.node n).status = .condition) :
    Shaped (q.setStatus n .cancelled) h body ∧ (q.setStatus n .cancelled).live = q.live ∧
      ((q.setStatus n .cancelled).node n).status = .cancelled ∧ n ∉ h :: body := by
  have outside : n ∉ h :: body := fun hm => hq.joined n hm hn
  have ne : ∀ m ∈ h :: body, m ≠ n := fun m hm e => outside (e ▸ hm)
  have cancelled : ((q.setStatus n .cancelled).node n).status = .cancelled := by
    refine status_setStatus_self _ ?_
    by_contra hlt
    rw [node_of_size_le (Nat.le_of_not_lt hlt)] at hn
    simp at hn
  have dead : ∀ m, (q.node m).isLive = false → ((q.setStatus n .cancelled).node m).isLive = false := by
    intro m hm
    by_cases e : m = n
    · rw [e, Node.isLive, cancelled]
      rfl
    · simpa [Node.isLive, e] using hm
  have shaped : Shaped (q.setStatus n .cancelled) h body := by
    refine hq.congr rfl rfl (by simp) (by simp) (by simp) (by simp)
      (fun m hm => by simp [Node.isLive, ne m hm]) dead
      (fun m hm => by simpa [ne m hm] using hq.joined m hm) fun m hm => ?_
    have e : m ≠ n := by
      rintro rfl
      simp [cancelled] at hm
    simpa using hq.apart m (by simpa [e] using hm)
  refine ⟨shaped, ?_, cancelled, outside⟩
  rw [shaped.live_eq, hq.live_eq]
  exact congrArg _ (List.filter_congr fun m hm => by
    simp [Node.isLive, ne m (List.mem_cons_of_mem _ hm)])

/-- Whoever gives up a wait that never began was no concern of others. -/
theorem Shaped.change_drop (hq : Shaped q h body) (hn : (q.node n).status = .condition) :
    Change q (q.setStatus n .cancelled) [] (some n) none ∧
      Passes q (q.setStatus n .cancelled) [] none := by
  obtain ⟨shaped, live, cancelled, outside⟩ := hq.dropped hn
  have ne : ∀ m ∈ h :: body, m ≠ n := fun m hm e => outside (e ▸ hm)
  have front : ∀ k, q.head = some k → k ≠ n := by
    intro k hk
    rcases hq.head_isSome_or with hh | ⟨hh, -⟩
    · obtain rfl : h = k := by simpa [hk] using hh.symm
      exact ne h (by simp)
    · simp [hk] at hh
  refine ⟨⟨⟨h, body, shaped⟩, by simp, by simp, ?_, ?_, ?_, ?_, ?_⟩,
    passes_of_same rfl live (fun k hk => by simp [front k hk]) fun f _ => by simp⟩
  · intro m _ hm
    rwa [live]
  · intro m hm waits
    have e : m ≠ n := fun e => hm (by rw [e])
    exact Or.inr (by simpa [e] using waits)
  · intro m _ _ turn
    simpa using turn
  · rintro m (hm | hm)
    · rw [live] at hm
      have e : m ≠ n := ne m (List.mem_cons_of_mem _ (hq.mem_live.1 hm).1)
      exact Or.inr ⟨by simpa using e.symm, Or.inl hm⟩
    · have e : m ≠ n := by
        rintro rfl
        simp [cancelled] at hm
      exact Or.inr ⟨by simpa using e.symm, Or.inr (by simpa [e] using hm)⟩
  · intro p m hf
    have column : (q.setStatus n .cancelled).column = q.column := by
      rw [WaitQueue.column, WaitQueue.column, live]
      rfl
    rw [column] at hf
    exact honoured hf (Or.inl (by simp [ne p (hq.mem_of_follows hf).1]))

/-- Changes that leave everyone's node alone may come one after the other. -/
theorem Change.trans (hc : Change q q' [] none none) (hc' : Change q' q'' [] none none) :
    Change q q'' [] none none := by
  have used : ∀ m, InUse q m → InUse q' m := fun m hm =>
    hm.elim (fun live => Or.inl (hc.live m (by simp) live)) (hc.waits m (by simp))
  have used' : ∀ m, InUse q' m → InUse q'' m := fun m hm =>
    hm.elim (fun live => Or.inl (hc'.live m (by simp) live)) (hc'.waits m (by simp))
  constructor
  case shaped => exact hc'.shaped
  case actor =>
    intro m hm hu
    rw [hc'.actor m hm (used m hu), hc.actor m hm hu]
  case mode =>
    intro m hm hu
    rw [hc'.mode m hm (used m hu), hc.mode m hm hu]
  case live =>
    intro m hm live
    exact hc'.live m hm (hc.live m hm live)
  case waits =>
    intro m hm waits
    exact used' m (used m (Or.inr waits))
  case turn =>
    intro m hm live turn
    exact hc'.turn m hm (hc.live m hm live) (hc.turn m hm live turn)
  case used =>
    intro m hm
    obtain ⟨-, hu⟩ := (hc'.used m hm).resolve_left (by simp)
    exact hc.used m hu
  case honours =>
    intro p m hf
    rcases hc'.honours p m hf with e | signal | woken | ⟨p', hf', asked⟩
    · simp at e
    · exact Or.inr (Or.inl signal)
    · simp at woken
    · rcases hc.honours p' m hf' with e | signal | woken | old
      · simp at e
      · exact absurd signal asked
      · simp at woken
      · exact Or.inr (Or.inr (Or.inr old))

/-- A node that is signalled takes its place in the queue with a request of its own. -/
theorem Shaped.change_transferSignalled (hq : Shaped q h body) (n : NodeId) :
    Change q (q.transferSignalled n).1 [] none none := by
  by_cases waits : (q.node n).status = .condition
  · obtain ⟨-, joined, actor, mode, p, hp, signal⟩ := hq.joined_transferSignalled waits
    have live : ∀ m, m ∈ q.live → m ∈ (q.transferSignalled n).1.live := fun m hm => by
      rw [joined.live]
      exact List.mem_append_left _ hm
    obtain ⟨k, body', shaped⟩ := joined.shaped
    refine ⟨joined.shaped, ?_, ?_, fun m _ => live m, ?_, ?_, ?_, ?_⟩
    · intro m _ _
      by_cases e : m = n
      · rw [e, actor]
      · exact joined.spares.actor m e
    · intro m _ _
      by_cases e : m = n
      · rw [e, mode]
      · exact joined.spares.mode m e
    · intro m _ hm
      by_cases e : m = n
      · exact Or.inl (e ▸ joined.mem_live)
      · exact Or.inr ((joined.spares.waits m e).2 hm)
    · intro m _ hm turn
      have e : m ≠ n := fun e => joined.notMem (e ▸ hm)
      have hh := hq.head_eq_of_mem (hq.mem_live.1 hm).1
      rw [joined.spares.prev m e, turn, hh, joined.head h hh]
    · intro m hm
      refine Or.inr ⟨by simp, ?_⟩
      by_cases e : m = n
      · exact Or.inr (e ▸ waits)
      · exact hm.imp (joined.spares.live m e).1 (joined.spares.waits m e).1
    · intro p' m hf
      rcases joined.follows p' m hf with old | rfl
      · exact honoured old ((joined.status p' (joined.ne_of_follows old)).imp_right And.left)
      · obtain rfl := hf.left_unique shaped.nodup_column hp
        exact Or.inr (Or.inl signal)
  · rw [transferSignalled_of_ne waits]
    exact (Alike.refl q).change hq none

end Turnstile.WaitQueue
