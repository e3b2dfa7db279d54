import Turnstile.Proofs.Queue.Shape
import Turnstile.Queue.View

/-! Handing the turn on: who is woken, and what becomes of the node that has its turn. -/
namespace Turnstile.WaitQueue

/-- A request made to the head has been answered: it is made no longer, and if it was for a signal
then the first of the live is to be woken. -/
structure Served (q : WaitQueue) (r : WaitQueue × Option ActorId) : Prop where
  shaped : ∀ h body, Shaped q h body → Shaped r.1 h body
  head : r.1.head = q.head
  live : r.1.live = q.live
  actor : ∀ m, (r.1.node m).actor = (q.node m).actor
  mode : ∀ m, (r.1.node m).mode = (q.node m).mode
  prev : ∀ m, (r.1.node m).prev = (q.node m).prev
  waits : ∀ m, (r.1.node m).status = .condition ↔ (q.node m).status = .condition
  status : ∀ m, q.head ≠ some m → (r.1.node m).status = (q.node m).status
  asks : ∀ m, (r.1.node m).status = .signal → (q.node m).status = .signal
  lapsed : ∀ m, q.head = some m → q.live ≠ [] → (r.1.node m).status ≠ .signal
  woken : ∀ m f, q.head = some m → q.live.head? = some f → (q.node m).status = .signal →
    r.2 = (q.node f).actor

/-- The node has had its turn and is the head. Whoever is first now has been woken if there was a
request that has lapsed. -/
structure Promoted (q : WaitQueue) (r : WaitQueue × Option ActorId) (n : NodeId) : Prop where
  shaped : ∃ body, Shaped r.1 n body
  head : r.1.head = some n
  live : q.live = n :: r.1.live
  actor : ∀ m, m ≠ n → (r.1.node m).actor = (q.node m).actor
  mode : ∀ m, (r.1.node m).mode = (q.node m).mode
  prev : ∀ m, m ≠ n → (r.1.node m).prev = (q.node m).prev
  waits : ∀ m, (r.1.node m).status = .condition ↔ (q.node m).status = .condition
  status : ∀ m, m ≠ n → (r.1.node m).status = (q.node m).status
  asks : (r.1.node n).status = .signal → (q.node n).status = .signal
  woken : ∀ f, r.1.live.head? = some f → (q.node n).status = .signal →
    (r.1.node n).status = .signal ∨ r.2 = (q.node f).actor

/-- Where hint and scan name the same node, it does not matter which is used. -/
theorem successor_eq {q : WaitQueue} {n : NodeId} {x : Option NodeId}
    (hint : ∀ {s}, q.hintedSuccessor n = some s → x = some s) (scan : q.scannedSuccessor n = x) :
    q.successor n = x := by
  rw [successor, scan]
  cases hs : q.hintedSuccessor n with
  | none => rfl
  | some s => rw [hint hs, Option.some_or]

namespace Shaped

variable {q : WaitQueue} {h n : NodeId} {body : List NodeId}

theorem scanned_front (hq : Shaped q h body) (hh : q.head = some h) :
    q.scannedSuccessor h = q.live.head? := by
  have others : ∀ n ∈ body, (n != h) = true := by
    intro n hn
    simpa using fun e : n = h => hq.front_notMem (e ▸ hn)
  rw [scannedSuccessor, hq.backward_eq, hh, Option.isSome_some, if_pos rfl,
    List.takeWhile_append_of_pos others]
  simp [hq.live_eq]

theorem hinted_front (hq : Shaped q h body) {s : NodeId} (hint : q.hintedSuccessor h = some s) :
    q.live.head? = some s := by
  obtain ⟨link, live⟩ := Option.filter_eq_some_iff.1 hint
  rcases hq.next_front s link with dead | first
  · simp [dead] at live
  · rw [hq.live_eq, List.head?_reverse, first]

/-- Hint or scan, it is the first of the live that stands behind the head. -/
theorem successor_front (hq : Shaped q h body) (hh : q.head = some h) :
    q.successor h = q.live.head? :=
  successor_eq hq.hinted_front (hq.scanned_front hh)

theorem wakeNext_front (hq : Shaped q h body) (hh : q.head = some h) :
    q.wakeNext h = (if (q.node h).status.pending then q.setStatus h .initial else q,
      q.live.head?.bind fun s => (q.node s).actor) := by
  have served := hq.setStatus (s := .initial) hq.front_live rfl (by simp)
  by_cases pending : (q.node h).status.pending
  · simp [wakeNext, pending, served.successor_front hh,
      hq.live_setStatus (s := .initial) hq.front_live rfl (by simp)]
  · simp [wakeNext, pending, hq.successor_front hh]

theorem tail_eq_head_iff (hq : Shaped q h body) (hh : q.head = some h) :
    q.tail = some h ↔ q.live = [] := by
  have ht : q.tail = some (body.head?.getD h) := by
    rcases hq.ends with ⟨-, ht⟩ | ⟨hn, -⟩
    · exact ht
    · simp [hh] at hn
  rw [ht, hq.live_eq_nil]
  cases body with
  | nil => simp
  | cons l rest =>
    have : l ≠ h := fun e => hq.front_notMem (by simp [← e])
    simp [this]

theorem served_same (hq : Shaped q h body)
    (quiet : q.head = some h → q.live ≠ [] → (q.node h).status ≠ .signal) : Served q (q, none) := by
  have front : ∀ m, q.head = some m → q.head = some h := fun m hm => by
    rcases hq.head_isSome_or with hh | ⟨hh, -⟩
    · exact hh
    · simp [hh] at hm
  refine ⟨fun _ _ hq => hq, rfl, rfl, by simp, by simp, by simp, by simp, by simp, by simp, ?_, ?_⟩
  · intro m hm hl
    obtain rfl : h = m := by simpa [hm] using (front m hm).symm
    exact quiet hm hl
  · intro m f hm hf hs
    obtain rfl : h = m := by simpa [hm] using (front m hm).symm
    exact absurd hs (quiet hm (by rintro e; simp [e] at hf))

/-- The head may be given any status that asks for no signal, if the first of the live is woken. -/
theorem served_setStatus (hq : Shaped q h body) (hh : q.head = some h) {s : Status}
    (hs : s.isDead = false) (hc : s ≠ .condition) (hsig : s ≠ .signal) {woken : Option ActorId}
    (hw : ∀ f, q.live.head? = some f → (q.node h).status = .signal → woken = (q.node f).actor) :
    Served q (q.setStatus h s, woken) := by
  have inTable := hq.inTable h (by simp)
  constructor
  case shaped =>
    intro k b hk
    exact hk.setStatus hq.front_live hs hc
  case head => exact rfl
  case live => exact hq.live_setStatus hq.front_live hs hc
  case actor => simp
  case mode => simp
  case prev => simp
  case waits =>
    intro m
    by_cases e : m = h
    · subst e
      simp [status_setStatus_self s inTable, hc, hq.joined m (by simp)]
    · simp [e]
  case status =>
    intro m hm
    have : m ≠ h := fun e => hm (e ▸ hh)
    simp [this]
  case asks =>
    intro m hm
    by_cases e : m = h
    · subst e
      exact absurd ((status_setStatus_self s inTable).symm.trans hm) hsig
    · simpa [e] using hm
  case lapsed =>
    intro m hm _
    obtain rfl : h = m := by simpa [hh] using hm
    simpa [status_setStatus_self s inTable] using hsig
  case woken =>
    intro m f hm hf hsig
    obtain rfl : h = m := by simpa [hh] using hm
    exact hw f hf hsig

theorem served_wakeNext (hq : Shaped q h body) (hh : q.head = some h)
    (pending : (q.node h).status.pending) : Served q (q.wakeNext h) := by
  rw [hq.wakeNext_front hh, if_pos pending]
  exact hq.served_setStatus hh rfl (by simp) (by simp) fun f hf _ => by simp [hf]

theorem served_wakeFirst (hq : Shaped q h body) : Served q q.wakeFirst := by
  unfold wakeFirst
  rcases hq.head_isSome_or with hh | ⟨hh, -⟩
  · rw [hh]
    dsimp only
    split
    · rename_i initial
      exact hq.served_same fun _ _ => by simp [initial]
    · rename_i asked
      exact hq.served_wakeNext hh (Status.pending_of_alive hq.front_live asked)
  · rw [hh]
    exact hq.served_same fun hh' => by simp [hh] at hh'

theorem served_wakeShared (hq : Shaped q h body) : Served q q.wakeShared := by
  unfold wakeShared
  rcases hq.head_isSome_or with hh | ⟨hh, -⟩
  · rw [hh]
    dsimp only
    split
    · rename_i alone
      exact hq.served_same fun _ hl => absurd ((hq.tail_eq_head_iff hh).1 alone) hl
    · split
      · rename_i asked
        exact hq.served_wakeNext hh (by simp [asked, Status.pending, Status.code])
      · rename_i initial
        exact hq.served_setStatus hh rfl (by simp) (by simp) fun f _ hs => by simp [initial] at hs
      · rename_i asked _
        exact hq.served_same fun _ _ => asked
  · rw [hh]
    exact hq.served_same fun hh' => by simp [hh] at hh'

theorem split_of_prev (hq : Shaped q h body) (hn : n ∈ body) (hp : (q.node n).prev = q.head) :
    ∃ ys, body = ys ++ [n] := hq.spine.split_of_prev hn hp

theorem hasPredecessors_of_prev (hq : Shaped q h body) (hn : n ∈ q.live) (hp : (q.node n).prev = q.head)
    {a : ActorId} (ha : (q.node n).actor = some a) : q.hasPredecessors a = false := by
  obtain ⟨hb, live⟩ := hq.mem_live.1 hn
  obtain ⟨ys, rfl⟩ := hq.split_of_prev hb hp
  have hint := hq.next_settled n (by simp) live
  simp [hasPredecessors, hq.head_eq_of_mem hb, hint, ha]

section promote

variable {ys : List NodeId}

theorem live_front (hq : Shaped q h (ys ++ [n])) (live : (q.node n).isLive) :
    q.live = n :: (ys.filter fun m => (q.node m).isLive).reverse := by
  have split : Shaped q h (ys ++ n :: []) := hq
  simp [split.live_split live]

theorem promote (hq : Shaped q h (ys ++ [n])) (live : (q.node n).isLive) :
    Shaped (q.promote n) n ys := by
  have inTable := hq.inTable n (by simp)
  have ne : ∀ m ∈ ys, m ≠ n := by
    rintro m hm rfl
    exact (List.nodup_append.1 hq.body_nodup).2.2 m hm m (by simp) rfl
  have eq := q.promote_eq n
  have next : ∀ m, ((q.promote n).node m).next = (q.node m).next := by simp [eq]
  have status : ∀ m, ((q.promote n).node m).status = (q.node m).status := by simp [eq]
  have life : ∀ m, ((q.promote n).node m).isLive = (q.node m).isLive := by simp [Node.isLive, status]
  obtain ⟨next_n, nexts⟩ : (q.node n).next = (ys.filter fun m => (q.node m).isLive).reverse.head? ∧
      Leads (fun m => (q.node m).next) (ys.filter fun m => (q.node m).isLive).reverse none := by
    simpa [List.filter_append, live, Leads] using hq.nexts
  rw [List.head?_reverse] at next_n
  have tail_live : ∀ m, ys.head? = some m → (q.node m).isLive := fun m hm =>
    hq.tail_live m (by simp [List.head?_append, hm])
  refine (hq.spine.promote live).shaped ?nexts ?next_front ?next_front_none ?next_settled ?tail_live
    ?front_actor ?actors ?apart
  case nexts =>
    simp only [life]
    exact nexts.congr fun m _ => next m
  case next_front =>
    intro m hm
    rw [next, next_n] at hm
    simp only [life]
    exact Or.inr hm
  case next_front_none =>
    rw [next, next_n]
    cases ys with
    | nil => simp
    | cons l rest => simp [List.filter_cons_of_pos, tail_live l rfl]
  case next_settled =>
    intro m hm hl
    rw [life] at hl
    rw [next, next_n]
    obtain ⟨zs, rfl⟩ := List.getLast?_eq_some_iff.1 hm
    simp [List.filter_append, hl]
  case tail_live =>
    intro m hm
    rw [life]
    exact tail_live m hm
  case front_actor =>
    rw [eq, actor_setPrev]
    exact actor_clearActor_self (by simpa using inTable)
  case actors =>
    intro m hm
    rw [life, ← hq.actors m (by simp [hm])]
    simp [eq, ne m hm]
  case apart =>
    intro m hm
    rw [status] at hm
    have : m ≠ n := fun e => hq.joined m (by simp [e]) hm
    simpa [eq, this] using hq.apart m hm

theorem promoted_promote (hq : Shaped q h (ys ++ [n])) (live : (q.node n).isLive) :
    Promoted q (q.promote n, none) n := by
  have status : ∀ m, ((q.promote n).node m).status = (q.node m).status := by simp [promote_eq]
  refine ⟨⟨ys, hq.promote live⟩, rfl, ?_, ?_, by simp [promote_eq], ?_, ?_, fun m _ => status m, ?_,
    fun f _ hs => Or.inl ((status n).trans hs)⟩
  · rw [(hq.promote live).live_eq, hq.live_front live]
    simp only [Node.isLive, status]
  · intro m hm
    simp [promote_eq, hm]
  · intro m hm
    simp [promote_eq, hm]
  · intro m
    rw [status]
  · intro hs
    rwa [← status]

theorem promoted_served (hq : Shaped q h (ys ++ [n])) (live : (q.node n).isLive)
    {r : WaitQueue × Option ActorId} (hr : Served (q.promote n) r) : Promoted q r n := by
  have hp := hq.promoted_promote live
  constructor
  case shaped => exact ⟨ys, hr.shaped n ys (hq.promote live)⟩
  case head => rw [hr.head, hp.head]
  case live => rw [hr.live]; exact hp.live
  case actor =>
    intro m hm
    rw [hr.actor]; exact hp.actor m hm
  case mode =>
    intro m
    rw [hr.mode]; exact hp.mode m
  case prev =>
    intro m hm
    rw [hr.prev]; exact hp.prev m hm
  case waits =>
    intro m
    rw [hr.waits]; exact hp.waits m
  case status =>
    intro m hm
    rw [hr.status m (by simpa [promote_head] using hm.symm)]; exact hp.status m hm
  case asks => exact fun hs => hp.asks (hr.asks n hs)
  case woken =>
    intro f hf hs
    rw [hr.live] at hf
    have ne : f ≠ n := fun e => by
      have := List.mem_of_mem_head? hf
      rw [e] at this
      exact (hq.promote live).front_notMem_live this
    refine Or.inr ?_
    rw [hr.woken n f hp.head hf ?_]
    · exact hp.actor f ne
    · simpa [promote_eq] using hs

/-- A link that has been cut outside the queue is not missed. -/
theorem setNext_outside (hq : Shaped q h body) {m : NodeId} (hm : m ∉ h :: body) :
    Shaped (q.setNext m none) h body := by
  have ne : ∀ k ∈ h :: body, k ≠ m := fun k hk e => hm (e ▸ hk)
  refine hq.congr rfl rfl (by simp) (by simp) (fun k hk => by simp [ne k hk]) (by simp)
    (by simp [Node.isLive]) (by simp [Node.isLive]) (by simpa using hq.joined) ?_
  intro k hk
  obtain ⟨ha, hp, hn⟩ := hq.apart k (by simpa using hk)
  refine ⟨by simpa using ha, by simpa using hp, ?_⟩
  by_cases e : k = m
  · subst e
    by_cases hlt : k < q.nodes.size
    · exact next_setNext_self none hlt
    · rw [node_of_size_le (by simpa using hlt)]
  · simpa [e] using hn

theorem promoted_cut {r : WaitQueue × Option ActorId} (hs : Shaped r.1 n ys) (hp : Promoted q r n)
    (hh : h ∉ n :: ys) : Promoted q (r.1.setNext h none, r.2) n := by
  have cut := hs.setNext_outside hh
  have live : (r.1.setNext h none).live = r.1.live := by
    rw [cut.live_eq, hs.live_eq]
    simp [Node.isLive]
  exact {
    shaped := ⟨ys, cut⟩
    head := by simpa using hp.head
    live := by rw [live, hp.live]
    actor := by simpa using hp.actor
    mode := by simpa using hp.mode
    prev := by simpa using hp.prev
    waits := by simpa using hp.waits
    status := by simpa using hp.status
    asks := by simpa using hp.asks
    woken := fun f hf hsig => by simpa using hp.woken f (live ▸ hf) hsig }

theorem front_notMem_promoted (hq : Shaped q h (ys ++ [n])) : h ∉ n :: ys := by
  simpa [or_comm] using hq.front_notMem

theorem promoted_exclusive (hq : Shaped q h (ys ++ [n])) (live : (q.node n).isLive) :
    Promoted q ((q.promote n).setNext h none, none) n :=
  (hq.promote live).promoted_cut (hq.promoted_promote live) hq.front_notMem_promoted

theorem promoted_promoteShared (hq : Shaped q h (ys ++ [n])) (live : (q.node n).isLive)
    (cascade : Bool) : Promoted q (q.promoteShared n cascade) n := by
  unfold promoteShared
  dsimp only
  split
  · exact hq.promoted_served live (hq.promote live).served_wakeShared
  · exact hq.promoted_promote live

theorem shaped_promoteShared (hq : Shaped q h (ys ++ [n])) (live : (q.node n).isLive) (cascade : Bool) :
    Shaped (q.promoteShared n cascade).1 n ys := by
  unfold promoteShared
  dsimp only
  split
  · exact (hq.promote live).served_wakeShared.shaped n ys (hq.promote live)
  · exact hq.promote live

theorem promoted_shared (hq : Shaped q h (ys ++ [n])) (live : (q.node n).isLive) (cascade : Bool) :
    Promoted q ((q.promoteShared n cascade).1.setNext h none, (q.promoteShared n cascade).2) n :=
  (hq.shaped_promoteShared live cascade).promoted_cut (hq.promoted_promoteShared live cascade)
    hq.front_notMem_promoted

/-- A shared turn goes on to the next shared node whenever that one has asked for it. -/
theorem promoteShared_of_asked (hq : Shaped q h (ys ++ [n])) (live : (q.node n).isLive)
    (asked : (q.node n).status = .signal) (cascade : Bool)
    (shared : ∀ f, (q.promote n).live.head? = some f → (q.node f).mode = .shared) :
    q.promoteShared n cascade = (q.promote n).wakeShared := by
  have next : ((q.promote n).node n).next = (q.promote n).live.head? := by
    have nexts := hq.nexts_live
    rw [(hq.promoted_promote live).live] at nexts
    simpa [promote_eq] using nexts.1
  have mayShare : (((q.promote n).node n).next.all fun s =>
      ((q.promote n).node s).mode = .shared) = true := by
    rw [next]
    cases hf : (q.promote n).live.head? with
    | none => rfl
    | some f => simpa [promote_eq] using shared f hf
  have pending : ((q.promote n).node n).status.pending := by
    simp [promote_eq, asked, Status.pending, Status.code]
  simp [promoteShared, mayShare, pending]

/-- Where all are shared, whoever takes a turn leaves no request unanswered. -/
theorem lapsed_promoteShared (hq : Shaped q h (ys ++ [n])) (live : (q.node n).isLive)
    (shared : ∀ m ∈ q.live, (q.node m).mode = .shared) (cascade : Bool)
    (waited : (q.promoteShared n cascade).1.live ≠ []) :
    ((q.promoteShared n cascade).1.node n).status ≠ .signal := by
  by_cases asked : (q.node n).status = .signal
  · have split := (hq.promoted_promote live).live
    have eq := hq.promoteShared_of_asked live asked cascade fun f hf =>
      shared f (split ▸ List.mem_cons_of_mem n (List.mem_of_mem_head? hf))
    have served := (hq.promote live).served_wakeShared
    rw [eq] at waited ⊢
    exact served.lapsed n rfl (served.live ▸ waited)
  · exact mt (hq.promoted_promoteShared live cascade).asks asked

end promote

end Shaped

end Turnstile.WaitQueue
