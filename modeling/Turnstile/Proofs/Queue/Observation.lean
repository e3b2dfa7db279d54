import Turnstile.Proofs.Queue.Refinement

/-! What can be asked about the wait queue, answered from the plain list of those who wait. -/
namespace Turnstile.WaitQueue

/-- Every question about the queue has the answer that the list gives. -/
structure Shows (q : WaitQueue) (entries : List Entry) : Prop where
  actors : q.actors = (entries.map Entry.actor).reverse
  actorsIn : ∀ mode, q.actorsIn mode = ((entries.filter (·.mode = mode)).map Entry.actor).reverse
  length : q.length = entries.length
  hasQueued : q.hasQueued = true ↔ entries ≠ []
  includes : ∀ a, q.includes a = true ↔ a ∈ entries.map Entry.actor
  first : q.first = entries.head?.map Entry.actor
  scanned : q.scannedFirst = entries.head?.map Entry.actor
  /-- The hint of the head says nothing or says the same as the scan. -/
  hinted : q.hintedFirst = none ∨ q.hintedFirst = q.scannedFirst
  nobody : entries = [] → ∀ a, q.hasPredecessors a = false
  another : ∀ e, entries.head? = some e → ∀ a, e.actor ≠ a → q.hasPredecessors a = true
  /-- Only while dead nodes stand between may the first be told that somebody is before it. -/
  itself : ∀ e, entries.head? = some e → (q.node e.node).prev = q.head →
    q.hasPredecessors e.actor = false
  exclusive : q.firstIsExclusive = true → ∃ e, entries.head? = some e ∧ e.mode = .exclusive

namespace Represents

variable {q : WaitQueue} {L : List Entry} {h : NodeId} {body : List NodeId}

theorem filterMap_body (hr : Represents q L) (hq : Shaped q h body) (P : NodeId → Bool)
    (R : Entry → Bool) (agree : ∀ e ∈ L, P e.node = R e) :
    (body.filter P).filterMap (fun n => (q.node n).actor) =
      ((L.filter R).map Entry.actor).reverse := by
  have live : body.filter (fun n => (q.node n).isLive) = (L.map Entry.node).reverse := by
    rw [← hr.live, hq.live_eq, List.reverse_reverse]
  have dead : ∀ n ∈ body, (if P n then (q.node n).actor else none) =
      if (q.node n).isLive then (if P n then (q.node n).actor else none) else none := by
    intro n hn
    by_cases alive : (q.node n).isLive
    · simp [alive]
    · have gone : (q.node n).actor = none := by
        simpa [alive] using hq.actors n hn
      simp [gone]
  have entry : ∀ e ∈ L, (if P e.node then (q.node e.node).actor else none) =
      if R e then some e.actor else none := by
    intro e he
    rw [agree e he, hr.actor e he]
  rw [List.filterMap_filter, List.filterMap_congr dead, ← List.filterMap_filter, live,
    List.filterMap_reverse, List.filterMap_map, ← List.filterMap_eq_map', List.filterMap_filter]
  exact congrArg _ (List.filterMap_congr entry)

/-- From the tail to the head one meets the entries in reverse, whichever of them one asks for. -/
theorem filterMap_backward (hr : Represents q L) (P : NodeId → Bool) (R : Entry → Bool)
    (agree : ∀ e ∈ L, P e.node = R e) :
    (q.backward.filter P).filterMap (fun n => (q.node n).actor) =
      ((L.filter R).map Entry.actor).reverse := by
  obtain ⟨h, body, shaped⟩ := hr.shaped
  rw [← hr.filterMap_body shaped P R agree, shaped.backward_eq]
  rcases shaped.head_isSome_or with hh | ⟨hh, rfl⟩
  · by_cases asked : P h <;> simp [hh, asked, shaped.front_actor]
  · simp [hh]

theorem actors_eq (hr : Represents q L) : q.actors = (L.map Entry.actor).reverse := by
  simpa [actors] using hr.filterMap_backward (fun _ => true) (fun _ => true) fun _ _ => rfl

theorem actorsIn_eq (hr : Represents q L) (mode : Mode) :
    q.actorsIn mode = ((L.filter (·.mode = mode)).map Entry.actor).reverse := by
  refine hr.filterMap_backward _ _ fun e he => ?_
  rw [hr.mode e he]

theorem live_eq_nil (hr : Represents q L) : q.live = [] ↔ L = [] := by
  rw [hr.live, List.map_eq_nil_iff]

theorem hasQueued_iff (hr : Represents q L) : q.hasQueued = true ↔ L ≠ [] := by
  obtain ⟨h, body, shaped⟩ := hr.shaped
  rw [← not_iff_not, not_not, ← hr.live_eq_nil]
  rcases shaped.ends with ⟨hh, -⟩ | ⟨hh, ht, rfl, -⟩
  · rw [← shaped.tail_eq_head_iff hh, hasQueued, hh, bne_iff_ne, not_not]
    exact eq_comm
  · simp [hasQueued, hh, ht, shaped.live_eq_nil.2 rfl]

theorem scannedFirst_eq (hr : Represents q L) : q.scannedFirst = L.head?.map Entry.actor := by
  obtain ⟨h, body, shaped⟩ := hr.shaped
  have all := hr.filterMap_body shaped (fun _ => true) (fun _ => true) fun _ _ => rfl
  rw [List.filter_true, List.filter_true] at all
  rw [scannedFirst, shaped.backward_eq]
  rcases shaped.head_isSome_or with hh | ⟨hh, rfl⟩
  · have others : ∀ n ∈ body, (q.head != some n) = true := fun n hn => by
      simpa [hh] using fun e : h = n => shaped.front_notMem (e ▸ hn)
    have stop : (q.head != some h) = false := by simp [hh]
    rw [hh, Option.isSome_some, if_pos rfl, ← hh, List.takeWhile_append_of_pos others,
      List.takeWhile_cons_of_neg (by simp [stop]), List.append_nil, all, List.getLast?_reverse,
      List.head?_map]
  · have : L = [] := hr.live_eq_nil.1 (shaped.live_eq_nil.2 rfl)
    simp [hh, this]

/-- Behind the head the hint leads to the first entry or to a node without an actor. -/
theorem hint_cases (hr : Represents q L) (hh : q.head = some h) {m : NodeId}
    (hint : (q.node h).next = some m) :
    (q.node m).actor = none ∨ ∃ e, L.head? = some e ∧ e.node = m := by
  obtain ⟨k, body, shaped⟩ := hr.shaped
  obtain rfl : h = k := by
    rcases shaped.head_isSome_or with hk | ⟨hk, -⟩
    · simpa [hh] using hk
    · simp [hh] at hk
  refine (shaped.next_front m hint).imp (hr.gone m) fun first => ?_
  rw [← List.head?_reverse, ← shaped.live_eq, hr.live, List.head?_map] at first
  simpa using first

theorem hintedFirst_eq (hr : Represents q L) :
    q.hintedFirst = none ∨ q.hintedFirst = L.head?.map Entry.actor := by
  cases hh : q.head with
  | none => exact Or.inl (by simp [hintedFirst, hh])
  | some h =>
    cases hn : (q.node h).next with
    | none => exact Or.inl (by simp [hintedFirst, hh, hn])
    | some m =>
      by_cases settled : (q.node m).prev = some h
      · have hinted : q.hintedFirst = (q.node m).actor := by
          simp [hintedFirst, hh, hn, settled]
        rcases hr.hint_cases hh hn with gone | ⟨e, first, rfl⟩
        · exact Or.inl (hinted.trans gone)
        · right
          rw [hinted, hr.actor e (List.mem_of_mem_head? first), first]
          rfl
      · exact Or.inl (by simp [hintedFirst, hh, hn, settled])

theorem first_eq (hr : Represents q L) : q.first = L.head?.map Entry.actor := by
  by_cases queued : q.hasQueued = true
  · rw [WaitQueue.first, if_pos queued, hr.scannedFirst_eq]
    rcases hr.hintedFirst_eq with hinted | hinted
    · rw [hinted, Option.none_or]
    · rw [hinted, Option.or_self]
  · obtain rfl : L = [] := by_contra fun ne => queued (hr.hasQueued_iff.2 ne)
    rw [WaitQueue.first, if_neg queued]
    rfl

theorem hasPredecessors_nil (hr : Represents q []) (a : ActorId) : q.hasPredecessors a = false := by
  have : q.hasQueued = false := by
    simpa using mt hr.hasQueued_iff.1 (by simp)
  simp [hasPredecessors, this]

section first

variable {e : Entry} (first : L.head? = some e)

include first

theorem opened (hr : Represents q L) : ∃ h m, q.head = some h ∧ (q.node h).next = some m := by
  obtain ⟨h, body, shaped⟩ := hr.shaped
  have mem := hr.mem_live (List.mem_of_mem_head? first)
  have hb := (shaped.mem_live.1 mem).1
  refine ⟨h, ?_⟩
  cases hn : (q.node h).next with
  | none => simp [shaped.next_front_none.1 hn] at hb
  | some m => exact ⟨m, shaped.head_eq_of_mem hb, rfl⟩

theorem hasPredecessors_other (hr : Represents q L) {a : ActorId} (other : e.actor ≠ a) :
    q.hasPredecessors a = true := by
  obtain ⟨h, m, hh, hn⟩ := hr.opened first
  have queued : q.hasQueued = true := hr.hasQueued_iff.2 (by rintro rfl; simp at first)
  have ne : (q.node m).actor ≠ some a := by
    rcases hr.hint_cases hh hn with gone | ⟨e', first', rfl⟩
    · simp [gone]
    · obtain rfl : e = e' := by simpa [first] using first'
      rw [hr.actor e (List.mem_of_mem_head? first)]
      simpa using other
  simp [hasPredecessors, queued, hh, hn, ne]

/-- The first of those who wait is linked to the head once it has looked for it. -/
theorem hasPredecessors_self (hr : Represents q L) (settled : (q.node e.node).prev = q.head) :
    q.hasPredecessors e.actor = false := by
  have mem := List.mem_of_mem_head? first
  obtain ⟨k, body, shaped⟩ := hr.shaped
  exact shaped.hasPredecessors_of_prev (hr.mem_live mem) settled (hr.actor e mem)

end first

theorem firstIsExclusive_sound (hr : Represents q L) (he : q.firstIsExclusive = true) :
    ∃ e, L.head? = some e ∧ e.mode = .exclusive := by
  unfold firstIsExclusive at he
  split at he
  · simp at he
  · rename_i m hint
    obtain ⟨h, hh, hn⟩ := Option.bind_eq_some_iff.1 hint
    simp only [Bool.and_eq_true, decide_eq_true_eq] at he
    rcases hr.hint_cases hh hn with gone | ⟨e, first, rfl⟩
    · simp [gone] at he
    · exact ⟨e, first, (hr.mode e (List.mem_of_mem_head? first)).symm.trans he.1⟩

theorem shows (hr : Represents q L) : Shows q L where
  actors := hr.actors_eq
  actorsIn := hr.actorsIn_eq
  length := by rw [length_eq, hr.actors_eq]; simp
  hasQueued := hr.hasQueued_iff
  includes a := by rw [← mem_actors, hr.actors_eq, List.mem_reverse]
  first := hr.first_eq
  scanned := hr.scannedFirst_eq
  hinted := by rw [hr.scannedFirst_eq]; exact hr.hintedFirst_eq
  nobody empty a := by subst empty; exact hr.hasPredecessors_nil a
  another e first a other := hr.hasPredecessors_other first other
  itself e first settled := hr.hasPredecessors_self first settled
  exclusive := hr.firstIsExclusive_sound

end Represents

/-- However its operations are called, the queue is a list in which whoever comes is put last, whoever
has its turn is taken from the front, and whoever gives up is taken out. -/
theorem worked_shows {q : WaitQueue} {L : List Entry} (hw : Worked q L) : Shows q L :=
  hw.represents.shows

/-- Of two who came, the first has given up. -/
theorem worked_shows_second :
    Shows (((WaitQueue.empty.join .exclusive 3).1.join .shared 5).1.withdraw 1).1
      [⟨2, 5, .shared⟩] :=
  worked_shows (.withdraw (e := ⟨1, 3, .exclusive⟩) (by decide)
    (.join .shared 5 (.join .exclusive 3 .empty)))

end Turnstile.WaitQueue
