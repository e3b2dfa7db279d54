import Mathlib.Data.List.Nodup
import Mathlib.Logic.Relation
import Turnstile.Proofs.Queue.Loops
import Turnstile.Proofs.Queue.Spine
import Turnstile.Queue.Bench

/-! Links back lead to nodes that came into the queue earlier, whatever is done with it and in whatever
order. So walks come to an end, and with them all loops. -/
namespace Turnstile

/-- In the line, `p` stands before `n`. -/
def Precedes (line : List NodeId) (p n : NodeId) : Prop := n ∈ line ∧ line.idxOf p < line.idxOf n

namespace Precedes

variable {line : List NodeId} {m n p : NodeId}

theorem mem_left (h : Precedes line p n) : p ∈ line :=
  List.idxOf_lt_length_iff.1 (Nat.lt_trans h.2 (List.idxOf_lt_length_iff.2 h.1))

theorem trans (h : Precedes line p n) (h' : Precedes line n m) : Precedes line p m :=
  ⟨h'.1, Nat.lt_trans h.2 h'.2⟩

theorem append (h : Precedes line p n) (later : List NodeId) : Precedes (line ++ later) p n := by
  refine ⟨List.mem_append_left later h.1, ?_⟩
  rw [List.idxOf_append_of_mem h.mem_left, List.idxOf_append_of_mem h.1]
  exact h.2

theorem last (hp : p ∈ line) (new : n ∉ line) : Precedes (line ++ [n]) p n := by
  refine ⟨by simp, ?_⟩
  rw [List.idxOf_append_of_mem hp, List.idxOf_append_of_notMem new]
  exact Nat.lt_add_right _ (List.idxOf_lt_length_iff.2 hp)

end Precedes

section trail

variable {link : Nat → Option Nat} {bound i : Nat}

theorem head?_trail (pos : 0 < bound) (start : Option Nat) : (trail link bound start).head? = start := by
  obtain ⟨k, rfl⟩ := Nat.exists_eq_add_of_lt pos
  cases start <;> simp [trail]

/-- Where links only lead down in rank, a walk comes to an end. -/
theorem leads_trail (rank : Nat → Nat) (down : ∀ i j, link i = some j → rank j < rank i)
    (h : rank i < bound) : Leads link (trail link bound (some i)) none := by
  induction bound generalizing i with
  | zero => omega
  | succ bound ih =>
    rw [trail]
    cases next : link i with
    | none => simp [Leads, next]
    | some j =>
      have := down i j next
      refine ⟨?_, ih (by omega)⟩
      rw [head?_trail (by omega), next, Option.some_or]

theorem reaches_of_mem_trail {s : Nat} (h : i ∈ trail link bound (some s)) :
    Relation.ReflTransGen (fun i j => link i = some j) s i := by
  induction bound generalizing s with
  | zero => simp [trail] at h
  | succ bound ih =>
    rcases List.mem_cons.1 h with rfl | h
    · exact .refl
    · cases next : link s with
      | none => simp [next] at h
      | some j => exact .head next (ih (next ▸ h))

end trail

namespace WaitQueue

/-- The first node is linked behind the second. -/
def Behind (q : WaitQueue) (n p : NodeId) : Prop := q.back n = some p

variable {q q' q'' : WaitQueue} {n p t : NodeId} {line : List NodeId}

/-- What is changed in the links leads where several have led together, or nowhere. -/
structure Narrows (q q' : WaitQueue) : Prop where
  size : q.nodes.size ≤ q'.nodes.size
  contended : q'.contended = q.contended
  tail : Option.Rel (Relation.ReflTransGen q.Behind) q.tail q'.tail
  behind : ∀ n p, q'.Behind n p → Relation.TransGen q.Behind n p

namespace Narrows

theorem tail_refl (q : WaitQueue) (t : Option NodeId) : Option.Rel (Relation.ReflTransGen q.Behind) t t := by
  cases t with
  | none => exact .none
  | some t => exact .some .refl

theorem refl (q : WaitQueue) : Narrows q q :=
  ⟨Nat.le_refl _, rfl, tail_refl q q.tail, fun _ _ => .single⟩

theorem trans (h : Narrows q q') (h' : Narrows q' q'') : Narrows q q'' := by
  refine ⟨Nat.le_trans h.size h'.size, h'.contended.trans h.contended, ?_, fun n p linked => ?_⟩
  · have back : Relation.ReflTransGen q'.Behind ≤ Relation.ReflTransGen q.Behind :=
      Relation.reflTransGen_closed fun n p linked => (h.behind n p linked).to_reflTransGen
    have tail := h.tail
    have tail' := h'.tail
    generalize q.tail = t at tail
    generalize q'.tail = t' at tail tail'
    generalize q''.tail = t'' at tail'
    cases tail with
    | none =>
      cases tail'
      exact .none
    | some first =>
      cases tail' with
      | some second => exact .some (first.trans (back _ _ second))
  · exact Relation.TransGen.closed h.behind _ _ (h'.behind n p linked)

theorem update (q : WaitQueue) (n : NodeId) {f : Node → Node} (keeps : ∀ x, (f x).prev = x.prev) :
    Narrows q (q.update n f) := by
  refine ⟨by simp, rfl, tail_refl q q.tail, fun m p linked => .single ?_⟩
  rw [Behind, back, q.field_update n m Node.prev keeps] at linked
  exact linked

theorem setStatus (q : WaitQueue) (n : NodeId) (s : Status) : Narrows q (q.setStatus n s) :=
  update q n fun _ => rfl

theorem setNext (q : WaitQueue) (n : NodeId) (next : Option NodeId) : Narrows q (q.setNext n next) :=
  update q n fun _ => rfl

theorem clearActor (q : WaitQueue) (n : NodeId) : Narrows q (q.clearActor n) := update q n fun _ => rfl

theorem setPrev (q : WaitQueue) (n : NodeId) {x : Option NodeId}
    (further : ∀ p, x = some p → Relation.TransGen q.Behind n p) : Narrows q (q.setPrev n x) := by
  refine ⟨by simp, rfl, tail_refl q q.tail, fun m p linked => ?_⟩
  rw [Behind, back, WaitQueue.setPrev, node_update] at linked
  split at linked
  · rename_i e
    exact e.1 ▸ further p linked
  · exact .single linked

theorem clearPrev (q : WaitQueue) (n : NodeId) : Narrows q (q.setPrev n none) :=
  setPrev q n fun _ h => by simp at h

theorem create (q : WaitQueue) (mode : Mode) (status : Status) (a : ActorId) :
    Narrows q (q.create mode status a).1 := by
  refine ⟨?_, rfl, tail_refl q q.tail, fun m p linked => ?_⟩
  · exact (Table.size_push _ _).symm ▸ Nat.le_succ _
  · rw [Behind, back, WaitQueue.create, node, Table.get_push] at linked
    split at linked
    · simp at linked
    · exact .single linked

theorem behind_of_mem {m : NodeId} (h : m ∈ q.backFrom (q.back n)) : Relation.TransGen q.Behind n m := by
  cases linked : q.back n with
  | none => simp [linked, backFrom] at h
  | some p => exact .head' linked (reaches_of_mem_trail (linked ▸ h))

theorem found_skipDead (h : (q.skipDead n).2 = some p) : Relation.TransGen q.Behind n p :=
  behind_of_mem (List.mem_of_find?_eq_some h)

theorem skipDead (q : WaitQueue) (n : NodeId) : Narrows q (q.skipDead n).1 := by
  refine setPrev q n fun m h => behind_of_mem ?_
  rcases Option.or_eq_some_iff.1 h with found | ⟨-, last⟩
  · exact List.mem_of_find?_eq_some found
  · exact List.mem_of_getLast? last

theorem readyToPark (q : WaitQueue) (n : NodeId) : Narrows q (q.readyToPark n).1 := by
  have skip := skipDead q n
  unfold WaitQueue.readyToPark
  split
  · exact refl q
  · split
    · exact refl q
    · split
      · exact setStatus q _ _
      · split
        all_goals
          rename_i e
          rw [e] at skip
        · exact skip.trans (setNext _ _ _)
        · exact skip

theorem wakeNext (q : WaitQueue) (n : NodeId) : Narrows q (q.wakeNext n).1 := by
  unfold WaitQueue.wakeNext
  split
  · exact setStatus q _ _
  · exact refl q

theorem bypass (q : WaitQueue) (p n : NodeId) : Narrows q (q.bypass p n).1 := by
  have asked := setStatus q p .signal
  unfold WaitQueue.bypass
  split
  · exact wakeNext q n
  · dsimp only
    split
    · exact asked.trans (wakeNext _ n)
    · split
      · exact asked.trans (setNext _ _ _)
      · exact asked

theorem withdraw (q : WaitQueue) (n : NodeId) : Narrows q (q.withdraw n).1 := by
  unfold WaitQueue.withdraw
  split
  · exact refl q
  · have cleared := clearActor q n
    have skip := cleared.trans (skipDead (q.clearActor n) n)
    split
    · rename_i e
      rw [e] at skip
      exact skip
    · rename_i q' p e
      have tail : q'.tail = q.tail := congrArg (fun r => r.1.tail) e.symm
      have further := found_skipDead (congrArg Prod.snd e)
      rw [e] at skip
      have dead := skip.trans (setStatus q' n .cancelled)
      dsimp only
      split
      · rename_i own
        have cut := dead.trans (setNext _ p none)
        refine ⟨cut.size, cut.contended, ?_, cut.behind⟩
        -- The tail falls back to where the node was linked, by way of dead nodes perhaps.
        rw [tail_setStatus, tail] at own
        rw [own]
        exact .some (Relation.TransGen.closed cleared.behind _ _ further).to_reflTransGen
      · exact dead.trans ((bypass _ p n).trans (setNext _ n none))

theorem wakeShared (q : WaitQueue) : Narrows q q.wakeShared.1 := by
  unfold WaitQueue.wakeShared
  split
  · exact refl q
  · split
    · exact refl q
    · split
      · exact wakeNext q _
      · exact setStatus q _ _
      · exact refl q

theorem promote (n : NodeId) (opened : q.contended) : Narrows q (q.promote n) := by
  have turned : Narrows q (q.between (some n) q.tail) :=
    ⟨Nat.le_refl _, opened.symm, tail_refl q q.tail, fun _ _ => .single⟩
  exact turned.trans ((clearActor _ n).trans (clearPrev _ n))

theorem promoteShared (n : NodeId) (cascade : Bool) (opened : q.contended) :
    Narrows q (q.promoteShared n cascade).1 := by
  unfold WaitQueue.promoteShared
  dsimp only
  split
  · exact (promote n opened).trans (wakeShared _)
  · exact promote n opened

end Narrows

/-- The nodes of the line have come into the queue one after the other, and each is linked behind an
earlier one. -/
structure Descends (q : WaitQueue) (line : List NodeId) : Prop where
  first : line.head? = if q.contended then some placeholder else none
  nodup : line.Nodup
  opens : placeholder < q.nodes.size
  inTable : ∀ n ∈ line, n < q.nodes.size
  ends : q.head.isSome = q.tail.isSome
  tail : ∀ t, q.tail = some t → t ∈ line
  behind : ∀ n p, q.Behind n p → Precedes line p n

namespace Descends

theorem precedes (hq : Descends q line) (h : Relation.TransGen q.Behind n p) : Precedes line p n := by
  induction h with
  | single linked => exact hq.behind _ _ linked
  | tail _ linked ih => exact (hq.behind _ _ linked).trans ih

theorem acyclic (hq : Descends q line) (n : NodeId) : ¬Relation.TransGen q.Behind n n :=
  fun h => Nat.lt_irrefl _ (hq.precedes h).2

theorem narrow (hq : Descends q line) (h : Narrows q q') : Descends q' line where
  first := h.contended ▸ hq.first
  nodup := hq.nodup
  opens := Nat.lt_of_lt_of_le hq.opens h.size
  inTable n hn := Nat.lt_of_lt_of_le (hq.inTable n hn) h.size
  ends := by
    have ends := h.contended.trans hq.ends
    have tail := h.tail
    generalize q.tail = t at ends tail
    generalize q'.tail = t' at tail
    cases tail with
    | none => exact ends
    | some => exact ends
  tail t' ht' := by
    have tail := h.tail
    have mem := hq.tail
    rw [ht'] at tail
    generalize q.tail = t at tail mem
    cases tail with
    | @some t _ back =>
      rcases Relation.reflTransGen_iff_eq_or_transGen.1 back with rfl | further
      · exact mem t' rfl
      · exact (hq.precedes further).mem_left
  behind n p linked := hq.precedes (h.behind n p linked)

theorem opened (hq : Descends q line) :
    Descends q.opened (if q.contended then line else [placeholder]) ∧ q.opened.tail.isSome := by
  have ends := hq.ends
  unfold WaitQueue.opened contended
  cases tail : q.tail with
  | some t =>
    rw [tail, Option.isSome_some] at ends
    simpa [ends, tail] using hq
  | none =>
    rw [tail, Option.isSome_none] at ends
    have empty : line = [] := by simpa [contended, ends] using hq.first
    have unlinked : ∀ n p, ¬q.Behind n p := fun n p linked => by
      simpa [empty] using (hq.behind n p linked).1
    rw [ends]
    exact ⟨⟨rfl, by simp, hq.opens, by simpa using hq.opens, rfl, by simp,
      fun n p linked => (unlinked n p linked).elim⟩, rfl⟩

theorem append (hq : Descends q line) (tail : q.tail = some t) (inTable : n < q.nodes.size)
    (new : n ∉ line) :
    Descends (((q.setPrev n (some t)).setNext t (some n)).between q.head (some n)) (line ++ [n]) where
  first := by
    have mem := hq.tail t tail
    rw [List.head?_append_of_ne_nil _ (List.ne_nil_of_mem mem)]
    exact hq.first
  nodup := List.nodup_append.2 ⟨hq.nodup, List.nodup_singleton n, fun a ha b hb e => by
    obtain rfl := List.mem_singleton.1 hb
    exact new (e ▸ ha)⟩
  opens := by simpa using hq.opens
  inTable m hm := by
    have known : m < q.nodes.size := by
      rcases List.mem_append.1 hm with hm | hm
      · exact hq.inTable m hm
      · exact List.mem_singleton.1 hm ▸ inTable
    simpa using known
  ends := by
    rw [head_between, tail_between, hq.ends, tail]
    rfl
  tail m hm := by
    obtain rfl : n = m := by simpa using hm
    simp
  behind m p linked := by
    rw [Behind, back, node_between, prev_setNext] at linked
    by_cases e : m = n
    · subst e
      rw [prev_setPrev_self _ inTable, Option.some.injEq] at linked
      exact linked ▸ .last (hq.tail t tail) new
    · rw [prev_setPrev_of_ne q _ e] at linked
      exact (hq.behind m p linked).append [n]

theorem enqueue (hq : Descends q line) (inTable : n < q.nodes.size) (new : n ∉ line)
    (real : n ≠ placeholder) :
    Descends (q.enqueue n).1 ((if q.contended then line else [placeholder]) ++ [n]) := by
  obtain ⟨opened, tail⟩ := hq.opened
  obtain ⟨t, tail⟩ := Option.isSome_iff_exists.1 tail
  have size : q.opened.nodes.size = q.nodes.size := by
    unfold WaitQueue.opened
    split <;> rfl
  have new' : n ∉ if q.contended then line else [placeholder] := by
    split
    · exact new
    · simpa using real
  have same : (q.enqueue n).1 =
      ((q.opened.setPrev n (some t)).setNext t (some n)).between q.opened.head (some n) := by
    rw [WaitQueue.enqueue]
    dsimp only
    rw [tail]
    rfl
  exact same ▸ opened.append tail (size ▸ inTable) new'

section walks

/-- From wherever a walk starts, it comes to an end before it has met more nodes than there are. -/
theorem leads_backFrom (hq : Descends q line) (start : Option NodeId) :
    Leads q.back (q.backFrom start) none := by
  unfold backFrom
  cases start with
  | none => simp [Leads]
  | some n =>
    have fits := length_le_of_nodup hq.nodup hq.inTable
    refine leads_trail (fun n => if n ∈ line then line.idxOf n else 0) (fun n p linked => ?_) ?_
    · have precedes := hq.behind n p linked
      simpa [precedes.1, precedes.mem_left] using precedes.2
    · show (if n ∈ line then line.idxOf n else 0) < q.nodes.size
      split
      · rename_i hn
        exact Nat.lt_of_lt_of_le (List.idxOf_lt_length_iff.2 hn) fits
      · exact hq.opens

theorem head?_backFrom (hq : Descends q line) (start : Option NodeId) :
    (q.backFrom start).head? = start := head?_trail (Nat.zero_lt_of_lt hq.opens) start

theorem notMem_backFrom (hq : Descends q line) (n : NodeId) : n ∉ q.backFrom (q.back n) :=
  fun h => hq.acyclic n (Narrows.behind_of_mem h)

/-- A scan from the tail sees what the walk from there meets. -/
theorem ends_scan {γ β : Type} (hq : Descends q line) (s : Scan γ β) (g : γ) :
    Ends (s.pass q.back) (q.tail, g) (s.along g q.backward) := by
  have ends := s.ends (hq.leads_backFrom q.tail) g
  rwa [hq.head?_backFrom] at ends

end walks

end Descends

/-- Every loop over the queue is left, with the result that the operation takes from the whole walk. -/
structure LoopsEnd (q : WaitQueue) : Prop where
  successor : ∀ n, Ends ((q.nextAlive n).pass q.back) (q.tail, none) (q.scannedSuccessor n)
  search : ∀ n, Ends ((Scan.any (· == n)).pass q.back) (q.tail, ()) (q.backward.contains n)
  includes : ∀ a,
    Ends ((Scan.any fun n => (q.node n).actor = some a).pass q.back) (q.tail, ()) (q.includes a)
  length : Ends ((Scan.count fun n => (q.node n).actor).pass q.back) (q.tail, 0) q.length
  actors : ∀ mode,
    Ends ((Scan.collect (q.actorOf mode)).pass q.back) (q.tail, []) (mode.elim q.actors q.actorsIn)
  first : Ends (q.nextActor.pass q.back) (q.tail, none) q.scannedFirst
  /-- Nobody live in front is the result `none`. -/
  giveUp : ∀ n p, (q.node n).prev = some p → Ends (passDead n) (q, p) (q.skipDead n)
  park : ∀ n p, (q.node n).prev = some p → ¬(q.node p).isLive → Ends (passOver n) (q, p) (q.skipDead n)
  wakeShared : Ends passHead (q, none) q.wakeShared
  enqueue : ∀ n, Ends (passTail n) q (q.enqueue n)

namespace Descends

/-- What stands in front of a node, from the one it is linked behind. -/
theorem front (hq : Descends q line) (linked : (q.node n).prev = some p) :
    ∃ rest, q.backFrom (some p) = p :: rest ∧ Leads q.back (p :: rest) none ∧ n ∉ p :: rest ∧
      q.skipDead n = q.pastDead n (p :: rest) := by
  have first := hq.head?_backFrom (some p)
  have whole : Leads q.back (q.backFrom (some p)) none := hq.leads_backFrom (some p)
  have out : n ∉ q.backFrom (some p) := linked ▸ hq.notMem_backFrom n
  have skip : q.skipDead n = q.pastDead n (q.backFrom (some p)) := by rw [skipDead, linked, pastDead]
  cases walk : q.backFrom (some p) with
  | nil => simp [walk] at first
  | cons x rest =>
    obtain rfl : x = p := by simpa [walk] using first
    rw [walk] at whole out skip
    exact ⟨rest, rfl, whole, out, skip⟩

theorem loopsEnd (hq : Descends q line) : LoopsEnd q where
  successor n := along_nextAlive n ▸ hq.ends_scan (q.nextAlive n) none
  search n := by
    have ends := hq.ends_scan (.any (· == n)) ()
    rwa [Scan.along_any, List.any_beq'] at ends
  includes a := by
    have ends := hq.ends_scan (.any fun n => (q.node n).actor = some a) ()
    rwa [Scan.along_any] at ends
  length := by
    have ends := hq.ends_scan (.count fun n => (q.node n).actor) 0
    rwa [Scan.along_count, Nat.zero_add] at ends
  actors mode := by
    have ends := hq.ends_scan (.collect (q.actorOf mode)) []
    rwa [Scan.along_collect, List.nil_append, filterMap_actorOf] at ends
  first := along_nextActor (q := q) ▸ hq.ends_scan q.nextActor none
  giveUp n p linked := by
    obtain ⟨rest, -, whole, out, skip⟩ := hq.front linked
    have ends := ends_passDead whole out
    rwa [setPrev_same linked, ← skip] at ends
  park n p linked dead := by
    obtain ⟨rest, -, whole, out, skip⟩ := hq.front linked
    have ends := ends_passOver whole out dead
    rwa [setPrev_same linked, ← skip] at ends
  wakeShared := ends_passHead q
  enqueue n := ends_passTail n hq.ends

end Descends

namespace Bench

variable {b b' : Bench}

/-- The nodes that have been put into the queue, in that order. The placeholder is there before all others. -/
def entered (b : Bench) : List NodeId :=
  (if b.queue.contended then [placeholder] else []) ++ b.members.reverse

def Has (b : Bench) (n : NodeId) : Prop :=
  n < b.queue.nodes.size ∧ (n = placeholder → b.queue.contended)

/-- A node is put into the queue only once, and only one that has been put there is made the head. -/
def Allows (b : Bench) (n : NodeId) : Action → Prop
  | .enqueue => n ∉ b.entered
  | .transferSignalled | .transferUnsignalled => (b.queue.node n).status = .condition → n ∉ b.entered
  | .promote | .promoteShared _ => n ∈ b.entered
  | _ => True

/-- One operation on the queue, on whichever node and at whatever time. -/
inductive Works (b : Bench) : Bench → Prop
  | join (mode : Mode) (a : ActorId) : Works b (b.step (.join mode a)).1
  | create (mode : Mode) (status : Status) (a : ActorId) : Works b (b.step (.create mode status a)).1
  | wakeShared : Works b (b.step .wakeShared).1
  | act (n : NodeId) (action : Action) (has : b.Has n) (allowed : b.Allows n action) :
      Works b (b.act n action).1

theorem entered_start (actors : Nat) : (start actors).entered = [] := rfl

theorem descends_start (actors : Nat) : Descends (start actors).queue (start actors).entered where
  first := rfl
  nodup := List.nodup_nil
  opens := show placeholder < empty.nodes.size by decide
  inTable := by simp [entered_start]
  ends := rfl
  tail := by simp [start, empty]
  behind n p linked := by simp [Behind, back, start, node_empty] at linked

@[simp] theorem queue_wake (b : Bench) (woken : Option ActorId) : (b.wake woken).queue = b.queue := by
  cases woken <;> rfl

@[simp] theorem members_wake (b : Bench) (woken : Option ActorId) : (b.wake woken).members = b.members := by
  cases woken <;> rfl

/-- An operation that neither puts a node into the queue nor turns a link forward. -/
theorem descends_of_narrows (hb : Descends b.queue b.entered) (h : Narrows b.queue q) (queue : b'.queue = q)
    (members : b'.members = b.members) : Descends b'.queue b'.entered := by
  subst queue
  rw [entered, h.contended, members]
  exact hb.narrow h

theorem descends_of_enqueue (hb : Descends b.queue b.entered) (has : b.Has n) (new : n ∉ b.entered)
    (before : Narrows b.queue q) (after : Narrows (q.enqueue n).1 q') (queue : b'.queue = q')
    (members : b'.members = n :: b.members) : Descends b'.queue b'.entered := by
  subst queue
  have real : n ≠ placeholder := fun e => new (by simp [entered, e, has.2 e])
  have came := (hb.narrow before).enqueue (Nat.lt_of_lt_of_le has.1 before.size) new real
  have opened : b'.queue.contended = true := by
    have first := came.first
    have someone : ((if q.contended then b.entered else [placeholder]) ++ [n]).head? ≠ none := by simp
    rw [first] at someone
    rw [after.contended]
    by_contra closed
    exact someone (if_neg closed)
  have line : b'.entered = (if q.contended then b.entered else [placeholder]) ++ [n] := by
    rw [before.contended]
    cases known : b.queue.contended with
    | true => simp [entered, opened, members, known]
    | false =>
      have empty : b.entered = [] := by simpa [known] using hb.first
      have nobody : b.members = [] := by simpa [entered, known] using empty
      simp [entered, opened, members, nobody]
  exact line ▸ came.narrow after

theorem contended_of_entered (hb : Descends b.queue b.entered) (hn : n ∈ b.entered) :
    b.queue.contended := by
  have first := hb.first
  by_contra closed
  rw [if_neg closed, List.head?_eq_none_iff] at first
  simp [first] at hn

theorem descends_transferSignalled (hb : Descends b.queue b.entered) (has : b.Has n)
    (allowed : b.Allows n .transferSignalled) :
    Descends (b.act n .transferSignalled).1.queue (b.act n .transferSignalled).1.entered := by
  by_cases waits : (b.queue.node n).status = .condition
  · have released := Narrows.setStatus b.queue n .initial
    have moved : (b.queue.transferSignalled n).2.2 = true := by
      simp only [transferSignalled, waits, if_true]
      split <;> rfl
    have asked : Narrows ((b.queue.setStatus n .initial).enqueue n).1 (b.queue.transferSignalled n).1 := by
      simp only [transferSignalled, waits, if_true]
      split
      · exact .setStatus _ _ _
      · exact .refl _
    refine descends_of_enqueue hb has (allowed waits) released asked (queue_wake _ _) ?_
    simp [act, moved]
  · have stays := transferSignalled_of_ne waits
    refine descends_of_narrows hb (.refl _) ?_ ?_ <;> simp [act, stays]

theorem descends_transferUnsignalled (hb : Descends b.queue b.entered) (has : b.Has n)
    (allowed : b.Allows n .transferUnsignalled) :
    Descends (b.act n .transferUnsignalled).1.queue (b.act n .transferUnsignalled).1.entered := by
  by_cases waits : (b.queue.node n).status = .condition
  · refine descends_of_enqueue hb has (allowed waits) (.setStatus _ n .initial) (.refl _) ?_ ?_ <;>
      simp [act, transferUnsignalled, waits]
  · have stays := transferUnsignalled_of_ne waits
    refine descends_of_narrows hb (.refl _) ?_ ?_ <;> simp [act, stays]

theorem descends_act (hb : Descends b.queue b.entered) (action : Action) (has : b.Has n)
    (allowed : b.Allows n action) : Descends (b.act n action).1.queue (b.act n action).1.entered := by
  cases action with
  | enqueue => exact descends_of_enqueue hb has allowed (.refl _) (.refl _) rfl rfl
  | transferSignalled => exact descends_transferSignalled hb has allowed
  | transferUnsignalled => exact descends_transferUnsignalled hb has allowed
  | promote => exact descends_of_narrows hb (.promote n (contended_of_entered hb allowed)) rfl rfl
  | promoteShared cascade =>
    have turned := Narrows.promoteShared n cascade (contended_of_entered hb allowed)
    exact descends_of_narrows hb turned (queue_wake _ _) (members_wake _ _)
  | wakeNext => exact descends_of_narrows hb (.wakeNext _ n) (queue_wake _ _) (members_wake _ _)
  | readyToPark => exact descends_of_narrows hb (.readyToPark _ n) rfl rfl
  | withdraw => exact descends_of_narrows hb (.withdraw _ n) (queue_wake _ _) (members_wake _ _)
  | setStatus s => exact descends_of_narrows hb (.setStatus _ n s) rfl rfl
  | exchangeStatus expected update =>
    unfold act
    dsimp only
    split
    · exact descends_of_narrows hb (.setStatus _ n update) rfl rfl
    · exact hb
  | clearActor => exact descends_of_narrows hb (.clearActor _ n) rfl rfl
  | clearNext => exact descends_of_narrows hb (.setNext _ n none) rfl rfl
  | clearPrev => exact descends_of_narrows hb (.clearPrev _ n) rfl rfl
  | wake => exact descends_of_narrows hb (.refl _) (queue_wake _ _) (members_wake _ _)
  | isIn => exact hb
  | isHead => exact hb
  | belongsTo => exact hb
  | describe => exact hb

theorem descends_create (hb : Descends b.queue b.entered) (mode : Mode) (status : Status) (a : ActorId) :
    Descends (b.step (.create mode status a)).1.queue (b.step (.create mode status a)).1.entered :=
  descends_of_narrows hb (.create _ mode status a) rfl rfl

theorem descends_join (hb : Descends b.queue b.entered) (mode : Mode) (a : ActorId) :
    Descends (b.step (.join mode a)).1.queue (b.step (.join mode a)).1.entered := by
  have created := descends_create hb mode .initial a
  have has : (b.step (.create mode .initial a)).1.Has b.queue.nodes.size :=
    ⟨(Table.size_push _ _).symm ▸ Nat.lt_succ_self _, fun e => absurd hb.opens (e ▸ Nat.lt_irrefl _)⟩
  have new : b.queue.nodes.size ∉ (b.step (.create mode .initial a)).1.entered :=
    fun h => Nat.lt_irrefl _ (hb.inTable _ h)
  exact descends_act created .enqueue has new

theorem Works.descends (works : Works b b') (hb : Descends b.queue b.entered) :
    Descends b'.queue b'.entered := by
  cases works with
  | join mode a => exact descends_join hb mode a
  | create mode status a => exact descends_create hb mode status a
  | wakeShared => exact descends_of_narrows hb (.wakeShared _) (queue_wake _ _) (members_wake _ _)
  | act n action has allowed => exact descends_act hb action has allowed

theorem descends_of_worked {actors : Nat} (worked : Relation.ReflTransGen Works (start actors) b) :
    Descends b.queue b.entered := by
  induction worked with
  | refl => exact descends_start actors
  | tail _ works ih => exact works.descends ih

/-- Whatever has been done with a queue and in whatever order, a node is linked behind one that came earlier,
if at all, and every walk and every loop comes to an end. -/
theorem links_back {actors : Nat} (worked : Relation.ReflTransGen Works (start actors) b) :
    b.entered.Nodup ∧
      (∀ n p, (b.queue.node n).prev = some p → Precedes b.entered p n) ∧
      (∀ n, ¬Relation.TransGen b.queue.Behind n n) ∧
      (∀ start, (b.queue.backFrom start).head? = start ∧
        Leads b.queue.back (b.queue.backFrom start) none) ∧
      ∀ q, Narrows b.queue q → LoopsEnd q := by
  have descends := descends_of_worked worked
  exact ⟨descends.nodup, descends.behind, descends.acyclic,
    fun start => ⟨descends.head?_backFrom start, descends.leads_backFrom start⟩,
    fun _ narrows => (descends.narrow narrows).loopsEnd⟩

/-- Three have come. The second gives up, and so does the third, which the first does not see. Then the second
gets the turn all the same. -/
def disordered : Bench :=
  let b := (((start 3).step (.join .exclusive 0)).1.step (.join .shared 1)).1
  let b := ((b.step (.join .exclusive 2)).1.act 2 (.setStatus .cancelled)).1
  ((b.act 3 .withdraw).1.act 2 .promote).1

theorem links_back_disordered :
    Relation.ReflTransGen Works (start 3) disordered ∧ disordered.entered = [0, 1, 2, 3] ∧
      disordered.queue.head = some 2 ∧ disordered.queue.backward = [1, 0] ∧
      (disordered.queue.node 3).prev = some 1 ∧ Precedes disordered.entered 1 3 ∧
      LoopsEnd disordered.queue := by
  have worked : Relation.ReflTransGen Works (start 3) disordered := by
    have came : Relation.ReflTransGen Works (start 3) _ :=
      ((Relation.ReflTransGen.single (Works.join .exclusive 0)).tail (Works.join .shared 1)).tail
        (Works.join .exclusive 2)
    have second := came.tail
      (Works.act 2 (.setStatus .cancelled) ⟨by decide +kernel, by decide +kernel⟩ trivial)
    have third := second.tail (Works.act 3 .withdraw ⟨by decide +kernel, by decide +kernel⟩ trivial)
    exact third.tail (Works.act 2 .promote ⟨by decide +kernel, by decide +kernel⟩
      (show 2 ∈ entered _ by decide +kernel))
  have linked : (disordered.queue.node 3).prev = some 1 := by decide +kernel
  obtain ⟨-, behind, -, -, loops⟩ := links_back worked
  exact ⟨worked, by decide +kernel, by decide +kernel, by decide +kernel, linked, behind 3 1 linked,
    loops _ (.refl _)⟩

end Bench

end WaitQueue

end Turnstile
