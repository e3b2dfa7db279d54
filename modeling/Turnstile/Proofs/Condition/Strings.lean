import Mathlib.Data.List.Sort
import Turnstile.Proofs.Condition.Signals

/-! The chain of a condition holds its nodes in the order in which they were made, and whatever is done to
it, nobody who still waits is lost from it. -/
namespace Turnstile.Condition

open WaitQueue

/-- The condition chains these nodes, in this order. -/
structure Strings (c : Condition) (q : WaitQueue) (l : List NodeId) : Prop where
  links : Leads (fun n => (q.node n).follower) l none
  first : c.first = l.head?
  last : c.last = l.getLast?
  order : l.Pairwise (· < ·)
  inTable : ∀ n ∈ l, n < q.nodes.size

/-- The chain has been changed to another: nobody who still waits is lost from it, and nothing outside it is
touched. -/
structure Tended (q : WaitQueue) (l : List NodeId) (c' : Condition) (q' : WaitQueue)
    (l' : List NodeId) : Prop where
  strings : Strings c' q' l'
  size : q.nodes.size ≤ q'.nodes.size
  outside : ∀ m, m ∉ l → m < q.nodes.size → (q'.node m).follower = (q.node m).follower
  known : ∀ m ∈ l', m ∈ l ∨ q.nodes.size ≤ m
  waits : ∀ m, m < q.nodes.size → (q'.node m).status = .condition → (q.node m).status = .condition
  kept : ∀ m ∈ l, (q'.node m).status = .condition → m ∈ l'

variable {c c' c'' : Condition} {q q' q'' : WaitQueue} {l l' l'' : List NodeId} {h n m : NodeId}
  {body : List NodeId}

theorem strings_nil (first : c.first = none) (last : c.last = none) : Strings c q [] :=
  ⟨trivial, first, last, List.Pairwise.nil, by simp⟩

namespace Strings

theorem nodup (hs : Strings c q l) : l.Nodup := hs.order.imp Nat.ne_of_lt

theorem waiters_eq (hs : Strings c q l) : c.waiters q = l := by
  rw [waiters, hs.first]
  exact trail_of_leads hs.links (length_le_of_nodup hs.nodup hs.inTable)

/-- What else is done to the queue does not matter. -/
theorem keep (hs : Strings c q l) (size : q.nodes.size ≤ q'.nodes.size)
    (followers : ∀ m ∈ l, (q'.node m).follower = (q.node m).follower) : Strings c q' l :=
  { hs with
    links := hs.links.congr followers
    inTable := fun n hn => Nat.lt_of_lt_of_le (hs.inTable n hn) size }

theorem tended (hs : Strings c q l) (size : q.nodes.size ≤ q'.nodes.size)
    (followers : ∀ m, (q'.node m).follower = (q.node m).follower)
    (waits : ∀ m, m < q.nodes.size → (q'.node m).status = .condition → (q.node m).status = .condition) :
    Tended q l c q' l :=
  ⟨hs.keep size fun m _ => followers m, size, fun m _ _ => followers m, fun _ => Or.inl, waits,
    fun _ hm _ => hm⟩

end Strings

theorem Tended.trans (hs : Strings c q l) (ht : Tended q l c' q' l') (ht' : Tended q' l' c'' q'' l'') :
    Tended q l c'' q'' l'' where
  strings := ht'.strings
  size := Nat.le_trans ht.size ht'.size
  outside m out inTable := by
    have out' : m ∉ l' := fun hm => (ht.known m hm).elim out fun new => Nat.not_lt.2 new inTable
    rw [ht'.outside m out' (Nat.lt_of_lt_of_le inTable ht.size), ht.outside m out inTable]
  known m hm := by
    rcases ht'.known m hm with old | new
    · exact ht.known m old
    · exact Or.inr (Nat.le_trans ht.size new)
  waits m inTable hm := ht.waits m inTable (ht'.waits m (Nat.lt_of_lt_of_le inTable ht.size) hm)
  kept m hm waits := by
    have inTable := Nat.lt_of_lt_of_le (hs.inTable m hm) ht.size
    exact ht'.kept m (ht.kept m hm (ht'.waits m inTable waits)) waits

/-! Pruning. -/

theorem follower_unchain (q : WaitQueue) (out : m ∉ l) :
    ((l.foldl (fun q n => q.setFollower n none) q).node m).follower = (q.node m).follower := by
  induction l generalizing q with
  | nil => rfl
  | cons n rest ih =>
    rw [List.mem_cons, not_or] at out
    exact (ih _ out.2).trans (follower_setFollower_of_ne _ _ out.1)

theorem follower_chain (q : WaitQueue) (out : m ∉ l) :
    ((chain q l).node m).follower = (q.node m).follower := by
  induction l generalizing q with
  | nil => rfl
  | cons n rest ih =>
    rw [List.mem_cons, not_or] at out
    cases rest with
    | nil => exact follower_setFollower_of_ne _ _ out.1
    | cons k rest => exact (ih _ out.2).trans (follower_setFollower_of_ne _ _ out.1)

theorem leads_chain (nodup : l.Nodup) (inTable : ∀ n ∈ l, n < q.nodes.size) :
    Leads (fun n => ((chain q l).node n).follower) l none := by
  induction l generalizing q with
  | nil => trivial
  | cons n rest ih =>
    obtain ⟨out, nodup⟩ := List.nodup_cons.1 nodup
    have linked : ∀ x, ((q.setFollower n x).node n).follower = x := fun x =>
      follower_setFollower_self _ (inTable n (by simp))
    cases rest with
    | nil => exact ⟨linked none, trivial⟩
    | cons k rest =>
      refine ⟨(follower_chain _ out).trans (linked (some k)), ih nodup fun n hn => ?_⟩
      rw [size_setFollower]
      exact inTable n (List.mem_cons_of_mem _ hn)

/-- Those who still wait stay in order. -/
theorem Strings.prune (hs : Strings c q l) :
    Tended q l (c.prune q).1 (c.prune q).2 (l.filter fun n => (q.node n).status = .condition) := by
  have alike := c.alike_prune q
  have unsignalled : c.unsignalled q = l.filter fun n => (q.node n).status = .condition := by
    rw [Condition.unsignalled, hs.waiters_eq]
  set gone := (c.waiters q).filter fun n => (q.node n).status != .condition with hgone
  have pruned : (c.prune q).2 =
      chain (gone.foldl (fun q n => q.setFollower n none) q) (c.unsignalled q) := rfl
  have sub : (c.unsignalled q).Sublist l := unsignalled ▸ List.filter_sublist
  have unchained := alike_unchain q gone
  constructor
  case strings =>
    rw [← unsignalled]
    refine ⟨?_, rfl, rfl, hs.order.sublist sub, fun n hn => ?_⟩
    · rw [pruned]
      refine leads_chain (hs.nodup.sublist sub) fun n hn => ?_
      rw [unchained.size]
      exact hs.inTable n (sub.subset hn)
    · rw [alike.size]
      exact hs.inTable n (sub.subset hn)
  case size => exact Nat.le_of_eq alike.size.symm
  case outside =>
    intro m out _
    have dropped : m ∉ gone := by
      rw [hgone, hs.waiters_eq]
      exact fun hm => out (List.mem_filter.1 hm).1
    rw [pruned, follower_chain _ fun hm => out (sub.subset hm), follower_unchain _ dropped]
  case known => exact fun m hm => Or.inl (List.mem_filter.1 hm).1
  case waits => exact fun m _ waits => (alike.status m).symm.trans waits
  case kept =>
    intro m hm waits
    exact List.mem_filter.2 ⟨hm, by simpa using (alike.status m).symm.trans waits⟩

/-! Joining. -/

def append (c : Condition) (q : WaitQueue) (a : ActorId) : Condition × WaitQueue × NodeId :=
  let (q, n) := q.create .exclusive .condition a
  match c.last with
  | none => ({ c with first := some n, last := some n }, q, n)
  | some l => ({ c with last := some n }, q.setFollower l (some n), n)

/-- Whoever begins to wait drops the dead first if one stands last. -/
theorem join_eq (c : Condition) (q : WaitQueue) (a : ActorId) :
    c.join q a = c.append q a ∨ c.join q a = (c.prune q).1.append (c.prune q).2 a := by
  by_cases stale : (c.last.any fun n => (q.node n).status != .condition) = true
  · refine Or.inr ?_
    cases last : (c.prune q).1.last <;> simp [join, append, stale, last]
  · refine Or.inl ?_
    cases last : c.last with
    | none => simp [join, append, last]
    | some k =>
      have waits : (q.node k).status = .condition := by simpa [last] using stale
      simp [join, append, waits, last]

/-- What holds of a new node at the end of the chain, whether or not somebody was last before. -/
theorem Strings.appended {a : ActorId} (hs : Strings c q l)
    (alike : Alike (q.create .exclusive .condition a).1 q')
    (links : Leads (fun n => (q'.node n).follower) (l ++ [q.nodes.size]) none)
    (first : c'.first = (l ++ [q.nodes.size]).head?) (last : c'.last = some q.nodes.size)
    (outside : ∀ m, m ∉ l → (q'.node m).follower = (q.node m).follower) :
    Tended q l c' q' (l ++ [q.nodes.size]) := by
  have size : q'.nodes.size = q.nodes.size + 1 := alike.size.trans (q.size_create _ _ _)
  constructor
  case strings =>
    refine ⟨links, first, by rw [last, List.getLast?_concat], ?_, fun n hn => ?_⟩
    · exact List.pairwise_append.2 ⟨hs.order, List.pairwise_singleton _ _, by simpa using hs.inTable⟩
    · rcases List.mem_append.1 hn with old | new
      · exact size ▸ Nat.lt_succ_of_lt (hs.inTable n old)
      · rw [size, List.mem_singleton.1 new]
        exact Nat.lt_succ_self _
  case size => exact size ▸ Nat.le_succ _
  case outside => exact fun m out _ => outside m out
  case known =>
    intro m hm
    exact (List.mem_append.1 hm).imp_right fun new => Nat.le_of_eq (List.mem_singleton.1 new).symm
  case waits =>
    intro m inTable waits
    rwa [alike.status, q.node_create_of_ne _ _ _ (Nat.ne_of_lt inTable)] at waits
  case kept => exact fun m hm _ => List.mem_append_left _ hm

theorem Strings.append (hs : Strings c q l) (a : ActorId) :
    Tended q l (c.append q a).1 (c.append q a).2.1 (l ++ [q.nodes.size]) := by
  have fresh : ((q.create .exclusive .condition a).1.node q.nodes.size).follower = none := by
    rw [q.node_create]
  unfold Condition.append
  dsimp only
  cases last : c.last with
  | none =>
    obtain rfl : l = [] := List.getLast?_eq_none_iff.1 (hs.last.symm.trans last)
    exact hs.appended (Alike.refl _) ⟨fresh, trivial⟩ rfl rfl fun m _ => follower_create _ _ _ _ _
  | some k =>
    obtain ⟨xs, rfl⟩ := List.getLast?_eq_some_iff.1 (hs.last.symm.trans last)
    have inTable : k < q.nodes.size := hs.inTable k (by simp)
    set q₁ := (q.create .exclusive .condition a).1 with hq₁
    have others : ∀ m, m ≠ k →
        ((q₁.setFollower k (some q.nodes.size)).node m).follower = (q.node m).follower := fun m ne =>
      (follower_setFollower_of_ne _ _ ne).trans (follower_create _ _ _ _ _)
    have links : Leads (fun n => ((q₁.setFollower k (some q.nodes.size)).node n).follower)
        (xs ++ [k] ++ [q.nodes.size]) none := by
      refine leads_append.2 ⟨hs.links.relink ?_ fun m hm => others m fun e => ?_, ?_, trivial⟩
      · exact follower_setFollower_self _ (by rw [hq₁, q.size_create]; exact Nat.lt_succ_of_lt inTable)
      · exact (List.nodup_append.1 hs.nodup).2.2 m hm k (List.mem_singleton_self k) e
      · exact (follower_setFollower_of_ne _ _ (Nat.ne_of_gt inTable)).trans fresh
    refine hs.appended (Alike.setFollower _ _ _) links ?_ rfl fun m out => others m fun e => ?_
    · rw [hs.first]
      simp
    · exact out (by simp [e])

theorem Strings.join (hs : Strings c q l) (a : ActorId) :
    ∃ l', q.nodes.size ∈ l' ∧ Tended q l (c.join q a).1 (c.join q a).2.1 l' := by
  rcases c.join_eq q a with eq | eq
  · exact ⟨_, by simp, eq ▸ hs.append a⟩
  · have pruned := hs.prune
    have appended := pruned.strings.append a
    rw [(c.alike_prune q).size] at appended
    exact ⟨_, by simp, eq ▸ pruned.trans hs appended⟩

theorem size_join (c : Condition) (q : WaitQueue) (a : ActorId) :
    (c.join q a).2.2 = q.nodes.size ∧ (c.join q a).2.1.nodes.size = q.nodes.size + 1 := by
  obtain ⟨q₁, before, node, after⟩ := c.join_spec q a
  exact ⟨node.trans before.size, by rw [after.size, q₁.size_create, before.size]⟩

/-! Signals. -/

/-- The front of the chain is cut off once nobody there waits any more. -/
theorem Strings.cut {xs ys : List NodeId} (hs : Strings c q l) (eq : l = xs ++ ys)
    (first : c'.first = ys.head?) (last : c'.last = ys.getLast?) (size : q'.nodes.size = q.nodes.size)
    (followers : ∀ m, m ∉ xs → (q'.node m).follower = (q.node m).follower)
    (waits : ∀ m, (q'.node m).status = .condition → (q.node m).status = .condition)
    (settled : ∀ m ∈ xs, (q'.node m).status ≠ .condition) : Tended q l c' q' ys := by
  subst eq
  have sub : ys.Sublist (xs ++ ys) := List.sublist_append_right _ _
  constructor
  case strings =>
    refine ⟨(leads_append.1 hs.links).2.congr fun m hm => ?_, first, last, hs.order.sublist sub, ?_⟩
    · exact followers m fun mem => (List.nodup_append.1 hs.nodup).2.2 m mem m hm rfl
    · rw [size]
      exact fun m hm => hs.inTable m (sub.subset hm)
  case size => exact Nat.le_of_eq size.symm
  case outside => exact fun m out _ => followers m fun mem => out (List.mem_append_left _ mem)
  case known => exact fun m hm => Or.inl (sub.subset hm)
  case waits => exact fun m _ => waits m
  case kept => exact fun m hm wait => (List.mem_append.1 hm).resolve_left fun mem => settled m mem wait

theorem Strings.eq_of_nil (hs : Strings c q []) : c = { owner := c.owner } := by
  obtain ⟨owner, first, last⟩ := c
  obtain rfl : first = none := hs.first
  obtain rfl : last = none := hs.last
  rfl

/-- A signal moves the first node that waits and drops what is before it, which is all if nobody waits. -/
theorem Strings.signal (hs : Strings c q l) (hq : Shaped q h body) :
    ((∀ m ∈ l, (q.node m).status ≠ .condition) ∧ Alike q (c.signal q).2.1 ∧
      (c.signal q).1 = { owner := c.owner } ∧ Tended q l (c.signal q).1 (c.signal q).2.1 []) ∨
    ∃ xs n ys, l = xs ++ n :: ys ∧ (∀ m ∈ xs, (q.node m).status ≠ .condition) ∧
      Moves q (c.signal q).2.1 [n] ∧ Tended q l (c.signal q).1 (c.signal q).2.1 ys := by
  have signalled := signalled_signalFrom c hq (c.waiters q)
  rw [← Condition.signal, hs.waiters_eq] at signalled
  rcases signalled with
    ⟨none, alike, followers, empty, same⟩ | ⟨xs, n, ys, eq, none, moves, followers, rest⟩
  · have emptied : (c.signal q).1 = { owner := c.owner } := by
      by_cases nobody : l = []
      · subst nobody
        exact (same rfl).trans hs.eq_of_nil
      · exact empty nobody
    refine Or.inl ⟨none, alike, emptied, hs.cut (List.append_nil l).symm ?_ ?_ alike.size ?_ ?_ ?_⟩
    · rw [emptied]
      rfl
    · rw [emptied]
      rfl
    · exact fun m out => by rw [followers, if_neg out]
    · exact fun m wait => (alike.status m).symm.trans wait
    · exact fun m hm wait => none m hm ((alike.status m).symm.trans wait)
  · have waits : ∀ m, ((c.signal q).2.1.node m).status = .condition → (q.node m).status = .condition :=
      fun m waits => (moves.waits_iff (moves.notMem waits)).1 waits
    refine Or.inr ⟨xs, n, ys, eq, none, moves,
      hs.cut (eq.trans (List.append_cons _ _ _)) ?_ ?_ moves.size ?_ waits ?_⟩
    · rw [rest]
    · rw [rest]
      cases ys with
      | nil => rfl
      | cons m ys =>
        refine hs.last.trans ?_
        rw [eq, List.append_cons]
        exact List.getLast?_append_of_ne_nil _ (by simp)
    · exact fun m out => by rw [followers, if_neg out]
    · intro m hm wait
      rcases List.mem_append.1 hm with dropped | moved
      · exact none m dropped (waits m wait)
      · exact moves.notMem wait moved

/-- When all are signalled, nobody stays. -/
theorem Strings.signalAll (hs : Strings c q l) (hq : Shaped q h body) :
    Moves q (c.signalAll q).2.1 (c.unsignalled q) ∧ Tended q l (c.signalAll q).1 (c.signalAll q).2.1 [] := by
  obtain ⟨moves, followers⟩ := moves_moveAll hq hs.nodup
  have same : (c.signalAll q).2.1 = (moveAll q l).1 := congrArg (fun l => (moveAll q l).1) hs.waiters_eq
  rw [← same] at moves followers
  have waits : ∀ m, ((c.signalAll q).2.1.node m).status = .condition → (q.node m).status = .condition :=
    fun m waits => (moves.waits_iff (moves.notMem waits)).1 waits
  refine ⟨by rwa [unsignalled, hs.waiters_eq],
    hs.cut (List.append_nil l).symm rfl rfl moves.size (fun m out => ?_) waits fun m hm wait => ?_⟩
  · rw [followers, if_neg out]
  · exact moves.notMem wait (List.mem_filter.2 ⟨hm, by simpa using waits m wait⟩)

/-! Those who have come to wait on the condition. -/

/-- Of these nodes the condition chains some, and all that still wait. -/
structure Keeps (c : Condition) (q : WaitQueue) (ns : List NodeId) : Prop where
  strings : Strings c q (c.waiters q)
  among : c.waiters q ⊆ ns
  kept : ∀ n ∈ ns, (q.node n).status = .condition → n ∈ c.waiters q

namespace Keeps

variable {ns ns' : List NodeId}

theorem keep (hk : Keeps c q ns) (size : q.nodes.size ≤ q'.nodes.size)
    (followers : ∀ m ∈ ns, (q'.node m).follower = (q.node m).follower)
    (waits : ∀ m ∈ ns, (q'.node m).status = .condition → (q.node m).status = .condition) : Keeps c q' ns := by
  have strings := hk.strings.keep size fun m hm => followers m (hk.among hm)
  have same := strings.waiters_eq
  exact ⟨same.symm ▸ strings, same.symm ▸ hk.among, fun n hn wait => same ▸ hk.kept n hn (waits n hn wait)⟩

/-- Whoever is new to the nodes is in the chain. -/
theorem tend (hk : Keeps c q ns) (tended : Tended q (c.waiters q) c' q' l')
    (inTable : ∀ n ∈ ns, n < q.nodes.size) (among : l' ⊆ ns') (grown : ∀ n ∈ ns', n ∈ ns ∨ n ∈ l') :
    Keeps c' q' ns' := by
  have same := tended.strings.waiters_eq
  refine ⟨same.symm ▸ tended.strings, same.symm ▸ among, fun n hn wait => same.symm ▸ ?_⟩
  rcases grown n hn with old | new
  · exact tended.kept n (hk.kept n old (tended.waits n (inTable n old) wait)) wait
  · exact new

/-- Who waits to be signalled are those of the nodes that do, in their order. -/
theorem unsignalled_eq (hk : Keeps c q ns) (order : ns.Pairwise (· < ·)) :
    c.unsignalled q = ns.filter fun n => (q.node n).status = .condition := by
  refine (hk.strings.order.filter _).eq_of_mem_iff (order.filter _) fun n => ?_
  simp only [List.mem_filter, decide_eq_true_eq]
  exact ⟨fun h => ⟨hk.among h.1, h.2⟩, fun h => ⟨hk.kept n h.1 h.2, h.2⟩⟩

/-- A signal is for the first of the nodes that waits. -/
theorem signal (hk : Keeps c q ns) (order : ns.Pairwise (· < ·)) (hq : Shaped q h body) :
    ((ns.filter fun n => (q.node n).status = .condition) = [] →
      Alike q (c.signal q).2.1 ∧ (c.signal q).1 = { owner := c.owner }) ∧
    ∀ n rest, (ns.filter fun n => (q.node n).status = .condition) = n :: rest →
      Moves q (c.signal q).2.1 [n] ∧
      ∃ dropped, c.waiters q = dropped ++ n :: (c.signal q).1.waiters (c.signal q).2.1 ∧
        ∀ m ∈ dropped, (q.node m).status ≠ .condition := by
  have nobody : ∀ l : List NodeId, (∀ m ∈ l, (q.node m).status ≠ .condition) →
      (l.filter fun n => (q.node n).status = .condition) = [] :=
    fun l none => List.filter_eq_nil_iff.2 (by simpa using none)
  rw [← hk.unsignalled_eq order, unsignalled]
  rcases hk.strings.signal hq with
    ⟨none, alike, emptied, -⟩ | ⟨xs, n, ys, eq, none, moves, tended⟩
  · rw [nobody _ none]
    exact ⟨fun _ => ⟨alike, emptied⟩, by simp⟩
  · have waits : (q.node n).status = .condition := moves.waited n (by simp)
    have first : (c.waiters q).filter (fun n => (q.node n).status = .condition) =
        n :: ys.filter fun n => (q.node n).status = .condition := by
      rw [eq, List.filter_append, nobody xs none]
      simp [waits]
    rw [first]
    refine ⟨by simp, fun m rest e => ?_⟩
    obtain ⟨rfl, -⟩ := List.cons.inj e
    exact ⟨moves, xs, tended.strings.waiters_eq.symm ▸ eq, none⟩

end Keeps

end Turnstile.Condition
