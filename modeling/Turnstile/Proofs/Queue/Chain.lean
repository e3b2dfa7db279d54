import Mathlib.Data.List.Perm.Subperm
import Turnstile.Queue.Basic

/-! Chains: lists whose entries are linked one to the next, and who follows whom in them. -/
namespace Turnstile

/-- The link of each entry leads to the next one, and that of the last to `e`. -/
def Leads (link : Nat → Option Nat) : List Nat → Option Nat → Prop
  | [], _ => True
  | n :: rest, e => link n = rest.head?.or e ∧ Leads link rest e

/-- In the list, `n` stands directly behind `p`. -/
def Follows : List Nat → Nat → Nat → Prop
  | [], _, _ => False
  | x :: rest, p, n => (x = p ∧ rest.head? = some n) ∨ Follows rest p n

section Leads

variable {link other : Nat → Option Nat} {xs ys : List Nat} {e : Option Nat}

theorem leads_append :
    Leads link (xs ++ ys) e ↔ Leads link xs (ys.head?.or e) ∧ Leads link ys e := by
  induction xs with
  | nil => simp [Leads]
  | cons x rest ih =>
    simp only [List.cons_append, Leads, ih, List.head?_append, Option.or_assoc, and_assoc]

theorem Leads.congr (h : Leads link xs e) (same : ∀ n ∈ xs, other n = link n) :
    Leads other xs e := by
  induction xs with
  | nil => trivial
  | cons x rest ih =>
    obtain ⟨hx, hr⟩ := h
    exact ⟨(same x (by simp)).trans hx, ih hr fun n hn => same n (by simp [hn])⟩

/-- A chain may end elsewhere once its last link is changed to lead there. -/
theorem Leads.relink {x : Nat} {e' : Option Nat} (h : Leads link (xs ++ [x]) e)
    (last : other x = e') (same : ∀ n ∈ xs, other n = link n) :
    Leads other (xs ++ [x]) e' := by
  rw [leads_append] at h ⊢
  exact ⟨h.1.congr same, by simpa [Leads] using last⟩

/-- A walk along a chain that comes to an end meets the whole of it. -/
theorem trail_of_leads {bound : Nat} (h : Leads link xs none) (hb : xs.length ≤ bound) :
    trail link bound xs.head? = xs := by
  induction xs generalizing bound with
  | nil => simp
  | cons x rest ih =>
    cases bound with
    | zero => simp at hb
    | succ bound =>
      have hx : link x = rest.head? := by simpa using h.1
      have := ih h.2 (by simpa using hb)
      simp [trail, hx, this]

end Leads

theorem getLast?_of_suffix {xs ys : List NodeId} (h : xs <:+ ys) (ne : xs ≠ []) :
    ys.getLast? = xs.getLast? := by
  obtain ⟨zs, rfl⟩ := h
  obtain ⟨x, rest, rfl⟩ := List.exists_cons_of_ne_nil ne
  simp [List.getLast?_append, List.getLast?_cons]

theorem getLast?_append_cons (xs ys : List NodeId) (n : NodeId) :
    (ys ++ n :: xs).getLast? = some (xs.getLast?.getD n) := by
  simp [List.getLast?_append, List.getLast?_cons]

theorem length_le_of_nodup {xs : List Nat} {bound : Nat} (h : xs.Nodup)
    (lt : ∀ n ∈ xs, n < bound) : xs.length ≤ bound := by
  have sub : xs ⊆ List.range bound := fun n hn => List.mem_range.2 (lt n hn)
  simpa using (h.subperm sub).length_le

theorem Leads.of_follows {link : Nat → Option Nat} {l : List Nat} {e : Option Nat} {p n : Nat}
    (h : Leads link l e) (hf : Follows l p n) : link p = some n := by
  induction l with
  | nil => exact hf.elim
  | cons x rest ih =>
    rcases hf with ⟨rfl, hr⟩ | hf
    · exact h.1.trans (by rw [hr, Option.some_or])
    · exact ih h.2 hf

theorem Leads.follows {link : Nat → Option Nat} {l : List Nat} {e : Option Nat} {p n : Nat}
    (h : Leads link l e) (hp : p ∈ l) (linked : link p = some n) (ends : e ≠ some n) :
    Follows l p n := by
  induction l with
  | nil => simp at hp
  | cons x rest ih =>
    obtain ⟨hx, hr⟩ := h
    rcases List.mem_cons.1 hp with rfl | hp
    · rw [linked] at hx
      cases rest with
      | nil => exact absurd hx.symm ends
      | cons y ys => exact Or.inl ⟨rfl, hx.symm⟩
    · exact Or.inr (ih hr hp)

section Follows

variable {l : List Nat} {a p n : Nat}

theorem Follows.mem_left (h : Follows l p n) : p ∈ l := by
  induction l with
  | nil => exact h.elim
  | cons x rest ih =>
    rcases h with ⟨rfl, -⟩ | h
    · simp
    · exact List.mem_cons_of_mem _ (ih h)

theorem Follows.mem_right (h : Follows l p n) : n ∈ l.tail := by
  induction l with
  | nil => exact h.elim
  | cons x rest ih =>
    rcases h with ⟨-, h⟩ | h
    · exact List.mem_of_mem_head? h
    · exact List.mem_of_mem_tail (ih h)

theorem Follows.cons (h : Follows l p n) : Follows (a :: l) p n := Or.inr h

theorem follows_middle (xs ys : List Nat) : Follows (xs ++ p :: n :: ys) p n := by
  induction xs with
  | nil => exact Or.inl ⟨rfl, rfl⟩
  | cons x rest ih => exact Or.inr ih

theorem Follows.ne (hl : l.Nodup) (h : Follows l p n) : p ≠ n := by
  induction l with
  | nil => exact h.elim
  | cons x rest ih =>
    obtain ⟨hx, hr⟩ := List.nodup_cons.1 hl
    rcases h with ⟨rfl, h⟩ | h
    · rintro rfl
      exact hx (List.mem_of_mem_head? h)
    · exact ih hr h

theorem Follows.left_unique {p' : Nat} (hl : l.Nodup) (h : Follows l p n)
    (h' : Follows l p' n) : p = p' := by
  induction l with
  | nil => exact h.elim
  | cons x rest ih =>
    have hr := (List.nodup_cons.1 hl).2
    have apart : ∀ q, rest.head? = some n → ¬Follows rest q n := by
      intro q hh hq
      cases rest with
      | nil => exact hq
      | cons y ys =>
        obtain rfl : y = n := by simpa using hh
        exact (List.nodup_cons.1 hr).1 hq.mem_right
    rcases h with ⟨rfl, h⟩ | h <;> rcases h' with ⟨rfl, h'⟩ | h'
    · rfl
    · exact absurd h' (apart _ h)
    · exact absurd h (apart _ h')
    · exact ih hr h h'

theorem follows_append_singleton :
    Follows (l ++ [a]) p n ↔ Follows l p n ∨ (l.getLast? = some p ∧ n = a) := by
  induction l with
  | nil => simp [Follows]
  | cons x rest ih =>
    cases rest with
    | nil => simp [Follows, eq_comm]
    | cons y rest => simpa [Follows, or_assoc] using or_congr_right ih

/-- When one leaves, those around it come together and nobody else is moved. -/
theorem Follows.of_erase (hl : l.Nodup) (h : Follows (l.erase a) p n) :
    Follows l p n ∨ (Follows l p a ∧ Follows l a n) := by
  induction l with
  | nil => exact h.elim
  | cons x rest ih =>
    have hr := (List.nodup_cons.1 hl).2
    by_cases hx : x = a
    · subst hx
      rw [List.erase_cons_head] at h
      exact Or.inl (Or.inr h)
    rw [List.erase_cons_tail (by simpa using hx)] at h
    rcases h with ⟨rfl, h⟩ | h
    · cases rest with
      | nil => simp at h
      | cons y ys =>
        by_cases hy : y = a
        · subst hy
          rw [List.erase_cons_head] at h
          exact Or.inr ⟨Or.inl ⟨rfl, rfl⟩, Or.inr (Or.inl ⟨rfl, h⟩)⟩
        · rw [List.erase_cons_tail (by simpa using hy)] at h
          exact Or.inl (Or.inl ⟨rfl, h⟩)
    · rcases ih hr h with h | ⟨h₁, h₂⟩
      · exact Or.inl (Or.inr h)
      · exact Or.inr ⟨Or.inr h₁, Or.inr h₂⟩

theorem Follows.erase {s : Nat} (hl : l.Nodup) (before : Follows l p n) (behind : Follows l n s) :
    Follows (l.erase n) p s := by
  induction l with
  | nil => exact before.elim
  | cons x rest ih =>
    obtain ⟨hx, hr⟩ := List.nodup_cons.1 hl
    have ne : x ≠ n := fun e => hx (e ▸ before.mem_right)
    have behind : Follows rest n s := behind.resolve_left fun e => ne e.1
    rw [List.erase_cons_tail (by simpa using ne)]
    rcases before with ⟨rfl, first⟩ | before
    · cases rest with
      | nil => simp at first
      | cons y ys =>
        obtain rfl : y = n := by simpa using first
        refine Or.inl ⟨rfl, ?_⟩
        rcases behind with ⟨-, next⟩ | behind
        · simpa using next
        · exact absurd behind.mem_left (List.nodup_cons.1 hr).1
    · exact Or.inr (ih hr before behind)

theorem Follows.getLast?_erase (hl : l.Nodup) (before : Follows l p n) (last : l.getLast? = some n) :
    (l.erase n).getLast? = some p := by
  obtain ⟨xs, rfl⟩ := List.getLast?_eq_some_iff.1 last
  have outside : n ∉ xs := fun h =>
    (List.nodup_append.1 hl).2.2 n h n (by simp) rfl
  rw [List.erase_append_right _ outside, List.erase_cons_head, List.append_nil]
  rcases follows_append_singleton.1 before with earlier | ⟨last, -⟩
  · exact absurd (List.mem_of_mem_tail earlier.mem_right) outside
  · exact last

end Follows

/-- One may leave a chain if whoever was linked to it is linked where it was. -/
theorem Leads.skip {link other : Nat → Option Nat} {xs ys : List Nat} {e : Option Nat} {x : Nat}
    (h : Leads link (xs ++ x :: ys) e) (nodup : (xs ++ x :: ys).Nodup) (ends : e ≠ some x)
    (past : ∀ n ∈ xs ++ ys, other n = if link n = some x then link x else link n) :
    Leads other (xs ++ ys) e := by
  induction xs with
  | nil =>
    obtain ⟨-, rest⟩ := h
    refine rest.congr fun n hn => (past n hn).trans (if_neg fun linked => ?_)
    exact (List.nodup_cons.1 nodup).1 (List.mem_of_mem_tail (rest.follows hn linked ends).mem_right)
  | cons w rest ih =>
    obtain ⟨hw, hr⟩ := h
    have nodup' := (List.nodup_cons.1 nodup).2
    refine ⟨?_, ih hr nodup' fun n hn => past n (List.mem_cons_of_mem _ hn)⟩
    rw [past w (by simp)]
    cases rest with
    | nil =>
      have linked : link w = some x := by simpa using hw
      rw [if_pos linked]
      exact hr.1
    | cons z zs =>
      have ne : z ≠ x := by
        rintro rfl
        simp at nodup'
      have linked : link w = some z := by simpa using hw
      rw [linked, if_neg (by simpa using ne)]
      rfl

end Turnstile
