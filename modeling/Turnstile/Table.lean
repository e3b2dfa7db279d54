/-! Tables that answer every index: an entry that was never stored reads as the default one. -/
namespace Turnstile

structure Table (α : Type) where
  entries : Array α

namespace Table

variable {α : Type}

def ofList (xs : List α) : Table α := ⟨xs.toArray⟩

def size (t : Table α) : Nat := t.entries.size

def get [Inhabited α] (t : Table α) (i : Nat) : α := t.entries[i]?.getD default

def modify (t : Table α) (i : Nat) (f : α → α) : Table α := ⟨t.entries.modify i f⟩

def push (t : Table α) (a : α) : Table α := ⟨t.entries.push a⟩

def toList (t : Table α) : List α := t.entries.toList

instance : Inhabited (Table α) := ⟨⟨#[]⟩⟩

@[simp] theorem size_modify (t : Table α) (i : Nat) (f : α → α) :
    (t.modify i f).size = t.size := by
  simp [size, modify]

@[simp] theorem size_push (t : Table α) (a : α) : (t.push a).size = t.size + 1 := by
  simp [size, push]

@[simp] theorem size_ofList (xs : List α) : (ofList xs).size = xs.length := by
  simp [size, ofList]

theorem modify_modify (t : Table α) (i : Nat) (f g : α → α) :
    (t.modify i f).modify i g = t.modify i fun x => g (f x) := by
  unfold modify
  congr 1
  refine Array.ext (by simp) fun j hj hj' => ?_
  rw [Array.getElem_modify, Array.getElem_modify, Array.getElem_modify]
  split <;> rfl

variable [Inhabited α]

theorem get_of_size_le {t : Table α} {i : Nat} (h : t.size ≤ i) : t.get i = default := by
  simp [get, Array.getElem?_eq_none (by simpa [size] using h)]

theorem get_modify (t : Table α) (i j : Nat) (f : α → α) :
    (t.modify i f).get j = if i = j ∧ j < t.size then f (t.get j) else t.get j := by
  unfold get modify size
  rw [Array.getElem?_modify]
  by_cases hij : i = j
  · subst hij
    by_cases hi : i < t.entries.size
    · simp [hi]
    · simp [hi]
  · simp [hij]

theorem get_modify_self {t : Table α} {i : Nat} (f : α → α) (h : i < t.size) :
    (t.modify i f).get i = f (t.get i) := by
  simp [get_modify, h]

@[simp] theorem get_modify_of_ne (t : Table α) {i j : Nat} (f : α → α) (h : i ≠ j) :
    (t.modify i f).get j = t.get j := by
  simp [get_modify, h]

theorem modify_same {t : Table α} {i : Nat} {f : α → α} (h : f (t.get i) = t.get i) :
    t.modify i f = t := by
  unfold modify
  congr 1
  refine Array.ext (by simp) fun j hj hj' => ?_
  rw [Array.getElem_modify]
  split
  · rename_i e
    subst e
    simpa [get, hj'] using h
  · rfl

theorem get_push (t : Table α) (a : α) (j : Nat) :
    (t.push a).get j = if j = t.size then a else t.get j := by
  unfold get push size
  rw [Array.getElem?_push]
  split <;> simp_all

end Table

end Turnstile
