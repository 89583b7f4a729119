import Mathlib.Algebra.Order.BigOperators.Group.List
import Mathlib.Algebra.Order.Group.Multiset
import Mathlib.Tactic

/-!
Totals over an array: each entry is worth something, and the total is the sum. When one entry
is replaced, the total changes by what the old and the new entry are worth.
-/

namespace LoadBench

variable {α M : Type} [AddCommMonoid M]

/-- What the entries of an array are worth together. -/
def total (worth : α → M) (xs : Array α) : M := (xs.toList.map worth).sum

@[simp] theorem total_push (worth : α → M) (xs : Array α) (x : α) :
    total worth (xs.push x) = total worth xs + worth x := by
  simp [total]

private theorem sum_map_set (worth : α → M) (xs : List α) (i : Nat) (x y : α)
    (h : xs[i]? = some x) :
    ((xs.set i y).map worth).sum + worth x = (xs.map worth).sum + worth y := by
  induction xs generalizing i with
  | nil => simp at h
  | cons head tail ih =>
      cases i with
      | zero =>
          simp only [List.getElem?_cons_zero, Option.some.injEq] at h
          subst h
          simp only [List.set_cons_zero, List.map_cons, List.sum_cons]
          abel
      | succ i =>
          have hrest := ih i (by simpa using h)
          simp only [List.set_cons_succ, List.map_cons, List.sum_cons]
          rw [add_assoc, hrest, ← add_assoc]

/-- Replacing an entry exchanges its worth for that of the new one. -/
theorem total_set (worth : α → M) {xs : Array α} {i : Nat} {x : α} (y : α)
    (h : xs[i]? = some x) :
    total worth (xs.set! i y) + worth x = total worth xs + worth y := by
  have hlist : xs.toList[i]? = some x := by simpa using h
  simpa [total] using sum_map_set worth xs.toList i x y hlist

theorem getElem?_set_ne {α : Type} {xs : Array α} {i j : Nat} (h : i ≠ j) (y : α) :
    (xs.set! i y)[j]? = xs[j]? := by
  rw [Array.set!_eq_setIfInBounds, Array.getElem?_setIfInBounds_ne h]

theorem getElem?_set_self {α : Type} {xs : Array α} {i : Nat} {x : α} (h : xs[i]? = some x)
    (y : α) : (xs.set! i y)[i]? = some y := by
  obtain ⟨hi, _⟩ := Array.getElem?_eq_some_iff.mp h
  rw [Array.set!_eq_setIfInBounds, Array.getElem?_setIfInBounds_self_of_lt hi]

/-- An entry stays where it is when another is added. -/
theorem getElem?_push_of_some {α : Type} {xs : Array α} {i : Nat} {x : α} (h : xs[i]? = some x)
    (y : α) : (xs.push y)[i]? = some x := by
  obtain ⟨hi, _⟩ := Array.getElem?_eq_some_iff.mp h
  rw [Array.getElem?_push, if_neg (Nat.ne_of_lt hi)]
  exact h

/-- An entry of an array in which one was replaced is the new one or an old one. -/
theorem getElem?_set_cases {α : Type} {xs : Array α} {i j : Nat} {y z : α}
    (h : (xs.set! i y)[j]? = some z) : i = j ∧ z = y ∨ i ≠ j ∧ xs[j]? = some z := by
  by_cases hij : i = j
  · subst hij
    obtain ⟨hi, hz⟩ := Array.getElem?_eq_some_iff.mp h
    exact Or.inl ⟨rfl, by simpa using hz.symm⟩
  · rw [Array.set!_eq_setIfInBounds, Array.getElem?_setIfInBounds_ne hij] at h
    exact Or.inr ⟨hij, h⟩

/-- Changing an entry that is there is replacing it. -/
theorem modify_eq_set {xs : Array α} {i : Nat} {x : α} (f : α → α) (h : xs[i]? = some x) :
    xs.modify i f = xs.set! i (f x) := by
  apply Array.ext_getElem?
  intro j
  rw [Array.getElem?_modify, Array.set!_eq_setIfInBounds]
  by_cases hij : i = j
  · subst hij
    obtain ⟨hi, _⟩ := Array.getElem?_eq_some_iff.mp h
    rw [if_pos rfl, h, Array.getElem?_setIfInBounds_self_of_lt hi]
    rfl
  · rw [if_neg hij, Array.getElem?_setIfInBounds_ne hij]

theorem modify_modify_eq_set {xs : Array α} {i : Nat} {x : α} (f g : α → α)
    (h : xs[i]? = some x) : (xs.modify i f).modify i g = xs.set! i (g (f x)) := by
  rw [← modify_eq_set (fun y => g (f y)) h]
  apply Array.ext_getElem?
  intro j
  simp only [Array.getElem?_modify]
  by_cases hij : i = j
  · simp [hij, Function.comp_def]
  · simp [hij]

/-- Changing an entry that is there exchanges its worth for that of what it becomes. -/
theorem total_modify (worth : α → M) {xs : Array α} {i : Nat} {x : α} (f : α → α)
    (h : xs[i]? = some x) :
    total worth (xs.modify i f) + worth x = total worth xs + worth (f x) := by
  rw [modify_eq_set f h]
  exact total_set worth (f x) h

/-- A change of one entry that does not change its worth does not change the total. -/
theorem total_modify_eq (worth : α → M) (xs : Array α) (i : Nat) (f : α → α)
    (h : ∀ x, xs[i]? = some x → worth (f x) = worth x) :
    total worth (xs.modify i f) = total worth xs := by
  rcases hx : xs[i]? with _ | x
  · have hi : xs.size ≤ i := by simpa using hx
    congr 1
    apply Array.ext
    · simp
    · intro j hj _
      have : i ≠ j := by
        rw [Array.size_modify] at hj
        omega
      simp [Array.getElem_modify, this]
  · have hlist : xs.toList[i]? = some x := by simpa using hx
    have hset : xs.toList.set i x = xs.toList := by
      obtain ⟨hi, hval⟩ := List.getElem?_eq_some_iff.mp hlist
      rw [← hval]
      exact List.set_getElem_self hi
    rw [modify_eq_set f hx]
    simp only [total, Array.set!_eq_setIfInBounds, Array.toList_setIfInBounds]
    rw [List.map_set, h x hx, ← List.map_set, hset]

/-- What one entry is worth is part of the total. -/
theorem worth_le_total (worth : α → Nat) {xs : Array α} {i : Nat} {x : α} (h : xs[i]? = some x) :
    worth x ≤ total worth xs := by
  have hmem : x ∈ xs.toList := by
    rw [Array.mem_toList_iff]
    exact Array.mem_of_getElem? h
  exact List.le_sum_of_mem (List.mem_map.mpr ⟨x, hmem, rfl⟩)

/-- What two entries are worth is part of the total. -/
theorem worth_add_worth_le_total (worth : α → Nat) {xs : Array α} {i j : Nat} {x y : α}
    (hij : i ≠ j) (hx : xs[i]? = some x) (hy : xs[j]? = some y) (z : α) (hz : worth z = 0) :
    worth x + worth y ≤ total worth xs := by
  have hrest : (xs.set! i z)[j]? = some y := by
    rw [Array.set!_eq_setIfInBounds, Array.getElem?_setIfInBounds_ne hij]
    exact hy
  have hchange := total_set worth z hx
  have hle := worth_le_total worth hrest
  omega

/-- A total that is not zero has an entry that is worth something. -/
theorem exists_of_total_pos {worth : α → Nat} {xs : Array α} (h : 0 < total worth xs) :
    ∃ (i : Nat) (x : α), xs[i]? = some x ∧ 0 < worth x := by
  by_contra hnone
  push Not at hnone
  have hzero : total worth xs = 0 := by
    apply List.sum_eq_zero
    intro n hn
    obtain ⟨x, hx, rfl⟩ := List.mem_map.mp hn
    obtain ⟨i, hi, hval⟩ := List.mem_iff_getElem.mp hx
    have hget : xs[i]? = some x := by
      rw [← Array.getElem?_toList, List.getElem?_eq_getElem hi, hval]
    have := hnone i x hget
    omega
  omega

end LoadBench
