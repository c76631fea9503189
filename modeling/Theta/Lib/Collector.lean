import Mathlib.Data.Finset.Card

namespace Theta.Lib

/-- The parts of a whole of which those numbered in `s` have arrived. -/
def placed (parts : List α) (s : Finset ℕ) : List (Option α) :=
  parts.mapIdx (fun i part => if i ∈ s then some part else none)

theorem placed_length {parts : List α} {s : Finset ℕ} : (placed parts s).length = parts.length :=
  List.length_mapIdx

theorem placed_get {parts : List α} {s : Finset ℕ} {i : ℕ} {part : α}
    (hi : parts[i]? = some part) :
    (placed parts s)[i]? = some (if i ∈ s then some part else none) := by
  rw [placed, List.getElem?_mapIdx, hi]
  rfl

theorem placed_empty {parts : List α} : placed parts ∅ = List.replicate parts.length none := by
  apply List.ext_getElem?
  intro i
  rw [List.getElem?_replicate]
  cases hi : parts[i]? with
  | none =>
    have hle := List.getElem?_eq_none_iff.mp hi
    rw [if_neg (Nat.not_lt_of_le hle), List.getElem?_eq_none (by rwa [placed_length])]
  | some part =>
    have hlt := (List.getElem?_eq_some_iff.mp hi).1
    rw [placed_get hi, if_pos hlt, if_neg (Finset.notMem_empty i)]

theorem placed_insert {parts : List α} {s : Finset ℕ} {i : ℕ} {part : α}
    (hi : parts[i]? = some part) :
    (placed parts s).set i (some part) = placed parts (insert i s) := by
  have hlt := (List.getElem?_eq_some_iff.mp hi).1
  apply List.ext_getElem?
  intro j
  cases hj : parts[j]? with
  | none =>
    have hle := List.getElem?_eq_none_iff.mp hj
    rw [List.getElem?_eq_none (by rwa [List.length_set, placed_length]),
      List.getElem?_eq_none (by rwa [placed_length])]
  | some other =>
    rw [placed_get hj]
    by_cases hij : i = j
    · subst hij
      rw [hi, Option.some.injEq] at hj
      rw [List.getElem?_set_self (by rwa [placed_length]), if_pos (Finset.mem_insert_self i s), hj]
    · have hmem : j ∈ insert i s ↔ j ∈ s := by
        rw [Finset.mem_insert]
        exact or_iff_right (fun h => hij h.symm)
      rw [List.getElem?_set_ne hij, placed_get hj]
      simp only [hmem]

/-- When as many parts have arrived as there are, all of them have. -/
theorem placed_all {parts : List α} {s : Finset ℕ} (hs : s ⊆ Finset.range parts.length)
    (hcard : parts.length ≤ s.card) : placed parts s = parts.map some := by
  have hall : s = Finset.range parts.length :=
    Finset.eq_of_subset_of_card_le hs (by rwa [Finset.card_range])
  apply List.ext_getElem?
  intro i
  rw [List.getElem?_map]
  cases hi : parts[i]? with
  | none => rw [List.getElem?_eq_none (by rw [placed_length, ← List.getElem?_eq_none_iff, hi])]; rfl
  | some part =>
    have hlt := (List.getElem?_eq_some_iff.mp hi).1
    rw [placed_get hi, if_pos (by rw [hall]; exact Finset.mem_range.mpr hlt)]
    rfl

theorem all_filled {parts : List α} : (parts.map some).mapM id = some parts := by
  induction parts with
  | nil => rfl
  | cons part rest ih => simp [ih]

end Theta.Lib
