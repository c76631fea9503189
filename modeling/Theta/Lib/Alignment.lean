import Mathlib.Data.List.InsertIdx
import Mathlib.Data.Nat.Find
import Mathlib.Logic.Function.Basic

namespace Theta.Lib

/-- A list whose entries move up when one is put in before them, and a table whose places are
written by number and do not move. -/
@[ext]
structure Tables (α β : Type) where
  ids : List α
  slots : Nat → Option β

namespace Tables
section
variable {α β : Type} (needs : α → Option β)

/-- An entry is put in at a place, and what it needs is written under the same number. -/
def enter (t : Tables α β) (i : Nat) (a : α) : Tables α β where
  ids := t.ids.insertIdx i a
  slots := match needs a with
    | some b => Function.update t.slots i (some b)
    | none => t.slots

/-- Every entry finds what it needs under its own number. -/
def Aligned (t : Tables α β) : Prop :=
  ∀ i a b, t.ids[i]? = some a → needs a = some b → t.slots i = some b

/-- No slot is written beyond the last entry that needs one. -/
def Bounded (t : Tables α β) : Prop :=
  ∀ i b, t.slots i = some b → ∃ j a, i ≤ j ∧ t.ids[j]? = some a ∧ (needs a).isSome

/-- The place is behind all entries that need a slot. -/
def behind (ids : List α) (i : Nat) : Bool := (ids.drop i).all (fun a => (needs a).isNone)

end

variable {α β : Type} {needs : α → Option β} {t : Tables α β} {i j : Nat} {a x : α} {b : β}

theorem behind_iff {ids : List α} :
    behind needs ids i = true ↔ ∀ j a, i ≤ j → ids[j]? = some a → needs a = none := by
  rw [behind, List.all_eq_true]
  constructor
  · intro h j a hij hget
    have hmem : a ∈ ids.drop i := by
      refine List.mem_of_getElem? (i := j - i) ?_
      rw [List.getElem?_drop, Nat.add_sub_cancel' hij]
      exact hget
    simpa using h a hmem
  · intro h a hmem
    obtain ⟨n, hn⟩ := List.getElem?_of_mem hmem
    rw [List.getElem?_drop] at hn
    simp [h (i + n) a (Nat.le_add_right i n) hn]

theorem enter_ids_before (h : j < i) : (t.enter needs i a).ids[j]? = t.ids[j]? := by
  simp only [enter, List.getElem?_insertIdx, if_pos h]

theorem enter_ids_self (le : i ≤ t.ids.length) : (t.enter needs i a).ids[i]? = some a := by
  simp only [enter, List.getElem?_insertIdx, Nat.lt_irrefl, ↓reduceIte, if_pos le]

theorem enter_ids_after (h : i ≤ j) : (t.enter needs i a).ids[j + 1]? = t.ids[j]? := by
  have hlt : ¬ j + 1 < i := by omega
  have hne : ¬ j + 1 = i := by omega
  simp only [enter, List.getElem?_insertIdx, hlt, hne, ↓reduceIte, Nat.add_sub_cancel]

theorem enter_slots_self (h : needs a = some b) : (t.enter needs i a).slots i = some b := by
  simp only [enter, h, Function.update_self]

theorem enter_slots_ne (h : j ≠ i) : (t.enter needs i a).slots j = t.slots j := by
  simp only [enter]
  cases needs a with
  | none => rfl
  | some b => exact Function.update_of_ne h _ _

theorem Bounded.enter (h : t.Bounded needs) (le : i ≤ t.ids.length) (a : α) :
    (t.enter needs i a).Bounded needs := by
  intro k b hk
  -- An entry below the new one stays, and one at or above it moves up by one.
  have raised {j : Nat} {x : α} (hj : t.ids[j]? = some x) :
      ∃ j', j ≤ j' ∧ (t.enter needs i a).ids[j']? = some x := by
    by_cases hlt : j < i
    · exact ⟨j, Nat.le_refl j, by rw [enter_ids_before hlt, hj]⟩
    · exact ⟨j + 1, Nat.le_succ j, by rw [enter_ids_after (Nat.le_of_not_lt hlt), hj]⟩
  have old (hk : t.slots k = some b) : ∃ j x, k ≤ j ∧
      (t.enter needs i a).ids[j]? = some x ∧ (needs x).isSome := by
    obtain ⟨j, x, hkj, hj, hx⟩ := h k b hk
    obtain ⟨j', hjj, hj'⟩ := raised hj
    exact ⟨j', x, Nat.le_trans hkj hjj, hj', hx⟩
  by_cases hki : k = i
  · subst hki
    cases ha : needs a with
    | none =>
      refine old ?_
      simpa [Tables.enter, ha] using hk
    | some c => exact ⟨k, a, Nat.le_refl k, enter_ids_self le, by simp [ha]⟩
  · rw [enter_slots_ne hki] at hk
    exact old hk

/-- The last entry that needs a slot, when there is one from some place on. -/
theorem exists_last (hj : t.ids[j]? = some x) (hx : needs x ≠ none) :
    ∃ k y, j ≤ k ∧ t.ids[k]? = some y ∧ needs y ≠ none ∧
      ∀ l z, k < l → t.ids[l]? = some z → needs z = none := by
  classical
  let P (k : Nat) : Prop := ∃ y, t.ids[k]? = some y ∧ needs y ≠ none
  have hle : j ≤ t.ids.length := Nat.le_of_lt (List.getElem?_eq_some_iff.mp hj).1
  have hP : P j := ⟨x, hj, hx⟩
  obtain ⟨y, hk, hy⟩ := Nat.findGreatest_spec (P := P) hle hP
  refine ⟨Nat.findGreatest P t.ids.length, y, Nat.le_findGreatest hle hP, hk, hy, fun l z hlt hl => ?_⟩
  by_contra hz
  exact Nat.findGreatest_is_greatest hlt (Nat.le_of_lt (List.getElem?_eq_some_iff.mp hl).1)
    ⟨z, hl, hz⟩

/-- An entry before one that needs a slot moves the last such entry off the slots. -/
theorem not_aligned_enter (bounded : t.Bounded needs) (h : behind needs t.ids i = false) :
    ¬ (t.enter needs i a).Aligned needs := by
  intro aligned
  rw [Bool.eq_false_iff, ne_eq, behind_iff] at h
  push Not at h
  obtain ⟨j, x, hij, hj, hx⟩ := h
  obtain ⟨k, y, hjk, hk, hy, last⟩ := exists_last hj hx
  obtain ⟨b, hb⟩ := Option.ne_none_iff_exists'.mp hy
  have hslot := aligned (k + 1) y b (by rw [enter_ids_after (by omega), hk]) hb
  rw [enter_slots_ne (by omega)] at hslot
  obtain ⟨l, z, hkl, hl, hz⟩ := bounded (k + 1) b hslot
  rw [last l z (by omega) hl] at hz
  cases hz

/-- The tables stay aligned exactly when each entry is put in behind those that need a slot. -/
theorem aligned_enter_iff (bounded : t.Bounded needs) (le : i ≤ t.ids.length) :
    (t.enter needs i a).Aligned needs ↔ t.Aligned needs ∧ behind needs t.ids i = true := by
  cases hbehind : behind needs t.ids i with
  | false => simp [not_aligned_enter bounded hbehind]
  | true =>
    rw [behind_iff] at hbehind
    simp only [and_true]
    constructor
    · intro h j x b hj hx
      have hlt : j < i := by
        by_contra hge
        rw [hbehind j x (Nat.le_of_not_lt hge) hj] at hx
        cases hx
      rw [← enter_slots_ne (Nat.ne_of_lt hlt)]
      exact h j x b (by rw [enter_ids_before hlt, hj]) hx
    · intro h j x b hj hx
      rcases Nat.lt_trichotomy j i with hlt | rfl | hgt
      · rw [enter_ids_before hlt] at hj
        rw [enter_slots_ne (Nat.ne_of_lt hlt)]
        exact h j x b hj hx
      · rw [enter_ids_self le, Option.some.injEq] at hj
        subst hj
        exact enter_slots_self hx
      · obtain ⟨j, rfl⟩ := Nat.exists_eq_add_of_lt hgt
        rw [enter_ids_after (by omega)] at hj
        rw [hbehind _ x (by omega) hj] at hx
        cases hx

theorem aligned_empty : Aligned needs ⟨[], fun _ => none⟩ := fun _ _ _ h => by cases h

theorem bounded_empty : Bounded needs ⟨[], fun _ => none⟩ := fun _ _ h => by cases h

end Tables

end Theta.Lib
