import Mathlib.Data.List.Perm.Subperm
import Theta.Util.SlotMap

namespace Theta.SlotMap
open Lib

/-- The slots of a map whose indices still fit a key. -/
structure Healthy (m : SlotMap T) : Prop where
  covered : m.values.length ≤ m.generations.length
  free_nodup : m.freeSlots.Nodup
  free_empty : ∀ s ∈ m.freeSlots, m.values[s.toNat]? = some none

/-- Every slot index fits the `u32` of a key. -/
def Fits (m : SlotMap T) : Prop := m.generations.length ≤ 2 ^ 32

/-- The generation of the key's slot has reached the key's generation. -/
def Spent (m : SlotMap T) (key : SlotMapKey) : Prop :=
  ∃ g, m.generations[key.index.toNat]? = some g ∧ key.generation.toNat ≤ g.toNat

theorem Spent.same {m m' : SlotMap T} {key : SlotMapKey} (h : Spent m key)
    (same : m'.generations = m.generations) : Spent m' key := by
  unfold Spent
  rw [same]
  exact h

theorem healthy_empty : Healthy ({} : SlotMap T) := ⟨by simp, by simp, by simp⟩

theorem next_generation_ok {g g' : U32} (h : (nextGeneration g : Outcome ε U32) = .ok g') :
    g' = g + 1 ∧ g'.toNat = g.toNat + 1 := by
  unfold nextGeneration at h
  split at h
  · cases h
    refine ⟨rfl, ?_⟩
    bv_omega
  · cases h

/-- The three ways in which a slot is found for a new value. -/
theorem add_cases {m m' : SlotMap T} {value : SlotMapKey → Option T} {key : SlotMapKey}
    (h : (m.add value : Outcome ε _) = .ok (key, m')) :
    (∃ rest g, m.freeSlots = key.index :: rest ∧ m.generations[key.index.toNat]? = some g ∧
      key.generation.toNat = g.toNat + 1 ∧ key.index.toNat < m.values.length ∧
      m' = ⟨m.values.set key.index.toNat (value key),
        m.generations.set key.index.toNat key.generation, rest⟩) ∨
    (m.freeSlots = [] ∧ m.generations.length ≤ m.values.length ∧
      key = ⟨BitVec.ofNat 32 m.values.length, 0⟩ ∧
      m' = ⟨m.values ++ [value key], m.generations ++ [0], []⟩) ∨
    (m.freeSlots = [] ∧ ∃ g, m.generations[m.values.length]? = some g ∧
      key.generation.toNat = g.toNat + 1 ∧ key.index = BitVec.ofNat 32 m.values.length ∧
      m' = ⟨m.values ++ [value key], m.generations.set m.values.length key.generation, []⟩) := by
  unfold add at h
  split at h
  · rename_i slot rest hfree
    left
    cases hg : m.generations[slot.toNat]? with
    | none => simp [hg, Outcome.ofOption] at h
    | some g =>
      cases hn : (nextGeneration g : Outcome ε U32) with
      | err e => simp [hg, Outcome.ofOption, hn] at h
      | panic => simp [hg, Outcome.ofOption, hn] at h
      | ok g' =>
        cases hv : m.values[slot.toNat]? with
        | none => simp [hg, Outcome.ofOption, hn, hv] at h
        | some v =>
          simp only [hg, Outcome.ofOption, hn, hv, Outcome.ok_bind, Outcome.ok.injEq,
            Prod.mk.injEq] at h
          obtain ⟨rfl, rfl⟩ := h
          exact ⟨rest, g, hfree, hg, (next_generation_ok hn).2,
            (List.getElem?_eq_some_iff.mp hv).1, rfl⟩
  · rename_i hfree
    right
    dsimp only at h
    split at h
    · rename_i hle
      simp only [Outcome.ok.injEq, Prod.mk.injEq] at h
      obtain ⟨rfl, rfl⟩ := h
      exact Or.inl ⟨hfree, hle, rfl, rfl⟩
    · cases hg : m.generations[m.values.length]? with
      | none => simp [hg, Outcome.ofOption] at h
      | some g =>
        cases hn : (nextGeneration g : Outcome ε U32) with
        | err e => simp [hg, Outcome.ofOption, hn] at h
        | panic => simp [hg, Outcome.ofOption, hn] at h
        | ok g' =>
          simp only [hg, Outcome.ofOption, hn, Outcome.ok_bind, Outcome.ok.injEq,
            Prod.mk.injEq] at h
          obtain ⟨rfl, rfl⟩ := h
          exact Or.inr ⟨hfree, g, rfl, (next_generation_ok hn).2, rfl, rfl⟩

theorem index_of_fits {n : Nat} (h : n < 2 ^ 32) : (BitVec.ofNat 32 n).toNat = n := by
  rw [BitVec.toNat_ofNat, Nat.mod_eq_of_lt h]

section add
variable {ε T : Type} {m m' : SlotMap T} {value : SlotMapKey → Option T} {key : SlotMapKey}

theorem add_generations_le (h : (m.add value : Outcome ε _) = .ok (key, m')) :
    m.generations.length ≤ m'.generations.length := by
  rcases add_cases h with ⟨_, _, _, _, _, _, rfl⟩ | ⟨_, _, _, rfl⟩ | ⟨_, _, _, _, _, rfl⟩ <;> simp

theorem add_generations_lt (h : (m.add value : Outcome ε _) = .ok (key, m')) :
    m'.generations.length ≤ m.generations.length + 1 := by
  rcases add_cases h with ⟨_, _, _, _, _, _, rfl⟩ | ⟨_, _, _, rfl⟩ | ⟨_, _, _, _, _, rfl⟩ <;> simp

/-- The index of a new slot is not cut off. -/
theorem add_index (healthy : Healthy m) (fits : Fits m')
    (h : (m.add value : Outcome ε _) = .ok (key, m')) :
    m.freeSlots = [] → key.index.toNat = m.values.length := by
  intro hfree
  unfold Fits at fits
  rcases add_cases h with ⟨_, _, hf, _⟩ | ⟨_, hle, rfl, rfl⟩ | ⟨_, g, hg, _, hi, rfl⟩
  · rw [hfree] at hf
    cases hf
  · have := healthy.covered
    rw [List.length_append, List.length_singleton] at fits
    exact index_of_fits (by omega)
  · have hlt := (List.getElem?_eq_some_iff.mp hg).1
    rw [List.length_set] at fits
    rw [hi]
    exact index_of_fits (by omega)

theorem add_healthy (healthy : Healthy m) (h : (m.add value : Outcome ε _) = .ok (key, m')) :
    Healthy m' := by
  have hc := healthy.covered
  rcases add_cases h with ⟨rest, g, hfree, _, _, _, rfl⟩ | ⟨_, hle, _, rfl⟩ | ⟨_, g, hg, _, _, rfl⟩
  · have hnd := healthy.free_nodup
    rw [hfree, List.nodup_cons] at hnd
    refine ⟨by simpa using hc, hnd.2, ?_⟩
    intro s hs
    have hne : key.index.toNat ≠ s.toNat := by
      intro he
      exact hnd.1 (BitVec.eq_of_toNat_eq he ▸ hs)
    rw [List.getElem?_set_ne hne]
    exact healthy.free_empty s (by simp [hfree, hs])
  · refine ⟨by simpa using hc, by simp, by simp⟩
  · have hlt := (List.getElem?_eq_some_iff.mp hg).1
    refine ⟨?_, by simp, by simp⟩
    rw [List.length_append, List.length_singleton, List.length_set]
    omega

/-- A new key was never spent. -/
theorem add_fresh (healthy : Healthy m) (fits : Fits m')
    (h : (m.add value : Outcome ε _) = .ok (key, m')) : ¬ Spent m key := by
  rintro ⟨g', hg', hle⟩
  rcases add_cases h with ⟨rest, g, hfree, hg, hgen, _, rfl⟩ | ⟨hfree, hlen, hkey, _⟩ |
    ⟨hfree, g, hg, hgen, _, _⟩
  · rw [hg, Option.some.injEq] at hg'
    subst g'
    omega
  · have hi := add_index healthy fits h hfree
    have hlt := (List.getElem?_eq_some_iff.mp hg').1
    have := healthy.covered
    omega
  · rw [add_index healthy fits h hfree, hg, Option.some.injEq] at hg'
    subst g'
    omega

theorem add_spent_new (healthy : Healthy m) (fits : Fits m')
    (h : (m.add value : Outcome ε _) = .ok (key, m')) : Spent m' key := by
  refine ⟨key.generation, ?_, Nat.le_refl _⟩
  rcases add_cases h with ⟨rest, g, hfree, hg, _, _, rfl⟩ | ⟨hfree, hlen, hkey, rfl⟩ |
    ⟨hfree, g, hg, _, _, rfl⟩
  · rw [List.getElem?_set_self (List.getElem?_eq_some_iff.mp hg).1]
  · have hi := add_index healthy fits h hfree
    have := healthy.covered
    rw [hi, List.getElem?_append_right (by omega), hkey]
    simp [show m.values.length - m.generations.length = 0 by omega]
  · rw [add_index healthy fits h hfree,
      List.getElem?_set_self (List.getElem?_eq_some_iff.mp hg).1]

/-- Generations only grow. -/
theorem add_spent {k : SlotMapKey} (h : (m.add value : Outcome ε _) = .ok (key, m'))
    (hk : Spent m k) : Spent m' k := by
  obtain ⟨g', hg', hle⟩ := hk
  have hlt := (List.getElem?_eq_some_iff.mp hg').1
  rcases add_cases h with ⟨rest, g, hfree, hg, hgen, _, rfl⟩ | ⟨hfree, hlen, hkey, rfl⟩ |
    ⟨hfree, g, hg, hgen, _, rfl⟩
  · by_cases he : key.index.toNat = k.index.toNat
    · rw [← he, hg, Option.some.injEq] at hg'
      subst g'
      exact ⟨key.generation, by rw [← he, List.getElem?_set_self (by omega)], by omega⟩
    · exact ⟨g', by rw [List.getElem?_set_ne he, hg'], hle⟩
  · exact ⟨g', by rw [List.getElem?_append_left hlt, hg'], hle⟩
  · by_cases he : m.values.length = k.index.toNat
    · rw [← he, hg, Option.some.injEq] at hg'
      subst g'
      exact ⟨key.generation, by rw [← he, List.getElem?_set_self (by omega)], by omega⟩
    · exact ⟨g', by rw [List.getElem?_set_ne he, hg'], hle⟩

theorem free_length_le (healthy : Healthy m) : m.freeSlots.length ≤ m.values.length := by
  have hsub : m.freeSlots.map BitVec.toNat ⊆ List.range m.values.length := by
    intro i hi
    obtain ⟨slot, hslot, rfl⟩ := List.mem_map.mp hi
    exact List.mem_range.mpr (List.getElem?_eq_some_iff.mp (healthy.free_empty slot hslot)).1
  have hnodup : (m.freeSlots.map BitVec.toNat).Nodup :=
    healthy.free_nodup.map (fun _ _ h => BitVec.eq_of_toNat_eq h)
  have hle := (List.subperm_of_subset hnodup hsub).length_le
  rwa [List.length_map, List.length_range] at hle

theorem add_len (healthy : Healthy m) (h : (m.add value : Outcome ε _) = .ok (key, m')) :
    m'.len = m.len + 1 := by
  have hle := free_length_le healthy
  unfold len
  rcases add_cases h with ⟨rest, _, hfree, _, _, _, rfl⟩ | ⟨hfree, _, _, rfl⟩ | ⟨hfree, _, _, _, _, rfl⟩
  · rw [hfree, List.length_cons] at hle ⊢
    simp only [List.length_set]
    omega
  · simp [hfree]
  · simp [hfree]

/-- Finding a slot fails by a panic only. -/
theorem add_ne_err (m : SlotMap T) (value : SlotMapKey → Option T) :
    ∀ e : ε, m.add value ≠ .err e := by
  have next (g : U32) : ∀ e : ε, nextGeneration g ≠ .err e := by
    unfold nextGeneration
    split <;> simp
  unfold add
  split
  · exact Outcome.bind_ne_err Outcome.of_option_ne_err (fun g => Outcome.bind_ne_err (next g)
      (fun _ => Outcome.bind_ne_err Outcome.of_option_ne_err (fun _ => by simp)))
  · dsimp only
    split
    · simp
    · exact Outcome.bind_ne_err Outcome.of_option_ne_err (fun g => Outcome.bind_ne_err (next g)
        (fun _ => by simp))

end add

theorem remove_ne_err (m : SlotMap T) (key : SlotMapKey) : ∀ e : ε, m.remove key ≠ .err e := by
  unfold remove
  split
  · simp
  · split
    · simp
    · split <;> simp

theorem get_eq_some {m : SlotMap T} {k : SlotMapKey} {v : T} :
    m.get k = some v ↔ m.values[k.index.toNat]? = some (some v) ∧
      m.generations[k.index.toNat]? = some k.generation := by
  unfold get
  split
  · rename_i w hw
    split
    · rename_i hg
      simp [hw, hg]
    · rename_i hg
      simp [hg]
  · rename_i hn
    simp only [reduceCtorEq, false_iff]
    rintro ⟨hv, _⟩
    exact hn v hv

/-- Every value is under some key. -/
theorem values_get {m : SlotMap T} {v : T} (healthy : Healthy m) (fits : Fits m)
    (h : some v ∈ m.values) : ∃ key, m.get key = some v := by
  obtain ⟨i, hi⟩ := List.mem_iff_getElem?.mp h
  have hlt := (List.getElem?_eq_some_iff.mp hi).1
  have hcov := healthy.covered
  unfold Fits at fits
  have hidx : (BitVec.ofNat 32 i).toNat = i := index_of_fits (by omega)
  refine ⟨⟨BitVec.ofNat 32 i, m.generations[i]⟩, get_eq_some.mpr ⟨?_, ?_⟩⟩
  · simpa only [hidx] using hi
  · simp only [hidx]
    exact List.getElem?_eq_getElem (by omega)

theorem get_spent {m : SlotMap T} {k : SlotMapKey} {v : T} (h : m.get k = some v) :
    Spent m k :=
  ⟨k.generation, (get_eq_some.mp h).2, Nat.le_refl _⟩

/-- Reading beside an appended element. -/
theorem concat_other {v : List α} {x y : α} {i : Nat} (hi : v.length ≠ i) :
    (v ++ [x])[i]? = some y ↔ v[i]? = some y := by
  rcases Nat.lt_or_gt_of_ne hi with hl | hl
  · rw [List.getElem?_eq_none (by simp; omega), List.getElem?_eq_none (by omega)]
  · rw [List.getElem?_append_left hl]

theorem key_ext {k k' : SlotMapKey} (hi : k.index.toNat = k'.index.toNat)
    (hg : k.generation = k'.generation) : k = k' := by
  obtain ⟨i, g⟩ := k
  obtain ⟨i', g'⟩ := k'
  simp only at hi hg
  rw [BitVec.eq_of_toNat_eq hi, hg]

/-- What the key of a new entry leads to is that entry, unless the index was cut off. -/
theorem get_added {m m' : SlotMap T} {value : SlotMapKey → Option T} {key : SlotMapKey} {v : T}
    (h : (m.add value : Outcome ε _) = .ok (key, m')) (few : m'.values.length ≤ 2 ^ 32)
    (held : m'.get key = some v) : value key = some v := by
  have hvalue := (get_eq_some.mp held).1
  rcases add_cases h with ⟨rest, g, _, _, _, hlt, rfl⟩ | ⟨_, _, rfl, rfl⟩ | ⟨_, g, _, _, hidx, rfl⟩
  · rw [List.getElem?_set_self hlt] at hvalue
    exact Option.some.inj hvalue
  · rw [List.length_append, List.length_singleton] at few
    rw [index_of_fits (by omega), List.getElem?_concat_length] at hvalue
    exact Option.some.inj hvalue
  · rw [List.length_append, List.length_singleton] at few
    rw [hidx, index_of_fits (by omega), List.getElem?_concat_length] at hvalue
    exact Option.some.inj hvalue

/-- A new entry joins the map; every other key reads as before. -/
theorem get_add {m m' : SlotMap T} {value : SlotMapKey → Option T} {key k : SlotMapKey}
    (healthy : Healthy m) (fits : Fits m')
    (h : (m.add value : Outcome ε _) = .ok (key, m')) :
    m'.get k = if k = key then value key else m.get k := by
  have hfresh := add_fresh healthy fits h
  apply Option.ext
  intro v
  rw [get_eq_some]
  rcases add_cases h with ⟨rest, g, hfree, hg, hgen, hlt, rfl⟩ | ⟨hfree, hlen, hkey, rfl⟩ |
    ⟨hfree, g, hg, hgen, hidx, rfl⟩
  · have hlt' := (List.getElem?_eq_some_iff.mp hg).1
    have hempty := healthy.free_empty key.index (by simp [hfree])
    by_cases he : key.index.toNat = k.index.toNat
    · simp only [← he, List.getElem?_set_self hlt, List.getElem?_set_self hlt',
        Option.some.injEq]
      split
      · rename_i hk
        simp [hk]
      · rename_i hk
        have hnone : m.get k ≠ some v := by
          rw [ne_eq, get_eq_some, ← he, hempty]
          simp
        simp only [hnone, iff_false, not_and]
        intro _ hgk
        exact hk (key_ext he.symm hgk.symm)
    · have hk : k ≠ key := by
        rintro rfl
        exact he rfl
      simp only [List.getElem?_set_ne he, hk, ↓reduceIte, get_eq_some]
  · have hi := add_index healthy fits h hfree
    have hcov := healthy.covered
    have hgl : m.generations.length = m.values.length := by omega
    by_cases he : m.values.length = k.index.toNat
    · simp only [← he, List.getElem?_concat_length, Option.some.injEq]
      rw [← hgl, List.getElem?_concat_length, Option.some.injEq]
      split
      · rename_i hk
        simp [hk, hkey]
      · rename_i hk
        have hnone : m.get k ≠ some v := by
          rw [ne_eq, get_eq_some, ← he]
          simp
        simp only [hnone, iff_false, not_and]
        intro _ hgk
        refine hk (key_ext (by omega) ?_)
        rw [hkey, ← hgk]
    · have hk : k ≠ key := by
        rintro rfl
        exact he hi.symm
      simp only [hk, ↓reduceIte, get_eq_some, concat_other he,
        concat_other (show m.generations.length ≠ k.index.toNat by omega)]
  · have hi := add_index healthy fits h hfree
    have hlt := (List.getElem?_eq_some_iff.mp hg).1
    by_cases he : m.values.length = k.index.toNat
    · simp only [← he, List.getElem?_concat_length, List.getElem?_set_self hlt,
        Option.some.injEq]
      split
      · rename_i hk
        simp [hk]
      · rename_i hk
        have hnone : m.get k ≠ some v := by
          rw [ne_eq, get_eq_some, ← he]
          simp
        simp only [hnone, iff_false, not_and]
        intro _ hgk
        exact hk (key_ext (by omega) hgk.symm)
    · have hk : k ≠ key := by
        rintro rfl
        exact he hi.symm
      simp only [hk, ↓reduceIte, get_eq_some, List.getElem?_set_ne he, concat_other he]

/-- Removing a key yields its entry and leaves every other one. -/
theorem remove_cases {m m' : SlotMap T} {k : SlotMapKey} {v : Option T}
    (h : (m.remove k : Outcome ε _) = .ok (v, m')) :
    v = m.get k ∧ m'.generations = m.generations ∧
      ((v = none ∧ m' = m) ∨ (m.values[k.index.toNat]? = some v ∧ v.isSome ∧
        m'.values = m.values.set k.index.toNat none ∧ m'.freeSlots = k.index :: m.freeSlots)) := by
  unfold remove at h
  split at h
  · cases h
  · rename_i g hg
    split at h
    · rename_i hne
      cases h
      refine ⟨?_, rfl, Or.inl ⟨rfl, rfl⟩⟩
      symm
      by_contra hc
      obtain ⟨v, hv⟩ := Option.ne_none_iff_exists'.mp hc
      have := (get_eq_some.mp hv).2
      rw [hg, Option.some.injEq] at this
      exact hne this
    · rename_i heq
      simp only [ne_eq, Decidable.not_not] at heq
      subst heq
      split at h
      · rename_i v hv
        cases h
        exact ⟨(get_eq_some.mpr ⟨hv, hg⟩).symm, rfl, Or.inr ⟨hv, rfl, rfl, rfl⟩⟩
      · rename_i hn
        cases h
        refine ⟨?_, rfl, Or.inl ⟨rfl, rfl⟩⟩
        symm
        by_contra hc
        obtain ⟨v, hv⟩ := Option.ne_none_iff_exists'.mp hc
        exact hn v (get_eq_some.mp hv).1

theorem remove_healthy {m m' : SlotMap T} {k : SlotMapKey} {v : Option T} (healthy : Healthy m)
    (h : (m.remove k : Outcome ε _) = .ok (v, m')) : Healthy m' := by
  obtain ⟨_, hgen, ⟨_, rfl⟩ | ⟨hv, hsome, hvalues, hfree⟩⟩ := remove_cases h
  · exact healthy
  · obtain ⟨w, rfl⟩ := Option.isSome_iff_exists.mp hsome
    have hlt := (List.getElem?_eq_some_iff.mp hv).1
    refine ⟨?_, ?_, ?_⟩
    · rw [hvalues, hgen, List.length_set]
      exact healthy.covered
    · rw [hfree, List.nodup_cons]
      refine ⟨?_, healthy.free_nodup⟩
      intro hm
      rw [healthy.free_empty _ hm] at hv
      cases hv
    · intro s hs
      rw [hvalues]
      by_cases he : k.index.toNat = s.toNat
      · rw [← he, List.getElem?_set_self hlt]
      · rw [List.getElem?_set_ne he]
        rw [hfree] at hs
        rcases List.mem_cons.mp hs with rfl | hs
        · exact absurd rfl he
        · exact healthy.free_empty s hs

theorem get_remove {m m' : SlotMap T} {k k' : SlotMapKey} {v : Option T}
    (h : (m.remove k : Outcome ε _) = .ok (v, m')) :
    m'.get k' = if k' = k then none else m.get k' := by
  obtain ⟨hget, hgen, ⟨rfl, rfl⟩ | ⟨hv, hsome, hvalues, _⟩⟩ := remove_cases h
  · split
    · rename_i he
      rw [he, ← hget]
    · rfl
  · have hlt := (List.getElem?_eq_some_iff.mp hv).1
    obtain ⟨w, rfl⟩ := Option.isSome_iff_exists.mp hsome
    apply Option.ext
    intro x
    rw [get_eq_some, hvalues, hgen]
    by_cases he : k.index.toNat = k'.index.toNat
    · rw [← he, List.getElem?_set_self hlt]
      split
      · simp
      · rename_i hk
        simp only [Option.some.injEq, reduceCtorEq, false_and, false_iff]
        intro hx
        have hx := (get_eq_some.mp hx).2
        have hkg := (get_eq_some.mp hget.symm).2
        rw [← he, hkg, Option.some.injEq] at hx
        exact hk (key_ext he.symm hx.symm)
    · have hk : k' ≠ k := by
        rintro rfl
        exact he rfl
      simp only [hk, ↓reduceIte, List.getElem?_set_ne he, get_eq_some]

theorem clear_healthy {m : SlotMap T} : Healthy m.clear := ⟨by simp [clear], by simp [clear],
  by simp [clear]⟩

@[simp] theorem get_clear {m : SlotMap T} {k : SlotMapKey} : m.clear.get k = none := by
  simp [get, clear]

/-- One visited slot: an empty one stays empty, a value is updated or dropped. -/
inductive Visited (Q : T → T × Bool → Prop) : Option T → Option T → Prop where
  | empty : Visited Q none none
  | kept (v w : T) (h : Q v (w, false)) : Visited Q (some v) (some w)
  | dropped (v w : T) (h : Q v (w, true)) : Visited Q (some v) none

theorem retain_loop_ok {Q : T → T × Bool → Prop} {func : T → Act σ ε (T × Bool)}
    (hQ : ∀ v s r t, func v s = (.ok r, t) → Q v r) {i : Nat} {values values' : List (Option T)}
    {freed : List U32} {s t : σ}
    (h : retainLoop func i values s = (.ok (values', freed), t)) :
    List.Forall₂ (Visited Q) values values' ∧
      freed.Pairwise (fun a b => i + values.length ≤ 2 ^ 32 → a.toNat < b.toNat) ∧
      ∀ f ∈ freed, ∃ j, values'[j]? = some none ∧ (∃ v, values[j]? = some (some v)) ∧
        f = BitVec.ofNat 32 (i + j) := by
  induction values generalizing i values' freed s t with
  | nil =>
    simp only [retainLoop, Act.pure_apply, Prod.mk.injEq, Outcome.ok.injEq] at h
    obtain ⟨⟨rfl, rfl⟩, rfl⟩ := h
    simp
  | cons o rest ih =>
    -- The slots after this one are the same list, one index later.
    have later {values' : List (Option T)} {freed : List U32} {w : Option T}
        (hf : ∀ f ∈ freed, ∃ j, values'[j]? = some none ∧ (∃ v, rest[j]? = some (some v)) ∧
          f = BitVec.ofNat 32 (i + 1 + j)) :
        ∀ f ∈ freed, ∃ j, (w :: values')[j]? = some none ∧
          (∃ v, (o :: rest)[j]? = some (some v)) ∧ f = BitVec.ofNat 32 (i + j) := by
      intro f hm
      obtain ⟨j, h1, h2, h3⟩ := hf f hm
      exact ⟨j + 1, by simpa using h1, by simpa using h2, by rw [h3]; congr 1; omega⟩
    have lengths {l : List U32}
        (hp : l.Pairwise (fun a b => i + 1 + rest.length ≤ 2 ^ 32 → a.toNat < b.toNat)) :
        l.Pairwise (fun a b => i + (o :: rest).length ≤ 2 ^ 32 → a.toNat < b.toNat) :=
      hp.imp (fun hab hl => hab (by rw [List.length_cons] at hl; omega))
    cases o with
    | none =>
      rcases hr : retainLoop func (i + 1) rest s with ⟨r, u⟩
      simp only [retainLoop, Act.bind_apply, hr] at h
      cases r with
      | err e => cases h
      | panic => cases h
      | ok r =>
        obtain ⟨vs, fs⟩ := r
        simp only [Act.pure_apply, Prod.mk.injEq, Outcome.ok.injEq] at h
        obtain ⟨⟨rfl, rfl⟩, rfl⟩ := h
        obtain ⟨h1, h2, h3⟩ := ih hr
        exact ⟨.cons .empty h1, lengths h2, later h3⟩
    | some v =>
      rcases hv : func v s with ⟨r, s1⟩
      cases r with
      | err e => simp [retainLoop, Act.bind_apply, hv] at h
      | panic => simp [retainLoop, Act.bind_apply, hv] at h
      | ok r =>
        obtain ⟨w, drop⟩ := r
        rcases hr : retainLoop func (i + 1) rest s1 with ⟨r, u⟩
        simp only [retainLoop, Act.bind_apply, hv, hr] at h
        cases r with
        | err e => cases h
        | panic => cases h
        | ok r =>
          obtain ⟨vs, fs⟩ := r
          obtain ⟨h1, h2, h3⟩ := ih hr
          have hq := hQ v s _ _ hv
          cases drop with
          | false =>
            simp only [Bool.false_eq_true, ↓reduceIte, Act.pure_apply, Prod.mk.injEq,
              Outcome.ok.injEq] at h
            obtain ⟨⟨rfl, rfl⟩, rfl⟩ := h
            exact ⟨.cons (.kept v w hq) h1, lengths h2, later h3⟩
          | true =>
            simp only [↓reduceIte, Act.pure_apply, Prod.mk.injEq, Outcome.ok.injEq] at h
            obtain ⟨⟨rfl, rfl⟩, rfl⟩ := h
            refine ⟨.cons (.dropped v w hq) h1, List.pairwise_cons.mpr ⟨?_, lengths h2⟩, ?_⟩
            · intro f hf hl
              obtain ⟨j, _, ⟨x, hx⟩, rfl⟩ := h3 f hf
              have hj := (List.getElem?_eq_some_iff.mp hx).1
              rw [List.length_cons] at hl
              rw [index_of_fits (by omega), index_of_fits (by omega)]
              omega
            · intro f hf
              rcases List.mem_cons.mp hf with rfl | hf
              · exact ⟨0, by simp, ⟨v, by simp⟩, by simp⟩
              · exact later h3 f hf

/-- What the visits do to the state is a sequence of what single visits do. -/
theorem retain_loop_moves {R : σ → σ → Prop} {func : T → Act σ ε (T × Bool)} {i : Nat}
    {values : List (Option T)} {s : σ}
    (hR : ∀ v, some v ∈ values → ∀ s, Relation.ReflTransGen R s (func v s).2) :
    Relation.ReflTransGen R s (retainLoop func i values s).2 := by
  induction values generalizing i s with
  | nil => exact .refl
  | cons o rest ih =>
    have hrest := fun i s => ih (i := i) (s := s) (fun v hv => hR v (List.mem_cons_of_mem _ hv))
    cases o with
    | none =>
      rw [retainLoop]
      exact Act.bind_moves (hrest _ _) (fun _ _ => .refl)
    | some v =>
      rw [retainLoop]
      refine Act.bind_moves (hR v (by simp) s) (fun r _ => ?_)
      refine Act.bind_moves (hrest _ _) (fun q _ => ?_)
      obtain ⟨w, drop⟩ := r
      cases drop <;> exact .refl

theorem retain_generations {func : T → Act σ ε (T × Bool)}
    {m m' : SlotMap T} {s t : σ}
    (h : m.retainIf func s = (.ok m', t)) : m'.generations = m.generations := by
  unfold retainIf at h
  rw [Act.bind_apply] at h
  split at h
  · cases h
    rfl
  · cases h
  · cases h

/-- The kept entries of a visited map are updates of the entries under the same keys. -/
theorem retain_cases {Q : T → T × Bool → Prop} {func : T → Act σ ε (T × Bool)}
    (hQ : ∀ v s r t, func v s = (.ok r, t) → Q v r) {m m' : SlotMap T} {s t : σ}
    (healthy : Healthy m) (fits : Fits m) (h : m.retainIf func s = (.ok m', t)) :
    Healthy m' ∧ m'.generations = m.generations ∧
      ∀ k, Visited Q (m.get k) (m'.get k) := by
  rcases hr : retainLoop func 0 m.values s with ⟨r, u⟩
  simp only [retainIf, Act.bind_apply, hr] at h
  cases r with
  | err e => cases h
  | panic => cases h
  | ok r =>
    obtain ⟨values, freed⟩ := r
    simp only [Act.pure_apply, Prod.mk.injEq, Outcome.ok.injEq] at h
    obtain ⟨rfl, rfl⟩ := h
    obtain ⟨hvis, hpair, hfreed⟩ := retain_loop_ok hQ hr
    have hlen := hvis.length_eq
    have hcov := healthy.covered
    unfold Fits at fits
    have index {j : Nat} {v : T} (hj : m.values[j]? = some (some v)) :
        (BitVec.ofNat 32 (0 + j)).toNat = j := by
      have := (List.getElem?_eq_some_iff.mp hj).1
      rw [Nat.zero_add]
      exact index_of_fits (by omega)
    refine ⟨⟨?_, ?_, ?_⟩, rfl, ?_⟩
    · rw [← hlen]
      exact hcov
    · rw [List.nodup_append]
      refine ⟨List.nodup_reverse.mpr ?_, healthy.free_nodup, ?_⟩
      · refine hpair.imp (fun hab he => ?_)
        have := hab (by omega)
        rw [he] at this
        omega
      · intro a ha b hb he
        obtain ⟨j, _, ⟨v, hv⟩, rfl⟩ := hfreed a (List.mem_reverse.mp ha)
        have hempty := healthy.free_empty b hb
        rw [← he, index hv, hv] at hempty
        cases hempty
    · intro f hf
      rcases List.mem_append.mp hf with hf | hf
      · obtain ⟨j, hj, ⟨v, hv⟩, rfl⟩ := hfreed f (List.mem_reverse.mp hf)
        rw [index hv]
        exact hj
      · have hempty := healthy.free_empty f hf
        obtain ⟨hlt, he⟩ := List.getElem?_eq_some_iff.mp hempty
        have hlt' : f.toNat < values.length := by omega
        have hv := hvis.get hlt hlt'
        simp only [List.get_eq_getElem, he] at hv
        change values[f.toNat]? = some none
        rw [List.getElem?_eq_getElem hlt']
        generalize values[f.toNat] = w at hv
        cases hv
        rfl
    · intro k
      unfold get
      simp only
      by_cases hlt : k.index.toNat < m.values.length
      · have hlt' : k.index.toNat < values.length := by omega
        have hv := hvis.get hlt hlt'
        have hw : values[k.index.toNat]? = some values[k.index.toNat] :=
          List.getElem?_eq_getElem hlt'
        simp only [List.get_eq_getElem] at hv
        rw [List.getElem?_eq_getElem hlt, hw]
        generalize values[k.index.toNat] = w at hv
        generalize m.values[k.index.toNat] = v at hv
        cases hv with
        | empty => exact .empty
        | kept v w h =>
          simp only
          split
          · exact .kept v w h
          · exact .empty
        | dropped v w h =>
          simp only
          split
          · exact .dropped v w h
          · exact .empty
      · have hw : values[k.index.toNat]? = none := List.getElem?_eq_none (by omega)
        rw [List.getElem?_eq_none (by omega), hw]
        exact .empty

theorem mem_add {m m' : SlotMap T} {value : SlotMapKey → Option T} {key : SlotMapKey} {x : Option T}
    (h : (m.add value : Outcome ε _) = .ok (key, m')) (hx : x ∈ m'.values) :
    x = value key ∨ x ∈ m.values := by
  rcases add_cases h with ⟨_, _, _, _, _, _, rfl⟩ | ⟨_, _, _, rfl⟩ | ⟨_, _, _, _, _, rfl⟩
  · exact (List.mem_or_eq_of_mem_set hx).symm
  · simpa [or_comm] using hx
  · simpa [or_comm] using hx

theorem mem_remove {m m' : SlotMap T} {k : SlotMapKey} {v : Option T} {x : T}
    (h : (m.remove k : Outcome ε _) = .ok (v, m')) (hx : some x ∈ m'.values) :
    some x ∈ m.values := by
  rcases remove_cases h with ⟨_, _, ⟨_, rfl⟩ | ⟨_, _, hvalues, _⟩⟩
  · exact hx
  · rw [hvalues] at hx
    rcases List.mem_or_eq_of_mem_set hx with hx | hx
    · exact hx
    · cases hx

/-- A value that was visited and kept is an update of a value from before. -/
theorem mem_retain {Q : T → T × Bool → Prop} {func : T → Act σ ε (T × Bool)}
    (hQ : ∀ v s r t, func v s = (.ok r, t) → Q v r) {m m' : SlotMap T} {s t : σ} {w : T}
    (h : m.retainIf func s = (.ok m', t)) (hw : some w ∈ m'.values) :
    ∃ v, some v ∈ m.values ∧ Q v (w, false) := by
  rcases hr : retainLoop func 0 m.values s with ⟨r, u⟩
  simp only [retainIf, Act.bind_apply, hr] at h
  cases r with
  | err e => cases h
  | panic => cases h
  | ok r =>
    obtain ⟨values, freed⟩ := r
    simp only [Act.pure_apply, Prod.mk.injEq, Outcome.ok.injEq] at h
    obtain ⟨rfl, _⟩ := h
    obtain ⟨i, hi, hw⟩ := List.mem_iff_getElem.mp hw
    have hvis := (retain_loop_ok hQ hr).1
    have hlt : i < m.values.length := by rw [hvis.length_eq]; exact hi
    have hv := hvis.get hlt hi
    simp only [List.get_eq_getElem, hw] at hv
    generalize hold : m.values[i] = old at hv
    cases hv with
    | kept v w hq => exact ⟨v, hold ▸ List.getElem_mem hlt, hq⟩

end Theta.SlotMap
