import Theta.Lib.Collector
import Theta.Net.Segment

namespace Theta.PacketSegmentJoiner
open Lib

/-- The joiner holds the segments of the key that have arrived. -/
def Gathers (j : PacketSegmentJoiner) (key : U32) (parts : List Bytes) (s : Finset ℕ) : Prop :=
  j.getEntry key = if s = ∅ then none else some ⟨placed parts s, parts.length - s.card⟩

theorem get_set_entry (j : PacketSegmentJoiner) (key : U32) (segments : PacketSegments) :
    (j.setEntry key segments).getEntry key = some segments := by
  simp [getEntry, setEntry]

section
variable {j : PacketSegmentJoiner} {key : U32} {parts : List Bytes} {s : Finset ℕ} {i : ℕ}
  {part : Bytes}

/-- The entry of a key is found or made, with what has arrived. -/
theorem entry_gathers (h : j.Gathers key parts s) (segment : Nat) :
    ∃ j', j.entry ⟨key, segment, parts.length⟩ true =
      .ok (⟨placed parts s, parts.length - s.card⟩, j') := by
  unfold entry
  rw [h]
  by_cases hs : s = ∅
  · subst hs
    simp only [↓reduceIte, placed_empty, Finset.card_empty, Nat.sub_zero]
    split
    · exact ⟨_, rfl⟩
    · exact ⟨_, rfl⟩
  · rw [if_neg hs]
    exact ⟨j, rfl⟩

theorem card_lt_of_missing (hs : s ⊆ Finset.range parts.length) (hi : i < parts.length)
    (hnew : i ∉ s) : s.card < parts.length := by
  have hsub : insert i s ⊆ Finset.range parts.length :=
    Finset.insert_subset (Finset.mem_range.mpr hi) hs
  have hcard := Finset.card_le_card hsub
  rw [Finset.card_insert_of_notMem hnew, Finset.card_range] at hcard
  omega

/-- A segment that is new and not the last one missing is kept. -/
theorem add_keeps (h : j.Gathers key parts s)
    (hi : parts[i]? = some part) (hnew : i ∉ s) (hmore : s.card + 1 < parts.length) :
    ∃ j', add ⟨key, i, parts.length⟩ part true j = (.ok none, j') ∧
      j'.Gathers key parts (insert i s) := by
  obtain ⟨j1, hentry⟩ := entry_gathers h i
  have hleft : parts.length - s.card ≠ 0 := by omega
  have hleft' : parts.length - s.card - 1 ≠ 0 := by omega
  refine ⟨j1.setEntry key ⟨placed parts (insert i s), parts.length - s.card - 1⟩, ?_, ?_⟩
  · simp only [add, Act.bind_apply, Act.get_apply, Act.lift_apply, hentry, Act.modify_apply, fill,
      placed_length, ne_eq, not_true_eq_false, ↓reduceIte, placed_get hi, hnew, hleft, hleft',
      placed_insert hi, Act.pure_apply]
  · rw [Gathers, get_set_entry, if_neg (Finset.insert_ne_empty i s),
      Finset.card_insert_of_notMem hnew, Nat.sub_sub]

/-- The last missing segment completes the packet, and its entry is gone. -/
theorem add_removes (h : j.Gathers key parts s) (hs : s ⊆ Finset.range parts.length)
    (hi : parts[i]? = some part) (hnew : i ∉ s) (hlast : s.card + 1 = parts.length) :
    ∃ j' : PacketSegmentJoiner,
      add ⟨key, i, parts.length⟩ part true j = (.ok (some parts), j'.removeEntry key) := by
  obtain ⟨j1, hentry⟩ := entry_gathers h i
  have hlt := (List.getElem?_eq_some_iff.mp hi).1
  have hleft : parts.length - s.card ≠ 0 := by omega
  have hleft' : parts.length - s.card - 1 = 0 := by omega
  have hall : placed parts (insert i s) = parts.map some := by
    refine placed_all (Finset.insert_subset (Finset.mem_range.mpr hlt) hs) ?_
    rw [Finset.card_insert_of_notMem hnew, hlast]
  refine ⟨j1, ?_⟩
  simp only [add, Act.bind_apply, Act.get_apply, Act.lift_apply, hentry, Act.modify_apply, fill,
    placed_length, ne_eq, not_true_eq_false, ↓reduceIte, placed_get hi, hnew, hleft, hleft',
    placed_insert hi, hall, all_filled, Outcome.ofOption, Outcome.ok_bind, Act.pure_apply]

/-- The last missing segment completes the packet. -/
theorem add_completes (h : j.Gathers key parts s) (hs : s ⊆ Finset.range parts.length)
    (hi : parts[i]? = some part) (hnew : i ∉ s) (hlast : s.card + 1 = parts.length) :
    (add ⟨key, i, parts.length⟩ part true j).1 = .ok (some parts) := by
  obtain ⟨j', hadd⟩ := add_removes h hs hi hnew hlast
  rw [hadd]

end

end Theta.PacketSegmentJoiner
