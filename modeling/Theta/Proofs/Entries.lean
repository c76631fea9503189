import Theta.Lib.Steps
import Theta.Proofs.Joiner

namespace Theta
open Lib

/-- An entry counts its missing segments, and at least one of them is missing. -/
structure PacketSegments.Sound (entry : PacketSegments) : Prop where
  counted : entry.nonFilled = entry.segments.countP Option.isNone
  unfinished : 0 < entry.nonFilled

namespace PacketSegmentJoiner

/-- Every entry of the map is sound. -/
def Sound (j : PacketSegmentJoiner) : Prop := ∀ e ∈ j.map, e.2.Sound

/-- The entry of a message of which nothing has arrived. -/
def emptyEntry (metadata : PacketSegmentMetadata) : PacketSegments :=
  ⟨List.replicate metadata.segmentCount none, metadata.segmentCount⟩

/-- A joiner that has come through additions that all returned. -/
inductive Reached : PacketSegmentJoiner → Prop where
  | new (capacity : Nat) : Reached { capacity := capacity }
  | add (j : PacketSegmentJoiner) (metadata : PacketSegmentMetadata) (payload : Bytes)
      (popFirst : Bool) (before : Reached j)
      (h : (add metadata payload popFirst j).1 ≠ .panic) :
      Reached (add metadata payload popFirst j).2

section
variable {j j' : PacketSegmentJoiner} {key other : U32} {segments : PacketSegments}
  {metadata : PacketSegmentMetadata} {payload : Bytes} {pop : Bool}

theorem get_entry_mem (h : j.getEntry key = some segments) : (key, segments) ∈ j.map := by
  obtain ⟨before, after, he, _⟩ := List.lookup_eq_some_iff.mp h
  simp [he]

theorem get_remove_entry (j : PacketSegmentJoiner) (key : U32) :
    (j.removeEntry key).getEntry key = none := by
  rw [getEntry, List.lookup_eq_none_iff]
  intro e he
  simp only [removeEntry, List.mem_filter, bne_iff_ne, ne_eq] at he
  simpa using fun heq => he.2 heq.symm

theorem lookup_filter_other (map : List (U32 × PacketSegments)) (hne : other ≠ key) :
    (map.filter (fun e => e.1 != key)).lookup other = map.lookup other := by
  induction map with
  | nil => rfl
  | cons e rest ih =>
    obtain ⟨k, segments⟩ := e
    by_cases hk : k = key
    · subst hk
      have hdiffers : (other == k) = false := by simpa using hne
      simp [ih, List.lookup_cons, hdiffers]
    · simp [hk, ih, List.lookup_cons]

theorem get_remove_other (j : PacketSegmentJoiner) (hne : other ≠ key) :
    (j.removeEntry key).getEntry other = j.getEntry other := lookup_filter_other j.map hne

theorem get_set_other (j : PacketSegmentJoiner) (segments : PacketSegments) (hne : other ≠ key) :
    (j.setEntry key segments).getEntry other = j.getEntry other := by
  have hdiffers : (other == key) = false := by simpa using hne
  rw [getEntry, setEntry, List.lookup_cons, hdiffers]
  exact lookup_filter_other j.map hne

theorem Sound.set_entry (h : j.Sound) (sound : segments.Sound) : (j.setEntry key segments).Sound := by
  intro e he
  rcases List.mem_cons.mp he with rfl | he
  · exact sound
  · exact h e (List.mem_of_mem_filter he)

theorem Sound.remove_entry (h : j.Sound) : (j.removeEntry key).Sound :=
  fun e he => h e (List.mem_of_mem_filter he)

theorem Sound.pop_first (h : j.Sound) : j.popFirst.Sound := fun e he => h e (List.mem_of_mem_tail he)

theorem empty_entry_sound (metadata : PacketSegmentMetadata) (h : 0 < metadata.segmentCount) : (emptyEntry metadata).Sound := by
  refine ⟨?_, h⟩
  simp [emptyEntry, List.countP_replicate]

/-- How the entry of a segment is found. -/
theorem entry_cases (j : PacketSegmentJoiner) (metadata : PacketSegmentMetadata) (pop : Bool) :
    (∃ segments, j.getEntry metadata.segmentKey = some segments ∧
      j.entry metadata pop = .ok (segments, j)) ∨
    (j.getEntry metadata.segmentKey = none ∧ j.capacity = j.map.length ∧ pop = false ∧
      j.entry metadata pop = .err .capacityReached) ∨
    (j.getEntry metadata.segmentKey = none ∧ ∃ j',
      ((j.capacity = j.map.length ∧ j' = j.popFirst) ∨ (j.capacity ≠ j.map.length ∧ j' = j)) ∧
      j.entry metadata pop = .ok (emptyEntry metadata,
        j'.setEntry metadata.segmentKey (emptyEntry metadata))) := by
  unfold entry
  cases hget : j.getEntry metadata.segmentKey with
  | some segments => exact Or.inl ⟨segments, rfl, rfl⟩
  | none =>
    right
    dsimp only
    by_cases hfull : j.capacity = j.map.length
    · cases pop with
      | false => exact Or.inl ⟨rfl, hfull, rfl, by rw [if_pos hfull]; rfl⟩
      | true => exact Or.inr ⟨rfl, _, Or.inl ⟨hfull, rfl⟩, by rw [if_pos hfull]; rfl⟩
    · exact Or.inr ⟨rfl, j, Or.inr ⟨hfull, rfl⟩, by rw [if_neg hfull]; rfl⟩

/-- Filling the missing segments one by one makes the entry full when it counts none. -/
theorem filled_entry (payload : Bytes) (sound : segments.Sound) {i : Nat}
    (hole : segments.segments[i]? = some none) :
    (segments.segments.set i (some payload)).countP Option.isNone + 1 = segments.nonFilled := by
  obtain ⟨hlt, hget⟩ := List.getElem?_eq_some_iff.mp hole
  have hpos := sound.unfinished
  rw [List.countP_set hlt, hget, sound.counted]
  rw [sound.counted] at hpos
  simp only [Option.isNone_none, Option.isNone_some, ↓reduceIte, Bool.false_eq_true, Nat.add_zero]
  omega

theorem full_entry {all : List (Option Bytes)} (h : all.countP Option.isNone = 0) :
    ∃ parts, all.mapM id = some parts := by
  refine ⟨all.filterMap id, ?_⟩
  rw [List.countP_eq_zero] at h
  induction all with
  | nil => rfl
  | cons part rest ih =>
    obtain ⟨hpart, hrest⟩ := List.forall_mem_cons.mp h
    cases part with
    | none => simp at hpart
    | some part => simp [ih hrest]

/-- What becomes of a segment, once its entry is found. -/
theorem fill_cases (j : PacketSegmentJoiner) (metadata : PacketSegmentMetadata) (payload : Bytes)
    (sound : segments.Sound) :
    (metadata.segmentCount ≠ segments.segments.length ∧
      j.fill metadata payload segments = .err .segmentMetadataMalformed) ∨
    (metadata.segmentCount = segments.segments.length ∧
      metadata.segmentCount ≤ metadata.segment ∧
      j.fill metadata payload segments = .panic) ∨
    (metadata.segmentCount = segments.segments.length ∧ metadata.segment < metadata.segmentCount ∧
      ((∃ part, segments.segments[metadata.segment]? = some (some part) ∧
          j.fill metadata payload segments = .err .segmentRepeated) ∨
        (segments.segments[metadata.segment]? = some none ∧ segments.nonFilled = 1 ∧
          ∃ parts, j.fill metadata payload segments =
            .ok (some parts, j.removeEntry metadata.segmentKey)) ∨
        (segments.segments[metadata.segment]? = some none ∧ segments.nonFilled ≠ 1 ∧
          ∃ segments', segments'.Sound ∧ j.fill metadata payload segments =
            .ok (none, j.setEntry metadata.segmentKey segments')))) := by
  unfold fill
  by_cases hcount : metadata.segmentCount = segments.segments.length
  · right
    rw [if_neg (fun hne => hne hcount)]
    cases hslot : segments.segments[metadata.segment]? with
    | none =>
      have hle := List.getElem?_eq_none_iff.mp hslot
      exact Or.inl ⟨hcount, by omega, rfl⟩
    | some slot =>
      have hlt := (List.getElem?_eq_some_iff.mp hslot).1
      refine Or.inr ⟨hcount, by omega, ?_⟩
      cases slot with
      | some part => exact Or.inl ⟨part, rfl, rfl⟩
      | none =>
        have hpos := sound.unfinished
        have hfilled := filled_entry payload sound hslot
        right
        dsimp only
        rw [if_neg (by omega)]
        by_cases hlast : segments.nonFilled = 1
        · have hfull : (segments.segments.set metadata.segment (some payload)).countP
              Option.isNone = 0 := by omega
          obtain ⟨parts, hparts⟩ := full_entry hfull
          left
          refine ⟨rfl, hlast, parts, ?_⟩
          rw [if_pos (by omega), hparts]
          rfl
        · right
          refine ⟨rfl, hlast, ⟨segments.segments.set metadata.segment (some payload),
            segments.nonFilled - 1⟩, ⟨?_, ?_⟩, if_neg (by omega)⟩
          · dsimp only
            omega
          · dsimp only
            omega
  · exact Or.inl ⟨hcount, if_pos hcount⟩

theorem add_of_entry (h : j.entry metadata pop = .ok (segments, j')) :
    add metadata payload pop j =
      match j'.fill metadata payload segments with
      | .ok (full, j'') => (.ok full, j'')
      | .err e => (.err e, j')
      | .panic => (.panic, j') := by
  simp only [add, Act.bind_apply, Act.get_apply, Act.lift_apply, h, Act.modify_apply]
  cases j'.fill metadata payload segments <;> rfl

/-- An index that is not below the count panics on a new entry. -/
theorem fill_empty_late (late : metadata.segmentCount ≤ metadata.segment) :
    j.fill metadata payload (emptyEntry metadata) = .panic := by
  have hslot : (emptyEntry metadata).segments[metadata.segment]? = none := by
    rw [List.getElem?_eq_none]
    simpa [emptyEntry] using late
  have hcount : ¬ metadata.segmentCount ≠ (emptyEntry metadata).segments.length := by
    simp [emptyEntry]
  rw [fill, if_neg hcount, hslot]

/-- An addition that returns leaves a sound joiner. -/
theorem add_sound (h : j.Sound) (hret : (add metadata payload pop j).1 ≠ .panic) :
    (add metadata payload pop j).2.Sound := by
  have filled {j' : PacketSegmentJoiner} {segments : PacketSegments}
      (he : j.entry metadata pop = .ok (segments, j'))
      (h' : j'.Sound) (sound : segments.Sound) : (add metadata payload pop j).2.Sound := by
    rw [add_of_entry he]
    rcases fill_cases j' metadata payload sound with
      ⟨_, hf⟩ | ⟨_, _, hf⟩ | ⟨_, _, ⟨_, _, hf⟩ | ⟨_, _, _, hf⟩ | ⟨_, _, _, sound', hf⟩⟩
    · rw [hf]
      exact h'
    · rw [hf]
      exact h'
    · rw [hf]
      exact h'
    · rw [hf]
      exact h'.remove_entry
    · rw [hf]
      exact h'.set_entry sound'
  rcases entry_cases j metadata pop with ⟨segments, hget, he⟩ | ⟨_, _, _, he⟩ | ⟨_, j', hj', he⟩
  · exact filled he h (h _ (get_entry_mem hget))
  · simpa [add, Act.bind_apply, he] using h
  · have h' : j'.Sound := by
      rcases hj' with ⟨_, rfl⟩ | ⟨_, rfl⟩
      · exact h.pop_first
      · exact h
    by_cases late : metadata.segmentCount ≤ metadata.segment
    · rw [add_of_entry he, fill_empty_late late] at hret
      exact absurd rfl hret
    · have sound := empty_entry_sound metadata (by omega)
      exact filled he (h'.set_entry sound) sound

theorem Reached.sound (h : Reached j) : j.Sound := by
  induction h with
  | new => exact fun e he => absurd he List.not_mem_nil
  | add j metadata payload pop before h ih => exact add_sound ih h

/-- Metadata with an index that is not below the count is rejected exactly when an entry with
another count is there to reject it. -/
theorem add_rejects_iff (h : Reached j) (metadata : PacketSegmentMetadata) (payload : Bytes)
    (pop : Bool) :
    ((add metadata payload pop j).1 ≠ .panic ∧
      (metadata.segmentCount ≤ metadata.segment →
        add metadata payload pop j = (.err .segmentMetadataMalformed, j))) ↔
    (metadata.segment < metadata.segmentCount ∨
      ∃ segments, j.getEntry metadata.segmentKey = some segments ∧
        segments.segments.length ≠ metadata.segmentCount) := by
  have sound := h.sound
  rcases entry_cases j metadata pop with ⟨segments, hget, he⟩ | ⟨hnone, _, _, he⟩ |
    ⟨hnone, j', _, he⟩
  · rw [hget]
    simp only [Option.some.injEq, exists_eq_left']
    rw [add_of_entry he]
    rcases fill_cases j metadata payload
      (sound _ (get_entry_mem hget)) with
      ⟨hcount, hf⟩ | ⟨hcount, hlate, hf⟩ | ⟨_, hlt, hrest⟩
    · rw [hf]
      exact iff_of_true ⟨by simp, fun _ => rfl⟩ (Or.inr (Ne.symm hcount))
    · rw [hf]
      refine iff_of_false (fun hh => hh.1 rfl) ?_
      rintro (hlt | hne)
      · omega
      · exact hne hcount.symm
    · refine iff_of_true ⟨?_, fun hlate => absurd hlt (by omega)⟩ (Or.inl hlt)
      rcases hrest with ⟨_, _, hf⟩ | ⟨_, _, _, hf⟩ | ⟨_, _, _, _, hf⟩ <;> rw [hf] <;> simp
  · have hadd : add metadata payload pop j = (.err .capacityReached, j) := by
      simp only [add, Act.bind_apply, Act.get_apply, Act.lift_apply, he]
    rw [hadd, hnone]
    by_cases hlt : metadata.segment < metadata.segmentCount
    · exact iff_of_true ⟨by simp, fun hlate => absurd hlt (Nat.not_lt_of_le hlate)⟩ (Or.inl hlt)
    · refine iff_of_false (fun hh => ?_) (by simp [hlt])
      have hmalformed := hh.2 (Nat.le_of_not_lt hlt)
      cases hmalformed
  · rw [hnone, add_of_entry he]
    by_cases hlt : metadata.segment < metadata.segmentCount
    · refine iff_of_true ⟨?_, fun hlate => absurd hlt (by omega)⟩ (Or.inl hlt)
      have sound' := empty_entry_sound metadata (by omega)
      rcases fill_cases (j'.setEntry metadata.segmentKey (emptyEntry metadata)) metadata payload
        sound' with
        ⟨_, hf⟩ | ⟨_, hlate, _⟩ | ⟨_, _, ⟨_, _, hf⟩ | ⟨_, _, _, hf⟩ | ⟨_, _, _, _, hf⟩⟩
      · rw [hf]
        simp
      · omega
      · rw [hf]
        simp
      · rw [hf]
        simp
      · rw [hf]
        simp
    · rw [fill_empty_late (by omega)]
      exact iff_of_false (fun hh => hh.1 rfl) (by simp [hlt])

/-- A datagram's first segment with an index that is not below its count stops the connection. -/
theorem add_out_of_range :
    PacketSegmentMetadata.decode [0, 1, 0] = .ok (⟨0, 1, 1⟩, []) ∧
      (add ⟨0, 1, 1⟩ [] true {}).1 = .panic := by
  decide

theorem add_rejects_other_count :
    ((add ⟨0, 9, 2⟩ [] true ⟨[(0, ⟨[none, some [7], none], 2⟩)], 0⟩).1 ≠ .panic ∧
      (2 ≤ 9 → add ⟨0, 9, 2⟩ [] true ⟨[(0, ⟨[none, some [7], none], 2⟩)], 0⟩ =
        (.err .segmentMetadataMalformed, ⟨[(0, ⟨[none, some [7], none], 2⟩)], 0⟩))) ↔
    (9 < 2 ∨ ∃ segments, (⟨[(0, ⟨[none, some [7], none], 2⟩)], 0⟩ : PacketSegmentJoiner).getEntry 0 =
      some segments ∧ segments.segments.length ≠ 2) :=
  add_rejects_iff (.add _ ⟨0, 1, 3⟩ [7] true (.new 0) (by decide)) ⟨0, 9, 2⟩ [] true

end

end PacketSegmentJoiner

end Theta
