import Theta.Proofs.Crowding

namespace Theta.PacketSegmentJoiner
open Lib

/-- What arrives at a joiner: a segment of the message of a key, or one that announces another
number of segments for it. -/
inductive Delivery where
  | part (key : U32) (i : Nat)
  | stray (metadata : PacketSegmentMetadata) (payload : Bytes)
  deriving DecidableEq, Repr

section
variable (messages : U32 → List Bytes)

/-- The segment as it is given to the joiner. -/
def Delivery.segment : Delivery → PacketSegmentMetadata × Bytes
  | .part key i => (⟨key, i, (messages key).length⟩, (messages key).getD i [])
  | .stray metadata payload => (metadata, payload)

/-- The segments of each message that have arrived, once this one has. -/
def arrive (arrived : U32 → Finset ℕ) : Delivery → U32 → Finset ℕ
  | .part key i, other => if other = key then insert i (arrived key) else arrived other
  | .stray _ _, other => arrived other

/-- All segments of the key's message have arrived. -/
def Complete (arrived : U32 → Finset ℕ) (key : U32) : Prop :=
  (arrived key).card = (messages key).length

instance (arrived : U32 → Finset ℕ) (key : U32) : Decidable (Complete messages arrived key) :=
  inferInstanceAs (Decidable (_ = _))

/-- A segment may arrive, for the first time or again, until its message is complete; a stray one
between the first segment and the completion of its key's message. -/
def Allowed (arrived : U32 → Finset ℕ) : Delivery → Prop
  | .part key i => i < (messages key).length ∧ ¬ Complete messages arrived key
  | .stray metadata _ => arrived metadata.segmentKey ≠ ∅ ∧
      ¬ Complete messages arrived metadata.segmentKey ∧
      metadata.segmentCount ≠ (messages metadata.segmentKey).length

/-- What `add` has to answer, and the joiner it has to leave where it is an error. -/
def Answers (arrived : U32 → Finset ℕ) (j : PacketSegmentJoiner)
    (result : Outcome PacketSegmentJoinerError (Option (List Bytes)) × PacketSegmentJoiner) :
    Delivery → Prop
  | .part key i =>
    if i ∈ arrived key then result = (.err .segmentRepeated, j)
    else if (arrived key).card + 1 = (messages key).length then
      result.1 = .ok (some (messages key))
    else result.1 = .ok none
  | .stray _ _ => result = (.err .segmentMetadataMalformed, j)

/-- Deliveries one after the other, each of which is allowed when it arrives. -/
def Interleaves : List Delivery → (U32 → Finset ℕ) → Prop
  | [], _ => True
  | delivery :: rest, arrived =>
    Allowed messages arrived delivery ∧ Interleaves rest (arrive arrived delivery)

/-- Every one of the deliveries is answered as it has to be. -/
def Reassembles : List Delivery → (U32 → Finset ℕ) → PacketSegmentJoiner → Prop
  | [], _, _ => True
  | delivery :: rest, arrived, j =>
    let segment := delivery.segment messages
    Answers messages arrived j (add segment.1 segment.2 true j) delivery ∧
      Reassembles rest (arrive arrived delivery) (add segment.1 segment.2 true j).2

/-- The joiner holds, for each message, the segments that have arrived until it is complete. -/
structure Holds (arrived : U32 → Finset ℕ) (j : PacketSegmentJoiner) : Prop where
  unlimited : j.capacity = 0
  within : ∀ key, arrived key ⊆ Finset.range (messages key).length
  gathers : ∀ key, j.Gathers key (messages key)
    (if Complete messages arrived key then ∅ else arrived key)

end

section
variable {messages : U32 → List Bytes} {arrived : U32 → Finset ℕ} {j : PacketSegmentJoiner}

/-- Without capacity no entry is ever given up for another key's. -/
theorem add_other {metadata : PacketSegmentMetadata} {payload : Bytes} {other : U32}
    (unlimited : j.capacity = 0) (hne : other ≠ metadata.segmentKey) :
    (add metadata payload true j).2.getEntry other = j.getEntry other := by
  have ends {j' : PacketSegmentJoiner} {segments : PacketSegments}
      (he : j.entry metadata true = .ok (segments, j'))
      (h : j'.getEntry other = j.getEntry other) :
      (add metadata payload true j).2.getEntry other = j.getEntry other := by
    rcases add_ends payload he with hend | hend | ⟨_, hend⟩
    · rw [hend, h]
    · rw [hend, get_remove_other j' hne, h]
    · rw [hend, get_set_other j' _ hne, h]
  rcases entry_cases j metadata true with ⟨_, _, he⟩ | ⟨_, _, hpop, _⟩ | ⟨_, j', hj', he⟩
  · exact ends he rfl
  · cases hpop
  · have hsame : j' = j := by
      rcases hj' with ⟨hfull, rfl⟩ | ⟨_, rfl⟩
      · have hnil : j.map = [] := List.length_eq_zero_iff.mp (hfull.symm.trans unlimited)
        obtain ⟨map, capacity⟩ := j
        cases hnil
        rfl
      · rfl
    subst hsame
    exact ends he (get_set_other j' _ hne)

/-- The entry of a message that has begun and is not complete. -/
theorem Holds.entry {key : U32} (h : Holds messages arrived j) (begun : arrived key ≠ ∅)
    (unfinished : ¬ Complete messages arrived key) (segment count : Nat) :
    j.entry ⟨key, segment, count⟩ true =
      .ok (⟨placed (messages key) (arrived key),
        (messages key).length - (arrived key).card⟩, j) := by
  have hget := h.gathers key
  rw [if_neg unfinished, Gathers, if_neg begun] at hget
  rw [PacketSegmentJoiner.entry, hget]

/-- A segment that was there before is refused. -/
theorem add_repeated {key : U32} {i : Nat} {part : Bytes} (h : Holds messages arrived j)
    (unfinished : ¬ Complete messages arrived key) (hi : (messages key)[i]? = some part)
    (again : i ∈ arrived key) :
    add ⟨key, i, (messages key).length⟩ part true j = (.err .segmentRepeated, j) := by
  have begun : arrived key ≠ ∅ := Finset.ne_empty_of_mem again
  rw [add_of_entry (h.entry begun unfinished i _), fill, placed_length, if_neg (by simp),
    placed_get hi, if_pos again]

/-- A segment that announces another number of segments is refused. -/
theorem add_stray {metadata : PacketSegmentMetadata} (payload : Bytes)
    (h : Holds messages arrived j) (begun : arrived metadata.segmentKey ≠ ∅)
    (unfinished : ¬ Complete messages arrived metadata.segmentKey)
    (stray : metadata.segmentCount ≠ (messages metadata.segmentKey).length) :
    add metadata payload true j = (.err .segmentMetadataMalformed, j) := by
  rw [add_of_entry (h.entry begun unfinished metadata.segment metadata.segmentCount), fill,
    placed_length, if_pos stray]

/-- After a new segment the other messages are as they were. -/
theorem Holds.arrives {key : U32} {i : Nat} {part : Bytes} (h : Holds messages arrived j)
    (hi : i < (messages key).length)
    (own : (add ⟨key, i, (messages key).length⟩ part true j).2.Gathers key (messages key)
      (if (insert i (arrived key)).card = (messages key).length then ∅
        else insert i (arrived key))) :
    Holds messages (arrive arrived (.part key i))
      (add ⟨key, i, (messages key).length⟩ part true j).2 := by
  refine ⟨?_, fun other => ?_, fun other => ?_⟩
  · rw [add_capacity]
    exact h.unlimited
  · by_cases hother : other = key
    · subst hother
      rw [arrive, if_pos rfl]
      exact Finset.insert_subset (Finset.mem_range.mpr hi) (h.within other)
    · rw [arrive, if_neg hother]
      exact h.within other
  · by_cases hother : other = key
    · subst hother
      simp only [Complete, arrive, ↓reduceIte]
      exact own
    · have hgathers := h.gathers other
      simp only [Complete, arrive, if_neg hother] at hgathers ⊢
      rw [Gathers, add_other h.unlimited hother]
      exact hgathers

/-- Each allowed delivery is answered as it has to be, and leaves a joiner that holds what has
arrived. -/
theorem Holds.deliver {delivery : Delivery} (h : Holds messages arrived j)
    (allowed : Allowed messages arrived delivery) :
    Answers messages arrived j
        (add (delivery.segment messages).1 (delivery.segment messages).2 true j) delivery ∧
      Holds messages (arrive arrived delivery)
        (add (delivery.segment messages).1 (delivery.segment messages).2 true j).2 := by
  cases delivery with
  | part key i =>
    obtain ⟨hlt, unfinished⟩ := allowed
    have hi : (messages key)[i]? = some ((messages key).getD i []) := by
      rw [List.getElem?_eq_getElem hlt, List.getD_eq_getElem _ _ hlt]
    have hgathers := h.gathers key
    rw [if_neg unfinished] at hgathers
    rw [Delivery.segment]
    dsimp only
    by_cases again : i ∈ arrived key
    · rw [add_repeated h unfinished hi again, Answers, if_pos again]
      have same : arrive arrived (.part key i) = arrived := by
        funext other
        by_cases hother : other = key
        · subst hother
          rw [arrive, if_pos rfl, Finset.insert_eq_of_mem again]
        · rw [arrive, if_neg hother]
      rw [same]
      exact ⟨rfl, h⟩
    have hcard := Finset.card_insert_of_notMem again
    rw [Answers, if_neg again]
    by_cases last : (arrived key).card + 1 = (messages key).length
    · obtain ⟨j', hadd⟩ := add_removes hgathers (h.within key) hi again last
      rw [if_pos last]
      refine ⟨by rw [hadd], h.arrives hlt ?_⟩
      rw [hadd, if_pos (by rw [hcard, last]), Gathers, if_pos rfl]
      exact get_remove_entry j' key
    · have more : (arrived key).card + 1 < (messages key).length := by
        have hmissing := card_lt_of_missing (h.within key) hlt again
        omega
      obtain ⟨j', hadd, hkeeps⟩ := add_keeps hgathers hi again more
      rw [if_neg last]
      refine ⟨by rw [hadd], h.arrives hlt ?_⟩
      rw [hadd, if_neg (by rw [hcard]; exact last)]
      exact hkeeps
  | stray metadata payload =>
    obtain ⟨begun, unfinished, stray⟩ := allowed
    have hadd := add_stray payload h begun unfinished stray
    refine ⟨hadd, ?_⟩
    show Holds messages arrived (add metadata payload true j).2
    rw [hadd]
    exact h

theorem Holds.reassembles {deliveries : List Delivery} (h : Holds messages arrived j)
    (interleaved : Interleaves messages deliveries arrived) :
    Reassembles messages deliveries arrived j := by
  induction deliveries generalizing arrived j with
  | nil => trivial
  | cons delivery rest ih =>
    obtain ⟨allowed, later⟩ := interleaved
    obtain ⟨answered, holds⟩ := h.deliver allowed
    exact ⟨answered, ih holds later⟩

/-- From a new joiner, any interleaving of the segments of any messages reassembles each message
with its last missing segment, whatever repeats and stray segments come between. -/
theorem interleaving_reassembles (messages : U32 → List Bytes) (deliveries : List Delivery)
    (interleaved : Interleaves messages deliveries (fun _ => ∅)) :
    Reassembles messages deliveries (fun _ => ∅) {} := by
  refine Holds.reassembles ⟨rfl, fun key => Finset.empty_subset _, fun key => ?_⟩ interleaved
  rw [ite_self, Gathers, if_pos rfl]
  rfl

/-- Two messages of two segments each, crossed, with a repeat and a stray segment. -/
theorem interleaving_reassembles_crossed :
    Reassembles (fun key => if key = 0 then [[1], [2]] else if key = 1 then [[3], [4]] else [])
      [.part 0 1, .part 1 0, .part 0 1, .stray ⟨1, 5, 3⟩ [9], .part 0 0, .part 1 1]
      (fun _ => ∅) {} :=
  interleaving_reassembles _ _ (by simp [Interleaves, Allowed, Complete, arrive])

end

end Theta.PacketSegmentJoiner
