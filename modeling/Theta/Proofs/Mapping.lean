import Mathlib.Data.List.Basic
import Theta.Proofs.Places

namespace Theta
open Lib

/-- A map into which these channels were entered in their order, each under the number of its
place. -/
inductive Entered : List (String × U32) → ConnectionIdMapperInner → Prop where
  | empty : Entered [] {}
  | enter (entries : List (String × U32)) (mapper mapper' : ConnectionIdMapperInner)
      (name : String) (id : U32) (before : Entered entries mapper)
      (insert : mapper.insert (BitVec.ofNat 32 entries.length) id name = some mapper') :
      Entered (entries ++ [(name, id)]) mapper'

/-- The place of a name, as a local id. -/
def numberOf (name : String) (names : List String) : U32 :=
  if name ∈ names then BitVec.ofNat 32 (names.idxOf name) else nullChannelId

/-- So few channels that their places differ from the ids of the registration stage. -/
def Few (entries : List (String × U32)) : Prop :=
  entries.length ≤ channelManagementChannelIdRegistrationStage.toNat

theorem place_to_nat {n : Nat} (h : n < channelManagementChannelIdRegistrationStage.toNat) :
    (BitVec.ofNat 32 n : U32).toNat = n := by
  have hreg : channelManagementChannelIdRegistrationStage.toNat = 2 ^ 31 - 2 := rfl
  rw [BitVec.toNat_ofNat, Nat.mod_eq_of_lt (by omega)]

theorem place_ne_null {n : Nat} (h : n < channelManagementChannelIdRegistrationStage.toNat) :
    (BitVec.ofNat 32 n : U32) ≠ nullChannelId := by
  intro he
  have hreg : channelManagementChannelIdRegistrationStage.toNat = 2 ^ 31 - 2 := rfl
  have hnull : nullChannelId.toNat = 2 ^ 31 := rfl
  have hn := place_to_nat h
  rw [he, hnull] at hn
  omega

section
variable {entries : List (String × U32)} {mapper mapper' : ConnectionIdMapperInner}
  {name : String} {id : U32}

theorem Few.of_append {more : List (String × U32)} (h : Few (entries ++ more)) : Few entries := by
  unfold Few at h ⊢
  rw [List.length_append] at h
  omega

theorem Few.length_lt (h : Few (entries ++ [(name, id)])) :
    entries.length < channelManagementChannelIdRegistrationStage.toNat := by
  unfold Few at h
  rw [List.length_append, List.length_singleton] at h
  omega

/-- What entering one more channel does to the parts of the map. -/
theorem insert_next {n : Nat} (h : mapper.insert (BitVec.ofNat 32 n) id name = some mapper')
    (hlen : mapper.localIdToGlobalId.length = n)
    (few : n < channelManagementChannelIdRegistrationStage.toNat) :
    mapper'.localIdToGlobalId = mapper.localIdToGlobalId ++ [id] ∧
      mapper'.globalIdToLocalId =
        (resize mapper.globalIdToLocalId (id.toNat + 1) nullChannelId).set id.toNat
          (BitVec.ofNat 32 n) ∧
      mapper'.ackChannelId = (if name = ackChannelName then BitVec.ofNat 32 n
        else ConnectionIdMapperInner.shift (BitVec.ofNat 32 n) mapper.ackChannelId) ∧
      mapper'.channelManagementChannelId = (if name = channelManagementChannelName then
        BitVec.ofNat 32 n
        else ConnectionIdMapperInner.shift (BitVec.ofNat 32 n) mapper.channelManagementChannelId) := by
  unfold ConnectionIdMapperInner.insert at h
  split at h
  · cases h
  · cases h
    refine ⟨?_, rfl, rfl, rfl⟩
    dsimp only
    rw [place_to_nat few, ← hlen]
    exact List.insertIdx_length_self

theorem entered_global_ids (h : Entered entries mapper) (few : Few entries) :
    mapper.localIdToGlobalId = entries.map Prod.snd := by
  induction h with
  | empty => rfl
  | enter entries mapper mapper' name id _ insert ih =>
    have hbefore := ih few.of_append
    have hlen : mapper.localIdToGlobalId.length = entries.length := by
      rw [hbefore, List.length_map]
    rw [(insert_next insert hlen few.length_lt).1, hbefore, List.map_append]
    rfl

/-- A local id stands for the channel at its place. -/
theorem entered_global_id (h : Entered entries mapper) (few : Few entries) {l g : U32} :
    mapper.globalId .transfer l = some g ↔ (entries[l.toNat]?.map Prod.snd) = some g := by
  simp only [ConnectionIdMapperInner.globalId, entered_global_ids h few, List.getElem?_map]

theorem entered_local_id (h : Entered entries mapper) (few : Few entries)
    (distinct : (entries.map Prod.snd).Nodup) {l g : U32} :
    mapper.localId .transfer g = some l ↔ (entries[l.toNat]?.map Prod.snd) = some g := by
  induction h generalizing l g with
  | empty => simp [ConnectionIdMapperInner.localId]
  | enter entries mapper mapper' name id before insert ih =>
    have hlt := few.length_lt
    have hlen : mapper.localIdToGlobalId.length = entries.length := by
      rw [entered_global_ids before few.of_append, List.length_map]
    rw [List.map_append, List.nodup_append] at distinct
    obtain ⟨hnodup, _, hnew⟩ := distinct
    have hid : id ∉ entries.map Prod.snd := fun hmem => hnew id hmem id (by simp) rfl
    have before := ih few.of_append hnodup (l := l) (g := g)
    simp only [ConnectionIdMapperInner.localId] at before ⊢
    rw [(insert_next insert hlen hlt).2.1, List.getElem?_set, resize_length, resize_get]
    have hplace : (entries ++ [(name, id)])[l.toNat]?.map Prod.snd = some g ↔
        (l.toNat = entries.length ∧ id = g) ∨ entries[l.toNat]?.map Prod.snd = some g := by
      rcases Nat.lt_trichotomy l.toNat entries.length with hl | hl | hl
      · rw [List.getElem?_append_left hl]
        simp only [Nat.ne_of_lt hl, false_and, false_or]
      · rw [List.getElem?_append_right (Nat.le_of_eq hl.symm), hl, Nat.sub_self,
          List.getElem?_eq_none (Nat.le_refl entries.length)]
        simp
      · rw [List.getElem?_eq_none (by simp; omega), List.getElem?_eq_none (by omega)]
        simp
        omega
    rw [hplace]
    by_cases hg : id.toNat = g.toNat
    · have hg : id = g := BitVec.eq_of_toNat_eq hg
      subst hg
      have hnone : entries[l.toNat]?.map Prod.snd ≠ some id := by
        intro he
        obtain ⟨e, hget, hsnd⟩ := Option.map_eq_some_iff.mp he
        exact hid (List.mem_map.mpr ⟨e, List.mem_of_getElem? hget, hsnd⟩)
      rw [if_pos rfl, if_pos (by omega), Option.filter_some]
      simp only [place_ne_null hlt, ne_eq, not_false_eq_true, decide_true, ↓reduceIte,
        Option.some.injEq, and_true, hnone, or_false]
      constructor
      · rintro rfl
        exact place_to_nat hlt
      · intro hl
        rw [← hl, BitVec.ofNat_toNat, BitVec.setWidth_eq]
    · have hne : id ≠ g := fun he => hg (congrArg BitVec.toNat he)
      rw [if_neg hg]
      simp only [hne, and_false, false_or]
      rw [← before]
      by_cases hin : g.toNat < mapper.globalIdToLocalId.length
      · rw [if_pos hin]
      · rw [if_neg hin, List.getElem?_eq_none (Nat.le_of_not_lt hin)]
        split <;> simp [Option.filter_some]

theorem shift_number {n : Nat} {names : List String} (hn : names.length ≤ n)
    (few : n < channelManagementChannelIdRegistrationStage.toNat) :
    ConnectionIdMapperInner.shift (BitVec.ofNat 32 n) (numberOf name names) =
      numberOf name names := by
  have hreg : channelManagementChannelIdRegistrationStage.toNat = 2 ^ 31 - 2 := rfl
  unfold ConnectionIdMapperInner.shift numberOf
  split
  · rename_i hmem
    have hlt := List.idxOf_lt_length_of_mem hmem
    rw [if_neg]
    rintro ⟨_, hgt⟩
    rw [gt_iff_lt, BitVec.lt_def, place_to_nat few, place_to_nat (by omega)] at hgt
    omega
  · simp

/-- The id that a built-in channel has in the map. -/
theorem number_enter {names : List String} {n : Nat} (hn : names.length = n) (new : name ∉ names)
    (few : n < channelManagementChannelIdRegistrationStage.toNat) (builtin : String) :
    (if name = builtin then BitVec.ofNat 32 n
      else ConnectionIdMapperInner.shift (BitVec.ofNat 32 n) (numberOf builtin names)) =
      numberOf builtin (names ++ [name]) := by
  by_cases he : name = builtin
  · subst he
    rw [if_pos rfl, numberOf, if_pos (by simp), List.idxOf_append_of_notMem new]
    simp [hn]
  · rw [if_neg he, shift_number (Nat.le_of_eq hn) few]
    unfold numberOf
    by_cases hmem : builtin ∈ names
    · rw [if_pos hmem, if_pos (by simp [hmem]), List.idxOf_append_of_mem hmem]
    · rw [if_neg hmem, if_neg (by simp [hmem, Ne.symm he])]

/-- The ids of the built-in channels are the places of their names. -/
theorem entered_builtins (h : Entered entries mapper) (few : Few entries)
    (distinct : (entries.map Prod.fst).Nodup) :
    mapper.ackChannelId = numberOf ackChannelName (entries.map Prod.fst) ∧
      mapper.channelManagementChannelId =
        numberOf channelManagementChannelName (entries.map Prod.fst) := by
  induction h with
  | empty => exact ⟨rfl, rfl⟩
  | enter entries mapper mapper' name id before insert ih =>
    have hlen : mapper.localIdToGlobalId.length = entries.length := by
      rw [entered_global_ids before few.of_append, List.length_map]
    rw [List.map_append, List.nodup_append] at distinct
    obtain ⟨hnodup, _, hnew⟩ := distinct
    have new : name ∉ entries.map Prod.fst := fun hmem => hnew name hmem name (by simp) rfl
    obtain ⟨hack, hmanagement⟩ := ih few.of_append hnodup
    obtain ⟨_, _, ha, hm⟩ := insert_next insert hlen few.length_lt
    rw [ha, hm, hack, hmanagement, List.map_append]
    exact ⟨number_enter (List.length_map _) new few.length_lt _,
      number_enter (List.length_map _) new few.length_lt _⟩

theorem number_toNat {names : List String} (few : names.length ≤
    channelManagementChannelIdRegistrationStage.toNat) (hmem : name ∈ names) :
    (numberOf name names).toNat = names.idxOf name := by
  have hlt := List.idxOf_lt_length_of_mem hmem
  rw [numberOf, if_pos hmem, place_to_nat (by omega)]

/-- The id of a built-in channel is the place of its name. -/
theorem number_get {names : List String} {l : U32} (few : names.length ≤
    channelManagementChannelIdRegistrationStage.toNat) (h : numberOf name names = l)
    (hl : l ≠ nullChannelId) : names[l.toNat]? = some name := by
  subst h
  by_cases hmem : name ∈ names
  · rw [number_toNat few hmem]
    exact List.getElem?_idxOf hmem
  · rw [numberOf, if_neg hmem] at hl
    exact absurd rfl hl

end

end Theta
