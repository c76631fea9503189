import Theta.Lib.Steps
import Theta.Proofs.Places

namespace Theta
open Lib

/-- The arguments of an insertion; a channel id is at most the null id. -/
structure Placement where
  localId : U32
  globalId : U32
  name : String
  valid : localId ≤ nullChannelId
  deriving DecidableEq

namespace ConnectionIdMapperInner

def place (m : ConnectionIdMapperInner) (p : Placement) : Option ConnectionIdMapperInner :=
  m.insert p.localId p.globalId p.name

/-- In the transfer stage each of the two maps inverts the other. -/
def Inverse (m : ConnectionIdMapperInner) : Prop :=
  ∀ l g, m.localId .transfer g = some l ↔ m.globalId .transfer l = some g

/-- What the documentation of `insert` says of the list: an earlier occurrence of the global id is
taken out, and the id is put at its place. -/
def placed (list : List U32) (p : Placement) : List U32 :=
  let rest := list.filter (fun g => g ≠ p.globalId)
  rest.take p.localId.toNat ++ p.globalId :: rest.drop p.localId.toNat

/-- An insertion does what its documentation says. -/
structure Documented (m : ConnectionIdMapperInner) (p : Placement) (m' : ConnectionIdMapperInner) :
    Prop where
  list : m'.localIdToGlobalId = placed m.localIdToGlobalId p
  inverse : m'.Inverse

/-- A new global id is put at the end, and not under the null id. -/
def Appends (m : ConnectionIdMapperInner) (p : Placement) : Prop :=
  p.localId.toNat = m.localIdToGlobalId.length ∧ p.localId ≠ nullChannelId ∧
    p.globalId ∉ m.localIdToGlobalId

instance (m : ConnectionIdMapperInner) (p : Placement) : Decidable (m.Appends p) :=
  inferInstanceAs (Decidable (_ ∧ _ ∧ _))

section
variable {m m' : ConnectionIdMapperInner} {p : Placement}

/-- An accepted insertion, part by part. -/
theorem insert_parts {l g : U32} {name : String} (h : m.insert l g name = some m') :
    l.toNat ≤ m.localIdToGlobalId.length ∧
      m'.localIdToGlobalId = m.localIdToGlobalId.insertIdx l.toNat g ∧
      (∀ other, m'.localId .transfer other =
        if other = g then nonNull l else m.localId .transfer other) ∧
      m'.ackChannelId = (if name = ackChannelName then l else shift l m.ackChannelId) ∧
      m'.channelManagementChannelId = (if name = channelManagementChannelName then l
        else shift l m.channelManagementChannelId) := by
  unfold insert at h
  split at h
  · cases h
  rename_i hle
  cases h
  refine ⟨Nat.le_of_not_lt hle, rfl, fun other => ?_, rfl, rfl⟩
  simp only [localId, List.getElem?_set, resize_length, resize_get]
  by_cases hg : other = g
  · subst hg
    rw [if_pos rfl, if_pos (by omega), if_pos rfl, Option.filter_some, nonNull]
    by_cases hnull : l = nullChannelId
    · simp [hnull]
    · simp [hnull]
  · have hne : ¬ g.toNat = other.toNat := fun he => hg (BitVec.eq_of_toNat_eq he).symm
    rw [if_neg hne, if_neg hg]
    by_cases hin : other.toNat < m.globalIdToLocalId.length
    · rw [if_pos hin]
    · rw [if_neg hin, List.getElem?_eq_none (Nat.le_of_not_lt hin)]
      split <;> simp [Option.filter_some]

theorem placed_length (list : List U32) (p : Placement) :
    (placed list p).length = (list.filter (fun g => g ≠ p.globalId)).length + 1 := by
  have hsplit := congrArg List.length
    (List.take_append_drop p.localId.toNat (list.filter (fun g => g ≠ p.globalId)))
  rw [List.length_append] at hsplit
  simp only [placed, List.length_append, List.length_cons]
  omega

/-- The list can only be as documented when the global id is new. -/
theorem placed_new {list : List U32} (hle : p.localId.toNat ≤ list.length)
    (h : list.insertIdx p.localId.toNat p.globalId = placed list p) : p.globalId ∉ list := by
  have hlength := congrArg List.length h
  rw [List.length_insertIdx_of_le_length hle, placed_length, Nat.add_right_cancel_iff] at hlength
  have hall := List.length_filter_eq_length_iff.mp hlength.symm
  intro hmem
  simpa using hall _ hmem

/-- From inverse maps, an accepted insertion does what is documented exactly when it appends. -/
theorem documented_iff (hm : m.Inverse) (h : m.place p = some m') :
    Documented m p m' ↔ m.Appends p := by
  obtain ⟨hle, hlist, hlocal, _, _⟩ := insert_parts h
  constructor
  · rintro ⟨list, inverse⟩
    have new : p.globalId ∉ m.localIdToGlobalId := placed_new hle (hlist.symm.trans list)
    have hhere : m'.globalId .transfer p.localId = some p.globalId := by
      rw [globalId, hlist, List.getElem?_insertIdx, if_neg (Nat.lt_irrefl _), if_pos rfl, if_pos hle]
    have hnull : p.localId ≠ nullChannelId := by
      intro he
      have hget := (inverse _ _).mpr hhere
      rw [hlocal, if_pos rfl, nonNull, if_pos he] at hget
      cases hget
    refine ⟨?_, hnull, new⟩
    by_contra hne
    have hlt : p.localId.toNat < m.localIdToGlobalId.length := by omega
    -- the id that was at the place still points there
    have hother : m.globalId .transfer p.localId = some m.localIdToGlobalId[p.localId.toNat] :=
      List.getElem?_eq_getElem hlt
    have hdiffers : m.localIdToGlobalId[p.localId.toNat] ≠ p.globalId :=
      fun he => new (he ▸ List.getElem_mem hlt)
    have hstale := (hm _ _).mpr hother
    have hget := hlocal m.localIdToGlobalId[p.localId.toNat]
    rw [if_neg hdiffers, hstale] at hget
    have hback := (inverse _ _).mp hget
    rw [hhere] at hback
    exact hdiffers (Option.some.inj hback).symm
  · rintro ⟨hlast, hnull, new⟩
    have hfilter : m.localIdToGlobalId.filter (fun g => g ≠ p.globalId) = m.localIdToGlobalId := by
      rw [List.filter_eq_self]
      intro g hg
      rw [decide_eq_true_eq]
      rintro rfl
      exact new hg
    have hend : m'.localIdToGlobalId = m.localIdToGlobalId ++ [p.globalId] := by
      rw [hlist, hlast, List.insertIdx_length_self]
    refine ⟨?_, fun l g => ?_⟩
    · rw [hend, placed, hfilter, hlast, List.take_length, List.drop_length]
    · rw [hlocal, globalId, hend]
      have before := hm l g
      rw [globalId] at before
      by_cases hg : g = p.globalId
      · subst hg
        rw [if_pos rfl, nonNull, if_neg hnull, Option.some.injEq]
        have hnone : m.localIdToGlobalId[l.toNat]? ≠ some p.globalId :=
          fun he => new (List.mem_of_getElem? he)
        rcases Nat.lt_trichotomy l.toNat m.localIdToGlobalId.length with hl | hl | hl
        · rw [List.getElem?_append_left hl]
          refine ⟨fun he => ?_, fun he => absurd he hnone⟩
          rw [he] at hlast
          omega
        · rw [List.getElem?_append_right (Nat.le_of_eq hl.symm), hl, Nat.sub_self]
          refine ⟨fun _ => rfl, fun _ => BitVec.eq_of_toNat_eq (hlast.trans hl.symm)⟩
        · rw [List.getElem?_eq_none (by simp; omega)]
          refine ⟨fun he => ?_, fun he => by cases he⟩
          rw [he] at hlast
          omega
      · rw [if_neg hg, before]
        rcases Nat.lt_or_ge l.toNat m.localIdToGlobalId.length with hl | hl
        · rw [List.getElem?_append_left hl]
        · rw [List.getElem?_append_right hl, List.getElem?_eq_none hl, List.getElem?_singleton]
          split
          · simp [Ne.symm hg]
          · rfl

end

theorem inverse_default : Inverse {} := by
  intro l g
  simp [localId, globalId]

/-- Along a sequence of insertions the maps are kept as documented exactly when every accepted one
appends a new global id. -/
theorem insertions_documented_iff (placements : List Placement) :
    AtEach place Documented placements {} ↔
      AtEach place (fun m p _ => m.Appends p) placements {} := by
  refine at_each_iff (I := Inverse) (fun m p m' hm h => ?_) inverse_default
  exact ⟨documented_iff hm h, fun documented => documented.inverse⟩

/-- An insertion before another channel leaves that channel's id where it was, and a repeated
global id is in the list twice. -/
theorem insertions_undocumented :
    ¬ AtEach place Documented [⟨0, 5, "chat", by decide⟩, ⟨0, 6, "move", by decide⟩] {} ∧
      ¬ AtEach place Documented [⟨0, 5, "chat", by decide⟩, ⟨1, 5, "chat", by decide⟩] {} := by
  constructor
  · rintro ⟨_, ⟨_, inverse⟩, _⟩
    have hstale := inverse 0 5
    revert hstale
    decide
  · rintro ⟨_, ⟨list, _⟩, _⟩
    revert list
    decide

end ConnectionIdMapperInner

/-- A map together with the global ids that were inserted under the built-in names. -/
structure Named extends ConnectionIdMapperInner where
  ackGlobalId : Option U32 := none
  managementGlobalId : Option U32 := none

namespace Named
open ConnectionIdMapperInner

def place (s : Named) (p : Placement) : Option Named :=
  (s.toConnectionIdMapperInner.place p).map fun m => { m with
    ackGlobalId := if p.name = ackChannelName then some p.globalId else s.ackGlobalId
    managementGlobalId :=
      if p.name = channelManagementChannelName then some p.globalId else s.managementGlobalId }

/-- A cached local id, if there is one, stands for the global id that was inserted under its
name. -/
def Resolves (list : List U32) (cached : U32) (named : Option U32) : Prop :=
  ∀ l, nonNull cached = some l → named.isSome ∧ list[l.toNat]? = named

/-- What the cached ids promise. -/
structure Cached (s : Named) : Prop where
  ack : ∀ l, s.ackChannelId? = some l →
    s.ackGlobalId.isSome ∧ s.globalId .transfer l = s.ackGlobalId
  management : ∀ l, s.channelManagementChannelId? = some l →
    s.managementGlobalId.isSome ∧ s.globalId .transfer l = s.managementGlobalId

/-- The insertion takes the very place of a cached id, for another name and global id. -/
def displaces (s : Named) (p : Placement) (name : String) (cached : Option U32) : Bool :=
  p.name ≠ name && cached = some p.localId && s.globalId .transfer p.localId ≠ some p.globalId

/-- The insertion displaces neither built-in channel. -/
def spares (s : Named) (p : Placement) : Bool :=
  !s.displaces p ackChannelName s.ackChannelId? &&
    !s.displaces p channelManagementChannelName s.channelManagementChannelId?

theorem shift_valid {l c : U32} (hc : c ≤ nullChannelId) : shift l c ≤ nullChannelId := by
  have hnull : nullChannelId.toNat = 2 ^ 31 := rfl
  unfold shift
  split
  · rename_i h
    have hne : c.toNat ≠ nullChannelId.toNat := fun he => h.1 (BitVec.eq_of_toNat_eq he)
    rw [BitVec.le_def] at hc ⊢
    have hone : (1 : U32).toNat = 1 := rfl
    rw [BitVec.toNat_add, hone]
    omega
  · exact hc

/-- The shift follows the list, unless the insertion takes the very place of the cached id. -/
theorem shift_resolves_iff {list : List U32} {c l g : U32} {named : Option U32}
    (hc : c ≤ nullChannelId) (hle : l.toNat ≤ list.length) (h : Resolves list c named) :
    Resolves (list.insertIdx l.toNat g) (shift l c) named ↔
      ¬ (nonNull c = some l ∧ list[l.toNat]? ≠ some g) := by
  have hnull : nullChannelId.toNat = 2 ^ 31 := rfl
  have hone : (1 : U32).toNat = 1 := rfl
  by_cases hcn : c = nullChannelId
  · have hnone : nonNull c = none := if_pos hcn
    have hshift : shift l c = c := if_neg (fun hh => hh.1 hcn)
    simp [Resolves, hshift, hnone]
  have hcached : nonNull c = some c := if_neg hcn
  obtain ⟨hsome, hget⟩ := h c hcached
  have hne : c.toNat ≠ nullChannelId.toNat := fun he => hcn (BitVec.eq_of_toNat_eq he)
  rw [BitVec.le_def] at hc
  rw [hcached]
  by_cases hgt : c > l
  · have hshift : shift l c = c + 1 := if_pos ⟨hcn, hgt⟩
    have hlt : l.toNat < c.toNat := hgt
    have hnext : (c + 1).toNat = c.toNat + 1 := by
      rw [BitVec.toNat_add, hone]
      omega
    have hdiffers : ¬ some c = some l := by
      rintro he
      cases he
      exact Nat.lt_irrefl _ hlt
    simp only [hdiffers, false_and, not_false_eq_true, iff_true, Resolves, hshift]
    intro x hx
    unfold nonNull at hx
    split at hx
    · cases hx
    · cases hx
      refine ⟨hsome, ?_⟩
      rw [hnext, List.getElem?_insertIdx, if_neg (by omega), if_neg (by omega)]
      exact hget
  have hshift : shift l c = c := if_neg (fun hh => hgt hh.2)
  simp only [Resolves, hshift, hcached, Option.some.injEq, forall_eq', List.getElem?_insertIdx]
  by_cases heq : c = l
  · subst heq
    rw [if_neg (Nat.lt_irrefl _), if_pos rfl, if_pos hle, hget]
    simp [hsome, eq_comm]
  · have hlt : c.toNat < l.toNat := by
      have hle : c.toNat ≤ l.toNat := Nat.le_of_not_lt hgt
      have hne : c.toNat ≠ l.toNat := fun he => heq (BitVec.eq_of_toNat_eq he)
      omega
    rw [if_pos hlt]
    simp [heq, hsome, hget]

/-- One built-in channel through an accepted insertion. -/
theorem cached_iff {list : List U32} {c : U32} {named : Option U32} (p : Placement)
    (builtin : String) (hc : c ≤ nullChannelId) (hle : p.localId.toNat ≤ list.length)
    (h : Resolves list c named) :
    Resolves (list.insertIdx p.localId.toNat p.globalId)
        (if p.name = builtin then p.localId else shift p.localId c)
        (if p.name = builtin then some p.globalId else named) ↔
      ¬ (p.name ≠ builtin ∧ nonNull c = some p.localId ∧
        list[p.localId.toNat]? ≠ some p.globalId) := by
  by_cases hname : p.name = builtin
  · rw [if_pos hname, if_pos hname]
    refine iff_of_true (fun x hx => ?_) (fun hh => hh.1 hname)
    unfold nonNull at hx
    split at hx
    · cases hx
    · cases hx
      refine ⟨rfl, ?_⟩
      rw [List.getElem?_insertIdx, if_neg (Nat.lt_irrefl _), if_pos rfl, if_pos hle]
  · rw [if_neg hname, if_neg hname, shift_resolves_iff hc hle h]
    simp only [ne_eq, hname, not_false_eq_true, true_and]

/-- From cached ids that are right, an accepted insertion leaves them right exactly when it spares
both of them. -/
theorem cached_place_iff {s t : Named} {p : Placement} (hs : s.Cached)
    (hack : s.ackChannelId ≤ nullChannelId)
    (hmanagement : s.channelManagementChannelId ≤ nullChannelId) (h : s.place p = some t) :
    t.Cached ↔ s.spares p = true := by
  obtain ⟨m, hplace, rfl⟩ := Option.map_eq_some_iff.mp h
  obtain ⟨hle, hlist, _, hackId, hmanagementId⟩ := insert_parts hplace
  have ack := cached_iff p ackChannelName hack hle hs.ack
  have management := cached_iff p channelManagementChannelName hmanagement hle
    hs.management
  rw [← hlist, ← hackId] at ack
  rw [← hlist, ← hmanagementId] at management
  have spared (name : String) (cached : Option U32) : s.displaces p name cached = false ↔
      ¬ (p.name ≠ name ∧ cached = some p.localId ∧
        s.localIdToGlobalId[p.localId.toNat]? ≠ some p.globalId) := by
    rw [← Bool.not_eq_true, not_iff_not, displaces, Bool.and_eq_true, Bool.and_eq_true,
      decide_eq_true_eq, decide_eq_true_eq, decide_eq_true_eq, and_assoc]
    exact Iff.rfl
  rw [spares, Bool.and_eq_true, Bool.not_eq_true', Bool.not_eq_true', spared, spared]
  constructor
  · intro cached
    exact ⟨ack.mp cached.ack, management.mp cached.management⟩
  · rintro ⟨hack, hmanagement⟩
    exact ⟨ack.mpr hack, management.mpr hmanagement⟩

/-- Along a sequence of insertions the cached ids stand for what was inserted under their names
exactly when every accepted insertion spares both of them. -/
theorem insertions_cached_iff (placements : List Placement) :
    AtEach place (fun _ _ s => s.Cached) placements {} ↔
      AtEach place (fun s p _ => s.spares p = true) placements {} := by
  refine at_each_iff (I := fun s => s.Cached ∧ s.ackChannelId ≤ nullChannelId ∧
    s.channelManagementChannelId ≤ nullChannelId) (fun s p t hs h => ?_) ?_
  · refine ⟨cached_place_iff hs.1 hs.2.1 hs.2.2 h, fun cached => ⟨cached, ?_⟩⟩
    obtain ⟨m, hplace, rfl⟩ := Option.map_eq_some_iff.mp h
    obtain ⟨_, _, _, hackId, hmanagementId⟩ := insert_parts hplace
    constructor
    · show m.ackChannelId ≤ nullChannelId
      rw [hackId]
      split
      · exact p.valid
      · exact shift_valid hs.2.1
    · show m.channelManagementChannelId ≤ nullChannelId
      rw [hmanagementId]
      split
      · exact p.valid
      · exact shift_valid hs.2.2
  · refine ⟨⟨fun l hl => ?_, fun l hl => ?_⟩, by decide, by decide⟩
    · cases hl
    · cases hl

/-- An insertion at the very place of the cached id moves the channel but not the cached id. -/
theorem insertions_displace :
    ¬ AtEach place (fun _ _ s => s.Cached)
      [⟨0, 0, ackChannelName, by decide⟩, ⟨0, 2, "chat", by decide⟩] {} := by
  rintro ⟨_, cached, _⟩
  have hack := cached.ack 0 (by decide)
  revert hack
  decide

end Named

end Theta
