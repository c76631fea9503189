import Theta.Net.Ids

namespace Theta
open Lib

/-- Where the value of a channel is kept. -/
inductive Place where
  | ack
  | management
  | basic (index : Nat)
  deriving DecidableEq, Repr

def placeOf (state : ConnectionState) (id : U32) : Option Place :=
  match state with
  | .registration _ _ =>
    if id = ackChannelIdRegistrationStage then some .ack
    else if id = channelManagementChannelIdRegistrationStage then some .management
    else none
  | .transfer => some (.basic id.toNat)

theorem resize_get {v : List T} {len : Nat} {fill : T} (i : Nat) :
    (resize v len fill)[i]? =
      if i < v.length then v[i]? else if i < len then some fill else none := by
  unfold resize
  by_cases hi : i < v.length
  · rw [if_pos hi, List.getElem?_append_left hi]
  · rw [if_neg hi, List.getElem?_append_right (Nat.le_of_not_lt hi), List.getElem?_replicate]
    by_cases hl : i < len
    · rw [if_pos hl, if_pos (by omega)]
    · rw [if_neg hl, if_neg (by omega)]

theorem resize_length {v : List T} {len : Nat} {fill : T} :
    (resize v len fill).length = max v.length len := by
  unfold resize
  rw [List.length_append, List.length_replicate]
  omega

namespace ChannelData

def read (d : ChannelData T) : Place → Option T
  | .ack => some d.ackChannelRegistrationStage
  | .management => some d.channelManagementRegistrationStage
  | .basic i => d.basicStage[i]?

theorem get_eq {ε : Type} (d : ChannelData T) (state : ConnectionState) (id : U32) :
    (d.get state id : Outcome ε T) =
      match placeOf state id with
      | none => .panic
      | some place => Outcome.ofOption (d.read place) := by
  unfold get placeOf
  cases state with
  | registration received lastKey =>
    simp only
    split
    · rfl
    · split <;> rfl
  | transfer => rfl

theorem get_ok {ε : Type} {d : ChannelData T} {state : ConnectionState} {id : U32} {value : T} :
    (d.get state id : Outcome ε T) = .ok value ↔
      ∃ place, placeOf state id = some place ∧ d.read place = some value := by
  rw [get_eq]
  cases placeOf state id with
  | none => simp
  | some place =>
    simp only [Option.some.injEq, exists_eq_left']
    cases d.read place <;> simp [Outcome.ofOption]

theorem get_ends (ε : Type) (d : ChannelData T) (state : ConnectionState) (id : U32) :
    (d.get state id : Outcome ε T) = .panic ∨
      ∃ value, (d.get state id : Outcome ε T) = .ok value := by
  rw [get_eq]
  cases placeOf state id with
  | none => exact Or.inl rfl
  | some place =>
    simp only
    cases d.read place with
    | none => exact Or.inl rfl
    | some v => exact Or.inr ⟨v, rfl⟩

/-- A write changes the value at one place and nothing else. -/
theorem write_ok {ε : Type} {d d' : ChannelData T} {state : ConnectionState} {id : U32} {value : T}
    (h : (d.write state id value : Outcome ε _) = .ok d') :
    ∃ place, placeOf state id = some place ∧ (d.read place).isSome ∧
      ∀ other, d'.read other = if other = place then some value else d.read other := by
  unfold write at h
  unfold placeOf
  cases state with
  | registration received lastKey =>
    simp only at h ⊢
    split at h
    · cases h
      rename_i hid
      refine ⟨.ack, if_pos hid, rfl, fun other => ?_⟩
      cases other <;> rfl
    · rename_i hne
      split at h
      · cases h
        rename_i hid
        refine ⟨.management, by rw [if_neg hne, if_pos hid], rfl, fun other => ?_⟩
        cases other <;> rfl
      · cases h
  | transfer =>
    simp only at h ⊢
    split at h
    · rename_i hlt
      cases h
      refine ⟨.basic id.toNat, rfl, ?_, fun other => ?_⟩
      · simp [read, hlt]
      · cases other with
        | ack => rfl
        | management => rfl
        | basic i =>
          simp only [read, Place.basic.injEq, List.getElem?_set]
          by_cases hi : id.toNat = i
          · subst hi
            simp [hlt]
          · rw [if_neg hi, if_neg (fun h => hi h.symm)]
    · cases h

theorem write_other {ε : Type} {d d' : ChannelData T} {state : ConnectionState} {id : U32}
    {value : T} {place : Place} (other : placeOf state id ≠ some place)
    (h : (d.write state id value : Outcome ε _) = .ok d') : d'.read place = d.read place := by
  obtain ⟨own, hown, _, hread⟩ := write_ok h
  rw [hread, if_neg]
  rintro rfl
  exact other hown

theorem write_ends (ε : Type) (d : ChannelData T) (state : ConnectionState) (id : U32)
    (value : T) : (d.write state id value : Outcome ε _) = .panic ∨
      ∃ d', (d.write state id value : Outcome ε _) = .ok d' := by
  unfold write
  cases state with
  | registration received lastKey =>
    simp only
    split
    · exact Or.inr ⟨_, rfl⟩
    · split
      · exact Or.inr ⟨_, rfl⟩
      · exact Or.inl rfl
  | transfer =>
    simp only
    split
    · exact Or.inr ⟨_, rfl⟩
    · exact Or.inl rfl

theorem get_write {ε : Type} {d d' : ChannelData T} {state : ConnectionState} {id : U32} {value : T}
    (h : (d.write state id value : Outcome ε _) = .ok d') :
    (d'.get state id : Outcome ε _) = .ok value := by
  obtain ⟨place, hplace, _, hread⟩ := write_ok h
  exact get_ok.mpr ⟨place, hplace, by rw [hread, if_pos rfl]⟩

/-- What is read after a value was set in the transfer stage. -/
theorem set_transfer_read {d : ChannelData T} {fill value : T} {id : U32} (place : Place) :
    (d.setTransfer fill id value).read place =
      if place = .basic id.toNat then some value
      else match place with
        | .basic i =>
          if i < d.basicStage.length then d.basicStage[i]?
          else if i < id.toNat + 1 then some fill else none
        | _ => d.read place := by
  cases place with
  | ack => rfl
  | management => rfl
  | basic i =>
    simp only [read, setTransfer, Place.basic.injEq, List.getElem?_set, resize_length, resize_get]
    by_cases hi : id.toNat = i
    · subst hi
      rw [if_pos rfl, if_pos (by omega), if_pos rfl]
    · have hne : i ≠ id.toNat := fun h => hi h.symm
      simp only [hi, hne, ↓reduceIte]

theorem set_transfer_keeps {d : ChannelData T} {fill value v : T} {id : U32} {place : Place}
    (hne : place ≠ .basic id.toNat) (h : d.read place = some v) :
    (d.setTransfer fill id value).read place = some v := by
  rw [set_transfer_read, if_neg hne]
  cases place with
  | ack => exact h
  | management => exact h
  | basic i =>
    have hlt := (List.getElem?_eq_some_iff.mp h).1
    simp only
    rw [if_pos hlt]
    exact h

/-- What is in its slot can be written there. -/
theorem write_of_read (ε : Type) {d : ChannelData T} {id : U32} {v : T} (value : T)
    (h : d.read (.basic id.toNat) = some v) :
    ∃ d', (d.write .transfer id value : Outcome ε _) = .ok d' := by
  obtain ⟨hlt, _⟩ := List.getElem?_eq_some_iff.mp h
  simp only [write, if_pos hlt]
  exact ⟨_, rfl⟩

end ChannelData

end Theta
