import Theta.Proto

namespace Theta.VarInt
open Lib Base128

section
variable {w : Nat}

/-- What the decoder's loop shifts by, one turn after the other. -/
def shifts : Bytes → Nat → List Nat
  | [], _ => []
  | byte :: rest, shift =>
    if byte &&& 0b10000000 = 0 then [shift] else shift :: shifts rest (shift + 7)

theorem decode_loop_overflows_iff (bytes : Bytes) (this : BitVec w) (shift : Nat) :
    decodeLoop w bytes this shift = .panic ↔ ∃ s ∈ shifts bytes shift, w ≤ s := by
  induction bytes generalizing this shift with
  | nil => simp [decodeLoop, shifts]
  | cons byte rest ih =>
    rw [decodeLoop, shifts]
    by_cases late : w ≤ shift
    · rw [if_pos late]
      refine ⟨fun _ => ⟨shift, ?_, late⟩, fun _ => rfl⟩
      split <;> simp
    rw [if_neg late]
    by_cases last : byte &&& 0b10000000 = 0
    · simp [if_pos last, late]
    · simp [if_neg last, late, ih]

/-- A decoder that returns has not shifted too far. -/
theorem decode_shifts {bytes : Bytes} {result : BitVec w × Bytes}
    (h : decode w bytes = .ok result) : ∀ s ∈ shifts bytes 0, s < w := by
  intro s hs
  by_contra late
  have overflows := (decode_loop_overflows_iff bytes (0 : BitVec w) 0).mpr ⟨s, hs, by omega⟩
  rw [decode, overflows] at h
  cases h

end

namespace Ty
variable {ty : Ty}

theorem bits_bound (ty : Ty) : 7 < ty.bits := by cases ty <;> decide

/-- A number of the type comes back from its unsigned reinterpretation. -/
theorem reinterpreted {v : Int} (low : ty.min ≤ v) (high : v ≤ ty.max) :
    (if ty.signed then (BitVec.ofInt ty.bits v).toInt else (BitVec.ofInt ty.bits v).toNat) = v := by
  have hbits : 2 ^ ty.bits = 2 * (2 : Int) ^ (ty.bits - 1) := by
    rw [← pow_succ']
    congr 1
    have := bits_bound ty
    omega
  rw [min] at low
  rw [max] at high
  split
  · rename_i signed
    rw [if_pos signed] at low high
    rw [BitVec.toInt_ofInt]
    apply Int.bmod_eq_of_le
    · push_cast
      omega
    · push_cast
      omega
  · rename_i signed
    rw [if_neg signed] at low high
    rw [BitVec.toNat_ofInt]
    push_cast
    rw [Int.emod_eq_of_lt low (by omega)]
    exact Int.toNat_of_nonneg low

theorem of_unsigned (v : ty.Value) : ofUnsigned (unsigned v) = v :=
  Subtype.ext (reinterpreted v.property.1 v.property.2)

theorem decode_encode (v : ty.Value) (r : Bytes) : ty.decode (encode v ++ r) = .ok (v, r) := by
  have hbits := bits_bound ty
  simp only [decode, encode, VarInt.decode_encode (by omega : 7 ≤ ty.bits)]
  simp [of_unsigned]

/-- Numbers of any of the types, each after the other. -/
def encodeAll (vs : List (Σ ty : Ty, ty.Value)) : Bytes := vs.flatMap fun v => encode v.2

/-- Reads a number of each type. -/
def decodeAll : List Ty → Bytes → Outcome Unit (List (Σ ty : Ty, ty.Value) × Bytes)
  | [], bytes => .ok ([], bytes)
  | ty :: tys, bytes => do
    let (v, bytes) ← ty.decode bytes
    let (vs, bytes) ← decodeAll tys bytes
    return (⟨ty, v⟩ :: vs, bytes)

theorem decode_all_encode_all (vs : List (Σ ty : Ty, ty.Value)) (r : Bytes) :
    decodeAll (vs.map Sigma.fst) (encodeAll vs ++ r) = .ok (vs, r) := by
  induction vs with
  | nil => rfl
  | cons v vs ih =>
    have hrest : encodeAll (v :: vs) ++ r = encode v.2 ++ (encodeAll vs ++ r) := by
      simp [encodeAll, List.append_assoc]
    rw [hrest, List.map_cons, decodeAll]
    simp [decode_encode, ih]

/-- The bytes of some numbers of one type are those of no other numbers. -/
theorem encodings_injective (ty : Ty) :
    Function.Injective fun vs : List ty.Value => vs.flatMap encode := by
  have hne (v : ty.Value) : encode v ≠ [] := encode_ne_nil (bits_bound ty).le (unsigned v)
  intro vs ws he
  induction vs generalizing ws with
  | nil =>
    cases ws with
    | nil => rfl
    | cons w ws => simp [hne] at he
  | cons v vs ih =>
    cases ws with
    | nil => simp [hne] at he
    | cons w ws =>
      simp only [List.flatMap_cons] at he
      have hread := congrArg ty.decode he
      rw [decode_encode, decode_encode] at hread
      injection hread with hread
      obtain ⟨rfl, hrest⟩ := Prod.mk.inj hread
      rw [ih hrest]

/-- Every number of each of the types is read back from its bytes, no shift on the way is too
far, and the bytes are the fewest that carry its unsigned reinterpretation; so a sequence of
numbers is read back from the bytes of all of them, and no other sequence has these bytes. -/
theorem var_int_round_trip (ty : Ty) :
    (∀ (v : ty.Value) (r : Bytes), ty.decode (encode v ++ r) = .ok (v, r) ∧
      (∀ s ∈ shifts (encode v ++ r) 0, s < ty.bits) ∧
      Shortest (v.val % 2 ^ ty.bits).toNat (encode v)) ∧
    (∀ vs r, decodeAll (vs.map Sigma.fst) (encodeAll vs ++ r) = .ok (vs, r)) ∧
    Function.Injective fun vs : List ty.Value => vs.flatMap encode := by
  have hbits := bits_bound ty
  refine ⟨fun v r => ⟨decode_encode v r, ?_, ?_⟩, decode_all_encode_all, encodings_injective ty⟩
  · exact decode_shifts (VarInt.decode_encode hbits.le (unsigned v) r)
  · have least := encode_shortest hbits.le (unsigned v)
    rw [unsigned, BitVec.toNat_ofInt] at least
    exact_mod_cast least

example : @encode .i16 ⟨-1, by decide⟩ = [0xFF, 0xFF, 0x03] := by decide

end Ty

end Theta.VarInt
