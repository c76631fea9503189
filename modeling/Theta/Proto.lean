import Theta.Lib.Act
import Theta.Lib.Base128

namespace Theta
open Lib

abbrev Bytes := List UInt8
abbrev U16 := BitVec 16
abbrev U32 := BitVec 32

/-- Number of values of a 64-bit `usize`. -/
def usizeModulus : Nat := 2 ^ 64

namespace VarInt

/-- Body of the encoder's loop. The fuel is the width of the integer, which
every turn lowers by seven bits. -/
def encodeLoop : Nat → BitVec w → Bytes
  | 0, _ => []
  | fuel + 1, this =>
    let toWrite := UInt8.ofNat (this &&& 0b01111111#w).toNat
    let this := this >>> 7
    if this = 0 then [toWrite] else (toWrite ||| 0b10000000) :: encodeLoop fuel this

def encode (this : BitVec w) : Bytes := encodeLoop w this

/-- A shift by the width or more overflows and panics. -/
def decodeLoop (w : Nat) : Bytes → BitVec w → Nat → Outcome Unit (BitVec w × Bytes)
  | [], _, _ => .err ()
  | byte :: rest, this, shift =>
    if w ≤ shift then .panic
    else
      let this := this ||| ((byte &&& 0b01111111).toBitVec.setWidth w <<< shift)
      if byte &&& 0b10000000 = 0 then .ok (this, rest)
      else decodeLoop w rest this (shift + 7)

def decode (w : Nat) (bytes : Bytes) : Outcome Unit (BitVec w × Bytes) :=
  decodeLoop w bytes 0 0

/-- The types that `impl_var_int!` is given. -/
inductive Ty where
  | u16 | i16 | u32 | i32 | u64 | i64 | u128 | i128
  deriving DecidableEq, Repr

namespace Ty

/-- Width of the type and of the unsigned type next to it. -/
def bits : Ty → Nat
  | u16 | i16 => 16
  | u32 | i32 => 32
  | u64 | i64 => 64
  | u128 | i128 => 128

def signed : Ty → Bool
  | u16 | u32 | u64 | u128 => false
  | i16 | i32 | i64 | i128 => true

def min (ty : Ty) : Int := if ty.signed then -2 ^ (ty.bits - 1) else 0

def max (ty : Ty) : Int := if ty.signed then 2 ^ (ty.bits - 1) - 1 else 2 ^ ty.bits - 1

/-- A value of the type. -/
def Value (ty : Ty) : Type := { v : Int // ty.min ≤ v ∧ v ≤ ty.max }

variable {ty : Ty}

/-- `self.0 as $unsigned`. -/
def unsigned (v : ty.Value) : BitVec ty.bits := BitVec.ofInt ty.bits v.val

theorem signed_fits (this : BitVec ty.bits) :
    ty.min ≤ (if ty.signed then this.toInt else this.toNat) ∧
      (if ty.signed then this.toInt else this.toNat) ≤ ty.max := by
  rw [min, max]
  split
  · have low := this.le_toInt
    have high := this.toInt_lt
    omega
  · have high : (this.toNat : Int) < 2 ^ ty.bits := by exact_mod_cast this.isLt
    omega

/-- `this as $ty`. -/
def ofUnsigned (this : BitVec ty.bits) : ty.Value :=
  ⟨if ty.signed then this.toInt else this.toNat, signed_fits this⟩

def encode (v : ty.Value) : Bytes := VarInt.encode (unsigned v)

def decode (ty : Ty) (bytes : Bytes) : Outcome Unit (ty.Value × Bytes) := do
  let (this, bytes) ← VarInt.decode ty.bits bytes
  return (ofUnsigned this, bytes)

end Ty

end VarInt

/-- `str::as_bytes`. -/
def utf8 (s : String) : Bytes := s.toByteArray.data.toList

/-- `str::from_utf8`. -/
def fromUtf8 (bytes : Bytes) : Option String := String.fromUTF8? ⟨bytes.toArray⟩

@[simp] theorem from_utf8_utf8 (s : String) : fromUtf8 (utf8 s) = some s := by
  simp only [fromUtf8, utf8, Array.toArray_toList]
  exact dif_pos s.isValidUTF8

namespace StrWithMaxLen

def encode (maxLen : Nat) (s : String) : Outcome Unit Bytes :=
  if maxLen < (utf8 s).length then .err ()
  else .ok (VarInt.encode (BitVec.ofNat 32 (utf8 s).length) ++ utf8 s)

def decode (maxLen : Nat) (bytes : Bytes) : Outcome Unit (String × Bytes) := do
  let (len, bytes) ← VarInt.decode 32 bytes
  if maxLen < len.toNat then .err ()
  else if bytes.length < len.toNat then .err ()
  else match fromUtf8 (bytes.take len.toNat) with
    | none => .err ()
    | some s => .ok (s, bytes.drop len.toNat)

end StrWithMaxLen

namespace VarInt
open Base128

theorem low_bits (b : UInt8) : (b &&& 0b01111111).toNat = b.toNat % 128 := by
  rw [UInt8.toNat_and]
  exact Nat.and_two_pow_sub_one_eq_mod b.toNat 7

theorem high_bit (b : UInt8) : b &&& 0b10000000 = 0 ↔ b.toNat < 128 := by
  have table : ∀ n < 256, n &&& 128 = 0 ↔ n < 128 := by decide +kernel
  rw [← UInt8.toNat_inj, UInt8.toNat_and]
  exact table b.toNat b.toNat_lt

theorem set_high_bit (h : n < 128) : (UInt8.ofNat n ||| 0b10000000) = UInt8.ofNat (n + 128) := by
  have table : ∀ n < 128, n ||| 128 = n + 128 := by decide +kernel
  apply UInt8.toNat_inj.mp
  rw [UInt8.toNat_or, UInt8.toNat_ofNat', UInt8.toNat_ofNat', Nat.mod_eq_of_lt (by omega),
    Nat.mod_eq_of_lt (by omega)]
  exact table n h

/-- The encoder writes the shortest group sequence. -/
theorem encode_loop_groups (hw : 7 ≤ w) (fuel : Nat) (v : BitVec w) :
    encodeLoop fuel v = groups fuel v.toNat := by
  induction fuel generalizing v with
  | zero => rfl
  | succ fuel ih =>
    have hlow : (v &&& 0b01111111#w).toNat = v.toNat % 128 := by
      have h127 : (127 : Nat) < 2 ^ w :=
        Nat.lt_of_lt_of_le (by decide) (Nat.pow_le_pow_right (by decide) hw)
      rw [BitVec.toNat_and, BitVec.toNat_ofNat, Nat.mod_eq_of_lt h127]
      exact Nat.and_two_pow_sub_one_eq_mod v.toNat 7
    have hshift : (v >>> 7).toNat = v.toNat / 128 := by
      rw [BitVec.toNat_ushiftRight, Nat.shiftRight_eq_div_pow]
    have hzero : v >>> 7 = 0 ↔ v.toNat / 128 = 0 := by
      rw [← BitVec.toNat_inj, hshift]
      simp
    simp only [encodeLoop, groups, hzero, hlow, ih, hshift,
      set_high_bit (Nat.mod_lt v.toNat (by decide : 128 > 0))]

/-- Reading a finished group sequence adds its value, shifted into place. -/
theorem decode_loop_finished {bs : Bytes} (hb : Finished bs) (r : Bytes) (this : BitVec w)
    (shift : Nat) (hthis : this.toNat < 2 ^ shift) (hs : shift + 7 * (bs.length - 1) < w)
    (hv : value bs * 2 ^ shift < 2 ^ w) :
    decodeLoop w (bs ++ r) this shift =
      .ok (BitVec.ofNat w (this.toNat + value bs * 2 ^ shift), r) := by
  have step (b : UInt8) (this : BitVec w) (shift : Nat) (hthis : this.toNat < 2 ^ shift)
      (hv : b.toNat % 128 * 2 ^ shift < 2 ^ w) :
      (this ||| ((b &&& 0b01111111).toBitVec.setWidth w <<< shift)).toNat =
        this.toNat + b.toNat % 128 * 2 ^ shift := by
    rw [BitVec.toNat_or, BitVec.toNat_shiftLeft, BitVec.toNat_setWidth, UInt8.toNat_toBitVec,
      low_bits]
    have hpos : 0 < 2 ^ shift := Nat.two_pow_pos shift
    have hsmall : b.toNat % 128 < 2 ^ w := Nat.lt_of_le_of_lt (Nat.le_mul_of_pos_right _ hpos) hv
    rw [Nat.mod_eq_of_lt hsmall, Nat.shiftLeft_eq, Nat.mod_eq_of_lt hv, ← Nat.shiftLeft_eq,
      Nat.or_comm, ← Nat.shiftLeft_add_eq_or_of_lt hthis, Nat.add_comm]
  induction hb generalizing this shift with
  | last b low =>
    simp only [value, Nat.mul_zero, Nat.add_zero] at hv ⊢
    have hstep := step b this shift hthis hv
    simp only [List.length_singleton, Nat.sub_self, Nat.mul_zero, Nat.add_zero] at hs
    have hfit := BitVec.isLt (this ||| ((b &&& 0b01111111).toBitVec.setWidth w <<< shift))
    rw [hstep] at hfit
    rw [List.singleton_append, decodeLoop, if_neg (by omega), if_pos ((high_bit b).mpr low)]
    congr 2
    apply BitVec.eq_of_toNat_eq
    rw [hstep, BitVec.toNat_ofNat, Nat.mod_eq_of_lt hfit]
  | more b bs high tail ih =>
    have hpos : 0 < 2 ^ shift := Nat.two_pow_pos shift
    have hpow : 2 ^ (shift + 7) = 2 ^ shift * 128 := by rw [pow_add]; rfl
    simp only [value] at hv ⊢
    have hsum : (b.toNat % 128 + 128 * value bs) * 2 ^ shift =
        b.toNat % 128 * 2 ^ shift + value bs * 2 ^ (shift + 7) := by rw [hpow]; ring
    have hlen : 0 < bs.length := by cases tail <;> simp
    simp only [List.length_cons, Nat.add_sub_cancel] at hs
    have hstep := step b this shift hthis (by omega)
    have hnext : (this ||| ((b &&& 0b01111111).toBitVec.setWidth w <<< shift)).toNat <
        2 ^ (shift + 7) := by
      have hb : b.toNat % 128 < 128 := Nat.mod_lt _ (by decide)
      rw [hstep, hpow]
      nlinarith
    have hbit : ¬ (b &&& 0b10000000 = 0) := by rw [high_bit]; omega
    rw [List.cons_append, decodeLoop, if_neg (by omega), if_neg hbit,
      ih _ _ hnext (by omega) (by omega), hstep, hsum, Nat.add_assoc]

theorem encode_groups (hw : 7 ≤ w) (v : BitVec w) :
    ∃ fuel, v.toNat < 128 ^ (fuel + 1) ∧ encode v = groups (fuel + 1) v.toNat := by
  obtain ⟨k, rfl⟩ : ∃ k, w = k + 1 := ⟨w - 1, by omega⟩
  exact ⟨k, Nat.lt_of_lt_of_le v.isLt (Nat.pow_le_pow_left (by decide) _),
    encode_loop_groups hw _ v⟩

theorem encode_shortest (hw : 7 ≤ w) (v : BitVec w) : Shortest v.toNat (encode v) := by
  obtain ⟨fuel, hfuel, he⟩ := encode_groups hw v
  rw [he]
  exact groups_shortest hfuel

/-- The bytes of a number but the last carry less than its width. -/
theorem encode_length (hw : 7 ≤ w) (v : BitVec w) : 7 * ((encode v).length - 1) < w := by
  obtain ⟨fuel, hfuel, he⟩ := encode_groups hw v
  rw [he]
  exact groups_length hfuel v.isLt (by omega)

/-- The decoder returns what the encoder was given and leaves the rest of the input. -/
theorem decode_encode (hw : 7 ≤ w) (v : BitVec w) (r : Bytes) :
    decode w (encode v ++ r) = .ok (v, r) := by
  have hv := v.isLt
  have hlen := encode_length hw v
  obtain ⟨finished, carried, _⟩ := encode_shortest hw v
  rw [decode, decode_loop_finished finished]
  · simp [carried]
  · simp
  · simpa using hlen
  · simpa [carried] using hv

@[simp] theorem decode_encode_u32 (v : U32) (r : Bytes) :
    decode 32 (encode v ++ r) = .ok (v, r) := decode_encode (by decide) v r

@[simp] theorem decode_encode_u16 (v : U16) (r : Bytes) :
    decode 16 (encode v ++ r) = .ok (v, r) := decode_encode (by decide) v r

theorem encode_ne_nil (hw : 7 ≤ w) (v : BitVec w) : encode v ≠ [] :=
  (encode_shortest hw v).finished.ne_nil

theorem encode_length_le (v : U32) : (encode v).length ≤ 5 := by
  have hlength := encode_length (by decide) v
  omega

theorem encode_length_le_u16 (v : U16) : (encode v).length ≤ 3 := by
  have hlength := encode_length (by decide) v
  omega

/-- A successful read takes at least one byte. -/
theorem decode_loop_shorter {w : Nat} {bs : Bytes} {this v : BitVec w} {shift : Nat} {r : Bytes}
    (h : decodeLoop w bs this shift = .ok (v, r)) : r.length < bs.length := by
  induction bs generalizing this shift with
  | nil => simp [decodeLoop] at h
  | cons b bs ih =>
    rw [decodeLoop] at h
    split at h
    · cases h
    · dsimp only at h
      split at h
      · cases h
        simp
      · exact Nat.lt_of_lt_of_le (ih h) (by simp)

theorem decode_shorter {w : Nat} {bs : Bytes} {v : BitVec w} {r : Bytes}
    (h : decode w bs = .ok (v, r)) : r.length < bs.length := decode_loop_shorter h

end VarInt

theorem StrWithMaxLen.decode_encode {maxLen : Nat} {s : String} {bs : Bytes} (r : Bytes)
    (hmax : maxLen < 2 ^ 32) (h : encode maxLen s = .ok bs) :
    decode maxLen (bs ++ r) = .ok (s, r) := by
  rw [encode] at h
  split at h
  · cases h
  · rename_i hlen
    cases h
    have hn : (BitVec.ofNat 32 (utf8 s).length).toNat = (utf8 s).length := by
      rw [BitVec.toNat_ofNat, Nat.mod_eq_of_lt (by omega)]
    simp [decode, List.append_assoc, hn, hlen]

end Theta
