import Theta.Proofs.Integers

namespace Theta.VarInt
open Lib Base128

/-- What a reader of base-128 numbers below `2 ^ w` has to return. -/
structure Exact (w : Nat) (bytes : Bytes) : Prop where
  shifts : decode w bytes ≠ .panic
  accepts : ∀ v rest, decode w bytes = .ok (v, rest) ↔
    ∃ gs, Finished gs ∧ bytes = gs ++ rest ∧ value gs < 2 ^ w ∧ v = BitVec.ofNat w (value gs)
  rejects : (∀ gs rest, Finished gs → bytes = gs ++ rest → 2 ^ w ≤ value gs) →
    decode w bytes = .err ()

/-- The sequence ends where its bytes are still shifted by less than the width, and with a number
below `2 ^ w`; or the input ends there. -/
def readable (w : Nat) (bytes : Bytes) : Bool :=
  match bytes.drop (continued bytes).length with
  | [] => decide (7 * (continued bytes).length < w + 7)
  | last :: _ => decide (7 * (continued bytes).length < w) &&
      decide (value (continued bytes ++ [last]) < 2 ^ w)

section
variable {w : Nat}

/-- A sequence that ends in time is read, whatever its number is. -/
theorem decode_loop_ends {gs : Bytes} (h : Finished gs) (rest : Bytes) (this : BitVec w)
    (shift : Nat) (time : shift + 7 * (gs.length - 1) < w) :
    ∃ v, decodeLoop w (gs ++ rest) this shift = .ok (v, rest) := by
  induction h generalizing this shift with
  | last b low =>
    simp only [List.length_singleton, Nat.sub_self, Nat.mul_zero, Nat.add_zero] at time
    rw [List.singleton_append, decodeLoop, if_neg (by omega), if_pos ((high_bit b).mpr low)]
    exact ⟨_, rfl⟩
  | more b bs high tail ih =>
    have hlen : 0 < bs.length := by cases tail <;> simp
    have hbit : ¬ (b &&& 0b10000000 = 0) := by rw [high_bit]; omega
    simp only [List.length_cons, Nat.add_sub_cancel] at time
    rw [List.cons_append, decodeLoop, if_neg (by omega), if_neg hbit]
    exact ih _ _ (by omega)

/-- Bytes that all announce another one are read in time, or the next shift is by the width or
more. -/
theorem decode_loop_continued {more : Bytes} (high : ∀ b ∈ more, 128 ≤ b.toNat) (rest : Bytes)
    (this : BitVec w) (shift : Nat) :
    ((more ≠ [] → shift + 7 * more.length < w + 7) ∧ ∃ this',
      decodeLoop w (more ++ rest) this shift =
        decodeLoop w rest this' (shift + 7 * more.length)) ∨
    (w + 7 ≤ shift + 7 * more.length ∧ decodeLoop w (more ++ rest) this shift = .panic) := by
  induction more generalizing this shift with
  | nil => exact Or.inl ⟨fun hne => absurd rfl hne, this, rfl⟩
  | cons b more ih =>
    obtain ⟨hb, hmore⟩ := List.forall_mem_cons.mp high
    have hbit : ¬ (b &&& 0b10000000 = 0) := by rw [high_bit]; omega
    rw [List.cons_append, decodeLoop, List.length_cons]
    by_cases hw : w ≤ shift
    · rw [if_pos hw]
      exact Or.inr ⟨by omega, rfl⟩
    rw [if_neg hw, if_neg hbit]
    rcases ih hmore (this ||| ((b &&& 0b01111111).toBitVec.setWidth w <<< shift)) (shift + 7) with
      ⟨time, this', he⟩ | ⟨hlate, he⟩
    · left
      refine ⟨fun _ => ?_, this', ?_⟩
      · by_cases hnil : more = []
        · rw [hnil, List.length_nil]
          omega
        · have htime := time hnil
          omega
      · rw [he]
        congr 1
        omega
    · exact Or.inr ⟨by omega, he⟩

/-- A sequence that goes on is a truncated one, unless it goes on for too long. -/
theorem decode_continued {bytes : Bytes} (high : ∀ b ∈ bytes, 128 ≤ b.toNat) :
    decode w bytes = if 7 * bytes.length < w + 7 then .err () else .panic := by
  have hloop := decode_loop_continued high [] (0 : BitVec w) 0
  rw [List.append_nil] at hloop
  rcases hloop with ⟨time, this, he⟩ | ⟨hlate, he⟩
  · have hshort : 7 * bytes.length < w + 7 := by
      by_cases hnil : bytes = []
      · rw [hnil, List.length_nil]
        omega
      · have htime := time hnil
        omega
    rw [decode, he, if_pos hshort, decodeLoop]
  · rw [decode, he, if_neg (by omega)]

/-- A finished sequence is read when it ends in time. -/
theorem decode_finished {more : Bytes} {last : UInt8} (rest : Bytes) (high : ∀ b ∈ more, 128 ≤ b.toNat)
    (finished : Finished (more ++ [last])) :
    (w ≤ 7 * more.length → decode w (more ++ last :: rest) = .panic) ∧
    (7 * more.length < w → (∃ v, decode w (more ++ last :: rest) = .ok (v, rest)) ∧
      (value (more ++ [last]) < 2 ^ w → decode w (more ++ last :: rest) =
        .ok (BitVec.ofNat w (value (more ++ [last])), rest))) := by
  have hgroups : more ++ last :: rest = (more ++ [last]) ++ rest := by simp
  have hlength : (more ++ [last]).length - 1 = more.length := by simp
  refine ⟨fun late => ?_, fun time => ⟨?_, fun small => ?_⟩⟩
  · rcases decode_loop_continued high (last :: rest) (0 : BitVec w) 0 with ⟨_, this, he⟩ | ⟨_, he⟩
    · rw [decode, he, decodeLoop, if_pos (by omega)]
    · exact he
  · rw [hgroups]
    exact decode_loop_ends finished rest 0 0 (by omega)
  · rw [hgroups, decode, decode_loop_finished finished rest 0 0 (by simp) (by omega) (by simpa)]
    simp

theorem exact_iff_readable (w : Nat) (bytes : Bytes) :
    Exact w bytes ↔ readable w bytes = true := by
  rcases finished_or_continued bytes with ⟨gs, rest, finished, rfl⟩ | high
  · obtain ⟨more, last, rfl, high, low⟩ := finished.split
    have hgroups : (more ++ [last]) ++ rest = more ++ last :: rest := by simp
    obtain ⟨late, time⟩ := decode_finished (w := w) rest high finished
    have hreadable : readable w (more ++ last :: rest) = true ↔
        7 * more.length < w ∧ value (more ++ [last]) < 2 ^ w := by
      rw [readable, continued_finished high low, List.drop_left]
      simp
    rw [hgroups, hreadable]
    constructor
    · intro exact
      have htime : 7 * more.length < w := by
        by_contra hlate
        exact exact.shifts (late (by omega))
      obtain ⟨v, hread⟩ := (time htime).1
      obtain ⟨gs, hgs, he, small, _⟩ := (exact.accepts v rest).mp hread
      rw [← hgroups] at he
      obtain ⟨rfl, _⟩ := finished.unique hgs he
      exact ⟨htime, small⟩
    · rintro ⟨htime, small⟩
      have hread := (time htime).2 small
      refine ⟨by simp [hread], fun v rest' => ⟨fun h => ?_, ?_⟩, fun large => ?_⟩
      · rw [hread] at h
        cases h
        exact ⟨_, finished, hgroups.symm, small, rfl⟩
      · rintro ⟨gs, hgs, he, _, rfl⟩
        rw [← hgroups] at he
        obtain ⟨rfl, rfl⟩ := finished.unique hgs he
        exact hread
      · have hlarge := large _ rest finished hgroups.symm
        omega
  · have hreadable : readable w bytes = true ↔ 7 * bytes.length < w + 7 := by
      rw [readable, continued_all high, List.drop_length]
      simp
    have unfinished (gs rest : Bytes) (hgs : Finished gs) : bytes ≠ gs ++ rest := by
      rintro rfl
      exact hgs.not_continued high
    rw [hreadable]
    constructor
    · intro exact
      by_contra hlong
      apply exact.shifts
      rw [decode_continued high, if_neg hlong]
    · intro short
      have hread : decode w bytes = .err () := by rw [decode_continued high, if_pos short]
      refine ⟨by simp [hread], fun v rest => ⟨fun h => ?_, ?_⟩, fun _ => hread⟩
      · rw [hread] at h
        cases h
      · rintro ⟨gs, hgs, he, _⟩
        exact absurd he (unfinished gs rest hgs)

namespace Ty
variable {ty : Ty} {bytes : Bytes}

theorem unsigned_of (this : BitVec ty.bits) : unsigned (ofUnsigned this) = this := by
  unfold unsigned ofUnsigned
  dsimp only
  split
  · exact BitVec.ofInt_toInt
  · rw [BitVec.ofInt_natCast, BitVec.ofNat_toNat, BitVec.setWidth_eq]

theorem of_unsigned_eq_iff {v : ty.Value} {this : BitVec ty.bits} :
    v = ofUnsigned this ↔ unsigned v = this := by
  constructor
  · rintro rfl
    exact unsigned_of this
  · rintro rfl
    exact (of_unsigned v).symm

/-- A number of the type is read where its unsigned reinterpretation is. -/
theorem decode_ok_iff {v : ty.Value} {rest : Bytes} :
    ty.decode bytes = .ok (v, rest) ↔ VarInt.decode ty.bits bytes = .ok (unsigned v, rest) := by
  rw [Ty.decode]
  cases VarInt.decode ty.bits bytes with
  | err e => simp
  | panic => simp
  | ok r =>
    obtain ⟨this, more⟩ := r
    constructor
    · intro h
      cases h
      rw [unsigned_of]
    · intro h
      cases h
      simp [of_unsigned]

theorem decode_panic_iff : ty.decode bytes = .panic ↔ VarInt.decode ty.bits bytes = .panic := by
  rw [Ty.decode]
  cases VarInt.decode ty.bits bytes <;> simp

theorem decode_err_iff : ty.decode bytes = .err () ↔ VarInt.decode ty.bits bytes = .err () := by
  rw [Ty.decode]
  cases VarInt.decode ty.bits bytes <;> simp

/-- What a reader of numbers of the type has to return. -/
structure Exact (ty : Ty) (bytes : Bytes) : Prop where
  shifts : ty.decode bytes ≠ .panic
  accepts : ∀ v rest, ty.decode bytes = .ok (v, rest) ↔
    ∃ gs, Finished gs ∧ bytes = gs ++ rest ∧ value gs < 2 ^ ty.bits ∧
      v = ofUnsigned (BitVec.ofNat ty.bits (value gs))
  rejects : (∀ gs rest, Finished gs → bytes = gs ++ rest → 2 ^ ty.bits ≤ value gs) →
    ty.decode bytes = .err ()

theorem exact_iff : ty.Exact bytes ↔ VarInt.Exact ty.bits bytes := by
  constructor
  · intro exact
    refine ⟨fun h => exact.shifts (decode_panic_iff.mpr h), fun this rest => ?_,
      fun large => decode_err_iff.mp (exact.rejects large)⟩
    have accepts := exact.accepts (ofUnsigned this) rest
    rw [decode_ok_iff, unsigned_of] at accepts
    simpa only [of_unsigned_eq_iff, unsigned_of] using accepts
  · intro exact
    refine ⟨fun h => exact.shifts (decode_panic_iff.mp h), fun v rest => ?_,
      fun large => decode_err_iff.mpr (exact.rejects large)⟩
    rw [decode_ok_iff, exact.accepts]
    simp only [of_unsigned_eq_iff]

end Ty

/-- The decoder is exact on the inputs whose sequence ends in time with a number that fits, or is
truncated in time, and so it is at each of the types. -/
theorem decode_exact_iff (bytes : Bytes) :
    (∀ w, Exact w bytes ↔ readable w bytes = true) ∧
      ∀ ty : Ty, ty.Exact bytes ↔ readable ty.bits bytes = true :=
  ⟨fun w => exact_iff_readable w bytes,
    fun _ => Ty.exact_iff.trans (exact_iff_readable _ bytes)⟩

/-- A number with too many bytes shifts too far, and the bits beyond the width of a last byte are
lost without an error. -/
theorem decode_inexact :
    decode 32 [0x80, 0x80, 0x80, 0x80, 0x80, 0x00] = .panic ∧
      decode 32 [0xFF, 0xFF, 0xFF, 0xFF, 0x7F] = .ok (0xFFFFFFFF, []) ∧
      2 ^ 32 ≤ value [0xFF, 0xFF, 0xFF, 0xFF, 0x7F] ∧
      ¬ Exact 32 [0x80, 0x80, 0x80, 0x80, 0x80, 0x00] ∧ ¬ Exact 32 [0xFF, 0xFF, 0xFF, 0xFF, 0x7F] := by
  refine ⟨by decide, by decide, by decide, fun h => h.shifts (by decide), fun h => ?_⟩
  have hread : decode 32 [0xFF, 0xFF, 0xFF, 0xFF, 0x7F] = .ok (0xFFFFFFFF, []) := by decide
  obtain ⟨gs, hgs, he, small, _⟩ := (h.accepts _ _).mp hread
  rw [List.append_nil] at he
  subst he
  revert small
  decide

end

end Theta.VarInt
