import Mathlib.Data.List.TakeWhile
import Mathlib.Data.Nat.Bitwise
import Mathlib.Tactic.Linarith
import Mathlib.Tactic.Ring

namespace Theta.Lib.Base128

/-- Number carried by a sequence of seven-bit groups, least significant first. -/
def value : List UInt8 → Nat
  | [] => 0
  | b :: bs => b.toNat % 128 + 128 * value bs

/-- The continuation bit is set on every byte but the last. -/
inductive Finished : List UInt8 → Prop where
  | last (b : UInt8) (low : b.toNat < 128) : Finished [b]
  | more (b : UInt8) (bs : List UInt8) (high : 128 ≤ b.toNat) (tail : Finished bs) :
      Finished (b :: bs)

theorem Finished.ne_nil {gs : List UInt8} (h : Finished gs) : gs ≠ [] := by
  cases h <;> simp

/-- Every sequence starts with a finished one, or it is the start of one that goes on. -/
theorem finished_or_continued (bs : List UInt8) :
    (∃ gs rest, Finished gs ∧ bs = gs ++ rest) ∨ ∀ b ∈ bs, 128 ≤ b.toNat := by
  induction bs with
  | nil => exact Or.inr (fun b hb => absurd hb List.not_mem_nil)
  | cons b bs ih =>
    by_cases hlow : b.toNat < 128
    · exact Or.inl ⟨[b], bs, .last b hlow, rfl⟩
    have high : 128 ≤ b.toNat := by omega
    rcases ih with ⟨gs, rest, hgs, rfl⟩ | hall
    · exact Or.inl ⟨b :: gs, rest, .more b gs high hgs, rfl⟩
    · exact Or.inr (List.forall_mem_cons.mpr ⟨high, hall⟩)

/-- What a finished sequence consists of. -/
theorem Finished.split {gs : List UInt8} (h : Finished gs) :
    ∃ more last, gs = more ++ [last] ∧ (∀ b ∈ more, 128 ≤ b.toNat) ∧ last.toNat < 128 := by
  induction h with
  | last b low => exact ⟨[], b, rfl, fun _ hb => absurd hb List.not_mem_nil, low⟩
  | more b bs high tail ih =>
    obtain ⟨more, last, rfl, hmore, hlast⟩ := ih
    exact ⟨b :: more, last, rfl, List.forall_mem_cons.mpr ⟨high, hmore⟩, hlast⟩

/-- An input starts with at most one finished sequence. -/
theorem Finished.unique {gs gs' rest rest' : List UInt8} (h : Finished gs) (h' : Finished gs')
    (he : gs ++ rest = gs' ++ rest') : gs = gs' ∧ rest = rest' := by
  induction h generalizing gs' with
  | last b low =>
    cases h' with
    | last b' low' =>
      cases he
      exact ⟨rfl, rfl⟩
    | more b' bs' high' tail' =>
      cases he
      omega
  | more b bs high tail ih =>
    cases h' with
    | last b' low' =>
      cases he
      omega
    | more b' bs' high' tail' =>
      rw [List.cons_append, List.cons_append, List.cons.injEq] at he
      obtain ⟨rfl, he⟩ := he
      obtain ⟨rfl, rfl⟩ := ih tail' he
      exact ⟨rfl, rfl⟩

theorem Finished.not_continued {gs rest : List UInt8} (h : Finished gs) :
    ¬ ∀ b ∈ gs ++ rest, 128 ≤ b.toNat := by
  obtain ⟨more, last, rfl, _, low⟩ := h.split
  intro hall
  have high := hall last (by simp)
  omega

/-- The bytes with the continuation bit that an input starts with. -/
def continued (bs : List UInt8) : List UInt8 := bs.takeWhile (fun b => 128 ≤ b.toNat)

theorem continued_finished {more rest : List UInt8} {last : UInt8}
    (high : ∀ b ∈ more, 128 ≤ b.toNat) (low : last.toNat < 128) :
    continued (more ++ last :: rest) = more := by
  have hlow : ¬ 128 ≤ last.toNat := by omega
  rw [continued, List.takeWhile_append_of_pos (by simpa using high),
    List.takeWhile_cons_of_neg (by simpa using hlow), List.append_nil]

theorem continued_all {bs : List UInt8} (high : ∀ b ∈ bs, 128 ≤ b.toNat) : continued bs = bs := by
  unfold continued
  exact List.takeWhile_eq_self_iff.mpr (by simpa using high)

/-- Shortest group sequence of `n`, for as many groups as there is fuel. -/
def groups : Nat → Nat → List UInt8
  | 0, _ => []
  | fuel + 1, n =>
    if n / 128 = 0 then [UInt8.ofNat (n % 128)]
    else UInt8.ofNat (n % 128 + 128) :: groups fuel (n / 128)

theorem groups_finished (h : n < 128 ^ (fuel + 1)) : Finished (groups (fuel + 1) n) := by
  induction fuel generalizing n with
  | zero =>
    have hn : n / 128 = 0 := by omega
    simp only [groups, hn, ↓reduceIte]
    exact .last _ (by rw [UInt8.toNat_ofNat']; omega)
  | succ fuel ih =>
    rw [groups]
    split
    · exact .last _ (by rw [UInt8.toNat_ofNat']; omega)
    · refine .more _ _ (by rw [UInt8.toNat_ofNat']; omega) (ih ?_)
      rw [pow_succ] at h
      omega

theorem value_groups (h : n < 128 ^ (fuel + 1)) : value (groups (fuel + 1) n) = n := by
  induction fuel generalizing n with
  | zero =>
    have hn : n / 128 = 0 := by omega
    simp only [groups, hn, ↓reduceIte, value, UInt8.toNat_ofNat']
    omega
  | succ fuel ih =>
    rw [groups]
    split
    · simp only [value, UInt8.toNat_ofNat']
      omega
    · have ht : n / 128 < 128 ^ (fuel + 1) := by rw [pow_succ] at h; omega
      simp only [value, ih ht, UInt8.toNat_ofNat']
      omega

/-- Every other finished sequence with the number is longer. -/
structure Shortest (n : Nat) (gs : List UInt8) : Prop where
  finished : Finished gs
  carried : value gs = n
  least : ∀ gs', Finished gs' → value gs' = n → gs' = gs ∨ gs.length < gs'.length

theorem groups_least {gs : List UInt8} (h : Finished gs) (hfuel : value gs < 128 ^ (fuel + 1)) :
    gs = groups (fuel + 1) (value gs) ∨ (groups (fuel + 1) (value gs)).length < gs.length := by
  induction h generalizing fuel with
  | last b low =>
    left
    simp [value, groups, Nat.mod_eq_of_lt low]
    omega
  | more b bs high tail ih =>
    have hlen : 0 < bs.length := by cases tail <;> simp
    have hb := b.toNat_lt
    have hdiv : value (b :: bs) / 128 = value bs := by
      rw [value]
      omega
    have hmod : value (b :: bs) % 128 + 128 = b.toNat := by
      rw [value]
      omega
    rw [groups, hdiv, hmod, UInt8.ofNat_toNat]
    by_cases hzero : value bs = 0
    · right
      rw [if_pos hzero]
      simpa using hlen
    rw [if_neg hzero]
    cases fuel with
    | zero => omega
    | succ fuel =>
      rw [pow_succ] at hfuel
      have hbelow : value bs < 128 ^ (fuel + 1) := by omega
      rcases ih hbelow with he | hlt
      · left
        rw [← he]
      · right
        simpa using hlt

theorem groups_shortest (h : n < 128 ^ (fuel + 1)) : Shortest n (groups (fuel + 1) n) := by
  refine ⟨groups_finished h, value_groups h, ?_⟩
  rintro gs hgs rfl
  exact groups_least hgs h

/-- A number with a nonzero top group has at least as many bits as the groups below it. -/
theorem groups_length (h : n < 128 ^ (fuel + 1)) (hn : n < 2 ^ w) (hw : 0 < w) :
    7 * ((groups (fuel + 1) n).length - 1) < w := by
  induction fuel generalizing n w with
  | zero => simpa [groups, show n < 128 by omega] using hw
  | succ fuel ih =>
    rw [groups]
    split
    · simpa using hw
    · have ht : n / 128 < 128 ^ (fuel + 1) := by rw [pow_succ] at h; omega
      have hw7 : 7 < w := by
        by_contra hc
        have : 2 ^ w ≤ 2 ^ 7 := Nat.pow_le_pow_right (by omega) (by omega)
        omega
      have hd : n / 128 < 2 ^ (w - 7) := by
        have he : 2 ^ w = 2 ^ (w - 7) * 128 := by
          rw [show (128 : Nat) = 2 ^ 7 by rfl, ← pow_add]
          congr 1
          omega
        omega
      have hl := ih ht hd (by omega)
      have hpos : 0 < (groups (fuel + 1) (n / 128)).length := by
        rw [groups]
        split <;> simp
      simp only [List.length_cons, Nat.add_sub_cancel]
      omega

end Theta.Lib.Base128
