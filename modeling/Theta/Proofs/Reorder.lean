import Theta.Lib.ReorderBuffer
import Theta.Proofs.Orderer

namespace Theta.PacketOrderer
open Lib ReorderBuffer

/-- The orderer as a buffer of packets under their 64-bit orders. -/
def buffer (o : PacketOrderer) : ReorderBuffer 64 Bytes where
  next := BitVec.ofNat 64 o.orderStart
  held n := o.window[(n - BitVec.ofNat 64 o.orderStart).toNat]?.join

/-- A sound ring that has not outgrown its capacity. -/
structure Regular (o : PacketOrderer) : Prop where
  sound : o.Sound
  start : o.orderStart < usizeModulus
  length : o.vec.length ≤ o.capacity

theorem new_regular {capacity : Nat} : (new capacity).Regular :=
  ⟨new_sound, Nat.two_pow_pos 64, Nat.zero_le _⟩

section
variable {o o' : PacketOrderer}

/-- The source's `wrapping_sub` is the subtraction of 64-bit integers. -/
theorem distance_eq (start : o.orderStart < usizeModulus) (n : BitVec 64) :
    o.distance n.toNat = (n - o.buffer.next).toNat := by
  have husize : usizeModulus = 2 ^ 64 := rfl
  have hn := n.isLt
  simp only [distance, buffer, BitVec.toNat_sub, BitVec.toNat_ofNat, husize]
  rw [Nat.mod_eq_of_lt (by omega : o.orderStart < 2 ^ 64)]
  congr 1
  omega

theorem Regular.refused (h : o.Regular) {n : BitVec 64} (x : Bytes)
    (far : o.buffer.push o.capacity n x = none) :
    o.push n.toNat x = .err .capacityReached := by
  unfold ReorderBuffer.push at far
  split at far
  · cases far
  · rename_i hge
    rw [← distance_eq h.start] at hge
    rw [PacketOrderer.push, if_pos (Nat.le_of_not_lt hge)]

/-- A push that the ring accepts is a push into the buffer. -/
theorem Regular.pushed (h : o.Regular) {n : BitVec 64} {x : Bytes}
    (hpush : o.push n.toNat x = .ok o') :
    o'.Regular ∧ o'.capacity = o.capacity ∧ 0 < o'.vec.length ∧
      o.buffer.push o.capacity n x = some o'.buffer := by
  obtain ⟨hs, hcap, hstart, hdist, hlength, k, hlt, hw⟩ := push_window h.sound hpush
  have hle := h.length
  refine ⟨⟨hs, hstart ▸ h.start, by omega⟩, hcap, by omega, ?_⟩
  rw [distance_eq h.start] at hdist hlt hw
  rw [ReorderBuffer.push, if_pos hdist, Option.some.injEq]
  simp only [buffer, hstart, hw, ReorderBuffer.mk.injEq, true_and] at hlt ⊢
  funext i
  rw [Function.update_apply]
  by_cases hi : i = n
  · rw [if_pos hi, hi, List.getElem?_set_self hlt]
    rfl
  · rw [if_neg hi, List.getElem?_set_ne, padded_join]
    intro he
    have hsub := BitVec.eq_of_toNat_eq he
    exact hi (by bv_omega)

theorem Regular.accepted (h : o.Regular) (small : o.capacity ≤ maxVecLen) {n : BitVec 64}
    {x : Bytes} {b : ReorderBuffer 64 Bytes} (near : o.buffer.push o.capacity n x = some b) :
    ∃ o', o.push n.toNat x = .ok o' := by
  unfold ReorderBuffer.push at near
  split at near
  · rename_i hlt
    rw [← distance_eq h.start] at hlt
    have grows : ∃ g, o.grow (o.distance n.toNat) = .ok g := by
      unfold grow
      split
      · rw [if_neg (by omega)]
        exact ⟨_, rfl⟩
      · exact ⟨_, rfl⟩
    obtain ⟨g, hg⟩ := grows
    simp only [PacketOrderer.push, if_neg (Nat.not_le_of_lt hlt), hg, Outcome.ok_bind]
    exact ⟨_, rfl⟩
  · cases near

/-- The slot that `retain` looks at. -/
theorem Regular.front (h : o.Regular) (nonempty : 0 < o.vec.length) :
    ∃ slot, o.vec[o.dequeStart]? = some slot ∧ o.buffer.held o.buffer.next = slot := by
  have hlt : o.dequeStart < o.vec.length := by
    rcases h.sound.start with h0 | hlt
    · omega
    · exact hlt
  refine ⟨o.vec[o.dequeStart], List.getElem?_eq_getElem hlt, ?_⟩
  simp only [buffer, BitVec.sub_self, BitVec.toNat_zero]
  rw [window_get nonempty, Nat.add_zero, Nat.mod_eq_of_lt hlt, List.getElem?_eq_getElem hlt]
  rfl

/-- The ring whose first packet was taken but not handled. -/
def lose (o : PacketOrderer) : PacketOrderer := { o with vec := o.vec.set o.dequeStart none }

theorem Regular.lost (h : o.Regular) {x : Bytes} (front : o.vec[o.dequeStart]? = some (some x)) :
    o.lose.Regular ∧ o.lose.buffer = o.buffer.lose := by
  have hlt := (List.getElem?_eq_some_iff.mp front).1
  have hw : o.lose.window = o.window.set 0 none := by
    have hset := set_window (x := none) (by omega : 0 < o.vec.length) h.sound
    rwa [Nat.add_zero, Nat.mod_eq_of_lt hlt] at hset
  refine ⟨⟨⟨?_, ?_⟩, h.start, ?_⟩, ?_⟩
  · simpa [lose] using h.sound.start
  · simpa [lose] using h.sound.length
  · simpa [lose] using h.length
  · simp only [buffer, hw, ReorderBuffer.lose, ReorderBuffer.mk.injEq]
    refine ⟨rfl, funext fun n => ?_⟩
    rw [Function.update_apply, show o.lose.orderStart = o.orderStart from rfl]
    by_cases hn : n = BitVec.ofNat 64 o.orderStart
    · rw [if_pos hn, hn, BitVec.sub_self, BitVec.toNat_zero, List.getElem?_set_self]
      · rfl
      · rw [window_length]
        omega
    · rw [if_neg hn, List.getElem?_set_ne]
      intro h0
      exact hn (by bv_omega)

theorem Regular.advanced (h : o.Regular) {x : Bytes}
    (front : o.vec[o.dequeStart]? = some (some x)) :
    o.advance.Regular ∧ o.advance.buffer = o.buffer.advance := by
  have husize : usizeModulus = 2 ^ 64 := rfl
  have hmax : maxVecLen < 2 ^ 59 := by decide
  obtain ⟨hs, hwin⟩ := advance_window h.sound front
  have hlen := h.sound.length
  have hstart : BitVec.ofNat 64 o.advance.orderStart = BitVec.ofNat 64 o.orderStart + 1 := by
    apply BitVec.eq_of_toNat_eq
    simp [advance, husize]
  refine ⟨⟨hs, Nat.mod_lt _ (by decide), by simpa [advance] using h.length⟩, ?_⟩
  simp only [buffer, ReorderBuffer.advance, ReorderBuffer.lose, hstart, hwin,
    ReorderBuffer.mk.injEq, true_and]
  funext n
  rw [Function.update_apply]
  -- The order that comes around is as far ahead as any order can be.
  by_cases hn : n = BitVec.ofNat 64 o.orderStart
  · rw [if_pos hn, hn, List.getElem?_eq_none]
    · rfl
    · rw [window_length]
      bv_omega
  · rw [if_neg hn]
    have hsub : (n - (BitVec.ofNat 64 o.orderStart + 1)).toNat + 1 =
        (n - BitVec.ofNat 64 o.orderStart).toNat := by
      have hne : n.toNat ≠ (BitVec.ofNat 64 o.orderStart).toNat :=
        fun he => hn (BitVec.eq_of_toNat_eq he)
      bv_omega
    rw [hsub]

end

/-- The number of packets that the ring holds: each turn of `retain` takes one of them. -/
def occupied (o : PacketOrderer) : Nat := o.vec.countP Option.isSome

theorem advance_occupied {o : PacketOrderer} {x : Bytes}
    (front : o.vec[o.dequeStart]? = some (some x)) : o.advance.occupied + 1 = o.occupied := by
  obtain ⟨hlt, hx⟩ := List.getElem?_eq_some_iff.mp front
  have hpos : 0 < o.vec.countP Option.isSome :=
    List.countP_pos_iff.mpr ⟨some x, List.mem_of_getElem? front, rfl⟩
  simp only [occupied, advance, List.countP_set hlt, hx, Option.isSome_some, Option.isSome_none,
    ↓reduceIte, Bool.false_eq_true]
  omega

section
variable {σ ε : Type} {func : Bytes → Act σ ε Unit}

/-- The ways in which `retain` ends: the whole run of packets was handled, or the run up to one
whose callback did not succeed, which is lost. -/
inductive Retained (func : Bytes → Act σ ε Unit) (b : ReorderBuffer 64 Bytes) (s : σ) :
    Outcome ε Unit → ReorderBuffer 64 Bytes → σ → Prop where
  | drained (xs : List Bytes) (b' : ReorderBuffer 64 Bytes) (s' : σ) (drains : Drains b xs b')
      (calls : xs.forM func s = (.ok (), s')) : Retained func b s (.ok ()) b' s'
  | stopped (xs : List Bytes) (x : Bytes) (b' : ReorderBuffer 64 Bytes) (r : Outcome ε Unit)
      (t s' : σ) (takes : Takes b xs b') (next : b'.held b'.next = some x)
      (calls : xs.forM func s = (.ok (), t)) (call : func x t = (r, s')) (fails : r ≠ .ok ()) :
      Retained func b s r b'.lose s'

/-- A ring of the same size. -/
structure SameRing (o o' : PacketOrderer) : Prop where
  regular : o'.Regular
  capacity : o'.capacity = o.capacity
  length : o'.vec.length = o.vec.length

theorem retain_loop_retained {fuel : Nat} {o : PacketOrderer} (h : o.Regular)
    (nonempty : 0 < o.vec.length) (enough : o.occupied < fuel) (s : σ) :
    SameRing o (retainLoop func fuel o s).2.1 ∧
      Retained func o.buffer s (retainLoop func fuel o s).1
        (retainLoop func fuel o s).2.1.buffer (retainLoop func fuel o s).2.2 := by
  induction fuel generalizing o s with
  | zero => exact absurd enough (Nat.not_lt_zero _)
  | succ fuel ih =>
    obtain ⟨slot, hslot, hheld⟩ := h.front nonempty
    unfold retainLoop
    rw [hslot]
    cases slot with
    | none => exact ⟨⟨h, rfl, rfl⟩, .drained [] _ s ⟨.none _, hheld⟩ rfl⟩
    | some x =>
      dsimp only
      obtain ⟨hregular, hbuffer⟩ := h.advanced hslot
      obtain ⟨hlost, hlose⟩ := h.lost hslot
      have stopped (r : Outcome ε Unit) (s' : σ) (hcall : func x s = (r, s')) (hr : r ≠ .ok ()) :
          SameRing o o.lose ∧ Retained func o.buffer s r o.lose.buffer s' := by
        rw [hlose]
        exact ⟨⟨hlost, rfl, by simp [lose]⟩, .stopped [] x _ r s s' (.none _) hheld rfl hcall hr⟩
      rcases hcall : func x s with ⟨r, s'⟩
      cases r with
      | err e => exact stopped _ s' hcall (by simp)
      | panic => exact stopped _ s' hcall (by simp)
      | ok u =>
        have hlength : o.advance.vec.length = o.vec.length := by simp [advance]
        have hocc := advance_occupied hslot
        obtain ⟨hsame, hrest⟩ := ih hregular (by omega) (by omega) s'
        have calls {xs : List Bytes} {t : σ} {r : Outcome ε Unit} (hxs : xs.forM func s' = (r, t)) :
            (x :: xs).forM func s = (r, t) := by
          rw [← hxs]
          exact Act.bind_of_ok hcall
        refine ⟨⟨hsame.regular, hsame.capacity, hsame.length.trans hlength⟩, ?_⟩
        change Retained func o.buffer s (retainLoop func fuel o.advance s').1
          (retainLoop func fuel o.advance s').2.1.buffer (retainLoop func fuel o.advance s').2.2
        rw [hbuffer] at hrest
        generalize (retainLoop func fuel o.advance s').1 = r' at hrest ⊢
        generalize (retainLoop func fuel o.advance s').2.1.buffer = b2 at hrest ⊢
        generalize (retainLoop func fuel o.advance s').2.2 = s2 at hrest ⊢
        cases hrest with
        | drained xs b' t drains hxs =>
          exact .drained (x :: xs) b2 s2 ⟨.more _ _ x xs hheld drains.1, drains.2⟩ (calls hxs)
        | stopped xs y b' r t s2 takes next hxs hy fails =>
          exact .stopped (x :: xs) y b' r' t s2 (.more _ _ x xs hheld takes) next (calls hxs) hy
            fails

theorem retain_retained (func : Bytes → Act σ ε Unit) {o : PacketOrderer} (h : o.Regular)
    (nonempty : 0 < o.vec.length) (s : σ) :
    SameRing o (retain func o s).2.1 ∧
      Retained func o.buffer s (retain func o s).1 (retain func o s).2.1.buffer
        (retain func o s).2.2 :=
  retain_loop_retained h nonempty (Nat.lt_succ_of_le List.countP_le_length) s

/-- Operations one after the other, as long as none of them panics, with the outcomes of the
pushes. -/
def operate (func : Bytes → Act σ ε Unit) :
    List (Op 64 Bytes) → PacketOrderer → σ → Option (List Bool × PacketOrderer × σ)
  | [], o, s => some ([], o, s)
  | .push n x :: ops, o, s =>
    match o.push n.toNat x with
    | .ok o' => (operate func ops o' s).map (fun r => (true :: r.1, r.2))
    | .err _ => (operate func ops o s).map (fun r => (false :: r.1, r.2))
    | .panic => none
  | .retain :: ops, o, s =>
    match o.retain func s with
    | (.ok _, o', s') => operate func ops o' s'
    | (.err _, o', s') => operate func ops o' s'
    | (.panic, _, _) => none

/-- A callback that always succeeds handles the packets one after the other. -/
theorem calls_succeed (succeeds : ∀ x s, (func x s).1 = .ok ()) (xs : List Bytes) (s : σ) :
    xs.forM func s = (.ok (), xs.foldl (fun s x => (func x s).2) s) := by
  induction xs generalizing s with
  | nil => rfl
  | cons x xs ih => exact (Act.bind_of_ok (eq_of_fst (succeeds x s))).trans (ih _)

/-- On such a callback `retain` drains the buffer. -/
theorem retain_drains (succeeds : ∀ x s, (func x s).1 = .ok ()) {o : PacketOrderer}
    (h : o.Regular) (nonempty : 0 < o.vec.length) (s : σ) :
    ∃ o' xs, retain func o s = (.ok (), o', xs.foldl (fun s x => (func x s).2) s) ∧
      SameRing o o' ∧ Drains o.buffer xs o'.buffer := by
  obtain ⟨hsame, hends⟩ := retain_retained func h nonempty s
  rcases hret : retain func o s with ⟨r, o', s'⟩
  rw [hret] at hsame hends
  dsimp only at hsame hends
  generalize hb : o'.buffer = b at hends
  cases hends with
  | drained xs _ _ drains calls =>
    rw [calls_succeed succeeds, Prod.mk.injEq] at calls
    subst hb
    exact ⟨o', xs, by rw [calls.2], hsame, drains⟩
  | stopped xs x b' _ t _ _ _ _ call fails =>
    have hok := succeeds x t
    rw [call] at hok
    exact absurd hok fails

/-- Whatever the callback does, the ring stays regular. -/
theorem operate_regular {ops : List (Op 64 Bytes)} {o o' : PacketOrderer} {s t : σ}
    {flags : List Bool} (h : o.Regular) (run : operate func ops o s = some (flags, o', t)) :
    o'.Regular ∧ o'.capacity = o.capacity := by
  induction ops generalizing o s flags with
  | nil =>
    cases run
    exact ⟨h, rfl⟩
  | cons op ops ih =>
    cases op with
    | push n x =>
      unfold operate at run
      cases hpush : o.push n.toNat x with
      | ok o1 =>
        rw [hpush] at run
        obtain ⟨⟨_, _, _⟩, hrun, he⟩ := Option.map_eq_some_iff.mp run
        cases he
        obtain ⟨hregular, hcap, _⟩ := h.pushed hpush
        obtain ⟨hend, hcap'⟩ := ih hregular hrun
        exact ⟨hend, hcap'.trans hcap⟩
      | err e =>
        rw [hpush] at run
        obtain ⟨⟨_, _, _⟩, hrun, he⟩ := Option.map_eq_some_iff.mp run
        cases he
        exact ih h hrun
      | panic =>
        rw [hpush] at run
        cases run
    | retain =>
      unfold operate at run
      by_cases hpos : 0 < o.vec.length
      · obtain ⟨hsame, _⟩ := retain_retained func h hpos s
        rcases hret : o.retain func s with ⟨r, o1, s1⟩
        rw [hret] at run hsame
        have later (hrun : operate func ops o1 s1 = some (flags, o', t)) :
            o'.Regular ∧ o'.capacity = o.capacity := by
          obtain ⟨hend, hcap⟩ := ih hsame.regular hrun
          exact ⟨hend, hcap.trans hsame.capacity⟩
        cases r with
        | ok _ => exact later run
        | err _ => exact later run
        | panic => cases run
      · rw [retain, retainLoop, List.getElem?_eq_none (by omega)] at run
        cases run

/-- A callback that collects the packets. -/
def collect (x : Bytes) : Act (List Bytes) Unit Unit := Act.modify (· ++ [x])

/-- The packet whose callback failed is still expected, or the orderer has moved past it. -/
def Recovers (o : PacketOrderer) (n : BitVec 64) (x : Bytes) : Prop :=
  o.buffer.held n = some x ∨ o.buffer.next = n + 1

/-- An orderer whose next packet is missing hands on nothing, whatever else it accepts. -/
theorem stalled {o o' : PacketOrderer} (h : o.Regular) (missing : o.buffer.held o.buffer.next = none)
    {m : BitVec 64} {y : Bytes} (other : m ≠ o.buffer.next) (hpush : o.push m.toNat y = .ok o')
    (succeeds : ∀ x s, (func x s).1 = .ok ()) (s : σ) :
    ∃ o'', retain func o' s = (.ok (), o'', s) ∧ o''.buffer = o'.buffer := by
  obtain ⟨hregular, _, hpos, hb⟩ := h.pushed hpush
  obtain ⟨o'', xs, hret, _, hdrains⟩ := retain_drains succeeds hregular hpos s
  have hnone : o'.buffer.held o'.buffer.next = none := by
    unfold ReorderBuffer.push at hb
    split at hb
    · rw [Option.some.injEq] at hb
      rw [← hb]
      exact (Function.update_of_ne (Ne.symm other) ..).trans missing
    · cases hb
  obtain ⟨rfl, hsame⟩ := hdrains.unique ⟨.none _, hnone⟩
  exact ⟨o'', hret, hsame⟩

/-- When a callback fails, its packet is lost and still expected: the orderer never recovers by
itself, and until the same order is pushed again no later `retain` hands on anything. -/
theorem failing_callback_never_recovers {capacity : Nat} {ops : List (Op 64 Bytes)}
    {func0 : Bytes → Act σ ε Unit} {flags : List Bool} {o : PacketOrderer} {s0 s1 : σ}
    (reached : operate func0 ops (new capacity) s0 = some (flags, o, s1)) {s : σ} {e : ε}
    (failed : (retain func o s).1 = .err e) :
    ∃ xs x b n, Takes o.buffer xs b ∧ n = b.next ∧ b.held n = some x ∧
      n = o.buffer.next + BitVec.ofNat 64 xs.length ∧
      (∃ t, xs.forM func s = (.ok (), t) ∧ func x t = (.err e, (retain func o s).2.2)) ∧
      ¬ Recovers (retain func o s).2.1 n x ∧
      ∀ (m : BitVec 64) (y : Bytes) (o' : PacketOrderer), m ≠ n →
        (retain func o s).2.1.push m.toNat y = .ok o' →
        ∀ {good : Bytes → Act σ ε Unit}, (∀ x s, (good x s).1 = .ok ()) → ∀ s',
          ∃ o'', retain good o' s' = (.ok (), o'', s') ∧ o''.buffer = o'.buffer := by
  obtain ⟨hregular, _⟩ := operate_regular new_regular reached
  have hpos : 0 < o.vec.length := by
    by_contra hle
    rw [retain, retainLoop, List.getElem?_eq_none (by omega)] at failed
    cases failed
  obtain ⟨hsame, hends⟩ := retain_retained func hregular hpos s
  rw [failed] at hends
  generalize hb : (retain func o s).2.1.buffer = b' at hends
  generalize (retain func o s).2.2 = s' at hends ⊢
  cases hends with
  | stopped xs x b _ t _ takes next calls call fails =>
    refine ⟨xs, x, b, b.next, takes, rfl, next, takes.next, ⟨t, calls, call⟩, ?_, ?_⟩
    · rintro (hheld | hmoved)
      · have hnone : b.lose.held b.next = none := Function.update_self ..
        rw [hb, hnone] at hheld
        cases hheld
      · rw [hb] at hmoved
        have hstay : b.next = b.next + 1 := hmoved
        bv_omega
    · intro m y o' hm hpush good succeeds u
      refine stalled hsame.regular ?_ ?_ hpush succeeds u
      · rw [hb]
        exact Function.update_self ..
      · rw [hb]
        exact hm

/-- Three packets wait in their order. -/
def stocked : PacketOrderer :=
  match operate collect [.push 0 [10], .push 1 [11], .push 2 [12]] (new 8) [] with
  | some (_, o, _) => o
  | none => new 8

/-- A callback that fails on every packet. -/
def refuse (_ : Bytes) : Act (List Bytes) Unit Unit := Act.throw ()

theorem failing_callback_never_recovers_stocked :
    ∃ xs x b n, Takes stocked.buffer xs b ∧ n = b.next ∧ b.held n = some x ∧
      n = stocked.buffer.next + BitVec.ofNat 64 xs.length ∧
      (∃ t, xs.forM refuse [] = (.ok (), t) ∧
        refuse x t = (.err (), (retain refuse stocked []).2.2)) ∧
      ¬ Recovers (retain refuse stocked []).2.1 n x ∧
      ∀ (m : BitVec 64) (y : Bytes) (o' : PacketOrderer), m ≠ n →
        (retain refuse stocked []).2.1.push m.toNat y = .ok o' →
        ∀ {good : Bytes → Act (List Bytes) Unit Unit}, (∀ x s, (good x s).1 = .ok ()) → ∀ s',
          ∃ o'', retain good o' s' = (.ok (), o'', s') ∧ o''.buffer = o'.buffer := by
  have reached : operate collect [.push 0 [10], .push 1 [11], .push 2 [12]] (new 8) [] =
      some ([true, true, true], stocked, []) := by decide +kernel
  have failed : (retain refuse stocked []).1 = .err () := by decide +kernel
  exact failing_callback_never_recovers reached failed

/-- The orderer after the callback failed on the first packet and a fourth one arrived. -/
def wedged : PacketOrderer :=
  match (retain refuse stocked []).2.1.push 3 [13] with
  | .ok o => o
  | _ => stocked

/-- The three packets behind the failed one are held, and no later `retain` hands them on. -/
theorem failing_callback_wedges :
    (retain refuse stocked []).1 = .err () ∧
      (retain refuse stocked []).2.1.buffer.next = 0 ∧
      (retain refuse stocked []).2.1.buffer.held 0 = none ∧
      (retain refuse stocked []).2.1.push 3 [13] = .ok wedged ∧
      [1, 2, 3].map wedged.buffer.held = [some [11], some [12], some [13]] ∧
      (retain collect wedged []).1 = .ok () ∧ (retain collect wedged []).2.2 = [] := by
  decide +kernel

end

end Theta.PacketOrderer
