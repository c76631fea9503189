import Mathlib.Data.List.Forall2
import Theta.Proofs.Occupancy
import Theta.Proofs.Resender

namespace Theta
open Lib

namespace ReliableBufferedPacket

/-- The clock of a packet takes a tick without passing `u32::MAX`. -/
def inTime (delta : U32) (packet : ReliableBufferedPacket) : Bool :=
  decide (packet.currentTime.toNat + delta.toNat < 2 ^ 32)

def due (delta : U32) (packet : ReliableBufferedPacket) : Bool :=
  decide (packet.resendInterval ≤ packet.currentTime + delta)

/-- A packet after a tick. -/
def ticked (delta : U32) (packet : ReliableBufferedPacket) : ReliableBufferedPacket :=
  if packet.due delta then
    { packet with
      currentTime := 0
      resendAttempts := if packet.resendAttempts = 0 then 0 else packet.resendAttempts - 1 }
  else { packet with currentTime := packet.currentTime + delta }

theorem due_iff {delta : U32} {packet : ReliableBufferedPacket} (h : packet.inTime delta) :
    packet.due delta ↔ packet.resendInterval.toNat ≤ packet.currentTime.toNat + delta.toNat := by
  unfold inTime at h
  unfold due
  rw [decide_eq_true_eq] at h ⊢
  rw [BitVec.le_def, BitVec.toNat_add, Nat.mod_eq_of_lt h]

end ReliableBufferedPacket

namespace PacketResender
open ReliableBufferedPacket

/-- The packets that are due in a tick, with their slots, as far as no clock runs over. -/
def dueFrom (delta : U32) : Nat → List (Option ReliableBufferedPacket) →
    List (Nat × ReliableBufferedPacket)
  | _, [] => []
  | i, none :: rest => dueFrom delta (i + 1) rest
  | i, some packet :: rest =>
    if packet.inTime delta then
      if packet.due delta then (i, packet) :: dueFrom delta (i + 1) rest
      else dueFrom delta (i + 1) rest
    else []

/-- The packets that go out again: those that are due and have an attempt left. -/
def emittedFrom (delta : U32) (i : Nat) (values : List (Option ReliableBufferedPacket)) :
    List (Nat × ReliableBufferedPacket) :=
  ((dueFrom delta i values).filter (fun e => e.2.resendAttempts ≠ 0)).map
    (fun e => (e.1, e.2.ticked delta))

/-- The slots that a tick empties. -/
def expiredFrom (delta : U32) (i : Nat) (values : List (Option ReliableBufferedPacket)) : List Nat :=
  values.findIdxs (fun x => x.any (fun packet => expires packet delta)) i

/-- No clock runs over in a tick. -/
def inTime (r : PacketResender) (delta : U32) : Bool :=
  r.packets.values.all (fun x => x.all (fun packet => packet.inTime delta))

/-- What a tick leaves of a slot. -/
def left (delta : U32) (x : Option ReliableBufferedPacket) : Option ReliableBufferedPacket :=
  x.bind (fun packet => if expires packet delta then none else some (packet.ticked delta))

def emissions (r : PacketResender) (delta : U32) : List (Nat × ReliableBufferedPacket) :=
  emittedFrom delta 0 r.packets.values

def expired (r : PacketResender) (delta : U32) : List Nat := expiredFrom delta 0 r.packets.values

/-- A resender after a tick. -/
def ticked (r : PacketResender) (delta : U32) : PacketResender where
  packets := { r.packets with
    values := r.packets.values.map (left delta)
    freeSlots := ((r.expired delta).map (BitVec.ofNat 32)).reverse ++ r.packets.freeSlots }
  capacity := r.capacity

section
variable {σ ε : Type} {delta : U32} {func : ReliableBufferedPacket → Act σ ε Unit}

/-- One visit lets the clock run over, or calls the function on a due packet with an attempt left. -/
theorem visit_eq (packet : ReliableBufferedPacket) : visit delta func packet =
    if packet.inTime delta then
      if packet.due delta ∧ packet.resendAttempts ≠ 0 then do
        func (packet.ticked delta)
        pure (packet.ticked delta, expires packet delta)
      else pure (packet.ticked delta, expires packet delta)
    else Act.abort := by
  have last : (packet.resendAttempts - 1 = 0) ↔ packet.resendAttempts = 1 := by
    constructor
    · intro h
      rw [← BitVec.sub_add_cancel packet.resendAttempts 1, h]
      rfl
    · intro h
      rw [h]
      rfl
  unfold visit ReliableBufferedPacket.inTime ReliableBufferedPacket.due ReliableBufferedPacket.ticked
    expires ReliableBufferedPacket.due
  by_cases time : packet.currentTime.toNat + delta.toNat < 2 ^ 32
  · rw [if_pos time, if_pos (decide_eq_true time)]
    dsimp only
    by_cases due : packet.resendInterval ≤ packet.currentTime + delta
    · have hdue := decide_eq_true due
      rw [if_pos due]
      simp only [hdue, ↓reduceIte, true_and, Bool.true_and, ne_eq, ite_not]
      by_cases zero : packet.resendAttempts = 0
      · simp only [zero, ↓reduceIte, true_or, decide_true]
      · simp only [zero, ↓reduceIte, false_or, last]
    · have hdue := decide_eq_false due
      rw [if_neg due]
      simp only [hdue, Bool.false_eq_true, ↓reduceIte, false_and, Bool.false_and]
  · rw [if_neg time, if_neg (by simpa using time)]

theorem expires_due {packet : ReliableBufferedPacket} (h : expires packet delta = true) :
    packet.due delta = true := by
  unfold expires at h
  rw [Bool.and_eq_true] at h
  exact h.1

theorem due_from_slot {i : Nat} {values : List (Option ReliableBufferedPacket)} {j : Nat}
    {packet : ReliableBufferedPacket} (h : (j, packet) ∈ dueFrom delta i values) :
    i ≤ j ∧ values[j - i]? = some (some packet) ∧ packet.due delta = true ∧
      packet.inTime delta = true := by
  induction values generalizing i with
  | nil => exact absurd h List.not_mem_nil
  | cons x rest ih =>
    have later (h : (j, packet) ∈ dueFrom delta (i + 1) rest) : i ≤ j ∧
        (x :: rest)[j - i]? = some (some packet) ∧ packet.due delta = true ∧
          packet.inTime delta = true := by
      obtain ⟨hle, hslot, hdue, htime⟩ := ih h
      rw [show j - i = (j - (i + 1)) + 1 by omega, List.getElem?_cons_succ]
      exact ⟨by omega, hslot, hdue, htime⟩
    cases x with
    | none => exact later h
    | some head =>
      unfold dueFrom at h
      split at h
      · rename_i time
        split at h
        · rename_i due
          rcases List.mem_cons.mp h with heq | h
          · cases heq
            simp [due, time]
          · exact later h
        · exact later h
      · exact absurd h List.not_mem_nil

theorem due_from_nodup {i : Nat} {values : List (Option ReliableBufferedPacket)} :
    ((dueFrom delta i values).map Prod.fst).Nodup := by
  induction values generalizing i with
  | nil => exact List.nodup_nil
  | cons x rest ih =>
    cases x with
    | none => exact ih
    | some packet =>
      unfold dueFrom
      split
      · split
        · rw [List.map_cons, List.nodup_cons]
          refine ⟨fun h => ?_, ih⟩
          obtain ⟨⟨j, other⟩, hmem, rfl⟩ := List.mem_map.mp h
          have := (due_from_slot hmem).1
          omega
        · exact ih
      · exact List.nodup_nil

/-- Without an overflow every due packet gets its turn. -/
theorem mem_due_from {i j : Nat} {values : List (Option ReliableBufferedPacket)}
    {packet : ReliableBufferedPacket}
    (time : values.all (fun x => x.all (fun packet => packet.inTime delta)) = true)
    (hslot : values[j]? = some (some packet)) (hdue : packet.due delta = true) :
    (i + j, packet) ∈ dueFrom delta i values := by
  induction values generalizing i j with
  | nil => cases hslot
  | cons x rest ih =>
    rw [List.all_cons, Bool.and_eq_true] at time
    cases j with
    | zero =>
      cases hslot
      have hin : packet.inTime delta = true := by simpa using time.1
      simp [dueFrom, hin, hdue]
    | succ j =>
      have hrest := ih (i := i + 1) time.2 hslot
      rw [Nat.add_right_comm] at hrest
      cases x with
      | none => exact hrest
      | some head =>
        have hin : head.inTime delta = true := by simpa using time.1
        unfold dueFrom
        rw [if_pos hin]
        split
        · exact List.mem_cons_of_mem _ hrest
        · exact hrest

/-- The end of the visits: what is left of the slots, unless a clock ran over. -/
def visited (delta : U32) (i : Nat) (values : List (Option ReliableBufferedPacket)) :
    Act σ ε (List (Option ReliableBufferedPacket) × List U32) :=
  if values.all (fun x => x.all (fun packet => packet.inTime delta)) then
    pure (values.map (left delta), (expiredFrom delta i values).map (BitVec.ofNat 32))
  else Act.abort

theorem visited_cons (x : Option ReliableBufferedPacket) (i : Nat)
    (rest : List (Option ReliableBufferedPacket))
    (time : x.all (fun packet => packet.inTime delta) = true) :
    (visited delta i (x :: rest) : Act σ ε _) = visited delta (i + 1) rest >>= fun (values, freed) =>
      pure (left delta x :: values,
        if x.any (fun packet => expires packet delta) then BitVec.ofNat 32 i :: freed else freed) := by
  unfold visited expiredFrom
  rw [List.all_cons, time, Bool.true_and, List.findIdxs_cons, List.map_cons]
  split
  · rw [pure_bind]
    split <;> rfl
  · rw [Act.abort_bind]

theorem emitted_from_cons (i : Nat) (rest : List (Option ReliableBufferedPacket))
    {packet : ReliableBufferedPacket} (time : packet.inTime delta = true) :
    emittedFrom delta i (some packet :: rest) =
      if packet.due delta = true ∧ packet.resendAttempts ≠ 0 then
        (i, packet.ticked delta) :: emittedFrom delta (i + 1) rest
      else emittedFrom delta (i + 1) rest := by
  unfold emittedFrom
  rw [dueFrom, if_pos time]
  by_cases due : packet.due delta = true
  · by_cases zero : packet.resendAttempts = 0
    · simp [due, zero]
    · rw [if_pos due, if_pos ⟨due, zero⟩, List.filter_cons_of_pos (by simpa using zero)]
      rfl
  · rw [if_neg due, if_neg (fun h => due h.1)]

/-- What the visits of a tick do: the calls for the packets that go out again, one after the other,
and then a panic if a clock runs over. -/
theorem retain_loop_calls (i : Nat) (values : List (Option ReliableBufferedPacket)) :
    SlotMap.retainLoop (visit delta func) i values =
      forM (emittedFrom delta i values) (fun e => func e.2) >>= fun _ => visited delta i values := by
  induction values generalizing i with
  | nil => rfl
  | cons x rest ih =>
    cases x with
    | none =>
      rw [SlotMap.retainLoop, ih, visited_cons none i rest rfl, bind_assoc]
      rfl
    | some packet =>
      rw [SlotMap.retainLoop, visit_eq, ih]
      by_cases time : packet.inTime delta = true
      · have hend := visited_cons (σ := σ) (ε := ε) (some packet) i rest time
        rw [if_pos time, emitted_from_cons i rest time]
        simp only [left, Option.any_some, Option.bind_some] at hend
        split
        · rw [List.forM_cons, hend]
          by_cases gone : expires packet delta = true
          · simp only [gone, ↓reduceIte, bind_assoc, pure_bind]
          · simp only [gone, Bool.false_eq_true, ↓reduceIte, bind_assoc, pure_bind]
        · rw [hend]
          by_cases gone : expires packet delta = true
          · simp only [gone, ↓reduceIte, bind_assoc, pure_bind]
          · simp only [gone, Bool.false_eq_true, ↓reduceIte, bind_assoc, pure_bind]
      · have hnone : emittedFrom delta i (some packet :: rest) = [] := by
          rw [emittedFrom, dueFrom, if_neg time]
          rfl
        rw [if_neg time, Act.abort_bind, hnone, List.forM_nil, pure_bind, visited, List.all_cons]
        simp [time]

/-- The callback of a tick gets the packets that go out again, in the order of their slots. -/
theorem update_eq (r : PacketResender) : r.update delta func =
    forM (r.emissions delta) (fun e => func e.2) >>= fun _ =>
      if r.inTime delta then pure (r.ticked delta) else Act.abort := by
  rw [update, SlotMap.retainIf, retain_loop_calls, visited, emissions, inTime, bind_assoc, bind_assoc]
  congr 1
  funext _
  split
  · rw [pure_bind, pure_bind]
    rfl
  · rfl

/-- A tick that returns has no clock that ran over. -/
theorem update_ok {r r' : PacketResender} {s t : σ} (h : r.update delta func s = (.ok r', t)) :
    r.inTime delta = true ∧ r' = r.ticked delta := by
  rw [update_eq, Act.bind_apply] at h
  split at h
  · split at h
    · rename_i time
      cases h
      exact ⟨time, rfl⟩
    · cases h
  · cases h
  · cases h

theorem ticked_slot (r : PacketResender) (i : Nat) :
    (r.ticked delta).packets.values[i]? = some none ↔
      r.packets.values[i]? = some none ∨ i ∈ r.expired delta := by
  have hexpired : i ∈ r.expired delta ↔
      ∃ packet, r.packets.values[i]? = some (some packet) ∧ expires packet delta = true := by
    rw [expired, expiredFrom, List.mem_findIdxs_iff_exists_getElem_pos]
    simp only [List.getElem?_eq_some_iff, Option.any_eq_true]
    constructor
    · rintro ⟨hlt, packet, hslot, hexp⟩
      exact ⟨packet, ⟨hlt, hslot⟩, hexp⟩
    · rintro ⟨packet, ⟨hlt, hslot⟩, hexp⟩
      exact ⟨hlt, packet, hslot, hexp⟩
  rw [hexpired, ticked]
  simp only [List.getElem?_map]
  rcases r.packets.values[i]? with _ | _ | packet
  · simp
  · simp [left]
  · simp [left]

end

end PacketResender

end Theta
