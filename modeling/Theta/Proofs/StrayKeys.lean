import Theta.Proofs.Decoding
import Theta.Proofs.Moves

namespace Theta
open Lib

namespace SlotMap

theorem remove_panic_iff {ε : Type} (m : SlotMap T) (key : SlotMapKey) :
    (m.remove key : Outcome ε _) = .panic ↔ m.generations.length ≤ key.index.toNat := by
  unfold remove
  cases hg : m.generations[key.index.toNat]? with
  | none => exact iff_of_true rfl (List.getElem?_eq_none_iff.mp hg)
  | some g =>
    have hlt := (List.getElem?_eq_some_iff.mp hg).1
    refine iff_of_false ?_ (by omega)
    dsimp only
    split
    · simp
    · split <;> simp

/-- Removing a key that is not the key of an entry changes nothing. -/
theorem remove_stray {ε : Type} {m : SlotMap T} {key : SlotMapKey}
    (within : key.index.toNat < m.generations.length) (stray : m.get key = none) :
    (m.remove key : Outcome ε _) = .ok (none, m) := by
  cases hremove : (m.remove key : Outcome ε _) with
  | ok r =>
    obtain ⟨value, m'⟩ := r
    obtain ⟨hvalue, _, ⟨_, hsame⟩ | ⟨_, hsome, _⟩⟩ := remove_cases hremove
    · rw [hvalue, stray, hsame]
    · rw [hvalue, stray] at hsome
      cases hsome
  | err e => exact absurd hremove (remove_ne_err m key e)
  | panic =>
    rw [remove_panic_iff] at hremove
    omega

end SlotMap

/-- Every key of the packet can be decoded, or the packet ends inside the first that cannot. -/
def legible : Nat → Bytes → Bool
  | 0, _ => true
  | fuel + 1, packet =>
    match SlotMapKey.decode packet with
    | .ok (_, packet) => legible fuel packet
    | .err _ => true
    | .panic => false

section
variable {m : Endpoint}

/-- The slots that were ever used stay, whatever key is acknowledged. -/
theorem release_key_safe_iff (key : SlotMapKey) (m : Endpoint) :
    ((releaseKey key m).1 ≠ .panic ↔
      key.index.toNat < m.resender.packets.generations.length) ∧
    (releaseKey key m).2.resender.packets.generations = m.resender.packets.generations := by
  have panics : (m.resender.remove key : Outcome ConnectionError _) = .panic ↔
      m.resender.packets.generations.length ≤ key.index.toNat := by
    rw [← SlotMap.remove_panic_iff (ε := ConnectionError), PacketResender.remove]
    cases (m.resender.packets.remove key : Outcome ConnectionError _) <;> simp
  have same := noticing_resender m key
  rcases release_key_cases key m with ⟨hr, he⟩ | ⟨hr, he⟩ | ⟨packet, resender, hr, he⟩
  · rw [he, same]
    exact ⟨iff_of_false (by simp) (Nat.not_lt_of_le (panics.mp hr)), rfl⟩
  · rw [he, same]
    refine ⟨iff_of_true (by simp) (Nat.lt_of_not_le fun hle => ?_), rfl⟩
    rw [panics.mpr hle] at hr
    cases hr
  · rw [he]
    refine ⟨iff_of_true (by simp) (Nat.lt_of_not_le fun hle => ?_), ?_⟩
    · rw [panics.mpr hle] at hr
      cases hr
    · exact (SlotMap.remove_cases (PacketResender.remove_ok hr).2).2.1

theorem acknowledge_locally_panic_iff (fuel : Nat) (packet : Bytes) (m : Endpoint) :
    (acknowledgeLocally fuel packet m).1 ≠ .panic ↔
      legible fuel packet = true ∧ ∀ key ∈ decodeKeys fuel packet,
        key.index.toNat < m.resender.packets.generations.length := by
  induction fuel generalizing packet m with
  | zero => simp [acknowledgeLocally, legible, decodeKeys]
  | succ fuel ih =>
    unfold acknowledgeLocally legible decodeKeys
    cases SlotMapKey.decode packet with
    | err e => simp
    | panic => simp
    | ok r =>
      obtain ⟨key, rest⟩ := r
      obtain ⟨safe, same⟩ := release_key_safe_iff key m
      have later := ih rest (releaseKey key m).2
      rw [same] at later
      simp only [List.mem_cons, forall_eq_or_imp]
      rcases hrun : releaseKey key m with ⟨r, m'⟩
      rw [hrun] at safe later
      cases r with
      | ok _ =>
        rw [Act.bind_of_ok hrun, later]
        have within := safe.mp (by simp)
        simp only [within, true_and]
      | err e => exact absurd (congrArg Prod.fst hrun) (release_key_ne_err key m e)
      | panic =>
        rw [Act.bind_of_panic hrun]
        have outside := mt safe.mpr (by simp)
        simp only [outside, false_and, and_false, ne_eq, not_true_eq_false]

/-- Removing a key is safe exactly when its slot was used at some time, and a packet of
acknowledgements is exactly when that is so of each of its keys and all of them can be decoded. -/
theorem acknowledging_safe_iff {T : Type} (slots : SlotMap T) (key : SlotMapKey) (m : Endpoint)
    (packet : Bytes) :
    (((slots.remove key : Outcome Unit _) ≠ .panic ∧
        (slots.get key = none → (slots.remove key : Outcome Unit _) = .ok (none, slots))) ↔
      key.index.toNat < slots.generations.length) ∧
    ((acknowledgeLocally packet.length packet m).1 ≠ .panic ↔
      legible packet.length packet = true ∧ ∀ key ∈ decodeKeys packet.length packet,
        key.index.toNat < m.resender.packets.generations.length) := by
  refine ⟨⟨fun safe => ?_, fun within => ⟨?_, SlotMap.remove_stray within⟩⟩,
    acknowledge_locally_panic_iff _ packet m⟩
  · by_contra outside
    exact safe.1 (SlotMap.remove_panic_iff slots key |>.mpr (Nat.le_of_not_lt outside))
  · intro hpanic
    rw [SlotMap.remove_panic_iff] at hpanic
    omega

/-- A key of a slot that was never used stops the connection. -/
theorem stray_key_panics :
    (({} : SlotMap Nat).remove ⟨0, 0⟩ : Outcome Unit _) = .panic ∧
      (acknowledgeLocally 2 [0, 0] (.fresh 0)).1 = .panic := by
  decide

end

end Theta
