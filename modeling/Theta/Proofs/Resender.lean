import Theta.Net.Resend
import Theta.Proofs.Slots

namespace Theta.PacketResender
open Lib

theorem add_ok {r r' : PacketResender} {key : SlotMapKey}
    {func : SlotMapKey → ReliableBufferedPacket} (h : r.add func = .ok (key, r')) :
    r.packets.len ≠ r.capacity ∧ r'.capacity = r.capacity ∧
      (r.packets.add (fun key => some (func key)) : Outcome PacketResenderError _) =
        .ok (key, r'.packets) := by
  unfold add at h
  split at h
  · cases h
  · rename_i hne
    rw [Outcome.bind_ok] at h
    obtain ⟨⟨k, packets⟩, hadd, he⟩ := h
    cases he
    exact ⟨hne, rfl, hadd⟩

theorem add_err {r : PacketResender} {e : PacketResenderError}
    {func : SlotMapKey → ReliableBufferedPacket} (h : r.add func = .err e) :
    r.packets.len = r.capacity := by
  unfold add at h
  split at h
  · rename_i he
    exact he
  · exact absurd h (Outcome.bind_ne_err (SlotMap.add_ne_err _ _) (fun _ => by simp) e)

theorem remove_ok {ε : Type} {r r' : PacketResender} {key : SlotMapKey}
    {packet : Option ReliableBufferedPacket}
    (h : (r.remove key : Outcome ε _) = .ok (packet, r')) :
    r'.capacity = r.capacity ∧
      (r.packets.remove key : Outcome ε _) = .ok (packet, r'.packets) := by
  unfold remove at h
  rw [Outcome.bind_ok] at h
  obtain ⟨⟨v, packets⟩, hrem, he⟩ := h
  cases he
  exact ⟨rfl, hrem⟩

theorem remove_none {ε : Type} {r r' : PacketResender} {key : SlotMapKey}
    (h : (r.remove key : Outcome ε _) = .ok (none, r')) : r' = r := by
  obtain ⟨hcapacity, hremove⟩ := remove_ok h
  obtain ⟨packets, capacity⟩ := r
  obtain ⟨packets', capacity'⟩ := r'
  obtain ⟨_, _, ⟨_, rfl⟩ | ⟨_, hsome, _⟩⟩ := SlotMap.remove_cases hremove
  · cases hcapacity
    rfl
  · cases hsome

theorem remove_ne_err {ε : Type} (r : PacketResender) (key : SlotMapKey) :
    ∀ e : ε, r.remove key ≠ .err e :=
  Outcome.bind_ne_err (SlotMap.remove_ne_err _ _) (fun _ => by simp)

section
variable {σ ε : Type} {delta : U32} {func : ReliableBufferedPacket → Act σ ε Unit} {s t : σ}

/-- The clocks of a packet change, but not what it carries. -/
theorem visit_payload {packet : ReliableBufferedPacket} {r : ReliableBufferedPacket × Bool}
    (h : visit delta func packet s = (.ok r, t)) : r.1.payload = packet.payload := by
  unfold visit at h
  split at h
  · dsimp only at h
    split at h
    · split at h
      · rw [Act.bind_apply] at h
        split at h
        · cases h
          rfl
        · cases h
        · cases h
      · cases h
        rfl
    · cases h
      rfl
  · cases h

/-- A packet that is due on its last attempt is dropped. -/
def expires (packet : ReliableBufferedPacket) (delta : U32) : Bool :=
  decide (packet.resendInterval ≤ packet.currentTime + delta) &&
    decide (packet.resendAttempts = 0 ∨ packet.resendAttempts = 1)

theorem visit_drops {packet : ReliableBufferedPacket} {r : ReliableBufferedPacket × Bool}
    (h : visit delta func packet s = (.ok r, t)) (drop : r.2 = true) :
    expires packet delta = true := by
  unfold visit at h
  split at h
  · dsimp only at h
    split at h
    · rename_i due
      have attempts : packet.resendAttempts = 0 ∨ packet.resendAttempts = 1 := by
        split at h
        · rw [Act.bind_apply] at h
          split at h
          · cases h
            have last : packet.resendAttempts - 1 = 0 := by simpa using drop
            right
            rw [← BitVec.sub_add_cancel packet.resendAttempts 1, last]
            rfl
          · cases h
          · cases h
        · rename_i none
          left
          exact not_not.mp none
      rw [expires, Bool.and_eq_true, decide_eq_true_eq, decide_eq_true_eq]
      exact ⟨due, attempts⟩
    · cases h
      cases drop
  · cases h

/-- The packets that a tick keeps were held before under their keys. -/
theorem clock_cases {packets packets' : SlotMap ReliableBufferedPacket} (healthy : packets.Healthy)
    (fits : packets.Fits) (h : packets.retainIf (visit delta func) s = (.ok packets', t)) :
    packets'.Healthy ∧ packets'.generations = packets.generations ∧
      ∀ key packet', packets'.get key = some packet' →
        ∃ packet, packets.get key = some packet ∧ packet'.payload = packet.payload := by
  obtain ⟨h1, h2, h3⟩ := SlotMap.retain_cases
    (Q := fun v r => r.1.payload = v.payload) (fun _ _ _ _ hv => visit_payload hv) healthy fits h
  refine ⟨h1, h2, fun key packet' hget => ?_⟩
  have hv := h3 key
  rw [hget] at hv
  generalize packets.get key = old at hv
  cases hv with
  | kept v w h => exact ⟨v, rfl, h⟩

theorem clock_keeps {packets packets' : SlotMap ReliableBufferedPacket} {key : SlotMapKey}
    {packet : ReliableBufferedPacket} (healthy : packets.Healthy) (fits : packets.Fits)
    (h : packets.retainIf (visit delta func) s = (.ok packets', t))
    (held : packets.get key = some packet) (stays : expires packet delta = false) :
    ∃ packet', packets'.get key = some packet' ∧ packet'.payload = packet.payload := by
  obtain ⟨_, _, visited⟩ := SlotMap.retain_cases
    (Q := fun v r => r.1.payload = v.payload ∧ (r.2 = true → expires v delta = true))
    (fun _ _ _ _ hv => ⟨visit_payload hv, visit_drops hv⟩) healthy fits h
  have hv := visited key
  rw [held] at hv
  generalize packets'.get key = new at hv
  cases hv with
  | kept v w h => exact ⟨w, rfl, h.1⟩
  | dropped v w h =>
    rw [h.2 rfl] at stays
    cases stays

theorem mem_clock {packets packets' : SlotMap ReliableBufferedPacket}
    {packet' : ReliableBufferedPacket}
    (h : packets.retainIf (visit delta func) s = (.ok packets', t))
    (held : some packet' ∈ packets'.values) :
    ∃ packet, some packet ∈ packets.values ∧ packet'.payload = packet.payload :=
  SlotMap.mem_retain (Q := fun v r => r.1.payload = v.payload)
    (fun _ _ _ _ hv => visit_payload hv) h held

end

end Theta.PacketResender
