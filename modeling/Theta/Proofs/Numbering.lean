import Theta.Proofs.Atomicity
import Theta.Proofs.Counters
import Theta.Proofs.Receipts

namespace Theta
open Lib Relation

namespace SlotMap

/-- The slots without what they hold. -/
def vacant (m : SlotMap T) : SlotMap Unit where
  values := m.values.map (Option.map fun _ => ())
  generations := m.generations
  freeSlots := m.freeSlots

theorem vacant_len (m : SlotMap T) : m.vacant.len = m.len := by
  simp [vacant, len]

theorem vacant_get (m : SlotMap T) (key : SlotMapKey) :
    (m.vacant.get key).isSome = (m.get key).isSome := by
  simp only [vacant, get, List.getElem?_map]
  cases m.values[key.index.toNat]? with
  | none => rfl
  | some value =>
    cases value with
    | none => rfl
    | some value =>
      by_cases h : m.generations[key.index.toNat]? = some key.generation <;> simp [h]

/-- Which slot is taken next does not depend on what the slots hold. -/
theorem vacant_add {ε δ : Type} (m : SlotMap T) (value : SlotMapKey → T) :
    (∃ key m', (m.add (fun key => some (value key)) : Outcome ε _) = .ok (key, m') ∧
      (m.vacant.add (fun _ => some ()) : Outcome δ _) = .ok (key, m'.vacant)) ∨
    ((m.add (fun key => some (value key)) : Outcome ε _) = .panic ∧
      (m.vacant.add (fun _ => some ()) : Outcome δ _) = .panic) := by
  unfold add vacant
  cases m.freeSlots with
  | cons freeSlot rest =>
    dsimp only
    cases m.generations[freeSlot.toNat]? with
    | none => exact Or.inr ⟨rfl, rfl⟩
    | some g =>
      by_cases hg : g.toNat + 1 < 2 ^ 32
      · simp only [Outcome.ofOption, nextGeneration, if_pos hg, List.getElem?_map, Outcome.ok_bind]
        cases m.values[freeSlot.toNat]? with
        | none => exact Or.inr ⟨rfl, rfl⟩
        | some old =>
          refine Or.inl ⟨_, _, rfl, ?_⟩
          simp [List.map_set]
      · simp only [Outcome.ofOption, nextGeneration, if_neg hg, Outcome.ok_bind]
        exact Or.inr ⟨rfl, rfl⟩
  | nil =>
    simp only [List.length_map]
    split
    · refine Or.inl ⟨_, _, rfl, ?_⟩
      simp
    · cases m.generations[m.values.length]? with
      | none => exact Or.inr ⟨rfl, rfl⟩
      | some g =>
        by_cases hg : g.toNat + 1 < 2 ^ 32
        · simp only [Outcome.ofOption, nextGeneration, if_pos hg, Outcome.ok_bind]
          refine Or.inl ⟨_, _, rfl, ?_⟩
          simp
        · simp only [Outcome.ofOption, nextGeneration, if_neg hg, Outcome.ok_bind]
          exact Or.inr ⟨rfl, rfl⟩

/-- Up to `n` more values can be stored until `capacity` are: no generation has to pass its maximum,
and every key leads back to a value. -/
def takes (capacity : Nat) : Nat → SlotMap Unit → Bool
  | 0, _ => true
  | n + 1, m =>
    if m.len = capacity then true
    else match (m.add (fun _ => some ()) : Outcome Unit _) with
      | .ok (key, m) => (m.get key).isSome && takes capacity n m
      | _ => false

end SlotMap

/-- The next `n` packets of the channel do not run into the ends of the resender's numbers. -/
def Endpoint.numbers (m : Endpoint) (channel : ConnectionChannel) (n : Nat) : Prop :=
  channel.channel.isReliable = true →
    m.resender.packets.vacant.takes m.resender.capacity n = true

section
variable {channel : ConnectionChannel} {order : Option U32} {segment : Option PacketSegmentMetadata}
  {payload : Bytes} {m : Endpoint}

/-- A packet is sent or refused, unless the resender has no number left for it. -/
theorem send_real_packet_returns_iff (order : Option U32) (m : Endpoint) (n : Nat)
    (id : channel.localId.toNat < 2 ^ 31)
    (valid : ∀ x, segment = some x → x.Valid) (hlen : payload.length ≤ maxPacketLen) :
    ((sendRealPacket channel order segment payload m).1 ≠ .panic ∧
      ∀ key, (sendRealPacket channel order segment payload m).1 = .ok key →
        (sendRealPacket channel order segment payload m).2.numbers channel n) ↔
      m.numbers channel (n + 1) := by
  cases kind : channel.channel.reliability with
  | none =>
    have unreliable : channel.channel.isReliable = false := by simp [Channel.isReliable, kind]
    rw [send_unreliable id valid hlen kind]
    simp [Endpoint.numbers, unreliable]
  | some reliable =>
    have hreliable : channel.channel.isReliable = true := by simp [Channel.isReliable, kind]
    rw [send_reliable id valid hlen kind]
    simp only [Endpoint.numbers, hreliable, true_imp_iff, SlotMap.takes, SlotMap.vacant_len,
      Act.bind_apply, Act.lift_apply, PacketResender.add]
    by_cases full : m.resender.packets.len = m.resender.capacity
    · simp [full, Outcome.mapErr]
    · simp only [if_neg full]
      rcases SlotMap.vacant_add (ε := PacketResenderError) (δ := Unit) m.resender.packets
          (fun key => ReliableBufferedPacket.new
            (Packet.bytes ⟨channel.localId, segment, order, some key, payload⟩)
            reliable.resendInterval reliable.resendAttempts) with
        ⟨key, packets, hadd, hvacant⟩ | ⟨hadd, hvacant⟩
      · have hget := SlotMap.vacant_get packets key
        simp only [hadd, hvacant, Outcome.ok_bind, Outcome.mapErr]
        cases hpacket : packets.get key with
        | none =>
          rw [hpacket] at hget
          simp [Outcome.ofOption, hget]
        | some packet =>
          rw [hpacket] at hget
          simp [Outcome.ofOption, hget, emit, sendDatagram]
      · simp only [hadd, hvacant, Outcome.panic_bind, Outcome.mapErr]
        simp

/-- The segments are sent or refused, unless the resender has no numbers left for them. -/
theorem send_segments_returns_iff {segmentKey : U32} {count i : Nat} {segments : List Bytes}
    (id : channel.localId.toNat < 2 ^ 31)
    (valid : ∀ j, j < segments.length → PacketSegmentMetadata.Valid ⟨segmentKey, i + j, count⟩)
    (short : ∀ segment ∈ segments, segment.length ≤ maxPacketLen) :
    (sendSegments channel order segmentKey count i segments m).1 ≠ .panic ↔
      m.numbers channel segments.length := by
  induction segments generalizing i m with
  | nil => simp [sendSegments, Endpoint.numbers, SlotMap.takes]
  | cons segment rest ih =>
    obtain ⟨hsegment, hrest⟩ := List.forall_mem_cons.mp short
    have hvalid : ∀ x, some ⟨segmentKey, i, count⟩ = some x → PacketSegmentMetadata.Valid x := by
      rintro x ⟨⟩
      exact valid 0 (Nat.succ_pos _)
    have hnext (t : Endpoint) := ih (i := i + 1) (m := t) (fun j hj => by
      rw [Nat.add_right_comm]
      exact valid (j + 1) (Nat.succ_lt_succ hj)) hrest
    rw [List.length_cons, ← send_real_packet_returns_iff order m rest.length id
      hvalid hsegment, sendSegments]
    rcases hsend : sendRealPacket channel order (some ⟨segmentKey, i, count⟩) segment m with ⟨r, t⟩
    cases r with
    | err e =>
      rw [Act.bind_of_err hsend]
      simp
    | panic =>
      rw [Act.bind_of_panic hsend]
      simp
    | ok key =>
      rw [Act.bind_of_ok hsend, ne_eq, Act.bind_pure_panic, ← ne_eq, hnext t]
      simp

theorem parts_length (payload : Bytes) :
    (parts payload).length ≤ 65536 ↔
      payload.length ≤ 65536 * (maxPacketLen - maxPacketMetadataLen) := by
  have hsize : maxPacketLen - maxPacketMetadataLen = 1969 := rfl
  simp only [parts, chunks, List.length_map, List.length_range, hsize]
  omega

/-- A payload with more segments than can be numbered stops the call at the first of them. -/
theorem transmit_unnumbered (id : channel.localId.toNat < 2 ^ 31)
    (big : ¬ payload.length ≤ 65536 * (maxPacketLen - maxPacketMetadataLen)) :
    (transmit channel order payload m).1 = .panic := by
  have hmany : ¬ (parts payload).length ≤ 65536 := fun h => big ((parts_length payload).mp h)
  have long : maxNonSegmentedPayloadLen < payload.length := by
    have hsize : 65536 * (maxPacketLen - maxPacketMetadataLen) = 129040384 := rfl
    have hwhole : maxNonSegmentedPayloadLen = 1980 := rfl
    omega
  rw [transmit, if_pos long]
  simp only [Act.bind_apply, Act.get_apply, Act.modify_apply]
  cases hall : parts payload with
  | nil => simp [hall] at hmany
  | cons first rest =>
    have invalid (key : U32) : ¬ PacketSegmentMetadata.Valid ⟨key, 0, (parts payload).length⟩ :=
      fun h => hmany h.2.2
    change (sendSegments channel order m.segmentKeysCounter (parts payload).length 0 (parts payload)
      _).1 = _
    rw [hall] at invalid ⊢
    rw [sendSegments, Act.bind_of_panic (send_unnumbered id (invalid _))]

theorem transmit_returns_iff (id : channel.localId.toNat < 2 ^ 31) :
    (transmit channel order payload m).1 ≠ .panic ↔
      payload.length ≤ 65536 * (maxPacketLen - maxPacketMetadataLen) ∧
        m.numbers channel (packetCount payload) := by
  by_cases big : payload.length ≤ 65536 * (maxPacketLen - maxPacketMetadataLen)
  swap
  · simp [transmit_unnumbered id big, big]
  simp only [big, true_and]
  by_cases long : maxNonSegmentedPayloadLen < payload.length
  · have few := (parts_length payload).mpr big
    have short : ∀ part ∈ parts payload, part.length ≤ maxPacketLen := by
      intro part hpart
      obtain ⟨i, _, rfl⟩ := List.mem_map.mp hpart
      exact Nat.le_trans (List.length_take_le _ _) (by decide)
    rw [transmit, if_pos long, packetCount, if_pos long]
    simp only [Act.bind_apply, Act.get_apply, Act.modify_apply]
    refine send_segments_returns_iff id (fun j hj => ?_) short
    change j < (parts payload).length at hj
    change PacketSegmentMetadata.Valid ⟨_, 0 + j, (parts payload).length⟩
    exact ⟨by dsimp only; omega, by dsimp only; omega, few⟩
  · have hwhole : maxNonSegmentedPayloadLen ≤ maxPacketLen := by decide
    have hlen : payload.length ≤ maxPacketLen := by omega
    have whole : ∀ x, (none : Option PacketSegmentMetadata) = some x → x.Valid := by simp
    have hone := send_real_packet_returns_iff order m 0 id whole hlen
    rw [transmit_short (Nat.le_of_not_lt long), ne_eq, Act.bind_pure_panic, packetCount,
      if_neg long, ← hone]
    simp [Endpoint.numbers, SlotMap.takes]

end

section
variable {r : Registry} {m : Endpoint} {channel : U32} {payload : Bytes}

theorem addressed_unique {p : ChannelProvider} {kind kind' : ConnectionChannel}
    (h : Addressed p m channel kind) (h' : Addressed p m channel kind') : kind' = kind := by
  have hid : kind'.localId = kind.localId := by
    have := h'.1
    rw [h.1, Option.some.injEq] at this
    exact this.symm
  have hnew := h'.2
  rw [hid, h.2, Option.some.injEq] at hnew
  exact hnew.symm

theorem packet_count_le (payload : Bytes) : packetCount payload ≤ 65536 ↔
    payload.length ≤ 65536 * (maxPacketLen - maxPacketMetadataLen) := by
  unfold packetCount
  split
  · exact parts_length payload
  · have hsize : 65536 * (maxPacketLen - maxPacketMetadataLen) = 129040384 := rfl
    have hwhole : maxNonSegmentedPayloadLen = 1980 := rfl
    omega

theorem addressed_returns_iff {kind : ConnectionChannel} (hm : Reachable r.provider m)
    (h : Addressed r.provider m channel kind) :
    (sendEvent r.provider channel payload m).1 ≠ .panic ↔
      payload.length ≤ 65536 * (maxPacketLen - maxPacketMetadataLen) ∧
        m.numbers kind (packetCount payload) := by
  rcases send_event_cases r.provider channel payload m with ⟨hnone, _⟩ | ⟨kind', h', he⟩
  · exact absurd h (hnone kind)
  obtain rfl := addressed_unique h h'
  obtain ⟨order, orders, hnext⟩ := addressed_next_order (m.log ++ [.called channel payload]) hm h
  rw [he, ne_eq, Act.bind_pure_panic, sendPacket, Act.bind_of_ok hnext, ← ne_eq,
    transmit_returns_iff (addressed_id_lt hm h)]
  rfl

/-- A request to send returns, and refuses a payload with more segments than can be numbered,
exactly when there is no such payload and the resender has numbers for its packets. -/
theorem send_event_safe_iff (hm : Reachable r.provider m) (channel : U32) (payload : Bytes) :
    ((sendEvent r.provider channel payload m).1 ≠ .panic ∧
      ((∃ kind, Addressed r.provider m channel kind) → 65536 < packetCount payload →
        ∃ e, (sendEvent r.provider channel payload m).1 = .err e)) ↔
    ∀ kind, Addressed r.provider m channel kind →
      payload.length ≤ 65536 * (maxPacketLen - maxPacketMetadataLen) ∧
        m.numbers kind (packetCount payload) := by
  constructor
  · intro h kind haddr
    exact (addressed_returns_iff hm haddr).mp h.1
  · intro h
    rcases send_event_cases r.provider channel payload m with ⟨hnone, he⟩ | ⟨kind, haddr, _⟩
    · rw [he]
      exact ⟨by simp, fun ⟨kind, haddr⟩ => absurd haddr (hnone kind)⟩
    · have hsafe := h kind haddr
      refine ⟨(addressed_returns_iff hm haddr).mpr hsafe, fun _ many => ?_⟩
      have few := (packet_count_le payload).mpr hsafe.1
      omega

end

theorem talking_addressed : Addressed chatProvider talking 2 talk := by
  unfold Addressed
  decide +kernel

/-- One byte in one packet. -/
theorem send_event_safe_byte :
    ((sendEvent chatRegistry.provider 2 [8] talking).1 ≠ .panic ∧
      ((∃ kind, Addressed chatRegistry.provider talking 2 kind) → 65536 < packetCount [8] →
        ∃ e, (sendEvent chatRegistry.provider 2 [8] talking).1 = .err e)) ↔
    ∀ kind, Addressed chatRegistry.provider talking 2 kind →
      ([8] : Bytes).length ≤ 65536 * (maxPacketLen - maxPacketMetadataLen) ∧
        talking.numbers kind (packetCount [8]) :=
  have hm : Reachable chatRegistry.provider talking := talking_reachable
  send_event_safe_iff hm 2 [8]

/-- One byte more than 65536 segments carry: the call panics and refuses nothing. -/
theorem oversized_send_panics :
    Reachable chatProvider talking ∧ Addressed chatProvider talking 2 talk ∧
      ∃ payload : Bytes, payload.length = 65536 * 1969 + 1 ∧
        (sendEvent chatProvider 2 payload talking).1 = .panic := by
  refine ⟨talking_reachable, talking_addressed, List.replicate (65536 * 1969 + 1) 0,
    List.length_replicate, ?_⟩
  by_contra returns
  have hm : Reachable chatRegistry.provider talking := talking_reachable
  have haddr : Addressed chatRegistry.provider talking 2 talk := talking_addressed
  have hlen := ((addressed_returns_iff hm haddr).mp returns).1
  rw [List.length_replicate] at hlen
  exact absurd hlen (by decide)

end Theta
