import Theta.Proofs.Numbering

namespace Theta
open Lib Relation

/-- What a receiver's channel has to have in common with the sender's. -/
def SameKind (kind kind' : Channel) : Prop :=
  kind'.isOrdered = kind.isOrdered ∧ kind'.isReliable = kind.isReliable

/-- The datagram reads as this packet: by the header sequence for the kind, and by every receiver
that takes the packet's id for a channel of that kind. -/
structure ReadBack (packet : Packet) (kind : Channel) (d : Bytes) : Prop where
  parsed : ∃ rest,
    PrimaryPacketMetadata.decode d = .ok (⟨packet.channelId, packet.segment.isSome⟩, rest) ∧
    readHeader kind packet.segment.isSome rest =
      .ok ⟨packet.segment, packet.order, packet.resendKey, packet.payload⟩
  read : ∀ (p : ChannelProvider) (b : Endpoint) (g : U32) (channel : ConnectionChannel),
    SameKind kind channel.channel →
    resolveChannel p (speculativelyTransfer packet.channelId b).2.state
      (speculativelyTransfer packet.channelId b).2.notLocalInner packet.channelId =
        .ok (g, channel) →
    readPacket p d b =
      (.ok ⟨g, channel, ⟨packet.segment, packet.order, packet.resendKey, packet.payload⟩⟩,
        (speculativelyTransfer packet.channelId b).2)

theorem Packet.Fits.same_kind {packet : Packet} {kind kind' : Channel} (h : packet.Fits kind)
    (same : SameKind kind kind') : packet.Fits kind' :=
  ⟨h.id, h.segment, h.order.trans same.1.symm, h.key.trans same.2.symm⟩

theorem Packet.Fits.read_back {packet : Packet} {kind : Channel} (h : packet.Fits kind) :
    ReadBack packet kind packet.bytes := by
  have hd := packet.decode_primary h.id
  refine ⟨⟨_, hd, packet.read_header h⟩, fun p b g channel same hres => ?_⟩
  have hhead := packet.read_header (h.same_kind same)
  have finish {b' : Endpoint} (hend : (speculativelyTransfer packet.channelId b).2 = b')
      (hread : readPacket p packet.bytes b =
        (parsePacket p b'.state b'.notLocalInner packet.primary (packet.segmentBytes ++
          encodeOrder packet.order ++ packet.keyBytes ++ packet.payload), b')) :
      readPacket p packet.bytes b =
        (.ok ⟨g, channel, packet.header⟩, (speculativelyTransfer packet.channelId b).2) := by
    rw [hend] at hres ⊢
    rw [hread, parsePacket, show packet.primary.channelId = packet.channelId from rfl, hres,
      Outcome.ok_bind]
    dsimp only
    rw [show packet.primary.segment = packet.segment.isSome from rfl, hhead]
    rfl
  obtain ⟨b', hcase, hread⟩ := read_packet_decoded (p := p) (m := b) hd
  rcases speculate_cases b packet.channelId with ⟨hs, he⟩ | ⟨hs, he⟩
  · rcases hcase with ⟨_, rfl⟩ | ⟨hn, _⟩
    · exact finish (by rw [he]) hread
    · exact absurd hs hn
  · rcases hcase with ⟨hn, _⟩ | ⟨_, rfl⟩
    · exact absurd hn hs
    · exact finish (by rw [he]) hread

/-- The packets that a payload is sent in, without what they have in common. -/
def pieces (segmentKey : U32) (payload : Bytes) : List (Option PacketSegmentMetadata × Bytes) :=
  if maxNonSegmentedPayloadLen < payload.length then
    (parts payload).mapIdx (fun i part => (some ⟨segmentKey, i, (parts payload).length⟩, part))
  else [(none, payload)]

/-- One piece as it was sent: the key it was given, and a datagram that is read back. -/
def Sent (channel : ConnectionChannel) (order : Option U32)
    (piece : Option PacketSegmentMetadata × Bytes) (wire : Option SlotMapKey × Bytes) : Prop :=
  ReadBack ⟨channel.localId, piece.1, order, wire.1, piece.2⟩ channel.channel wire.2

section
variable {channel : ConnectionChannel} {order : Option U32} {m m' : Endpoint}

theorem send_real_packet_read_back {segment : Option PacketSegmentMetadata} {payload : Bytes}
    {key : Option SlotMapKey} (healthy : m.resender.packets.Healthy)
    (fits : m'.resender.packets.Fits) (ho : order.isSome = channel.channel.isOrdered)
    (h : sendRealPacket channel order segment payload m = (.ok key, m')) :
    ∃ d, m'.datagrams = m.datagrams ++ [d] ∧ Sent channel order (segment, payload) (key, d) := by
  obtain ⟨_, hsent, hfits⟩ := send_real_packet_sent healthy fits ho h
  exact ⟨_, hsent, hfits.read_back⟩

theorem send_segments_read_back {segmentKey : U32} {count i : Nat} {segments : List Bytes}
    {keys : List SlotMapKey} (healthy : m.resender.packets.Healthy)
    (fits : m'.resender.packets.Fits) (ho : order.isSome = channel.channel.isOrdered)
    (h : sendSegments channel order segmentKey count i segments m = (.ok keys, m')) :
    ∃ wires, m'.datagrams = m.datagrams ++ wires.map Prod.snd ∧
      keys = wires.flatMap (fun wire => wire.1.toList) ∧
      List.Forall₂ (Sent channel order)
        (segments.mapIdx fun j part => (some ⟨segmentKey, i + j, count⟩, part)) wires := by
  induction segments generalizing i m keys with
  | nil =>
    cases h
    exact ⟨[], by simp, rfl, .nil⟩
  | cons segment rest ih =>
    rw [sendSegments] at h
    rcases hsend : sendRealPacket channel order (some ⟨segmentKey, i, count⟩) segment m with ⟨r, m1⟩
    cases r with
    | err e =>
      rw [Act.bind_of_err hsend] at h
      cases h
    | panic =>
      rw [Act.bind_of_panic hsend] at h
      cases h
    | ok key =>
      rw [Act.bind_of_ok hsend] at h
      rcases hrest : sendSegments channel order segmentKey count (i + 1) rest m1 with ⟨r, m2⟩
      cases r with
      | err e =>
        rw [Act.bind_of_err hrest] at h
        cases h
      | panic =>
        rw [Act.bind_of_panic hrest] at h
        cases h
      | ok later =>
        rw [Act.bind_of_ok hrest] at h
        cases h
        have grown : m1.resender.packets.Fits := by
          have hmoves : ReflTransGen (Move unrestricted) m1
              (sendSegments channel order segmentKey count (i + 1) rest m1).2 :=
            send_segments_moves (i + 1) rest (fun _ _ _ _ => trivial) m1
          rw [hrest] at hmoves
          exact Nat.le_trans (generations_le hmoves) fits
        have healthy1 := (send_real_packet_sent healthy grown ho hsend).1
        obtain ⟨d, hone, hback⟩ := send_real_packet_read_back healthy grown ho hsend
        obtain ⟨wires, hall, hkeys, hparts⟩ := ih healthy1 hrest
        refine ⟨(key, d) :: wires, ?_, ?_, ?_⟩
        · rw [hall, hone]
          simp
        · rw [hkeys]
          rfl
        · rw [List.mapIdx_cons]
          refine .cons hback ?_
          simpa [Nat.add_assoc, Nat.add_comm 1] using hparts

/-- A packet that the wire can carry goes out when the resender has room and a number for it. -/
theorem send_real_packet_goes {segment : Option PacketSegmentMetadata} {payload : Bytes}
    (valid : ∀ s, segment = some s → s.Valid) (sized : payload.length ≤ maxPacketLen)
    (room : ¬ Refused channel 1 m) (numbers : m.numbers channel 1) :
    ∃ key, (sendRealPacket channel order segment payload m).1 = .ok key := by
  have id : channel.localId.toNat < 2 ^ 31 :=
    Nat.lt_of_not_le fun big => room (Or.inl ⟨Nat.one_pos, big⟩)
  have returns := (send_real_packet_returns_iff order m 0 id valid sized).mpr numbers
  cases hr : (sendRealPacket channel order segment payload m).1 with
  | ok key => exact ⟨key, rfl⟩
  | err e => exact absurd (send_real_packet_err hr 0) room
  | panic => exact absurd hr returns.1

/-- The pieces of a payload of any length, in the order they are sent in. -/
theorem send_packet_read_back {payload : Bytes} {keys : List SlotMapKey}
    (healthy : m.resender.packets.Healthy) (fits : m'.resender.packets.Fits)
    (sent : sendPacket channel payload m = (.ok keys, m')) :
    ∃ order wires, (nextOrder channel m).1 = .ok order ∧
      m'.datagrams = m.datagrams ++ wires.map Prod.snd ∧
      keys = wires.flatMap (fun wire => wire.1.toList) ∧
      List.Forall₂ (Sent channel order) (pieces m.segmentKeysCounter payload) wires := by
  rcases hnext : nextOrder channel m with ⟨r, t⟩
  cases r with
  | err e =>
    rw [sendPacket, Act.bind_of_err hnext] at sent
    cases sent
  | panic =>
    rw [sendPacket, Act.bind_of_panic hnext] at sent
    cases sent
  | ok order =>
    obtain ⟨orders, hn, ho⟩ := next_order_assigned (congrArg Prod.fst hnext)
    rw [hnext, Prod.mk.injEq] at hn
    obtain ⟨_, rfl⟩ := hn
    rw [sendPacket, Act.bind_of_ok hnext] at sent
    refine ⟨order, ?_⟩
    by_cases long : maxNonSegmentedPayloadLen < payload.length
    · rw [transmit, if_pos long] at sent
      simp only [Act.bind_apply, Act.get_apply, Act.modify_apply] at sent
      obtain ⟨wires, hall, hkeys, hparts⟩ := send_segments_read_back (m := { m with
        orders := orders
        segmentKeysCounter := m.segmentKeysCounter + 1 }) healthy fits ho sent
      refine ⟨wires, rfl, hall, hkeys, ?_⟩
      rw [pieces, if_pos long]
      simp only [Nat.zero_add] at hparts
      exact hparts
    · rw [transmit_short (Nat.le_of_not_lt long)] at sent
      rcases hone : sendRealPacket channel order none payload { m with orders := orders } with
        ⟨r, t⟩
      cases r with
      | err e =>
        rw [Act.bind_of_err hone] at sent
        cases sent
      | panic =>
        rw [Act.bind_of_panic hone] at sent
        cases sent
      | ok key =>
        rw [Act.bind_of_ok hone] at sent
        cases sent
        obtain ⟨d, hd, hback⟩ := send_real_packet_read_back (m := { m with orders := orders })
          healthy fits ho hone
        refine ⟨[(key, d)], rfl, hd, by simp, ?_⟩
        rw [pieces, if_neg long]
        exact .cons hback .nil

end

/-- Whatever a send puts on the wire is read back by the other side: one packet with any fields,
and a payload of any length in the pieces that it is sent in. -/
theorem packet_format_round_trip (channel : ConnectionChannel) {m : Endpoint}
    (healthy : m.resender.packets.Healthy) :
    (∀ order segment payload, order.isSome = channel.channel.isOrdered →
      (∀ s, segment = some s → s.Valid) → payload.length ≤ maxPacketLen →
      ¬ Refused channel 1 m → m.numbers channel 1 →
      (sendRealPacket channel order segment payload m).2.resender.packets.Fits →
      ∃ key d, (sendRealPacket channel order segment payload m).1 = .ok key ∧
        (sendRealPacket channel order segment payload m).2.datagrams = m.datagrams ++ [d] ∧
        ReadBack ⟨channel.localId, segment, order, key, payload⟩ channel.channel d) ∧
    ∀ payload keys m', sendPacket channel payload m = (.ok keys, m') →
      m'.resender.packets.Fits →
      ∃ order wires, (nextOrder channel m).1 = .ok order ∧
        m'.datagrams = m.datagrams ++ wires.map Prod.snd ∧
        keys = wires.flatMap (fun wire => wire.1.toList) ∧
        List.Forall₂ (Sent channel order) (pieces m.segmentKeysCounter payload) wires := by
  refine ⟨fun order segment payload ordered valid sized room numbers fits => ?_,
    fun payload keys m' sent fits => send_packet_read_back healthy fits sent⟩
  obtain ⟨key, hkey⟩ : ∃ key, (sendRealPacket channel order segment payload m).1 = .ok key :=
    send_real_packet_goes valid sized room numbers
  obtain ⟨d, hsent, hback⟩ := send_real_packet_read_back healthy fits ordered (eq_of_fst hkey)
  exact ⟨key, d, hkey, hsent, hback⟩

/-- A connection whose next resend key has the largest generation. -/
def worn : Endpoint := { Endpoint.fresh 0 with resender := ⟨⟨[none], [0xFFFFFFFE], [0]⟩, 2⟩ }

/-- The channel with the largest id. -/
def outermost : ConnectionChannel := ⟨nullChannelId - 1, channelManagementChannel⟩

def looseTalk : ConnectionChannel := ⟨0, ackChannel⟩

/-- A segment with a count and numbers at their limits, and a payload that is cut in two. -/
theorem packet_format_round_trip_largest :
    (∃ key d, (sendRealPacket outermost (some 0xFFFFFFFF) (some ⟨0xFFFFFFFF, 65535, 65536⟩)
          [0xFF, 0] worn).1 = .ok key ∧
      (sendRealPacket outermost (some 0xFFFFFFFF) (some ⟨0xFFFFFFFF, 65535, 65536⟩)
          [0xFF, 0] worn).2.datagrams = worn.datagrams ++ [d] ∧
      ReadBack ⟨outermost.localId, some ⟨0xFFFFFFFF, 65535, 65536⟩, some 0xFFFFFFFF, key, [0xFF, 0]⟩
        outermost.channel d) ∧
    ∃ order wires, (nextOrder looseTalk worn).1 = .ok order ∧
      (sendPacket looseTalk (List.replicate 1981 7) worn).2.datagrams =
        worn.datagrams ++ wires.map Prod.snd ∧
      [⟨0, 0xFFFFFFFF⟩, ⟨1, 0⟩] = wires.flatMap (fun wire => wire.1.toList) ∧
      List.Forall₂ (Sent looseTalk order)
        (pieces worn.segmentKeysCounter (List.replicate 1981 7)) wires :=
  have healthy : worn.resender.packets.Healthy := by
    refine ⟨by decide, by decide, ?_⟩
    simp [worn]
  have valid : ∀ s, some (⟨0xFFFFFFFF, 65535, 65536⟩ : PacketSegmentMetadata) = some s →
      s.Valid := by
    rintro s ⟨⟩
    exact ⟨by decide, by decide, by decide⟩
  have room : ¬ Refused outermost 1 worn := by
    rintro (⟨_, big⟩ | ⟨_, j, hj, full⟩)
    · exact absurd big (by decide)
    · obtain rfl : j = 0 := by omega
      exact absurd full (by decide)
  have sent : (sendPacket looseTalk (List.replicate 1981 7) worn).1 =
      .ok [⟨0, 0xFFFFFFFF⟩, ⟨1, 0⟩] := by decide +kernel
  ⟨(packet_format_round_trip outermost healthy).1 (some 0xFFFFFFFF)
      (some ⟨0xFFFFFFFF, 65535, 65536⟩) [0xFF, 0] rfl valid (by decide) room
      (fun _ => by decide) (by unfold SlotMap.Fits; decide +kernel),
    (packet_format_round_trip looseTalk healthy).2 (List.replicate 1981 7) _ _
      (eq_of_fst sent) (by unfold SlotMap.Fits; decide +kernel)⟩

end Theta
