import Theta.Net.Run
import Theta.Proofs.Wire

namespace Theta
open Lib

/-- The connection after the registration stage was left. -/
def Endpoint.switched (m : Endpoint) : Endpoint :=
  { m with
    state := .transfer
    acknowledgeBuffer := []
    resendKeyDuplicateChecker := m.resendKeyDuplicateChecker.clear
    resender := { m.resender with packets := m.resender.packets.clear } }

/-- The other side's registration is complete and the id belongs to the transfer stage. -/
def Speculates (m : Endpoint) (channelId : U32) : Prop :=
  (∃ lastKey, m.state = .registration true lastKey) ∧
    ConnectionIdMapperInner.registrationId channelId = none

theorem speculate_cases (m : Endpoint) (id : U32) :
    (Speculates m id ∧ speculativelyTransfer id m = (.ok (), m.switched)) ∨
    (¬ Speculates m id ∧ speculativelyTransfer id m = (.ok (), m)) := by
  simp only [speculativelyTransfer, Act.bind_apply, Act.get_apply, Speculates]
  cases hs : m.state with
  | transfer =>
    right
    simp
  | registration received lastKey =>
    cases received with
    | false =>
      right
      simp
    | true =>
      cases hr : ConnectionIdMapperInner.registrationId id with
      | none =>
        left
        simp [ConnectionIdMapperInner.globalId, hr, transferStateConvertionCleanup,
          Act.bind_apply, Endpoint.switched]
      | some g =>
        right
        simp [ConnectionIdMapperInner.globalId, hr]

/-- What the header phase depends on besides the datagram and the provider. -/
def parsePacket (provider : ChannelProvider) (state : ConnectionState)
    (notLocalInner : ConnectionIdMapperInner) (primary : PrimaryPacketMetadata)
    (payload : Bytes) : Outcome ConnectionError Incoming := do
  let (globalChannelId, channel) ←
    resolveChannel provider state notLocalInner primary.channelId
  let header ← (readHeader channel.channel primary.segment payload).mapErr (fun _ => .decodeError)
  .ok ⟨globalChannelId, channel, header⟩

theorem read_packet_undecoded {p : ChannelProvider} {d : Bytes} {m : Endpoint}
    (h : ∀ r, PrimaryPacketMetadata.decode d ≠ .ok r) :
    (readPacket p d m).2 = m ∧ ∀ inc, (readPacket p d m).1 ≠ .ok inc := by
  unfold readPacket
  cases hd : PrimaryPacketMetadata.decode d with
  | ok r => exact absurd hd (h r)
  | err e => simp [decoding, Act.bind_apply, Outcome.mapErr]
  | panic => simp [decoding, Act.bind_apply, Outcome.mapErr]

theorem read_packet_decoded {p : ChannelProvider} {d : Bytes} {m : Endpoint}
    {primary : PrimaryPacketMetadata} {payload : Bytes}
    (h : PrimaryPacketMetadata.decode d = .ok (primary, payload)) :
    ∃ m', (Speculates m primary.channelId ∧ m' = m.switched ∨
        ¬ Speculates m primary.channelId ∧ m' = m) ∧
      readPacket p d m =
        (parsePacket p m'.state m'.notLocalInner primary payload, m') := by
  have key (m' : Endpoint) (hm : speculativelyTransfer primary.channelId m = (.ok (), m')) :
      readPacket p d m = (parsePacket p m'.state m'.notLocalInner primary payload, m') := by
    simp only [readPacket, decoding, Act.bind_apply, Act.lift_apply, h, Outcome.mapErr, hm,
      Act.get_apply, parsePacket]
    cases resolveChannel p m'.state m'.notLocalInner primary.channelId with
    | err e => rfl
    | panic => rfl
    | ok r =>
      obtain ⟨g, ch⟩ := r
      simp only [Outcome.ok_bind]
      cases readHeader ch.channel primary.segment payload <;> rfl
  rcases speculate_cases m primary.channelId with ⟨hs, hm⟩ | ⟨hs, hm⟩
  · exact ⟨_, Or.inl ⟨hs, rfl⟩, key _ hm⟩
  · exact ⟨_, Or.inr ⟨hs, rfl⟩, key _ hm⟩

theorem not_speculates_transfer {m : Endpoint} {id : U32} (h : m.state = .transfer) :
    ¬ Speculates m id := by
  rintro ⟨⟨k, hk⟩, _⟩
  rw [h] at hk
  cases hk

theorem read_packet_transfer {p : ChannelProvider} {d : Bytes} {m : Endpoint}
    (h : m.state = .transfer) : (readPacket p d m).2 = m := by
  cases hd : PrimaryPacketMetadata.decode d with
  | err e => exact (read_packet_undecoded (by simp [hd])).1
  | panic => exact (read_packet_undecoded (by simp [hd])).1
  | ok r =>
    obtain ⟨m', ⟨hs, _⟩ | ⟨_, rfl⟩, hr⟩ : ∃ m', _ ∧ readPacket p d m = _ := read_packet_decoded hd
    · exact absurd hs (not_speculates_transfer h)
    · rw [hr]

/-- Reading a packet changes nothing but the stage. -/
theorem read_packet_stays {p : ChannelProvider} {d : Bytes} {m : Endpoint}
    (h : (readPacket p d m).2.state ≠ .transfer) : (readPacket p d m).2 = m := by
  cases hd : PrimaryPacketMetadata.decode d with
  | err e => exact (read_packet_undecoded (by simp [hd])).1
  | panic => exact (read_packet_undecoded (by simp [hd])).1
  | ok r =>
    obtain ⟨m', ⟨_, rfl⟩ | ⟨_, rfl⟩, hr⟩ : ∃ m', _ ∧ readPacket p d m = _ := read_packet_decoded hd
    · rw [hr] at h
      exact absurd rfl h
    · rw [hr]

/-- Reading the header a second time changes nothing. -/
theorem read_packet_again {p : ChannelProvider} {d : Bytes} {m m' : Endpoint} {inc : Incoming}
    (h : readPacket p d m = (.ok inc, m')) : readPacket p d m' = (.ok inc, m') := by
  cases hd : PrimaryPacketMetadata.decode d with
  | err e =>
    exact absurd (congrArg Prod.fst h) ((read_packet_undecoded (by simp [hd])).2 inc)
  | panic =>
    exact absurd (congrArg Prod.fst h) ((read_packet_undecoded (by simp [hd])).2 inc)
  | ok r =>
    obtain ⟨primary, payload⟩ := r
    obtain ⟨m1, hcase, heq⟩ : ∃ m1, _ ∧ readPacket p d m = _ := read_packet_decoded hd
    rw [heq, Prod.mk.injEq] at h
    obtain ⟨hparse, rfl⟩ := h
    obtain ⟨m2, hcase2, heq2⟩ : ∃ m2, _ ∧ readPacket p d m1 = _ := read_packet_decoded hd
    have hsame : m2 = m1 := by
      rcases hcase with ⟨_, rfl⟩ | ⟨hn, rfl⟩
      · rcases hcase2 with ⟨hs, _⟩ | ⟨_, he⟩
        · exact absurd hs (not_speculates_transfer rfl)
        · exact he
      · rcases hcase2 with ⟨hs, _⟩ | ⟨_, he⟩
        · exact absurd hs hn
        · exact he
    rw [heq2, hsame, hparse]

/-- A packet on a channel that resolves is read with what its sender wrote. -/
theorem read_packet_bytes {p : ChannelProvider} {m : Endpoint} {packet : Packet} {g : U32}
    {channel : ConnectionChannel} (hid : packet.channelId.toNat < 2 ^ 31)
    (hres : resolveChannel p m.state m.notLocalInner packet.channelId = .ok (g, channel))
    (fits : packet.Fits channel.channel) :
    readPacket p packet.bytes m = (.ok ⟨g, channel, packet.header⟩, m) := by
  have hd := packet.decode_primary hid
  obtain ⟨m', ⟨⟨⟨lastKey, hst⟩, hnone⟩, _⟩ | ⟨_, rfl⟩, h⟩ : ∃ m', _ ∧ readPacket p packet.bytes m = _ :=
    read_packet_decoded hd
  · have hnone : ConnectionIdMapperInner.registrationId packet.channelId = none := hnone
    simp [resolveChannel, ConnectionIdMapperInner.globalId, hst, hnone] at hres
  · have hres : resolveChannel p m'.state m'.notLocalInner packet.primary.channelId =
        .ok (g, channel) := hres
    have hhead := packet.read_header fits
    rw [h]
    simp only [parsePacket, hres, Outcome.ok_bind]
    rw [show packet.primary.segment = packet.segment.isSome from rfl, hhead]
    rfl

/-- A packet that is read in the registration stage is one of its two channels. -/
theorem read_packet_registered {p : ChannelProvider} {m : Endpoint} {packet : Packet}
    {inc : Incoming} (hid : packet.channelId.toNat < 2 ^ 31)
    (hst : (readPacket p packet.bytes m).2.state ≠ .transfer)
    (hread : (readPacket p packet.bytes m).1 = .ok inc) :
    ConnectionIdMapperInner.registrationId packet.channelId ≠ none ∧
      ∀ kind, ConnectionChannel.new .default packet.channelId packet.channelId p =
          some ⟨packet.channelId, kind⟩ → packet.Fits kind →
        inc = ⟨packet.channelId, ⟨packet.channelId, kind⟩, packet.header⟩ := by
  have hd := packet.decode_primary hid
  obtain ⟨m', ⟨_, rfl⟩ | ⟨_, rfl⟩, h⟩ : ∃ m', _ ∧ readPacket p packet.bytes m = _ :=
    read_packet_decoded hd
  · rw [h] at hst
    exact absurd rfl hst
  · rw [h] at hst hread
    rcases hstage : m'.state with ⟨received, lastKey⟩ | _
    · simp only [hstage, parsePacket, resolveChannel, ConnectionIdMapperInner.globalId] at hread
      refine ⟨fun hnone => ?_, fun kind hkind fits => ?_⟩
      · have hnone : ConnectionIdMapperInner.registrationId packet.primary.channelId = none := hnone
        rw [hnone] at hread
        cases hread
      · cases hreg : ConnectionIdMapperInner.registrationId packet.primary.channelId with
        | none =>
          rw [hreg] at hread
          cases hread
        | some g =>
          have hg : packet.primary.channelId = g := by
            unfold ConnectionIdMapperInner.registrationId at hreg
            split at hreg
            · exact Option.some.inj hreg
            · cases hreg
          subst hg
          have hnew : ConnectionChannel.new (.registration received lastKey) packet.primary.channelId
              packet.primary.channelId p = some ⟨packet.channelId, kind⟩ := hkind
          have hhead := packet.read_header fits
          simp only [hreg, hnew, Outcome.ok_bind] at hread
          rw [show packet.primary.segment = packet.segment.isSome from rfl, hhead] at hread
          exact (Outcome.ok.inj hread).symm
    · exact absurd hstage hst

theorem read_order_and_key_fields {channel : Channel} {payload rest : Bytes} {order : Option U32}
    {key : Option SlotMapKey} (h : readOrderAndResendKey channel payload = .ok ((order, key), rest)) :
    order.isSome = channel.isOrdered ∧ key.isSome = channel.isReliable := by
  have read_key {first : Option U32} {bytes : Bytes}
      (h : (if channel.isReliable = true then do
          let x ← SlotMapKey.decode bytes
          Outcome.ok ((first, some x.1), x.2)
        else Outcome.ok ((first, none), bytes)) = .ok ((order, key), rest)) :
      order = first ∧ key.isSome = channel.isReliable := by
    cases hr : channel.isReliable with
    | false =>
      simp only [hr, Bool.false_eq_true, ↓reduceIte] at h
      cases h
      exact ⟨rfl, rfl⟩
    | true =>
      simp only [hr, ↓reduceIte, Outcome.bind_ok] at h
      obtain ⟨_, _, h⟩ := h
      cases h
      exact ⟨rfl, rfl⟩
  unfold readOrderAndResendKey at h
  cases ho : channel.isOrdered with
  | false =>
    simp only [ho, Bool.false_eq_true, ↓reduceIte, Outcome.ok_bind] at h
    obtain ⟨rfl, hkey⟩ := read_key h
    exact ⟨rfl, hkey⟩
  | true =>
    simp only [ho, ↓reduceIte] at h
    cases hd : VarInt.decode 32 payload with
    | err e => simp [hd] at h
    | panic => simp [hd] at h
    | ok r =>
      simp only [hd, Outcome.ok_bind] at h
      obtain ⟨rfl, hkey⟩ := read_key h
      exact ⟨rfl, hkey⟩

/-- The optional fields of a header are those of its channel's kind. -/
theorem read_header_fields {channel : Channel} {segment : Bool} {payload : Bytes}
    {header : PacketHeader} (h : readHeader channel segment payload = .ok header) :
    header.order.isSome = channel.isOrdered ∧ header.resendKey.isSome = channel.isReliable := by
  have finish {metadata : Option PacketSegmentMetadata} {bytes : Bytes}
      (h : (do
        let fields ← readOrderAndResendKey channel bytes
        .ok (⟨metadata, fields.1.1, fields.1.2, fields.2⟩ : PacketHeader) : Outcome Unit _) =
          .ok header) :
      header.order.isSome = channel.isOrdered ∧ header.resendKey.isSome = channel.isReliable := by
    rw [Outcome.bind_ok] at h
    obtain ⟨⟨⟨order, key⟩, rest⟩, hread, h⟩ := h
    cases h
    exact read_order_and_key_fields hread
  unfold readHeader at h
  cases segment with
  | false => exact finish h
  | true =>
    simp only [↓reduceIte] at h
    cases hm : PacketSegmentMetadata.decode payload with
    | ok r =>
      rw [hm] at h
      exact finish h
    | err e =>
      rw [hm] at h
      cases h
    | panic =>
      rw [hm] at h
      cases h

theorem resolve_channel_id {p : ChannelProvider} {state : ConnectionState}
    {mapper : ConnectionIdMapperInner} {id g : U32} {channel : ConnectionChannel}
    (h : resolveChannel p state mapper id = .ok (g, channel)) :
    channel.localId = id ∧ mapper.globalId state id = some g ∧
      ConnectionChannel.new state id g p = some channel := by
  unfold resolveChannel at h
  split at h
  · cases h
  · rename_i globalId hg
    split at h
    · cases h
    · rename_i kind hk
      cases h
      have hk' := hk
      unfold ConnectionChannel.new at hk'
      obtain ⟨_, _, rfl⟩ := Option.map_eq_some_iff.mp hk'
      exact ⟨rfl, hg, hk⟩

/-- What a read packet says about its channel. -/
theorem read_packet_resolved {p : ChannelProvider} {d : Bytes} {m m' : Endpoint} {inc : Incoming}
    (h : readPacket p d m = (.ok inc, m')) :
    resolveChannel p m'.state m'.notLocalInner inc.channel.localId =
        .ok (inc.globalChannelId, inc.channel) ∧
      inc.header.order.isSome = inc.channel.channel.isOrdered ∧
      inc.header.resendKey.isSome = inc.channel.channel.isReliable := by
  cases hd : PrimaryPacketMetadata.decode d with
  | err e => exact absurd (congrArg Prod.fst h) ((read_packet_undecoded (by simp [hd])).2 inc)
  | panic => exact absurd (congrArg Prod.fst h) ((read_packet_undecoded (by simp [hd])).2 inc)
  | ok r =>
    obtain ⟨primary, payload⟩ := r
    obtain ⟨m1, _, heq⟩ : ∃ m1, _ ∧ readPacket p d m = _ := read_packet_decoded hd
    rw [heq, Prod.mk.injEq] at h
    obtain ⟨hparse, rfl⟩ := h
    unfold parsePacket at hparse
    rw [Outcome.bind_ok] at hparse
    obtain ⟨⟨g, channel⟩, hres, hparse⟩ := hparse
    rw [Outcome.bind_ok] at hparse
    obtain ⟨header, hhead, hparse⟩ := hparse
    cases hparse
    have hfields : readHeader channel.channel primary.segment payload = .ok header := by
      cases hr : readHeader channel.channel primary.segment payload with
      | ok x =>
        rw [hr] at hhead
        cases hhead
        rfl
      | err e =>
        rw [hr] at hhead
        cases hhead
      | panic =>
        rw [hr] at hhead
        cases hhead
    refine ⟨?_, read_header_fields hfields⟩
    dsimp only
    rw [(resolve_channel_id hres).1]
    exact hres

/-- What was read of a packet, given the channel that its id stands for. -/
theorem read_packet_incoming {p : ChannelProvider} {m m' : Endpoint} {packet : Packet}
    {inc : Incoming} (hid : packet.channelId.toNat < 2 ^ 31)
    (h : readPacket p packet.bytes m = (.ok inc, m')) :
    resolveChannel p m'.state m'.notLocalInner packet.channelId =
        .ok (inc.globalChannelId, inc.channel) ∧
      (packet.Fits inc.channel.channel → inc.header = packet.header) := by
  have hd := packet.decode_primary hid
  have again := read_packet_again h
  obtain ⟨m1, _, heq⟩ : ∃ m1, _ ∧ readPacket p packet.bytes m' = _ := read_packet_decoded hd
  rw [again, Prod.mk.injEq] at heq
  obtain ⟨hparse, rfl⟩ := heq
  rw [parsePacket] at hparse
  obtain ⟨⟨g, channel⟩, hres, hrest⟩ := Outcome.bind_ok.mp hparse.symm
  obtain ⟨header, hhead, hinc⟩ := Outcome.bind_ok.mp hrest
  cases hinc
  refine ⟨hres, fun fits => ?_⟩
  rw [show packet.primary.segment = packet.segment.isSome from rfl, packet.read_header fits] at hhead
  exact (Outcome.ok.inj hhead).symm

/-- An error of the header phase is the error of the call. -/
theorem handle_message_rejected {p : ChannelProvider} {now : Nat} {d : Bytes} {m : Endpoint}
    {e : ConnectionError} (h : (readPacket p d m).1 = .err e) :
    handleMessage p now d m = (.err e, (readPacket p d m).2) := by
  rcases hr : readPacket p d m with ⟨r, m'⟩
  rw [hr] at h
  simp only at h
  subst h
  exact Act.bind_of_err hr

end Theta
