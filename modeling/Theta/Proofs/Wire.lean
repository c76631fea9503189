import Theta.Net.Connection
import Theta.Proofs.Slots

namespace Theta
open Lib

/-- The fields of a datagram in the order of the wire. -/
structure Packet where
  channelId : U32
  segment : Option PacketSegmentMetadata
  order : Option U32
  resendKey : Option SlotMapKey
  payload : Bytes
  deriving DecidableEq, Repr

namespace PacketSegmentMetadata

/-- Index and count that the two-byte integers of the wire can carry. -/
def Valid (s : PacketSegmentMetadata) : Prop :=
  s.segment < 2 ^ 16 ∧ 0 < s.segmentCount ∧ s.segmentCount ≤ 2 ^ 16

def bytes (s : PacketSegmentMetadata) : Bytes :=
  VarInt.encode s.segmentKey ++ VarInt.encode (BitVec.ofNat 16 s.segment) ++
    VarInt.encode (BitVec.ofNat 16 (s.segmentCount - 1))

theorem encode_ok {s : PacketSegmentMetadata} {bs : Bytes} (h : s.encode = .ok bs) :
    s.Valid ∧ bs = s.bytes := by
  unfold encode at h
  split at h
  · cases h
  · rename_i hc
    simp only [Outcome.bind_ok, toU16] at h
    obtain ⟨i, hi, n, hn, he⟩ := h
    split at hi
    · split at hn
      · cases hi
        cases hn
        cases he
        exact ⟨⟨by omega, by omega, by omega⟩, rfl⟩
      · cases hn
    · cases hi

theorem encode_ne_err (s : PacketSegmentMetadata) : ∀ e, s.encode ≠ .err e := by
  have fits (n : Nat) : ∀ e, toU16 n ≠ .err e := by
    unfold toU16
    split <;> simp
  unfold encode
  split
  · simp
  · exact Outcome.bind_ne_err (fits _) (fun _ => Outcome.bind_ne_err (fits _) (fun _ => by simp))

theorem encode_invalid {s : PacketSegmentMetadata} (h : ¬ s.Valid) : s.encode = .panic := by
  cases he : s.encode with
  | ok bs => exact absurd (encode_ok he).1 h
  | panic => rfl
  | err e => exact absurd he (encode_ne_err s e)

theorem decode_bytes {s : PacketSegmentMetadata} (hs : s.Valid) (r : Bytes) :
    decode (s.bytes ++ r) = .ok (s, r) := by
  obtain ⟨hi, hpos, hc⟩ := hs
  have h1 : (BitVec.ofNat 16 s.segment).toNat = s.segment := by
    rw [BitVec.toNat_ofNat, Nat.mod_eq_of_lt hi]
  have h2 : (BitVec.ofNat 16 (s.segmentCount - 1)).toNat + 1 = s.segmentCount := by
    rw [BitVec.toNat_ofNat, Nat.mod_eq_of_lt (by omega)]
    omega
  simp only [decode, bytes, List.append_assoc, VarInt.decode_encode_u32, Outcome.ok_bind,
    VarInt.decode_encode_u16, h1, h2]

end PacketSegmentMetadata

namespace PrimaryPacketMetadata

def bytes (p : PrimaryPacketMetadata) : Bytes :=
  VarInt.encode ((p.channelId <<< 1) ||| (if p.segment then 1 else 0))

/-- The number on the wire: the id and the segment bit below it. -/
theorem number (id : U32) (segment : Bool) (hid : id.toNat < 2 ^ 31) :
    ((id <<< 1) ||| (if segment then 1 else 0) : U32).toNat = 2 * id.toNat + segment.toNat := by
  have hshift : (id <<< 1).toNat = id.toNat <<< 1 := by
    rw [BitVec.toNat_shiftLeft, Nat.mod_eq_of_lt]
    rw [Nat.shiftLeft_eq]
    omega
  have hbit : (if segment then (1 : U32) else 0).toNat = segment.toNat := by
    cases segment <;> rfl
  have hsmall : segment.toNat < 2 ^ 1 := by cases segment <;> simp
  rw [BitVec.toNat_or, hshift, hbit, ← Nat.shiftLeft_add_eq_or_of_lt hsmall, Nat.shiftLeft_eq]
  omega

theorem encode_cases (p : PrimaryPacketMetadata) :
    p.encode = if p.channelId.toNat < 2 ^ 31 then .ok p.bytes else .err () := by
  have hshift : (p.channelId <<< 1) >>> 1 = p.channelId ↔ p.channelId.toNat < 2 ^ 31 := by
    rw [← BitVec.toNat_inj, BitVec.toNat_ushiftRight, BitVec.toNat_shiftLeft,
      Nat.shiftLeft_eq, Nat.shiftRight_eq_div_pow]
    omega
  unfold encode bytes
  by_cases h : p.channelId.toNat < 2 ^ 31
  · rw [if_neg (by simpa using hshift.mpr h), if_pos h]
  · rw [if_pos (fun he => h (hshift.mp he)), if_neg h]

theorem decode_bytes {p : PrimaryPacketMetadata} (hid : p.channelId.toNat < 2 ^ 31) (r : Bytes) :
    decode (p.bytes ++ r) = .ok (p, r) := by
  have hn := number p.channelId p.segment hid
  have hid' : ((p.channelId <<< 1) ||| (if p.segment then 1 else 0)) >>> 1 = p.channelId := by
    apply BitVec.eq_of_toNat_eq
    rw [BitVec.toNat_ushiftRight, hn, Nat.shiftRight_eq_div_pow]
    have : p.segment.toNat < 2 := by cases p.segment <;> simp
    omega
  have hbit : (((p.channelId <<< 1) ||| (if p.segment then 1 else 0)) &&& 1 == 1) =
      p.segment := by
    have hand : (((p.channelId <<< 1) ||| (if p.segment then 1 else 0)) &&& 1 : U32).toNat =
        p.segment.toNat := by
      rw [BitVec.toNat_and, hn]
      change (2 * p.channelId.toNat + p.segment.toNat) &&& 1 = p.segment.toNat
      rw [Nat.and_one_is_mod]
      cases p.segment <;> simp
    cases hs : p.segment with
    | false =>
      rw [hs] at hand
      rw [beq_eq_false_iff_ne]
      intro he
      rw [he] at hand
      cases hand
    | true =>
      rw [hs] at hand
      rw [beq_iff_eq]
      exact BitVec.eq_of_toNat_eq hand
  simp only [decode, bytes, VarInt.decode_encode_u32, Outcome.ok_bind, hid', hbit]

end PrimaryPacketMetadata

namespace Packet

def primary (p : Packet) : PrimaryPacketMetadata := ⟨p.channelId, p.segment.isSome⟩

def segmentBytes (p : Packet) : Bytes :=
  match p.segment with
  | some s => s.bytes
  | none => []

def keyBytes (p : Packet) : Bytes :=
  match p.resendKey with
  | some key => key.encode
  | none => []

def bytes (p : Packet) : Bytes :=
  p.primary.bytes ++ p.segmentBytes ++ encodeOrder p.order ++ p.keyBytes ++ p.payload

/-- The packet fits the wire and has the fields its channel's kind asks for. -/
structure Fits (p : Packet) (channel : Channel) : Prop where
  id : p.channelId.toNat < 2 ^ 31
  segment : ∀ s, p.segment = some s → s.Valid
  order : p.order.isSome = channel.isOrdered
  key : p.resendKey.isSome = channel.isReliable

def header (p : Packet) : PacketHeader := ⟨p.segment, p.order, p.resendKey, p.payload⟩

theorem read_order_and_key {p : Packet} {channel : Channel} (h : p.Fits channel) :
    readOrderAndResendKey channel (encodeOrder p.order ++ p.keyBytes ++ p.payload) =
      .ok ((p.order, p.resendKey), p.payload) := by
  obtain ⟨id, segment, order, key, payload⟩ := p
  obtain ⟨_, _, ho, hk⟩ := h
  simp only at ho hk
  simp only [readOrderAndResendKey, ← ho, ← hk, keyBytes]
  cases order <;> cases key <;> simp [encodeOrder, List.append_assoc]

/-- What the sender wrote is what the receiver of a channel of the same kind reads. -/
theorem read_header {p : Packet} {channel : Channel} (h : p.Fits channel) :
    readHeader channel p.segment.isSome
      (p.segmentBytes ++ encodeOrder p.order ++ p.keyBytes ++ p.payload) = .ok p.header := by
  have hread := read_order_and_key h
  unfold readHeader segmentBytes header
  cases hs : p.segment with
  | none =>
    simp only [List.append_assoc] at hread
    simp [hread]
  | some s =>
    have hd := s.decode_bytes (h.segment s hs) (encodeOrder p.order ++ p.keyBytes ++ p.payload)
    simp only [List.append_assoc] at hd hread ⊢
    simp [hd, hread]

theorem decode_primary {p : Packet} (hid : p.channelId.toNat < 2 ^ 31) :
    PrimaryPacketMetadata.decode p.bytes =
      .ok (p.primary, p.segmentBytes ++ encodeOrder p.order ++ p.keyBytes ++ p.payload) := by
  have hd := p.primary.decode_bytes hid
    (p.segmentBytes ++ (encodeOrder p.order ++ (p.keyBytes ++ p.payload)))
  simpa [bytes, List.append_assoc] using hd

end Packet

/-- What the sender's encoders produce for a packet is the packet on the wire. -/
theorem encoded_packet {id : U32} {segment : Option PacketSegmentMetadata} {primary seg : Bytes}
    (hp : PrimaryPacketMetadata.encode ⟨id, segment.isSome⟩ = .ok primary)
    (hs : encodeSegment segment = .ok seg) (order : Option U32) (key : Option SlotMapKey)
    (payload : Bytes) :
    primary ++ seg ++ encodeOrder order ++
        (Packet.keyBytes ⟨id, segment, order, key, payload⟩) ++ payload =
      Packet.bytes ⟨id, segment, order, key, payload⟩ := by
  rw [PrimaryPacketMetadata.encode_cases] at hp
  split at hp
  · cases hp
    cases segment with
    | none =>
      cases hs
      rfl
    | some x =>
      rw [(PacketSegmentMetadata.encode_ok hs).2]
      rfl
  · cases hp

theorem encode_segment_valid {segment : Option PacketSegmentMetadata}
    (h : ∀ s, segment = some s → s.Valid) : ∃ seg, encodeSegment segment = .ok seg := by
  cases segment with
  | none => exact ⟨[], rfl⟩
  | some s =>
    obtain ⟨hi, hpos, hc⟩ := h s rfl
    simp only [encodeSegment, PacketSegmentMetadata.encode, PacketSegmentMetadata.toU16]
    rw [if_neg (by omega), if_pos hi, if_pos (by omega)]
    exact ⟨_, rfl⟩

end Theta
