import Theta.Lib.Steps
import Theta.Proofs.Acknowledgements

namespace Theta
open Lib

/-- The keys of a payload, one after the other and nothing of it left over. -/
def encodeKeys (keys : List SlotMapKey) : Bytes := keys.flatMap SlotMapKey.encode

theorem acknowledge_locally_encoded {keys : List SlotMapKey} {fuel : Nat}
    (enough : (encodeKeys keys).length ≤ fuel) :
    acknowledgeLocally fuel (encodeKeys keys) = forM keys releaseKey := by
  induction keys generalizing fuel with
  | nil => cases fuel <;> rfl
  | cons key rest ih =>
    have hpos : 0 < key.encode.length := List.length_pos_iff.mpr key.encode_ne_nil
    rw [encodeKeys, List.flatMap_cons] at enough ⊢
    rw [List.length_append] at enough
    cases fuel with
    | zero => omega
    | succ fuel =>
      rw [acknowledgeLocally, SlotMapKey.decode_encode, List.forM_cons]
      dsimp only
      rw [← encodeKeys, ih (by rw [encodeKeys]; omega)]

/-- Payloads of whole keys, which are exactly these ones in this order. -/
structure Delivers (payloads : List Bytes) (keys : List SlotMapKey) : Prop where
  whole : ∀ payload ∈ payloads, ∃ own, payload = encodeKeys own
  decoded : payloads.flatMap (fun payload => decodeKeys payload.length payload) = keys
  released : (forM payloads fun payload => acknowledgeLocally payload.length payload) =
    forM keys releaseKey

theorem delivers_batches (batches : List (List SlotMapKey)) :
    Delivers (batches.map encodeKeys) batches.flatten where
  whole payload h := by
    obtain ⟨own, _, he⟩ := List.mem_map.mp h
    exact ⟨own, he.symm⟩
  decoded := by
    rw [List.flatMap_map]
    simp only [encodeKeys, decode_encoded_keys (Nat.le_refl _)]
    exact List.flatMap_id
  released := by
    induction batches with
    | nil => rfl
    | cons keys rest ih =>
      rw [List.map_cons, List.forM_cons, ih, acknowledge_locally_encoded (Nat.le_refl _),
        List.flatten_cons, List.forM_append]

namespace ConnectionAcknowledgeBuffer

inductive Use where
  | acknowledge (key : SlotMapKey)
  | flush

/-- A use of a buffer with the other arguments that it is given: the id of the acknowledgement
channel, and the rest of the connection. -/
structure Turn where
  use : Use
  ackChannelId : U32
  connection : Endpoint

def Turn.run (t : Turn) (buffer : Bytes) : Outcome ConnectionError Unit × Endpoint :=
  let m := { t.connection with acknowledgeBuffer := buffer }
  match t.use with
  | .acknowledge key => acknowledge key t.ackChannelId m
  | .flush => flush t.ackChannelId m

/-- A buffer, the datagrams that were sent for it and the keys that were acknowledged. -/
structure Outbox where
  buffer : Bytes := []
  datagrams : List Bytes := []
  keys : List SlotMapKey := []

/-- A call that returns `Ok`. -/
def Outbox.turn (s : Outbox) (t : Turn) : Option Outbox :=
  match t.run s.buffer with
  | (.ok (), m) => some {
      buffer := m.acknowledgeBuffer
      datagrams := s.datagrams ++ m.datagrams.drop t.connection.datagrams.length
      keys := match t.use with
        | .acknowledge key => s.keys ++ [key]
        | .flush => s.keys }
  | _ => none

/-- Every datagram is one whole packet of acknowledgements, and these packets and the buffer hold
the keys. -/
structure Outbox.Framed (s : Outbox) : Prop where
  compact : s.buffer.length ≤ maxNonSegmentedPayloadLen
  packets : ∃ packets : List Packet, s.datagrams = packets.map Packet.bytes ∧
    (∀ p ∈ packets, p.Fits ackChannel ∧ p.segment = none ∧
      p.payload.length ≤ maxNonSegmentedPayloadLen) ∧
    Delivers (packets.map Packet.payload ++ [s.buffer]) s.keys

/-- A call that has to send the buffer. -/
def Turn.flushes (t : Turn) (buffer : Bytes) : Prop :=
  match t.use with
  | .acknowledge key => maxNonSegmentedPayloadLen < (buffer ++ key.encode).length
  | .flush => True

/-- A call that sends leaves the resender with no more slots than a `u32` has values. -/
def Outbox.Numbered (s : Outbox) (t : Turn) : Prop :=
  t.flushes s.buffer → (t.run s.buffer).2.resender.packets.values.length ≤ 2 ^ 32

section
variable {m m' : Endpoint} {id : U32}

/-- What a flush that returns has sent. -/
theorem flush_ok (hc : m.Compact) (h : flush id m = (.ok (), m')) :
    m'.acknowledgeBuffer = [] ∧ ∃ d, m'.datagrams = m.datagrams ++ [d] ∧
      (m'.resender.packets.values.length ≤ 2 ^ 32 → ∃ p : Packet, d = p.bytes ∧
        p.Fits ackChannel ∧ p.segment = none ∧ p.payload = m.acknowledgeBuffer) := by
  rw [flush_run hc] at h
  split at h
  · rename_i hsmall
    cases hadd : m.resender.add (fun key => ReliableBufferedPacket.new
        (Packet.bytes ⟨m.ackLocalId id, none, none, some key, m.acknowledgeBuffer⟩) 750 (-1)) with
    | err e =>
      rw [hadd] at h
      cases h
    | panic =>
      rw [hadd] at h
      cases h
    | ok added =>
      obtain ⟨key, resender⟩ := added
      rw [hadd] at h
      dsimp only at h
      cases hget : resender.packets.get key with
      | none => simp [hget] at h
      | some packet =>
        rw [hget] at h
        obtain rfl := (Prod.mk.inj h).2
        refine ⟨rfl, packet.payload, datagrams_append { m with resender := resender } _, ?_⟩
        intro few
        have hpacket := SlotMap.get_added (PacketResender.add_ok hadd).2.2 few hget
        refine ⟨⟨m.ackLocalId id, none, none, some key, m.acknowledgeBuffer⟩, ?_, ?_, rfl, rfl⟩
        · rw [← Option.some.inj hpacket]
          rfl
        · exact ⟨hsmall, by simp, rfl, rfl⟩
  · cases h

/-- A key is written behind the keys before it, or alone once these are sent. -/
theorem acknowledge_ok {key : SlotMapKey} (h : acknowledge key id m = (.ok (), m')) :
    ((m.acknowledgeBuffer ++ key.encode).length ≤ maxNonSegmentedPayloadLen ∧
      m' = { m with acknowledgeBuffer := m.acknowledgeBuffer ++ key.encode }) ∨
    (maxNonSegmentedPayloadLen < (m.acknowledgeBuffer ++ key.encode).length ∧
      ∃ t, flush id m = (.ok (), t) ∧
        m' = { t with acknowledgeBuffer := t.acknowledgeBuffer ++ key.encode }) := by
  simp only [acknowledge, Act.bind_apply, Act.get_apply] at h
  by_cases hlen : (m.acknowledgeBuffer ++ key.encode).length > maxNonSegmentedPayloadLen
  · rw [if_pos hlen, Act.bind_apply] at h
    rcases hflush : flush id m with ⟨result, t⟩
    rw [hflush] at h
    cases result with
    | ok _ => exact Or.inr ⟨hlen, t, rfl, (Prod.mk.inj h).2.symm⟩
    | err e => cases h
    | panic => cases h
  · rw [if_neg hlen] at h
    exact Or.inl ⟨Nat.le_of_not_lt hlen, (Prod.mk.inj h).2.symm⟩

end

/-- The keys, batch by batch: those of the packets, and those of the buffer. -/
structure Outbox.Batched (s : Outbox) (packets : List Packet) (batches : List (List SlotMapKey))
    (last : List SlotMapKey) : Prop where
  compact : s.buffer.length ≤ maxNonSegmentedPayloadLen
  datagrams : s.datagrams = packets.map Packet.bytes
  fits : ∀ p ∈ packets, p.Fits ackChannel ∧ p.segment = none ∧
    p.payload.length ≤ maxNonSegmentedPayloadLen
  payloads : packets.map Packet.payload = batches.map encodeKeys
  buffer : s.buffer = encodeKeys last
  keys : s.keys = batches.flatten ++ last

namespace Outbox
variable {s s' : Outbox} {packets : List Packet} {batches : List (List SlotMapKey)}
  {last : List SlotMapKey}

theorem Batched.framed (h : s.Batched packets batches last) : s.Framed := by
  refine ⟨h.compact, packets, h.datagrams, h.fits, ?_⟩
  have delivers := delivers_batches (batches ++ [last])
  rw [List.map_append, List.map_singleton, ← h.payloads, ← h.buffer, List.flatten_append,
    List.flatten_singleton, ← h.keys] at delivers
  exact delivers

/-- A flush closes the batch of the buffer. -/
theorem Batched.flushed {p : Packet} (h : s.Batched packets batches last) (fits : p.Fits ackChannel)
    (single : p.segment = none) (payload : p.payload = s.buffer) :
    Batched ⟨[], s.datagrams ++ [p.bytes], s.keys⟩ (packets ++ [p]) (batches ++ [last]) [] where
  compact := by simp
  datagrams := by simp [h.datagrams]
  fits q hq := by
    rcases List.mem_append.mp hq with hq | hq
    · exact h.fits q hq
    · obtain rfl := List.mem_singleton.mp hq
      exact ⟨fits, single, by rw [payload]; exact h.compact⟩
  payloads := by simp [h.payloads, payload, h.buffer]
  buffer := rfl
  keys := by simp [h.keys]

theorem Batched.added (h : s.Batched packets batches last) (key : SlotMapKey)
    (room : (s.buffer ++ key.encode).length ≤ maxNonSegmentedPayloadLen) :
    Batched ⟨s.buffer ++ key.encode, s.datagrams, s.keys ++ [key]⟩ packets batches
      (last ++ [key]) where
  compact := room
  datagrams := h.datagrams
  fits := h.fits
  payloads := h.payloads
  buffer := by simp [h.buffer, encodeKeys]
  keys := by simp [h.keys]

theorem Batched.sends {m t : Endpoint} {id : U32} (h : s.Batched packets batches last)
    (hflush : flush id { m with acknowledgeBuffer := s.buffer } = (.ok (), t))
    (few : t.resender.packets.values.length ≤ 2 ^ 32) :
    t.acknowledgeBuffer = [] ∧ ∃ p : Packet,
      t.datagrams.drop m.datagrams.length = [p.bytes] ∧
      Batched ⟨[], s.datagrams ++ [p.bytes], s.keys⟩ (packets ++ [p]) (batches ++ [last]) [] := by
  have compact : Endpoint.Compact { m with acknowledgeBuffer := s.buffer } := h.compact
  obtain ⟨hempty, d, hd, whole⟩ := flush_ok compact hflush
  obtain ⟨p, rfl, fits, single, payload⟩ := whole few
  refine ⟨hempty, p, ?_, h.flushed fits single payload⟩
  rw [hd]
  exact List.drop_left

theorem Batched.next {t : Turn} (h : s.Batched packets batches last) (ht : s.turn t = some s')
    (few : s.Numbered t) : ∃ packets batches last, s'.Batched packets batches last := by
  obtain ⟨use, id, m⟩ := t
  rcases hrun : Turn.run ⟨use, id, m⟩ s.buffer with ⟨result, m'⟩
  rw [turn, hrun] at ht
  rw [Numbered, hrun] at few
  cases result with
  | err e => cases ht
  | panic => cases ht
  | ok _ =>
    obtain rfl := Option.some.inj ht
    cases use with
    | flush =>
      obtain ⟨hempty, p, hnew, batched⟩ := h.sends hrun (few trivial)
      refine ⟨packets ++ [p], batches ++ [last], [], ?_⟩
      rw [← hnew] at batched
      simp only [hempty]
      exact batched
    | acknowledge key =>
      rcases acknowledge_ok hrun with ⟨room, rfl⟩ | ⟨full, t, hflush, rfl⟩
      · have hnone : m.datagrams.drop m.datagrams.length = [] := List.drop_length
        have hsame : s.datagrams ++ m.datagrams.drop m.datagrams.length = s.datagrams := by
          rw [hnone, List.append_nil]
        have batched := h.added key room
        rw [← hsame] at batched
        exact ⟨_, _, _, batched⟩
      · obtain ⟨hempty, p, hnew, batched⟩ := h.sends hflush (few full)
        have room : (([] : Bytes) ++ key.encode).length ≤ maxNonSegmentedPayloadLen :=
          Nat.le_trans key.encode_length_le (by decide)
        have added := batched.added key room
        refine ⟨packets ++ [p], batches ++ [last], [] ++ [key], ?_⟩
        rw [← hnew] at added
        simp only [hempty]
        exact added

end Outbox

/-- In every sequence of calls that return, with any keys and on any connections, each datagram is
one packet of whole keys, and the packets and the buffer hold the acknowledged keys in order. -/
theorem acknowledgements_framed (turns : List Turn)
    (few : AtEach Outbox.turn (fun s t _ => s.Numbered t) turns {}) :
    AtEach Outbox.turn (fun _ _ s => s.Framed) turns {} := by
  refine at_each_of (I := fun s => ∃ packets batches last, s.Batched packets batches last)
    (fun s t s' batched ht few => ?_) ?_ few
  · obtain ⟨packets, batches, last, h⟩ := batched
    have next := h.next ht few
    refine ⟨next, ?_⟩
    obtain ⟨_, _, _, h'⟩ := next
    exact h'.framed
  · exact ⟨[], [], [], ⟨by simp, rfl, by simp, rfl, rfl, rfl⟩⟩

/-- A connection that has nothing but a resender with room. -/
def roomy : Endpoint := { Endpoint.fresh 0 with resender := ⟨{}, 2⟩ }

theorem acknowledgements_framed_roomy : AtEach Outbox.turn (fun _ _ s => s.Framed)
    [⟨.acknowledge ⟨3, 1⟩, 0, roomy⟩, ⟨.acknowledge ⟨4, 0⟩, 0, roomy⟩, ⟨.flush, 0, roomy⟩,
      ⟨.acknowledge ⟨3, 2⟩, 0, roomy⟩] {} := by
  apply acknowledgements_framed
  refine ⟨?_, ?_, ?_, ?_, trivial⟩
  all_goals
    intro _
    decide +kernel

/-- A packet of channel 5, kept by a resender. -/
def kept : ReliableBufferedPacket := ⟨[10, 0, 0, 42], 750, 1, 0⟩

/-- A connection whose resender holds `n` such packets and has room for another one. -/
def overfull (n : Nat) : Endpoint := { Endpoint.fresh 0 with
  resender := ⟨⟨List.replicate n (some kept), List.replicate n 0, []⟩, n + 1⟩ }

/-- Once the indices have wrapped it is the first slot's packet that goes out. -/
theorem overfull_flush {n : Nat} (hn : 0 < n) (wrapped : BitVec.ofNat 32 n = 0) (key : SlotMapKey)
    (id : U32) : Outbox.turn ⟨key.encode, [], [key]⟩ ⟨.flush, id, overfull n⟩ =
      some ⟨[], [kept.payload], [key]⟩ := by
  have compact : Endpoint.Compact { overfull n with acknowledgeBuffer := key.encode } :=
    Nat.le_trans key.encode_length_le (by decide)
  have hsmall : (Endpoint.ackLocalId { overfull n with acknowledgeBuffer := key.encode } id).toNat <
      2 ^ 31 := by
    change ackChannelIdRegistrationStage.toNat < 2 ^ 31
    decide
  have hroom : ¬ (overfull n).resender.packets.len = (overfull n).resender.capacity := by
    simp only [overfull, SlotMap.len, List.length_replicate, List.length_nil]
    omega
  have hadd (func : SlotMapKey → ReliableBufferedPacket) : (overfull n).resender.add func =
      .ok (⟨0, 0⟩, ⟨⟨List.replicate n (some kept) ++ [some (func ⟨0, 0⟩)],
        List.replicate n 0 ++ [0], []⟩, n + 1⟩) := by
    rw [PacketResender.add, if_neg hroom]
    simp only [overfull, SlotMap.add, List.length_replicate, Nat.le_refl, ↓reduceIte,
      Outcome.ok_bind, wrapped]
  have hget (last : Option ReliableBufferedPacket) : SlotMap.get ⟨List.replicate n (some kept) ++
      [last], List.replicate n 0 ++ [0], []⟩ ⟨0, 0⟩ = some kept := by
    rw [SlotMap.get_eq_some]
    cases n with
    | zero => omega
    | succ n => exact ⟨rfl, rfl⟩
  have hflush := @flush_run _ id compact
  rw [if_pos hsmall] at hflush
  simp only [hadd, hget] at hflush
  rw [Outbox.turn, Turn.run]
  simp only [hflush]
  rfl

/-- What the packet of channel 5 is, if it is taken for one of acknowledgements. -/
theorem kept_payload {p : Packet} (fits : p.Fits ackChannel) (single : p.segment = none)
    (h : p.bytes = kept.payload) : p.payload = [42] := by
  have hprimary := Packet.decode_primary fits.id
  have hheader := Packet.read_header fits
  rw [h] at hprimary
  have hread : PrimaryPacketMetadata.decode kept.payload = .ok (⟨5, false⟩, [0, 0, 42]) := by decide
  rw [hread] at hprimary
  injection hprimary with hprimary
  rw [← (Prod.mk.inj hprimary).2, single] at hheader
  have hrest : readHeader ackChannel false [0, 0, 42] =
      .ok ⟨none, none, some ⟨0, 0⟩, [42]⟩ := by decide
  rw [Option.isSome_none, hrest] at hheader
  injection hheader with hheader
  exact (congrArg PacketHeader.payload hheader).symm

theorem overfull_loses {n : Nat} (hn : 0 < n) (wrapped : BitVec.ofNat 32 n = 0) :
    ¬ AtEach Outbox.turn (fun _ _ s => s.Framed)
      [⟨.acknowledge ⟨3, 1⟩, 0, roomy⟩, ⟨.flush, 0, overfull n⟩] {} := by
  have hfirst : Outbox.turn {} ⟨.acknowledge ⟨3, 1⟩, 0, roomy⟩ =
      some ⟨SlotMapKey.encode ⟨3, 1⟩, [], [⟨3, 1⟩]⟩ := rfl
  have hlast := overfull_flush hn wrapped ⟨3, 1⟩ 0
  intro h
  simp only [AtEach, hfirst, hlast] at h
  obtain ⟨packets, hsent, fits, delivers⟩ := h.2.1.packets
  cases packets with
  | nil => cases hsent
  | cons p rest =>
    obtain ⟨hp, hrest⟩ := List.cons.inj hsent
    obtain rfl := List.map_eq_nil_iff.mp hrest.symm
    obtain ⟨hfits, hsingle, _⟩ := fits p List.mem_cons_self
    have hdecoded := delivers.decoded
    simp only [List.map_cons, kept_payload hfits hsingle hp.symm] at hdecoded
    revert hdecoded
    decide

/-- With `2 ^ 32` slots in use a flush that returns `Ok` may lose the keys of the buffer. -/
theorem acknowledgements_lost : ¬ AtEach Outbox.turn (fun _ _ s => s.Framed)
    [⟨.acknowledge ⟨3, 1⟩, 0, roomy⟩, ⟨.flush, 0, overfull (2 ^ 32)⟩] {} :=
  overfull_loses (by decide) (by decide)

end ConnectionAcknowledgeBuffer

end Theta
