import Theta.Proofs.Header
import Theta.Proofs.Orderer
import Theta.Proofs.Resender

namespace Theta
open Lib Relation

/-- The keys that a payload of acknowledgements decodes to. -/
def decodeKeys : Nat → Bytes → List SlotMapKey
  | 0, _ => []
  | fuel + 1, packet =>
    match SlotMapKey.decode packet with
    | .ok (key, packet) => key :: decodeKeys fuel packet
    | .err _ => []
    | .panic => []

/-- What one call may do: the packets it sends, the keys it records and the keys it
acknowledges locally; and whether it may join segments, leave the registration stage,
handle packets, register channels and change orderers. -/
structure Scope where
  sends : Endpoint → Packet → Channel → Prop
  records : Endpoint → SlotMapKey → Bytes → Prop
  acks : SlotMapKey → Prop
  joins : Prop := False
  switches : Prop := False
  handles : Prop := False
  registers : Prop := False
  holds : Prop := False

/-- No restriction. -/
def unrestricted : Scope where
  sends _ _ _ := True
  records _ _ _ := True
  acks _ := True
  joins := True
  switches := True
  handles := True
  registers := True
  holds := True

/-- One change that a call makes to a connection and its trace. -/
inductive Move (s : Scope) : Endpoint → Endpoint → Prop where
  | issue (m : Endpoint) (base : Packet) (channel : Channel) (reliable : ReliableChannel)
      (key : SlotMapKey) (resender : PacketResender) (packet : ReliableBufferedPacket)
      (sends : s.sends m base channel) (id : base.channelId.toNat < 2 ^ 31)
      (segment : ∀ x, base.segment = some x → x.Valid)
      (kind : channel.reliability = some reliable)
      (add : (m.resender.add (fun key => ReliableBufferedPacket.new
        ({ base with resendKey := some key } : Packet).bytes
        reliable.resendInterval reliable.resendAttempts)) = .ok (key, resender))
      (stored : resender.packets.get key = some packet) :
      Move s m { m with
        resender := resender
        log := m.log ++ [.issued key packet.payload, .sent packet.payload] }
  | send (m : Endpoint) (base : Packet) (channel : Channel) (sends : s.sends m base channel)
      (id : base.channelId.toNat < 2 ^ 31) (segment : ∀ x, base.segment = some x → x.Valid)
      (kind : channel.reliability = none) :
      Move s m { m with log := m.log ++ [.sent base.bytes] }
  | flushed (m : Endpoint) : Move s m { m with acknowledgeBuffer := [] }
  | buffer (m : Endpoint) (key : SlotMapKey) (d : Bytes) (known : .recorded key d ∈ m.log)
      (room : (m.acknowledgeBuffer ++ key.encode).length ≤ maxNonSegmentedPayloadLen) :
      Move s m { m with acknowledgeBuffer := m.acknowledgeBuffer ++ key.encode }
  | count (m : Endpoint) : Move s m { m with segmentKeysCounter := m.segmentKeysCounter + 1 }
  | record (m : Endpoint) (key : SlotMapKey) (d : Bytes) (records : s.records m key d)
      (new : key ∉ m.resendKeyDuplicateChecker.set) :
      Move s m { m with
        resendKeyDuplicateChecker := ⟨key :: m.resendKeyDuplicateChecker.set⟩
        log := m.log ++ [.recorded key d] }
  | join (m : Endpoint) (joiner : PacketSegmentJoiner) (joins : s.joins) :
      Move s m { m with joiner := joiner }
  | switch (m : Endpoint) (lastKey : Option SlotMapKey)
      (complete : m.state = .registration true lastKey) (switches : s.switches) :
      Move s m m.switched
  | confirm (m : Endpoint) (received : Bool) (key : SlotMapKey)
      (last : m.state = .registration received (some key)) (acks : s.acks key) :
      Move s m { m with
        state := .registration received none
        log := m.log ++ [.confirmed key] }
  | release (m : Endpoint) (key : SlotMapKey) (packet : ReliableBufferedPacket)
      (resender : PacketResender)
      (remove : (m.resender.remove key : Outcome ConnectionError _) = .ok (some packet, resender))
      (acks : s.acks key) :
      Move s m { m with resender := resender, log := m.log ++ [.released key packet.payload] }
  | consume (m : Endpoint) (packet : Bytes) (handles : s.handles) :
      Move s m { m with log := m.log ++ [.consumed packet] }
  | hand (m : Endpoint) (packet : Bytes) (registers : s.registers) :
      Move s m { m with log := m.log ++ [.handed packet] }
  | finish (m : Endpoint) (received : Bool) (lastKey : Option SlotMapKey)
      (stage : m.state = .registration received lastKey) (registers : s.registers) :
      Move s m { m with state := .registration true lastKey }
  | register (m : Endpoint) (received : Bool) (lastKey : Option SlotMapKey)
      (id globalId : U32) (name : String) (mapper : ConnectionIdMapperInner)
      (stage : m.state = .registration received lastKey)
      (insert : m.notLocalInner.insert id globalId name = some mapper) (registers : s.registers) :
      Move s m { m with notLocalInner := mapper }
  | hold (m : Endpoint) (orderers : ChannelData (Option PacketOrderer)) (holds : s.holds) :
      Move s m { m with orderers := orderers }
  | push (m : Endpoint) (globalId : U32) (packet : Bytes) (stage : m.state = .transfer)
      (handles : s.handles) :
      Move s m { m with buffers := m.buffers.modify globalId (· ++ [packet]) }
  | touch (m : Endpoint) (now : Nat) : Move s m { m with lastTimeReceivedPacket := now }
  | resend (m : Endpoint) (packet : ReliableBufferedPacket)
      (held : some packet ∈ m.resender.packets.values) :
      Move s m { m with log := m.log ++ [.sent packet.payload] }
  | clock (m : Endpoint) (delta : U32) (packets : SlotMap ReliableBufferedPacket)
      (func : ReliableBufferedPacket → Call Unit) (before after : Endpoint)
      (visited : m.resender.packets.retainIf (PacketResender.visit delta func) before =
        (.ok packets, after)) :
      Move s m { m with resender := { m.resender with packets := packets } }

section
variable {s : Scope}

section
variable {channel : ConnectionChannel} {order : Option U32} {segment : Option PacketSegmentMetadata}
  {payload : Bytes} {m : Endpoint}

/-- A reliable packet that fits the wire is sent when the resender has room for it. -/
theorem send_reliable {reliable : ReliableChannel} (id : channel.localId.toNat < 2 ^ 31)
    (valid : ∀ x, segment = some x → x.Valid) (hlen : payload.length ≤ maxPacketLen)
    (kind : channel.channel.reliability = some reliable) :
    sendRealPacket channel order segment payload m = (do
      let (key, resender) ← Act.lift ((m.resender.add (fun key => ReliableBufferedPacket.new
        (Packet.bytes ⟨channel.localId, segment, order, some key, payload⟩)
        reliable.resendInterval reliable.resendAttempts)).mapErr .packetResenderError)
      let packet ← Act.lift (Outcome.ofOption (resender.packets.get key))
      Act.modify (fun m => { m with resender := resender })
      emit (.issued key packet.payload)
      sendDatagram packet.payload
      pure (some key) : Call _) m := by
  have hp := PrimaryPacketMetadata.encode_cases ⟨channel.localId, segment.isSome⟩
  rw [if_pos id] at hp
  obtain ⟨seg, hs⟩ := encode_segment_valid valid
  have hbytes (key : SlotMapKey) := encoded_packet hp hs order (some key) payload
  simp only [Packet.keyBytes] at hbytes
  rw [sendRealPacket, if_neg (Nat.not_lt_of_le hlen)]
  simp only [encoding, hp, hs, Outcome.mapErr, Act.bind_apply, Act.lift_apply, kind, hbytes,
    Act.get_apply]

/-- An unreliable packet that fits the wire is sent. -/
theorem send_unreliable (id : channel.localId.toNat < 2 ^ 31)
    (valid : ∀ x, segment = some x → x.Valid) (hlen : payload.length ≤ maxPacketLen)
    (kind : channel.channel.reliability = none) :
    sendRealPacket channel order segment payload m = (.ok none, { m with
      log := m.log ++ [.sent (Packet.bytes ⟨channel.localId, segment, order, none, payload⟩)] }) := by
  have hp := PrimaryPacketMetadata.encode_cases ⟨channel.localId, segment.isSome⟩
  rw [if_pos id] at hp
  obtain ⟨seg, hs⟩ := encode_segment_valid valid
  have hbytes := encoded_packet hp hs order none payload
  simp only [Packet.keyBytes, List.append_nil] at hbytes
  rw [sendRealPacket, if_neg (Nat.not_lt_of_le hlen)]
  simp only [encoding, hp, hs, Outcome.mapErr, Act.bind_apply, Act.lift_apply, kind, hbytes,
    sendDatagram, emit, Act.modify_apply, Act.pure_apply]

/-- An id that does not fit the wire is an error. -/
theorem send_unaddressed (id : ¬ channel.localId.toNat < 2 ^ 31)
    (hlen : payload.length ≤ maxPacketLen) :
    sendRealPacket channel order segment payload m = (.err .encodeError, m) := by
  have hp := PrimaryPacketMetadata.encode_cases ⟨channel.localId, segment.isSome⟩
  rw [if_neg id] at hp
  rw [sendRealPacket, if_neg (Nat.not_lt_of_le hlen)]
  simp only [encoding, hp, Outcome.mapErr, Act.bind_apply, Act.lift_apply]

/-- Numbers that do not fit the two-byte integers of the wire stop the call. -/
theorem send_unnumbered {x : PacketSegmentMetadata} (id : channel.localId.toNat < 2 ^ 31)
    (invalid : ¬ x.Valid) :
    sendRealPacket channel order (some x) payload m = (.panic, m) := by
  have hp := PrimaryPacketMetadata.encode_cases ⟨channel.localId, (some x).isSome⟩
  rw [if_pos id] at hp
  unfold sendRealPacket
  split
  · rfl
  · simp only [encoding, hp, encodeSegment, PacketSegmentMetadata.encode_invalid invalid,
      Outcome.mapErr, Act.bind_apply, Act.lift_apply]

end

/-- One packet: sent, or refused with nothing changed. -/
theorem send_real_packet_cases (channel : ConnectionChannel) (order : Option U32)
    (segment : Option PacketSegmentMetadata) (payload : Bytes) (m : Endpoint) :
    ((∀ r, (sendRealPacket channel order segment payload m).1 ≠ .ok r) ∧
      (sendRealPacket channel order segment payload m).2 = m) ∨
    (channel.localId.toNat < 2 ^ 31 ∧ (∀ x, segment = some x → x.Valid) ∧
      ((∃ reliable key resender packet, channel.channel.reliability = some reliable ∧
        (m.resender.add (fun key => ReliableBufferedPacket.new
          (Packet.bytes ⟨channel.localId, segment, order, some key, payload⟩)
          reliable.resendInterval reliable.resendAttempts)) = .ok (key, resender) ∧
        resender.packets.get key = some packet ∧
        sendRealPacket channel order segment payload m = (.ok (some key), { m with
          resender := resender
          log := m.log ++ [.issued key packet.payload, .sent packet.payload] })) ∨
      (channel.channel.reliability = none ∧
        sendRealPacket channel order segment payload m = (.ok none, { m with
          log := m.log ++
            [.sent (Packet.bytes ⟨channel.localId, segment, order, none, payload⟩)] })))) := by
  by_cases hlen : maxPacketLen < payload.length
  · left
    simp [sendRealPacket, hlen]
  have hlen := Nat.le_of_not_lt hlen
  by_cases hid : channel.localId.toNat < 2 ^ 31
  swap
  · left
    rw [send_unaddressed hid hlen]
    simp
  by_cases valid : ∀ x, segment = some x → x.Valid
  swap
  · left
    push Not at valid
    obtain ⟨x, rfl, invalid⟩ := valid
    rw [send_unnumbered hid invalid]
    simp
  cases kind : channel.channel.reliability with
  | none =>
    right
    exact ⟨hid, valid, Or.inr ⟨rfl, send_unreliable hid valid hlen kind⟩⟩
  | some reliable =>
    rw [send_reliable hid valid hlen kind]
    simp only [Act.bind_apply, Act.lift_apply]
    generalize hadd : m.resender.add _ = added
    cases added with
    | err e =>
      left
      simp [Outcome.mapErr]
    | panic =>
      left
      simp [Outcome.mapErr]
    | ok r =>
      obtain ⟨key, resender⟩ := r
      cases hget : resender.packets.get key with
      | none =>
        left
        simp [Outcome.mapErr, hget, Outcome.ofOption]
      | some packet =>
        right
        refine ⟨hid, valid, Or.inl ⟨reliable, key, resender, packet, rfl, hadd, hget, ?_⟩⟩
        simp [Outcome.mapErr, hget, Outcome.ofOption, sendDatagram, emit]

theorem send_real_packet_moves {channel : ConnectionChannel} {order : Option U32}
    {segment : Option PacketSegmentMetadata} {payload : Bytes} {m : Endpoint}
    (hs : s.sends m ⟨channel.localId, segment, order, none, payload⟩ channel.channel) :
    ReflTransGen (Move s) m (sendRealPacket channel order segment payload m).2 := by
  rcases send_real_packet_cases channel order segment payload m with
    ⟨_, h⟩ | ⟨hid, hseg, ⟨reliable, key, resender, packet, hkind, hadd, hget, h⟩ | ⟨hkind, h⟩⟩
  · rw [h]
  · rw [h]
    exact .single (.issue m _ _ reliable key resender packet hs hid hseg hkind hadd hget)
  · rw [h]
    exact .single (.send m _ _ hs hid hseg hkind)

theorem send_segments_moves {channel : ConnectionChannel} {order : Option U32} {key : U32}
    {count : Nat} (i : Nat) (segments : List Bytes)
    (hs : ∀ m j payload, j < i + segments.length →
      s.sends m ⟨channel.localId, some ⟨key, j, count⟩, order, none, payload⟩ channel.channel)
    (m : Endpoint) :
    ReflTransGen (Move s) m (sendSegments channel order key count i segments m).2 := by
  induction segments generalizing i m with
  | nil => exact .refl
  | cons segment rest ih =>
    rw [List.length_cons] at hs
    rw [sendSegments]
    refine Act.bind_moves (send_real_packet_moves (hs m i segment (by omega))) (fun _ _ => ?_)
    refine Act.bind_moves (ih (i + 1) (fun m j payload hj => ?_) _) (fun _ _ => .refl)
    exact hs m j payload (by omega)

theorem transmit_moves {channel : ConnectionChannel} {order : Option U32} {payload : Bytes}
    {m : Endpoint}
    (whole : payload.length ≤ maxNonSegmentedPayloadLen →
      s.sends m ⟨channel.localId, none, order, none, payload⟩ channel.channel)
    (parts : maxNonSegmentedPayloadLen < payload.length → ∀ m metadata part,
      metadata.segment < metadata.segmentCount →
      s.sends m ⟨channel.localId, some metadata, order, none, part⟩ channel.channel) :
    ReflTransGen (Move s) m (transmit channel order payload m).2 := by
  unfold transmit
  split
  · rename_i hlen
    simp only [Act.bind_apply, Act.get_apply, Act.modify_apply]
    refine .head (.count m) (send_segments_moves 0 _ (fun m i part hi => ?_) _)
    exact parts hlen m _ part (by simpa using hi)
  · rename_i hlen
    exact Act.bind_moves (send_real_packet_moves (whole (Nat.le_of_not_lt hlen)))
      (fun _ _ => .refl)

/-- The acknowledgement that a flush would send. -/
def Endpoint.ackPacket (m : Endpoint) : Packet where
  channelId := match m.state with
    | .registration _ _ => ackChannelIdRegistrationStage
    | .transfer => m.localInner.ackChannelId
  segment := none
  order := none
  resendKey := none
  payload := m.acknowledgeBuffer

/-- The pending acknowledgements fit one packet. -/
def Endpoint.Compact (m : Endpoint) : Prop :=
  m.acknowledgeBuffer.length ≤ maxNonSegmentedPayloadLen

theorem Move.log_grows {m m' : Endpoint} (h : Move s m m') : m.log <+: m'.log := by
  cases h <;> first | exact List.prefix_refl _ | exact List.prefix_append _ _

theorem log_grows {m m' : Endpoint} (h : ReflTransGen (Move s) m m') : m.log <+: m'.log := by
  induction h with
  | refl => exact List.prefix_refl _
  | tail _ h ih => exact ih.trans h.log_grows

/-- The events that a move of a scope may log. -/
def Scope.logs (s : Scope) (m : Endpoint) : Event → Prop
  | .recorded key d => s.records m key d
  | .released key _ => s.acks key
  | .confirmed key => s.acks key
  | .handed _ => s.registers
  | .called _ _ => False
  | _ => True

theorem Move.logged {m m' : Endpoint} (h : Move s m m') :
    ∃ events, m'.log = m.log ++ events ∧ ∀ event ∈ events, s.logs m event := by
  have one (event : Event) (he : s.logs m event) :
      ∃ events, m.log ++ [event] = m.log ++ events ∧ ∀ event ∈ events, s.logs m event := by
    refine ⟨[event], rfl, fun other h => ?_⟩
    cases List.mem_singleton.mp h
    exact he
  cases h with
  | issue _ _ _ key _ packet =>
    exact ⟨[.issued key packet.payload, .sent packet.payload], rfl, by simp [Scope.logs]⟩
  | send => exact one _ trivial
  | record key d records => exact one _ records
  | confirm received key last acks => exact one _ acks
  | release key packet _ _ acks => exact one _ acks
  | consume => exact one _ trivial
  | hand _ registers => exact one _ registers
  | resend => exact one _ trivial
  | _ => exact ⟨[], (List.append_nil _).symm, fun _ h => by cases h⟩

/-- What holds of every event logged so far holds of those that the moves add. -/
theorem moves_logged {E : Event → Prop} {m m' : Endpoint} (h : ReflTransGen (Move s) m m')
    (logs : ∀ t event, ReflTransGen (Move s) m t → s.logs t event → E event)
    (hm : ∀ event ∈ m.log, E event) : ∀ event ∈ m'.log, E event := by
  induction h with
  | refl => exact hm
  | tail before h ih =>
    obtain ⟨events, hlog, hevents⟩ := h.logged
    intro event he
    rw [hlog] at he
    rcases List.mem_append.mp he with he | he
    · exact ih event he
    · exact logs _ event before (hevents event he)

theorem ack_channel_id {mapper : ConnectionIdMapperInner} {id : U32}
    (h : mapper.ackChannelId? = some id) : mapper.ackChannelId = id := by
  unfold ConnectionIdMapperInner.ackChannelId? ConnectionIdMapperInner.nonNull at h
  split at h
  · cases h
  · exact Option.some.inj h

theorem channel_management_channel_id {mapper : ConnectionIdMapperInner} {id : U32}
    (h : mapper.channelManagementChannelId? = some id) : mapper.channelManagementChannelId = id := by
  unfold ConnectionIdMapperInner.channelManagementChannelId? ConnectionIdMapperInner.nonNull at h
  split at h
  · cases h
  · exact Option.some.inj h

theorem flush_moves {m : Endpoint} {id : U32} (hid : m.localInner.ackChannelId? = some id)
    (hc : m.Compact) (hs : s.sends m m.ackPacket ackChannel) :
    ReflTransGen (Move s) m (ConnectionAcknowledgeBuffer.flush id m).2 := by
  unfold ConnectionAcknowledgeBuffer.flush
  refine Act.bind_moves .refl (fun m' hm => ?_)
  cases hm
  refine Act.bind_moves ?_ (fun _ _ => .single (.flushed _))
  rw [← ack_channel_id hid]
  exact transmit_moves (fun _ => hs) (fun hlt => absurd hc (Nat.not_le_of_lt hlt))

theorem flush_clears {m : Endpoint} {id : U32}
    (h : (ConnectionAcknowledgeBuffer.flush id m).1 = .ok ()) :
    (ConnectionAcknowledgeBuffer.flush id m).2.acknowledgeBuffer = [] := by
  revert h
  simp only [ConnectionAcknowledgeBuffer.flush, Act.bind_apply, Act.get_apply]
  split <;> simp

theorem acknowledge_moves {m : Endpoint} {key : SlotMapKey} {d : Bytes} {id : U32}
    (hid : m.localInner.ackChannelId? = some id) (hc : m.Compact)
    (hs : s.sends m m.ackPacket ackChannel) (known : .recorded key d ∈ m.log) :
    ReflTransGen (Move s) m (ConnectionAcknowledgeBuffer.acknowledge key id m).2 := by
  have hkey := key.encode_length_le
  have hmax : maxNonSegmentedPayloadLen = 1980 := rfl
  unfold ConnectionAcknowledgeBuffer.acknowledge
  refine Act.bind_moves .refl (fun m' hm => ?_)
  cases hm
  dsimp only [Act.get_apply]
  split
  · refine Act.bind_moves (flush_moves hid hc hs) (fun _ hok => .single ?_)
    refine .buffer _ key d ((log_grows (flush_moves hid hc hs)).mem known) ?_
    rw [flush_clears hok, List.nil_append]
    omega
  · rename_i hlen
    exact .single (.buffer m key d known (Nat.le_of_not_lt hlen))

theorem local_ack_channel_id {m : Endpoint} {id : U32} (h : (localAckChannelId m).1 = .ok id) :
    m.localInner.ackChannelId? = some id := by
  simp only [localAckChannelId, Act.bind_apply, Act.get_apply, Act.lift_apply] at h
  cases ha : m.localInner.ackChannelId? with
  | none =>
    rw [ha] at h
    cases h
  | some i =>
    rw [ha] at h
    cases h
    rfl

/-- The connection after a key was recorded for a datagram. -/
def Endpoint.recording (m : Endpoint) (key : SlotMapKey) (d : Bytes) : Endpoint :=
  { m with
    resendKeyDuplicateChecker := ⟨key :: m.resendKeyDuplicateChecker.set⟩
    log := m.log ++ [.recorded key d] }

theorem acknowledge_known {m : Endpoint} {key : SlotMapKey} {d : Bytes}
    (h : key ∈ m.resendKeyDuplicateChecker.set) :
    acknowledgeIfNeeded d (some key) m = (.err .packetDuplicateDetected, m) := by
  have hins : m.resendKeyDuplicateChecker.insert key = .err .insertedError := by
    rw [SlotSet.insert, if_pos h]
  simp only [acknowledgeIfNeeded, Act.bind_apply, Act.get_apply, Act.lift_apply, hins,
    Outcome.mapErr]

theorem acknowledge_new {m : Endpoint} {key : SlotMapKey} {d : Bytes}
    (h : key ∉ m.resendKeyDuplicateChecker.set) :
    acknowledgeIfNeeded d (some key) m = (do
      let ackChannelId ← localAckChannelId
      ConnectionAcknowledgeBuffer.acknowledge key ackChannelId : Call Unit)
        (m.recording key d) := by
  have hins : m.resendKeyDuplicateChecker.insert key =
      .ok ⟨key :: m.resendKeyDuplicateChecker.set⟩ := by
    rw [SlotSet.insert, if_neg h]
  simp only [acknowledgeIfNeeded, Act.bind_apply, Act.get_apply, Act.lift_apply, hins,
    Outcome.mapErr, Act.modify_apply, emit]
  rfl

/-- What follows the recording of a key. -/
theorem acknowledge_new_moves {m : Endpoint} {key : SlotMapKey} {d : Bytes} (hc : m.Compact)
    (hs : ∀ m, s.sends m m.ackPacket ackChannel) :
    ReflTransGen (Move s) (m.recording key d) ((do
      let ackChannelId ← localAckChannelId
      ConnectionAcknowledgeBuffer.acknowledge key ackChannelId : Call Unit)
        (m.recording key d)).2 := by
  refine Act.bind_moves .refl (fun id hid => ?_)
  have hid' : m.localInner.ackChannelId? = some id := local_ack_channel_id hid
  exact acknowledge_moves hid' hc (hs _) (d := d)
    (by simp [localAckChannelId, Act.bind_apply, Endpoint.recording])

theorem acknowledge_if_needed_moves {m : Endpoint} {key : Option SlotMapKey} {d : Bytes}
    (hc : m.Compact) (hrec : ∀ k, key = some k → s.records m k d)
    (hs : ∀ m, s.sends m m.ackPacket ackChannel) :
    ReflTransGen (Move s) m (acknowledgeIfNeeded d key m).2 := by
  cases key with
  | none => exact .refl
  | some key =>
    by_cases hmem : key ∈ m.resendKeyDuplicateChecker.set
    · rw [acknowledge_known hmem]
    · rw [acknowledge_new hmem]
      exact .head (.record m key d (hrec key rfl) hmem) (acknowledge_new_moves hc hs)

theorem receive_moves (hj : s.joins) (channel : Channel) (header : PacketHeader) (m : Endpoint) :
    ReflTransGen (Move s) m (receive channel header m).2 := by
  unfold receive
  cases header.segment with
  | none => exact .refl
  | some metadata =>
    refine Act.bind_moves (.single (.join m _ hj)) (fun full _ => ?_)
    cases full with
    | none => exact .refl
    | some full => exact Act.bind_moves .refl (fun _ _ => .refl)

/-- The connection once a key was compared with that of the last registration packet. -/
def Endpoint.noticing (m : Endpoint) (key : SlotMapKey) : Endpoint :=
  match m.state with
  | .registration received (some lastKey) =>
    if lastKey = key then
      { m with state := .registration received none, log := m.log ++ [.confirmed key] }
    else m
  | _ => m

theorem noticing_cases (m : Endpoint) (key : SlotMapKey) :
    m.noticing key = m ∨ ∃ received, m.state = .registration received (some key) ∧
      m.noticing key =
        { m with state := .registration received none, log := m.log ++ [.confirmed key] } := by
  unfold Endpoint.noticing
  cases hst : m.state with
  | transfer => exact Or.inl rfl
  | registration received lastKey =>
    cases lastKey with
    | none => exact Or.inl rfl
    | some lastKey =>
      by_cases he : lastKey = key
      · subst he
        exact Or.inr ⟨received, rfl, if_pos rfl⟩
      · exact Or.inl (if_neg he)

theorem noticing_resender (m : Endpoint) (key : SlotMapKey) :
    (m.noticing key).resender = m.resender := by
  rcases noticing_cases m key with he | ⟨_, _, he⟩ <;> rw [he]

/-- What `releaseKey` does after it has compared the key. -/
def dropPacket (resender : PacketResender) (key : SlotMapKey) : Call Unit := do
  let (packet, resender) ← Act.lift (resender.remove key)
  Act.modify (fun m => { m with resender := resender })
  match packet with
  | some packet => emit (.released key packet.payload)
  | none => pure ()

theorem release_key_eq (key : SlotMapKey) (m : Endpoint) :
    releaseKey key m = dropPacket m.resender key (m.noticing key) := by
  unfold Endpoint.noticing
  simp only [releaseKey, Act.bind_apply, Act.get_apply]
  cases hst : m.state with
  | transfer => rfl
  | registration received lastKey =>
    cases lastKey with
    | none => rfl
    | some lastKey =>
      by_cases he : lastKey = key
      · simp only [he, ↓reduceIte]
        rfl
      · simp only [he, ↓reduceIte]
        rfl

/-- Acknowledging one key takes its packet out of the resender, if there is one. -/
theorem release_key_cases (key : SlotMapKey) (m : Endpoint) :
    ((m.resender.remove key : Outcome ConnectionError _) = .panic ∧
      releaseKey key m = (.panic, m.noticing key)) ∨
    ((m.resender.remove key : Outcome ConnectionError _) = .ok (none, m.resender) ∧
      releaseKey key m = (.ok (), m.noticing key)) ∨
    ∃ packet resender,
      (m.resender.remove key : Outcome ConnectionError _) = .ok (some packet, resender) ∧
      releaseKey key m = (.ok (), { m.noticing key with
        resender := resender
        log := (m.noticing key).log ++ [.released key packet.payload] }) := by
  have hresender := noticing_resender m key
  simp only [release_key_eq, dropPacket, Act.bind_apply, Act.lift_apply]
  cases hr : (m.resender.remove key : Outcome ConnectionError _) with
  | err e => exact absurd hr (m.resender.remove_ne_err key e)
  | panic => exact Or.inl ⟨rfl, rfl⟩
  | ok r =>
    obtain ⟨packet, resender⟩ := r
    cases packet with
    | some packet => exact Or.inr (Or.inr ⟨packet, resender, rfl, rfl⟩)
    | none =>
      obtain rfl := PacketResender.remove_none hr
      refine Or.inr (Or.inl ⟨rfl, ?_⟩)
      rw [← hresender]
      rfl

theorem release_key_ne_err (key : SlotMapKey) (m : Endpoint) :
    ∀ e, (releaseKey key m).1 ≠ .err e := by
  rcases release_key_cases key m with ⟨_, he⟩ | ⟨_, he⟩ | ⟨_, _, _, he⟩ <;> simp [he]

/-- What acknowledging one key does to the resender. -/
theorem release_key_other {key k : SlotMapKey} (m : Endpoint) (other : k ≠ key) :
    (releaseKey key m).2.resender.packets.get k = m.resender.packets.get k := by
  have noticed := noticing_resender m key
  rcases release_key_cases key m with ⟨_, he⟩ | ⟨_, he⟩ | ⟨packet, resender, remove, he⟩
  · rw [he, noticed]
  · rw [he, noticed]
  · rw [he]
    show resender.packets.get k = _
    rw [SlotMap.get_remove (PacketResender.remove_ok remove).2, if_neg other]

theorem release_key_moves {key : SlotMapKey} (hk : s.acks key) (m : Endpoint) :
    ReflTransGen (Move s) m (releaseKey key m).2 := by
  have noticed : ReflTransGen (Move s) m (m.noticing key) := by
    rcases noticing_cases m key with he | ⟨received, hst, he⟩
    · rw [he]
    · rw [he]
      exact .single (.confirm m received key hst hk)
  rcases release_key_cases key m with ⟨_, he⟩ | ⟨_, he⟩ | ⟨packet, resender, hremove, he⟩
  · rw [he]
    exact noticed
  · rw [he]
    exact noticed
  · rw [he]
    refine noticed.tail (.release _ key packet resender ?_ hk)
    rw [noticing_resender, hremove]

/-- What every release of one of its keys keeps, a packet of acknowledgements keeps. -/
theorem acknowledge_locally_keeps {J : Endpoint → Prop} {fuel : Nat} {packet : Bytes} {m : Endpoint}
    (release : ∀ key ∈ decodeKeys fuel packet, ∀ t, J t → J (releaseKey key t).2) (hm : J m) :
    J (acknowledgeLocally fuel packet m).2 := by
  induction fuel generalizing packet m with
  | zero => exact hm
  | succ fuel ih =>
    unfold acknowledgeLocally
    unfold decodeKeys at release
    cases hd : SlotMapKey.decode packet with
    | err e => exact hm
    | panic => exact hm
    | ok r =>
      obtain ⟨key, rest⟩ := r
      simp only [hd, List.mem_cons, forall_eq_or_imp] at release
      have released := release.1 m hm
      rcases hkey : releaseKey key m with ⟨r, t⟩
      rw [hkey] at released
      simp only [Act.bind_apply, hkey]
      cases r with
      | ok _ => exact ih release.2 released
      | err e => exact released
      | panic => exact released

theorem acknowledge_locally_moves {fuel : Nat} {packet : Bytes}
    (hk : ∀ key ∈ decodeKeys fuel packet, s.acks key) (m : Endpoint) :
    ReflTransGen (Move s) m (acknowledgeLocally fuel packet m).2 :=
  acknowledge_locally_keeps (fun key hkey _ moves => moves.trans (release_key_moves (hk key hkey) _))
    .refl

theorem convert_to_transfer_cases (m : Endpoint) :
    (m.state = .registration true none ∧ convertToTransfer m = (.ok (), m.switched)) ∨
    (m.state ≠ .registration true none ∧ convertToTransfer m = (.ok (), m)) := by
  simp only [convertToTransfer, Act.bind_apply, Act.get_apply, Act.modify_apply]
  rcases hst : m.state with ⟨_ | _, _ | key⟩ | _
  · right
    exact ⟨by simp, by simp [ConnectionState.convertToTransferIfPossible, ← hst]⟩
  · right
    exact ⟨by simp, by simp [ConnectionState.convertToTransferIfPossible, ← hst]⟩
  · left
    exact ⟨rfl, rfl⟩
  · right
    exact ⟨by simp, by simp [ConnectionState.convertToTransferIfPossible, ← hst]⟩
  · right
    exact ⟨by simp, by simp [ConnectionState.convertToTransferIfPossible, ← hst]⟩

theorem convert_to_transfer_moves (hw : s.switches) (m : Endpoint) :
    ReflTransGen (Move s) m (convertToTransfer m).2 := by
  rcases convert_to_transfer_cases m with ⟨hst, h⟩ | ⟨_, h⟩
  · rw [h]
    exact .single (.switch m none hst hw)
  · rw [h]

end

end Theta
