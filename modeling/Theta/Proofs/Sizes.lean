import Theta.Proofs.Acknowledgements
import Theta.Proofs.Initial
import Theta.Proofs.Lifetime
import Theta.Proofs.Receipts
import Theta.Proofs.Segmentation

namespace Theta
open Lib Relation

namespace Packet

/-- The longest payload that a datagram has room for. -/
def room (p : Packet) : Nat :=
  if p.segment.isSome then maxPacketLen - maxPacketMetadataLen else maxNonSegmentedPayloadLen

/-- With every field at its longest a datagram still fits the receiver's buffer. -/
theorem length_le {p : Packet} (h : p.payload.length ≤ p.room) :
    p.bytes.length ≤ maxPacketLen := by
  have hlong : maxPacketLen = 2000 := rfl
  have hwhole : maxNonSegmentedPayloadLen = 1980 := rfl
  have hpart : maxPacketLen - maxPacketMetadataLen = 1969 := rfl
  have hprimary : p.primary.bytes.length ≤ 5 := VarInt.encode_length_le _
  have horder : (encodeOrder p.order).length ≤ 5 := by
    cases p.order with
    | none => exact Nat.zero_le _
    | some order => exact VarInt.encode_length_le order
  have hkey : p.keyBytes.length ≤ 10 := by
    unfold keyBytes
    cases p.resendKey with
    | none => exact Nat.zero_le _
    | some key => exact key.encode_length_le
  have hsegment : p.segmentBytes.length + p.room ≤ 1980 := by
    unfold segmentBytes room
    cases p.segment with
    | none => exact Nat.le_refl _
    | some s =>
      have h1 := VarInt.encode_length_le s.segmentKey
      have h2 := VarInt.encode_length_le_u16 (BitVec.ofNat 16 s.segment)
      have h3 := VarInt.encode_length_le_u16 (BitVec.ofNat 16 (s.segmentCount - 1))
      simp only [Option.isSome_some, ↓reduceIte, PacketSegmentMetadata.bytes, List.length_append]
      omega
  simp only [bytes, List.length_append]
  omega

end Packet

theorem chunk_length_le {size : Nat} {payload part : Bytes} (h : part ∈ chunks size payload) :
    part.length ≤ size := by
  obtain ⟨i, _, rfl⟩ := List.mem_map.mp h
  exact List.length_take_le _ _

/-- Everything that was sent or is held for sending fits the receiver's buffer. -/
structure Short (m : Endpoint) : Prop where
  sent : ∀ d, .sent d ∈ m.log → d.length ≤ maxPacketLen
  held : ∀ packet, some packet ∈ m.resender.packets.values → packet.payload.length ≤ maxPacketLen

section
variable {m m' : Endpoint} {s : Scope}

/-- Moves whose packets have room for their payloads send and hold nothing longer. -/
theorem Move.short (h : Move s m m')
    (room : ∀ base kind, s.sends m base kind → base.payload.length ≤ base.room)
    (hm : Short m) : Short m' := by
  have more {events : List Event} (hlog : m'.log = m.log ++ events)
      (new : ∀ d, .sent d ∈ events → d.length ≤ maxPacketLen) :
      ∀ d, .sent d ∈ m'.log → d.length ≤ maxPacketLen := by
    intro d hd
    rw [hlog] at hd
    rcases List.mem_append.mp hd with hd | hd
    · exact hm.sent d hd
    · exact new d hd
  cases h with
  | issue base kind reliable key resender packet hsends _ _ _ add stored =>
    have fits : ({ base with resendKey := some key } : Packet).bytes.length ≤ maxPacketLen :=
      Packet.length_le (room base kind hsends)
    have held (x : ReliableBufferedPacket) (hx : some x ∈ resender.packets.values) :
        x.payload.length ≤ maxPacketLen := by
      rcases SlotMap.mem_add (PacketResender.add_ok add).2.2 hx with hx | hx
      · cases hx
        exact fits
      · exact hm.held x hx
    refine ⟨more rfl (fun d hd => ?_), held⟩
    obtain rfl : d = packet.payload := by simpa using hd
    exact held packet (List.mem_of_getElem? (SlotMap.get_eq_some.mp stored).1)
  | send base kind hsends =>
    refine ⟨more rfl (fun d hd => ?_), hm.held⟩
    obtain rfl : d = base.bytes := by simpa using hd
    exact Packet.length_le (room base kind hsends)
  | switch => exact ⟨hm.sent, fun _ hp => absurd hp List.not_mem_nil⟩
  | release key packet resender remove =>
    refine ⟨more rfl (by simp), fun x hx => hm.held x ?_⟩
    exact SlotMap.mem_remove (PacketResender.remove_ok remove).2 hx
  | resend packet held =>
    refine ⟨more rfl (fun d hd => ?_), hm.held⟩
    obtain rfl : d = packet.payload := by simpa using hd
    exact hm.held packet held
  | clock delta packets func before after visited =>
    refine ⟨hm.sent, fun x hx => ?_⟩
    obtain ⟨packet, held, hpayload⟩ := PacketResender.mem_clock visited hx
    rw [hpayload]
    exact hm.held packet held
  | record => exact ⟨more rfl (by simp), hm.held⟩
  | confirm => exact ⟨more rfl (by simp), hm.held⟩
  | consume => exact ⟨more rfl (by simp), hm.held⟩
  | hand => exact ⟨more rfl (by simp), hm.held⟩
  | _ => exact ⟨hm.sent, hm.held⟩

theorem moves_short (h : ReflTransGen (Move s) m m')
    (room : ∀ m base kind, m.Compact → s.sends m base kind → base.payload.length ≤ base.room)
    (hc : m.Compact) (hm : Short m) : Short m' := by
  induction h with
  | refl => exact hm
  | tail before h ih =>
    have compact := moves_compact before hc
    exact h.short (fun base kind => room _ base kind compact) ih

end

/-- What a packet's sender sends has room for its payload. -/
def sized (channel : ConnectionChannel) : Scope where
  sends _ base _ := base.channelId = channel.localId ∧ base.payload.length ≤ base.room
  records _ _ _ := False
  acks _ := False

section
variable {m m' : Endpoint}

theorem transmit_sized (channel : ConnectionChannel) (order : Option U32) (payload : Bytes)
    (m : Endpoint) : ReflTransGen (Move (sized channel)) m (transmit channel order payload m).2 := by
  have segments_sized (segmentKey : U32) (count i : Nat) (segments : List Bytes) (m : Endpoint)
      (short : ∀ part ∈ segments, part.length ≤ maxPacketLen - maxPacketMetadataLen) :
      ReflTransGen (Move (sized channel)) m
        (sendSegments channel order segmentKey count i segments m).2 := by
    induction segments generalizing i m with
    | nil => exact .refl
    | cons segment rest ih =>
      obtain ⟨hsegment, hrest⟩ := List.forall_mem_cons.mp short
      rw [sendSegments]
      refine Act.bind_moves (send_real_packet_moves ⟨rfl, hsegment⟩) (fun _ _ => ?_)
      exact Act.bind_moves (ih (i + 1) _ hrest) (fun _ _ => .refl)
  unfold transmit
  split
  · simp only [Act.bind_apply, Act.get_apply, Act.modify_apply]
    exact .head (.count m) (segments_sized _ _ 0 _ _ (fun _ => chunk_length_le))
  · rename_i hlen
    refine Act.bind_moves (send_real_packet_moves ⟨rfl, ?_⟩) (fun _ _ => .refl)
    exact Nat.le_of_not_lt hlen

theorem transmit_keeps_short (channel : ConnectionChannel) (order : Option U32) (payload : Bytes) :
    Act.Keeps Short (transmit channel order payload) := by
  intro m h
  exact invariant_of_step (fun _ _ h hm => h.short (fun _ _ hs => hs.2) hm)
    (transmit_sized channel order payload m) h

/-- A packet of any kind and length is sent in datagrams that fit. -/
theorem send_packet_short (channel : ConnectionChannel) (payload : Bytes) :
    Act.Keeps Short (sendPacket channel payload) := by
  intro m h
  exact send_packet_ends (fun _ => ⟨h.sent, h.held⟩)
    (fun order => transmit_keeps_short channel order payload)

theorem send_packet_compact (channel : ConnectionChannel) (payload : Bytes) :
    Act.Keeps Endpoint.Compact (sendPacket channel payload) := by
  intro m h
  exact send_packet_ends (fun _ => h)
    (fun order t ht => moves_compact (transmit_sized channel order payload t) ht)

theorem register_channels_short (i : Nat) (channels : List (String × U32)) :
    Act.Keeps Short (registerChannels i channels) := by
  induction channels generalizing i with
  | nil => exact fun _ h => h
  | cons entry rest ih =>
    rw [registerChannels]
    split
    · exact fun _ h => h
    · refine .bind (fun _ h => h) (fun _ => .bind (fun _ h => h) (fun _ => ?_))
      refine .bind (fun _ h => ⟨h.sent, h.held⟩) (fun _ => .bind (fun _ h => h) (fun _ => ?_))
      refine .bind (send_packet_short _ _) (fun _ => ?_)
      exact .bind (fun _ h => ⟨h.sent, h.held⟩) (fun _ => ih (i + 1))

theorem announce_end_short : Act.Keeps Short announceEnd := by
  unfold announceEnd
  refine .bind (fun _ h => h) (fun _ => .bind (send_packet_short _ _) (fun _ => ?_))
  exact .bind (fun _ h => h) (fun _ _ h => ⟨h.sent, h.held⟩)

theorem initialize_short {p : ChannelProvider} (now : Nat) :
    Short (initializeConnection p (.fresh now)).2 := by
  have fresh (capacity : Nat) : Short (.sized now capacity) :=
    ⟨fun _ hd => absurd hd List.not_mem_nil, fun _ hp => absurd hp List.not_mem_nil⟩
  rcases initialize_cases p now with ⟨_, h⟩ | ⟨capacity, h⟩
  · rw [h]
    exact fresh 0
  · rw [h]
    exact Act.Keeps.bind (register_channels_short 0 _) (fun _ => announce_end_short) _ (fresh capacity)

/-- What reading and ticking send: acknowledgements, and nothing else that is new. -/
def replying : Scope where
  sends m base kind := base = m.ackPacket ∧ kind = ackChannel
  records _ _ _ := True
  acks _ := True
  joins := True
  switches := True
  handles := True
  registers := True
  holds := True

theorem replying_short (h : ReflTransGen (Move replying) m m') (hc : m.Compact)
    (hm : Short m) : Short m' := by
  refine moves_short h (fun t base kind compact hs => ?_) hc hm
  obtain ⟨rfl, _⟩ := hs
  exact compact

/-- Every call keeps what is sent and held short, on every exit. -/
theorem perform_short {p : ChannelProvider} {input : Input} (hc : m.Compact) (h : Short m) :
    Short (perform p input m).2 := by
  cases input with
  | read now d =>
    refine replying_short (handle_message_moves (read_packet_compact hc) trivial trivial
      (fun _ => ⟨rfl, rfl⟩) (fun _ _ _ => trivial) (fun _ _ _ _ _ => ?_)) hc h
    exact deliver_moves trivial trivial (fun _ _ _ _ => trivial) trivial trivial _
  | tick delta =>
    exact replying_short (update_connection_moves hc (fun _ => ⟨rfl, rfl⟩)) hc h
  | send channel payload =>
    have noted (orders : ChannelData U32) : Short { m with
        orders := orders, log := m.log ++ [.called channel payload] } :=
      ⟨fun d hd => h.sent d (by simpa using hd), h.held⟩
    exact send_event_ends h noted (fun kind order => transmit_keeps_short kind order payload)

theorem Reachable.short {p : ChannelProvider} (h : Reachable p m) : Short m := by
  induction h with
  | initialized now m h =>
    have start := initialize_short (p := p) now
    rw [h] at start
    exact start
  | step input m m' before h ih =>
    rw [← h.2]
    exact perform_short before.passed.compact ih

theorem Short.datagrams {d : Bytes} (h : Short m) (hd : d ∈ m.datagrams) :
    d.length ≤ maxPacketLen := by
  obtain ⟨event, hmem, he⟩ := List.mem_filterMap.mp hd
  cases event <;> cases he
  exact h.sent d hmem

/-- One call, whatever it comes to. -/
def Performs (p : ChannelProvider) (m m' : Endpoint) : Prop :=
  ∃ input, (perform p input m).2 = m'

theorem performs_short {p : ChannelProvider} (h : ReflTransGen (Performs p) m m')
    (hc : m.Compact) (hm : Short m) : Short m' := by
  have both : m'.Compact ∧ Short m' := by
    refine invariant_of_step (P := fun t => t.Compact ∧ Short t) (fun t _ ht hs => ?_) h ⟨hc, hm⟩
    obtain ⟨input, rfl⟩ := ht
    refine ⟨?_, perform_short hs.1 hs.2⟩
    exact invariant_of_step (fun _ _ hw => hw.compact) (perform_work hs.1) hs.1
  exact both.2

end

/-- The segment fields of the packets that a payload is sent in. -/
def segmentFields (segmentKey : U32) (payload : Bytes) : List (Option PacketSegmentMetadata) :=
  if maxNonSegmentedPayloadLen < payload.length then
    (List.range (parts payload).length).map
      (fun i => some ⟨segmentKey, i, (parts payload).length⟩)
  else [none]

/-- Packets of the channel that carry the payload, in segment order. -/
structure Conveys (channel : ConnectionChannel) (segmentKey : U32) (payload : Bytes)
    (packets : List Packet) : Prop where
  channelIds : ∀ packet ∈ packets, packet.channelId = channel.localId
  fits : ∀ packet ∈ packets, packet.Fits channel.channel
  segments : packets.map Packet.segment = segmentFields segmentKey payload
  payloads : (packets.map Packet.payload).flatten = payload

section
variable {p : ChannelProvider} {m m' : Endpoint} {channel : ConnectionChannel} {payload : Bytes}

/-- The packets of a long payload, one for each part. -/
theorem carried_packets {order : Option U32} {segmentKey : U32} {datagrams : List Bytes}
    (long : maxNonSegmentedPayloadLen < payload.length)
    (h : Carries channel order segmentKey (parts payload) datagrams)
    (hlen : datagrams.length = (parts payload).length) :
    ∃ packets, datagrams = packets.map Packet.bytes ∧
      Conveys channel segmentKey payload packets := by
  have one (i : Fin (parts payload).length) := h i _ (List.getElem?_eq_getElem i.isLt)
  choose key fits sent using one
  refine ⟨List.ofFn (fun i : Fin (parts payload).length => segmentPacket channel order segmentKey
    (parts payload).length i (key i) (parts payload)[i]), ?_, ?_, ?_, ?_, ?_⟩
  · refine List.ext_getElem (by simp [hlen]) (fun i hi _ => ?_)
    have hi' : i < (parts payload).length := hlen ▸ hi
    have hsent := sent ⟨i, hi'⟩
    rw [List.getElem?_eq_getElem hi, Option.some.injEq] at hsent
    simpa using hsent
  · simp [List.mem_ofFn, segmentPacket]
  · intro packet hp
    obtain ⟨i, rfl⟩ := List.mem_ofFn.mp hp
    exact fits i
  · rw [segmentFields, if_pos long]
    refine List.ext_getElem (by simp) (fun i _ _ => ?_)
    simp [segmentPacket]
  · refine Eq.trans (congrArg List.flatten ?_) (parts_flatten payload)
    refine List.ext_getElem (by simp) (fun i _ _ => ?_)
    simp [segmentPacket]

/-- The datagrams of a packet that was sent carry its payload. -/
theorem send_packet_conveys {keys : List SlotMapKey} (healthy : m.resender.packets.Healthy)
    (fits : m'.resender.packets.Fits) (sent : sendPacket channel payload m = (.ok keys, m')) :
    ∃ packets, m'.datagrams = m.datagrams ++ packets.map Packet.bytes ∧
      Conveys channel m.segmentKeysCounter payload packets := by
  obtain ⟨order, assigned⟩ : ∃ order, (nextOrder channel m).1 = .ok order := by
    rcases next_order_cases channel m with hn | ⟨_, hn⟩ | ⟨o, orders, _, _, _, hn⟩
    · rw [sendPacket, Act.bind_of_panic hn] at sent
      cases sent
    · exact ⟨none, by rw [hn]⟩
    · exact ⟨some o, by rw [hn]⟩
  by_cases long : maxNonSegmentedPayloadLen < payload.length
  · obtain ⟨_, datagrams, hall, hlen, hparts⟩ :=
      send_packet_segments healthy fits long sent assigned
    obtain ⟨packets, rfl, conveys⟩ := carried_packets long hparts hlen
    exact ⟨packets, hall, conveys⟩
  · obtain ⟨orders, hn, ho⟩ := next_order_assigned assigned
    rw [sendPacket, Act.bind_of_ok hn, transmit_short (Nat.le_of_not_lt long)] at sent
    rcases hreal : sendRealPacket channel order none payload { m with orders := orders } with
      ⟨r, t⟩
    cases r with
    | err e =>
      rw [Act.bind_of_err hreal] at sent
      cases sent
    | panic =>
      rw [Act.bind_of_panic hreal] at sent
      cases sent
    | ok key =>
      rw [Act.bind_of_ok hreal] at sent
      cases sent
      obtain ⟨_, hone, hfits⟩ := send_real_packet_sent (m := { m with orders := orders })
        healthy fits ho hreal
      refine ⟨[⟨channel.localId, none, order, key, payload⟩], hone, ?_, ?_, ?_, ?_⟩
      · simp
      · simpa using hfits
      · rw [segmentFields, if_neg long]
        rfl
      · simp

/-- Every datagram of a connection, sent now or at any later time, fits the receiver's buffer; and
the datagrams of a packet that was sent carry its payload in segment order. -/
theorem send_packet_sized {r : Outcome ConnectionError (List SlotMapKey)}
    (reachable : Reachable p m) (orders : ChannelData U32) (segmentKey : U32)
    (sent : sendPacket channel payload { m with
      orders := orders, segmentKeysCounter := segmentKey } = (r, m')) :
    (∀ t, ReflTransGen (Performs p) m' t → ∀ d ∈ t.datagrams, d.length ≤ maxPacketLen) ∧
      ∀ keys, r = .ok keys → m'.resender.packets.Fits →
        ∃ packets, m'.datagrams = m.datagrams ++ packets.map Packet.bytes ∧
          Conveys channel segmentKey payload packets := by
  constructor
  · intro t run d hd
    have start := reachable.short
    have short := send_packet_short channel payload
      { m with orders := orders, segmentKeysCounter := segmentKey } ⟨start.sent, start.held⟩
    have compact := send_packet_compact channel payload
      { m with orders := orders, segmentKeysCounter := segmentKey } reachable.passed.compact
    rw [sent] at short compact
    exact (performs_short run compact short).datagrams hd
  · rintro keys rfl fits
    have grown := send_packet_generations channel payload
      { m with orders := orders, segmentKeysCounter := segmentKey }
    rw [sent] at grown
    have healthy := reachable.passed.tidy (Nat.le_trans grown fits)
    exact send_packet_conveys (m := { m with
      orders := orders, segmentKeysCounter := segmentKey }) healthy fits sent

end

/-- What the two segments of 1981 bytes leave, with order and segment key at their largest. -/
def lateSevens : Outcome ConnectionError (List SlotMapKey) × Endpoint :=
  sendPacket talk sevens { talking with
    orders := ⟨[0, 0xFFFFFFFF, 0], 0, 0⟩, segmentKeysCounter := 0xFFFFFFFF }

theorem send_packet_sized_sevens :
    (∀ t, ReflTransGen (Performs chatProvider) lateSevens.2 t →
      ∀ d ∈ t.datagrams, d.length ≤ maxPacketLen) ∧
      ∃ packets, lateSevens.2.datagrams = talking.datagrams ++ packets.map Packet.bytes ∧
        Conveys talk 0xFFFFFFFF sevens packets := by
  have ok : lateSevens.1 = .ok talkedKeys := by decide +kernel
  have fits : lateSevens.2.resender.packets.Fits := by
    unfold SlotMap.Fits
    decide +kernel
  have sent : sendPacket talk sevens { talking with
      orders := ⟨[0, 0xFFFFFFFF, 0], 0, 0⟩, segmentKeysCounter := 0xFFFFFFFF } =
      (lateSevens.1, lateSevens.2) := by
    unfold lateSevens
    exact Prod.mk.eta.symm
  have h := send_packet_sized talking_reachable ⟨[0, 0xFFFFFFFF, 0], 0, 0⟩ 0xFFFFFFFF sent
  exact ⟨h.1, h.2 talkedKeys ok fits⟩

/-- A provider whose acknowledgement channel reserves more packets than slots can be numbered. -/
def spaciousProvider : ChannelProvider :=
  (DefaultChannelProvider.new.add ackChannelName (tightChannel ackChannel (2 ^ 32 + 8))
    DefaultChannelProvider.new_fits).asProvider _ (.refl _)

def spacious : Endpoint := (initializeConnection spaciousProvider (.fresh 0)).2

/-- Held packets whose clocks stand at zero. -/
def Still (values : List (Option ReliableBufferedPacket)) : Prop :=
  ∀ x, some x ∈ values → x.currentTime = 0 ∧ x.resendInterval ≠ 0

/-- A connection that has taken `n` slots, none of them twice, and waits for its registration. -/
structure Idling (n : Nat) (m : Endpoint) (values : List (Option ReliableBufferedPacket)) : Prop where
  reachable : Reachable spaciousProvider m
  state : m.state = spacious.state
  localInner : m.localInner = spacious.localInner
  buffer : m.acknowledgeBuffer = []
  resender : m.resender = ⟨⟨values, List.replicate n 0, []⟩, spacious.resender.capacity⟩
  slots : values.length = n
  first : ∃ x, values[0]? = some (some x) ∧ x.payload.head? ≠ some 0
  still : Still values

theorem SlotMap.retain_all {T σ ε : Type} {func : T → Act σ ε (T × Bool)} {m : SlotMap T} {s : σ}
    (h : ∀ v, some v ∈ m.values → func v s = (.ok (v, false), s)) :
    m.retainIf func s = (.ok m, s) := by
  have loop (i : Nat) (values : List (Option T))
      (h : ∀ v, some v ∈ values → func v s = (.ok (v, false), s)) :
      SlotMap.retainLoop func i values s = (.ok (values, []), s) := by
    induction values generalizing i with
    | nil => rfl
    | cons v rest ih =>
      have hrest := ih (i + 1) (fun v hm => h v (List.mem_cons_of_mem _ hm))
      cases v with
      | none =>
        simp only [SlotMap.retainLoop, Act.bind_apply, hrest]
        rfl
      | some v =>
        simp only [SlotMap.retainLoop, Act.bind_apply, h v List.mem_cons_self, hrest]
        rfl
  rw [SlotMap.retainIf, Act.bind_of_ok (loop 0 m.values h)]
  rfl

/-- A tick of no length leaves clocks that stand at zero as they are. -/
theorem PacketResender.update_still {σ ε : Type} {r : PacketResender}
    {func : ReliableBufferedPacket → Act σ ε Unit} (h : Still r.packets.values) (s : σ) :
    r.update 0 func s = (.ok r, s) := by
  have kept : r.packets.retainIf (PacketResender.visit 0 func) s = (.ok r.packets, s) := by
    refine SlotMap.retain_all (fun x hx => ?_)
    obtain ⟨hzero, hne⟩ := h x hx
    obtain ⟨payload, interval, attempts, time⟩ := x
    dsimp only at hzero hne
    subst hzero
    have hlater : ¬ interval = 0#32 := hne
    simp [PacketResender.visit, hlater]
  rw [PacketResender.update, Act.bind_of_ok kept]
  rfl

theorem spacious_start : spacious.localInner.ackChannelId? = some 0 ∧
    spacious.state = .registration false (some ⟨2, 0⟩) ∧
    spacious.resender.capacity = 2 ^ 32 + 308 ∧ spacious.acknowledgeBuffer = [] := by
  decide +kernel

/-- While there are free indices a tick takes the next slot. -/
theorem Idling.tick {n : Nat} {m : Endpoint} {values : List (Option ReliableBufferedPacket)}
    (h : Idling n m values) (hn : n < 2 ^ 32) : ∃ m' values', Idling (n + 1) m' values' := by
  obtain ⟨hack, hstage, hcap, _⟩ := spacious_start
  have hid : m.localInner.ackChannelId? = some 0 := by rw [h.localInner, hack]
  have hindex := SlotMap.index_of_fits hn
  have compact : m.Compact := by simp [Endpoint.Compact, h.buffer]
  have hstill : m.resender.update 0 (fun packet => sendDatagram packet.payload) m =
      (.ok m.resender, m) :=
    PacketResender.update_still (by rw [h.resender]; exact h.still) m
  let packet := ReliableBufferedPacket.new
    (Packet.bytes { m.ackPacket with resendKey := some ⟨BitVec.ofNat 32 n, 0⟩ }) 750 (-1)
  let resender : PacketResender :=
    ⟨⟨values ++ [some packet], List.replicate n 0 ++ [0], []⟩, spacious.resender.capacity⟩
  have hadd : m.resender.add (fun key => ReliableBufferedPacket.new
      (Packet.bytes { m.ackPacket with resendKey := some key }) 750 (-1)) =
      .ok (⟨BitVec.ofNat 32 n, 0⟩, resender) := by
    have hroom : ¬ (SlotMap.len ⟨values, List.replicate n 0, []⟩) = spacious.resender.capacity := by
      simp only [SlotMap.len, h.slots, List.length_nil, hcap]
      omega
    rw [h.resender, PacketResender.add, if_neg hroom]
    simp only [SlotMap.add, List.length_replicate, h.slots, Nat.le_refl, ↓reduceIte,
      Outcome.ok_bind]
    rfl
  have hget : resender.packets.get ⟨BitVec.ofNat 32 n, 0⟩ = some packet := by
    rw [SlotMap.get_eq_some, hindex]
    constructor
    · rw [List.getElem?_append_right (Nat.le_of_eq h.slots), h.slots]
      simp
    · simp [resender]
  have hflush : ConnectionAcknowledgeBuffer.flush 0 m = (.ok (), { m with
      resender := resender
      acknowledgeBuffer := []
      log := m.log ++ [.issued ⟨BitVec.ofNat 32 n, 0⟩ packet.payload, .sent packet.payload] }) := by
    rw [flush_eq (ack_channel_id hid) (fun _ => by decide) compact, hadd]
    simp only [hget]
  have htick : updateConnection 0 m = ConnectionAcknowledgeBuffer.flush 0 m := by
    simp only [updateConnection, Act.bind_apply, Act.get_apply, hstill, Act.modify_apply,
      localAckChannelId, hid, Outcome.ofOption, Act.lift_apply]
  have hrun : perform spaciousProvider (.tick 0) m = ConnectionAcknowledgeBuffer.flush 0 m := htick
  rw [hflush] at hrun
  refine ⟨_, values ++ [some packet], ⟨.step (.tick 0) m _ h.reachable ⟨?_, rfl⟩, ?_, ?_, ?_, ?_,
    ?_, ?_, ?_⟩⟩
  · rw [hrun]
    simp
  · rw [hrun]
    exact h.state
  · rw [hrun]
    exact h.localInner
  · rw [hrun]
  · rw [hrun, List.replicate_succ']
  · rw [List.length_append, h.slots]
    rfl
  · obtain ⟨x, hx, hhead⟩ := h.first
    rw [List.getElem?_append_left (List.getElem?_eq_some_iff.mp hx).1]
    exact ⟨x, hx, hhead⟩
  · intro x hx
    rcases List.mem_append.mp hx with hx | hx
    · exact h.still x hx
    · obtain rfl : x = packet := by simpa using hx
      have hlong : (750 : U32) ≠ 0 := by decide
      exact ⟨rfl, hlong⟩

/-- The first datagrams of a connection are not on the first channel. -/
theorem spacious_idle : Idling 3 spacious spacious.resender.packets.values where
  reachable := .initialized 0 spacious (by decide +kernel)
  state := rfl
  localInner := rfl
  buffer := spacious_start.2.2.2
  resender := by decide +kernel
  slots := by decide +kernel
  first := by
    have hfirst : spacious.resender.packets.values[0]?.any
        (fun x => x.any (fun x => x.payload.head? ≠ some 0)) = true := by decide +kernel
    simpa [Option.any_eq_true] using hfirst
  still := by
    have hstill : spacious.resender.packets.values.all
        (fun x => x.all (fun x => x.currentTime = 0 && x.resendInterval ≠ 0)) = true := by
      decide +kernel
    intro x hx
    simpa using List.all_eq_true.mp hstill (some x) hx

theorem idle_out (n : Nat) (hn : n + 3 ≤ 2 ^ 32) : ∃ m values, Idling (n + 3) m values := by
  induction n with
  | zero => exact ⟨spacious, _, spacious_idle⟩
  | succ n ih =>
    obtain ⟨m, values, h⟩ := ih (by omega)
    rw [Nat.add_right_comm]
    exact h.tick (by omega)

/-- Once the indices have wrapped the next packet goes into a new slot, but it is the first slot's
packet that its key leads to. -/
theorem Idling.resends {n : Nat} {m : Endpoint} {values : List (Option ReliableBufferedPacket)}
    (h : Idling n m values) (hn : n < spacious.resender.capacity)
    (wrapped : BitVec.ofNat 32 n = 0) :
    ∃ (x : ReliableBufferedPacket) (resender : PacketResender), x.payload.head? ≠ some 0 ∧
      sendPacket ⟨0, ackChannel⟩ [8] m =
      (.ok [⟨0, 0⟩], { m with
        resender := resender
        log := m.log ++ [.issued ⟨0, 0⟩ x.payload, .sent x.payload] }) := by
  obtain ⟨x, hx, hhead⟩ := h.first
  have hpos : 0 < values.length := (List.getElem?_eq_some_iff.mp hx).1
  let packet := ReliableBufferedPacket.new
    (Packet.bytes ⟨0, none, none, some ⟨0, 0⟩, [8]⟩) 750 (-1)
  let resender : PacketResender :=
    ⟨⟨values ++ [some packet], List.replicate n 0 ++ [0], []⟩, spacious.resender.capacity⟩
  have hadd : m.resender.add (fun key => ReliableBufferedPacket.new
      (Packet.bytes ⟨0, none, none, some key, [8]⟩) 750 (-1)) = .ok (⟨0, 0⟩, resender) := by
    have hroom : ¬ (SlotMap.len ⟨values, List.replicate n 0, []⟩) = spacious.resender.capacity := by
      simp only [SlotMap.len, h.slots, List.length_nil]
      omega
    rw [h.resender, PacketResender.add, if_neg hroom]
    simp only [SlotMap.add, List.length_replicate, h.slots, Nat.le_refl, ↓reduceIte,
      Outcome.ok_bind, wrapped]
    rfl
  have hget : resender.packets.get ⟨0, 0⟩ = some x := by
    rw [SlotMap.get_eq_some]
    constructor
    · change (values ++ [some packet])[0]? = some (some x)
      rw [List.getElem?_append_left hpos, hx]
    · change (List.replicate n 0 ++ [0])[0]? = some (0 : U32)
      cases n <;> simp [List.replicate_succ]
  have hreliable : (⟨0, ackChannel⟩ : ConnectionChannel).channel.reliability =
      some ⟨750, -1, 300, by decide⟩ := rfl
  have hnext : nextOrder ⟨0, ackChannel⟩ m = (.ok none, m) := rfl
  refine ⟨x, resender, hhead, ?_⟩
  rw [sendPacket, Act.bind_of_ok hnext, transmit_short (by decide), Act.bind_apply,
    send_reliable (by decide) (by simp) (by decide) hreliable]
  simp only [hadd, Outcome.mapErr, Act.bind_apply, Act.lift_apply, hget, Outcome.ofOption,
    Act.modify_apply, emit, sendDatagram, Act.pure_apply, List.append_assoc]
  rfl

/-- The payload of a packet that is sent with every slot index in use may be lost: the first
slot's datagram goes out in its place. -/
theorem crowded_slots_resend :
    ∃ m m' keys, Reachable spaciousProvider m ∧
      sendPacket ⟨0, ackChannel⟩ [8] m = (.ok keys, m') ∧
      ¬ ∃ packets, m'.datagrams = m.datagrams ++ packets.map Packet.bytes ∧
        Conveys ⟨0, ackChannel⟩ m.segmentKeysCounter [8] packets := by
  obtain ⟨m, values, h⟩ := idle_out (2 ^ 32 - 3) (by omega)
  obtain ⟨x, resender, hhead, hsend⟩ := h.resends (by rw [spacious_start.2.2.1]; omega) (by decide)
  refine ⟨m, _, _, h.reachable, hsend, ?_⟩
  rintro ⟨packets, hdatagrams, conveys⟩
  have hlog : Endpoint.datagrams { m with
      resender := resender
      log := m.log ++ [.issued ⟨0, 0⟩ x.payload, .sent x.payload] } = m.datagrams ++ [x.payload] :=
    datagrams_append { m with resender := resender } _
  rw [hlog] at hdatagrams
  have hone := List.append_cancel_left hdatagrams
  cases packets with
  | nil => cases hone
  | cons packet rest =>
    simp only [List.map_cons, List.cons.injEq] at hone
    have hid := conveys.channelIds packet List.mem_cons_self
    have hplain : packet.segment = none := by
      have hall := conveys.segments
      rw [segmentFields, if_neg (by decide), List.map_cons, List.cons.injEq] at hall
      exact hall.1
    have hprimary : packet.primary.bytes = [0] := by
      rw [Packet.primary, hid, hplain]
      decide +kernel
    apply hhead
    rw [hone.1, Packet.bytes, hprimary]
    rfl

end Theta
