import Mathlib.Data.List.Sort
import Theta.Net.Ids
import Theta.Net.Ordering
import Theta.Net.Resend
import Theta.Net.Segment

namespace Theta
open Lib

inductive ConnectionError where
  | decodeError
  | encodeError
  | unknownChannel
  | channelRegistrationStageInvalidValue
  | packetDuplicateDetected
  | packetResenderError (error : PacketResenderError)
  | packetOrdererError (error : PacketOrdererError)
  | packetSegmentJoinerError (error : PacketSegmentJoinerError)
  deriving DecidableEq, Repr

def maxNonSegmentedPacketMetadataLen : Nat := 0 + (4 + 1) + (4 + 1) + (4 + 1) * 2
def maxPacketMetadataLen : Nat := maxNonSegmentedPacketMetadataLen + (4 + 1) + (2 + 1) * 2
def maxPacketLen : Nat := 2000
def maxNonSegmentedPayloadLen : Nat := maxPacketLen - maxNonSegmentedPacketMetadataLen

structure PrimaryPacketMetadata where
  channelId : U32
  segment : Bool
  deriving DecidableEq, Repr

namespace PrimaryPacketMetadata

def decode (bytes : Bytes) : Outcome Unit (PrimaryPacketMetadata × Bytes) := do
  let (num, bytes) ← VarInt.decode 32 bytes
  .ok (⟨num >>> 1, num &&& 1 == 1⟩, bytes)

def encode (p : PrimaryPacketMetadata) : Outcome Unit Bytes :=
  if (p.channelId <<< 1) >>> 1 ≠ p.channelId then .err ()
  else .ok (VarInt.encode ((p.channelId <<< 1) ||| (if p.segment then 1 else 0)))

end PrimaryPacketMetadata

/-- What a call does that the connection does not keep: the datagrams given to
the packet sender, and the history of keys, handled packets and send requests. -/
inductive Event where
  | sent (datagram : Bytes)
  | issued (key : SlotMapKey) (datagram : Bytes)
  | recorded (key : SlotMapKey) (datagram : Bytes)
  | released (key : SlotMapKey) (datagram : Bytes)
  | confirmed (key : SlotMapKey)
  | handed (packet : Bytes)
  | consumed (packet : Bytes)
  | called (channel : U32) (payload : Bytes)
  deriving DecidableEq, Repr

/-- The buffers keep every payload pushed: nothing here takes them out. -/
structure Connection where
  state : ConnectionState := .default
  localInner : ConnectionIdMapperInner := {}
  notLocalInner : ConnectionIdMapperInner := {}
  acknowledgeBuffer : Bytes := []
  resendKeyDuplicateChecker : SlotSet := {}
  resender : PacketResender := {}
  segmentKeysCounter : U32 := 0
  orders : ChannelData U32 := ⟨[], 0, 0⟩
  orderers : ChannelData (Option PacketOrderer) := ⟨[], none, some (PacketOrderer.new 1000)⟩
  joiner : PacketSegmentJoiner := {}
  buffers : GlobalChannelData (List Bytes) := {}
  lastTimeReceivedPacket : Nat
  deriving DecidableEq, Repr

/-- A connection with the trace of its calls. -/
structure Endpoint extends Connection where
  log : List Event := []
  deriving DecidableEq, Repr

abbrev Call (α : Type) := Act Endpoint ConnectionError α

def emit (event : Event) : Call Unit := Act.modify (fun m => { m with log := m.log ++ [event] })

/-- `UdpPacketSender::send_packet`, which cannot fail. -/
def sendDatagram (datagram : Bytes) : Call Unit := emit (.sent datagram)

def decoding (x : Outcome Unit α) : Call α := Act.lift (x.mapErr (fun _ => .decodeError))

def encoding (x : Outcome Unit α) : Call α := Act.lift (x.mapErr (fun _ => .encodeError))

/-- Order and resend key, for the channels that have them. -/
def readOrderAndResendKey (channel : Channel) (payload : Bytes) :
    Outcome Unit ((Option U32 × Option SlotMapKey) × Bytes) := do
  let (order, payload) ←
    if channel.isOrdered then do
      let (order, payload) ← VarInt.decode 32 payload
      .ok (some order, payload)
    else .ok (none, payload)
  let (resendKey, payload) ←
    if channel.isReliable then do
      let (key, payload) ← SlotMapKey.decode payload
      .ok (some key, payload)
    else .ok (none, payload)
  .ok ((order, resendKey), payload)

def encodeSegment : Option PacketSegmentMetadata → Outcome Unit Bytes
  | some segment => segment.encode
  | none => .ok []

def encodeOrder : Option U32 → Bytes
  | some order => VarInt.encode order
  | none => []

/-- `slice::chunks`. -/
def chunks (size : Nat) (payload : Bytes) : List Bytes :=
  (List.range ((payload.length + size - 1) / size)).map
    (fun i => (payload.drop (i * size)).take size)

/-- The order of the next packet of an ordered channel, counted when it is read. -/
def nextOrder (channel : ConnectionChannel) : Call (Option U32) :=
  if channel.channel.isOrdered then do
    let m ← Act.get
    let order ← Act.lift (m.orders.get m.state channel.localId)
    let orders ← Act.lift (m.orders.write m.state channel.localId (order + 1))
    Act.modify (fun m => { m with orders := orders })
    pure (some order)
  else pure none

/-- The closure `send_real_packet`; returns the resend key of a reliable packet. -/
def sendRealPacket (channel : ConnectionChannel) (order : Option U32)
    (segment : Option PacketSegmentMetadata) (payload : Bytes) : Call (Option SlotMapKey) :=
  if maxPacketLen < payload.length then Act.abort
  else do
    let primary ← encoding (PrimaryPacketMetadata.encode ⟨channel.localId, segment.isSome⟩)
    let segment ← encoding (encodeSegment segment)
    let toSend := primary ++ segment ++ encodeOrder order
    match channel.channel.reliability with
    | some reliable => do
      let m ← Act.get
      let (key, resender) ← Act.lift <| (m.resender.add (fun key =>
        ReliableBufferedPacket.new (toSend ++ key.encode ++ payload)
          reliable.resendInterval reliable.resendAttempts)).mapErr .packetResenderError
      let packet ← Act.lift (Outcome.ofOption (resender.packets.get key))
      Act.modify (fun m => { m with resender := resender })
      emit (.issued key packet.payload)
      sendDatagram packet.payload
      pure (some key)
    | none => do
      sendDatagram (toSend ++ payload)
      pure none

/-- The segments of one packet from index `i` on. -/
def sendSegments (channel : ConnectionChannel) (order : Option U32) (segmentKey : U32)
    (segmentCount : Nat) : Nat → List Bytes → Call (List SlotMapKey)
  | _, [] => pure []
  | i, segment :: rest => do
    let key ← sendRealPacket channel order (some ⟨segmentKey, i, segmentCount⟩) segment
    let keys ← sendSegments channel order segmentKey segmentCount (i + 1) rest
    pure (key.toList ++ keys)

/-- The rest of `send_packet`, once the order is taken. -/
def transmit (channel : ConnectionChannel) (order : Option U32) (payload : Bytes) :
    Call (List SlotMapKey) :=
  if maxNonSegmentedPayloadLen < payload.length then do
    let segments := chunks (maxPacketLen - maxPacketMetadataLen) payload
    let m ← Act.get
    Act.modify (fun m => { m with segmentKeysCounter := m.segmentKeysCounter + 1 })
    sendSegments channel order m.segmentKeysCounter segments.length 0 segments
  else do
    let key ← sendRealPacket channel order none payload
    pure key.toList

/-- Returns the resend keys the packet was given. -/
def sendPacket (channel : ConnectionChannel) (payload : Bytes) : Call (List SlotMapKey) := do
  let order ← nextOrder channel
  transmit channel order payload

/-- `ack_channel_id().unwrap()` of the local map. -/
def localAckChannelId : Call U32 := do
  let m ← Act.get
  Act.lift (Outcome.ofOption m.localInner.ackChannelId?)

namespace ConnectionAcknowledgeBuffer

/-- An empty buffer is sent as well, to keep the connection alive. -/
def flush (ackChannelId : U32) : Call Unit := do
  let m ← Act.get
  let localId := match m.state with
    | .registration _ _ => ackChannelIdRegistrationStage
    | .transfer => ackChannelId
  let _ ← sendPacket ⟨localId, ackChannel⟩ m.acknowledgeBuffer
  Act.modify (fun m => { m with acknowledgeBuffer := [] })

/-- A key that does not fit is taken back before the flush and written after it. -/
def acknowledge (key : SlotMapKey) (ackChannelId : U32) : Call Unit := do
  let m ← Act.get
  if (m.acknowledgeBuffer ++ key.encode).length > maxNonSegmentedPayloadLen then do
    flush ackChannelId
    Act.modify (fun m => { m with acknowledgeBuffer := m.acknowledgeBuffer ++ key.encode })
  else Act.modify (fun m => { m with acknowledgeBuffer := m.acknowledgeBuffer ++ key.encode })

end ConnectionAcknowledgeBuffer

/-- The closure `transfer_state_convertion_cleanup`. -/
def transferStateConvertionCleanup : Call Unit :=
  Act.modify (fun m => { m with
    acknowledgeBuffer := []
    resendKeyDuplicateChecker := m.resendKeyDuplicateChecker.clear
    resender := { m.resender with packets := m.resender.packets.clear } })

/-- A packet of an unregistered channel, once the other side's registration is complete,
is taken for one of its transfer packets. -/
def speculativelyTransfer (channelId : U32) : Call Unit := do
  let m ← Act.get
  match m.state with
  | .registration true _ =>
    if (m.notLocalInner.globalId m.state channelId).isNone then do
      Act.modify (fun m => { m with state := .transfer })
      transferStateConvertionCleanup
    else pure ()
  | _ => pure ()

/-- Global id and kind of the channel a packet came on. -/
def resolveChannel (provider : ChannelProvider) (state : ConnectionState)
    (notLocalInner : ConnectionIdMapperInner) (channelId : U32) :
    Outcome ConnectionError (U32 × ConnectionChannel) :=
  match notLocalInner.globalId state channelId with
  | none => .err .unknownChannel
  | some globalChannelId =>
    match ConnectionChannel.new state channelId globalChannelId provider with
    | none => .err .unknownChannel
    | some channel => .ok (globalChannelId, channel)

/-- What a packet carries after its primary metadata. -/
structure PacketHeader where
  segment : Option PacketSegmentMetadata
  order : Option U32
  resendKey : Option SlotMapKey
  payload : Bytes
  deriving DecidableEq, Repr

def readHeader (channel : Channel) (segment : Bool) (payload : Bytes) :
    Outcome Unit PacketHeader := do
  let (metadata, payload) ←
    if segment then do
      let (metadata, payload) ← PacketSegmentMetadata.decode payload
      .ok (some metadata, payload)
    else .ok (none, payload)
  let ((order, resendKey), payload) ← readOrderAndResendKey channel payload
  .ok ⟨metadata, order, resendKey, payload⟩

/-- The closure `acknowledge_if_needed`: the key is recorded before it is acknowledged. -/
def acknowledgeIfNeeded (datagram : Bytes) : Option SlotMapKey → Call Unit
  | none => pure ()
  | some resendKey => do
    let m ← Act.get
    let checker ← Act.lift <| (m.resendKeyDuplicateChecker.insert resendKey).mapErr
      (fun _ => .packetDuplicateDetected)
    Act.modify (fun m => { m with resendKeyDuplicateChecker := checker })
    emit (.recorded resendKey datagram)
    let ackChannelId ← localAckChannelId
    ConnectionAcknowledgeBuffer.acknowledge resendKey ackChannelId

def addSegment (metadata : PacketSegmentMetadata) (payload : Bytes) :
    Call (Option (List Bytes)) := fun m =>
  let (full, joiner) := PacketSegmentJoiner.add metadata payload true m.joiner
  (full.mapErr .packetSegmentJoinerError, { m with joiner := joiner })

/-- A later segment of a full packet without its order and resend key; the error is
ignored, and a failed read has used up the input. -/
def stripSegment (channel : Channel) (segment : Bytes) : Outcome ε Bytes :=
  match readOrderAndResendKey channel segment with
  | .ok (_, rest) => .ok rest
  | .err _ => .ok []
  | .panic => .panic

def joinSegments (channel : Channel) : List Bytes → Outcome Unit (Option U32 × Bytes)
  | [] => .panic
  | first :: rest => do
    let ((order, _), firstPayload) ← readOrderAndResendKey channel first
    let rest ← rest.mapM (stripSegment channel)
    .ok (order, firstPayload ++ rest.flatten)

/-- Order and payload to handle, unless the joiner keeps the segment. -/
def receive (channel : Channel) (header : PacketHeader) : Call (Option (Option U32 × Bytes)) :=
  match header.segment with
  | some metadata => do
    match (← addSegment metadata header.payload) with
    | some fullPacket => do
      let message ← decoding (joinSegments channel fullPacket)
      pure (some message)
    | none => pure none
  | none => pure (some (header.order, header.payload))

/-- One key of the closure `acknowledge_locally`. -/
def releaseKey (key : SlotMapKey) : Call Unit := do
  let m ← Act.get
  match m.state with
  | .registration receivedLastPacket (some lastKey) =>
    if lastKey = key then do
      Act.modify (fun m => { m with state := .registration receivedLastPacket none })
      emit (.confirmed key)
    else pure ()
  | _ => pure ()
  let (packet, resender) ← Act.lift (m.resender.remove key)
  Act.modify (fun m => { m with resender := resender })
  match packet with
  | some packet => emit (.released key packet.payload)
  | none => pure ()

/-- The keys of a packet, up to the first that does not decode; each takes at least two
bytes, so the length of the packet is fuel enough. -/
def acknowledgeLocally : Nat → Bytes → Call Unit
  | 0, _ => pure ()
  | fuel + 1, packet =>
    match SlotMapKey.decode packet with
    | .ok (key, packet) => do
      releaseKey key
      acknowledgeLocally fuel packet
    | .err _ => pure ()
    | .panic => Act.abort

def convertToTransfer : Call Unit := do
  let m ← Act.get
  let (state, converted) := m.state.convertToTransferIfPossible
  Act.modify (fun m => { m with state := state })
  if converted then transferStateConvertionCleanup else pure ()

def channelNameMaxLen : Nat := 500

/-- A registration packet: the name and, unless it is empty, the local id. -/
def handleRegistration (provider : ChannelProvider) (packet : Bytes) : Call Unit := do
  emit (.handed packet)
  let (channelName, packet) ← decoding (StrWithMaxLen.decode channelNameMaxLen packet)
  if channelName = "" then do
    Act.modify (fun m => { m with state := match m.state with
      | .registration _ lastKey => .registration true lastKey
      | .transfer => .transfer })
    convertToTransfer
  else do
    let (channelId, _) ← decoding (VarInt.decode 32 packet)
    if channelId > nullChannelId then Act.abort
    else match provider.byName channelName with
      | none => Act.throw .unknownChannel
      | some globalId => do
        let m ← Act.get
        match m.notLocalInner.insert channelId globalId channelName with
        | none => Act.throw .channelRegistrationStageInvalidValue
        | some mapper => do
          Act.modify (fun m => { m with notLocalInner := mapper })
          let channel ← Act.lift (Outcome.ofOption (provider.byId globalId))
          match channel.orderability with
          | some orderedChannel =>
            let orderer := PacketOrderer.new orderedChannel.capacity
            Act.modify (fun m => { m with
              orderers := m.orderers.setTransfer none channelId (some orderer) })
          | none => pure ()

/-- The closure `handle_message`: one packet of a channel, by the state it is handled in. -/
def handlePacket (provider : ChannelProvider) (globalChannelId : U32)
    (channel : ConnectionChannel) (packet : Bytes) : Call Unit := do
  let m ← Act.get
  match m.state with
  | .registration _ _ =>
    if channel.localId = ackChannelIdRegistrationStage then do
      emit (.consumed packet)
      acknowledgeLocally packet.length packet
      convertToTransfer
    else if channel.localId = channelManagementChannelIdRegistrationStage then
      handleRegistration provider packet
    else Act.abort
  | .transfer =>
    if m.notLocalInner.ackChannelId? = some channel.localId then do
      emit (.consumed packet)
      acknowledgeLocally packet.length packet
    else if m.notLocalInner.channelManagementChannelId? = some channel.localId then Act.abort
    else match m.buffers.get globalChannelId with
      | none => Act.abort
      | some _ => Act.modify (fun m => { m with
          buffers := m.buffers.modify globalChannelId (· ++ [packet]) })

/-- `retain` with the handler of the channel's packets. -/
def handleReady (provider : ChannelProvider) (globalChannelId : U32) (channel : ConnectionChannel)
    (orderer : PacketOrderer) : Call PacketOrderer := fun m =>
  match orderer.retain (handlePacket provider globalChannelId channel) m with
  | (.ok _, orderer, m) => (.ok orderer, m)
  | (.err e, _, m) => (.err e, m)
  | (.panic, _, m) => (.panic, m)

/-- The orderer is taken out of its slot and put back only when every packet was handled. -/
def deliver (provider : ChannelProvider) (globalChannelId : U32) (channel : ConnectionChannel)
    (order : Option U32) (payload : Bytes) : Call Unit :=
  match order with
  | some order => do
    let before ← Act.get
    let slot ← Act.lift (before.orderers.get before.state channel.localId)
    let orderers ← Act.lift (before.orderers.write before.state channel.localId none)
    Act.modify (fun m => { m with orderers := orderers })
    let orderer ← Act.lift (Outcome.ofOption slot)
    let orderer ← Act.lift ((orderer.push order.toNat payload).mapErr .packetOrdererError)
    let orderer ← handleReady provider globalChannelId channel orderer
    let m ← Act.get
    let orderers ← Act.lift (m.orderers.write before.state channel.localId (some orderer))
    Act.modify (fun m => { m with orderers := orderers })
  | none => handlePacket provider globalChannelId channel payload

/-- A datagram whose channel is known and whose header is read. -/
structure Incoming where
  globalChannelId : U32
  channel : ConnectionChannel
  header : PacketHeader
  deriving DecidableEq, Repr

/-- The first part of `handle_message`, up to the resend key. -/
def readPacket (provider : ChannelProvider) (datagram : Bytes) : Call Incoming := do
  let (primary, payload) ← decoding (PrimaryPacketMetadata.decode datagram)
  speculativelyTransfer primary.channelId
  let m ← Act.get
  let (globalChannelId, channel) ←
    Act.lift (resolveChannel provider m.state m.notLocalInner primary.channelId)
  let header ← decoding (readHeader channel.channel primary.segment payload)
  pure ⟨globalChannelId, channel, header⟩

def handleMessage (provider : ChannelProvider) (now : Nat) (datagram : Bytes) : Call Unit := do
  let incoming ← readPacket provider datagram
  acknowledgeIfNeeded datagram incoming.header.resendKey
  match (← receive incoming.channel.channel incoming.header) with
  | some (order, payload) => do
    deliver provider incoming.globalChannelId incoming.channel order payload
    Act.modify (fun m => { m with lastTimeReceivedPacket := now })
  | none => pure ()

def updateConnection (delta : U32) : Call Unit := do
  let m ← Act.get
  let resender ← m.resender.update delta (fun packet => sendDatagram packet.payload)
  Act.modify (fun m => { m with resender := resender })
  let ackChannelId ← localAckChannelId
  ConnectionAcknowledgeBuffer.flush ackChannelId

/-- Frequency of a channel as `sort_by_key` sees it: the most frequent come first. -/
def frequencyKey (provider : ChannelProvider) (entry : String × U32) : Nat :=
  match provider.byId entry.2 with
  | some channel => (~~~ channel.frequency).toNat
  | none => 0

/-- The provider's channels in the order of their local ids. -/
def sortedChannels (provider : ChannelProvider) : List (String × U32) :=
  provider.all.insertionSort (fun a b => frequencyKey provider a ≤ frequencyKey provider b)

/-- The capacity the provider's reliable channels add up to. -/
def addCapacities (provider : ChannelProvider) : List (String × U32) → Nat → Outcome ε Nat
  | [], capacity => .ok capacity
  | (_, id) :: rest, capacity => do
    let channel ← Outcome.ofOption (provider.byId id)
    match channel.reliability with
    | some reliable =>
      if capacity + reliable.additionalCapacity < usizeModulus then
        addCapacities provider rest (capacity + reliable.additionalCapacity)
      else .panic
    | none => addCapacities provider rest capacity

def registrationChannel : ConnectionChannel :=
  ⟨channelManagementChannelIdRegistrationStage, channelManagementChannel⟩

/-- Registers and announces the channels from local id `i` on. -/
def registerChannels : Nat → List (String × U32) → Call Unit
  | _, [] => pure ()
  | i, (name, id) :: rest => do
    if nullChannelId.toNat < i then Act.abort
    else do
      let channelId : U32 := BitVec.ofNat 32 i
      let m ← Act.get
      let mapper ← Act.lift (Outcome.ofOption (m.localInner.insert channelId id name))
      Act.modify (fun m => { m with localInner := mapper })
      let buffer ← encoding (StrWithMaxLen.encode channelNameMaxLen name)
      let _ ← sendPacket registrationChannel (buffer ++ VarInt.encode channelId)
      Act.modify (fun m => { m with
        orders := m.orders.setTransfer 0 channelId 0
        buffers := m.buffers.insert id [] })
      registerChannels (i + 1) rest

/-- The last registration packet, with no name; the state waits for its key. -/
def announceEnd : Call Unit := do
  let buffer ← encoding (StrWithMaxLen.encode channelNameMaxLen "")
  let resendKeys ← sendPacket registrationChannel buffer
  let lastKey ← Act.lift (Outcome.ofOption resendKeys.head?)
  Act.modify (fun m => { m with state := match m.state with
    | .registration receivedLastPacket _ => .registration receivedLastPacket (some lastKey)
    | .transfer => .transfer })

def initializeConnection (provider : ChannelProvider) : Call Unit := do
  let m ← Act.get
  match m.state with
  | .transfer => Act.abort
  | .registration _ _ => do
    let all := sortedChannels provider
    let capacity ← Act.lift (addCapacities provider all m.resender.capacity)
    Act.modify (fun m => { m with resender := { m.resender with capacity := capacity } })
    registerChannels 0 all
    announceEnd

/-- The event loop's answer to `UdpEvent::Send`. -/
def sendEvent (provider : ChannelProvider) (channel : U32) (payload : Bytes) : Call Unit := do
  let m ← Act.get
  match m.localInner.localId m.state channel with
  | none => pure ()
  | some localId =>
    match ConnectionChannel.new m.state localId channel provider with
    | none => pure ()
    | some connectionChannel => do
      emit (.called channel payload)
      let _ ← sendPacket connectionChannel payload
      pure ()

end Theta
