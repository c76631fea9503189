import Theta.Lib.Table
import Theta.Proofs.Acknowledgements

namespace Theta
open Lib Relation

/-- The length of the acknowledge buffer and the number of flushes, after the keys of the first
packets of a peer were acknowledged. -/
def ackLoad : Nat → Nat × Nat
  | 0 => (0, 0)
  | n + 1 =>
    let (length, flushes) := ackLoad n
    let size := (firstKey n).encode.length
    if length + size > maxNonSegmentedPayloadLen then (size, flushes + 1)
    else (length + size, flushes)

theorem ack_load_succ (n : Nat) : ackLoad (n + 1) =
    if (ackLoad n).1 + (firstKey n).encode.length > maxNonSegmentedPayloadLen then
      ((firstKey n).encode.length, (ackLoad n).2 + 1)
    else ((ackLoad n).1 + (firstKey n).encode.length, (ackLoad n).2) := rfl

/-- Each flush takes more than 1970 bytes out of the buffer. -/
theorem ack_load_bound (n : Nat) :
    (ackLoad n).1 ≤ maxNonSegmentedPayloadLen ∧ 1970 * (ackLoad n).2 + (ackLoad n).1 ≤ 10 * n := by
  have hmax : maxNonSegmentedPayloadLen = 1980 := rfl
  induction n with
  | zero => simp [ackLoad]
  | succ n ih =>
    have hsize := (firstKey n).encode_length_le
    rw [ack_load_succ]
    split <;> dsimp only <;> omega

theorem ack_load_mono {i j : Nat} (h : i ≤ j) : (ackLoad i).2 ≤ (ackLoad j).2 := by
  induction h with
  | refl => exact Nat.le_refl _
  | step _ ih =>
    refine Nat.le_trans ih ?_
    rw [ack_load_succ]
    split
    · exact Nat.le_succ _
    · exact Nat.le_refl _

theorem first_key_inj {i j : Nat} (hi : i < 2 ^ 32) (hj : j < 2 ^ 32)
    (h : firstKey i = firstKey j) : i = j := by
  have hindex := congrArg (fun key => key.index.toNat) h
  simp only [firstKey] at hindex
  rwa [SlotMap.index_of_fits hi, SlotMap.index_of_fits hj] at hindex

/-- A resender that has released nothing puts its next packet into the next slot. -/
theorem PacketResender.add_unreleased {r : PacketResender} (free : r.packets.freeSlots = [])
    (slots : r.packets.generations.length = r.packets.values.length)
    (func : SlotMapKey → ReliableBufferedPacket) :
    r.add func = if r.packets.values.length = r.capacity then .err .capacityReached
      else .ok (firstKey r.packets.values.length, { r with packets := {
        values := r.packets.values ++ [some (func (firstKey r.packets.values.length))]
        generations := r.packets.generations ++ [0]
        freeSlots := [] } }) := by
  rw [PacketResender.add, SlotMap.len, free]
  simp only [List.length_nil, Nat.sub_zero]
  split
  · rfl
  · rw [SlotMap.add, free]
    simp only [slots, Nat.le_refl, ↓reduceIte]
    rfl

theorem SlotMap.get_last {m : SlotMap T} {v : T} (slots : m.generations.length = m.values.length)
    (small : m.values.length < 2 ^ 32) :
    SlotMap.get { values := m.values ++ [some v], generations := m.generations ++ [0], freeSlots := [] }
      (firstKey m.values.length) = some v := by
  have hindex : (firstKey m.values.length).index.toNat = m.values.length :=
    SlotMap.index_of_fits small
  rw [SlotMap.get_eq_some, hindex, List.getElem?_concat_length, ← slots, List.getElem?_concat_length]
  exact ⟨rfl, rfl⟩

/-- A flush of the registration stage, when the resender has released nothing. -/
theorem flush_unreleased {m : Endpoint} {id : U32} (hid : m.localInner.ackChannelId? = some id)
    (hst : m.state ≠ .transfer) (hc : m.Compact) (free : m.resender.packets.freeSlots = [])
    (slots : m.resender.packets.generations.length = m.resender.packets.values.length)
    (small : m.resender.packets.values.length < 2 ^ 32) :
    if m.resender.packets.values.length = m.resender.capacity then
      ConnectionAcknowledgeBuffer.flush id m = (.err (.packetResenderError .capacityReached), m)
    else ∃ resender events, ConnectionAcknowledgeBuffer.flush id m = (.ok (), { m with
        resender := resender, acknowledgeBuffer := [], log := m.log ++ events }) ∧
      resender.packets.freeSlots = [] ∧ resender.capacity = m.resender.capacity ∧
      resender.packets.values.length = m.resender.packets.values.length + 1 ∧
      resender.packets.generations.length = m.resender.packets.generations.length + 1 := by
  rw [flush_eq (ack_channel_id hid) (fun ht => absurd ht hst) hc,
    PacketResender.add_unreleased free slots]
  by_cases hfull : m.resender.packets.values.length = m.resender.capacity
  · simp only [if_pos hfull]
  · simp only [if_neg hfull]
    rw [SlotMap.get_last slots small]
    exact ⟨_, _, rfl, rfl, rfl, List.length_append, List.length_append⟩

/-- A connection with `n` packets in its resender has acknowledged the first `k` packets of its
peer. -/
structure Answering (n k : Nat) (m : Endpoint) : Prop where
  known : ∀ key, key ∈ m.resendKeyDuplicateChecker.set ↔ ∃ i < k, key = firstKey i
  buffer : m.acknowledgeBuffer.length = (ackLoad k).1
  free : m.resender.packets.freeSlots = []
  values : m.resender.packets.values.length = n + (ackLoad k).2
  generations : m.resender.packets.generations.length = n + (ackLoad k).2

section
variable {n k : Nat} {m : Endpoint}

theorem Answering.compact (h : Answering n k m) : m.Compact := by
  unfold Endpoint.Compact
  rw [h.buffer]
  exact (ack_load_bound k).1

theorem Answering.recording (h : Answering n k m) (d : Bytes) (key : SlotMapKey) :
    key ∈ (m.recording (firstKey k) d).resendKeyDuplicateChecker.set ↔
      ∃ i < k + 1, key = firstKey i := by
  simp only [Endpoint.recording, List.mem_cons, h.known]
  constructor
  · rintro (rfl | ⟨i, hi, rfl⟩)
    · exact ⟨k, Nat.lt_succ_self k, rfl⟩
    · exact ⟨i, Nat.lt_succ_of_lt hi, rfl⟩
  · rintro ⟨i, hi, rfl⟩
    rcases Nat.lt_succ_iff_lt_or_eq.mp hi with hlt | rfl
    · exact Or.inr ⟨i, hlt, rfl⟩
    · exact Or.inl rfl

/-- The next key is acknowledged when the buffer has room for it, or the resender for a flush. -/
theorem Answering.next {id : U32} (h : Answering n k m) (hst : m.state ≠ .transfer)
    (hid : m.localInner.ackChannelId? = some id) (few : n ≤ 2 ^ 31 + 2) (below : k ≤ n)
    (room : n + (ackLoad k).2 ≤ m.resender.capacity) (d : Bytes) :
    (n + (ackLoad (k + 1)).2 ≤ m.resender.capacity →
      (acknowledgeIfNeeded d (some (firstKey k)) m).1 = .ok () ∧
      Answering n (k + 1) (acknowledgeIfNeeded d (some (firstKey k)) m).2 ∧
      (acknowledgeIfNeeded d (some (firstKey k)) m).2.resender.capacity = m.resender.capacity) ∧
    (¬ n + (ackLoad (k + 1)).2 ≤ m.resender.capacity →
      (acknowledgeIfNeeded d (some (firstKey k)) m).1 ≠ .ok ()) := by
  have hbound := (ack_load_bound k).2
  have new : firstKey k ∉ m.resendKeyDuplicateChecker.set := by
    rw [h.known]
    rintro ⟨i, hi, he⟩
    exact absurd (first_key_inj (by omega) (by omega) he) (by omega)
  have hid' : (m.recording (firstKey k) d).localInner.ackChannelId? = some id := hid
  have hlength : ((m.recording (firstKey k) d).acknowledgeBuffer ++ (firstKey k).encode).length =
      (ackLoad k).1 + (firstKey k).encode.length := by
    rw [List.length_append, ← h.buffer]
    rfl
  rw [acknowledge_new new, localAckChannelId]
  simp only [Act.bind_apply, Act.get_apply, Act.lift_apply, hid', Outcome.ofOption,
    ConnectionAcknowledgeBuffer.acknowledge, hlength]
  by_cases hfull : (ackLoad k).1 + (firstKey k).encode.length > maxNonSegmentedPayloadLen
  · have hload : ackLoad (k + 1) = ((firstKey k).encode.length, (ackLoad k).2 + 1) := by
      rw [ack_load_succ, if_pos hfull]
    have hvalues : (m.recording (firstKey k) d).resender.packets.values.length =
        n + (ackLoad k).2 := h.values
    have hgenerations : (m.recording (firstKey k) d).resender.packets.generations.length =
        n + (ackLoad k).2 := h.generations
    have hcapacity : (m.recording (firstKey k) d).resender.capacity = m.resender.capacity := rfl
    have hflush := flush_unreleased hid' hst h.compact h.free (hgenerations.trans hvalues.symm)
      (by omega)
    rw [hvalues, hgenerations, hcapacity] at hflush
    simp only [if_pos hfull, hload]
    by_cases hroom : n + (ackLoad k).2 = m.resender.capacity
    · rw [if_pos hroom] at hflush
      refine ⟨fun hle => absurd hle (by omega), fun _ => ?_⟩
      rw [Act.bind_of_err hflush]
      simp
    · rw [if_neg hroom] at hflush
      obtain ⟨resender, events, heq, hfree, hcapacity, hvalues, hgenerations⟩ := hflush
      refine ⟨fun _ => ?_, fun hgt => absurd hgt (by omega)⟩
      rw [Act.bind_of_ok heq]
      refine ⟨rfl, ⟨h.recording d, ?_, hfree, ?_, ?_⟩, hcapacity⟩
      · simp [hload]
      · rw [hload]
        exact hvalues
      · rw [hload]
        exact hgenerations
  · have hload : ackLoad (k + 1) =
        ((ackLoad k).1 + (firstKey k).encode.length, (ackLoad k).2) := by
      rw [ack_load_succ, if_neg hfull]
    simp only [if_neg hfull, hload]
    refine ⟨fun _ => ⟨rfl, ⟨h.recording d, ?_, h.free, ?_, ?_⟩, rfl⟩, fun hgt => absurd room hgt⟩
    · rw [hload]
      exact hlength
    · rw [hload]
      exact h.values
    · rw [hload]
      exact h.generations

end

/-- A connection with another orderer for the registration packets. -/
def Endpoint.manage (m : Endpoint) (orderer : Option PacketOrderer) : Endpoint :=
  { m with orderers := { m.orderers with channelManagementRegistrationStage := orderer } }

/-- The header of a registration packet. -/
def registrationIncoming (i : Nat) (payload : Bytes) : Incoming :=
  ⟨channelManagementChannelIdRegistrationStage, registrationChannel,
    ⟨none, some (BitVec.ofNat 32 i), some (firstKey i), payload⟩⟩

section
variable {p : ChannelProvider} {m : Endpoint} {lastKey : Option SlotMapKey}

theorem read_registration {received : Bool} (hst : m.state = .registration received lastKey) (i : Nat)
    (payload : Bytes) :
    readPacket p (registrationDatagram i payload) m =
      (.ok (registrationIncoming i payload), m) := by
  have small : channelManagementChannelIdRegistrationStage.toNat < 2 ^ 31 := by decide
  refine read_packet_bytes small ?_ ⟨small, by simp [registrationPacket], rfl, rfl⟩
  rw [hst]
  rfl

theorem management_get (hst : m.state ≠ .transfer) :
    (m.orderers.get m.state channelManagementChannelIdRegistrationStage : Outcome ConnectionError _) =
      .ok m.orderers.channelManagementRegistrationStage := by
  have hne : channelManagementChannelIdRegistrationStage ≠ ackChannelIdRegistrationStage := by
    decide
  rcases hm : m.state with ⟨received, lastKey⟩ | _
  · simp only [ChannelData.get, if_neg hne, ↓reduceIte]
  · exact absurd hm hst

theorem management_write (hst : m.state ≠ .transfer) (orderer : Option PacketOrderer)
    (orderers : ChannelData (Option PacketOrderer)) :
    (orderers.write m.state channelManagementChannelIdRegistrationStage orderer :
      Outcome ConnectionError _) =
        .ok { orderers with channelManagementRegistrationStage := orderer } := by
  have hne : channelManagementChannelIdRegistrationStage ≠ ackChannelIdRegistrationStage := by
    decide
  rcases hm : m.state with ⟨received, lastKey⟩ | _
  · simp only [ChannelData.write, if_neg hne, ↓reduceIte]
  · exact absurd hm hst

/-- A registration packet is handed on by an orderer that is out of its slot meanwhile. -/
theorem deliver_managed {J : Endpoint → Prop} {g order : U32} {payload : Bytes}
    (hst : m.state ≠ .transfer) (unmoved : J m) (taken : J (m.manage none))
    (run : ∀ o o', m.orderers.channelManagementRegistrationStage = some o →
      o.push order.toNat payload = .ok o' → ∀ r o'' t,
        o'.retain (handlePacket p g registrationChannel) (m.manage none) = (r, o'', t) →
        J t ∧ (r = .ok () → J (t.manage (some o'')))) :
    J (deliver p g registrationChannel (some order) payload m).2 := by
  have hdel := deliver_delivery p g registrationChannel order payload m
  have emptied {orderers : ChannelData (Option PacketOrderer)}
      (take : (m.orderers.write m.state registrationChannel.localId none :
        Outcome ConnectionError _) = .ok orderers) :
      { m with orderers := orderers } = m.manage none := by
    have h := (management_write hst none m.orderers).symm.trans take
    cases h
    rfl
  have held {o : PacketOrderer} (slot : (m.orderers.get m.state registrationChannel.localId :
      Outcome ConnectionError _) = .ok (some o)) :
      m.orderers.channelManagementRegistrationStage = some o :=
    Outcome.ok.inj ((management_get hst).symm.trans slot)
  rcases hd : deliver p g registrationChannel (some order) payload m with ⟨r, m'⟩
  rw [hd] at hdel
  cases hdel with
  | missing => exact unmoved
  | absent _ _ take => exact emptied take ▸ taken
  | refused _ _ _ _ take _ => exact emptied take ▸ taken
  | overgrown _ _ _ take _ => exact emptied take ▸ taken
  | stopped o o' orderers slot take push _ =>
    rw [emptied take]
    exact (run o o' (held slot) push _ _ _ rfl).1
  | dropped o o' orderers slot take push _ =>
    rw [emptied take]
    exact (run o o' (held slot) push _ _ _ rfl).1
  | done o o' o'' orderers orderers' t slot take push handled back =>
    rw [emptied take] at handled
    have hback := (management_write hst (some o'') t.orderers).symm.trans back
    cases hback
    exact (run o o' (held slot) push _ _ _ handled).2 rfl

/-- A packet that the orderer takes, and whose ready packets are all handled. -/
theorem deliver_managed_ok {g order : U32} {payload : Bytes} {o o' o'' : PacketOrderer}
    {t : Endpoint} (hst : m.state ≠ .transfer)
    (slot : m.orderers.channelManagementRegistrationStage = some o)
    (push : o.push order.toNat payload = .ok o')
    (run : o'.retain (handlePacket p g registrationChannel) (m.manage none) = (.ok (), o'', t)) :
    deliver p g registrationChannel (some order) payload m = (.ok (), t.manage (some o'')) := by
  have hget : (m.orderers.get m.state registrationChannel.localId : Outcome ConnectionError _) =
      .ok (some o) := by
    rw [← slot]
    exact management_get hst
  have hwrite (o : Option PacketOrderer) (d : ChannelData (Option PacketOrderer)) :
      (d.write m.state registrationChannel.localId o : Outcome ConnectionError _) =
        .ok { d with channelManagementRegistrationStage := o } := management_write hst o d
  have hready : handleReady p g registrationChannel o' (m.manage none) = (.ok o'', t) := by
    rw [handleReady, run]
  have hlift {α : Type} {r : Outcome ConnectionError α} {a : α} (h : r = .ok a) (u : Endpoint) :
      Act.lift r u = (.ok a, u) := by rw [h]; rfl
  have hpush : (o.push order.toNat payload).mapErr ConnectionError.packetOrdererError = .ok o' := by
    rw [push]
    rfl
  rw [deliver, Act.bind_of_ok (Act.get_apply m), Act.bind_of_ok (hlift hget m),
    Act.bind_of_ok (hlift (hwrite none m.orderers) m), Act.bind_apply]
  dsimp only [Act.modify_apply]
  rw [Outcome.ofOption, Act.bind_of_ok (hlift rfl _), Act.bind_of_ok (hlift hpush _)]
  refine (Act.bind_of_ok hready).trans ?_
  rw [Act.bind_of_ok (Act.get_apply t), Act.bind_of_ok (hlift (hwrite _ t.orderers) t)]
  rfl

/-- A registration packet is acknowledged and handed to its orderer. -/
theorem handle_registration_datagram {received : Bool}
    (hst : m.state = .registration received lastKey) {i now : Nat} {payload : Bytes} :
    handleMessage p now (registrationDatagram i payload) m = (do
      acknowledgeIfNeeded (registrationDatagram i payload) (some (firstKey i))
      deliver p channelManagementChannelIdRegistrationStage registrationChannel
        (some (BitVec.ofNat 32 i)) payload
      Act.modify (fun m => { m with lastTimeReceivedPacket := now })) m := by
  rw [handleMessage, Act.bind_of_ok (read_registration hst i payload)]
  rfl

/-- A registration packet that is next in order is handled at once. -/
theorem deliver_registration {received : Bool} {vec : List (Option Bytes)} {i : Nat} {payload : Bytes}
    {t : Endpoint} (hst : m.state = .registration received lastKey)
    (slot : m.orderers.channelManagementRegistrationStage = some ⟨vec, i, 0, 1000⟩)
    (idle : vec = [] ∨ vec = [none]) (small : i < 2 ^ 32)
    (handled : handleRegistration p payload (m.manage none) = (.ok (), t)) :
    deliver p channelManagementChannelIdRegistrationStage registrationChannel
      (some (BitVec.ofNat 32 i)) payload m = (.ok (), t.manage (some ⟨[none], i + 1, 0, 1000⟩)) := by
  have husize : usizeModulus = 2 ^ 64 := rfl
  have hi : (BitVec.ofNat 32 i : U32).toNat = i := SlotMap.index_of_fits small
  have hpush : PacketOrderer.push ⟨vec, i, 0, 1000⟩ i payload = .ok ⟨[some payload], i, 0, 1000⟩ :=
    PacketOrderer.idle_push idle (by decide) payload
  have hst' : (m.manage none).state = .registration received lastKey := hst
  have hhandle : handlePacket p channelManagementChannelIdRegistrationStage registrationChannel payload
      (m.manage none) = (.ok (), t) := by
    rw [handle_packet_management hst' rfl, handled]
  have hret : PacketOrderer.retain (handlePacket p channelManagementChannelIdRegistrationStage
      registrationChannel) ⟨[some payload], i, 0, 1000⟩ (m.manage none) =
        (.ok (), ⟨[none], (i + 1) % usizeModulus, 0, 1000⟩, t) := PacketOrderer.retain_single hhandle
  rw [Nat.mod_eq_of_lt (by omega)] at hret
  refine deliver_managed_ok (by simp [hst]) slot ?_ hret
  rw [hi]
  exact hpush

theorem decode_name (name : String) (short : (utf8 name).length ≤ channelNameMaxLen) (rest : Bytes) :
    StrWithMaxLen.decode channelNameMaxLen (nameBytes name ++ rest) = .ok (name, rest) := by
  refine StrWithMaxLen.decode_encode rest (by decide) ?_
  rw [StrWithMaxLen.encode, if_neg (Nat.not_lt_of_le short)]
  rfl

/-- A registration packet of a channel enters it and gives it its orderer. -/
theorem handle_entry {name : String} {k : Nat} {g : U32} {channel : Channel}
    {mapper : ConnectionIdMapperInner} (named : name ≠ "") (short : (utf8 name).length ≤ channelNameMaxLen) (hk : k ≤ 2 ^ 31)
    (known : p.byName name = some g) (kind : p.byId g = some channel)
    (insert : m.notLocalInner.insert (BitVec.ofNat 32 k) g name = some mapper) :
    handleRegistration p (nameBytes name ++ VarInt.encode (BitVec.ofNat 32 k)) m =
      (.ok (), { m.handed (nameBytes name ++ VarInt.encode (BitVec.ofNat 32 k)) with
        notLocalInner := mapper
        orderers := ordererFor channel (BitVec.ofNat 32 k) m.orderers }) := by
  have hname := decode_name name short (VarInt.encode (BitVec.ofNat 32 k))
  have hid : VarInt.decode 32 (VarInt.encode (BitVec.ofNat 32 k : U32)) =
      .ok (BitVec.ofNat 32 k, []) := by
    have h := VarInt.decode_encode_u32 (BitVec.ofNat 32 k) []
    rwa [List.append_nil] at h
  have hle : ¬ (BitVec.ofNat 32 k : U32) > nullChannelId := by
    have hnull : nullChannelId.toNat = 2 ^ 31 := rfl
    rw [gt_iff_lt, BitVec.lt_def, SlotMap.index_of_fits (by omega)]
    omega
  simp only [handleRegistration, emit, decoding, Act.bind_apply, Act.modify_apply, Act.lift_apply,
    hname, Outcome.mapErr, named, ↓reduceIte, hid, hle, known, Act.get_apply, insert, kind,
    Outcome.ofOption, ordererFor]
  cases channel.orderability <;> rfl

/-- A registration packet without a name ends the registration. -/
theorem handle_unnamed {received : Bool} {packet rest : Bytes}
    (hst : m.state = .registration received lastKey)
    (unnamed : StrWithMaxLen.decode channelNameMaxLen packet = .ok ("", rest)) :
    handleRegistration p packet m =
      convertToTransfer { m.handed packet with state := .registration true lastKey } := by
  simp only [handleRegistration, emit, decoding, Act.bind_apply, Act.modify_apply, Act.lift_apply,
    unnamed, Outcome.mapErr, ↓reduceIte, hst]
  rfl

end

/-- Channels that a provider knows, and that can be announced. -/
structure Shared (p : ChannelProvider) (channels : List (String × U32)) : Prop where
  short : ∀ entry ∈ channels, (utf8 entry.1).length ≤ channelNameMaxLen
  few : channels.length ≤ 2 ^ 31 + 1
  known : ∀ entry ∈ channels, p.byName entry.1 = some entry.2
  kinds : ∀ entry ∈ channels, ∃ channel, p.byId entry.2 = some channel

/-- A connection that has handled the first `k` registration packets of these channels, all of
them with names. -/
structure Listening (channels : List (String × U32)) (k : Nat) (m : Endpoint) : Prop where
  stage : ∃ key, m.state = .registration false (some key)
  answers : ∃ id, m.localInner.ackChannelId? = some id
  answering : Answering (channels.length + 1) k m
  slot : ∃ vec, (vec = [] ∨ vec = [none]) ∧
    m.orderers.channelManagementRegistrationStage = some ⟨vec, k, 0, 1000⟩
  entered : Entered (channels.take k) m.notLocalInner

/-- A connection that waits for registration packet `k`, or has lost its orderer. -/
structure Missing (k : Nat) (m : Endpoint) : Prop where
  stage : ∃ lastKey, m.state = .registration false lastKey
  compact : m.Compact
  slot : ∀ o, m.orderers.channelManagementRegistrationStage = some o →
    o.Bounded ∧ o.view.next = k ∧ o.view.held k = none

section
variable {p : ChannelProvider} {channels : List (String × U32)} {k : Nat} {m : Endpoint}

/-- Reading a registration packet leaves everything but the acknowledgements alone up to its
handler. -/
theorem acknowledge_registration (p : ChannelProvider) (i : Nat) (payload : Bytes)
    {lastKey : Option SlotMapKey} (hst : m.state = .registration false lastKey) (hc : m.Compact) :
    SameReceipts m (acknowledgeIfNeeded (registrationDatagram i payload) (some (firstKey i)) m).2 ∧
      (acknowledgeIfNeeded (registrationDatagram i payload) (some (firstKey i)) m).2.localInner =
        m.localInner ∧
      (acknowledgeIfNeeded (registrationDatagram i payload) (some (firstKey i)) m).2.Compact := by
  have hread := read_registration (p := p) hst i payload
  have hack : ReflTransGen (Move (acknowledging p (registrationDatagram i payload))) _
      (acknowledgeIfNeeded (registrationDatagram i payload)
        (registrationIncoming i payload).header.resendKey _).2 :=
    acknowledge_acknowledging (m := m) (by rw [hread]; exact hc) (by rw [hread])
  rw [hread] at hack
  exact ⟨same_receipts acknowledging_quiet hack, (moves_fixed hack).1, moves_compact hack hc⟩

/-- A connection that misses a registration packet handles none of the other ones. -/
theorem Missing.deliver_other {i : Nat} (h : Missing k m) (hi : (BitVec.ofNat 32 i : U32).toNat ≠ k)
    (payload : Bytes) :
    Missing k (deliver p channelManagementChannelIdRegistrationStage registrationChannel
      (some (BitVec.ofNat 32 i)) payload m).2 := by
  obtain ⟨⟨lastKey, hst⟩, hc, hslot⟩ := h
  have stage : m.state ≠ .transfer := by simp [hst]
  have taken : Missing k (m.manage none) := ⟨⟨lastKey, hst⟩, hc, fun o ho => by cases ho⟩
  refine deliver_managed stage ⟨⟨lastKey, hst⟩, hc, hslot⟩ taken (fun o o' slot push r o'' t run => ?_)
  obtain ⟨hbounded, hnext, hheld⟩ := hslot o slot
  obtain ⟨hbounded', _, hview⟩ := hbounded.push push
  have hnone : o'.view.held k = none := by
    rw [hview]
    exact (Sequencer.held_accept_ne hi.symm).trans hheld
  have hnext' : o'.view.next = k := by
    rw [hview]
    exact hnext
  obtain ⟨hstays, hsame⟩ := PacketOrderer.retain_missing (s := m.manage none) (o := o')
    (handlePacket p channelManagementChannelIdRegistrationStage registrationChannel)
    (by rw [hnext', hnone])
  rw [run] at hstays hsame
  subst hstays
  refine ⟨taken, fun hok => ⟨⟨lastKey, hst⟩, hc, fun x hx => ?_⟩⟩
  cases hx
  obtain rfl : o'' = o' := hsame hok
  exact ⟨hbounded', hnext', hnone⟩

theorem Missing.stays {i : Nat} (now : Nat) (payload : Bytes) (h : Missing k m)
    (hi : (BitVec.ofNat 32 i : U32).toNat ≠ k) :
    Missing k (handleMessage p now (registrationDatagram i payload) m).2 := by
  obtain ⟨⟨lastKey, hst⟩, hc, hslot⟩ := h
  obtain ⟨hsame, _, hcompact⟩ := acknowledge_registration p i payload hst hc
  rw [handle_registration_datagram hst]
  rcases hack : acknowledgeIfNeeded (registrationDatagram i payload) (some (firstKey i)) m with ⟨r, t⟩
  rw [hack] at hsame hcompact
  have ht : Missing k t :=
    ⟨⟨lastKey, hsame.state.trans hst⟩, hcompact, fun o ho => hslot o (hsame.orderers ▸ ho)⟩
  cases r with
  | err e =>
    rw [Act.bind_of_err hack]
    exact ht
  | panic =>
    rw [Act.bind_of_panic hack]
    exact ht
  | ok u =>
    rw [Act.bind_of_ok hack]
    obtain ⟨_, time, hend⟩ := touch_ends (deliver p channelManagementChannelIdRegistrationStage
      registrationChannel (some (BitVec.ofNat 32 i)) payload) t now
    rw [hend]
    have hdelivered := ht.deliver_other (p := p) hi payload
    exact ⟨hdelivered.stage, hdelivered.compact, hdelivered.slot⟩

/-- Registration packet `k` is lost when there is no room for its acknowledgement. -/
theorem Listening.crowded (now : Nat) (payload : Bytes) (h : Listening channels k m)
    (few : channels.length ≤ 2 ^ 31 + 1) (below : k ≤ channels.length)
    (room : channels.length + 1 + (ackLoad k).2 ≤ m.resender.capacity)
    (full : ¬ channels.length + 1 + (ackLoad (k + 1)).2 ≤ m.resender.capacity) :
    Missing k (handleMessage p now (registrationDatagram k payload) m).2 := by
  obtain ⟨⟨key, hst⟩, ⟨id, hid⟩, answering, ⟨vec, idle, slot⟩, _⟩ := h
  have hnext := (answering.next (by simp [hst]) hid (by omega) (by omega) room
    (registrationDatagram k payload)).2 full
  obtain ⟨hsame, _, hcompact⟩ := acknowledge_registration p k payload hst answering.compact
  have hvec : vec.length ≤ 1 := by rcases idle with rfl | rfl <;> simp
  have hmissing : Missing k (acknowledgeIfNeeded (registrationDatagram k payload)
      (some (firstKey k)) m).2 := by
    refine ⟨⟨_, hsame.state.trans hst⟩, hcompact, fun o ho => ?_⟩
    rw [hsame.orderers, slot, Option.some.injEq] at ho
    subst ho
    have hmax : maxVecLen ≥ 1 := by decide
    have hheld (n : Nat) : (PacketOrderer.view ⟨vec, k, 0, 1000⟩).held n = none := by
      rcases idle with rfl | rfl
      · simp [PacketOrderer.view, PacketOrderer.window]
      · simp only [PacketOrderer.view, PacketOrderer.window, List.rotate_zero]
        split
        · cases n - k <;> simp
        · rfl
    exact ⟨⟨⟨Or.inl rfl, Nat.le_trans hvec hmax⟩, show k ≤ 2 ^ 32 by omega,
      fun n x hx => by rw [hheld] at hx; cases hx⟩, rfl, hheld k⟩
  rw [handle_registration_datagram hst]
  rcases hack : acknowledgeIfNeeded (registrationDatagram k payload) (some (firstKey k)) m with ⟨r, t⟩
  rw [hack] at hmissing hnext
  cases r with
  | err e =>
    rw [Act.bind_of_err hack]
    exact hmissing
  | panic =>
    rw [Act.bind_of_panic hack]
    exact hmissing
  | ok u => exact absurd rfl hnext

/-- Registration packet `k` is handled when there is room for its acknowledgement. -/
theorem Listening.handled (p : ChannelProvider) (now : Nat) (payload : Bytes)
    (h : Listening channels k m) (few : channels.length ≤ 2 ^ 31 + 1) (below : k ≤ channels.length)
    (room : channels.length + 1 + (ackLoad (k + 1)).2 ≤ m.resender.capacity) :
    ∃ m1, SameReceipts m m1 ∧ m1.localInner = m.localInner ∧
      Answering (channels.length + 1) (k + 1) m1 ∧ m1.resender.capacity = m.resender.capacity ∧
      ∀ t, handleRegistration p payload (m1.manage none) = (.ok (), t) →
        handleMessage p now (registrationDatagram k payload) m =
          (.ok (), { t.manage (some ⟨[none], k + 1, 0, 1000⟩) with lastTimeReceivedPacket := now }) := by
  obtain ⟨⟨key, hst⟩, ⟨id, hid⟩, answering, ⟨vec, idle, slot⟩, _⟩ := h
  have hmono : (ackLoad k).2 ≤ (ackLoad (k + 1)).2 := ack_load_mono (Nat.le_succ k)
  obtain ⟨hok, hanswering, hcapacity⟩ := (answering.next (by simp [hst]) hid (by omega) (by omega)
    (by omega) (registrationDatagram k payload)).1 room
  obtain ⟨hsame, hinner, _⟩ := acknowledge_registration p k payload hst answering.compact
  refine ⟨_, hsame, hinner, hanswering, hcapacity, fun t handled => ?_⟩
  have hdeliver := deliver_registration (hsame.state.trans hst) (hsame.orderers ▸ slot) idle
    (by omega) handled
  rw [handle_registration_datagram hst, Act.bind_of_ok (eq_of_fst hok), Act.bind_of_ok hdeliver]
  rfl

/-- The registration packet of a channel with a name enters it under its number. -/
theorem Listening.next (now : Nat) {payload : Bytes} (h : Listening channels k m)
    (shared : Shared p channels) {name : String} {g : U32} (hget : channels[k]? = some (name, g))
    (hpayload : (announcements channels)[k]? = some payload) (named : name ≠ "")
    (room : channels.length + 1 + (ackLoad (k + 1)).2 ≤ m.resender.capacity) :
    ∃ m', handleMessage p now (registrationDatagram k payload) m = (.ok (), m') ∧
      Listening channels (k + 1) m' ∧ m'.resender.capacity = m.resender.capacity := by
  have hfew := shared.few
  have hlt := (List.getElem?_eq_some_iff.mp hget).1
  have hmem := List.mem_of_getElem? hget
  have hrest : channels.drop k = (name, g) :: channels.drop (k + 1) := by
    rw [List.drop_eq_getElem_cons hlt, ← (List.getElem?_eq_some_iff.mp hget).2]
  obtain rfl : nameBytes name ++ VarInt.encode (BitVec.ofNat 32 k) = payload :=
    Option.some.inj ((announcement_get hrest).symm.trans hpayload)
  obtain ⟨mapper, insert, _, htake, hentered⟩ := enter_next h.entered hrest (by omega)
  obtain ⟨channel, kind⟩ := shared.kinds _ hmem
  obtain ⟨m1, hsame, hinner, hanswering, hcapacity, handled⟩ := h.handled p now
    (nameBytes name ++ VarInt.encode (BitVec.ofNat 32 k)) hfew (by omega) room
  have hinsert : (m1.manage none).notLocalInner.insert (BitVec.ofNat 32 k) g name = some mapper := by
    rw [← insert, ← hsame.notLocalInner]
    rfl
  have hentry := handle_entry (m := m1.manage none) named (shared.short _ hmem) (by omega)
    (shared.known _ hmem) kind hinsert
  obtain ⟨key, hst⟩ := h.stage
  obtain ⟨id, hid⟩ := h.answers
  exact ⟨_, handled _ hentry, ⟨⟨key, hsame.state.trans hst⟩, ⟨id, by rw [← hid, ← hinner]; rfl⟩,
    ⟨hanswering.known, hanswering.buffer, hanswering.free, hanswering.values,
      hanswering.generations⟩, ⟨[none], Or.inr rfl, rfl⟩, hentered⟩, hcapacity⟩

/-- A registration packet without a name sets the flag. -/
theorem Listening.finish (now : Nat) {payload rest : Bytes} (h : Listening channels k m)
    (few : channels.length ≤ 2 ^ 31 + 1) (below : k ≤ channels.length)
    (unnamed : StrWithMaxLen.decode channelNameMaxLen payload = .ok ("", rest))
    (room : channels.length + 1 + (ackLoad (k + 1)).2 ≤ m.resender.capacity) :
    ∃ m' lastKey, handleMessage p now (registrationDatagram k payload) m = (.ok (), m') ∧
      m'.state = .registration true lastKey := by
  obtain ⟨m1, hsame, _, _, _, handled⟩ := h.handled p now payload few below room
  obtain ⟨key, hst⟩ := h.stage
  have hend : handleRegistration p payload (m1.manage none) = (.ok (), { (m1.manage none).handed
      payload with state := .registration true (some key) }) :=
    handle_unnamed (m := m1.manage none) (hsame.state.trans hst) unnamed
  exact ⟨_, some key, handled _ hend, rfl⟩

end

/-- The connection after it has read the first `k` of these datagrams, each at its time. -/
def hear (p : ChannelProvider) (reads : List (Nat × Bytes)) (k : Nat) (m : Endpoint) :
    Option Endpoint :=
  performAll p ((reads.take k).map fun r => .read r.1 r.2) m

/-- Reading these datagrams in their order sets the flag of the last packet with the last of them
and not earlier, when every one of the channels has been entered under its number. -/
structure Unambiguous (p : ChannelProvider) (channels : List (String × U32))
    (reads : List (Nat × Bytes)) (m : Endpoint) : Prop where
  flag : ∀ k ≤ reads.length, ∃ m' lastKey, hear p reads k m = some m' ∧
    m'.state = .registration (decide (k = reads.length)) lastKey
  entered : ∃ m', hear p reads (reads.length - 1) m = some m' ∧
    m'.notLocalInner.localIdToGlobalId = channels.map Prod.snd

section
variable {p : ChannelProvider} {channels : List (String × U32)} {reads : List (Nat × Bytes)}
  {k : Nat} {m m' : Endpoint}

theorem hear_succ {now : Nat} {d : Bytes} (h : reads[k]? = some (now, d)) :
    hear p reads (k + 1) m = (hear p reads k m).bind fun m =>
      match handleMessage p now d m with
      | (.panic, _) => none
      | (_, m') => some m' := by
  rw [hear, List.take_add_one, h, List.map_append, perform_all_append]
  refine congrArg (Option.bind _) (funext fun t => ?_)
  show performAll p [.read now d] t = _
  rw [performAll, perform]
  rcases handleMessage p now d t with ⟨r, t'⟩
  cases r <;> rfl

theorem hear_ok {now : Nat} {d : Bytes} {t : Endpoint} (h : reads[k]? = some (now, d))
    (before : hear p reads k m = some m') (handled : handleMessage p now d m' = (.ok (), t)) :
    hear p reads (k + 1) m = some t := by
  rw [hear_succ h, before, Option.bind_some, handled]

/-- The datagrams that are read are the registration packets of the channels. -/
def Announces (channels : List (String × U32)) (reads : List (Nat × Bytes)) : Prop :=
  reads.map Prod.snd = (announcements channels).mapIdx registrationDatagram

theorem Announces.length (h : Announces channels reads) : reads.length = channels.length + 1 := by
  have hlen := congrArg List.length h
  rwa [List.length_map, List.length_mapIdx, announcements_length] at hlen

theorem Announces.get (h : Announces channels reads) (hk : k ≤ channels.length) :
    ∃ now payload, reads[k]? = some (now, registrationDatagram k payload) ∧
      (announcements channels)[k]? = some payload := by
  have hlt : k < (announcements channels).length := by
    rw [announcements_length]
    omega
  have hget := congrArg (fun l => l[k]?) h
  simp only [List.getElem?_map, List.getElem?_mapIdx, List.getElem?_eq_getElem hlt,
    Option.map_some] at hget
  obtain ⟨⟨now, d⟩, hread, rfl⟩ := Option.map_eq_some_iff.mp hget
  exact ⟨now, _, hread, List.getElem?_eq_getElem hlt⟩

/-- A registration packet that was missed stays missing to the end. -/
theorem Missing.remains {i j : Nat} (announces : Announces channels reads)
    (few : channels.length ≤ 2 ^ 31 + 1) {t t' : Endpoint} (hi : k < i) (hj : i ≤ j)
    (last : j ≤ channels.length + 1) (before : hear p reads i m = some t) (h : Missing k t)
    (after : hear p reads j m = some t') : Missing k t' := by
  induction j, hj using Nat.le_induction generalizing t' with
  | base =>
    rw [before, Option.some.injEq] at after
    rwa [← after]
  | succ j hj ih =>
    obtain ⟨now, payload, hread, _⟩ := announces.get (k := j) (by omega)
    rw [hear_succ hread] at after
    obtain ⟨u, hu, hlast⟩ := Option.bind_eq_some_iff.mp after
    have hplace : (BitVec.ofNat 32 j : U32).toNat ≠ k := by
      rw [SlotMap.index_of_fits (by omega)]
      omega
    have hstays := (ih (by omega) hu).stays (p := p) now payload hplace
    rcases hmessage : handleMessage p now (registrationDatagram j payload) u with ⟨r, u'⟩
    rw [hmessage] at hlast hstays
    cases r with
    | panic => cases hlast
    | ok _ =>
      cases hlast
      exact hstays
    | err _ =>
      cases hlast
      exact hstays

/-- The channels with names are entered one after the other. -/
theorem Listening.hears (announces : Announces channels reads) (shared : Shared p channels)
    (h : Listening channels 0 m) (hk : k ≤ channels.length)
    (named : ∀ entry ∈ channels.take k, entry.1 ≠ "")
    (room : channels.length + 1 + (ackLoad k).2 ≤ m.resender.capacity) :
    ∃ t, hear p reads k m = some t ∧ Listening channels k t ∧
      t.resender.capacity = m.resender.capacity := by
  induction k with
  | zero => exact ⟨m, rfl, h, rfl⟩
  | succ k ih =>
    have hmono : (ackLoad k).2 ≤ (ackLoad (k + 1)).2 := ack_load_mono (Nat.le_succ k)
    obtain ⟨⟨name, g⟩, hget⟩ : ∃ entry, channels[k]? = some entry :=
      ⟨_, List.getElem?_eq_getElem hk⟩
    have htake : channels.take (k + 1) = channels.take k ++ [(name, g)] := by
      rw [List.take_add_one, hget]
      rfl
    rw [htake] at named
    obtain ⟨t, hbefore, ht, hcapacity⟩ := ih (by omega)
      (fun entry hentry => named entry (List.mem_append_left _ hentry)) (by omega)
    obtain ⟨now, payload, hread, hpayload⟩ := announces.get (k := k) (by omega)
    obtain ⟨t', hhandled, hnext, hcapacity'⟩ := ht.next now shared hget hpayload
      (named _ (List.mem_append_right _ (List.mem_singleton_self _))) (by rw [hcapacity]; exact room)
    exact ⟨t', hear_ok hread hbefore hhandled, hnext, hcapacity'.trans hcapacity⟩

/-- The map of so many channels lists their ids in order. -/
theorem entered_ids {entries : List (String × U32)} {mapper : ConnectionIdMapperInner}
    (h : Entered entries mapper) (few : entries.length ≤ 2 ^ 32) :
    mapper.localIdToGlobalId = entries.map Prod.snd := by
  induction h with
  | empty => rfl
  | enter entries mapper mapper' name id before insert ih =>
    rw [List.length_append, List.length_singleton] at few
    have hplace : (BitVec.ofNat 32 entries.length : U32).toNat = entries.length :=
      SlotMap.index_of_fits (by omega)
    have hlength := entered_length before
    unfold ConnectionIdMapperInner.insert at insert
    split at insert
    · cases insert
    · cases insert
      dsimp only
      rw [hplace, ← hlength, List.insertIdx_length_self, ih (by omega), List.map_append]
      rfl

/-- Every packet that is read with the others before it handled can be acknowledged. -/
theorem Unambiguous.room {t : Endpoint} (h : Unambiguous p channels reads m)
    (announces : Announces channels reads) (few : channels.length ≤ 2 ^ 31 + 1)
    (hk : k ≤ channels.length) (before : hear p reads k m = some t) (ht : Listening channels k t)
    (room : channels.length + 1 + (ackLoad k).2 ≤ t.resender.capacity) :
    channels.length + 1 + (ackLoad (k + 1)).2 ≤ t.resender.capacity := by
  by_contra full
  obtain ⟨now, payload, hread, _⟩ := announces.get hk
  have hlength := announces.length
  have hmissing := ht.crowded (p := p) now payload few hk room full
  obtain ⟨u, _, hu, _⟩ := h.flag (k + 1) (by omega)
  obtain ⟨last, _, hlast, hflag⟩ := h.flag reads.length (Nat.le_refl _)
  rw [decide_eq_true rfl] at hflag
  have hmissing : Missing k u := by
    rw [hear_succ hread, before, Option.bind_some] at hu
    rcases hmessage : handleMessage p now (registrationDatagram k payload) t with ⟨r, t'⟩
    rw [hmessage] at hu hmissing
    cases r with
    | panic => cases hu
    | ok _ =>
      cases hu
      exact hmissing
    | err _ =>
      cases hu
      exact hmissing
  obtain ⟨⟨_, hstage⟩, _, _⟩ := hmissing.remains announces few (Nat.lt_succ_self k) (by omega)
    (by omega) hu hlast
  rw [hflag] at hstage
  cases hstage

/-- Without a room for an acknowledgement, or with a channel that has no name, the stream is not
read as it was meant. -/
theorem Unambiguous.named {k : Nat} (h : Unambiguous p channels reads m)
    (announces : Announces channels reads) (shared : Shared p channels)
    (hm : Listening channels 0 m) (hk : k ≤ channels.length)
    (room : channels.length + 1 ≤ m.resender.capacity) :
    (∀ entry ∈ channels.take k, entry.1 ≠ "") ∧
      channels.length + 1 + (ackLoad (k + 1)).2 ≤ m.resender.capacity := by
  have few := shared.few
  induction k with
  | zero =>
    refine ⟨fun entry he => absurd he (by simp), ?_⟩
    exact h.room announces few (Nat.zero_le _) rfl hm room
  | succ k ih =>
    obtain ⟨hnamed, hroom⟩ := ih (by omega)
    have hmono : (ackLoad k).2 ≤ (ackLoad (k + 1)).2 := ack_load_mono (Nat.le_succ k)
    obtain ⟨t, hbefore, ht, hcapacity⟩ := hm.hears announces shared (by omega) hnamed
      (by omega : channels.length + 1 + (ackLoad k).2 ≤ m.resender.capacity)
    obtain ⟨⟨name, g⟩, hget⟩ : ∃ entry, channels[k]? = some entry :=
      ⟨_, List.getElem?_eq_getElem hk⟩
    have hname : name ≠ "" := by
      rintro rfl
      obtain ⟨now, payload, hread, hpayload⟩ := announces.get (k := k) (by omega)
      have hrest : channels.drop k = ("", g) :: channels.drop (k + 1) := by
        rw [List.drop_eq_getElem_cons hk, ← (List.getElem?_eq_some_iff.mp hget).2]
      obtain rfl := Option.some.inj ((announcement_get hrest).symm.trans hpayload)
      obtain ⟨t', lastKey, hhandled, hflag⟩ := ht.finish (p := p) now few (by omega)
        (decode_name _ (shared.short _ (List.mem_of_getElem? hget)) _) (by rw [hcapacity]; exact hroom)
      obtain ⟨u, _, hu, hearly⟩ := h.flag (k + 1) (by rw [announces.length]; omega)
      rw [hear_ok hread hbefore hhandled, Option.some.injEq] at hu
      rw [decide_eq_false (by rw [announces.length]; omega), ← hu, hflag] at hearly
      cases hearly
    have htake : channels.take (k + 1) = channels.take k ++ [(name, g)] := by
      rw [List.take_add_one, hget]
      rfl
    have hnamed : ∀ entry ∈ channels.take (k + 1), entry.1 ≠ "" := by
      rw [htake]
      intro entry he
      rcases List.mem_append.mp he with he | he
      · exact hnamed entry he
      · rwa [List.mem_singleton.mp he]
    obtain ⟨t', hbefore', ht', hcapacity'⟩ := hm.hears announces shared hk hnamed hroom
    refine ⟨hnamed, ?_⟩
    rw [← hcapacity']
    exact h.room announces few hk hbefore' ht' (by rw [hcapacity']; exact hroom)

/-- The stream is read as it was meant exactly when every channel has a name and every packet can
be acknowledged. -/
theorem unambiguous_iff (announces : Announces channels reads) (shared : Shared p channels)
    (hm : Listening channels 0 m) (room : channels.length + 1 ≤ m.resender.capacity) :
    Unambiguous p channels reads m ↔ (∀ entry ∈ channels, entry.1 ≠ "") ∧
      channels.length + 1 + (ackLoad (channels.length + 1)).2 ≤ m.resender.capacity := by
  have few := shared.few
  have hlength := announces.length
  constructor
  · intro h
    have hnamed := h.named announces shared hm (Nat.le_refl _) room
    rwa [List.take_length] at hnamed
  · rintro ⟨named, hroom⟩
    have hears {k : Nat} (hk : k ≤ channels.length) : ∃ t, hear p reads k m = some t ∧
        Listening channels k t ∧ t.resender.capacity = m.resender.capacity := by
      have hmono : (ackLoad k).2 ≤ (ackLoad (channels.length + 1)).2 := ack_load_mono (by omega)
      exact hm.hears announces shared hk (fun entry he => named entry (List.mem_of_mem_take he))
        (by omega)
    obtain ⟨t, hbefore, ht, hcapacity⟩ := hears (Nat.le_refl channels.length)
    constructor
    · intro k hk
      rcases Nat.lt_or_ge k (channels.length + 1) with hlt | hge
      · obtain ⟨u, hu, hlistening, _⟩ := hears (Nat.le_of_lt_succ hlt)
        obtain ⟨key, hstage⟩ := hlistening.stage
        rw [decide_eq_false (by omega)]
        exact ⟨u, some key, hu, hstage⟩
      · obtain rfl : k = channels.length + 1 := by omega
        obtain ⟨now, payload, hread, hpayload⟩ := announces.get (Nat.le_refl _)
        rw [announcement_last, Option.some.injEq] at hpayload
        subst hpayload
        have hunnamed := decode_name "" (by decide +kernel) []
        rw [List.append_nil] at hunnamed
        obtain ⟨t', lastKey, hhandled, hflag⟩ := ht.finish (p := p) now few (Nat.le_refl _)
          hunnamed (by rw [hcapacity]; exact hroom)
        rw [decide_eq_true hlength.symm]
        exact ⟨t', lastKey, hear_ok hread hbefore hhandled, hflag⟩
    · rw [hlength, Nat.add_sub_cancel]
      refine ⟨t, hbefore, ?_⟩
      have hentered := ht.entered
      rw [List.take_length] at hentered
      exact entered_ids hentered (by omega)

end

section
variable {p : ChannelProvider} {channels : List (String × U32)} {now capacity : Nat}
  {mapper : ConnectionIdMapperInner}

theorem opening_datagrams (k : Nat) : (opening channels now capacity k mapper).datagrams =
    ((announcements channels).take k).mapIdx registrationDatagram := by
  have hsent (i : Nat) (payload : Bytes) :
      (registrationEvents i payload).filterMap Event.datagram? = [registrationDatagram i payload] := rfl
  rw [Endpoint.datagrams, opening, List.filterMap_flatten, List.mapIdx_eq_zipIdx_map,
    List.mapIdx_eq_zipIdx_map, List.map_map]
  simp only [Function.comp_def, hsent]
  rw [← List.flatMap_def, List.map_eq_flatMap]

/-- A connection that was opened has sent its registration packets. -/
theorem opened_datagrams : (opened channels now capacity mapper).datagrams =
    (announcements channels).mapIdx registrationDatagram := by
  have sent : (opened channels now capacity mapper).datagrams =
      (opening channels now capacity (channels.length + 1) mapper).datagrams := rfl
  rw [sent, opening_datagrams, List.take_of_length_le (Nat.le_of_eq announcements_length)]

/-- A connection that was opened waits for the packets of any channels that are as many as its own. -/
theorem opened_listening {others : List (String × U32)} (many : others.length = channels.length)
    {id : U32} (hid : mapper.ackChannelId? = some id) :
    Listening others 0 (opened channels now capacity mapper) := by
  refine ⟨⟨_, rfl⟩, ⟨id, hid⟩, ⟨?_, rfl, rfl, ?_, ?_⟩, ⟨[], Or.inl rfl, rfl⟩, .empty⟩
  · intro key
    exact ⟨fun h => absurd h List.not_mem_nil, fun ⟨i, hi, _⟩ => absurd hi (Nat.not_lt_zero i)⟩
  · show ((((announcements channels).take (channels.length + 1)).mapIdx registrationSlot).length) = _
    rw [List.length_mapIdx, List.take_of_length_le (Nat.le_of_eq announcements_length),
      announcements_length, many]
    rfl
  · show (List.replicate (channels.length + 1) (0 : U32)).length = _
    rw [List.length_replicate, many]
    rfl

end

section
variable {P : DefaultChannelProvider} {all all' : List (String × U32)} {order : all.Perm P.nameToId}
  {order' : all'.Perm P.nameToId}

theorem provided_perm : (sortedChannels (P.asProvider all order)).Perm P.nameToId :=
  (List.perm_insertionSort _ _).trans order

/-- Two sides with one provider share its channels, in whichever order they were announced. -/
theorem provided_shared {capacity : Nat}
    (h : Initializes (P.asProvider all order) capacity) :
    Shared (P.asProvider all' order') (sortedChannels (P.asProvider all order)) := by
  have listed {entry : String × U32} (he : entry ∈ sortedChannels (P.asProvider all order)) :
      entry ∈ P.nameToId := provided_perm.mem_iff.mp he
  refine ⟨h.announceable.names, ?_, fun entry he => ?_, fun entry he => ?_⟩
  · have := h.announceable.ids
    omega
  · exact Table.get_eq_some (t := ⟨P.nameToId, P.names_nodup⟩).mpr (listed he)
  · exact ⟨_, List.getElem?_eq_getElem (P.ids_lt entry (listed he))⟩

/-- Without an id for its acknowledgements, a connection panics at the first registration packet. -/
theorem unanswerable (p : ChannelProvider) (i now : Nat) (payload : Bytes) {m : Endpoint}
    {lastKey : Option SlotMapKey}
    (hst : m.state = .registration false lastKey) (new : m.resendKeyDuplicateChecker.set = [])
    (hid : m.localInner.ackChannelId? = none) :
    (handleMessage p now (registrationDatagram i payload) m).1 = .panic := by
  have hnew : firstKey i ∉ m.resendKeyDuplicateChecker.set := by simp [new]
  have hid' : (m.recording (firstKey i) (registrationDatagram i payload)).localInner.ackChannelId? =
      none := hid
  have hack : acknowledgeIfNeeded (registrationDatagram i payload) (some (firstKey i)) m =
      (.panic, m.recording (firstKey i) (registrationDatagram i payload)) := by
    rw [acknowledge_new hnew, localAckChannelId]
    simp only [Act.bind_apply, Act.get_apply, Act.lift_apply, hid', Outcome.ofOption]
  rw [handle_registration_datagram hst, Act.bind_of_panic hack]

/-- The registration stream is unambiguous exactly when the receiver has an id for its
acknowledgements, every channel has a name, and the receiver's resender has room for the flushes of
its acknowledgements. -/
theorem registration_stream_iff {now now' : Nat} {a b : Endpoint}
    (ha : initializeConnection (P.asProvider all order) (.fresh now) = (.ok (), a))
    (hb : initializeConnection (P.asProvider all' order') (.fresh now') = (.ok (), b))
    {reads : List (Nat × Bytes)} (arrives : reads.map Prod.snd = a.datagrams) :
    Unambiguous (P.asProvider all' order') (sortedChannels (P.asProvider all order)) reads b ↔
      b.localInner.ackChannelId? ≠ none ∧ (∀ entry ∈ P.nameToId, entry.1 ≠ "") ∧
        b.resender.packets.len + (ackLoad a.datagrams.length).2 ≤ b.resender.capacity := by
  obtain ⟨capacity, mapper, initializes, _, rfl⟩ := initialize_opened ha
  obtain ⟨capacity', mapper', initializes', _, rfl⟩ := initialize_opened hb
  have shared : Shared (P.asProvider all' order') (sortedChannels (P.asProvider all order)) :=
    provided_shared initializes
  have many : (sortedChannels (P.asProvider all order)).length =
      (sortedChannels (P.asProvider all' order')).length :=
    (provided_perm.trans provided_perm.symm).length_eq
  have names : (∀ entry ∈ sortedChannels (P.asProvider all order), entry.1 ≠ "") ↔
      ∀ entry ∈ P.nameToId, entry.1 ≠ "" :=
    forall_congr' fun entry => by rw [provided_perm.mem_iff]
  rw [opened_datagrams] at arrives ⊢
  rw [← names, List.length_mapIdx, announcements_length]
  generalize sortedChannels (P.asProvider all order) = channels at *
  have announces : Announces channels reads := arrives
  have room := initializes'.announceable.room
  have last := initializes'.last
  cases hid : mapper'.ackChannelId? with
  | none =>
    have hid' : (opened (sortedChannels (P.asProvider all' order')) now' capacity'
      mapper').localInner.ackChannelId? = none := hid
    refine iff_of_false (fun h => ?_) (fun h => h.1 hid')
    obtain ⟨now, payload, hread, _⟩ := announces.get (Nat.zero_le _)
    obtain ⟨t, _, ht, _⟩ := h.flag 1 (by rw [announces.length]; omega)
    have hpanic := unanswerable (P.asProvider all' order') 0 now payload
      (m := opened (sortedChannels (P.asProvider all' order')) now' capacity'
      mapper') rfl rfl hid'
    rw [hear_succ hread, show hear _ reads 0 _ = some _ from rfl, Option.bind_some,
      eq_of_fst hpanic] at ht
    cases ht
  | some id =>
    have hlistening : Listening channels 0
        (opened (sortedChannels (P.asProvider all' order')) now' capacity' mapper') :=
      opened_listening many hid
    have hlen : (opened (sortedChannels (P.asProvider all' order')) now' capacity'
        mapper').resender.packets.len = channels.length + 1 := by
      rw [many]
      show ((((announcements _).take _).mapIdx registrationSlot).length) - 0 = _
      rw [List.length_mapIdx, List.take_of_length_le (Nat.le_of_eq announcements_length),
        announcements_length, Nat.sub_zero]
    have hid' : (opened (sortedChannels (P.asProvider all' order')) now' capacity'
      mapper').localInner.ackChannelId? = some id := hid
    rw [unambiguous_iff announces shared hlistening, hlen, hid']
    · simp
    · show channels.length + 1 ≤ capacity'
      omega

end

/-- Its registration packets, each with a time. -/
def Endpoint.deliveries (m : Endpoint) : List (Nat × Bytes) := m.datagrams.map fun d => (0, d)

theorem registration_stream_builtin :
    Unambiguous builtinProvider (sortedChannels builtinProvider) announced.deliveries announced := by
  have hopened : initializeConnection builtinProvider (.fresh 0) = (.ok (), announced) :=
    eq_of_fst (by decide +kernel)
  have arrives : announced.deliveries.map Prod.snd = announced.datagrams := by
    rw [Endpoint.deliveries, List.map_map]
    exact List.map_id _
  exact (registration_stream_iff (P := DefaultChannelProvider.new) hopened hopened arrives).mpr
    (by decide +kernel)

/-- A channel with no name, between the two that are built in. -/
def unnamedProvider : ChannelProvider :=
  (DefaultChannelProvider.new.add "" ⟨none, none, 1⟩ DefaultChannelProvider.new_fits).asProvider
    _ (.refl _)

def unnamedAnnounced : Endpoint := (initializeConnection unnamedProvider (.fresh 0)).2

/-- The packet of a channel with no name is taken for the last one. -/
theorem unnamed_channel_ends_registration :
    initializeConnection unnamedProvider (.fresh 0) = (.ok (), unnamedAnnounced) ∧
      (hear unnamedProvider unnamedAnnounced.deliveries 2 unnamedAnnounced).map (fun m => m.state) =
        some (.registration true (some (firstKey 3))) ∧
      ¬ Unambiguous unnamedProvider (sortedChannels unnamedProvider) unnamedAnnounced.deliveries
        unnamedAnnounced := by
  have hearly : (hear unnamedProvider unnamedAnnounced.deliveries 2 unnamedAnnounced).map
      (fun m => m.state) = some (.registration true (some (firstKey 3))) := by decide +kernel
  have hlength : unnamedAnnounced.deliveries.length = 4 := by decide +kernel
  refine ⟨eq_of_fst (by decide +kernel), hearly, fun h => ?_⟩
  obtain ⟨m, lastKey, hm, hflag⟩ := h.flag 2 (by omega)
  rw [hm, Option.map_some, hflag, hlength] at hearly
  cases hearly

end Theta
