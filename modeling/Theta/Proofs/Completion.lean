import Theta.Proofs.Agreement
import Theta.Proofs.Emissions
import Theta.Proofs.Framing
import Theta.Proofs.Maintenance
import Theta.Proofs.Outstanding
import Theta.Proofs.Soundness
import Theta.Proofs.StrayKeys

namespace Theta
open Lib Relation

/-- A packet that has not been clocked yet, with all its attempts. -/
def ReliableBufferedPacket.Rested (packet : ReliableBufferedPacket) : Prop :=
  packet.currentTime = 0 ∧ packet.resendAttempts = -1

/-- A registering connection that has acknowledged the first `k` packets of its peer and has had
none of its own `n + 1` ones acknowledged. -/
structure Attending (n k : Nat) (m : Endpoint) : Prop where
  waits : ∃ received, m.state = .registration received (some (firstKey n))
  answers : ∃ id, m.localInner.ackChannelId? = some id
  answering : Answering (n + 1) k m
  rested : ∀ x ∈ m.resender.packets.values, ∃ packet, x = some packet ∧ packet.Rested
  unused : ∀ g ∈ m.resender.packets.generations, g = 0
  keys : ∃ keys : List SlotMapKey, m.acknowledgeBuffer = keys.flatMap SlotMapKey.encode ∧
    (∀ key ∈ keys, ∃ i < k, key = firstKey i) ∧ ∀ j, k = j + 1 → firstKey j ∈ keys

/-- The datagram of the acknowledgements that a connection has in its buffer. -/
def Endpoint.answer (m : Endpoint) : Bytes :=
  Packet.bytes { m.ackPacket with resendKey := some (firstKey m.resender.packets.values.length) }

/-- A connection after a flush, when its resender has released nothing. -/
def Endpoint.answered (m : Endpoint) : Endpoint :=
  { m with
    resender := { m.resender with packets := {
      values := m.resender.packets.values ++ [some (ReliableBufferedPacket.new m.answer 750 (-1))]
      generations := m.resender.packets.generations ++ [0]
      freeSlots := [] } }
    acknowledgeBuffer := []
    log := m.log ++ [.issued (firstKey m.resender.packets.values.length) m.answer, .sent m.answer] }

/-- A connection after a new key was acknowledged, when its resender has released nothing. -/
def Endpoint.noted (m : Endpoint) (key : SlotMapKey) (d : Bytes) : Endpoint :=
  if (m.acknowledgeBuffer ++ key.encode).length > maxNonSegmentedPayloadLen then
    { (m.recording key d).answered with acknowledgeBuffer := key.encode }
  else { m.recording key d with acknowledgeBuffer := m.acknowledgeBuffer ++ key.encode }

section
variable {p : ChannelProvider} {n k : Nat} {m : Endpoint}

theorem flush_answers {id : U32} (hid : m.localInner.ackChannelId = id)
    (small : m.state = .transfer → id.toNat < 2 ^ 31) (hc : m.Compact)
    (free : m.resender.packets.freeSlots = [])
    (slots : m.resender.packets.generations.length = m.resender.packets.values.length)
    (few : m.resender.packets.values.length < 2 ^ 32)
    (room : m.resender.packets.values.length ≠ m.resender.capacity) :
    ConnectionAcknowledgeBuffer.flush id m = (.ok (), m.answered) := by
  rw [flush_eq hid small hc, PacketResender.add_unreleased free slots, if_neg room]
  simp only [SlotMap.get_last slots few]
  rfl

theorem ReliableBufferedPacket.Rested.stays {packet : ReliableBufferedPacket} {delta : U32}
    (h : packet.Rested) : packet.inTime delta = true ∧
      PacketResender.expires packet delta = false := by
  obtain ⟨time, attempts⟩ := h
  have hlt := delta.isLt
  simp [ReliableBufferedPacket.inTime, PacketResender.expires, time, attempts]
  omega

/-- A tick clocks rested packets and drops none of them. -/
theorem Attending.update (h : Attending n k m) (delta : U32) :
    m.resender.inTime delta = true ∧ (m.resender.ticked delta).packets.freeSlots = [] ∧
      (m.resender.ticked delta).packets.values.length = m.resender.packets.values.length := by
  have stays (x : Option ReliableBufferedPacket) (hx : x ∈ m.resender.packets.values) :
      x.all (fun packet => packet.inTime delta) = true ∧
        x.any (fun packet => PacketResender.expires packet delta) = false := by
    obtain ⟨packet, rfl, rested⟩ := h.rested x hx
    exact rested.stays
  have none : m.resender.expired delta = [] := by
    rw [PacketResender.expired, PacketResender.expiredFrom, List.findIdxs_eq_nil_iff]
    exact fun x hx => (stays x hx).2
  refine ⟨List.all_eq_true.mpr fun x hx => (stays x hx).1, ?_, ?_⟩
  · simp [PacketResender.ticked, none, h.answering.free]
  · simp [PacketResender.ticked]

/-- A new key is acknowledged when its buffer, or else the resender, has room. -/
theorem Attending.acknowledge (h : Attending n k m) (few : n ≤ 2 ^ 31 + 1) (below : k ≤ n + 1)
    {key : SlotMapKey} (new : key ∉ m.resendKeyDuplicateChecker.set)
    (room : (ackLoad k).1 + key.encode.length > maxNonSegmentedPayloadLen →
      n + 1 + (ackLoad k).2 < m.resender.capacity) (d : Bytes) :
    acknowledgeIfNeeded d (some key) m = (.ok (), m.noted key d) := by
  obtain ⟨received, hst⟩ := h.waits
  obtain ⟨id, hid⟩ := h.answers
  have hid' : (m.recording key d).localInner.ackChannelId? = some id := hid
  have hbound := (ack_load_bound k).2
  have hvalues := h.answering.values
  rw [acknowledge_new new]
  simp only [localAckChannelId, Act.bind_apply, Act.get_apply, Act.lift_apply, hid',
    Outcome.ofOption, ConnectionAcknowledgeBuffer.acknowledge, Endpoint.noted]
  by_cases full : (m.acknowledgeBuffer ++ key.encode).length > maxNonSegmentedPayloadLen
  · have vacant : n + 1 + (ackLoad k).2 < m.resender.capacity := by
      rw [List.length_append, h.answering.buffer] at full
      exact room full
    have flush : ConnectionAcknowledgeBuffer.flush id (m.recording key d) =
        (.ok (), (m.recording key d).answered) := by
      have vacant : m.resender.packets.values.length ≠ m.resender.capacity := by omega
      have few : m.resender.packets.values.length < 2 ^ 32 := by omega
      refine flush_answers (ack_channel_id hid) (fun ht => ?_) h.answering.compact h.answering.free
        (h.answering.generations.trans hvalues.symm) few vacant
      exact absurd (hst.symm.trans ht) (by simp)
    rw [if_pos full]
    refine (congrFun (if_pos full) (m.recording key d)).trans ?_
    rw [Act.bind_of_ok flush]
    rfl
  · rw [if_neg full]
    exact congrFun (if_neg full) (m.recording key d)

/-- What the registration is about stays when a key is acknowledged. -/
theorem Attending.noted_same (h : Attending n k m) (key : SlotMapKey) (d : Bytes) :
    (m.noted key d).state = m.state ∧ (m.noted key d).localInner = m.localInner ∧
      (m.noted key d).resender.capacity = m.resender.capacity ∧
      m.resender.packets.generations <+: (m.noted key d).resender.packets.generations ∧
      (∀ x ∈ (m.noted key d).resender.packets.values, ∃ packet, x = some packet ∧ packet.Rested) ∧
      ∀ g ∈ (m.noted key d).resender.packets.generations, g = 0 := by
  unfold Endpoint.noted
  split
  · refine ⟨rfl, rfl, rfl, List.prefix_append _ _, fun x hx => ?_, fun g hg => ?_⟩
    · rcases List.mem_append.mp hx with hx | hx
      · exact h.rested x hx
      · exact ⟨_, List.mem_singleton.mp hx, rfl, rfl⟩
    · rcases List.mem_append.mp hg with hg | hg
      · exact h.unused g hg
      · exact List.mem_singleton.mp hg
  · exact ⟨rfl, rfl, rfl, List.prefix_refl _, h.rested, h.unused⟩

/-- The keys of the peer's packets are acknowledged one after the other. -/
theorem Attending.next (h : Attending n k m) (few : n ≤ 2 ^ 31 + 1) (below : k ≤ n)
    (room : n + 1 + (ackLoad (k + 1)).2 ≤ m.resender.capacity) (d : Bytes) :
    acknowledgeIfNeeded d (some (firstKey k)) m = (.ok (), m.noted (firstKey k) d) ∧
      Attending n (k + 1) (m.noted (firstKey k) d) := by
  obtain ⟨received, hst⟩ := h.waits
  obtain ⟨id, hid⟩ := h.answers
  obtain ⟨keys, hbuffer, known, _⟩ := h.keys
  have hbound := (ack_load_bound k).2
  have hmono : (ackLoad k).2 ≤ (ackLoad (k + 1)).2 := ack_load_mono (Nat.le_succ k)
  have hnew : firstKey k ∉ m.resendKeyDuplicateChecker.set := by
    intro hmem
    obtain ⟨i, hi, he⟩ := (h.answering.known _).mp hmem
    have := first_key_inj (by omega) (by omega) he
    omega
  have hrun := h.acknowledge few (by omega) hnew (fun full => by
    rw [ack_load_succ, if_pos full] at room
    dsimp only at room
    omega) d
  obtain ⟨_, hanswering, _⟩ := (h.answering.next (by simp [hst]) hid (by omega) (by omega)
    (by omega) d).1 room
  rw [hrun] at hanswering
  obtain ⟨state, inner, _, _, rested, unused⟩ := h.noted_same (firstKey k) d
  refine ⟨hrun, ⟨received, state.trans hst⟩, ⟨id, by rw [inner, hid]⟩, hanswering, rested, unused, ?_⟩
  unfold Endpoint.noted
  split
  · refine ⟨[firstKey k], (List.append_nil _).symm, fun key hkey => ?_, fun j hj => ?_⟩
    · exact ⟨k, Nat.lt_succ_self k, List.mem_singleton.mp hkey⟩
    · cases hj
      exact List.mem_singleton_self _
  · refine ⟨keys ++ [firstKey k], ?_, fun key hkey => ?_, fun j hj => ?_⟩
    · show m.acknowledgeBuffer ++ (firstKey k).encode = _
      rw [hbuffer, List.flatMap_append, List.flatMap_singleton]
    · rcases List.mem_append.mp hkey with hkey | hkey
      · obtain ⟨i, hi, he⟩ := known key hkey
        exact ⟨i, by omega, he⟩
      · exact ⟨k, Nat.lt_succ_self k, List.mem_singleton.mp hkey⟩
    · cases hj
      exact List.mem_append_right _ (List.mem_singleton_self _)

/-- A registration packet that is handled leaves the acknowledgements to be sent. -/
theorem Attending.read (h : Attending n k m) (few : n ≤ 2 ^ 31 + 1) (below : k ≤ n)
    (room : n + 1 + (ackLoad (k + 1)).2 ≤ m.resender.capacity) (now : Nat) (payload : Bytes) :
    (handleMessage p now (registrationDatagram k payload) m).2.resender.capacity =
        m.resender.capacity ∧
      (handleMessage p now (registrationDatagram k payload) m).2.localInner = m.localInner ∧
      Attending n (k + 1) (handleMessage p now (registrationDatagram k payload) m).2 := by
  obtain ⟨hrun, attending⟩ := h.next few below room (registrationDatagram k payload)
  obtain ⟨_, inner, hcapacity, _⟩ := h.noted_same (firstKey k) (registrationDatagram k payload)
  obtain ⟨_, hst⟩ := h.waits
  rw [handle_registration_datagram hst, Act.bind_of_ok hrun]
  generalize m.noted (firstKey k) (registrationDatagram k payload) = t at inner hcapacity attending
  obtain ⟨_, time, hend⟩ := touch_ends (deliver p channelManagementChannelIdRegistrationStage
    registrationChannel (some (BitVec.ofNat 32 k)) payload) t now
  rw [hend]
  obtain ⟨⟨received, stage⟩, ⟨id, hid⟩, answering, rested, unused, keys⟩ := attending
  have steady := (deliver_follows steady_tolerant p channelManagementChannelIdRegistrationStage
    registrationChannel (some (BitVec.ofNat 32 k)) payload).holds t
  have outcome : GoesOn _ (BitVec.ofNat 32 k) payload t _ :=
    deliver_registering (p := p) (g := channelManagementChannelIdRegistrationStage) stage
  rcases outcome with ⟨waits, same⟩ | ⟨_, none, _⟩
  · generalize (deliver p channelManagementChannelIdRegistrationStage registrationChannel
      (some (BitVec.ofNat 32 k)) payload t).2 = u at steady waits same
    obtain ⟨_, hu⟩ := waits
    rcases steady.kept with ⟨buffer, checker, _⟩ | ⟨_, switched, _⟩
    · refine ⟨(congrArg _ same).trans hcapacity, steady.localInner.trans inner, ⟨_, hu⟩, ⟨id, ?_⟩,
        ⟨?_, ?_, ?_, ?_, ?_⟩, ?_, ?_, ?_⟩
      · rw [← hid, ← steady.localInner]
      · rw [checker]
        exact answering.known
      · rw [buffer]
        exact answering.buffer
      · rw [same]
        exact answering.free
      · rw [same]
        exact answering.values
      · rw [same]
        exact answering.generations
      · rw [same]
        exact rested
      · rw [same]
        exact unused
      · rw [buffer]
        exact keys
    · exact absurd (hu.symm.trans switched) (by simp)
  · cases none

end

section
variable {p : ChannelProvider} {channels : List (String × U32)} {reads : List (Nat × Bytes)}
  {n k : Nat} {m : Endpoint}

/-- A connection hears the channels of its peer one after the other. -/
theorem Attending.hears (announces : Announces channels reads) (shared : Shared p channels)
    (named : ∀ entry ∈ channels, entry.1 ≠ "") (listening : Listening channels 0 m)
    (h : Attending channels.length 0 m) (hk : k ≤ channels.length)
    (room : channels.length + 1 + (ackLoad k).2 ≤ m.resender.capacity) :
    ∃ t, hear p reads k m = some t ∧ t.resender.capacity = m.resender.capacity ∧
      t.localInner = m.localInner ∧ Listening channels k t ∧ Attending channels.length k t := by
  have few := shared.few
  induction k with
  | zero => exact ⟨m, rfl, rfl, rfl, listening, h⟩
  | succ k ih =>
    have hmono : (ackLoad k).2 ≤ (ackLoad (k + 1)).2 := ack_load_mono (Nat.le_succ k)
    obtain ⟨t, hbefore, hcapacity, hinner, hlistening, hattending⟩ := ih (by omega) (by omega)
    obtain ⟨now, payload, hread, hpayload⟩ := announces.get (k := k) (by omega)
    obtain ⟨⟨name, g⟩, hget⟩ : ∃ entry, channels[k]? = some entry :=
      ⟨_, List.getElem?_eq_getElem hk⟩
    obtain ⟨t', hhandled, hnext, hcapacity'⟩ := hlistening.next now shared hget hpayload
      (named _ (List.mem_of_getElem? hget)) (by rw [hcapacity]; exact room)
    obtain ⟨_, hinner', hattends⟩ := hattending.read (p := p) few (by omega)
      (by rw [hcapacity]; exact room) now payload
    rw [hhandled] at hinner' hattends
    exact ⟨t', hear_ok hread hbefore hhandled, hcapacity'.trans hcapacity, hinner'.trans hinner,
      hnext, hattends⟩

/-- The last registration packet of the peer completes its registration. -/
theorem Attending.complete (announces : Announces channels reads) (shared : Shared p channels)
    (named : ∀ entry ∈ channels, entry.1 ≠ "") (listening : Listening channels 0 m)
    (h : Attending channels.length 0 m)
    (room : channels.length + 1 + (ackLoad (channels.length + 1)).2 ≤ m.resender.capacity) :
    ∃ t, performAll p (reads.map fun r => .read r.1 r.2) m = some t ∧
      t.resender.capacity = m.resender.capacity ∧ t.localInner = m.localInner ∧
      Entered channels t.notLocalInner ∧
      t.state = .registration true (some (firstKey channels.length)) ∧
      Attending channels.length (channels.length + 1) t := by
  have few := shared.few
  have hmono : (ackLoad channels.length).2 ≤ (ackLoad (channels.length + 1)).2 :=
    ack_load_mono (Nat.le_succ _)
  obtain ⟨t, hbefore, hcapacity, hinner, hlistening, hattending⟩ :=
    h.hears announces shared named listening (Nat.le_refl _) (by omega)
  obtain ⟨now, payload, hread, hpayload⟩ := announces.get (Nat.le_refl _)
  rw [announcement_last, Option.some.injEq] at hpayload
  subst hpayload
  have room : channels.length + 1 + (ackLoad (channels.length + 1)).2 ≤ t.resender.capacity := by
    rw [hcapacity]
    exact room
  have hunnamed := decode_name "" (by decide +kernel) []
  rw [List.append_nil] at hunnamed
  obtain ⟨m1, hsame, _, _, _, handled⟩ := hlistening.handled p now (nameBytes "") few
    (Nat.le_refl _) room
  obtain ⟨key, hst⟩ := hlistening.stage
  have hend : handleRegistration p (nameBytes "") (m1.manage none) = (.ok (), { (m1.manage none).handed
      (nameBytes "") with state := .registration true (some key) }) :=
    handle_unnamed (m := m1.manage none) (hsame.state.trans hst) hunnamed
  have hhandled := handled _ hend
  obtain ⟨hcapacity', hinner', hattends⟩ := hattending.read (p := p) few (Nat.le_refl _) room now
    (nameBytes "")
  have hlength := announces.length
  have hhear := hear_ok hread hbefore hhandled
  rw [hear, List.take_of_length_le (by omega)] at hhear
  rw [hhandled] at hcapacity' hinner' hattends
  refine ⟨_, hhear, hcapacity'.trans hcapacity, hinner'.trans hinner, ?_, ?_, hattends⟩
  · have hentered := hlistening.entered
    rw [List.take_length, ← hsame.notLocalInner] at hentered
    exact hentered
  · obtain ⟨_, hwaits⟩ := hattends.waits
    cases hwaits
    rfl

end

section
variable {p : ChannelProvider} {n k : Nat} {m : Endpoint} {received : Bool}
  {lastKey : Option SlotMapKey}

theorem release_key_awaited (key : SlotMapKey) (hst : m.state = .registration received lastKey) :
    (releaseKey key m).2.state = .registration received (lastKey.filter (· ≠ key)) := by
  have noticed : (m.noticing key).state = .registration received (lastKey.filter (· ≠ key)) := by
    rw [Endpoint.noticing, hst]
    cases lastKey with
    | none => exact hst
    | some last =>
      by_cases he : last = key
      · simp [he, Option.filter_some]
      · simp [he, hst, Option.filter_some]
  rcases release_key_cases key m with ⟨_, he⟩ | ⟨_, he⟩ | ⟨_, _, _, he⟩ <;> rw [he] <;> exact noticed

theorem release_key_frame (key : SlotMapKey) (m : Endpoint) :
    (releaseKey key m).2.localInner = m.localInner ∧
      (releaseKey key m).2.resender.capacity = m.resender.capacity := by
  have same := noticing_resender m key
  have inner : (m.noticing key).localInner = m.localInner := by
    rcases noticing_cases m key with he | ⟨_, _, he⟩ <;> rw [he]
  rcases release_key_cases key m with ⟨_, he⟩ | ⟨_, he⟩ | ⟨_, resender, remove, he⟩
  · rw [he, same]
    exact ⟨inner, rfl⟩
  · rw [he, same]
    exact ⟨inner, rfl⟩
  · rw [he]
    exact ⟨inner, (PacketResender.remove_ok remove).1⟩

/-- Acknowledgements of packets that were issued are all handled, and the last key is waited for no
more when it is among them. -/
theorem acknowledge_issued {keys : List SlotMapKey} {fuel : Nat}
    (enough : (keys.flatMap SlotMapKey.encode).length ≤ fuel)
    (hst : m.state = .registration received lastKey)
    (issued : ∀ key ∈ keys, key.index.toNat < m.resender.packets.generations.length) :
    ∃ t, acknowledgeLocally fuel (keys.flatMap SlotMapKey.encode) m = (.ok (), t) ∧
      t.state = .registration received (lastKey.filter (· ∉ keys)) ∧
      t.localInner = m.localInner ∧ t.resender.capacity = m.resender.capacity ∧
      t.resender.packets.generations = m.resender.packets.generations := by
  induction keys generalizing fuel m lastKey with
  | nil =>
    have same : lastKey.filter (· ∉ ([] : List SlotMapKey)) = lastKey := by
      cases lastKey <;> simp
    rw [same]
    cases fuel with
    | zero => exact ⟨m, rfl, hst, rfl, rfl, rfl⟩
    | succ fuel => exact ⟨m, rfl, hst, rfl, rfl, rfl⟩
  | cons key rest ih =>
    have hpos : 0 < key.encode.length := List.length_pos_iff.mpr key.encode_ne_nil
    rw [List.flatMap_cons, List.length_append] at enough
    obtain ⟨within, others⟩ := List.forall_mem_cons.mp issued
    obtain ⟨safe, same⟩ := release_key_safe_iff key m
    obtain ⟨inner, capacity⟩ := release_key_frame key m
    have hok : (releaseKey key m).1 = .ok () := by
      cases hr : (releaseKey key m).1 with
      | ok u => rfl
      | err e => exact absurd hr (release_key_ne_err key m e)
      | panic => exact absurd hr (safe.mpr within)
    cases fuel with
    | zero => omega
    | succ fuel =>
      rw [List.flatMap_cons, acknowledgeLocally, SlotMapKey.decode_encode]
      dsimp only
      rw [Act.bind_of_ok (eq_of_fst hok)]
      obtain ⟨t, run, state, inner', capacity', same'⟩ := ih
        (show (rest.flatMap SlotMapKey.encode).length ≤ fuel by omega) (release_key_awaited key hst)
        (by rw [same]; exact others)
      refine ⟨t, run, state.trans ?_, inner'.trans inner, capacity'.trans capacity, same'.trans same⟩
      rw [Option.filter_filter]
      congr 2
      funext last
      simp [not_or]

/-- A tick that has to do with rested packets sends the acknowledgements. -/
theorem Attending.tick (h : Attending n k m) (few : n ≤ 2 ^ 31 + 1) (below : k ≤ n + 1)
    (room : n + 1 + (ackLoad k).2 < m.resender.capacity) (delta : U32) :
    ∃ (t : Endpoint) (keys : List SlotMapKey) (key : SlotMapKey),
      updateConnection delta m = (.ok (), t) ∧ t.state = m.state ∧
      t.localInner = m.localInner ∧ t.notLocalInner = m.notLocalInner ∧
      .sent (Packet.bytes ⟨ackChannelIdRegistrationStage, none, none, some key,
        keys.flatMap SlotMapKey.encode⟩) ∈ t.log ∧
      key = firstKey (n + 1 + (ackLoad k).2) ∧ (∀ key ∈ keys, ∃ i < k, key = firstKey i) ∧
      ∀ j, k = j + 1 → firstKey j ∈ keys := by
  obtain ⟨received, hst⟩ := h.waits
  obtain ⟨id, hid⟩ := h.answers
  obtain ⟨keys, hbuffer, known, last⟩ := h.keys
  obtain ⟨time, free, values⟩ := h.update delta
  have hbound := (ack_load_bound k).2
  have hvalues := h.answering.values
  have update := update_sends delta m
  rw [if_pos time] at update
  generalize (m.resender.emissions delta).map (fun e => Event.sent e.2.payload) = events at update
  generalize ht : ({ m with
    resender := m.resender.ticked delta
    log := m.log ++ events } : Endpoint) = t
  have flush : ConnectionAcknowledgeBuffer.flush id t = (.ok (), t.answered) := by
    subst ht
    refine flush_answers (ack_channel_id hid) (fun ht => ?_) h.answering.compact free ?_ ?_ ?_
    · exact absurd (hst.symm.trans ht) (by simp)
    · exact h.answering.generations.trans (hvalues.symm.trans values.symm)
    · show (m.resender.ticked delta).packets.values.length < 2 ^ 32
      omega
    · show (m.resender.ticked delta).packets.values.length ≠ m.resender.capacity
      omega
  refine ⟨t.answered, keys, firstKey t.resender.packets.values.length, ?_, ?_, ?_, ?_, ?_, ?_, known,
    last⟩
  · rw [updateConnection, Act.bind_of_ok (Act.get_apply m), Act.bind_of_ok update, Act.bind_apply]
    dsimp only [Act.modify_apply]
    rw [ht]
    refine (Act.bind_of_ok (a := id) (t := t) ?_).trans flush
    subst ht
    simp only [localAckChannelId, Act.bind_apply, Act.get_apply, Act.lift_apply, hid,
      Outcome.ofOption]
  · subst ht
    rfl
  · subst ht
    rfl
  · subst ht
    rfl
  · have packet : t.ackPacket = ⟨ackChannelIdRegistrationStage, none, none, none,
        keys.flatMap SlotMapKey.encode⟩ := by
      subst ht
      simp only [Endpoint.ackPacket, hst, hbuffer]
    simp [Endpoint.answered, Endpoint.answer, packet]
  · subst ht
    rw [values, hvalues]

/-- The acknowledgement of its last packet ends the registration of a connection that has heard
everything. -/
theorem Attending.conclude (h : Attending n k m) (few : n ≤ 2 ^ 31 + 1) (below : k ≤ n + 1)
    (room : n + 1 + (ackLoad k).2 < m.resender.capacity) (hst : m.state = .registration true lastKey)
    {key : SlotMapKey} (new : key ∉ m.resendKeyDuplicateChecker.set) {keys : List SlotMapKey}
    (issued : ∀ key ∈ keys, ∃ i < n + 1, key = firstKey i) (last : firstKey n ∈ keys) (now : Nat) :
    ∃ u : Endpoint, handleMessage p now (Packet.bytes ⟨ackChannelIdRegistrationStage, none, none,
        some key, keys.flatMap SlotMapKey.encode⟩) m =
          (.ok (), { u.switched with lastTimeReceivedPacket := now }) ∧
      u.localInner = m.localInner ∧ u.resender.capacity = m.resender.capacity ∧
      m.resender.packets.generations <+: u.resender.packets.generations ∧
      ∀ g ∈ u.resender.packets.generations, g = 0 := by
  obtain ⟨received, hwaits⟩ := h.waits
  cases hst.symm.trans hwaits
  generalize hd : Packet.bytes ⟨ackChannelIdRegistrationStage, none, none, some key,
    keys.flatMap SlotMapKey.encode⟩ = d
  have hread : readPacket p d m = (.ok ⟨ackChannelIdRegistrationStage,
      ⟨ackChannelIdRegistrationStage, ackChannel⟩,
      ⟨none, none, some key, keys.flatMap SlotMapKey.encode⟩⟩, m) := by
    rw [← hd]
    have small : ackChannelIdRegistrationStage.toNat < 2 ^ 31 := by decide
    refine read_packet_bytes small ?_ ⟨small, by simp, rfl, rfl⟩
    rw [hst]
    rfl
  have hack := h.acknowledge few below new (fun _ => room) d
  obtain ⟨state, inner, capacity, grows, _, unused⟩ := h.noted_same key d
  generalize m.noted key d = t at hack state inner capacity grows unused
  have hlength := h.answering.generations
  obtain ⟨u, hrun, stage, inner', capacity', same⟩ := acknowledge_issued
    (m := { t with log := t.log ++ [.consumed (keys.flatMap SlotMapKey.encode)] })
    (Nat.le_refl _) (state.trans hst) (fun k hk => by
      obtain ⟨i, hi, rfl⟩ := issued k hk
      have hle := grows.length_le
      have hindex : (firstKey i).index.toNat = i := SlotMap.index_of_fits (by omega)
      show (firstKey i).index.toNat < t.resender.packets.generations.length
      omega)
  have complete : u.state = .registration true none := by
    rw [stage]
    simp [Option.filter_some, last]
  refine ⟨u, ?_, inner'.trans inner, capacity'.trans capacity, ?_, ?_⟩
  · have convert : convertToTransfer u = (.ok (), u.switched) := by
      rcases convert_to_transfer_cases u with ⟨_, hc⟩ | ⟨hne, _⟩
      · exact hc
      · exact absurd complete hne
    have handled : handlePacket p ackChannelIdRegistrationStage
        ⟨ackChannelIdRegistrationStage, ackChannel⟩ (keys.flatMap SlotMapKey.encode) t =
          (.ok (), u.switched) := by
      simp only [handlePacket, emit, Act.bind_apply, Act.get_apply, state.trans hst, ↓reduceIte,
        Act.modify_apply, hrun, convert]
    rw [handleMessage, Act.bind_of_ok hread, Act.bind_of_ok hack]
    simp only [receive, deliver, Act.bind_apply, Act.pure_apply, handled, Act.modify_apply]
  · rw [same]
    exact grows
  · rw [same]
    exact unused

/-- A resender that was cleared uses its first slot again. -/
theorem PacketResender.add_cleared {r : PacketResender} (values : r.packets.values = [])
    (free : r.packets.freeSlots = []) (used : r.packets.generations[0]? = some 0)
    (room : r.capacity ≠ 0) (func : SlotMapKey → ReliableBufferedPacket) :
    ∃ r', r.add func = .ok (⟨0, 1⟩, r') ∧ r'.packets.get ⟨0, 1⟩ = some (func ⟨0, 1⟩) := by
  obtain ⟨⟨_, generations, _⟩, capacity⟩ := r
  dsimp only at values free used room
  subst values free
  have hlt := (List.getElem?_eq_some_iff.mp used).1
  have next : SlotMap.nextGeneration (ε := PacketResenderError) 0 = .ok 1 := rfl
  have hnot : ¬ generations.length ≤ 0 := by omega
  refine ⟨⟨⟨[some (func ⟨0, 1⟩)], generations.set 0 1, []⟩, capacity⟩, ?_, ?_⟩
  · simp only [PacketResender.add, SlotMap.len, SlotMap.add, List.length_nil, hnot, ↓reduceIte,
      used, Outcome.ofOption, Outcome.ok_bind, next]
    rw [if_neg (by omega)]
    rfl
  · rw [SlotMap.get_eq_some]
    exact ⟨rfl, List.getElem?_set_self hlt⟩

/-- The first tick after the registration sends an acknowledgement of nothing. -/
theorem switched_tick {id : U32} (hid : m.localInner.ackChannelId? = some id)
    (small : id.toNat < 2 ^ 31) (used : m.resender.packets.generations[0]? = some 0)
    (room : m.resender.capacity ≠ 0) (delta : U32) :
    ∃ t, updateConnection delta m.switched = (.ok (), t) ∧ t.state = .transfer ∧
      .sent (Packet.bytes ⟨id, none, none, some ⟨0, 1⟩, []⟩) ∈ t.log := by
  have update : m.switched.resender.update delta (fun packet => sendDatagram packet.payload)
      m.switched = (.ok m.switched.resender, m.switched) := rfl
  have hid' : m.switched.localInner.ackChannelId? = some id := hid
  have packet : m.switched.ackPacket = ⟨id, none, none, none, []⟩ := by
    rw [← ack_channel_id hid]
    rfl
  have flush := flush_eq (m := m.switched) (ack_channel_id hid) (fun _ => small) (Nat.zero_le _)
  obtain ⟨resender, hadd, hget⟩ := PacketResender.add_cleared (r := m.switched.resender) rfl rfl
    used room (fun key => ReliableBufferedPacket.new
      (Packet.bytes { m.switched.ackPacket with resendKey := some key }) 750 (-1))
  rw [hadd] at flush
  dsimp only at flush
  rw [hget] at flush
  have run : updateConnection delta m.switched =
      ConnectionAcknowledgeBuffer.flush id m.switched := by
    rw [updateConnection, Act.bind_of_ok (Act.get_apply _), Act.bind_of_ok update, Act.bind_apply]
    dsimp only [Act.modify_apply]
    refine Act.bind_of_ok (a := id) (t := m.switched) ?_
    simp only [localAckChannelId, Act.bind_apply, Act.get_apply, Act.lift_apply, hid',
      Outcome.ofOption]
  refine ⟨_, run.trans flush, ?_, ?_⟩
  · rfl
  · simp [packet, ReliableBufferedPacket.new]

/-- A connection that has heard everything takes an acknowledgement of the transfer stage for the
end of its own registration. -/
theorem speculative_read {id own g : U32} {kind : Channel}
    (hst : m.state = .registration true lastKey) (hid : m.localInner.ackChannelId? = some own)
    (small : id.toNat < 2 ^ 31) (unregistered : ConnectionIdMapperInner.registrationId id = none)
    (resolve : resolveChannel p .transfer m.notLocalInner id = .ok (g, ⟨id, kind⟩))
    (fields : kind.fields = ackChannel.fields) (acks : m.notLocalInner.ackChannelId? = some id)
    (now : Nat) (key : SlotMapKey) :
    (handleMessage p now (Packet.bytes ⟨id, none, none, some key, []⟩) m).1 = .ok () ∧
      (handleMessage p now (Packet.bytes ⟨id, none, none, some key, []⟩) m).2.state =
        .transfer := by
  generalize hpacket : (⟨id, none, none, some key, []⟩ : Packet) = packet
  have hsmall : packet.channelId.toNat < 2 ^ 31 := hpacket ▸ small
  have hd := packet.decode_primary hsmall
  have hnone : ConnectionIdMapperInner.registrationId packet.primary.channelId = none :=
    hpacket ▸ unregistered
  have again : readPacket p packet.bytes m = readPacket p packet.bytes m.switched := by
    obtain ⟨m', ⟨_, rfl⟩ | ⟨stays, rfl⟩, heq⟩ : ∃ m', _ ∧ readPacket p packet.bytes m = _ :=
      read_packet_decoded hd
    · obtain ⟨m'', ⟨speculates, _⟩ | ⟨_, rfl⟩, heq'⟩ : ∃ m'', _ ∧
          readPacket p packet.bytes m.switched = _ := read_packet_decoded hd
      · exact absurd speculates (not_speculates_transfer rfl)
      · rw [heq, heq']
    · exact absurd ⟨⟨lastKey, hst⟩, hnone⟩ stays
  have fits : packet.Fits kind := by
    have ordered : kind.isOrdered = false := congrArg Prod.fst fields
    have reliable : kind.isReliable = true := congrArg Prod.snd fields
    subst hpacket
    exact ⟨small, by simp, ordered.symm, reliable.symm⟩
  have hread : readPacket p packet.bytes m = (.ok ⟨g, ⟨id, kind⟩, packet.header⟩, m.switched) := by
    rw [again]
    exact read_packet_bytes hsmall (hpacket ▸ resolve) fits
  have hack : acknowledgeIfNeeded packet.bytes (some key) m.switched =
      (.ok (), { m.switched.recording key packet.bytes with acknowledgeBuffer := key.encode }) := by
    have hmax : maxNonSegmentedPayloadLen = 1980 := rfl
    have hlen := key.encode_length_le
    have hid' : (m.switched.recording key packet.bytes).localInner.ackChannelId? = some own := hid
    rw [acknowledge_new (by exact List.not_mem_nil)]
    simp only [localAckChannelId, Act.bind_apply, Act.get_apply, Act.lift_apply, hid',
      Outcome.ofOption, ConnectionAcknowledgeBuffer.acknowledge]
    exact congrFun (if_neg (Nat.not_lt_of_le (Nat.le_trans hlen (by omega)))) _
  subst hpacket
  rw [handleMessage, Act.bind_of_ok hread]
  dsimp only [Packet.header]
  rw [Act.bind_of_ok hack]
  simp only [receive, deliver, handlePacket, Act.bind_apply, Act.pure_apply,
    Act.get_apply, Act.modify_apply, emit, Endpoint.recording, Endpoint.switched, acks, ↓reduceIte,
    List.length_nil, acknowledgeLocally, and_self]

end

/-- A side reads the first datagrams of the other one, as many as `n` channels are announced by. -/
def hearing (n : Nat) : List Deed :=
  (List.range (n + 1)).map (.read 0)

/-- The handshake of two sides with `n` channels. Both open their connections, and each reads the
registration of the other one; then each ticks, and the other one reads one of its datagrams. -/
def handshake (n i j : Nat) (delta delta' : U32) : List (Side × Deed) :=
  [(.left, .establish 0), (.right, .establish 0)] ++ (hearing n).map (.right, ·) ++
    (hearing n).map (.left, ·) ++
    [(.right, .tick delta'), (.left, .read 0 i), (.left, .tick delta), (.right, .read 0 j)]

/-- A registry whose connections are made, can acknowledge, and have room for the acknowledgements of
as many registration packets as they send, and for one more. -/
structure Greets (r : Registry) (capacity : Nat) : Prop where
  initializes : Initializes r.provider capacity
  answers : ∃ kind, r.kind ackChannelName = some kind ∧ kind.fields = ackChannel.fields
  room : (sortedChannels r.provider).length + 1 +
    (ackLoad ((sortedChannels r.provider).length + 1)).2 < capacity

section
variable {P Q : Registry} {capacity : Nat}

theorem Alike.symm (h : Alike P Q) : Alike Q P := by
  have own {entry : String × U32} (he : entry ∈ Q.nameToId) : ∃ g, (entry.1, g) ∈ P.nameToId := by
    have known : (Q.provider.byName entry.1).isSome := by
      rw [Registry.by_name.mpr he]
      rfl
    rw [← h.names] at known
    obtain ⟨g, hg⟩ := Option.isSome_iff_exists.mp known
    exact ⟨g, Registry.by_name.mp hg⟩
  refine ⟨fun name => (h.names name).symm, fun entry he => ?_, fun entry he => ?_⟩
  · obtain ⟨g, hg⟩ := own he
    exact h.named (entry.1, g) hg
  · obtain ⟨g, hg⟩ := own he
    exact h.short (entry.1, g) hg

theorem mem_sorted_names {r : Registry} {name : String} :
    name ∈ (sortedChannels r.provider).map Prod.fst ↔ (r.provider.byName name).isSome := by
  rw [Option.isSome_iff_exists, List.mem_map]
  constructor
  · rintro ⟨⟨name, g⟩, hmem, rfl⟩
    exact ⟨g, Registry.by_name.mpr ((sorted_perm r).mem_iff.mp hmem)⟩
  · rintro ⟨g, hg⟩
    exact ⟨(name, g), (sorted_perm r).mem_iff.mpr (Registry.by_name.mp hg), rfl⟩

/-- Registries with the same names have as many channels. -/
theorem Alike.many (h : Alike P Q) :
    (sortedChannels P.provider).length = (sortedChannels Q.provider).length := by
  have same : ((sortedChannels P.provider).map Prod.fst).Perm
      ((sortedChannels Q.provider).map Prod.fst) := by
    rw [List.perm_ext_iff_of_nodup (sorted_names P) (sorted_names Q)]
    intro name
    rw [mem_sorted_names, mem_sorted_names, h.names]
  have hlength := same.length_eq
  rwa [List.length_map, List.length_map] at hlength

theorem Greets.numbered (h : Greets P capacity) {mapper : ConnectionIdMapperInner}
    (entered : Entered (sortedChannels P.provider) mapper) :
    ∃ id, mapper.ackChannelId? = some id := by
  have hfew := sorted_few P
  have hreg : channelManagementChannelIdRegistrationStage.toNat = 2 ^ 31 - 2 := rfl
  have hnull : nullChannelId.toNat = 2 ^ 31 := rfl
  obtain ⟨kind, hkind, _⟩ := h.answers
  obtain ⟨g, hg, _⟩ := Option.bind_eq_some_iff.mp hkind
  have hmem : ackChannelName ∈ (sortedChannels P.provider).map Prod.fst := by
    rw [mem_sorted_names, hg]
    rfl
  have hid := (entered_builtins entered hfew (sorted_names P)).1
  have hlt := List.idxOf_lt_length_of_mem hmem
  have hplace := number_toNat (by rw [List.length_map]; exact hfew) hmem
  unfold Few at hfew
  rw [← hid] at hplace
  rw [List.length_map] at hlt
  refine ⟨mapper.ackChannelId, if_neg fun he => ?_⟩
  rw [he] at hplace
  omega

/-- A side that greets opens its connection. -/
theorem Greets.established (h : Greets P capacity) (now : Nat) :
    ∃ mapper, Entered (sortedChannels P.provider) mapper ∧ Peer.establish P.provider now {} =
      some ⟨.live, opened (sortedChannels P.provider) now capacity mapper⟩ := by
  rcases initialize_opens P.provider now with ⟨capacity', mapper, initializes, entered, heq⟩ |
    ⟨fails, _⟩
  · have same := h.initializes.capacities.symm.trans initializes.capacities
    cases same
    refine ⟨mapper, entered, ?_⟩
    simp only [Peer.establish, heq]
  · exact absurd h.initializes (fails capacity)

theorem opened_attending {channels : List (String × U32)} {now : Nat}
    {mapper : ConnectionIdMapperInner} {n : Nat} (many : n = channels.length) {id : U32}
    (hid : mapper.ackChannelId? = some id) :
    Attending n 0 (opened channels now capacity mapper) := by
  subst many
  have listening : Listening channels 0 (opened channels now capacity mapper) :=
    opened_listening rfl hid
  refine ⟨⟨false, rfl⟩, ⟨id, hid⟩, listening.answering, fun x hx => ?_, fun g hg => ?_, [], rfl,
    fun key hkey => absurd hkey List.not_mem_nil, ?_⟩
  · obtain ⟨i, _, rfl⟩ := List.mem_mapIdx.mp hx
    exact ⟨_, rfl, rfl, rfl⟩
  · exact List.eq_of_mem_replicate hg
  · intro j hj
    cases hj

/-- What a side hears of the datagrams that were sent, it reads one after the other. -/
theorem hear_acts {r : Registry} {other : Peer} {reads : List Bytes} {k : Nat} {m t : Endpoint}
    (sent : reads <+: other.endpoint.datagrams.drop k)
    (h : performAll r.provider (reads.map (.read 0)) m = some t) :
    ((List.range' k reads.length).map (Deed.read 0)).foldlM
      (fun (peer : Peer) => peer.act r anyInput other) ⟨.live, m⟩ = some ⟨.live, t⟩ := by
  induction reads generalizing k m with
  | nil =>
    cases h
    rfl
  | cons d rest ih =>
    obtain ⟨more, sent⟩ := sent
    have there : other.endpoint.datagrams[k]? = some d := by
      have := congrArg List.head? sent
      simpa using this.symm
    have others : rest <+: other.endpoint.datagrams.drop (k + 1) := by
      refine ⟨more, ?_⟩
      have := congrArg List.tail sent
      simpa using this
    rw [List.map_cons, performAll] at h
    rcases hrun : perform r.provider (.read 0 d) m with ⟨result, m'⟩
    rw [hrun] at h
    have act (hne : result ≠ .panic) :
        Peer.act r anyInput ⟨.live, m⟩ other (.read 0 k) = some ⟨.live, m'⟩ := by
      simp only [Peer.act, there, anyInput, if_true, Peer.call, hrun]
    simp only [List.length_cons, List.range'_succ, List.map_cons, List.foldlM_cons]
    cases result with
    | panic => cases h
    | ok u => rw [act (by simp)]; exact ih others h
    | err e => rw [act (by simp)]; exact ih others h

/-- A side that has opened its connection hears the whole registration of the other one. -/
theorem Greets.heard (h : Greets Q capacity) (alike : Alike P Q) (now : Nat)
    {mapper : ConnectionIdMapperInner} (entered : Entered (sortedChannels Q.provider) mapper)
    {a : Peer} (sent : (announcements (sortedChannels P.provider)).mapIdx registrationDatagram <+:
      a.endpoint.datagrams) :
    ∃ t, (hearing (sortedChannels Q.provider).length).foldlM (fun (b : Peer) => b.act Q anyInput a)
        ⟨.live, opened (sortedChannels Q.provider) now capacity mapper⟩ = some ⟨.live, t⟩ ∧
      t.resender.capacity = capacity ∧ t.localInner = mapper ∧
      Entered (Q.translate (sortedChannels P.provider)) t.notLocalInner ∧
      t.state = .registration true (some (firstKey (sortedChannels Q.provider).length)) ∧
      Attending (sortedChannels Q.provider).length ((sortedChannels Q.provider).length + 1) t := by
  obtain ⟨id, hid⟩ := h.numbered entered
  have many : (Q.translate (sortedChannels P.provider)).length =
      (sortedChannels Q.provider).length := by
    rw [Registry.translate, List.length_map, alike.many]
  have announces : Announces (Q.translate (sortedChannels P.provider))
      (((announcements (sortedChannels P.provider)).mapIdx registrationDatagram).map
        fun d => (0, d)) := by
    rw [Announces, translate_announcements, List.map_map]
    exact List.map_id _
  have listening : Listening (Q.translate (sortedChannels P.provider)) 0
      (Theta.opened (sortedChannels Q.provider) now capacity mapper) := opened_listening many hid
  obtain ⟨t, hhear, hcapacity, hinner, hentered, hst, hattending⟩ := Attending.complete announces
    (alike.covers.shared alike.short) alike.covers.entries_named listening
    (opened_attending many hid) (by rw [many]; exact Nat.le_of_lt h.room)
  rw [many] at hst hattending
  rw [List.map_map] at hhear
  have acts := hear_acts (k := 0) sent hhear
  rw [List.length_mapIdx, announcements_length, alike.many, ← List.range_eq_range'] at acts
  exact ⟨t, acts, hcapacity, hinner, hentered, hst, hattending⟩

/-- Nothing that was sent is taken back. -/
theorem network_logs {guard guard' : Endpoint → Input → Bool} {s t : Peer × Peer}
    (h : Connected P Q guard guard' s) (run : ReflTransGen (Network P Q guard guard') s t) :
    s.1.endpoint.log <+: t.1.endpoint.log ∧ s.2.endpoint.log <+: t.2.endpoint.log := by
  induction run with
  | refl => exact ⟨List.prefix_refl _, List.prefix_refl _⟩
  | tail before step ih =>
    obtain ⟨left, right⟩ := connected_standing (h.trans before)
    cases step with
    | left a a' b step => exact ⟨ih.1.trans (left.log_grows step), ih.2⟩
    | right a b b' step => exact ⟨ih.1, ih.2.trans (right.log_grows step)⟩

theorem mem_datagrams_of_sent {m : Endpoint} {d : Bytes} (h : .sent d ∈ m.log) : d ∈ m.datagrams :=
  List.mem_filterMap.mpr ⟨_, h, rfl⟩

/-- The channel that a side acknowledges on is known to the other one. -/
theorem Greets.resolved (h : Greets Q capacity) {mapper mapper' : ConnectionIdMapperInner} {id : U32}
    (entered : Entered (sortedChannels P.provider) mapper) (hid : mapper.ackChannelId? = some id)
    (entered' : Entered (Q.translate (sortedChannels P.provider)) mapper') :
    id.toNat < 2 ^ 31 ∧ ConnectionIdMapperInner.registrationId id = none ∧
      mapper'.ackChannelId? = some id ∧ ∃ g kind,
        resolveChannel Q.provider .transfer mapper' id = .ok (g, ⟨id, kind⟩) ∧
          kind.fields = ackChannel.fields := by
  obtain ⟨kind, hkind, fields⟩ := h.answers
  obtain ⟨g, hg, hby⟩ := Option.bind_eq_some_iff.mp hkind
  have hfew := sorted_few P
  have hfew' : Few (Q.translate (sortedChannels P.provider)) := translate_few P Q
  have hreg : channelManagementChannelIdRegistrationStage.toNat = 2 ^ 31 - 2 := rfl
  have hnull : nullChannelId.toNat = 2 ^ 31 := rfl
  have number := (entered_builtins entered hfew (sorted_names P)).1
  have number' := (entered_builtins entered' hfew' (by rw [translate_names]; exact sorted_names P)).1
  rw [translate_names, ← number, ack_channel_id hid] at number'
  rw [ack_channel_id hid] at number
  have hne : id ≠ nullChannelId := by
    rw [← ack_channel_id hid]
    intro he
    rw [ConnectionIdMapperInner.ackChannelId?, ConnectionIdMapperInner.nonNull, if_pos he] at hid
    cases hid
  have hname := number_get (by rw [List.length_map]; exact hfew) number.symm hne
  rw [List.getElem?_map] at hname
  obtain ⟨⟨name, own⟩, place, rfl⟩ := Option.map_eq_some_iff.mp hname
  have hlt := (List.getElem?_eq_some_iff.mp place).1
  unfold Few at hfew
  have global : mapper'.globalId .transfer id = some g := by
    rw [entered_global_id entered' hfew', Registry.translate, List.getElem?_map, place]
    simp only [Option.map_some, hg, Option.getD_some]
  refine ⟨by omega, small_unregistered (Or.inl (by omega)), ?_, g, kind, ?_, fields⟩
  · rw [ConnectionIdMapperInner.ackChannelId?, ConnectionIdMapperInner.nonNull, number', if_neg hne]
  · simp only [resolveChannel, global, ConnectionChannel.new, hby, Option.map_some]

/-- Two sides whose registries have the same names complete their handshake when every registration
packet arrives, each side ticks once, and a datagram of each tick arrives, however long the
intervals of the ticks are. -/
theorem handshake_completes {capacity' : Nat} (alike : Alike P Q) (greets : Greets P capacity)
    (greets' : Greets Q capacity') (delta delta' : U32) :
    ∃ i j s, exchangeAll P Q anyInput anyInput
        (handshake (sortedChannels P.provider).length i j delta delta') ({}, {}) = some s ∧
      s.1.stage = .live ∧ s.2.stage = .live ∧
      s.1.endpoint.state = .transfer ∧ s.2.endpoint.state = .transfer := by
  obtain ⟨mapper, entered, opens⟩ := greets.established 0
  obtain ⟨mapper', entered', opens'⟩ := greets'.established 0
  obtain ⟨id, hid⟩ := greets.numbered entered
  obtain ⟨id', hid'⟩ := greets'.numbered entered'
  have many := alike.many
  have few : (sortedChannels P.provider).length ≤ 2 ^ 31 + 1 := by
    have := greets.initializes.announceable.ids
    omega
  have hbound := (ack_load_bound ((sortedChannels P.provider).length + 1)).2
  -- Both open their connections.
  have opened : exchangeAll P Q anyInput anyInput [(.left, .establish 0), (.right, .establish 0)]
      ({}, {}) = some (⟨.live, opened (sortedChannels P.provider) 0 capacity mapper⟩,
        ⟨.live, opened (sortedChannels Q.provider) 0 capacity' mapper'⟩) := by
    simp only [exchangeAll, Peer.act, opens, opens']
  -- The right side hears the left one, and the left side the right one.
  obtain ⟨b, hears', hcapacity', hinner', hentered', hst', attends'⟩ := greets'.heard alike 0
    (a := ⟨.live, Theta.opened (sortedChannels P.provider) 0 capacity mapper⟩) entered'
    (by rw [opened_datagrams])
  rw [← many] at hears'
  have heard : exchangeAll P Q anyInput anyInput _ _ = _ := exchange_all_right hears'
  have sent : (announcements (sortedChannels Q.provider)).mapIdx registrationDatagram <+:
      b.datagrams := by
    have grows := (network_logs (exchange_all opened) (exchange_all heard)).2
    have told : (Theta.opened (sortedChannels Q.provider) 0 capacity' mapper').datagrams =
        (announcements (sortedChannels Q.provider)).mapIdx registrationDatagram := opened_datagrams
    rw [← told]
    exact grows.filterMap _
  obtain ⟨a, hears, hcapacity, hinner, _, hst, attends⟩ :=
    greets.heard alike.symm 0 (a := ⟨.live, b⟩) entered sent
  have heard := exchange_all_trans (exchange_all_trans opened heard) (exchange_all_left hears)
  -- The right side acknowledges, and the left side reads that.
  obtain ⟨b', keys, key, ticks', state', inner', notLocal', sent', hkey, known, last⟩ :=
    attends'.tick (by omega) (Nat.le_refl _) (hcapacity' ▸ greets'.room) delta'
  rw [← many] at hkey known last
  have new : key ∉ a.resendKeyDuplicateChecker.set := by
    intro hmem
    obtain ⟨i, hi, he⟩ := (attends.answering.known key).mp hmem
    have := first_key_inj (by omega) (by omega) (hkey.symm.trans he)
    omega
  obtain ⟨u, concludes, uinner, ucapacity, ugrows, unused⟩ := attends.conclude (p := P.provider) few
    (Nat.le_refl _) (hcapacity ▸ greets.room) hst new known (last _ rfl) 0
  obtain ⟨i, there⟩ := List.getElem?_of_mem (mem_datagrams_of_sent sent')
  -- The left side acknowledges in its transfer stage, and the right side takes that for the end.
  have used : u.resender.packets.generations[0]? = some 0 := by
    have hlength := attends.answering.generations
    have hle := ugrows.length_le
    have hlt : 0 < u.resender.packets.generations.length := by omega
    rw [List.getElem?_eq_getElem hlt, unused _ (List.getElem_mem hlt)]
  have uid : u.localInner.ackChannelId? = some id := by rw [uinner, hinner, hid]
  obtain ⟨small, unregistered, acks, g, kind, resolve, fields⟩ := greets'.resolved entered hid
    hentered'
  obtain ⟨a', ticks, state, sent⟩ := switched_tick
    (m := { u with lastTimeReceivedPacket := 0 }) uid small used (by
      have := greets.room
      show u.resender.capacity ≠ 0
      omega) delta
  obtain ⟨reads, transfer⟩ := speculative_read (p := Q.provider) (m := b') (state'.trans hst')
    (by rw [inner', hinner', hid']) small unregistered (by rw [notLocal']; exact resolve) fields
    (by rw [notLocal', acks]) 0 ⟨0, 1⟩
  rcases hread : handleMessage Q.provider 0 (Packet.bytes ⟨id, none, none, some ⟨0, 1⟩, []⟩) b' with
    ⟨result, t⟩
  rw [hread] at reads transfer
  dsimp only at reads
  subst reads
  obtain ⟨j, there'⟩ := List.getElem?_of_mem (mem_datagrams_of_sent sent)
  have run : updateConnection delta { u.switched with lastTimeReceivedPacket := 0 } = (.ok (), a') :=
    ticks
  have answered : exchangeAll P Q anyInput anyInput
      [(.right, .tick delta'), (.left, .read 0 i), (.left, .tick delta), (.right, .read 0 j)]
      (⟨.live, a⟩, ⟨.live, b⟩) = some (⟨.live, a'⟩, ⟨.live, t⟩) := by
    simp only [exchangeAll, Peer.act, anyInput, if_true, Peer.call, perform, ticks', there,
      concludes, run, there', hread]
  exact ⟨i, j, _, exchange_all_trans heard answered, rfl, rfl, state, transfer⟩

end

theorem talk_greets : Greets talkRegistry 601 := by
  refine ⟨⟨?_, ⟨?_, ?_, ?_⟩, ?_⟩, ⟨ackChannel, ?_, rfl⟩, ?_⟩ <;> decide +kernel

theorem klat_greets : Greets klatRegistry 601 := by
  refine ⟨⟨?_, ⟨?_, ?_, ?_⟩, ?_⟩, ⟨ackChannel, ?_, rfl⟩, ?_⟩ <;> decide +kernel

theorem handshake_completes_talked : ∃ i j s,
    exchangeAll talkRegistry klatRegistry anyInput anyInput
        (handshake (sortedChannels talkRegistry.provider).length i j 26 100) ({}, {}) = some s ∧
      s.1.stage = .live ∧ s.2.stage = .live ∧
      s.1.endpoint.state = .transfer ∧ s.2.endpoint.state = .transfer :=
  handshake_completes talk_alike talk_greets klat_greets 26 100

end Theta
