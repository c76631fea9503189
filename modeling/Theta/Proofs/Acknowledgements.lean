import Theta.Proofs.Counters
import Theta.Proofs.Frames
import Theta.Proofs.Keys
import Theta.Proofs.Receipts

namespace Theta
open Lib Relation

/-- The keys of a buffer are read back from it. -/
theorem decode_encoded_keys {keys : List SlotMapKey} {fuel : Nat}
    (enough : (keys.flatMap SlotMapKey.encode).length ≤ fuel) :
    decodeKeys fuel (keys.flatMap SlotMapKey.encode) = keys := by
  induction keys generalizing fuel with
  | nil =>
    cases fuel with
    | zero => rfl
    | succ fuel => rfl
  | cons key rest ih =>
    rw [List.flatMap_cons] at enough ⊢
    have hpos : 0 < key.encode.length := List.length_pos_iff.mpr key.encode_ne_nil
    rw [List.length_append] at enough
    cases fuel with
    | zero => omega
    | succ fuel =>
      rw [decodeKeys, SlotMapKey.decode_encode]
      dsimp only
      rw [ih (by omega)]

/-- The id that a flush sends to. -/
def Endpoint.ackLocalId (m : Endpoint) (id : U32) : U32 :=
  match m.state with
  | .registration _ _ => ackChannelIdRegistrationStage
  | .transfer => id

/-- A flush sends the acknowledgements when their channel has an id on the wire and the resender
has room for them. -/
theorem flush_run {m : Endpoint} {id : U32} (hc : m.Compact) :
    ConnectionAcknowledgeBuffer.flush id m =
      if (m.ackLocalId id).toNat < 2 ^ 31 then
        match m.resender.add (fun key => ReliableBufferedPacket.new
          (Packet.bytes ⟨m.ackLocalId id, none, none, some key, m.acknowledgeBuffer⟩) 750 (-1)) with
        | .ok (key, resender) =>
          match resender.packets.get key with
          | some packet => (.ok (), { m with
              resender := resender
              acknowledgeBuffer := []
              log := m.log ++ [.issued key packet.payload, .sent packet.payload] })
          | none => (.panic, m)
        | .err e => (.err (.packetResenderError e), m)
        | .panic => (.panic, m)
      else (.err .encodeError, m) := by
  have hmax : maxNonSegmentedPayloadLen = 1980 := rfl
  have hmax' : maxPacketLen = 2000 := rfl
  have hlen : m.acknowledgeBuffer.length ≤ maxNonSegmentedPayloadLen := hc
  have hreliable : (⟨m.ackLocalId id, ackChannel⟩ : ConnectionChannel).channel.reliability =
      some ⟨750, -1, 300, by decide⟩ := rfl
  have hnext : nextOrder ⟨m.ackLocalId id, ackChannel⟩ m = (.ok none, m) := rfl
  have hflush : ConnectionAcknowledgeBuffer.flush id m = (do
      let _ ← sendPacket ⟨m.ackLocalId id, ackChannel⟩ m.acknowledgeBuffer
      Act.modify (fun m => { m with acknowledgeBuffer := [] }) : Call Unit) m := rfl
  rw [hflush, Act.bind_apply, sendPacket, Act.bind_of_ok hnext, transmit_short hlen, Act.bind_apply]
  by_cases hsmall : (m.ackLocalId id).toNat < 2 ^ 31
  · rw [if_pos hsmall, send_reliable hsmall (by simp) (by omega) hreliable]
    simp only [Act.bind_apply, Act.lift_apply]
    cases m.resender.add (fun key => ReliableBufferedPacket.new
      (Packet.bytes ⟨m.ackLocalId id, none, none, some key, m.acknowledgeBuffer⟩) 750 (-1)) with
    | err e => rfl
    | panic => rfl
    | ok r =>
      obtain ⟨key, resender⟩ := r
      simp only [Outcome.mapErr]
      cases resender.packets.get key with
      | none => rfl
      | some packet =>
        simp [Outcome.ofOption, emit, sendDatagram]
  · rw [if_neg hsmall, send_unaddressed hsmall (by omega)]

/-- The flush of a connection, to its own acknowledgement channel. -/
theorem flush_eq {m : Endpoint} {id : U32} (hid : m.localInner.ackChannelId = id)
    (small : m.state = .transfer → id.toNat < 2 ^ 31) (hc : m.Compact) :
    ConnectionAcknowledgeBuffer.flush id m =
      match m.resender.add (fun key => ReliableBufferedPacket.new
        (Packet.bytes { m.ackPacket with resendKey := some key }) 750 (-1)) with
      | .ok (key, resender) =>
        match resender.packets.get key with
        | some packet => (.ok (), { m with
            resender := resender
            acknowledgeBuffer := []
            log := m.log ++ [.issued key packet.payload, .sent packet.payload] })
        | none => (.panic, m)
      | .err e => (.err (.packetResenderError e), m)
      | .panic => (.panic, m) := by
  have hsmall : (m.ackLocalId id).toNat < 2 ^ 31 := by
    unfold Endpoint.ackLocalId
    cases hst : m.state with
    | registration _ _ =>
      have hack : ackChannelIdRegistrationStage.toNat < 2 ^ 31 := by decide
      exact hack
    | transfer => exact small hst
  rw [flush_run hc, if_pos hsmall]
  subst hid
  rfl

/-- The acknowledgements and the recorded keys stay, unless the stage is changed. -/
structure Steady (m m' : Endpoint) : Prop where
  localInner : m'.localInner = m.localInner
  log : m.log <+: m'.log
  kept : (m'.acknowledgeBuffer = m.acknowledgeBuffer ∧
      m'.resendKeyDuplicateChecker = m.resendKeyDuplicateChecker ∧
      (m'.state = .transfer ↔ m.state = .transfer)) ∨
    (m.state ≠ .transfer ∧ m'.state = .transfer ∧ m'.acknowledgeBuffer = [] ∧
      m'.resendKeyDuplicateChecker.set = [])

theorem Steady.same {m m' : Endpoint} (inner : m'.localInner = m.localInner)
    (log : m.log <+: m'.log) (buffer : m'.acknowledgeBuffer = m.acknowledgeBuffer)
    (checker : m'.resendKeyDuplicateChecker = m.resendKeyDuplicateChecker)
    (stage : m'.state = .transfer ↔ m.state = .transfer) : Steady m m' :=
  ⟨inner, log, Or.inl ⟨buffer, checker, stage⟩⟩

theorem steady_tolerant : Tolerant Steady where
  refl m := .same rfl (List.prefix_refl _) rfl rfl Iff.rfl
  trans m1 m2 m3 h1 h2 := by
    refine ⟨h2.localInner.trans h1.localInner, h1.log.trans h2.log, ?_⟩
    rcases h1.kept with ⟨hb1, hc1, hs1⟩ | ⟨hn1, ht1, hb1, hc1⟩
    · rcases h2.kept with ⟨hb2, hc2, hs2⟩ | ⟨hn2, ht2, hb2, hc2⟩
      · exact Or.inl ⟨hb2.trans hb1, hc2.trans hc1, hs2.trans hs1⟩
      · exact Or.inr ⟨fun h => hn2 (hs1.mpr h), ht2, hb2, hc2⟩
    · rcases h2.kept with ⟨hb2, hc2, hs2⟩ | ⟨hn2, _, _, _⟩
      · exact Or.inr ⟨hn1, hs2.mpr ht1, hb2.trans hb1, by rw [hc2, hc1]⟩
      · exact absurd ht1 hn2
  emit m event := .same rfl (List.prefix_append _ _) rfl rfl Iff.rfl
  parts m _ _ _ _ _ _ _ := .same rfl (List.prefix_refl _) rfl rfl Iff.rfl
  stage m _ _ _ _ hst := .same rfl (List.prefix_refl _) rfl rfl (by simp [hst])
  switch m lastKey hst :=
    ⟨rfl, List.prefix_refl _, Or.inr ⟨by simp [hst], rfl, rfl, rfl⟩⟩

/-- An acknowledgement of the key was sent in the transfer stage. -/
def Emitted (m : Endpoint) (key : SlotMapKey) : Prop :=
  ∃ k payload, key ∈ decodeKeys payload.length payload ∧
    .sent (Packet.bytes ⟨m.localInner.ackChannelId, none, none, some k, payload⟩) ∈ m.log

/-- In the transfer stage every recorded key is in the acknowledge buffer or was sent. -/
def NoneLost (m : Endpoint) : Prop :=
  m.state = .transfer → ∀ key ∈ m.resendKeyDuplicateChecker.set,
    key ∈ decodeKeys m.acknowledgeBuffer.length m.acknowledgeBuffer ∨ Emitted m key

/-- A new reliable packet of the transfer stage whose acknowledgement fits the buffer, or can be
sent to make room for it. -/
def acknowledgeable (p : ChannelProvider) (m : Endpoint) (d : Bytes) : Bool :=
  match m.state, (readPacket p d m).1 with
  | .transfer, .ok inc =>
    match inc.header.resendKey with
    | some key => decide (key ∈ m.resendKeyDuplicateChecker.set) ||
        decide ((m.acknowledgeBuffer ++ key.encode).length ≤ maxNonSegmentedPayloadLen) ||
        decide (m.resender.packets.len ≠ m.resender.capacity)
    | none => true
  | _, _ => true

/-- The buffer holds these keys, and every other known key was sent. -/
structure Pending (m : Endpoint) (keys known : List SlotMapKey) : Prop where
  buffer : m.acknowledgeBuffer = keys.flatMap SlotMapKey.encode
  sent : ∀ key ∈ known, key ∈ keys ∨ Emitted m key

/-- In the transfer stage the buffer is a list of keys, and every other recorded key was sent. -/
def Settled (m : Endpoint) : Prop :=
  m.state = .transfer → ∃ keys, Pending m keys m.resendKeyDuplicateChecker.set

section
variable {r : Registry} {m m' : Endpoint} {keys known : List SlotMapKey}

theorem Settled.none_lost (h : Settled m) : NoneLost m := by
  intro hst key hkey
  obtain ⟨keys, hpending⟩ := h hst
  rcases hpending.sent key hkey with hmem | hsent
  · left
    rw [hpending.buffer, decode_encoded_keys (Nat.le_refl _)]
    exact hmem
  · exact Or.inr hsent

theorem Emitted.later {key : SlotMapKey} (h : Emitted m key)
    (inner : m'.localInner = m.localInner) (log : m.log <+: m'.log) : Emitted m' key := by
  obtain ⟨k, payload, hkey, hsent⟩ := h
  exact ⟨k, payload, hkey, inner ▸ log.mem hsent⟩

theorem Pending.later (h : Pending m keys known) (inner : m'.localInner = m.localInner)
    (log : m.log <+: m'.log) (buffer : m'.acknowledgeBuffer = m.acknowledgeBuffer) :
    Pending m' keys known :=
  ⟨buffer.trans h.buffer, fun key hkey => (h.sent key hkey).imp_right (·.later inner log)⟩

theorem Settled.steady (h : Settled m) (hs : Steady m m') : Settled m' := by
  intro hst
  rcases hs.kept with ⟨hbuffer, hchecker, hstage⟩ | ⟨_, _, hbuffer, hchecker⟩
  · obtain ⟨keys, hpending⟩ := h (hstage.mp hst)
    exact ⟨keys, hchecker ▸ hpending.later hs.localInner hs.log hbuffer⟩
  · refine ⟨[], hbuffer, fun key hkey => ?_⟩
    rw [hchecker] at hkey
    cases hkey

/-- The local ack channel of a registry's connection fits the wire. -/
theorem ack_id_small (entered : Entered (sortedChannels r.provider) m.localInner) {id : U32}
    (h : m.localInner.ackChannelId? = some id) :
    m.localInner.ackChannelId = id ∧ id.toNat < 2 ^ 31 := by
  have hid := ack_channel_id h
  refine ⟨hid, ?_⟩
  have hbuiltin := (entered_builtins entered (sorted_few r) (sorted_names r)).1
  have hne : m.localInner.ackChannelId ≠ nullChannelId := by
    intro he
    rw [ConnectionIdMapperInner.ackChannelId?, ConnectionIdMapperInner.nonNull, if_pos he] at h
    cases h
  have hfew := sorted_few r
  have hreg : channelManagementChannelIdRegistrationStage.toNat = 2 ^ 31 - 2 := rfl
  unfold Few at hfew
  rw [← hid, hbuiltin]
  by_cases hmem : ackChannelName ∈ (sortedChannels r.provider).map Prod.fst
  · rw [number_toNat (by rw [List.length_map]; exact hfew) hmem]
    have hlt := List.idxOf_lt_length_of_mem hmem
    rw [List.length_map] at hlt
    omega
  · rw [hbuiltin, numberOf, if_neg hmem] at hne
    exact absurd rfl hne

/-- What a flush of the transfer stage needs. -/
structure Flushable (r : Registry) (m : Endpoint) : Prop where
  entered : Entered (sortedChannels r.provider) m.localInner
  compact : m.Compact
  tidy : Tidy m
  stage : m.state = .transfer

/-- A flush sends the keys of the buffer, or leaves them there and fails. -/
theorem Pending.flush {id : U32} (h : Pending m keys known) (hm : Flushable r m)
    (hid : m.localInner.ackChannelId? = some id)
    (fits : (ConnectionAcknowledgeBuffer.flush id m).2.resender.packets.Fits) :
    ((ConnectionAcknowledgeBuffer.flush id m).1 = .ok () ∧
      Pending (ConnectionAcknowledgeBuffer.flush id m).2 [] known) ∨
    ((ConnectionAcknowledgeBuffer.flush id m).2 = m ∧
      ((ConnectionAcknowledgeBuffer.flush id m).1 = .panic ∨
        m.resender.packets.len = m.resender.capacity)) := by
  obtain ⟨hinner, hsmall⟩ := ack_id_small hm.entered hid
  rw [flush_eq hinner (fun _ => hsmall) hm.compact] at fits ⊢
  cases hadd : m.resender.add (fun key => ReliableBufferedPacket.new
      (Packet.bytes { m.ackPacket with resendKey := some key }) 750 (-1)) with
  | err e => exact Or.inr ⟨rfl, Or.inr (PacketResender.add_err hadd)⟩
  | panic => exact Or.inr ⟨rfl, Or.inl rfl⟩
  | ok added =>
    obtain ⟨key, resender⟩ := added
    rw [hadd] at fits
    dsimp only at fits ⊢
    cases hget : resender.packets.get key with
    | none => exact Or.inr ⟨rfl, Or.inl rfl⟩
    | some packet =>
      rw [hget] at fits
      have fits' : resender.packets.Fits := fits
      refine Or.inl ⟨rfl, rfl, fun k hk => Or.inr ?_⟩
      have hslots := (PacketResender.add_ok hadd).2.2
      have hbefore : m.resender.packets.Fits :=
        Nat.le_trans (SlotMap.add_generations_le hslots) fits'
      have hpacket := SlotMap.get_add (k := key) (hm.tidy hbefore) fits' hslots
      rw [hget, if_pos rfl, Option.some.injEq] at hpacket
      rcases h.sent k hk with hmem | hsent
      · refine ⟨key, m.acknowledgeBuffer, ?_, ?_⟩
        · rw [h.buffer, decode_encoded_keys (Nat.le_refl _)]
          exact hmem
        · rw [hpacket]
          simp [ReliableBufferedPacket.new, Endpoint.ackPacket, hm.stage]
      · exact hsent.later rfl (List.prefix_append _ _)

/-- A new key is written to the buffer when it fits, or when the keys before it can be sent. -/
theorem Pending.acknowledge {id : U32} {key : SlotMapKey} (h : Pending m keys known)
    (hm : Flushable r m) (hid : m.localInner.ackChannelId? = some id)
    (room : (m.acknowledgeBuffer ++ key.encode).length ≤ maxNonSegmentedPayloadLen ∨
      m.resender.packets.len ≠ m.resender.capacity)
    (fits : (ConnectionAcknowledgeBuffer.acknowledge key id m).2.resender.packets.Fits)
    (hret : (ConnectionAcknowledgeBuffer.acknowledge key id m).1 ≠ .panic) :
    ∃ keys', Pending (ConnectionAcknowledgeBuffer.acknowledge key id m).2 keys' (key :: known) := by
  simp only [ConnectionAcknowledgeBuffer.acknowledge, Act.bind_apply, Act.get_apply] at fits hret ⊢
  by_cases hlen : (m.acknowledgeBuffer ++ key.encode).length > maxNonSegmentedPayloadLen
  · have hflush := h.flush hm hid
    simp only [if_pos hlen, Act.bind_apply] at fits hret ⊢
    rcases he : ConnectionAcknowledgeBuffer.flush id m with ⟨result, m1⟩
    rw [he] at fits hret hflush
    have fits' : m1.resender.packets.Fits := by
      cases result with
      | ok _ => exact fits
      | err _ => exact fits
      | panic => exact fits
    rcases hflush fits' with ⟨hok, hsent⟩ | ⟨_, hpanic | hfull⟩
    · cases hok
      refine ⟨[key], ?_, fun k hk => ?_⟩
      · have hempty : m1.acknowledgeBuffer = [] := hsent.buffer
        simp [hempty]
      · rcases List.mem_cons.mp hk with rfl | hk
        · exact Or.inl (List.mem_singleton_self _)
        · rcases hsent.sent k hk with hnone | hemitted
          · cases hnone
          · exact Or.inr hemitted
    · cases hpanic
      exact absurd rfl hret
    · rcases room with hroom | hroom
      · exact absurd hlen (Nat.not_lt_of_le hroom)
      · exact absurd hfull hroom
  · rw [if_neg hlen]
    refine ⟨keys ++ [key], ?_, fun k hk => ?_⟩
    · simp [h.buffer]
    · rcases List.mem_cons.mp hk with rfl | hk
      · exact Or.inl (by simp)
      · rcases h.sent k hk with hmem | hemitted
        · exact Or.inl (List.mem_append_left _ hmem)
        · exact Or.inr hemitted

/-- A key recorded in the transfer stage is written to the buffer, when there is room for it. -/
theorem Settled.acknowledge {d : Bytes} {key : SlotMapKey} (h : Settled m) (hm : Flushable r m)
    (new : key ∉ m.resendKeyDuplicateChecker.set)
    (room : (m.acknowledgeBuffer ++ key.encode).length ≤ maxNonSegmentedPayloadLen ∨
      m.resender.packets.len ≠ m.resender.capacity)
    (fits : (acknowledgeIfNeeded d (some key) m).2.resender.packets.Fits)
    (hret : (acknowledgeIfNeeded d (some key) m).1 ≠ .panic) :
    Settled (acknowledgeIfNeeded d (some key) m).2 := by
  obtain ⟨keys, hpending⟩ := h hm.stage
  intro _
  rw [(acknowledge_new_checker hm.compact new).1]
  rw [acknowledge_new new] at fits hret ⊢
  have hrecorded : Pending (m.recording key d) keys m.resendKeyDuplicateChecker.set :=
    hpending.later rfl (List.prefix_append _ _) rfl
  have hm' : Flushable r (m.recording key d) := ⟨hm.entered, hm.compact, hm.tidy, hm.stage⟩
  have hlocal : localAckChannelId (m.recording key d) =
      (Outcome.ofOption m.localInner.ackChannelId?, m.recording key d) := rfl
  rw [Act.bind_apply, hlocal] at fits hret ⊢
  cases hid : m.localInner.ackChannelId? with
  | none =>
    rw [hid] at hret
    exact absurd rfl hret
  | some id =>
    rw [hid] at fits hret
    exact hrecorded.acknowledge hm' hid room fits hret

/-- What `acknowledgeable` asks of a packet, in the state that its header is read in. -/
theorem acknowledgeable_room {p : ChannelProvider} {d : Bytes} {inc : Incoming} {key : SlotMapKey}
    (safe : acknowledgeable p m d = true) (hread : (readPacket p d m).1 = .ok inc)
    (hkey : inc.header.resendKey = some key) (hst : (readPacket p d m).2.state = .transfer)
    (new : key ∉ (readPacket p d m).2.resendKeyDuplicateChecker.set) :
    ((readPacket p d m).2.acknowledgeBuffer ++ key.encode).length ≤ maxNonSegmentedPayloadLen ∨
      (readPacket p d m).2.resender.packets.len ≠ (readPacket p d m).2.resender.capacity := by
  have hmax : maxNonSegmentedPayloadLen = 1980 := rfl
  have hlen := key.encode_length_le
  by_cases hm : m.state = .transfer
  · rw [read_packet_transfer hm] at new ⊢
    simp only [acknowledgeable, hm, hread, hkey, Bool.or_eq_true, decide_eq_true_eq] at safe
    rcases safe with (hmem | hfits) | hroom
    · exact absurd hmem new
    · exact Or.inl hfits
    · exact Or.inr hroom
  · rcases ((read_packet_follows steady_tolerant p d).holds m).kept with ⟨_, _, hsame⟩ |
      ⟨_, _, hempty, _⟩
    · exact absurd (hsame.mp hst) hm
    · rw [hempty, List.nil_append]
      omega

theorem Reachable.flushable (h : Reachable r.provider m) (hs : Steady m m')
    (hmoves : ReflTransGen (Move unrestricted) m m') (hst : m'.state = .transfer) :
    Flushable r m' := by
  refine ⟨?_, moves_compact hmoves h.passed.compact, ?_, hst⟩
  · rw [hs.localInner]
    exact h.counted.entered
  · exact invariant_of_step (fun _ _ hmove => hmove.tidy) hmoves h.passed.tidy

/-- A datagram that can be acknowledged leaves every key accounted for. -/
theorem handle_message_settled {now : Nat} {d : Bytes} (hm : Reachable r.provider m)
    (h : Settled m) (safe : acknowledgeable r.provider m d = true)
    (fits : (handleMessage r.provider now d m).2.resender.packets.Fits)
    (hret : (handleMessage r.provider now d m).1 ≠ .panic) :
    Settled (handleMessage r.provider now d m).2 := by
  have hread : Steady m (readPacket r.provider d m).2 :=
    (read_packet_follows steady_tolerant r.provider d).holds m
  have h0 : Settled (readPacket r.provider d m).2 := h.steady hread
  have hc := read_packet_compact (p := r.provider) (d := d) hm.passed.compact
  rcases handle_message_cases r.provider now d m with ⟨result, m', he, _, _, hend⟩ |
    ⟨inc, hinc, hrest⟩
  · rw [he] at h0
    rw [hend]
    exact h0
  have hack := acknowledge_acknowledging hc hinc
  have acked (fits : (acknowledgeIfNeeded d inc.header.resendKey
        (readPacket r.provider d m).2).2.resender.packets.Fits)
      (hret : (acknowledgeIfNeeded d inc.header.resendKey (readPacket r.provider d m).2).1 ≠
        .panic) :
      Settled (acknowledgeIfNeeded d inc.header.resendKey (readPacket r.provider d m).2).2 := by
    by_cases hst : (readPacket r.provider d m).2.state = .transfer
    · cases hkey : inc.header.resendKey with
      | none => exact h0
      | some key =>
        rw [hkey] at fits hret
        by_cases hmem : key ∈ (readPacket r.provider d m).2.resendKeyDuplicateChecker.set
        · rw [acknowledge_known hmem]
          exact h0
        · have hflush := hm.flushable hread (read_packet_moves trivial m) hst
          exact h0.acknowledge hflush hmem (acknowledgeable_room safe hinc hkey hst hmem) fits hret
    · intro htr
      rw [(same_receipts acknowledging_quiet hack).state] at htr
      exact absurd htr hst
  rcases hrest with ⟨_, he⟩ | ⟨hok, ⟨_, joiner, he⟩ | ⟨order, payload, m', hreach, he⟩⟩
  · rw [he] at fits hret ⊢
    exact acked fits hret
  · rw [he] at fits ⊢
    exact (acked fits (by simp [hok])).steady (.same rfl (List.prefix_refl _) rfl rfl Iff.rfl)
  · obtain ⟨_, _, joiner, rfl⟩ := hreach.prepared hc
    rw [he] at fits ⊢
    obtain ⟨_, time, hend⟩ := touch_ends
      (deliver r.provider inc.globalChannelId inc.channel order payload) _ now
    rw [hend] at fits ⊢
    have hdeliver := (deliver_follows steady_tolerant r.provider inc.globalChannelId inc.channel
      order payload).holds { (acknowledgeIfNeeded d inc.header.resendKey
        (readPacket r.provider d m).2).2 with joiner := joiner }
    have hgrown := generations_le (deliver_delivering r.provider inc.globalChannelId inc.channel
      order payload { (acknowledgeIfNeeded d inc.header.resendKey
        (readPacket r.provider d m).2).2 with joiner := joiner })
    have hacked := acked (Nat.le_trans hgrown fits) (by simp [hok])
    have hjoined : Settled { (acknowledgeIfNeeded d inc.header.resendKey
        (readPacket r.provider d m).2).2 with joiner := joiner } :=
      hacked.steady (.same rfl (List.prefix_refl _) rfl rfl Iff.rfl)
    exact (hjoined.steady hdeliver).steady (.same rfl (List.prefix_refl _) rfl rfl Iff.rfl)

/-- A tick sends the keys of the buffer or leaves them there. -/
theorem update_connection_settled {delta : U32} (hm : Reachable r.provider m) (h : Settled m)
    (fits : (updateConnection delta m).2.resender.packets.Fits) :
    Settled (updateConnection delta m).2 := by
  obtain ⟨resender, events, _, hmoves, he | ⟨ackId, hid, he⟩⟩ :=
    update_connection_cases unrestricted delta m
  · rw [he]
    exact h.steady (.same rfl (List.prefix_append _ _) rfl rfl Iff.rfl)
  · have hsteady : Steady m { m with resender := resender, log := m.log ++ events } :=
      .same rfl (List.prefix_append _ _) rfl rfl Iff.rfl
    have hflush : ReflTransGen (Move flushing)
        { m with resender := resender, log := m.log ++ events }
        (ConnectionAcknowledgeBuffer.flush ackId
          { m with resender := resender, log := m.log ++ events }).2 :=
      flush_moves hid hm.passed.compact ⟨rfl, rfl⟩
    have hstage := (same_receipts flushing_quiet hflush).state
    have hchecker := same_checker (fun _ _ _ => id) id hflush
    rw [he] at fits ⊢
    intro hst
    rw [hstage] at hst
    obtain ⟨keys, hpending⟩ := h.steady hsteady hst
    rw [hchecker]
    rcases hpending.flush (hm.flushable hsteady hmoves hst) hid fits with ⟨_, hsent⟩ | ⟨hsame, _⟩
    · exact ⟨[], hsent⟩
    · rw [hsame]
      exact ⟨keys, hpending⟩

theorem acknowledging_call_settles (hm : Reachable r.provider m)
    (h : GuardedCall (acknowledgeable r.provider) r.provider m m') (hs : Settled m)
    (fits : m'.resender.packets.Fits) : Settled m' := by
  obtain ⟨input, ⟨hret, rfl⟩, safe⟩ := h
  cases input with
  | read now d => exact handle_message_settled hm hs safe fits hret
  | tick delta => exact update_connection_settled hm hs fits
  | send channel payload =>
    exact hs.steady ((send_event_follows steady_tolerant r.provider channel payload).holds m)

theorem guarded_generations_le {p : ChannelProvider} {guard : Endpoint → Bytes → Bool}
    (hm : Reachable p m) (h : GuardedCall guard p m m') :
    m.resender.packets.generations.length ≤ m'.resender.packets.generations.length := by
  obtain ⟨input, ⟨_, rfl⟩, _⟩ := h
  exact invariant_of_step
    (P := fun t : Endpoint => m.resender.packets.generations.length ≤
      t.resender.packets.generations.length)
    (fun _ _ hwork hle => Nat.le_trans hle hwork.generations_le) (perform_work hm.passed.compact)
    (Nat.le_refl _)

/-- Along every run from the initialization whose new keys all fit the buffer, or find the
resender with room, no acknowledgement is lost. -/
theorem acknowledged_run_loses_none {now : Nat}
    (init : initializeConnection r.provider (.fresh now) = (.ok (), m))
    (run : ReflTransGen (GuardedCall (acknowledgeable r.provider) r.provider) m m')
    (fits : m'.resender.packets.Fits) : NoneLost m' := by
  have start : Settled m := by
    obtain ⟨key, hst⟩ := initialize_state init
    intro htr
    rw [hst] at htr
    cases htr
  have hm : Reachable r.provider m := .initialized now m init
  have h : Settled m' := by
    induction run with
    | refl => exact start
    | tail before h ih =>
      have hreach := hm.guarded before
      have hs := ih (Nat.le_trans (guarded_generations_le hreach h) fits)
      exact acknowledging_call_settles hreach h hs fits
  exact h.none_lost

end

/-- The right peer after the registration, the nine messages and a tick. -/
def answering : Endpoint :=
  (performGuarded (acknowledgeable chatRegistry.provider) chatRegistry.provider
    ((chatting nineSent).1.endpoint.datagrams.map (.read 1) ++ [.tick 1]) chatOpened).getD chatOpened

theorem acknowledged_run_loses_none_answering : NoneLost answering :=
  have opened : (initializeConnection chatRegistry.provider (.fresh 0)).1 = .ok () := by
    decide +kernel
  have run : performGuarded (acknowledgeable chatRegistry.provider) chatRegistry.provider
      ((chatting nineSent).1.endpoint.datagrams.map (.read 1) ++ [.tick 1]) chatOpened ≠ none := by
    decide +kernel
  have fits : answering.resender.packets.generations.length ≤ 2 ^ 32 := by decide +kernel
  acknowledged_run_loses_none (eq_of_fst opened)
    (guarded_calls (Option.getD_of_ne_none run chatOpened).symm) fits

/-- A channel that adds this capacity to the resender. -/
def tightChannel (channel : Channel) (additionalCapacity : Nat) : Channel :=
  { channel with reliability := channel.reliability.map fun reliable =>
    { reliable with additionalCapacity := additionalCapacity } }

/-- A registry that gives its resender room for three packets. -/
def tightRegistry : Registry where
  toDefaultChannelProvider :=
    (DefaultChannelProvider.new.add ackChannelName (tightChannel ackChannel 3)
      DefaultChannelProvider.new_fits).add
      channelManagementChannelName (tightChannel channelManagementChannel 0) (by decide)
  all := _
  order := .refl _
  few := by decide

/-- A connection in the transfer stage, for whose peer the ack channel has the number 0. Three
ticks have filled its resender. -/
def filled : Endpoint :=
  (performAll tightRegistry.provider
    [.read 1 (registrationDatagram 0 (nameBytes ackChannelName ++ [0])),
      .read 1 (registrationDatagram 1 (nameBytes "")), .read 1 [10], .tick 1, .tick 1, .tick 1]
    (initializeConnection tightRegistry.provider (.fresh 0)).2).getD (.fresh 0)

theorem filled_reachable : Reachable tightRegistry.provider filled := by
  have opened : (initializeConnection tightRegistry.provider (.fresh 0)).1 = .ok () := by
    decide +kernel
  have ran : performAll tightRegistry.provider
      [.read 1 (registrationDatagram 0 (nameBytes ackChannelName ++ [0])),
        .read 1 (registrationDatagram 1 (nameBytes "")), .read 1 [10], .tick 1, .tick 1, .tick 1]
      (initializeConnection tightRegistry.provider (.fresh 0)).2 ≠ none := by decide +kernel
  exact Reachable.performAll (.initialized 0 _ (eq_of_fst opened))
    (Option.getD_of_ne_none ran _).symm

/-- A key of ten bytes. -/
def wideKey (i : Nat) : SlotMapKey := ⟨BitVec.ofNat 32 (2 ^ 28 + i), 0xFFFFFFFF⟩

/-- The first `n` wide keys wait in the buffer of a connection with a full resender. -/
structure Crowded (n : Nat) (m : Endpoint) : Prop where
  reachable : Reachable tightRegistry.provider m
  stage : m.state = .transfer
  localInner : m.localInner = filled.localInner
  notLocalInner : m.notLocalInner = filled.notLocalInner
  resender : m.resender = filled.resender
  buffer : m.acknowledgeBuffer = ((List.range n).map wideKey).flatMap SlotMapKey.encode
  checker : ∀ key, key ∈ m.resendKeyDuplicateChecker.set ↔ key ∈ (List.range n).map wideKey
  datagrams : m.datagrams = filled.datagrams

theorem wide_key_new {n i : Nat} (h : n ≤ 199) (hi : i < 200) (hn : n ≤ i) :
    wideKey i ∉ (List.range n).map wideKey := by
  intro hmem
  obtain ⟨j, hj, he⟩ := List.mem_map.mp hmem
  have hlt := List.mem_range.mp hj
  have hindex := congrArg (fun key => key.index.toNat) he
  simp only [wideKey, BitVec.toNat_ofNat] at hindex
  omega

theorem wide_keys_length {n : Nat} (h : n ≤ 199) :
    (((List.range n).map wideKey).flatMap SlotMapKey.encode).length = 10 * n := by
  have hlen : ∀ i < 199, (wideKey i).encode.length = 10 := by decide +kernel
  induction n with
  | zero => rfl
  | succ n ih =>
    rw [List.range_succ, List.map_append, List.flatMap_append, List.length_append, ih (by omega)]
    simp [hlen n (by omega)]
    omega

/-- The datagram of an empty packet of acknowledgements under a wide key. -/
def wideDatagram (i : Nat) : Bytes := Packet.bytes ⟨0, none, none, some (wideKey i), []⟩

theorem filled_ids : filled.state = .transfer ∧ filled.localInner.ackChannelId? = some 0 ∧
    filled.notLocalInner.ackChannelId? = some 0 ∧
    filled.resender.packets.len = filled.resender.capacity ∧
    (∀ d ∈ filled.datagrams, d.head? ≠ some 0 ∨ d.length = 3) := by
  decide +kernel

theorem filled_channel : ∃ kind : Channel, kind.isOrdered = false ∧ kind.isReliable = true ∧
    resolveChannel tightRegistry.provider .transfer filled.notLocalInner 0 = .ok (2, ⟨0, kind⟩) := by
  refine ⟨tightChannel ackChannel 3, rfl, rfl, ?_⟩
  decide +kernel

/-- The header of a wide datagram. -/
def wideIncoming (kind : Channel) (i : Nat) : Incoming :=
  ⟨2, ⟨0, kind⟩, ⟨none, none, some (wideKey i), []⟩⟩

theorem Crowded.read {n : Nat} {m : Endpoint} (h : Crowded n m) (i : Nat) : ∃ kind,
    readPacket tightRegistry.provider (wideDatagram i) m = (.ok (wideIncoming kind i), m) := by
  obtain ⟨kind, unordered, reliable, hres⟩ := filled_channel
  have small : (0 : U32).toNat < 2 ^ 31 := by decide
  refine ⟨kind, read_packet_bytes small ?_ ⟨small, by simp, unordered.symm, reliable.symm⟩⟩
  rw [h.stage, h.notLocalInner]
  exact hres

/-- As long as the buffer has room, a new wide key is put there. -/
theorem Crowded.next {n : Nat} {m : Endpoint} (h : Crowded n m) (hn : n < 198) :
    Crowded (n + 1) (handleMessage tightRegistry.provider 2 (wideDatagram n) m).2 := by
  obtain ⟨_, hlocal, hremote, _, _⟩ := filled_ids
  obtain ⟨kind, hread⟩ := h.read n
  have new : wideKey n ∉ m.resendKeyDuplicateChecker.set := fun hmem =>
    wide_key_new (by omega) (by omega) (Nat.le_refl n) ((h.checker _).mp hmem)
  have hbuffer : m.acknowledgeBuffer ++ (wideKey n).encode =
      ((List.range (n + 1)).map wideKey).flatMap SlotMapKey.encode := by
    rw [h.buffer, List.range_succ, List.map_append, List.flatMap_append]
    simp
  have room : ¬ (m.acknowledgeBuffer ++ (wideKey n).encode).length > maxNonSegmentedPayloadLen := by
    have hmax : maxNonSegmentedPayloadLen = 1980 := rfl
    rw [hbuffer, wide_keys_length (by omega)]
    omega
  have hack : acknowledgeIfNeeded (wideDatagram n) (some (wideKey n)) m =
      (.ok (), { m.recording (wideKey n) (wideDatagram n) with
        acknowledgeBuffer := m.acknowledgeBuffer ++ (wideKey n).encode }) := by
    have hid : (m.recording (wideKey n) (wideDatagram n)).localInner.ackChannelId? = some 0 := by
      rw [← hlocal, ← h.localInner]
      rfl
    rw [acknowledge_new new, localAckChannelId]
    simp only [Act.bind_apply, Act.get_apply, Act.lift_apply, hid, Outcome.ofOption,
      ConnectionAcknowledgeBuffer.acknowledge]
    exact if_neg room ▸ rfl
  have hend : handleMessage tightRegistry.provider 2 (wideDatagram n) m =
      (.ok (), { m.recording (wideKey n) (wideDatagram n) with
        acknowledgeBuffer := m.acknowledgeBuffer ++ (wideKey n).encode
        lastTimeReceivedPacket := 2
        log := (m.recording (wideKey n) (wideDatagram n)).log ++ [.consumed []] }) := by
    have hstage : (m.recording (wideKey n) (wideDatagram n)).state = .transfer := h.stage
    have hack' : (m.recording (wideKey n) (wideDatagram n)).notLocalInner.ackChannelId? = some 0 := by
      rw [← hremote, ← h.notLocalInner]
      rfl
    rw [handleMessage, Act.bind_of_ok hread, wideIncoming, Act.bind_of_ok hack]
    simp only [receive, deliver, handlePacket, Act.bind_apply, Act.pure_apply, Act.get_apply, hstage,
      hack', ↓reduceIte, emit, Act.modify_apply, List.length_nil, acknowledgeLocally]
  have hreturns : Returns tightRegistry.provider (.read 2 (wideDatagram n)) m
      (handleMessage tightRegistry.provider 2 (wideDatagram n) m).2 :=
    ⟨by rw [perform, hend]; simp, rfl⟩
  have hreach := Reachable.step _ _ _ h.reachable hreturns
  rw [hend] at hreach ⊢
  refine ⟨hreach, h.stage, h.localInner, h.notLocalInner, h.resender, hbuffer, fun key => ?_, ?_⟩
  · simp only [Endpoint.recording, List.mem_cons, h.checker, List.range_succ, List.map_append,
      List.mem_append, List.map_cons, List.map_nil, List.not_mem_nil, or_false]
    exact or_comm
  · rw [← h.datagrams]
    simp [Endpoint.datagrams, Endpoint.recording, Event.datagram?, List.filterMap_append]

theorem crowded_out (n : Nat) (hn : n ≤ 198) : ∃ m, Crowded n m := by
  induction n with
  | zero =>
    have checker : filled.resendKeyDuplicateChecker.set = [] := by decide +kernel
    have buffer : filled.acknowledgeBuffer = [] := by decide +kernel
    refine ⟨filled, filled_reachable, filled_ids.1, rfl, rfl, rfl, buffer, fun key => ?_, rfl⟩
    rw [checker]
    rfl
  | succ n ih =>
    obtain ⟨m, h⟩ := ih (by omega)
    exact ⟨_, h.next (by omega)⟩

/-- The key for which the buffer has no room is recorded, and the flush before it is refused. -/
theorem Crowded.refused {m : Endpoint} (h : Crowded 198 m) :
    handleMessage tightRegistry.provider 2 (wideDatagram 198) m =
      (.err (.packetResenderError .capacityReached),
        m.recording (wideKey 198) (wideDatagram 198)) := by
  obtain ⟨_, hlocal, _, hfull, _⟩ := filled_ids
  obtain ⟨kind, hread⟩ := h.read 198
  have new : wideKey 198 ∉ m.resendKeyDuplicateChecker.set := fun hmem =>
    wide_key_new (by omega) (by omega) (Nat.le_refl _) ((h.checker _).mp hmem)
  have hbuffer : (m.recording (wideKey 198) (wideDatagram 198)).acknowledgeBuffer =
      ((List.range 198).map wideKey).flatMap SlotMapKey.encode := h.buffer
  have room : ((m.recording (wideKey 198) (wideDatagram 198)).acknowledgeBuffer ++
      (wideKey 198).encode).length > maxNonSegmentedPayloadLen := by
    have hmax : maxNonSegmentedPayloadLen = 1980 := rfl
    have hwide : 0 < (wideKey 198).encode.length :=
      List.length_pos_iff.mpr (wideKey 198).encode_ne_nil
    rw [List.length_append, hbuffer, wide_keys_length (by omega)]
    omega
  have hid : (m.recording (wideKey 198) (wideDatagram 198)).localInner.ackChannelId? = some 0 := by
    rw [← hlocal, ← h.localInner]
    rfl
  have hcompact : (m.recording (wideKey 198) (wideDatagram 198)).Compact :=
    h.reachable.passed.compact
  have hresender : (m.recording (wideKey 198) (wideDatagram 198)).resender = filled.resender :=
    h.resender
  have hadd : ∀ func, (m.recording (wideKey 198) (wideDatagram 198)).resender.add func =
      .err .capacityReached := by
    intro func
    rw [hresender, PacketResender.add, if_pos hfull]
  have hflush := flush_eq (ack_channel_id hid) (fun _ => by decide) hcompact
  rw [hadd] at hflush
  have hack : acknowledgeIfNeeded (wideDatagram 198) (some (wideKey 198)) m =
      (.err (.packetResenderError .capacityReached),
        m.recording (wideKey 198) (wideDatagram 198)) := by
    rw [acknowledge_new new, localAckChannelId]
    simp only [Act.bind_apply, Act.get_apply, Act.lift_apply, hid, Outcome.ofOption,
      ConnectionAcknowledgeBuffer.acknowledge]
    rw [if_pos room, Act.bind_of_err hflush]
  rw [handleMessage, Act.bind_of_ok hread, wideIncoming, Act.bind_of_err hack]

/-- The 199th key is recorded, but neither in the buffer nor in a packet that was sent. -/
theorem crowded_acknowledgement_lost :
    ∃ m, Reachable tightRegistry.provider m ∧ m.state = .transfer ∧ ¬ NoneLost m := by
  obtain ⟨m, h⟩ := crowded_out 198 (Nat.le_refl _)
  obtain ⟨_, hlocal, _, _, hshort⟩ := filled_ids
  refine ⟨m.recording (wideKey 198) (wideDatagram 198), ?_, h.stage, fun hnone => ?_⟩
  · exact .step (.read 2 (wideDatagram 198)) m _ h.reachable
      ⟨by rw [perform, h.refused]; simp, by rw [perform, h.refused]⟩
  rcases hnone h.stage (wideKey 198) (List.mem_cons_self ..) with hbuffer | ⟨key, payload, hkey, hsent⟩
  · have hkeys : (m.recording (wideKey 198) (wideDatagram 198)).acknowledgeBuffer =
        ((List.range 198).map wideKey).flatMap SlotMapKey.encode := h.buffer
    rw [hkeys, decode_encoded_keys (Nat.le_refl _)] at hbuffer
    exact wide_key_new (by omega) (by omega) (Nat.le_refl _) hbuffer
  · have hid : (m.recording (wideKey 198) (wideDatagram 198)).localInner.ackChannelId? = some 0 := by
      rw [← hlocal, ← h.localInner]
      rfl
    have hchannel := ack_channel_id hid
    rw [hchannel] at hsent
    have hdatagrams : (m.recording (wideKey 198) (wideDatagram 198)).datagrams = filled.datagrams := by
      rw [← h.datagrams]
      simp [Endpoint.datagrams, Endpoint.recording, Event.datagram?, List.filterMap_append]
    have hmem : Packet.bytes ⟨0, none, none, some key, payload⟩ ∈ filled.datagrams := by
      rw [← hdatagrams]
      exact List.mem_filterMap.mpr ⟨_, hsent, rfl⟩
    have hprimary : PrimaryPacketMetadata.bytes ⟨0, false⟩ = [0] := by decide
    have hbytes : Packet.bytes ⟨0, none, none, some key, payload⟩ =
        0 :: (VarInt.encode key.index ++ VarInt.encode key.generation ++ payload) := by
      have hshape : Packet.bytes ⟨0, none, none, some key, payload⟩ =
          PrimaryPacketMetadata.bytes ⟨0, false⟩ ++ [] ++ [] ++ key.encode ++ payload := rfl
      rw [hshape, hprimary]
      simp [SlotMapKey.encode]
    rw [hbytes] at hmem
    rcases hshort _ hmem with hhead | hlen
    · exact hhead rfl
    · cases payload with
      | nil => cases hkey
      | cons b rest =>
        have hindex := List.length_pos_iff.mpr (VarInt.encode_ne_nil (by decide) key.index)
        have hgeneration := List.length_pos_iff.mpr (VarInt.encode_ne_nil (by decide) key.generation)
        simp only [List.length_cons, List.length_append] at hlen
        omega

end Theta
