import Theta.Proofs.Numbering
import Theta.Proofs.Rejoining
import Theta.Proofs.Soundness
import Theta.Proofs.StrayKeys
import Theta.Proofs.Vouching

namespace Theta
open Lib Relation

section
variable {p : ChannelProvider} {m m' : Endpoint}

/-- A buffer stays where it is. -/
theorem Work.buffered {g : U32} (h : Work p m m') (hm : (m.buffers.get g).isSome) :
    (m'.buffers.get g).isSome := by
  cases h with
  | move _ h =>
    cases h with
    | push globalId packet =>
      show ((m.buffers.modify globalId _).get g).isSome
      rw [GlobalChannelData.get_modify]
      split
      · rename_i he
        subst he
        simpa using hm
      · exact hm
    | _ => exact hm
  | _ => exact hm

theorem opened_buffered {channels : List (String × U32)} {now capacity : Nat}
    {mapper : ConnectionIdMapperInner} {entry : String × U32} (h : entry ∈ channels) :
    ((opened channels now capacity mapper).buffers.get entry.2).isSome := by
  have filled (entries : List (String × U32)) (buffers : GlobalChannelData (List Bytes))
      (h : (buffers.get entry.2).isSome ∨ entry ∈ entries) :
      ((entries.foldl (fun buffers entry => buffers.insert entry.2 []) buffers).get
        entry.2).isSome := by
    induction entries generalizing buffers with
    | nil => simpa using h
    | cons first rest ih =>
      refine ih _ ?_
      rw [GlobalChannelData.get_insert]
      rcases h with h | h
      · left
        split
        · rfl
        · exact h
      · rcases List.mem_cons.mp h with rfl | h
        · exact Or.inl (by rw [if_pos rfl]; rfl)
        · exact Or.inr h
  refine filled _ {} (Or.inr ?_)
  rwa [List.take_of_length_le (Nat.le_succ _)]

/-- Every channel of its own provider has a buffer. -/
theorem Reachable.buffered {r : Registry} {name : String} {g : U32} (h : Reachable r.provider m)
    (known : r.provider.byName name = some g) : (m.buffers.get g).isSome := by
  induction h with
  | initialized now m h =>
    obtain ⟨_, _, _, _, rfl⟩ := initialize_opened h
    exact opened_buffered ((sorted_perm r).mem_iff.mpr (Registry.by_name.mp known))
  | step input m m' before h ih =>
    have work : ReflTransGen (Work r.provider) m (perform r.provider input m).2 :=
      perform_work before.passed.compact
    rw [h.2] at work
    exact invariant_of_step (P := fun t : Endpoint => (t.buffers.get g).isSome)
      (fun _ _ h => h.buffered) work ih

/-- The packets that the resender holds stay in it. -/
def Retains (m m' : Endpoint) : Prop :=
  ∀ key packet, m.resender.packets.get key = some packet →
    m'.resender.packets.get key = some packet

theorem Retains.of_same (same : m'.resender = m.resender) : Retains m m' := by
  intro key packet held
  rwa [same]

/-- The key fits the buffer of acknowledgements, or the resender has a number left for the packet
that makes room for it. -/
def confirmable (m : Endpoint) : Option SlotMapKey → Bool
  | some key => decide ((m.acknowledgeBuffer ++ key.encode).length ≤ maxNonSegmentedPayloadLen) ||
      m.resender.packets.vacant.takes m.resender.capacity 1
  | none => true

end

section
variable {r : Registry} {m m' : Endpoint} {id : U32} {d : Bytes}

theorem flush_retains (hm : Flushable r m) (hid : m.localInner.ackChannelId? = some id)
    (slots : m.resender.packets.generations.length < 2 ^ 32)
    (free : m.resender.packets.vacant.takes m.resender.capacity 1 = true) :
    (ConnectionAcknowledgeBuffer.flush id m).1 ≠ .panic ∧
      Retains m (ConnectionAcknowledgeBuffer.flush id m).2 ∧
      ((ConnectionAcknowledgeBuffer.flush id m).1 = .ok () →
        m.resender.packets.len ≠ m.resender.capacity) := by
  obtain ⟨hinner, hsmall⟩ := ack_id_small hm.entered hid
  have unchanged : Retains m m := .of_same rfl
  rw [flush_eq hinner (fun _ => hsmall) hm.compact]
  unfold PacketResender.add
  by_cases full : m.resender.packets.len = m.resender.capacity
  · rw [if_pos full]
    exact ⟨by simp, unchanged, fun hok => by cases hok⟩
  rw [if_neg full]
  rw [SlotMap.takes, SlotMap.vacant_len, if_neg full] at free
  rcases SlotMap.vacant_add (ε := PacketResenderError) (δ := Unit) m.resender.packets
      (fun key => ReliableBufferedPacket.new
        (Packet.bytes { m.ackPacket with resendKey := some key }) 750 (-1)) with
    ⟨key, packets, hadd, hvacant⟩ | ⟨_, hvacant⟩
  · rw [hvacant] at free
    simp only [SlotMap.takes, Bool.and_true, SlotMap.vacant_get] at free
    obtain ⟨packet, hpacket⟩ := Option.isSome_iff_exists.mp free
    have fits : packets.Fits := Nat.le_trans (SlotMap.add_generations_lt hadd) slots
    have healthy := hm.tidy (Nat.le_of_lt slots)
    simp only [hadd, Outcome.ok_bind, hpacket]
    refine ⟨by simp, fun k held hget => ?_, fun _ => full⟩
    have other : k ≠ key := by
      rintro rfl
      exact SlotMap.add_fresh healthy fits hadd (SlotMap.get_spent hget)
    show packets.get k = some held
    rw [SlotMap.get_add healthy fits hadd, if_neg other]
    exact hget
  · rw [hvacant] at free
    cases free

/-- A packet of the transfer stage is acknowledged or refused, and the resender keeps its packets. -/
theorem acknowledge_retains {key : Option SlotMapKey} (hm : Flushable r m)
    (hid : m.localInner.ackChannelId? = some id)
    (slots : m.resender.packets.generations.length < 2 ^ 32)
    (safe : acknowledges m key = true → confirmable m key = true) :
    (acknowledgeIfNeeded d key m).1 ≠ .panic ∧ Retains m (acknowledgeIfNeeded d key m).2 ∧
      ((acknowledgeIfNeeded d key m).1 = .ok () → acknowledges m key = true) := by
  cases key with
  | none => exact ⟨by simp [acknowledgeIfNeeded], .of_same rfl, fun _ => rfl⟩
  | some key =>
    by_cases known : key ∈ m.resendKeyDuplicateChecker.set
    · rw [acknowledge_known known]
      exact ⟨by simp, .of_same rfl, fun hok => by cases hok⟩
    have hid' : (m.recording key d).localInner.ackChannelId? = some id := hid
    have room_iff : acknowledges m (some key) = true ↔
        (m.acknowledgeBuffer ++ key.encode).length ≤ maxNonSegmentedPayloadLen ∨
          m.resender.packets.len ≠ m.resender.capacity := by
      simp [acknowledges, known]
    rw [acknowledge_new known]
    simp only [localAckChannelId, ConnectionAcknowledgeBuffer.acknowledge, Act.bind_apply,
      Act.get_apply, Act.lift_apply, hid', Outcome.ofOption]
    by_cases room : (m.acknowledgeBuffer ++ key.encode).length ≤ maxNonSegmentedPayloadLen
    · have fits : ¬ ((m.recording key d).acknowledgeBuffer ++ key.encode).length >
          maxNonSegmentedPayloadLen := Nat.not_lt_of_le room
      rw [if_neg fits]
      exact ⟨by simp, .of_same rfl, fun _ => room_iff.mpr (Or.inl room)⟩
    have full : ((m.recording key d).acknowledgeBuffer ++ key.encode).length >
        maxNonSegmentedPayloadLen := Nat.lt_of_not_le room
    have free : m.resender.packets.vacant.takes m.resender.capacity 1 = true := by
      by_cases full : m.resender.packets.len = m.resender.capacity
      · rw [SlotMap.takes, SlotMap.vacant_len, if_pos full]
      · have confirmed := safe (room_iff.mpr (Or.inr full))
        simpa only [confirmable, room, decide_false, Bool.false_or] using confirmed
    have flushable : Flushable r (m.recording key d) :=
      ⟨hm.entered, hm.compact, hm.tidy, hm.stage⟩
    have flushed := flush_retains flushable hid' slots free
    simp only [if_pos full, Act.bind_apply]
    rcases hflush : ConnectionAcknowledgeBuffer.flush id (m.recording key d) with ⟨result, t⟩
    rw [hflush] at flushed
    obtain ⟨returns, retains, sent⟩ := flushed
    cases result with
    | ok _ => exact ⟨by simp, retains, fun _ => room_iff.mpr (Or.inr (sent rfl))⟩
    | err e => exact ⟨by simp, retains, fun hok => by cases hok⟩
    | panic => exact absurd rfl returns

end

section
variable {P Q : Registry} {m t : Endpoint}

/-- A datagram is read in the transfer stage as it was sent, unless its channel is unknown. -/
theorem Charted.reads {packet : Packet} (h : Charted Q (sortedChannels P.provider) m)
    (hst : m.state = .transfer) (id : packet.channelId.toNat < 2 ^ 31)
    (fits : ∀ name own kind, (sortedChannels P.provider)[packet.channelId.toNat]? = some (name, own) →
      Q.kind name = some kind → packet.Fits kind) :
    readPacket Q.provider packet.bytes m = (.err .unknownChannel, m) ∨
      ∃ name own kind g, (sortedChannels P.provider)[packet.channelId.toNat]? = some (name, own) ∧
        Q.provider.byName name = some g ∧ Q.kind name = some kind ∧
        readPacket Q.provider packet.bytes m = (.ok ⟨g, ⟨packet.channelId, kind⟩, packet.header⟩, m) := by
  have unresolved (hres : resolveChannel Q.provider m.state m.notLocalInner packet.channelId =
      .err .unknownChannel) : readPacket Q.provider packet.bytes m = (.err .unknownChannel, m) := by
    have hres : resolveChannel Q.provider m.state m.notLocalInner packet.primary.channelId =
        .err .unknownChannel := hres
    obtain ⟨m', hcase, hread⟩ : ∃ m', _ ∧ readPacket Q.provider packet.bytes m = _ :=
      read_packet_decoded (packet.decode_primary id)
    rcases hcase with ⟨speculates, _⟩ | ⟨_, rfl⟩
    · exact absurd speculates (not_speculates_transfer hst)
    · rw [hread, parsePacket, hres]
      rfl
  cases hg : m.notLocalInner.globalId m.state packet.channelId with
  | none =>
    refine Or.inl (unresolved ?_)
    rw [resolveChannel, hg]
  | some g =>
    cases hnew : ConnectionChannel.new m.state packet.channelId g Q.provider with
    | none =>
      refine Or.inl (unresolved ?_)
      rw [resolveChannel, hg]
      simp only [hnew]
    | some channel =>
      have hres : resolveChannel Q.provider m.state m.notLocalInner packet.channelId =
          .ok (g, channel) := by
        rw [resolveChannel, hg]
        simp only [hnew]
      rw [hst] at hg hnew
      obtain ⟨name, own, place, known⟩ := h.resolves (sorted_few P) hg
      have hkind : (Q.provider.byId g).map (ConnectionChannel.mk packet.channelId) =
          some channel := hnew
      obtain ⟨kind, hget, rfl⟩ := Option.map_eq_some_iff.mp hkind
      have named : Q.kind name = some kind := by
        rw [Registry.kind, known]
        exact hget
      exact Or.inr ⟨name, own, kind, g, place, known, named,
        read_packet_bytes id hres (fits name own kind place named)⟩

/-- The channel's orderer is in its slot, and the ring has not to grow beyond all memory for the
packet. -/
def orderable (m : Endpoint) (id : U32) : Option U32 → Bool
  | some order =>
    match (m.orderers.get m.state id : Outcome ConnectionError _) with
    | .ok (some o) => decide (o.distance order.toNat < maxVecLen ∨
        o.capacity ≤ o.distance order.toNat)
    | _ => false
  | none => true

end

section
variable {m t : Endpoint}

/-- A packet of an application's channel is pushed to its buffer. -/
theorem handle_application {p : ChannelProvider} {g : U32} {channel : ConnectionChannel}
    (packet : Bytes) (hst : m.state = .transfer)
    (hack : m.notLocalInner.ackChannelId? ≠ some channel.localId)
    (hmanage : m.notLocalInner.channelManagementChannelId? ≠ some channel.localId)
    (buffered : (m.buffers.get g).isSome) :
    handlePacket p g channel packet m =
      (.ok (), { m with buffers := m.buffers.modify g (· ++ [packet]) }) := by
  obtain ⟨buffer, hbuffer⟩ := Option.isSome_iff_exists.mp buffered
  simp only [handlePacket, Act.bind_apply, Act.get_apply, hst, if_neg hack, if_neg hmanage, hbuffer,
    Act.modify_apply]

/-- The state in which the packets of an application's channel are pushed. -/
structure Pushing (g l : U32) (m t : Endpoint) : Prop where
  stage : t.state = .transfer
  ack : t.notLocalInner.ackChannelId? ≠ some l
  management : t.notLocalInner.channelManagementChannelId? ≠ some l
  buffered : (t.buffers.get g).isSome
  resender : t.resender = m.resender

theorem Pushing.handle {p : ChannelProvider} {g : U32} {channel : ConnectionChannel}
    (h : Pushing g channel.localId m t) (packet : Bytes) :
    (handlePacket p g channel packet t).1 = .ok () ∧
      (handlePacket p g channel packet t).2.orderers = t.orderers ∧
      Pushing g channel.localId m (handlePacket p g channel packet t).2 := by
  rw [handle_application packet h.stage h.ack h.management h.buffered]
  refine ⟨rfl, rfl, h.stage, h.ack, h.management, ?_, h.resender⟩
  show ((t.buffers.modify g _).get g).isSome
  rw [GlobalChannelData.get_modify, if_pos rfl]
  simpa using h.buffered

/-- A packet of an application's channel is handed on or refused, and the resender is left alone. -/
theorem Pushing.deliver {p : ChannelProvider} {g : U32} {channel : ConnectionChannel}
    {order : Option U32} {payload : Bytes} (h : Pushing g channel.localId m t)
    (rings : Rings t.orderers) (ready : orderable t channel.localId order = true) :
    (deliver p g channel order payload t).1 ≠ .panic ∧
      (Theta.deliver p g channel order payload t).2.resender = m.resender := by
  cases order with
  | none =>
    obtain ⟨hok, _, after⟩ := h.handle (p := p) payload
    rw [Theta.deliver]
    exact ⟨by simp [hok], after.resender⟩
  | some order =>
    unfold orderable at ready
    rw [h.stage] at ready
    rcases t.orderers.get_ends ConnectionError .transfer channel.localId with hget | ⟨slot, hget⟩
    · simp [hget] at ready
    cases slot with
    | none => simp [hget] at ready
    | some o =>
      simp only [hget, decide_eq_true_eq] at ready
      obtain ⟨place, hplace, hread⟩ := ChannelData.get_ok.mp hget
      obtain rfl : .basic channel.localId.toNat = place := Option.some.inj hplace
      obtain ⟨taken, htake⟩ := ChannelData.write_of_read ConnectionError none hread
      obtain ⟨place, hplace, hthere⟩ := ChannelData.get_ok.mp
        (ChannelData.get_write htake)
      obtain rfl : .basic channel.localId.toNat = place := Option.some.inj hplace
      simp only [Theta.deliver, Act.bind_apply, Act.get_apply, Act.lift_apply, Act.modify_apply,
        h.stage, hget, htake, Outcome.ofOption]
      cases hpush : o.push order.toNat payload with
      | err e =>
        simp only [Outcome.mapErr]
        exact ⟨by simp, h.resender⟩
      | panic => exact absurd hpush (PacketOrderer.push_returns ready)
      | ok o' =>
        have bounded := ((rings _ _ hread).push hpush).1
        have start : Pushing g channel.localId m { t with orderers := taken } :=
          ⟨h.stage, h.ack, h.management, h.buffered, h.resender⟩
        obtain ⟨hok, after, same⟩ := PacketOrderer.retain_completes
          (I := fun _ u => Pushing g channel.localId m u ∧ u.orderers = taken)
          (handlePacket p g channel)
          (fun o u x hu _ => ⟨(hu.1.handle x).1, (hu.1.handle x).2.2, (hu.1.handle x).2.1.trans hu.2⟩)
          o' (PacketOrderer.push_inside (rings _ _ hread).sound hpush)
          (s := { t with orderers := taken }) ⟨start, rfl⟩
        simp only [Outcome.mapErr, handleReady]
        rcases hret : o'.retain (handlePacket p g channel) { t with orderers := taken } with
          ⟨result, o'', u⟩
        rw [hret] at hok after same
        obtain rfl : result = .ok () := hok
        obtain ⟨back, hback⟩ := ChannelData.write_of_read ConnectionError (some o'') hthere
        obtain rfl : u.orderers = taken := same
        rw [h.stage] at hret
        simp only [hret, hback]
        exact ⟨by simp, after.resender⟩

theorem legible_encoded_keys (keys : List SlotMapKey) (fuel : Nat) :
    legible fuel (keys.flatMap SlotMapKey.encode) = true := by
  induction keys generalizing fuel with
  | nil =>
    cases fuel with
    | zero => rfl
    | succ fuel => rfl
  | cons key rest ih =>
    cases fuel with
    | zero => rfl
    | succ fuel =>
      rw [List.flatMap_cons, legible, SlotMapKey.decode_encode]
      exact ih fuel

/-- Acknowledgements of keys that were issued take out no other packets. -/
theorem handle_keys {p : ChannelProvider} {g : U32} {channel : ConnectionChannel}
    {keys : List SlotMapKey} (hst : m.state = .transfer)
    (hack : m.notLocalInner.ackChannelId? = some channel.localId)
    (within : ∀ key ∈ keys, key.index.toNat < m.resender.packets.generations.length) :
    (handlePacket p g channel (keys.flatMap SlotMapKey.encode) m).1 ≠ .panic ∧
      ∀ key ∉ keys, (handlePacket p g channel (keys.flatMap SlotMapKey.encode)
        m).2.resender.packets.get key = m.resender.packets.get key := by
  have decoded : decodeKeys (keys.flatMap SlotMapKey.encode).length
      (keys.flatMap SlotMapKey.encode) = keys := decode_encoded_keys (Nat.le_refl _)
  have handled : handlePacket p g channel (keys.flatMap SlotMapKey.encode) m =
      acknowledgeLocally (keys.flatMap SlotMapKey.encode).length (keys.flatMap SlotMapKey.encode)
        { m with log := m.log ++ [.consumed (keys.flatMap SlotMapKey.encode)] } := by
    simp only [handlePacket, Act.bind_apply, Act.get_apply, hst, if_pos hack, emit,
      Act.modify_apply]
  rw [handled]
  refine ⟨(acknowledge_locally_panic_iff _ _ _).mpr ⟨legible_encoded_keys keys _, ?_⟩, ?_⟩
  · rw [decoded]
    exact within
  · refine acknowledge_locally_keeps (J := fun t : Endpoint => ∀ key ∉ keys,
      t.resender.packets.get key = m.resender.packets.get key) (fun key hkey t ht k hk => ?_)
      (fun _ _ => rfl)
    rw [decoded] at hkey
    have other : k ≠ key := by
      rintro rfl
      exact hk hkey
    rw [release_key_other _ other]
    exact ht k hk

end

/-- There are indices left for the slots, and the packet is refused, or there is room to acknowledge
it, its segments can be read once more and its orderer is there. -/
def Registry.wary (q : Registry) (m : Endpoint) : Input → Bool
  | .read _ d =>
    decide (m.resender.packets.generations.length < 2 ^ 32) &&
      match readPacket q.provider d m with
      | (.ok inc, t) =>
        !acknowledges t inc.header.resendKey ||
          (confirmable t inc.header.resendKey && joinable t inc &&
            match completes t.joiner inc with
            | some (order, _) => orderable t inc.channel.localId order
            | none => true)
      | _ => true
  | _ => true

/-- A packet of the acknowledge buffer, whose keys were received. -/
def AckDatagram (a : Endpoint) (keys : List SlotMapKey) (d : Bytes) : Prop :=
  (∀ key ∈ keys, ∃ d', .recorded key d' ∈ a.log) ∧
    ∃ key, d = Packet.bytes ⟨a.localInner.ackChannelId, none, none, key,
      keys.flatMap SlotMapKey.encode⟩

/-- Only acknowledgements take packets out of the resender. -/
def Confined (a : Endpoint) (d : Bytes) (m m' : Endpoint) : Prop :=
  ∀ key packet, m.resender.packets.get key = some packet →
    m'.resender.packets.get key = some packet ∨ ∃ keys, key ∈ keys ∧ AckDatagram a keys d

section
variable {P Q : Registry} {a m m' t : Endpoint} {d : Bytes}

theorem Retains.confined (h : Retains m m') : Confined a d m m' :=
  fun key packet held => Or.inl (h key packet held)

theorem Confined.after (h : Confined a d t m') (before : Retains m t) : Confined a d m m' :=
  fun key packet held => h key packet (before key packet held)

theorem Uttered.indexed {base : Packet} {kind : Channel} (h : Uttered P a base kind) :
    ∀ x, base.segment = some x → x.segment < x.segmentCount := by
  cases h with
  | announcement => exact fun x hx => by cases hx
  | acknowledgement => exact fun x hx => by cases hx
  | message _ _ _ _ _ _ _ _ _ _ _ _ indexed => exact indexed

/-- Whoever does not send on the built-in channels says on them what its acknowledge buffer
holds. -/
theorem Uttered.distinguished {base : Packet} {kind : Channel} {name : String} {own : U32}
    (h : Uttered P a base kind)
    (place : (sortedChannels P.provider)[base.channelId.toNat]? = some (name, own))
    (abstains : ∀ g payload, .called g payload ∈ a.log →
      P.provider.byName ackChannelName ≠ some g ∧
        P.provider.byName channelManagementChannelName ≠ some g) :
    (∃ keys : List SlotMapKey, name = ackChannelName ∧
      base = ⟨a.localInner.ackChannelId, none, none, none, keys.flatMap SlotMapKey.encode⟩ ∧
      ∀ key ∈ keys, ∃ d, .recorded key d ∈ a.log) ∨
    (name ≠ ackChannelName ∧ name ≠ channelManagementChannelName) := by
  have hlt := (List.getElem?_eq_some_iff.mp place).1
  have small := small_unregistered (Or.inl (Nat.lt_of_lt_of_le hlt (sorted_few P)))
  have hname := h.placed place
  cases h with
  | announcement => cases small
  | acknowledgement id keys entered channel known =>
    rcases channel with rfl | rfl
    · cases small
    rcases hname with ⟨_, hname, _⟩ | ⟨hname, hid, _, n, x, called, _⟩
    · exact Or.inl ⟨keys, hname, rfl, known⟩
    · obtain ⟨notAck, notManagement⟩ := abstains own x (mem_calls (List.mem_of_getElem? called))
      exact Or.inr ⟨fun he => notAck (he ▸ hname), fun he => notManagement (he ▸ hname)⟩
  | message _ _ g n payload entered addressed _ called =>
    have hplace := local_place entered addressed
    rw [place] at hplace
    obtain rfl : own = g := Option.some.inj hplace
    have named : P.provider.byName name = some own :=
      Registry.by_name.mpr ((sorted_perm P).mem_iff.mp (List.mem_of_getElem? place))
    obtain ⟨notAck, notManagement⟩ := abstains own payload (mem_calls (List.mem_of_getElem? called))
    exact Or.inr ⟨fun he => notAck (he ▸ named), fun he => notManagement (he ▸ named)⟩

/-- What was acknowledged and joined is handed on without a panic, and only acknowledgements take
packets out of the resender. -/
theorem deliver_confined {base : Packet} {kind kind' : Channel} {name : String} {own g : U32}
    {key : Option SlotMapKey} {j : PacketSegmentJoiner} {order : Option U32} {payload : Bytes}
    (charted : Charted Q (sortedChannels P.provider) m) (same : SameReceipts m t)
    (hst : m.state = .transfer) (rings : Rings m.orderers) (buffered : (m.buffers.get g).isSome)
    (uttered : Uttered P a base kind)
    (place : (sortedChannels P.provider)[base.channelId.toNat]? = some (name, own))
    (abstains : ∀ g payload, .called g payload ∈ a.log →
      P.provider.byName ackChannelName ≠ some g ∧
        P.provider.byName channelManagementChannelName ≠ some g)
    (within : ∀ key d', .recorded key d' ∈ a.log →
      key.index.toNat < t.resender.packets.generations.length)
    (completed : completes j ⟨g, ⟨base.channelId, kind'⟩,
      ({ base with resendKey := key } : Packet).header⟩ = some (order, payload))
    (ready : orderable t base.channelId order = true) :
    (deliver Q.provider g ⟨base.channelId, kind'⟩ order payload t).1 ≠ .panic ∧
      Confined a ({ base with resendKey := key } : Packet).bytes t
        (deliver Q.provider g ⟨base.channelId, kind'⟩ order payload t).2 := by
  have pushed (hack : t.notLocalInner.ackChannelId? ≠ some base.channelId)
      (hmanage : t.notLocalInner.channelManagementChannelId? ≠ some base.channelId) :
      (deliver Q.provider g ⟨base.channelId, kind'⟩ order payload t).1 ≠ .panic ∧
        Confined a ({ base with resendKey := key } : Packet).bytes t
          (deliver Q.provider g ⟨base.channelId, kind'⟩ order payload t).2 := by
    have pushing : Pushing g base.channelId t t :=
      ⟨same.state.trans hst, hack, hmanage, same.buffers ▸ buffered, rfl⟩
    have delivered := @Pushing.deliver t t Q.provider g ⟨base.channelId, kind'⟩ order payload
      pushing (same.orderers ▸ rings) ready
    exact ⟨delivered.1, Retains.confined (.of_same delivered.2)⟩
  have builtins := charted.builtins (sorted_few P) (sorted_names P) place
  rw [← same.notLocalInner] at builtins
  rcases uttered.distinguished place abstains with ⟨keys, hname, rfl, recorded⟩ | ⟨notAck, notManagement⟩
  -- The reader may know the channel without taking it for that of the acknowledgements.
  · by_cases hack : t.notLocalInner.ackChannelId? = some a.localInner.ackChannelId
    · obtain ⟨rfl, rfl⟩ : order = none ∧ payload = keys.flatMap SlotMapKey.encode := by
        cases (completes_whole (by rfl)).symm.trans completed
        exact ⟨rfl, rfl⟩
      have handled := @handle_keys t Q.provider g ⟨a.localInner.ackChannelId, kind'⟩ keys
        (same.state.trans hst) hack (fun k hk => (recorded k hk).elim fun d hd => within k d hd)
      refine ⟨handled.1, fun k packet held => ?_⟩
      by_cases hk : k ∈ keys
      · exact Or.inr ⟨keys, hk, recorded, key, rfl⟩
      · left
        rw [← held]
        exact handled.2 k hk
    · refine pushed hack fun he => ?_
      have hmanagement := builtins.2 (channel_management_channel_id he)
      rw [hname] at hmanagement
      exact absurd hmanagement (by decide)
  · exact pushed (fun he => notAck (builtins.1 (ack_channel_id he)))
      (fun he => notManagement (builtins.2 (channel_management_channel_id he)))

theorem acknowledge_same {p : ChannelProvider} {inc : Incoming} (hc : m.Compact)
    (hread : readPacket p d m = (.ok inc, m)) :
    SameReceipts m (acknowledgeIfNeeded d inc.header.resendKey m).2 ∧
      (acknowledgeIfNeeded d inc.header.resendKey m).2.joiner = m.joiner ∧
      m.resender.packets.generations.length ≤
        (acknowledgeIfNeeded d inc.header.resendKey m).2.resender.packets.generations.length := by
  have moves := acknowledge_acknowledging (by rw [hread]; exact hc) (congrArg Prod.fst hread)
  rw [hread] at moves
  exact ⟨same_receipts acknowledging_quiet moves, same_joiner id moves, generations_le moves⟩

/-- What a side says in the transfer stage is handled without a panic, and only its
acknowledgements take packets out of the reader's resender. -/
theorem read_confined {now : Nat} {key : Option SlotMapKey} {l : U32} (framed : Framed P Q)
    (charted : Charted Q (sortedChannels P.provider) m) (reachable : Reachable Q.provider m)
    (hst : m.state = .transfer) (hid : m.localInner.ackChannelId? = some l)
    (spoken : Spoken P a key d)
    (abstains : ∀ g payload, .called g payload ∈ a.log →
      P.provider.byName ackChannelName ≠ some g ∧
        P.provider.byName channelManagementChannelName ≠ some g)
    (within : ∀ key d', .recorded key d' ∈ a.log →
      key.index.toNat < m.resender.packets.generations.length)
    (wary : Q.wary m (.read now d) = true) :
    (handleMessage Q.provider now d m).1 ≠ .panic ∧
      Confined a d m (handleMessage Q.provider now d m).2 := by
  have hc := reachable.passed.compact
  cases spoken with
  | framed base kind uttered small segment reliable =>
    have small : ({ base with resendKey := key } : Packet).channelId.toNat < 2 ^ 31 := small
    rcases charted.reads hst small (fun name own kind' place known =>
        uttered.fits framed place known small segment reliable) with
      he | ⟨name, own, kind', g, place, hname, known, hread⟩
    · rw [handleMessage, Act.bind_of_err he]
      exact ⟨by simp, Retains.confined (.of_same rfl)⟩
    simp only [Registry.wary, hread, Bool.and_eq_true, Bool.or_eq_true, Bool.not_eq_true',
      decide_eq_true_eq] at wary
    obtain ⟨slots, wary⟩ := wary
    have safe (acks : acknowledges m key = true) := wary.resolve_left
      (fun he => Bool.noConfusion (acks.symm.trans he))
    have hkey : ({ base with resendKey := key } : Packet).header.resendKey = key := rfl
    have acked := acknowledge_retains (d := ({ base with resendKey := key } : Packet).bytes)
      ⟨reachable.counted.entered, hc, reachable.passed.tidy, hst⟩ hid slots
      (fun acks => (safe acks).1.1)
    obtain ⟨same, joiner, grown⟩ := acknowledge_same hc hread
    simp only [hkey] at same joiner grown
    rw [handleMessage, Act.bind_of_ok hread]
    simp only [hkey]
    rcases hack : acknowledgeIfNeeded ({ base with resendKey := key } : Packet).bytes key m with
      ⟨result, t⟩
    rw [hack] at acked same joiner grown
    obtain ⟨returns, retains, accepts⟩ := acked
    -- An acknowledgement that fails ends the call; it may have flushed the buffer into a new slot.
    cases result with
    | panic => exact absurd rfl returns
    | err e =>
      rw [Act.bind_of_err hack]
      exact ⟨by simp, retains.confined⟩
    | ok _ =>
    rw [Act.bind_of_ok hack]
    obtain ⟨⟨_, joins⟩, orders⟩ := safe (accepts rfl)
    have joins : joinable t ⟨g, ⟨base.channelId, kind'⟩,
        ({ base with resendKey := key } : Packet).header⟩ = true := by
      rw [joinable, joiner]
      exact joins
    have taken := receive_valid (joiner ▸ reachable.sound) uttered.indexed joins
    obtain ⟨received, joined, hrec, completed, _⟩ := receive_cases ⟨g, ⟨base.channelId, kind'⟩,
      ({ base with resendKey := key } : Packet).header⟩ t
    rw [hrec] at taken
    cases received with
    | panic => exact absurd rfl taken
    | err e =>
      rw [Act.bind_of_err hrec]
      exact ⟨by simp, retains.confined⟩
    | ok message =>
    rw [Act.bind_of_ok hrec]
    cases message with
    | none => exact ⟨by simp, retains.confined⟩
    | some message =>
      obtain ⟨order, payload⟩ := message
      have completed := completed _ rfl
      have same : SameReceipts m { t with joiner := joined } :=
        ⟨same.state, same.notLocalInner, same.orderers, same.buffers⟩
      have ready : orderable { t with joiner := joined } base.channelId order = true := by
        rw [joiner] at completed
        rw [completed] at orders
        unfold orderable
        rw [same.orderers, same.state]
        exact orders
      have delivered := deliver_confined charted same hst reachable.rings (reachable.buffered hname)
        uttered place abstains (fun k d hd => Nat.lt_of_lt_of_le (within k d hd) grown) completed
        ready
      obtain ⟨hret, _, hend⟩ := touch_ends (deliver Q.provider g ⟨base.channelId, kind'⟩ order
        payload) { t with joiner := joined } now
      dsimp only at hret hend ⊢
      rw [hret, hend]
      exact ⟨delivered.1, Confined.after delivered.2 retains⟩

end

/-- A key is acknowledged under the id of the acknowledgement channel. -/
theorem acknowledged_identified {m : Endpoint} {key : SlotMapKey} {d : Bytes}
    (hok : (acknowledgeIfNeeded d (some key) m).1 = .ok ()) :
    m.localInner.ackChannelId? ≠ none := by
  intro hid
  by_cases known : key ∈ m.resendKeyDuplicateChecker.set
  · rw [acknowledge_known known] at hok
    cases hok
  · have hid' : (m.recording key d).localInner.ackChannelId? = none := hid
    rw [acknowledge_new known] at hok
    simp only [localAckChannelId, Act.bind_apply, Act.get_apply, Act.lift_apply, hid',
      Outcome.ofOption] at hok
    cases hok

/-- Without an id for its acknowledgements, a connection waits for the last registration packet. -/
def Answerable (m : Endpoint) : Prop :=
  m.localInner.ackChannelId? = none → ∃ lastKey, m.state = .registration false lastKey

section
variable {P Q : Registry} {guard guard' : Endpoint → Input → Bool} {m m' : Endpoint} {s : Scope}

theorem Move.answerable (hr : ¬ s.registers) (h : Move s m m') (hm : Answerable m) :
    Answerable m' := by
  intro hid
  rw [h.fixed.1] at hid
  obtain ⟨lastKey, hst⟩ := hm hid
  cases h with
  | switch _ complete =>
    rw [complete] at hst
    cases hst
  | confirm received key last =>
    rw [last] at hst
    cases hst
    exact ⟨none, rfl⟩
  | finish _ _ _ registers => exact absurd registers hr
  | _ => exact ⟨lastKey, hst⟩

theorem moves_answerable (hr : ¬ s.registers) (h : ReflTransGen (Move s) m m')
    (hm : Answerable m) : Answerable m' :=
  invariant_of_step (fun _ _ h => h.answerable hr) h hm

theorem Answerable.read {a : Endpoint} {now : Nat} {d : Bytes} {key : Option SlotMapKey}
    (h : Answerable m) (hc : m.Compact) (spoken : Spoken P a key d) :
    Answerable (handleMessage Q.provider now d m).2 := by
  cases hid : m.localInner.ackChannelId? with
  | some l =>
    have work : ReflTransGen (Move (working Q.provider)) m (handleMessage Q.provider now d m).2 :=
      handle_message_work hc
    intro he
    rw [(moves_fixed work).1, hid] at he
    cases he
  | none =>
    have hread : ReflTransGen (Move (preparing Q.provider d)) m (readPacket Q.provider d m).2 :=
      read_packet_moves trivial m
    have hst : (readPacket Q.provider d m).2.state ≠ .transfer := by
      obtain ⟨lastKey, hst⟩ := moves_answerable id hread h (by rw [(moves_fixed hread).1, hid])
      simp [hst]
    have acknowledged {inc : Incoming} {result : Outcome ConnectionError Unit} {t : Endpoint}
        (hread : readPacket Q.provider d m = (.ok inc, m)) (hkey : inc.header.resendKey = key)
        (hack : acknowledgeIfNeeded d key m = (result, t)) : Answerable t := by
      have moves : ReflTransGen (Move (acknowledging Q.provider d)) m
          (acknowledgeIfNeeded d key m).2 :=
        acknowledge_if_needed_moves hc (fun k hk => ⟨rfl, inc, hread, hkey.trans hk⟩)
          (fun _ => ⟨rfl, rfl⟩)
      rw [hack] at moves
      exact moves_answerable id moves h
    refine handle_registering spoken hst h (fun _ _ ht => ht) ?_ ?_
    · intro i payload result t _ _ hread hack
      refine ⟨fun _ => acknowledged hread rfl hack, fun hok => ?_⟩
      have reliable : key.isSome = true := (read_packet_resolved hread).2.2
      obtain ⟨k, rfl⟩ := Option.isSome_iff_exists.mp reliable
      have hok : (acknowledgeIfNeeded d (some k) m).1 = .ok () := by rw [hack, hok]
      exact absurd hid (acknowledged_identified hok)
    · intro keys result t _ hread hack
      refine ⟨fun _ => acknowledged hread rfl hack, fun _ => ?_⟩
      have handled : ReflTransGen (Move handlingOnly) t (handlePacket Q.provider
          ackChannelIdRegistrationStage ⟨ackChannelIdRegistrationStage, ackChannel⟩
          (keys.flatMap SlotMapKey.encode) t).2 :=
        handle_packet_moves trivial trivial (fun _ _ => trivial) (fun _ he => absurd he (by decide))
      exact moves_answerable id handled (acknowledged hread rfl hack)

/-- Whoever comes to the transfer stage has an id for its acknowledgements. -/
theorem connected_answerable {s : Peer × Peer} (h : Connected P Q guard guard' s)
    (hst : s.2.endpoint.state = .transfer) : ∃ l, s.2.endpoint.localInner.ackChannelId? = some l := by
  have answerable : Answerable s.2.endpoint := by
    refine receiver_invariant (I := fun _ m => Answerable m) h (fun _ _ _ _ _ _ hm => hm)
      (fun _ _ _ _ _ _ _ _ => ⟨_, rfl⟩) ?_ ?_ ?_ (Or.inr hst)
    · intro _ m delta _ hreach _ hm
      have moves : ReflTransGen (Move flushing) m (updateConnection delta m).2 :=
        update_connection_moves hreach.passed.compact (fun _ => ⟨rfl, rfl⟩)
      exact moves_answerable id moves hm
    · intro _ m channel payload _ _ _ _ hm
      exact send_event_ends hm (fun _ => hm)
        (fun kind order t ht => moves_answerable id (transmit_sending kind order payload t) ht)
    · intro a m now d key _ hreach spoken _ _ hm
      exact hm.read hreach.passed.compact spoken
  cases hid : s.2.endpoint.localInner.ackChannelId? with
  | some l => exact ⟨l, rfl⟩
  | none =>
    obtain ⟨_, hwait⟩ := answerable hid
    rw [hst] at hwait
    cases hwait

/-- The keys that a side has recorded are within the slots of the peer that issued them. -/
theorem connected_within (framed : Framed Q P) {s : Peer × Peer}
    (h : Connected P Q guard guard' s) (live : s.2.stage = .live)
    (fits : s.2.endpoint.resender.packets.Fits) {key : SlotMapKey} {d : Bytes}
    (recorded : .recorded key d ∈ s.1.endpoint.log) :
    key.index.toNat < s.2.endpoint.resender.packets.generations.length := by
  obtain ⟨hreach, offered⟩ := (connected_standing h).2.reachable live
  obtain ⟨_, initializes⟩ := hreach.initializes
  have issued : .issued key d ∈ s.2.endpoint.log :=
    connected_recognized framed initializes.announceable.names (Party.exchange_swap h) fits _ recorded
  obtain ⟨g, hget, _⟩ := (hreach.keeping fits offered).spent key d issued
  exact (List.getElem?_eq_some_iff.mp hget).1

end

theorem Standing.entered {r : Registry} {peer : Peer} (h : Standing r peer)
    (hst : peer.endpoint.state = .transfer) :
    Entered (sortedChannels r.provider) peer.endpoint.localInner := by
  cases h with
  | closed => cases hst
  | live m reachable => exact reachable.counted.entered
  | lost m m' reachable work =>
    show Entered (sortedChannels r.provider) m'.localInner
    rw [work_local_inner work]
    exact reachable.counted.entered
  | refused now => exact absurd hst (initialize_registers r.provider now)

/-- The packets of the acknowledge buffer go out on a channel of their own. -/
theorem ack_channel_named {r : Registry} {m : Endpoint} {g : U32}
    (entered : Entered (sortedChannels r.provider) m.localInner)
    (addressed : m.localInner.localId .transfer g = some m.localInner.ackChannelId) :
    r.provider.byName ackChannelName = some g := by
  have hfew := sorted_few r
  obtain ⟨⟨name, own⟩, place, rfl⟩ := Option.map_eq_some_iff.mp (local_place entered addressed)
  have hlt := (List.getElem?_eq_some_iff.mp place).1
  have hid : m.localInner.ackChannelId ≠ nullChannelId := by
    intro he
    have hreg : channelManagementChannelIdRegistrationStage.toNat = 2 ^ 31 - 2 := rfl
    have hnull : nullChannelId.toNat = 2 ^ 31 := rfl
    unfold Few at hfew
    rw [he] at hlt
    omega
  have hname := number_get (by rw [List.length_map]; exact hfew)
    (entered_builtins entered hfew (sorted_names r)).1.symm hid
  rw [List.getElem?_map, place] at hname
  obtain rfl : name = ackChannelName := Option.some.inj hname
  exact Registry.by_name.mpr ((sorted_perm r).mem_iff.mp (List.mem_of_getElem? place))

/-- When the application of the left side sends on no built-in channel, whatever that side sends is
handled without a panic where the right side is wary of it, and takes no packet out of the right
side's resender but by the keys of the left side's acknowledge buffer, on whose channel the
application has sent nothing. -/
theorem application_data_confined {P Q : Registry} {guard' : Endpoint → Input → Bool}
    (framed : Framed P Q) (framed' : Framed Q P) {s : Peer × Peer}
    (h : Connected P Q P.abstains guard' s) (transfer : s.1.endpoint.state = .transfer)
    (live : s.2.stage = .live) (transfer' : s.2.endpoint.state = .transfer) {now : Nat} {d : Bytes}
    (sent : d ∈ s.1.endpoint.datagrams) (wary : Q.wary s.2.endpoint (.read now d) = true) :
    (handleMessage Q.provider now d s.2.endpoint).1 ≠ .panic ∧
    Confined s.1.endpoint d s.2.endpoint (handleMessage Q.provider now d s.2.endpoint).2 ∧
    ∀ g payload, .called g payload ∈ s.1.endpoint.log →
      s.1.endpoint.localInner.localId .transfer g ≠ some s.1.endpoint.localInner.ackChannelId := by
  have standing := (connected_standing h).1
  obtain ⟨_, initializes⟩ := standing.initialized transfer
  obtain ⟨key, spoken⟩ := standing.spoken sent
  obtain ⟨l, hid⟩ := connected_answerable h transfer'
  have slots : s.2.endpoint.resender.packets.generations.length < 2 ^ 32 := by
    simp only [Registry.wary, Bool.and_eq_true, decide_eq_true_eq] at wary
    exact wary.1
  have read := read_confined framed (connected_charted initializes.announceable.names h)
    ((connected_standing h).2.reachable live).1 transfer' hid spoken (connected_abstains h)
    (fun _ _ recorded => connected_within framed' h live (Nat.le_of_lt slots) recorded) wary
  refine ⟨read.1, read.2, fun g payload called addressed => ?_⟩
  exact (connected_abstains h g payload called).1
    (ack_channel_named (standing.entered transfer) addressed)

/-- The handshake, up to the change of both sides to the transfer stage. -/
def meeting : List (Side × Deed) := acquainting ++ [(.left, .tick 1), (.right, .read 3 4)]

/-- Both sides have sent a message. -/
def conversing : List (Side × Deed) := meeting ++ [(.right, .send 2 [7]), (.left, .send 2 [8])]

theorem application_data_confined_conversing :
    (abstaining chatRegistry chatRegistry conversing).1.endpoint.datagrams.getLast? =
      some [2, 0, 1, 1, 8] ∧
    (handleMessage chatRegistry.provider 4 [2, 0, 1, 1, 8]
      (abstaining chatRegistry chatRegistry conversing).2.endpoint).1 ≠ .panic ∧
    Confined (abstaining chatRegistry chatRegistry conversing).1.endpoint [2, 0, 1, 1, 8]
      (abstaining chatRegistry chatRegistry conversing).2.endpoint
      (handleMessage chatRegistry.provider 4 [2, 0, 1, 1, 8]
        (abstaining chatRegistry chatRegistry conversing).2.endpoint).2 ∧
    ∀ g payload,
      .called g payload ∈ (abstaining chatRegistry chatRegistry conversing).1.endpoint.log →
      (abstaining chatRegistry chatRegistry conversing).1.endpoint.localInner.localId .transfer g ≠
        some (abstaining chatRegistry chatRegistry conversing).1.endpoint.localInner.ackChannelId :=
  ⟨by decide +kernel, application_data_confined chat_framed chat_framed
    (abstaining_connected (by decide +kernel)) (by decide +kernel) (by decide +kernel)
    (by decide +kernel) (by decide +kernel) (by decide +kernel)⟩

/-- The right side sends a message; the left one sends the key of that message on the channel of the
acknowledgements, and nothing at all on the channel of the registration. -/
def impersonating : List (Side × Deed) :=
  meeting ++ [(.right, .send 2 [7]), (.left, .send 0 [0, 1]), (.left, .send 1 [])]

def Event.records (key : SlotMapKey) : Event → Bool
  | .recorded k _ => decide (k = key)
  | _ => false

theorem built_in_sends_act :
    Connected chatRegistry chatRegistry anyInput anyInput (chatting impersonating) ∧
    (chatting impersonating).1.endpoint.state = .transfer ∧
    (chatting impersonating).2.endpoint.state = .transfer ∧
    .called 0 [0, 1] ∈ (chatting impersonating).1.endpoint.log ∧
    .called 1 [] ∈ (chatting impersonating).1.endpoint.log ∧
    (chatting impersonating).1.endpoint.datagrams.drop 5 = [[0, 1, 1, 0, 1], [4, 0, 2, 1]] ∧
    (handleMessage chatRegistry.provider 4 [4, 0, 2, 1]
      (chatting impersonating).2.endpoint).1 = .panic ∧
    ¬ Confined (chatting impersonating).1.endpoint [0, 1, 1, 0, 1]
      (chatting impersonating).2.endpoint
      (handleMessage chatRegistry.provider 4 [0, 1, 1, 0, 1]
        (chatting impersonating).2.endpoint).2 := by
  have ran : exchangeAll chatRegistry chatRegistry anyInput anyInput impersonating ({}, {}) ≠
      none := by decide +kernel
  refine ⟨exchange_all (Option.getD_of_ne_none ran _).symm, by decide +kernel, by decide +kernel,
    by decide +kernel, by decide +kernel, by decide +kernel, by decide +kernel, fun confined => ?_⟩
  have held : (chatting impersonating).2.endpoint.resender.packets.get ⟨0, 1⟩ =
      some ⟨[2, 0, 0, 1, 7], 100, 3, 0⟩ := by decide +kernel
  have taken : (handleMessage chatRegistry.provider 4 [0, 1, 1, 0, 1]
      (chatting impersonating).2.endpoint).2.resender.packets.get ⟨0, 1⟩ = none := by
    decide +kernel
  have unrecorded : (chatting impersonating).1.endpoint.log.filter (Event.records ⟨0, 1⟩) = [] := by
    decide +kernel
  rcases confined _ _ held with kept | ⟨keys, hkey, known, _⟩
  · cases taken.symm.trans kept
  · obtain ⟨d, hd⟩ := known _ hkey
    exact (List.filter_eq_nil_iff.mp unrecorded) _ hd (by simp [Event.records])

end Theta
