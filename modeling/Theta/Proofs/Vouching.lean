import Theta.Proofs.Acknowledgements
import Theta.Proofs.Peers

namespace Theta
open Lib Relation

/-- The keys that a datagram of the registration stage acknowledges. -/
def answers (d : Bytes) : List SlotMapKey :=
  match PrimaryPacketMetadata.decode d with
  | .ok (primary, rest) =>
    if primary.channelId = ackChannelIdRegistrationStage then
      match readHeader ackChannel primary.segment rest with
      | .ok header => decodeKeys header.payload.length header.payload
      | _ => []
    else []
  | _ => []

/-- Each key that was acknowledged, or is in a packet of acknowledgements held for resending. -/
structure Conveyed (K : SlotMapKey → Prop) (m : Endpoint) : Prop where
  sent : ∀ d, .sent d ∈ m.log → ∀ key ∈ answers d, K key
  held : ∀ packet, some packet ∈ m.resender.packets.values → ∀ key ∈ answers packet.payload, K key

/-- Each key that was acknowledged or is about to be. -/
structure Vouched (K : SlotMapKey → Prop) (m : Endpoint) : Prop extends Conveyed K m where
  buffer : ∃ keys : List SlotMapKey, m.acknowledgeBuffer = keys.flatMap SlotMapKey.encode ∧
    ∀ key ∈ keys, K key

/-- The key was not recorded before, and its acknowledgement fits the buffer or can be sent to make
room for it. -/
def acknowledges (m : Endpoint) : Option SlotMapKey → Bool
  | some key => decide (key ∉ m.resendKeyDuplicateChecker.set) &&
      (decide ((m.acknowledgeBuffer ++ key.encode).length ≤ maxNonSegmentedPayloadLen) ||
        decide (m.resender.packets.len ≠ m.resender.capacity))
  | none => true

section
variable {K K' : SlotMapKey → Prop} {m m' t : Endpoint} {s : Scope} {d : Bytes} {id : U32}

/-- What is acknowledged without an error is a new key, with room for it. -/
theorem acknowledged_acknowledges {key : Option SlotMapKey} (hst : m.state ≠ .transfer)
    (hc : m.Compact) (hok : (acknowledgeIfNeeded d key m).1 = .ok ()) :
    acknowledges m key = true := by
  cases key with
  | none => rfl
  | some key =>
    by_cases known : key ∈ m.resendKeyDuplicateChecker.set
    · rw [acknowledge_known known] at hok
      cases hok
    by_cases room : (m.acknowledgeBuffer ++ key.encode).length ≤ maxNonSegmentedPayloadLen
    · simp only [acknowledges, known, room, not_false_eq_true, decide_true, Bool.true_or,
        Bool.and_self]
    by_cases full : m.resender.packets.len = m.resender.capacity
    · exfalso
      rw [acknowledge_new known] at hok
      simp only [localAckChannelId, Act.bind_apply, Act.get_apply, Act.lift_apply] at hok
      cases hid : (m.recording key d).localInner.ackChannelId? with
      | none =>
        rw [hid] at hok
        cases hok
      | some id =>
        rw [hid] at hok
        have refused : (m.recording key d).resender.packets.len =
            (m.recording key d).resender.capacity := full
        have full' : ((m.recording key d).acknowledgeBuffer ++ key.encode).length >
            maxNonSegmentedPayloadLen := Nat.lt_of_not_le room
        have compact : (m.recording key d).Compact := hc
        simp only [Outcome.ofOption, ConnectionAcknowledgeBuffer.acknowledge, Act.bind_apply,
          Act.get_apply, if_pos full', flush_eq (ack_channel_id hid) (fun he => absurd he hst)
          compact, PacketResender.add, if_pos refused] at hok
        cases hok
    · simp only [acknowledges, known, room, full, not_false_eq_true, decide_true, ne_eq,
        Bool.or_true, Bool.and_self]

theorem answers_packet {packet : Packet} (fits : packet.Fits ackChannel)
    (channel : packet.channelId = ackChannelIdRegistrationStage) :
    answers packet.bytes = decodeKeys packet.payload.length packet.payload := by
  have hid : packet.primary.channelId = ackChannelIdRegistrationStage := channel
  have hhead := packet.read_header fits
  rw [answers, packet.decode_primary fits.id]
  dsimp only
  rw [if_pos hid, show packet.primary.segment = packet.segment.isSome from rfl, hhead]
  rfl

theorem answers_other {packet : Packet} (id : packet.channelId.toNat < 2 ^ 31)
    (channel : packet.channelId ≠ ackChannelIdRegistrationStage) : answers packet.bytes = [] := by
  have hid : packet.primary.channelId ≠ ackChannelIdRegistrationStage := channel
  rw [answers, packet.decode_primary id]
  dsimp only
  rw [if_neg hid]

/-- What a datagram acknowledges is what its receiver reads in the registration stage. -/
theorem answers_read {p : ChannelProvider} {inc : Incoming} (hst : m.state ≠ .transfer)
    (hread : readPacket p d m = (.ok inc, m))
    (channel : inc.channel = ⟨ackChannelIdRegistrationStage, ackChannel⟩) :
    answers d = decodeKeys inc.header.payload.length inc.header.payload := by
  cases hd : PrimaryPacketMetadata.decode d with
  | err e =>
    exact absurd (congrArg Prod.fst hread) ((read_packet_undecoded (by simp [hd])).2 inc)
  | panic =>
    exact absurd (congrArg Prod.fst hread) ((read_packet_undecoded (by simp [hd])).2 inc)
  | ok r =>
    obtain ⟨primary, rest⟩ := r
    obtain ⟨m1, _, heq⟩ : ∃ m1, _ ∧ readPacket p d m = _ := read_packet_decoded hd
    rw [heq, Prod.mk.injEq] at hread
    obtain ⟨hparse, rfl⟩ := hread
    rw [parsePacket] at hparse
    obtain ⟨⟨g, kind⟩, hres, hrest⟩ := Outcome.bind_ok.mp hparse
    obtain ⟨header, hhead, hinc⟩ := Outcome.bind_ok.mp hrest
    cases hinc
    obtain rfl : kind = ⟨ackChannelIdRegistrationStage, ackChannel⟩ := channel
    have hid : primary.channelId = ackChannelIdRegistrationStage := (resolve_channel_id hres).1.symm
    cases hr : readHeader ackChannel primary.segment rest with
    | ok x =>
      rw [hr] at hhead
      cases hhead
      rw [answers, hd]
      dsimp only
      rw [if_pos hid, hr]
    | err e =>
      rw [hr] at hhead
      cases hhead
    | panic =>
      rw [hr] at hhead
      cases hhead

theorem Conveyed.mono (h : Conveyed K m) (more : ∀ key, K key → K' key) : Conveyed K' m :=
  ⟨fun d hd key hkey => more key (h.sent d hd key hkey),
    fun packet hp key hkey => more key (h.held packet hp key hkey)⟩

theorem Vouched.mono (h : Vouched K m) (more : ∀ key, K key → K' key) : Vouched K' m := by
  obtain ⟨keys, hbuffer, hknown⟩ := h.buffer
  exact ⟨h.toConveyed.mono more, keys, hbuffer, fun key hkey => more key (hknown key hkey)⟩

theorem Conveyed.more {events : List Event} (h : Conveyed K m) (log : m'.log = m.log ++ events)
    (silent : ∀ d, .sent d ∈ events → ∀ key ∈ answers d, K key)
    (held : ∀ packet', some packet' ∈ m'.resender.packets.values →
      ∀ key ∈ answers packet'.payload, K key) : Conveyed K m' := by
  refine ⟨fun d hd => ?_, held⟩
  rw [log] at hd
  rcases List.mem_append.mp hd with hd | hd
  · exact h.sent d hd
  · exact silent d hd

/-- What sends on other channels acknowledges no further key. -/
theorem Move.conveyed (h : Move s m m') (hm : Conveyed K m)
    (elsewhere : ∀ t base kind, s.sends t base kind →
      base.channelId ≠ ackChannelIdRegistrationStage) : Conveyed K m' := by
  have same (events : List Event) (log : m'.log = m.log ++ events)
      (quiet : ∀ d, .sent d ∉ events) (resender : m'.resender = m.resender) : Conveyed K m' := by
    apply hm.more log (fun d hd => absurd hd (quiet d))
    rw [resender]
    exact hm.held
  cases h with
  | issue base kind reliable key resender packet sends id segment hkind add stored =>
    have other : base.channelId ≠ ackChannelIdRegistrationStage := elsewhere _ _ _ sends
    have nothing : answers ({ base with resendKey := some key } : Packet).bytes = [] :=
      answers_other id other
    have added (x : ReliableBufferedPacket) (hx : some x ∈ resender.packets.values) :
        ∀ k ∈ answers x.payload, K k := by
      rcases SlotMap.mem_add (PacketResender.add_ok add).2.2 hx with hx | hx
      · cases hx
        intro k hk
        rw [ReliableBufferedPacket.new, nothing] at hk
        cases hk
      · exact hm.held x hx
    refine hm.more rfl (fun d hd => ?_) added
    obtain rfl : d = packet.payload := by simpa using hd
    exact added packet (List.mem_of_getElem? (SlotMap.get_eq_some.mp stored).1)
  | send base kind sends id =>
    refine hm.more rfl (fun d hd k hk => ?_) hm.held
    obtain rfl : d = base.bytes := by simpa using hd
    rw [answers_other id (elsewhere _ _ _ sends)] at hk
    cases hk
  | switch => exact hm.more (List.append_nil _).symm (by simp) (fun _ hx => absurd hx List.not_mem_nil)
  | release key packet resender remove =>
    exact hm.more rfl (by simp) fun x hx =>
      hm.held x (SlotMap.mem_remove (PacketResender.remove_ok remove).2 hx)
  | resend packet held =>
    refine hm.more rfl (fun d hd => ?_) hm.held
    obtain rfl : d = packet.payload := by simpa using hd
    exact hm.held packet held
  | clock delta packets func before after visited =>
    refine hm.more (List.append_nil _).symm (by simp) (fun x hx => ?_)
    obtain ⟨packet, held, hpayload⟩ := PacketResender.mem_clock visited hx
    rw [hpayload]
    exact hm.held packet held
  | record => exact same [_] rfl (by simp) rfl
  | confirm => exact same [_] rfl (by simp) rfl
  | consume => exact same [_] rfl (by simp) rfl
  | hand => exact same [_] rfl (by simp) rfl
  | _ => exact same [] (List.append_nil _).symm (by simp) rfl

theorem moves_conveyed (h : ReflTransGen (Move s) m m') (hm : Conveyed K m)
    (silent : ∀ t base kind, ¬ s.sends t base kind) : Conveyed K m' :=
  invariant_of_step
    (fun _ _ h ht => h.conveyed ht fun t base kind sends => absurd sends (silent t base kind)) h hm

/-- An initialization acknowledges nothing. -/
theorem initialize_conveyed (p : ChannelProvider) (now : Nat) :
    Conveyed K (initializeConnection p (.fresh now)).2 := by
  have fresh : Conveyed K (.fresh now) :=
    ⟨fun _ hd => absurd hd List.not_mem_nil, fun _ hp => absurd hp List.not_mem_nil⟩
  refine invariant_of_step (fun t t' h ht => ?_) (initialize_setup p now) fresh
  cases h with
  | move _ h =>
    refine h.conveyed ht (fun u base kind sends => ?_)
    obtain ⟨_, i, payload, _, rfl⟩ := sends
    show channelManagementChannelIdRegistrationStage ≠ ackChannelIdRegistrationStage
    decide
  | prepare => exact ⟨ht.sent, ht.held⟩
  | await => exact ⟨ht.sent, ht.held⟩

/-- A call that sends nothing leaves the acknowledgements alone. -/
theorem Vouched.handled (h : Vouched K m) (moves : ReflTransGen (Move s) m m')
    (silent : ∀ t base kind, ¬ s.sends t base kind) (steady : Steady m m') : Vouched K m' := by
  refine ⟨moves_conveyed moves h.toConveyed silent, ?_⟩
  rcases steady.kept with ⟨hbuffer, _, _⟩ | ⟨_, _, hbuffer, _⟩
  · rw [hbuffer]
    exact h.buffer
  · exact ⟨[], hbuffer, fun _ hkey => absurd hkey List.not_mem_nil⟩

/-- A flush acknowledges the keys of the buffer and no others. -/
theorem Vouched.flush (h : Vouched K m) (hid : m.localInner.ackChannelId? = some id)
    (hst : m.state ≠ .transfer) (hc : m.Compact) :
    Vouched K (ConnectionAcknowledgeBuffer.flush id m).2 := by
  obtain ⟨keys, hbuffer, hknown⟩ := h.buffer
  have channel : m.ackPacket.channelId = ackChannelIdRegistrationStage := by
    cases hm : m.state with
    | registration received lastKey => simp only [Endpoint.ackPacket, hm]
    | transfer => exact absurd hm hst
  have small : ackChannelIdRegistrationStage.toNat < 2 ^ 31 := by decide
  have conveyed (k : SlotMapKey) (key : SlotMapKey)
      (hkey : key ∈ answers ({ m.ackPacket with resendKey := some k } : Packet).bytes) : K key := by
    have fits : ({ m.ackPacket with resendKey := some k } : Packet).Fits ackChannel := by
      refine ⟨?_, (fun _ hs => by cases hs), rfl, rfl⟩
      show m.ackPacket.channelId.toNat < 2 ^ 31
      rw [channel]
      exact small
    rw [answers_packet fits channel] at hkey
    have hkey : key ∈ decodeKeys m.acknowledgeBuffer.length m.acknowledgeBuffer := hkey
    rw [hbuffer, decode_encoded_keys (Nat.le_refl _)] at hkey
    exact hknown key hkey
  rw [flush_eq (ack_channel_id hid) (fun he => absurd he hst) hc]
  split
  · rename_i k resender add
    split
    · rename_i packet stored
      have added (x : ReliableBufferedPacket) (hx : some x ∈ resender.packets.values) :
          ∀ key ∈ answers x.payload, K key := by
        rcases SlotMap.mem_add (PacketResender.add_ok add).2.2 hx with hx | hx
        · cases hx
          exact conveyed k
        · exact h.held x hx
      refine ⟨h.toConveyed.more rfl (fun d hd => ?_) added, [], rfl,
        fun _ hkey => absurd hkey List.not_mem_nil⟩
      obtain rfl : d = packet.payload := by simpa using hd
      exact added packet (List.mem_of_getElem? (SlotMap.get_eq_some.mp stored).1)
    · exact h
  · exact h
  · exact h

/-- The buffer takes the key of a packet that is acknowledged; where that fails, it does not. -/
theorem Vouched.acknowledge {key : SlotMapKey} (h : Vouched K m)
    (hid : m.localInner.ackChannelId? = some id) (hst : m.state ≠ .transfer) (hc : m.Compact)
    {result : Outcome ConnectionError Unit}
    (hack : ConnectionAcknowledgeBuffer.acknowledge key id m = (result, t)) :
    (result ≠ .ok () → Vouched K t) ∧
      (result = .ok () → Vouched (fun k => K k ∨ k = key) t) := by
  have written {u : Endpoint} (hu : Vouched K u)
      (buffer : ∃ keys : List SlotMapKey, u.acknowledgeBuffer = keys.flatMap SlotMapKey.encode ∧
        ∀ k ∈ keys, K k) :
      Vouched (fun k => K k ∨ k = key)
        { u with acknowledgeBuffer := u.acknowledgeBuffer ++ key.encode } := by
    obtain ⟨keys, hbuffer, hknown⟩ := buffer
    have before : Conveyed (fun k => K k ∨ k = key) u := hu.toConveyed.mono (fun _ => Or.inl)
    refine ⟨⟨before.sent, before.held⟩, keys ++ [key], by simp [hbuffer], fun k hk => ?_⟩
    rcases List.mem_append.mp hk with hk | hk
    · exact Or.inl (hknown k hk)
    · exact Or.inr (List.mem_singleton.mp hk)
  simp only [ConnectionAcknowledgeBuffer.acknowledge, Act.bind_apply, Act.get_apply] at hack
  by_cases full : (m.acknowledgeBuffer ++ key.encode).length > maxNonSegmentedPayloadLen
  · have flushed := h.flush hid hst hc
    simp only [if_pos full, Act.bind_apply] at hack
    rcases hflush : ConnectionAcknowledgeBuffer.flush id m with ⟨r, u⟩
    rw [hflush] at hack flushed
    cases r with
    | ok _ =>
      cases hack
      exact ⟨fun hne => absurd rfl hne, fun _ => written flushed flushed.buffer⟩
    | err e =>
      cases hack
      exact ⟨fun _ => flushed, fun hok => by cases hok⟩
    | panic =>
      cases hack
      exact ⟨fun _ => flushed, fun hok => by cases hok⟩
  · rw [if_neg full] at hack
    cases hack
    exact ⟨fun hne => absurd rfl hne, fun _ => written h h.buffer⟩

theorem Vouched.acknowledge_if_needed {key : Option SlotMapKey} (h : Vouched K m)
    (hst : m.state ≠ .transfer) (hc : m.Compact) {result : Outcome ConnectionError Unit}
    (hack : acknowledgeIfNeeded d key m = (result, t)) :
    (result ≠ .ok () → Vouched K t) ∧
      (result = .ok () → Vouched (fun k => K k ∨ key = some k) t) := by
  cases key with
  | none =>
    cases hack
    exact ⟨fun _ => h, fun _ => h.mono (fun _ => Or.inl)⟩
  | some key =>
    by_cases known : key ∈ m.resendKeyDuplicateChecker.set
    · rw [acknowledge_known known] at hack
      cases hack
      exact ⟨fun _ => h, fun hok => by cases hok⟩
    · rw [acknowledge_new known] at hack
      have recorded : Vouched K (m.recording key d) :=
        ⟨h.toConveyed.more rfl (by simp) h.held, h.buffer⟩
      simp only [localAckChannelId, Act.bind_apply, Act.get_apply, Act.lift_apply] at hack
      cases hid : (m.recording key d).localInner.ackChannelId? with
      | none =>
        rw [hid] at hack
        cases hack
        exact ⟨fun _ => recorded, fun hok => by cases hok⟩
      | some id =>
        rw [hid] at hack
        obtain ⟨fails, works⟩ := recorded.acknowledge hid hst hc hack
        exact ⟨fails, fun hok => (works hok).mono fun k hk => hk.imp_right fun he => by rw [he]⟩

/-- A tick acknowledges the keys of the buffer and no others. -/
theorem Vouched.tick {delta : U32} (h : Vouched K m) (hst : m.state ≠ .transfer) (hc : m.Compact) :
    Vouched K (updateConnection delta m).2 := by
  obtain ⟨resender, events, _, moves, ends⟩ := update_connection_cases handlingOnly delta m
  have visited : Vouched K { m with resender := resender, log := m.log ++ events } :=
    ⟨moves_conveyed moves h.toConveyed (fun _ _ _ => id), h.buffer⟩
  rcases ends with he | ⟨id, hid, he⟩
  · rw [he]
    exact visited
  · rw [he]
    exact visited.flush hid hst hc

end

end Theta
