import Theta.Proofs.Moves
import Theta.Proofs.Places

namespace Theta
open Lib Relation

section
variable {s : Scope}

/-- The connection after a packet was given to the registration handler. -/
def Endpoint.handed (m : Endpoint) (packet : Bytes) : Endpoint :=
  { m with log := m.log ++ [.handed packet] }

/-- The orderer that the receiver of a channel keeps for it. -/
def ordererFor (channel : Channel) (id : U32) (orderers : ChannelData (Option PacketOrderer)) :
    ChannelData (Option PacketOrderer) :=
  match channel.orderability with
  | some orderedChannel =>
    orderers.setTransfer none id (some (PacketOrderer.new orderedChannel.capacity))
  | none => orderers

/-- The registration handler stops early, ends the registration or enters one channel. -/
theorem handle_registration_cases (p : ChannelProvider) (packet : Bytes) {m : Endpoint}
    {received : Bool} {lastKey : Option SlotMapKey}
    (hst : m.state = .registration received lastKey) :
    (∃ r, (∀ u, r ≠ .ok u) ∧ handleRegistration p packet m = (r, m.handed packet)) ∨
    (∃ rest, StrWithMaxLen.decode channelNameMaxLen packet = .ok ("", rest) ∧
      handleRegistration p packet m =
        convertToTransfer { m.handed packet with state := .registration true lastKey }) ∨
    (∃ name rest id rest' globalId mapper,
      StrWithMaxLen.decode channelNameMaxLen packet = .ok (name, rest) ∧ name ≠ "" ∧
      VarInt.decode 32 rest = .ok (id, rest') ∧ p.byName name = some globalId ∧
      m.notLocalInner.insert id globalId name = some mapper ∧
      ((p.byId globalId = none ∧ handleRegistration p packet m =
          (.panic, { m.handed packet with notLocalInner := mapper })) ∨
        ∃ channel, p.byId globalId = some channel ∧ handleRegistration p packet m =
          (.ok (), { m.handed packet with
            notLocalInner := mapper
            orderers := ordererFor channel id m.orderers }))) := by
  unfold handleRegistration
  simp only [emit, decoding, Act.bind_apply, Act.modify_apply, Act.lift_apply]
  cases hname : StrWithMaxLen.decode channelNameMaxLen packet with
  | err e => exact Or.inl ⟨_, by simp, rfl⟩
  | panic => exact Or.inl ⟨_, by simp, rfl⟩
  | ok r =>
    obtain ⟨name, rest⟩ := r
    by_cases he : name = ""
    · subst he
      refine Or.inr (Or.inl ⟨rest, rfl, ?_⟩)
      simp only [Outcome.mapErr, ↓reduceIte, Act.bind_apply, Act.modify_apply, hst]
      rfl
    simp only [Outcome.mapErr, he, ↓reduceIte, Act.bind_apply, Act.lift_apply]
    cases hid : VarInt.decode 32 rest with
    | err e => exact Or.inl ⟨_, by simp, rfl⟩
    | panic => exact Or.inl ⟨_, by simp, rfl⟩
    | ok r =>
      obtain ⟨id, rest'⟩ := r
      dsimp only
      split
      · exact Or.inl ⟨_, by simp, rfl⟩
      cases hg : p.byName name with
      | none => exact Or.inl ⟨_, by simp, rfl⟩
      | some globalId =>
        simp only [Act.bind_apply, Act.get_apply]
        cases hi : m.notLocalInner.insert id globalId name with
        | none => exact Or.inl ⟨_, by simp, rfl⟩
        | some mapper =>
          refine Or.inr (Or.inr ⟨name, rest, id, rest', globalId, mapper, rfl, he, hid, hg, hi, ?_⟩)
          simp only [Act.bind_apply, Act.modify_apply, Act.lift_apply]
          cases hc : p.byId globalId with
          | none => exact Or.inl ⟨rfl, rfl⟩
          | some channel =>
            refine Or.inr ⟨channel, rfl, ?_⟩
            simp only [Outcome.ofOption, ordererFor]
            cases channel.orderability <;> rfl

theorem handle_registration_moves {p : ChannelProvider} {packet : Bytes} {m : Endpoint}
    {received : Bool} {lastKey : Option SlotMapKey} (hst : m.state = .registration received lastKey)
    (hw : s.switches) (hr : s.registers) (hh : s.holds) :
    ReflTransGen (Move s) m (handleRegistration p packet m).2 := by
  have hand : Move s m (m.handed packet) := .hand m packet hr
  rcases handle_registration_cases p packet hst with ⟨r, _, h⟩ | ⟨rest, _, h⟩ |
    ⟨name, rest, id, rest', globalId, mapper, _, _, _, _, hi, hend⟩
  · rw [h]
    exact .single hand
  · rw [h]
    exact .head hand (.head (.finish _ received lastKey hst hr)
      (convert_to_transfer_moves hw _))
  · have register : Move s (m.handed packet) { m.handed packet with notLocalInner := mapper } :=
      .register _ received lastKey id globalId name mapper hst hi hr
    rcases hend with ⟨_, h⟩ | ⟨channel, _, h⟩
    · rw [h]
      exact .head hand (.single register)
    · rw [h]
      exact .head hand (.head register (.single (.hold _ _ hh)))

theorem handle_packet_moves {p : ChannelProvider} {globalId : U32} {channel : ConnectionChannel}
    {packet : Bytes} {m : Endpoint} (hw : s.switches) (hd : s.handles)
    (hk : ∀ key ∈ decodeKeys packet.length packet, s.acks key)
    (hr : m.state ≠ .transfer → channel.localId = channelManagementChannelIdRegistrationStage →
      s.registers ∧ s.holds) :
    ReflTransGen (Move s) m (handlePacket p globalId channel packet m).2 := by
  unfold handlePacket
  refine Act.bind_moves .refl (fun m1 hm => ?_)
  cases hm
  dsimp only [Act.get_apply]
  cases hst : m.state with
  | registration received lastKey =>
    simp only
    split
    · exact .head (.consume m packet hd) (Act.bind_moves (acknowledge_locally_moves hk _)
        (fun _ _ => convert_to_transfer_moves hw _))
    · split
      · rename_i hid
        have hr := hr (by simp [hst]) hid
        exact handle_registration_moves hst hw hr.1 hr.2
      · exact .refl
  | transfer =>
    simp only
    split
    · exact .head (.consume m packet hd) (acknowledge_locally_moves hk _)
    · split
      · exact .refl
      · cases m.buffers.get globalId with
        | none => exact .refl
        | some _ => exact .single (.push m globalId packet hst hd)

/-- The ways in which handing an ordered packet to its channel's orderer ends. -/
inductive Delivery (p : ChannelProvider) (globalId : U32) (channel : ConnectionChannel)
    (order : U32) (payload : Bytes) (m : Endpoint) :
    Outcome ConnectionError Unit → Endpoint → Prop where
  | missing : Delivery p globalId channel order payload m .panic m
  | absent (orderers : ChannelData (Option PacketOrderer))
      (slot : (m.orderers.get m.state channel.localId : Outcome ConnectionError _) = .ok none)
      (take : (m.orderers.write m.state channel.localId none : Outcome ConnectionError _) =
        .ok orderers) :
      Delivery p globalId channel order payload m .panic { m with orderers := orderers }
  | refused (o : PacketOrderer) (orderers : ChannelData (Option PacketOrderer))
      (e : PacketOrdererError)
      (slot : (m.orderers.get m.state channel.localId : Outcome ConnectionError _) = .ok (some o))
      (take : (m.orderers.write m.state channel.localId none : Outcome ConnectionError _) =
        .ok orderers)
      (push : o.push order.toNat payload = .err e) :
      Delivery p globalId channel order payload m (.err (.packetOrdererError e))
        { m with orderers := orderers }
  | overgrown (o : PacketOrderer) (orderers : ChannelData (Option PacketOrderer))
      (slot : (m.orderers.get m.state channel.localId : Outcome ConnectionError _) = .ok (some o))
      (take : (m.orderers.write m.state channel.localId none : Outcome ConnectionError _) =
        .ok orderers)
      (push : o.push order.toNat payload = .panic) :
      Delivery p globalId channel order payload m .panic { m with orderers := orderers }
  | stopped (o o' : PacketOrderer) (orderers : ChannelData (Option PacketOrderer))
      (slot : (m.orderers.get m.state channel.localId : Outcome ConnectionError _) = .ok (some o))
      (take : (m.orderers.write m.state channel.localId none : Outcome ConnectionError _) =
        .ok orderers)
      (push : o.push order.toNat payload = .ok o')
      (failed : (o'.retain (handlePacket p globalId channel)
        { m with orderers := orderers }).1 ≠ .ok ()) :
      Delivery p globalId channel order payload m
        (o'.retain (handlePacket p globalId channel) { m with orderers := orderers }).1
        (o'.retain (handlePacket p globalId channel) { m with orderers := orderers }).2.2
  | dropped (o o' : PacketOrderer) (orderers : ChannelData (Option PacketOrderer))
      (slot : (m.orderers.get m.state channel.localId : Outcome ConnectionError _) = .ok (some o))
      (take : (m.orderers.write m.state channel.localId none : Outcome ConnectionError _) =
        .ok orderers)
      (push : o.push order.toNat payload = .ok o')
      (handled : (o'.retain (handlePacket p globalId channel)
        { m with orderers := orderers }).1 = .ok ()) :
      Delivery p globalId channel order payload m .panic
        (o'.retain (handlePacket p globalId channel) { m with orderers := orderers }).2.2
  | done (o o' o'' : PacketOrderer) (orderers orderers' : ChannelData (Option PacketOrderer))
      (m' : Endpoint)
      (slot : (m.orderers.get m.state channel.localId : Outcome ConnectionError _) = .ok (some o))
      (take : (m.orderers.write m.state channel.localId none : Outcome ConnectionError _) =
        .ok orderers)
      (push : o.push order.toNat payload = .ok o')
      (handled : o'.retain (handlePacket p globalId channel) { m with orderers := orderers } =
        (.ok (), o'', m'))
      (back : (m'.orderers.write m.state channel.localId (some o'') : Outcome ConnectionError _) =
        .ok orderers') :
      Delivery p globalId channel order payload m (.ok ()) { m' with orderers := orderers' }

theorem deliver_delivery (p : ChannelProvider) (globalId : U32) (channel : ConnectionChannel)
    (order : U32) (payload : Bytes) (m : Endpoint) :
    Delivery p globalId channel order payload m
      (deliver p globalId channel (some order) payload m).1
      (deliver p globalId channel (some order) payload m).2 := by
  simp only [deliver, Act.bind_apply, Act.get_apply, Act.lift_apply, Act.modify_apply]
  rcases m.orderers.get_ends ConnectionError m.state channel.localId with hslot | ⟨slot, hslot⟩
  · rw [hslot]
    exact .missing
  rcases m.orderers.write_ends ConnectionError m.state channel.localId none with htake | ⟨orderers, htake⟩
  · rw [hslot, htake]
    exact .missing
  rw [hslot, htake]
  cases slot with
  | none => exact .absent orderers hslot htake
  | some o =>
    simp only [Outcome.ofOption]
    cases hpush : o.push order.toNat payload with
    | err e =>
      simp only [Outcome.mapErr]
      exact .refused o orderers e hslot htake hpush
    | panic =>
      simp only [Outcome.mapErr]
      exact .overgrown o orderers hslot htake hpush
    | ok o' =>
      simp only [Outcome.mapErr]
      have stopped : (o'.retain (handlePacket p globalId channel)
            { m with orderers := orderers }).1 ≠ .ok () →
          Delivery p globalId channel order payload m _ _ :=
        .stopped o o' orderers hslot htake hpush
      rcases hret : o'.retain (handlePacket p globalId channel) { m with orderers := orderers } with
        ⟨r, o'', m'⟩
      rw [hret] at stopped
      simp only [handleReady, hret]
      cases r with
      | err e => exact stopped (by simp)
      | panic => exact stopped (by simp)
      | ok u =>
        simp only
        rcases m'.orderers.write_ends ConnectionError m.state channel.localId (some o'') with hback | ⟨back, hback⟩
        · rw [hback]
          have dropped : Delivery p globalId channel order payload m .panic _ :=
            .dropped o o' orderers hslot htake hpush (by rw [hret])
          rwa [hret] at dropped
        · rw [hback]
          exact .done o o' o'' orderers back m' hslot htake hpush hret hback

/-- Handing on a packet keeps what each packet's handler keeps; the packet itself is all that is
handled when it has no order. -/
theorem deliver_keeps {J : Endpoint → Prop} {p : ChannelProvider} {globalId : U32}
    {channel : ConnectionChannel} {order : Option U32} {payload : Bytes} {m : Endpoint}
    (hold : ∀ t orderers, J t → J { t with orderers := orderers })
    (handle : ∀ packet, (order = none → packet = payload) →
      ∀ t, J t → J (handlePacket p globalId channel packet t).2)
    (hm : J m) : J (deliver p globalId channel order payload m).2 := by
  cases order with
  | none => exact handle payload (fun _ => rfl) m hm
  | some order =>
    have ready (o : PacketOrderer) (orderers : ChannelData (Option PacketOrderer)) :
        J (o.retain (handlePacket p globalId channel) { m with orderers := orderers }).2.2 :=
      o.retain_keeps (fun x => handle x (fun h => by cases h)) (hold m orderers hm)
    have h := deliver_delivery p globalId channel order payload m
    rcases hdel : deliver p globalId channel (some order) payload m with ⟨r, m'⟩
    rw [hdel] at h
    cases h with
    | missing => exact hm
    | absent orderers => exact hold m orderers hm
    | refused o orderers => exact hold m orderers hm
    | overgrown o orderers => exact hold m orderers hm
    | stopped o o' orderers => exact ready o' orderers
    | dropped o o' orderers => exact ready o' orderers
    | done o o' o'' orderers orderers' m1 _ _ _ handled _ =>
      have run := ready o' orderers
      rw [handled] at run
      exact hold m1 orderers' run

theorem deliver_moves {p : ChannelProvider} {globalId : U32} {channel : ConnectionChannel}
    {order : Option U32} {payload : Bytes} (hw : s.switches) (hd : s.handles)
    (hk : ∀ packet, (order = none → packet = payload) →
      ∀ key ∈ decodeKeys packet.length packet, s.acks key) (hr : s.registers) (hh : s.holds)
    (m : Endpoint) :
    ReflTransGen (Move s) m (deliver p globalId channel order payload m).2 :=
  deliver_keeps (fun t orderers ht => .tail ht (.hold t orderers hh))
    (fun packet hpacket _ ht => ht.trans
      (handle_packet_moves hw hd (hk packet hpacket) (fun _ _ => ⟨hr, hh⟩))) .refl

theorem read_packet_moves {p : ChannelProvider} {d : Bytes} (hw : s.switches) (m : Endpoint) :
    ReflTransGen (Move s) m (readPacket p d m).2 := by
  cases hd : PrimaryPacketMetadata.decode d with
  | err e =>
    rw [(read_packet_undecoded (by simp [hd])).1]
  | panic =>
    rw [(read_packet_undecoded (by simp [hd])).1]
  | ok r =>
    obtain ⟨m', ⟨⟨⟨lastKey, hst⟩, _⟩, rfl⟩ | ⟨_, rfl⟩, h⟩ :
      ∃ m', _ ∧ readPacket p d m = _ := read_packet_decoded hd
    · rw [h]
      exact .single (.switch m lastKey hst hw)
    · rw [h]

/-- A datagram's packet gets as far as its channel's handler, with this order and payload. -/
structure Reaches (p : ChannelProvider) (d : Bytes) (m : Endpoint) (inc : Incoming)
    (order : Option U32) (payload : Bytes) (m' : Endpoint) : Prop where
  read : (readPacket p d m).1 = .ok inc
  acknowledged : (acknowledgeIfNeeded d inc.header.resendKey (readPacket p d m).2).1 = .ok ()
  received : receive inc.channel.channel inc.header
    (acknowledgeIfNeeded d inc.header.resendKey (readPacket p d m).2).2 =
      (.ok (some (order, payload)), m')

/-- The key of a datagram that is read without a change of stage. -/
def ReadsKey (p : ChannelProvider) (m : Endpoint) (key : SlotMapKey) (d : Bytes) : Prop :=
  ∃ inc, readPacket p d m = (.ok inc, m) ∧ inc.header.resendKey = some key

/-- The acknowledgement of one datagram. -/
def acknowledging (p : ChannelProvider) (d : Bytes) : Scope where
  sends m base kind := base = m.ackPacket ∧ kind = ackChannel
  records m key d' := d' = d ∧ ReadsKey p m key d
  acks _ := False

theorem acknowledge_acknowledging {p : ChannelProvider} {d : Bytes} {m : Endpoint} {inc : Incoming}
    (hc : (readPacket p d m).2.Compact) (hread : (readPacket p d m).1 = .ok inc) :
    ReflTransGen (Move (acknowledging p d)) (readPacket p d m).2
      (acknowledgeIfNeeded d inc.header.resendKey (readPacket p d m).2).2 := by
  have hagain : readPacket p d (readPacket p d m).2 = (.ok inc, (readPacket p d m).2) :=
    read_packet_again (Prod.ext hread rfl)
  exact acknowledge_if_needed_moves hc (fun key hkey => ⟨rfl, inc, hagain, hkey⟩)
    (fun _ => ⟨rfl, rfl⟩)

/-- The message that a packet completes for its channel. -/
def completes (joiner : PacketSegmentJoiner) (inc : Incoming) : Option (Option U32 × Bytes) :=
  match inc.header.segment with
  | none => some (inc.header.order, inc.header.payload)
  | some metadata =>
    match (PacketSegmentJoiner.add metadata inc.header.payload true joiner).1 with
    | .ok (some full) =>
      match joinSegments inc.channel.channel full with
      | .ok message => some message
      | _ => none
    | _ => none

theorem completes_whole {joiner : PacketSegmentJoiner} {inc : Incoming}
    (h : inc.header.segment = none) :
    completes joiner inc = some (inc.header.order, inc.header.payload) := by
  rw [completes, h]

/-- Receiving changes the joiner only, and hands on the message that the packet completes. -/
theorem receive_cases (inc : Incoming) (m : Endpoint) :
    ∃ r joiner, receive inc.channel.channel inc.header m = (r, { m with joiner := joiner }) ∧
      (∀ message, r = .ok (some message) → completes m.joiner inc = some message) ∧
      (inc.header.segment = none → ∃ message, r = .ok (some message)) := by
  unfold receive completes
  cases inc.header.segment with
  | none => exact ⟨_, m.joiner, rfl, (fun message h => by cases h; rfl), fun _ => ⟨_, rfl⟩⟩
  | some metadata =>
    simp only [Act.bind_apply, addSegment]
    rcases PacketSegmentJoiner.add metadata inc.header.payload true m.joiner with ⟨full, joiner⟩
    cases full with
    | err e => exact ⟨_, joiner, rfl, (fun message h => by cases h), by simp⟩
    | panic => exact ⟨_, joiner, rfl, (fun message h => by cases h), by simp⟩
    | ok full =>
      cases full with
      | none => exact ⟨_, joiner, rfl, (fun message h => by cases h), by simp⟩
      | some full =>
        simp only [Outcome.mapErr, decoding, Act.bind_apply, Act.lift_apply]
        cases joinSegments inc.channel.channel full with
        | ok message => exact ⟨_, joiner, rfl, (fun message' h => by cases h; rfl), by simp⟩
        | err e => exact ⟨_, joiner, rfl, (fun message h => by cases h), by simp⟩
        | panic => exact ⟨_, joiner, rfl, (fun message h => by cases h), by simp⟩

/-- Noting the time of a handled packet changes neither the result nor anything else. -/
theorem touch_ends (x : Call Unit) (m : Endpoint) (now : Nat) :
    ((do x; Act.modify (fun m => { m with lastTimeReceivedPacket := now }) : Call Unit) m).1 =
        (x m).1 ∧
      ∃ time, ((do x; Act.modify (fun m => { m with lastTimeReceivedPacket := now }) :
        Call Unit) m).2 = { (x m).2 with lastTimeReceivedPacket := time } := by
  rcases hx : x m with ⟨r, t⟩
  simp only [Act.bind_apply, hx]
  cases r with
  | ok u => exact ⟨rfl, now, rfl⟩
  | err e => exact ⟨rfl, t.lastTimeReceivedPacket, rfl⟩
  | panic => exact ⟨rfl, t.lastTimeReceivedPacket, rfl⟩

/-- A datagram is rejected by its header, rejected or kept after its acknowledgement, or handed
to its channel's handler. -/
theorem handle_message_cases (p : ChannelProvider) (now : Nat) (d : Bytes) (m : Endpoint) :
    (∃ r m', readPacket p d m = (r, m') ∧ (∀ inc, r ≠ .ok inc) ∧
      (handleMessage p now d m).1 ≠ .ok () ∧ (handleMessage p now d m).2 = m') ∨
    ∃ inc, (readPacket p d m).1 = .ok inc ∧
      (((acknowledgeIfNeeded d inc.header.resendKey (readPacket p d m).2).1 ≠ .ok () ∧
        handleMessage p now d m =
          acknowledgeIfNeeded d inc.header.resendKey (readPacket p d m).2) ∨
      ((acknowledgeIfNeeded d inc.header.resendKey (readPacket p d m).2).1 = .ok () ∧
        ((inc.header.segment ≠ none ∧ ∃ joiner, (handleMessage p now d m).2 =
          { (acknowledgeIfNeeded d inc.header.resendKey (readPacket p d m).2).2 with
            joiner := joiner }) ∨
        ∃ order payload m', Reaches p d m inc order payload m' ∧
          handleMessage p now d m = (do
            deliver p inc.globalChannelId inc.channel order payload
            Act.modify (fun m => { m with lastTimeReceivedPacket := now })) m'))) := by
  rcases hread : readPacket p d m with ⟨r, m0⟩
  cases r with
  | err e =>
    left
    refine ⟨_, m0, rfl, by simp, ?_, ?_⟩ <;> rw [handleMessage, Act.bind_of_err hread]
    simp
  | panic =>
    left
    refine ⟨_, m0, rfl, by simp, ?_, ?_⟩ <;> rw [handleMessage, Act.bind_of_panic hread]
    simp
  | ok inc =>
    right
    refine ⟨inc, rfl, ?_⟩
    rw [handleMessage, Act.bind_of_ok hread]
    rcases hack : acknowledgeIfNeeded d inc.header.resendKey m0 with ⟨r, m1⟩
    cases r with
    | err e => exact Or.inl ⟨by simp, Act.bind_of_err hack⟩
    | panic => exact Or.inl ⟨by simp, Act.bind_of_panic hack⟩
    | ok u =>
      right
      refine ⟨rfl, ?_⟩
      rw [Act.bind_of_ok hack]
      obtain ⟨r, joiner, hrec, _, hwhole⟩ := receive_cases inc m1
      have kept (hr : ∀ message, r ≠ .ok (some message)) : inc.header.segment ≠ none :=
        fun hs => (hwhole hs).elim hr
      cases r with
      | err e => exact Or.inl ⟨kept (by simp), joiner, by rw [Act.bind_of_err hrec]⟩
      | panic => exact Or.inl ⟨kept (by simp), joiner, by rw [Act.bind_of_panic hrec]⟩
      | ok message =>
        rw [Act.bind_of_ok hrec]
        cases message with
        | none => exact Or.inl ⟨kept (by simp), joiner, rfl⟩
        | some message =>
          obtain ⟨order, payload⟩ := message
          refine Or.inr ⟨order, payload, { m1 with joiner := joiner }, ⟨?_, ?_, ?_⟩, rfl⟩
          · rw [hread]
          · rw [hread, hack]
          · rw [hread, hack]
            exact hrec

theorem handle_message_moves {p : ChannelProvider} {now : Nat} {d : Bytes} {m : Endpoint}
    (hc : (readPacket p d m).2.Compact) (hw : s.switches) (hj : s.joins)
    (hs : ∀ m, s.sends m m.ackPacket ackChannel)
    (hr : ∀ m key, ReadsKey p m key d → s.records m key d)
    (hd : ∀ inc order payload m', Reaches p d m inc order payload m' →
      ReflTransGen (Move s) m' (deliver p inc.globalChannelId inc.channel order payload m').2) :
    ReflTransGen (Move s) m (handleMessage p now d m).2 := by
  unfold handleMessage
  refine Act.bind_moves (read_packet_moves hw m) (fun inc hread => ?_)
  have hagain : readPacket p d (readPacket p d m).2 = (.ok inc, (readPacket p d m).2) :=
    read_packet_again (Prod.ext hread rfl)
  have hack : ReflTransGen (Move s) (readPacket p d m).2
      (acknowledgeIfNeeded d inc.header.resendKey (readPacket p d m).2).2 :=
    acknowledge_if_needed_moves hc (fun key hkey => hr _ key ⟨inc, hagain, hkey⟩) hs
  refine Act.bind_moves hack (fun _ hacked => ?_)
  refine Act.bind_moves (receive_moves hj _ _ _) (fun message hrec => ?_)
  cases message with
  | none => exact .refl
  | some message =>
    obtain ⟨order, payload⟩ := message
    refine Act.bind_moves (hd inc order payload _ ⟨hread, hacked, Prod.ext hrec rfl⟩)
      (fun _ _ => .single (.touch _ now))

end

end Theta
