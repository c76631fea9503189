import Theta.Proofs.Handling

namespace Theta
open Lib Relation

section
variable {s : Scope}

/-- The local map and the order counters change only where a packet is requested. -/
theorem Move.fixed {m m' : Endpoint} (h : Move s m m') :
    m'.localInner = m.localInner ∧ m'.orders = m.orders := by
  cases h <;> exact ⟨rfl, rfl⟩

theorem moves_fixed {m m' : Endpoint} (h : ReflTransGen (Move s) m m') :
    m'.localInner = m.localInner ∧ m'.orders = m.orders := by
  induction h with
  | refl => exact ⟨rfl, rfl⟩
  | tail _ h ih => exact ⟨h.fixed.1.trans ih.1, h.fixed.2.trans ih.2⟩

/-- A connection never leaves the transfer stage. -/
theorem Move.transfer_stays {m m' : Endpoint} (h : Move s m m')
    (hst : m.state = .transfer) : m'.state = .transfer := by
  cases h with
  | switch => rfl
  | confirm _ _ last => rw [hst] at last; cases last
  | finish _ _ stage => rw [hst] at stage; cases stage
  | _ => exact hst

theorem transfer_stays {m m' : Endpoint} (h : ReflTransGen (Move s) m m')
    (hst : m.state = .transfer) : m'.state = .transfer :=
  invariant_of_step (P := fun m => m.state = .transfer) (fun _ _ h => h.transfer_stays) h hst

/-- A quiet call leaves the stage, the other side's channels and what was received alone. -/
structure Quiet (s : Scope) : Prop where
  switches : ¬ s.switches
  handles : ¬ s.handles
  registers : ¬ s.registers
  holds : ¬ s.holds
  acks : ∀ key, ¬ s.acks key

/-- The parts of a connection that only a handled packet changes. -/
structure SameReceipts (m m' : Endpoint) : Prop where
  state : m'.state = m.state
  notLocalInner : m'.notLocalInner = m.notLocalInner
  orderers : m'.orderers = m.orderers
  buffers : m'.buffers = m.buffers

theorem SameReceipts.refl (m : Endpoint) : SameReceipts m m := ⟨rfl, rfl, rfl, rfl⟩

theorem SameReceipts.trans {m m1 m2 : Endpoint} (h1 : SameReceipts m m1)
    (h2 : SameReceipts m1 m2) : SameReceipts m m2 :=
  ⟨h2.state.trans h1.state, h2.notLocalInner.trans h1.notLocalInner,
    h2.orderers.trans h1.orderers, h2.buffers.trans h1.buffers⟩

theorem Move.same_receipts {m m' : Endpoint} (hq : Quiet s) (h : Move s m m') :
    SameReceipts m m' := by
  cases h with
  | switch _ _ hw => exact absurd hw hq.switches
  | confirm _ key _ hk => exact absurd hk (hq.acks key)
  | finish _ _ _ hr => exact absurd hr hq.registers
  | register _ _ _ _ _ _ _ _ hr => exact absurd hr hq.registers
  | hold _ hh => exact absurd hh hq.holds
  | push _ _ _ hd => exact absurd hd hq.handles
  | _ => exact ⟨rfl, rfl, rfl, rfl⟩

theorem same_receipts {m m' : Endpoint} (hq : Quiet s) (h : ReflTransGen (Move s) m m') :
    SameReceipts m m' := by
  induction h with
  | refl => exact .refl m
  | tail _ h ih => exact ih.trans (h.same_receipts hq)

theorem Move.same_joiner {s : Scope} {m m' : Endpoint} (hj : ¬ s.joins) (h : Move s m m') :
    m'.joiner = m.joiner := by
  cases h with
  | join _ h => exact absurd h hj
  | _ => rfl

theorem same_joiner {s : Scope} {m m' : Endpoint} (hj : ¬ s.joins)
    (h : ReflTransGen (Move s) m m') : m'.joiner = m.joiner := by
  induction h with
  | refl => rfl
  | tail _ h ih => exact (h.same_joiner hj).trans ih

theorem Move.same_checker {m m' : Endpoint} (hr : ∀ m key d, ¬ s.records m key d) (hw : ¬ s.switches)
    (h : Move s m m') : m'.resendKeyDuplicateChecker = m.resendKeyDuplicateChecker := by
  cases h with
  | record key d records _ => exact absurd records (hr m key d)
  | switch _ _ switches => exact absurd switches hw
  | _ => rfl

theorem same_checker {m m' : Endpoint} (hr : ∀ m key d, ¬ s.records m key d) (hw : ¬ s.switches)
    (h : ReflTransGen (Move s) m m') :
    m'.resendKeyDuplicateChecker = m.resendKeyDuplicateChecker := by
  induction h with
  | refl => rfl
  | tail _ h ih => exact (h.same_checker hr hw).trans ih

theorem acknowledging_quiet {p : ChannelProvider} {d : Bytes} : Quiet (acknowledging p d) :=
  ⟨id, id, id, id, fun _ => id⟩

/-- A packet that reaches its handler was completed by the joiner of the state before, and
nothing that was received earlier has changed on the way. -/
theorem Reaches.prepared {p : ChannelProvider} {d payload : Bytes} {order : Option U32}
    {inc : Incoming} {m m' : Endpoint} (h : Reaches p d m inc order payload m')
    (hc : (readPacket p d m).2.Compact) :
    SameReceipts (readPacket p d m).2 m' ∧
      completes (readPacket p d m).2.joiner inc = some (order, payload) ∧
      ∃ joiner, m' = { (acknowledgeIfNeeded d inc.header.resendKey (readPacket p d m).2).2 with
        joiner := joiner } := by
  have hack := acknowledge_acknowledging hc h.read
  obtain ⟨r, joiner, hrec, hcomplete, _⟩ := receive_cases inc
    (acknowledgeIfNeeded d inc.header.resendKey (readPacket p d m).2).2
  rw [h.received, Prod.mk.injEq] at hrec
  obtain ⟨hr, rfl⟩ := hrec
  have hcomplete := hcomplete _ hr.symm
  rw [same_joiner id hack] at hcomplete
  have hsame := same_receipts acknowledging_quiet hack
  exact ⟨⟨hsame.state, hsame.notLocalInner, hsame.orderers, hsame.buffers⟩, hcomplete, joiner, rfl⟩

theorem Move.compact {m m' : Endpoint} (h : Move s m m') (hc : m.Compact) : m'.Compact := by
  cases h with
  | flushed => exact Nat.zero_le _
  | buffer _ _ _ room => exact room
  | switch _ _ _ => exact Nat.zero_le _
  | _ => exact hc

theorem moves_compact {m m' : Endpoint} (h : ReflTransGen (Move s) m m') (hc : m.Compact) :
    m'.Compact :=
  invariant_of_step (fun _ _ h => h.compact) h hc

/-- What happens to a datagram before its channel's handler. -/
def preparing (p : ChannelProvider) (d : Bytes) : Scope where
  sends m base kind := base = m.ackPacket ∧ kind = ackChannel
  records m key d' := d' = d ∧ ReadsKey p m key d
  acks _ := False
  joins := True
  switches := True

/-- A datagram is prepared, and then it is handed to its channel's handler unless it is rejected or
kept. -/
theorem handle_message_prepared {p : ChannelProvider} (now : Nat) {d : Bytes} {m : Endpoint}
    (hc : (readPacket p d m).2.Compact) :
    ∃ m1, ReflTransGen (Move (preparing p d)) m m1 ∧
      ((handleMessage p now d m).2 = m1 ∨
      ∃ inc order payload, Reaches p d m inc order payload m1 ∧
        (handleMessage p now d m).1 = (deliver p inc.globalChannelId inc.channel order payload m1).1 ∧
        ∃ time, (handleMessage p now d m).2 =
          { (deliver p inc.globalChannelId inc.channel order payload m1).2 with
            lastTimeReceivedPacket := time }) := by
  have hread : ReflTransGen (Move (preparing p d)) m (readPacket p d m).2 :=
    read_packet_moves trivial m
  rcases handle_message_cases p now d m with ⟨result, m', he, _, _, hend⟩ | ⟨inc, hinc, hrest⟩
  · rw [he] at hread
    exact ⟨m', hread, Or.inl hend⟩
  have hack : ReflTransGen (Move (preparing p d)) (readPacket p d m).2
      (acknowledgeIfNeeded d inc.header.resendKey (readPacket p d m).2).2 := by
    have hagain : readPacket p d (readPacket p d m).2 = (.ok inc, (readPacket p d m).2) :=
      read_packet_again (Prod.ext hinc rfl)
    exact acknowledge_if_needed_moves hc (fun key hkey => ⟨rfl, inc, hagain, hkey⟩)
      (fun _ => ⟨rfl, rfl⟩)
  have hacked := hread.trans hack
  rcases hrest with ⟨_, he⟩ | ⟨_, ⟨_, joiner, he⟩ | ⟨order, payload, m', hreach, he⟩⟩
  · exact ⟨_, hacked, Or.inl (by rw [he])⟩
  · exact ⟨_, hacked.tail (.join _ joiner trivial), Or.inl he⟩
  · obtain ⟨_, _, joiner, rfl⟩ := hreach.prepared hc
    obtain ⟨hresult, time, hend⟩ := touch_ends
      (deliver p inc.globalChannelId inc.channel order payload) _ now
    rw [← he] at hresult hend
    exact ⟨_, hacked.tail (.join _ joiner trivial), Or.inr ⟨inc, order, payload, hreach, hresult,
      time, hend⟩⟩

/-- In the transfer stage no channel is registered. -/
theorem deliver_transfer_moves {p : ChannelProvider} {globalId : U32} {channel : ConnectionChannel}
    {order : Option U32} {payload : Bytes} {m : Endpoint} (hw : s.switches) (hd : s.handles)
    (hk : ∀ key, s.acks key) (hh : s.holds) (hst : m.state = .transfer) :
    ReflTransGen (Move s) m (deliver p globalId channel order payload m).2 := by
  have delivered : ReflTransGen (Move s) m (deliver p globalId channel order payload m).2 ∧
      (deliver p globalId channel order payload m).2.state = .transfer := by
    refine deliver_keeps (J := fun t => ReflTransGen (Move s) m t ∧ t.state = .transfer)
      (fun t orderers ht => ⟨.tail ht.1 (.hold t orderers hh), ht.2⟩) ?_ ⟨.refl, hst⟩
    rintro packet - t ⟨before, ht⟩
    have handled : ReflTransGen (Move s) t (handlePacket p globalId channel packet t).2 :=
      handle_packet_moves hw hd (fun key _ => hk key) (fun hne => absurd ht hne)
    exact ⟨before.trans handled, transfer_stays handled ht⟩
  exact delivered.1

/-- The acknowledgements of a tick. -/
def flushing : Scope where
  sends m base kind := base = m.ackPacket ∧ kind = ackChannel
  records _ _ _ := False
  acks _ := False

theorem flushing_quiet : Quiet flushing := ⟨id, id, id, id, fun _ => id⟩

/-- One repeated datagram of the packets held. -/
def Resent (held : List (Option ReliableBufferedPacket)) (m m' : Endpoint) : Prop :=
  ∃ packet, some packet ∈ held ∧ m' = { m with log := m.log ++ [.sent packet.payload] }

theorem resent_moves {m m' : Endpoint} (h : ReflTransGen (Resent m.resender.packets.values) m m') :
    m'.resender = m.resender ∧ ReflTransGen (Move s) m m' := by
  induction h with
  | refl => exact ⟨rfl, .refl⟩
  | tail _ h ih =>
    obtain ⟨packet, held, rfl⟩ := h
    exact ⟨ih.1, ih.2.tail (.resend _ packet (ih.1 ▸ held))⟩

theorem visit_resent {delta : U32} {held : List (Option ReliableBufferedPacket)}
    {packet : ReliableBufferedPacket} (h : some packet ∈ held) (m : Endpoint) :
    ReflTransGen (Resent held) m (PacketResender.visit delta
      (fun packet => sendDatagram packet.payload) packet m).2 := by
  unfold PacketResender.visit
  split
  · dsimp only
    split
    · split
      · exact .single ⟨packet, h, rfl⟩
      · exact .refl
    · exact .refl
  · exact .refl

/-- Repeating datagrams adds them to the trace and nothing else. -/
theorem resent_log {m m' : Endpoint} {held : List (Option ReliableBufferedPacket)}
    (h : ReflTransGen (Resent held) m m') : ∃ events, m' = { m with log := m.log ++ events } := by
  induction h with
  | refl => exact ⟨[], by rw [List.append_nil]⟩
  | tail _ h ih =>
    obtain ⟨events, rfl⟩ := ih
    obtain ⟨packet, _, rfl⟩ := h
    exact ⟨events ++ [.sent packet.payload], by rw [List.append_assoc]⟩

/-- A tick repeats what is due and moves the clocks, and then flushes the acknowledgements. -/
theorem update_connection_cases (s : Scope) (delta : U32) (m : Endpoint) :
    ∃ resender events, (resender = m.resender ∨
        ∃ packets after, m.resender.packets.retainIf (PacketResender.visit delta
          (fun packet => sendDatagram packet.payload)) m = (.ok packets, after) ∧
          resender = { m.resender with packets := packets }) ∧
      ReflTransGen (Move s) m { m with resender := resender, log := m.log ++ events } ∧
      ((updateConnection delta m).2 = { m with resender := resender, log := m.log ++ events } ∨
        ∃ id, m.localInner.ackChannelId? = some id ∧ updateConnection delta m =
          ConnectionAcknowledgeBuffer.flush id
            { m with resender := resender, log := m.log ++ events }) := by
  have hloop : ReflTransGen (Resent m.resender.packets.values) m
      (m.resender.packets.retainIf (PacketResender.visit delta
        (fun packet => sendDatagram packet.payload)) m).2 :=
    Act.bind_moves (SlotMap.retain_loop_moves (fun v hv => visit_resent hv)) (fun _ _ => .refl)
  rcases hret : m.resender.packets.retainIf (PacketResender.visit delta
      (fun packet => sendDatagram packet.payload)) m with ⟨r, m1⟩
  rw [hret] at hloop
  obtain ⟨hsame, hmoves⟩ := resent_moves (s := s) hloop
  obtain ⟨events, rfl⟩ := resent_log hloop
  simp only [updateConnection, PacketResender.update, Act.bind_apply, Act.get_apply, hret]
  cases r with
  | err e => exact ⟨m.resender, events, Or.inl rfl, hmoves, Or.inl rfl⟩
  | panic => exact ⟨m.resender, events, Or.inl rfl, hmoves, Or.inl rfl⟩
  | ok packets =>
    refine ⟨{ m.resender with packets := packets }, events, Or.inr ⟨packets, _, rfl, rfl⟩,
      hmoves.tail ?_, ?_⟩
    · exact .clock _ delta packets (fun packet => sendDatagram packet.payload) m _ hret
    · simp only [Act.pure_apply, Act.modify_apply, localAckChannelId, Act.bind_apply,
        Act.get_apply, Act.lift_apply]
      cases hid : m.localInner.ackChannelId? with
      | none => exact Or.inl rfl
      | some id => exact Or.inr ⟨id, rfl, rfl⟩

theorem update_connection_moves {delta : U32} {m : Endpoint} (hc : m.Compact)
    (hs : ∀ m, s.sends m m.ackPacket ackChannel) :
    ReflTransGen (Move s) m (updateConnection delta m).2 := by
  obtain ⟨resender, events, _, hmoves, he | ⟨id, hid, he⟩⟩ := update_connection_cases s delta m
  · exact he ▸ hmoves
  · rw [he]
    exact hmoves.trans (flush_moves hid hc (hs _))

theorem next_order_some {channel : ConnectionChannel} {m : Endpoint} {order : U32}
    {orders : ChannelData U32} (ho : channel.channel.isOrdered = true)
    (hg : (m.orders.get m.state channel.localId : Outcome ConnectionError _) = .ok order)
    (hw : (m.orders.write m.state channel.localId (order + 1) : Outcome ConnectionError _) =
      .ok orders) :
    nextOrder channel m = (.ok (some order), { m with orders := orders }) := by
  simp only [nextOrder, ho, ↓reduceIte, Act.bind_apply, Act.get_apply, Act.lift_apply, hg, hw,
    Act.modify_apply, Act.pure_apply]

/-- Where an ordered channel's next order comes from. -/
theorem next_order_cases (channel : ConnectionChannel) (m : Endpoint) :
    (nextOrder channel m = (.panic, m)) ∨
    (channel.channel.isOrdered = false ∧ nextOrder channel m = (.ok none, m)) ∨
    ∃ order orders, channel.channel.isOrdered = true ∧
      (m.orders.get m.state channel.localId : Outcome ConnectionError _) = .ok order ∧
      (m.orders.write m.state channel.localId (order + 1) : Outcome ConnectionError _) =
        .ok orders ∧
      nextOrder channel m = (.ok (some order), { m with orders := orders }) := by
  cases ho : channel.channel.isOrdered with
  | false => exact Or.inr (Or.inl ⟨rfl, by simp [nextOrder, ho]⟩)
  | true =>
    rcases m.orders.get_ends ConnectionError m.state channel.localId with hg | ⟨order, hg⟩
    · exact Or.inl (by simp [nextOrder, ho, Act.bind_apply, hg])
    rcases m.orders.write_ends ConnectionError m.state channel.localId (order + 1) with
      hw | ⟨orders, hw⟩
    · left
      simp only [nextOrder, ho, ↓reduceIte, Act.bind_apply, Act.get_apply, Act.lift_apply, hg, hw]
    · exact Or.inr (Or.inr ⟨order, orders, rfl, hg, hw, next_order_some ho hg hw⟩)

/-- The channel that a request's packets are sent on. -/
def Addressed (p : ChannelProvider) (m : Endpoint) (channel : U32) (kind : ConnectionChannel) :
    Prop :=
  m.localInner.localId m.state channel = some kind.localId ∧
    ConnectionChannel.new m.state kind.localId channel p = some kind

/-- A send request: dropped, or noted and given to the channel. -/
theorem send_event_cases (p : ChannelProvider) (channel : U32) (payload : Bytes) (m : Endpoint) :
    ((∀ kind, ¬ Addressed p m channel kind) ∧ sendEvent p channel payload m = (.ok (), m)) ∨
    ∃ kind, Addressed p m channel kind ∧
      sendEvent p channel payload m = (do
        let _ ← sendPacket kind payload
        pure () : Call Unit) { m with log := m.log ++ [.called channel payload] } := by
  simp only [Addressed, sendEvent, Act.bind_apply, Act.get_apply]
  cases hl : m.localInner.localId m.state channel with
  | none => exact Or.inl ⟨by simp, rfl⟩
  | some localId =>
    simp only
    cases hk : ConnectionChannel.new m.state localId channel p with
    | none =>
      refine Or.inl ⟨fun kind h => ?_, rfl⟩
      obtain ⟨he, hnew⟩ := h
      rw [← Option.some.inj he, hk] at hnew
      cases hnew
    | some kind =>
      have hid : localId = kind.localId := by
        unfold ConnectionChannel.new at hk
        obtain ⟨k, _, rfl⟩ := Option.map_eq_some_iff.mp hk
        rfl
      exact Or.inr ⟨kind, ⟨congrArg some hid, hid ▸ hk⟩, rfl⟩

/-- A packet that is sent counts an order at most, and goes out. -/
theorem send_packet_ends {P : Endpoint → Prop} {channel : ConnectionChannel} {payload : Bytes}
    {m : Endpoint} (counted : ∀ orders, P { m with orders := orders })
    (sent : ∀ order t, P t → P (transmit channel order payload t).2) :
    P (sendPacket channel payload m).2 := by
  rw [sendPacket]
  rcases next_order_cases channel m with hn | ⟨_, hn⟩ | ⟨order, orders, _, _, _, hn⟩
  · rw [Act.bind_of_panic hn]
    exact counted m.orders
  · rw [Act.bind_of_ok hn]
    exact sent none m (counted m.orders)
  · rw [Act.bind_of_ok hn]
    exact sent (some order) _ (counted orders)

/-- A send request is dropped, or it is noted and its packet sent. -/
theorem send_event_ends {P : Endpoint → Prop} {p : ChannelProvider} {channel : U32}
    {payload : Bytes} {m : Endpoint} (dropped : P m)
    (noted : ∀ orders, P { m with orders := orders, log := m.log ++ [.called channel payload] })
    (sent : ∀ kind order t, P t → P (transmit kind order payload t).2) :
    P (sendEvent p channel payload m).2 := by
  rcases send_event_cases p channel payload m with ⟨_, h⟩ | ⟨kind, _, h⟩
  · rw [h]
    exact dropped
  · rw [h, Act.bind_pure_state]
    exact send_packet_ends noted (sent kind)

end

end Theta
