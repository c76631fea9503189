import Theta.Proofs.Opening

namespace Theta
open Lib Relation

/-- A relation between the states before and after a call that allows everything that a call does
besides acknowledging and noting the time. -/
structure Tolerant (R : Endpoint → Endpoint → Prop) : Prop where
  refl : ∀ m, R m m
  trans : ∀ m1 m2 m3, R m1 m2 → R m2 m3 → R m1 m3
  emit : ∀ m event, R m { m with log := m.log ++ [event] }
  parts : ∀ (m : Endpoint) resender counter orders orderers joiner buffers notLocalInner,
    R m { m with
      resender := resender
      segmentKeysCounter := counter
      orders := orders
      orderers := orderers
      joiner := joiner
      buffers := buffers
      notLocalInner := notLocalInner }
  stage : ∀ (m : Endpoint) received lastKey received' lastKey',
    m.state = .registration received lastKey →
    R m { m with state := .registration received' lastKey' }
  switch : ∀ m lastKey, m.state = .registration true lastKey → R m m.switched

/-- A call that stays within a relation. -/
structure Follows (R : Endpoint → Endpoint → Prop) (x : Call α) : Prop where
  holds : ∀ m, R m (x m).2

namespace Follows
variable {R : Endpoint → Endpoint → Prop} {x : Call α} {f : α → Call β}

theorem bind (hR : Tolerant R) (hx : Follows R x) (hf : ∀ a, Follows R (f a)) :
    Follows R (x >>= f) where
  holds m := Act.bind_ends (P := R m) (fun _ _ _ => hx.holds m)
    (fun a _ => hR.trans _ _ _ (hx.holds m) ((hf a).holds _))

theorem of_same (hR : Tolerant R) (h : ∀ m, (x m).2 = m) : Follows R x where
  holds m := by
    rw [h]
    exact hR.refl m

theorem pure (hR : Tolerant R) (a : α) : Follows R (Pure.pure a : Call α) :=
  of_same hR fun _ => rfl

theorem get (hR : Tolerant R) : Follows R (Act.get : Call Endpoint) := of_same hR fun _ => rfl

theorem lift (hR : Tolerant R) (r : Outcome ConnectionError α) : Follows R (Act.lift r) :=
  of_same hR fun _ => rfl

theorem abort (hR : Tolerant R) : Follows R (Act.abort : Call α) := of_same hR fun _ => rfl

theorem throw (hR : Tolerant R) (e : ConnectionError) : Follows R (Act.throw e : Call α) :=
  of_same hR fun _ => rfl

theorem emit (hR : Tolerant R) (event : Event) : Follows R (Theta.emit event) :=
  ⟨fun m => hR.emit m event⟩

theorem modify {g : Endpoint → Endpoint} (h : ∀ m, R m (g m)) : Follows R (Act.modify g) := ⟨h⟩

end Follows

section
variable {R : Endpoint → Endpoint → Prop} (hR : Tolerant R)
include hR

theorem Tolerant.resender (m : Endpoint) (resender : PacketResender) :
    R m { m with resender := resender } :=
  hR.parts m resender m.segmentKeysCounter m.orders m.orderers m.joiner m.buffers m.notLocalInner

theorem Tolerant.orders (m : Endpoint) (orders : ChannelData U32) :
    R m { m with orders := orders } :=
  hR.parts m m.resender m.segmentKeysCounter orders m.orderers m.joiner m.buffers m.notLocalInner

theorem Tolerant.orderers (m : Endpoint) (orderers : ChannelData (Option PacketOrderer)) :
    R m { m with orderers := orderers } :=
  hR.parts m m.resender m.segmentKeysCounter m.orders orderers m.joiner m.buffers m.notLocalInner

theorem next_order_follows (channel : ConnectionChannel) : Follows R (nextOrder channel) := by
  unfold nextOrder
  split
  · refine .bind hR (.get hR) fun m => .bind hR (.lift hR _) fun order => ?_
    refine .bind hR (.lift hR _) fun orders => ?_
    exact .bind hR (.modify fun m => hR.orders m orders) fun _ => .pure hR _
  · exact .pure hR _

theorem send_real_packet_follows (channel : ConnectionChannel) (order : Option U32)
    (segment : Option PacketSegmentMetadata) (payload : Bytes) :
    Follows R (sendRealPacket channel order segment payload) := by
  constructor
  intro m
  rcases send_real_packet_cases channel order segment payload m with
    ⟨_, h⟩ | ⟨_, _, ⟨_, key, resender, packet, _, _, _, h⟩ | ⟨_, h⟩⟩
  · rw [h]
    exact hR.refl m
  · rw [h]
    have hsent := hR.emit (Endpoint.mk { m.toConnection with resender := resender }
      (m.log ++ [.issued key packet.payload])) (.sent packet.payload)
    simp only [List.append_assoc, List.cons_append, List.nil_append] at hsent
    exact hR.trans _ _ _ (hR.resender m resender) (hR.trans _ _ _ (hR.emit _ _) hsent)
  · rw [h]
    exact hR.emit m _

theorem send_segments_follows (channel : ConnectionChannel) (order : Option U32) (key : U32)
    (count i : Nat) (segments : List Bytes) :
    Follows R (sendSegments channel order key count i segments) := by
  induction segments generalizing i with
  | nil => exact .pure hR _
  | cons segment rest ih =>
    refine .bind hR (send_real_packet_follows hR ..) fun _ => ?_
    exact .bind hR (ih (i + 1)) fun _ => .pure hR _

theorem send_packet_follows (channel : ConnectionChannel) (payload : Bytes) :
    Follows R (sendPacket channel payload) := by
  refine .bind hR (next_order_follows hR channel) fun order => ?_
  unfold transmit
  split
  · refine .bind hR (.get hR) fun m => .bind hR (.modify fun m => ?_) fun _ =>
      send_segments_follows hR ..
    exact hR.parts m m.resender _ m.orders m.orderers m.joiner m.buffers m.notLocalInner
  · exact .bind hR (send_real_packet_follows hR ..) fun _ => .pure hR _

theorem send_event_follows (p : ChannelProvider) (channel : U32) (payload : Bytes) :
    Follows R (sendEvent p channel payload) := by
  unfold sendEvent
  refine .bind hR (.get hR) fun m => ?_
  split
  · exact .pure hR _
  · split
    · exact .pure hR _
    · refine .bind hR (.emit hR _) fun _ => ?_
      exact .bind hR (send_packet_follows hR ..) fun _ => .pure hR _

theorem read_packet_follows (p : ChannelProvider) (d : Bytes) : Follows R (readPacket p d) := by
  have speculate (id : U32) : Follows R (speculativelyTransfer id) := by
    constructor
    intro m
    rcases speculate_cases m id with ⟨⟨⟨lastKey, hst⟩, _⟩, h⟩ | ⟨_, h⟩
    · rw [h]
      exact hR.switch m lastKey hst
    · rw [h]
      exact hR.refl m
  refine .bind hR (.lift hR _) fun primary => .bind hR (speculate _) fun _ => ?_
  refine .bind hR (.get hR) fun m => .bind hR (.lift hR _) fun resolved => ?_
  exact .bind hR (.lift hR _) fun header => .pure hR _

theorem receive_follows (channel : Channel) (header : PacketHeader) :
    Follows R (receive channel header) := by
  unfold receive
  split
  · refine .bind hR ⟨fun m => ?_⟩ fun full => ?_
    · exact hR.parts m m.resender m.segmentKeysCounter m.orders m.orderers _ m.buffers
        m.notLocalInner
    · split
      · exact .bind hR (.lift hR _) fun _ => .pure hR _
      · exact .pure hR _
  · exact .pure hR _

theorem convert_to_transfer_follows : Follows R convertToTransfer := by
  constructor
  intro m
  rcases convert_to_transfer_cases m with ⟨hst, h⟩ | ⟨_, h⟩
  · rw [h]
    exact hR.switch m none hst
  · rw [h]
    exact hR.refl m

theorem release_key_follows (key : SlotMapKey) : Follows R (releaseKey key) := by
  constructor
  intro m
  have noticed : R m (m.noticing key) := by
    rcases noticing_cases m key with he | ⟨received, hst, he⟩
    · rw [he]
      exact hR.refl m
    · rw [he]
      exact hR.trans _ _ _ (hR.stage m received (some key) received none hst)
        (hR.emit _ (.confirmed key))
  rcases release_key_cases key m with ⟨_, he⟩ | ⟨_, he⟩ | ⟨packet, resender, _, he⟩
  · rw [he]
    exact noticed
  · rw [he]
    exact noticed
  · rw [he]
    exact hR.trans _ _ _ noticed
      (hR.trans _ _ _ (hR.resender _ resender) (hR.emit _ (.released key packet.payload)))

theorem acknowledge_locally_follows (fuel : Nat) (packet : Bytes) :
    Follows R (acknowledgeLocally fuel packet) := by
  induction fuel generalizing packet with
  | zero => exact .pure hR ()
  | succ fuel ih =>
    unfold acknowledgeLocally
    split
    · exact .bind hR (release_key_follows hR _) fun _ => ih _
    · exact .pure hR ()
    · exact .abort hR

theorem handle_registration_follows (p : ChannelProvider) (packet : Bytes) :
    Follows R (handleRegistration p packet) := by
  unfold handleRegistration
  refine .bind hR (.emit hR _) fun _ => .bind hR (.lift hR _) fun name => ?_
  dsimp only
  split
  · refine .bind hR (.modify fun m => ?_) fun _ => convert_to_transfer_follows hR
    cases hst : m.state with
    | registration received lastKey => exact hR.stage m received lastKey true lastKey hst
    | transfer =>
      have hsame : { m with state := .transfer } = m := by rw [← hst]
      rw [hsame]
      exact hR.refl m
  refine .bind hR (.lift hR _) fun id => ?_
  split
  · exact .abort hR
  split
  · exact .throw hR _
  refine .bind hR (.get hR) fun m => ?_
  split
  · exact .throw hR _
  refine .bind hR (.modify fun m => ?_) fun _ => .bind hR (.lift hR _) fun channel => ?_
  · exact hR.parts m m.resender m.segmentKeysCounter m.orders m.orderers m.joiner m.buffers _
  split
  · exact .modify fun m => hR.orderers m _
  · exact .pure hR ()

theorem handle_packet_follows (p : ChannelProvider) (globalId : U32) (channel : ConnectionChannel)
    (packet : Bytes) : Follows R (handlePacket p globalId channel packet) := by
  unfold handlePacket
  refine .bind hR (.get hR) fun m => ?_
  split
  · split
    · refine .bind hR (.emit hR _) fun _ => .bind hR (acknowledge_locally_follows hR _ _) fun _ => ?_
      exact convert_to_transfer_follows hR
    · split
      · exact handle_registration_follows hR p packet
      · exact .abort hR
  · split
    · exact .bind hR (.emit hR _) fun _ => acknowledge_locally_follows hR _ _
    · split
      · exact .abort hR
      · split
        · exact .abort hR
        · refine .modify fun m => ?_
          exact hR.parts m m.resender m.segmentKeysCounter m.orders m.orderers m.joiner _
            m.notLocalInner

theorem handle_ready_follows (p : ChannelProvider) (globalId : U32) (channel : ConnectionChannel)
    (orderer : PacketOrderer) : Follows R (handleReady p globalId channel orderer) := by
  constructor
  intro m
  have ends := PacketOrderer.retain_ends (handlePacket p globalId channel)
    (I := fun _ t => R m t) (K := fun _ t => R m t)
    (fun _ t x ht _ =>
      ⟨fun _ => hR.trans _ _ _ ht ((handle_packet_follows hR p globalId channel x).holds t),
        fun _ => hR.trans _ _ _ ht ((handle_packet_follows hR p globalId channel x).holds t)⟩)
    (fun _ _ ht => ht) orderer (hR.refl m)
  unfold handleReady
  rcases hret : orderer.retain (handlePacket p globalId channel) m with ⟨r, o, t⟩
  rw [hret] at ends
  cases r with
  | ok u => exact ends.1 rfl
  | err e => exact ends.2 (by simp)
  | panic => exact ends.2 (by simp)

theorem deliver_follows (p : ChannelProvider) (globalId : U32) (channel : ConnectionChannel)
    (order : Option U32) (payload : Bytes) : Follows R (deliver p globalId channel order payload) := by
  cases order with
  | none => exact handle_packet_follows hR p globalId channel payload
  | some order =>
    refine .bind hR (.get hR) fun before => .bind hR (.lift hR _) fun slot => ?_
    refine .bind hR (.lift hR _) fun orderers => .bind hR (.modify fun m => hR.orderers m _) fun _ => ?_
    refine .bind hR (.lift hR _) fun orderer => .bind hR (.lift hR _) fun orderer => ?_
    refine .bind hR (handle_ready_follows hR ..) fun orderer => .bind hR (.get hR) fun m => ?_
    exact .bind hR (.lift hR _) fun orderers => .modify fun m => hR.orderers m _

theorem update_follows (resender : PacketResender) (delta : U32) :
    Follows R (resender.update delta (fun packet => sendDatagram packet.payload)) := by
  have visited (packet : ReliableBufferedPacket) :
      Follows R (PacketResender.visit delta (fun packet => sendDatagram packet.payload) packet) := by
    unfold PacketResender.visit
    split
    · dsimp only
      split
      · split
        · exact .bind hR (.emit hR _) fun _ => .pure hR _
        · exact .pure hR _
      · exact .pure hR _
    · exact .abort hR
  have loop (i : Nat) (values : List (Option ReliableBufferedPacket)) :
      Follows R (SlotMap.retainLoop (PacketResender.visit delta
        (fun packet => sendDatagram packet.payload)) i values) := by
    induction values generalizing i with
    | nil => exact .pure hR _
    | cons value rest ih =>
      cases value with
      | none => exact .bind hR (ih _) fun _ => .pure hR _
      | some packet =>
        refine .bind hR (visited packet) fun r => .bind hR (ih _) fun rest => ?_
        dsimp only
        split
        · exact .pure hR _
        · exact .pure hR _
  exact .bind hR (.bind hR (loop 0 _) fun _ => .pure hR _) fun _ => .pure hR _

end

/-- The time of the last packet is not noted. -/
def SameTime (m m' : Endpoint) : Prop := m'.lastTimeReceivedPacket = m.lastTimeReceivedPacket

theorem same_time_tolerant : Tolerant SameTime where
  refl _ := rfl
  trans _ _ _ h1 h2 := h2.trans h1
  emit _ _ := rfl
  parts _ _ _ _ _ _ _ _ := rfl
  stage _ _ _ _ _ _ := rfl
  switch _ _ _ := rfl

theorem local_ack_channel_id_same_time : Follows SameTime localAckChannelId :=
  .bind same_time_tolerant (.get same_time_tolerant) fun _ => .lift same_time_tolerant _

theorem flush_same_time (id : U32) : Follows SameTime (ConnectionAcknowledgeBuffer.flush id) := by
  refine .bind same_time_tolerant (.get same_time_tolerant) fun m => ?_
  exact .bind same_time_tolerant (send_packet_follows same_time_tolerant ..) fun _ =>
    .modify fun _ => rfl

theorem acknowledge_same_time (key : SlotMapKey) (id : U32) :
    Follows SameTime (ConnectionAcknowledgeBuffer.acknowledge key id) := by
  unfold ConnectionAcknowledgeBuffer.acknowledge
  refine .bind same_time_tolerant (.get same_time_tolerant) fun m => ?_
  split
  · exact .bind same_time_tolerant (flush_same_time id) fun _ => .modify fun _ => rfl
  · exact .modify fun _ => rfl

theorem acknowledge_if_needed_same_time (d : Bytes) (key : Option SlotMapKey) :
    Follows SameTime (acknowledgeIfNeeded d key) := by
  have hR := same_time_tolerant
  cases key with
  | none => exact .pure hR ()
  | some key =>
    refine .bind hR (.get hR) fun m => .bind hR (.lift hR _) fun checker => ?_
    refine .bind hR (.modify fun _ => rfl) fun _ => .bind hR (.emit hR _) fun _ => ?_
    exact .bind hR local_ack_channel_id_same_time fun id => acknowledge_same_time key id

theorem update_connection_same_time (delta : U32) : Follows SameTime (updateConnection delta) := by
  have hR := same_time_tolerant
  refine .bind hR (.get hR) fun m => .bind hR (update_follows hR m.resender delta) fun _ => ?_
  refine .bind hR (.modify fun _ => rfl) fun _ => .bind hR local_ack_channel_id_same_time fun id => ?_
  exact flush_same_time id

/-- After a first part that does not note the time, the rest may note `now`. -/
theorem Follows.bind_notes {x : Call α} {f : α → Call β} {m : Endpoint} {time now : Nat}
    (hx : Follows SameTime x) (before : m.lastTimeReceivedPacket = time)
    (hf : ∀ a t, t.lastTimeReceivedPacket = time →
      (f a t).2.lastTimeReceivedPacket = time ∨ (f a t).2.lastTimeReceivedPacket = now) :
    ((x >>= f) m).2.lastTimeReceivedPacket = time ∨
      ((x >>= f) m).2.lastTimeReceivedPacket = now :=
  Act.bind_ends (P := fun t : Endpoint => t.lastTimeReceivedPacket = time ∨
    t.lastTimeReceivedPacket = now) (fun _ _ _ => Or.inl ((hx.holds m).trans before))
    (fun a _ => hf a _ ((hx.holds m).trans before))

/-- A datagram's time is noted when its packet was handled without an error. -/
theorem handle_message_time (p : ChannelProvider) (now : Nat) (d : Bytes) (m : Endpoint) :
    (handleMessage p now d m).2.lastTimeReceivedPacket = m.lastTimeReceivedPacket ∨
      (handleMessage p now d m).2.lastTimeReceivedPacket = now := by
  have hR := same_time_tolerant
  refine (read_packet_follows hR p d).bind_notes rfl fun incoming t ht => ?_
  refine (acknowledge_if_needed_same_time d _).bind_notes ht fun _ t ht => ?_
  refine (receive_follows hR _ _).bind_notes ht fun message t ht => ?_
  cases message with
  | none => exact Or.inl ht
  | some message => exact (deliver_follows hR p _ _ _ _).bind_notes ht fun _ _ _ => Or.inr rfl

end Theta
