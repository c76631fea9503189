import Theta.Lib.Blind
import Theta.Net.Reader
import Theta.Proofs.Confinement
import Theta.Proofs.Deliveries

namespace Theta
open Lib Relation Act

/-- The buffers with what was taken out of them before. -/
def GlobalChannelData.restored (taken : Nat → List Bytes) (d : GlobalChannelData (List Bytes)) :
    GlobalChannelData (List Bytes) :=
  ⟨d.values.mapIdx (fun i buffer => buffer.map (taken i ++ ·))⟩

/-- The connection that it would be if nothing had been taken out of its buffers. -/
def Endpoint.restored (taken : Nat → List Bytes) (m : Endpoint) : Endpoint :=
  { m with buffers := m.buffers.restored taken }

namespace GlobalChannelData
variable {taken taken' : Nat → List Bytes} {d : GlobalChannelData (List Bytes)}

theorem restored_get (g : U32) :
    (d.restored taken).get g = (d.get g).map (taken g.toNat ++ ·) := by
  simp only [get, restored, List.getElem?_mapIdx]
  cases d.values[g.toNat]? with
  | none => rfl
  | some buffer => rfl

theorem restored_modify (g : U32) (packet : Bytes) :
    (d.restored taken).modify g (· ++ [packet]) = (d.modify g (· ++ [packet])).restored taken := by
  simp only [modify, restored, GlobalChannelData.mk.injEq]
  refine List.ext_getElem? (fun i => ?_)
  simp only [List.getElem?_modify, List.getElem?_mapIdx]
  cases d.values[i]? with
  | none => simp
  | some buffer => split <;> cases buffer <;> simp

theorem restored_nothing : d.restored (fun _ => []) = d := by
  simp only [restored]
  exact congrArg GlobalChannelData.mk (List.ext_getElem? fun i => by simp)

/-- What is taken out of a buffer is what was taken out of it from then on. -/
theorem restored_take {g : U32} {effective : List Bytes} (h : d.get g = some effective)
    (here : taken' g.toNat = taken g.toNat ++ effective)
    (there : ∀ i, i ≠ g.toNat → taken' i = taken i) :
    (d.modify g (fun _ => [])).restored taken' = d.restored taken := by
  simp only [modify, restored, GlobalChannelData.mk.injEq]
  refine List.ext_getElem? (fun i => ?_)
  simp only [List.getElem?_modify, List.getElem?_mapIdx]
  by_cases he : i = g.toNat
  · subst he
    cases hd : d.values[g.toNat]? with
    | none => simp
    | some buffer =>
      have held : buffer = some effective := by simpa [get, hd] using h
      simp [held, here]
  · rw [there i he]
    cases d.values[i]? with
    | none => simp
    | some buffer => simp [Ne.symm he]

end GlobalChannelData

section
variable (taken : Nat → List Bytes)

/-- A call that does not see what was taken out of the buffers. -/
abbrev Unseeing (x : Call α) : Prop := Blind (Endpoint.restored taken) x

theorem emit_blind (event : Event) : Unseeing taken (emit event) := .modify fun _ => rfl

theorem next_order_blind (channel : ConnectionChannel) : Unseeing taken (nextOrder channel) := by
  unfold nextOrder
  split
  · refine .get_bind (fun _ => rfl) fun m => .bind (.lift _) fun order => ?_
    refine .bind (.lift _) fun orders => ?_
    exact .bind (.modify fun _ => rfl) fun _ => .pure _
  · exact .pure _

theorem send_real_packet_blind (channel : ConnectionChannel) (order : Option U32)
    (segment : Option PacketSegmentMetadata) (payload : Bytes) :
    Unseeing taken (sendRealPacket channel order segment payload) := by
  unfold sendRealPacket
  split
  · exact .abort
  · refine .bind (.lift _) fun primary => .bind (.lift _) fun segment => ?_
    dsimp only
    split
    · refine .get_bind (fun _ => rfl) fun m => .bind (.lift _) fun added => ?_
      refine .bind (.lift _) fun packet => .bind (.modify fun _ => rfl) fun _ => ?_
      refine .bind (emit_blind taken _) fun _ => .bind (emit_blind taken _) fun _ => .pure _
    · exact .bind (emit_blind taken _) fun _ => .pure _

theorem send_segments_blind (channel : ConnectionChannel) (order : Option U32) (key : U32)
    (count i : Nat) (segments : List Bytes) :
    Unseeing taken (sendSegments channel order key count i segments) := by
  induction segments generalizing i with
  | nil => exact .pure _
  | cons segment rest ih =>
    refine .bind (send_real_packet_blind taken ..) fun _ => ?_
    exact .bind (ih (i + 1)) fun _ => .pure _

theorem send_packet_blind (channel : ConnectionChannel) (payload : Bytes) :
    Unseeing taken (sendPacket channel payload) := by
  refine .bind (next_order_blind taken channel) fun order => ?_
  unfold transmit
  split
  · refine .get_bind (fun _ => rfl) fun m => .bind (.modify fun _ => rfl) fun _ => ?_
    exact send_segments_blind taken ..
  · exact .bind (send_real_packet_blind taken ..) fun _ => .pure _

theorem send_event_blind (p : ChannelProvider) (channel : U32) (payload : Bytes) :
    Unseeing taken (sendEvent p channel payload) := by
  refine .get_bind (fun _ => rfl) fun m => ?_
  split
  · exact .pure _
  · split
    · exact .pure _
    · refine .bind (emit_blind taken _) fun _ => ?_
      exact .bind (send_packet_blind taken ..) fun _ => .pure _

theorem local_ack_channel_id_blind : Unseeing taken localAckChannelId :=
  .get_bind (fun _ => rfl) fun _ => .lift _

theorem flush_blind (id : U32) : Unseeing taken (ConnectionAcknowledgeBuffer.flush id) := by
  refine .get_bind (fun _ => rfl) fun m => ?_
  exact .bind (send_packet_blind taken ..) fun _ => .modify fun _ => rfl

theorem acknowledge_blind (key : SlotMapKey) (id : U32) :
    Unseeing taken (ConnectionAcknowledgeBuffer.acknowledge key id) := by
  refine .get_bind (fun _ => rfl) fun m => ?_
  split
  · exact .bind (flush_blind taken id) fun _ => .modify fun _ => rfl
  · exact .modify fun _ => rfl

theorem acknowledge_if_needed_blind (d : Bytes) (key : Option SlotMapKey) :
    Unseeing taken (acknowledgeIfNeeded d key) := by
  cases key with
  | none => exact .pure _
  | some key =>
    refine .get_bind (fun _ => rfl) fun m => .bind (.lift _) fun checker => ?_
    refine .bind (.modify fun _ => rfl) fun _ => .bind (emit_blind taken _) fun _ => ?_
    exact .bind (local_ack_channel_id_blind taken) fun id => acknowledge_blind taken key id

theorem cleanup_blind : Unseeing taken transferStateConvertionCleanup := .modify fun _ => rfl

theorem read_packet_blind (p : ChannelProvider) (d : Bytes) : Unseeing taken (readPacket p d) := by
  refine .bind (.lift _) fun primary => .bind ?_ fun _ => ?_
  · refine .get_bind (fun _ => rfl) fun m => ?_
    split
    · split
      · exact .bind (.modify fun _ => rfl) fun _ => cleanup_blind taken
      · exact .pure _
    · exact .pure _
  · refine .get_bind (fun _ => rfl) fun m => .bind (.lift _) fun resolved => ?_
    exact .bind (.lift _) fun header => .pure _

theorem receive_blind (channel : Channel) (header : PacketHeader) :
    Unseeing taken (receive channel header) := by
  unfold receive
  split
  · refine .bind ⟨fun _ => rfl⟩ fun full => ?_
    split
    · exact .bind (.lift _) fun _ => .pure _
    · exact .pure _
  · exact .pure _

theorem noticing_blind (m : Endpoint) (key : SlotMapKey) :
    (m.restored taken).noticing key = (m.noticing key).restored taken := by
  have h : (m.restored taken).state = m.state := rfl
  unfold Endpoint.noticing
  rw [h]
  split
  · split <;> rfl
  · rfl

theorem release_key_blind (key : SlotMapKey) : Unseeing taken (releaseKey key) := by
  constructor
  intro m
  rw [release_key_eq, release_key_eq, noticing_blind]
  have dropping : Unseeing taken (dropPacket m.resender key) := by
    refine .bind (.lift _) fun removed => .bind (.modify fun _ => rfl) fun _ => ?_
    split
    · exact emit_blind taken _
    · exact .pure _
  exact dropping.apply (m.noticing key)

theorem acknowledge_locally_blind (fuel : Nat) (packet : Bytes) :
    Unseeing taken (acknowledgeLocally fuel packet) := by
  induction fuel generalizing packet with
  | zero => exact .pure _
  | succ fuel ih =>
    unfold acknowledgeLocally
    split
    · exact .bind (release_key_blind taken _) fun _ => ih _
    · exact .pure _
    · exact .abort

theorem convert_to_transfer_blind : Unseeing taken convertToTransfer := by
  refine .get_bind (fun _ => rfl) fun m => .bind (.modify fun _ => rfl) fun _ => ?_
  split
  · exact cleanup_blind taken
  · exact .pure _

theorem handle_registration_blind (p : ChannelProvider) (packet : Bytes) :
    Unseeing taken (handleRegistration p packet) := by
  refine .bind (emit_blind taken _) fun _ => .bind (.lift _) fun named => ?_
  dsimp only
  split
  · exact .bind (.modify fun _ => rfl) fun _ => convert_to_transfer_blind taken
  · refine .bind (.lift _) fun numbered => ?_
    split
    · exact .abort
    · split
      · exact .throw _
      · refine .get_bind (fun _ => rfl) fun m => ?_
        split
        · exact .throw _
        · refine .bind (.modify fun _ => rfl) fun _ => .bind (.lift _) fun channel => ?_
          split
          · exact .modify fun _ => rfl
          · exact .pure _

/-- A packet goes behind what was taken out as it goes behind what is left. -/
theorem handle_packet_blind (p : ChannelProvider) (g : U32) (channel : ConnectionChannel)
    (packet : Bytes) : Unseeing taken (handlePacket p g channel packet) := by
  refine .get_bind (fun m => ?_) fun m => ?_
  · have hbuffers : (m.restored taken).buffers.get g = (m.buffers.get g).map (taken g.toNat ++ ·) :=
      GlobalChannelData.restored_get g
    rw [hbuffers]
    cases m.buffers.get g with
    | none => rfl
    | some buffer => rfl
  · split
    · split
      · refine .bind (emit_blind taken _) fun _ => ?_
        exact .bind (acknowledge_locally_blind taken ..) fun _ => convert_to_transfer_blind taken
      · split
        · exact handle_registration_blind taken p packet
        · exact .abort
    · split
      · exact .bind (emit_blind taken _) fun _ => acknowledge_locally_blind taken ..
      · split
        · exact .abort
        · split
          · exact .abort
          · refine .modify fun m => ?_
            exact congrArg (fun buffers => { m with buffers := buffers })
              (GlobalChannelData.restored_modify g packet)

theorem retain_loop_blind {func : Bytes → Call Unit}
    (hfunc : ∀ packet, Unseeing taken (func packet)) (fuel : Nat) (o : PacketOrderer) (m : Endpoint) :
    PacketOrderer.retainLoop func fuel o (m.restored taken) =
      ((PacketOrderer.retainLoop func fuel o m).1, (PacketOrderer.retainLoop func fuel o m).2.1,
        (PacketOrderer.retainLoop func fuel o m).2.2.restored taken) := by
  induction fuel generalizing o m with
  | zero => rfl
  | succ fuel ih =>
    unfold PacketOrderer.retainLoop
    split
    · rfl
    · rfl
    · rename_i element _
      dsimp only
      rw [(hfunc element).apply m]
      rcases func element m with ⟨r, t⟩
      cases r with
      | ok u => exact ih _ t
      | err e => rfl
      | panic => rfl

theorem handle_ready_blind (p : ChannelProvider) (g : U32) (channel : ConnectionChannel)
    (o : PacketOrderer) : Unseeing taken (handleReady p g channel o) := by
  constructor
  intro m
  unfold handleReady PacketOrderer.retain
  rw [retain_loop_blind taken (handle_packet_blind taken p g channel)]
  rcases PacketOrderer.retainLoop (handlePacket p g channel) (o.vec.length + 1) o m with ⟨r, o', t⟩
  cases r with
  | ok u => rfl
  | err e => rfl
  | panic => rfl

theorem deliver_blind (p : ChannelProvider) (g : U32) (channel : ConnectionChannel)
    (order : Option U32) (payload : Bytes) :
    Unseeing taken (deliver p g channel order payload) := by
  cases order with
  | none => exact handle_packet_blind taken p g channel payload
  | some order =>
    refine .get_bind (fun _ => rfl) fun before => .bind (.lift _) fun slot => ?_
    refine .bind (.lift _) fun orderers => .bind (.modify fun _ => rfl) fun _ => ?_
    refine .bind (.lift _) fun orderer => .bind (.lift _) fun orderer => ?_
    refine .bind (handle_ready_blind taken p g channel orderer) fun orderer => ?_
    refine .get_bind (fun _ => rfl) fun m => .bind (.lift _) fun orderers => ?_
    exact .modify fun _ => rfl

theorem handle_message_blind (p : ChannelProvider) (now : Nat) (d : Bytes) :
    Unseeing taken (handleMessage p now d) := by
  refine .bind (read_packet_blind taken p d) fun incoming => ?_
  refine .bind (acknowledge_if_needed_blind taken ..) fun _ => ?_
  refine .bind (receive_blind taken ..) fun message => ?_
  split
  · exact .bind (deliver_blind taken ..) fun _ => .modify fun _ => rfl
  · exact .pure _

theorem retain_if_blind {func : T → Call (T × Bool)} (hfunc : ∀ v, Unseeing taken (func v))
    (packets : SlotMap T) : Unseeing taken (packets.retainIf func) := by
  have looping (i : Nat) (values : List (Option T)) :
      Unseeing taken (SlotMap.retainLoop func i values) := by
    induction values generalizing i with
    | nil => exact .pure _
    | cons value rest ih =>
      cases value with
      | none => exact .bind (ih (i + 1)) fun _ => .pure _
      | some v =>
        refine .bind (hfunc v) fun visited => .bind (ih (i + 1)) fun kept => ?_
        dsimp only
        split
        · exact .pure _
        · exact .pure _
  exact .bind (looping 0 packets.values) fun _ => .pure _

theorem update_connection_blind (delta : U32) : Unseeing taken (updateConnection delta) := by
  have visiting (packet : ReliableBufferedPacket) : Unseeing taken (PacketResender.visit delta
      (fun packet => sendDatagram packet.payload) packet) := by
    unfold PacketResender.visit
    split
    · dsimp only
      split
      · split
        · exact .bind (emit_blind taken _) fun _ => .pure _
        · exact .pure _
      · exact .pure _
    · exact .abort
  refine .get_bind (fun _ => rfl) fun m => .bind ?_ fun resender => ?_
  · exact .bind (retain_if_blind taken visiting m.resender.packets) fun _ => .pure _
  · refine .bind (.modify fun _ => rfl) fun _ => ?_
    exact .bind (local_ack_channel_id_blind taken) fun id => flush_blind taken id

/-- No call sees what was taken out of the buffers. -/
theorem perform_blind (p : ChannelProvider) (input : Input) : Unseeing taken (perform p input) := by
  cases input with
  | read now d => exact handle_message_blind taken p now d
  | tick delta => exact update_connection_blind taken delta
  | send channel payload => exact send_event_blind taken p channel payload

end

theorem restored_nothing (m : Endpoint) : m.restored (fun _ => []) = m := by
  unfold Endpoint.restored
  rw [GlobalChannelData.restored_nothing]

namespace Reader

/-- What was taken out of the buffers, by their places. -/
def places (r : Reader) (i : Nat) : List Bytes :=
  if i < 2 ^ 32 then r.taken (BitVec.ofNat 32 i) else []

/-- The peer with all that was ever put into its buffers. -/
def whole (r : Reader) : Peer := { r.peer with endpoint := r.peer.endpoint.restored r.places }

/-- Nothing has happened before there is a connection. -/
def Begun (r : Reader) : Prop := r.peer.stage = .closed → r = {}

section
variable {r r' : Reader} {channel : U32}

theorem places_channel : r.places channel.toNat = r.taken channel := by
  simp [places, channel.isLt]

theorem places_of_taken (h : r'.taken = r.taken) : r'.places = r.places := by
  unfold places
  rw [h]

theorem taken_of_same (swap : r'.swap = r.swap) (handled : r'.handled = r.handled) :
    r'.taken = r.taken := by
  unfold Reader.taken holding
  rw [swap, handled]

theorem whole_of_places (peer : r'.peer = r.peer) (taken : r'.taken = r.taken) :
    r'.whole = r.whole := by
  unfold whole
  rw [peer, places_of_taken taken]

theorem whole_received :
    r.whole.endpoint.received channel = if (r.peer.endpoint.buffers.get channel).isSome then
      r.taken channel ++ r.peer.endpoint.received channel else [] := by
  have hbuffers : r.whole.endpoint.buffers.get channel =
      (r.peer.endpoint.buffers.get channel).map (r.places channel.toNat ++ ·) :=
    GlobalChannelData.restored_get channel
  unfold Endpoint.received
  rw [hbuffers, places_channel]
  cases r.peer.endpoint.buffers.get channel <;> simp

theorem next_peer (h : r.next = some r') : r'.peer = r.peer := by
  unfold next at h
  split at h <;> cases h <;> rfl

theorem next_taken (h : r.next = some r') : r'.taken = r.taken := by
  funext channel
  unfold next at h
  split at h
  · cases h
  · rename_i hswap
    cases h
    simp [taken, holding, hswap]
  · rename_i channel' message rest hswap
    cases h
    by_cases he : channel' = channel
    · subst he
      simp [taken, holding, hswap]
    · simp [taken, holding, hswap, he, Function.update_of_ne (Ne.symm he)]

theorem take_stage (h : r.take channel = some r') : r'.peer.stage = r.peer.stage := by
  unfold take at h
  split at h
  · cases h
  · split at h <;> cases h
    rfl

/-- Taking the messages out of a buffer changes nothing as a whole. -/
theorem take_whole (h : r.take channel = some r') : r'.whole = r.whole := by
  unfold take at h
  split at h
  · cases h
  · rename_i hswap
    split at h
    · cases h
    · rename_i effective hbuffer
      cases h
      generalize hr' : ({ r with
        peer := { r.peer with endpoint := { r.peer.endpoint with
          buffers := r.peer.endpoint.buffers.modify channel (fun _ => []) } }
        swap := some (channel, effective) } : Reader) = r'
      have here : r'.places channel.toNat = r.places channel.toNat ++ effective := by
        rw [places_channel, places_channel]
        subst hr'
        simp [taken, holding, hswap]
      have there (i : Nat) (hi : i ≠ channel.toNat) : r'.places i = r.places i := by
        unfold places
        split
        · rename_i small
          have other : channel ≠ BitVec.ofNat 32 i := by
            intro he
            apply hi
            rw [he, BitVec.toNat_ofNat, Nat.mod_eq_of_lt small]
          subst hr'
          simp [taken, holding, hswap, other]
        · rfl
      have restored := GlobalChannelData.restored_take hbuffer here there
      subst hr'
      unfold whole Endpoint.restored
      dsimp only at restored ⊢
      rw [restored]

end

end Reader

section
variable {p : ChannelProvider} {input : Input} {peer peer' : Peer}

theorem Peer.call_stage (h : peer.call p input = some peer') : peer'.stage ≠ .closed := by
  unfold Peer.call at h
  split at h
  · split at h <;> cases h <;> simp
  · cases h

theorem Peer.establish_stage {now : Nat} (h : peer.establish p now = some peer') :
    peer.stage = .closed ∧ peer'.stage ≠ .closed := by
  unfold Peer.establish at h
  split at h
  · rename_i closed
    split at h <;> cases h <;> exact ⟨closed, by simp⟩
  · cases h

theorem Peer.call_restored (taken : Nat → List Bytes) (h : peer.call p input = some peer') :
    ({ peer with endpoint := peer.endpoint.restored taken } : Peer).call p input =
      some { peer' with endpoint := peer'.endpoint.restored taken } := by
  obtain ⟨stage, m⟩ := peer
  have blind := (perform_blind taken p input).apply m
  unfold Peer.call at h ⊢
  cases stage with
  | live =>
    dsimp only at h ⊢
    rw [blind]
    rcases hrun : perform p input m with ⟨r, t⟩
    rw [hrun] at h
    cases r <;> cases h <;> rfl
  | closed => cases h
  | gone => cases h

end

namespace Reader

/-- What an application does with the buffers is nothing that its connection does. -/
theorem refines (registry : Registry) :
    Party.Refines (reader registry) (party registry anyInput) whole Begun where
  acts r r' begun h := by
    cases h with
    | peer h swap handled =>
      have whole' : r'.whole = { r'.peer with endpoint := r'.peer.endpoint.restored r.places } := by
        rw [whole, places_of_taken (taken_of_same swap handled)]
      cases h with
      | establish now h =>
        obtain ⟨closed, made⟩ := Peer.establish_stage h
        have fresh := begun closed
        subst fresh
        have nothing : Reader.places {} = fun _ => [] := by
          funext i
          unfold places
          split <;> rfl
        refine ⟨fun closed => absurd closed made, Or.inr ?_⟩
        rw [whole', whole, nothing, restored_nothing, restored_nothing]
        exact .establish now h
      | tick delta allowed h =>
        refine ⟨fun closed => absurd closed (Peer.call_stage h), Or.inr ?_⟩
        rw [whole']
        exact .tick delta rfl (Peer.call_restored r.places h)
      | send channel payload offered allowed h =>
        refine ⟨fun closed => absurd closed (Peer.call_stage h), Or.inr ?_⟩
        rw [whole']
        exact .send channel payload offered rfl (Peer.call_restored r.places h)
    | take channel h =>
      refine ⟨fun closed => ?_, Or.inl (take_whole h)⟩
      rw [take_stage h] at closed
      rw [begun closed] at h
      cases h
    | next h =>
      refine ⟨fun closed => ?_, Or.inl (whole_of_places (next_peer h) (next_taken h))⟩
      rw [next_peer h] at closed
      rw [begun closed] at h
      cases h
  reads message r r' begun h := by
    obtain ⟨⟨now, h⟩, swap, handled⟩ := h
    refine ⟨fun closed => absurd closed (Peer.call_stage h), Or.inr ⟨now, rfl, ?_⟩⟩
    rw [whole, whole, places_of_taken (taken_of_same swap handled)]
    exact Peer.call_restored r.places h
  sent r := rfl

theorem take_idle {r : Reader} {channel : U32} (idle : r.swap = none)
    (buffered : (r.peer.endpoint.buffers.get channel).isSome) :
    ∃ r', r.take channel = some r' ∧ r'.swap = some (channel, r.peer.endpoint.received channel) ∧
      r'.peer.endpoint.received channel = [] := by
  obtain ⟨effective, hbuffer⟩ := Option.isSome_iff_exists.mp buffered
  unfold take Endpoint.received
  rw [idle, hbuffer]
  refine ⟨_, rfl, rfl, ?_⟩
  show ((r.peer.endpoint.buffers.modify channel (fun _ => [])).get channel).getD [] = []
  rw [GlobalChannelData.get_modify, if_pos rfl, hbuffer]
  rfl

end Reader

section
variable {P Q : Registry} {name : String} {g g' : U32} {kind kind' : Channel}

/-- Every channel has a buffer as soon as there is a connection. -/
theorem Standing.buffered {registry : Registry} {peer : Peer} (h : Standing registry peer)
    (there : peer.stage = .live ∨ peer.endpoint.state = .transfer)
    (known : registry.provider.byName name = some g) : (peer.endpoint.buffers.get g).isSome := by
  cases h with
  | closed => rcases there with there | there <;> cases there
  | live m reachable => exact reachable.buffered known
  | lost m m' reachable work =>
    exact invariant_of_step (P := fun t : Endpoint => (t.buffers.get g).isSome)
      (fun _ _ h => h.buffered) work (reachable.buffered known)
  | refused now =>
    rcases there with there | there
    · cases there
    · exact absurd there (initialize_registers registry.provider now)

theorem reader_step {a a' b : Peer} (h : (party P anyInput).Step (party Q anyInput) b a a') :
    (reader P).Step (reader Q) { peer := b } { peer := a } { peer := a' } := by
  cases h with
  | act h => exact .act _ _ (.peer h rfl rfl)
  | read message sent h =>
    obtain ⟨now, _, h⟩ := h
    exact .read _ _ message sent ⟨⟨now, h⟩, rfl, rfl⟩

theorem corresponding_of_connected {s : Peer × Peer} (h : Connected P Q anyInput anyInput s) :
    Corresponding P Q ({ peer := s.1 }, { peer := s.2 }) := by
  refine h.lift (fun s => (({ peer := s.1 } : Reader), ({ peer := s.2 } : Reader)))
    (fun s t h => ?_)
  cases h with
  | left a a' b h => exact .left _ _ _ (reader_step h)
  | right a b b' h => exact .right _ _ _ (reader_step h)

theorem Corresponding.connected {s : Reader × Reader} (h : Corresponding P Q s) :
    Connected P Q anyInput anyInput (s.1.whole, s.2.whole) :=
  ((Reader.refines P).exchange (Reader.refines Q) h ⟨fun _ => rfl, fun _ => rfl⟩).2

theorem Corresponding.buffered {s : Reader × Reader} (h : Corresponding P Q s)
    (there : s.2.peer.stage = .live ∨ s.2.peer.endpoint.state = .transfer)
    (known : Q.provider.byName name = some g) : (s.2.peer.endpoint.buffers.get g).isSome := by
  have restored : s.2.whole.endpoint.buffers.get g =
      (s.2.peer.endpoint.buffers.get g).map (s.2.places g.toNat ++ ·) :=
    GlobalChannelData.restored_get g
  have buffered := (connected_standing h.connected).2.buffered there known
  rw [restored, Option.isSome_map] at buffered
  exact buffered

/-- What was taken comes before what is still in the buffer. -/
theorem Corresponding.received {s : Reader × Reader} (h : Corresponding P Q s)
    (there : s.2.peer.stage = .live ∨ s.2.peer.endpoint.state = .transfer)
    (known : Q.provider.byName name = some g) :
    s.2.whole.endpoint.received g = s.2.taken g ++ s.2.peer.endpoint.received g := by
  rw [Reader.whole_received, if_pos (h.buffered there known)]

/-- Whatever the applications take out of the buffers and whenever they do, the two connections work
as they do when nothing is taken out, and there is always a buffer to take from. -/
theorem readers_refine_pair {s : Reader × Reader} (h : Corresponding P Q s) :
    Connected P Q anyInput anyInput (s.1.whole, s.2.whole) ∧
      ∀ name g, Q.provider.byName name = some g →
        (s.2.peer.stage = .live ∨ s.2.peer.endpoint.state = .transfer) →
        s.2.whole.endpoint.received g = s.2.taken g ++ s.2.peer.endpoint.received g ∧
        (s.2.swap = none → ∃ r, s.2.take g = some r ∧
          r.swap = some (g, s.2.peer.endpoint.received g) ∧
          r.peer.endpoint.received g = []) :=
  ⟨h.connected, fun _ _ known there =>
    ⟨h.received there known, fun idle => Reader.take_idle idle (h.buffered there known)⟩⟩

/-- What an application has taken of an ordered channel, in the order in which it has taken it, is
the beginning of what was sent on it, and what it will take next goes on from there. What it has
taken of an unordered channel was sent, and on a reliable one every message at most as often. -/
theorem taken_in_order (twin : Twin P Q name g g' kind kind') {s : Reader × Reader}
    (h : Corresponding P Q s) (hst : s.1.peer.endpoint.state = .transfer)
    (hst' : s.2.peer.endpoint.state = .transfer)
    (whole : ∀ payload ∈ s.1.peer.endpoint.calls g, payload.length ≤ maxNonSegmentedPayloadLen) :
    (kind.isOrdered = true → (s.1.peer.endpoint.calls g).length ≤ 2 ^ 32 →
      s.2.taken g' ++ s.2.peer.endpoint.received g' <+: s.1.peer.endpoint.calls g) ∧
    (kind.isOrdered = false → s.1.peer.endpoint.resender.packets.Fits →
      (∀ payload ∈ s.2.taken g' ++ s.2.peer.endpoint.received g',
        payload ∈ s.1.peer.endpoint.calls g) ∧
      (kind.isReliable = true → (s.2.taken g' ++ s.2.peer.endpoint.received g').Subperm
        (s.1.peer.endpoint.calls g))) := by
  rw [← h.received (Or.inr hst') twin.other]
  exact ⟨fun ordered unwrapped =>
      connected_prefix twin ordered h.connected hst (Or.inr hst') whole unwrapped,
    fun unordered fits =>
      connected_integrity twin unordered h.connected hst (Or.inr hst') whole fits⟩

end

/-- The right side's application has taken what it has received and handled the first message. -/
def perusing : Reader :=
  ((({ peer := chatted.2 } : Reader).take 3).bind Reader.next).getD {}

def perused : Reader × Reader := ({ peer := chatted.1 }, perusing)

theorem perused_corresponds : Corresponding talkRegistry klatRegistry perused := by
  have possible : ((({ peer := chatted.2 } : Reader).take 3).bind Reader.next).isSome := by
    decide +kernel
  obtain ⟨r, hr⟩ := Option.isSome_iff_exists.mp possible
  obtain ⟨r', take, next⟩ := Option.bind_eq_some_iff.mp hr
  have same : perusing = r := by
    unfold perusing
    rw [hr]
    rfl
  unfold perused
  rw [same]
  have taken := (corresponding_of_connected chatted_connected).tail
    (.right _ _ _ (.act _ _ (.take 3 take)))
  exact taken.tail (.right _ _ _ (.act _ _ (.next next)))

theorem readers_refine_pair_perused :
    Connected talkRegistry klatRegistry anyInput anyInput (perused.1.whole, perused.2.whole) ∧
      perused.2.whole.endpoint.received 3 =
        perused.2.taken 3 ++ perused.2.peer.endpoint.received 3 := by
  have known : klatRegistry.provider.byName "chat" = some 3 := by decide +kernel
  have live : perused.2.peer.stage = .live := by decide +kernel
  obtain ⟨connected, reads⟩ := readers_refine_pair perused_corresponds
  exact ⟨connected, (reads "chat" 3 known (Or.inl live)).1⟩

theorem taken_in_order_perused :
    perused.2.taken 3 ++ perused.2.peer.endpoint.received 3 <+:
      perused.1.peer.endpoint.calls 2 := by
  have called : perused.1.peer.endpoint.calls 2 = [[1], [2]] := by decide +kernel
  have transfer : perused.1.peer.endpoint.state = .transfer := by decide +kernel
  have transfer' : perused.2.peer.endpoint.state = .transfer := by decide +kernel
  have whole : ∀ payload ∈ perused.1.peer.endpoint.calls 2,
      payload.length ≤ maxNonSegmentedPayloadLen := by
    rw [called]
    decide
  obtain ⟨ordered, _⟩ := taken_in_order chat_twin perused_corresponds transfer transfer' whole
  apply ordered rfl
  rw [called]
  decide

end Theta
