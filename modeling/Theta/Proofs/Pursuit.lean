import Theta.Proofs.Budget
import Theta.Proofs.Completion
import Theta.Proofs.Deliveries

namespace Theta
open Lib Relation

/-- What became of a packet that was issued: it is held with the attempts that its emissions have
left of it, its key was released, or it went out as often as it may. -/
def Pursued (attempts : Nat) (m : Endpoint) (key : SlotMapKey) (d : Bytes) : Prop :=
  (∃ packet, m.resender.packets.get key = some packet ∧ packet.payload = d ∧
    attempts < packet.resendAttempts.toNat + m.datagrams.count d) ∨
  (∃ d', .released key d' ∈ m.log) ∨ attempts < m.datagrams.count d

/-- In the transfer stage every packet that was issued on a channel is pursued. -/
structure Pursues (l : U32) (attempts : Nat) (m : Endpoint) : Prop where
  tidy : Tidy m
  stage : m.state = .transfer
  elsewhere : m.localInner.ackChannelId ≠ l
  pursued : m.resender.packets.Fits → ∀ key d, OnChannel l d → .issued key d ∈ m.log →
    Pursued attempts m key d

section
variable {l : U32} {attempts : Nat} {m m' : Endpoint} {key : SlotMapKey} {d : Bytes}

theorem count_grows (log : m.log <+: m'.log) (d : Bytes) :
    m.datagrams.count d ≤ m'.datagrams.count d := by
  obtain ⟨events, he⟩ := log
  rw [Endpoint.datagrams, Endpoint.datagrams, ← he, List.filterMap_append, List.count_append]
  exact Nat.le_add_right _ _

theorem Pursued.later (h : Pursued attempts m key d) (log : m.log <+: m'.log)
    (keeps : ∀ packet, m.resender.packets.get key = some packet →
      m'.resender.packets.get key = some packet ∨ ∃ d', .released key d' ∈ m'.log) :
    Pursued attempts m' key d := by
  have more := count_grows log d
  rcases h with ⟨packet, hget, hpayload, hlt⟩ | ⟨d', hd'⟩ | hlt
  · rcases keeps packet hget with kept | released
    · exact Or.inl ⟨packet, kept, hpayload, by omega⟩
    · exact Or.inr (Or.inl released)
  · exact Or.inr (Or.inl ⟨d', log.subset hd'⟩)
  · exact Or.inr (Or.inr (by omega))

theorem Pursues.same {events : List Event} (h : Pursues l attempts m)
    (resender : m'.resender = m.resender) (inner : m'.localInner = m.localInner)
    (state : m'.state = m.state) (log : m'.log = m.log ++ events)
    (silent : ∀ key d, .issued key d ∉ events) : Pursues l attempts m' := by
  refine ⟨fun fits => ?_, state.trans h.stage, inner ▸ h.elsewhere, fun fits key d on hd => ?_⟩
  · rw [resender] at fits ⊢
    exact h.tidy fits
  · rw [resender] at fits
    have issued : .issued key d ∈ m.log := by simpa [log, silent] using hd
    refine (h.pursued fits key d on issued).later (log ▸ List.prefix_append _ _)
      (fun packet hget => Or.inl ?_)
    rw [resender]
    exact hget

theorem Pursues.tolerant (h : Pursues l attempts m) (resender : m'.resender = m.resender)
    (inner : m'.localInner = m.localInner) (state : m'.state = m.state) (log : m'.log = m.log) :
    Pursues l attempts m' :=
  h.same resender inner state (log.trans (List.append_nil m.log).symm) (fun _ _ => List.not_mem_nil)

/-- A packet goes out for the first time when it is issued. -/
theorem send_real_packet_pursues {channel : ConnectionChannel} {order : Option U32}
    {segment : Option PacketSegmentMetadata} {payload : Bytes} (hl : l.toNat < 2 ^ 31)
    (own : channel.localId = l → ∀ reliable, channel.channel.reliability = some reliable →
      reliable.resendAttempts.toNat = attempts) :
    Act.Keeps (Pursues l attempts) (sendRealPacket channel order segment payload) := by
  intro m h
  rcases send_real_packet_cases channel order segment payload m with
    ⟨_, he⟩ | ⟨hid, _, ⟨reliable, k, resender, packet, hkind, add, stored, he⟩ | ⟨_, he⟩⟩
  · rw [he]
    exact h
  · rw [he]
    obtain ⟨_, _, hadd⟩ := PacketResender.add_ok add
    have earlier (fits : resender.packets.Fits) : m.resender.packets.Fits :=
      Nat.le_trans (SlotMap.add_generations_le hadd) fits
    refine ⟨fun fits => SlotMap.add_healthy (h.tidy (earlier fits)) hadd, h.stage, h.elsewhere,
      fun fits key d on hd => ?_⟩
    have healthy := h.tidy (earlier fits)
    have hget (key : SlotMapKey) := SlotMap.get_add (k := key) healthy fits hadd
    rcases List.mem_append.mp hd with hd | hd
    · refine (h.pursued (earlier fits) key d on hd).later (List.prefix_append _ _)
        (fun held hheld => Or.inl ?_)
      have other : key ≠ k := by
        rintro rfl
        exact SlotMap.add_fresh healthy fits hadd (SlotMap.get_spent hheld)
      show resender.packets.get key = some held
      rw [hget key, if_neg other]
      exact hheld
    · rcases List.mem_pair.mp hd with heq | heq
      · obtain ⟨rfl, rfl⟩ := Event.issued.inj heq
        have hpacket := hget key
        rw [if_pos rfl, stored, Option.some.injEq] at hpacket
        have budget : packet.resendAttempts.toNat = attempts := by
          rw [hpacket] at on ⊢
          exact own (on.unique hl hid) reliable hkind
        have sent : packet.payload ∈ Endpoint.datagrams { m with
            resender := resender
            log := m.log ++ [.issued key packet.payload, .sent packet.payload] } := by
          simp [Endpoint.datagrams, Event.datagram?]
        refine Or.inl ⟨packet, stored, rfl, ?_⟩
        rw [budget]
        exact Nat.lt_add_of_pos_right (List.count_pos_iff.mpr sent)
      · cases heq
  · rw [he]
    exact h.same rfl rfl rfl rfl (by simp)

theorem send_segments_pursues {channel : ConnectionChannel} {order : Option U32} {segmentKey : U32}
    {count i : Nat} {segments : List Bytes} (hl : l.toNat < 2 ^ 31)
    (own : channel.localId = l → ∀ reliable, channel.channel.reliability = some reliable →
      reliable.resendAttempts.toNat = attempts) :
    Act.Keeps (Pursues l attempts) (sendSegments channel order segmentKey count i segments) := by
  induction segments generalizing i with
  | nil => exact fun _ h => h
  | cons segment rest ih =>
    exact .bind (send_real_packet_pursues hl own) fun _ => .bind ih fun _ _ h => h

theorem send_packet_pursues {channel : ConnectionChannel} {payload : Bytes} (hl : l.toNat < 2 ^ 31)
    (own : channel.localId = l → ∀ reliable, channel.channel.reliability = some reliable →
      reliable.resendAttempts.toNat = attempts) :
    Act.Keeps (Pursues l attempts) (sendPacket channel payload) := by
  intro m h
  refine send_packet_ends (fun orders => h.tolerant rfl rfl rfl rfl) (fun order t ht => ?_)
  unfold transmit
  split
  · exact send_segments_pursues hl own _ (ht.tolerant rfl rfl rfl rfl)
  · exact Act.Keeps.bind (send_real_packet_pursues hl own) (fun _ _ h => h) t ht

theorem release_key_pursues (k : SlotMapKey) : Act.Keeps (Pursues l attempts) (releaseKey k) := by
  intro m h
  have noticed : m.noticing k = m := by
    rcases noticing_cases m k with he | ⟨_, hst, _⟩
    · exact he
    · cases hst.symm.trans h.stage
  rcases release_key_cases k m with ⟨_, he⟩ | ⟨_, he⟩ | ⟨packet, resender, remove, he⟩
  · rw [he, noticed]
    exact h
  · rw [he, noticed]
    exact h
  · rw [he, noticed]
    obtain ⟨_, hremove⟩ := PacketResender.remove_ok remove
    obtain ⟨_, generations, _⟩ := SlotMap.remove_cases hremove
    have earlier (fits : resender.packets.Fits) : m.resender.packets.Fits := by
      unfold SlotMap.Fits at *
      rw [← generations]
      exact fits
    refine ⟨fun fits => SlotMap.remove_healthy (h.tidy (earlier fits)) hremove, h.stage,
      h.elsewhere, fun fits key d on hd => ?_⟩
    have issued : .issued key d ∈ m.log := by simpa using hd
    refine (h.pursued (earlier fits) key d on issued).later (List.prefix_append _ _)
      (fun held hheld => ?_)
    by_cases hkey : key = k
    · subst hkey
      exact Or.inr ⟨packet.payload, by simp⟩
    · left
      show resender.packets.get key = some held
      rw [SlotMap.get_remove hremove, if_neg hkey]
      exact hheld

theorem flush_pursues {id : U32} (hl : l.toNat < 2 ^ 31) (hid : id ≠ l) :
    Act.Keeps (Pursues l attempts) (ConnectionAcknowledgeBuffer.flush id) := by
  intro m h
  simp only [ConnectionAcknowledgeBuffer.flush, Act.bind_apply, Act.get_apply, h.stage]
  refine Act.Keeps.bind (send_packet_pursues hl fun he => absurd he hid) (fun _ t ht => ?_) m h
  exact ht.tolerant rfl rfl rfl rfl

theorem acknowledge_pursues {key : SlotMapKey} {id : U32} (hl : l.toNat < 2 ^ 31) (hid : id ≠ l) :
    Act.Keeps (Pursues l attempts) (ConnectionAcknowledgeBuffer.acknowledge key id) := by
  refine .bind (fun _ h => h) (fun m => ?_)
  split
  · exact .bind (flush_pursues hl hid) fun _ _ h => h.tolerant rfl rfl rfl rfl
  · exact fun _ h => h.tolerant rfl rfl rfl rfl

theorem acknowledge_if_needed_pursues {key : Option SlotMapKey} (hl : l.toNat < 2 ^ 31)
    (d : Bytes) : Act.Keeps (Pursues l attempts) (acknowledgeIfNeeded d key) := by
  intro m h
  cases key with
  | none => exact h
  | some key =>
    by_cases known : key ∈ m.resendKeyDuplicateChecker.set
    · rw [acknowledge_known known]
      exact h
    · rw [acknowledge_new known]
      have recorded : Pursues l attempts (m.recording key d) := h.same rfl rfl rfl rfl (by simp)
      refine Act.bind_ends (fun _ _ _ => recorded) (fun id hid => ?_)
      have own := ack_channel_id (local_ack_channel_id hid)
      exact acknowledge_pursues hl (own ▸ recorded.elsewhere) _ recorded

theorem handle_packet_pursues {p : ChannelProvider} {g : U32} {channel : ConnectionChannel}
    {packet : Bytes} : Act.Keeps (Pursues l attempts) (handlePacket p g channel packet) := by
  intro m h
  simp only [handlePacket, Act.bind_apply, Act.get_apply, h.stage]
  split
  · exact acknowledge_locally_keeps (fun key _ => release_key_pursues key)
      (h.same rfl rfl rfl rfl (by simp))
  · split
    · exact h
    · cases m.buffers.get g with
      | none => exact h
      | some _ => exact h.tolerant rfl rfl rfl rfl

/-- What is read releases packets, and loses none. -/
theorem handle_message_pursues {p : ChannelProvider} {now : Nat} (hl : l.toNat < 2 ^ 31)
    (d : Bytes) : Act.Keeps (Pursues l attempts) (handleMessage p now d) := by
  refine .bind (fun m h => ?_) fun inc =>
    .bind (acknowledge_if_needed_pursues hl d) fun _ => .bind (fun m h => ?_) fun message => ?_
  · rw [read_packet_transfer h.stage]
    exact h
  · obtain ⟨_, joiner, he, _⟩ := receive_cases inc m
    rw [he]
    exact h.tolerant rfl rfl rfl rfl
  · cases message with
    | none => exact fun _ h => h
    | some message =>
      refine .bind (fun m h => ?_) fun _ _ h => h.tolerant rfl rfl rfl rfl
      exact deliver_keeps (fun t _ ht => ht.tolerant rfl rfl rfl rfl)
        (fun packet _ t ht => handle_packet_pursues t ht) h

/-- A packet that a tick visits goes out again as long as it has an attempt left. -/
theorem visited_emitted {r : PacketResender} {delta : U32} {i : Nat}
    {packet : ReliableBufferedPacket}
    (visited : (i, packet) ∈ PacketResender.dueFrom delta 0 r.packets.values)
    (attempt : packet.resendAttempts ≠ 0) :
    packet.payload ∈ (r.emissions delta).map (fun e => e.2.payload) := by
  refine List.mem_map.mpr ⟨(i, packet.ticked delta), ?_, ?_⟩
  · refine List.mem_map.mpr ⟨(i, packet), List.mem_filter.mpr ⟨visited, ?_⟩, rfl⟩
    exact decide_eq_true attempt
  · unfold ReliableBufferedPacket.ticked
    split <;> rfl

/-- A tick takes an attempt from the packets that it sends, and drops those that have none left. -/
theorem Pursued.ticked {delta : U32} (h : Pursued attempts m key d)
    (time : m.resender.inTime delta = true) (resender : m'.resender = m.resender.ticked delta)
    (log : m'.log = m.log ++ (m.resender.emissions delta).map (fun e => .sent e.2.payload)) :
    Pursued attempts m' key d := by
  have datagrams : m'.datagrams =
      m.datagrams ++ (m.resender.emissions delta).map (fun e => e.2.payload) := by
    rw [Endpoint.datagrams, Endpoint.datagrams, log, List.filterMap_append, List.filterMap_map,
      ← List.filterMap_eq_map]
    rfl
  have counts : m'.datagrams.count d =
      m.datagrams.count d + ((m.resender.emissions delta).map (fun e => e.2.payload)).count d := by
    rw [datagrams, List.count_append]
  rcases h with ⟨packet, hget, hpayload, hlt⟩ | ⟨d', hd'⟩ | hlt
  · have hleft := PacketResender.get_ticked m.resender delta key
    rw [hget, ← resender, PacketResender.left, Option.bind_some] at hleft
    have payload : (packet.ticked delta).payload = d := by
      rw [← hpayload, ReliableBufferedPacket.ticked]
      split <;> rfl
    by_cases due : packet.due delta = true
    · have visited := PacketResender.mem_due_from (i := 0) time (SlotMap.get_eq_some.mp hget).1 due
      have again (attempt : packet.resendAttempts ≠ 0) :
          m.datagrams.count d < m'.datagrams.count d := by
        rw [counts, ← hpayload]
        exact Nat.lt_add_of_pos_right (List.count_pos_iff.mpr (visited_emitted visited attempt))
      rcases PacketResender.turn_cases visited with ⟨zero, _⟩ | ⟨one, _⟩ | ⟨more, expires, _⟩
      · right
        right
        have none : packet.resendAttempts.toNat = 0 := by
          rw [zero]
          rfl
        omega
      · right
        right
        have sent := again (by simp [one])
        have last : packet.resendAttempts.toNat = 1 := by
          rw [one]
          rfl
        omega
      · left
        have attempt : packet.resendAttempts ≠ 0 := by bv_omega
        have sent := again attempt
        have fewer : (packet.ticked delta).resendAttempts.toNat + 1 =
            packet.resendAttempts.toNat := by
          rw [ReliableBufferedPacket.ticked, if_pos due]
          dsimp only
          rw [if_neg attempt]
          bv_omega
        rw [expires] at hleft
        exact ⟨_, hleft, payload, by omega⟩
    · left
      have expires : PacketResender.expires packet delta = false := by
        by_contra he
        exact due (PacketResender.expires_due (Bool.not_eq_false _ ▸ he))
      have attempts : (packet.ticked delta).resendAttempts = packet.resendAttempts := by
        rw [ReliableBufferedPacket.ticked, if_neg due]
      rw [expires] at hleft
      refine ⟨_, hleft, payload, ?_⟩
      rw [attempts]
      omega
  · exact Or.inr (Or.inl ⟨d', log ▸ List.mem_append_left _ hd'⟩)
  · exact Or.inr (Or.inr (by omega))

theorem update_connection_pursues {delta : U32} (hl : l.toNat < 2 ^ 31) :
    Act.Keeps (Pursues l attempts) (updateConnection delta) := by
  intro m h
  have update := update_sends delta m
  generalize ht : ({ m with
    log := m.log ++ (m.resender.emissions delta).map (fun e => .sent e.2.payload) } : Endpoint) = t
    at update
  rw [updateConnection, Act.bind_of_ok (Act.get_apply m)]
  by_cases time : m.resender.inTime delta = true
  · rw [if_pos time] at update
    rw [Act.bind_of_ok update]
    have ticked : Pursues l attempts { t with resender := m.resender.ticked delta } := by
      subst ht
      refine ⟨fun fits => ?_, h.stage, h.elsewhere, fun fits key d on hd => ?_⟩
      · exact (PacketResender.clock_cases (h.tidy fits) fits
          (PacketResender.update_packets update)).1
      · have issued : .issued key d ∈ m.log := by simpa using hd
        exact (h.pursued fits key d on issued).ticked time rfl rfl
    refine Act.bind_ends (fun _ _ _ => ticked) (fun _ _ => ?_)
    refine Act.bind_ends (fun _ _ _ => ticked) (fun id hid => ?_)
    exact flush_pursues hl ((ack_channel_id (local_ack_channel_id hid)) ▸ ticked.elsewhere) _ ticked
  · rw [if_neg time] at update
    rw [Act.bind_of_panic update]
    subst ht
    exact h.same rfl rfl rfl rfl (by simp)

end

/-- What was issued on a channel was issued in the transfer stage, and is pursued. -/
def Pursuing (l : U32) (attempts : Nat) (m : Endpoint) : Prop :=
  m.resender.packets.Fits → ∀ key d, OnChannel l d → .issued key d ∈ m.log →
    m.state = .transfer ∧ Pursued attempts m key d

section
variable {P Q : Registry} {name : String} {g l : U32} {kind : Channel} {reliable : ReliableChannel}
  {m : Endpoint} {input : Input}

/-- A request is sent with the attempts of its channel. -/
theorem send_event_pursues {channel : U32} {payload : Bytes}
    (entered : Entered (sortedChannels P.provider) m.localInner)
    (place : (sortedChannels P.provider)[l.toNat]? = some (name, g))
    (registered : P.provider.byId g = some kind) (hkind : kind.reliability = some reliable)
    (h : Pursues l reliable.resendAttempts.toNat m) :
    Pursues l reliable.resendAttempts.toNat (sendEvent P.provider channel payload m).2 := by
  have hl : l.toNat < 2 ^ 31 := Nat.lt_trans (place_small (sorted_few P) place) (by decide)
  rcases send_event_cases P.provider channel payload m with ⟨_, he⟩ | ⟨target, addressed, he⟩
  · rw [he]
    exact h
  · rw [he, Act.bind_pure_state]
    have noted : Pursues l reliable.resendAttempts.toNat
        { m with log := m.log ++ [.called channel payload] } := h.same rfl rfl rfl rfl (by simp)
    refine send_packet_pursues hl (fun id other hother => ?_) _ noted
    rcases addressed_cases addressed with ⟨_, hlocal, hchannel⟩ | ⟨_, _, hst, _⟩
    · have hplace := local_place entered hlocal
      rw [id, place] at hplace
      obtain rfl : g = channel := Option.some.inj hplace
      cases registered.symm.trans hchannel
      cases hkind.symm.trans hother
      rfl
    · cases hst.symm.trans h.stage

theorem Pursuing.perform (h : Pursuing l reliable.resendAttempts.toNat m)
    (hreach : Reachable P.provider m) (offers : input.offers P)
    (place : (sortedChannels P.provider)[l.toNat]? = some (name, g))
    (application : name ≠ ackChannelName) (registered : P.provider.byId g = some kind)
    (hkind : kind.reliability = some reliable) :
    Pursuing l reliable.resendAttempts.toNat (perform P.provider input m).2 := by
  have hl : l.toNat < 2 ^ 31 := Nat.lt_trans (place_small (sorted_few P) place) (by decide)
  have entered := hreach.counted.entered
  have compact := hreach.passed.compact
  have elsewhere := ack_packet_elsewhere entered place application
  intro fits key d on hd
  cases hst : m.state with
  | transfer =>
    have pursues : Pursues l reliable.resendAttempts.toNat m := by
      refine ⟨hreach.passed.tidy, hst, ?_, fun fits key d on hd => (h fits key d on hd).2⟩
      simpa only [Endpoint.ackPacket, hst] using elsewhere
    have kept : Pursues l reliable.resendAttempts.toNat (Theta.perform P.provider input m).2 := by
      cases input with
      | read now d => exact handle_message_pursues hl d m pursues
      | tick delta => exact update_connection_pursues hl m pursues
      | send channel payload => exact send_event_pursues entered place registered hkind pursues
    exact ⟨kept.stage, kept.pursued fits key d on hd⟩
  | registration received lastKey =>
    exfalso
    have silent (before : .issued key d ∈ m.log) : False := by
      have earlier := Nat.le_trans (work_generations_le (perform_work compact)) fits
      cases (h earlier key d on before).1.symm.trans hst
    have replies (quiet : ∀ channel payload, input ≠ .send channel payload) : False := by
      refine silent (moves_issues (replying_moves compact quiet) hreach.passed.tidy fits hl
        (fun t base _ inner sends => ?_) on hd)
      rw [sends.1]
      exact ack_packet_elsewhere (inner ▸ entered) place application
    cases input with
    | read now d => exact replies (by simp)
    | tick delta => exact replies (by simp)
    | send channel payload =>
      have dropped : (sendEvent P.provider channel payload m).2 = m := by
        rcases send_event_cases P.provider channel payload m with ⟨_, he⟩ | ⟨target, addressed, _⟩
        · rw [he]
        · rcases addressed_cases addressed with ⟨htransfer, _⟩ | ⟨_, _, _, builtin⟩
          · cases htransfer.symm.trans hst
          · cases (provided_unregistered offers).symm.trans builtin
      apply silent
      rw [← dropped]
      exact hd

/-- No packet of a reliable channel is lost without a trace: it is held and has been sent or will
be, or the peer has recorded it, or it went out as often as the channel allows. -/
theorem no_silent_loss (framed : Framed P Q) (framed' : Framed Q P)
    (place : (sortedChannels P.provider)[l.toNat]? = some (name, g))
    (application : name ≠ ackChannelName) (registered : P.provider.byId g = some kind)
    (hkind : kind.reliability = some reliable) {s : Peer × Peer}
    (h : Connected P Q P.abstains Q.abstains s) (fits : s.1.endpoint.resender.packets.Fits)
    {key : SlotMapKey} {d : Bytes} (on : OnChannel l d)
    (issued : .issued key d ∈ s.1.endpoint.log) :
    (∃ packet, s.1.endpoint.resender.packets.get key = some packet ∧ packet.payload = d ∧
      reliable.resendAttempts.toNat <
        packet.resendAttempts.toNat + s.1.endpoint.datagrams.count d) ∨
    .recorded key d ∈ s.2.endpoint.log ∨
    reliable.resendAttempts.toNat < s.1.endpoint.datagrams.count d := by
  have pursuing : Pursuing l reliable.resendAttempts.toNat s.1.endpoint := by
    refine connected_side h (fun _ _ _ _ hd => absurd hd List.not_mem_nil)
      (fun now _ key d on hd => absurd hd (initialize_elsewhere now place on))
      (fun m input hreach offers pursuing => ?_)
    exact pursuing.perform hreach offers place application registered hkind
  rcases (pursuing fits key d on issued).2 with held | ⟨d', released⟩ | spent
  · exact Or.inl held
  · obtain ⟨issued', recorded, _⟩ := connected_released framed framed' h fits released
    have unique := ((connected_standing h).1.chronicled fits).unique
    rw [unique key d d' issued issued']
    exact Or.inr (Or.inl recorded)
  · exact Or.inr (Or.inr spent)

end

theorem loose_framed : Framed looseRegistry looseRegistry := by
  refine ⟨fun name kind kind' h h' => ?_, fun kind' h => ?_⟩
  · cases h.symm.trans h'
    rfl
  · have builtin : looseRegistry.kind ackChannelName = some ackChannel := by decide +kernel
    cases builtin.symm.trans h
    rfl

/-- The message that got lost is held. -/
theorem no_silent_loss_jumbled :
    .recorded ⟨2, 1⟩ [2, 2, 1, 7] ∉ jumbled.2.endpoint.log ∧
      ((∃ packet, jumbled.1.endpoint.resender.packets.get ⟨2, 1⟩ = some packet ∧
        packet.payload = [2, 2, 1, 7] ∧
        3 < packet.resendAttempts.toNat + jumbled.1.endpoint.datagrams.count [2, 2, 1, 7]) ∨
      .recorded ⟨2, 1⟩ [2, 2, 1, 7] ∈ jumbled.2.endpoint.log ∨
      3 < jumbled.1.endpoint.datagrams.count [2, 2, 1, 7]) :=
  ⟨by decide +kernel, no_silent_loss (l := 1) loose_framed loose_framed (by decide +kernel)
    loose_twin.application.1 loose_twin.ownKind rfl jumbled_connected
    (by unfold SlotMap.Fits; decide +kernel)
    ⟨messagePacket 1 (some ⟨2, 1⟩) [7], rfl, by decide +kernel⟩ (by decide +kernel)⟩

end Theta
