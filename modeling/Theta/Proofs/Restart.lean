import Theta.Proofs.Deliveries
import Theta.Proofs.KeepAlive
import Theta.Proofs.Stages

namespace Theta
open Lib Relation

/-- A datagram on a channel of the transfer stage. -/
def Transferred (d : Bytes) : Prop :=
  ∀ primary rest, PrimaryPacketMetadata.decode d = .ok (primary, rest) →
    ConnectionIdMapperInner.registrationId primary.channelId = none

/-- All that is held for sending is of the transfer stage. -/
def Holding (m : Endpoint) : Prop :=
  ∀ packet, some packet ∈ m.resender.packets.values → Transferred packet.payload

/-- All that was sent after a moment in the transfer stage is of this stage. -/
structure Since (before : List Event) (m : Endpoint) : Prop where
  transfer : m.state = .transfer
  held : Holding m
  sent : ∃ events, m.log = before ++ events ∧ ∀ d, .sent d ∈ events → Transferred d

section
variable {r : Registry} {m m' : Endpoint} {s : Scope} {before : List Event}

theorem packet_transferred {packet : Packet} (id : packet.channelId.toNat < 2 ^ 31)
    (stage : ConnectionIdMapperInner.registrationId packet.channelId = none) :
    Transferred packet.bytes := by
  intro primary rest h
  rw [packet.decode_primary id] at h
  cases h
  exact stage

/-- In the transfer stage a connection sends on the channels of the transfer stage. -/
theorem working_transfers {base : Packet} {kind : Channel}
    (h : (working r.provider).sends m base kind)
    (entered : Entered (sortedChannels r.provider) m.localInner) (hst : m.state = .transfer) :
    ConnectionIdMapperInner.registrationId base.channelId = none := by
  rcases h with ⟨rfl, _⟩ | ⟨⟨channel, payload, addressed, _⟩, _⟩
  · apply small_unregistered
    simp only [Endpoint.ackPacket, hst]
    rw [(entered_builtins entered (sorted_few r) (sorted_names r)).1]
    have few : ((sortedChannels r.provider).map Prod.fst).length ≤
        channelManagementChannelIdRegistrationStage.toNat := by
      rw [List.length_map]
      exact sorted_few r
    by_cases known : numberOf ackChannelName ((sortedChannels r.provider).map Prod.fst) =
        nullChannelId
    · exact Or.inr known
    · obtain ⟨place, _⟩ := List.getElem?_eq_some_iff.mp (number_get few rfl known)
      exact Or.inl (Nat.lt_of_lt_of_le place few)
  · rcases addressed_cases addressed with ⟨_, hid, _⟩ | ⟨_, _, hreg, _⟩
    · obtain ⟨entry, place, _⟩ := Option.map_eq_some_iff.mp (local_place entered hid)
      exact small_unregistered (Or.inl (place_small (sorted_few r) place))
    · rw [hst] at hreg
      cases hreg

/-- What a connection holds in the transfer stage was sent in it. -/
theorem Move.holding (h : Move s m m') (hst : m'.state = .transfer)
    (hm : m.state = .transfer → Holding m)
    (sends : m.state = .transfer → ∀ base kind, s.sends m base kind →
      ConnectionIdMapperInner.registrationId base.channelId = none) : Holding m' := by
  cases h with
  | issue base kind reliable key resender packet hsends id segment hkind add stored =>
    intro x hx
    rcases SlotMap.mem_add (PacketResender.add_ok add).2.2 hx with hx | hx
    · cases hx
      have late : Transferred ({ base with resendKey := some key } : Packet).bytes :=
        packet_transferred id (sends hst base kind hsends)
      exact late
    · exact hm hst x hx
  | switch =>
    intro x hx
    exact absurd hx List.not_mem_nil
  | release key packet resender remove hk =>
    intro x hx
    exact hm hst x (SlotMap.mem_remove (PacketResender.remove_ok remove).2 hx)
  | clock delta packets func before after visited =>
    intro x hx
    obtain ⟨packet, held, hpayload⟩ := PacketResender.mem_clock visited hx
    rw [hpayload]
    exact hm hst packet held
  | confirm => cases hst
  | finish => cases hst
  | _ => exact hm hst

theorem Move.transfers (h : Move s m m') (hst : m.state = .transfer) (held : Holding m)
    (sends : ∀ base kind, s.sends m base kind →
      ConnectionIdMapperInner.registrationId base.channelId = none) :
    ∃ events, m'.log = m.log ++ events ∧ ∀ d, .sent d ∈ events → Transferred d := by
  have quiet (events : List Event) (log : m'.log = m.log ++ events)
      (silent : ∀ d, .sent d ∉ events) :
      ∃ events, m'.log = m.log ++ events ∧ ∀ d, .sent d ∈ events → Transferred d :=
    ⟨events, log, fun d hd => absurd hd (silent d)⟩
  have after := h.holding (by exact h.transfer_stays hst) (fun _ => held) (fun _ => sends)
  cases h with
  | issue base kind reliable key resender packet hsends id segment hkind add stored =>
    refine ⟨_, rfl, fun d hd => ?_⟩
    obtain rfl : d = packet.payload := by simpa using hd
    exact after packet (List.mem_of_getElem? (SlotMap.get_eq_some.mp stored).1)
  | send base kind hsends id segment hkind =>
    refine ⟨_, rfl, fun d hd => ?_⟩
    obtain rfl : d = base.bytes := by simpa using hd
    exact packet_transferred id (sends base kind hsends)
  | resend packet here =>
    refine ⟨_, rfl, fun d hd => ?_⟩
    obtain rfl : d = packet.payload := by simpa using hd
    exact held packet here
  | release => exact quiet _ rfl (by simp)
  | record => exact quiet _ rfl (by simp)
  | confirm => exact quiet _ rfl (by simp)
  | consume => exact quiet _ rfl (by simp)
  | hand => exact quiet _ rfl (by simp)
  | _ => exact quiet [] (List.append_nil _).symm (by simp)

theorem Work.holding (h : Work r.provider m m')
    (entered : Entered (sortedChannels r.provider) m.localInner)
    (hm : m.state = .transfer → Holding m) (hst : m'.state = .transfer) : Holding m' := by
  cases h with
  | move _ h =>
    exact h.holding hst hm fun before _ _ hsends => working_transfers hsends entered before
  | _ => exact hm hst

theorem Work.since (h : Work r.provider m m')
    (entered : Entered (sortedChannels r.provider) m.localInner) (hm : Since before m) :
    Since before m' := by
  have stays := h.transfer_stays hm.transfer
  refine ⟨stays, h.holding entered (fun _ => hm.held) stays, ?_⟩
  obtain ⟨events, log, transferred⟩ := hm.sent
  have grown {more : List Event} (log' : m'.log = m.log ++ more)
      (late : ∀ d, .sent d ∈ more → Transferred d) :
      ∃ events, m'.log = before ++ events ∧ ∀ d, .sent d ∈ events → Transferred d := by
    refine ⟨events ++ more, by rw [log', log, List.append_assoc], fun d hd => ?_⟩
    rcases List.mem_append.mp hd with hd | hd
    · exact transferred d hd
    · exact late d hd
  cases h with
  | move _ h =>
    obtain ⟨more, log', late⟩ := h.transfers hm.transfer hm.held
      fun _ _ hsends => working_transfers hsends entered hm.transfer
    exact grown log' late
  | request => exact grown rfl (by simp)
  | count => exact grown rfl (by simp)
  | abandon => exact grown rfl (by simp)

theorem work_holding (h : ReflTransGen (Work r.provider) m m')
    (entered : Entered (sortedChannels r.provider) m.localInner)
    (hm : m.state = .transfer → Holding m) (hst : m'.state = .transfer) : Holding m' := by
  induction h with
  | refl => exact hm hst
  | tail run h ih =>
    rw [← work_local_inner run] at entered
    exact h.holding entered ih hst

theorem work_since (h : ReflTransGen (Work r.provider) m m')
    (entered : Entered (sortedChannels r.provider) m.localInner) (hm : Since before m) :
    Since before m' := by
  induction h with
  | refl => exact hm
  | tail run h ih =>
    rw [← work_local_inner run] at entered
    exact h.since entered ih

theorem Reachable.holding (h : Reachable r.provider m) (hst : m.state = .transfer) :
    Holding m := by
  induction h with
  | initialized now m h =>
    obtain ⟨key, registers⟩ := initialize_state h
    rw [registers] at hst
    cases hst
  | step input m m' before h ih =>
    have work : ReflTransGen (Work r.provider) m (perform r.provider input m).2 :=
      perform_work before.passed.compact
    rw [h.2] at work
    exact work_holding work before.counted.entered ih hst

theorem Standing.holding {peer : Peer} (h : Standing r peer)
    (hst : peer.endpoint.state = .transfer) : Holding peer.endpoint := by
  cases h with
  | closed => cases hst
  | live m reachable => exact reachable.holding hst
  | lost m m' reachable work =>
    exact work_holding work reachable.counted.entered reachable.holding hst
  | refused now => exact absurd hst (initialize_registers r.provider now)

theorem Since.datagrams (h : Since before m) {d : Bytes}
    (hd : d ∈ m.datagrams.drop (before.filterMap Event.datagram?).length) : Transferred d := by
  obtain ⟨events, log, transferred⟩ := h.sent
  rw [Endpoint.datagrams, log, List.filterMap_append, List.drop_left] at hd
  obtain ⟨event, hevent, hdatagram⟩ := List.mem_filterMap.mp hd
  cases event with
  | sent x =>
    obtain rfl : x = d := Option.some.inj hdatagram
    exact transferred x hevent
  | _ => cases hdatagram

theorem Spoken.decodes {key : Option SlotMapKey} {d : Bytes} (h : Spoken r m key d) :
    ∃ primary rest, PrimaryPacketMetadata.decode d = .ok (primary, rest) := by
  cases h with
  | framed base kind uttered id => exact ⟨_, _, Packet.decode_primary id⟩

/-- A datagram on a channel that is not known is refused, and changes nothing. -/
theorem handle_unknown {p : ChannelProvider} {d rest : Bytes} {primary : PrimaryPacketMetadata}
    (hd : PrimaryPacketMetadata.decode d = .ok (primary, rest))
    (stays : ¬ Speculates m primary.channelId)
    (unknown : m.notLocalInner.globalId m.state primary.channelId = none) (now : Nat) :
    handleMessage p now d m = (.err .unknownChannel, m) := by
  obtain ⟨m1, ⟨speculates, _⟩ | ⟨_, rfl⟩, hread⟩ := read_packet_decoded (p := p) (m := m) hd
  · exact absurd speculates stays
  · have refused : parsePacket p m1.state m1.notLocalInner primary rest = .err .unknownChannel := by
      simp only [parsePacket, resolveChannel, unknown]
      rfl
    rw [refused] at hread
    rw [handle_message_rejected (congrArg Prod.fst hread), hread]

end

/-- A side that has no part in the connection that its peer keeps. -/
structure Newcomer (r : Registry) (peer : Peer) : Prop where
  standing : Standing r peer
  registers : peer.endpoint.state ≠ .transfer
  waits : peer.stage = .live → ∃ lastKey, peer.endpoint.state = .registration false lastKey

/-- A side that keeps its connection, and has received nothing since it stood at `m`. -/
structure Veteran (r : Registry) (m : Endpoint) (peer : Peer) : Prop where
  standing : Standing r peer
  since : Since m.log peer.endpoint
  same : SameReceipts m peer.endpoint
  time : peer.endpoint.lastTimeReceivedPacket = m.lastTimeReceivedPacket

section
variable {Q R : Registry} {guard guard' : Endpoint → Input → Bool} {a a' b b' : Peer}
  {m : Endpoint} {d : Bytes}

theorem noted_tolerant :
    Tolerant (fun m m' => m'.lastTimeReceivedPacket = m.lastTimeReceivedPacket) where
  refl _ := rfl
  trans _ _ _ h h' := h'.trans h
  emit _ _ := rfl
  parts _ _ _ _ _ _ _ _ := rfl
  stage _ _ _ _ _ _ := rfl
  switch _ _ _ := rfl

theorem update_connection_noted (delta : U32) (m : Endpoint) :
    (updateConnection delta m).2.lastTimeReceivedPacket = m.lastTimeReceivedPacket := by
  have follows : Follows (fun m m' => m'.lastTimeReceivedPacket = m.lastTimeReceivedPacket)
      (updateConnection delta) := by
    refine .bind noted_tolerant (.get noted_tolerant) fun m => ?_
    refine .bind noted_tolerant (update_follows noted_tolerant m.resender delta) fun resender => ?_
    refine .bind noted_tolerant (.modify fun m => rfl) fun _ => ?_
    refine .bind noted_tolerant
      (.bind noted_tolerant (.get noted_tolerant) fun _ => .lift noted_tolerant _) fun id => ?_
    refine .bind noted_tolerant (.get noted_tolerant) fun m => ?_
    exact .bind noted_tolerant (send_packet_follows noted_tolerant ..) fun _ => .modify fun m => rfl
  exact follows.holds m

theorem Peer.establish_waits {p : ChannelProvider} {now : Nat}
    (h : a.establish p now = some a') (live : a'.stage = .live) :
    ∃ lastKey, a'.endpoint.state = .registration false lastKey := by
  unfold Peer.establish at h
  split at h
  · split at h
    · rename_i t hrun
      cases h
      obtain ⟨key, state⟩ := initialize_state hrun
      exact ⟨some key, state⟩
    · cases h
      cases live
  · cases h

/-- Of its own accord a live side neither changes its stage nor receives anything. -/
theorem acts_receive_nothing (h : Standing R a) (live : a.stage = .live)
    (acts : Acts R guard a a') : SameReceipts a.endpoint a'.endpoint ∧
      a'.endpoint.lastTimeReceivedPacket = a.endpoint.lastTimeReceivedPacket := by
  cases acts with
  | establish now hmade =>
    unfold Peer.establish at hmade
    rw [live] at hmade
    cases hmade
  | tick delta allowed hcall =>
    obtain ⟨_, hend, _⟩ := Peer.call_live hcall
    have moves : ReflTransGen (Move flushing) a.endpoint (updateConnection delta a.endpoint).2 :=
      update_connection_moves (h.reachable live).1.passed.compact (fun _ => ⟨rfl, rfl⟩)
    rw [hend]
    exact ⟨same_receipts flushing_quiet moves, update_connection_noted delta a.endpoint⟩
  | send channel payload offered allowed hcall =>
    obtain ⟨_, hend, _⟩ := Peer.call_live hcall
    rw [hend]
    exact ⟨(send_event_quiet R.provider channel payload a.endpoint).1,
      (send_event_follows noted_tolerant R.provider channel payload).holds a.endpoint⟩

theorem Newcomer.refuses (h : Newcomer R a) (live : a.stage = .live) (hb : Veteran Q m b)
    (hd : d ∈ b.endpoint.datagrams.drop m.datagrams.length) (now : Nat) :
    handleMessage R.provider now d a.endpoint = (.err .unknownChannel, a.endpoint) := by
  obtain ⟨lastKey, waits⟩ := h.waits live
  obtain ⟨key, spoken⟩ := hb.standing.spoken (List.mem_of_mem_drop hd)
  obtain ⟨primary, rest, decodes⟩ := spoken.decodes
  have transferred := hb.since.datagrams hd primary rest decodes
  refine handle_unknown decodes ?_ ?_ now
  · rintro ⟨⟨lastKey', speculates⟩, _⟩
    rw [waits] at speculates
    cases speculates
  · rw [waits]
    exact transferred

theorem Veteran.refuses (h : Veteran Q m b)
    (strange : ∀ l, ConnectionIdMapperInner.registrationId l ≠ none →
      m.notLocalInner.globalId .transfer l = none)
    (ha : Newcomer R a) (hd : d ∈ a.endpoint.datagrams) (now : Nat) :
    handleMessage Q.provider now d b.endpoint = (.err .unknownChannel, b.endpoint) := by
  obtain ⟨key, spoken⟩ := ha.standing.spoken hd
  obtain ⟨primary, rest, decodes⟩ := spoken.decodes
  have preliminary := ha.standing.registering ha.registers hd primary rest decodes
  refine handle_unknown decodes (not_speculates_transfer h.since.transfer) ?_ now
  rw [h.since.transfer, h.same.notLocalInner]
  exact strange primary.channelId preliminary

theorem Newcomer.step (h : Newcomer R a) (hb : Veteran Q m b)
    (step : (party R guard).Step ((party Q guard').since m.datagrams.length) b a a') :
    Newcomer R a' := by
  have standing := h.standing.step step.of_since
  have goes_on (live : a.stage = .live) (state : a'.endpoint.state = a.endpoint.state) :
      Newcomer R a' := by
    refine ⟨standing, ?_, fun _ => ?_⟩
    · rw [state]
      exact h.registers
    · rw [state]
      exact h.waits live
  cases step with
  | act acts =>
    by_cases live : a.stage = .live
    · exact goes_on live (acts_receive_nothing h.standing live acts).1.state
    · cases acts with
      | establish now hmade =>
        refine ⟨standing, ?_, Peer.establish_waits hmade⟩
        rw [Peer.establish_ends hmade]
        exact initialize_registers R.provider now
      | tick delta allowed hcall => exact absurd (Peer.call_live hcall).1 live
      | send channel payload offered allowed hcall => exact absurd (Peer.call_live hcall).1 live
  | read message sent reads =>
    obtain ⟨now, _, hcall⟩ := reads
    obtain ⟨live, hend, _⟩ := Peer.call_live hcall
    apply goes_on live
    rw [hend, perform, h.refuses live hb sent now]

theorem Veteran.step (h : Veteran Q m b)
    (strange : ∀ l, ConnectionIdMapperInner.registrationId l ≠ none →
      m.notLocalInner.globalId .transfer l = none)
    (ha : Newcomer R a)
    (step : ((party Q guard').since m.datagrams.length).Step (party R guard) a b b') :
    Veteran Q m b' := by
  have started : b ≠ {} := by
    rintro rfl
    cases h.since.transfer
  have plain := Party.Step.since_iff.mp step
  have standing := h.standing.step plain
  have work := (h.standing.works plain).resolve_left started
  have since := work_since work (h.standing.entered h.since.transfer) h.since
  have live : b.stage = .live := by
    rcases party_step_cases plain with ⟨closed, _⟩ | ⟨input, hcall⟩
    · exact absurd (h.standing.unopened closed) started
    · exact (Peer.call_live hcall).1
  cases step with
  | act acts =>
    obtain ⟨same, time⟩ := acts_receive_nothing h.standing live acts
    exact ⟨standing, since, h.same.trans same, time.trans h.time⟩
  | read message sent reads =>
    obtain ⟨now, _, hcall⟩ := reads
    have hend : b'.endpoint = b.endpoint := by
      rw [(Peer.call_live hcall).2.1, perform, h.refuses strange ha sent now]
    refine ⟨standing, since, ?_, ?_⟩
    · rw [hend]
      exact h.same
    · rw [hend]
      exact h.time

end

section
variable {P Q R : Registry} {guard guard' guard'' : Endpoint → Input → Bool} {s t : Peer × Peer}

/-- When one of two connected sides starts anew and the other one keeps its connection, the two
never come together again: whatever they do from then on, each refuses everything that the other has
sent since, the one that started anew stays in the registration stage, and the other one receives
nothing and notes no time. -/
theorem restart_stalls (h : Connected P Q guard guard' s) (hst : s.1.endpoint.state = .transfer)
    (hst' : s.2.endpoint.state = .transfer)
    (run : ReflTransGen (Party.Exchange (party R guard'')
      ((party Q guard').since s.2.endpoint.datagrams.length)) ({}, s.2) t) :
    t.1.endpoint.state ≠ .transfer ∧ t.2.endpoint.state = .transfer ∧
      t.2.endpoint.buffers = s.2.endpoint.buffers ∧
      t.2.endpoint.lastTimeReceivedPacket = s.2.endpoint.lastTimeReceivedPacket ∧
      (∀ d ∈ t.2.endpoint.datagrams.drop s.2.endpoint.datagrams.length, t.1.stage = .live →
        ∀ now, handleMessage R.provider now d t.1.endpoint =
          (.err .unknownChannel, t.1.endpoint)) ∧
      ∀ d ∈ t.1.endpoint.datagrams, ∀ now, handleMessage Q.provider now d t.2.endpoint =
        (.err .unknownChannel, t.2.endpoint) := by
  obtain ⟨standing, standing'⟩ := connected_standing h
  obtain ⟨capacity, initializes⟩ := standing.initialized hst
  have charted := connected_charted initializes.announceable.names h
  have strange (l : U32) (stage : ConnectionIdMapperInner.registrationId l ≠ none) :
      s.2.endpoint.notLocalInner.globalId .transfer l = none := by
    cases known : s.2.endpoint.notLocalInner.globalId .transfer l with
    | none => rfl
    | some g =>
      obtain ⟨name, own, place, _⟩ := charted.resolves (sorted_few P) known
      exact absurd (small_unregistered (Or.inl (place_small (sorted_few P) place))) stage
  have newcomer : Newcomer R {} := by
    refine ⟨.closed, ?_, fun live => ?_⟩
    · intro registers
      cases registers
    · cases live
  have veteran : Veteran Q s.2.endpoint s.2 :=
    ⟨standing', ⟨hst', standing'.holding hst', [], (List.append_nil _).symm, by simp⟩, .refl _, rfl⟩
  obtain ⟨ha, hb⟩ := Party.mutual_invariant
    (fun b a a' hb step ha => ha.step hb step)
    (fun a b b' ha step hb => hb.step strange ha step) run ⟨newcomer, veteran⟩
  exact ⟨ha.registers, hb.since.transfer, hb.same.buffers, hb.time,
    fun d hd live now => ha.refuses live hb hd now,
    fun d hd now => hb.refuses strange ha hd now⟩

/-- A datagram that was sent late enough is on the way. -/
theorem late_step {n now index : Nat} {other peer peer' : Peer} (late : n ≤ index)
    (h : peer.act P guard other (.read now index) = some peer') :
    (party P guard).Step ((party Q guard').since n) other peer peer' := by
  unfold Peer.act at h
  dsimp only at h
  split at h
  · rename_i d hd
    simp only [Option.ite_none_right_eq_some] at h
    have sent : d ∈ other.endpoint.datagrams.drop n := by
      apply List.mem_of_getElem? (i := index - n)
      rw [List.getElem?_drop, Nat.add_sub_cancel' late]
      exact hd
    exact .read _ _ d sent ⟨now, h.1, h.2⟩
  · cases h

end

/-- The left side has started anew. -/
def anew : Peer := (({} : Peer).establish chatRegistry.provider 5).getD {}

/-- The right side has read its first announcement and ticked. -/
def unmoved : Peer :=
  ((met.2.act chatRegistry chatRegistry.abstains anew (.read 6 0)).bind
    (Peer.act chatRegistry chatRegistry.abstains · anew (.tick 1))).getD {}

/-- The left side has read what this tick has sent. -/
def estranged : Peer :=
  (anew.act chatRegistry chatRegistry.abstains unmoved (.read 7 5)).getD {}

def restarted : Peer × Peer := (estranged, unmoved)

theorem restarted_run : ReflTransGen (Party.Exchange (party chatRegistry chatRegistry.abstains)
    ((party chatRegistry chatRegistry.abstains).since met.2.endpoint.datagrams.length))
    ({}, met.2) restarted := by
  have few : met.2.endpoint.datagrams.length ≤ 5 := by decide +kernel
  have made : ({} : Peer).establish chatRegistry.provider 5 ≠ none := by decide +kernel
  have moves : (met.2.act chatRegistry chatRegistry.abstains anew (.read 6 0)).bind
      (Peer.act chatRegistry chatRegistry.abstains · anew (.tick 1)) ≠ none := by
    decide +kernel
  have hears : anew.act chatRegistry chatRegistry.abstains unmoved (.read 7 5) ≠ none := by
    decide +kernel
  have made' : ({} : Peer).establish chatRegistry.provider 5 = some anew :=
    (Option.getD_of_ne_none made {}).symm
  have moves' : (met.2.act chatRegistry chatRegistry.abstains anew (.read 6 0)).bind
      (Peer.act chatRegistry chatRegistry.abstains · anew (.tick 1)) = some unmoved :=
    (Option.getD_of_ne_none moves {}).symm
  have hears' : anew.act chatRegistry chatRegistry.abstains unmoved (.read 7 5) =
      some estranged :=
    (Option.getD_of_ne_none hears {}).symm
  obtain ⟨refusing, reads, ticks⟩ := Option.bind_eq_some_iff.mp moves'
  have first : Party.Exchange (party chatRegistry chatRegistry.abstains)
      ((party chatRegistry chatRegistry.abstains).since met.2.endpoint.datagrams.length)
      ({}, met.2) (anew, met.2) :=
    .left _ _ _ (.act _ _ (.establish 5 made'))
  have second := (ReflTransGen.single first).tail
    (.right anew met.2 refusing (Party.Step.since_iff.mpr (act_step reads)))
  have third := second.tail
    (.right anew refusing unmoved (Party.Step.since_iff.mpr (act_step ticks)))
  exact third.tail (.left anew estranged unmoved (late_step few hears'))

theorem restart_stalls_restarted :
    restarted.1.endpoint.state ≠ .transfer ∧ restarted.2.endpoint.state = .transfer ∧
      ∀ d ∈ restarted.1.endpoint.datagrams, ∀ now,
        handleMessage chatRegistry.provider now d restarted.2.endpoint =
          (.err .unknownChannel, restarted.2.endpoint) := by
  have reached : Connected chatRegistry chatRegistry chatRegistry.abstains chatRegistry.abstains
      met :=
    abstaining_connected (by decide +kernel)
  have transfer : met.1.endpoint.state = .transfer := by decide +kernel
  have transfer' : met.2.endpoint.state = .transfer := by decide +kernel
  obtain ⟨registers, keeps, _, _, _, refuses⟩ :=
    restart_stalls reached transfer transfer' restarted_run
  exact ⟨registers, keeps, refuses⟩

end Theta
