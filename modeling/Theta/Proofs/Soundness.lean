import Theta.Proofs.Chronicle
import Theta.Proofs.Prefixes

namespace Theta
open Lib Relation

/-- The application sends on none of the built-in channels. -/
def Registry.abstains (r : Registry) (_ : Endpoint) : Input → Bool
  | .send channel _ => decide (r.provider.byName ackChannelName ≠ some channel) &&
      decide (r.provider.byName channelManagementChannelName ≠ some channel)
  | _ => true

/-- A key that is recorded was issued by the peer, with the datagram that it was read of. -/
def Recognized (a : Endpoint) : Event → Prop
  | .recorded key d => .issued key d ∈ a.log
  | _ => True

/-- A key that is released or confirmed was recorded by the peer. -/
def Answered (b : Endpoint) : Event → Prop
  | .released key _ => ∃ d, .recorded key d ∈ b.log
  | .confirmed key => ∃ d, .recorded key d ∈ b.log
  | _ => True

/-- The events of a connection that takes nothing in. -/
def Event.Outgoing : Event → Prop
  | .recorded _ _ => False
  | .released _ _ => False
  | .confirmed _ => False
  | _ => True

section
variable {a a' b m m' : Endpoint} {s : Scope} {event : Event}

theorem Event.Outgoing.recognized (h : event.Outgoing) : Recognized a event := by
  cases event with
  | recorded => cases h
  | _ => trivial

theorem Event.Outgoing.answered (h : event.Outgoing) : Answered b event := by
  cases event with
  | released => cases h
  | confirmed => cases h
  | _ => trivial

theorem Recognized.later (h : Recognized a event) (log : a.log <+: a'.log) :
    Recognized a' event := by
  cases event with
  | recorded key d => exact log.subset h
  | _ => trivial

theorem Answered.later (h : Answered a event) (log : a.log <+: a'.log) : Answered a' event := by
  cases event with
  | released key d =>
    obtain ⟨d, hd⟩ := h
    exact ⟨d, log.subset hd⟩
  | confirmed key =>
    obtain ⟨d, hd⟩ := h
    exact ⟨d, log.subset hd⟩
  | _ => trivial

/-- A scope that records nothing logs nothing that has to be recognized. -/
theorem recognized_logs (hr : ∀ key d, s.records m key d → .issued key d ∈ a.log)
    (h : s.logs m event) : Recognized a event := by
  cases event with
  | recorded key d => exact hr key d h
  | _ => trivial

theorem answered_logs (hk : ∀ key, s.acks key → ∃ d, .recorded key d ∈ b.log)
    (h : s.logs m event) : Answered b event := by
  cases event with
  | released key d => exact hk key h
  | confirmed key => exact hk key h
  | _ => trivial

/-- What holds of outgoing events holds of all that moves without receipts log. -/
theorem moves_outgoing {E : Event → Prop} (h : ReflTransGen (Move s) m m')
    (hr : ∀ t key d, ¬ s.records t key d) (hk : ∀ key, ¬ s.acks key)
    (outgoing : ∀ event : Event, event.Outgoing → E event) (hm : ∀ event ∈ m.log, E event) :
    ∀ event ∈ m'.log, E event := by
  refine moves_logged h (fun t event _ h => outgoing event ?_) hm
  cases event with
  | recorded key d => exact hr t key d h
  | released key => exact hk key h
  | confirmed key => exact hk key h
  | _ => trivial

theorem send_event_logged {E : Event → Prop} {p : ChannelProvider} {g : U32} {payload : Bytes}
    (outgoing : ∀ event : Event, event.Outgoing → E event) (hm : ∀ event ∈ m.log, E event) :
    ∀ event ∈ (sendEvent p g payload m).2.log, E event := by
  refine send_event_ends (P := fun t => ∀ event ∈ t.log, E event) hm (fun _ event he => ?_)
    (fun kind order t ht => moves_outgoing (transmit_sending kind order payload t)
      (fun _ _ _ => id) (fun _ => id) outgoing ht)
  rcases List.mem_append.mp he with he | he
  · exact hm event he
  · cases List.mem_singleton.mp he
    exact outgoing _ trivial

theorem update_connection_logged {E : Event → Prop} {delta : U32} (hc : m.Compact)
    (outgoing : ∀ event : Event, event.Outgoing → E event) (hm : ∀ event ∈ m.log, E event) :
    ∀ event ∈ (updateConnection delta m).2.log, E event := by
  have moves : ReflTransGen (Move flushing) m (updateConnection delta m).2 :=
    update_connection_moves hc (fun _ => ⟨rfl, rfl⟩)
  exact moves_outgoing moves (fun _ _ _ => id) (fun _ => id) outgoing hm

/-- An initialization issues and sends, and nothing else. -/
theorem initialize_events {p : ChannelProvider} {now : Nat} {event : Event}
    (h : event ∈ (initializeConnection p (.fresh now)).2.log) :
    (∃ key d, event = .issued key d) ∨ ∃ d, event = .sent d := by
  rcases initialize_opens p now with ⟨_, _, _, _, heq⟩ | ⟨_, _, k, _, _, _, hlog⟩
  · rw [heq] at h
    obtain ⟨_, _, _, rfl | rfl⟩ := opened_events h
    · exact Or.inl ⟨_, _, rfl⟩
    · exact Or.inr ⟨_, rfl⟩
  · rw [hlog] at h
    obtain ⟨_, _, _, _, rfl | rfl⟩ := opening_events h
    · exact Or.inl ⟨_, _, rfl⟩
    · exact Or.inr ⟨_, rfl⟩

theorem initialize_logged {E : Event → Prop} (p : ChannelProvider) (now : Nat)
    (outgoing : ∀ event : Event, event.Outgoing → E event) :
    ∀ event ∈ (initializeConnection p (.fresh now)).2.log, E event := by
  intro event he
  rcases initialize_events he with ⟨_, _, rfl⟩ | ⟨_, rfl⟩
  · exact outgoing _ trivial
  · exact outgoing _ trivial

end

section
variable {q : Registry} {channels : List (String × U32)} {m : Endpoint}

/-- A connection has no map of its peer's channels before it reads. -/
theorem fresh_charted (now : Nat) : Charted q channels (.fresh now) := by
  have opened : Charted q channels (opened [] now 0 {}) := opened_charted
  exact opened.same rfl rfl (fun _ => ⟨by simp [Theta.opened], rfl⟩)

theorem initialize_charted (p : ChannelProvider) (now : Nat) :
    Charted q channels (initializeConnection p (.fresh now)).2 := by
  refine invariant_of_step (fun m m' h hm => ?_) (initialize_setup p now) (fresh_charted now)
  cases h with
  | move _ h => exact h.charted id False.elim hm
  | prepare => exact hm.same rfl rfl (fun hne => ⟨hne, rfl⟩)
  | await received lastKey key d stage issued =>
    exact hm.same rfl rfl (fun _ => ⟨by simp [stage], rfl⟩)

theorem Charted.tick {delta : U32} (h : Charted q channels m) (hc : m.Compact) :
    Charted q channels (updateConnection delta m).2 := by
  have moves : ReflTransGen (Move flushing) m (updateConnection delta m).2 :=
    update_connection_moves hc (fun _ => ⟨rfl, rfl⟩)
  exact moves_charted id False.elim moves h

theorem Charted.send {p : ChannelProvider} {g : U32} {payload : Bytes}
    (h : Charted q channels m) : Charted q channels (sendEvent p g payload m).2 := by
  have same := (send_event_quiet p g payload m).1
  exact h.same (congrArg List.length (send_event_tables _ _ _ _).handed) same.notLocalInner
    (fun hne => ⟨same.state ▸ hne, same.orderers⟩)

end

section
variable {P Q : Registry} {guard guard' : Endpoint → Input → Bool}

/-- The log of a side only grows. -/
theorem Standing.log_grows {a a' b : Peer} (h : Standing P a)
    (step : (party P guard).Step (party Q guard') b a a') : a.endpoint.log <+: a'.endpoint.log := by
  rcases h.works step with rfl | work
  · exact List.nil_prefix
  · exact work_log_grows work

/-- The slots of a side only become more. -/
theorem Standing.generations_le {a a' b : Peer} (h : Standing P a)
    (step : (party P guard).Step (party Q guard') b a a') :
    a.endpoint.resender.packets.generations.length ≤
      a'.endpoint.resender.packets.generations.length := by
  rcases h.works step with rfl | work
  · exact Nat.zero_le _
  · exact work_generations_le work

/-- What a side knows of its peer's channels. -/
theorem connected_charted
    (short : ∀ entry ∈ sortedChannels P.provider, (utf8 entry.1).length ≤ channelNameMaxLen)
    {s : Peer × Peer} (h : Connected P Q guard guard' s) :
    Charted Q (sortedChannels P.provider) s.2.endpoint := by
  refine @receiver_link P Q guard guard' (fun _ m => Charted Q (sortedChannels P.provider) m)
    (fun a _ => Standing P a) (fun _ => True) s h (fun u run => (connected_standing run).1)
    (fun _ _ => trivial) (fun _ _ _ _ _ _ _ hm => hm) (fun _ _ _ => fresh_charted 0)
    (fun _ now _ _ _ _ => initialize_charted _ now)
    (fun _ _ _ _ hreach _ hm => hm.tick hreach.passed.compact) (fun _ _ _ _ _ _ _ _ hm => hm.send)
    (fun a m now d ha hreach sent _ hm => ?_) trivial
  obtain ⟨_, spoken⟩ := ha.spoken sent
  exact hm.read hreach.passed.compact short spoken

/-- Whatever the peer of an announcing side has recorded was issued to it. -/
theorem connected_recognized (framed : Framed P Q)
    (short : ∀ entry ∈ sortedChannels P.provider, (utf8 entry.1).length ≤ channelNameMaxLen)
    {s : Peer × Peer} (h : Connected P Q guard guard' s)
    (fits : s.1.endpoint.resender.packets.Fits) :
    ∀ event ∈ s.2.endpoint.log, Recognized s.1.endpoint event := by
  refine @receiver_link P Q guard guard'
    (fun a m => a.endpoint.resender.packets.Fits → ∀ event ∈ m.log, Recognized a.endpoint event)
    (fun a b => Standing P a ∧ Charted Q (sortedChannels P.provider) b.endpoint) (fun _ => True) s h
    (fun u run => ⟨(connected_standing run).1, connected_charted short run⟩) (fun _ _ => trivial)
    ?_ ?_ ?_ ?_ ?_ ?_ trivial fits
  · rintro a a' b m ⟨before, _⟩ _ step recognized fits event he
    have earlier := Nat.le_trans (before.generations_le step) fits
    exact (recognized earlier event he).later (before.log_grows step)
  · exact fun _ _ _ _ event he => absurd he List.not_mem_nil
  · exact fun _ now _ _ _ _ _ => initialize_logged _ now fun event he => he.recognized
  · exact fun _ _ _ _ hreach _ recognized fits =>
      update_connection_logged hreach.passed.compact (fun event he => he.recognized) (recognized fits)
  · exact fun _ _ _ _ _ _ _ _ recognized fits =>
      send_event_logged (fun event he => he.recognized) (recognized fits)
  · rintro a m now d ⟨ha, charted⟩ hreach sent _ recognized fits
    have hc := hreach.passed.compact
    obtain ⟨key, spoken, issued⟩ := (ha.chronicled fits).backed _ (mem_datagrams sent)
    obtain ⟨t, moves, hend⟩ := handle_message_prepared now (read_packet_compact (p := Q.provider) hc)
    have prepared : ∀ event ∈ t.log, Recognized a.endpoint event := by
      refine moves_logged moves (fun u event hu h => ?_) (recognized fits)
      refine recognized_logs (fun k d' records => ?_) h
      obtain ⟨rfl, reads⟩ := records
      have there := moves_charted id False.elim hu charted
      exact issued k (spoken.reads_key framed there reads)
    rcases hend with he | ⟨inc, order, payload, _, _, time, he⟩
    · rw [he]
      exact prepared
    · have delivered := deliver_delivering Q.provider inc.globalChannelId inc.channel order payload t
      rw [he]
      intro event hevent
      exact moves_logged delivered (fun _ _ _ h => recognized_logs (fun _ _ => False.elim) h)
        prepared event hevent

/-- What the acknowledgements of these keys do. -/
def answeringOnly (keys : List SlotMapKey) : Scope where
  sends _ _ _ := False
  records _ _ _ := False
  acks key := key ∈ keys
  switches := True
  handles := True

/-- What registration packets do. -/
def registering : Scope where
  sends _ _ _ := False
  records _ _ _ := False
  acks _ := False
  switches := True
  registers := True
  holds := True

/-- A packet of keys that the peer recorded releases no other keys. -/
theorem handle_answer {p : ChannelProvider} {g : U32} {channel : ConnectionChannel}
    {keys : List SlotMapKey} {a m : Endpoint}
    (hid : m.state ≠ .transfer → channel.localId ≠ channelManagementChannelIdRegistrationStage)
    (known : ∀ key ∈ keys, ∃ d, .recorded key d ∈ a.log)
    (hm : ∀ event ∈ m.log, Answered a event) :
    ∀ event ∈ (handlePacket p g channel (keys.flatMap SlotMapKey.encode) m).2.log,
      Answered a event := by
  have moves : ReflTransGen (Move (answeringOnly keys)) m
      (handlePacket p g channel (keys.flatMap SlotMapKey.encode) m).2 := by
    refine handle_packet_moves trivial trivial (fun key hkey => ?_)
      (fun hst he => absurd he (hid hst))
    rw [decode_encoded_keys (Nat.le_refl _)] at hkey
    exact hkey
  exact moves_logged moves (fun _ _ _ h => answered_logs known h) hm

/-- A packet on no channel of acknowledgements logs nothing in the transfer stage. -/
theorem handle_unacknowledging {p : ChannelProvider} {g : U32} {channel : ConnectionChannel}
    {packet : Bytes} {m : Endpoint} (hst : m.state = .transfer)
    (hack : m.notLocalInner.ackChannelId? ≠ some channel.localId) :
    (handlePacket p g channel packet m).2.log = m.log ∧
      (handlePacket p g channel packet m).2.state = .transfer ∧
      (handlePacket p g channel packet m).2.notLocalInner = m.notLocalInner := by
  rcases handle_packet_application p g packet hst hack with h | ⟨_, h⟩
  · rw [h]
    exact ⟨rfl, hst, rfl⟩
  · rw [h]
    exact ⟨rfl, hst, rfl⟩

theorem deliver_unacknowledging {p : ChannelProvider} {g : U32} {channel : ConnectionChannel}
    {order : Option U32} {payload : Bytes} {m : Endpoint} (hst : m.state = .transfer)
    (hack : m.notLocalInner.ackChannelId? ≠ some channel.localId) :
    (deliver p g channel order payload m).2.log = m.log := by
  have kept : (deliver p g channel order payload m).2.log = m.log ∧
      (deliver p g channel order payload m).2.state = .transfer ∧
      (deliver p g channel order payload m).2.notLocalInner = m.notLocalInner := by
    refine deliver_keeps (J := fun t => t.log = m.log ∧ t.state = .transfer ∧
      t.notLocalInner = m.notLocalInner) (fun _ _ ht => ht) ?_ ⟨rfl, hst, rfl⟩
    rintro packet - t ⟨hlog, ht, hmap⟩
    obtain ⟨hlog', ht', hmap'⟩ :=
      @handle_unacknowledging p g channel packet t ht (by rw [hmap]; exact hack)
    exact ⟨hlog'.trans hlog, ht', hmap'.trans hmap⟩
  exact kept.1

/-- A datagram of the acknowledging side releases only keys that this side has recorded. -/
theorem read_answered {a m : Endpoint} {now : Nat} {d : Bytes} {key : Option SlotMapKey}
    (framed : Framed P Q) (charted : Charted Q (sortedChannels P.provider) m) (hc : m.Compact)
    (short : ∀ entry ∈ sortedChannels P.provider, (utf8 entry.1).length ≤ channelNameMaxLen)
    (spoken : Spoken P a key d)
    (abstains : ∀ g payload, .called g payload ∈ a.log →
      P.provider.byName ackChannelName ≠ some g)
    (hm : ∀ event ∈ m.log, Answered a event) :
    ∀ event ∈ (handleMessage Q.provider now d m).2.log, Answered a event := by
  have hfew := sorted_few P
  refine (charted.read_keeps (J := fun t => ∀ event ∈ t.log, Answered a event) hc short spoken
    (fun t moves => ?_) (fun _ _ ht => ht) (fun _ _ ht => ht) ?_ ?_ ?_ ?_).2
  · exact moves_logged moves (fun _ _ _ h => answered_logs (fun _ => False.elim) h) hm
  · intro t payload hst ht
    rcases hstage : t.state with ⟨received, lastKey⟩ | _
    · have moves : ReflTransGen (Move registering) t (handleRegistration Q.provider payload t).2 :=
        handle_registration_moves hstage trivial trivial trivial
      exact moves_logged moves (fun _ _ _ h => answered_logs (fun _ => False.elim) h) ht
    · exact absurd hstage hst
  · intro t payload hst there ht
    have hack : t.notLocalInner.ackChannelId? ≠ some registrationChannel.localId := by
      intro he
      have hplace := there.ack_placed hfew (sorted_names P) he
      have hreg : registrationChannel.localId.toNat = 2 ^ 31 - 2 := rfl
      have hreg' : channelManagementChannelIdRegistrationStage.toNat = 2 ^ 31 - 2 := rfl
      unfold Few at hfew
      omega
    rw [(handle_unacknowledging hst hack).1]
    exact ht
  · intro t keys hst known ht
    exact handle_answer (fun _ => by decide) known ht
  · intro t inc order payload reaches hst ht
    obtain ⟨hsame, hcompletes, _⟩ := reaches.prepared (read_packet_compact hc)
    have hread : ReflTransGen (Move (preparing Q.provider d)) m (readPacket Q.provider d m).2 :=
      read_packet_moves trivial m
    have there := moves_charted id False.elim hread charted
    by_cases hack : t.notLocalInner.ackChannelId? = some inc.channel.localId
    · cases spoken with
      | framed base kind uttered id segment reliable =>
        have small : ({ base with resendKey := key } : Packet).channelId.toNat < 2 ^ 31 := id
        obtain ⟨name, own, kind', place, _, known, hchannel, hheader⟩ :=
          there.incoming (hsame.state ▸ hst) small (Prod.ext reaches.read rfl)
        rw [hsame.notLocalInner, hchannel] at hack
        obtain rfl := (there.builtins hfew (sorted_names P) place).1 (ack_channel_id hack)
        rcases uttered.placed place with ⟨keys, _, _, hbase, recorded⟩ | ⟨hname, _, _, n, x, called, _⟩
        · have hhead := hheader (uttered.fits framed place known id segment reliable)
          rw [completes_whole (by rw [hhead, hbase]; rfl), hhead, hbase] at hcompletes
          obtain ⟨rfl, rfl⟩ : order = none ∧ payload = keys.flatMap SlotMapKey.encode := by
            have h := Option.some.inj hcompletes
            exact ⟨(congrArg Prod.fst h).symm, (congrArg Prod.snd h).symm⟩
          exact handle_answer (fun hne => absurd hst hne) recorded ht
        · exact absurd hname (abstains own x (mem_calls (List.mem_of_getElem? called)))
    · rw [deliver_unacknowledging hst hack]
      exact ht

/-- A connection that waits for no last key has had it confirmed. -/
def Awaiting (m : Endpoint) : Prop :=
  ∀ received, m.state = .registration received none → ∃ key, .confirmed key ∈ m.log

theorem Work.awaiting {p : ChannelProvider} {m m' : Endpoint} (h : Work p m m') (hm : Awaiting m) :
    Awaiting m' := by
  have log := h.log_grows
  have same (hstate : m'.state = m.state) : Awaiting m' := by
    intro received hst
    obtain ⟨key, hkey⟩ := hm received (hstate ▸ hst)
    exact ⟨key, log.subset hkey⟩
  cases h with
  | move _ h =>
    cases h with
    | switch => exact fun _ hst => by cases hst
    | confirm received key => exact fun _ _ => ⟨key, by simp⟩
    | finish received lastKey stage =>
      intro _ hst
      cases hst
      exact hm received stage
    | _ => exact same rfl
  | _ => exact same rfl

theorem Reachable.awaiting {p : ChannelProvider} {m : Endpoint} (h : Reachable p m) :
    Awaiting m := by
  induction h with
  | initialized now m h =>
    obtain ⟨_, _, _, _, rfl⟩ := initialize_opened h
    exact fun _ hst => by cases hst
  | step input m m' before h ih =>
    have work : ReflTransGen (Work p) m (perform p input m).2 := perform_work before.passed.compact
    rw [← h.2]
    exact invariant_of_step (fun _ _ hw ht => hw.awaiting ht) work ih

/-- While its last key is not acknowledged, a connection stays in the registration stage. -/
structure Waiting (b m : Endpoint) : Prop where
  stage : ∃ received key, m.state = .registration received (some key)
  answered : ∀ event ∈ m.log, Answered b event

theorem Waiting.register {b m : Endpoint} {p : ChannelProvider} {packet : Bytes}
    (h : Waiting b m) : Waiting b (handleRegistration p packet m).2 := by
  obtain ⟨received, key, hst⟩ := h.stage
  have moves : ReflTransGen (Move registering) m (handleRegistration p packet m).2 :=
    handle_registration_moves hst trivial trivial trivial
  refine ⟨?_, moves_logged moves (fun _ _ _ h => answered_logs (fun _ => False.elim) h) h.answered⟩
  rcases handle_registration_cases p packet hst with ⟨r, _, hend⟩ | ⟨rest, _, hend⟩ |
    ⟨_, _, _, _, _, mapper, _, _, _, _, _, ⟨_, hend⟩ | ⟨channel, _, hend⟩⟩
  · rw [hend]
    exact ⟨received, key, hst⟩
  · rw [hend]
    rcases convert_to_transfer_cases { m.handed packet with
      state := .registration true (some key) } with ⟨hlast, _⟩ | ⟨_, hc⟩
    · cases hlast
    · rw [hc]
      exact ⟨true, key, rfl⟩
  · rw [hend]
    exact ⟨received, key, hst⟩
  · rw [hend]
    exact ⟨received, key, hst⟩

theorem Waiting.read {b m : Endpoint} {p : ChannelProvider} {now i : Nat} {payload : Bytes}
    (h : Waiting b m) (hc : m.Compact) :
    Waiting b (handleMessage p now (registrationDatagram i payload) m).2 := by
  obtain ⟨received, key, hst⟩ := h.stage
  have acknowledged : Waiting b
      (acknowledgeIfNeeded (registrationDatagram i payload) (some (firstKey i)) m).2 := by
    have hread := read_registration (p := p) hst i payload
    have moves : ReflTransGen (Move (acknowledging p (registrationDatagram i payload))) m
        (acknowledgeIfNeeded (registrationDatagram i payload) (some (firstKey i)) m).2 :=
      acknowledge_if_needed_moves hc (fun k hk => ⟨rfl, _, hread, hk⟩) (fun _ => ⟨rfl, rfl⟩)
    refine ⟨⟨received, key, ?_⟩,
      moves_logged moves (fun _ _ _ h => answered_logs (fun _ => False.elim) h) h.answered⟩
    rw [(same_receipts acknowledging_quiet moves).state, hst]
  rw [handle_registration_datagram hst]
  rcases hack : acknowledgeIfNeeded (registrationDatagram i payload) (some (firstKey i)) m with
    ⟨r, t⟩
  rw [hack] at acknowledged
  cases r with
  | err e =>
    rw [Act.bind_of_err hack]
    exact acknowledged
  | panic =>
    rw [Act.bind_of_panic hack]
    exact acknowledged
  | ok _ =>
    rw [Act.bind_of_ok hack]
    obtain ⟨_, time, hend⟩ := touch_ends (deliver p channelManagementChannelIdRegistrationStage
      registrationChannel (some (BitVec.ofNat 32 i)) payload) t now
    have delivered : Waiting b (deliver p channelManagementChannelIdRegistrationStage
        registrationChannel (some (BitVec.ofNat 32 i)) payload t).2 := by
      refine deliver_keeps (fun _ _ ht => ⟨ht.stage, ht.answered⟩) (fun packet _ u hu => ?_)
        acknowledged
      obtain ⟨received, key, hst⟩ := hu.stage
      rw [handle_packet_management hst rfl]
      exact hu.register
    rw [hend]
    exact ⟨delivered.stage, delivered.answered⟩

theorem establish_calls {p : ChannelProvider} {peer peer' : Peer} {now : Nat}
    (h : peer.establish p now = some peer') (g : U32) (payload : Bytes) :
    .called g payload ∉ peer'.endpoint.log := by
  intro hc
  have initialized : .called g payload ∈ (initializeConnection p (.fresh now)).2.log := by
    unfold Peer.establish at h
    split at h
    · rcases hinit : initializeConnection p (.fresh now) with ⟨_ | _ | _, m⟩
      all_goals
        rw [hinit] at h
        cases h
        exact hc
    · cases h
  rcases initialize_events initialized with ⟨_, _, he⟩ | ⟨_, he⟩ <;> cases he

/-- The calls of a side that abstains are on no built-in channel. -/
theorem connected_abstains {s : Peer × Peer} (h : Connected P Q P.abstains guard' s) :
    ∀ g payload, .called g payload ∈ s.1.endpoint.log →
      P.provider.byName ackChannelName ≠ some g ∧
        P.provider.byName channelManagementChannelName ≠ some g := by
  have sides := Party.side_invariant
    (I := fun a : Peer => Standing P a ∧ ∀ g payload, .called g payload ∈ a.endpoint.log →
      P.provider.byName ackChannelName ≠ some g ∧
        P.provider.byName channelManagementChannelName ≠ some g)
    (J := fun _ => True) ?_ (fun _ _ _ _ _ => trivial) h
    ⟨⟨.closed, fun _ _ hc => absurd hc List.not_mem_nil⟩, trivial⟩
  · exact sides.1.2
  rintro b a a' step ⟨ha, calls⟩
  refine ⟨ha.step step, ?_⟩
  have called {input : Input} (hcall : a.call P.provider input = some a')
      (allowed : ∀ channel payload, input = .send channel payload →
        P.provider.byName ackChannelName ≠ some channel ∧
          P.provider.byName channelManagementChannelName ≠ some channel) :
      ∀ g payload, .called g payload ∈ a'.endpoint.log →
        P.provider.byName ackChannelName ≠ some g ∧
          P.provider.byName channelManagementChannelName ≠ some g := by
    obtain ⟨live, hend, _⟩ := Peer.call_live hcall
    rw [hend]
    exact perform_calls (ha.reachable live).1.passed.compact allowed calls
  cases step with
  | act acts =>
    cases acts with
    | establish now made =>
      intro g payload hc
      exact absurd hc (establish_calls made g payload)
    | tick delta _ hcall => exact called hcall (fun _ _ he => by cases he)
    | send channel payload _ allowed hcall =>
      refine called hcall (fun _ _ he => ?_)
      cases he
      simp only [Registry.abstains, Bool.and_eq_true, decide_eq_true_eq] at allowed
      exact allowed
  | read datagram _ reads =>
    obtain ⟨now, _, hcall⟩ := reads
    exact called hcall (fun _ _ he => by cases he)

/-- Whatever a side has released or confirmed was recorded by the peer that acknowledges it. -/
theorem connected_answered (framed : Framed P Q)
    (short : ∀ entry ∈ sortedChannels P.provider, (utf8 entry.1).length ≤ channelNameMaxLen)
    {s : Peer × Peer} (h : Connected P Q P.abstains guard' s) :
    ∀ event ∈ s.2.endpoint.log, Answered s.1.endpoint event := by
  refine @receiver_link P Q P.abstains guard' (fun a m => ∀ event ∈ m.log, Answered a.endpoint event)
    (fun a b => Standing P a ∧ (∀ g payload, .called g payload ∈ a.endpoint.log →
      P.provider.byName ackChannelName ≠ some g) ∧
      Charted Q (sortedChannels P.provider) b.endpoint) (fun _ => True) s h
    (fun u run => ⟨(connected_standing run).1,
      fun g payload called => (connected_abstains run g payload called).1,
      connected_charted short run⟩) (fun _ _ => trivial) ?_ ?_ ?_ ?_ ?_ ?_ trivial
  · rintro a a' b m ⟨before, _⟩ _ step answered event he
    exact (answered event he).later (before.log_grows step)
  · exact fun _ _ _ event he => absurd he List.not_mem_nil
  · exact fun _ now _ _ _ _ => initialize_logged _ now fun event he => he.answered
  · exact fun _ _ _ _ hreach _ answered =>
      update_connection_logged hreach.passed.compact (fun event he => he.answered) answered
  · exact fun _ _ _ _ _ _ _ _ answered => send_event_logged (fun event he => he.answered) answered
  · rintro a m now d ⟨ha, abstains, charted⟩ hreach sent _ answered
    obtain ⟨_, spoken⟩ := ha.spoken sent
    exact read_answered framed charted hreach.passed.compact short spoken abstains answered

/-- A side that cannot be initialized does no more than send registration packets. -/
theorem Standing.uninitialized {peer : Peer} (h : Standing P peer)
    (fails : ∀ capacity, ¬ Initializes P.provider capacity) {event : Event}
    (he : event ∈ peer.endpoint.log) :
    ∃ i payload, event = .issued (firstKey i) (registrationDatagram i payload) ∨
      event = .sent (registrationDatagram i payload) := by
  cases h with
  | closed => cases he
  | live m reachable =>
    obtain ⟨capacity, initializes⟩ := reachable.initializes
    exact absurd initializes (fails capacity)
  | lost m m' reachable =>
    obtain ⟨capacity, initializes⟩ := reachable.initializes
    exact absurd initializes (fails capacity)
  | refused now refuses =>
    rcases initialize_opens P.provider now with ⟨_, _, _, _, heq⟩ | ⟨_, _, k, _, _, _, hlog⟩
    · rw [heq] at refuses
      exact absurd rfl refuses
    · rw [hlog] at he
      obtain ⟨i, payload, _, _, he⟩ := opening_events he
      exact ⟨i, payload, he⟩

/-- A side without a peer that can be initialized releases and confirms nothing. -/
theorem connected_waiting (fails : ∀ capacity, ¬ Initializes P.provider capacity)
    {s : Peer × Peer} (h : Connected P Q guard guard' s) :
    ∀ event ∈ s.2.endpoint.log, Answered (.fresh 0) event := by
  have link := @receiver_link P Q guard guard'
    (fun _ m => m.state ≠ .transfer ∧ ∀ event ∈ m.log, Answered (.fresh 0) event)
    (fun a _ => Standing P a) (fun _ => True) s h (fun u run => (connected_standing run).1)
    (fun _ _ => trivial) (fun _ _ _ _ _ _ _ hm => hm) ?_ ?_ ?_ ?_ ?_ trivial
  · exact link.2
  · intro a _ _
    exact ⟨fun he => (by cases he), fun event he => absurd he List.not_mem_nil⟩
  · intro a now stage _ _ _
    exact ⟨initialize_registers _ now, initialize_logged _ now fun event he => he.answered⟩
  · rintro a m delta _ hreach _ ⟨hst, answered⟩
    have hc := hreach.passed.compact
    have moves : ReflTransGen (Move flushing) m (updateConnection delta m).2 :=
      update_connection_moves hc (fun _ => ⟨rfl, rfl⟩)
    refine ⟨?_, update_connection_logged hc (fun event he => he.answered) answered⟩
    rw [(same_receipts flushing_quiet moves).state]
    exact hst
  · rintro a m channel payload _ _ _ _ ⟨hst, answered⟩
    refine ⟨?_, send_event_logged (fun event he => he.answered) answered⟩
    rw [(send_event_quiet Q.provider channel payload m).1.state]
    exact hst
  · rintro a m now d ha hreach sent _ ⟨hst, answered⟩
    obtain ⟨i, payload, he | he⟩ := ha.uninitialized fails (mem_datagrams sent)
    · cases he
    cases he
    rcases hstage : m.state with ⟨received, _ | key⟩ | _
    · obtain ⟨key, hkey⟩ := hreach.awaiting received hstage
      obtain ⟨d, hd⟩ := answered _ hkey
      exact absurd hd List.not_mem_nil
    · have waiting : Waiting (.fresh 0) m := ⟨⟨received, key, hstage⟩, answered⟩
      have after : Waiting (.fresh 0) (handleMessage Q.provider now (registrationDatagram i payload) m).2 :=
        waiting.read hreach.passed.compact
      obtain ⟨received, key, hafter⟩ := after.stage
      exact ⟨by simp [hafter], after.answered⟩
    · exact absurd hstage hst

/-- Whatever a side has released or confirmed was recorded by its peer. -/
theorem connected_vouched (framed' : Framed Q P) {s : Peer × Peer}
    (h : Connected P Q P.abstains Q.abstains s) :
    ∀ event ∈ s.1.endpoint.log, Answered s.2.endpoint event := by
  have swapped : Connected Q P Q.abstains P.abstains s.swap := Party.exchange_swap h
  by_cases able : ∃ capacity, Initializes Q.provider capacity
  · obtain ⟨_, initializes⟩ := able
    exact connected_answered framed' initializes.announceable.names swapped
  · have waiting := connected_waiting (fun capacity hi => able ⟨capacity, hi⟩) swapped
    exact fun event he => (waiting event he).later List.nil_prefix

/-- A side that has released or confirmed anything was initialized. -/
theorem Standing.answered_able {peer : Peer} (h : Standing P peer) {key : SlotMapKey}
    (done : .confirmed key ∈ peer.endpoint.log ∨ ∃ d, .released key d ∈ peer.endpoint.log) :
    ∃ capacity, Initializes P.provider capacity := by
  by_contra fails
  have few {event : Event} (he : event ∈ peer.endpoint.log) :=
    h.uninitialized (fun capacity hi => fails ⟨capacity, hi⟩) he
  rcases done with he | ⟨d, he⟩
  · obtain ⟨_, _, he | he⟩ := few he <;> cases he
  · obtain ⟨_, _, he | he⟩ := few he <;> cases he

/-- What was released was issued, and the peer has recorded its key for this datagram only. -/
theorem connected_released (framed : Framed P Q) (framed' : Framed Q P) {s : Peer × Peer}
    (h : Connected P Q P.abstains Q.abstains s) (fits : s.1.endpoint.resender.packets.Fits)
    {key : SlotMapKey} {d : Bytes} (hd : .released key d ∈ s.1.endpoint.log) :
    .issued key d ∈ s.1.endpoint.log ∧ .recorded key d ∈ s.2.endpoint.log ∧
      ∀ d', .recorded key d' ∈ s.2.endpoint.log → d' = d := by
  have standing := (connected_standing h).1
  have chronicled := standing.chronicled fits
  obtain ⟨_, initializes⟩ := standing.answered_able (Or.inr ⟨d, hd⟩)
  have recognized := connected_recognized framed initializes.announceable.names h fits
  have issued : .issued key d ∈ s.1.endpoint.log := chronicled.backed _ hd
  have only : ∀ d', .recorded key d' ∈ s.2.endpoint.log → d' = d := by
    intro d' hrecorded
    have issued' : .issued key d' ∈ s.1.endpoint.log := recognized _ hrecorded
    exact chronicled.unique key d' d issued' issued
  obtain ⟨d', hrecorded⟩ := connected_vouched framed' h _ hd
  exact ⟨issued, only d' hrecorded ▸ hrecorded, only⟩

end

/-- A packet leaves the resender, and the last registration packet counts as received, only when
the peer has recorded its key on receipt of that very packet. -/
theorem acknowledgements_sound {P Q : Registry} (framed : Framed P Q) (framed' : Framed Q P)
    {s : Peer × Peer} (h : Connected P Q P.abstains Q.abstains s)
    (fits : s.1.endpoint.resender.packets.Fits) :
    (∀ key d, .released key d ∈ s.1.endpoint.log →
      .issued key d ∈ s.1.endpoint.log ∧ .recorded key d ∈ s.2.endpoint.log) ∧
    (∀ key, .confirmed key ∈ s.1.endpoint.log →
      ∃ d, .issued key d ∈ s.1.endpoint.log ∧ .recorded key d ∈ s.2.endpoint.log) ∧
    ∀ key d d', .issued key d ∈ s.1.endpoint.log → .issued key d' ∈ s.1.endpoint.log → d = d' := by
  have standing := (connected_standing h).1
  refine ⟨fun key d hd => ?_, fun key hkey => ?_, (standing.chronicled fits).unique⟩
  · obtain ⟨issued, recorded, _⟩ := connected_released framed framed' h fits hd
    exact ⟨issued, recorded⟩
  · obtain ⟨_, initializes⟩ := standing.answered_able (Or.inl hkey)
    have recognized := connected_recognized framed initializes.announceable.names h fits
    obtain ⟨d, hrecorded⟩ := connected_vouched framed' h _ hkey
    exact ⟨d, recognized _ hrecorded, hrecorded⟩

/-- The handshake, up to the change of the left side to the transfer stage. -/
def acquainting : List (Side × Deed) :=
  [(.left, .establish 0), (.right, .establish 0)] ++
    (List.range 4).map (fun i => (.left, .read 1 i)) ++
    (List.range 4).map (fun i => (.right, .read 1 i)) ++ [(.right, .tick 1), (.left, .read 2 4)]

def abstaining (P Q : Registry) (schedule : List (Side × Deed)) : Peer × Peer :=
  (exchangeAll P Q P.abstains Q.abstains schedule ({}, {})).getD ({}, {})

theorem abstaining_connected {P Q : Registry} {schedule : List (Side × Deed)}
    (ran : exchangeAll P Q P.abstains Q.abstains schedule ({}, {}) ≠ none) :
    Connected P Q P.abstains Q.abstains (abstaining P Q schedule) :=
  exchange_all (Option.getD_of_ne_none ran ({}, {})).symm

theorem chat_framed : Framed chatRegistry chatRegistry := by
  refine ⟨fun name kind kind' h h' => ?_, fun kind' h => ?_⟩
  · cases h.symm.trans h'
    rfl
  · have builtin : chatRegistry.kind ackChannelName = some ackChannel := by decide +kernel
    cases builtin.symm.trans h
    rfl

theorem acknowledgements_sound_acquainted :
    (∃ key, .confirmed key ∈ (abstaining chatRegistry chatRegistry acquainting).1.endpoint.log) ∧
    (∀ key d,
      .released key d ∈ (abstaining chatRegistry chatRegistry acquainting).1.endpoint.log →
      .issued key d ∈ (abstaining chatRegistry chatRegistry acquainting).1.endpoint.log ∧
      .recorded key d ∈ (abstaining chatRegistry chatRegistry acquainting).2.endpoint.log) ∧
    (∀ key, .confirmed key ∈ (abstaining chatRegistry chatRegistry acquainting).1.endpoint.log →
      ∃ d, .issued key d ∈ (abstaining chatRegistry chatRegistry acquainting).1.endpoint.log ∧
        .recorded key d ∈ (abstaining chatRegistry chatRegistry acquainting).2.endpoint.log) ∧
    ∀ key d d', .issued key d ∈ (abstaining chatRegistry chatRegistry acquainting).1.endpoint.log →
      .issued key d' ∈ (abstaining chatRegistry chatRegistry acquainting).1.endpoint.log → d = d' :=
  ⟨⟨firstKey 3, by decide +kernel⟩, acknowledgements_sound chat_framed chat_framed
    (abstaining_connected (by decide +kernel)) (by unfold SlotMap.Fits; decide +kernel)⟩

/-- The chat channel without an order. -/
def looseRegistry : Registry where
  toDefaultChannelProvider := DefaultChannelProvider.new.add "chat"
    { chat.channel with orderability := none } DefaultChannelProvider.new_fits
  all := _
  order := .refl _
  few := by decide

/-- The left side's first acknowledgement of the transfer stage is lost; its chat message, with
order 0 and key (1, 1), is read with the key (0, 1). -/
def misleading : List (Side × Deed) := acquainting ++
  [(.left, .tick 1), (.left, .send 2 [7]), (.right, .read 3 5), (.right, .tick 1),
    (.left, .read 4 5)]

/-- Sides that do not agree on the order of a channel release packets that were never received. -/
theorem misread_key_releases :
    Connected chatRegistry looseRegistry chatRegistry.abstains looseRegistry.abstains
        (abstaining chatRegistry looseRegistry misleading) ∧
      .released ⟨0, 1⟩ [0, 0, 1] ∈
        (abstaining chatRegistry looseRegistry misleading).1.endpoint.log ∧
      .recorded ⟨0, 1⟩ [0, 0, 1] ∉
        (abstaining chatRegistry looseRegistry misleading).2.endpoint.log :=
  ⟨abstaining_connected (by decide +kernel), by decide +kernel, by decide +kernel⟩

end Theta
