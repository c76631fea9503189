import Theta.Proofs.Sizes
import Theta.Proofs.Soundness

namespace Theta
open Lib Relation

/-- A whole message of an unordered channel. -/
def messagePacket (l : U32) (key : Option SlotMapKey) (payload : Bytes) : Packet :=
  ⟨l, none, none, key, payload⟩

/-- Every message that was issued on a channel, with its key, is one of its calls, and no call was
issued twice. -/
def Entrusted (g l : U32) (m : Endpoint) : Prop :=
  ∃ issues : List (SlotMapKey × Bytes), (issues.map Prod.snd).Sublist (m.calls g) ∧
    ∀ key payload, .issued key (messagePacket l (some key) payload).bytes ∈ m.log →
      (key, payload) ∈ issues

/-- A datagram with a packet of this channel. -/
def OnChannel (l : U32) (d : Bytes) : Prop :=
  ∃ packet : Packet, packet.channelId = l ∧ packet.bytes = d

theorem message_on_channel (l : U32) (key : Option SlotMapKey) (payload : Bytes) :
    OnChannel l (messagePacket l key payload).bytes := ⟨_, rfl, rfl⟩

section
variable {r : Registry} {s : Scope} {g l : U32} {m m' : Endpoint} {key : SlotMapKey}
  {d payload : Bytes}

theorem Packet.bytes_channel {p q : Packet} (hp : p.channelId.toNat < 2 ^ 31)
    (hq : q.channelId.toNat < 2 ^ 31) (h : p.bytes = q.bytes) : p.channelId = q.channelId := by
  have hdecode := Packet.decode_primary hp
  rw [h, Packet.decode_primary hq] at hdecode
  have primary := congrArg Prod.fst (Outcome.ok.inj hdecode)
  exact (congrArg PrimaryPacketMetadata.channelId primary).symm

theorem message_packet_inj {key : Option SlotMapKey} {payload payload' : Bytes}
    (h : (messagePacket l key payload).bytes = (messagePacket l key payload').bytes) :
    payload = payload' := by
  simp only [messagePacket, Packet.bytes, Packet.primary, Packet.segmentBytes,
    Packet.keyBytes] at h
  simpa using h

theorem OnChannel.unique {packet : Packet} (h : OnChannel l packet.bytes) (hl : l.toNat < 2 ^ 31)
    (id : packet.channelId.toNat < 2 ^ 31) : packet.channelId = l := by
  obtain ⟨other, rfl, same⟩ := h
  exact Packet.bytes_channel id hl same.symm

/-- Nothing is issued on a channel by packets of other ones. -/
theorem Move.issues (h : Move s m m') (tidy : Tidy m) (fits : m'.resender.packets.Fits)
    (hl : l.toNat < 2 ^ 31) (elsewhere : ∀ base kind, s.sends m base kind → base.channelId ≠ l)
    (on : OnChannel l d) (hd : .issued key d ∈ m'.log) : .issued key d ∈ m.log := by
  have healthy := tidy (Nat.le_trans h.generations_le fits)
  cases h with
  | issue base kind reliable k resender packet hsends id segment hkind add stored =>
    obtain ⟨_, _, hadd⟩ := PacketResender.add_ok add
    have hkey := SlotMap.get_add (k := k) healthy fits hadd
    rw [if_pos rfl, stored] at hkey
    have hpacket : packet.payload = ({ base with resendKey := some k } : Packet).bytes :=
      congrArg ReliableBufferedPacket.payload (Option.some.inj hkey)
    rcases List.mem_append.mp hd with hd | hd
    · exact hd
    · rcases List.mem_pair.mp hd with he | he
      · exfalso
        rw [(Event.issued.inj he).2, hpacket] at on
        exact elsewhere base kind hsends (on.unique hl id)
      · cases he
  | switch => exact hd
  | _ => simpa using hd

theorem moves_issues (h : ReflTransGen (Move s) m m') (tidy : Tidy m)
    (fits : m'.resender.packets.Fits) (hl : l.toNat < 2 ^ 31)
    (elsewhere : ∀ t base kind, t.localInner = m.localInner → s.sends t base kind →
      base.channelId ≠ l)
    (on : OnChannel l d) (hd : .issued key d ∈ m'.log) : .issued key d ∈ m.log := by
  have tidied : Tidy m' ∧ (m'.resender.packets.Fits → .issued key d ∈ m'.log →
      .issued key d ∈ m.log) := by
    clear fits hd
    induction h with
    | refl => exact ⟨tidy, fun _ => id⟩
    | tail before h ih =>
      refine ⟨h.tidy ih.1, fun fits hd => ?_⟩
      have earlier := Nat.le_trans h.generations_le fits
      exact ih.2 earlier (h.issues ih.1 fits hl
        (fun base kind => elsewhere _ base kind (moves_fixed before).1) on hd)
  exact tidied.2 fits hd

/-- Calls stay. -/
theorem calls_subset (log : m.log <+: m'.log) (g : U32) : m.calls g ⊆ m'.calls g := by
  have calls := calls_prefix log g
  exact calls.subset

theorem Entrusted.quiet (h : Entrusted g l m) (log : m.log <+: m'.log)
    (issued : ∀ key payload, .issued key (messagePacket l (some key) payload).bytes ∈ m'.log →
      .issued key (messagePacket l (some key) payload).bytes ∈ m.log) : Entrusted g l m' := by
  obtain ⟨issues, hcalls, hissues⟩ := h
  have calls := calls_prefix log g
  exact ⟨issues, hcalls.trans calls.sublist, fun key payload hd =>
    hissues key payload (issued key payload hd)⟩

theorem calls_logged {events : List Event} (log : m'.log = m.log ++ events) (g : U32) :
    m'.calls g = m.calls g ++ events.filterMap (Event.call? g) := by
  rw [Endpoint.calls, Endpoint.calls, log, List.filterMap_append]

/-- A whole message of an unordered channel is issued once or not at all. -/
theorem Entrusted.issue {kind : ConnectionChannel} (h : Entrusted g l m)
    (log : m'.log = m.log ++ [.called g payload]) (tidy : Tidy m') (id : kind.localId = l)
    (short : payload.length ≤ maxNonSegmentedPayloadLen)
    (fits : (transmit kind none payload m').2.resender.packets.Fits) :
    Entrusted g l (transmit kind none payload m').2 := by
  obtain ⟨issues, hcalls, hissues⟩ := h
  subst id
  have call : [Event.called g payload].filterMap (Event.call? g) = [payload] := by
    simp [Event.call?]
  have known {key : SlotMapKey} {payload' : Bytes}
      (hd : .issued key (messagePacket kind.localId (some key) payload').bytes ∈ m'.log) :
      (key, payload') ∈ issues := by
    apply hissues
    simpa [log] using hd
  have unissued : Entrusted g kind.localId m' := by
    refine ⟨issues, ?_, fun key payload' => known⟩
    rw [calls_logged log g]
    exact hcalls.trans (List.sublist_append_left _ _)
  rw [transmit_short short, Act.bind_pure_state] at fits ⊢
  rcases send_real_packet_cases kind none none payload m' with
    ⟨_, hs⟩ | ⟨_, _, ⟨reliable, key, resender, packet, _, add, stored, hs⟩ | ⟨_, hs⟩⟩
  · rw [hs]
    exact unissued
  · rw [hs] at fits ⊢
    obtain ⟨_, _, hadd⟩ := PacketResender.add_ok add
    have healthy := tidy (Nat.le_trans (SlotMap.add_generations_le hadd) fits)
    have hkey := SlotMap.get_add (k := key) healthy fits hadd
    rw [if_pos rfl, stored] at hkey
    have hpacket : packet.payload = (messagePacket kind.localId (some key) payload).bytes :=
      congrArg ReliableBufferedPacket.payload (Option.some.inj hkey)
    refine ⟨issues ++ [(key, payload)], ?_, fun k payload' hd => ?_⟩
    · rw [calls_logged rfl g, calls_logged log g, call, List.map_append]
      exact (hcalls.append (List.Sublist.refl _)).trans (List.sublist_append_left _ _)
    · rw [List.mem_append]
      rcases List.mem_append.mp hd with hd | hd
      · exact Or.inl (known hd)
      · right
        rcases List.mem_pair.mp hd with he | he
        · obtain ⟨rfl, hbytes⟩ := Event.issued.inj he
          have same := message_packet_inj (hbytes.trans hpacket)
          simp [same]
        · cases he
  · rw [hs]
    exact unissued.quiet (List.prefix_append _ _) (fun key payload' hd => by
      simpa using hd)

end

section
variable {r : Registry} {name : String} {g l : U32} {m m' : Endpoint}

/-- Below the registration stage's ids there is no place for them. -/
theorem place_small {channels : List (String × U32)} (few : Few channels)
    (place : channels[l.toNat]? = some (name, g)) :
    l.toNat < channelManagementChannelIdRegistrationStage.toNat :=
  Nat.lt_of_lt_of_le (List.getElem?_eq_some_iff.mp place).1 few

/-- Acknowledgements go out on no channel of the applications. -/
theorem ack_packet_elsewhere (entered : Entered (sortedChannels r.provider) m.localInner)
    (place : (sortedChannels r.provider)[l.toNat]? = some (name, g))
    (application : name ≠ ackChannelName) : m.ackPacket.channelId ≠ l := by
  have small := place_small (sorted_few r) place
  have hreg : channelManagementChannelIdRegistrationStage.toNat = 2 ^ 31 - 2 := rfl
  have hack : ackChannelIdRegistrationStage.toNat = 2 ^ 31 - 1 := rfl
  have hnull : nullChannelId.toNat = 2 ^ 31 := rfl
  intro he
  rcases hst : m.state with ⟨received, lastKey⟩ | _
  · simp only [Endpoint.ackPacket, hst] at he
    rw [← he] at small
    omega
  · simp only [Endpoint.ackPacket, hst] at he
    rw [(entered_builtins entered (sorted_few r) (sorted_names r)).1] at he
    have hl : l ≠ nullChannelId := by
      intro hl
      rw [hl] at small
      omega
    have few : ((sortedChannels r.provider).map Prod.fst).length ≤
        channelManagementChannelIdRegistrationStage.toNat := by
      rw [List.length_map]
      exact sorted_few r
    have hname := number_get few he hl
    rw [List.getElem?_map, place] at hname
    exact application (Option.some.inj hname)

/-- Replies are no messages. -/
theorem Entrusted.replying (h : Entrusted g l m) (moves : ReflTransGen (Move replying) m m')
    (entered : Entered (sortedChannels r.provider) m.localInner) (tidy : Tidy m)
    (place : (sortedChannels r.provider)[l.toNat]? = some (name, g))
    (application : name ≠ ackChannelName) (fits : m'.resender.packets.Fits) : Entrusted g l m' := by
  have hl : l.toNat < 2 ^ 31 := Nat.lt_trans (place_small (sorted_few r) place) (by decide)
  refine h.quiet (log_grows moves) (fun key payload hd => ?_)
  refine moves_issues moves tidy fits hl (fun t base kind inner sends => ?_)
    (message_on_channel l (some key) payload) hd
  obtain ⟨rfl, _⟩ := sends
  exact ack_packet_elsewhere (inner ▸ entered) place application

/-- A request adds its call, and issues it at most once. -/
theorem Entrusted.request {channel : U32} {payload : Bytes} {kind : Channel}
    (h : Entrusted g l m) (entered : Entered (sortedChannels r.provider) m.localInner)
    (tidy : Tidy m) (place : (sortedChannels r.provider)[l.toNat]? = some (name, g))
    (registered : r.provider.byId g = some kind) (unordered : kind.isOrdered = false)
    (offered : (r.provider.byId channel).isSome)
    (short : ∀ x ∈ (sendEvent r.provider channel payload m).2.calls g,
      x.length ≤ maxNonSegmentedPayloadLen)
    (fits : (sendEvent r.provider channel payload m).2.resender.packets.Fits) :
    Entrusted g l (sendEvent r.provider channel payload m).2 := by
  have hl : l.toNat < 2 ^ 31 := Nat.lt_trans (place_small (sorted_few r) place) (by decide)
  have numbered : m.localInner.localId .transfer g = some l := by
    rw [entered_local_id entered (sorted_few r) (sorted_ids r), place]
    rfl
  rcases send_event_cases r.provider channel payload m with ⟨_, he⟩ | ⟨target, addressed, he⟩
  · rw [he]
    exact h
  have hend : (sendEvent r.provider channel payload m).2 = (sendPacket target payload
      { m with log := m.log ++ [.called channel payload] }).2 := by
    rw [he, Act.bind_pure_state]
  rw [hend] at short fits ⊢
  rcases addressed_cases addressed with ⟨_, hlocal, hkind⟩ | ⟨_, _, _, hreg⟩
  · by_cases hchannel : channel = g
    · subst hchannel
      have id : target.localId = l := Option.some.inj (hlocal.symm.trans numbered)
      have hkind : target.channel = kind := Option.some.inj (hkind.symm.trans registered)
      have none : sendPacket target payload { m with log := m.log ++ [.called channel payload] } =
          transmit target Option.none payload
            { m with log := m.log ++ [.called channel payload] } := by
        have free : nextOrder target = pure Option.none := by
          rw [nextOrder, hkind, unordered]
          rfl
        rw [sendPacket, free]
        rfl
      rw [none] at short fits ⊢
      have moves := transmit_sending target Option.none payload
        { m with log := m.log ++ [.called channel payload] }
      have called : payload ∈
          ({ m with log := m.log ++ [.called channel payload] } : Endpoint).calls channel := by
        simp [Endpoint.calls, Event.call?]
      exact h.issue rfl tidy id
        (short payload (calls_subset (log_grows moves) channel called)) fits
    · have elsewhere : target.localId ≠ l := by
        intro id
        have hplace := local_place entered hlocal
        rw [id, place] at hplace
        exact hchannel (Option.some.inj hplace).symm
      have noted : Entrusted g l { m with log := m.log ++ [.called channel payload] } :=
        h.quiet (List.prefix_append _ _) (fun key payload' hd => by simpa using hd)
      have kept : Tidy (sendPacket target payload
            { m with log := m.log ++ [.called channel payload] }).2 ∧
          ((sendPacket target payload
            { m with log := m.log ++ [.called channel payload] }).2.resender.packets.Fits →
          Entrusted g l (sendPacket target payload
            { m with log := m.log ++ [.called channel payload] }).2) := by
        refine send_packet_ends (P := fun t => Tidy t ∧ (t.resender.packets.Fits →
          Entrusted g l t)) (fun orders => ⟨tidy, fun _ => noted⟩) (fun order t ht => ?_)
        have moves := transmit_sending target order payload t
        refine ⟨invariant_of_step (fun _ _ h ht => h.tidy ht) moves ht.1, fun fits => ?_⟩
        have earlier := Nat.le_trans (Theta.generations_le moves) fits
        refine (ht.2 earlier).quiet (log_grows moves) (fun key payload' hd => ?_)
        refine moves_issues moves ht.1 fits hl (fun _ base _ _ sends => ?_)
          (message_on_channel l (some key) payload') hd
        rw [sends.2.1]
        exact elsewhere
      exact kept.2 fits
  · rw [provided_unregistered offered] at hreg
    cases hreg

/-- Registration packets are on no channel of the applications. -/
theorem initialize_elsewhere {key : SlotMapKey} {d : Bytes} (now : Nat)
    (place : (sortedChannels r.provider)[l.toNat]? = some (name, g)) (on : OnChannel l d) :
    .issued key d ∉ (initializeConnection r.provider (.fresh now)).2.log := by
  intro hd
  have small := place_small (sorted_few r) place
  have stage : channelManagementChannelIdRegistrationStage.toNat < 2 ^ 31 := by decide
  have elsewhere (i : Nat) (payload : Bytes) : d ≠ registrationDatagram i payload := by
    obtain ⟨packet, rfl, rfl⟩ := on
    intro he
    have same : packet.channelId = channelManagementChannelIdRegistrationStage :=
      Packet.bytes_channel (q := { registrationPacket i payload with resendKey := some (firstKey i) })
        (Nat.lt_trans small stage) stage he
    rw [same] at small
    omega
  rcases initialize_opens r.provider now with ⟨_, _, _, _, heq⟩ | ⟨_, _, k, _, _, _, hlog⟩
  · rw [heq] at hd
    obtain ⟨i, payload, _, he | he⟩ := opened_events hd
    · exact elsewhere i payload (Event.issued.inj he).2
    · cases he
  · rw [hlog] at hd
    obtain ⟨i, payload, _, _, he | he⟩ := opening_events hd
    · exact elsewhere i payload (Event.issued.inj he).2
    · cases he

theorem initialize_entrusted (now : Nat)
    (place : (sortedChannels r.provider)[l.toNat]? = some (name, g)) :
    Entrusted g l (initializeConnection r.provider (.fresh now)).2 := by
  refine ⟨[], List.nil_sublist _, fun key payload hd => ?_⟩
  exact absurd hd (initialize_elsewhere now place (message_on_channel l (some key) payload))

end

section
variable {P Q : Registry} {name : String} {g g' l : U32} {kind kind' : Channel}
  {guard guard' : Endpoint → Input → Bool}

/-- What every initialization gives and every call keeps, whatever is read, holds of each side. -/
theorem connected_side {I : Endpoint → Prop} {s : Peer × Peer} (h : Connected P Q guard guard' s)
    (blank : I (.fresh 0)) (made : ∀ now, I (initializeConnection P.provider (.fresh now)).2)
    (called : ∀ m input, Reachable P.provider m → input.offers P → I m →
      I (perform P.provider input m).2) : I s.1.endpoint := by
  have kept : (Standing P s.1 ∧ I s.1.endpoint) ∧ True := by
    refine @Party.side_invariant _ _ _ _ (fun a => Standing P a ∧ I a.endpoint) (fun _ => True)
      (fun b a a' step ⟨ha, hI⟩ => ⟨ha.step step, ?_⟩) (fun _ _ _ _ _ => trivial) _ _ h
      ⟨⟨.closed, blank⟩, trivial⟩
    have performed {input : Input} (hcall : a.call P.provider input = some a')
        (offers : input.offers P) : I a'.endpoint := by
      obtain ⟨live, hend, _⟩ := Peer.call_live hcall
      rw [hend]
      exact called a.endpoint input (ha.reachable live).1 offers hI
    cases step with
    | act acts =>
      cases acts with
      | establish now hmade =>
        rw [Peer.establish_ends hmade]
        exact made now
      | tick delta _ hcall => exact performed hcall trivial
      | send channel payload offered _ hcall => exact performed hcall offered
    | read datagram _ reads =>
      obtain ⟨now, _, hcall⟩ := reads
      exact performed hcall trivial
  exact kept.1.2

/-- Reading and ticking send replies only. -/
theorem replying_moves {p : ChannelProvider} {m : Endpoint} {input : Input} (hc : m.Compact)
    (quiet : ∀ channel payload, input ≠ .send channel payload) :
    ReflTransGen (Move replying) m (perform p input m).2 := by
  cases input with
  | read now d =>
    refine handle_message_moves (read_packet_compact hc) trivial trivial (fun _ => ⟨rfl, rfl⟩)
      (fun _ _ _ => trivial) (fun _ _ _ t _ => ?_)
    exact deliver_moves trivial trivial (fun _ _ _ _ => trivial) trivial trivial t
  | tick delta => exact update_connection_moves hc (fun _ => ⟨rfl, rfl⟩)
  | send channel payload => exact absurd rfl (quiet channel payload)

/-- A side issues no call twice. -/
theorem connected_entrusted (twin : Twin P Q name g g' kind kind')
    (unordered : kind.isOrdered = false)
    (place : (sortedChannels P.provider)[l.toNat]? = some (name, g)) {s : Peer × Peer}
    (h : Connected P Q guard guard' s)
    (whole : ∀ payload ∈ s.1.endpoint.calls g, payload.length ≤ maxNonSegmentedPayloadLen)
    (fits : s.1.endpoint.resender.packets.Fits) : Entrusted g l s.1.endpoint := by
  refine connected_side (I := fun m =>
    (∀ payload ∈ m.calls g, payload.length ≤ maxNonSegmentedPayloadLen) →
      m.resender.packets.Fits → Entrusted g l m) h
    (fun _ _ => ⟨[], List.nil_sublist _, fun _ _ hd => absurd hd List.not_mem_nil⟩)
    (fun now _ _ => initialize_entrusted now place)
    (fun m input hreach offers entrusted whole fits => ?_) whole fits
  have work : ReflTransGen (Work P.provider) m (perform P.provider input m).2 :=
    perform_work hreach.passed.compact
  have before : Entrusted g l m :=
    entrusted (fun payload hp => whole payload (calls_subset (work_log_grows work) g hp))
      (Nat.le_trans (work_generations_le work) fits)
  have entered := hreach.counted.entered
  cases input with
  | send channel payload =>
    exact before.request entered hreach.passed.tidy place twin.ownKind unordered offers whole fits
  | _ =>
    exact before.replying (replying_moves hreach.passed.compact (by simp)) entered
      hreach.passed.tidy place twin.application.1 fits

/-- What a connection has received of an unordered channel of its peer: calls of the peer, and on a
reliable channel each under another key, which stays recorded. -/
structure Taking (a : Endpoint) (kind : Channel) (g g' l : U32) (m : Endpoint) : Prop where
  heard : ∀ payload ∈ m.received g', payload ∈ a.calls g
  once : kind.isReliable = true → ∃ taken : List (SlotMapKey × Bytes),
    (taken.map Prod.fst).Nodup ∧ m.received g' = taken.map Prod.snd ∧
      ∀ entry ∈ taken, .issued entry.1 (messagePacket l (some entry.1) entry.2).bytes ∈ a.log ∧
        entry.1 ∈ m.resendKeyDuplicateChecker.set
  idle : m.state ≠ .transfer → m.received g' = []

section
variable {a a' m m' : Endpoint} {s : Scope}

theorem Taking.empty (none : m.received g' = []) : Taking a kind g g' l m := by
  refine ⟨fun payload hp => ?_, fun _ => ⟨[], List.nodup_nil, none, ?_⟩, fun _ => none⟩
  · rw [none] at hp
    cases hp
  · exact fun _ he => absurd he List.not_mem_nil

theorem Taking.later (h : Taking a kind g g' l m) (log : a.log <+: a'.log) :
    Taking a' kind g g' l m := by
  refine ⟨fun payload hp => calls_subset log g (h.heard payload hp), fun reliable => ?_,
    h.idle⟩
  obtain ⟨taken, distinct, received, known⟩ := h.once reliable
  exact ⟨taken, distinct, received, fun entry he =>
    ⟨log.subset (known entry he).1, (known entry he).2⟩⟩

/-- Whatever leaves the buffer alone, and forgets no key of the transfer stage. -/
theorem Taking.same (h : Taking a kind g g' l m) (received : m'.received g' = m.received g')
    (keeps : m.state = .transfer → m'.state = .transfer ∧
      m.resendKeyDuplicateChecker.set ⊆ m'.resendKeyDuplicateChecker.set) :
    Taking a kind g g' l m' := by
  by_cases hst : m.state = .transfer
  · obtain ⟨hst', hset⟩ := keeps hst
    refine ⟨fun payload hp => h.heard payload (received ▸ hp), fun reliable => ?_,
      fun hne => absurd hst' hne⟩
    obtain ⟨taken, distinct, hreceived, known⟩ := h.once reliable
    exact ⟨taken, distinct, received.trans hreceived, fun entry he =>
      ⟨(known entry he).1, hset (known entry he).2⟩⟩
  · exact .empty (received.trans (h.idle hst))

theorem received_of_buffers (same : m'.buffers = m.buffers) : m'.received g' = m.received g' := by
  unfold Endpoint.received
  rw [same]

theorem Move.remembers (h : Move s m m') (hst : m.state = .transfer) :
    m.resendKeyDuplicateChecker.set ⊆ m'.resendKeyDuplicateChecker.set := by
  cases h with
  | switch lastKey complete =>
    rw [hst] at complete
    cases complete
  | record key d => exact List.subset_cons_self _ _
  | _ => exact List.Subset.refl _

theorem moves_remember (h : ReflTransGen (Move s) m m') (hst : m.state = .transfer) :
    m'.state = .transfer ∧
      m.resendKeyDuplicateChecker.set ⊆ m'.resendKeyDuplicateChecker.set := by
  induction h with
  | refl => exact ⟨hst, List.Subset.refl _⟩
  | tail _ h ih => exact ⟨h.transfer_stays ih.1, List.Subset.trans ih.2 (h.remembers ih.1)⟩

theorem moves_taking (hd : ¬ s.handles) (moves : ReflTransGen (Move s) m m')
    (h : Taking a kind g g' l m) : Taking a kind g g' l m' :=
  h.same (received_of_buffers (same_buffers hd moves)) (moves_remember moves)

/-- A packet of another channel is none of this one. -/
theorem Taking.deliver_other {p : ChannelProvider} {g'' : U32} {channel : ConnectionChannel}
    {order : Option U32} {payload : Bytes} (h : Taking a kind g g' l m) (hne : g'' ≠ g') :
    Taking a kind g g' l (deliver p g'' channel order payload m).2 := by
  refine h.same ?_ (moves_remember (deliver_delivering p g'' channel order payload m))
  refine deliver_keeps (J := fun t => t.received g' = m.received g') (fun _ _ ht => ht)
    (fun packet _ t ht => ?_) rfl
  exact (handle_packet_other_buffer hne packet).trans ht

/-- A message that arrives under a key of its own is added to the others. -/
theorem Taking.take {p : ChannelProvider} {channel : ConnectionChannel} {key : Option SlotMapKey}
    {payload : Bytes} (h : Taking a kind g g' l m) (hst : m.state = .transfer)
    (called : payload ∈ a.calls g) (keyed : key.isSome = kind.isReliable)
    (issued : ∀ k, key = some k →
      .issued k (messagePacket l (some k) payload).bytes ∈ a.log)
    (fresh : ∀ k, key = some k → k ∉ m.resendKeyDuplicateChecker.set ∧
      m'.resendKeyDuplicateChecker.set = k :: m.resendKeyDuplicateChecker.set)
    (plain : key = none → m'.resendKeyDuplicateChecker = m.resendKeyDuplicateChecker)
    (same : SameReceipts m m') (hack : m'.notLocalInner.ackChannelId? ≠ some channel.localId) :
    Taking a kind g g' l (deliver p g' channel none payload m').2 := by
  have received : m'.received g' = m.received g' := received_of_buffers same.buffers
  have hst' : m'.state = .transfer := same.state.trans hst
  have remembers : m.resendKeyDuplicateChecker.set ⊆ m'.resendKeyDuplicateChecker.set := by
    cases key with
    | none =>
      rw [plain rfl]
      exact List.Subset.refl _
    | some k =>
      rw [(fresh k rfl).2]
      exact List.subset_cons_self _ _
  show Taking a kind g g' l (handlePacket p g' channel payload m').2
  rcases handle_packet_application p g' payload hst' hack with he | ⟨there, he⟩
  · rw [he]
    exact h.same received (fun _ => ⟨hst', remembers⟩)
  rw [he]
  obtain ⟨buffer, hbuffer⟩ := Option.isSome_iff_exists.mp there
  have pushed : ({ m' with buffers := m'.buffers.modify g' (· ++ [payload]) } : Endpoint).received g'
      = m.received g' ++ [payload] := by
    rw [← received]
    simp [Endpoint.received, GlobalChannelData.get_modify, hbuffer]
  refine ⟨fun x hx => ?_, fun reliable => ?_, fun hne => absurd hst' hne⟩
  · rw [pushed] at hx
    rcases List.mem_append.mp hx with hx | hx
    · exact h.heard x hx
    · rw [List.mem_singleton.mp hx]
      exact called
  · obtain ⟨k, rfl⟩ := Option.isSome_iff_exists.mp (keyed.trans reliable)
    obtain ⟨new, hset⟩ := fresh k rfl
    obtain ⟨taken, distinct, hreceived, known⟩ := h.once reliable
    refine ⟨taken ++ [(k, payload)], ?_, ?_, fun entry he => ?_⟩
    · rw [List.map_append]
      refine List.nodup_append.mpr ⟨distinct, List.nodup_singleton _, fun x hx y hy he => ?_⟩
      obtain ⟨entry, hentry, rfl⟩ := List.mem_map.mp hx
      have hy : y = k := List.mem_singleton.mp hy
      rw [hy] at he
      exact new (he ▸ (known entry hentry).2)
    · rw [pushed, hreceived, List.map_append]
      rfl
    · show _ ∧ entry.1 ∈ m'.resendKeyDuplicateChecker.set
      rw [hset]
      rcases List.mem_append.mp he with he | he
      · exact ⟨(known entry he).1, List.mem_cons_of_mem _ (known entry he).2⟩
      · rw [List.mem_singleton.mp he]
        exact ⟨issued k rfl, List.mem_cons_self⟩

/-- A message that reaches its handler in the transfer stage. -/
structure Arrives (a : Endpoint) (kind kind' : Channel) (g g' l : U32) (key : Option SlotMapKey)
    (d : Bytes) (inc : Incoming) (order : Option U32) (payload : Bytes) : Prop where
  datagram : d = (messagePacket l key payload).bytes
  called : payload ∈ a.calls g
  keyed : key.isSome = kind.isReliable
  read : inc.header.resendKey = key
  order : order = none
  target : inc.globalChannelId = g' ∧ inc.channel = ⟨l, kind'⟩

/-- Only messages of the channel reach its handler, each as it was sent. -/
theorem Spoken.arrives {d payload : Bytes} {key : Option SlotMapKey} {inc : Incoming}
    {order : Option U32} {t : Endpoint} (spoken : Spoken P a key d)
    (charted : Charted Q (sortedChannels P.provider) t) (hc : m.Compact)
    (twin : Twin P Q name g g' kind kind') (unordered : kind.isOrdered = false)
    (place : (sortedChannels P.provider)[l.toNat]? = some (name, g))
    (whole : ∀ payload ∈ a.calls g, payload.length ≤ maxNonSegmentedPayloadLen)
    (reaches : Reaches Q.provider d m inc order payload t) (hst : t.state = .transfer) :
    inc.globalChannelId ≠ g' ∨ Arrives a kind kind' g g' l key d inc order payload := by
  have hfew := sorted_few P
  obtain ⟨hsame, hcompletes, _⟩ := reaches.prepared (read_packet_compact hc)
  cases spoken with
  | framed base sent uttered hid segment reliable =>
    have small : ({ base with resendKey := key } : Packet).channelId.toNat < 2 ^ 31 := hid
    obtain ⟨hresolve, hheader⟩ := read_packet_incoming small (Prod.ext reaches.read rfl)
    rw [← hsame.state, ← hsame.notLocalInner, hst] at hresolve
    obtain ⟨_, hglobal, hkind⟩ := resolve_channel_id hresolve
    obtain ⟨other, own, there, known⟩ := charted.resolves hfew hglobal
    by_cases hx : base.channelId = l
    · right
      subst hx
      obtain ⟨rfl, rfl⟩ : other = name ∧ own = g := by
        have h := Option.some.inj (there.symm.trans place)
        exact ⟨congrArg Prod.fst h, congrArg Prod.snd h⟩
      have hg := Option.some.inj (known.symm.trans twin.other)
      have hchannel : inc.channel = ⟨base.channelId, kind'⟩ := by
        have h : (Q.provider.byId inc.globalChannelId).map (ConnectionChannel.mk base.channelId) =
          some inc.channel := hkind
        rw [hg, twin.otherKind] at h
        exact (Option.some.inj h).symm
      obtain ⟨rfl, _, n, message, called, complete, horder⟩ := uttered.application twin place
      have called := List.mem_of_getElem? called
      obtain ⟨hwhole, rfl⟩ := complete (whole _ called)
      rw [if_neg (by simp [unordered])] at horder
      have hfits : ({ base with resendKey := key } : Packet).Fits inc.channel.channel := by
        rw [hchannel]
        refine ⟨hid, segment, ?_, reliable.trans twin.reliable.symm⟩
        show base.order.isSome = kind'.isOrdered
        rw [horder, twin.ordered, unordered]
        rfl
      have hhead := hheader hfits
      rw [completes_whole (by rw [hhead]; exact hwhole), hhead] at hcompletes
      have hmessage := Option.some.inj hcompletes
      have ho : base.order = order := congrArg Prod.fst hmessage
      have hp : base.payload = payload := congrArg Prod.snd hmessage
      subst hp
      refine ⟨?_, called, reliable, by rw [hhead, Packet.header], ho.symm.trans horder, hg, hchannel⟩
      simp only [messagePacket, hwhole, horder]
    · left
      intro he
      rw [he] at known
      exact hx (twin.place_unique place there known)

/-- A datagram of the sender adds one of its calls to what is received, or leaves it alone. -/
theorem Taking.read {now : Nat} {d : Bytes} {key : Option SlotMapKey}
    (h : Taking a kind g g' l m) (charted : Charted Q (sortedChannels P.provider) m)
    (hc : m.Compact) (spoken : Spoken P a key d) (issued : ∀ k, key = some k → .issued k d ∈ a.log)
    (twin : Twin P Q name g g' kind kind') (unordered : kind.isOrdered = false)
    (place : (sortedChannels P.provider)[l.toNat]? = some (name, g))
    (whole : ∀ payload ∈ a.calls g, payload.length ≤ maxNonSegmentedPayloadLen) :
    Taking a kind g g' l (handleMessage Q.provider now d m).2 := by
  have hnone := provided_small twin.otherKind
  have unregistered {id : U32} (hid : ConnectionIdMapperInner.registrationId id ≠ none) :
      id ≠ g' := fun he => hid (he ▸ hnone)
  refine handle_spoken hc spoken (fun t moves => moves_taking id moves h)
    (fun t time ht => ⟨ht.heard, ht.once, ht.idle⟩) ?_ ?_ ?_
  · intro t i payload ht _ _ _
    exact ht.deliver_other (unregistered (by decide))
  · intro t keys ht hst _
    exact .empty ((handle_packet_other_buffer (unregistered (by decide)) _).trans (ht.idle hst))
  · intro t inc order payload moves reaches ht hst
    have hcharted := moves_charted id False.elim moves charted
    rcases spoken.arrives hcharted hc twin unordered place whole reaches hst with other | arrives
    · exact ht.deliver_other other
    obtain ⟨hsame, _, joiner, hend⟩ := reaches.prepared (read_packet_compact hc)
    have before : Taking a kind g g' l (readPacket Q.provider d m).2 :=
      moves_taking (s := preparing Q.provider d) id (read_packet_moves trivial m) h
    have acknowledged := reaches.acknowledged
    rw [arrives.read] at acknowledged hend
    have hchecker : t.resendKeyDuplicateChecker =
        (acknowledgeIfNeeded d key (readPacket Q.provider d m).2).2.resendKeyDuplicateChecker := by
      rw [hend]
    have hack : t.notLocalInner.ackChannelId? ≠ some l := by
      intro he
      exact twin.application.1 ((hcharted.builtins (sorted_few P) (sorted_names P) place).1
        (ack_channel_id he))
    obtain ⟨hg, hchannel⟩ := arrives.target
    rw [arrives.order, hg, hchannel]
    refine before.take (hsame.state.symm.trans hst) arrives.called arrives.keyed (fun k hk => ?_)
      (fun k hk => ?_) (fun hk => ?_) hsame hack
    · subst hk
      rw [← arrives.datagram]
      exact issued k rfl
    · subst hk
      have new : k ∉ (readPacket Q.provider d m).2.resendKeyDuplicateChecker.set := by
        intro hmem
        rw [acknowledge_known hmem] at acknowledged
        cases acknowledged
      rw [hchecker]
      exact ⟨new, (acknowledge_new_checker (read_packet_compact hc) new).1⟩
    · subst hk
      rw [hchecker]
      rfl

end

theorem connected_taking (twin : Twin P Q name g g' kind kind') (unordered : kind.isOrdered = false)
    (place : (sortedChannels P.provider)[l.toNat]? = some (name, g))
    (short : ∀ entry ∈ sortedChannels P.provider, (utf8 entry.1).length ≤ channelNameMaxLen)
    {s : Peer × Peer} (h : Connected P Q guard guard' s)
    (whole : ∀ payload ∈ s.1.endpoint.calls g, payload.length ≤ maxNonSegmentedPayloadLen)
    (fits : s.1.endpoint.resender.packets.Fits)
    (there : s.2.stage = .live ∨ s.2.endpoint.state = .transfer) :
    Taking s.1.endpoint kind g g' l s.2.endpoint := by
  have kept : Charted Q (sortedChannels P.provider) s.2.endpoint ∧
      ((∀ payload ∈ s.1.endpoint.calls g, payload.length ≤ maxNonSegmentedPayloadLen) →
        s.1.endpoint.resender.packets.Fits → Taking s.1.endpoint kind g g' l s.2.endpoint) := by
    refine receiver_invariant (I := fun a m => Charted Q (sortedChannels P.provider) m ∧
      ((∀ payload ∈ a.endpoint.calls g, payload.length ≤ maxNonSegmentedPayloadLen) →
        a.endpoint.resender.packets.Fits → Taking a.endpoint kind g g' l m)) h ?_ ?_ ?_ ?_ ?_ there
    · rintro a a' b m ha step ⟨charted, taking⟩
      refine ⟨charted, fun whole fits => ?_⟩
      have earlier : Taking a.endpoint kind g g' l m :=
        taking (fun payload hp => whole payload ((ha.calls_grow step).subset hp))
          (Nat.le_trans (ha.generations_le step) fits)
      exact earlier.later (ha.log_grows step)
    · intro a now capacity mapper _ _ _
      exact ⟨opened_charted, fun _ _ => .empty opened_received⟩
    · rintro a m delta _ hreach _ ⟨charted, taking⟩
      have moves : ReflTransGen (Move flushing) m (updateConnection delta m).2 :=
        update_connection_moves hreach.passed.compact (fun _ => ⟨rfl, rfl⟩)
      exact ⟨moves_charted id False.elim moves charted,
        fun whole fits => moves_taking id moves (taking whole fits)⟩
    · rintro a m channel payload _ _ _ _ ⟨charted, taking⟩
      obtain ⟨same, checker, _⟩ := send_event_quiet Q.provider channel payload m
      refine ⟨charted.send, fun whole fits => ?_⟩
      refine (taking whole fits).same (received_of_buffers same.buffers) (fun hst => ?_)
      rw [checker]
      exact ⟨same.state.trans hst, List.Subset.refl _⟩
    · rintro a m now d _ ha hreach _ sent _ ⟨charted, taking⟩
      have hc := hreach.passed.compact
      obtain ⟨_, spoken⟩ := ha.spoken sent
      refine ⟨charted.read hc short spoken, fun whole fits => ?_⟩
      obtain ⟨key, spoken, issued⟩ := (ha.chronicled fits).backed _ (mem_datagrams sent)
      exact (taking whole fits).read charted hc spoken issued twin unordered place whole
  exact kept.2 whole fits

/-- A connection that is live or in the transfer stage has received nothing else, and nothing too
often. -/
theorem connected_integrity (twin : Twin P Q name g g' kind kind')
    (unordered : kind.isOrdered = false) {s : Peer × Peer} (h : Connected P Q guard guard' s)
    (hst : s.1.endpoint.state = .transfer)
    (there : s.2.stage = .live ∨ s.2.endpoint.state = .transfer)
    (whole : ∀ payload ∈ s.1.endpoint.calls g, payload.length ≤ maxNonSegmentedPayloadLen)
    (fits : s.1.endpoint.resender.packets.Fits) :
    (∀ payload ∈ s.2.endpoint.received g', payload ∈ s.1.endpoint.calls g) ∧
      (kind.isReliable = true → (s.2.endpoint.received g').Subperm (s.1.endpoint.calls g)) := by
  obtain ⟨capacity, initializes⟩ := (connected_standing h).1.initialized hst
  obtain ⟨l, place⟩ := twin.placed
  have taking := connected_taking twin unordered place initializes.announceable.names h whole fits
    there
  refine ⟨taking.heard, fun reliable => ?_⟩
  obtain ⟨taken, distinct, received, known⟩ := taking.once reliable
  obtain ⟨issues, sublist, hissues⟩ := connected_entrusted twin unordered place h whole fits
  have subset : taken ⊆ issues := fun entry he => hissues entry.1 entry.2 (known entry he).1
  obtain ⟨some, perm, part⟩ : taken.Subperm issues := (List.Nodup.of_map _ distinct).subperm subset
  rw [received]
  exact ⟨some.map Prod.snd, perm.map Prod.snd, (part.map Prod.snd).trans sublist⟩

/-- On an unordered channel nothing is received but what was sent, and on a reliable one every
message at most as often as it was sent, in whatever order and however often its datagrams arrive. -/
theorem unordered_channel_integrity (twin : Twin P Q name g g' kind kind')
    (unordered : kind.isOrdered = false) {s : Peer × Peer} (h : Connected P Q guard guard' s)
    (hst : s.1.endpoint.state = .transfer) (hst' : s.2.endpoint.state = .transfer)
    (whole : ∀ payload ∈ s.1.endpoint.calls g, payload.length ≤ maxNonSegmentedPayloadLen)
    (fits : s.1.endpoint.resender.packets.Fits) :
    (∀ payload ∈ s.2.endpoint.received g', payload ∈ s.1.endpoint.calls g) ∧
      (kind.isReliable = true → (s.2.endpoint.received g').Subperm (s.1.endpoint.calls g)) :=
  connected_integrity twin unordered h hst (Or.inr hst') whole fits

end

/-- Of three messages without an order the last one overtakes the others, the first one arrives
twice, and the second one is lost. -/
def jumbling : List (Side × Deed) := acquainting ++
  [(.left, .tick 1), (.left, .send 2 [7]), (.left, .send 2 [7]), (.left, .send 2 [8]),
    (.right, .read 3 7), (.right, .read 3 5), (.right, .read 3 5)]

def jumbled : Peer × Peer := abstaining looseRegistry looseRegistry jumbling

theorem jumbled_connected : Connected looseRegistry looseRegistry looseRegistry.abstains
    looseRegistry.abstains jumbled :=
  abstaining_connected (by decide +kernel)

theorem loose_twin : Twin looseRegistry looseRegistry "chat" 2 2
    { chat.channel with orderability := none } { chat.channel with orderability := none } where
  own := by decide +kernel
  other := by decide +kernel
  ownKind := by decide +kernel
  otherKind := by decide +kernel
  ordered := rfl
  reliable := rfl
  application := by decide

theorem unordered_channel_integrity_jumbled :
    jumbled.2.endpoint.received 2 = [[8], [7]] ∧
      (jumbled.2.endpoint.received 2).Subperm (jumbled.1.endpoint.calls 2) := by
  have integrity := unordered_channel_integrity loose_twin rfl jumbled_connected
    (by decide +kernel) (by decide +kernel) (by decide +kernel)
    (by unfold SlotMap.Fits; decide +kernel)
  exact ⟨by decide +kernel, integrity.2 (by decide +kernel)⟩

end Theta
