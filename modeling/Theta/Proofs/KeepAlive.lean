import Theta.Proofs.Accounting
import Theta.Proofs.Agreement
import Theta.Proofs.Completion
import Theta.Proofs.Confinement
import Theta.Proofs.Establishing

namespace Theta
open Lib Relation

section
variable {p : ChannelProvider} {m : Endpoint} {key : SlotMapKey} {keys : List SlotMapKey}

/-- Whatever key is acknowledged, no packet is held under it any more. -/
theorem release_key_clears (key : SlotMapKey) (m : Endpoint) :
    (releaseKey key m).2.resender.packets.get key = none := by
  have noticed := noticing_resender m key
  rcases release_key_cases key m with ⟨hr, he⟩ | ⟨hr, he⟩ | ⟨packet, resender, remove, he⟩
  · have beyond : m.resender.packets.generations.length ≤ key.index.toNat := by
      rw [← SlotMap.remove_panic_iff (ε := ConnectionError)]
      unfold PacketResender.remove at hr
      cases hremove : (m.resender.packets.remove key : Outcome ConnectionError _) with
      | panic => rfl
      | ok r => simp [hremove] at hr
      | err e => simp [hremove] at hr
    rw [he, noticed]
    cases hget : m.resender.packets.get key with
    | none => rfl
    | some packet =>
      have within := (List.getElem?_eq_some_iff.mp (SlotMap.get_eq_some.mp hget).2).1
      omega
  · obtain ⟨_, hremove⟩ := PacketResender.remove_ok hr
    rw [he, noticed]
    exact (SlotMap.remove_cases hremove).1.symm
  · obtain ⟨_, hremove⟩ := PacketResender.remove_ok remove
    rw [he]
    show resender.packets.get key = none
    rw [SlotMap.get_remove hremove, if_pos rfl]

theorem release_key_none {k : SlotMapKey} (key : SlotMapKey)
    (h : m.resender.packets.get k = none) : (releaseKey key m).2.resender.packets.get k = none := by
  by_cases he : k = key
  · subst he
    exact release_key_clears k m
  · rw [release_key_other m he]
    exact h

/-- Acknowledgements of keys that were issued are all handled, and take out their packets. -/
theorem acknowledge_keys {fuel : Nat} (enough : (keys.flatMap SlotMapKey.encode).length ≤ fuel)
    (within : ∀ key ∈ keys, key.index.toNat < m.resender.packets.generations.length) :
    (acknowledgeLocally fuel (keys.flatMap SlotMapKey.encode) m).1 = .ok () ∧
      ∀ key ∈ keys, (acknowledgeLocally fuel (keys.flatMap SlotMapKey.encode)
        m).2.resender.packets.get key = none := by
  induction keys generalizing fuel m with
  | nil =>
    refine ⟨?_, by simp⟩
    cases fuel with
    | zero => rfl
    | succ fuel => rfl
  | cons first rest ih =>
    have hpos : 0 < first.encode.length := List.length_pos_iff.mpr first.encode_ne_nil
    rw [List.flatMap_cons, List.length_append] at enough
    obtain ⟨here, others⟩ := List.forall_mem_cons.mp within
    obtain ⟨safe, same⟩ := release_key_safe_iff first m
    have released : (releaseKey first m).1 = .ok () := by
      cases hr : (releaseKey first m).1 with
      | ok u => rfl
      | err e => exact absurd hr (release_key_ne_err first m e)
      | panic => exact absurd hr (safe.mpr here)
    cases fuel with
    | zero => omega
    | succ fuel =>
      have enough' : (rest.flatMap SlotMapKey.encode).length ≤ fuel := by omega
      obtain ⟨hok, cleared⟩ := ih (m := (releaseKey first m).2) enough' (by rw [same]; exact others)
      rw [List.flatMap_cons, acknowledgeLocally, SlotMapKey.decode_encode]
      dsimp only
      rw [Act.bind_of_ok (eq_of_fst released)]
      refine ⟨hok, List.forall_mem_cons.mpr ⟨?_, cleared⟩⟩
      exact acknowledge_locally_keeps (J := fun t : Endpoint => t.resender.packets.get first = none)
        (fun key _ t ht => release_key_none key ht) (release_key_clears first m)

/-- Acknowledgements that a connection reads in the transfer stage under a new key are handled, and
the time is noted. -/
theorem handle_acknowledgements {d : Bytes} {g l id : U32} {kind : Channel}
    (hst : m.state = .transfer)
    (hread : readPacket p d m =
      (.ok ⟨g, ⟨l, kind⟩, ⟨none, none, some key, keys.flatMap SlotMapKey.encode⟩⟩, m))
    (hack : m.notLocalInner.ackChannelId? = some l) (hid : m.localInner.ackChannelId? = some id)
    (new : key ∉ m.resendKeyDuplicateChecker.set)
    (room : (m.acknowledgeBuffer ++ key.encode).length ≤ maxNonSegmentedPayloadLen)
    (within : ∀ key ∈ keys, key.index.toNat < m.resender.packets.generations.length) (now : Nat) :
    ∃ t, handleMessage p now d m = (.ok (), t) ∧ t.lastTimeReceivedPacket = now ∧
      ∀ key ∈ keys, t.resender.packets.get key = none := by
  have acknowledged : acknowledgeIfNeeded d (some key) m = (.ok (),
      { m.recording key d with acknowledgeBuffer := m.acknowledgeBuffer ++ key.encode }) := by
    have hid' : (m.recording key d).localInner.ackChannelId? = some id := hid
    have fits : ¬ ((m.recording key d).acknowledgeBuffer ++ key.encode).length >
        maxNonSegmentedPayloadLen := Nat.not_lt_of_le room
    rw [acknowledge_new new]
    simp only [localAckChannelId, ConnectionAcknowledgeBuffer.acknowledge, Act.bind_apply,
      Act.get_apply, Act.lift_apply, hid', Outcome.ofOption, if_neg fits]
    rfl
  generalize ht : ({ m.recording key d with
    acknowledgeBuffer := m.acknowledgeBuffer ++ key.encode } : Endpoint) = t at acknowledged
  have handled : handlePacket p g ⟨l, kind⟩ (keys.flatMap SlotMapKey.encode) t =
      acknowledgeLocally (keys.flatMap SlotMapKey.encode).length (keys.flatMap SlotMapKey.encode)
        { t with log := t.log ++ [.consumed (keys.flatMap SlotMapKey.encode)] } := by
    subst ht
    simp only [handlePacket, Act.bind_apply, Act.get_apply, Endpoint.recording, hst, if_pos hack,
      emit, Act.modify_apply]
  obtain ⟨hok, cleared⟩ := acknowledge_keys
    (m := { t with log := t.log ++ [.consumed (keys.flatMap SlotMapKey.encode)] })
    (Nat.le_refl (keys.flatMap SlotMapKey.encode).length) (by subst ht; exact within)
  rw [← handled] at hok cleared
  have received : receive kind ⟨none, none, some key, keys.flatMap SlotMapKey.encode⟩ t =
      (.ok (some (none, keys.flatMap SlotMapKey.encode)), t) := rfl
  rw [handleMessage, Act.bind_of_ok hread, Act.bind_of_ok acknowledged, Act.bind_of_ok received]
  exact ⟨_, Act.bind_of_ok (eq_of_fst hok), rfl, cleared⟩

end

section
variable {r : Registry} {m t : Endpoint} {delta id : U32}

/-- A flush that returns has issued what was to be acknowledged, under a new key. -/
theorem flush_issues (hid : m.localInner.ackChannelId = id)
    (small : m.state = .transfer → id.toNat < 2 ^ 31) (hc : m.Compact) (tidy : Tidy m)
    (run : ConnectionAcknowledgeBuffer.flush id m = (.ok (), t)) (fits : t.resender.packets.Fits) :
    ∃ key, ¬ m.resender.packets.Spent key ∧
      .issued key (Packet.bytes { m.ackPacket with resendKey := some key }) ∈ t.log ∧
      .sent (Packet.bytes { m.ackPacket with resendKey := some key }) ∈ t.log := by
  rw [flush_eq hid small hc] at run
  cases add : m.resender.add (fun key => ReliableBufferedPacket.new
      (Packet.bytes { m.ackPacket with resendKey := some key }) 750 (-1)) with
  | err e =>
    rw [add] at run
    cases run
  | panic =>
    rw [add] at run
    cases run
  | ok added =>
    obtain ⟨key, resender⟩ := added
    rw [add] at run
    dsimp only at run
    cases stored : resender.packets.get key with
    | none =>
      rw [stored] at run
      cases run
    | some packet =>
      rw [stored] at run
      obtain ⟨_, rfl⟩ := Prod.ext_iff.mp run
      have fits : resender.packets.Fits := fits
      obtain ⟨_, _, hadd⟩ := PacketResender.add_ok add
      have healthy := tidy (Nat.le_trans (SlotMap.add_generations_le hadd) fits)
      have hpacket := SlotMap.get_add (k := key) healthy fits hadd
      rw [if_pos rfl, stored, Option.some.injEq] at hpacket
      refine ⟨key, SlotMap.add_fresh healthy fits hadd, ?_, ?_⟩
      · simp [hpacket, ReliableBufferedPacket.new]
      · simp [hpacket, ReliableBufferedPacket.new]

/-- A tick that returns has issued what was to be acknowledged, under a new key. -/
theorem tick_issues (hm : Flushable r m) (keeping : Keeping r m)
    (run : updateConnection delta m = (.ok (), t)) (fits : t.resender.packets.Fits) :
    ∃ key, (∀ d, .issued key d ∉ m.log) ∧
      .issued key (Packet.bytes { m.ackPacket with resendKey := some key }) ∈ t.log ∧
      .sent (Packet.bytes { m.ackPacket with resendKey := some key }) ∈ t.log := by
  have update := update_sends delta m
  rw [updateConnection, Act.bind_of_ok (Act.get_apply m)] at run
  by_cases time : m.resender.inTime delta = true
  · rw [if_pos time] at update
    rw [Act.bind_of_ok update, Act.bind_apply] at run
    dsimp only [Act.modify_apply] at run
    simp only [localAckChannelId, Act.bind_apply, Act.get_apply, Act.lift_apply] at run
    cases hid : m.localInner.ackChannelId? with
    | none =>
      rw [hid] at run
      cases run
    | some id =>
      rw [hid] at run
      obtain ⟨hinner, small⟩ := ack_id_small hm.entered hid
      obtain ⟨key, fresh, issued⟩ := flush_issues (m := { m with
        resender := m.resender.ticked delta
        log := m.log ++ (m.resender.emissions delta).map (fun e => .sent e.2.payload) })
        hinner (fun _ => small) hm.compact (fun fits => (PacketResender.clock_cases (hm.tidy fits)
          fits (PacketResender.update_packets update)).1) run fits
      exact ⟨key, fun d hd => fresh (keeping.spent key d hd), issued⟩
  · rw [if_neg time] at update
    rw [Act.bind_of_panic update] at run
    cases run

end

section
variable {P Q : Registry} {a m : Endpoint} {id : U32}

/-- The place of the acknowledgements among the channels. -/
theorem ack_place (entered : Entered (sortedChannels P.provider) a.localInner)
    (hid : a.localInner.ackChannelId? = some id) :
    ∃ own, (sortedChannels P.provider)[id.toNat]? = some (ackChannelName, own) := by
  have named := (entered_builtins entered (sorted_few P) (sorted_names P)).1
  rw [ack_channel_id hid] at named
  have known : id ≠ nullChannelId := by
    intro he
    rw [ConnectionIdMapperInner.ackChannelId?, ConnectionIdMapperInner.nonNull, ack_channel_id hid,
      if_pos he] at hid
    cases hid
  have hget := number_get (by rw [List.length_map]; exact sorted_few P) named.symm known
  rw [List.getElem?_map] at hget
  obtain ⟨⟨name, own⟩, place, rfl⟩ := Option.map_eq_some_iff.mp hget
  exact ⟨own, place⟩

/-- Whoever agrees with its peer on the channels reads the acknowledgements of the peer as such. -/
theorem MappingAgrees.reads (agrees : MappingAgrees P Q a m) (alike : Alike P Q)
    (framed : Framed P Q) (entered : Entered (sortedChannels P.provider) a.localInner)
    (hst : m.state = .transfer) (hid : a.localInner.ackChannelId? = some id) :
    m.notLocalInner.ackChannelId? = some id ∧ ∃ g kind, ∀ key payload,
      readPacket Q.provider (Packet.bytes ⟨id, none, none, some key, payload⟩) m =
        (.ok ⟨g, ⟨id, kind⟩, ⟨none, none, some key, payload⟩⟩, m) := by
  obtain ⟨_, small⟩ := ack_id_small entered hid
  obtain ⟨own, place⟩ := ack_place entered hid
  have known : P.provider.byName ackChannelName = some own :=
    Registry.by_name.mpr ((sorted_perm P).mem_iff.mp (List.mem_of_getElem? place))
  obtain ⟨g, known'⟩ := Option.isSome_iff_exists.mp
    ((alike.names ackChannelName).symm.trans (by rw [known]; rfl))
  have registered : (Q.provider.byId g).isSome := provided_known (ackChannelName, g)
    ((sorted_perm Q).mem_iff.mpr (Registry.by_name.mp known'))
  obtain ⟨kind, hkind⟩ := Option.isSome_iff_exists.mp registered
  obtain ⟨l, numbered, there⟩ := agrees.channels ackChannelName own g known known'
  have same : l = id := by
    have here := (entered_local_id entered (sorted_few P) (sorted_ids P) (l := id) (g := own)).mpr
      (by rw [place]; rfl)
    exact Option.some.inj (numbered.symm.trans here)
  have global := (there id).mpr same.symm
  have fields : kind.fields = ackChannel.fields := by
    apply framed.acknowledging
    rw [Registry.kind, known']
    exact hkind
  refine ⟨?_, g, kind, fun key payload => ?_⟩
  · rw [ConnectionIdMapperInner.ackChannelId?, agrees.ack]
    exact hid
  · refine read_packet_bytes small ?_ ⟨small, by simp, ?_, ?_⟩
    · simp only [resolveChannel, hst, global, ConnectionChannel.new, hkind]
      rfl
    · exact (congrArg Prod.fst fields).symm
    · exact (congrArg Prod.snd fields).symm

/-- A tick that returns keeps the connection alive: it sends a packet that no packet before it can
be taken for, and whenever that packet is the first of its key to arrive in the transfer stage, it
is handled, its time is noted, and the packets that it acknowledges are held no more. -/
theorem connection_kept_alive (alike : Alike P Q) (framed : Framed P Q) (framed' : Framed Q P)
    {s : Peer × Peer} (h : Connected P Q P.abstains Q.abstains s) (live : s.1.stage = .live)
    (transfer : s.1.endpoint.state = .transfer) {delta : U32} {t : Endpoint}
    (ticks : updateConnection delta s.1.endpoint = (.ok (), t)) (fits : t.resender.packets.Fits) :
    ∃ key d, (∀ d', .issued key d' ∉ s.1.endpoint.log) ∧ .issued key d ∈ t.log ∧ .sent d ∈ t.log ∧
      ∀ s', Connected P Q P.abstains Q.abstains s' → t.log <+: s'.1.endpoint.log →
        s'.2.stage = .live → s'.2.endpoint.state = .transfer →
        s'.2.endpoint.resender.packets.Fits →
        key ∉ s'.2.endpoint.resendKeyDuplicateChecker.set →
        (s'.2.endpoint.acknowledgeBuffer ++ key.encode).length ≤ maxNonSegmentedPayloadLen →
        ∀ now, ∃ m, handleMessage Q.provider now d s'.2.endpoint = (.ok (), m) ∧
          m.lastTimeReceivedPacket = now ∧
          ∀ k ∈ decodeKeys s.1.endpoint.acknowledgeBuffer.length s.1.endpoint.acknowledgeBuffer,
            m.resender.packets.get k = none := by
  obtain ⟨reachable, offered⟩ := (connected_standing h).1.reachable live
  have entered := reachable.counted.entered
  have moves : ReflTransGen (Move flushing) s.1.endpoint (updateConnection delta s.1.endpoint).2 :=
    update_connection_moves reachable.passed.compact (fun _ => ⟨rfl, rfl⟩)
  rw [ticks] at moves
  obtain ⟨key, fresh, issued, sent⟩ := tick_issues
    ⟨entered, reachable.passed.compact, reachable.passed.tidy, transfer⟩
    (reachable.keeping (Nat.le_trans (generations_le moves) fits) offered) ticks fits
  obtain ⟨keys, buffer, recorded⟩ := (reachable.voiced offered).buffer
  refine ⟨key, _, fresh, issued, sent, fun s' h' later live' transfer' fits' new room now => ?_⟩
  -- The sender has kept its ids since, and the receiver knows that of the acknowledgements.
  obtain ⟨id, hid⟩ := connected_answerable (Party.exchange_swap h) transfer
  have hid : s.1.endpoint.localInner.ackChannelId? = some id := hid
  have agreeing := connected_agreeing alike.covers alike.short h' (Or.inr transfer')
  obtain ⟨_, entered'⟩ := agreeing.last (agreeing.complete (fun lastKey => by simp [transfer']))
  have hid' : s'.1.endpoint.localInner.ackChannelId? = some id := by
    rw [← hid, ConnectionIdMapperInner.ackChannelId?, ConnectionIdMapperInner.ackChannelId?,
      (entered_builtins entered (sorted_few P) (sorted_names P)).1,
      (entered_builtins entered' (sorted_few P) (sorted_names P)).1]
  obtain ⟨hack, g, kind, hread⟩ := (agreeing.maps alike transfer').reads alike framed
    entered' transfer' hid'
  obtain ⟨_, answers⟩ := connected_answerable h' transfer'
  have within (k : SlotMapKey) (hk : k ∈ keys) :
      k.index.toNat < s'.2.endpoint.resender.packets.generations.length := by
    obtain ⟨d, hd⟩ := recorded k hk
    exact connected_within framed' h' live' fits' (later.subset ((log_grows moves).subset hd))
  have packet : s.1.endpoint.ackPacket =
      ⟨id, none, none, none, keys.flatMap SlotMapKey.encode⟩ := by
    simp only [Endpoint.ackPacket, transfer, ack_channel_id hid, buffer]
  rw [packet, buffer, decode_encoded_keys (Nat.le_refl _)]
  exact handle_acknowledgements transfer' (hread key _) hack answers new room within now

end

theorem chat_alike : Alike chatRegistry chatRegistry :=
  ⟨fun _ => rfl, by decide +kernel, by decide +kernel⟩

/-- Both sides are in the transfer stage. -/
def met : Peer × Peer := abstaining chatRegistry chatRegistry meeting

/-- The left side has ticked again. -/
def nodded : Peer × Peer := abstaining chatRegistry chatRegistry (meeting ++ [(.left, .tick 1)])

theorem connection_kept_alive_nodded :
    ∃ key d, (∀ d', .issued key d' ∉ met.1.endpoint.log) ∧
      .issued key d ∈ (updateConnection 1 met.1.endpoint).2.log ∧
      .sent d ∈ (updateConnection 1 met.1.endpoint).2.log ∧
      (key ∉ nodded.2.endpoint.resendKeyDuplicateChecker.set →
        (nodded.2.endpoint.acknowledgeBuffer ++ key.encode).length ≤ maxNonSegmentedPayloadLen →
        ∀ now, ∃ m, handleMessage chatRegistry.provider now d nodded.2.endpoint = (.ok (), m) ∧
          m.lastTimeReceivedPacket = now ∧
          ∀ k ∈ decodeKeys met.1.endpoint.acknowledgeBuffer.length met.1.endpoint.acknowledgeBuffer,
            m.resender.packets.get k = none) := by
  have ticks : (updateConnection 1 met.1.endpoint).1 = .ok () := by decide +kernel
  have later : (updateConnection 1 met.1.endpoint).2.log <+: nodded.1.endpoint.log := by
    decide +kernel
  have reached : Connected chatRegistry chatRegistry chatRegistry.abstains chatRegistry.abstains
      met :=
    abstaining_connected (by decide +kernel)
  have reached' : Connected chatRegistry chatRegistry chatRegistry.abstains chatRegistry.abstains
      nodded :=
    abstaining_connected (by decide +kernel)
  have live : met.1.stage = .live := by decide +kernel
  have transfer : met.1.endpoint.state = .transfer := by decide +kernel
  have live' : nodded.2.stage = .live := by decide +kernel
  have transfer' : nodded.2.endpoint.state = .transfer := by decide +kernel
  have fits : (updateConnection 1 met.1.endpoint).2.resender.packets.Fits := by
    unfold SlotMap.Fits
    decide +kernel
  have fits' : nodded.2.endpoint.resender.packets.Fits := by
    unfold SlotMap.Fits
    decide +kernel
  obtain ⟨key, d, fresh, issued, sent, handled⟩ := connection_kept_alive chat_alike chat_framed
    chat_framed reached live transfer (eq_of_fst ticks) fits
  exact ⟨key, d, fresh, issued, sent, handled nodded reached' later live' transfer' fits'⟩

end Theta
