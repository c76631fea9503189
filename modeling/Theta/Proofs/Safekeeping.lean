import Theta.Proofs.Holders
import Theta.Proofs.Replay
import Theta.Proofs.Soundness

namespace Theta
open Lib Relation

/-- A new packet has a place: its number among the segments of a message that stays unfinished, or
its order on its channel. -/
def hasPlace (m : Endpoint) (inc : Incoming) : Bool :=
  match inc.header.segment with
  | some metadata => decide (1 < m.joiner.waiting metadata)
  | none =>
    match inc.header.order with
    | some order => hasRoom m inc.channel.localId order
    | none => true

/-- A segment without a key completes no message of which a packet with a key is a segment. -/
def spares (p : ChannelProvider) (m : Endpoint) (inc : Incoming) : Bool :=
  match inc.header.segment with
  | some metadata => decide (m.joiner.waiting metadata ≠ 1) || m.log.all fun event =>
    match event with
    | .recorded _ d =>
      match (readPacket p d m).1 with
      | .ok other => decide (other.header.segment.map PacketSegmentMetadata.segmentKey ≠
          some metadata.segmentKey)
      | _ => true
    | _ => true
  | none => true

/-- The acknowledgement of a key fits the buffer, or can be sent to make room for it. -/
def hasAckRoom (m : Endpoint) (key : SlotMapKey) : Bool :=
  decide ((m.acknowledgeBuffer ++ key.encode).length ≤ maxNonSegmentedPayloadLen) ||
    decide (m.resender.packets.len ≠ m.resender.capacity)

/-- A new reliable packet of the transfer stage can be acknowledged and has a place, and an
unreliable one leaves the reliable ones theirs. -/
def storable (p : ChannelProvider) (m : Endpoint) (d : Bytes) : Bool :=
  match readPacket p d m with
  | (.ok inc, m) =>
    match m.state, inc.header.resendKey with
    | .transfer, some key =>
      decide (key ∈ m.resendKeyDuplicateChecker.set) || (hasAckRoom m key && hasPlace m inc)
    | .transfer, none => spares p m inc
    | _, _ => true
  | _ => true

/-- The state after the joiner was given the segment of a packet. -/
def Endpoint.fed (m : Endpoint) (header : PacketHeader) : Endpoint :=
  { m with joiner := header.joined m.joiner }

section
variable {p : ChannelProvider} {m m' : Endpoint} {d : Bytes} {inc : Incoming} {key : SlotMapKey}
  {r : Receipt}

theorem RecordedAs.resolved (h : RecordedAs p m key r) (hst : m.state = .transfer) :
    resolveChannel p m.state m.notLocalInner r.incoming.channel.localId =
        .ok (r.incoming.globalChannelId, r.incoming.channel) ∧
      r.incoming.channel.channel.isReliable = true := by
  obtain ⟨d, _, hread, hkey⟩ := h
  have hres := read_packet_resolved (Prod.ext hread (read_packet_transfer hst) :
    readPacket p d m = (.ok r.incoming, m))
  rw [hkey] at hres
  exact ⟨hres.1, hres.2.2.symm⟩

theorem RecordedAs.onward (h : RecordedAs p m key r) (hst : m.state = .transfer)
    (hl : Onward m m') : RecordedAs p m' key r := by
  obtain ⟨d, hlog, hread, hkey⟩ := h
  exact ⟨d, entry_stays hl.log hlog,
    (read_packet_same hst hl.state hl.notLocalInner).trans hread, hkey⟩

/-- What was recorded for the channel of a packet is of this channel. -/
theorem recorded_addresses (hst : m.state = .transfer) (hread : readPacket p d m = (.ok inc, m)) :
    Addresses m inc.globalChannelId inc.channel (RecordedAs p m) := by
  intro key r recorded
  obtain ⟨_, hlog, _, _⟩ := id recorded
  refine ⟨(List.getElem?_eq_some_iff.mp hlog).1, fun same => ?_⟩
  have here := (read_packet_resolved hread).1
  have there := (recorded.resolved hst).1
  rw [same, here, Outcome.ok.injEq, Prod.mk.injEq] at there
  exact ⟨there.1.symm, there.2.symm⟩

/-- What was kept is kept as long as the orderers and the joiner hold it. -/
theorem Housed.onward {keys : Set SlotMapKey} (hst : m.state = .transfer) (hl : Onward m m')
    (h : Housed m.notLocalInner.ackChannelId? (RecordedAs p m) keys m.contents)
    (ordered : ∀ key r l n v, RecordedAs p m key r → r.incoming.channel.localId = l →
      m.held l n = some v → m'.held l n = some v)
    (joined : ∀ key r metadata v, RecordedAs p m key r →
      r.incoming.header.segment = some metadata →
      m.joiner.part metadata.segmentKey metadata.segment = some v →
      m'.joiner.part metadata.segmentKey metadata.segment = some v) :
    Housed m'.notLocalInner.ackChannelId? (RecordedAs p m') keys m'.contents := by
  rw [hl.notLocalInner]
  refine Stowed.mono h (fun key _ r known => known.onward hst hl) (fun key _ r s known fits => ?_)
  refine hl.contents (fun l n hs => ?_) (fun k i hs => ?_)
  · subst hs
    exact ordered key r l n _ known fits.2.1
  · subst hs
    obtain ⟨metadata, hsegment, rfl, rfl⟩ := fits
    exact joined key r metadata _ known hsegment

theorem held_same (h : m'.orderers = m.orderers) : m'.held = m.held := by
  funext l n
  rw [Endpoint.held, Endpoint.held, h]

/-- A packet that is handed to its channel concerns no other channel. -/
theorem deliver_later {globalId : U32} {channel : ConnectionChannel} {order : Option U32}
    {payload : Bytes} (hst : m.state = .transfer) (rings : Rings m.orderers)
    (hret : (deliver p globalId channel order payload m).1 ≠ .panic) :
    Later m (deliver p globalId channel order payload m).2 ∧ ∀ l, l ≠ channel.localId →
      ∀ n, (deliver p globalId channel order payload m).2.held l n = m.held l n := by
  cases order with
  | none =>
    obtain ⟨hl, _⟩ : Later m (handlePacket p globalId channel payload m).2 ∧ _ :=
      handle_packet_stows hst hret
    have same : (handlePacket p globalId channel payload m).2.orderers = m.orderers :=
      handle_packet_same_orderers (fun hne => absurd hst hne)
    exact ⟨hl, fun l _ n => congrFun (congrFun (held_same same) l) n⟩
  | some order =>
    obtain ⟨hl, others, _⟩ := deliver_ordered_stows hst rings hret
    refine ⟨hl, fun l hne n => ?_⟩
    have other : Place.basic l.toNat ≠ .basic channel.localId.toNat :=
      fun he => hne (BitVec.eq_of_toNat_eq (Place.basic.inj he))
    rw [Endpoint.held, Endpoint.held, others _ other]

/-- A whole packet that has a place is kept. -/
theorem deliver_stows {packets : SlotMapKey → Receipt → Prop} {keys : Set SlotMapKey} {since : Nat}
    (hst : m.state = .transfer) (rings : Rings m.orderers)
    (hret : (deliver p inc.globalChannelId inc.channel inc.header.order inc.header.payload m).1 ≠
      .panic) (whole : inc.header.segment = none) (room : hasPlace m inc = true)
    (h : Housed m.notLocalInner.ackChannelId? packets keys m.contents)
    (addresses : Addresses m inc.globalChannelId inc.channel packets) (fresh : key ∉ keys)
    (known : packets key ⟨inc, since⟩) :
    Housed m.notLocalInner.ackChannelId? packets (insert key keys) (deliver p inc.globalChannelId
      inc.channel inc.header.order inc.header.payload m).2.contents := by
  rw [hasPlace, whole] at room
  cases ho : inc.header.order with
  | none =>
    rw [ho] at hret
    obtain ⟨hl, s, fits, place⟩ : Later m (handlePacket p inc.globalChannelId inc.channel
        inc.header.payload m).2 ∧ ∃ s, _ ∧ _ := handle_packet_stows hst hret
    have same : (handlePacket p inc.globalChannelId inc.channel inc.header.payload m).2.orderers =
        m.orderers := handle_packet_same_orderers (fun hne => absurd hst hne)
    show Housed _ _ _ (handlePacket p inc.globalChannelId inc.channel
      inc.header.payload m).2.contents
    rw [Endpoint.contents, held_same same]
    have before := (addresses key _ known).1
    exact Stowed.add h fresh known (fits _ whole rfl rfl before) (place _).1 (place _).2
      (fun s v => hl.contents (fun _ _ _ => id) (fun k i _ hv => hl.joiner ▸ hv))
  | some order =>
    rw [ho] at hret room
    obtain ⟨_, _, stows⟩ := deliver_ordered_stows hst rings hret
    exact stows packets keys key _ h addresses room fresh known rfl whole ho rfl

/-- A datagram that was acknowledged is received, and then it is kept by the joiner or refused, or
its message is handed to its channel. -/
theorem handle_message_received {P : Endpoint → Prop} {now : Nat}
    (hread : readPacket p d m = (.ok inc, m))
    (hack : acknowledgeIfNeeded d inc.header.resendKey m = (.ok (), m'))
    (hret : (handleMessage p now d m).1 ≠ .panic)
    (stays : (∀ message, (receive inc.channel.channel inc.header m').1 ≠ .ok (some message)) →
      P (m'.fed inc.header))
    (handed : ∀ order payload, (receive inc.channel.channel inc.header m').1 =
        .ok (some (order, payload)) →
      (deliver p inc.globalChannelId inc.channel order payload (m'.fed inc.header)).1 ≠ .panic →
      ∀ time, P { (deliver p inc.globalChannelId inc.channel order payload
        (m'.fed inc.header)).2 with lastTimeReceivedPacket := time }) :
    P (handleMessage p now d m).2 := by
  have hreceive : (receive inc.channel.channel inc.header m').2 = m'.fed inc.header :=
    receive_joined inc.channel.channel inc.header m'
  rw [handleMessage, Act.bind_of_ok hread, Act.bind_of_ok hack] at hret ⊢
  rcases hr : receive inc.channel.channel inc.header m' with ⟨r, t⟩
  rw [hr] at hreceive stays handed
  dsimp only at hreceive
  subst hreceive
  cases r with
  | err e =>
    rw [Act.bind_of_err hr]
    exact stays (by simp)
  | panic =>
    rw [Act.bind_of_panic hr] at hret
    exact absurd rfl hret
  | ok message =>
    rw [Act.bind_of_ok hr] at hret ⊢
    cases message with
    | none => exact stays (by simp)
    | some message =>
      obtain ⟨order, payload⟩ := message
      obtain ⟨hresult, time, hend⟩ := touch_ends
        (deliver p inc.globalChannelId inc.channel order payload) (m'.fed inc.header) now
      dsimp only at hret ⊢
      rw [hresult] at hret
      rw [hend]
      exact handed order payload rfl hret time

/-- Nothing that was received changes when a segment is given to the joiner. -/
theorem onward_fed (hst : m.state = .transfer) (header : PacketHeader) :
    Onward m (m.fed header) ∧ Onward (m.fed header) m :=
  ⟨⟨hst, rfl, List.prefix_refl _, fun _ buffer hb => ⟨buffer, hb, List.prefix_refl _⟩⟩,
    ⟨hst, rfl, List.prefix_refl _, fun _ buffer hb => ⟨buffer, hb, List.prefix_refl _⟩⟩⟩

/-- A segment without a key takes nothing away from the packets with a key. -/
theorem joined_spares (hst : m.state = .transfer) (without : m.joiner.capacity = 0)
    (safe : spares p m inc = true) {keys : Set SlotMapKey}
    (h : Housed m.notLocalInner.ackChannelId? (RecordedAs p m) keys m.contents) :
    Housed (m.fed inc.header).notLocalInner.ackChannelId? (RecordedAs p (m.fed inc.header)) keys
      (m.fed inc.header).contents := by
  refine h.onward hst (onward_fed hst inc.header).1 (fun _ _ _ _ _ _ _ => id)
    (fun key other metadata v recorded segment hv => ?_)
  rw [spares] at safe
  show (inc.header.joined m.joiner).part _ _ = _
  rw [PacketHeader.joined]
  cases hsegment : inc.header.segment with
  | none => exact hv
  | some own =>
    rw [hsegment] at safe
    dsimp only at safe ⊢
    rcases PacketSegmentJoiner.add_parts without own inc.header.payload with
      ⟨_, _, _, _, kept⟩ | ⟨last, _, _, kept⟩ | ⟨_, _, kept⟩
    · exact kept _ _ _ hv
    · rw [Bool.or_eq_true, decide_eq_true_eq] at safe
      obtain ⟨d, hlog, hread, _⟩ := recorded
      have apart := List.all_eq_true.mp (safe.resolve_left (fun other => other last)) _
        (List.mem_of_getElem? hlog)
      simp only [hread, segment, Option.map_some, ne_eq, Option.some.injEq,
        decide_eq_true_eq] at apart
      rw [kept _ _ apart]
      exact hv
    · rw [kept]
      exact hv

/-- A datagram without a key drops nothing that was recorded. -/
theorem keyless_message_drops_nothing {now : Nat} (rings : Rings m.orderers)
    (without : m.joiner.capacity = 0) (hst : m.state = .transfer) (h : NothingDropped p m)
    (hread : readPacket p d m = (.ok inc, m)) (keyless : inc.header.resendKey = none)
    (safe : spares p m inc = true) (hret : (handleMessage p now d m).1 ≠ .panic) :
    NothingDropped p (handleMessage p now d m).2 := by
  have hack : acknowledgeIfNeeded d inc.header.resendKey m = (.ok (), m) := by
    rw [keyless]
    rfl
  have stowed := joined_spares hst without safe (h hst)
  refine handle_message_received hread hack hret (fun _ _ => stowed)
    (fun order payload _ hret time _ => ?_)
  have hst' : (m.fed inc.header).state = .transfer := hst
  obtain ⟨hl, others⟩ := deliver_later hst' rings hret
  have onward : Onward (m.fed inc.header) { (deliver p inc.globalChannelId inc.channel order payload
      (m.fed inc.header)).2 with lastTimeReceivedPacket := time } :=
    ⟨hl.state, hl.notLocalInner, hl.log, hl.buffers⟩
  have unreliable : inc.channel.channel.isReliable = false := by
    rw [← (read_packet_resolved hread).2.2, keyless]
    rfl
  have result := stowed.onward hst' onward (fun key other l n v recorded on hv => ?_)
    (fun key other metadata v _ _ hv => ?_)
  · rw [hl.checker]
    exact result
  · have apart : l ≠ inc.channel.localId := by
      intro same
      have before : RecordedAs p m key other := recorded.onward hst' (onward_fed hst inc.header).2
      obtain ⟨_, same⟩ := (recorded_addresses hst hread key other before).2 (on.trans same)
      have reliable := (before.resolved hst).2
      rw [same, unreliable] at reliable
      cases reliable
    exact (others l apart n).trans hv
  · show (deliver _ _ _ _ _ _).2.joiner.part _ _ = _
    rw [hl.joiner]
    exact hv

theorem receive_whole {channel : Channel} {header : PacketHeader} (whole : header.segment = none) :
    receive channel header m = (.ok (some (header.order, header.payload)), m) := by
  simp [receive, whole]

theorem receive_kept {channel : Channel} {header : PacketHeader} {metadata : PacketSegmentMetadata}
    (segment : header.segment = some metadata)
    (keeps : (PacketSegmentJoiner.add metadata header.payload true m.joiner).1 = .ok none) :
    (receive channel header m).1 = .ok none := by
  rcases hadd : PacketSegmentJoiner.add metadata header.payload true m.joiner with ⟨full, joiner⟩
  rw [hadd] at keeps
  cases keeps
  simp [receive, segment, Act.bind_apply, addSegment, hadd, Outcome.mapErr]

/-- A segment that the joiner keeps is kept. -/
theorem joined_stows {packets : SlotMapKey → Receipt → Prop} {keys : Set SlotMapKey} {since : Nat}
    {metadata : PacketSegmentMetadata} (hst : m.state = .transfer) (without : m.joiner.capacity = 0)
    (segment : inc.header.segment = some metadata) (room : hasPlace m inc = true)
    (h : Housed m.notLocalInner.ackChannelId? packets keys m.contents) (fresh : key ∉ keys)
    (known : packets key ⟨inc, since⟩) :
    Housed m.notLocalInner.ackChannelId? packets (insert key keys)
      (m.fed inc.header).contents := by
  rw [hasPlace, segment] at room
  have more := of_decide_eq_true room
  obtain ⟨_, _, free, here, grows⟩ : _ ∧ _ ∧ _ ∧ _ ∧ _ := by
    rcases PacketSegmentJoiner.add_parts without metadata inc.header.payload with
      added | ⟨last, _⟩ | ⟨few, _⟩
    · exact added
    · omega
    · omega
  have fed : (m.fed inc.header).joiner =
      (PacketSegmentJoiner.add metadata inc.header.payload true m.joiner).2 := by
    rw [Endpoint.fed, PacketHeader.joined, segment]
  refine Stowed.add (s := .joined metadata.segmentKey metadata.segment) h fresh known
    ⟨metadata, segment, rfl, rfl⟩ free ?_
    (fun s v => (onward_fed hst inc.header).1.contents (fun _ _ _ => id) (fun k i _ hv => ?_))
  · show (m.fed inc.header).joiner.part _ _ = _
    rw [fed]
    exact here
  · rw [fed]
    exact grows k i _ hv

/-- A flush is refused only when the resender is full. -/
theorem flush_goes {id : U32} (hid : m.localInner.ackChannelId = id) (small : id.toNat < 2 ^ 31)
    (hc : m.Compact) (room : m.resender.packets.len ≠ m.resender.capacity)
    (hret : (ConnectionAcknowledgeBuffer.flush id m).1 ≠ .panic) :
    (ConnectionAcknowledgeBuffer.flush id m).1 = .ok () := by
  rw [flush_eq hid (fun _ => small) hc] at hret ⊢
  split at hret
  · split at hret
    · rfl
    · exact absurd rfl hret
  · rename_i e hadd
    exact absurd (PacketResender.add_err hadd) room
  · exact absurd rfl hret

/-- A new key that finds room is acknowledged. -/
theorem acknowledge_goes (hc : m.Compact)
    (small : ∀ id, m.localInner.ackChannelId? = some id → id.toNat < 2 ^ 31)
    (fresh : key ∉ m.resendKeyDuplicateChecker.set) (room : hasAckRoom m key = true)
    (hret : (acknowledgeIfNeeded d (some key) m).1 ≠ .panic) :
    (acknowledgeIfNeeded d (some key) m).1 = .ok () := by
  have hlocal : localAckChannelId (m.recording key d) =
      (Outcome.ofOption m.localInner.ackChannelId?, m.recording key d) := rfl
  rw [acknowledge_new fresh, Act.bind_apply, hlocal] at hret ⊢
  cases hid : m.localInner.ackChannelId? with
  | none =>
    rw [hid] at hret
    exact absurd rfl hret
  | some id =>
    rw [hid] at hret
    simp only [Outcome.ofOption, ConnectionAcknowledgeBuffer.acknowledge, Act.bind_apply,
      Act.get_apply] at hret ⊢
    by_cases hlen : ((m.recording key d).acknowledgeBuffer ++ key.encode).length >
        maxNonSegmentedPayloadLen
    · rw [if_pos hlen] at hret ⊢
      have long : ¬ (m.acknowledgeBuffer ++ key.encode).length ≤ maxNonSegmentedPayloadLen :=
        Nat.not_le_of_lt hlen
      rw [hasAckRoom, decide_eq_false long, Bool.false_or, decide_eq_true_eq] at room
      have goes := flush_goes (m := m.recording key d) (ack_channel_id hid) (small id hid) hc room
        (fun stops => hret (by rw [Act.bind_of_panic (Prod.ext stops rfl)]))
      rw [Act.bind_of_ok (Prod.ext goes rfl)]
      rfl
    · rw [if_neg hlen]
      rfl

/-- A datagram with a new key that is acknowledged and has a place drops nothing, and is not
dropped itself. -/
theorem new_message_drops_nothing {now : Nat} (hc : m.Compact) (rings : Rings m.orderers)
    (without : m.joiner.capacity = 0) (hst : m.state = .transfer) (h : NothingDropped p m)
    (hread : readPacket p d m = (.ok inc, m)) (hkey : inc.header.resendKey = some key)
    (small : ∀ id, m.localInner.ackChannelId? = some id → id.toNat < 2 ^ 31)
    (fresh : key ∉ m.resendKeyDuplicateChecker.set) (ackRoom : hasAckRoom m key = true)
    (room : hasPlace m inc = true) (hret : (handleMessage p now d m).1 ≠ .panic) :
    NothingDropped p (handleMessage p now d m).2 := by
  have acknowledged : (acknowledgeIfNeeded d (some key) m).1 = .ok () := by
    refine acknowledge_goes hc small fresh ackRoom (fun stops => hret ?_)
    rw [handleMessage, Act.bind_of_ok hread, hkey, Act.bind_of_panic (Prod.ext stops rfl)]
  rcases hack : acknowledgeIfNeeded d (some key) m with ⟨result, m1⟩
  rw [hack] at acknowledged
  cases acknowledged
  have hm : (readPacket p d m).2 = m := by rw [hread]
  have moves : ReflTransGen (Move (acknowledging p d)) m m1 := by
    have moves := acknowledge_acknowledging (hm.symm ▸ hc) (congrArg Prod.fst hread)
    rwa [hm, hkey, hack] at moves
  have same := same_receipts acknowledging_quiet moves
  have joiner : m1.joiner = m.joiner := same_joiner id moves
  have hst1 : m1.state = .transfer := same.state.trans hst
  have onward : Onward m m1 := .of_same same hst (log_grows moves)
  obtain ⟨hset, hrec⟩ := acknowledge_new_checker (d := d) hc fresh
  rw [hack] at hset hrec
  dsimp only at hset hrec
  have reads : (readPacket p d m1).1 = .ok inc := by
    rw [read_packet_same hst hst1 same.notLocalInner, hread]
  obtain ⟨since, hsince⟩ := List.getElem?_of_mem hrec
  have known : RecordedAs p m1 key ⟨inc, since⟩ := ⟨d, hsince, reads, hkey⟩
  have kept := (h hst).onward hst onward
    (fun _ _ _ _ _ _ _ hv => by rw [held_same same.orderers]; exact hv)
    (fun _ _ _ _ _ _ hv => by rw [joiner]; exact hv)
  have keys : { key | key ∈ m1.resendKeyDuplicateChecker.set } =
      insert key { key | key ∈ m.resendKeyDuplicateChecker.set } := by
    ext key'
    simp [hset]
  have place : hasPlace m1 inc = true := by
    rw [← room]
    simp only [hasPlace, joiner, hasRoom, same.state, same.orderers]
  have addresses : Addresses m1 inc.globalChannelId inc.channel (RecordedAs p m1) := by
    refine recorded_addresses hst1 (d := d) ?_
    exact Prod.ext reads (read_packet_transfer hst1)
  refine handle_message_received hread (hkey ▸ hack) hret (fun refused => ?_)
    (fun order payload received hret time => ?_)
  · -- The joiner keeps the segment.
    cases hsegment : inc.header.segment with
    | none => exact absurd (congrArg Prod.fst (receive_whole hsegment)) (refused _)
    | some metadata =>
      have added := joined_stows hst1 (joiner ▸ without) hsegment place kept fresh known
      rw [← keys] at added
      exact fun _ => Stowed.mono added
        (fun _ _ _ hinc => hinc.onward hst1 (onward_fed hst1 inc.header).1)
        (fun _ _ _ _ _ _ => id)
  · -- The packet is handed to its channel.
    cases hsegment : inc.header.segment with
    | some metadata =>
      rw [hasPlace, hsegment] at place
      have added := PacketSegmentJoiner.add_kept (joiner ▸ without) (of_decide_eq_true place)
        inc.header.payload
      rw [receive_kept hsegment added] at received
      cases received
    | none =>
      rw [receive_whole hsegment] at received
      cases received
      have fed : m1.fed inc.header = m1 := by
        rw [Endpoint.fed, PacketHeader.joined, hsegment]
      rw [fed] at hret ⊢
      have rings1 : Rings m1.orderers := same.orderers ▸ rings
      obtain ⟨hl, _⟩ := deliver_later hst1 rings1 hret
      have delivered := deliver_stows hst1 rings1 hret hsegment place kept addresses fresh known
      rw [← keys, ← hl.checker, ← hl.notLocalInner] at delivered
      exact fun _ => Stowed.mono delivered
        (fun _ _ _ hinc => hinc.onward hst1 ⟨hl.state, hl.notLocalInner, hl.log, hl.buffers⟩)
        (fun _ _ _ _ _ _ => id)

/-- A call that receives nothing drops nothing. -/
theorem NothingDropped.same (h : NothingDropped p m) (same : SameReceipts m m')
    (checker : m'.resendKeyDuplicateChecker = m.resendKeyDuplicateChecker)
    (joiner : m'.joiner = m.joiner) (hlog : m.log <+: m'.log) : NothingDropped p m' := by
  intro hst
  have hst0 : m.state = .transfer := same.state ▸ hst
  rw [checker]
  exact (h hst0).onward hst0 (.of_same same hst0 hlog)
    (fun _ _ _ _ _ _ _ hv => by rw [held_same same.orderers]; exact hv)
    (fun _ _ _ _ _ _ hv => by rw [joiner]; exact hv)

theorem NothingDropped.of_empty
    (h : m.state = .transfer → m.resendKeyDuplicateChecker.set = []) : NothingDropped p m := by
  intro hst
  have none : { key | key ∈ m.resendKeyDuplicateChecker.set } = ∅ := by
    rw [h hst]
    simp
  rw [none]
  exact Stowed.empty

theorem NothingDropped.read (h : NothingDropped p m) : NothingDropped p (readPacket p d m).2 := by
  cases hd : PrimaryPacketMetadata.decode d with
  | err e =>
    rw [(read_packet_undecoded (by simp [hd])).1]
    exact h
  | panic =>
    rw [(read_packet_undecoded (by simp [hd])).1]
    exact h
  | ok r =>
    obtain ⟨m', ⟨_, rfl⟩ | ⟨_, rfl⟩, hr⟩ : ∃ m', _ ∧ readPacket p d m = _ :=
      read_packet_decoded hd
    · rw [hr]
      exact .of_empty (fun _ => rfl)
    · rw [hr]
      exact h

/-- A datagram of the transfer stage that can be stored drops nothing. -/
theorem transfer_message_drops_nothing {now : Nat} (hc : m.Compact) (rings : Rings m.orderers)
    (without : m.joiner.capacity = 0)
    (small : ∀ id, m.localInner.ackChannelId? = some id → id.toNat < 2 ^ 31)
    (hst : m.state = .transfer) (h : NothingDropped p m)
    (hread : readPacket p d m = (.ok inc, m)) (safe : storable p m d = true)
    (hret : (handleMessage p now d m).1 ≠ .panic) :
    NothingDropped p (handleMessage p now d m).2 := by
  rw [storable, hread] at safe
  cases hkey : inc.header.resendKey with
  | none =>
    simp only [hst, hkey] at safe
    exact keyless_message_drops_nothing rings without hst h hread hkey safe hret
  | some key =>
    simp only [hst, hkey, Bool.or_eq_true, Bool.and_eq_true, decide_eq_true_eq] at safe
    by_cases known : key ∈ m.resendKeyDuplicateChecker.set
    · rw [handle_message_duplicate hread hkey known]
      exact h
    · obtain known' | ⟨ackRoom, room⟩ := safe
      · exact absurd known' known
      · exact new_message_drops_nothing hc rings without hst h hread hkey small known ackRoom room
          hret

/-- A datagram that can be stored drops nothing. -/
theorem handle_message_drops_nothing {now : Nat} (hc : m.Compact) (rings : Rings m.orderers)
    (without : m.joiner.capacity = 0)
    (small : ∀ id, m.localInner.ackChannelId? = some id → id.toNat < 2 ^ 31)
    (h : NothingDropped p m) (safe : storable p m d = true)
    (hret : (handleMessage p now d m).1 ≠ .panic) :
    NothingDropped p (handleMessage p now d m).2 := by
  have h0 : NothingDropped p (readPacket p d m).2 := h.read
  have hc0 : (readPacket p d m).2.Compact := read_packet_compact hc
  have rings0 : Rings (readPacket p d m).2.orderers := by
    rw [show (readPacket p d m).2.orderers = m.orderers from
      same_orderers (s := handlingOnly) id (read_packet_moves trivial m)]
    exact rings
  have without0 : (readPacket p d m).2.joiner.capacity = 0 := by
    rw [show (readPacket p d m).2.joiner = m.joiner from
      same_joiner (s := handlingOnly) id (read_packet_moves trivial m)]
    exact without
  have small0 : ∀ id, (readPacket p d m).2.localInner.ackChannelId? = some id →
      id.toNat < 2 ^ 31 := by
    rw [show (readPacket p d m).2.localInner = m.localInner from
      ((read_packet_follows steady_tolerant p d).holds m).localInner]
    exact small
  rcases hread : readPacket p d m with ⟨r, m0⟩
  rw [hread] at h0 hc0 rings0 without0 small0
  cases r with
  | err e =>
    rw [handleMessage, Act.bind_of_err hread]
    exact h0
  | panic =>
    rw [handleMessage, Act.bind_of_panic hread]
    exact h0
  | ok inc =>
    have hagain := read_packet_again hread
    have hsame : handleMessage p now d m = handleMessage p now d m0 := by
      rw [handleMessage, Act.bind_of_ok hread, Act.bind_of_ok hagain]
    rw [hsame] at hret ⊢
    by_cases hst : m0.state = .transfer
    · refine transfer_message_drops_nothing hc0 rings0 without0 small0 hst h0 hagain ?_ hret
      unfold storable at safe ⊢
      rw [hread] at safe
      rw [hagain]
      exact safe
    · have hm0 : (readPacket p d m0).2 = m0 := by rw [hagain]
      have hack : ReflTransGen (Move (acknowledging p d)) m0
          (acknowledgeIfNeeded d inc.header.resendKey m0).2 := by
        have hmoves := acknowledge_acknowledging (hm0.symm ▸ hc0) (congrArg Prod.fst hagain)
        rwa [hm0] at hmoves
      have hstate := (same_receipts acknowledging_quiet hack).state
      rcases handle_message_cases p now d m0 with ⟨r, m', hr, hno, _, _⟩ | ⟨inc', hinc', hrest⟩
      · rw [hagain] at hr
        cases hr
        exact absurd rfl (hno inc)
      rw [hagain, Outcome.ok.injEq] at hinc'
      subst hinc'
      simp only [hm0] at hrest
      rcases hrest with ⟨_, he⟩ | ⟨_, ⟨_, joiner, he⟩ | ⟨order, payload, m', hreach, he⟩⟩
      · rw [he]
        exact fun htr => absurd (hstate ▸ htr) hst
      · rw [he]
        exact fun htr => absurd (hstate ▸ htr) hst
      · have hprep := (hreach.prepared (hm0.symm ▸ hc0)).1
        rw [hm0] at hprep
        obtain ⟨_, time, hend⟩ := touch_ends
          (deliver p inc.globalChannelId inc.channel order payload) m' now
        have hempty := emptied (fun _ _ _ => id) (deliver_delivering p inc.globalChannelId
          inc.channel order payload m') (fun htr => absurd (hprep.state ▸ htr) hst)
        rw [he, hend]
        exact .of_empty hempty

/-- The joiner of a connection has no capacity. -/
theorem Reachable.joiner_capacity (h : Reachable p m) : m.joiner.capacity = 0 := by
  obtain ⟨segments, hfed⟩ := h.fed
  rw [hfed, PacketSegmentJoiner.feed_all_capacity]
  rfl

end

section
variable {P Q : Registry} {guard guard' : Endpoint → Input → Bool} {s : Peer × Peer}

/-- A call of a connection whose datagrams can be stored drops nothing. -/
theorem perform_drops_nothing {m : Endpoint} {input : Input} (hm : Reachable Q.provider m)
    (h : NothingDropped Q.provider m)
    (safe : ∀ now d, input = .read now d → storable Q.provider m d = true)
    (hret : (perform Q.provider input m).1 ≠ .panic) :
    NothingDropped Q.provider (perform Q.provider input m).2 := by
  have hc := hm.passed.compact
  cases input with
  | read now d =>
    exact handle_message_drops_nothing hc hm.rings hm.joiner_capacity
      (fun _ hid => (ack_id_small hm.counted.entered hid).2) h (safe now d rfl) hret
  | tick delta =>
    have hmoves : ReflTransGen (Move flushing) m (updateConnection delta m).2 :=
      update_connection_moves hc (fun _ => ⟨rfl, rfl⟩)
    exact h.same (same_receipts flushing_quiet hmoves) (same_checker (fun _ _ _ => id) id hmoves)
      (same_joiner id hmoves) (log_grows hmoves)
  | send channel payload =>
    obtain ⟨same, checker, hlog⟩ := send_event_quiet Q.provider channel payload m
    exact h.same same checker send_event_joiner hlog

/-- A side that can store all that it reads drops nothing. -/
theorem connected_drops_nothing
    (stores : ∀ m now d, guard' m (.read now d) = true → storable Q.provider m d = true)
    (h : Connected P Q guard guard' s) (live : s.2.stage = .live) :
    NothingDropped Q.provider s.2.endpoint := by
  have kept : True ∧ Standing Q s.2 ∧
      (s.2.stage = .live → NothingDropped Q.provider s.2.endpoint) := by
    refine @Party.side_invariant _ _ _ _ (fun _ => True)
      (fun b => Standing Q b ∧ (b.stage = .live → NothingDropped Q.provider b.endpoint))
      (fun _ _ _ _ _ => trivial) (fun a b b' step ⟨hb, drops⟩ => ⟨hb.step step, fun live => ?_⟩) _ _
      h ⟨trivial, .closed, fun live => by cases live⟩
    have called {input : Input} (hcall : b.call Q.provider input = some b')
        (safe : ∀ now d, input = .read now d → storable Q.provider b.endpoint d = true) :
        NothingDropped Q.provider b'.endpoint := by
      obtain ⟨before, hend, ⟨_, hret⟩ | ⟨gone, _⟩⟩ := Peer.call_live hcall
      · rw [hend]
        exact perform_drops_nothing (hb.reachable before).1 (drops before) safe hret
      · rw [gone] at live
        cases live
    cases step with
    | act acts =>
      cases acts with
      | establish now made =>
        refine .of_empty (fun hst => absurd hst ?_)
        rw [Peer.establish_ends made]
        exact initialize_registers Q.provider now
      | tick delta _ hcall => exact called hcall (fun _ _ he => by cases he)
      | send channel payload _ _ hcall => exact called hcall (fun _ _ he => by cases he)
    | read datagram _ reads =>
      obtain ⟨now, allowed, hcall⟩ := reads
      refine called hcall (fun _ _ he => ?_)
      cases he
      exact stores _ _ _ allowed
  exact kept.2.2 live

/-- What a side has released outside the registration, the other one knows by its key. -/
theorem connected_released_known (framed : Framed P Q) (framed' : Framed Q P)
    (h : Connected P Q P.abstains Q.abstains s) (fits : s.1.endpoint.resender.packets.Fits)
    (live : s.2.stage = .live) {key : SlotMapKey} {d rest : Bytes}
    {primary : PrimaryPacketMetadata} (released : .released key d ∈ s.1.endpoint.log)
    (decoded : PrimaryPacketMetadata.decode d = .ok (primary, rest))
    (message : ConnectionIdMapperInner.registrationId primary.channelId = none) :
    key ∈ s.2.endpoint.resendKeyDuplicateChecker.set ∧
      ∀ d', .recorded key d' ∈ s.2.endpoint.log → d' = d := by
  obtain ⟨_, recorded, only⟩ := connected_released framed framed' h fits released
  refine ⟨?_, only⟩
  have reachable := ((connected_standing h).2.reachable live).1
  obtain ⟨primary', _, decoded', ⟨registration, _⟩ | ⟨_, known, _⟩⟩ :=
    reachable.passed.all_stale key d recorded
  · rw [decoded, Outcome.ok.injEq, Prod.mk.injEq] at decoded'
    exact absurd message (decoded'.1 ▸ registration)
  · exact known

/-- In every run in which what the right side reads can be stored, each key that it has recorded
has a place of its own with the payload of its packet. And when the two sides read their packets
alike and the applications keep to their own channels, whatever the left side has let go of because
of an acknowledgement is there. -/
theorem storing_run_drops_nothing
    (stores : ∀ m now d, guard' m (.read now d) = true → storable Q.provider m d = true)
    (h : Connected P Q guard guard' s) (live : s.2.stage = .live)
    (transfer : s.2.endpoint.state = .transfer) :
    ∃ place : SlotMapKey → Holder,
      Stows (Holder.takes s.2.endpoint.notLocalInner.ackChannelId?)
        (fun r => r.incoming.header.payload) (RecordedAs Q.provider s.2.endpoint)
        { key | key ∈ s.2.endpoint.resendKeyDuplicateChecker.set } s.2.endpoint.contents place ∧
      (Framed P Q → Framed Q P → (∀ m input, guard m input = true → P.abstains m input = true) →
        (∀ m input, guard' m input = true → Q.abstains m input = true) →
        s.1.endpoint.resender.packets.Fits →
        ∀ key d primary rest, .released key d ∈ s.1.endpoint.log →
          PrimaryPacketMetadata.decode d = .ok (primary, rest) →
          ConnectionIdMapperInner.registrationId primary.channelId = none →
          key ∈ s.2.endpoint.resendKeyDuplicateChecker.set ∧
          ∃ r, s.2.endpoint.log[r.since]? = some (.recorded key d) ∧
            (readPacket Q.provider d s.2.endpoint).1 = .ok r.incoming ∧
            (place key).takes s.2.endpoint.notLocalInner.ackChannelId? r ∧
            s.2.endpoint.contents (place key) = some r.incoming.header.payload) := by
  obtain ⟨place, stows⟩ := connected_drops_nothing stores h live transfer
  refine ⟨place, stows, ?_⟩
  intro framed framed' abstains abstains' fits key d primary rest released decoded message
  obtain ⟨known, only⟩ := connected_released_known framed framed'
    (connected_mono abstains abstains' h) fits live released decoded message
  obtain ⟨r, ⟨d', recorded, reads, _⟩, takes, there⟩ := stows.there key known
  obtain rfl := only d' (List.mem_of_getElem? recorded)
  exact ⟨known, r, recorded, reads, takes, there⟩

end

/-- An application that abstains, on a side that can store what it reads. -/
def Registry.stores (r : Registry) (m : Endpoint) : Input → Bool
  | .read _ d => storable r.provider m d
  | input => r.abstains m input

theorem Registry.stores_abstains (r : Registry) (m : Endpoint) (input : Input)
    (h : r.stores m input = true) : r.abstains m input = true := by
  cases input with
  | read now d => rfl
  | tick delta => exact h
  | send channel payload => exact h

/-- The nine messages arrive, the second one before the first one and twice; the right side
acknowledges them. -/
def keeping : Peer × Peer :=
  (exchangeAll chatRegistry chatRegistry chatRegistry.abstains chatRegistry.stores
    (nineSent ++ [6, 5, 6, 7, 8, 9, 10, 11, 12, 13].map (fun i => (.right, .read 3 i)) ++
      [(.right, .tick 1), (.left, .read 4 5)]) ({}, {})).getD ({}, {})

theorem keeping_connected : Connected chatRegistry chatRegistry chatRegistry.abstains
    chatRegistry.stores keeping := by
  have ran : exchangeAll chatRegistry chatRegistry chatRegistry.abstains chatRegistry.stores
      (nineSent ++ [6, 5, 6, 7, 8, 9, 10, 11, 12, 13].map (fun i => (.right, .read 3 i)) ++
        [(.right, .tick 1), (.left, .read 4 5)]) ({}, {}) ≠ none := by decide +kernel
  unfold keeping Connected
  exact exchange_all (Option.getD_of_ne_none ran _).symm

theorem storing_run_drops_nothing_keeping :
    (∃ d, .released ⟨8, 0⟩ d ∈ keeping.1.endpoint.log) ∧
    ∃ place : SlotMapKey → Holder,
      Stows (Holder.takes keeping.2.endpoint.notLocalInner.ackChannelId?)
        (fun r => r.incoming.header.payload) (RecordedAs chatRegistry.provider keeping.2.endpoint)
        { key | key ∈ keeping.2.endpoint.resendKeyDuplicateChecker.set } keeping.2.endpoint.contents
        place ∧
      ∀ key d primary rest, .released key d ∈ keeping.1.endpoint.log →
        PrimaryPacketMetadata.decode d = .ok (primary, rest) →
        ConnectionIdMapperInner.registrationId primary.channelId = none →
        key ∈ keeping.2.endpoint.resendKeyDuplicateChecker.set ∧
        ∃ r, keeping.2.endpoint.log[r.since]? = some (.recorded key d) ∧
          (readPacket chatRegistry.provider d keeping.2.endpoint).1 = .ok r.incoming ∧
          (place key).takes keeping.2.endpoint.notLocalInner.ackChannelId? r ∧
          keeping.2.endpoint.contents (place key) = some r.incoming.header.payload := by
  have live : keeping.2.stage = .live := by decide +kernel
  have transfer : keeping.2.endpoint.state = .transfer := by decide +kernel
  have fits : keeping.1.endpoint.resender.packets.Fits := by
    unfold SlotMap.Fits
    decide +kernel
  have released : .released ⟨8, 0⟩ ((chatting nineSent).1.endpoint.datagrams.getLastD []) ∈
      keeping.1.endpoint.log := by decide +kernel
  obtain ⟨place, stows, lets⟩ := storing_run_drops_nothing (fun _ _ _ h => h) keeping_connected live
    transfer
  exact ⟨⟨_, released⟩, place, stows, lets chat_framed chat_framed (fun _ _ h => h)
    chatRegistry.stores_abstains fits⟩

/-- The datagram of the last message. -/
def ninth : Bytes := (chatting nineSent).1.endpoint.datagrams.getLastD []

/-- The right peer reads the last message first and acknowledges it. -/
def overtaken : Peer × Peer :=
  chatting (nineSent ++ [(.right, .read 3 13), (.right, .tick 1), (.left, .read 4 5)])

theorem overtaken_connected : Connected chatRegistry chatRegistry anyInput anyInput overtaken := by
  have ran : exchangeAll chatRegistry chatRegistry anyInput anyInput
      (nineSent ++ [(.right, .read 3 13), (.right, .tick 1), (.left, .read 4 5)]) ({}, {}) ≠
        none := by decide +kernel
  unfold overtaken chatting Connected
  exact exchange_all (Option.getD_of_ne_none ran _).symm

/-- The right peer has recorded the key of the last message for no other datagram. -/
theorem overtaken_recorded {d : Bytes} (h : .recorded ⟨8, 0⟩ d ∈ overtaken.2.endpoint.log) :
    d = ninth := by
  have only : overtaken.2.endpoint.log.filter (fun e => match e with
      | .recorded key _ => key = ⟨8, 0⟩
      | _ => false) = [.recorded ⟨8, 0⟩ ninth] := by decide +kernel
  have hmem : .recorded ⟨8, 0⟩ d ∈ overtaken.2.endpoint.log.filter (fun e => match e with
      | .recorded key _ => key = ⟨8, 0⟩
      | _ => false) := List.mem_filter.mpr ⟨h, by simp⟩
  rw [only, List.mem_singleton] at hmem
  exact (Event.recorded.inj hmem).2

/-- The last message is refused by its orderer after its key was recorded, and the left peer is
told to let go of it. -/
theorem overtaking_message_dropped :
    Connected chatRegistry chatRegistry anyInput anyInput overtaken ∧
      overtaken.1.endpoint.state = .transfer ∧ overtaken.2.endpoint.state = .transfer ∧
      .released ⟨8, 0⟩ ninth ∈ overtaken.1.endpoint.log ∧
      ¬ NothingDropped chatRegistry.provider overtaken.2.endpoint := by
  have transfer : overtaken.2.endpoint.state = .transfer := by decide +kernel
  have known : ⟨8, 0⟩ ∈ overtaken.2.endpoint.resendKeyDuplicateChecker.set := by decide +kernel
  have read : (readPacket chatRegistry.provider ninth overtaken.2.endpoint).1 =
      .ok ⟨2, talk, ⟨none, some 8, some ⟨8, 0⟩, [8]⟩⟩ := by decide +kernel
  refine ⟨overtaken_connected, by decide +kernel, transfer, by decide +kernel, fun h => ?_⟩
  obtain ⟨place, _, there⟩ := h transfer
  obtain ⟨⟨inc, since⟩, ⟨d, recorded, reads, _⟩, takes, full⟩ := there ⟨8, 0⟩ known
  rw [overtaken_recorded (List.mem_of_getElem? recorded), read, Outcome.ok.injEq] at reads
  subst reads
  cases hplace : place ⟨8, 0⟩ with
  | buffered g i =>
    rw [hplace] at takes full
    obtain ⟨_, _, hg⟩ := takes
    have empty : overtaken.2.endpoint.buffers.get 2 = some [] := by decide +kernel
    have vacant : overtaken.2.endpoint.contents (.buffered 2 i) = none := by
      rw [Endpoint.contents, Endpoint.contentsWith, empty, Option.bind_some, List.getElem?_nil]
    rw [← hg] at full
    exact absurd (vacant.symm.trans full) (by simp)
  | consumed i =>
    rw [hplace] at takes
    have other : overtaken.2.endpoint.notLocalInner.ackChannelId? ≠ some talk.localId := by
      decide +kernel
    exact other takes.2.1
  | ordered l n =>
    rw [hplace] at takes full
    obtain ⟨_, rfl, _⟩ := takes
    have lost : overtaken.2.endpoint.orderers.read (.basic talk.localId.toNat) = some none := by
      decide +kernel
    simp [Endpoint.contents, Endpoint.contentsWith, Endpoint.held, lost] at full
  | joined k i =>
    rw [hplace] at takes
    obtain ⟨_, segment, _⟩ := takes
    cases segment

end Theta
