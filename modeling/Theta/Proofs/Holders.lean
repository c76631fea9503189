import Theta.Lib.Stowage
import Theta.Proofs.Crowding

namespace Theta
open Lib Relation

/-- A place where the payload of a packet can be. -/
inductive Holder where
  | buffered (globalId : U32) (index : Nat)
  | consumed (index : Nat)
  | ordered (localId : U32) (order : Nat)
  | joined (segmentKey : U32) (segment : Nat)
  deriving DecidableEq, Repr

instance : Inhabited Holder := ⟨.consumed 0⟩

/-- A packet whose key was recorded, with the place of the record in the log. -/
structure Receipt where
  incoming : Incoming
  since : Nat

/-- The place is one for this packet: the buffer of its channel, an acknowledgement consumed since
then, its order on its channel, or its number among the segments of its message. -/
def Holder.takes (acks : Option U32) : Holder → Receipt → Prop
  | .buffered globalId _, ⟨inc, _⟩ => inc.header.segment = none ∧
      acks ≠ some inc.channel.localId ∧ inc.globalChannelId = globalId
  | .consumed index, ⟨inc, since⟩ => inc.header.segment = none ∧
      acks = some inc.channel.localId ∧ since < index
  | .ordered localId order, ⟨inc, _⟩ => inc.header.segment = none ∧
      inc.channel.localId = localId ∧ ∃ n, inc.header.order = some n ∧ n.toNat = order
  | .joined segmentKey segment, ⟨inc, _⟩ => ∃ metadata, inc.header.segment = some metadata ∧
      metadata.segmentKey = segmentKey ∧ metadata.segment = segment

def Event.consumed? : Event → Option Bytes
  | .consumed packet => some packet
  | _ => none

/-- A segment that the joiner holds. -/
def PacketSegmentJoiner.part (j : PacketSegmentJoiner) (segmentKey : U32) (segment : Nat) :
    Option Bytes :=
  match j.getEntry segmentKey with
  | some entry => (entry.segments[segment]?).join
  | none => none

/-- How many segments the message of a segment still waits for, this one among them; none when the
place of the segment is not free. -/
def PacketSegmentJoiner.waiting (j : PacketSegmentJoiner) (metadata : PacketSegmentMetadata) :
    Nat :=
  let entry := (j.getEntry metadata.segmentKey).getD (emptyEntry metadata)
  if entry.segments.length = metadata.segmentCount ∧ entry.segments[metadata.segment]? = some none
  then entry.nonFilled
  else 0

namespace Endpoint

/-- A packet that the orderer of a channel of the transfer stage holds. -/
def held (m : Endpoint) (localId : U32) (order : Nat) : Option Bytes :=
  match m.orderers.read (.basic localId.toNat) with
  | some (some o) => o.view.held order
  | _ => none

/-- What is at each place when the orderers hold these packets. -/
def contentsWith (m : Endpoint) (held : U32 → Nat → Option Bytes) : Holder → Option Bytes
  | .buffered globalId index => (m.buffers.get globalId).bind fun buffer => buffer[index]?
  | .consumed index => (m.log[index]?).bind Event.consumed?
  | .ordered localId order => held localId order
  | .joined segmentKey segment => m.joiner.part segmentKey segment

def contents (m : Endpoint) : Holder → Option Bytes := m.contentsWith m.held

end Endpoint

/-- The key was recorded for a datagram that reads as a packet with this key. -/
def RecordedAs (p : ChannelProvider) (m : Endpoint) (key : SlotMapKey) (r : Receipt) : Prop :=
  ∃ d, m.log[r.since]? = some (.recorded key d) ∧ (readPacket p d m).1 = .ok r.incoming ∧
    r.incoming.header.resendKey = some key

/-- Each of these keys has a place of its own that holds the payload of one of its packets. -/
def Housed (acks : Option U32) (packets : SlotMapKey → Receipt → Prop) (keys : Set SlotMapKey)
    (contents : Holder → Option Bytes) : Prop :=
  Stowed (Holder.takes acks) (fun r => r.incoming.header.payload) packets keys contents

/-- In the transfer stage no recorded packet was thrown away: to each recorded key belongs a place
of its own, in a buffer, among the consumed acknowledgements, in an orderer or in the joiner, which
holds the payload of the packet. -/
def NothingDropped (p : ChannelProvider) (m : Endpoint) : Prop :=
  m.state = .transfer → Housed m.notLocalInner.ackChannelId? (RecordedAs p m)
    { key | key ∈ m.resendKeyDuplicateChecker.set } m.contents

namespace PacketSegmentJoiner
variable {j : PacketSegmentJoiner} {metadata : PacketSegmentMetadata} {payload : Bytes}

theorem part_set_entry (j : PacketSegmentJoiner) (key : U32) (entry : PacketSegments) (k : U32)
    (i : Nat) : (j.setEntry key entry).part k i =
      if k = key then (entry.segments[i]?).join else j.part k i := by
  unfold part
  by_cases same : k = key
  · subst same
    rw [get_set_entry, if_pos rfl]
  · rw [get_set_other _ _ same, if_neg same]

theorem part_remove_other {key k : U32} (other : k ≠ key) (i : Nat) :
    (j.removeEntry key).part k i = j.part k i := by
  rw [part, part, get_remove_other _ other]

/-- A joiner without capacity makes no room: the entry of a segment is found or made, and nothing
that the joiner holds gets lost. -/
theorem entry_parts (without : j.capacity = 0) (metadata : PacketSegmentMetadata) :
    ∃ segments j', j.entry metadata true = .ok (segments, j') ∧
      (j.getEntry metadata.segmentKey).getD (emptyEntry metadata) = segments ∧
      j'.getEntry metadata.segmentKey = some segments ∧ ∀ k i, j'.part k i = j.part k i := by
  rcases entry_cases j metadata true with ⟨segments, found, he⟩ | ⟨_, _, impossible, _⟩ |
    ⟨new, j', room, he⟩
  · exact ⟨segments, j, he, by rw [found, Option.getD_some], found, fun _ _ => rfl⟩
  · cases impossible
  · have same : j' = j := by
      rcases room with ⟨full, rfl⟩ | ⟨_, rfl⟩
      · have empty : j.map = [] := List.length_eq_zero_iff.mp (full.symm.trans without)
        obtain ⟨map, capacity⟩ := j
        cases empty
        rfl
      · rfl
    subst same
    refine ⟨_, _, he, by rw [new, Option.getD_none], get_set_entry _ _ _, fun k i => ?_⟩
    rw [part_set_entry]
    split
    · rename_i same
      rw [part, same, new]
      simp [emptyEntry, List.getElem?_replicate]
      split <;> rfl
    · rfl

/-- A segment is put into its entry, completes it, or is refused. -/
theorem fill_parts {segments : PacketSegments} (payload : Bytes)
    (found : j.getEntry metadata.segmentKey = some segments) :
    (1 < j.waiting metadata ∧ ∃ j', j.fill metadata payload segments = .ok (none, j') ∧
      j.part metadata.segmentKey metadata.segment = none ∧
      j'.part metadata.segmentKey metadata.segment = some payload ∧
      ∀ k i v, j.part k i = some v → j'.part k i = some v) ∨
    (j.waiting metadata = 1 ∧ ∃ full j', j.fill metadata payload segments = .ok (some full, j') ∧
      ∀ k i, k ≠ metadata.segmentKey → j'.part k i = j.part k i) ∨
    (j.waiting metadata ≤ 1 ∧ ∀ r, j.fill metadata payload segments ≠ .ok r) := by
  have here (i : Nat) : j.part metadata.segmentKey i = (segments.segments[i]?).join := by
    rw [part, found]
  have waits : j.waiting metadata = if segments.segments.length = metadata.segmentCount ∧
      segments.segments[metadata.segment]? = some none then segments.nonFilled else 0 := by
    rw [waiting, found, Option.getD_some]
  unfold fill
  split
  · rename_i other
    rw [waits, if_neg (fun fits => other fits.1.symm)]
    simp
  rename_i same
  cases hole : segments.segments[metadata.segment]? with
  | none => simp [waits, hole]
  | some found =>
    cases found with
    | some _ => simp [waits, hole]
    | none =>
      rw [if_pos ⟨(not_ne_iff.mp same).symm, hole⟩] at waits
      have hlt := (List.getElem?_eq_some_iff.mp hole).1
      dsimp only
      split
      · rename_i filled
        simp [waits, filled]
      · split
        · have last : segments.nonFilled = 1 := by omega
          cases (segments.segments.set metadata.segment (some payload)).mapM id with
          | none => simp [Outcome.ofOption, waits, last]
          | some full =>
            exact Or.inr (Or.inl ⟨waits.trans last, full, _, rfl,
              fun k i other => part_remove_other other i⟩)
        · refine Or.inl ⟨by omega, _, rfl, ?_, ?_, fun k i v hv => ?_⟩
          · rw [here, hole]
            rfl
          · rw [part_set_entry, if_pos rfl, List.getElem?_set_self hlt]
            rfl
          · rw [part_set_entry]
            split
            · rename_i hk
              rw [hk, here] at hv
              have other : metadata.segment ≠ i := by
                intro hi
                rw [← hi, hole] at hv
                cases hv
              rw [List.getElem?_set_ne other]
              exact hv
            · exact hv

/-- What an addition does to the segments that the joiner holds. -/
theorem add_parts (without : j.capacity = 0) (metadata : PacketSegmentMetadata) (payload : Bytes) :
    (1 < j.waiting metadata ∧ (add metadata payload true j).1 = .ok none ∧
      j.part metadata.segmentKey metadata.segment = none ∧
      (add metadata payload true j).2.part metadata.segmentKey metadata.segment = some payload ∧
      ∀ k i v, j.part k i = some v → (add metadata payload true j).2.part k i = some v) ∨
    (j.waiting metadata = 1 ∧ ∃ full, (add metadata payload true j).1 = .ok (some full) ∧
      ∀ k i, k ≠ metadata.segmentKey → (add metadata payload true j).2.part k i = j.part k i) ∨
    (j.waiting metadata ≤ 1 ∧ (∀ full, (add metadata payload true j).1 ≠ .ok full) ∧
      ∀ k i, (add metadata payload true j).2.part k i = j.part k i) := by
  obtain ⟨segments, j', he, made, found, same⟩ := entry_parts without metadata
  have waits : j'.waiting metadata = j.waiting metadata := by
    rw [waiting, waiting, found, made, Option.getD_some]
  rw [add_of_entry he, ← waits]
  rcases fill_parts payload found with ⟨more, j'', hfill, free, here, kept⟩ |
    ⟨last, full, j'', hfill, kept⟩ | ⟨none_left, refused⟩
  · rw [hfill]
    exact Or.inl ⟨more, rfl, (same _ _).symm.trans free, here,
      fun k i v hv => kept k i v ((same k i).trans hv)⟩
  · rw [hfill]
    exact Or.inr (Or.inl ⟨last, full, rfl, fun k i other => (kept k i other).trans (same k i)⟩)
  · right
    right
    refine ⟨none_left, ?_⟩
    cases hfill : j'.fill metadata payload segments with
    | ok r => exact absurd hfill (refused r)
    | err e => exact ⟨by simp, same⟩
    | panic => exact ⟨by simp, same⟩

/-- A segment that is not the last one its message waits for is kept. -/
theorem add_kept (without : j.capacity = 0) (more : 1 < j.waiting metadata) (payload : Bytes) :
    (add metadata payload true j).1 = .ok none := by
  rcases add_parts without metadata payload with ⟨_, kept, _⟩ | ⟨last, _⟩ | ⟨few, _⟩
  · exact kept
  · omega
  · omega

end PacketSegmentJoiner

/-- The order is in the window of the channel's orderer, and its place is free. -/
def hasRoom (m : Endpoint) (id order : U32) : Bool :=
  match (m.orderers.get m.state id : Outcome ConnectionError _) with
  | .ok (some o) => decide (o.distance order.toNat < o.capacity) && (o.view.held order.toNat).isNone
  | _ => true

section
variable {p : ChannelProvider} {globalId : U32} {channel : ConnectionChannel} {m m' : Endpoint}

theorem entry_stays {l l' : List α} (longer : l <+: l') {i : Nat} {x : α} (h : l[i]? = some x) :
    l'[i]? = some x := by
  obtain ⟨rest, rfl⟩ := longer
  rw [List.getElem?_append_left (List.getElem?_eq_some_iff.mp h).1]
  exact h

/-- Where nothing is taken away from the orderers and from the joiner, everything stays. -/
theorem Onward.contents (hl : Onward m m') {held held' : U32 → Nat → Option Bytes} {s : Holder}
    {v : Bytes} (ordered : ∀ l n, s = .ordered l n → held l n = some v → held' l n = some v)
    (joined : ∀ k i, s = .joined k i → m.joiner.part k i = some v → m'.joiner.part k i = some v)
    (h : m.contentsWith held s = some v) : m'.contentsWith held' s = some v := by
  cases s with
  | buffered g i =>
    obtain ⟨buffer, hb, hi⟩ := Option.bind_eq_some_iff.mp h
    obtain ⟨buffer', hb', hp⟩ := hl.buffers g buffer hb
    exact Option.bind_eq_some_iff.mpr ⟨buffer', hb', entry_stays hp hi⟩
  | consumed i =>
    obtain ⟨event, he, hv⟩ := Option.bind_eq_some_iff.mp h
    exact Option.bind_eq_some_iff.mpr ⟨event, entry_stays hl.log he, hv⟩
  | ordered l n => exact ordered l n rfl h
  | joined k i => exact joined k i rfl h

/-- In the transfer stage a packet that is handled gets a place of its own. -/
theorem handle_packet_stows {packet : Bytes} (hst : m.state = .transfer)
    (hret : (handlePacket p globalId channel packet m).1 ≠ .panic) :
    Later m (handlePacket p globalId channel packet m).2 ∧
    ∃ s : Holder, (∀ r : Receipt, r.incoming.header.segment = none →
        r.incoming.globalChannelId = globalId → r.incoming.channel = channel →
        r.since < m.log.length → s.takes m.notLocalInner.ackChannelId? r) ∧
      ∀ held, m.contentsWith held s = none ∧
        (handlePacket p globalId channel packet m).2.contentsWith held s = some packet := by
  have hmoves : ReflTransGen (Move handlingOnly) m (handlePacket p globalId channel packet m).2 :=
    handle_packet_moves trivial trivial (fun _ _ => trivial) (fun hne _ => absurd hst hne)
  refine ⟨later_of_moves hmoves hst, ?_⟩
  rw [handlePacket, Act.bind_apply] at hret ⊢
  simp only [Act.get_apply, hst] at hret ⊢
  split at hret
  · rename_i hack
    rw [if_pos hack]
    refine ⟨.consumed m.log.length, fun r whole _ hc before => ⟨whole, hc ▸ hack, before⟩,
      fun held => ⟨?_, ?_⟩⟩
    · simp [Endpoint.contentsWith]
    · have hgrow : ReflTransGen (Move handlingOnly)
          { m with log := m.log ++ [.consumed packet] }
          (acknowledgeLocally packet.length packet
            { m with log := m.log ++ [.consumed packet] }).2 :=
        acknowledge_locally_moves (fun _ _ => trivial) _
      refine (later_of_moves hgrow hst).contents (fun _ _ _ => id) (fun _ _ he => ?_) ?_
      · cases he
      · simp [Endpoint.contentsWith, Event.consumed?]
  · rename_i hack
    rw [if_neg hack]
    split at hret
    · exact absurd rfl hret
    · rename_i hmanagement
      rw [if_neg hmanagement]
      cases hb : m.buffers.get globalId with
      | none =>
        rw [hb] at hret
        exact absurd rfl hret
      | some buffer =>
        refine ⟨.buffered globalId buffer.length,
          fun r whole hg hc _ => ⟨whole, hc ▸ hack, hg⟩, fun held => ⟨?_, ?_⟩⟩
        · simp [Endpoint.contentsWith, hb]
        · simp [Endpoint.contentsWith, GlobalChannelData.get_modify, hb, Act.modify_apply]

/-- The packets were recorded, and those under the channel's local id are of this channel. -/
def Addresses (m : Endpoint) (globalId : U32) (channel : ConnectionChannel)
    (packets : SlotMapKey → Receipt → Prop) : Prop :=
  ∀ key r, packets key r → r.since < m.log.length ∧
    (r.incoming.channel.localId = channel.localId →
      r.incoming.globalChannelId = globalId ∧ r.incoming.channel = channel)

/-- While the ready packets are handled, each moves from the orderer to a place of its own. -/
theorem retain_stows (p : ChannelProvider) (packets : SlotMapKey → Receipt → Prop)
    (keys : Set SlotMapKey) (held : U32 → Nat → Option Bytes) {o : PacketOrderer} (hb : o.Bounded)
    (hst : m.state = .transfer) (addresses : Addresses m globalId channel packets)
    (h : Housed m.notLocalInner.ackChannelId? packets keys
      (m.contentsWith (Function.update held channel.localId o.view.held))) :
    ((o.retain (handlePacket p globalId channel) m).1 = .ok () →
      Later m (o.retain (handlePacket p globalId channel) m).2.2 ∧
      (o.retain (handlePacket p globalId channel) m).2.2.orderers = m.orderers ∧
      Housed m.notLocalInner.ackChannelId? packets keys
        ((o.retain (handlePacket p globalId channel) m).2.2.contentsWith (Function.update held
          channel.localId (o.retain (handlePacket p globalId channel) m).2.1.view.held))) ∧
    ((o.retain (handlePacket p globalId channel) m).1 ≠ .ok () →
      ∀ e, (o.retain (handlePacket p globalId channel) m).1 ≠ .err e) := by
  have ends := o.retain_ends (handlePacket p globalId channel)
    (I := fun o' t => (Later m t ∧ o'.Bounded) ∧ t.orderers = m.orderers ∧
      Housed m.notLocalInner.ackChannelId? packets keys
        (t.contentsWith (Function.update held channel.localId o'.view.held)))
    (K := fun r _ => ∀ e, r ≠ .err e) ?_ (fun _ _ _ => by simp) ⟨⟨.refl hst, hb⟩, rfl, h⟩
  · exact ⟨fun hok => ⟨(ends.1 hok).1.1, (ends.1 hok).2⟩, ends.2⟩
  rintro o' t y ⟨⟨hl, hb'⟩, ho, stowed⟩ hy
  refine ⟨fun hok => ?_, fun _ => handle_packet_ne_err (Or.inl hl.state)⟩
  obtain ⟨hb'', hview, hhead⟩ := hb'.advance hy
  obtain ⟨hnext, s, fits, place⟩ : Later t (handlePacket p globalId channel y t).2 ∧ ∃ s, _ ∧ _ :=
    handle_packet_stows hl.state (by rw [hok]; simp)
  have hsame : (handlePacket p globalId channel y t).2.orderers = t.orderers :=
    handle_packet_same_orderers (fun hne => absurd hl.state hne)
  refine ⟨⟨hl.trans hnext, hb''⟩, hsame.trans ho, ?_⟩
  refine stowed.shift (s := .ordered channel.localId o'.view.next) (place _).1 ?_
    (fun u v hu => hnext.contents (fun l n he hv => ?_) (fun k i _ hv => hnext.joiner ▸ hv))
    (fun key _ r known takes => ?_)
  · rw [(place _).2]
    simp only [Endpoint.contentsWith, Function.update_self, hhead]
  · by_cases same : l = channel.localId
    · subst same
      rw [Function.update_self] at hv ⊢
      rw [hview, Sequencer.held_advance_ne]
      · exact hv
      · rintro rfl
        exact hu he
    · rw [Function.update_of_ne same] at hv ⊢
      exact hv
  · obtain ⟨whole, there, _⟩ := takes
    obtain ⟨before, same⟩ := addresses key r known
    obtain ⟨hg, hc⟩ := same there
    rw [← hl.notLocalInner]
    exact fits r whole hg hc (Nat.lt_of_lt_of_le before hl.log.length_le)

/-- The orderers but one have stayed. -/
theorem held_update {localId : U32} {o : PacketOrderer}
    (others : ∀ place, m'.orderers.read place =
      if place = .basic localId.toNat then some (some o) else m.orderers.read place) :
    m'.held = Function.update m.held localId o.view.held := by
  funext l n
  rw [Endpoint.held, others]
  by_cases same : l = localId
  · rw [same, if_pos rfl, Function.update_self]
  · have other : Place.basic l.toNat ≠ .basic localId.toNat :=
      fun he => same (BitVec.eq_of_toNat_eq (Place.basic.inj he))
    rw [if_neg other, Function.update_of_ne same, Endpoint.held]

/-- Nothing but the orderers changes while the orderer of a channel is out of its slot. -/
theorem later_orderers (hst : m.state = .transfer)
    (orderers : ChannelData (Option PacketOrderer)) : Later m { m with orderers := orderers } :=
  ⟨⟨hst, rfl, List.prefix_refl _, fun _ b hb => ⟨b, hb, List.prefix_refl _⟩⟩, rfl, rfl⟩

/-- A packet that is pushed to a free place of the orderer is kept there. -/
theorem push_stows {order : U32} {o o' : PacketOrderer} {packets : SlotMapKey → Receipt → Prop}
    {keys : Set SlotMapKey} {new : SlotMapKey} {r : Receipt} (hst : m.state = .transfer)
    (slot : m.orderers.read (.basic channel.localId.toNat) = some (some o))
    (view : o'.view = o.view.accept order.toNat r.incoming.header.payload)
    (room : o.view.held order.toNat = none)
    (kept : Housed m.notLocalInner.ackChannelId? packets keys m.contents) (fresh : new ∉ keys)
    (known : packets new r) (on : r.incoming.channel = channel)
    (whole : r.incoming.header.segment = none) (numbered : r.incoming.header.order = some order)
    (orderers : ChannelData (Option PacketOrderer)) :
    Housed m.notLocalInner.ackChannelId? packets (insert new keys)
      (({ m with orderers := orderers } : Endpoint).contentsWith
        (Function.update m.held channel.localId o'.view.held)) := by
  have here : m.held channel.localId = o.view.held := by
    funext n
    rw [Endpoint.held, slot]
  have free : m.held channel.localId order.toNat = none := by
    rw [here]
    exact room
  refine Stowed.add (s := .ordered channel.localId order.toNat) kept fresh known
    ⟨whole, congrArg _ on, order, numbered, rfl⟩ free ?_
    (fun s v => (later_orderers hst orderers).contents (fun l n _ hv => ?_) (fun _ _ _ => id))
  · simp only [Endpoint.contentsWith, Function.update_self, view, Sequencer.held_accept]
  · by_cases hl : l = channel.localId
    · subst hl
      have other : n ≠ order.toNat := by
        rintro rfl
        rw [free] at hv
        cases hv
      rw [Function.update_self, view, Sequencer.held_accept_ne other, ← here]
      exact hv
    · rwa [Function.update_of_ne hl]

/-- Handing an ordered packet to its channel leaves the other orderers alone; when there is room for
it, nothing that was kept is thrown away, and the packet is kept too. -/
theorem deliver_ordered_stows {order : U32} {payload : Bytes} (hst : m.state = .transfer)
    (rings : Rings m.orderers)
    (hret : (deliver p globalId channel (some order) payload m).1 ≠ .panic) :
    Later m (deliver p globalId channel (some order) payload m).2 ∧
    (∀ place, place ≠ .basic channel.localId.toNat →
      (deliver p globalId channel (some order) payload m).2.orderers.read place =
        m.orderers.read place) ∧
    ∀ (packets : SlotMapKey → Receipt → Prop) (keys : Set SlotMapKey) (new : SlotMapKey)
      (r : Receipt), Housed m.notLocalInner.ackChannelId? packets keys m.contents →
      Addresses m globalId channel packets → hasRoom m channel.localId order = true → new ∉ keys →
      packets new r → r.incoming.channel = channel → r.incoming.header.segment = none →
      r.incoming.header.order = some order → r.incoming.header.payload = payload →
      Housed m.notLocalInner.ackChannelId? packets (insert new keys)
        (deliver p globalId channel (some order) payload m).2.contents := by
  have hplace : placeOf m.state channel.localId = some (.basic channel.localId.toNat) := by
    rw [hst]
    rfl
  have taken {orderers : ChannelData (Option PacketOrderer)}
      (take : (m.orderers.write m.state channel.localId none : Outcome ConnectionError _) =
        .ok orderers) (place : Place) : orderers.read place =
          if place = .basic channel.localId.toNat then some none else m.orderers.read place := by
    obtain ⟨place', hp, _, hread⟩ := ChannelData.write_ok take
    rw [hplace, Option.some.injEq] at hp
    rw [hread, hp]
  have room {o : PacketOrderer}
      (slot : (m.orderers.get m.state channel.localId : Outcome ConnectionError _) = .ok (some o))
      (hroom : hasRoom m channel.localId order = true) :
      o.distance order.toNat < o.capacity ∧ o.view.held order.toNat = none := by
    simpa [hasRoom, slot, Bool.and_eq_true, decide_eq_true_eq, Option.isNone_iff_eq_none]
      using hroom
  have hdel := deliver_delivery p globalId channel order payload m
  rcases hd : deliver p globalId channel (some order) payload m with ⟨r, m'⟩
  rw [hd] at hdel hret
  have bounded {o o' : PacketOrderer}
      (slot : (m.orderers.get m.state channel.localId : Outcome ConnectionError _) = .ok (some o))
      (push : o.push order.toNat payload = .ok o') :
      m.orderers.read (.basic channel.localId.toNat) = some (some o) ∧ o'.Bounded ∧
        o'.view = o.view.accept order.toNat payload := by
    obtain ⟨place, hp, hread⟩ := ChannelData.get_ok.mp slot
    rw [hplace, Option.some.injEq] at hp
    subst hp
    obtain ⟨hb, _, hview⟩ := (rings _ o hread).push push
    exact ⟨hread, hb, hview⟩
  cases hdel with
  | missing => exact absurd rfl hret
  | absent => exact absurd rfl hret
  | overgrown => exact absurd rfl hret
  | dropped => exact absurd rfl hret
  | refused o orderers e slot take push =>
    refine ⟨later_orderers hst orderers, fun place hne => by rw [taken take, if_neg hne],
      fun _ _ _ _ _ _ hroom => ?_⟩
    exact absurd push (PacketOrderer.push_ne_err (room slot hroom).1 e)
  | stopped o o' orderers slot take push failed =>
    have hne := (retain_stows p (fun _ _ => False) ∅ m.held (m := { m with orderers := orderers })
      (bounded slot push).2.1 hst (fun _ _ he => he.elim) Stowed.empty).2 failed
    cases hr : (o'.retain (handlePacket p globalId channel) { m with orderers := orderers }).1 with
    | ok _ => exact absurd hr failed
    | err e => exact absurd hr (hne e)
    | panic => exact absurd hr hret
  | done o o' o'' orderers orderers' t slot take push handled back =>
    obtain ⟨hread, hb, hview⟩ := bounded slot push
    obtain ⟨hl, ho, _⟩ := (retain_stows p (fun _ _ => False) ∅ m.held
      (m := { m with orderers := orderers }) hb hst (fun _ _ he => he.elim) Stowed.empty).1
      (by rw [handled])
    rw [handled] at hl ho
    dsimp only at hl ho
    have hback : ∀ place, orderers'.read place =
        if place = .basic channel.localId.toNat then some (some o'')
        else m.orderers.read place := by
      obtain ⟨place', hp, _, hread⟩ := ChannelData.write_ok back
      rw [hplace, Option.some.injEq] at hp
      subst hp
      intro place
      rw [hread]
      by_cases hp : place = .basic channel.localId.toNat
      · rw [if_pos hp, if_pos hp]
      · rw [if_neg hp, if_neg hp, ho, taken take, if_neg hp]
    refine ⟨⟨⟨hl.state, hl.notLocalInner, hl.log, hl.buffers⟩, hl.checker, hl.joiner⟩,
      fun place hne => by rw [hback, if_neg hne], ?_⟩
    intro packets keys new r kept addresses hroom fresh known on whole numbered same
    subst same
    have pushed := push_stows hst hread hview (room slot hroom).2 kept fresh known on whole
      numbered orderers
    obtain ⟨_, _, stowed⟩ := (retain_stows p packets _ m.held
      (m := { m with orderers := orderers }) hb hst addresses pushed).1 (by rw [handled])
    rw [handled] at stowed
    have settled : ({ t with orderers := orderers' } : Endpoint).held =
        Function.update m.held channel.localId o''.view.held := held_update hback
    rw [Endpoint.contents, settled]
    exact stowed

end

end Theta
