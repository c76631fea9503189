import Theta.Proofs.Atomicity
import Theta.Proofs.Mapping

namespace Theta
open Lib

/-- The resend key of a connection's packet number `i`, as long as it has only added packets. -/
def firstKey (i : Nat) : SlotMapKey := ⟨BitVec.ofNat 32 i, 0⟩

/-- The registration packet at one place of the announcements, as it is sent. -/
def registrationDatagram (i : Nat) (payload : Bytes) : Bytes :=
  Packet.bytes { registrationPacket i payload with resendKey := some (firstKey i) }

def registrationSlot (i : Nat) (payload : Bytes) : Option ReliableBufferedPacket :=
  some (ReliableBufferedPacket.new (registrationDatagram i payload) 100 (-1))

def registrationEvents (i : Nat) (payload : Bytes) : List Event :=
  [.issued (firstKey i) (registrationDatagram i payload), .sent (registrationDatagram i payload)]

/-- The resender that holds the first registration packets. -/
def openingResender (channels : List (String × U32)) (capacity k : Nat) : PacketResender where
  packets := {
    values := ((announcements channels).take k).mapIdx registrationSlot
    generations := List.replicate k 0
    freeSlots := [] }
  capacity := capacity

/-- The buffers of the first channels. -/
def emptyBuffers (channels : List (String × U32)) : GlobalChannelData (List Bytes) :=
  channels.foldl (fun buffers entry => buffers.insert entry.2 []) {}

/-- A connection that has sent the first `k` registration packets. -/
def opening (channels : List (String × U32)) (now capacity k : Nat)
    (mapper : ConnectionIdMapperInner) : Endpoint where
  localInner := mapper
  resender := openingResender channels capacity k
  orders := ⟨(channels.take k).map (fun _ => 0), 0, BitVec.ofNat 32 k⟩
  buffers := emptyBuffers (channels.take k)
  lastTimeReceivedPacket := now
  log := (((announcements channels).take k).mapIdx registrationEvents).flatten

section
variable {channels : List (String × U32)} {now capacity i : Nat}
  {mapper : ConnectionIdMapperInner} {payload : Bytes}

theorem announcements_length : (announcements channels).length = channels.length + 1 := by
  simp [announcements]

theorem take_next {f : Nat → Bytes → β} (h : (announcements channels)[i]? = some payload) :
    ((announcements channels).take (i + 1)).mapIdx f =
      ((announcements channels).take i).mapIdx f ++ [f i payload] := by
  have hlt := (List.getElem?_eq_some_iff.mp h).1
  rw [List.take_add_one, h, Option.toList_some, List.mapIdx_concat, List.length_take,
    Nat.min_eq_left (Nat.le_of_lt hlt)]

/-- So far an opening has issued and sent registration packets, and nothing else. -/
theorem opening_events {k : Nat} {event : Event}
    (h : event ∈ (opening channels now capacity k mapper).log) :
    ∃ i payload, i < k ∧ (announcements channels)[i]? = some payload ∧
      (event = .issued (firstKey i) (registrationDatagram i payload) ∨
        event = .sent (registrationDatagram i payload)) := by
  simp only [opening, List.mem_flatten] at h
  obtain ⟨events, hevents, h⟩ := h
  obtain ⟨i, hi, rfl⟩ := List.mem_mapIdx.mp hevents
  have hlen := hi
  rw [List.length_take] at hlen
  rw [List.getElem_take] at h
  exact ⟨i, _, by omega, List.getElem?_eq_getElem _, by simpa [registrationEvents] using h⟩

theorem opening_slots (capacity : Nat) (h : (announcements channels)[i]? = some payload) :
    (openingResender channels capacity i).packets.values.length = i := by
  have hlt := (List.getElem?_eq_some_iff.mp h).1
  simp [openingResender, Nat.min_eq_left (Nat.le_of_lt hlt)]

theorem opening_full (h : (announcements channels)[i]? = some payload) (full : i = capacity)
    (func : SlotMapKey → ReliableBufferedPacket) :
    (openingResender channels capacity i).add func = .err .capacityReached := by
  have hlen := opening_slots capacity h
  rw [PacketResender.add, if_pos]
  rw [SlotMap.len, hlen]
  exact full

theorem opening_add (h : (announcements channels)[i]? = some payload) (room : i ≠ capacity) :
    (openingResender channels capacity i).add (fun key => ReliableBufferedPacket.new
        (Packet.bytes { registrationPacket i payload with resendKey := some key }) 100 (-1)) =
      .ok (firstKey i, openingResender channels capacity (i + 1)) := by
  have hlen := opening_slots capacity h
  have hadd : (openingResender channels capacity i).packets.add (ε := PacketResenderError)
      (fun key => some (ReliableBufferedPacket.new
        (Packet.bytes { registrationPacket i payload with resendKey := some key }) 100 (-1))) =
      .ok (firstKey i, (openingResender channels capacity (i + 1)).packets) := by
    unfold SlotMap.add
    rw [hlen]
    simp only [openingResender, List.length_replicate, Nat.le_refl, ↓reduceIte,
      take_next h, List.replicate_succ', firstKey, registrationSlot, registrationDatagram]
  rw [PacketResender.add, if_neg, hadd]
  · rfl
  · rw [SlotMap.len, hlen]
    exact room

theorem opening_get (capacity : Nat) (h : (announcements channels)[i]? = some payload) (small : i < 2 ^ 32) :
    (openingResender channels capacity (i + 1)).packets.get (firstKey i) =
      some (ReliableBufferedPacket.new (registrationDatagram i payload) 100 (-1)) := by
  have hi : (BitVec.ofNat 32 i).toNat = i := SlotMap.index_of_fits small
  have hlen : (((announcements channels).take i).mapIdx registrationSlot).length = i := by
    simpa [openingResender] using opening_slots capacity h
  simp only [SlotMap.get, openingResender, firstKey, hi, take_next h]
  rw [List.getElem?_append_right (Nat.le_of_eq hlen), hlen, Nat.sub_self]
  simp [registrationSlot]

/-- The order of the next registration packet. -/
theorem next_announcement {m : Endpoint} {zeros : List U32} (stage : m.state = .default)
    (orders : m.orders = ⟨zeros, 0, BitVec.ofNat 32 i⟩) :
    nextOrder registrationChannel m = (.ok (some (BitVec.ofNat 32 i)),
      { m with orders := ⟨zeros, 0, BitVec.ofNat 32 (i + 1)⟩ }) := by
  have hsucc : BitVec.ofNat 32 i + 1 = BitVec.ofNat 32 (i + 1) := by
    apply BitVec.eq_of_toNat_eq
    simp
  refine next_order_some rfl ?_ ?_
  · rw [stage, orders]
    rfl
  · rw [stage, orders, hsucc]
    rfl

theorem announce_sent {m : Endpoint} {zeros : List U32} (stage : m.state = .default)
    (resender : m.resender = openingResender channels capacity i)
    (orders : m.orders = ⟨zeros, 0, BitVec.ofNat 32 i⟩)
    (h : (announcements channels)[i]? = some payload)
    (hlen : payload.length ≤ maxNonSegmentedPayloadLen) (small : i < 2 ^ 32)
    (room : i ≠ capacity) :
    sendPacket registrationChannel payload m = (.ok [firstKey i], { m with
      orders := ⟨zeros, 0, BitVec.ofNat 32 (i + 1)⟩
      resender := openingResender channels capacity (i + 1)
      log := m.log ++ registrationEvents i payload }) := by
  have hmax : maxNonSegmentedPayloadLen = 1980 := rfl
  have hmax' : maxPacketLen = 2000 := rfl
  have hreliable : registrationChannel.channel.reliability = some ⟨100, -1, 300, by decide⟩ := rfl
  have hid : registrationChannel.localId.toNat < 2 ^ 31 := by decide
  have hadd := opening_add h room
  have hget := opening_get capacity h small
  rw [sendPacket, Act.bind_of_ok (next_announcement stage orders), transmit_short hlen,
    Act.bind_apply, send_reliable hid (by simp) (by omega) hreliable]
  simp only [resender]
  rw [registrationPacket] at hadd
  change (openingResender channels capacity i).add (fun key => ReliableBufferedPacket.new
    (Packet.bytes ⟨registrationChannel.localId, none, some (BitVec.ofNat 32 i), some key,
      payload⟩) 100 (-1)) = _ at hadd
  simp only [Act.bind_apply, Act.lift_apply, hadd, Outcome.mapErr, hget, Outcome.ofOption,
    Act.modify_apply, emit, sendDatagram, Act.pure_apply, Option.toList_some]
  simp only [ReliableBufferedPacket.new, registrationEvents, List.append_assoc, List.cons_append,
    List.nil_append]

theorem announce_refused {m : Endpoint} {zeros : List U32} (stage : m.state = .default)
    (resender : m.resender = openingResender channels capacity i)
    (orders : m.orders = ⟨zeros, 0, BitVec.ofNat 32 i⟩)
    (h : (announcements channels)[i]? = some payload)
    (hlen : payload.length ≤ maxNonSegmentedPayloadLen) (full : i = capacity) :
    sendPacket registrationChannel payload m =
      (.err (.packetResenderError .capacityReached),
        { m with orders := ⟨zeros, 0, BitVec.ofNat 32 (i + 1)⟩ }) := by
  have hmax : maxNonSegmentedPayloadLen = 1980 := rfl
  have hmax' : maxPacketLen = 2000 := rfl
  have hreliable : registrationChannel.channel.reliability = some ⟨100, -1, 300, by decide⟩ := rfl
  have hid : registrationChannel.localId.toNat < 2 ^ 31 := by decide
  rw [sendPacket, Act.bind_of_ok (next_announcement stage orders), transmit_short hlen,
    Act.bind_apply, send_reliable hid (by simp) (by omega) hreliable]
  simp only [resender, Act.bind_apply, Act.lift_apply, opening_full h full, Outcome.mapErr]

theorem entered_length {entries : List (String × U32)} (h : Entered entries mapper) :
    mapper.localIdToGlobalId.length = entries.length := by
  induction h with
  | empty => rfl
  | enter entries mapper mapper' name id _ insert ih =>
    unfold ConnectionIdMapperInner.insert at insert
    split at insert
    · cases insert
    · rename_i hle
      cases insert
      rw [List.length_insertIdx, if_pos (Nat.le_of_not_lt hle), ih, List.length_append]
      rfl

/-- The next channel is entered in the map. -/
theorem enter_next {name : String} {id : U32} {rest : List (String × U32)}
    (entered : Entered (channels.take i) mapper) (hrest : channels.drop i = (name, id) :: rest)
    (small : i < 2 ^ 32) :
    ∃ mapper', mapper.insert (BitVec.ofNat 32 i) id name = some mapper' ∧
      mapper.localIdToGlobalId.length = i ∧ channels.take (i + 1) = channels.take i ++ [(name, id)] ∧
      Entered (channels.take (i + 1)) mapper' := by
  have hget : channels[i]? = some (name, id) := by
    have := congrArg (fun l => l[0]?) hrest
    simpa using this
  have hlt := (List.getElem?_eq_some_iff.mp hget).1
  have htake : channels.take (i + 1) = channels.take i ++ [(name, id)] := by
    rw [List.take_add_one, hget, Option.toList_some]
  have hlen : (channels.take i).length = i := by
    rw [List.length_take, Nat.min_eq_left (Nat.le_of_lt hlt)]
  have hi : (BitVec.ofNat 32 i).toNat = i := SlotMap.index_of_fits small
  obtain ⟨mapper', hins⟩ : ∃ mapper', mapper.insert (BitVec.ofNat 32 i) id name = some mapper' := by
    unfold ConnectionIdMapperInner.insert
    rw [if_neg]
    · exact ⟨_, rfl⟩
    · rw [hi, entered_length entered, hlen]
      exact Nat.lt_irrefl i
  refine ⟨mapper', hins, (entered_length entered).trans hlen, htake, ?_⟩
  rw [htake]
  refine .enter (channels.take i) mapper mapper' name id entered ?_
  rw [hlen]
  exact hins

/-- One channel is registered, unless its name is too long or the resender is full. -/
theorem register_next (now capacity : Nat) {name : String} {id : U32} {rest : List (String × U32)}
    (entered : Entered (channels.take i) mapper) (hrest : channels.drop i = (name, id) :: rest)
    (small : i ≤ 2 ^ 31) :
    ((utf8 name).length ≤ channelNameMaxLen ∧ i ≠ capacity ∧
      ∃ mapper', Entered (channels.take (i + 1)) mapper' ∧
        registerChannels i ((name, id) :: rest) (opening channels now capacity i mapper) =
          registerChannels (i + 1) rest (opening channels now capacity (i + 1) mapper')) ∨
    (¬ ((utf8 name).length ≤ channelNameMaxLen ∧ i ≠ capacity) ∧
      (∃ e, (registerChannels i ((name, id) :: rest) (opening channels now capacity i mapper)).1 =
        .err e) ∧
      (registerChannels i ((name, id) :: rest) (opening channels now capacity i mapper)).2.log =
        (opening channels now capacity i mapper).log) := by
  have hnull : nullChannelId.toNat = 2 ^ 31 := rfl
  have hi : (BitVec.ofNat 32 i).toNat = i := SlotMap.index_of_fits (by omega)
  obtain ⟨mapper', hins, hlength, htake, hentered⟩ := enter_next entered hrest (by omega)
  simp only [registerChannels, if_neg (by omega : ¬ nullChannelId.toNat < i), Act.bind_apply,
    Act.get_apply, Act.lift_apply, opening, hins, Outcome.ofOption, Act.modify_apply, encoding]
  by_cases hname : (utf8 name).length ≤ channelNameMaxLen
  · have hencode : StrWithMaxLen.encode channelNameMaxLen name = .ok (nameBytes name) := by
      rw [StrWithMaxLen.encode, if_neg (Nat.not_lt_of_le hname)]
      rfl
    have hpayload := announcement_get hrest
    have hlen : (nameBytes name ++ VarInt.encode (BitVec.ofNat 32 i)).length ≤
        maxNonSegmentedPayloadLen := announcement_length hname
    simp only [hencode, Outcome.mapErr]
    by_cases hroom : i = capacity
    · right
      refine ⟨fun h => h.2 hroom, ?_⟩
      rw [announce_refused rfl rfl rfl hpayload hlen hroom]
      simp
    · left
      refine ⟨hname, hroom, mapper', hentered, ?_⟩
      have horders (x : U32) : ChannelData.setTransfer
          ⟨(channels.take i).map (fun _ => (0 : U32)), 0, x⟩ 0 (BitVec.ofNat 32 i) 0 =
          ⟨(channels.take (i + 1)).map (fun _ => 0), 0, x⟩ := by
        have hl : ((channels.take i).map (fun _ => (0 : U32))).length = i := by
          rw [List.length_map, ← entered_length entered]
          exact hlength
        rw [ChannelData.setTransfer, hi, resize, hl, Nat.add_sub_cancel_left, htake,
          List.map_append, List.set_append_right _ _ (Nat.le_of_eq hl), hl, Nat.sub_self]
        rfl
      rw [announce_sent rfl rfl rfl hpayload hlen (by omega) hroom]
      simp only [horders, htake, emptyBuffers, List.foldl_append, take_next hpayload,
        List.flatten_append]
      rfl
  · right
    have hencode : StrWithMaxLen.encode channelNameMaxLen name = .err () := by
      rw [StrWithMaxLen.encode, if_pos (Nat.lt_of_not_le hname)]
    refine ⟨fun h => hname h.1, ?_⟩
    simp only [hencode, Outcome.mapErr]
    simp

/-- The channels that can be announced one after the other. -/
structure Announceable (rest : List (String × U32)) (capacity i : Nat) : Prop where
  names : ∀ entry ∈ rest, (utf8 entry.1).length ≤ channelNameMaxLen
  room : i + rest.length ≤ capacity
  ids : i + rest.length ≤ 2 ^ 31 + 1

theorem register_all (now capacity : Nat) {rest : List (String × U32)} (entered : Entered (channels.take i) mapper)
    (hrest : channels.drop i = rest) (hi : i ≤ channels.length) (room : i ≤ capacity)
    (small : i ≤ 2 ^ 31 + 1) :
    (Announceable rest capacity i ∧ ∃ mapper', Entered channels mapper' ∧
      registerChannels i rest (opening channels now capacity i mapper) =
        (.ok (), opening channels now capacity channels.length mapper')) ∨
    (¬ Announceable rest capacity i ∧
      (registerChannels i rest (opening channels now capacity i mapper)).1 ≠ .ok () ∧
      ∃ k ≤ channels.length, ∃ mapper',
        (registerChannels i rest (opening channels now capacity i mapper)).2.log =
          (opening channels now capacity k mapper').log) := by
  induction rest generalizing i mapper with
  | nil =>
    left
    have hle : channels.length ≤ i := List.drop_eq_nil_iff.mp hrest
    obtain rfl : i = channels.length := Nat.le_antisymm hi hle
    refine ⟨⟨by simp, room, small⟩, mapper, ?_, rfl⟩
    rwa [List.take_length] at entered
  | cons entry rest ih =>
    obtain ⟨name, id⟩ := entry
    have hlength : channels.length = i + (rest.length + 1) := by
      have := congrArg List.length hrest
      rw [List.length_drop, List.length_cons] at this
      omega
    by_cases hsmall : i ≤ 2 ^ 31
    · rcases register_next now capacity entered hrest hsmall with
        ⟨hname, hroom, mapper', hentered, heq⟩ | ⟨hnot, ⟨e, herr⟩, hlog⟩
      · have hdrop : channels.drop (i + 1) = rest := by
          rw [← List.drop_drop, hrest]
          rfl
        rw [heq]
        rcases ih hentered hdrop (by omega) (by omega) (by omega) with ⟨h, hend⟩ | ⟨hnot, hend⟩
        · refine Or.inl ⟨⟨?_, ?_, ?_⟩, hend⟩
          · rintro e he
            rcases List.mem_cons.mp he with rfl | he
            · exact hname
            · exact h.names e he
          · have := h.room
            rw [List.length_cons]
            omega
          · have := h.ids
            rw [List.length_cons]
            omega
        · refine Or.inr ⟨fun h => hnot ⟨fun e he => h.names e (List.mem_cons_of_mem _ he), ?_, ?_⟩,
            hend⟩
          · have := h.room
            rw [List.length_cons] at this
            omega
          · have := h.ids
            rw [List.length_cons] at this
            omega
      · refine Or.inr ⟨fun h => hnot ⟨h.names _ (List.mem_cons_self ..), ?_⟩, by simp [herr], i, hi,
          mapper, hlog⟩
        have := h.room
        rw [List.length_cons] at this
        omega
    · right
      constructor
      · intro h
        have := h.ids
        rw [List.length_cons] at this
        omega
      · have hnull : nullChannelId.toNat = 2 ^ 31 := rfl
        rw [registerChannels, if_pos (by omega)]
        exact ⟨by simp, i, hi, mapper, rfl⟩

end

/-- A connection that has sent all its registration packets. -/
def opened (channels : List (String × U32)) (now capacity : Nat)
    (mapper : ConnectionIdMapperInner) : Endpoint :=
  { opening channels now capacity (channels.length + 1) mapper with
    state := .registration false (some (firstKey channels.length)) }

theorem opened_events {channels : List (String × U32)} {now capacity : Nat}
    {mapper : ConnectionIdMapperInner} {event : Event}
    (h : event ∈ (opened channels now capacity mapper).log) :
    ∃ i payload, (announcements channels)[i]? = some payload ∧
      (event = .issued (firstKey i) (registrationDatagram i payload) ∨
        event = .sent (registrationDatagram i payload)) := by
  have h : event ∈ (opening channels now capacity (channels.length + 1) mapper).log := h
  obtain ⟨i, payload, _, place, he⟩ := opening_events h
  exact ⟨i, payload, place, he⟩

/-- The last registration packet needs room as well. -/
theorem announce_end_opening {channels : List (String × U32)} (now capacity : Nat)
    (mapper : ConnectionIdMapperInner) (small : channels.length ≤ 2 ^ 31 + 1) :
    (channels.length ≠ capacity ∧ announceEnd (opening channels now capacity channels.length mapper) =
      (.ok (), opened channels now capacity mapper)) ∨
    (channels.length = capacity ∧
      (∃ e, (announceEnd (opening channels now capacity channels.length mapper)).1 = .err e) ∧
      (announceEnd (opening channels now capacity channels.length mapper)).2.log =
        (opening channels now capacity channels.length mapper).log) := by
  have hempty : (nameBytes "").length ≤ maxNonSegmentedPayloadLen := by decide +kernel
  have hname : StrWithMaxLen.encode channelNameMaxLen "" = .ok (nameBytes "") := by decide +kernel
  have hlast : (announcements channels)[channels.length]? = some (nameBytes "") := announcement_last
  simp only [announceEnd, encoding, Act.bind_apply, Act.lift_apply, hname, Outcome.mapErr]
  by_cases hroom : channels.length = capacity
  · right
    refine ⟨hroom, ?_⟩
    rw [announce_refused rfl rfl rfl hlast hempty hroom]
    simp
  · left
    refine ⟨hroom, ?_⟩
    rw [announce_sent rfl rfl rfl hlast hempty (by omega) hroom]
    have htake : channels.take (channels.length + 1) = channels.take channels.length := by
      rw [List.take_length, List.take_of_length_le (Nat.le_succ _)]
    simp only [List.head?_cons, Outcome.ofOption, Act.modify_apply, opened, opening, htake,
      take_next hlast, List.flatten_append, ConnectionState.default]
    simp

/-- The channels of a provider can be announced: the names are short enough, and the capacities
of the reliable channels add up to room for every registration packet. -/
structure Initializes (p : ChannelProvider) (capacity : Nat) : Prop where
  capacities : (addCapacities p (sortedChannels p) 0 : Outcome ConnectionError Nat) = .ok capacity
  announceable : Announceable (sortedChannels p) capacity 0
  last : (sortedChannels p).length ≠ capacity

/-- The initialization succeeds exactly for such providers, and what it comes to is known; one
that fails has not sent the last registration packet. -/
theorem initialize_opens (p : ChannelProvider) (now : Nat) :
    (∃ capacity mapper, Initializes p capacity ∧ Entered (sortedChannels p) mapper ∧
      initializeConnection p (.fresh now) =
        (.ok (), opened (sortedChannels p) now capacity mapper)) ∨
    ((∀ capacity, ¬ Initializes p capacity) ∧
      (initializeConnection p (.fresh now)).1 ≠ .ok () ∧
      ∃ k ≤ (sortedChannels p).length, ∃ capacity mapper,
        (initializeConnection p (.fresh now)).2.log =
          (opening (sortedChannels p) now capacity k mapper).log) := by
  cases hadd : (addCapacities p (sortedChannels p) 0 : Outcome ConnectionError Nat) with
  | err e =>
    right
    refine ⟨fun capacity h => ?_, ?_⟩
    · rw [h.capacities] at hadd
      cases hadd
    · simp only [initializeConnection, Act.bind_apply, Endpoint.fresh, ConnectionState.default,
        Act.get_apply, Act.lift_apply, hadd]
      exact ⟨by simp, 0, Nat.zero_le _, 0, {}, rfl⟩
  | panic =>
    right
    refine ⟨fun capacity h => ?_, ?_⟩
    · rw [h.capacities] at hadd
      cases hadd
    · simp only [initializeConnection, Act.bind_apply, Endpoint.fresh, ConnectionState.default,
        Act.get_apply, Act.lift_apply, hadd]
      exact ⟨by simp, 0, Nat.zero_le _, 0, {}, rfl⟩
  | ok capacity =>
    have only {c : Nat} (h : Initializes p c) : c = capacity := by
      have := h.capacities
      rw [hadd, Outcome.ok.injEq] at this
      exact this.symm
    have hrun : initializeConnection p (.fresh now) =
        (registerChannels 0 (sortedChannels p) >>= fun _ => announceEnd)
          (opening (sortedChannels p) now capacity 0 {}) := by
      simp only [initializeConnection, Act.bind_apply, Act.get_apply, Endpoint.fresh,
        ConnectionState.default, Act.lift_apply, hadd, Act.modify_apply]
      rfl
    rw [hrun]
    have hnone : Entered ((sortedChannels p).take 0) {} := .empty
    rcases register_all now capacity hnone rfl (Nat.zero_le _) (Nat.zero_le _) (Nat.zero_le _) with
      ⟨h, mapper, hentered, heq⟩ | ⟨hnot, hne, k, hk, mapper, hlog⟩
    · rw [List.drop_zero] at h heq
      rw [Act.bind_of_ok heq]
      have hids : (sortedChannels p).length ≤ 2 ^ 31 + 1 := by
        have := h.ids
        omega
      rcases announce_end_opening now capacity mapper hids with ⟨hroom, hend⟩ | ⟨hfull, ⟨e, herr⟩, hlog⟩
      · exact Or.inl ⟨capacity, mapper, ⟨hadd, h, hroom⟩, hentered, hend⟩
      · exact Or.inr ⟨fun c hc => hc.last (hfull.trans (only hc).symm), by simp [herr], _,
          Nat.le_refl _, capacity, mapper, hlog⟩
    · refine Or.inr ⟨fun c hc => ?_, ?_⟩
      · obtain rfl := only hc
        exact hnot hc.announceable
      rcases hreg : registerChannels 0 (sortedChannels p)
        (opening (sortedChannels p) now capacity 0 {}) with ⟨r, t⟩
      rw [List.drop_zero, hreg] at hne hlog
      rw [Act.bind_apply, hreg]
      cases r with
      | ok u => exact absurd rfl hne
      | err e => exact ⟨by simp, k, hk, capacity, mapper, hlog⟩
      | panic => exact ⟨by simp, k, hk, capacity, mapper, hlog⟩

theorem initialize_opened {p : ChannelProvider} {now : Nat} {m : Endpoint}
    (h : initializeConnection p (.fresh now) = (.ok (), m)) :
    ∃ capacity mapper, Initializes p capacity ∧ Entered (sortedChannels p) mapper ∧
      m = opened (sortedChannels p) now capacity mapper := by
  rcases initialize_opens p now with ⟨capacity, mapper, hinit, hentered, heq⟩ | ⟨_, hne, _⟩
  · rw [heq, Prod.mk.injEq] at h
    exact ⟨capacity, mapper, hinit, hentered, h.2.symm⟩
  · rw [h] at hne
    exact absurd rfl hne

end Theta
