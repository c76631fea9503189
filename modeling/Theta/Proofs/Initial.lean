import Theta.Proofs.Calls

namespace Theta
open Lib Relation

/-- A channel name on the wire. -/
def nameBytes (name : String) : Bytes :=
  VarInt.encode (BitVec.ofNat 32 (utf8 name).length) ++ utf8 name

/-- The payloads of the registration packets: one for each channel and one with no name. -/
def announcements (channels : List (String × U32)) : List Bytes :=
  channels.mapIdx (fun i entry => nameBytes entry.1 ++ VarInt.encode (BitVec.ofNat 32 i)) ++
    [nameBytes ""]

/-- The registration packet at one place of the announcements. -/
def registrationPacket (i : Nat) (payload : Bytes) : Packet :=
  ⟨channelManagementChannelIdRegistrationStage, none, some (BitVec.ofNat 32 i), none, payload⟩

/-- The initialization sends the announcements, each under its number. -/
def announcing (channels : List (String × U32)) : Scope where
  sends _ base kind := kind = channelManagementChannel ∧
    ∃ i payload, (announcements channels)[i]? = some payload ∧ base = registrationPacket i payload
  records _ _ _ := False
  acks _ := False

theorem announcing_quiet {channels : List (String × U32)} : Quiet (announcing channels) :=
  ⟨id, id, id, id, fun _ => id⟩

/-- One change of the initialization. -/
inductive Setup (channels : List (String × U32)) : Endpoint → Endpoint → Prop where
  | move (m m' : Endpoint) (h : Move (announcing channels) m m') : Setup channels m m'
  | prepare (m : Endpoint) (localInner : ConnectionIdMapperInner) (orders : ChannelData U32)
      (buffers : GlobalChannelData (List Bytes)) (capacity : Nat) :
      Setup channels m { m with
        localInner := localInner
        orders := orders
        buffers := buffers
        resender := { m.resender with capacity := capacity } }
  | await (m : Endpoint) (received : Bool) (lastKey : Option SlotMapKey) (key : SlotMapKey)
      (d : Bytes) (stage : m.state = .registration received lastKey)
      (issued : .issued key d ∈ m.log) :
      Setup channels m { m with state := .registration received (some key) }

theorem announcement_length {name : String} {id : U32} (h : (utf8 name).length ≤ channelNameMaxLen) :
    (nameBytes name ++ VarInt.encode id).length ≤ maxNonSegmentedPayloadLen := by
  have h1 := VarInt.encode_length_le (BitVec.ofNat 32 (utf8 name).length)
  have h2 := VarInt.encode_length_le id
  have hmax : channelNameMaxLen = 500 := rfl
  have hlen : maxNonSegmentedPayloadLen = 1980 := rfl
  simp only [nameBytes, List.length_append]
  omega

/-- A short packet is one packet. -/
theorem transmit_short {channel : ConnectionChannel} {order : Option U32} {payload : Bytes}
    (h : payload.length ≤ maxNonSegmentedPayloadLen) (m : Endpoint) :
    transmit channel order payload m = (do
      let key ← sendRealPacket channel order none payload
      pure key.toList : Call _) m := by
  rw [transmit, if_neg (Nat.not_lt_of_le h)]

/-- The keys returned for a short packet were issued. -/
theorem transmit_issued {channel : ConnectionChannel} {order : Option U32} {payload : Bytes}
    {m m' : Endpoint} {keys : List SlotMapKey} (hlen : payload.length ≤ maxNonSegmentedPayloadLen)
    (h : transmit channel order payload m = (.ok keys, m')) :
    ∀ key ∈ keys, ∃ d, .issued key d ∈ m'.log := by
  rw [transmit_short hlen, Act.bind_apply] at h
  rcases send_real_packet_cases channel order none payload m with
    ⟨hr, _⟩ | ⟨_, _, ⟨_, key, _, packet, _, _, _, he⟩ | ⟨_, he⟩⟩
  · rcases hs : sendRealPacket channel order none payload m with ⟨r, t⟩
    rw [hs] at h hr
    cases r with
    | ok r => exact absurd rfl (hr r)
    | err e => cases h
    | panic => cases h
  · rw [he] at h
    cases h
    intro k hk
    cases List.mem_singleton.mp hk
    exact ⟨packet.payload, by simp⟩
  · rw [he] at h
    cases h
    simp

section
variable {channels : List (String × U32)}

theorem setup_of_moves {m m' : Endpoint} (h : ReflTransGen (Move (announcing channels)) m m') :
    ReflTransGen (Setup channels) m m' :=
  h.lift id (fun _ _ hm => .move _ _ hm)

/-- One registration packet, sent when the counter has reached its place. -/
theorem announce_setup {i : Nat} {payload : Bytes} {m : Endpoint}
    (hi : (announcements channels)[i]? = some payload)
    (hlen : payload.length ≤ maxNonSegmentedPayloadLen)
    (hst : ∃ received lastKey, m.state = .registration received lastKey)
    (hcount : m.orders.channelManagementRegistrationStage = BitVec.ofNat 32 i) :
    ReflTransGen (Setup channels) m (sendPacket registrationChannel payload m).2 ∧
      (sendPacket registrationChannel payload m).2.state = m.state ∧
      (sendPacket registrationChannel payload m).2.orders = { m.orders with
        channelManagementRegistrationStage := BitVec.ofNat 32 (i + 1) } := by
  obtain ⟨received, lastKey, hst⟩ := hst
  have hsucc : BitVec.ofNat 32 i + 1 = BitVec.ofNat 32 (i + 1) := by
    apply BitVec.eq_of_toNat_eq
    simp
  have hg : (m.orders.get m.state registrationChannel.localId : Outcome ConnectionError _) =
      .ok (BitVec.ofNat 32 i) := by
    rw [hst, ← hcount]
    rfl
  have hw : (m.orders.write m.state registrationChannel.localId (BitVec.ofNat 32 i + 1) :
      Outcome ConnectionError _) = .ok { m.orders with
        channelManagementRegistrationStage := BitVec.ofNat 32 (i + 1) } := by
    rw [hst, hsucc]
    rfl
  have hnext := next_order_some rfl hg hw
  rw [sendPacket, Act.bind_of_ok hnext]
  have hmoves : ReflTransGen (Move (announcing channels)) { m with orders := { m.orders with
        channelManagementRegistrationStage := BitVec.ofNat 32 (i + 1) } }
      (transmit registrationChannel (some (BitVec.ofNat 32 i)) payload _).2 :=
    transmit_moves (fun _ => ⟨rfl, i, payload, hi, rfl⟩)
      (fun hlt => absurd hlen (Nat.not_le_of_lt hlt))
  refine ⟨.head ?_ (setup_of_moves hmoves), (same_receipts announcing_quiet hmoves).state,
    (moves_fixed hmoves).2⟩
  exact .prepare m m.localInner _ m.buffers m.resender.capacity

theorem encode_name {name : String} {buffer : Bytes}
    (h : StrWithMaxLen.encode channelNameMaxLen name = .ok buffer) :
    (utf8 name).length ≤ channelNameMaxLen ∧ buffer = nameBytes name := by
  unfold StrWithMaxLen.encode at h
  split at h
  · cases h
  · rename_i hlen
    cases h
    exact ⟨Nat.le_of_not_lt hlen, rfl⟩

theorem announcement_get {i : Nat} {name : String} {id : U32} {rest : List (String × U32)}
    (h : channels.drop i = (name, id) :: rest) :
    (announcements channels)[i]? = some (nameBytes name ++ VarInt.encode (BitVec.ofNat 32 i)) := by
  have hi : channels[i]? = some (name, id) := by
    have := congrArg (fun l => l[0]?) h
    simpa using this
  have hlt := (List.getElem?_eq_some_iff.mp hi).1
  rw [announcements, List.getElem?_append_left (by simpa using hlt), List.getElem?_mapIdx, hi]
  rfl

theorem announcement_last :
    (announcements channels)[channels.length]? = some (nameBytes "") := by
  rw [announcements, List.getElem?_append_right (by simp)]
  simp

/-- Registering the channels from one place on announces them in their order. -/
theorem register_channels_setup {i : Nat} {rest : List (String × U32)} {m : Endpoint}
    (hrest : channels.drop i = rest)
    (hst : ∃ received lastKey, m.state = .registration received lastKey)
    (hcount : m.orders.channelManagementRegistrationStage = BitVec.ofNat 32 i) :
    ReflTransGen (Setup channels) m (registerChannels i rest m).2 ∧
      ((registerChannels i rest m).1 = .ok () →
        (registerChannels i rest m).2.state = m.state ∧
        (registerChannels i rest m).2.orders.channelManagementRegistrationStage =
          BitVec.ofNat 32 (i + rest.length)) := by
  induction rest generalizing i m with
  | nil => exact ⟨.refl, fun _ => ⟨rfl, hcount⟩⟩
  | cons entry rest ih =>
    obtain ⟨name, id⟩ := entry
    simp only [registerChannels, encoding]
    split
    · exact ⟨.refl, fun h => by cases h⟩
    simp only [Act.bind_apply, Act.get_apply, Act.lift_apply, Act.modify_apply]
    cases hins : m.localInner.insert (BitVec.ofNat 32 i) id name with
    | none => exact ⟨.refl, fun h => by cases h⟩
    | some mapper =>
      have hprep : Setup channels m { m with localInner := mapper } :=
        .prepare m mapper m.orders m.buffers m.resender.capacity
      simp only [Outcome.ofOption]
      cases hname : StrWithMaxLen.encode channelNameMaxLen name with
      | err e => exact ⟨.single hprep, fun h => by cases h⟩
      | panic => exact ⟨.single hprep, fun h => by cases h⟩
      | ok buffer =>
        obtain ⟨hlen, rfl⟩ := encode_name hname
        simp only [Outcome.mapErr]
        obtain ⟨hrun, hstate, horders⟩ := announce_setup (m := { m with localInner := mapper })
          (announcement_get hrest) (announcement_length hlen) hst hcount
        rcases hsend : sendPacket registrationChannel
          (nameBytes name ++ VarInt.encode (BitVec.ofNat 32 i)) { m with localInner := mapper } with
          ⟨r, t⟩
        rw [hsend] at hrun hstate horders
        dsimp only at hrun hstate horders
        cases r with
        | err e => exact ⟨.head hprep hrun, fun h => by cases h⟩
        | panic => exact ⟨.head hprep hrun, fun h => by cases h⟩
        | ok keys =>
          have hdrop : channels.drop (i + 1) = rest := by
            rw [← List.drop_drop, hrest]
            rfl
          have hnext : Setup channels t { t with
              orders := t.orders.setTransfer 0 (BitVec.ofNat 32 i) 0
              buffers := t.buffers.insert id [] } :=
            .prepare t t.localInner _ _ t.resender.capacity
          have hlater := ih (i := i + 1) (m := { t with
              orders := t.orders.setTransfer 0 (BitVec.ofNat 32 i) 0
              buffers := t.buffers.insert id [] }) hdrop (hstate ▸ hst) (by
                simp only [ChannelData.setTransfer, horders])
          refine ⟨.head hprep (hrun.trans (.head hnext hlater.1)), fun h => ?_⟩
          have hend := hlater.2 h
          refine ⟨hend.1.trans hstate, hend.2.trans ?_⟩
          rw [List.length_cons, Nat.add_right_comm, Nat.add_assoc]

/-- The announcement without a name comes last, and its key is awaited. -/
theorem announce_end_setup {m : Endpoint} {received : Bool} {lastKey : Option SlotMapKey}
    (hst : m.state = .registration received lastKey)
    (hcount : m.orders.channelManagementRegistrationStage = BitVec.ofNat 32 channels.length) :
    ReflTransGen (Setup channels) m (announceEnd m).2 ∧
      ((announceEnd m).1 = .ok () →
        ∃ key, (announceEnd m).2.state = .registration received (some key)) := by
  have hempty : (nameBytes "").length ≤ maxNonSegmentedPayloadLen := by decide +kernel
  have hname : StrWithMaxLen.encode channelNameMaxLen "" = .ok (nameBytes "") := by decide +kernel
  obtain ⟨hrun, hstate, _⟩ := announce_setup announcement_last hempty ⟨received, lastKey, hst⟩ hcount
  rcases hsend : sendPacket registrationChannel (nameBytes "") m with ⟨r, t⟩
  rw [hsend] at hrun hstate
  dsimp only at hrun hstate
  simp only [announceEnd, encoding, Act.bind_apply, Act.lift_apply, hname, Outcome.mapErr, hsend]
  cases r with
  | err e => exact ⟨hrun, fun h => by cases h⟩
  | panic => exact ⟨hrun, fun h => by cases h⟩
  | ok keys =>
    dsimp only
    cases hhead : keys.head? with
    | none => exact ⟨hrun, fun h => by cases h⟩
    | some key =>
      obtain ⟨d, hd⟩ : ∃ d, .issued key d ∈ t.log := by
        obtain ⟨order, t', hnext, htransmit⟩ : ∃ order t', nextOrder registrationChannel m =
            (.ok order, t') ∧ transmit registrationChannel order (nameBytes "") t' =
              (.ok keys, t) := by
          rcases hn : nextOrder registrationChannel m with ⟨r, t'⟩
          rw [sendPacket, Act.bind_apply, hn] at hsend
          cases r with
          | ok order => exact ⟨order, t', rfl, hsend⟩
          | err e => cases hsend
          | panic => cases hsend
        exact transmit_issued hempty htransmit key (List.mem_of_head? hhead)
      have hreg : t.state = .registration received lastKey := hstate.trans hst
      simp only [Outcome.ofOption, Act.modify_apply, hreg]
      exact ⟨hrun.tail (.await t received lastKey key d hreg hd), fun _ => ⟨key, rfl⟩⟩

end

/-- A fresh connection whose resender has been given its capacity. -/
def Endpoint.sized (now capacity : Nat) : Endpoint :=
  { lastTimeReceivedPacket := now, resender := { capacity := capacity } }

/-- Either the capacities overflow, or the channels are announced. -/
theorem initialize_cases (p : ChannelProvider) (now : Nat) :
    ((initializeConnection p (.fresh now)).1 ≠ .ok () ∧
      (initializeConnection p (.fresh now)).2 = .fresh now) ∨
    ∃ capacity, initializeConnection p (.fresh now) =
      (registerChannels 0 (sortedChannels p) >>= fun _ => announceEnd) (.sized now capacity) := by
  simp only [initializeConnection, Act.bind_apply, Act.get_apply, Endpoint.fresh,
    ConnectionState.default, Act.lift_apply]
  cases addCapacities p (sortedChannels p) 0 with
  | err e => exact Or.inl ⟨by simp, rfl⟩
  | panic => exact Or.inl ⟨by simp, rfl⟩
  | ok capacity => exact Or.inr ⟨capacity, rfl⟩

theorem all_channels_setup (p : ChannelProvider) (now capacity : Nat) :
    ReflTransGen (Setup (sortedChannels p)) (.sized now capacity)
        (registerChannels 0 (sortedChannels p) (.sized now capacity)).2 ∧
      ((registerChannels 0 (sortedChannels p) (.sized now capacity)).1 = .ok () →
        (registerChannels 0 (sortedChannels p) (.sized now capacity)).2.state = .default ∧
        (registerChannels 0 (sortedChannels p)
          (.sized now capacity)).2.orders.channelManagementRegistrationStage =
            BitVec.ofNat 32 (0 + (sortedChannels p).length)) :=
  register_channels_setup rfl ⟨false, none, rfl⟩ rfl

/-- The initialization is a sequence of announcements. -/
theorem initialize_setup (p : ChannelProvider) (now : Nat) :
    ReflTransGen (Setup (sortedChannels p)) (Endpoint.fresh now)
      (initializeConnection p (.fresh now)).2 := by
  rcases initialize_cases p now with ⟨_, h⟩ | ⟨capacity, h⟩
  · rw [h]
  · rw [h]
    refine .head (.prepare (.fresh now) {} ⟨[], 0, 0⟩ {} capacity) ?_
    have hreg := all_channels_setup p now capacity
    refine Act.bind_moves hreg.1 (fun _ hok => ?_)
    obtain ⟨hstate, hcount⟩ := hreg.2 hok
    rw [Nat.zero_add] at hcount
    exact (announce_end_setup hstate hcount).1

theorem initialize_state {p : ChannelProvider} {now : Nat} {m : Endpoint}
    (h : initializeConnection p (.fresh now) = (.ok (), m)) :
    ∃ key, m.state = .registration false (some key) := by
  rcases initialize_cases p now with ⟨hne, _⟩ | ⟨capacity, heq⟩
  · exact absurd (congrArg Prod.fst h) hne
  · have hreg := all_channels_setup p now capacity
    rw [heq, Act.bind_apply] at h
    rcases hrun : registerChannels 0 (sortedChannels p) (.sized now capacity) with ⟨r, t⟩
    rw [hrun] at hreg h
    cases r with
    | err e => cases h
    | panic => cases h
    | ok u =>
      obtain ⟨hstate, hcount⟩ := hreg.2 rfl
      rw [Nat.zero_add] at hcount
      have hend := (announce_end_setup hstate hcount).2
      dsimp only at h hend
      rw [h] at hend
      exact hend rfl

end Theta
