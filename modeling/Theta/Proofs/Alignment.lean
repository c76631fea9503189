import Theta.Lib.Alignment
import Theta.Proofs.Rings
import Theta.Proofs.Wraparound

namespace Theta
open Lib Relation

def Event.handed? : Event → Option Bytes
  | .handed packet => some packet
  | _ => none

/-- The registration packets handled so far. -/
def Endpoint.handedPackets (m : Endpoint) : List Bytes := m.log.filterMap Event.handed?

/-- The capacity of a channel's orderer, when it has one. -/
def ordererCapacity (p : ChannelProvider) (globalId : U32) : Option Nat :=
  (p.byId globalId).bind fun channel => channel.orderability.map OrderedChannel.capacity

/-- The local id and the channel that a registration packet enters, when these ids are entered. -/
def registrationOf (p : ChannelProvider) (ids : List U32) (packet : Bytes) : Option (U32 × U32) :=
  match StrWithMaxLen.decode channelNameMaxLen packet with
  | .ok (name, rest) =>
    if name = "" then none
    else match VarInt.decode 32 rest, p.byName name with
      | .ok (id, _), some globalId => if id.toNat ≤ ids.length then some (id, globalId) else none
      | _, _ => none
  | _ => none

/-- The ids after one more packet, and whether each channel so far was entered behind all ordered
ones. -/
def enterPacket (p : ChannelProvider) (entered : List U32 × Bool) (packet : Bytes) :
    List U32 × Bool :=
  match registrationOf p entered.1 packet with
  | some (id, globalId) => (entered.1.insertIdx id.toNat globalId,
      entered.2 && Tables.behind (ordererCapacity p) entered.1 id.toNat)
  | none => entered

/-- None of these registration packets enters a channel before an ordered one. -/
def enteredBehind (p : ChannelProvider) (packets : List Bytes) : Bool :=
  (packets.foldl (enterPacket p) ([], true)).2

/-- Every ordered channel of the other side's map has an orderer of its capacity in the slot of
its local id. -/
def OrderersAligned (p : ChannelProvider) (m : Endpoint) : Prop :=
  ∀ (l : Nat) (g : U32) (channel : Channel) (ordered : OrderedChannel),
    m.notLocalInner.localIdToGlobalId[l]? = some g → p.byId g = some channel →
    channel.orderability = some ordered →
    ∃ o, m.orderers.basicStage[l]? = some (some o) ∧ o.capacity = ordered.capacity

/-- The two tables of the transfer stage: the channels by their local ids, and the capacities of
the orderers. -/
def Endpoint.tables (m : Endpoint) : Tables U32 Nat where
  ids := m.notLocalInner.localIdToGlobalId
  slots i := (m.orderers.read (.basic i)).join.map PacketOrderer.capacity

theorem orderers_aligned_iff {p : ChannelProvider} {m : Endpoint} :
    OrderersAligned p m ↔ m.tables.Aligned (ordererCapacity p) := by
  constructor
  · intro h l g capacity hg hneeds
    obtain ⟨channel, hchannel, hkind⟩ := Option.bind_eq_some_iff.mp hneeds
    obtain ⟨ordered, hordered, rfl⟩ := Option.map_eq_some_iff.mp hkind
    obtain ⟨o, ho, hcapacity⟩ := h l g channel ordered hg hchannel hordered
    have hread : m.orderers.read (.basic l) = some (some o) := ho
    simp [Endpoint.tables, hread, hcapacity]
  · intro h l g channel ordered hg hchannel hordered
    have hslot := h l g ordered.capacity hg (by simp [ordererCapacity, hchannel, hordered])
    obtain ⟨o, ho, hcapacity⟩ := Option.map_eq_some_iff.mp hslot
    exact ⟨o, Option.join_eq_some_iff.mp ho, hcapacity⟩

/-- The ids are those of the packets handled, and the orderers are aligned exactly when the
packets were entered behind. -/
structure Rebuilt (p : ChannelProvider) (m : Endpoint) : Prop where
  ids : m.tables.ids = (m.handedPackets.foldl (enterPacket p) ([], true)).1
  bounded : m.tables.Bounded (ordererCapacity p)
  aligned : m.tables.Aligned (ordererCapacity p) ↔ enteredBehind p m.handedPackets = true

/-- Neither the tables nor the registrations have changed. -/
structure SameTables (m m' : Endpoint) : Prop where
  tables : m'.tables = m.tables
  handed : m'.handedPackets = m.handedPackets

section
variable {p : ChannelProvider} {globalId : U32} {channel : ConnectionChannel} {m m' : Endpoint}
  {s : Scope}

theorem Rebuilt.same (h : Rebuilt p m) (hs : SameTables m m') : Rebuilt p m' := by
  obtain ⟨hids, hbounded, haligned⟩ := h
  rw [← hs.tables, ← hs.handed] at hids haligned
  rw [← hs.tables] at hbounded
  exact ⟨hids, hbounded, haligned⟩

theorem SameTables.refl (m : Endpoint) : SameTables m m := ⟨rfl, rfl⟩

theorem SameTables.trans {m1 : Endpoint} (h1 : SameTables m m1) (h2 : SameTables m1 m') :
    SameTables m m' :=
  ⟨h2.tables.trans h1.tables, h2.handed.trans h1.handed⟩

theorem Move.same_handed (hr : ¬ s.registers) (h : Move s m m') :
    m'.handedPackets = m.handedPackets := by
  have logged (events : List Event) (hnone : events.filterMap Event.handed? = []) :
      (m.log ++ events).filterMap Event.handed? = m.handedPackets := by
    rw [List.filterMap_append, hnone, List.append_nil]
    rfl
  cases h with
  | hand _ registers => exact absurd registers hr
  | issue | send | record | confirm | release | consume | resend => exact logged _ rfl
  | _ => rfl

theorem Move.same_tables (hr : ¬ s.registers) (hh : ¬ s.holds) (h : Move s m m') :
    SameTables m m' := by
  refine ⟨?_, h.same_handed hr⟩
  cases h with
  | register _ _ _ _ _ _ _ _ registers => exact absurd registers hr
  | hold _ holds => exact absurd holds hh
  | _ => rfl

theorem same_tables (hr : ¬ s.registers) (hh : ¬ s.holds) (h : ReflTransGen (Move s) m m') :
    SameTables m m' := by
  induction h with
  | refl => exact .refl m
  | tail _ h ih => exact ih.trans (h.same_tables hr hh)

theorem registration_of_some {ids : List U32} {packet : Bytes} {id g : U32}
    (h : registrationOf p ids packet = some (id, g)) :
    ∃ name rest rest', StrWithMaxLen.decode channelNameMaxLen packet = .ok (name, rest) ∧
      name ≠ "" ∧ VarInt.decode 32 rest = .ok (id, rest') ∧ p.byName name = some g ∧
      id.toNat ≤ ids.length := by
  unfold registrationOf at h
  split at h
  · rename_i name rest hname
    split at h
    · cases h
    · rename_i hne
      split at h
      · rename_i id' rest' g' hid hg
        split at h
        · rename_i hle
          cases h
          exact ⟨name, rest, rest', hname, hne, hid, hg, hle⟩
        · cases h
      · cases h
  · cases h

/-- The slots after an ordered channel was given its orderer. -/
theorem orderer_for_slots (kind : Channel) (id : U32) (orderers : ChannelData (Option PacketOrderer))
    (i : Nat) : ((ordererFor kind id orderers).read (.basic i)).join.map PacketOrderer.capacity =
      match kind.orderability.map OrderedChannel.capacity with
      | some capacity => if i = id.toNat then some capacity
          else (orderers.read (.basic i)).join.map PacketOrderer.capacity
      | none => (orderers.read (.basic i)).join.map PacketOrderer.capacity := by
  unfold ordererFor
  cases kind.orderability with
  | none => rfl
  | some ordered =>
    simp only [ChannelData.set_transfer_read, Option.map_some, Place.basic.injEq]
    by_cases hi : i = id.toNat
    · rw [if_pos hi, if_pos hi]
      rfl
    · rw [if_neg hi, if_neg hi]
      by_cases hlt : i < orderers.basicStage.length
      · rw [if_pos hlt]
        rfl
      · rw [if_neg hlt, ChannelData.read, List.getElem?_eq_none (Nat.le_of_not_lt hlt)]
        split <;> rfl

/-- The handler enters a channel exactly when the packet is a registration, and its orderer with
it. -/
theorem handle_registration_tables {packet : Bytes} {received : Bool}
    {lastKey : Option SlotMapKey} (hst : m.state = .registration received lastKey)
    (hret : (handleRegistration p packet m).1 ≠ .panic) :
    (handleRegistration p packet m).2.handedPackets = m.handedPackets ++ [packet] ∧
      match registrationOf p m.tables.ids packet with
      | some (id, g) => id.toNat ≤ m.tables.ids.length ∧
          (handleRegistration p packet m).2.tables =
            m.tables.enter (ordererCapacity p) id.toNat g
      | none => (handleRegistration p packet m).2.tables = m.tables := by
  have hhanded : (m.handed packet).handedPackets = m.handedPackets ++ [packet] :=
    List.filterMap_append
  rcases handle_registration_cases p packet hst with ⟨r, hno, h⟩ | ⟨rest, hname, h⟩ |
    ⟨name, rest, id, rest', g, mapper, hname, hne, hid, hg, hinsert, ⟨_, h⟩ | ⟨kind, hkind, h⟩⟩
  · have hnone : registrationOf p m.tables.ids packet = none := by
      refine Option.eq_none_iff_forall_ne_some.mpr (fun entry hsome => ?_)
      obtain ⟨name, rest, rest', hname, hne, hid, hg, hle⟩ := registration_of_some hsome
      have hle' : entry.1.toNat ≤ m.notLocalInner.localIdToGlobalId.length := hle
      have hadmits : admits p m.notLocalInner.localIdToGlobalId.length [packet] = true := by
        simp [admits, hname, hne, hid, hg, hle']
      have herr := handle_registration_ne_err hadmits
      rw [h] at hret herr
      cases r with
      | ok u => exact hno u rfl
      | err e => exact herr e rfl
      | panic => exact hret rfl
    rw [h, hnone]
    exact ⟨hhanded, rfl⟩
  · have hnone : registrationOf p m.tables.ids packet = none := by
      simp [registrationOf, hname]
    rw [h, hnone]
    rcases convert_to_transfer_cases { m.handed packet with state := .registration true lastKey }
      with ⟨_, hc⟩ | ⟨_, hc⟩
    · rw [hc]
      exact ⟨hhanded, rfl⟩
    · rw [hc]
      exact ⟨hhanded, rfl⟩
  · rw [h] at hret
    exact absurd rfl hret
  · obtain ⟨hle, hids, _⟩ := insert_length hinsert
    have hle' : id.toNat ≤ m.tables.ids.length := hle
    have hsome : registrationOf p m.tables.ids packet = some (id, g) := by
      simp [registrationOf, hname, hne, hid, hg, hle']
    rw [h, hsome]
    refine ⟨hhanded, hle', ?_⟩
    have hneeds : ordererCapacity p g = kind.orderability.map OrderedChannel.capacity := by
      simp [ordererCapacity, hkind]
    refine Tables.ext hids (funext fun i => ?_)
    have hslots := orderer_for_slots kind id m.orderers i
    rw [← hneeds] at hslots
    refine hslots.trans ?_
    simp only [Tables.enter]
    cases ordererCapacity p g with
    | none => rfl
    | some capacity =>
      show _ = Function.update m.tables.slots id.toNat (some capacity) i
      rw [Function.update_apply]
      rfl

theorem handle_registration_rebuilt {packet : Bytes} {received : Bool}
    {lastKey : Option SlotMapKey} (hst : m.state = .registration received lastKey)
    (h : Rebuilt p m) (hret : (handleRegistration p packet m).1 ≠ .panic) :
    Rebuilt p (handleRegistration p packet m).2 := by
  obtain ⟨hhanded, htables⟩ := handle_registration_tables hst hret
  have hfold : ((handleRegistration p packet m).2.handedPackets.foldl (enterPacket p) ([], true)) =
      enterPacket p (m.handedPackets.foldl (enterPacket p) ([], true)) packet := by
    rw [hhanded, List.foldl_append]
    rfl
  obtain ⟨hids, hbounded, haligned⟩ := h
  unfold enteredBehind at haligned
  cases hreg : registrationOf p m.tables.ids packet with
  | none =>
    rw [hreg] at htables
    have hsame : enterPacket p (m.handedPackets.foldl (enterPacket p) ([], true)) packet =
        m.handedPackets.foldl (enterPacket p) ([], true) := by
      rw [enterPacket, ← hids, hreg]
    rw [hsame] at hfold
    exact ⟨by rw [htables, hfold, hids], htables ▸ hbounded, by
      rw [htables, enteredBehind, hfold]
      exact haligned⟩
  | some entry =>
    obtain ⟨id, g⟩ := entry
    rw [hreg] at htables
    obtain ⟨hle, htables⟩ := htables
    have hnext : enterPacket p (m.handedPackets.foldl (enterPacket p) ([], true)) packet =
        (m.tables.ids.insertIdx id.toNat g,
          (m.handedPackets.foldl (enterPacket p) ([], true)).2 &&
            Tables.behind (ordererCapacity p) m.tables.ids id.toNat) := by
      rw [enterPacket, ← hids, hreg]
    rw [hnext] at hfold
    refine ⟨by rw [htables, hfold]; rfl, htables ▸ hbounded.enter hle g, ?_⟩
    rw [htables, Tables.aligned_enter_iff hbounded hle, haligned, enteredBehind, hfold,
      Bool.and_eq_true]

theorem handle_packet_rebuilt {packet : Bytes} (h : Rebuilt p m)
    (hret : (handlePacket p globalId channel packet m).1 ≠ .panic) :
    Rebuilt p (handlePacket p globalId channel packet m).2 := by
  by_cases hm : m.state ≠ .transfer ∧ channel.localId = channelManagementChannelIdRegistrationStage
  · obtain ⟨hst, hid⟩ := hm
    rcases hm : m.state with ⟨received, lastKey⟩ | _
    · rw [handle_packet_management hm hid] at hret ⊢
      exact handle_registration_rebuilt hm h hret
    · exact absurd hm hst
  · have hmoves : ReflTransGen (Move handlingOnly) m
        (handlePacket p globalId channel packet m).2 :=
      handle_packet_moves trivial trivial (fun _ _ => trivial)
        (fun hst hid => absurd ⟨hst, hid⟩ hm)
    exact h.same (same_tables id id hmoves)

/-- Writing at a place of the registration stage leaves the tables alone. -/
theorem write_same_tables {id : U32} {value : Option PacketOrderer}
    {orderers : ChannelData (Option PacketOrderer)} {state : ConnectionState}
    (hst : state ≠ .transfer)
    (h : (m.orderers.write state id value : Outcome ConnectionError _) = .ok orderers) :
    SameTables m { m with orderers := orderers } := by
  obtain ⟨place, hplace, _, hread⟩ := ChannelData.write_ok h
  refine ⟨Tables.ext rfl (funext fun i => ?_), rfl⟩
  have hne : Place.basic i ≠ place := by
    rintro rfl
    cases state with
    | transfer => exact hst rfl
    | registration received lastKey =>
      unfold placeOf at hplace
      simp only at hplace
      split at hplace
      · cases hplace
      · split at hplace <;> cases hplace
  show ((orderers.read (.basic i)).join.map PacketOrderer.capacity) = _
  rw [hread, if_neg hne]
  rfl

/-- In the registration stage the handled packets keep the tables in step, however it ends. -/
theorem retain_rebuilt (globalId : U32) (channel : ConnectionChannel) (o : PacketOrderer)
    (h : Rebuilt p m)
    (hret : (o.retain (handlePacket p globalId channel) m).1 ≠ .panic) :
    Rebuilt p (o.retain (handlePacket p globalId channel) m).2.2 := by
  have ends := o.retain_ends (handlePacket p globalId channel) (I := fun _ t => Rebuilt p t)
    (K := fun r t => r ≠ .panic → Rebuilt p t)
    (fun _ t x ht _ => ⟨fun hok => handle_packet_rebuilt ht (by simp [hok]),
      fun _ hret => handle_packet_rebuilt ht hret⟩) (fun _ _ _ hp => absurd rfl hp) h
  by_cases hok : (o.retain (handlePacket p globalId channel) m).1 = .ok ()
  · exact ends.1 hok
  · exact ends.2 hok hret

/-- In the transfer stage no packet is refused by its handler, and the tables stay. -/
theorem retain_transfer (globalId : U32) (channel : ConnectionChannel) (o : PacketOrderer)
    (hst : m.state = .transfer) :
    ((o.retain (handlePacket p globalId channel) m).1 = .ok () →
      SameTables m (o.retain (handlePacket p globalId channel) m).2.2 ∧
      (o.retain (handlePacket p globalId channel) m).2.2.orderers = m.orderers ∧
      (o.retain (handlePacket p globalId channel) m).2.1.capacity = o.capacity) ∧
    ((o.retain (handlePacket p globalId channel) m).1 ≠ .ok () →
      ∀ e, (o.retain (handlePacket p globalId channel) m).1 ≠ .err e) := by
  have handles {t : Endpoint} (x : Bytes) (ht : t.state = .transfer) :
      ReflTransGen (Move handlingOnly) t (handlePacket p globalId channel x t).2 :=
    handle_packet_moves trivial trivial (fun _ _ => trivial) (fun hne _ => absurd ht hne)
  have ends := o.retain_ends (handlePacket p globalId channel)
    (I := fun o' t => t.state = .transfer ∧ SameTables m t ∧ t.orderers = m.orderers ∧
      o'.capacity = o.capacity)
    (K := fun r _ => ∀ e, r ≠ .err e)
    (fun o' t x ht _ => ⟨fun _ => ⟨transfer_stays (handles x ht.1) ht.1,
        ht.2.1.trans (same_tables id id (handles x ht.1)),
        (same_orderers id (handles x ht.1)).trans ht.2.2.1, ht.2.2.2⟩,
      fun _ => handle_packet_ne_err (Or.inl ht.1)⟩)
    (fun _ _ _ => by simp) ⟨hst, .refl m, rfl, rfl⟩
  exact ⟨fun hok => (ends.1 hok).2, ends.2⟩

/-- Handing an ordered packet to its channel keeps the tables in step, unless its orderer refuses
it. -/
theorem deliver_rebuilt {order : Option U32} {payload : Bytes} (h : Rebuilt p m)
    (rings : Rings m.orderers) (hret : (deliver p globalId channel order payload m).1 ≠ .panic)
    (accepted : ∀ e, (deliver p globalId channel order payload m).1 ≠ .err (.packetOrdererError e)) :
    Rebuilt p (deliver p globalId channel order payload m).2 := by
  cases order with
  | none => exact handle_packet_rebuilt h hret
  | some order =>
    have hdel := deliver_delivery p globalId channel order payload m
    rcases hd : deliver p globalId channel (some order) payload m with ⟨r, m'⟩
    rw [hd] at hdel hret accepted
    cases hdel with
    | missing => exact absurd rfl hret
    | absent => exact absurd rfl hret
    | overgrown => exact absurd rfl hret
    | dropped => exact absurd rfl hret
    | refused o orderers e slot take push => exact absurd rfl (accepted e)
    | stopped o o' orderers slot take push failed =>
      by_cases hst : m.state = .transfer
      · have hno := (retain_transfer (p := p) globalId channel o'
          (m := { m with orderers := orderers }) hst).2 failed
        cases hr : (o'.retain (handlePacket p globalId channel) { m with orderers := orderers }).1 with
        | ok _ => exact absurd hr failed
        | err e => exact absurd hr (hno e)
        | panic => exact absurd hr hret
      · exact retain_rebuilt globalId channel o' (h.same (write_same_tables hst take)) hret
    | done o o' o'' orderers orderers' t slot take push handled back =>
      by_cases hst : m.state = .transfer
      · obtain ⟨hsame, horderers, hcapacity⟩ := (retain_transfer (p := p) globalId
          channel o' (m := { m with orderers := orderers }) hst).1 (by rw [handled])
        rw [handled] at hsame horderers hcapacity
        rw [hst] at slot take back
        obtain ⟨place, hplace, hslot⟩ := ChannelData.get_ok.mp slot
        obtain ⟨place1, hplace1, _, htake⟩ := ChannelData.write_ok take
        obtain ⟨place2, hplace2, _, hback⟩ := ChannelData.write_ok back
        simp only [placeOf, Option.some.injEq] at hplace hplace1 hplace2
        refine h.same ⟨Tables.ext ?_ (funext fun i => ?_), hsame.handed⟩
        · have hids : t.tables.ids = Tables.ids (Endpoint.tables { m with orderers := orderers }) :=
            congrArg Tables.ids hsame.tables
          exact hids
        · show ((orderers'.read (.basic i)).join.map PacketOrderer.capacity) =
            ((m.orderers.read (.basic i)).join.map PacketOrderer.capacity)
          rw [hback, show t.orderers = orderers from horderers, htake, ← hplace1, ← hplace2]
          split
          · rename_i hi
            have hcap : o''.capacity = o.capacity := hcapacity.trans
              (PacketOrderer.push_window (rings _ o hslot).sound push).2.1
            rw [hi, hplace, hslot]
            simp [hcap]
          · rfl
      · have ht := retain_rebuilt (p := p) globalId channel o'
          (h.same (write_same_tables hst take)) (by rw [handled]; simp)
        rw [handled] at ht
        exact ht.same (write_same_tables hst back)

theorem Rebuilt.moves (h : Rebuilt p m) (hr : ¬ s.registers) (hh : ¬ s.holds)
    (hmoves : ReflTransGen (Move s) m m') : Rebuilt p m' :=
  h.same (same_tables hr hh hmoves)

/-- A datagram that no orderer refuses keeps the tables in step. -/
theorem handle_message_rebuilt {now : Nat} {d : Bytes} (hc : m.Compact) (rings : Rings m.orderers)
    (h : Rebuilt p m) (hret : (handleMessage p now d m).1 ≠ .panic)
    (accepted : ∀ e, (handleMessage p now d m).1 ≠ .err (.packetOrdererError e)) :
    Rebuilt p (handleMessage p now d m).2 := by
  have hmoves : ReflTransGen (Move handlingOnly) m (readPacket p d m).2 :=
    read_packet_moves trivial m
  have h0 : Rebuilt p (readPacket p d m).2 := h.moves id id hmoves
  rcases handle_message_cases p now d m with ⟨result, m', he, _, _, hend⟩ | ⟨inc, hinc, hrest⟩
  · rw [he] at h0
    rw [hend]
    exact h0
  have hack := acknowledge_acknowledging (read_packet_compact hc) hinc
  have hacked := h0.moves id id hack
  rcases hrest with ⟨_, he⟩ | ⟨_, ⟨_, joiner, he⟩ | ⟨order, payload, m', hreach, he⟩⟩
  · rw [he]
    exact hacked
  · rw [he]
    exact hacked.same ⟨rfl, rfl⟩
  · obtain ⟨_, _, joiner, rfl⟩ := hreach.prepared (read_packet_compact hc)
    obtain ⟨hresult, time, hend⟩ := touch_ends
      (deliver p inc.globalChannelId inc.channel order payload)
      { (acknowledgeIfNeeded d inc.header.resendKey (readPacket p d m).2).2 with joiner := joiner }
      now
    rw [he, hresult] at hret accepted
    rw [he, hend]
    have hrings : Rings (acknowledgeIfNeeded d inc.header.resendKey (readPacket p d m).2).2.orderers := by
      rw [same_orderers id hack, same_orderers id hmoves]
      exact rings
    have hjoined : Rebuilt p { (acknowledgeIfNeeded d inc.header.resendKey
        (readPacket p d m).2).2 with joiner := joiner } := hacked.same ⟨rfl, rfl⟩
    have hdelivered := deliver_rebuilt hjoined hrings hret accepted
    exact hdelivered.same ⟨rfl, rfl⟩

theorem send_event_tables (p : ChannelProvider) (g : U32) (payload : Bytes) (m : Endpoint) :
    SameTables m (sendEvent p g payload m).2 := by
  refine send_event_ends (.refl m) (fun _ => ⟨rfl, ?_⟩) (fun kind order t ht => ?_)
  · simp [Endpoint.handedPackets, List.filterMap_append, Event.handed?]
  · exact ht.trans (same_tables id id (transmit_sending kind order payload t))

/-- The datagram is not refused by an orderer. -/
def unrefused (p : ChannelProvider) (m : Endpoint) (d : Bytes) : Bool :=
  decide ((handleMessage p 0 d m).1 ≠ .err (.packetOrdererError .capacityReached))

/-- What a datagram comes to does not depend on the time. -/
theorem handle_message_result (p : ChannelProvider) (now now' : Nat) (d : Bytes) (m : Endpoint) :
    (handleMessage p now d m).1 = (handleMessage p now' d m).1 := by
  simp only [handleMessage, Act.bind_apply]
  rcases readPacket p d m with ⟨_ | _ | _, m0⟩
  · rename_i inc
    simp only
    rcases acknowledgeIfNeeded d inc.header.resendKey m0 with ⟨_ | _ | _, m1⟩
    · simp only
      rcases receive inc.channel.channel inc.header m1 with ⟨_ | _ | _, m2⟩
      · rename_i message
        cases message with
        | none => rfl
        | some message =>
          simp only [Act.bind_apply]
          rcases deliver p inc.globalChannelId inc.channel message.1 message.2 m2 with
            ⟨_ | _ | _, m3⟩ <;> rfl
      · rfl
      · rfl
    · rfl
    · rfl
  · rfl
  · rfl

theorem unrefused_call_rebuilds (hm : Reachable p m) (h : GuardedCall (unrefused p) p m m')
    (hb : Rebuilt p m) : Rebuilt p m' := by
  obtain ⟨input, ⟨hret, rfl⟩, accepted⟩ := h
  have hc := hm.passed.compact
  cases input with
  | read now d =>
    refine handle_message_rebuilt hc hm.rings hb hret (fun e => ?_)
    cases e
    rw [handle_message_result p now 0]
    exact of_decide_eq_true accepted
  | tick delta => exact hb.moves id id (update_connection_moves (s := flushing) hc (fun _ => ⟨rfl, rfl⟩))
  | send g payload => exact hb.same (send_event_tables p g payload m)

theorem opened_rebuilt {channels : List (String × U32)} {now capacity : Nat}
    {mapper : ConnectionIdMapperInner} : Rebuilt p (opened channels now capacity mapper) := by
  have hhanded : (opened channels now capacity mapper).handedPackets = [] := by
    refine List.filterMap_eq_nil_iff.mpr (fun event hevent => ?_)
    obtain ⟨i, packet, _, rfl | rfl⟩ := opened_events hevent <;> rfl
  have htables : (opened channels now capacity mapper).tables = ⟨[], fun _ => none⟩ :=
    Tables.ext rfl (funext fun _ => rfl)
  refine ⟨by rw [hhanded, htables]; rfl, htables ▸ Tables.bounded_empty, ?_⟩
  rw [hhanded, htables]
  exact iff_of_true Tables.aligned_empty rfl

/-- Along every run in which no orderer refuses a packet, the orderers are aligned with the
channels that the other side registered exactly when none was entered before an ordered one. -/
theorem orderers_aligned_iff_behind {now : Nat}
    (init : initializeConnection p (.fresh now) = (.ok (), m))
    (run : ReflTransGen (GuardedCall (unrefused p) p) m m') :
    OrderersAligned p m' ↔ enteredBehind p m'.handedPackets = true := by
  have hm : Reachable p m := .initialized now m init
  have h : Rebuilt p m' := by
    induction run with
    | refl =>
      obtain ⟨_, _, _, _, rfl⟩ := initialize_opened init
      exact opened_rebuilt
    | tail before h ih => exact unrefused_call_rebuilds (hm.guarded before) h ih
  rw [orderers_aligned_iff]
  exact h.aligned

end

/-- A connection of `voiceRegistry` that has sent its registration. -/
def voiceOpened : Endpoint := (initializeConnection voiceRegistry.provider (.fresh 0)).2

/-- The registration of a peer with the same registry, and then its first acknowledgement. -/
def voiceGreeting : List Input :=
  voiceOpened.datagrams.map (.read 1) ++ [.read 1 [0, 0, 0]]

def voiceGreeted : Endpoint :=
  (performGuarded (unrefused voiceRegistry.provider) voiceRegistry.provider voiceGreeting
    voiceOpened).getD voiceOpened

theorem orderers_aligned_iff_behind_greeted :
    OrderersAligned voiceRegistry.provider voiceGreeted :=
  have opened : (initializeConnection voiceRegistry.provider (.fresh 0)).1 = .ok () := by
    decide +kernel
  have run : performGuarded (unrefused voiceRegistry.provider) voiceRegistry.provider voiceGreeting
      voiceOpened ≠ none := by decide +kernel
  have behind : enteredBehind voiceRegistry.provider voiceGreeted.handedPackets = true := by
    decide +kernel
  (orderers_aligned_iff_behind (eq_of_fst opened)
    (guarded_calls (Option.getD_of_ne_none run voiceOpened).symm)).mpr behind

/-- The datagram is handled without an error. -/
def faultless (p : ChannelProvider) (m : Endpoint) (d : Bytes) : Bool :=
  decide ((handleMessage p 0 d m).1 = .ok ())

/-- The ordered channel is registered with the local id 0, and then the ack channel with the same
id. -/
def shifting : List Input :=
  [.read 1 (registrationDatagram 0 (nameBytes "voice" ++ [0])),
    .read 1 (registrationDatagram 1 (nameBytes ackChannelName ++ [0])),
    .read 1 (registrationDatagram 2 (nameBytes "")), .read 1 [0, 0, 0]]

def shifted : Endpoint :=
  (performGuarded (faultless voiceRegistry.provider) voiceRegistry.provider shifting
    voiceOpened).getD voiceOpened

/-- No datagram was in error, but the ordered channel has moved up to a local id without an
orderer, and its first packet panics. -/
theorem shifted_orderer_missing :
    ReflTransGen (GuardedCall (faultless voiceRegistry.provider) voiceRegistry.provider)
      voiceOpened shifted ∧
    Reachable voiceRegistry.provider shifted ∧ shifted.state = .transfer ∧
      ¬ OrderersAligned voiceRegistry.provider shifted ∧
      (handleMessage voiceRegistry.provider 2 [2, 0, 7] shifted).1 = .panic := by
  have opened : (initializeConnection voiceRegistry.provider (.fresh 0)).1 = .ok () := by
    decide +kernel
  have ran : performGuarded (faultless voiceRegistry.provider) voiceRegistry.provider shifting
      voiceOpened ≠ none := by decide +kernel
  have run := guarded_calls (Option.getD_of_ne_none ran voiceOpened).symm
  have hm : Reachable voiceRegistry.provider voiceOpened := .initialized 0 _ (eq_of_fst opened)
  refine ⟨run, hm.guarded run, by decide +kernel, fun h => ?_, by decide +kernel⟩
  have mapped : shifted.notLocalInner.localIdToGlobalId[1]? = some 2 := by decide +kernel
  have missing : shifted.orderers.basicStage[1]? = none := by decide +kernel
  obtain ⟨o, ho, _⟩ := h 1 2 _ _ mapped rfl rfl
  rw [missing] at ho
  cases ho

end Theta
