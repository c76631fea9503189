import Theta.Proofs.Admission
import Theta.Proofs.Outstanding
import Theta.Proofs.Soundness
import Theta.Proofs.Stages

namespace Theta
open Lib Relation

/-- The orderer of the registration stage takes the packet. -/
def takes (m : Endpoint) (order : U32) (payload : Bytes) : Bool :=
  match m.orderers.channelManagementRegistrationStage with
  | some o =>
    match o.push order.toNat payload with
    | .ok _ => true
    | _ => false
  | none => false

/-- No registration packet is acknowledged that the orderer does not take. -/
def Registry.admitting (r : Registry) (m : Endpoint) : Input → Bool
  | .read _ d =>
    match readPacket r.provider d m with
    | (.ok inc, t) =>
      match t.state, inc.header.order with
      | .registration _ _, some order =>
        !acknowledges t inc.header.resendKey || takes t order inc.header.payload
      | _, _ => true
    | _ => true
  | _ => true

/-- The registration packet of this key was accepted. -/
def Warranted (P : Registry) (m : Endpoint) (key : SlotMapKey) : Prop :=
  ∀ i payload, (announcements (sortedChannels P.provider))[i]? = some payload →
    key = firstKey i → Accepted m i payload

/-- A side has its orderer of the registration stage, and acknowledges no registration packet but
those that it has accepted. -/
structure Heeding (P : Registry) (m : Endpoint) : Prop where
  present : m.orderers.channelManagementRegistrationStage ≠ none
  vouched : Vouched (Warranted P m) m

section
variable {P Q : Registry} {E : Prop} {a m m' t : Endpoint} {d : Bytes} {key : Option SlotMapKey}
  {result : Outcome ConnectionError Unit}

theorem Warranted.later {key : SlotMapKey} (h : Warranted P m key) (log : m.log <+: m'.log)
    (slot : m'.orderers.channelManagementRegistrationStage =
      m.orderers.channelManagementRegistrationStage) : Warranted P m' key :=
  fun i payload place hkey => (h i payload place hkey).later log slot

/-- What a datagram of the registration stage is, it is to every reader. -/
theorem registration_incoming {p : ChannelProvider} {inc : Incoming} {i : Nat} {payload : Bytes}
    (hst : m.state ≠ .transfer)
    (hread : readPacket p (registrationDatagram i payload) m = (.ok inc, m)) :
    inc = registrationIncoming i payload := by
  cases hm : m.state with
  | registration received lastKey =>
    rw [read_registration hm] at hread
    cases hread
    rfl
  | transfer => exact absurd hm hst

/-- A registration packet that the guard lets pass and that is acknowledged is taken by its
orderer. -/
theorem admitting_takes {now i : Nat} {payload : Bytes}
    (allowed : Q.admitting m (.read now d) = true) (hst : m.state ≠ .transfer)
    (hread : readPacket Q.provider d m = (.ok ⟨channelManagementChannelIdRegistrationStage,
      registrationChannel, ⟨none, some (BitVec.ofNat 32 i), key, payload⟩⟩, m))
    (acknowledged : acknowledges m key = true) :
    ∃ o o', m.orderers.channelManagementRegistrationStage = some o ∧
      o.push (BitVec.ofNat 32 i : U32).toNat payload = .ok o' := by
  cases hm : m.state with
  | transfer => exact absurd hm hst
  | registration received lastKey =>
    simp only [Registry.admitting, hread, hm, acknowledged, Bool.not_true, Bool.false_or] at allowed
    unfold takes at allowed
    split at allowed
    · rename_i o slot
      split at allowed
      · rename_i o' push
        exact ⟨o, o', slot, push⟩
      · cases allowed
    · cases allowed

/-- A datagram of the registration stage loses nothing that was accepted, and an acknowledged packet
in it is accepted. -/
theorem Heeding.read {now : Nat} (h : Heeding P m) (hc : m.Compact)
    (agreeing : Agreeing E (Q.translate (sortedChannels P.provider)) m) (covers : Covers P Q)
    (short : ∀ entry ∈ P.nameToId, (utf8 entry.1).length ≤ channelNameMaxLen)
    (last : Entered (sortedChannels P.provider) a.localInner → E) (spoken : Spoken P a key d)
    (keyed : ∀ i payload, (announcements (sortedChannels P.provider))[i]? = some payload →
      key = some (firstKey i) → d = registrationDatagram i payload)
    (allowed : Q.admitting m (.read now d) = true)
    (hst : (readPacket Q.provider d m).2.state ≠ .transfer) :
    Heeding P (handleMessage Q.provider now d m).2 := by
  have stays : (readPacket Q.provider d m).2 = m := read_packet_stays hst
  have registers : m.state ≠ .transfer := stays ▸ hst
  have places := translate_announcements Q (sortedChannels P.provider)
  have length : (Q.translate (sortedChannels P.provider)).length = (sortedChannels P.provider).length :=
    List.length_map _
  have small {i : Nat} {payload : Bytes}
      (place : (announcements (sortedChannels P.provider))[i]? = some payload) :
      (BitVec.ofNat 32 i : U32).toNat = i := SlotMap.index_of_fits ((sorted_few P).small place)
  have acknowledged {inc : Incoming} {t : Endpoint} {result : Outcome ConnectionError Unit}
      (hread : readPacket Q.provider d m = (.ok inc, m)) (hkey : inc.header.resendKey = key)
      (hack : acknowledgeIfNeeded d key m = (result, t)) :
      ReflTransGen (Move (acknowledging Q.provider d)) m t ∧ SameReceipts m t ∧
        (result = .ok () → acknowledges m key = true) := by
    have moves : ReflTransGen (Move (acknowledging Q.provider d)) m (acknowledgeIfNeeded d key m).2 :=
      acknowledge_if_needed_moves hc (fun k hk => ⟨rfl, inc, hread, hkey.trans hk⟩) (fun _ => ⟨rfl, rfl⟩)
    have works : (acknowledgeIfNeeded d key m).1 = .ok () → acknowledges m key = true :=
      acknowledged_acknowledges registers hc
    rw [hack] at moves works
    exact ⟨moves, same_receipts acknowledging_quiet moves, works⟩
  have untouched {t : Endpoint} (log : m.log <+: t.log) (orderers : t.orderers = m.orderers)
      (vouched : Vouched (Warranted P m) t) : Heeding P t := by
    refine ⟨by rw [orderers]; exact h.present, vouched.mono fun k hk => ?_⟩
    exact hk.later log (by rw [orderers])
  refine handle_registering spoken hst h
    (fun t time ht => ⟨ht.present, ⟨ht.vouched.sent, ht.vouched.held⟩, ht.vouched.buffer⟩) ?_ ?_
  · intro i payload result t place final hread hack
    obtain ⟨moves, same, works⟩ := acknowledged hread rfl hack
    obtain ⟨fails, succeeds⟩ := h.vouched.acknowledge_if_needed registers hc hack
    refine ⟨fun hne => untouched (log_grows moves) same.orderers (fails hne), fun hok => ?_⟩
    obtain ⟨o, o', slot, push⟩ := admitting_takes allowed registers hread (works hok)
    have there : Agreeing E (Q.translate (sortedChannels P.provider)) t :=
      moves_agreeing id False.elim moves agreeing
    obtain ⟨u, hrun, present, accepted, kept⟩ := there.admit
      (g := channelManagementChannelIdRegistrationStage) (covers.shared short) covers.entries_named
      (same.state ▸ registers) (places ▸ place) (fun hi => last (final (hi.trans length)))
      (same.orderers ▸ slot) push
    have delivered := deliver_delivering Q.provider channelManagementChannelIdRegistrationStage
      registrationChannel (some (BitVec.ofNat 32 i)) payload t
    have steady := (deliver_follows steady_tolerant Q.provider
      channelManagementChannelIdRegistrationStage registrationChannel (some (BitVec.ofNat 32 i))
      payload).holds t
    have vouched := (succeeds hok).handled delivered (fun _ _ _ => id) steady
    rw [hrun] at vouched ⊢
    refine ⟨present, vouched.mono fun k hk j x hx hj => ?_⟩
    rcases hk with old | hkey
    · have held : Accepted t j x := (old.later (log_grows moves) (by rw [same.orderers])) j x hx hj
      exact kept j x (places ▸ hx) held
    · have hd := keyed j x hx (hj ▸ hkey)
      rw [hd] at hread
      have he := registration_incoming registers hread
      simp only [registrationIncoming, Incoming.mk.injEq, PacketHeader.mk.injEq, Option.some.injEq,
        true_and] at he
      obtain ⟨horder, _, rfl⟩ := he
      obtain rfl : i = j := by
        rw [← small place, horder, small hx]
      exact accepted
  · intro keys result t known hread hack
    obtain ⟨moves, same, _⟩ := acknowledged hread rfl hack
    obtain ⟨fails, succeeds⟩ := h.vouched.acknowledge_if_needed registers hc hack
    refine ⟨fun hne => untouched (log_grows moves) same.orderers (fails hne), fun hok => ?_⟩
    have vouched : Vouched (Warranted P m) t := by
      refine (succeeds hok).mono fun k hk => ?_
      rcases hk with old | hkey
      · exact old
      · intro j x hx hj
        rw [keyed j x hx (hj ▸ hkey)] at hread
        cases registration_incoming registers hread
    have handled : ReflTransGen (Move handlingOnly) t (handlePacket Q.provider
        ackChannelIdRegistrationStage ⟨ackChannelIdRegistrationStage, ackChannel⟩
        (keys.flatMap SlotMapKey.encode) t).2 :=
      handle_packet_moves trivial trivial (fun _ _ => trivial) (fun _ he => absurd he (by decide))
    have steady := (handle_packet_follows steady_tolerant Q.provider ackChannelIdRegistrationStage
      ⟨ackChannelIdRegistrationStage, ackChannel⟩ (keys.flatMap SlotMapKey.encode)).holds t
    refine untouched ((log_grows moves).trans (log_grows handled)) ?_
      (vouched.handled handled (fun _ _ _ => id) steady)
    exact (handle_packet_same_orderers (fun _ => by decide)).trans same.orderers

/-- Whoever leaves the registration stage on a packet's channel does not come back to it. -/
theorem speculation_stays {p : ChannelProvider} {now : Nat} (hc : m.Compact)
    (h : (readPacket p d m).2.state = .transfer) : (handleMessage p now d m).2.state = .transfer := by
  have compact : (readPacket p d m).2.Compact := read_packet_compact hc
  rcases hread : readPacket p d m with ⟨result, t⟩
  rw [hread] at h compact
  cases result with
  | ok inc =>
    have first : handleMessage p now d m = _ := Act.bind_of_ok hread
    have again : handleMessage p now d t = _ := Act.bind_of_ok (read_packet_again hread)
    rw [first.trans again.symm]
    exact transfer_stays (handle_message_work compact) h
  | err e =>
    have stopped : handleMessage p now d m = (.err e, t) := Act.bind_of_err hread
    rw [stopped]
    exact h
  | panic =>
    have stopped : handleMessage p now d m = (.panic, t) := Act.bind_of_panic hread
    rw [stopped]
    exact h

/-- The channels of a registry have no ids in the registration stage. -/
theorem send_registering {r : Registry} {channel : U32} {payload : Bytes}
    (offered : (r.provider.byId channel).isSome) (hst : m.state ≠ .transfer) :
    sendEvent r.provider channel payload m = (.ok (), m) := by
  cases hm : m.state with
  | transfer => exact absurd hm hst
  | registration received lastKey =>
    simp only [sendEvent, Act.bind_apply, Act.get_apply, hm, ConnectionIdMapperInner.localId,
      provided_unregistered offered, Act.pure_apply]

/-- A side issues its first keys for its registration packets. -/
theorem Reachable.announced {r : Registry} (h : Reachable r.provider m) {i : Nat} {payload : Bytes}
    (place : (announcements (sortedChannels r.provider))[i]? = some payload) :
    .issued (firstKey i) (registrationDatagram i payload) ∈ m.log := by
  induction h with
  | initialized now m h =>
    obtain ⟨capacity, mapper, _, _, rfl⟩ := initialize_opened h
    have hlt := (List.getElem?_eq_some_iff.mp place).1
    rw [announcements_length] at hlt
    exact @opening_logs _ now capacity _ mapper _ _ _ rfl hlt place
  | step input m m' before h ih =>
    have work : ReflTransGen (Work r.provider) m (perform r.provider input m).2 :=
      perform_work before.passed.compact
    rw [h.2] at work
    exact (work_log_grows work).subset ih

theorem Standing.announced {peer : Peer} (h : Standing P peer)
    (fits : peer.endpoint.resender.packets.Fits) {i : Nat} {payload : Bytes}
    (place : (announcements (sortedChannels P.provider))[i]? = some payload)
    (issued : .issued (firstKey i) d ∈ peer.endpoint.log) : d = registrationDatagram i payload := by
  have unique := (h.chronicled fits).unique (firstKey i)
  cases h with
  | closed => cases issued
  | live m reachable => exact unique d _ issued (reachable.announced place)
  | lost m m' reachable work =>
    exact unique d _ issued ((work_log_grows work).subset (reachable.announced place))
  | refused now fails =>
    rcases initialize_opens P.provider now with ⟨_, _, _, _, heq⟩ | ⟨_, _, k, _, _, _, hlog⟩
    · rw [heq] at fails
      exact absurd rfl fails
    · rw [hlog] at issued
      obtain ⟨j, payload', _, place', he | he⟩ := opening_events issued
      · simp only [Event.issued.injEq] at he
        obtain rfl := first_key_inj ((sorted_few P).small place) ((sorted_few P).small place') he.1
        cases place.symm.trans place'
        exact he.2
      · cases he

end

section
variable {P Q : Registry} {guard : Endpoint → Input → Bool}

theorem opened_heeding {now capacity : Nat} {mapper : ConnectionIdMapperInner}
    (conveyed : Conveyed (Warranted P (opened (sortedChannels Q.provider) now capacity mapper))
      (opened (sortedChannels Q.provider) now capacity mapper)) :
    Heeding P (opened (sortedChannels Q.provider) now capacity mapper) :=
  ⟨(fun ho => by cases ho), conveyed, [], rfl, fun _ hkey => absurd hkey List.not_mem_nil⟩

/-- Whatever a side acknowledges in its registration stage, it has accepted. -/
theorem connected_heeding (covers : Covers P Q)
    (short : ∀ entry ∈ P.nameToId, (utf8 entry.1).length ≤ channelNameMaxLen) {s : Peer × Peer}
    (h : Connected P Q guard Q.admitting s) (fits : s.1.endpoint.resender.packets.Fits)
    (opened : s.2.stage ≠ .closed) (hst : s.2.endpoint.state ≠ .transfer) :
    Conveyed (Warranted P s.2.endpoint) s.2.endpoint := by
  have link := @receiver_link P Q guard Q.admitting
    (fun a m => a.endpoint.resender.packets.Fits → m.state ≠ .transfer →
      Conveyed (Warranted P m) m ∧ ((∃ capacity, Initializes Q.provider capacity) → Heeding P m))
    (fun a b => Standing P a ∧ (b.stage = .live → Agreeing
      (a.stage ≠ .closed ∧ Entered (sortedChannels P.provider) a.endpoint.localInner)
      (Q.translate (sortedChannels P.provider)) b.endpoint))
    (fun b => b.stage ≠ .closed) s h
    (fun u run => ⟨(connected_standing run).1,
      fun hlive => connected_agreeing covers short run (Or.inl hlive)⟩)
    (fun b hlive => by simp [hlive]) ?_ ?_ ?_ ?_ ?_ ?_ opened
  · exact (link fits hst).1
  · intro a a' b m before _ step hm fits
    exact hm (Nat.le_trans (before.1.generations_le step) fits)
  · intro a _ there
    exact absurd rfl there
  · intro a now stage _ _ _ _ _
    have conveyed := initialize_conveyed
      (K := Warranted P (initializeConnection Q.provider (.fresh now)).2) Q.provider now
    refine ⟨conveyed, fun able => ?_⟩
    rcases initialize_opens Q.provider now with ⟨capacity, mapper, _, _, heq⟩ | ⟨unable, _⟩
    · rw [heq] at conveyed ⊢
      exact opened_heeding conveyed
    · obtain ⟨capacity, initializes⟩ := able
      exact absurd initializes (unable capacity)
  · intro a m delta _ hreach _ hm fits hst
    have hc := hreach.passed.compact
    have moves : ReflTransGen (Move flushing) m (updateConnection delta m).2 :=
      update_connection_moves hc (fun _ => ⟨rfl, rfl⟩)
    have same := same_receipts flushing_quiet moves
    have before := (hm fits (same.state ▸ hst)).2 hreach.initializes
    have ticked : Vouched (Warranted P m) (updateConnection delta m).2 :=
      before.vouched.tick (same.state ▸ hst) hc
    have vouched := ticked.mono fun k hk =>
      Warranted.later hk (log_grows moves) (by rw [same.orderers])
    have present : (updateConnection delta m).2.orderers.channelManagementRegistrationStage ≠ none := by
      rw [same.orderers]
      exact before.present
    exact ⟨vouched.toConveyed, fun _ => ⟨present, vouched⟩⟩
  · intro a m channel payload _ _ offered _ hm fits hst
    have registers : m.state ≠ .transfer :=
      (send_event_quiet Q.provider channel payload m).1.state ▸ hst
    rw [send_registering offered registers]
    exact hm fits registers
  · intro a m now d known hreach sent allowed hm fits hst
    have hc := hreach.passed.compact
    have reads : (readPacket Q.provider d m).2.state ≠ .transfer :=
      fun he => hst (speculation_stays hc he)
    have registers : m.state ≠ .transfer := fun he => reads (by rw [read_packet_transfer he, he])
    obtain ⟨key, spoken, issued⟩ := (known.1.chronicled fits).backed _ (mem_datagrams sent)
    have heeding := ((hm fits registers).2 hreach.initializes).read hc (known.2 rfl) covers short
      (fun entered => ⟨known.1.opened sent, entered⟩) spoken
      (fun i payload place hkey => known.1.announced fits place (issued _ hkey)) allowed reads
    exact ⟨heeding.vouched.toConveyed, fun _ => heeding⟩

end

/-- The keys of the registration packets that are held for resending. -/
def Registry.pledged (r : Registry) (m : Endpoint) : List SlotMapKey :=
  ((List.range (announcements (sortedChannels r.provider)).length).map firstKey).filter
    fun key => (m.resender.packets.get key).isSome

/-- A registration packet is not given up before it is acknowledged: the registration does not end
without it, and none of its resends is the last. -/
def Registry.patient (r : Registry) (m : Endpoint) : Input → Bool
  | .read _ d => !closes r.provider m d || (r.pledged m).all (· ∈ answers d)
  | .tick delta => decide (m.state = .transfer) || (r.pledged m).all fun key =>
      (m.resender.packets.get key).all fun packet => !PacketResender.expires packet delta
  | .send _ _ => true

/-- The other side has acknowledged the registration packet, or has the whole registration. -/
def Honoured (b : Endpoint) (i : Nat) : Prop :=
  (∃ d, .sent d ∈ b.log ∧ firstKey i ∈ answers d) ∨ b.state = .transfer

/-- A registration packet is held for resending, or the other side has honoured it. -/
def Owed (b m : Endpoint) (i : Nat) (payload : Bytes) : Prop :=
  (m.state ≠ .transfer ∧ Outstanding m i payload) ∨ Honoured b i

section
variable {P Q : Registry} {guard : Endpoint → Input → Bool} {m : Endpoint} {d : Bytes} {i : Nat}
  {payload : Bytes}

theorem Outstanding.pledged (h : Outstanding m i payload)
    (place : (announcements (sortedChannels P.provider))[i]? = some payload) :
    firstKey i ∈ P.pledged m := by
  obtain ⟨packet, hget, _⟩ := h
  refine List.mem_filter.mpr ⟨List.mem_map_of_mem ?_, by rw [hget]; rfl⟩
  exact List.mem_range.mpr (List.getElem?_eq_some_iff.mp place).1

/-- A tick that the guard lets pass keeps what is held. -/
theorem Outstanding.patient {delta : U32} (h : Outstanding m i payload)
    (place : (announcements (sortedChannels P.provider))[i]? = some payload)
    (hst : m.state ≠ .transfer) (allowed : P.patient m (.tick delta) = true)
    {packet : ReliableBufferedPacket} (held : m.resender.packets.get (firstKey i) = some packet) :
    PacketResender.expires packet delta = false := by
  simp only [Registry.patient, hst, decide_false, Bool.false_or, List.all_eq_true] at allowed
  have stays := allowed _ (h.pledged place)
  rw [held] at stays
  simpa using stays

theorem Honoured.step {b b' a : Peer} {guard guard' : Endpoint → Input → Bool}
    (h : Honoured b.endpoint i) (standing : Standing Q b)
    (step : (party Q guard).Step (party P guard') a b b') : Honoured b'.endpoint i := by
  rcases h with ⟨d, sent, answered⟩ | hst
  · exact Or.inl ⟨d, (standing.log_grows step).subset sent, answered⟩
  · exact Or.inr (standing.transfer_stays step hst)

/-- Each registration packet of a side is held for resending until it is acknowledged. -/
theorem connected_owed {s : Peer × Peer} (h : Connected Q P guard P.patient s)
    (fits : s.2.endpoint.resender.packets.Fits)
    (there : s.2.stage = .live ∨ s.2.endpoint.state = .transfer)
    (place : (announcements (sortedChannels P.provider))[i]? = some payload) :
    Owed s.1.endpoint s.2.endpoint i payload := by
  refine receiver_invariant (I := fun b m => m.resender.packets.Fits → Owed b.endpoint m i payload)
    h ?_ ?_ ?_ ?_ ?_ there fits
  · intro b b' a m before step owed fits
    exact (owed fits).imp_right fun honoured => honoured.step before step
  · intro b now capacity mapper _ _ _ _
    exact Or.inl ⟨(fun he => by cases he), opened_outstanding (sorted_few P) place⟩
  · intro b m delta _ hreach allowed owed fits
    have hc := hreach.passed.compact
    have moves : ReflTransGen (Move flushing) m (updateConnection delta m).2 :=
      update_connection_moves hc (fun _ => ⟨rfl, rfl⟩)
    rcases owed (Nat.le_trans (generations_le moves) fits) with ⟨hst, held⟩ | honoured
    · left
      rw [(same_receipts flushing_quiet moves).state]
      exact ⟨hst, held.tick hreach hst (fun _ => held.patient place hst allowed) fits⟩
    · exact Or.inr honoured
  · intro b m channel x _ _ offered _ owed fits
    by_cases hst : m.state = .transfer
    · have work : ReflTransGen (Work P.provider) m (sendEvent P.provider channel x m).2 :=
        send_event_work channel x m
      rcases owed (Nat.le_trans (work_generations_le work) fits) with ⟨hne, _⟩ | honoured
      · exact absurd hst hne
      · exact Or.inr honoured
    · rw [send_registering offered hst] at fits ⊢
      exact owed fits
  · intro b m now d key standing hreach spoken sent allowed owed fits
    have hc := hreach.passed.compact
    have work : ReflTransGen (Move (working P.provider)) m (handleMessage P.provider now d m).2 :=
      handle_message_work hc
    have before : m.resender.packets.Fits := Nat.le_trans (generations_le work) fits
    rcases owed before with ⟨hst, held⟩ | honoured
    swap
    · exact Or.inr honoured
    by_cases hread : (readPacket P.provider d m).2.state = .transfer
    · refine Or.inr (Or.inr ?_)
      by_contra registers
      exact speculation_transfers hst hread (standing.registering registers sent)
    rcases @read_holds_on _ _ _ _ _ now _ hreach spoken hread with ⟨hst', kept⟩ | ⟨_, ends⟩
    · rcases kept i payload held fits with held | answered
      · exact Or.inl ⟨hst', held⟩
      · exact Or.inr (Or.inl ⟨d, mem_datagrams sent, answered⟩)
    · simp only [Registry.patient, ends, Bool.not_true, Bool.false_or, List.all_eq_true,
        decide_eq_true_eq] at allowed
      exact Or.inr (Or.inl ⟨d, mem_datagrams sent, allowed _ (held.pledged place)⟩)

/-- Along every run in which a side gives up no registration packet that is not acknowledged, and the
other acknowledges none that its orderer does not take, each registration packet of a side in the
transfer stage was accepted. -/
theorem registration_accepted (covers : Covers P Q) {s : Peer × Peer}
    (h : Connected P Q P.patient Q.admitting s) (fits : s.1.endpoint.resender.packets.Fits)
    (hst : s.1.endpoint.state = .transfer) :
    ∀ i payload, (announcements (sortedChannels P.provider))[i]? = some payload →
      Accepted s.2.endpoint i payload ∨ Outstanding s.1.endpoint i payload := by
  intro i payload place
  obtain ⟨standing, standing'⟩ := connected_standing h
  obtain ⟨capacity, initializes⟩ := standing.initialized hst
  have short : ∀ entry ∈ P.nameToId, (utf8 entry.1).length ≤ channelNameMaxLen := fun entry he =>
    initializes.announceable.names entry ((sorted_perm P).mem_iff.mpr he)
  have swapped : Connected Q P Q.admitting P.patient s.swap := Party.exchange_swap h
  left
  by_cases there : s.2.endpoint.state = .transfer
  · have agreeing := connected_agreeing covers short h (Or.inr there)
    refine agreeing.complete_accepted (fun lastKey => by simp [there]) ?_
    rw [translate_announcements]
    exact place
  rcases connected_owed swapped fits (Or.inr hst) place with ⟨registers, _⟩ |
    ⟨d, sent, answered⟩ | transferred
  · exact absurd hst registers
  · have sent : .sent d ∈ s.2.endpoint.log := sent
    have opened : s.2.stage ≠ .closed := by
      intro closed
      rw [standing'.unopened closed] at sent
      cases sent
    exact (connected_heeding covers short h fits opened there).sent d sent _ answered i payload place rfl
  · exact absurd transferred there

end

def shaking (schedule : List (Side × Deed)) : Peer × Peer :=
  (exchangeAll chatRegistry chatRegistry chatRegistry.patient chatRegistry.admitting schedule
    ({}, {})).getD ({}, {})

theorem chat_covers : Covers chatRegistry chatRegistry := by
  refine ⟨fun entry he => ?_, by decide +kernel⟩
  have known : chatRegistry.provider.byName entry.1 = some entry.2 := Registry.by_name.mpr he
  rw [known]
  rfl

theorem registration_accepted_acquainted :
    (shaking acquainting).1.endpoint.state = .transfer ∧
      ∀ i payload, (announcements (sortedChannels chatRegistry.provider))[i]? = some payload →
        Accepted (shaking acquainting).2.endpoint i payload ∨
          Outstanding (shaking acquainting).1.endpoint i payload := by
  have ran : exchangeAll chatRegistry chatRegistry chatRegistry.patient chatRegistry.admitting
      acquainting ({}, {}) ≠ none := by decide +kernel
  have transferred : (shaking acquainting).1.endpoint.state = .transfer := by decide +kernel
  exact ⟨transferred, registration_accepted chat_covers
    (exchange_all (Option.getD_of_ne_none ran ({}, {})).symm)
    (by unfold SlotMap.Fits; decide +kernel) transferred⟩

/-- The right side reads the last registration packet of the left side and no other, and
acknowledges it. -/
def hasty : List (Side × Deed) :=
  [(.left, .establish 0), (.right, .establish 0)] ++
    (List.range 4).map (fun i => (.left, .read 1 i)) ++
    [(.right, .read 1 3), (.right, .tick 1), (.left, .read 2 4)]

def hurried : Peer × Peer :=
  (exchangeAll chatRegistry chatRegistry anyInput anyInput hasty ({}, {})).getD ({}, {})

/-- The left side enters the transfer stage and gives up its other registration packets. -/
theorem hurried_registration_lost :
    Connected chatRegistry chatRegistry anyInput anyInput hurried ∧
      hurried.1.endpoint.state = .transfer ∧
      ∃ payload, (announcements (sortedChannels chatRegistry.provider))[0]? = some payload ∧
        ¬ Accepted hurried.2.endpoint 0 payload ∧ ¬ Outstanding hurried.1.endpoint 0 payload := by
  have ran : exchangeAll chatRegistry chatRegistry anyInput anyInput hasty ({}, {}) ≠ none := by
    decide +kernel
  exact ⟨exchange_all (Option.getD_of_ne_none ran ({}, {})).symm, by decide +kernel, _, rfl,
    by decide +kernel, by decide +kernel⟩

end Theta
