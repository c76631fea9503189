import Theta.Proofs.Vouching

namespace Theta
open Lib Relation

/-- The `i`-th registration packet is held under its key, and will be sent again. -/
def Outstanding (m : Endpoint) (i : Nat) (payload : Bytes) : Prop :=
  ∃ packet, m.resender.packets.get (firstKey i) = some packet ∧
    packet.payload = registrationDatagram i payload

instance (m : Endpoint) (i : Nat) (payload : Bytes) : Decidable (Outstanding m i payload) :=
  decidable_of_iff (((m.resender.packets.get (firstKey i)).any fun packet =>
    decide (packet.payload = registrationDatagram i payload)) = true)
    (by simp [Outstanding, Option.any_eq_true])

section
variable {r : Registry} {m m' : Endpoint} {i : Nat} {payload : Bytes} {id : U32}

theorem Outstanding.same (h : Outstanding m i payload) (same : m'.resender = m.resender) :
    Outstanding m' i payload := by
  unfold Outstanding at *
  rw [same]
  exact h

theorem opened_outstanding {channels : List (String × U32)} {now capacity : Nat}
    {mapper : ConnectionIdMapperInner} (few : Few channels)
    (place : (announcements channels)[i]? = some payload) :
    Outstanding (opened channels now capacity mapper) i payload := by
  obtain ⟨hlt, hget⟩ := List.getElem?_eq_some_iff.mp place
  rw [announcements_length] at hlt
  have hindex : (firstKey i).index.toNat = i := SlotMap.index_of_fits (few.small place)
  have hvalues : ((announcements channels).take (channels.length + 1)).mapIdx registrationSlot =
      (announcements channels).mapIdx registrationSlot := by
    rw [List.take_of_length_le (Nat.le_of_eq announcements_length)]
  refine ⟨.new (registrationDatagram i payload) 100 (-1), SlotMap.get_eq_some.mpr ⟨?_, ?_⟩, rfl⟩
  · show (((announcements channels).take (channels.length + 1)).mapIdx registrationSlot)[_]? = _
    rw [hvalues, hindex, List.getElem?_mapIdx, place]
    rfl
  · show (List.replicate (channels.length + 1) (0 : U32))[_]? = _
    rw [hindex, List.getElem?_replicate, if_pos hlt]
    rfl

/-- A flush holds one more packet, under a key of its own. -/
theorem Outstanding.flush (h : Outstanding m i payload)
    (hid : m.localInner.ackChannelId? = some id) (hst : m.state ≠ .transfer) (hc : m.Compact)
    (tidy : Tidy m)
    (fits : (ConnectionAcknowledgeBuffer.flush id m).2.resender.packets.Fits) :
    Outstanding (ConnectionAcknowledgeBuffer.flush id m).2 i payload := by
  have moves : ReflTransGen (Move flushing) m (ConnectionAcknowledgeBuffer.flush id m).2 :=
    flush_moves hid hc ⟨rfl, rfl⟩
  rw [flush_eq (ack_channel_id hid) (fun he => absurd he hst) hc] at fits ⊢
  split at fits
  · rename_i key resender add
    split at fits
    · obtain ⟨packet, held, hpayload⟩ := h
      obtain ⟨_, _, hadd⟩ := PacketResender.add_ok add
      have healthy := tidy (Nat.le_trans (SlotMap.add_generations_le hadd) fits)
      have other : firstKey i ≠ key := by
        intro he
        exact SlotMap.add_fresh healthy fits hadd (he ▸ SlotMap.get_spent held)
      refine ⟨packet, ?_, hpayload⟩
      show resender.packets.get (firstKey i) = some packet
      rw [SlotMap.get_add healthy fits hadd, if_neg other]
      exact held
    · exact h
  · exact h
  · exact h

theorem Outstanding.acknowledge {key : SlotMapKey} (h : Outstanding m i payload)
    (hid : m.localInner.ackChannelId? = some id) (hst : m.state ≠ .transfer) (hc : m.Compact)
    (tidy : Tidy m)
    (fits : (ConnectionAcknowledgeBuffer.acknowledge key id m).2.resender.packets.Fits) :
    Outstanding (ConnectionAcknowledgeBuffer.acknowledge key id m).2 i payload := by
  simp only [ConnectionAcknowledgeBuffer.acknowledge, Act.bind_apply, Act.get_apply] at fits ⊢
  by_cases full : (m.acknowledgeBuffer ++ key.encode).length > maxNonSegmentedPayloadLen
  · have flushed := h.flush hid hst hc tidy
    simp only [if_pos full, Act.bind_apply] at fits ⊢
    rcases hflush : ConnectionAcknowledgeBuffer.flush id m with ⟨r, t⟩
    rw [hflush] at fits flushed
    cases r with
    | ok _ => exact (flushed fits).same rfl
    | err e => exact flushed fits
    | panic => exact flushed fits
  · rw [if_neg full]
    exact h.same rfl

theorem Outstanding.acknowledge_if_needed {key : Option SlotMapKey} {d : Bytes}
    (h : Outstanding m i payload) (hst : m.state ≠ .transfer) (hc : m.Compact) (tidy : Tidy m)
    (fits : (acknowledgeIfNeeded d key m).2.resender.packets.Fits) :
    Outstanding (acknowledgeIfNeeded d key m).2 i payload := by
  cases key with
  | none => exact h
  | some key =>
    by_cases known : key ∈ m.resendKeyDuplicateChecker.set
    · rw [acknowledge_known known]
      exact h
    · rw [acknowledge_new known] at fits ⊢
      have recorded : Outstanding (m.recording key d) i payload := h.same rfl
      simp only [localAckChannelId, Act.bind_apply, Act.get_apply, Act.lift_apply] at fits ⊢
      cases hid : (m.recording key d).localInner.ackChannelId? with
      | none =>
        rw [hid] at fits
        exact recorded
      | some id =>
        rw [hid] at fits
        exact recorded.acknowledge hid hst hc tidy fits

/-- A tick drops no packet but on its last attempt. -/
theorem Outstanding.tick {delta : U32} (h : Outstanding m i payload)
    (reachable : Reachable r.provider m) (hst : m.state ≠ .transfer)
    (stays : ∀ packet, m.resender.packets.get (firstKey i) = some packet →
      PacketResender.expires packet delta = false)
    (fits : (updateConnection delta m).2.resender.packets.Fits) :
    Outstanding (updateConnection delta m).2 i payload := by
  have hc := reachable.passed.compact
  have tidy := reachable.passed.tidy
  obtain ⟨resender, events, visited, moves, ends⟩ := update_connection_cases flushing delta m
  have generations : resender.packets.generations = m.resender.packets.generations := by
    rcases visited with rfl | ⟨packets, after, hrun, rfl⟩
    · rfl
    · exact SlotMap.retain_generations hrun
  have held (small : m.resender.packets.Fits) :
      Outstanding { m with resender := resender, log := m.log ++ events } i payload := by
    rcases visited with rfl | ⟨packets, after, hrun, rfl⟩
    · exact h.same rfl
    · obtain ⟨packet, hget, hpayload⟩ := h
      obtain ⟨packet', hget', hsame⟩ :=
        PacketResender.clock_keeps (tidy small) small hrun hget (stays packet hget)
      exact ⟨packet', hget', hsame.trans hpayload⟩
  rcases ends with he | ⟨id, hid, he⟩
  · rw [he] at fits ⊢
    apply held
    unfold SlotMap.Fits at *
    rwa [← generations]
  · rw [he] at fits ⊢
    have flushes : ReflTransGen (Move flushing) { m with resender := resender, log := m.log ++ events }
        (ConnectionAcknowledgeBuffer.flush id
          { m with resender := resender, log := m.log ++ events }).2 :=
      flush_moves hid hc ⟨rfl, rfl⟩
    have small : m.resender.packets.Fits := by
      unfold SlotMap.Fits at *
      rw [← generations]
      exact Nat.le_trans (generations_le flushes) fits
    exact (held small).flush hid hst hc (invariant_of_step (fun _ _ hmove ht => hmove.tidy ht) moves tidy) fits

end

/-- A registration after some of its keys were acknowledged. -/
structure Relieved (received : Bool) (lastKey : Option SlotMapKey) (keys : List SlotMapKey)
    (m m' : Endpoint) : Prop where
  stage : m'.state = .registration received lastKey ∨
    m'.state = .registration received none ∧ ∃ key ∈ keys, lastKey = some key
  kept : ∀ key ∉ keys, m'.resender.packets.get key = m.resender.packets.get key

section
variable {received : Bool} {lastKey : Option SlotMapKey} {keys : List SlotMapKey}
  {p : ChannelProvider} {m t : Endpoint}

theorem Relieved.release {key : SlotMapKey} (h : Relieved received lastKey keys m t)
    (hkey : key ∈ keys) : Relieved received lastKey keys m (releaseKey key t).2 := by
  have noticed : Relieved received lastKey keys m (t.noticing key) := by
    refine ⟨?_, fun k hk => ?_⟩
    · rcases noticing_cases t key with he | ⟨received', last, he⟩
      · rw [he]
        exact h.stage
      · rw [he]
        rcases h.stage with hst | ⟨hst, _⟩
        · cases last.symm.trans hst
          exact Or.inr ⟨rfl, key, hkey, rfl⟩
        · cases last.symm.trans hst
    · rw [noticing_resender]
      exact h.kept k hk
  rcases release_key_cases key t with ⟨_, he⟩ | ⟨_, he⟩ | ⟨packet, resender, remove, he⟩
  · rw [he]
    exact noticed
  · rw [he]
    exact noticed
  · rw [he]
    refine ⟨noticed.stage, fun k hk => ?_⟩
    have other : k ≠ key := fun he => hk (he ▸ hkey)
    rw [← he, release_key_other t other]
    exact h.kept k hk

/-- Acknowledgements end a registration only if nothing else is waited for. -/
theorem handle_answer_registering {g : U32} (keys : List SlotMapKey)
    (hst : m.state = .registration received lastKey)
    {m' : Endpoint} (run : (handlePacket p g ⟨ackChannelIdRegistrationStage, ackChannel⟩
      (keys.flatMap SlotMapKey.encode) m).2 = m') :
    (m'.state ≠ .transfer ∧
      ∀ key ∉ keys, m'.resender.packets.get key = m.resender.packets.get key) ∨
    (m'.state = .transfer ∧ received = true ∧ ∀ key, lastKey = some key → key ∈ keys) := by
  have relieved : Relieved received lastKey keys m (acknowledgeLocally
      (keys.flatMap SlotMapKey.encode).length (keys.flatMap SlotMapKey.encode)
      { m with log := m.log ++ [.consumed (keys.flatMap SlotMapKey.encode)] }).2 := by
    refine acknowledge_locally_keeps (fun key hkey t ht => ht.release ?_)
      ⟨Or.inl hst, fun _ _ => rfl⟩
    rwa [decode_encoded_keys (Nat.le_refl _)] at hkey
  simp only [handlePacket, emit, Act.bind_apply, Act.get_apply, hst, ↓reduceIte,
    Act.modify_apply] at run
  rcases hacked : acknowledgeLocally (keys.flatMap SlotMapKey.encode).length
    (keys.flatMap SlotMapKey.encode)
    { m with log := m.log ++ [.consumed (keys.flatMap SlotMapKey.encode)] } with ⟨r, t⟩
  rw [hacked] at relieved
  simp only [hacked] at run
  have registers : t.state ≠ .transfer := by
    intro he
    rcases relieved.stage with hstage | ⟨hstage, _⟩ <;> cases he.symm.trans hstage
  cases r with
  | err e =>
    subst run
    exact Or.inl ⟨registers, relieved.kept⟩
  | panic =>
    subst run
    exact Or.inl ⟨registers, relieved.kept⟩
  | ok _ =>
    dsimp only at run
    rcases convert_to_transfer_cases t with ⟨complete, hc⟩ | ⟨_, hc⟩
    · rw [hc] at run
      subst run
      right
      rcases relieved.stage with hstage | ⟨hstage, key, hkey, rfl⟩
      · cases complete.symm.trans hstage
        exact ⟨rfl, rfl, fun _ hlast => by cases hlast⟩
      · cases complete.symm.trans hstage
        refine ⟨rfl, rfl, fun _ hlast => ?_⟩
        cases hlast
        exact hkey
    · rw [hc] at run
      subst run
      exact Or.inl ⟨registers, relieved.kept⟩

/-- The packet is the last one of a registration. -/
def unnamed (packet : Bytes) : Bool :=
  match StrWithMaxLen.decode channelNameMaxLen packet with
  | .ok (name, _) => decide (name = "")
  | _ => false

/-- The packets that become ready with this one reach the end of the other side's registration. -/
def reachesEnd (m : Endpoint) (order : U32) (payload : Bytes) : Bool :=
  match m.orderers.channelManagementRegistrationStage with
  | some o =>
    match o.push order.toNat payload with
    | .ok o => o.ready.any unnamed
    | _ => false
  | none => false

/-- The receiver of a registration packet goes on with its own registration, or that has ended. -/
def GoesOn (lastKey : Option SlotMapKey) (order : U32) (payload : Bytes) (m t : Endpoint) : Prop :=
  ((∃ received, t.state = .registration received lastKey) ∧ t.resender = m.resender) ∨
    (t.state = .transfer ∧ lastKey = none ∧ reachesEnd m order payload = true)

theorem GoesOn.handle {g order : U32} {payload packet : Bytes}
    (h : GoesOn lastKey order payload m t)
    (last : unnamed packet = true → reachesEnd m order payload = true) :
    GoesOn lastKey order payload m (handlePacket p g registrationChannel packet t).2 := by
  rcases h with ⟨⟨received, hst⟩, same⟩ | ⟨hst, ended⟩
  · rw [handle_packet_management hst rfl]
    rcases handle_registration_cases p packet hst with ⟨r, _, hend⟩ | ⟨rest, hname, hend⟩ |
      ⟨_, _, _, _, _, mapper, _, _, _, _, _, ⟨_, hend⟩ | ⟨channel, _, hend⟩⟩
    · rw [hend]
      exact Or.inl ⟨⟨received, hst⟩, same⟩
    · rw [hend]
      rcases convert_to_transfer_cases { t.handed packet with
        state := .registration true lastKey } with ⟨complete, hc⟩ | ⟨_, hc⟩
      · rw [hc]
        cases complete
        exact Or.inr ⟨rfl, rfl, last (by simp [unnamed, hname])⟩
      · rw [hc]
        exact Or.inl ⟨⟨true, rfl⟩, same⟩
    · rw [hend]
      exact Or.inl ⟨⟨received, hst⟩, same⟩
    · rw [hend]
      exact Or.inl ⟨⟨received, hst⟩, same⟩
  · exact Or.inr ⟨handle_packet_stays hst, ended⟩

/-- A registration packet ends the receiver's registration only if nothing else is waited for. -/
theorem deliver_registering {g order : U32} {payload : Bytes}
    (hst : m.state = .registration received lastKey) :
    GoesOn lastKey order payload m
      (deliver p g registrationChannel (some order) payload m).2 := by
  have start : GoesOn lastKey order payload m m := Or.inl ⟨⟨received, hst⟩, rfl⟩
  refine deliver_managed (by simp [hst]) start start (fun o o' slot push r o'' t run => ?_)
  have last {x : Bytes} (hx : x ∈ o'.ready) (hname : unnamed x = true) :
      reachesEnd m order payload = true := by
    simp only [reachesEnd, slot, push]
    exact List.any_eq_true.mpr ⟨x, hx, hname⟩
  have ready := o'.retain_ready (handlePacket p g registrationChannel)
    (I := fun xs t => (∀ x ∈ xs, x ∈ o'.ready) ∧ GoesOn lastKey order payload m t)
    (J := GoesOn lastKey order payload m) (K := fun _ => GoesOn lastKey order payload m)
    (s := m.manage none) (fun x xs t ht => ?_) (fun xs t ht => ht.2) (fun t ht => ht)
    ⟨fun _ hx => hx, start⟩
  · rw [run] at ready
    have handled : GoesOn lastKey order payload m t := by
      by_cases ok : r = .ok ()
      · exact ready.1 ok
      · exact ready.2 ok
    exact ⟨handled, fun _ => handled⟩
  · obtain ⟨among, hgoes⟩ := ht
    have handled : GoesOn lastKey order payload m (handlePacket p g registrationChannel x t).2 :=
      hgoes.handle (last (among x List.mem_cons_self))
    exact ⟨fun _ => ⟨fun y hy => among y (List.mem_cons_of_mem _ hy), handled⟩, fun _ => handled⟩

end

/-- A datagram of the registration stage ends the registration of its receiver: it acknowledges the
last packet waited for, or completes the other side's registration when none is. -/
def closes (p : ChannelProvider) (m : Endpoint) (d : Bytes) : Bool :=
  match readPacket p d m with
  | (.ok inc, t) =>
    match t.state, inc.header.order with
    | .registration received lastKey, none =>
      acknowledges t inc.header.resendKey && received && lastKey.all (· ∈ answers d)
    | .registration _ lastKey, some order =>
      acknowledges t inc.header.resendKey && lastKey.isNone &&
        reachesEnd t order inc.header.payload
    | .transfer, _ => false
  | _ => false

section
variable {q : Registry} {p : ChannelProvider} {b m m' : Endpoint} {d : Bytes}

/-- A registering side holds on to what the datagram does not acknowledge, unless its registration
ends. -/
def HoldsOn (p : ChannelProvider) (d : Bytes) (m m' : Endpoint) : Prop :=
  (m'.state ≠ .transfer ∧ ∀ i payload, Outstanding m i payload → m'.resender.packets.Fits →
    Outstanding m' i payload ∨ firstKey i ∈ answers d) ∨
  (m'.state = .transfer ∧ closes p m d = true)

theorem read_holds_on {now : Nat} {key : Option SlotMapKey} (reachable : Reachable p m)
    (spoken : Spoken q b key d) (hst : (readPacket p d m).2.state ≠ .transfer) :
    HoldsOn p d m (handleMessage p now d m).2 := by
  have hc := reachable.passed.compact
  have stays : (readPacket p d m).2 = m := read_packet_stays hst
  rw [stays] at hst
  obtain ⟨received, lastKey, hstage⟩ : ∃ received lastKey, m.state = .registration received lastKey := by
    cases hm : m.state with
    | registration received lastKey => exact ⟨received, lastKey, rfl⟩
    | transfer => exact absurd hm hst
  have acknowledged {inc : Incoming} {result : Outcome ConnectionError Unit} {t : Endpoint}
      (hread : readPacket p d m = (.ok inc, m)) (hkey : inc.header.resendKey = key)
      (hack : acknowledgeIfNeeded d key m = (result, t)) :
      SameReceipts m t ∧ (result = .ok () → acknowledges m inc.header.resendKey = true) ∧
        ∀ i payload, Outstanding m i payload → t.resender.packets.Fits →
          Outstanding t i payload := by
    have moves : ReflTransGen (Move (acknowledging p d)) m (acknowledgeIfNeeded d key m).2 :=
      acknowledge_if_needed_moves hc (fun k hk => ⟨rfl, inc, hread, hkey.trans hk⟩) (fun _ => ⟨rfl, rfl⟩)
    have held {i : Nat} {payload : Bytes} (h : Outstanding m i payload) :
        (acknowledgeIfNeeded d key m).2.resender.packets.Fits →
          Outstanding (acknowledgeIfNeeded d key m).2 i payload :=
      h.acknowledge_if_needed hst hc reachable.passed.tidy
    have works : (acknowledgeIfNeeded d key m).1 = .ok () → acknowledges m key = true :=
      acknowledged_acknowledges hst hc
    rw [hack] at moves held works
    exact ⟨same_receipts acknowledging_quiet moves, hkey ▸ works, fun _ _ h => held h⟩
  have failed {t : Endpoint} (same : SameReceipts m t)
      (held : ∀ i payload, Outstanding m i payload → t.resender.packets.Fits →
        Outstanding t i payload) : HoldsOn p d m t :=
    Or.inl ⟨same.state ▸ hst, fun i payload h fits => Or.inl (held i payload h fits)⟩
  refine handle_registering spoken (by rwa [stays])
    (Or.inl ⟨hst, fun _ _ h _ => Or.inl h⟩) (fun _ _ h => h) ?_ ?_
  · intro i payload result t place final hread hack
    obtain ⟨same, works, held⟩ := acknowledged hread rfl hack
    refine ⟨fun _ => failed same held, fun hok => ?_⟩
    have goes : GoesOn lastKey (BitVec.ofNat 32 i) payload t (deliver p
        channelManagementChannelIdRegistrationStage registrationChannel (some (BitVec.ofNat 32 i))
        payload t).2 := deliver_registering (same.state.trans hstage)
    rcases goes with ⟨⟨_, hst'⟩, resender⟩ | ⟨hst', rfl, ends⟩
    · refine Or.inl ⟨by simp [hst'], fun j x h fits => Or.inl ?_⟩
      rw [resender] at fits
      exact (held j x h fits).same resender
    · refine Or.inr ⟨hst', ?_⟩
      have ends : reachesEnd m (BitVec.ofNat 32 i) payload = true := by
        unfold reachesEnd at *
        rwa [← same.orderers]
      simp only [closes, hread, hstage, works hok, ends, Option.isNone_none, Bool.and_self]
  · intro keys result t known hread hack
    obtain ⟨same, works, held⟩ := acknowledged hread rfl hack
    have heard : answers d = keys := by
      rw [answers_read hst hread rfl, decode_encoded_keys (Nat.le_refl _)]
    refine ⟨fun _ => failed same held, fun hok => ?_⟩
    rcases handle_answer_registering (p := p) (g := ackChannelIdRegistrationStage) keys
      (same.state.trans hstage) rfl with ⟨hst', kept⟩ | ⟨hst', rfl, last⟩
    · refine Or.inl ⟨hst', fun i payload h fits => ?_⟩
      by_cases hkey : firstKey i ∈ keys
      · exact Or.inr (heard ▸ hkey)
      · left
        have grows : ReflTransGen (Move handlingOnly) t (handlePacket p
            ackChannelIdRegistrationStage ⟨ackChannelIdRegistrationStage, ackChannel⟩
            (keys.flatMap SlotMapKey.encode) t).2 :=
          handle_packet_moves trivial trivial (fun _ _ => trivial)
            (fun _ he => absurd he (by decide))
        obtain ⟨packet, hget, hpayload⟩ := held i payload h (Nat.le_trans (generations_le grows) fits)
        exact ⟨packet, (kept _ hkey).trans hget, hpayload⟩
    · refine Or.inr ⟨hst', ?_⟩
      have all : lastKey.all (· ∈ answers d) = true := by
        cases lastKey with
        | none => rfl
        | some key => simpa [heard] using last key rfl
      simp only [closes, hread, hstage, works hok, all, Bool.and_self]

end

end Theta
