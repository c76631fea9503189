import Theta.Proofs.Lifetime
import Theta.Proofs.Rejection

namespace Theta
open Lib Relation

/-- Every orderer of the first table is still an orderer of the second. -/
def Kept (d d' : ChannelData (Option PacketOrderer)) : Prop :=
  ∀ place o, d.read place = some (some o) → ∃ o', d'.read place = some (some o')

theorem Kept.refl (d : ChannelData (Option PacketOrderer)) : Kept d d := fun _ o h => ⟨o, h⟩

theorem Kept.trans {d1 d2 d3 : ChannelData (Option PacketOrderer)} (h1 : Kept d1 d2)
    (h2 : Kept d2 d3) : Kept d1 d3 := by
  intro place o h
  obtain ⟨o', h'⟩ := h1 place o h
  exact h2 place o' h'

theorem kept_set {d : ChannelData (Option PacketOrderer)} {id : U32} {o : PacketOrderer} :
    Kept d (d.setTransfer none id (some o)) := by
  intro place o' h
  by_cases hp : place = .basic id.toNat
  · exact ⟨o, by rw [ChannelData.set_transfer_read, if_pos hp]⟩
  · exact ⟨o', ChannelData.set_transfer_keeps hp h⟩

theorem kept_orderer_for {channel : Channel} {id : U32}
    {d : ChannelData (Option PacketOrderer)} : Kept d (ordererFor channel id d) := by
  unfold ordererFor
  split
  · exact kept_set
  · exact .refl d

/-- The registration handler, with `n` channels entered, has no error for these packets. -/
def admits (p : ChannelProvider) : Nat → List Bytes → Bool
  | _, [] => true
  | n, packet :: rest =>
    match StrWithMaxLen.decode channelNameMaxLen packet with
    | .ok (name, packet) =>
      if name = "" then admits p n rest
      else match VarInt.decode 32 packet with
        | .ok (id, _) => (p.byName name).isSome && decide (id.toNat ≤ n) && admits p (n + 1) rest
        | .err _ => false
        | .panic => true
    | .err _ => false
    | .panic => true

/-- The order is in the window of the channel's orderer, and the registration handler has no
error for the packets that become ready. -/
def accepts (p : ChannelProvider) (m : Endpoint) (id order : U32) (payload : Bytes) : Bool :=
  match (m.orderers.get m.state id : Outcome ConnectionError _) with
  | .ok (some o) =>
    decide (o.distance order.toNat < o.capacity) &&
      (decide (m.state = .transfer) ||
        match o.push order.toNat payload with
        | .ok o' => admits p m.notLocalInner.localIdToGlobalId.length o'.ready
        | _ => true)
  | _ => true

/-- The datagram does not get as far as an orderer, or its orderer accepts it. -/
def ordererSafe (p : ChannelProvider) (m : Endpoint) (d : Bytes) : Bool :=
  match readPacket p d m with
  | (.ok inc, m) =>
    match acknowledgeIfNeeded d inc.header.resendKey m with
    | (.ok _, m) =>
      match completes m.joiner inc with
      | some (some order, payload) => accepts p m inc.channel.localId order payload
      | _ => true
    | _ => true
  | _ => true

section
variable {p : ChannelProvider} {globalId : U32} {channel : ConnectionChannel} {m : Endpoint}

theorem Move.same_orderers {s : Scope} {m m' : Endpoint} (hh : ¬ s.holds) (h : Move s m m') :
    m'.orderers = m.orderers := by
  cases h with
  | hold _ h => exact absurd h hh
  | _ => rfl

theorem same_orderers {s : Scope} {m m' : Endpoint} (hh : ¬ s.holds)
    (h : ReflTransGen (Move s) m m') : m'.orderers = m.orderers := by
  induction h with
  | refl => rfl
  | tail _ h ih => exact (h.same_orderers hh).trans ih

/-- A handled packet may switch the stage but registers nothing. -/
def handlingOnly : Scope where
  sends _ _ _ := False
  records _ _ _ := False
  acks _ := True
  switches := True
  handles := True

/-- What is handled in the transfer stage leaves the registration alone. -/
def transferOnly : Scope where
  sends _ _ _ := False
  records _ _ _ := False
  acks _ := True
  switches := True
  handles := True
  holds := True

theorem handle_packet_same_orderers {packet : Bytes}
    (h : m.state ≠ .transfer → channel.localId ≠ channelManagementChannelIdRegistrationStage) :
    (handlePacket p globalId channel packet m).2.orderers = m.orderers := by
  have hh : ¬ handlingOnly.holds := id
  exact same_orderers hh (handle_packet_moves trivial trivial (fun _ _ => trivial)
    (fun hst hid => absurd hid (h hst)))

theorem handle_packet_stays {packet : Bytes} (hst : m.state = .transfer) :
    (handlePacket p globalId channel packet m).2.state = .transfer := by
  have moves : ReflTransGen (Move handlingOnly) m (handlePacket p globalId channel packet m).2 :=
    handle_packet_moves trivial trivial (fun _ _ => trivial) (fun hne => absurd hst hne)
  exact transfer_stays moves hst

theorem handle_packet_management {packet : Bytes} {received : Bool} {lastKey : Option SlotMapKey}
    (hst : m.state = .registration received lastKey)
    (hid : channel.localId = channelManagementChannelIdRegistrationStage) :
    handlePacket p globalId channel packet m = handleRegistration p packet m := by
  have hack : channelManagementChannelIdRegistrationStage ≠ ackChannelIdRegistrationStage := by
    decide
  simp only [handlePacket, Act.bind_apply, Act.get_apply, hst, hid, hack, ↓reduceIte]

/-- Handling a packet registers a channel with its orderer, or leaves the orderers alone. -/
theorem handle_packet_orderers (p : ChannelProvider) (globalId : U32)
    (channel : ConnectionChannel) (m : Endpoint) (packet : Bytes) :
    (handlePacket p globalId channel packet m).2.orderers = m.orderers ∨
    ∃ kind id, (handlePacket p globalId channel packet m).2.orderers =
      ordererFor kind id m.orderers := by
  by_cases h : m.state ≠ .transfer ∧ channel.localId = channelManagementChannelIdRegistrationStage
  · obtain ⟨hst, hid⟩ := h
    rcases hm : m.state with ⟨received, lastKey⟩ | _
    · rw [handle_packet_management hm hid]
      rcases handle_registration_cases p packet hm with ⟨r, _, h⟩ | ⟨rest, _, h⟩ |
        ⟨name, rest, id, rest', g, mapper, _, _, _, _, _, ⟨_, h⟩ | ⟨kind, _, h⟩⟩
      · rw [h]
        exact Or.inl rfl
      · rw [h]
        rcases convert_to_transfer_cases
          { m.handed packet with state := .registration true lastKey } with ⟨_, hc⟩ | ⟨_, hc⟩
        · rw [hc]
          exact Or.inl rfl
        · rw [hc]
          exact Or.inl rfl
      · rw [h]
        exact Or.inl rfl
      · rw [h]
        exact Or.inr ⟨kind, id, rfl⟩
    · exact absurd hm hst
  · exact Or.inl (handle_packet_same_orderers (fun hst hid => h ⟨hst, hid⟩))

theorem handle_packet_kept {packet : Bytes} :
    Kept m.orderers (handlePacket p globalId channel packet m).2.orderers := by
  rcases handle_packet_orderers p globalId channel m packet with he | ⟨kind, id, he⟩
  · rw [he]
    exact .refl _
  · rw [he]
    exact kept_orderer_for

theorem acknowledge_locally_ne_err {fuel : Nat} {packet : Bytes} (m : Endpoint) :
    ∀ e, (acknowledgeLocally fuel packet m).1 ≠ .err e := by
  induction fuel generalizing packet m with
  | zero => simp [acknowledgeLocally]
  | succ fuel ih =>
    unfold acknowledgeLocally
    cases SlotMapKey.decode packet with
    | err e => simp
    | panic => simp
    | ok r => exact Act.bind_ne_err (release_key_ne_err _ m) (fun _ _ => ih _)

/-- Only registration packets have errors. -/
theorem handle_packet_ne_err {packet : Bytes}
    (h : m.state = .transfer ∨ channel.localId ≠ channelManagementChannelIdRegistrationStage) :
    ∀ e, (handlePacket p globalId channel packet m).1 ≠ .err e := by
  unfold handlePacket
  refine Act.bind_ne_err (by simp) (fun m1 hm => ?_)
  cases hm
  dsimp only [Act.get_apply]
  cases hst : m.state with
  | registration received lastKey =>
    have hid : channel.localId ≠ channelManagementChannelIdRegistrationStage := by
      rcases h with h | h
      · rw [hst] at h
        cases h
      · exact h
    simp only [hid, ↓reduceIte]
    split
    · refine Act.bind_ne_err (by simp [emit]) (fun _ _ => ?_)
      refine Act.bind_ne_err (acknowledge_locally_ne_err _) (fun _ _ => ?_)
      rcases convert_to_transfer_cases (acknowledgeLocally packet.length packet
        (emit (.consumed packet) m).2).2 with ⟨_, hc⟩ | ⟨_, hc⟩ <;> simp [hc]
    · simp
  | transfer =>
    simp only
    split
    · exact Act.bind_ne_err (by simp [emit]) (fun _ _ => acknowledge_locally_ne_err _)
    · split
      · simp
      · cases m.buffers.get globalId <;> simp

theorem insert_length {mapper mapper' : ConnectionIdMapperInner} {id g : U32} {name : String}
    (h : mapper.insert id g name = some mapper') :
    id.toNat ≤ mapper.localIdToGlobalId.length ∧
      mapper'.localIdToGlobalId = mapper.localIdToGlobalId.insertIdx id.toNat g ∧
      mapper'.localIdToGlobalId.length = mapper.localIdToGlobalId.length + 1 := by
  unfold ConnectionIdMapperInner.insert at h
  split at h
  · cases h
  · rename_i hle
    cases h
    exact ⟨Nat.le_of_not_lt hle, rfl, List.length_insertIdx_of_le_length (Nat.le_of_not_lt hle) _⟩

/-- An admitted registration packet is handled without an error. -/
theorem handle_registration_ne_err {packet : Bytes} {rest : List Bytes}
    (h : admits p m.notLocalInner.localIdToGlobalId.length (packet :: rest) = true) :
    ∀ e, (handleRegistration p packet m).1 ≠ .err e := by
  have done (t : Endpoint) : ∀ e, (convertToTransfer t).1 ≠ .err e := by
    rcases convert_to_transfer_cases t with ⟨_, hc⟩ | ⟨_, hc⟩ <;> simp [hc]
  unfold admits at h
  unfold handleRegistration
  simp only [emit, decoding, Act.bind_apply, Act.modify_apply, Act.lift_apply]
  cases hname : StrWithMaxLen.decode channelNameMaxLen packet with
  | err e => simp [hname] at h
  | panic => simp [Outcome.mapErr]
  | ok r =>
    obtain ⟨name, packet⟩ := r
    simp only [Outcome.mapErr]
    by_cases he : name = ""
    · simp only [he, ↓reduceIte, Act.bind_apply, Act.modify_apply]
      exact done _
    simp only [hname, he, ↓reduceIte] at h ⊢
    simp only [Act.bind_apply, Act.lift_apply]
    cases hid : VarInt.decode 32 packet with
    | err e => simp [hid] at h
    | panic => simp
    | ok r =>
      obtain ⟨id, _⟩ := r
      simp only [hid, Bool.and_eq_true, decide_eq_true_eq] at h
      obtain ⟨⟨hg, hle⟩, _⟩ := h
      obtain ⟨globalId, hg⟩ := Option.isSome_iff_exists.mp hg
      dsimp only
      split
      · simp
      simp only [hg, Act.bind_apply, Act.get_apply]
      cases hi : m.notLocalInner.insert id globalId name with
      | none =>
        unfold ConnectionIdMapperInner.insert at hi
        rw [if_neg (Nat.not_lt_of_le hle)] at hi
        cases hi
      | some mapper =>
        refine Act.bind_ne_err (by simp) (fun _ _ => ?_)
        refine Act.bind_ne_err Outcome.of_option_ne_err (fun kind _ => ?_)
        cases kind.orderability <;> simp

/-- The packets after an admitted one are admitted too, unless the stage was left. -/
theorem handle_registration_admits {packet : Bytes} {rest : List Bytes} {received : Bool}
    {lastKey : Option SlotMapKey} (hst : m.state = .registration received lastKey)
    (h : admits p m.notLocalInner.localIdToGlobalId.length (packet :: rest) = true)
    (hok : (handleRegistration p packet m).1 = .ok ()) :
    admits p (handleRegistration p packet m).2.notLocalInner.localIdToGlobalId.length rest =
      true := by
  unfold admits at h
  rcases handle_registration_cases p packet hst with ⟨r, hr, he⟩ | ⟨_, hname, he⟩ |
    ⟨name, _, id, _, g, mapper, hname, hne, hid, _, hi, hend⟩
  · rw [he] at hok
    exact absurd hok (hr ())
  · simp only [hname, ↓reduceIte] at h
    rw [he]
    rcases convert_to_transfer_cases
      { m.handed packet with state := .registration true lastKey } with ⟨_, hc⟩ | ⟨_, hc⟩
    · rw [hc]
      exact h
    · rw [hc]
      exact h
  · simp only [hname, hne, ↓reduceIte, hid, Bool.and_eq_true] at h
    have hlen := (insert_length hi).2.2
    rcases hend with ⟨_, he⟩ | ⟨kind, _, he⟩
    · rw [he] at hok
      cases hok
    · rw [he]
      simp only [hlen]
      exact h.2

/-- Either no packet of the channel has an error, or the ready ones are admitted. -/
def Admitted (p : ChannelProvider) (channel : ConnectionChannel) (packets : List Bytes)
    (m : Endpoint) : Prop :=
  (m.state = .transfer ∨ channel.localId ≠ channelManagementChannelIdRegistrationStage) ∨
    admits p m.notLocalInner.localIdToGlobalId.length packets = true

theorem handle_packet_admitted {packet : Bytes} {rest : List Bytes}
    (h : Admitted p channel (packet :: rest) m) :
    (∀ e, (handlePacket p globalId channel packet m).1 ≠ .err e) ∧
      ((handlePacket p globalId channel packet m).1 = .ok () →
        Admitted p channel rest (handlePacket p globalId channel packet m).2) := by
  have moves : ReflTransGen (Move (working p)) m (handlePacket p globalId channel packet m).2 :=
    handle_packet_moves trivial trivial (fun _ _ => trivial) (fun _ _ => ⟨trivial, trivial⟩)
  rcases h with h | h
  · refine ⟨handle_packet_ne_err h, fun _ => Or.inl ?_⟩
    rcases h with hst | hid
    · exact Or.inl (transfer_stays moves hst)
    · exact Or.inr hid
  · by_cases hc : m.state = .transfer ∨ channel.localId ≠ channelManagementChannelIdRegistrationStage
    · refine ⟨handle_packet_ne_err hc, fun _ => Or.inl ?_⟩
      rcases hc with hst | hid
      · exact Or.inl (transfer_stays moves hst)
      · exact Or.inr hid
    · rw [not_or, not_not] at hc
      obtain ⟨hst, hid⟩ := hc
      rcases hm : m.state with ⟨received, lastKey⟩ | _
      · rw [handle_packet_management hm hid]
        exact ⟨handle_registration_ne_err h, fun hok => Or.inr (handle_registration_admits hm h hok)⟩
      · exact absurd hm hst

/-- An orderer that accepts a packet is put back, and the others stay. -/
theorem deliver_kept {order : U32} {payload : Bytes}
    (h : accepts p m channel.localId order payload = true)
    (hret : (deliver p globalId channel (some order) payload m).1 ≠ .panic) :
    Kept m.orderers (deliver p globalId channel (some order) payload m).2.orderers := by
  -- While packets are handled, the slot is empty and the other orderers stay.
  have handle (o' : PacketOrderer) (t : Endpoint) (hadm : Admitted p channel o'.ready t) :=
    o'.retain_ready (handlePacket p globalId channel)
      (I := fun packets u => Kept t.orderers u.orderers ∧ Admitted p channel packets u)
      (J := fun u => Kept t.orderers u.orderers) (K := fun r _ => ∀ e, r ≠ .err e)
      (fun x xs u hu => ⟨fun hok => ⟨hu.1.trans handle_packet_kept,
        (handle_packet_admitted hu.2).2 hok⟩, fun _ => (handle_packet_admitted hu.2).1⟩)
      (fun _ _ hu => hu.1) (fun _ _ => by simp) ⟨.refl t.orderers, hadm⟩
  have hdel := deliver_delivery p globalId channel order payload m
  rcases hd : deliver p globalId channel (some order) payload m with ⟨r, m'⟩
  rw [hd] at hdel hret
  have hadm {o o' : PacketOrderer} {orderers : ChannelData (Option PacketOrderer)}
      (slot : (m.orderers.get m.state channel.localId : Outcome ConnectionError _) = .ok (some o))
      (push : o.push order.toNat payload = .ok o') :
      Admitted p channel o'.ready { m with orderers := orderers } := by
    simp only [accepts, slot, push, Bool.and_eq_true, Bool.or_eq_true, decide_eq_true_eq] at h
    rcases h.2 with hst | hadmits
    · exact Or.inl (Or.inl hst)
    · exact Or.inr hadmits
  cases hdel with
  | missing => exact absurd rfl hret
  | absent => exact absurd rfl hret
  | overgrown => exact absurd rfl hret
  | dropped => exact absurd rfl hret
  | refused o orderers e slot take push =>
    simp only [accepts, slot, Bool.and_eq_true, decide_eq_true_eq] at h
    exact absurd push (PacketOrderer.push_ne_err h.1 e)
  | stopped o o' orderers slot take push failed =>
    have hne := (handle o' _ (hadm slot push)).2 failed
    cases hr : (o'.retain (handlePacket p globalId channel) { m with orderers := orderers }).1 with
    | ok _ => exact absurd hr failed
    | err e => exact absurd hr (hne e)
    | panic => exact absurd hr hret
  | done o o' o'' orderers orderers' t slot take push handled back =>
    have hkept := (handle o' { m with orderers := orderers } (hadm slot push)).1 (by rw [handled])
    rw [handled] at hkept
    obtain ⟨place, hplace, _, htake⟩ := ChannelData.write_ok take
    obtain ⟨place', hplace', _, hback⟩ := ChannelData.write_ok back
    rw [hplace, Option.some.injEq] at hplace'
    subst hplace'
    intro other x hx
    by_cases ho : other = place
    · exact ⟨o'', by rw [hback, if_pos ho]⟩
    · obtain ⟨y, hy⟩ := hkept other x (by rw [htake, if_neg ho, hx])
      exact ⟨y, by rw [hback, if_neg ho, hy]⟩

theorem accepts_same {m' : Endpoint} {id order : U32} {payload : Bytes} (h : SameReceipts m m') :
    accepts p m' id order payload = accepts p m id order payload := by
  unfold accepts
  rw [h.state, h.notLocalInner, h.orderers]

/-- A call for a safe datagram that returns keeps every orderer. -/
theorem handle_message_kept {now : Nat} {d : Bytes} (hc : m.Compact)
    (safe : ordererSafe p m d = true) (hret : (handleMessage p now d m).1 ≠ .panic) :
    Kept m.orderers (handleMessage p now d m).2.orderers := by
  have hread : (readPacket p d m).2.orderers = m.orderers :=
    same_orderers (s := handlingOnly) id (read_packet_moves trivial m)
  rw [← hread]
  rcases handle_message_cases p now d m with ⟨r, m', hr, _, _, he⟩ | ⟨inc, hinc, hrest⟩
  · rw [he, hr]
    exact .refl _
  have hack := acknowledge_acknowledging (read_packet_compact hc) hinc
  rcases hrest with ⟨_, he⟩ | ⟨hacked, ⟨_, joiner, he⟩ | ⟨order, payload, m', hreach, he⟩⟩
  · rw [he, ← same_orderers id hack]
    exact .refl _
  · rw [he, ← same_orderers id hack]
    exact .refl _
  · obtain ⟨hsame, hcomplete, _⟩ := hreach.prepared (read_packet_compact hc)
    obtain ⟨hresult, time, hend⟩ := touch_ends
      (deliver p inc.globalChannelId inc.channel order payload) m' now
    rw [he, hresult] at hret
    rw [he, hend, ← hsame.orderers]
    cases order with
    | none => exact handle_packet_kept
    | some order =>
      refine deliver_kept ?_ hret
      rw [accepts_same hsame]
      unfold ordererSafe at safe
      rcases hr : readPacket p d m with ⟨r, m0⟩
      rw [hr] at safe hinc hacked hack hcomplete
      dsimp only at hinc
      subst hinc
      rcases ha : acknowledgeIfNeeded d inc.header.resendKey m0 with ⟨a, m1⟩
      rw [ha] at hacked hack
      dsimp only at hacked
      subst hacked
      have hj : m1.joiner = m0.joiner := same_joiner id hack
      rw [← accepts_same (same_receipts acknowledging_quiet hack)]
      simp only [ha, hj, hcomplete] at safe
      exact safe

theorem update_connection_orderers {delta : U32} (hc : m.Compact) :
    (updateConnection delta m).2.orderers = m.orderers :=
  same_orderers (s := flushing) id (update_connection_moves hc (fun _ => ⟨rfl, rfl⟩))

theorem safe_call_keeps {m' : Endpoint} (hm : Reachable p m)
    (h : GuardedCall (ordererSafe p) p m m') :
    Reachable p m' ∧ Kept m.orderers m'.orderers := by
  obtain ⟨input, ⟨hret, rfl⟩, safe⟩ := h
  refine ⟨.step input m _ hm ⟨hret, rfl⟩, ?_⟩
  have hc := hm.passed.compact
  cases input with
  | read now d => exact handle_message_kept hc safe hret
  | tick delta =>
    rw [show (perform p (.tick delta) m).2.orderers = m.orderers from
      update_connection_orderers hc]
    exact .refl _
  | send channel payload =>
    rw [show (perform p (.send channel payload) m).2.orderers = m.orderers from
      (send_event_quiet p channel payload m).1.orderers]
    exact .refl _

/-- Along every run whose datagrams are safe for the orderers, no orderer is lost. -/
theorem safe_run_keeps_orderers {m' : Endpoint} (hm : Reachable p m)
    (run : ReflTransGen (GuardedCall (ordererSafe p) p) m m') : Kept m.orderers m'.orderers := by
  have h : Reachable p m' ∧ Kept m.orderers m'.orderers := by
    induction run with
    | refl => exact ⟨hm, .refl _⟩
    | tail _ h ih =>
      obtain ⟨hr, hkept⟩ := safe_call_keeps ih.1 h
      exact ⟨hr, ih.2.trans hkept⟩
  exact h.2

end

/-- The whole registration keeps the registration orderer. -/
theorem safe_run_keeps_orderers_completed : Kept announced.orderers completed.orderers :=
  have run : performGuarded (ordererSafe builtinProvider) builtinProvider
      (announced.datagrams.map (.read 0)) announced = some completed := by decide +kernel
  safe_run_keeps_orderers announced_reachable (guarded_calls run)

/-- The first registration packet of a peer with a channel that is not known here. -/
def foreignRegistration : Bytes :=
  Packet.bytes { registrationPacket 0 (nameBytes "chat" ++ VarInt.encode (0 : U32)) with
    resendKey := some ⟨0, 0⟩ }

/-- Its error leaves the registration slot empty, and the next registration packet panics. -/
theorem foreign_registration_loses_orderer :
    Reachable builtinProvider announced ∧
      (handleMessage builtinProvider 1 foreignRegistration announced).1 = .err .unknownChannel ∧
      ¬ Kept announced.orderers
        (handleMessage builtinProvider 1 foreignRegistration announced).2.orderers ∧
      (handleMessage builtinProvider 2 (announced.datagrams.getD 1 [])
        (handleMessage builtinProvider 1 foreignRegistration announced).2).1 = .panic := by
  refine ⟨announced_reachable, by decide +kernel, fun h => ?_, by decide +kernel⟩
  have before : announced.orderers.read .management = some (some (PacketOrderer.new 1000)) := by
    decide +kernel
  have after : (handleMessage builtinProvider 1 foreignRegistration announced).2.orderers.read
      .management = some none := by decide +kernel
  obtain ⟨o, ho⟩ := h .management _ before
  rw [after] at ho
  cases ho

end Theta
