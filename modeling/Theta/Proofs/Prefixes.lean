import Theta.Proofs.Framing

namespace Theta
open Lib Relation

/-- The payloads that were pushed to a channel's buffer. -/
def Endpoint.received (m : Endpoint) (g : U32) : List Bytes := (m.buffers.get g).getD []

/-- An orderer that has handed on what was received. -/
structure Feeds (source : List Bytes) (n : Nat) (o : PacketOrderer) : Prop where
  bounded : o.Bounded
  follows : o.view.Follows source
  next : o.view.next = n

/-- The receiver's end of one ordered channel, with its global id and its local id. -/
structure Receiving (source : List Bytes) (g l : U32) (m : Endpoint) : Prop where
  delivered : m.received g <+: source
  orderer : ∀ o, m.orderers.read (.basic l.toNat) = some (some o) →
    Feeds source (m.received g).length o
  idle : m.state ≠ .transfer → m.received g = []

section
variable {p : ChannelProvider} {source : List Bytes} {g g' l : U32} {channel : ConnectionChannel}
  {m m' : Endpoint} {s : Scope}

theorem Move.same_buffers (hd : ¬ s.handles) (h : Move s m m') : m'.buffers = m.buffers := by
  cases h with
  | push _ _ _ handles => exact absurd handles hd
  | _ => rfl

theorem same_buffers (hd : ¬ s.handles) (h : ReflTransGen (Move s) m m') :
    m'.buffers = m.buffers := by
  induction h with
  | refl => rfl
  | tail _ h ih => exact (h.same_buffers hd).trans ih

/-- What the registration stage and the acknowledgements do to the rest of a connection. -/
def managing : Scope where
  sends _ _ _ := False
  records _ _ _ := False
  acks _ := True
  switches := True
  registers := True
  holds := True

/-- A packet of an application's channel is pushed to its buffer, or panics. -/
theorem handle_packet_application (p : ChannelProvider) (g : U32) (packet : Bytes)
    (hst : m.state = .transfer) (hack : m.notLocalInner.ackChannelId? ≠ some channel.localId) :
    handlePacket p g channel packet m = (.panic, m) ∨
      ((m.buffers.get g).isSome ∧ handlePacket p g channel packet m =
        (.ok (), { m with buffers := m.buffers.modify g (· ++ [packet]) })) := by
  simp only [handlePacket, Act.bind_apply, Act.get_apply, hst, if_neg hack]
  split
  · exact Or.inl rfl
  · cases m.buffers.get g with
    | none => exact Or.inl rfl
    | some _ =>
      refine Or.inr ⟨rfl, ?_⟩
      rw [← hst]
      rfl

/-- A packet that is handled is pushed to the buffer of its channel, if to any. -/
theorem handle_packet_buffers (p : ChannelProvider) (g : U32) (channel : ConnectionChannel)
    (packet : Bytes) (m : Endpoint) :
    (handlePacket p g channel packet m).2.buffers = m.buffers ∨
      (handlePacket p g channel packet m).2.buffers = m.buffers.modify g (· ++ [packet]) := by
  have consumed (fuel : Nat) :
      ReflTransGen (Move managing) { m with log := m.log ++ [.consumed packet] }
        (acknowledgeLocally fuel packet { m with log := m.log ++ [.consumed packet] }).2 :=
    acknowledge_locally_moves (fun _ _ => trivial) _
  rcases hst : m.state with ⟨received, lastKey⟩ | _
  · left
    by_cases hid : channel.localId = channelManagementChannelIdRegistrationStage
    · rw [handle_packet_management hst hid]
      have moves : ReflTransGen (Move managing) m (handleRegistration p packet m).2 :=
        handle_registration_moves hst trivial trivial trivial
      exact same_buffers id moves
    · simp only [handlePacket, Act.bind_apply, Act.get_apply, hst]
      by_cases hack : channel.localId = ackChannelIdRegistrationStage
      · simp only [if_pos hack]
        have moves : ReflTransGen (Move managing) { m with log := m.log ++ [.consumed packet] }
            ((do acknowledgeLocally packet.length packet; convertToTransfer : Call Unit)
              { m with log := m.log ++ [.consumed packet] }).2 :=
          Act.bind_moves (consumed _) (fun _ _ => convert_to_transfer_moves trivial _)
        have same := same_buffers id moves
        exact same
      · simp only [if_neg hack, if_neg hid]
        rfl
  · by_cases hack : m.notLocalInner.ackChannelId? = some channel.localId
    · left
      simp only [handlePacket, Act.bind_apply, Act.get_apply, hst, if_pos hack]
      have same := same_buffers id (consumed packet.length)
      exact same
    · rcases handle_packet_application p g packet hst hack with h | ⟨_, h⟩
      · exact Or.inl (by rw [h])
      · exact Or.inr (by rw [h])

theorem handle_packet_other_buffer (hne : g' ≠ g) (packet : Bytes) :
    (handlePacket p g' channel packet m).2.received g = m.received g := by
  unfold Endpoint.received
  rcases handle_packet_buffers p g' channel packet m with h | h
  · rw [h]
  · rw [h, GlobalChannelData.get_modify, if_neg (Ne.symm hne)]

/-- An orderer was there before, or is a new one. -/
theorem orderer_for_read {kind : Channel} {id : U32} {orderers : ChannelData (Option PacketOrderer)}
    {place : Place} {o : PacketOrderer} (h : (ordererFor kind id orderers).read place = some (some o)) :
    orderers.read place = some (some o) ∨ ∃ capacity, o = PacketOrderer.new capacity := by
  unfold ordererFor at h
  split at h
  · rename_i ordered _
    rw [ChannelData.set_transfer_read] at h
    split at h
    · cases h
      exact Or.inr ⟨_, rfl⟩
    · left
      split at h
      · rename_i i
        split at h
        · exact h
        · split at h <;> cases h
      · exact h
  · exact Or.inl h

theorem feeds_new {capacity : Nat} : Feeds source 0 (PacketOrderer.new capacity) := by
  refine ⟨PacketOrderer.bounded_new, ?_, ?_⟩
  · rw [PacketOrderer.new_view]
    exact Sequencer.follows_empty
  · rfl

/-- Packets of other channels leave the channel alone. -/
theorem Receiving.handle_other (h : Receiving source g l m) (hne : g' ≠ g) (packet : Bytes) :
    Receiving source g l (handlePacket p g' channel packet m).2 := by
  have same : (handlePacket p g' channel packet m).2.received g = m.received g :=
    handle_packet_other_buffer hne packet
  refine ⟨by rw [same]; exact h.delivered, fun o ho => ?_, fun hst => ?_⟩
  · rw [same]
    by_cases hst : m.state = .transfer
    · rw [handle_packet_same_orderers (fun hne => absurd hst hne)] at ho
      exact h.orderer o ho
    · rcases handle_packet_orderers p g' channel m packet with he | ⟨kind, id, he⟩
      · rw [he] at ho
        exact h.orderer o ho
      · rw [he] at ho
        rcases orderer_for_read ho with ho | ⟨capacity, rfl⟩
        · exact h.orderer o ho
        · rw [h.idle hst]
          exact feeds_new
  · rw [same]
    exact h.idle (fun he => hst (handle_packet_stays he))

/-- Deliveries to other channels leave the channel alone. -/
theorem Receiving.deliver_other (h : Receiving source g l m) (hne : g' ≠ g)
    (other : placeOf m.state channel.localId ≠ some (.basic l.toNat)) (order : Option U32)
    (payload : Bytes) : Receiving source g l (deliver p g' channel order payload m).2 := by
  cases order with
  | none => exact h.handle_other hne payload
  | some order =>
    have moved {t : Endpoint} {slot : Option PacketOrderer}
        {orderers : ChannelData (Option PacketOrderer)} (ht : Receiving source g l t)
        (write : (t.orderers.write m.state channel.localId slot : Outcome ConnectionError _) =
          .ok orderers) : Receiving source g l { t with orderers := orderers } :=
      ⟨ht.delivered, fun o ho => ht.orderer o (by rwa [← ChannelData.write_other other write]), ht.idle⟩
    have ready (o : PacketOrderer) {t : Endpoint} (ht : Receiving source g l t) :
        Receiving source g l (o.retain (handlePacket p g' channel) t).2.2 := by
      have ends := o.retain_ends (handlePacket p g' channel)
        (I := fun _ u => Receiving source g l u) (K := fun _ u => Receiving source g l u)
        (fun _ _ x hu _ => ⟨fun _ => hu.handle_other hne x, fun _ => hu.handle_other hne x⟩)
        (fun _ _ hu => hu) ht
      by_cases hok : (o.retain (handlePacket p g' channel) t).1 = .ok ()
      · exact ends.1 hok
      · exact ends.2 hok
    have hdel := deliver_delivery p g' channel order payload m
    rcases hd : deliver p g' channel (some order) payload m with ⟨r, m'⟩
    rw [hd] at hdel
    cases hdel with
    | missing => exact h
    | absent _ _ take => exact moved h take
    | refused _ _ _ _ take _ => exact moved h take
    | overgrown _ _ _ take _ => exact moved h take
    | stopped o o' orderers _ take _ _ => exact ready o' (moved h take)
    | dropped o o' orderers _ take _ _ => exact ready o' (moved h take)
    | done o o' o'' orderers orderers' t _ take _ handled back =>
      have ht := ready o' (moved h take)
      rw [handled] at ht
      exact moved ht back

/-- The next packet of the channel is pushed to its buffer, or the connection panics. -/
theorem Feeds.handle {o : PacketOrderer} {packet : Bytes} (h : Feeds source (m.received g).length o)
    (delivered : m.received g <+: source) (hst : m.state = .transfer)
    (hack : m.notLocalInner.ackChannelId? ≠ some channel.localId)
    (head : o.vec[o.dequeStart]? = some (some packet)) :
    handlePacket p g channel packet m = (.panic, m) ∨
      ∃ buffers, handlePacket p g channel packet m = (.ok (), { m with buffers := buffers }) ∧
        Endpoint.received { m with buffers := buffers } g <+: source ∧
        Feeds source (Endpoint.received { m with buffers := buffers } g).length o.advance := by
  obtain ⟨hbounded, hview, hhead⟩ := h.bounded.advance head
  rcases handle_packet_application p g packet hst hack with he | ⟨hsome, he⟩
  · exact Or.inl he
  right
  have pushed : Endpoint.received { m with buffers := m.buffers.modify g (· ++ [packet]) } g =
      m.received g ++ [packet] := by
    obtain ⟨buffer, hbuffer⟩ := Option.isSome_iff_exists.mp hsome
    show ((m.buffers.modify g _).get g).getD [] = (m.buffers.get g).getD [] ++ [packet]
    rw [GlobalChannelData.get_modify, if_pos rfl, hbuffer]
    rfl
  have hnext := h.follows.take_advance hhead
  refine ⟨_, he, ?_, hbounded, ?_, ?_⟩
  · rw [pushed, List.prefix_iff_eq_take.mp delivered, ← h.next, hnext]
    exact List.take_prefix _ _
  · rw [hview]
    exact h.follows.advance
  · rw [hview, pushed, List.length_append, ← h.next]
    rfl

/-- The state while the channel's packets are handed on. -/
structure Feeding (source : List Bytes) (g l : U32) (mapper : ConnectionIdMapperInner)
    (o : PacketOrderer) (m : Endpoint) : Prop where
  stage : m.state = .transfer
  mapped : m.notLocalInner = mapper
  taken : m.orderers.read (.basic l.toNat) = some none
  delivered : m.received g <+: source
  feeds : Feeds source (m.received g).length o

theorem Feeding.receiving {mapper : ConnectionIdMapperInner} {o : PacketOrderer}
    (h : Feeding source g l mapper o m) : Receiving source g l m := by
  refine ⟨h.delivered, fun o ho => ?_, fun hne => absurd h.stage hne⟩
  rw [h.taken] at ho
  cases ho

theorem Feeding.retain {mapper : ConnectionIdMapperInner} {o : PacketOrderer}
    (h : Feeding source g l mapper o m) (hack : mapper.ackChannelId? ≠ some channel.localId) :
    Receiving source g l (o.retain (handlePacket p g channel) m).2.2 ∧
      ((o.retain (handlePacket p g channel) m).1 = .ok () →
        Feeding source g l mapper (o.retain (handlePacket p g channel) m).2.1
          (o.retain (handlePacket p g channel) m).2.2) := by
  have ends := o.retain_ends (handlePacket p g channel)
    (I := fun o' t => Feeding source g l mapper o' t) (K := fun _ t => Receiving source g l t)
    ?_ (fun _ _ ht => ht.receiving) h
  · by_cases hok : (o.retain (handlePacket p g channel) m).1 = .ok ()
    · exact ⟨(ends.1 hok).receiving, ends.1⟩
    · exact ⟨ends.2 hok, fun he => absurd he hok⟩
  intro o' t x ht hx
  rcases ht.feeds.handle (p := p) ht.delivered ht.stage (ht.mapped ▸ hack) hx with he |
    ⟨buffers, he, delivered, feeds⟩
  · rw [he]
    exact ⟨fun hok => absurd hok (by simp), fun _ => ht.receiving⟩
  · rw [he]
    exact ⟨fun _ => ⟨ht.stage, ht.mapped, ht.taken, delivered, feeds⟩, fun hne => absurd rfl hne⟩

/-- A packet of the channel is handed on in its turn. -/
theorem Receiving.deliver_own {n : Nat} {payload : Bytes} (h : Receiving source g l m)
    (hst : m.state = .transfer) (hid : channel.localId = l)
    (hack : m.notLocalInner.ackChannelId? ≠ some l) (place : source[n]? = some payload)
    (small : (BitVec.ofNat 32 n : U32).toNat = n) :
    Receiving source g l (deliver p g channel (some (BitVec.ofNat 32 n)) payload m).2 := by
  subst hid
  have hplace : placeOf m.state channel.localId = some (.basic channel.localId.toNat) := by
    rw [hst]
    rfl
  have written {t : Endpoint} {slot : Option PacketOrderer}
      {orderers : ChannelData (Option PacketOrderer)}
      (write : (t.orderers.write m.state channel.localId slot : Outcome ConnectionError _) =
        .ok orderers) : orderers.read (.basic channel.localId.toNat) = some slot := by
    obtain ⟨own, hown, _, hread⟩ := ChannelData.write_ok write
    rw [hplace] at hown
    rw [hread, if_pos (Option.some.inj hown)]
  have taken {orderers : ChannelData (Option PacketOrderer)}
      (take : (m.orderers.write m.state channel.localId none : Outcome ConnectionError _) =
        .ok orderers) : Receiving source g channel.localId { m with orderers := orderers } := by
    refine ⟨h.delivered, fun o ho => ?_, h.idle⟩
    rw [written take] at ho
    cases ho
  have feeding {o o' : PacketOrderer} {orderers : ChannelData (Option PacketOrderer)}
      (slot : (m.orderers.get m.state channel.localId : Outcome ConnectionError _) = .ok (some o))
      (take : (m.orderers.write m.state channel.localId none : Outcome ConnectionError _) =
        .ok orderers) (push : o.push (BitVec.ofNat 32 n : U32).toNat payload = .ok o') :
      Feeding source g channel.localId m.notLocalInner o' { m with orderers := orderers } := by
    obtain ⟨own, hown, hread⟩ := ChannelData.get_ok.mp slot
    rw [hplace, Option.some.injEq] at hown
    subst hown
    obtain ⟨hbounded, hfollows, hnext⟩ := h.orderer o hread
    obtain ⟨hbounded', _, hview⟩ := hbounded.push push
    rw [small] at hview
    refine ⟨hst, rfl, written take, h.delivered, hbounded', ?_, ?_⟩
    · rw [hview]
      exact hfollows.accept place
    · rw [hview]
      exact hnext
  have hdel := deliver_delivery p g channel (BitVec.ofNat 32 n) payload m
  rcases hd : deliver p g channel (some (BitVec.ofNat 32 n)) payload m with ⟨r, m'⟩
  rw [hd] at hdel
  cases hdel with
  | missing => exact h
  | absent _ _ take => exact taken take
  | refused _ _ _ _ take _ => exact taken take
  | overgrown _ _ _ take _ => exact taken take
  | stopped o o' orderers slot take push _ => exact ((feeding slot take push).retain hack).1
  | dropped o o' orderers slot take push _ => exact ((feeding slot take push).retain hack).1
  | done o o' o'' orderers orderers' t slot take push handled back =>
    have fed := ((feeding slot take push).retain (p := p) hack).2 (by rw [handled])
    rw [handled] at fed
    refine ⟨fed.delivered, fun x hx => ?_, fun hne => absurd fed.stage hne⟩
    rw [written back] at hx
    cases hx
    exact fed.feeds

theorem Receiving.same (h : Receiving source g l m) (same : SameReceipts m m') :
    Receiving source g l m' := by
  have received : m'.received g = m.received g := by
    unfold Endpoint.received
    rw [same.buffers]
  refine ⟨by rw [received]; exact h.delivered, fun o ho => ?_, fun hst => ?_⟩
  · rw [received]
    exact h.orderer o (same.orderers ▸ ho)
  · rw [received]
    exact h.idle (same.state ▸ hst)

theorem Move.receiving (hd : ¬ s.handles) (hh : ¬ s.holds) (hm : Move s m m')
    (h : Receiving source g l m) : Receiving source g l m' := by
  have received : m'.received g = m.received g := by
    unfold Endpoint.received
    rw [hm.same_buffers hd]
  refine ⟨by rw [received]; exact h.delivered, fun o ho => ?_, fun hst => ?_⟩
  · rw [received]
    exact h.orderer o (hm.same_orderers hh ▸ ho)
  · rw [received]
    exact h.idle (fun he => hst (hm.transfer_stays he))

theorem moves_receiving (hd : ¬ s.handles) (hh : ¬ s.holds) (hm : ReflTransGen (Move s) m m')
    (h : Receiving source g l m) : Receiving source g l m' :=
  invariant_of_step (fun _ _ hm h => hm.receiving hd hh h) hm h

/-- What is received stays the beginning of a longer source. -/
theorem Receiving.grow {later : List Bytes} (h : Receiving source g l m) (hp : source <+: later) :
    Receiving later g l m := by
  refine ⟨h.delivered.trans hp, fun o ho => ?_, h.idle⟩
  obtain ⟨hbounded, hfollows, hnext⟩ := h.orderer o ho
  exact ⟨hbounded, hfollows.grow hp, hnext⟩

end

/-- A channel of the applications that both sides have registered by its name, with the same
guarantees. -/
structure Twin (P Q : Registry) (name : String) (g g' : U32) (kind kind' : Channel) : Prop where
  own : P.provider.byName name = some g
  other : Q.provider.byName name = some g'
  ownKind : P.provider.byId g = some kind
  otherKind : Q.provider.byId g' = some kind'
  ordered : kind'.isOrdered = kind.isOrdered
  reliable : kind'.isReliable = kind.isReliable
  application : name ≠ ackChannelName ∧ name ≠ channelManagementChannelName

section
variable {P Q : Registry} {name : String} {g g' l : U32} {kind kind' : Channel} {a m : Endpoint}

/-- The packets on an application's channel are its messages. -/
theorem Uttered.application {base : Packet} {sent : Channel} (h : Uttered P a base sent)
    (twin : Twin P Q name g g' kind kind')
    (place : (sortedChannels P.provider)[base.channelId.toNat]? = some (name, g)) :
    sent = kind ∧ base.resendKey = none ∧ ∃ n payload, (a.calls g)[n]? = some payload ∧
      (payload.length ≤ maxNonSegmentedPayloadLen → base.segment = none ∧ base.payload = payload) ∧
      base.order = if kind.isOrdered then some (BitVec.ofNat 32 n) else none := by
  rcases h.placed place with ⟨_, hname, _⟩ | ⟨_, registered, key, message⟩
  · exact absurd hname twin.application.1
  · obtain rfl : kind = sent := Option.some.inj (twin.ownKind.symm.trans registered)
    exact ⟨rfl, key, message⟩

/-- Only the place of its name stands for a channel. -/
theorem Twin.place_unique (twin : Twin P Q name g g' kind kind')
    (place : (sortedChannels P.provider)[l.toNat]? = some (name, g)) {x own : U32} {other : String}
    (there : (sortedChannels P.provider)[x.toNat]? = some (other, own))
    (known : Q.provider.byName other = some g') : x = l := by
  have hname : other = name := by
    have h := List.inj_on_of_nodup_map Q.ids_nodup (Registry.by_name.mp known)
      (Registry.by_name.mp twin.other) rfl
    exact congrArg Prod.fst h
  subst hname
  apply BitVec.eq_of_toNat_eq
  have names := sorted_names P
  have hx : ((sortedChannels P.provider).map Prod.fst)[x.toNat]? = some other := by
    rw [List.getElem?_map, there]
    rfl
  have hl : ((sortedChannels P.provider).map Prod.fst)[l.toNat]? = some other := by
    rw [List.getElem?_map, place]
    rfl
  exact (List.getElem?_inj (List.getElem?_eq_some_iff.mp hx).1 names).mp (hx.trans hl.symm)

theorem provided_small {r : Registry} {id : U32} {channel : Channel}
    (h : r.provider.byId id = some channel) : ConnectionIdMapperInner.registrationId id = none :=
  provided_unregistered (by rw [h]; rfl)

/-- A datagram of the sender extends what is received of the channel, or leaves it alone. -/
theorem Receiving.read {now : Nat} {d : Bytes} {key : Option SlotMapKey}
    (h : Receiving (a.calls g) g' l m) (charted : Charted Q (sortedChannels P.provider) m)
    (hc : m.Compact) (spoken : Spoken P a key d) (twin : Twin P Q name g g' kind kind')
    (ordered : kind.isOrdered = true)
    (place : (sortedChannels P.provider)[l.toNat]? = some (name, g))
    (whole : ∀ payload ∈ a.calls g, payload.length ≤ maxNonSegmentedPayloadLen)
    (unwrapped : (a.calls g).length ≤ 2 ^ 32) :
    Receiving (a.calls g) g' l (handleMessage Q.provider now d m).2 := by
  have hnone := provided_small twin.otherKind
  have unregistered {id : U32} (hid : ConnectionIdMapperInner.registrationId id ≠ none) :
      id ≠ g' := fun he => hid (he ▸ hnone)
  refine handle_spoken hc spoken (fun t moves => moves_receiving id id moves h)
    (fun t time ht => ⟨ht.delivered, ht.orderer, ht.idle⟩) ?_ ?_ ?_
  · intro t i payload ht hst _ _
    apply ht.deliver_other (unregistered (by decide))
    rcases hst' : t.state with ⟨received, lastKey⟩ | _
    · intro he
      cases he
    · exact absurd hst' hst
  · intro t keys ht _ _
    exact ht.handle_other (unregistered (by decide)) _
  · intro t inc order payload moves reaches ht hst
    have hfew := sorted_few P
    have hcharted := moves_charted id False.elim moves charted
    obtain ⟨hsame, hcompletes, _⟩ := reaches.prepared (read_packet_compact hc)
    cases spoken with
    | framed base sent uttered hid segment reliable =>
      have small : ({ base with resendKey := key } : Packet).channelId.toNat < 2 ^ 31 := hid
      obtain ⟨hresolve, hheader⟩ := read_packet_incoming small (Prod.ext reaches.read rfl)
      rw [← hsame.state, ← hsame.notLocalInner, hst] at hresolve
      obtain ⟨hlocal, hglobal, hkind⟩ := resolve_channel_id hresolve
      have hlocal : inc.channel.localId = base.channelId := hlocal
      obtain ⟨other, own, there, known⟩ := hcharted.resolves hfew hglobal
      by_cases hx : base.channelId = l
      · subst hx
        obtain ⟨rfl, rfl⟩ : other = name ∧ own = g := by
          have h := Option.some.inj (there.symm.trans place)
          exact ⟨congrArg Prod.fst h, congrArg Prod.snd h⟩
        have hg := Option.some.inj (known.symm.trans twin.other)
        have hchannel : inc.channel = ⟨base.channelId, kind'⟩ := by
          have h : (Q.provider.byId inc.globalChannelId).map (ConnectionChannel.mk base.channelId) =
            some inc.channel := hkind
          rw [hg, twin.otherKind] at h
          exact (Option.some.inj h).symm
        obtain ⟨rfl, _, n, message, called, complete, horder⟩ := uttered.application twin place
        obtain ⟨hwhole, hpayload⟩ := complete (whole _ (List.mem_of_getElem? called))
        rw [if_pos ordered] at horder
        have fits : ({ base with resendKey := key } : Packet).Fits inc.channel.channel := by
          rw [hchannel]
          refine ⟨hid, segment, ?_, reliable.trans twin.reliable.symm⟩
          show base.order.isSome = kind'.isOrdered
          rw [horder, twin.ordered, ordered]
          rfl
        have hhead := hheader fits
        rw [completes_whole (by rw [hhead]; exact hwhole), hhead] at hcompletes
        have hmessage : base.order = order ∧ base.payload = payload := by
          have h := Option.some.inj hcompletes
          exact ⟨congrArg Prod.fst h, congrArg Prod.snd h⟩
        rw [← hmessage.1, ← hmessage.2, hpayload, horder, hg, hchannel]
        have hlt := (List.getElem?_eq_some_iff.mp called).1
        have hack : t.notLocalInner.ackChannelId? ≠ some base.channelId := by
          intro he
          exact twin.application.1 ((hcharted.builtins hfew (sorted_names P) place).1
            (ack_channel_id he))
        exact ht.deliver_own hst rfl hack called (SlotMap.index_of_fits (by omega))
      · apply ht.deliver_other
        · intro he
          rw [he] at known
          exact hx (twin.place_unique place there known)
        · rw [hst, hlocal]
          intro he
          have hplace := Place.basic.inj (Option.some.inj he)
          exact hx (BitVec.eq_of_toNat_eq hplace)

/-- The buffers of a connection that was opened are empty. -/
theorem opened_received {channels : List (String × U32)} {now capacity : Nat}
    {mapper : ConnectionIdMapperInner} :
    (opened channels now capacity mapper).received g = [] := by
  have empty (entries : List (String × U32)) (buffers : GlobalChannelData (List Bytes))
      (h : (buffers.get g).getD [] = []) :
      ((entries.foldl (fun buffers entry => buffers.insert entry.2 []) buffers).get g).getD [] =
        [] := by
    induction entries generalizing buffers with
    | nil => exact h
    | cons entry rest ih =>
      apply ih
      rw [GlobalChannelData.get_insert]
      split
      · rfl
      · exact h
  exact empty _ _ rfl

theorem opened_receiving {source : List Bytes} {channels : List (String × U32)} {now capacity : Nat}
    {mapper : ConnectionIdMapperInner} :
    Receiving source g l (opened channels now capacity mapper) := by
  refine ⟨?_, fun o ho => ?_, fun _ => opened_received⟩
  · rw [opened_received]
    exact List.nil_prefix
  · cases ho

/-- The calls of a side only become more. -/
theorem Standing.calls_grow {guard guard' : Endpoint → Input → Bool} {p p' b : Peer}
    (h : Standing P p) (step : (party P guard).Step (party Q guard') b p p') :
    p.endpoint.calls g <+: p'.endpoint.calls g := by
  rcases h.works step with rfl | work
  · exact List.nil_prefix
  · exact calls_prefix (work_log_grows work) g

theorem Reachable.initializes {p : ChannelProvider} (h : Reachable p m) :
    ∃ capacity, Initializes p capacity := by
  induction h with
  | initialized now m h =>
    obtain ⟨capacity, _, initializes, _⟩ := initialize_opened h
    exact ⟨capacity, initializes⟩
  | step _ _ _ _ _ ih => exact ih

/-- Whoever is in the transfer stage was initialized. -/
theorem Standing.initialized {peer : Peer} (h : Standing P peer)
    (hst : peer.endpoint.state = .transfer) : ∃ capacity, Initializes P.provider capacity := by
  cases h with
  | closed => cases hst
  | live m reachable => exact reachable.initializes
  | lost m m' reachable => exact reachable.initializes
  | refused now => exact absurd hst (initialize_registers P.provider now)

theorem connected_receiving {guard guard' : Endpoint → Input → Bool}
    (twin : Twin P Q name g g' kind kind') (ordered : kind.isOrdered = true)
    (place : (sortedChannels P.provider)[l.toNat]? = some (name, g))
    (short : ∀ entry ∈ sortedChannels P.provider, (utf8 entry.1).length ≤ channelNameMaxLen)
    {s : Peer × Peer} (h : Connected P Q guard guard' s)
    (there : s.2.stage = .live ∨ s.2.endpoint.state = .transfer) :
    Charted Q (sortedChannels P.provider) s.2.endpoint ∧
      ((∀ payload ∈ s.1.endpoint.calls g, payload.length ≤ maxNonSegmentedPayloadLen) →
        (s.1.endpoint.calls g).length ≤ 2 ^ 32 →
        Receiving (s.1.endpoint.calls g) g' l s.2.endpoint) := by
  refine receiver_invariant (I := fun a m => Charted Q (sortedChannels P.provider) m ∧
    ((∀ payload ∈ a.endpoint.calls g, payload.length ≤ maxNonSegmentedPayloadLen) →
      (a.endpoint.calls g).length ≤ 2 ^ 32 → Receiving (a.endpoint.calls g) g' l m)) h
    ?_ ?_ ?_ ?_ ?_ there
  · rintro a a' b m ha step ⟨charted, receiving⟩
    have grows := ha.calls_grow (g := g) step
    refine ⟨charted, fun whole unwrapped => ?_⟩
    exact (receiving (fun payload hp => whole payload (grows.subset hp))
      (Nat.le_trans grows.length_le unwrapped)).grow grows
  · intro a now capacity mapper _ _ _
    exact ⟨opened_charted, fun _ _ => opened_receiving⟩
  · rintro a m delta _ hreach _ ⟨charted, receiving⟩
    have moves : ReflTransGen (Move flushing) m (updateConnection delta m).2 :=
      update_connection_moves hreach.passed.compact (fun _ => ⟨rfl, rfl⟩)
    exact ⟨moves_charted id False.elim moves charted,
      fun whole unwrapped => moves_receiving id id moves (receiving whole unwrapped)⟩
  · rintro a m channel payload _ _ _ _ ⟨charted, receiving⟩
    have same := (send_event_quiet Q.provider channel payload m).1
    refine ⟨charted.same (congrArg List.length (send_event_tables _ _ _ _).handed)
      same.notLocalInner (fun hne => ⟨same.state ▸ hne, same.orderers⟩),
      fun whole unwrapped => (receiving whole unwrapped).same same⟩
  · rintro a m now d key ha hreach spoken _ _ ⟨charted, receiving⟩
    have hc := hreach.passed.compact
    exact ⟨charted.read hc short spoken, fun whole unwrapped =>
      (receiving whole unwrapped).read charted hc spoken twin ordered place whole unwrapped⟩

/-- The place at which a channel is announced. -/
theorem Twin.placed (twin : Twin P Q name g g' kind kind') :
    ∃ l : U32, (sortedChannels P.provider)[l.toNat]? = some (name, g) := by
  have hmem : (name, g) ∈ sortedChannels P.provider :=
    (sorted_perm P).mem_iff.mpr (Registry.by_name.mp twin.own)
  obtain ⟨i, hi, hget⟩ := List.mem_iff_getElem.mp hmem
  have hsmall : (BitVec.ofNat 32 i : U32).toNat = i :=
    place_to_nat (Nat.lt_of_lt_of_le hi (sorted_few P))
  exact ⟨BitVec.ofNat 32 i, by rw [hsmall, List.getElem?_eq_getElem hi, hget]⟩

/-- A connection that is live or in the transfer stage has the beginning of what was sent. -/
theorem connected_prefix {guard guard' : Endpoint → Input → Bool}
    (twin : Twin P Q name g g' kind kind') (ordered : kind.isOrdered = true) {s : Peer × Peer}
    (h : Connected P Q guard guard' s) (hst : s.1.endpoint.state = .transfer)
    (there : s.2.stage = .live ∨ s.2.endpoint.state = .transfer)
    (whole : ∀ payload ∈ s.1.endpoint.calls g, payload.length ≤ maxNonSegmentedPayloadLen)
    (unwrapped : (s.1.endpoint.calls g).length ≤ 2 ^ 32) :
    s.2.endpoint.received g' <+: s.1.endpoint.calls g := by
  obtain ⟨capacity, initializes⟩ := (connected_standing h).1.initialized hst
  obtain ⟨l, place⟩ := twin.placed
  exact ((connected_receiving twin ordered place initializes.announceable.names h there).2
    whole unwrapped).delivered

/-- What is received of an ordered channel is the beginning of what was sent on it. -/
theorem ordered_channel_prefix {guard guard' : Endpoint → Input → Bool}
    (twin : Twin P Q name g g' kind kind') (ordered : kind.isOrdered = true) {s : Peer × Peer}
    (h : Connected P Q guard guard' s) (hst : s.1.endpoint.state = .transfer)
    (hst' : s.2.endpoint.state = .transfer)
    (whole : ∀ payload ∈ s.1.endpoint.calls g, payload.length ≤ maxNonSegmentedPayloadLen)
    (unwrapped : (s.1.endpoint.calls g).length ≤ 2 ^ 32) :
    s.2.endpoint.received g' <+: s.1.endpoint.calls g :=
  connected_prefix twin ordered h hst (Or.inr hst') whole unwrapped

end

/-- Two messages on the chat channel arrive in the other order, the second one twice. -/
def outOfTurn : List (Side × Deed) :=
  mingling ++ [(.left, .send 2 [1]), (.left, .send 2 [2]), (.right, .read 3 7),
    (.right, .read 3 6), (.right, .read 3 7)]

def chatted : Peer × Peer :=
  (exchangeAll talkRegistry klatRegistry anyInput anyInput outOfTurn ({}, {})).getD ({}, {})

theorem chatted_connected : Connected talkRegistry klatRegistry anyInput anyInput chatted := by
  have ran : exchangeAll talkRegistry klatRegistry anyInput anyInput outOfTurn ({}, {}) ≠ none := by
    decide +kernel
  exact exchange_all (Option.getD_of_ne_none ran ({}, {})).symm

theorem chat_twin : Twin talkRegistry klatRegistry "chat" 2 3 chat.channel chat.channel where
  own := by decide +kernel
  other := by decide +kernel
  ownKind := by decide +kernel
  otherKind := by decide +kernel
  ordered := rfl
  reliable := rfl
  application := by decide

theorem ordered_channel_prefix_chatted :
    chatted.2.endpoint.received 3 <+: chatted.1.endpoint.calls 2 := by
  have called : chatted.1.endpoint.calls 2 = [[1], [2]] := by decide +kernel
  apply ordered_channel_prefix chat_twin rfl chatted_connected (by decide +kernel)
    (by decide +kernel)
  · rw [called]
    decide
  · rw [called]
    decide

end Theta
