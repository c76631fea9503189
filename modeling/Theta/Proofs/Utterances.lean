import Theta.Proofs.Registration

namespace Theta
open Lib Relation

/-- What a side says: it announces its channels, acknowledges keys that it has recorded, or sends a
message of one of its channels. -/
inductive Uttered (r : Registry) (m : Endpoint) : Packet → Channel → Prop where
  | announcement (i : Nat) (payload : Bytes)
      (place : (announcements (sortedChannels r.provider))[i]? = some payload)
      (last : i = (sortedChannels r.provider).length →
        Entered (sortedChannels r.provider) m.localInner) :
      Uttered r m (registrationPacket i payload) channelManagementChannel
  | acknowledgement (id : U32) (keys : List SlotMapKey)
      (entered : Entered (sortedChannels r.provider) m.localInner)
      (channel : id = ackChannelIdRegistrationStage ∨ id = m.localInner.ackChannelId)
      (known : ∀ key ∈ keys, ∃ d, .recorded key d ∈ m.log) :
      Uttered r m ⟨id, none, none, none, keys.flatMap SlotMapKey.encode⟩ ackChannel
  | message (base : Packet) (kind : Channel) (g : U32) (n : Nat) (payload : Bytes)
      (entered : Entered (sortedChannels r.provider) m.localInner)
      (addressed : m.localInner.localId .transfer g = some base.channelId)
      (registered : r.provider.byId g = some kind)
      (called : (m.calls g)[n]? = some payload)
      (whole : payload.length ≤ maxNonSegmentedPayloadLen →
        base.segment = none ∧ base.payload = payload)
      (order : base.order = if kind.isOrdered then some (BitVec.ofNat 32 n) else none)
      (key : base.resendKey = none)
      (indexed : ∀ x, base.segment = some x → x.segment < x.segmentCount) : Uttered r m base kind

/-- A datagram that carries what was said, with a resend key when its channel is reliable. -/
inductive Spoken (r : Registry) (m : Endpoint) (key : Option SlotMapKey) : Bytes → Prop where
  | framed (base : Packet) (kind : Channel) (uttered : Uttered r m base kind)
      (id : base.channelId.toNat < 2 ^ 31) (segment : ∀ s, base.segment = some s → s.Valid)
      (reliable : key.isSome = kind.isReliable) :
      Spoken r m key ({ base with resendKey := key } : Packet).bytes

/-- The applications use no channels but those of the registry. -/
def Offered (r : Registry) (m : Endpoint) : Prop :=
  ∀ channel payload, .called channel payload ∈ m.log → (r.provider.byId channel).isSome

/-- All that was sent or is held for sending was said. -/
structure Voiced (r : Registry) (m : Endpoint) : Prop where
  sent : ∀ d, .sent d ∈ m.log → ∃ key, Spoken r m key d
  held : ∀ packet, some packet ∈ m.resender.packets.values → ∃ key, Spoken r m key packet.payload
  buffer : ∃ keys : List SlotMapKey, m.acknowledgeBuffer = keys.flatMap SlotMapKey.encode ∧
    ∀ key ∈ keys, ∃ d, .recorded key d ∈ m.log

section
variable {r : Registry} {m m' : Endpoint} {s : Scope}

theorem calls_prefix (h : m.log <+: m'.log) (g : U32) : m.calls g <+: m'.calls g := by
  obtain ⟨events, he⟩ := h
  rw [Endpoint.calls, Endpoint.calls, ← he, List.filterMap_append]
  exact List.prefix_append _ _

/-- What was said once stays said. -/
theorem Uttered.later {base : Packet} {kind : Channel} (h : Uttered r m base kind)
    (inner : m'.localInner = m.localInner) (log : m.log <+: m'.log) : Uttered r m' base kind := by
  cases h with
  | announcement i payload place last => exact .announcement i payload place (inner ▸ last)
  | acknowledgement id keys entered channel known =>
    refine .acknowledgement id keys (inner ▸ entered) (inner ▸ channel) (fun key hkey => ?_)
    obtain ⟨d, hd⟩ := known key hkey
    exact ⟨d, log.subset hd⟩
  | message _ _ g n payload entered addressed registered called whole order key indexed =>
    refine .message base kind g n payload (inner ▸ entered) (inner ▸ addressed) registered ?_ whole
      order key indexed
    obtain ⟨more, hcalls⟩ := calls_prefix log g
    rw [← hcalls, List.getElem?_append_left (List.getElem?_eq_some_iff.mp called).1]
    exact called

theorem Spoken.later {key : Option SlotMapKey} {d : Bytes} (h : Spoken r m key d)
    (inner : m'.localInner = m.localInner) (log : m.log <+: m'.log) : Spoken r m' key d := by
  cases h with
  | framed base kind uttered id segment reliable =>
    exact .framed base kind (uttered.later inner log) id segment reliable

/-- A move says nothing but what its scope lets it send. -/
theorem Move.voiced (h : Move s m m') (hm : Voiced r m)
    (sends : ∀ base kind, s.sends m base kind → Uttered r m base kind ∧ base.resendKey = none) :
    Voiced r m' := by
  have hinner := h.fixed.1
  have hlog := h.log_grows
  have spoken {key : Option SlotMapKey} {d : Bytes} (hd : Spoken r m key d) : Spoken r m' key d :=
    hd.later hinner hlog
  have heard (d : Bytes) (hd : .sent d ∈ m.log) : ∃ key, Spoken r m' key d :=
    (hm.sent d hd).imp fun _ => spoken
  have kept (packet : ReliableBufferedPacket) (hp : some packet ∈ m.resender.packets.values) :
      ∃ key, Spoken r m' key packet.payload := (hm.held packet hp).imp fun _ => spoken
  have buffered : ∃ keys : List SlotMapKey, m.acknowledgeBuffer = keys.flatMap SlotMapKey.encode ∧
      ∀ key ∈ keys, ∃ d, .recorded key d ∈ m'.log := by
    obtain ⟨keys, hbuffer, hknown⟩ := hm.buffer
    exact ⟨keys, hbuffer, fun key hkey => (hknown key hkey).imp fun _ hd => hlog.subset hd⟩
  have heard_more {events : List Event} (hevents : m'.log = m.log ++ events)
      (new : ∀ d, .sent d ∈ events → ∃ key, Spoken r m' key d) :
      ∀ d, .sent d ∈ m'.log → ∃ key, Spoken r m' key d := by
    intro d hd
    rw [hevents] at hd
    rcases List.mem_append.mp hd with hd | hd
    · exact heard d hd
    · exact new d hd
  cases h with
  | issue base kind reliable key resender packet hsends id segment hkind add stored =>
    have framed := Spoken.framed base kind ((sends base kind hsends).1.later hinner hlog) id segment
      (by simp [Channel.isReliable, hkind] : (some key).isSome = kind.isReliable)
    have added (x : ReliableBufferedPacket) (hx : some x ∈ resender.packets.values) :
        x.payload = ({ base with resendKey := some key } : Packet).bytes ∨
          some x ∈ m.resender.packets.values := by
      rcases SlotMap.mem_add (PacketResender.add_ok add).2.2 hx with hx | hx
      · cases hx
        exact Or.inl rfl
      · exact Or.inr hx
    have holds := fun x hx => (added x hx).elim (fun he => ⟨some key, he ▸ framed⟩) (kept x)
    refine ⟨heard_more rfl (fun d hd => ?_), holds, buffered⟩
    obtain rfl : d = packet.payload := by simpa using hd
    exact holds packet (List.mem_of_getElem? (SlotMap.get_eq_some.mp stored).1)
  | send base kind hsends id segment hkind =>
    obtain ⟨said, hkey⟩ := sends base kind hsends
    have framed := Spoken.framed base kind (said.later hinner hlog) id segment
      (by simp [Channel.isReliable, hkind] : (none : Option SlotMapKey).isSome = kind.isReliable)
    rw [← hkey] at framed
    refine ⟨heard_more rfl (fun d hd => ?_), kept, buffered⟩
    obtain rfl : d = base.bytes := by simpa using hd
    exact ⟨_, framed⟩
  | flushed => exact ⟨heard, kept, [], rfl, fun _ hkey => absurd hkey List.not_mem_nil⟩
  | buffer key d known room =>
    refine ⟨heard, kept, ?_⟩
    obtain ⟨keys, hbuffer, hknown⟩ := hm.buffer
    refine ⟨keys ++ [key], by simp [hbuffer], fun k hk => ?_⟩
    rcases List.mem_append.mp hk with hk | hk
    · exact hknown k hk
    · rw [List.mem_singleton.mp hk]
      exact ⟨d, known⟩
  | switch lastKey complete hw =>
    exact ⟨heard, fun _ hp => absurd hp List.not_mem_nil, [], rfl,
      fun _ hkey => absurd hkey List.not_mem_nil⟩
  | release key packet resender remove hk =>
    refine ⟨heard_more rfl (by simp), fun x hx => kept x ?_, buffered⟩
    exact SlotMap.mem_remove (PacketResender.remove_ok remove).2 hx
  | resend packet held =>
    refine ⟨heard_more rfl (fun d hd => ?_), kept, buffered⟩
    obtain rfl : d = packet.payload := by simpa using hd
    exact kept packet held
  | clock delta packets func before after visited =>
    refine ⟨heard, fun x hx => ?_, buffered⟩
    obtain ⟨packet, held, hpayload⟩ := PacketResender.mem_clock visited hx
    rw [hpayload]
    exact kept packet held
  | record key d hr new => exact ⟨heard_more rfl (by simp), kept, buffered⟩
  | confirm received key last hk => exact ⟨heard_more rfl (by simp), kept, buffered⟩
  | consume packet hd => exact ⟨heard_more rfl (by simp), kept, buffered⟩
  | hand packet hr => exact ⟨heard_more rfl (by simp), kept, buffered⟩
  | _ => exact ⟨heard, kept, buffered⟩

theorem Offered.earlier (h : Offered r m') (log : m.log <+: m'.log) : Offered r m :=
  fun channel payload hc => h channel payload (log.subset hc)

theorem mem_calls {g : U32} {payload : Bytes} (h : payload ∈ m.calls g) :
    .called g payload ∈ m.log := by
  obtain ⟨event, hevent, hcall⟩ := List.mem_filterMap.mp h
  cases event with
  | called channel x =>
    simp only [Event.call?, Option.ite_none_right_eq_some, Option.some.injEq] at hcall
    obtain ⟨rfl, rfl⟩ := hcall
    exact hevent
  | _ => cases hcall

/-- A channel of the registry is none of the registration stage. -/
theorem provided_unregistered {g : U32} (h : (r.provider.byId g).isSome) :
    ConnectionIdMapperInner.registrationId g = none := by
  have hreg : channelManagementChannelIdRegistrationStage.toNat = 2 ^ 31 - 2 := rfl
  have hack : ackChannelIdRegistrationStage.toNat = 2 ^ 31 - 1 := rfl
  have hfew := r.few
  have hlt : g.toNat < r.channels.length := by
    obtain ⟨channel, hc⟩ := Option.isSome_iff_exists.mp h
    exact (List.getElem?_eq_some_iff.mp hc).1
  rw [ConnectionIdMapperInner.registrationId, if_neg]
  rintro (he | he) <;> rw [he] at hlt <;> omega

/-- The packets of a request are messages of its channel. -/
theorem Requested.uttered {base : Packet} {kind : Channel} (h : Requested r.provider m base kind)
    (counted : Counted r.provider m) (offered : Offered r m) : Uttered r m base kind := by
  obtain ⟨⟨channel, payload, addressed, last, whole⟩, key, indexed, unordered, ordered⟩ := h
  have hcalled := mem_calls (List.mem_of_getLast? last)
  have hnone := provided_unregistered (offered channel payload hcalled)
  rcases addressed_cases addressed with ⟨hst, hlocal, hkind⟩ | ⟨_, _, _, hreg⟩
  · rw [List.getLast?_eq_getElem?] at last
    have hlt := (List.getElem?_eq_some_iff.mp last).1
    refine .message base kind channel _ payload counted.entered hlocal hkind last whole ?_ key
      indexed
    cases ho : kind.isOrdered with
    | false =>
      rw [unordered ho]
      rfl
    | true =>
      obtain ⟨order, hbase, hget⟩ := ordered ho
      obtain ⟨place, hplace, hread⟩ := ChannelData.get_ok.mp hget
      rw [hst] at hplace
      obtain rfl : .basic base.channelId.toNat = place := Option.some.inj hplace
      have hcount := counted.counted channel _ kind hlocal hkind ho
      have hnext := Option.some.inj (hread.symm.trans hcount)
      rw [hbase, if_pos rfl, Option.some.injEq]
      apply BitVec.eq_of_toNat_eq
      have hnat := congrArg BitVec.toNat hnext
      simp only [BitVec.toNat_add, BitVec.toNat_ofNat] at hnat ⊢
      have hsmall := order.isLt
      have hone : (1 : U32).toNat = 1 := rfl
      omega
  · rw [hnone] at hreg
    cases hreg

/-- A place below the registration stage's ids is none of them. -/
theorem small_unregistered {id : U32}
    (h : id.toNat < channelManagementChannelIdRegistrationStage.toNat ∨ id = nullChannelId) :
    ConnectionIdMapperInner.registrationId id = none := by
  have hreg : channelManagementChannelIdRegistrationStage.toNat = 2 ^ 31 - 2 := rfl
  have hack : ackChannelIdRegistrationStage.toNat = 2 ^ 31 - 1 := rfl
  have hnull : nullChannelId.toNat = 2 ^ 31 := rfl
  rw [ConnectionIdMapperInner.registrationId, if_neg]
  rcases h with h | rfl
  · rintro (he | he) <;> rw [he] at h <;> omega
  · decide

/-- What is said on a channel of the registration stage. -/
theorem Uttered.registered {base : Packet} {kind : Channel} (h : Uttered r m base kind)
    (stage : ConnectionIdMapperInner.registrationId base.channelId ≠ none) :
    (∃ i payload, (announcements (sortedChannels r.provider))[i]? = some payload ∧
      (i = (sortedChannels r.provider).length →
        Entered (sortedChannels r.provider) m.localInner) ∧
      base = registrationPacket i payload ∧ kind = channelManagementChannel) ∨
    (∃ keys : List SlotMapKey,
      base = ⟨ackChannelIdRegistrationStage, none, none, none, keys.flatMap SlotMapKey.encode⟩ ∧
      kind = ackChannel ∧ ∀ key ∈ keys, ∃ d, .recorded key d ∈ m.log) := by
  cases h with
  | announcement i payload place last => exact Or.inl ⟨i, payload, place, last, rfl, rfl⟩
  | acknowledgement id keys entered channel known =>
    right
    rcases channel with rfl | rfl
    · exact ⟨keys, rfl, rfl, known⟩
    · exfalso
      apply stage
      apply small_unregistered
      show m.localInner.ackChannelId.toNat < _ ∨ m.localInner.ackChannelId = _
      have hfew := sorted_few r
      rw [(entered_builtins entered hfew (sorted_names r)).1]
      unfold Few at hfew
      by_cases hmem : ackChannelName ∈ (sortedChannels r.provider).map Prod.fst
      · left
        have hlt := List.idxOf_lt_length_of_mem hmem
        rw [number_toNat (by rwa [List.length_map]) hmem]
        rw [List.length_map] at hlt
        omega
      · right
        rw [numberOf, if_neg hmem]
  | message _ _ g n payload entered addressed =>
    exfalso
    apply stage
    apply small_unregistered
    left
    have hfew := sorted_few r
    obtain ⟨_, hentry, _⟩ := Option.map_eq_some_iff.mp (local_place entered addressed)
    exact Nat.lt_of_lt_of_le (List.getElem?_eq_some_iff.mp hentry).1 hfew

/-- Everything that the calls of a connection send is said by it. -/
theorem Voiced.working_sends (hm : Voiced r m) (counted : Counted r.provider m)
    (offered : Offered r m) {base : Packet} {kind : Channel}
    (h : (working r.provider).sends m base kind) :
    Uttered r m base kind ∧ base.resendKey = none := by
  rcases h with ⟨rfl, rfl⟩ | hrequest
  · obtain ⟨keys, hbuffer, hknown⟩ := hm.buffer
    refine ⟨?_, rfl⟩
    have said := Uttered.acknowledgement (r := r) (m := m) m.ackPacket.channelId keys
      counted.entered ?_ hknown
    · rw [← hbuffer] at said
      exact said
    · cases hst : m.state with
      | registration received lastKey =>
        left
        simp only [Endpoint.ackPacket, hst]
      | transfer =>
        right
        simp only [Endpoint.ackPacket, hst]
  · exact ⟨hrequest.uttered counted offered, hrequest.key⟩

/-- A live connection says what its calls make it say. -/
theorem Work.voiced (h : Work r.provider m m') (counted : Counted r.provider m)
    (offered : Offered r m) (hm : Voiced r m) : Voiced r m' := by
  have request (orders : ChannelData U32) (channel : U32) (payload : Bytes) :
      Voiced r { m with orders := orders, log := m.log ++ [.called channel payload] } := by
    have hlog : m.log <+: m.log ++ [.called channel payload] := List.prefix_append _ _
    refine ⟨fun d hd => ?_, fun packet held => ?_, ?_⟩
    · have hd : .sent d ∈ m.log := by simpa using hd
      exact (hm.sent d hd).imp fun _ hspoken => hspoken.later rfl hlog
    · exact (hm.held packet held).imp fun _ hspoken => hspoken.later rfl hlog
    · obtain ⟨keys, hbuffer, hknown⟩ := hm.buffer
      exact ⟨keys, hbuffer, fun key hkey => (hknown key hkey).imp fun _ hd => hlog.subset hd⟩
  cases h with
  | move _ h => exact h.voiced hm (fun _ _ hsends => hm.working_sends counted offered hsends)
  | request channel payload => exact request m.orders channel payload
  | count channel payload _ _ orders => exact request orders channel payload
  | abandon channel payload => exact request m.orders channel payload

theorem Work.log_grows {p : ChannelProvider} (h : Work p m m') : m.log <+: m'.log := by
  cases h with
  | move _ h => exact h.log_grows
  | request => exact List.prefix_append _ _
  | count => exact List.prefix_append _ _
  | abandon => exact List.prefix_append _ _

theorem work_log_grows {p : ChannelProvider} (h : ReflTransGen (Work p) m m') :
    m.log <+: m'.log := by
  induction h with
  | refl => exact List.prefix_refl _
  | tail _ h ih => exact ih.trans h.log_grows

theorem work_voiced (h : ReflTransGen (Work r.provider) m m') (counted : Counted r.provider m)
    (offered : Offered r m') (hm : Voiced r m) : Counted r.provider m' ∧ Voiced r m' := by
  induction h with
  | refl => exact ⟨counted, hm⟩
  | tail _ h ih =>
    have before := offered.earlier h.log_grows
    obtain ⟨hcounted, hvoiced⟩ := ih before
    exact ⟨h.counted hcounted, h.voiced hcounted before hvoiced⟩

theorem announcement_spoken (i : Nat) (payload : Bytes)
    (place : (announcements (sortedChannels r.provider))[i]? = some payload)
    (last : i = (sortedChannels r.provider).length →
      Entered (sortedChannels r.provider) m.localInner) :
    Spoken r m (some (firstKey i)) (registrationDatagram i payload) := by
  refine .framed _ _ (.announcement i payload place last) ?_ ?_ rfl
  · show channelManagementChannelIdRegistrationStage.toNat < 2 ^ 31
    decide
  · intro x hx
    cases hx

theorem opened_voiced {now capacity : Nat} {mapper : ConnectionIdMapperInner}
    (entered : Entered (sortedChannels r.provider) mapper) :
    Voiced r (opened (sortedChannels r.provider) now capacity mapper) := by
  refine ⟨fun d hd => ?_, fun packet held => ?_, [], rfl,
    fun _ hkey => absurd hkey List.not_mem_nil⟩
  · obtain ⟨i, payload, place, he⟩ := opened_events hd
    obtain rfl : d = registrationDatagram i payload := by simpa using he
    exact ⟨_, announcement_spoken i payload place (fun _ => entered)⟩
  have held : some packet ∈ ((announcements (sortedChannels r.provider)).take
      ((sortedChannels r.provider).length + 1)).mapIdx registrationSlot := held
  rw [List.take_of_length_le (Nat.le_of_eq announcements_length)] at held
  obtain ⟨i, hi, hslot⟩ := List.mem_mapIdx.mp held
  cases hslot
  exact ⟨_, announcement_spoken i _ (List.getElem?_eq_getElem _) (fun _ => entered)⟩

theorem Reachable.voiced (h : Reachable r.provider m) (offered : Offered r m) : Voiced r m := by
  induction h with
  | initialized now m h =>
    obtain ⟨capacity, mapper, _, entered, rfl⟩ := initialize_opened h
    exact opened_voiced entered
  | step input m m' before h ih =>
    have work : ReflTransGen (Work r.provider) m (perform r.provider input m).2 :=
      perform_work before.passed.compact
    rw [h.2] at work
    exact (work_voiced work before.counted offered (ih (offered.earlier (work_log_grows work)))).2

/-- What a side can be: without a connection, with one, or with one that was lost in a call or
refused at its initialization. -/
inductive Standing (r : Registry) : Peer → Prop where
  | closed : Standing r {}
  | live (m : Endpoint) (reachable : Reachable r.provider m) (offered : Offered r m) :
      Standing r ⟨.live, m⟩
  | lost (m m' : Endpoint) (reachable : Reachable r.provider m)
      (work : ReflTransGen (Work r.provider) m m') (offered : Offered r m') : Standing r ⟨.gone, m'⟩
  | refused (now : Nat) (fails : (initializeConnection r.provider (.fresh now)).1 ≠ .ok ()) :
      Standing r ⟨.gone, (initializeConnection r.provider (.fresh now)).2⟩

theorem mem_datagrams {d : Bytes} (hd : d ∈ m.datagrams) : .sent d ∈ m.log := by
  obtain ⟨event, hevent, hdatagram⟩ := List.mem_filterMap.mp hd
  cases event with
  | sent x =>
    obtain rfl : x = d := Option.some.inj hdatagram
    exact hevent
  | _ => cases hdatagram

/-- Everything that a side has sent was said by it. -/
theorem Standing.spoken {peer : Peer} (h : Standing r peer) {d : Bytes}
    (hd : d ∈ peer.endpoint.datagrams) : ∃ key, Spoken r peer.endpoint key d := by
  have hsent := mem_datagrams hd
  cases h with
  | closed => exact absurd hsent List.not_mem_nil
  | live m reachable offered => exact (reachable.voiced offered).sent d hsent
  | lost m m' reachable work offered =>
    have hvoiced := reachable.voiced (offered.earlier (work_log_grows work))
    exact (work_voiced work reachable.counted offered hvoiced).2.sent d hsent
  | refused now fails =>
    rcases initialize_opens r.provider now with ⟨_, _, _, _, heq⟩ | ⟨_, _, k, hk, _, _, hlog⟩
    · rw [heq] at fails
      exact absurd rfl fails
    · rw [hlog] at hsent
      obtain ⟨i, payload, hi, place, hd⟩ := opening_events hsent
      obtain rfl : d = registrationDatagram i payload := by simpa using hd
      exact ⟨_, announcement_spoken i payload place (fun he => absurd hi (by omega))⟩

/-- The channels of requests that an input makes. -/
def Input.offers (r : Registry) : Input → Prop
  | .send channel _ => (r.provider.byId channel).isSome
  | _ => True

/-- Only a request adds a call, on its own channel. -/
theorem perform_calls {C : U32 → Prop} {p : ChannelProvider} {input : Input} (hc : m.Compact)
    (allowed : ∀ channel payload, input = .send channel payload → C channel)
    (h : ∀ channel payload, .called channel payload ∈ m.log → C channel) :
    ∀ channel payload, .called channel payload ∈ (perform p input m).2.log → C channel := by
  have moved {s : Scope} {t t' : Endpoint} (moves : ReflTransGen (Move s) t t')
      (ht : ∀ channel payload, .called channel payload ∈ t.log → C channel) :
      ∀ channel payload, .called channel payload ∈ t'.log → C channel := by
    intro channel payload hx
    have logged := moves_logged moves
      (E := fun event => event = .called channel payload → C channel)
      (fun _ event _ hlogs he => by
        rw [he] at hlogs
        exact hlogs.elim)
      (fun event hevent he => ht channel payload (he ▸ hevent))
    exact logged _ hx rfl
  cases input with
  | read now d =>
    have moves : ReflTransGen (Move (working p)) m (handleMessage p now d m).2 :=
      handle_message_work hc
    exact moved moves h
  | tick delta =>
    have moves : ReflTransGen (Move (working p)) m (updateConnection delta m).2 :=
      update_connection_moves hc (fun _ => Or.inl ⟨rfl, rfl⟩)
    exact moved moves h
  | send g x =>
    refine send_event_ends
      (P := fun t => ∀ channel payload, .called channel payload ∈ t.log → C channel) h
      (fun _ channel payload hx => ?_)
      (fun kind order t ht => moved (transmit_sending kind order x t) ht)
    rcases List.mem_append.mp hx with hx | hx
    · exact h channel payload hx
    · cases List.mem_singleton.mp hx
      exact allowed g x rfl

theorem perform_offered {input : Input} (hc : m.Compact) (offers : input.offers r)
    (h : Offered r m) : Offered r (perform r.provider input m).2 :=
  perform_calls hc (fun channel payload he => by
    rw [he] at offers
    exact offers) h

theorem Standing.call {peer peer' : Peer} {input : Input} (h : Standing r peer)
    (offers : input.offers r) (hcall : peer.call r.provider input = some peer') :
    Standing r peer' := by
  cases h with
  | live m reachable offered =>
    have hoffered := perform_offered reachable.passed.compact offers offered
    have hwork : ReflTransGen (Work r.provider) m (perform r.provider input m).2 :=
      perform_work reachable.passed.compact
    simp only [Peer.call] at hcall
    rcases hrun : perform r.provider input m with ⟨result, m'⟩
    rw [hrun] at hcall hoffered hwork
    cases result with
    | panic =>
      cases hcall
      exact .lost m m' reachable hwork hoffered
    | ok _ =>
      cases hcall
      exact .live m' (.step input m m' reachable ⟨by simp [hrun], by rw [hrun]⟩) hoffered
    | err _ =>
      cases hcall
      exact .live m' (.step input m m' reachable ⟨by simp [hrun], by rw [hrun]⟩) hoffered
  | closed => cases hcall
  | lost => cases hcall
  | refused => cases hcall

theorem Peer.call_live {p : ChannelProvider} {peer peer' : Peer} {input : Input}
    (h : peer.call p input = some peer') :
    peer.stage = .live ∧ peer'.endpoint = (perform p input peer.endpoint).2 ∧
      ((peer'.stage = .live ∧ (perform p input peer.endpoint).1 ≠ .panic) ∨
        (peer'.stage = .gone ∧ (perform p input peer.endpoint).1 = .panic)) := by
  unfold Peer.call at h
  split at h
  · rename_i live
    rcases hrun : perform p input peer.endpoint with ⟨result, m⟩
    rw [hrun] at h
    cases result with
    | panic =>
      cases h
      exact ⟨live, rfl, Or.inr ⟨rfl, rfl⟩⟩
    | ok _ =>
      cases h
      exact ⟨live, rfl, Or.inl ⟨rfl, by simp⟩⟩
    | err _ =>
      cases h
      exact ⟨live, rfl, Or.inl ⟨rfl, by simp⟩⟩
  · cases h

/-- A side that is live has come through calls that all returned. -/
theorem Standing.reachable {peer : Peer} (h : Standing r peer) (live : peer.stage = .live) :
    Reachable r.provider peer.endpoint ∧ Offered r peer.endpoint := by
  cases h with
  | live m reachable offered => exact ⟨reachable, offered⟩
  | closed => cases live
  | lost => cases live
  | refused => cases live

theorem Work.local_inner (h : Work r.provider m m') : m'.localInner = m.localInner := by
  cases h with
  | move _ h => exact h.fixed.1
  | request => rfl
  | count => rfl
  | abandon => rfl

theorem work_local_inner (h : ReflTransGen (Work r.provider) m m') :
    m'.localInner = m.localInner := by
  induction h with
  | refl => rfl
  | tail _ h ih => exact h.local_inner.trans ih

/-- A call leaves the ids of a side's own channels alone. -/
theorem Standing.call_inner {peer peer' : Peer} {input : Input} (h : Standing r peer)
    (hcall : peer.call r.provider input = some peer') :
    peer'.stage ≠ .closed ∧ peer'.endpoint.localInner = peer.endpoint.localInner := by
  obtain ⟨live, hend, hstage⟩ := Peer.call_live hcall
  refine ⟨?_, ?_⟩
  · rcases hstage with ⟨hstage, _⟩ | ⟨hstage, _⟩ <;> simp [hstage]
  · rw [hend]
    exact work_local_inner (perform_work (h.reachable live).1.passed.compact)

theorem Standing.establish {peer peer' : Peer} {now : Nat} (h : Standing r peer)
    (hmade : peer.establish r.provider now = some peer') : Standing r peer' := by
  cases h with
  | closed =>
    simp only [Peer.establish] at hmade
    rcases hrun : initializeConnection r.provider (.fresh now) with ⟨result, m'⟩
    rw [hrun] at hmade
    cases result with
    | ok _ =>
      cases hmade
      have hreach : Reachable r.provider m' := .initialized now m' hrun
      refine .live m' hreach (fun channel payload hcalled => ?_)
      obtain ⟨_, _, _, _, rfl⟩ := initialize_opened hrun
      obtain ⟨i, packet, _, he | he⟩ := opened_events hcalled <;> cases he
    | err e =>
      cases hmade
      have hstanding := Standing.refused (r := r) now (by simp [hrun])
      rwa [hrun] at hstanding
    | panic =>
      cases hmade
      have hstanding := Standing.refused (r := r) now (by simp [hrun])
      rwa [hrun] at hstanding
  | live => cases hmade
  | lost => cases hmade
  | refused => cases hmade

end

end Theta
