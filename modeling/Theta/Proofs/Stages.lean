import Theta.Proofs.Peers

namespace Theta
open Lib Relation

/-- A datagram on a channel of the registration stage. -/
def Preliminary (d : Bytes) : Prop :=
  ∀ primary rest, PrimaryPacketMetadata.decode d = .ok (primary, rest) →
    ConnectionIdMapperInner.registrationId primary.channelId ≠ none

/-- All that was sent or is held for sending is of the registration stage. -/
structure Registering (m : Endpoint) : Prop where
  sent : ∀ d, .sent d ∈ m.log → Preliminary d
  held : ∀ packet, some packet ∈ m.resender.packets.values → Preliminary packet.payload

section
variable {r : Registry} {m m' : Endpoint} {s : Scope}

theorem packet_preliminary {packet : Packet} (id : packet.channelId.toNat < 2 ^ 31)
    (stage : ConnectionIdMapperInner.registrationId packet.channelId ≠ none) :
    Preliminary packet.bytes := by
  intro primary rest h
  rw [packet.decode_primary id] at h
  cases h
  exact stage

theorem Registering.more {events : List Event} (h : Registering m)
    (log : m'.log = m.log ++ events) (sent : ∀ d, .sent d ∈ events → Preliminary d)
    (held : ∀ packet', some packet' ∈ m'.resender.packets.values →
      Preliminary packet'.payload) : Registering m' := by
  refine ⟨fun d hd => ?_, held⟩
  rw [log] at hd
  rcases List.mem_append.mp hd with hd | hd
  · exact h.sent d hd
  · exact sent d hd

/-- Nothing leaves the registration stage but by its scope. -/
theorem Move.registering (h : Move s m m') (hm : Registering m)
    (sends : ∀ base kind, s.sends m base kind →
      ConnectionIdMapperInner.registrationId base.channelId ≠ none) : Registering m' := by
  have same (events : List Event) (log : m'.log = m.log ++ events)
      (silent : ∀ d, .sent d ∉ events) (resender : m'.resender = m.resender) : Registering m' := by
    apply hm.more log (fun d hd => absurd hd (silent d))
    rw [resender]
    exact hm.held
  cases h with
  | issue base kind reliable key resender packet hsends id segment hkind add stored =>
    have early : Preliminary ({ base with resendKey := some key } : Packet).bytes :=
      packet_preliminary id (sends base kind hsends)
    have holds (x : ReliableBufferedPacket) (hx : some x ∈ resender.packets.values) :
        Preliminary x.payload := by
      rcases SlotMap.mem_add (PacketResender.add_ok add).2.2 hx with hx | hx
      · cases hx
        exact early
      · exact hm.held x hx
    refine hm.more rfl (fun d hd => ?_) holds
    obtain rfl : d = packet.payload := by simpa using hd
    exact holds packet (List.mem_of_getElem? (SlotMap.get_eq_some.mp stored).1)
  | send base kind hsends id segment hkind =>
    refine hm.more rfl (fun d hd => ?_) hm.held
    obtain rfl : d = base.bytes := by simpa using hd
    exact packet_preliminary id (sends base kind hsends)
  | switch => exact hm.more (List.append_nil _).symm (by simp) (fun _ hx => absurd hx List.not_mem_nil)
  | release key packet resender remove hk =>
    exact hm.more rfl (by simp) fun x hx =>
      hm.held x (SlotMap.mem_remove (PacketResender.remove_ok remove).2 hx)
  | resend packet held =>
    refine hm.more rfl (fun d hd => ?_) hm.held
    obtain rfl : d = packet.payload := by simpa using hd
    exact hm.held packet held
  | clock delta packets func before after visited =>
    refine hm.more (List.append_nil _).symm (by simp) (fun x hx => ?_)
    obtain ⟨packet, held, hpayload⟩ := PacketResender.mem_clock visited hx
    rw [hpayload]
    exact hm.held packet held
  | record => exact same [_] rfl (by simp) rfl
  | confirm => exact same [_] rfl (by simp) rfl
  | consume => exact same [_] rfl (by simp) rfl
  | hand => exact same [_] rfl (by simp) rfl
  | _ => exact same [] (List.append_nil _).symm (by simp) rfl

/-- While a side registers, its calls send nothing but packets of the registration stage. -/
theorem working_registers {base : Packet} {kind : Channel}
    (h : (working r.provider).sends m base kind) (offered : Offered r m)
    (hst : m.state ≠ .transfer) :
    ConnectionIdMapperInner.registrationId base.channelId ≠ none := by
  rcases h with ⟨rfl, _⟩ | ⟨⟨channel, payload, addressed, last, _⟩, _⟩
  · cases hstage : m.state with
    | transfer => exact absurd hstage hst
    | registration received lastKey =>
      simp only [Endpoint.ackPacket, hstage]
      decide
  · have hcalled := mem_calls (List.mem_of_getLast? last)
    have hnone := provided_unregistered (offered channel payload hcalled)
    rcases addressed_cases addressed with ⟨htransfer, _⟩ | ⟨_, _, _, hreg⟩
    · exact absurd htransfer hst
    · rw [hnone] at hreg
      cases hreg

theorem Work.transfer_stays {p : ChannelProvider} (h : Work p m m') (hst : m.state = .transfer) :
    m'.state = .transfer := by
  cases h with
  | move _ h => exact h.transfer_stays hst
  | _ => exact hst

theorem Work.registering (h : Work r.provider m m') (offered : Offered r m)
    (hm : m.state ≠ .transfer → Registering m) (hst : m'.state ≠ .transfer) : Registering m' := by
  have before : m.state ≠ .transfer := fun he => hst (h.transfer_stays he)
  have started := hm before
  cases h with
  | move _ h => exact h.registering started fun _ _ hsends => working_registers hsends offered before
  | request => exact started.more rfl (by simp) started.held
  | count => exact started.more rfl (by simp) started.held
  | abandon => exact started.more rfl (by simp) started.held

theorem work_registering (h : ReflTransGen (Work r.provider) m m') (offered : Offered r m')
    (hm : m.state ≠ .transfer → Registering m) (hst : m'.state ≠ .transfer) : Registering m' := by
  induction h with
  | refl => exact hm hst
  | tail _ h ih =>
    have earlier := offered.earlier h.log_grows
    exact h.registering earlier (ih earlier) hst

theorem announcement_preliminary (i : Nat) (payload : Bytes) :
    Preliminary (registrationDatagram i payload) := by
  apply packet_preliminary
  · show channelManagementChannelIdRegistrationStage.toNat < 2 ^ 31
    decide
  · show ConnectionIdMapperInner.registrationId channelManagementChannelIdRegistrationStage ≠ none
    decide

theorem opened_registering {channels : List (String × U32)} {now capacity : Nat}
    {mapper : ConnectionIdMapperInner} : Registering (opened channels now capacity mapper) := by
  refine ⟨fun d hd => ?_, fun packet held => ?_⟩
  · obtain ⟨i, payload, _, he⟩ := opened_events hd
    obtain rfl : d = registrationDatagram i payload := by simpa using he
    exact announcement_preliminary i payload
  · have held : some packet ∈ ((announcements channels).take (channels.length + 1)).mapIdx
        registrationSlot := held
    obtain ⟨i, _, hslot⟩ := List.mem_mapIdx.mp held
    cases hslot
    exact announcement_preliminary i _

theorem Reachable.registering (h : Reachable r.provider m) (offered : Offered r m)
    (hst : m.state ≠ .transfer) : Registering m := by
  induction h with
  | initialized now m h =>
    obtain ⟨capacity, mapper, _, _, rfl⟩ := initialize_opened h
    exact opened_registering
  | step input m m' before h ih =>
    have work : ReflTransGen (Work r.provider) m (perform r.provider input m).2 :=
      perform_work before.passed.compact
    rw [h.2] at work
    exact work_registering work offered (ih (offered.earlier (work_log_grows work))) hst

/-- Whoever has sent a packet of the transfer stage is in it. -/
theorem Standing.registering {peer : Peer} (h : Standing r peer) {d : Bytes}
    (hst : peer.endpoint.state ≠ .transfer) (hd : d ∈ peer.endpoint.datagrams) :
    Preliminary d := by
  have hsent := mem_datagrams hd
  cases h with
  | closed => exact absurd hsent List.not_mem_nil
  | live m reachable offered => exact (reachable.registering offered hst).sent d hsent
  | lost m m' reachable work offered =>
    have before := reachable.registering (offered.earlier (work_log_grows work))
    exact (work_registering work offered before hst).sent d hsent
  | refused now fails =>
    rcases initialize_opens r.provider now with ⟨_, _, _, _, heq⟩ | ⟨_, _, k, _, _, _, hlog⟩
    · rw [heq] at fails
      exact absurd rfl fails
    · rw [hlog] at hsent
      obtain ⟨i, payload, _, _, he⟩ := opening_events hsent
      obtain rfl : d = registrationDatagram i payload := by simpa using he
      exact announcement_preliminary i payload

theorem Standing.transfer_stays {Q : Registry} {guard guard' : Endpoint → Input → Bool}
    {peer peer' other : Peer} (h : Standing r peer)
    (step : (party r guard).Step (party Q guard') other peer peer')
    (hst : peer.endpoint.state = .transfer) : peer'.endpoint.state = .transfer := by
  rcases h.works step with rfl | work
  · cases hst
  · exact invariant_of_step (P := fun t => t.state = .transfer)
      (fun _ _ h ht => h.transfer_stays ht) work hst

/-- A packet that makes its reader leave the registration stage is of the transfer stage. -/
theorem speculation_transfers {p : ChannelProvider} {d : Bytes} (hst : m.state ≠ .transfer)
    (h : (readPacket p d m).2.state = .transfer) : ¬ Preliminary d := by
  intro early
  cases hd : PrimaryPacketMetadata.decode d with
  | err e =>
    rw [(read_packet_undecoded (by simp [hd])).1] at h
    exact hst h
  | panic =>
    rw [(read_packet_undecoded (by simp [hd])).1] at h
    exact hst h
  | ok read =>
    obtain ⟨m', ⟨⟨_, none⟩, _⟩ | ⟨_, rfl⟩, hr⟩ : ∃ m', _ ∧ readPacket p d m = _ :=
      read_packet_decoded hd
    · exact early read.1 read.2 hd none
    · rw [hr] at h
      exact hst h

end

end Theta
