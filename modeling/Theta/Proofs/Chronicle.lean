import Theta.Proofs.Peers

namespace Theta
open Lib Relation

/-- What stands behind an event: a datagram is sent under a key only as it was issued, and only
what was issued is released or confirmed. -/
def Backed (r : Registry) (m : Endpoint) : Event → Prop
  | .sent d => ∃ key, Spoken r m key d ∧ ∀ k, key = some k → .issued k d ∈ m.log
  | .released key d => .issued key d ∈ m.log
  | .confirmed key => ∃ d, .issued key d ∈ m.log
  | _ => True

/-- The history of a side's keys: each of them was issued for one datagram. -/
structure Chronicled (r : Registry) (m : Endpoint) : Prop where
  unique : ∀ key d d', .issued key d ∈ m.log → .issued key d' ∈ m.log → d = d'
  backed : ∀ event ∈ m.log, Backed r m event

/-- The resender goes with the history: it holds packets under the keys they were issued with. -/
structure Keeping (r : Registry) (m : Endpoint) : Prop extends Chronicled r m where
  spent : ∀ key d, .issued key d ∈ m.log → m.resender.packets.Spent key
  held : ∀ key packet, m.resender.packets.get key = some packet →
    Spoken r m (some key) packet.payload ∧ .issued key packet.payload ∈ m.log
  awaited : ∀ received key, m.state = .registration received (some key) →
    ∃ d, .issued key d ∈ m.log

section
variable {r : Registry} {m m' : Endpoint} {s : Scope}

theorem Backed.later {event : Event} (h : Backed r m event) (inner : m'.localInner = m.localInner)
    (log : m.log <+: m'.log) : Backed r m' event := by
  cases event with
  | sent d =>
    obtain ⟨key, spoken, issued⟩ := h
    exact ⟨key, spoken.later inner log, fun k hk => log.subset (issued k hk)⟩
  | released key d => exact log.subset h
  | confirmed key =>
    obtain ⟨d, hd⟩ := h
    exact ⟨d, log.subset hd⟩
  | _ => trivial

/-- Nothing is issued, and the resender holds no more than before. -/
theorem Keeping.more {events : List Event} (h : Keeping r m)
    (inner : m'.localInner = m.localInner) (log : m'.log = m.log ++ events)
    (backed : ∀ event ∈ events, Backed r m event)
    (silent : ∀ key d, .issued key d ∉ events)
    (spent : ∀ key, m.resender.packets.Spent key → m'.resender.packets.Spent key)
    (held : ∀ key packet', m'.resender.packets.get key = some packet' →
      ∃ packet, m.resender.packets.get key = some packet ∧ packet'.payload = packet.payload)
    (awaited : ∀ received key, m'.state = .registration received (some key) →
      ∃ received, m.state = .registration received (some key)) : Keeping r m' := by
  have grows : m.log <+: m'.log := log ▸ List.prefix_append _ _
  have earlier {key : SlotMapKey} {d : Bytes} (hd : .issued key d ∈ m'.log) :
      .issued key d ∈ m.log := by
    rw [log] at hd
    rcases List.mem_append.mp hd with hd | hd
    · exact hd
    · exact absurd hd (silent key d)
  refine ⟨⟨fun key d d' hd hd' => h.unique key d d' (earlier hd) (earlier hd'),
    fun event he => ?_⟩, fun key d hd => spent key (h.spent key d (earlier hd)),
    fun key packet' hget => ?_, fun received key hst => ?_⟩
  · rw [log] at he
    rcases List.mem_append.mp he with he | he
    · exact (h.backed event he).later inner grows
    · exact (backed event he).later inner grows
  · obtain ⟨packet, hget, hpayload⟩ := held key packet' hget
    obtain ⟨spoken, issued⟩ := h.held key packet hget
    rw [hpayload]
    exact ⟨spoken.later inner grows, grows.subset issued⟩
  · obtain ⟨received, hst⟩ := awaited received key hst
    obtain ⟨d, hd⟩ := h.awaited received key hst
    exact ⟨d, grows.subset hd⟩

/-- A packet that the resender holds was issued with the key that leads to it. -/
theorem Keeping.stored {packet : ReliableBufferedPacket} (h : Keeping r m)
    (healthy : m.resender.packets.Healthy) (fits : m.resender.packets.Fits)
    (held : some packet ∈ m.resender.packets.values) : Backed r m (.sent packet.payload) := by
  obtain ⟨key, hget⟩ := SlotMap.values_get healthy fits held
  obtain ⟨spoken, issued⟩ := h.held key packet hget
  exact ⟨some key, spoken, fun k hk => Option.some.inj hk ▸ issued⟩

/-- A reliable packet is stored and sent under a key that was never issued. -/
theorem Keeping.issue {base : Packet} {kind : Channel} {reliable : ReliableChannel}
    {key : SlotMapKey} {resender : PacketResender} {packet : ReliableBufferedPacket}
    (h : Keeping r m) (healthy : m.resender.packets.Healthy) (fits : resender.packets.Fits)
    (said : Uttered r m base kind) (id : base.channelId.toNat < 2 ^ 31)
    (segment : ∀ x, base.segment = some x → x.Valid) (hkind : kind.reliability = some reliable)
    (add : (m.resender.add (fun key => ReliableBufferedPacket.new
      ({ base with resendKey := some key } : Packet).bytes
      reliable.resendInterval reliable.resendAttempts)) = .ok (key, resender))
    (stored : resender.packets.get key = some packet) :
    Keeping r { m with
      resender := resender
      log := m.log ++ [.issued key packet.payload, .sent packet.payload] } := by
  obtain ⟨_, _, hadd⟩ := PacketResender.add_ok add
  have fresh := SlotMap.add_fresh healthy fits hadd
  have hget (k : SlotMapKey) := SlotMap.get_add (k := k) healthy fits hadd
  have hpacket : packet.payload = ({ base with resendKey := some key } : Packet).bytes := by
    have hkey := hget key
    rw [if_pos rfl, stored] at hkey
    exact congrArg ReliableBufferedPacket.payload (Option.some.inj hkey)
  have log : m.log <+: m.log ++ [.issued key packet.payload, .sent packet.payload] :=
    List.prefix_append _ _
  have spoken : Spoken r m (some key) packet.payload := by
    rw [hpacket]
    exact .framed base kind said id segment (by simp [Channel.isReliable, hkind])
  have issued_cases {k : SlotMapKey} {d : Bytes}
      (hd : .issued k d ∈ m.log ++ [.issued key packet.payload, .sent packet.payload]) :
      .issued k d ∈ m.log ∨ (k = key ∧ d = packet.payload) := by
    simpa using hd
  refine ⟨⟨fun k d d' hd hd' => ?_, fun event he => ?_⟩, fun k d hd => ?_, fun k packet' hk => ?_,
    fun received k hst => ?_⟩
  · rcases issued_cases hd with old | ⟨rfl, rfl⟩
    · rcases issued_cases hd' with old' | ⟨rfl, rfl⟩
      · exact h.unique k d d' old old'
      · exact absurd (h.spent k d old) fresh
    · rcases issued_cases hd' with old' | ⟨_, rfl⟩
      · exact absurd (h.spent k d' old') fresh
      · rfl
  · rcases List.mem_append.mp he with he | he
    · exact (h.backed event he).later rfl log
    · rcases List.mem_pair.mp he with rfl | rfl
      · trivial
      · exact ⟨some key, spoken.later rfl log, fun k hk => by simp [Option.some.inj hk]⟩
  · rcases issued_cases hd with old | ⟨rfl, _⟩
    · exact SlotMap.add_spent hadd (h.spent k d old)
    · exact SlotMap.add_spent_new healthy fits hadd
  · have hvalue := hget k
    by_cases hkey : k = key
    · subst hkey
      obtain rfl : packet = packet' := Option.some.inj (stored.symm.trans hk)
      exact ⟨spoken.later rfl log, by simp⟩
    · rw [if_neg hkey, hk] at hvalue
      obtain ⟨hspoken, issued⟩ := h.held k packet' hvalue.symm
      exact ⟨hspoken.later rfl log, log.subset issued⟩
  · obtain ⟨d, hd⟩ := h.awaited received k hst
    exact ⟨d, log.subset hd⟩

theorem Move.keeping (h : Move s m m') (tidy : Tidy m) (fits : m'.resender.packets.Fits)
    (hm : Keeping r m)
    (sends : ∀ base kind, s.sends m base kind → Uttered r m base kind ∧ base.resendKey = none) :
    Keeping r m' := by
  have before : m.resender.packets.Fits := Nat.le_trans h.generations_le fits
  have healthy := tidy before
  have same (events : List Event) (backed : ∀ event ∈ events, Backed r m event)
      (silent : ∀ key d, .issued key d ∉ events) (log : m'.log = m.log ++ events)
      (resender : m'.resender = m.resender) (awaited : ∀ received key,
        m'.state = .registration received (some key) →
        ∃ received, m.state = .registration received (some key)) : Keeping r m' := by
    refine hm.more h.fixed.1 log backed silent (fun key hkey => ?_) (fun key packet hget => ?_)
      awaited
    · rw [resender]
      exact hkey
    · rw [resender] at hget
      exact ⟨packet, hget, rfl⟩
  cases h with
  | issue base kind reliable key resender packet hsends id segment hkind add stored =>
    exact hm.issue healthy fits (sends base kind hsends).1 id segment hkind add stored
  | send base kind hsends id segment hkind =>
    obtain ⟨said, hkey⟩ := sends base kind hsends
    have spoken : Spoken r m none base.bytes := by
      have framed := Spoken.framed base kind said id segment
        (by simp [Channel.isReliable, hkind] : (none : Option SlotMapKey).isSome = kind.isReliable)
      rw [← hkey] at framed
      exact hkey ▸ framed
    refine same [.sent base.bytes] (fun event he => ?_) (by simp) rfl rfl (fun received key hst => ⟨_, hst⟩)
    cases List.mem_singleton.mp he
    exact ⟨none, spoken, fun k hk => by cases hk⟩
  | switch lastKey complete hw =>
    refine hm.more rfl (List.append_nil _).symm (by simp) (by simp) (fun key hkey => hkey)
      (fun key packet hget => ?_) (fun received key hst => by cases hst)
    rw [show m.switched.resender.packets = m.resender.packets.clear from rfl,
      SlotMap.get_clear] at hget
    cases hget
  | release key packet resender remove hk =>
    have hremove := (PacketResender.remove_ok remove).2
    obtain ⟨hpacket, hgen, _⟩ := SlotMap.remove_cases hremove
    refine hm.more rfl rfl (fun event he => ?_) (by simp) (fun k hk => ?_) (fun k packet' hget => ?_)
      (fun received k hst => ⟨_, hst⟩)
    · cases List.mem_singleton.mp he
      exact (hm.held key packet hpacket.symm).2
    · exact SlotMap.Spent.same hk hgen
    · rw [SlotMap.get_remove hremove] at hget
      split at hget
      · cases hget
      · exact ⟨packet', hget, rfl⟩
  | resend packet held =>
    refine same [.sent packet.payload] (fun event he => ?_) (by simp) rfl rfl (fun received key hst => ⟨_, hst⟩)
    cases List.mem_singleton.mp he
    exact hm.stored healthy before held
  | clock delta packets func start after visited =>
    obtain ⟨_, hgen, hget⟩ := PacketResender.clock_cases healthy before visited
    exact hm.more rfl (List.append_nil _).symm (by simp) (by simp)
      (fun k hk => SlotMap.Spent.same hk hgen) hget (fun received k hst => ⟨_, hst⟩)
  | record key d hr new => exact same [_] (by simp [Backed]) (by simp) rfl rfl (fun received key hst => ⟨_, hst⟩)
  | confirm received key last hk =>
    refine same [.confirmed key] (fun event he => ?_) (by simp) rfl rfl (fun received key hst => by cases hst)
    cases List.mem_singleton.mp he
    exact hm.awaited received key last
  | consume packet hd => exact same [_] (by simp [Backed]) (by simp) rfl rfl (fun received key hst => ⟨_, hst⟩)
  | hand packet hr => exact same [_] (by simp [Backed]) (by simp) rfl rfl (fun received key hst => ⟨_, hst⟩)
  | finish received lastKey stage hr =>
    refine same [] (by simp) (by simp) (List.append_nil _).symm rfl (fun _ key hst => ?_)
    cases hst
    exact ⟨received, stage⟩
  | _ => exact same [] (by simp) (by simp) (List.append_nil _).symm rfl (fun received key hst => ⟨_, hst⟩)

theorem Work.keeping (h : Work r.provider m m') (tidy : Tidy m)
    (fits : m'.resender.packets.Fits) (counted : Counted r.provider m) (offered : Offered r m)
    (voiced : Voiced r m) (hm : Keeping r m) : Keeping r m' := by
  have request (orders : ChannelData U32) (channel : U32) (payload : Bytes) :
      Keeping r { m with orders := orders, log := m.log ++ [.called channel payload] } := by
    refine hm.more rfl rfl (fun event he => ?_) (by simp) (fun _ hkey => hkey)
      (fun _ packet hget => ⟨packet, hget, rfl⟩) (fun received _ hst => ⟨received, hst⟩)
    cases List.mem_singleton.mp he
    trivial
  cases h with
  | move _ h => exact h.keeping tidy fits hm fun _ _ hsends =>
      voiced.working_sends counted offered hsends
  | request channel payload => exact request m.orders channel payload
  | count channel payload _ _ orders => exact request orders channel payload
  | abandon channel payload => exact request m.orders channel payload

theorem work_generations_le {p : ChannelProvider} (h : ReflTransGen (Work p) m m') :
    m.resender.packets.generations.length ≤ m'.resender.packets.generations.length := by
  induction h with
  | refl => exact Nat.le_refl _
  | tail _ h ih => exact Nat.le_trans ih h.generations_le

theorem work_keeping (h : ReflTransGen (Work r.provider) m m') (reachable : Reachable r.provider m)
    (fits : m'.resender.packets.Fits) (offered : Offered r m') (hm : Keeping r m) :
    Keeping r m' := by
  have start : Voiced r m := reachable.voiced (offered.earlier (work_log_grows h))
  induction h with
  | refl => exact hm
  | tail before h ih =>
    have earlier := offered.earlier h.log_grows
    obtain ⟨counted, voiced⟩ := work_voiced before reachable.counted earlier start
    have tidy := (Passed.work reachable.passed before).tidy
    exact h.keeping tidy fits counted earlier voiced
      (ih (Nat.le_trans h.generations_le fits) earlier)

end

section
variable {r : Registry} {m : Endpoint} {now capacity k : Nat} {mapper : ConnectionIdMapperInner}

/-- An opening issues each registration packet that it sends. -/
theorem opening_logs {channels : List (String × U32)} {i : Nat} {payload : Bytes}
    (log : m.log = (opening channels now capacity k mapper).log) (hi : i < k)
    (place : (announcements channels)[i]? = some payload) :
    .issued (firstKey i) (registrationDatagram i payload) ∈ m.log := by
  rw [log]
  obtain ⟨hlt, hget⟩ := List.getElem?_eq_some_iff.mp place
  have hlen : i < ((announcements channels).take k).length := by
    rw [List.length_take]
    omega
  simp only [opening, List.mem_flatten]
  refine ⟨registrationEvents i payload, List.mem_mapIdx.mpr ⟨i, hlen, ?_⟩, ?_⟩
  · rw [List.getElem_take, hget]
  · exact List.mem_cons_self

/-- Opening a connection issues one key after the other. -/
theorem opening_chronicled
    (log : m.log = (opening (sortedChannels r.provider) now capacity k mapper).log)
    (complete : k ≤ (sortedChannels r.provider).length ∨
      Entered (sortedChannels r.provider) m.localInner) : Chronicled r m := by
  have few := sorted_few r
  refine ⟨fun key d d' hd hd' => ?_, fun event he => ?_⟩
  · rw [log] at hd hd'
    obtain ⟨i, payload, _, place, he | he⟩ := opening_events hd
    · obtain ⟨j, payload', _, place', he' | he'⟩ := opening_events hd'
      · cases he
        simp only [Event.issued.injEq] at he'
        obtain rfl := first_key_inj (few.small place) (few.small place') he'.1
        rw [place] at place'
        cases place'
        exact he'.2.symm
      · cases he'
    · cases he
  · rw [log] at he
    obtain ⟨i, payload, hi, place, rfl | rfl⟩ := opening_events he
    · trivial
    · refine ⟨_, announcement_spoken i payload place (fun hlast => ?_), fun k hk => ?_⟩
      · rcases complete with hk | entered
        · omega
        · exact entered
      · cases hk
        exact opening_logs log hi place

theorem opened_keeping (entered : Entered (sortedChannels r.provider) mapper) :
    Keeping r (opened (sortedChannels r.provider) now capacity mapper) := by
  have all : (announcements (sortedChannels r.provider)).take
      ((sortedChannels r.provider).length + 1) = announcements (sortedChannels r.provider) :=
    List.take_of_length_le (Nat.le_of_eq announcements_length)
  have log : (opened (sortedChannels r.provider) now capacity mapper).log =
      (opening (sortedChannels r.provider) now capacity ((sortedChannels r.provider).length + 1)
        mapper).log := rfl
  have few := sorted_few r
  have hreg : channelManagementChannelIdRegistrationStage.toNat = 2 ^ 31 - 2 := rfl
  unfold Few at few
  refine ⟨opening_chronicled log (Or.inr entered), fun key d hd => ?_, fun key packet hget => ?_, fun received key hst => ?_⟩
  · rw [log] at hd
    obtain ⟨i, payload, hi, place, he | he⟩ := opening_events hd
    · cases he
      refine ⟨0, ?_, Nat.le_refl _⟩
      show (List.replicate ((sortedChannels r.provider).length + 1) (0 : U32))[_]? = _
      rw [List.getElem?_replicate, if_pos]
      show (BitVec.ofNat 32 i : U32).toNat < _
      rw [SlotMap.index_of_fits (by omega)]
      exact hi
    · cases he
  · obtain ⟨hvalue, hgen⟩ := SlotMap.get_eq_some.mp hget
    have hvalue : (((announcements (sortedChannels r.provider)).take
        ((sortedChannels r.provider).length + 1)).mapIdx registrationSlot)[key.index.toNat]? =
          some (some packet) := hvalue
    have hgen : (List.replicate ((sortedChannels r.provider).length + 1)
        (0 : U32))[key.index.toNat]? = some key.generation := hgen
    rw [List.getElem?_replicate] at hgen
    split at hgen
    · rename_i hi
      rw [all, List.getElem?_mapIdx] at hvalue
      obtain ⟨payload, place, hslot⟩ := Option.map_eq_some_iff.mp hvalue
      have hkey : firstKey key.index.toNat = key := by
        refine SlotMap.key_ext ?_ (Option.some.inj hgen)
        exact SlotMap.index_of_fits key.index.isLt
      cases hslot
      have spoken := announcement_spoken (r := r)
        (m := opened (sortedChannels r.provider) now capacity mapper) key.index.toNat payload place
        (fun _ => entered)
      have issued : .issued (firstKey key.index.toNat) (registrationDatagram key.index.toNat payload) ∈
          (opened (sortedChannels r.provider) now capacity mapper).log := opening_logs log hi place
      rw [hkey] at spoken issued
      exact ⟨spoken, issued⟩
    · cases hgen
  · cases hst
    have hlast := @announcement_last (sortedChannels r.provider)
    exact ⟨_, opening_logs log (Nat.lt_succ_self _) hlast⟩

theorem Reachable.keeping (h : Reachable r.provider m) (fits : m.resender.packets.Fits)
    (offered : Offered r m) : Keeping r m := by
  induction h with
  | initialized now m h =>
    obtain ⟨capacity, mapper, _, entered, rfl⟩ := initialize_opened h
    exact opened_keeping entered
  | step input m m' before h ih =>
    have work : ReflTransGen (Work r.provider) m (perform r.provider input m).2 :=
      perform_work before.passed.compact
    rw [h.2] at work
    have hm := ih (Nat.le_trans (work_generations_le work) fits)
      (offered.earlier (work_log_grows work))
    exact work_keeping work before fits offered hm

/-- Whatever becomes of a side, its keys have a history. -/
theorem Standing.chronicled {peer : Peer} (h : Standing r peer)
    (fits : peer.endpoint.resender.packets.Fits) : Chronicled r peer.endpoint := by
  cases h with
  | closed => exact ⟨fun _ _ _ hd => absurd hd List.not_mem_nil, fun _ he => absurd he List.not_mem_nil⟩
  | live m reachable offered => exact (reachable.keeping fits offered).toChronicled
  | lost m m' reachable work offered =>
    have hm := reachable.keeping (Nat.le_trans (work_generations_le work) fits)
      (offered.earlier (work_log_grows work))
    exact (work_keeping work reachable fits offered hm).toChronicled
  | refused now fails =>
    rcases initialize_opens r.provider now with ⟨_, _, _, _, heq⟩ |
      ⟨_, _, k, hk, capacity, mapper, hlog⟩
    · rw [heq] at fails
      exact absurd rfl fails
    · exact opening_chronicled hlog (Or.inl hk)

end

end Theta
