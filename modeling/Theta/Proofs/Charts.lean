import Theta.Proofs.Agreement

namespace Theta
open Lib Relation

/-- The map of the sender's channels holds the first of them, under the receiver's own ids of their
names, whatever becomes of the others. -/
structure Charted (q : Registry) (channels : List (String × U32)) (m : Endpoint) : Prop where
  entered : ∃ k ≤ m.handedPackets.length, Entered (q.translate (channels.take k)) m.notLocalInner ∧
    ∀ entry ∈ channels.take k, (q.provider.byName entry.1).isSome
  orderer : m.state ≠ .transfer → ∀ o, m.orderers.channelManagementRegistrationStage = some o →
    Lined channels m.handedPackets.length o

section
variable {q : Registry} {channels : List (String × U32)} {m m' : Endpoint} {s : Scope}

theorem Charted.same (h : Charted q channels m)
    (handed : m'.handedPackets.length = m.handedPackets.length)
    (inner : m'.notLocalInner = m.notLocalInner)
    (kept : m'.state ≠ .transfer → m.state ≠ .transfer ∧ m'.orderers = m.orderers) :
    Charted q channels m' := by
  refine ⟨?_, fun hst o ho => ?_⟩
  · rw [handed, inner]
    exact h.entered
  · obtain ⟨hst, horderers⟩ := kept hst
    rw [handed]
    exact h.orderer hst o (horderers ▸ ho)

theorem Move.charted (hr : ¬ s.registers) (hh : s.holds → m.state = .transfer) (hm : Move s m m')
    (h : Charted q channels m) : Charted q channels m' := by
  apply h.same (congrArg List.length (hm.same_handed hr))
  · cases hm with
    | register _ _ _ _ _ _ _ _ registers => exact absurd registers hr
    | _ => rfl
  · cases hm with
    | finish _ _ _ registers => exact absurd registers hr
    | switch => exact fun hne => absurd rfl hne
    | confirm _ _ last => exact fun _ => ⟨by simp [last], rfl⟩
    | hold _ holds => exact fun hne => absurd (hh holds) hne
    | _ => exact fun hne => ⟨hne, rfl⟩

theorem moves_charted (hr : ¬ s.registers) (hh : s.holds → m.state = .transfer)
    (hm : ReflTransGen (Move s) m m') (h : Charted q channels m) : Charted q channels m' := by
  induction hm with
  | refl => exact h
  | tail before hm ih => exact hm.charted hr (fun holds => transfer_stays before (hh holds)) ih

/-- The name and the id in a registration packet are those of its channel. -/
theorem announced_entry {n : Nat} {payload rest rest' : Bytes} {name : String} {id : U32}
    (short : ∀ entry ∈ channels, (utf8 entry.1).length ≤ channelNameMaxLen)
    (next : (announcements channels)[n]? = some payload)
    (hname : StrWithMaxLen.decode channelNameMaxLen payload = .ok (name, rest)) (named : name ≠ "")
    (hid : VarInt.decode 32 rest = .ok (id, rest')) :
    ∃ g, channels[n]? = some (name, g) ∧ id = BitVec.ofNat 32 n := by
  have hlt := (List.getElem?_eq_some_iff.mp next).1
  rw [announcements_length] at hlt
  have hbefore : n < channels.length := by
    by_contra hge
    have hlast : n = channels.length := by omega
    rw [hlast, announcement_last, Option.some.injEq] at next
    have hunnamed := decode_name "" (by decide +kernel) []
    rw [List.append_nil, next, hname] at hunnamed
    cases hunnamed
    exact named rfl
  obtain ⟨⟨own, g⟩, hget⟩ : ∃ entry, channels[n]? = some entry :=
    ⟨_, List.getElem?_eq_getElem hbefore⟩
  have hrest : channels.drop n = (own, g) :: channels.drop (n + 1) := by
    rw [List.drop_eq_getElem_cons hbefore, ← (List.getElem?_eq_some_iff.mp hget).2]
  obtain rfl := Option.some.inj ((announcement_get hrest).symm.trans next)
  rw [decode_name own (short _ (List.mem_of_getElem? hget))] at hname
  cases hname
  have hdecode := VarInt.decode_encode_u32 (BitVec.ofNat 32 n : U32) []
  rw [List.append_nil, hid] at hdecode
  cases hdecode
  exact ⟨g, hget, rfl⟩

/-- What the handler makes of the next registration packet. -/
theorem Charted.handle {payload : Bytes} {received : Bool} {lastKey : Option SlotMapKey}
    (h : Charted q channels m) (few : Few channels)
    (short : ∀ entry ∈ channels, (utf8 entry.1).length ≤ channelNameMaxLen)
    (hst : m.state = .registration received lastKey)
    (empty : m.orderers.channelManagementRegistrationStage = none)
    (next : (announcements channels)[m.handedPackets.length]? = some payload) :
    Charted q channels (handleRegistration q.provider payload m).2 ∧
      (handleRegistration q.provider payload m).2.handedPackets.length =
        m.handedPackets.length + 1 ∧
      (handleRegistration q.provider payload m).2.orderers.channelManagementRegistrationStage =
        none := by
  have hlength : (m.handed payload).handedPackets.length = m.handedPackets.length + 1 := by
    rw [show (m.handed payload).handedPackets = m.handedPackets ++ [payload] from
      List.filterMap_append, List.length_append]
    rfl
  obtain ⟨k, hk, entered, known⟩ := h.entered
  have ends {t : Endpoint} {k : Nat} (hk : k ≤ m.handedPackets.length + 1)
      (entered : Entered (q.translate (channels.take k)) t.notLocalInner)
      (known : ∀ entry ∈ channels.take k, (q.provider.byName entry.1).isSome)
      (handed : t.handedPackets.length = m.handedPackets.length + 1)
      (slot : t.orderers.channelManagementRegistrationStage = none) :
      Charted q channels t ∧ t.handedPackets.length = m.handedPackets.length + 1 ∧
        t.orderers.channelManagementRegistrationStage = none := by
    refine ⟨⟨⟨k, by omega, entered, known⟩, fun _ o ho => ?_⟩, handed, slot⟩
    rw [slot] at ho
    cases ho
  have hlater : k ≤ m.handedPackets.length + 1 := by omega
  rcases handle_registration_cases q.provider payload hst with ⟨r, _, hend⟩ | ⟨rest, _, hend⟩ |
    ⟨name, rest, id, rest', g, mapper, hname, hne, hid, hg, insert, hend⟩
  · rw [hend]
    exact ends hlater entered known hlength empty
  · rw [hend]
    rcases convert_to_transfer_cases { m.handed payload with
      state := .registration true lastKey } with ⟨_, hc⟩ | ⟨_, hc⟩
    · rw [hc]
      exact ends hlater entered known hlength empty
    · rw [hc]
      exact ends hlater entered known hlength empty
  obtain ⟨g', hget, rfl⟩ := announced_entry short next hname hne hid
  have hlt := (List.getElem?_eq_some_iff.mp hget).1
  have hsmall : (BitVec.ofNat 32 m.handedPackets.length : U32).toNat = m.handedPackets.length :=
    place_to_nat (Nat.lt_of_lt_of_le hlt few)
  have hcount : (q.translate (channels.take k)).length = k := by
    rw [Registry.translate, List.length_map, List.length_take]
    omega
  obtain ⟨hle, _, _⟩ := insert_length insert
  rw [hsmall, entered_length entered, hcount] at hle
  obtain rfl : k = m.handedPackets.length := by omega
  have htake : channels.take (m.handedPackets.length + 1) =
      channels.take m.handedPackets.length ++ [(name, g')] := by
    rw [List.take_add_one, hget]
    rfl
  have more : Entered (q.translate (channels.take (m.handedPackets.length + 1))) mapper := by
    rw [htake, Registry.translate, List.map_append, List.map_singleton, hg]
    apply Entered.enter _ _ _ _ _ entered
    rw [hcount]
    exact insert
  have known' : ∀ entry ∈ channels.take (m.handedPackets.length + 1),
      (q.provider.byName entry.1).isSome := by
    intro entry he
    rw [htake] at he
    rcases List.mem_append.mp he with he | he
    · exact known entry he
    · rw [List.mem_singleton.mp he, hg]
      rfl
  rcases hend with ⟨_, hend⟩ | ⟨channel, _, hend⟩
  · rw [hend]
    exact ends (Nat.le_refl _) more known' hlength empty
  · rw [hend]
    refine ends (Nat.le_refl _) more known' hlength ?_
    unfold ordererFor
    split
    · exact empty
    · exact empty

/-- The orderer hands on registration packets; `J` is what else its handlers keep. -/
theorem Charted.retain {J : Endpoint → Prop} {g : U32} {o : PacketOrderer}
    (h : Charted q channels m) (few : Few channels)
    (short : ∀ entry ∈ channels, (utf8 entry.1).length ≤ channelNameMaxLen)
    (lined : Lined channels m.handedPackets.length o)
    (empty : m.orderers.channelManagementRegistrationStage = none)
    (register : ∀ t payload, t.state ≠ .transfer → J t →
      J (handleRegistration q.provider payload t).2)
    (handle : ∀ t payload, t.state = .transfer → Charted q channels t → J t →
      J (handlePacket q.provider g registrationChannel payload t).2)
    (hm : J m) {r : Outcome ConnectionError Unit} {o' : PacketOrderer} {t : Endpoint}
    (run : o.retain (handlePacket q.provider g registrationChannel) m = (r, o', t)) :
    Charted q channels t ∧ J t ∧ (r = .ok () → Charted q channels (t.manage (some o'))) := by
  have ends := o.retain_ends (handlePacket q.provider g registrationChannel)
    (I := fun o' t =>
      ((Charted q channels t ∧ t.orderers.channelManagementRegistrationStage = none) ∧ J t) ∧
      (t.state ≠ .transfer → Lined channels t.handedPackets.length o'))
    (K := fun _ t => Charted q channels t ∧ J t) ?_ (fun _ _ ht => ⟨ht.1.1.1, ht.1.2⟩)
    ⟨⟨⟨h, empty⟩, hm⟩, fun _ => lined⟩
  · rw [run] at ends
    by_cases hok : r = .ok ()
    · obtain ⟨⟨⟨ht, _⟩, hJ⟩, hlined⟩ := ends.1 hok
      refine ⟨ht, hJ, fun _ => ⟨ht.entered, fun hst x hx => ?_⟩⟩
      obtain rfl : o' = x := Option.some.inj hx
      exact hlined hst
    · exact ⟨(ends.2 hok).1, (ends.2 hok).2, fun he => absurd he hok⟩
  rintro o' t x ⟨⟨⟨ht, hslot⟩, hJ⟩, hlined⟩ hx
  rcases hst : t.state with ⟨received, lastKey⟩ | _
  · obtain ⟨hadvanced, _, _, hnext⟩ := (hlined (by simp [hst])).advance hx
    have registered := register t x (by simp [hst]) hJ
    rw [handle_packet_management hst rfl]
    obtain ⟨hcharted, hcount, hempty⟩ := ht.handle few short hst hslot hnext
    refine ⟨fun _ => ⟨⟨⟨hcharted, hempty⟩, registered⟩, fun _ => ?_⟩,
      fun _ => ⟨hcharted, registered⟩⟩
    rw [hcount]
    exact hadvanced
  · have moves : ReflTransGen (Move handlingOnly) t
        (handlePacket q.provider g registrationChannel x t).2 :=
      handle_packet_moves trivial trivial (fun _ _ => trivial) (fun hne => absurd hst hne)
    have hcharted := moves_charted id False.elim moves ht
    have handled := handle t x hst ht hJ
    refine ⟨fun _ => ⟨⟨⟨hcharted, ?_⟩, handled⟩, fun hne => absurd (transfer_stays moves hst) hne⟩,
      fun _ => ⟨hcharted, handled⟩⟩
    rw [same_orderers id moves]
    exact hslot

/-- A registration packet of the announcing side, with what its handlers keep. -/
theorem Charted.announced {J : Endpoint → Prop} {g : U32} {i : Nat} {payload : Bytes}
    (h : Charted q channels m) (few : Few channels)
    (short : ∀ entry ∈ channels, (utf8 entry.1).length ≤ channelNameMaxLen)
    (hst : m.state ≠ .transfer) (place : (announcements channels)[i]? = some payload)
    (hold : ∀ t orderers, J t → J { t with orderers := orderers })
    (register : ∀ t payload, t.state ≠ .transfer → J t →
      J (handleRegistration q.provider payload t).2)
    (handle : ∀ t payload, t.state = .transfer → Charted q channels t → J t →
      J (handlePacket q.provider g registrationChannel payload t).2)
    (hm : J m) :
    Charted q channels
        (deliver q.provider g registrationChannel (some (BitVec.ofNat 32 i)) payload m).2 ∧
      J (deliver q.provider g registrationChannel (some (BitVec.ofNat 32 i)) payload m).2 := by
  have small : (BitVec.ofNat 32 i : U32).toNat = i := SlotMap.index_of_fits (few.small place)
  have taken : Charted q channels (m.manage none) := ⟨h.entered, fun _ o ho => by cases ho⟩
  refine deliver_managed (J := fun t => Charted q channels t ∧ J t) hst ⟨h, hm⟩
    ⟨taken, hold m _ hm⟩ (fun o o' slot push result o'' t run => ?_)
  have lined := (h.orderer hst o slot).push place small push
  obtain ⟨ht, hJ, back⟩ :=
    taken.retain few short lined.1 rfl register handle (hold m _ hm) run
  exact ⟨⟨ht, hJ⟩, fun hok => ⟨back hok, hold t _ hJ⟩⟩

/-- A datagram of the announcing side keeps the map to its first channels, and what else its
handlers keep. -/
theorem Charted.read_keeps {J : Endpoint → Prop} {r : Registry} {a : Endpoint} {now : Nat}
    {d : Bytes} {key : Option SlotMapKey} (h : Charted q (sortedChannels r.provider) m)
    (hc : m.Compact)
    (short : ∀ entry ∈ sortedChannels r.provider, (utf8 entry.1).length ≤ channelNameMaxLen)
    (spoken : Spoken r a key d)
    (prepare : ∀ t, ReflTransGen (Move (preparing q.provider d)) m t → J t)
    (touch : ∀ t time, J t → J { t with lastTimeReceivedPacket := time })
    (hold : ∀ t orderers, J t → J { t with orderers := orderers })
    (register : ∀ t payload, t.state ≠ .transfer → J t →
      J (handleRegistration q.provider payload t).2)
    (handle : ∀ t payload, t.state = .transfer → Charted q (sortedChannels r.provider) t → J t →
      J (handlePacket q.provider channelManagementChannelIdRegistrationStage registrationChannel
        payload t).2)
    (answer : ∀ t (keys : List SlotMapKey), t.state ≠ .transfer →
      (∀ key ∈ keys, ∃ d, .recorded key d ∈ a.log) → J t →
      J (handlePacket q.provider ackChannelIdRegistrationStage
        ⟨ackChannelIdRegistrationStage, ackChannel⟩ (keys.flatMap SlotMapKey.encode) t).2)
    (transfer : ∀ t inc order payload, Reaches q.provider d m inc order payload t →
      t.state = .transfer → J t →
      J (deliver q.provider inc.globalChannelId inc.channel order payload t).2) :
    Charted q (sortedChannels r.provider) (handleMessage q.provider now d m).2 ∧
      J (handleMessage q.provider now d m).2 := by
  refine handle_spoken (I := fun t => Charted q (sortedChannels r.provider) t ∧ J t) hc spoken
    (fun t moves => ⟨moves_charted id False.elim moves h, prepare t moves⟩)
    (fun t time ht => ⟨⟨ht.1.entered, ht.1.orderer⟩, touch t time ht.2⟩) ?_ ?_ ?_
  · rintro t i payload ⟨ht, hJ⟩ hst place _
    exact ht.announced (sorted_few r) short hst place hold register handle hJ
  · rintro t keys ⟨ht, hJ⟩ hst known
    have handled : ReflTransGen (Move handlingOnly) t
        (handlePacket q.provider ackChannelIdRegistrationStage
          ⟨ackChannelIdRegistrationStage, ackChannel⟩ (keys.flatMap SlotMapKey.encode) t).2 :=
      handle_packet_moves trivial trivial (fun _ _ => trivial) (fun _ hne => absurd hne (by decide))
    exact ⟨moves_charted id False.elim handled ht, answer t keys hst known hJ⟩
  · rintro t inc order payload _ reaches ⟨ht, hJ⟩ hst
    have delivered : ReflTransGen (Move transferOnly) t
        (deliver q.provider inc.globalChannelId inc.channel order payload t).2 :=
      deliver_transfer_moves trivial trivial (fun _ => trivial) trivial hst
    exact ⟨moves_charted id (fun _ => hst) delivered ht, transfer t inc order payload reaches hst hJ⟩

theorem Charted.read {r : Registry} {a : Endpoint} {now : Nat} {d : Bytes}
    {key : Option SlotMapKey} (h : Charted q (sortedChannels r.provider) m) (hc : m.Compact)
    (short : ∀ entry ∈ sortedChannels r.provider, (utf8 entry.1).length ≤ channelNameMaxLen)
    (spoken : Spoken r a key d) :
    Charted q (sortedChannels r.provider) (handleMessage q.provider now d m).2 := by
  have kept : Charted q (sortedChannels r.provider) (handleMessage q.provider now d m).2 ∧ True :=
    h.read_keeps (J := fun _ => True) hc short spoken (fun _ _ => trivial) (fun _ _ _ => trivial)
      (fun _ _ _ => trivial) (fun _ _ _ _ => trivial) (fun _ _ _ _ _ => trivial)
      (fun _ _ _ _ _ => trivial) (fun _ _ _ _ _ _ _ => trivial)
  exact kept.1

theorem Few.translated (few : Few channels) (k : Nat) : Few (q.translate (channels.take k)) := by
  unfold Few Registry.translate at *
  rw [List.length_map, List.length_take]
  omega

theorem get_of_take {l : List α} {k i : Nat} {x : α} (h : (l.take k)[i]? = some x) :
    l[i]? = some x := by
  rw [List.getElem?_take] at h
  split at h
  · exact h
  · cases h

/-- A mapped id is the place of a name that the receiver knows. -/
theorem Charted.resolves {l g : U32} (h : Charted q channels m) (few : Few channels)
    (hg : m.notLocalInner.globalId .transfer l = some g) :
    ∃ name own, channels[l.toNat]? = some (name, own) ∧ q.provider.byName name = some g := by
  obtain ⟨k, _, entered, known⟩ := h.entered
  rw [entered_global_id entered (few.translated k), Registry.translate, List.getElem?_map] at hg
  obtain ⟨_, hmap, hg⟩ := Option.map_eq_some_iff.mp hg
  obtain ⟨⟨name, own⟩, hget, rfl⟩ := Option.map_eq_some_iff.mp hmap
  refine ⟨name, own, get_of_take hget, ?_⟩
  obtain ⟨g', hg'⟩ := Option.isSome_iff_exists.mp (known _ (List.mem_of_getElem? hget))
  have hg : (q.provider.byName name).getD nullChannelId = g := hg
  rw [hg'] at hg ⊢
  exact congrArg some hg

/-- The ids of the built-in channels are the places of their names. -/
theorem Charted.builtin_places {l : U32} (h : Charted q channels m) (few : Few channels)
    (names : (channels.map Prod.fst).Nodup) (hl : l ≠ nullChannelId) :
    (m.notLocalInner.ackChannelId = l →
      (channels.map Prod.fst)[l.toNat]? = some ackChannelName) ∧
    (m.notLocalInner.channelManagementChannelId = l →
      (channels.map Prod.fst)[l.toNat]? = some channelManagementChannelName) := by
  obtain ⟨k, _, entered, _⟩ := h.entered
  have hnames : (q.translate (channels.take k)).map Prod.fst = (channels.map Prod.fst).take k := by
    rw [translate_names, List.map_take]
  have distinct : ((channels.map Prod.fst).take k).Nodup := names.sublist (List.take_sublist _ _)
  obtain ⟨hack, hmanagement⟩ :=
    entered_builtins entered (few.translated k) (by rw [hnames]; exact distinct)
  unfold Few at few
  have numbered (builtin : String)
      (he : numberOf builtin ((q.translate (channels.take k)).map Prod.fst) = l) :
      (channels.map Prod.fst)[l.toNat]? = some builtin := by
    rw [hnames] at he
    have small : ((channels.map Prod.fst).take k).length ≤
        channelManagementChannelIdRegistrationStage.toNat := by
      rw [List.length_take, List.length_map]
      omega
    exact get_of_take (number_get small he hl)
  exact ⟨fun he => numbered _ (hack.symm.trans he), fun he => numbered _ (hmanagement.symm.trans he)⟩

/-- The place of a channel that is taken for a built-in one has its name. -/
theorem Charted.builtins {l own : U32} {name : String} (h : Charted q channels m) (few : Few channels)
    (names : (channels.map Prod.fst).Nodup) (place : channels[l.toNat]? = some (name, own)) :
    (m.notLocalInner.ackChannelId = l → name = ackChannelName) ∧
      (m.notLocalInner.channelManagementChannelId = l → name = channelManagementChannelName) := by
  have hlt := (List.getElem?_eq_some_iff.mp place).1
  have hl : l ≠ nullChannelId := by
    rintro rfl
    have hreg : channelManagementChannelIdRegistrationStage.toNat = 2 ^ 31 - 2 := rfl
    have hnull : nullChannelId.toNat = 2 ^ 31 := rfl
    unfold Few at few
    omega
  have hname : (channels.map Prod.fst)[l.toNat]? = some name := by
    rw [List.getElem?_map, place]
    rfl
  obtain ⟨ack, management⟩ := h.builtin_places few names hl
  exact ⟨fun he => Option.some.inj (hname.symm.trans (ack he)),
    fun he => Option.some.inj (hname.symm.trans (management he))⟩

/-- The id that is taken for the acknowledgements is the place of a channel. -/
theorem Charted.ack_placed {l : U32} (h : Charted q channels m) (few : Few channels)
    (names : (channels.map Prod.fst).Nodup) (hid : m.notLocalInner.ackChannelId? = some l) :
    l.toNat < channels.length := by
  have hl : l ≠ nullChannelId := by
    rintro rfl
    rw [ConnectionIdMapperInner.ackChannelId?, ConnectionIdMapperInner.nonNull, ack_channel_id hid] at hid
    cases hid
  have hget := (h.builtin_places few names hl).1 (ack_channel_id hid)
  have hlt := (List.getElem?_eq_some_iff.mp hget).1
  rwa [List.length_map] at hlt

theorem opened_charted {own : List (String × U32)} {now capacity : Nat}
    {mapper : ConnectionIdMapperInner} : Charted q channels (opened own now capacity mapper) := by
  have agreeing : Agreeing True channels (opened own now capacity mapper) := opened_agreeing
  refine ⟨⟨0, Nat.zero_le _, .empty, fun entry he => absurd he List.not_mem_nil⟩, fun hst o ho => ?_⟩
  exact (agreeing.orderer hst o ho).toLined

end

end Theta
