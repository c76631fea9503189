import Theta.Proofs.Alignment
import Theta.Proofs.Receipts
import Theta.Proofs.Peers

namespace Theta
open Lib Relation

/-- An orderer of registration packets that has handed on the first `n` of them. -/
structure Lined (channels : List (String × U32)) (n : Nat) (o : PacketOrderer) : Prop where
  bounded : o.Bounded
  follows : o.view.Follows (announcements channels)
  next : o.view.next = n

/-- Whoever holds the last packet knows `E` of its sender. -/
structure Queued (E : Prop) (channels : List (String × U32)) (n : Nat) (o : PacketOrderer) : Prop
    extends Lined channels n o where
  last : o.view.held channels.length ≠ none → E

theorem Lined.push {channels : List (String × U32)} {n i : Nat} {o o' : PacketOrderer}
    {payload : Bytes} (h : Lined channels n o) (place : (announcements channels)[i]? = some payload)
    (small : (BitVec.ofNat 32 i : U32).toNat = i)
    (push : o.push (BitVec.ofNat 32 i : U32).toNat payload = .ok o') :
    Lined channels n o' ∧ o'.view = o.view.accept i payload := by
  obtain ⟨hbounded, _, hview⟩ := h.bounded.push push
  rw [small] at hview
  refine ⟨⟨hbounded, ?_, ?_⟩, hview⟩
  · rw [hview]
    exact h.follows.accept place
  · rw [hview]
    exact h.next

theorem Queued.push {E : Prop} {channels : List (String × U32)} {n i : Nat} {o o' : PacketOrderer}
    {payload : Bytes} (h : Queued E channels n o)
    (place : (announcements channels)[i]? = some payload)
    (small : (BitVec.ofNat 32 i : U32).toNat = i) (last : i = channels.length → E)
    (push : o.push (BitVec.ofNat 32 i : U32).toNat payload = .ok o') :
    Queued E channels n o' ∧ o'.view = o.view.accept i payload := by
  obtain ⟨hlined, hview⟩ := h.toLined.push place small push
  refine ⟨⟨hlined, fun hheld => ?_⟩, hview⟩
  by_cases he : i = channels.length
  · exact last he
  · apply h.last
    rwa [hview, Sequencer.held_accept_ne (Ne.symm he)] at hheld

/-- The packet at the head is the next one of the sender. -/
theorem Lined.advance {channels : List (String × U32)} {n : Nat} {o : PacketOrderer}
    {payload : Bytes} (h : Lined channels n o) (head : o.vec[o.dequeStart]? = some (some payload)) :
    Lined channels (n + 1) o.advance ∧ o.advance.view = o.view.advance ∧
      o.view.held n = some payload ∧ (announcements channels)[n]? = some payload := by
  obtain ⟨hbounded, hview, hhead⟩ := h.bounded.advance head
  have hnext := h.follows _ _ hhead
  rw [h.next] at hnext hhead
  refine ⟨⟨hbounded, ?_, ?_⟩, hview, hhead, hnext⟩
  · rw [hview]
    exact h.follows.advance
  · rw [hview, ← h.next]
    rfl

/-- The registration packets handled so far are the first ones of the sender, and the channels in
them are entered. -/
structure Following (E : Prop) (channels : List (String × U32)) (m : Endpoint) : Prop where
  handed : m.handedPackets = (announcements channels).take m.handedPackets.length
  entered : Entered (channels.take m.handedPackets.length) m.notLocalInner
  complete : (∀ lastKey, m.state ≠ .registration false lastKey) →
    m.handedPackets.length = channels.length + 1
  last : m.handedPackets.length = channels.length + 1 → E

/-- The receiver of a registration. -/
structure Agreeing (E : Prop) (channels : List (String × U32)) (m : Endpoint) : Prop
    extends Following E channels m where
  orderer : m.state ≠ .transfer → ∀ o, m.orderers.channelManagementRegistrationStage = some o →
    Queued E channels m.handedPackets.length o

section
variable {E : Prop} {p : ChannelProvider} {channels : List (String × U32)} {m m' : Endpoint}
  {s : Scope}

theorem announcements_end : (announcements channels)[channels.length + 1]? = none :=
  List.getElem?_eq_none (by rw [announcements_length])

/-- Handling the next registration packet. -/
theorem Following.handle {payload : Bytes} {lastKey : Option SlotMapKey}
    (h : Following E channels m) (shared : Shared p channels)
    (named : ∀ entry ∈ channels, entry.1 ≠ "") (hst : m.state = .registration false lastKey)
    (next : (announcements channels)[m.handedPackets.length]? = some payload)
    (last : m.handedPackets.length = channels.length → E) :
    (handleRegistration p payload m).1 = .ok () ∧
      Following E channels (handleRegistration p payload m).2 ∧
      (handleRegistration p payload m).2.handedPackets.length = m.handedPackets.length + 1 ∧
      (handleRegistration p payload m).2.orderers.channelManagementRegistrationStage =
        m.orderers.channelManagementRegistrationStage := by
  have hfew := shared.few
  have hlt := (List.getElem?_eq_some_iff.mp next).1
  rw [announcements_length] at hlt
  have hhanded : (m.handed payload).handedPackets = m.handedPackets ++ [payload] :=
    List.filterMap_append
  have hlength : (m.handed payload).handedPackets.length = m.handedPackets.length + 1 := by
    rw [hhanded, List.length_append]
    rfl
  have hprefix : m.handedPackets ++ [payload] =
      (announcements channels).take (m.handedPackets.length + 1) := by
    rw [List.take_add_one, next, ← h.handed]
    rfl
  rcases Nat.lt_or_ge m.handedPackets.length channels.length with hbefore | hend
  · obtain ⟨⟨name, g⟩, hget⟩ : ∃ entry, channels[m.handedPackets.length]? = some entry :=
      ⟨_, List.getElem?_eq_getElem hbefore⟩
    have hmem := List.mem_of_getElem? hget
    have hrest : channels.drop m.handedPackets.length =
        (name, g) :: channels.drop (m.handedPackets.length + 1) := by
      rw [List.drop_eq_getElem_cons hbefore, ← (List.getElem?_eq_some_iff.mp hget).2]
    obtain rfl := Option.some.inj ((announcement_get hrest).symm.trans next)
    obtain ⟨mapper, insert, _, htake, hentered⟩ := enter_next h.entered hrest (by omega)
    obtain ⟨channel, kind⟩ := shared.kinds _ hmem
    rw [handle_entry (named _ hmem) (shared.short _ hmem) (by omega) (shared.known _ hmem) kind
      insert]
    refine ⟨rfl, ⟨?_, ?_, fun hne => absurd hst (hne lastKey), fun he => ?_⟩, hlength, ?_⟩
    · show (m.handed _).handedPackets = (announcements channels).take (m.handed _).handedPackets.length
      rw [hlength, hhanded, hprefix]
    · show Entered (channels.take (m.handed _).handedPackets.length) mapper
      rw [hlength]
      exact hentered
    · exact absurd (hlength.symm.trans he) (by omega)
    · unfold ordererFor
      split <;> rfl
  · have hk : m.handedPackets.length = channels.length := by omega
    rw [hk, announcement_last, Option.some.injEq] at next
    subst next
    have hunnamed := decode_name "" (by decide +kernel) []
    rw [List.append_nil] at hunnamed
    have hfollowing (t : Endpoint) (hlog : t.handedPackets = (m.handed (nameBytes "")).handedPackets)
        (hinner : t.notLocalInner = m.notLocalInner) : Following E channels t := by
      have hcount : t.handedPackets.length = channels.length + 1 := by
        rw [hlog, hlength, hk]
      refine ⟨?_, ?_, fun _ => hcount, fun _ => last hk⟩
      · rw [hcount, hlog, hhanded, hprefix, hk]
      · have hentered := h.entered
        rw [hk, List.take_length] at hentered
        rw [hcount, hinner, List.take_of_length_le (Nat.le_succ _)]
        exact hentered
    rw [handle_unnamed hst hunnamed]
    rcases convert_to_transfer_cases { m.handed (nameBytes "") with
      state := .registration true lastKey } with ⟨_, hc⟩ | ⟨_, hc⟩
    · rw [hc]
      exact ⟨rfl, hfollowing _ rfl rfl, hlength, rfl⟩
    · rw [hc]
      exact ⟨rfl, hfollowing _ rfl rfl, hlength, rfl⟩

/-- Whoever has a further packet of the registration at hand has not seen the last one. -/
theorem Following.before_end {payload : Bytes} (h : Following E channels m)
    (next : (announcements channels)[m.handedPackets.length]? = some payload) :
    ∃ lastKey, m.state = .registration false lastKey := by
  by_contra hno
  have hcount := h.complete (fun lastKey he => hno ⟨lastKey, he⟩)
  rw [hcount, announcements_end] at next
  cases next

/-- The packets that are ready are handled without an error, and no other is lost. -/
theorem retain_following {g : U32} {o : PacketOrderer} (shared : Shared p channels)
    (named : ∀ entry ∈ channels, entry.1 ≠ "") (h : Following E channels m)
    (queued : Queued E channels m.handedPackets.length o)
    (empty : m.orderers.channelManagementRegistrationStage = none)
    (inside : o.dequeStart < o.vec.length) :
    ∃ o' t, o.retain (handlePacket p g registrationChannel) m = (.ok (), o', t) ∧
      Following E channels t ∧ t.orderers.channelManagementRegistrationStage = none ∧
      Queued E channels t.handedPackets.length o' ∧
      ∀ n x, o.view.held n = some x → o'.view.held n = some x ∨ n < t.handedPackets.length := by
  have completes := o.retain_completes
    (handlePacket p g registrationChannel)
    (I := fun o' t => (Following E channels t ∧ t.orderers.channelManagementRegistrationStage = none) ∧
      Queued E channels t.handedPackets.length o' ∧
      ∀ n x, o.view.held n = some x → o'.view.held n = some x ∨ n < t.handedPackets.length)
    ?_ inside ⟨⟨h, empty⟩, queued, fun _ _ hx => Or.inl hx⟩
  · obtain ⟨hok, ⟨ht, hslot⟩, hqueued, hkept⟩ := completes
    exact ⟨_, _, Prod.ext hok rfl, ht, hslot, hqueued, hkept⟩
  rintro o' t x ⟨⟨ht, hslot⟩, hqueued, hkept⟩ hx
  obtain ⟨hlined, hview, hhead, hnext⟩ := hqueued.advance hx
  obtain ⟨lastKey, hst⟩ := ht.before_end hnext
  have hlast : t.handedPackets.length = channels.length → E := by
    intro he
    apply hqueued.last
    rw [← he, hhead]
    simp
  obtain ⟨hok, hfollowing, hcount, hsame⟩ := ht.handle shared named hst hnext hlast
  rw [handle_packet_management hst rfl]
  refine ⟨hok, ⟨hfollowing, hsame.trans hslot⟩, ⟨?_, fun hheld => ?_⟩, fun n y hy => ?_⟩
  · rw [hcount]
    exact hlined
  · rw [hview] at hheld
    apply hqueued.last
    intro hnone
    apply hheld
    simp only [Sequencer.advance, Function.update_apply, hnone, ite_self]
  · rcases hkept n y hy with hheld | hlt
    · by_cases he : n = t.handedPackets.length
      · right
        omega
      · left
        rw [hview]
        simp only [Sequencer.advance, Function.update_apply, hqueued.next, if_neg he, hheld]
    · right
      omega

/-- A registration packet of the sender is handed on in its turn. -/
theorem Agreeing.deliver {g : U32} {i : Nat} {payload : Bytes} (h : Agreeing E channels m)
    (shared : Shared p channels) (named : ∀ entry ∈ channels, entry.1 ≠ "")
    (hst : m.state ≠ .transfer) (place : (announcements channels)[i]? = some payload)
    (last : i = channels.length → E) :
    Agreeing E channels (deliver p g registrationChannel (some (BitVec.ofNat 32 i)) payload m).2 := by
  have hfew := shared.few
  have hlt := (List.getElem?_eq_some_iff.mp place).1
  rw [announcements_length] at hlt
  have hi : (BitVec.ofNat 32 i : U32).toNat = i := SlotMap.index_of_fits (by omega)
  have lost {t : Endpoint} (ht : Following E channels t)
      (hslot : t.orderers.channelManagementRegistrationStage = none) : Agreeing E channels t := by
    refine ⟨ht, fun _ o ho => ?_⟩
    rw [hslot] at ho
    cases ho
  have taken : Following E channels (m.manage none) := ⟨h.handed, h.entered, h.complete, h.last⟩
  refine deliver_managed hst h (lost taken rfl) (fun o o' slot push r o'' t run => ?_)
  have before := h.orderer hst o slot
  have queued := (before.push place hi last push).1
  obtain ⟨_, _, hrun, ht, hslot, hqueued, _⟩ := @retain_following _ p _ _ g _ shared named taken queued
    rfl (PacketOrderer.push_inside before.bounded.sound push)
  cases run.symm.trans hrun
  refine ⟨lost ht hslot, fun _ => ⟨⟨ht.handed, ht.entered, ht.complete, ht.last⟩, fun _ x hx => ?_⟩⟩
  cases hx
  exact hqueued

/-- What leaves the registration alone leaves the agreement alone. -/
theorem Move.agreeing (hr : ¬ s.registers) (hh : s.holds → m.state = .transfer) (hm : Move s m m')
    (h : Agreeing E channels m) : Agreeing E channels m' := by
  have hhanded : m'.handedPackets = m.handedPackets := hm.same_handed hr
  have same (hinner : m'.notLocalInner = m.notLocalInner)
      (hstate : (∀ lastKey, m'.state ≠ .registration false lastKey) →
        ∀ lastKey, m.state ≠ .registration false lastKey)
      (horderers : m'.state ≠ .transfer → m.state ≠ .transfer ∧ m'.orderers = m.orderers) :
      Agreeing E channels m' := by
    refine ⟨⟨?_, ?_, fun hc => ?_, fun hc => ?_⟩, fun hne o ho => ?_⟩
    · rw [hhanded]
      exact h.handed
    · rw [hhanded, hinner]
      exact h.entered
    · rw [hhanded]
      exact h.complete (hstate hc)
    · rw [hhanded] at hc
      exact h.last hc
    · obtain ⟨hst, hsame⟩ := horderers hne
      rw [hhanded]
      exact h.orderer hst o (hsame ▸ ho)
  cases hm with
  | hand _ registers => exact absurd registers hr
  | finish _ _ _ registers => exact absurd registers hr
  | register _ _ _ _ _ _ _ _ registers => exact absurd registers hr
  | hold _ holds => exact same rfl id (fun hne => absurd (hh holds) hne)
  | switch lastKey complete _ =>
    exact same rfl (fun _ lastKey => by rw [complete]; simp) (fun hne => absurd rfl hne)
  | confirm received key last _ =>
    refine same rfl (fun hc lastKey => ?_) (fun _ => ⟨by simp [last], rfl⟩)
    rw [last]
    intro he
    cases he
    exact hc none rfl
  | _ => exact same rfl id (fun hne => ⟨hne, rfl⟩)

theorem moves_agreeing (hr : ¬ s.registers) (hh : s.holds → m.state = .transfer)
    (hm : ReflTransGen (Move s) m m') (h : Agreeing E channels m) : Agreeing E channels m' := by
  induction hm with
  | refl => exact h
  | tail before hm ih =>
    exact hm.agreeing hr (fun holds => transfer_stays before (hh holds)) ih

end

section
variable {E : Prop} {r : Registry} {p : ChannelProvider} {channels : List (String × U32)}
  {a m : Endpoint} {d : Bytes} {key : Option SlotMapKey}

/-- A datagram of the sender does not confuse the receiver. -/
theorem Agreeing.read {now : Nat} (h : Agreeing E channels m) (hc : m.Compact)
    (shared : Shared p channels) (named : ∀ entry ∈ channels, entry.1 ≠ "")
    (spoken : Spoken r a key d)
    (same : announcements (sortedChannels r.provider) = announcements channels)
    (last : Entered (sortedChannels r.provider) a.localInner → E) :
    Agreeing E channels (handleMessage p now d m).2 := by
  refine handle_spoken hc spoken (fun t moves => moves_agreeing id False.elim moves h)
    (fun t time ht => ⟨⟨ht.handed, ht.entered, ht.complete, ht.last⟩, ht.orderer⟩) ?_ ?_ ?_
  · intro t i payload ht hst place final
    have hlength := congrArg List.length same
    rw [announcements_length, announcements_length] at hlength
    exact ht.deliver shared named hst (same ▸ place) (fun hi => last (final (by omega)))
  · intro t keys ht hst _
    have handled : ReflTransGen (Move handlingOnly) t
        (handlePacket p ackChannelIdRegistrationStage ⟨ackChannelIdRegistrationStage, ackChannel⟩
          (keys.flatMap SlotMapKey.encode) t).2 :=
      handle_packet_moves trivial trivial (fun _ _ => trivial) (fun _ hne => absurd hne (by decide))
    exact moves_agreeing id False.elim handled ht
  · intro t inc order payload _ _ ht hst
    have delivered : ReflTransGen (Move transferOnly) t
        (Theta.deliver p inc.globalChannelId inc.channel order payload t).2 :=
      deliver_transfer_moves trivial trivial (fun _ => trivial) trivial hst
    exact moves_agreeing id (fun _ => hst) delivered ht

end

/-- The channels that another side announces, with a registry's own ids for their names. -/
def Registry.translate (r : Registry) (channels : List (String × U32)) : List (String × U32) :=
  channels.map fun entry => (entry.1, (r.provider.byName entry.1).getD nullChannelId)

/-- Two registries that have registered the same names. -/
structure Alike (P Q : Registry) : Prop where
  names : ∀ name, (P.provider.byName name).isSome = (Q.provider.byName name).isSome
  named : ∀ entry ∈ P.nameToId, entry.1 ≠ ""
  short : ∀ entry ∈ P.nameToId, (utf8 entry.1).length ≤ channelNameMaxLen

/-- A registry that knows the channels of another one, all of which have a name. -/
structure Covers (P Q : Registry) : Prop where
  known : ∀ entry ∈ P.nameToId, (Q.provider.byName entry.1).isSome
  named : ∀ entry ∈ P.nameToId, entry.1 ≠ ""

section
variable {P Q : Registry}

theorem Registry.by_name {r : Registry} {name : String} {g : U32} :
    r.provider.byName name = some g ↔ (name, g) ∈ r.nameToId :=
  Table.get_eq_some (t := ⟨r.nameToId, r.names_nodup⟩)

theorem translate_announcements (r : Registry) (channels : List (String × U32)) :
    announcements (r.translate channels) = announcements channels := by
  rw [announcements, announcements, Registry.translate, List.mapIdx_eq_zipIdx_map,
    List.mapIdx_eq_zipIdx_map, List.zipIdx_map, List.map_map]
  rfl

theorem Alike.covers (h : Alike P Q) : Covers P Q := by
  refine ⟨fun entry he => ?_, h.named⟩
  rw [← h.names, Registry.by_name.mpr he]
  rfl

theorem Covers.translated (h : Covers P Q) {entry : String × U32}
    (he : entry ∈ Q.translate (sortedChannels P.provider)) :
    entry ∈ Q.nameToId ∧ ∃ g, (entry.1, g) ∈ P.nameToId := by
  obtain ⟨⟨name, g⟩, hmem, rfl⟩ := List.mem_map.mp he
  have hown : (name, g) ∈ P.nameToId := (sorted_perm P).mem_iff.mp hmem
  obtain ⟨g', hg'⟩ := Option.isSome_iff_exists.mp (h.known _ hown)
  refine ⟨?_, g, hown⟩
  rw [hg']
  exact Registry.by_name.mp hg'

theorem translate_names (r : Registry) (channels : List (String × U32)) :
    (r.translate channels).map Prod.fst = channels.map Prod.fst := by
  rw [Registry.translate, List.map_map]
  rfl

/-- The names of the other side have different ids. -/
theorem Covers.translated_ids (h : Covers P Q) :
    ((Q.translate (sortedChannels P.provider)).map Prod.snd).Nodup := by
  have names : ((Q.translate (sortedChannels P.provider)).map Prod.fst).Nodup := by
    rw [translate_names]
    exact sorted_names P
  apply List.Nodup.map_on _ (List.Nodup.of_map _ names)
  intro e he e' he' same
  exact List.inj_on_of_nodup_map Q.ids_nodup (h.translated he).1 (h.translated he').1 same

theorem translate_few (P Q : Registry) : Few (Q.translate (sortedChannels P.provider)) := by
  have hfew := sorted_few P
  unfold Few Registry.translate at *
  rwa [List.length_map]

theorem Covers.shared (h : Covers P Q)
    (short : ∀ entry ∈ P.nameToId, (utf8 entry.1).length ≤ channelNameMaxLen) :
    Shared Q.provider (Q.translate (sortedChannels P.provider)) := by
  have hreg : channelManagementChannelIdRegistrationStage.toNat = 2 ^ 31 - 2 := rfl
  refine ⟨fun entry he => ?_, ?_, fun entry he => ?_, fun entry he => ?_⟩
  · obtain ⟨g, hown⟩ := (h.translated he).2
    exact short (entry.1, g) hown
  · have hfew := translate_few P Q
    unfold Few at hfew
    omega
  · exact Registry.by_name.mpr (h.translated he).1
  · exact ⟨_, List.getElem?_eq_getElem (Q.ids_lt entry (h.translated he).1)⟩

theorem Covers.entries_named (h : Covers P Q) :
    ∀ entry ∈ Q.translate (sortedChannels P.provider), entry.1 ≠ "" := by
  intro entry he
  obtain ⟨g, hown⟩ := (h.translated he).2
  exact h.named (entry.1, g) hown

theorem opened_agreeing {E : Prop} {channels own : List (String × U32)} {now capacity : Nat}
    {mapper : ConnectionIdMapperInner} : Agreeing E channels (opened own now capacity mapper) := by
  have hhanded : (opened own now capacity mapper).handedPackets = [] := by
    refine List.filterMap_eq_nil_iff.mpr (fun event hevent => ?_)
    obtain ⟨i, packet, _, rfl | rfl⟩ := opened_events hevent <;> rfl
  refine ⟨⟨?_, ?_, fun hc => absurd rfl (hc _), fun he => ?_⟩, fun _ o ho => ?_⟩
  · rw [hhanded]
    rfl
  · rw [hhanded]
    exact .empty
  · rw [hhanded] at he
    cases he
  · obtain rfl : PacketOrderer.new 1000 = o := Option.some.inj ho
    have hview : (PacketOrderer.new 1000).view = Sequencer.empty := PacketOrderer.new_view
    refine ⟨⟨PacketOrderer.bounded_new, ?_, ?_⟩, fun hheld => absurd ?_ hheld⟩
    · rw [hview]
      exact Sequencer.follows_empty
    · rw [hview, hhanded]
      rfl
    · rw [hview]
      rfl

theorem Agreeing.mono {E E' : Prop} {channels : List (String × U32)} {m : Endpoint}
    (h : Agreeing E channels m) (hE : E → E') : Agreeing E' channels m := by
  refine ⟨⟨h.handed, h.entered, h.complete, fun hc => hE (h.last hc)⟩, fun hst o ho => ?_⟩
  have queued := h.orderer hst o ho
  exact ⟨queued.toLined, fun hheld => hE (queued.last hheld)⟩

theorem Agreeing.same {E : Prop} {channels : List (String × U32)} {m m' : Endpoint}
    (h : Agreeing E channels m) (same : SameReceipts m m')
    (handed : m'.handedPackets = m.handedPackets) : Agreeing E channels m' := by
  refine ⟨⟨?_, ?_, fun hc => ?_, fun hc => ?_⟩, fun hst o ho => ?_⟩
  · rw [handed]
    exact h.handed
  · rw [handed, same.notLocalInner]
    exact h.entered
  · rw [handed]
    exact h.complete (same.state ▸ hc)
  · rw [handed] at hc
    exact h.last hc
  · rw [handed]
    exact h.orderer (same.state ▸ hst) o (same.orderers ▸ ho)

/-- A step of the announcing side. -/
theorem Agreeing.sender {channels : List (String × U32)} {guard guard' : Endpoint → Input → Bool}
    {a a' b : Peer} {m : Endpoint} (ha : Standing P a)
    (step : (party P guard).Step (party Q guard') b a a')
    (h : Agreeing (a.stage ≠ .closed ∧ Entered (sortedChannels P.provider) a.endpoint.localInner)
      channels m) :
    Agreeing (a'.stage ≠ .closed ∧ Entered (sortedChannels P.provider) a'.endpoint.localInner)
      channels m := by
  apply h.mono
  rintro ⟨opened, entered⟩
  rcases party_step_cases step with ⟨closed, _⟩ | ⟨input, hcall⟩
  · exact absurd closed opened
  · obtain ⟨hstage, hinner⟩ := ha.call_inner hcall
    exact ⟨hstage, hinner ▸ entered⟩

theorem connected_agreeing {guard guard' : Endpoint → Input → Bool} (covers : Covers P Q)
    (short : ∀ entry ∈ P.nameToId, (utf8 entry.1).length ≤ channelNameMaxLen)
    {s : Peer × Peer} (h : Connected P Q guard guard' s)
    (there : s.2.stage = .live ∨ s.2.endpoint.state = .transfer) :
    Agreeing (s.1.stage ≠ .closed ∧ Entered (sortedChannels P.provider) s.1.endpoint.localInner)
      (Q.translate (sortedChannels P.provider)) s.2.endpoint := by
  refine receiver_invariant (I := fun a m => Agreeing
    (a.stage ≠ .closed ∧ Entered (sortedChannels P.provider) a.endpoint.localInner)
      (Q.translate (sortedChannels P.provider)) m) h ?_ ?_ ?_ ?_ ?_ there
  · intro a a' b m ha step hm
    exact hm.sender ha step
  · intro a now capacity mapper _ _ _
    exact opened_agreeing
  · intro a m delta _ hreach _ hm
    have moves : ReflTransGen (Move flushing) m (updateConnection delta m).2 :=
      update_connection_moves hreach.passed.compact (fun _ => ⟨rfl, rfl⟩)
    exact moves_agreeing id False.elim moves hm
  · intro a m channel payload _ _ _ _ hm
    exact hm.same (send_event_quiet _ _ _ _).1 (send_event_tables _ _ _ _).handed
  · intro a m now d key ha hreach spoken sent _ hm
    exact hm.read hreach.passed.compact (covers.shared short) covers.entries_named spoken
      (translate_announcements _ _).symm (fun entered => ⟨ha.opened sent, entered⟩)

/-- One side maps the local ids of the other to its own ids of the same names, and no others, and
knows the ids of the built-in channels. -/
structure MappingAgrees (P Q : Registry) (a b : Endpoint) : Prop where
  channels : ∀ name g g', P.provider.byName name = some g → Q.provider.byName name = some g' →
    ∃ l, a.localInner.localId .transfer g = some l ∧
      ∀ l', b.notLocalInner.globalId .transfer l' = some g' ↔ l' = l
  ack : b.notLocalInner.ackChannelId = a.localInner.ackChannelId
  management : b.notLocalInner.channelManagementChannelId = a.localInner.channelManagementChannelId

/-- All channels that were announced have been registered, each under its own id. -/
theorem Agreeing.maps {a m : Endpoint} {begun : Prop} (alike : Alike P Q)
    (agreeing : Agreeing (begun ∧ Entered (sortedChannels P.provider) a.localInner)
      (Q.translate (sortedChannels P.provider)) m) (hst : m.state = .transfer) :
    MappingAgrees P Q a m := by
  have few := sorted_few P
  have few' := translate_few P Q
  have hlength : (Q.translate (sortedChannels P.provider)).length =
      (sortedChannels P.provider).length := List.length_map _
  have hcount := agreeing.complete (fun lastKey => by simp [hst])
  have mapped := agreeing.entered
  rw [hcount, List.take_of_length_le (Nat.le_succ _)] at mapped
  obtain ⟨_, entered⟩ := agreeing.last hcount
  refine ⟨fun name g g' hg hg' => ?_, ?_, ?_⟩
  · have hmem : (name, g) ∈ sortedChannels P.provider :=
      (sorted_perm P).mem_iff.mpr (Registry.by_name.mp hg)
    obtain ⟨i, hi, hget⟩ := List.mem_iff_getElem.mp hmem
    have hsmall : (BitVec.ofNat 32 i : U32).toNat = i :=
      place_to_nat (Nat.lt_of_lt_of_le hi few)
    have htranslated : (Q.translate (sortedChannels P.provider))[i]? = some (name, g') := by
      rw [Registry.translate, List.getElem?_map, List.getElem?_eq_getElem hi, hget, Option.map_some,
        hg']
      rfl
    refine ⟨BitVec.ofNat 32 i, ?_, fun l' => ?_⟩
    · rw [entered_local_id entered few (sorted_ids P), hsmall, List.getElem?_eq_getElem hi, hget]
      rfl
    · rw [entered_global_id mapped few']
      constructor
      · intro hl'
        apply BitVec.eq_of_toNat_eq
        rw [hsmall]
        rw [← List.getElem?_map] at hl'
        have hown : ((Q.translate (sortedChannels P.provider)).map Prod.snd)[i]? = some g' := by
          rw [List.getElem?_map, htranslated]
          rfl
        exact (List.getElem?_inj (List.getElem?_eq_some_iff.mp hl').1 alike.covers.translated_ids).mp
          (hl'.trans hown.symm)
      · rintro rfl
        rw [hsmall, htranslated]
        rfl
  · rw [(entered_builtins mapped few' (by rw [translate_names]; exact sorted_names P)).1,
      (entered_builtins entered few (sorted_names P)).1, translate_names]
  · rw [(entered_builtins mapped few' (by rw [translate_names]; exact sorted_names P)).2,
      (entered_builtins entered few (sorted_names P)).2, translate_names]

/-- Whoever is in the transfer stage agrees with its peer on the channels. -/
theorem channel_mapping_agreement {guard guard' : Endpoint → Input → Bool} (alike : Alike P Q)
    {s : Peer × Peer} (h : Connected P Q guard guard' s) (hst : s.2.endpoint.state = .transfer) :
    MappingAgrees P Q s.1.endpoint s.2.endpoint :=
  (connected_agreeing alike.covers alike.short h (Or.inr hst)).maps alike hst

end

/-- The channels of `chatRegistry` and `voiceRegistry` together. -/
def talkRegistry : Registry where
  toDefaultChannelProvider := (chatRegistry.toDefaultChannelProvider.add "voice"
    { reliability := none, orderability := some ⟨8, eight_nonzero, eight_usize⟩, frequency := 1 }
    (by decide))
  all := _
  order := .refl _
  few := by decide

/-- The same names in another order. -/
def klatRegistry : Registry where
  toDefaultChannelProvider := (voiceRegistry.toDefaultChannelProvider.add "chat" chat.channel
    (by decide))
  all := _
  order := .refl _
  few := by decide

/-- Both sides announce their channels, and their acknowledgements take them to the transfer
stage. -/
def mingling : List (Side × Deed) :=
  [(.left, .establish 0), (.right, .establish 0)] ++
    (List.range 5).map (fun i => (.left, .read 1 i)) ++
    (List.range 5).map (fun i => (.right, .read 1 i)) ++
    [(.left, .tick 1), (.right, .tick 1), (.left, .read 2 5), (.right, .read 2 5)]

def mingled : Peer × Peer :=
  (exchangeAll talkRegistry klatRegistry anyInput anyInput mingling ({}, {})).getD ({}, {})

theorem talk_alike : Alike talkRegistry klatRegistry := by
  have names : talkRegistry.nameToId.map Prod.fst =
      ["voice", "chat", channelManagementChannelName, ackChannelName] := by decide +kernel
  have names' : klatRegistry.nameToId.map Prod.fst =
      ["chat", "voice", channelManagementChannelName, ackChannelName] := by decide +kernel
  have registered (r : Registry) (name : String) :
      (r.provider.byName name).isSome = true ↔ name ∈ r.nameToId.map Prod.fst := by
    rw [Option.isSome_iff_exists, List.mem_map]
    constructor
    · rintro ⟨g, hg⟩
      exact ⟨(name, g), Registry.by_name.mp hg, rfl⟩
    · rintro ⟨⟨_, g⟩, hmem, rfl⟩
      exact ⟨g, Registry.by_name.mpr hmem⟩
  refine ⟨fun name => ?_, by decide +kernel, by decide +kernel⟩
  rw [Bool.eq_iff_iff, registered, registered, names, names']
  simp only [List.mem_cons]
  tauto

theorem mingled_connected : Connected talkRegistry klatRegistry anyInput anyInput mingled := by
  have ran : exchangeAll talkRegistry klatRegistry anyInput anyInput mingling ({}, {}) ≠ none := by
    decide +kernel
  exact exchange_all (Option.getD_of_ne_none ran ({}, {})).symm

theorem channel_mapping_agreement_mingled :
    MappingAgrees talkRegistry klatRegistry mingled.1.endpoint mingled.2.endpoint :=
  channel_mapping_agreement talk_alike mingled_connected (by decide +kernel)

end Theta
