import Theta.Proofs.Charts

namespace Theta
open Lib Relation

/-- The channel that a registry has under a name. -/
def Registry.kind (r : Registry) (name : String) : Option Channel :=
  (r.provider.byName name).bind r.provider.byId

/-- Whether the packets of a channel carry an order and a resend key. -/
def Channel.fields (c : Channel) : Bool × Bool := (c.isOrdered, c.isReliable)

/-- The registry `Q` reads the packets of `P` as they are framed. -/
structure Framed (P Q : Registry) : Prop where
  shared : ∀ name kind kind', P.kind name = some kind → Q.kind name = some kind' →
    kind'.fields = kind.fields
  acknowledging : ∀ kind', Q.kind ackChannelName = some kind' → kind'.fields = ackChannel.fields

section
variable {P Q : Registry} {a m m' : Endpoint} {base : Packet} {kind : Channel} {name : String}
  {own : U32}

/-- A packet has an order exactly when its channel is ordered. -/
theorem Uttered.ordered (h : Uttered P a base kind) : base.order.isSome = kind.isOrdered := by
  cases h with
  | announcement => rfl
  | acknowledgement => rfl
  | message _ _ g n payload entered addressed registered called whole order key =>
    rw [order]
    cases kind.isOrdered <;> rfl

/-- What is said on a channel of the transfer stage: acknowledgements on the channel of that name,
or messages of the channel. -/
theorem Uttered.placed (h : Uttered P a base kind)
    (place : (sortedChannels P.provider)[base.channelId.toNat]? = some (name, own)) :
    (∃ keys : List SlotMapKey, name = ackChannelName ∧ kind = ackChannel ∧
      base = ⟨base.channelId, none, none, none, keys.flatMap SlotMapKey.encode⟩ ∧
      ∀ key ∈ keys, ∃ d, .recorded key d ∈ a.log) ∨
    (P.provider.byName name = some own ∧ P.provider.byId own = some kind ∧
      base.resendKey = none ∧ ∃ n payload, (a.calls own)[n]? = some payload ∧
      (payload.length ≤ maxNonSegmentedPayloadLen → base.segment = none ∧ base.payload = payload) ∧
      base.order = if kind.isOrdered then some (BitVec.ofNat 32 n) else none) := by
  have hfew := sorted_few P
  have hlt := (List.getElem?_eq_some_iff.mp place).1
  have small := small_unregistered (Or.inl (Nat.lt_of_lt_of_le hlt hfew))
  cases h with
  | announcement i payload => cases small
  | acknowledgement id keys entered channel known =>
    refine Or.inl ⟨keys, ?_, rfl, rfl, known⟩
    rcases channel with rfl | rfl
    · cases small
    · have hack := (entered_builtins entered hfew (sorted_names P)).1
      have hnull : a.localInner.ackChannelId ≠ nullChannelId := by
        intro he
        have hlt : a.localInner.ackChannelId.toNat < (sortedChannels P.provider).length := hlt
        have hreg : channelManagementChannelIdRegistrationStage.toNat = 2 ^ 31 - 2 := rfl
        have hnull : nullChannelId.toNat = 2 ^ 31 := rfl
        unfold Few at hfew
        rw [he] at hlt
        omega
      have hget := number_get (by rw [List.length_map]; exact hfew) hack.symm hnull
      rw [List.getElem?_map, place] at hget
      exact Option.some.inj hget
  | message _ _ g n payload entered addressed registered called whole order key =>
    have hplace := local_place entered addressed
    rw [place] at hplace
    obtain rfl : own = g := Option.some.inj hplace
    refine Or.inr ⟨?_, registered, key, n, payload, called, whole, order⟩
    exact Registry.by_name.mpr ((sorted_perm P).mem_iff.mp (List.mem_of_getElem? place))

/-- The reader finds the fields of a packet where they were put. -/
theorem Uttered.fits {key : Option SlotMapKey} {kind' : Channel} (h : Uttered P a base kind)
    (framed : Framed P Q)
    (place : (sortedChannels P.provider)[base.channelId.toNat]? = some (name, own))
    (known : Q.kind name = some kind') (id : base.channelId.toNat < 2 ^ 31)
    (segment : ∀ s, base.segment = some s → s.Valid) (reliable : key.isSome = kind.isReliable) :
    ({ base with resendKey := key } : Packet).Fits kind' := by
  have fields : kind'.fields = kind.fields := by
    rcases h.placed place with ⟨_, rfl, rfl, _⟩ | ⟨hname, hid, _⟩
    · exact framed.acknowledging kind' known
    · apply framed.shared name kind kind' _ known
      rw [Registry.kind, hname]
      exact hid
  have ordered : kind'.isOrdered = kind.isOrdered := congrArg Prod.fst fields
  have reliable' : kind'.isReliable = kind.isReliable := congrArg Prod.snd fields
  exact ⟨id, segment, h.ordered.trans ordered.symm, reliable.trans reliable'.symm⟩

/-- A packet that is read in the transfer stage came on a channel whose name the reader knows. -/
theorem Charted.incoming {packet : Packet} {inc : Incoming}
    (h : Charted Q (sortedChannels P.provider) m) (hst : m.state = .transfer)
    (id : packet.channelId.toNat < 2 ^ 31)
    (hread : readPacket Q.provider packet.bytes m' = (.ok inc, m)) :
    ∃ name own kind, (sortedChannels P.provider)[packet.channelId.toNat]? = some (name, own) ∧
      Q.provider.byName name = some inc.globalChannelId ∧ Q.kind name = some kind ∧
      inc.channel = ⟨packet.channelId, kind⟩ ∧ (packet.Fits kind → inc.header = packet.header) := by
  obtain ⟨hresolve, hheader⟩ := read_packet_incoming id hread
  rw [hst] at hresolve
  obtain ⟨_, hglobal, hkind⟩ := resolve_channel_id hresolve
  obtain ⟨name, own, place, known⟩ := h.resolves (sorted_few P) hglobal
  have hkind : (Q.provider.byId inc.globalChannelId).map (ConnectionChannel.mk packet.channelId) =
      some inc.channel := hkind
  obtain ⟨kind, hget, hchannel⟩ := Option.map_eq_some_iff.mp hkind
  refine ⟨name, own, kind, place, known, ?_, hchannel.symm, ?_⟩
  · rw [Registry.kind, known]
    exact hget
  · rw [← hchannel] at hheader
    exact hheader

/-- The key that is read of a datagram is the key that it was sent with. -/
theorem Spoken.reads_key {d : Bytes} {key : Option SlotMapKey} {k : SlotMapKey}
    (h : Spoken P a key d) (framed : Framed P Q)
    (charted : Charted Q (sortedChannels P.provider) m) (reads : ReadsKey Q.provider m k d) :
    key = some k := by
  obtain ⟨inc, hread, hkey⟩ := reads
  cases h with
  | framed base kind uttered id segment reliable =>
    have small : ({ base with resendKey := key } : Packet).channelId.toNat < 2 ^ 31 := id
    have same (hheader : inc.header = ({ base with resendKey := key } : Packet).header) :
        key = some k := by
      rw [hheader] at hkey
      exact hkey
    by_cases hst : m.state = .transfer
    · obtain ⟨name, own, kind', place, _, known, _, hheader⟩ := charted.incoming hst small hread
      exact same (hheader (uttered.fits framed place known id segment reliable))
    · obtain ⟨stage, hinc⟩ := read_packet_registered small (by rw [hread]; exact hst)
        (by rw [hread])
      rcases uttered.registered stage with ⟨i, payload, _, _, rfl, rfl⟩ | ⟨keys, rfl, rfl, _⟩
      · obtain rfl := hinc channelManagementChannel rfl ⟨id, segment, rfl, reliable⟩
        exact same rfl
      · obtain rfl := hinc ackChannel rfl ⟨id, segment, rfl, reliable⟩
        exact same rfl

end

end Theta
