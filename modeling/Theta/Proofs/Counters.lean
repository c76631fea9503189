import Theta.Net.Pair
import Theta.Proofs.Opening

namespace Theta
open Lib Relation

/-- Every name has a channel of its own. -/
theorem DefaultChannelProvider.names_length_le (p : DefaultChannelProvider) :
    p.nameToId.length ≤ p.channels.length := by
  have hnodup : (p.nameToId.map (fun entry => entry.2.toNat)).Nodup := by
    have h := p.ids_nodup.map (f := BitVec.toNat) (fun _ _ he => BitVec.eq_of_toNat_eq he)
    rwa [List.map_map] at h
  have hsub : p.nameToId.map (fun entry => entry.2.toNat) ⊆ List.range p.channels.length := by
    intro n hn
    obtain ⟨entry, hentry, rfl⟩ := List.mem_map.mp hn
    exact List.mem_range.mpr (p.ids_lt entry hentry)
  have hle := (hnodup.subperm hsub).length_le
  rwa [List.length_map, List.length_range] at hle

/-- The registration packets are numbered by machine integers. -/
theorem Few.small {channels : List (String × U32)} {i : Nat} {payload : Bytes}
    (few : Few channels) (place : (announcements channels)[i]? = some payload) : i < 2 ^ 32 := by
  have hlt := (List.getElem?_eq_some_iff.mp place).1
  have hreg : channelManagementChannelIdRegistrationStage.toNat = 2 ^ 31 - 2 := rfl
  rw [announcements_length] at hlt
  unfold Few at few
  omega

section
variable (r : Registry)

theorem sorted_perm : (sortedChannels r.provider).Perm r.nameToId :=
  (List.perm_insertionSort _ _).trans r.order

theorem sorted_ids : ((sortedChannels r.provider).map Prod.snd).Nodup :=
  ((sorted_perm r).map Prod.snd).nodup_iff.mpr r.ids_nodup

theorem sorted_names : ((sortedChannels r.provider).map Prod.fst).Nodup :=
  ((sorted_perm r).map Prod.fst).nodup_iff.mpr r.names_nodup

/-- The ids of a registry are below those of the registration stage. -/
theorem sorted_id_lt {entry : String × U32} (h : entry ∈ sortedChannels r.provider) :
    entry.2.toNat < channelManagementChannelIdRegistrationStage.toNat :=
  Nat.lt_of_lt_of_le (r.ids_lt entry ((sorted_perm r).mem_iff.mp h)) r.few

theorem sorted_few : Few (sortedChannels r.provider) := by
  unfold Few
  rw [(sorted_perm r).length_eq]
  exact Nat.le_trans r.names_length_le r.few

end

/-- Every ordered channel has counted its send requests. -/
structure Counted (p : ChannelProvider) (m : Endpoint) : Prop where
  entered : Entered (sortedChannels p) m.localInner
  counted : ∀ (g l : U32) (channel : Channel), m.localInner.localId .transfer g = some l →
    p.byId g = some channel → channel.isOrdered = true →
    m.orders.basicStage[l.toNat]? = some (BitVec.ofNat 32 (m.calls g).length)

section
variable {r : Registry} {m m' : Endpoint}

theorem local_place {g l : U32} (h : Entered (sortedChannels r.provider) m.localInner)
    (hl : m.localInner.localId .transfer g = some l) :
    (sortedChannels r.provider)[l.toNat]?.map Prod.snd = some g :=
  (entered_local_id h (sorted_few r) (sorted_ids r)).mp hl

/-- A channel with a local id is none of the channels of the registration stage. -/
theorem local_id_unregistered {g l : U32} (h : Entered (sortedChannels r.provider) m.localInner)
    (hl : m.localInner.localId .transfer g = some l) :
    ConnectionIdMapperInner.registrationId g = none := by
  obtain ⟨entry, hentry, rfl⟩ := Option.map_eq_some_iff.mp (local_place h hl)
  have hlt := sorted_id_lt r (List.mem_of_getElem? hentry)
  have hreg : channelManagementChannelIdRegistrationStage.toNat = 2 ^ 31 - 2 := rfl
  have hack : ackChannelIdRegistrationStage.toNat = 2 ^ 31 - 1 := rfl
  rw [ConnectionIdMapperInner.registrationId, if_neg]
  rintro (he | he) <;> rw [he] at hlt <;> omega

theorem calls_append (m : Endpoint) (orders : ChannelData U32) (channel g : U32) (payload : Bytes) :
    Endpoint.calls { m with orders := orders, log := m.log ++ [.called channel payload] } g =
      m.calls g ++ (if channel = g then [payload] else []) := by
  by_cases h : channel = g <;> simp [Endpoint.calls, Event.call?, h]

/-- A request in the registration stage is for one of its own channels. -/
theorem addressed_cases {channel : U32} {kind : ConnectionChannel}
    (h : Addressed r.provider m channel kind) :
    (m.state = .transfer ∧ m.localInner.localId .transfer channel = some kind.localId ∧
      r.provider.byId channel = some kind.channel) ∨
    ∃ received lastKey, m.state = .registration received lastKey ∧
      ConnectionIdMapperInner.registrationId channel = some kind.localId := by
  obtain ⟨hlocal, hnew⟩ := h
  cases hst : m.state with
  | transfer =>
    rw [hst] at hlocal hnew
    refine Or.inl ⟨rfl, hlocal, ?_⟩
    unfold ConnectionChannel.new at hnew
    obtain ⟨c, hc, he⟩ := Option.map_eq_some_iff.mp hnew
    rw [← he]
    exact hc
  | registration received lastKey =>
    rw [hst] at hlocal
    exact Or.inr ⟨received, lastKey, rfl, hlocal⟩

/-- A request for a channel with a local id is sent in the transfer stage, under that id. -/
theorem addressed_same {channel g l : U32} {kind : ConnectionChannel} {c : Channel}
    (entered : Entered (sortedChannels r.provider) m.localInner)
    (addressed : Addressed r.provider m channel kind) (he : channel = g)
    (hl : m.localInner.localId .transfer g = some l) (hk : r.provider.byId g = some c) :
    m.state = .transfer ∧ kind.localId = l ∧ kind.channel = c := by
  subst he
  rcases addressed_cases addressed with ⟨hst, hlocal, hkind⟩ | ⟨_, _, _, hreg⟩
  · rw [hl, Option.some.injEq] at hlocal
    rw [hk, Option.some.injEq] at hkind
    exact ⟨hst, hlocal.symm, hkind.symm⟩
  · rw [local_id_unregistered entered hl] at hreg
    cases hreg

/-- A counter that is there gives the next order. -/
theorem next_counted {kind : ConnectionChannel} {order : U32} (hst : m.state = .transfer)
    (ordered : kind.channel.isOrdered = true)
    (h : m.orders.basicStage[kind.localId.toNat]? = some order) :
    ∃ orders, nextOrder kind m = (.ok (some order), { m with orders := orders }) := by
  refine ⟨{ m.orders with basicStage := m.orders.basicStage.set kind.localId.toNat (order + 1) },
    next_order_some ordered ?_ ?_⟩
  · rw [hst, ChannelData.get_ok]
    exact ⟨_, rfl, h⟩
  · rw [hst, ChannelData.write, if_pos (List.getElem?_eq_some_iff.mp h).1]

theorem Work.counted (h : Work r.provider m m') (hc : Counted r.provider m) :
    Counted r.provider m' := by
  cases h with
  | move _ h =>
    obtain ⟨hinner, horders⟩ := h.fixed
    refine ⟨hinner ▸ hc.entered, fun g l c hl hk ho => ?_⟩
    rw [hinner] at hl
    rw [horders, h.same_calls]
    exact hc.counted g l c hl hk ho
  | request channel payload kind addressed unordered =>
    refine ⟨hc.entered, fun g l c hl hk ho => ?_⟩
    have hcalls := calls_append m m.orders channel g payload
    rw [if_neg, List.append_nil] at hcalls
    · rw [hcalls]
      exact hc.counted g l c hl hk ho
    · intro he
      obtain ⟨_, _, hkind⟩ := addressed_same hc.entered addressed he hl hk
      rw [hkind, ho] at unordered
      cases unordered
  | count channel payload kind order orders addressed ordered get write =>
    refine ⟨hc.entered, fun g l c hl hk ho => ?_⟩
    have hcalls := calls_append m orders channel g payload
    rw [hcalls]
    have hbefore := hc.counted g l c hl hk ho
    obtain ⟨place, hplace, _, hread⟩ := ChannelData.write_ok write
    have hl' := hread (.basic l.toNat)
    simp only [ChannelData.read] at hl'
    rw [hl']
    by_cases he : channel = g
    · obtain ⟨hst, hid, hkind⟩ := addressed_same hc.entered addressed he hl hk
      rw [hst] at hplace get
      simp only [placeOf, Option.some.injEq] at hplace
      obtain ⟨place', hplace', hget⟩ := ChannelData.get_ok.mp get
      simp only [placeOf, Option.some.injEq] at hplace'
      rw [← hplace', hid, ChannelData.read, hbefore, Option.some.injEq] at hget
      rw [← hplace, hid, if_pos rfl, if_pos he, ← hget, List.length_append]
      congr 1
      apply BitVec.eq_of_toNat_eq
      simp
    · rw [if_neg he, List.append_nil, if_neg]
      · exact hbefore
      · rintro rfl
        refine he ?_
        rcases addressed_cases addressed with ⟨hst, hlocal, _⟩ | ⟨_, _, hst, hreg⟩
        · rw [hst] at hplace
          have hid : kind.localId = l := BitVec.eq_of_toNat_eq
            (Place.basic.inj (Option.some.inj hplace))
          rw [hid] at hlocal
          have hplace' := local_place hc.entered hlocal
          rw [local_place hc.entered hl, Option.some.injEq] at hplace'
          exact hplace'.symm
        · rw [hst] at hplace
          unfold placeOf at hplace
          simp only at hplace
          split at hplace
          · cases hplace
          · split at hplace <;> cases hplace
  | abandon channel payload kind addressed panics =>
    refine ⟨hc.entered, fun g l c hl hk ho => ?_⟩
    have hcalls := calls_append m m.orders channel g payload
    rw [if_neg, List.append_nil] at hcalls
    · rw [hcalls]
      exact hc.counted g l c hl hk ho
    · intro he
      obtain ⟨hst, hid, hkind⟩ := addressed_same hc.entered addressed he hl hk
      obtain ⟨orders, hnext⟩ := next_counted (m := { m with
        log := m.log ++ [.called channel payload] }) hst (hkind ▸ ho)
        (hid ▸ hc.counted g l c hl hk ho)
      rw [hnext] at panics
      cases panics

theorem opened_counted {now capacity : Nat} {mapper : ConnectionIdMapperInner}
    (entered : Entered (sortedChannels r.provider) mapper) :
    Counted r.provider (opened (sortedChannels r.provider) now capacity mapper) := by
  refine ⟨entered, fun g l c hl _ _ => ?_⟩
  obtain ⟨entry, hentry, _⟩ := Option.map_eq_some_iff.mp (local_place entered hl)
  have hcalls : (opened (sortedChannels r.provider) now capacity mapper).calls g = [] := by
    refine List.filterMap_eq_nil_iff.mpr (fun event hevent => ?_)
    obtain ⟨i, packet, _, rfl | rfl⟩ := opened_events hevent <;> rfl
  rw [hcalls]
  simp only [opened, opening, List.getElem?_map]
  rw [List.take_of_length_le (Nat.le_succ _), hentry]
  rfl

/-- Every live connection has counted its send requests. -/
theorem Reachable.counted (h : Reachable r.provider m) : Counted r.provider m := by
  induction h with
  | initialized now m h =>
    obtain ⟨capacity, mapper, _, hentered, rfl⟩ := initialize_opened h
    exact opened_counted hentered
  | step input m m' before h ih =>
    rw [← h.2]
    exact invariant_of_step (fun _ _ hw => hw.counted) (perform_work before.passed.compact) ih

/-- Every channel that can be addressed has an id that fits the wire. -/
theorem addressed_id_lt {channel : U32} {kind : ConnectionChannel} (hm : Reachable r.provider m)
    (h : Addressed r.provider m channel kind) : kind.localId.toNat < 2 ^ 31 := by
  have hmanagement : channelManagementChannelIdRegistrationStage.toNat = 2 ^ 31 - 2 := rfl
  have hack : ackChannelIdRegistrationStage.toNat = 2 ^ 31 - 1 := rfl
  rcases addressed_cases h with ⟨_, hlocal, _⟩ | ⟨_, _, _, hreg⟩
  · obtain ⟨entry, hentry, _⟩ :=
      Option.map_eq_some_iff.mp (local_place hm.counted.entered hlocal)
    have hlt := (List.getElem?_eq_some_iff.mp hentry).1
    have hfew := sorted_few r
    unfold Few at hfew
    omega
  · unfold ConnectionIdMapperInner.registrationId at hreg
    split at hreg
    · rename_i he
      cases hreg
      rcases he with he | he <;> rw [he] <;> omega
    · cases hreg

/-- The order counter of a channel that can be addressed is there. -/
theorem addressed_next_order {channel : U32} {kind : ConnectionChannel} (log : List Event)
    (hm : Reachable r.provider m) (h : Addressed r.provider m channel kind) :
    ∃ order orders, nextOrder kind { m with log := log } =
      (.ok order, { m with orders := orders, log := log }) := by
  cases ordered : kind.channel.isOrdered with
  | false => exact ⟨none, m.orders, by simp [nextOrder, ordered]⟩
  | true =>
    rcases addressed_cases h with ⟨hst, hlocal, hkind⟩ | ⟨received, lastKey, hst, hreg⟩
    · obtain ⟨orders, hnext⟩ := next_counted (m := { m with log := log }) hst ordered
        (hm.counted.counted channel _ _ hlocal hkind ordered)
      exact ⟨_, orders, hnext⟩
    · unfold ConnectionIdMapperInner.registrationId at hreg
      split at hreg
      · rename_i he
        cases hreg
        rcases he with he | he
        · have hget : (m.orders.get m.state kind.localId : Outcome ConnectionError _) =
              .ok m.orders.ackChannelRegistrationStage := by
            rw [hst, he]
            rfl
          have hwrite : (m.orders.write m.state kind.localId
              (m.orders.ackChannelRegistrationStage + 1) : Outcome ConnectionError _) =
              .ok { m.orders with
                ackChannelRegistrationStage := m.orders.ackChannelRegistrationStage + 1 } := by
            rw [hst, he]
            rfl
          exact ⟨_, _, next_order_some (m := { m with log := log }) ordered hget hwrite⟩
        · have hget : (m.orders.get m.state kind.localId : Outcome ConnectionError _) =
              .ok m.orders.channelManagementRegistrationStage := by
            rw [hst, he]
            rfl
          have hwrite : (m.orders.write m.state kind.localId
              (m.orders.channelManagementRegistrationStage + 1) : Outcome ConnectionError _) =
              .ok { m.orders with channelManagementRegistrationStage :=
                m.orders.channelManagementRegistrationStage + 1 } := by
            rw [hst, he]
            rfl
          exact ⟨_, _, next_order_some (m := { m with log := log }) ordered hget hwrite⟩
      · cases hreg

end

end Theta
