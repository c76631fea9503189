import Theta.Net.Udp
import Theta.Proofs.Counters
import Theta.Proofs.Registration

namespace Theta
open Lib

/-- A provider that was built by `new` and calls of `add`. -/
inductive DefaultChannelProvider.Built : DefaultChannelProvider → Prop where
  | new : Built .new
  | add (p : DefaultChannelProvider) (name : String) (channel : Channel)
      (fits : p.channels.length ≤ nullChannelId.toNat) (before : Built p) :
      Built (p.add name channel fits)

/-- What a channel adds to the capacity of the resender. -/
def ChannelProvider.reserve (p : ChannelProvider) (entry : String × U32) : Nat :=
  (((p.byId entry.2).bind Channel.reliability).map ReliableChannel.additionalCapacity).getD 0

/-- What the channels with a name add to the capacity of the resender. -/
def DefaultChannelProvider.reserved (p : DefaultChannelProvider) : Nat :=
  (p.nameToId.map (p.asProvider _ (.refl _)).reserve).sum

/-- The initialization returns; it has sent one registration packet for each name, and a last one,
for which the connection waits. -/
structure Established (p : ChannelProvider) (now : Nat) (m : Endpoint) : Prop where
  returns : initializeConnection p (.fresh now) = (.ok (), m)
  names : (sortedChannels p).Perm p.all
  sent : m.datagrams = (announcements (sortedChannels p)).mapIdx registrationDatagram
  waits : ∃ key packet, m.state = .registration false (some key) ∧
    m.resender.packets.get key = some packet ∧ m.datagrams.getLast? = some packet.payload

/-- The registration packet number `i` cannot be made: the name is too long, or the resender is
full. -/
def Hindered (channels : List (String × U32)) (capacity i : Nat) : Prop :=
  i = capacity ∨ ∃ entry, channels[i]? = some entry ∧ channelNameMaxLen < (utf8 entry.1).length

/-- The packets that can be numbered: `ChannelId::new` panics beyond the null id. -/
def Numbered (channels : List (String × U32)) (i : Nat) : Prop :=
  i ≤ channels.length ∧ (i < channels.length → i ≤ 2 ^ 31) ∧ i ≤ 2 ^ 31 + 1

/-- An initialization that fails has given nothing to the packet sender, and the event loop that
forgets its connection sends nothing either. -/
def Unseen (Addr : Type) [DecidableEq Addr] (p : ChannelProvider) (created : Nat) : Prop :=
  ∀ e m, initializeConnection p (.fresh created) = (.err e, m) → m.datagrams = [] ∧
    ∀ (s : EventLoop Addr) (addr : Addr) (now : Nat) (event : UdpEvent Addr),
      s.connections.get addr = none →
      event = .connect addr ∨ (∃ payload, event = .read payload addr) →
      ∃ s', s.handleEvent p created now event = some s' ∧ s'.connections = s.connections ∧
        s'.buffer = s.buffer

section
variable {channels : List (String × U32)} {now capacity i : Nat} {mapper : ConnectionIdMapperInner}

theorem DefaultChannelProvider.Built.channels_le {p : DefaultChannelProvider} (h : p.Built) :
    p.channels.length ≤ 2 ^ 31 + 1 := by
  have hnull : nullChannelId.toNat = 2 ^ 31 := rfl
  cases h with
  | new => decide
  | add p name channel fits before =>
    rw [DefaultChannelProvider.add, List.length_append, List.length_singleton]
    omega

/-- The capacities are added up, as long as their sum fits a `usize`. -/
theorem add_capacities {ε : Type} (p : ChannelProvider) (entries : List (String × U32))
    (known : ∀ e ∈ entries, (p.byId e.2).isSome) (start : capacity < usizeModulus) :
    (addCapacities p entries capacity : Outcome ε Nat) =
      if capacity + (entries.map p.reserve).sum < usizeModulus then
        .ok (capacity + (entries.map p.reserve).sum)
      else .panic := by
  induction entries generalizing capacity with
  | nil =>
    rw [addCapacities, List.map_nil, List.sum_nil, Nat.add_zero, if_pos start]
  | cons entry rest ih =>
    obtain ⟨name, id⟩ := entry
    obtain ⟨channel, hchannel⟩ := Option.isSome_iff_exists.mp (known _ List.mem_cons_self)
    have rest_known : ∀ e ∈ rest, (p.byId e.2).isSome :=
      fun e he => known e (List.mem_cons_of_mem _ he)
    have hreserve : p.reserve (name, id) =
        (channel.reliability.map ReliableChannel.additionalCapacity).getD 0 := by
      rw [ChannelProvider.reserve, hchannel]
      rfl
    simp only at hchannel
    rw [addCapacities, hchannel, List.map_cons, List.sum_cons, hreserve, ← Nat.add_assoc]
    simp only [Outcome.ofOption, Outcome.ok_bind]
    cases channel.reliability with
    | none => exact ih rest_known start
    | some reliable =>
      simp only [Option.map_some, Option.getD_some]
      split
      · rename_i fits
        exact ih rest_known fits
      · rename_i beyond
        rw [if_neg (by omega)]

end

section
variable {p : DefaultChannelProvider} {all : List (String × U32)} {order : all.Perm p.nameToId}

theorem reserved_sum : ((sortedChannels (p.asProvider all order)).map
    (p.asProvider all order).reserve).sum = p.reserved :=
  (provided_perm.map _).sum_nat

theorem provided_known : ∀ e ∈ sortedChannels (p.asProvider all order),
    ((p.asProvider all order).byId e.2).isSome := by
  intro e he
  exact Option.isSome_iff_exists.mpr
    ⟨_, List.getElem?_eq_getElem (p.ids_lt e (provided_perm.mem_iff.mp he))⟩

/-- Any connection of a built provider with short names initializes when, and only when, its
reliable channels reserve more capacity than there are names, and no more than a `usize`. -/
theorem initialization_succeeds_iff (built : p.Built)
    (short : ∀ e ∈ p.nameToId, (utf8 e.1).length ≤ channelNameMaxLen) (now : Nat) :
    (∃ m, Established (p.asProvider all order) now m) ↔
      p.nameToId.length < p.reserved ∧ p.reserved < usizeModulus := by
  have hlength : (sortedChannels (p.asProvider all order)).length = p.nameToId.length :=
    provided_perm.length_eq
  have hadd := add_capacities (ε := ConnectionError) (p.asProvider all order) _ provided_known
    (show 0 < usizeModulus by decide)
  rw [Nat.zero_add, reserved_sum] at hadd
  constructor
  · rintro ⟨m, established⟩
    obtain ⟨capacity, _, initializes, _⟩ := initialize_opened established.returns
    have hcapacity := initializes.capacities
    rw [hadd] at hcapacity
    split at hcapacity
    · cases hcapacity
      have room := initializes.announceable.room
      have last := initializes.last
      refine ⟨?_, by assumption⟩
      omega
    · cases hcapacity
  · rintro ⟨room, fits⟩
    rw [if_pos fits] at hadd
    have small := Nat.le_trans p.names_length_le built.channels_le
    have initializes : Initializes (p.asProvider all order) p.reserved := by
      refine ⟨hadd, ⟨fun e he => short e (provided_perm.mem_iff.mp he), ?_, ?_⟩, ?_⟩
      · omega
      · omega
      · omega
    rcases initialize_opens (p.asProvider all order) now with
      ⟨capacity, mapper, _, _, hreturns⟩ | ⟨fails, _⟩
    · have hlast : (announcements (sortedChannels (p.asProvider all order)))[
          (sortedChannels (p.asProvider all order)).length]? = some (nameBytes "") :=
        announcement_last
      refine ⟨_, hreturns, List.perm_insertionSort _ _, opened_datagrams, _, _, rfl,
        opening_get capacity hlast (by omega), ?_⟩
      rw [opened_datagrams, List.getLast?_eq_getElem?, List.length_mapIdx, announcements_length,
        Nat.add_sub_cancel, List.getElem?_mapIdx, hlast]
      rfl
    · exact absurd initializes (fails _)

end

/-- A provider whose channels reserve room for their own packets, and for no last one. -/
def exactProvider : DefaultChannelProvider :=
  (DefaultChannelProvider.new.add ackChannelName (tightChannel ackChannel 1)
    DefaultChannelProvider.new_fits).add
    channelManagementChannelName (tightChannel channelManagementChannel 1) (by decide)

theorem exact_provider_fails :
    exactProvider.Built ∧ (∀ e ∈ exactProvider.nameToId, (utf8 e.1).length ≤ channelNameMaxLen) ∧
      ¬ ∃ m, Established (exactProvider.asProvider _ (.refl _)) 0 m := by
  have full : (initializeConnection (exactProvider.asProvider _ (.refl _)) (.fresh 0)).1 =
      .err (.packetResenderError .capacityReached) := by decide +kernel
  refine ⟨.add _ _ _ _ (.add _ _ _ _ .new), by decide +kernel, ?_⟩
  rintro ⟨m, established⟩
  rw [established.returns] at full
  cases full

theorem initialization_succeeds_iff_builtin :
    (∃ m, Established builtinProvider 0 m) ↔
      DefaultChannelProvider.new.nameToId.length < DefaultChannelProvider.new.reserved ∧
        DefaultChannelProvider.new.reserved < usizeModulus :=
  initialization_succeeds_iff .new (by decide +kernel) 0

section
variable {channels : List (String × U32)} {now capacity i : Nat} {mapper : ConnectionIdMapperInner}

/-- The registration stops at the first packet that cannot be made, or at the first one that has no
number. -/
theorem register_runs (now capacity : Nat) {rest : List (String × U32)}
    (entered : Entered (channels.take i) mapper)
    (hrest : channels.drop i = rest) (hi : i ≤ channels.length) (small : i ≤ 2 ^ 31 + 1) :
    (channels.length ≤ 2 ^ 31 + 1 ∧
      (∀ j, i ≤ j → j < channels.length → ¬ Hindered channels capacity j) ∧
      ∃ mapper', registerChannels i rest (opening channels now capacity i mapper) =
        (.ok (), opening channels now capacity channels.length mapper')) ∨
    (∃ k, i ≤ k ∧ k < channels.length ∧ k ≤ 2 ^ 31 ∧ Hindered channels capacity k ∧
      (∀ j, i ≤ j → j < k → ¬ Hindered channels capacity j) ∧
      (∃ e, (registerChannels i rest (opening channels now capacity i mapper)).1 = .err e) ∧
      ∃ mapper', (registerChannels i rest (opening channels now capacity i mapper)).2.log =
        (opening channels now capacity k mapper').log) ∨
    (2 ^ 31 + 1 < channels.length ∧
      (∀ j, i ≤ j → j ≤ 2 ^ 31 → ¬ Hindered channels capacity j) ∧
      (registerChannels i rest (opening channels now capacity i mapper)).1 = .panic) := by
  induction rest generalizing i mapper with
  | nil =>
    obtain rfl : i = channels.length := Nat.le_antisymm hi (List.drop_eq_nil_iff.mp hrest)
    exact Or.inl ⟨small, fun j h1 h2 => absurd h2 (Nat.not_lt_of_le h1), mapper, rfl⟩
  | cons entry rest ih =>
    obtain ⟨name, id⟩ := entry
    have hget : channels[i]? = some (name, id) := by
      have := congrArg (fun l => l[0]?) hrest
      simpa using this
    have hlt := (List.getElem?_eq_some_iff.mp hget).1
    have hindered : ¬ Hindered channels capacity i ↔
        (utf8 name).length ≤ channelNameMaxLen ∧ i ≠ capacity := by
      unfold Hindered
      rw [hget]
      simp [and_comm]
    by_cases hsmall : i ≤ 2 ^ 31
    · rcases register_next now capacity entered hrest hsmall with
        ⟨hname, hroom, mapper', hentered, heq⟩ | ⟨hnot, herr, hlog⟩
      · have hdrop : channels.drop (i + 1) = rest := by
          rw [← List.drop_drop, hrest]
          rfl
        -- What holds from the next place on holds from this one on.
        have clear {j : Nat} (hj : i ≤ j) (later : i + 1 ≤ j → ¬ Hindered channels capacity j) :
            ¬ Hindered channels capacity j := by
          rcases Nat.eq_or_lt_of_le hj with rfl | hj
          · exact hindered.mpr ⟨hname, hroom⟩
          · exact later hj
        rw [heq]
        rcases ih hentered hdrop hlt (by omega) with ⟨hn, hnone, hend⟩ |
          ⟨k, hk, hkn, hks, hhind, hnone, hend⟩ | ⟨hn, hnone, hend⟩
        · exact Or.inl ⟨hn, fun j h1 h2 => clear h1 (fun h => hnone j h h2), hend⟩
        · exact Or.inr (Or.inl ⟨k, by omega, hkn, hks, hhind,
            fun j h1 h2 => clear h1 (fun h => hnone j h h2), hend⟩)
        · exact Or.inr (Or.inr ⟨hn, fun j h1 h2 => clear h1 (fun h => hnone j h h2), hend⟩)
      · right
        left
        exact ⟨i, Nat.le_refl i, hlt, hsmall, not_not.mp (fun h => hnot (hindered.mp h)),
          fun j h1 h2 => absurd h2 (Nat.not_lt_of_le h1), herr, mapper, hlog⟩
    · right
      right
      refine ⟨by omega, fun j h1 h2 => absurd h2 (by omega), ?_⟩
      have hnull : nullChannelId.toNat = 2 ^ 31 := rfl
      rw [registerChannels, if_pos (by omega)]
      rfl

theorem hindered_last : Hindered channels capacity channels.length ↔ channels.length = capacity := by
  unfold Hindered
  simp

/-- An initialization fails at the first registration packet that cannot be made. -/
theorem initialize_runs (now : Nat) {p : ChannelProvider}
    (hadd : (addCapacities p (sortedChannels p) 0 : Outcome ConnectionError Nat) = .ok capacity) :
    (∃ k e, Numbered (sortedChannels p) k ∧ Hindered (sortedChannels p) capacity k ∧
      (∀ j < k, ¬ Hindered (sortedChannels p) capacity j) ∧
      (initializeConnection p (.fresh now)).1 = .err e ∧
      (initializeConnection p (.fresh now)).2.datagrams =
        ((announcements (sortedChannels p)).take k).mapIdx registrationDatagram) ∨
    ((∀ i, Numbered (sortedChannels p) i → ¬ Hindered (sortedChannels p) capacity i) ∧
      ∀ e, (initializeConnection p (.fresh now)).1 ≠ .err e) := by
  have hrun : initializeConnection p (.fresh now) =
      (registerChannels 0 (sortedChannels p) >>= fun _ => announceEnd)
        (opening (sortedChannels p) now capacity 0 {}) := by
    simp only [initializeConnection, Act.bind_apply, Act.get_apply, Endpoint.fresh,
      ConnectionState.default, Act.lift_apply, hadd, Act.modify_apply]
    rfl
  have sent {m : Endpoint} {k : Nat} {mapper : ConnectionIdMapperInner}
      (hlog : m.log = (opening (sortedChannels p) now capacity k mapper).log) : m.datagrams =
        ((announcements (sortedChannels p)).take k).mapIdx registrationDatagram := by
    rw [Endpoint.datagrams, hlog]
    exact opening_datagrams k
  have hnone : Entered ((sortedChannels p).take 0) {} := .empty
  rw [hrun]
  rcases register_runs now capacity hnone rfl (Nat.zero_le _) (Nat.zero_le _)
    with ⟨hn, clear, mapper, heq⟩ | ⟨k, _, hkn, hks, hhind, clear, ⟨e, herr⟩, mapper, hlog⟩ |
      ⟨hn, clear, hpanic⟩
  · rw [List.drop_zero] at heq
    rw [Act.bind_of_ok heq]
    rcases announce_end_opening now capacity mapper hn with ⟨hroom, hend⟩ | ⟨hfull, ⟨e, herr⟩, hlog⟩
    · right
      refine ⟨fun i hi => ?_, by simp [hend]⟩
      rcases Nat.eq_or_lt_of_le hi.1 with rfl | hlt
      · exact fun h => hroom (hindered_last.mp h)
      · exact clear i (Nat.zero_le i) hlt
    · left
      exact ⟨_, e, ⟨Nat.le_refl _, fun h => absurd h (Nat.lt_irrefl _), hn⟩,
        hindered_last.mpr hfull, fun j hj => clear j (Nat.zero_le j) hj, herr, sent hlog⟩
  · rw [List.drop_zero] at herr hlog
    rw [Act.bind_of_err (eq_of_fst herr)]
    exact Or.inl ⟨k, e, ⟨Nat.le_of_lt hkn, fun _ => hks, by omega⟩, hhind,
      fun j hj => clear j (Nat.zero_le j) hj, rfl, sent hlog⟩
  · right
    rw [List.drop_zero] at hpanic
    rw [Act.bind_of_panic (eq_of_fst hpanic)]
    refine ⟨fun i hi => clear i (Nat.zero_le i) ?_, by simp⟩
    obtain ⟨hle, hsmall, hmax⟩ := hi
    rcases Nat.eq_or_lt_of_le hle with rfl | hlt
    · omega
    · exact hsmall hlt

end

theorem add_capacities_ne_err (p : ChannelProvider) (entries : List (String × U32))
    (capacity : Nat) : ∀ e : ε, addCapacities p entries capacity ≠ .err e := by
  induction entries generalizing capacity with
  | nil => simp [addCapacities]
  | cons entry rest ih =>
    unfold addCapacities
    refine Outcome.bind_ne_err Outcome.of_option_ne_err (fun channel => ?_)
    split
    · split
      · exact ih _
      · simp
    · exact ih _

/-- The loop forgets a connection whose initialization fails, after it has sent what that left. -/
theorem failed_event {Addr : Type} [DecidableEq Addr] (now : Nat) {p : ChannelProvider}
    {created : Nat} {e : ConnectionError} {m : Endpoint} {s : EventLoop Addr} {addr : Addr}
    {event : UdpEvent Addr}
    (h : initializeConnection p (.fresh created) = (.err e, m))
    (new : s.connections.get addr = none)
    (made : event = .connect addr ∨ ∃ payload, event = .read payload addr) :
    ∃ s', s.handleEvent p created now event = some s' ∧ s'.connections = s.connections ∧
      s'.buffer = s.buffer ++ m.datagrams.map (addr, ·) := by
  have hmake : s.makeConnection p created addr = some ({ s with
      buffers := s.buffers + 1
      buffer := s.buffer ++ m.datagrams.map (addr, ·) }, none) := by
    rw [EventLoop.makeConnection, h]
    rfl
  rcases made with rfl | ⟨payload, rfl⟩
  · rw [EventLoop.handleEvent, new, hmake]
    exact ⟨_, rfl, rfl, rfl⟩
  · rw [EventLoop.handleEvent, new, hmake]
    exact ⟨_, rfl, rfl, rfl⟩

/-- A failed initialization goes unseen exactly when, as soon as any registration packet cannot be
made, the first one cannot. -/
theorem failed_initialization_unseen_iff {Addr : Type} [DecidableEq Addr] (p : ChannelProvider)
    (created : Nat) : Unseen Addr p created ↔
      ∀ capacity,
        (addCapacities p (sortedChannels p) 0 : Outcome ConnectionError Nat) = .ok capacity →
        (∃ i, Numbered (sortedChannels p) i ∧ Hindered (sortedChannels p) capacity i) →
          Hindered (sortedChannels p) capacity 0 := by
  constructor
  · intro unseen capacity hadd hindered
    rcases initialize_runs created hadd with ⟨k, e, hk, hhind, _, herr, hsent⟩ | ⟨clear, _⟩
    · have hnil := (unseen e _ (eq_of_fst herr)).1
      have hzero : k = 0 := by
        rw [hsent] at hnil
        have hlength := congrArg List.length hnil
        rw [List.length_mapIdx, List.length_take, announcements_length, List.length_nil] at hlength
        have := hk.1
        omega
      rwa [← hzero]
    · obtain ⟨i, hi, hhind⟩ := hindered
      exact absurd hhind (clear i hi)
  · intro first e m h
    have hnil : m.datagrams = [] := by
      cases hadd : (addCapacities p (sortedChannels p) 0 : Outcome ConnectionError Nat) with
      | ok capacity =>
        rcases initialize_runs created hadd with ⟨k, e', hk, hhind, clear, _, hsent⟩ |
          ⟨_, never⟩
        · have hzero : k = 0 := by
            by_contra hne
            exact clear 0 (Nat.pos_of_ne_zero hne) (first capacity hadd ⟨k, hk, hhind⟩)
          rw [h, hzero] at hsent
          exact hsent
        · exact absurd (congrArg Prod.fst h) (never e)
      | err e' => exact absurd hadd (add_capacities_ne_err p _ 0 e')
      | panic =>
        simp only [initializeConnection, Act.bind_apply, Endpoint.fresh, ConnectionState.default,
          Act.get_apply, Act.lift_apply, hadd] at h
        cases h
    refine ⟨hnil, fun s addr now event new made => ?_⟩
    have hevent := failed_event now h new made
    rwa [hnil, List.map_nil, List.append_nil] at hevent

/-- A provider with one name that is too long, which is announced after the built-in ones. -/
def lateProvider : DefaultChannelProvider :=
  DefaultChannelProvider.new.add (String.ofList (List.replicate 501 'a'))
    ⟨none, none, ChannelFrequency.never⟩ DefaultChannelProvider.new_fits

theorem late_failure_seen : ¬ Unseen Nat (lateProvider.asProvider _ (.refl _)) 0 := by
  intro unseen
  have failed : (initializeConnection (lateProvider.asProvider _ (.refl _)) (.fresh 0)).1 =
      .err .encodeError := by decide +kernel
  have sent : (initializeConnection (lateProvider.asProvider _ (.refl _)) (.fresh 0)).2.datagrams ≠
      [] := by decide +kernel
  exact sent (unseen _ _ (eq_of_fst failed)).1

end Theta
