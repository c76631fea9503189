import Theta.Proofs.Lifetime
import Theta.Proofs.Resender

namespace Theta
open Lib

/-- Number of packets that a payload is sent in. -/
def packetCount (payload : Bytes) : Nat :=
  if maxNonSegmentedPayloadLen < payload.length then
    (chunks (maxPacketLen - maxPacketMetadataLen) payload).length
  else 1

/-- One of the next `n` packets of the channel is refused: its id does not fit the wire, or the
resender is full when the packet's turn comes. -/
def Refused (channel : ConnectionChannel) (n : Nat) (m : Endpoint) : Prop :=
  (0 < n ∧ 2 ^ 31 ≤ channel.localId.toNat) ∨
    (channel.channel.isReliable = true ∧
      ∃ j, j < n ∧ m.resender.packets.len + j = m.resender.capacity)

section
variable {channel : ConnectionChannel} {order : Option U32} {m : Endpoint}

/-- A packet that goes out was not refused and leaves room for one less. -/
theorem send_real_packet_ok {segment : Option PacketSegmentMetadata} {payload : Bytes}
    {key : Option SlotMapKey} {m' : Endpoint} (healthy : m.resender.packets.Healthy)
    (h : sendRealPacket channel order segment payload m = (.ok key, m')) :
    m'.resender.packets.Healthy ∧ m'.segmentKeysCounter = m.segmentKeysCounter ∧
      ∀ n, Refused channel (n + 1) m ↔ Refused channel n m' := by
  rcases send_real_packet_cases channel order segment payload m with
    ⟨hr, _⟩ | ⟨hid, _, ⟨reliable, k, resender, packet, hkind, hadd, _, he⟩ | ⟨hkind, he⟩⟩
  · rw [h] at hr
    exact absurd rfl (hr key)
  · rw [h] at he
    cases he
    obtain ⟨hne, hcap, hslots⟩ := PacketResender.add_ok hadd
    have hlen := SlotMap.add_len healthy hslots
    refine ⟨SlotMap.add_healthy healthy hslots, rfl, fun n => ?_⟩
    unfold Refused
    simp only [hlen, hcap]
    constructor
    · rintro (⟨_, hbig⟩ | ⟨hrel, j, hj, hfull⟩)
      · omega
      · refine Or.inr ⟨hrel, j - 1, ?_, ?_⟩ <;> omega
    · rintro (⟨_, hbig⟩ | ⟨hrel, j, hj, hfull⟩)
      · omega
      · exact Or.inr ⟨hrel, j + 1, by omega, by omega⟩
  · rw [h] at he
    cases he
    have hrel : channel.channel.isReliable = false := by simp [Channel.isReliable, hkind]
    refine ⟨healthy, rfl, fun n => ?_⟩
    unfold Refused
    simp only [hrel, Bool.false_eq_true, false_and, or_false]
    constructor
    · rintro ⟨_, hbig⟩
      omega
    · rintro ⟨_, hbig⟩
      omega

theorem send_real_packet_err {segment : Option PacketSegmentMetadata} {payload : Bytes}
    {e : ConnectionError} (h : (sendRealPacket channel order segment payload m).1 = .err e) :
    ∀ n, Refused channel (n + 1) m := by
  intro n
  by_cases hlen : maxPacketLen < payload.length
  · simp [sendRealPacket, hlen] at h
  have hlen := Nat.le_of_not_lt hlen
  by_cases hid : channel.localId.toNat < 2 ^ 31
  swap
  · exact Or.inl ⟨Nat.succ_pos n, Nat.le_of_not_lt hid⟩
  by_cases valid : ∀ x, segment = some x → x.Valid
  swap
  · push Not at valid
    obtain ⟨x, rfl, invalid⟩ := valid
    rw [send_unnumbered hid invalid] at h
    cases h
  cases hkind : channel.channel.reliability with
  | none =>
    rw [send_unreliable hid valid hlen hkind] at h
    cases h
  | some reliable =>
    rw [send_reliable hid valid hlen hkind] at h
    simp only [Act.bind_apply, Act.lift_apply] at h
    generalize hadd : m.resender.add _ = added at h
    cases added with
    | err e =>
      have hrel : channel.channel.isReliable = true := by simp [Channel.isReliable, hkind]
      exact Or.inr ⟨hrel, 0, Nat.succ_pos n, PacketResender.add_err hadd⟩
    | panic => cases h
    | ok r =>
      simp only [Outcome.mapErr] at h
      cases hget : r.2.packets.get r.1 with
      | none =>
        rw [hget] at h
        cases h
      | some packet =>
        rw [hget] at h
        cases h

/-- The segments come to an error exactly when one of them is refused. -/
theorem send_segments_fails_iff {segmentKey : U32} {count : Nat} {segments : List Bytes} {i : Nat}
    (healthy : m.resender.packets.Healthy)
    (returns : (sendSegments channel order segmentKey count i segments m).1 ≠ .panic) :
    (sendSegments channel order segmentKey count i segments m).2.segmentKeysCounter =
        m.segmentKeysCounter ∧
      ((∃ e, (sendSegments channel order segmentKey count i segments m).1 = .err e) ↔
        Refused channel segments.length m) := by
  induction segments generalizing i m with
  | nil =>
    refine ⟨rfl, ?_⟩
    simp [sendSegments, Refused]
  | cons segment rest ih =>
    rw [sendSegments, Act.bind_apply] at returns ⊢
    rcases hsend : sendRealPacket channel order (some ⟨segmentKey, i, count⟩) segment m with ⟨r, m'⟩
    rw [hsend] at returns
    cases r with
    | panic => exact absurd rfl returns
    | err e =>
      have hsame : m' = m := by
        rcases send_real_packet_cases channel order (some ⟨segmentKey, i, count⟩) segment m with
          ⟨_, h⟩ | ⟨_, _, ⟨_, _, _, _, _, _, _, h⟩ | ⟨_, h⟩⟩
        · rw [← h, hsend]
        · rw [hsend] at h
          cases h
        · rw [hsend] at h
          cases h
      refine ⟨by rw [hsame], ?_⟩
      have hrefused := send_real_packet_err (congrArg Prod.fst hsend) rest.length
      simp [hrefused]
    | ok key =>
      obtain ⟨healthy', hcount, hstep⟩ := send_real_packet_ok healthy hsend
      simp only at returns ⊢
      have hrest : (sendSegments channel order segmentKey count (i + 1) rest m').1 ≠ .panic := by
        intro hp
        apply returns
        rw [Act.bind_apply]
        rcases hs : sendSegments channel order segmentKey count (i + 1) rest m' with ⟨r, t⟩
        rw [hs] at hp
        cases hp
        rfl
      obtain ⟨hc, hiff⟩ := ih healthy' hrest
      rw [Act.bind_pure_state, hc, hcount, List.length_cons, hstep, ← hiff]
      refine ⟨rfl, ?_⟩
      rw [Act.bind_apply]
      rcases sendSegments channel order segmentKey count (i + 1) rest m' with ⟨r, t⟩
      cases r <;> simp

/-- A packet's transmission fails exactly when one of its parts is refused; a whole packet
that is refused changes nothing, and a segmented one has taken its segment key. -/
theorem transmit_fails_iff {payload : Bytes} (healthy : m.resender.packets.Healthy)
    (returns : (transmit channel order payload m).1 ≠ .panic) :
    ((∃ e, (transmit channel order payload m).1 = .err e) ↔
      Refused channel (packetCount payload) m) ∧
    (maxNonSegmentedPayloadLen < payload.length →
      (transmit channel order payload m).2.segmentKeysCounter = m.segmentKeysCounter + 1) := by
  unfold transmit packetCount at *
  by_cases hlen : maxNonSegmentedPayloadLen < payload.length
  · simp only [hlen, ↓reduceIte, Act.bind_apply, Act.get_apply, Act.modify_apply] at returns ⊢
    have healthy' : ({ m with segmentKeysCounter := m.segmentKeysCounter + 1 } :
      Endpoint).resender.packets.Healthy := healthy
    obtain ⟨hc, hiff⟩ := send_segments_fails_iff healthy' returns
    exact ⟨hiff, fun _ => hc⟩
  · simp only [hlen, ↓reduceIte, Act.bind_apply] at returns ⊢
    refine ⟨?_, fun h => False.elim h⟩
    rcases hsend : sendRealPacket channel order none payload m with ⟨r, m'⟩
    rw [hsend] at returns
    cases r with
    | panic => exact absurd rfl returns
    | err e => simp [send_real_packet_err (congrArg Prod.fst hsend) 0]
    | ok key =>
      obtain ⟨_, _, hstep⟩ := send_real_packet_ok healthy hsend
      rw [hstep 0]
      simp [Refused]

end

/-- What a failed send must leave alone. -/
structure Untouched (m m' : Endpoint) : Prop where
  orders : m'.orders = m.orders
  segmentKeysCounter : m'.segmentKeysCounter = m.segmentKeysCounter
  resender : m'.resender = m.resender
  datagrams : m'.datagrams = m.datagrams

theorem transmit_orders (channel : ConnectionChannel) (order : Option U32) (payload : Bytes)
    (m : Endpoint) : (transmit channel order payload m).2.orders = m.orders :=
  (moves_fixed (transmit_sending channel order payload m)).2

/-- A whole packet that is refused leaves the connection as it was. -/
theorem transmit_short_err {channel : ConnectionChannel} {order : Option U32} {payload : Bytes}
    {m : Endpoint} {e : ConnectionError} (hlen : payload.length ≤ maxNonSegmentedPayloadLen)
    (h : (transmit channel order payload m).1 = .err e) :
    (transmit channel order payload m).2 = m := by
  rw [transmit_short hlen] at h ⊢
  rw [Act.bind_pure_state]
  rcases send_real_packet_cases channel order none payload m with
    ⟨_, hs⟩ | ⟨_, _, ⟨_, _, _, _, _, _, _, hs⟩ | ⟨_, hs⟩⟩
  · exact hs
  · rw [Act.bind_of_ok hs] at h
    cases h
  · rw [Act.bind_of_ok hs] at h
    cases h

theorem add_one_ne (x : U32) : x + 1 ≠ x := by
  intro h
  bv_omega

theorem counted_ne {m : Endpoint} {id order : U32} {orders : ChannelData U32}
    (hget : (m.orders.get m.state id : Outcome ConnectionError _) = .ok order)
    (hwrite : (m.orders.write m.state id (order + 1) : Outcome ConnectionError _) = .ok orders) :
    orders ≠ m.orders := by
  rintro rfl
  have hsame := ChannelData.get_write hwrite
  rw [hget, Outcome.ok.injEq] at hsame
  exact add_one_ne order hsame.symm

/-- A send that returns leaves everything alone on error exactly when no part of it is refused,
or when nothing was counted before its only packet. -/
theorem send_packet_atomic_iff (channel : ConnectionChannel) (payload : Bytes) (m : Endpoint)
    (healthy : m.resender.packets.Healthy) (returns : (sendPacket channel payload m).1 ≠ .panic) :
    (∀ e, (sendPacket channel payload m).1 = .err e →
        Untouched m (sendPacket channel payload m).2) ↔
      (¬ Refused channel (packetCount payload) m ∨
        (channel.channel.isOrdered = false ∧ payload.length ≤ maxNonSegmentedPayloadLen)) := by
  rcases next_order_cases channel m with hn | ⟨ho, hn⟩ | ⟨order, orders, ho, hget, hwrite, hn⟩
  · rw [sendPacket, Act.bind_of_panic hn] at returns
    exact absurd rfl returns
  · rw [sendPacket, Act.bind_of_ok hn] at returns ⊢
    obtain ⟨hfails, hcounter⟩ := transmit_fails_iff healthy returns
    constructor
    · intro h
      by_contra hc
      rw [not_or, not_not] at hc
      obtain ⟨e, he⟩ := hfails.mpr hc.1
      have hlong : maxNonSegmentedPayloadLen < payload.length := by
        by_contra hle
        exact hc.2 ⟨ho, Nat.le_of_not_lt hle⟩
      have hsame := (h e he).segmentKeysCounter
      rw [hcounter hlong] at hsame
      exact add_one_ne _ hsame
    · rintro (hroom | ⟨_, hle⟩) e he
      · exact absurd (hfails.mp ⟨e, he⟩) hroom
      · rw [transmit_short_err hle he]
        exact ⟨rfl, rfl, rfl, rfl⟩
  · rw [sendPacket, Act.bind_of_ok hn] at returns ⊢
    have healthy' : ({ m with orders := orders } : Endpoint).resender.packets.Healthy := healthy
    obtain ⟨hfails, _⟩ := transmit_fails_iff healthy' returns
    constructor
    · intro h
      by_contra hc
      rw [not_or, not_not] at hc
      obtain ⟨e, he⟩ := hfails.mpr hc.1
      have hsame := (h e he).orders
      rw [transmit_orders] at hsame
      exact counted_ne hget hwrite hsame
    · rintro (hroom | ⟨hunordered, _⟩) e he
      · exact absurd (hfails.mp ⟨e, he⟩) hroom
      · rw [ho] at hunordered
        cases hunordered

theorem hundred_nonzero : (100 : U32) ≠ 0 := by decide

theorem eight_nonzero : (8 : Nat) ≠ 0 := by decide

theorem eight_usize : 8 < usizeModulus := by decide

/-- An ordered and reliable channel of an application. -/
def chat : ConnectionChannel where
  localId := 0
  channel := {
    reliability := some ⟨100, 3, 1, hundred_nonzero⟩
    orderability := some ⟨8, eight_nonzero, eight_usize⟩
    frequency := 0 }

/-- A connection whose resender is full after its first message. -/
def crowded : Endpoint :=
  (sendPacket chat [7] {
    lastTimeReceivedPacket := 0
    state := .transfer
    orders := ⟨[0], 0, 0⟩
    resender := { capacity := 1 } }).2

theorem send_packet_atomic_crowded :
    (∀ e, (sendPacket chat [8] crowded).1 = .err e →
        Untouched crowded (sendPacket chat [8] crowded).2) ↔
      (¬ Refused chat (packetCount [8]) crowded ∨
        (chat.channel.isOrdered = false ∧ ([8] : Bytes).length ≤ maxNonSegmentedPayloadLen)) :=
  have free : crowded.resender.packets.freeSlots = [] := by decide +kernel
  send_packet_atomic_iff chat [8] crowded
    ⟨by decide +kernel, by simp [free], by simp [free]⟩ (by decide +kernel)

/-- The second message is refused, but its order number is gone. -/
theorem refused_send_takes_order :
    (sendPacket chat [8] crowded).1 = .err (.packetResenderError .capacityReached) ∧
      crowded.orders.basicStage = [1] ∧ (sendPacket chat [8] crowded).2.orders.basicStage = [2] ∧
      ¬ Untouched crowded (sendPacket chat [8] crowded).2 := by
  have before : crowded.orders.basicStage = [1] := by decide +kernel
  have after : (sendPacket chat [8] crowded).2.orders.basicStage = [2] := by decide +kernel
  refine ⟨by decide +kernel, before, after, ?_⟩
  intro h
  rw [h.orders, before] at after
  exact absurd after (by decide)

end Theta
