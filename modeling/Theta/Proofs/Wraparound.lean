import Theta.Proofs.Counters
import Theta.Proofs.Reorder

namespace Theta
open Lib ReorderBuffer PacketOrderer

section
variable {o o' : PacketOrderer}

theorem collect_succeeds (x : Bytes) (s : List Bytes) : (collect x s).1 = .ok () := rfl

theorem collected (xs s : List Bytes) : xs.foldl (fun s x => (collect x s).2) s = s ++ xs := by
  induction xs generalizing s with
  | nil => exact (List.append_nil s).symm
  | cons x xs ih =>
    rw [List.foldl_cons, ih]
    change s ++ [x] ++ xs = _
    rw [List.append_assoc, List.singleton_append]

/-- An orderer expects the number of packets that it has handed on. -/
theorem operate_counts {ops : List (Op 64 Bytes)} {s t : List Bytes} {flags : List Bool}
    (h : o.Regular) (counted : o.buffer.next = BitVec.ofNat 64 s.length)
    (run : operate collect ops o s = some (flags, o', t)) :
    o'.buffer.next = BitVec.ofNat 64 t.length := by
  induction ops generalizing o s flags with
  | nil =>
    cases run
    exact counted
  | cons op ops ih =>
    cases op with
    | push n x =>
      unfold operate at run
      cases hpush : o.push n.toNat x with
      | ok o1 =>
        rw [hpush] at run
        obtain ⟨⟨_, _, _⟩, hrun, he⟩ := Option.map_eq_some_iff.mp run
        cases he
        obtain ⟨hregular, _, _, hb⟩ := h.pushed hpush
        refine ih hregular ?_ hrun
        rw [← counted, push_next hb]
      | err e =>
        rw [hpush] at run
        obtain ⟨⟨_, _, _⟩, hrun, he⟩ := Option.map_eq_some_iff.mp run
        cases he
        exact ih h counted hrun
      | panic =>
        rw [hpush] at run
        cases run
    | retain =>
      unfold operate at run
      by_cases hpos : 0 < o.vec.length
      · obtain ⟨o1, xs, hret, hsame, hdrains⟩ :=
          retain_drains collect_succeeds h hpos s
        rw [hret] at run
        refine ih hsame.regular ?_ run
        rw [hdrains.1.next, counted, collected, List.length_append, BitVec.ofNat_add]
      · rw [retain, retainLoop, List.getElem?_eq_none (by omega)] at run
        cases run

/-- The packet that is expected next is accepted and handed on. -/
theorem expected_delivered (h : o.Regular) (pos : 0 < o.capacity) (x : Bytes) (s : List Bytes) :
    ∃ o' o'' more, o.push o.buffer.next.toNat x = .ok o' ∧
      retain collect o' s = (.ok (), o'', s ++ x :: more) := by
  have hzero : o.distance o.buffer.next.toNat = 0 := by
    rw [distance_eq h.start, BitVec.sub_self]
    rfl
  have hmax : maxVecLen = 384307168202282325 := by decide
  have grows : ∃ g, o.grow 0 = .ok g := by
    unfold grow
    split
    · rw [if_neg (by omega)]
      exact ⟨_, rfl⟩
    · exact ⟨_, rfl⟩
  obtain ⟨g, hg⟩ := grows
  obtain ⟨o', hpush⟩ : ∃ o', o.push o.buffer.next.toNat x = .ok o' := by
    rw [PacketOrderer.push, hzero, if_neg (Nat.not_le_of_lt pos), hg]
    exact ⟨_, rfl⟩
  obtain ⟨hregular, _, hpos, hb⟩ := h.pushed hpush
  obtain ⟨o'', xs, hret, _, hdrains⟩ :=
    retain_drains collect_succeeds hregular hpos s
  have hheld : o'.buffer.held o'.buffer.next = some x := by
    rw [push_next hb]
    unfold ReorderBuffer.push at hb
    split at hb
    · rw [← Option.some.inj hb]
      exact Function.update_self ..
    · cases hb
  rw [collected] at hret
  obtain ⟨htakes, hend⟩ := hdrains
  generalize o''.buffer = b at htakes hend
  cases htakes with
  | none =>
    rw [hheld] at hend
    cases hend
  | more _ _ y more first _ =>
    rw [hheld, Option.some.injEq] at first
    subst first
    exact ⟨o', o'', more, hpush, hret⟩

end

/-- A number of 32 bits is the number of 64 bits that it comes from only below `2 ^ 32`. -/
theorem wire_order_iff (n : Nat) :
    (BitVec.ofNat 64 (BitVec.ofNat 32 n : U32).toNat) = BitVec.ofNat 64 n ↔ n % 2 ^ 64 < 2 ^ 32 := by
  constructor
  · intro h
    have h := congrArg BitVec.toNat h
    simp only [BitVec.toNat_ofNat] at h
    omega
  · intro h
    apply BitVec.eq_of_toNat_eq
    simp only [BitVec.toNat_ofNat]
    omega

/-- The next order of a channel is the one that its receiver expects, and is accepted and handed
on, exactly while fewer than `2 ^ 32` messages are counted by the receiver. -/
theorem next_order_expected_iff {r : Registry} {m : Endpoint} (hm : Reachable r.provider m)
    (stage : m.state = .transfer) {g l : U32} {channel : Channel} {window : OrderedChannel}
    (addressed : m.localInner.localId .transfer g = some l)
    (kind : r.provider.byId g = some channel) (ordered : channel.orderability = some window)
    {ops : List (Op 64 Bytes)} {flags : List Bool} {o : PacketOrderer} {delivered : List Bytes}
    (received : operate collect ops (PacketOrderer.new window.capacity) [] =
      some (flags, o, delivered))
    (all : delivered.length = (m.calls g).length) (x : Bytes) :
    ∃ order, (nextOrder ⟨l, channel⟩ m).1 = .ok (some order) ∧
      ((o.distance order.toNat = 0 ∧ ∃ o' o'' more, o.push order.toNat x = .ok o' ∧
          retain collect o' delivered = (.ok (), o'', delivered ++ x :: more)) ↔
        (m.calls g).length % 2 ^ 64 < 2 ^ 32) := by
  have hordered : channel.isOrdered = true := by
    rw [Channel.isOrdered, ordered]
    rfl
  have hcount := hm.counted.counted g l channel addressed kind hordered
  obtain ⟨orders, hnext⟩ : ∃ orders, nextOrder ⟨l, channel⟩ m = (.ok (some _), { m with
      orders := orders }) := next_counted stage hordered hcount
  refine ⟨BitVec.ofNat 32 (m.calls g).length, by rw [hnext], ?_⟩
  obtain ⟨hregular, hcap⟩ := operate_regular new_regular received
  have hstart : o.buffer.next = BitVec.ofNat 64 (m.calls g).length := by
    rw [← all]
    exact operate_counts new_regular rfl received
  generalize hn : (m.calls g).length = n at hstart
  generalize horder : (BitVec.ofNat 32 n : U32) = order
  have hwire : (BitVec.ofNat 64 order.toNat).toNat = order.toNat := by
    have := order.isLt
    rw [BitVec.toNat_ofNat, Nat.mod_eq_of_lt (by omega)]
  rw [← wire_order_iff, horder, ← hstart]
  constructor
  · rintro ⟨hzero, _⟩
    rw [← hwire, distance_eq hregular.start] at hzero
    bv_omega
  · intro he
    rw [← hwire, he]
    refine ⟨?_, expected_delivered hregular ?_ x delivered⟩
    · rw [distance_eq hregular.start, BitVec.sub_self]
      rfl
    · rw [hcap]
      exact Nat.pos_of_ne_zero window.capacity_nonzero

/-- A message on an unreliable ordered channel is always sent. -/
theorem send_another {r : Registry} {m : Endpoint} (hm : Reachable r.provider m)
    (stage : m.state = .transfer) {g l : U32} {channel : Channel}
    (addressed : m.localInner.localId .transfer g = some l)
    (kind : r.provider.byId g = some channel) (ordered : channel.isOrdered = true)
    (unreliable : channel.reliability = none) :
    ∃ m', Reachable r.provider m' ∧ m'.state = .transfer ∧ m'.localInner = m.localInner ∧
      m'.calls g = m.calls g ++ [[]] := by
  have hcount := hm.counted.counted g l channel addressed kind ordered
  obtain ⟨orders, hnext⟩ : ∃ orders, nextOrder ⟨l, channel⟩
      { m with log := m.log ++ [.called g []] } = (.ok (some _), { m with
        orders := orders, log := m.log ++ [.called g []] }) := next_counted stage ordered hcount
  have hnew : ConnectionChannel.new m.state l g r.provider = some ⟨l, channel⟩ := by
    unfold ConnectionChannel.new
    rw [stage, kind]
    rfl
  have hlocal : m.localInner.localId m.state g = some l := by rw [stage, addressed]
  have haddr : Addressed r.provider m g ⟨l, channel⟩ := ⟨hlocal, hnew⟩
  have hid : l.toNat < 2 ^ 31 := addressed_id_lt hm haddr
  have hrun : sendEvent r.provider g [] m = (.ok (), { m with
      orders := orders
      log := m.log ++ [.called g []] ++ [.sent (Packet.bytes
        ⟨l, none, some (BitVec.ofNat 32 (m.calls g).length), none, []⟩)] }) := by
    simp only [sendEvent, Act.bind_apply, Act.get_apply, hlocal, hnew, emit, Act.modify_apply,
      sendPacket, hnext]
    rw [transmit_short (Nat.zero_le _), Act.bind_apply, send_unreliable hid (by simp) (Nat.zero_le _)
      unreliable]
    simp only [Act.pure_apply, List.append_assoc]
  refine ⟨_, .step (.send g []) m _ hm ⟨?_, rfl⟩, ?_, ?_, ?_⟩
  · rw [perform, hrun]
    simp
  · rw [perform, hrun]
    exact stage
  · rw [perform, hrun]
  · rw [perform, hrun]
    simp [Endpoint.calls, Event.call?]

/-- A channel can be given any number of messages. -/
theorem send_many {r : Registry} {m : Endpoint} (hm : Reachable r.provider m)
    (stage : m.state = .transfer) {g l : U32} {channel : Channel}
    (addressed : m.localInner.localId .transfer g = some l)
    (kind : r.provider.byId g = some channel) (ordered : channel.isOrdered = true)
    (unreliable : channel.reliability = none) (n : Nat) :
    ∃ m', Reachable r.provider m' ∧ m'.state = .transfer ∧
      m'.localInner.localId .transfer g = some l ∧
      m'.calls g = m.calls g ++ List.replicate n [] := by
  induction n with
  | zero => exact ⟨m, hm, stage, addressed, (List.append_nil _).symm⟩
  | succ n ih =>
    obtain ⟨m1, hm1, hst1, haddr1, hcalls1⟩ := ih
    obtain ⟨m2, hm2, hst2, hinner, hcalls2⟩ :=
      send_another hm1 hst1 haddr1 kind ordered unreliable
    refine ⟨m2, hm2, hst2, hinner ▸ haddr1, ?_⟩
    rw [hcalls2, hcalls1, List.append_assoc, ← List.replicate_succ']

/-- One message after the other arrives under the orders of 64 bits and is handed on. -/
def arrivals : Nat → Nat → List (Op 64 Bytes)
  | _, 0 => []
  | i, n + 1 => .push (BitVec.ofNat 64 i) [] :: .retain :: arrivals (i + 1) n

theorem arrivals_handed_on {n i : Nat} {vec : List (Option Bytes)} (idle : vec = [] ∨ vec = [none])
    (small : i + n < 2 ^ 64) (s : List Bytes) :
    ∃ flags vec', operate collect (arrivals i n) ⟨vec, i, 0, 8⟩ s =
        some (flags, ⟨vec', i + n, 0, 8⟩, s ++ List.replicate n []) := by
  induction n generalizing i vec s with
  | zero => exact ⟨[], vec, by simp [arrivals, operate]⟩
  | succ n ih =>
    have hi : (BitVec.ofNat 64 i).toNat = i := by
      rw [BitVec.toNat_ofNat, Nat.mod_eq_of_lt (by omega)]
    have hpush : PacketOrderer.push ⟨vec, i, 0, 8⟩ i [] = .ok ⟨[some []], i, 0, 8⟩ :=
      idle_push idle (by decide) []
    have hret : retain collect ⟨[some []], i, 0, 8⟩ s =
        (.ok (), ⟨[none], i + 1, 0, 8⟩, s ++ [[]]) := by
      have husize : usizeModulus = 2 ^ 64 := rfl
      have hret : retain collect ⟨[some []], i, 0, 8⟩ s =
          (.ok (), ⟨[none], (i + 1) % usizeModulus, 0, 8⟩, s ++ [[]]) := retain_single rfl
      rwa [Nat.mod_eq_of_lt (by omega)] at hret
    obtain ⟨flags, vec', hrun⟩ := ih (Or.inr rfl) (by omega : i + 1 + n < 2 ^ 64) (s ++ [[]])
    refine ⟨true :: flags, vec', ?_⟩
    rw [arrivals, operate, hi, hpush]
    simp only [operate, hret, hrun, Option.map_some]
    rw [List.append_assoc, List.replicate_succ, Nat.add_right_comm i 1 n, Nat.add_assoc]
    rfl

/-- The built-in channels and an unreliable ordered one. -/
def voiceRegistry : Registry where
  toDefaultChannelProvider := DefaultChannelProvider.new.add "voice"
    { reliability := none, orderability := some ⟨8, eight_nonzero, eight_usize⟩, frequency := 1 }
    DefaultChannelProvider.new_fits
  all := _
  order := .refl _
  few := by decide

/-- A connection that has read the last registration packet of a peer without channels, and then
a packet of the transfer stage. -/
def voicing : Endpoint :=
  (performAll voiceRegistry.provider
    [.read 1 (registrationDatagram 0 (nameBytes "")), .read 1 [10]]
    (initializeConnection voiceRegistry.provider (.fresh 0)).2).getD (.fresh 0)

theorem voicing_reachable : Reachable voiceRegistry.provider voicing := by
  have opened : (initializeConnection voiceRegistry.provider (.fresh 0)).1 = .ok () := by
    decide +kernel
  have ran : performAll voiceRegistry.provider
      [.read 1 (registrationDatagram 0 (nameBytes "")), .read 1 [10]]
      (initializeConnection voiceRegistry.provider (.fresh 0)).2 ≠ none := by decide +kernel
  exact Reachable.performAll (.initialized 0 _ (eq_of_fst opened))
    (Option.getD_of_ne_none ran _).symm

theorem voicing_addressed : voicing.state = .transfer ∧
    voicing.localInner.localId .transfer 2 = some 1 ∧ voicing.calls 2 = [] := by
  decide +kernel

/-- Three messages were sent. -/
def voiced : Endpoint :=
  (performAll voiceRegistry.provider [.send 2 [1], .send 2 [2], .send 2 [3]] voicing).getD voicing

/-- The first of them arrives last. -/
def lateFirst : List (Op 64 Bytes) :=
  [.push 1 [2], .push 2 [3], .retain, .push 0 [1], .retain]

theorem next_order_expected_voicing :
    ∃ order, (nextOrder ⟨1, ⟨none, some ⟨8, eight_nonzero, eight_usize⟩, 1⟩⟩ voiced).1 =
      .ok (some order) ∧
      ((distance ⟨[none, none, none], 3, 0, 8⟩ order.toNat = 0 ∧
          ∃ o' o'' more, push ⟨[none, none, none], 3, 0, 8⟩ order.toNat [7] = .ok o' ∧
            retain collect o' [[1], [2], [3]] = (.ok (), o'', [[1], [2], [3]] ++ [7] :: more)) ↔
        (voiced.calls 2).length % 2 ^ 64 < 2 ^ 32) := by
  have ran : performAll voiceRegistry.provider [.send 2 [1], .send 2 [2], .send 2 [3]] voicing ≠
      none := by decide +kernel
  have reached : Reachable voiceRegistry.provider voiced :=
    voicing_reachable.performAll (Option.getD_of_ne_none ran _).symm
  have stage : voiced.state = .transfer := by decide +kernel
  have addressed : voiced.localInner.localId .transfer 2 = some 1 := by decide +kernel
  have received : operate collect lateFirst (new 8) [] =
      some ([true, true, true], ⟨[none, none, none], 3, 0, 8⟩, [[1], [2], [3]]) := by decide +kernel
  have all : [[1], [2], [3]].length = (voiced.calls 2).length := by decide +kernel
  exact next_order_expected_iff reached stage addressed rfl rfl received all [7]

/-- After `2 ^ 32` messages that were all handed on, the next one has order 0 again, which the
receiver refuses: it expects order `2 ^ 32`. -/
theorem wrapped_order_refused :
    ∃ (m : Endpoint) (flags : List Bool) (o : PacketOrderer),
      Reachable voiceRegistry.provider m ∧ m.state = .transfer ∧
      (m.calls 2).length = 2 ^ 32 ∧
      operate collect (arrivals 0 (2 ^ 32)) (new 8) [] = some (flags, o, m.calls 2) ∧
      o.buffer.next = BitVec.ofNat 64 (2 ^ 32) ∧
      (nextOrder ⟨1, ⟨none, some ⟨8, eight_nonzero, eight_usize⟩, 1⟩⟩ m).1 = .ok (some 0) ∧
      ∀ x, o.push 0 x = .err .capacityReached := by
  obtain ⟨stage, addressed, silent⟩ := voicing_addressed
  obtain ⟨m, hm, hst, haddr, hcalls⟩ :=
    send_many voicing_reachable stage addressed rfl rfl rfl (2 ^ 32)
  obtain ⟨flags, vec, hrun⟩ := arrivals_handed_on (n := 2 ^ 32) (i := 0) (Or.inl rfl) (by decide) []
  rw [silent] at hcalls
  have hlen : (m.calls 2).length = 2 ^ 32 := by
    rw [hcalls, List.nil_append, List.length_replicate]
  have hcount := hm.counted.counted 2 1 _ haddr rfl rfl
  rw [hlen] at hcount
  obtain ⟨orders, hnext⟩ : ∃ orders,
      nextOrder ⟨1, ⟨none, some ⟨8, eight_nonzero, eight_usize⟩, 1⟩⟩ m =
        (.ok (some (BitVec.ofNat 32 (2 ^ 32))), { m with orders := orders }) :=
    next_counted hst rfl hcount
  refine ⟨m, flags, _, hm, hst, hlen, hcalls ▸ hrun, rfl, ?_, fun x => ?_⟩
  · rw [hnext]
    rfl
  · have far : 8 ≤ (0 + usizeModulus - (0 + 2 ^ 32)) % usizeModulus := by decide
    have hfar : distance ⟨vec, 0 + 2 ^ 32, 0, 8⟩ 0 ≥ 8 := far
    rw [PacketOrderer.push, if_pos hfar]

end Theta
