import Theta.Proofs.Atomicity
import Theta.Proofs.Joiner
import Theta.Proofs.Keys

namespace Theta
open Lib Relation

theorem chunks_prefix {size : Nat} (payload : Bytes) (n : Nat) :
    ((List.range n).map (fun i => (payload.drop (i * size)).take size)).flatten =
      payload.take (n * size) := by
  induction n with
  | zero => simp
  | succ n ih =>
    rw [List.range_succ, List.map_append, List.flatten_append, ih, Nat.succ_mul, List.take_add]
    simp

/-- The chunks of a payload make up the payload. -/
theorem chunks_flatten {size : Nat} (hs : 0 < size) (payload : Bytes) :
    (chunks size payload).flatten = payload := by
  rw [chunks, chunks_prefix, List.take_of_length_le]
  have hdiv := Nat.div_add_mod (payload.length + size - 1) size
  have hmod := Nat.mod_lt (payload.length + size - 1) hs
  rw [Nat.mul_comm] at hdiv
  omega

section
variable {channel : Channel} {payload rest : Bytes} {x : Option U32 × Option SlotMapKey}

theorem read_order_and_key_shorter (h : readOrderAndResendKey channel payload = .ok (x, rest)) :
    rest.length ≤ payload.length ∧
      (channel.isOrdered = true ∨ channel.isReliable = true → rest.length < payload.length) := by
  unfold readOrderAndResendKey at h
  cases ho : channel.isOrdered with
  | false =>
    cases hr : channel.isReliable with
    | false =>
      simp only [ho, hr, Bool.false_eq_true, ↓reduceIte, Outcome.ok_bind] at h
      cases h
      simp
    | true =>
      simp only [ho, hr, Bool.false_eq_true, ↓reduceIte, Outcome.ok_bind] at h
      cases hk : SlotMapKey.decode payload with
      | err e => simp [hk] at h
      | panic => simp [hk] at h
      | ok k =>
        have hlt := SlotMapKey.decode_shorter hk
        simp only [hk, Outcome.ok_bind] at h
        cases h
        exact ⟨Nat.le_of_lt hlt, fun _ => hlt⟩
  | true =>
    simp only [ho, ↓reduceIte] at h
    cases hd : VarInt.decode 32 payload with
    | err e => simp [hd] at h
    | panic => simp [hd] at h
    | ok o =>
      obtain ⟨order, payload'⟩ := o
      have hlt := VarInt.decode_shorter hd
      simp only [hd, Outcome.ok_bind] at h
      cases hr : channel.isReliable with
      | false =>
        simp only [hr, Bool.false_eq_true, ↓reduceIte] at h
        cases h
        exact ⟨Nat.le_of_lt hlt, fun _ => hlt⟩
      | true =>
        simp only [hr, ↓reduceIte] at h
        cases hk : SlotMapKey.decode payload' with
        | err e => simp [hk] at h
        | panic => simp [hk] at h
        | ok k =>
          have hlt' := SlotMapKey.decode_shorter hk
          simp only [hk, Outcome.ok_bind] at h
          cases h
          exact ⟨by omega, fun _ => by omega⟩

theorem strip_shorter {segments stripped : List Bytes}
    (h : segments.mapM (stripSegment channel) = (.ok stripped : Outcome Unit _)) :
    stripped.flatten.length ≤ segments.flatten.length := by
  induction segments generalizing stripped with
  | nil =>
    cases h
    simp
  | cons segment later ih =>
    rw [List.mapM_cons, Outcome.bind_ok] at h
    obtain ⟨first, hfirst, h⟩ := h
    rw [Outcome.bind_ok] at h
    obtain ⟨others, hothers, h⟩ := h
    cases h
    have hle := ih hothers
    have hone : first.length ≤ segment.length := by
      unfold stripSegment at hfirst
      cases hd : readOrderAndResendKey channel segment with
      | ok r =>
        rw [hd] at hfirst
        cases hfirst
        exact (read_order_and_key_shorter hd).1
      | err e =>
        rw [hd] at hfirst
        cases hfirst
        exact Nat.zero_le _
      | panic =>
        rw [hd] at hfirst
        cases hfirst
    simp only [List.flatten_cons, List.length_append]
    omega

/-- The segments of an ordered or reliable channel lose bytes when they are joined: their
headers are stripped a second time. -/
theorem join_shorter {parts : List Bytes} {message : Option U32 × Bytes}
    (hkind : channel.isOrdered = true ∨ channel.isReliable = true)
    (h : joinSegments channel parts = .ok message) :
    message.2.length < parts.flatten.length := by
  unfold joinSegments at h
  cases parts with
  | nil => cases h
  | cons first later =>
    simp only [Outcome.bind_ok] at h
    obtain ⟨⟨⟨order, key⟩, firstPayload⟩, hfirst, stripped, hlater, h⟩ := h
    cases h
    have h1 := (read_order_and_key_shorter hfirst).2 hkind
    have h2 := strip_shorter hlater
    simp only [List.flatten_cons, List.length_append]
    omega

theorem strip_plain (ho : channel.isOrdered = false) (hr : channel.isReliable = false)
    (segments : List Bytes) :
    segments.mapM (stripSegment channel) = (.ok segments : Outcome Unit _) := by
  have one (segment : Bytes) : stripSegment channel segment = (.ok segment : Outcome Unit _) := by
    simp [stripSegment, readOrderAndResendKey, ho, hr]
  induction segments with
  | nil => rfl
  | cons segment later ih =>
    rw [List.mapM_cons, one, Outcome.ok_bind, ih]
    rfl

theorem join_plain (ho : channel.isOrdered = false) (hr : channel.isReliable = false)
    {parts : List Bytes} (hne : parts ≠ []) :
    joinSegments channel parts = .ok (none, parts.flatten) := by
  cases parts with
  | nil => exact absurd rfl hne
  | cons first later =>
    simp [joinSegments, readOrderAndResendKey, ho, hr, strip_plain ho hr]

end

/-- One segment of a packet. -/
def segmentPacket (channel : ConnectionChannel) (order : Option U32) (segmentKey : U32)
    (count i : Nat) (key : Option SlotMapKey) (part : Bytes) : Packet :=
  ⟨channel.localId, some ⟨segmentKey, i, count⟩, order, key, part⟩

section
variable {channel : ConnectionChannel} {order : Option U32} {m m' : Endpoint}

/-- The datagram that one packet goes out in. -/
theorem send_real_packet_sent {segment : Option PacketSegmentMetadata} {payload : Bytes}
    {key : Option SlotMapKey} (healthy : m.resender.packets.Healthy)
    (fits : m'.resender.packets.Fits) (ho : order.isSome = channel.channel.isOrdered)
    (h : sendRealPacket channel order segment payload m = (.ok key, m')) :
    m'.resender.packets.Healthy ∧
      m'.datagrams =
        m.datagrams ++ [Packet.bytes ⟨channel.localId, segment, order, key, payload⟩] ∧
      (Packet.Fits ⟨channel.localId, segment, order, key, payload⟩ channel.channel) := by
  rcases send_real_packet_cases channel order segment payload m with
    ⟨hr, _⟩ | ⟨hid, hseg, ⟨reliable, k, resender, packet, hkind, hadd, hget, he⟩ | ⟨hkind, he⟩⟩
  · rw [h] at hr
    exact absurd rfl (hr key)
  · rw [h] at he
    cases he
    have hslots := (PacketResender.add_ok hadd).2.2
    have hnew := SlotMap.get_add (k := k) healthy fits hslots
    rw [hget, if_pos rfl, Option.some.injEq] at hnew
    subst hnew
    refine ⟨SlotMap.add_healthy healthy hslots, ?_, hid, hseg, ho, ?_⟩
    · exact datagrams_append { m with resender := resender } _
    · simp [Channel.isReliable, hkind]
  · rw [h] at he
    cases he
    refine ⟨healthy, ?_, hid, hseg, ho, ?_⟩
    · exact datagrams_append m _
    · simp [Channel.isReliable, hkind]

/-- The datagrams of the segments, in their order. -/
theorem send_segments_sent {segmentKey : U32} {count i : Nat} {segments : List Bytes}
    {keys : List SlotMapKey} (healthy : m.resender.packets.Healthy)
    (fits : m'.resender.packets.Fits) (ho : order.isSome = channel.channel.isOrdered)
    (h : sendSegments channel order segmentKey count i segments m = (.ok keys, m')) :
    ∃ datagrams, m'.datagrams = m.datagrams ++ datagrams ∧ datagrams.length = segments.length ∧
      ∀ j part, segments[j]? = some part → ∃ key,
        (segmentPacket channel order segmentKey count (i + j) key part).Fits channel.channel ∧
        datagrams[j]? = some (segmentPacket channel order segmentKey count (i + j) key part).bytes := by
  induction segments generalizing i m keys with
  | nil =>
    cases h
    exact ⟨[], by simp, rfl, by simp⟩
  | cons segment rest ih =>
    rw [sendSegments] at h
    rcases hsend : sendRealPacket channel order (some ⟨segmentKey, i, count⟩) segment m with ⟨r, m1⟩
    cases r with
    | err e =>
      rw [Act.bind_of_err hsend] at h
      cases h
    | panic =>
      rw [Act.bind_of_panic hsend] at h
      cases h
    | ok key =>
      rw [Act.bind_of_ok hsend] at h
      rcases hrest : sendSegments channel order segmentKey count (i + 1) rest m1 with ⟨r, m2⟩
      cases r with
      | err e =>
        rw [Act.bind_of_err hrest] at h
        cases h
      | panic =>
        rw [Act.bind_of_panic hrest] at h
        cases h
      | ok later =>
        rw [Act.bind_of_ok hrest] at h
        cases h
        have grown : m1.resender.packets.generations.length ≤
            m'.resender.packets.generations.length := by
          have hmoves : ReflTransGen (Move unrestricted) m1
              (sendSegments channel order segmentKey count (i + 1) rest m1).2 :=
            send_segments_moves (i + 1) rest (fun _ _ _ _ => trivial) m1
          rw [hrest] at hmoves
          exact generations_le hmoves
        obtain ⟨healthy1, hone, hfits⟩ := send_real_packet_sent healthy
          (Nat.le_trans grown fits) ho hsend
        obtain ⟨datagrams, hall, hlen, hparts⟩ := ih healthy1 hrest
        refine ⟨_ :: datagrams, by rw [hall, hone, List.append_assoc]; rfl, by simp [hlen], ?_⟩
        intro j part hj
        cases j with
        | zero =>
          simp only [List.getElem?_cons_zero, Option.some.injEq] at hj
          subst hj
          exact ⟨key, hfits, rfl⟩
        | succ j =>
          rw [show i + (j + 1) = i + 1 + j by omega]
          exact hparts j part hj

/-- The parts that a long payload is sent in. -/
def parts (payload : Bytes) : List Bytes := chunks (maxPacketLen - maxPacketMetadataLen) payload

theorem parts_flatten (payload : Bytes) : (parts payload).flatten = payload :=
  chunks_flatten (by decide) payload

/-- Assigning an order changes nothing but the counters. -/
theorem next_order_assigned (assigned : (nextOrder channel m).1 = .ok order) :
    ∃ orders, nextOrder channel m = (.ok order, { m with orders := orders }) ∧
      order.isSome = channel.channel.isOrdered := by
  rcases next_order_cases channel m with hn | ⟨ho, hn⟩ | ⟨o, orders, ho, _, _, hn⟩
  · rw [hn] at assigned
    cases assigned
  · rw [hn] at assigned
    cases assigned
    exact ⟨m.orders, hn, ho.symm⟩
  · rw [hn] at assigned
    cases assigned
    exact ⟨orders, hn, ho.symm⟩

/-- The datagrams of a long payload: one for each part, with the order of the packet. -/
theorem send_packet_segments {payload : Bytes} {keys : List SlotMapKey}
    (healthy : m.resender.packets.Healthy) (fits : m'.resender.packets.Fits)
    (long : maxNonSegmentedPayloadLen < payload.length)
    (sent : sendPacket channel payload m = (.ok keys, m'))
    (assigned : (nextOrder channel m).1 = .ok order) :
    (channel.channel.isOrdered = false → order = none) ∧
    ∃ datagrams, m'.datagrams = m.datagrams ++ datagrams ∧
      datagrams.length = (parts payload).length ∧
      ∀ i part, (parts payload)[i]? = some part → ∃ key,
        (segmentPacket channel order m.segmentKeysCounter (parts payload).length i key part).Fits
          channel.channel ∧
        datagrams[i]? = some (segmentPacket channel order m.segmentKeysCounter
          (parts payload).length i key part).bytes := by
  obtain ⟨orders, hn, ho⟩ := next_order_assigned assigned
  refine ⟨fun hu => ?_, ?_⟩
  · rw [hu, Option.isSome_eq_false_iff, Option.isNone_iff_eq_none] at ho
    exact ho
  rw [sendPacket, Act.bind_of_ok hn, transmit, if_pos long] at sent
  simp only [Act.bind_apply, Act.get_apply, Act.modify_apply] at sent
  obtain ⟨datagrams, hall, hlen, hparts⟩ := send_segments_sent (m := { m with
    orders := orders
    segmentKeysCounter := m.segmentKeysCounter + 1 }) healthy fits ho sent
  refine ⟨datagrams, hall, hlen, fun i part hi => ?_⟩
  have hpart := hparts i part hi
  rw [Nat.zero_add] at hpart
  exact hpart

end

section
variable {p : ChannelProvider} {g segmentKey : U32} {channel : ConnectionChannel}
  {order : Option U32} {all : List Bytes} {r : Endpoint}

/-- A receiver that knows the channel and has some of the packet's segments. -/
structure Gathering (p : ChannelProvider) (g : U32) (channel : ConnectionChannel)
    (segmentKey : U32) (all : List Bytes) (arrived : Finset ℕ) (r : Endpoint) : Prop where
  compact : r.Compact
  resolves : resolveChannel p r.state r.notLocalInner channel.localId = .ok (g, channel)
  gathers : r.joiner.Gathers segmentKey all arrived
  within : arrived ⊆ Finset.range all.length

theorem Gathering.same {arrived later : Finset ℕ} {t : Endpoint}
    (h : Gathering p g channel segmentKey all arrived r) (same : SameReceipts r t)
    (compact : t.Compact) (gathers : t.joiner.Gathers segmentKey all later)
    (within : later ⊆ Finset.range all.length) :
    Gathering p g channel segmentKey all later t :=
  ⟨compact, by rw [same.state, same.notLocalInner]; exact h.resolves, gathers, within⟩

/-- A segment that arrives before the last one is kept, or lost to a failed acknowledgement. -/
theorem segment_arrives {arrived : Finset ℕ} {i : Nat} (now : Nat) {key : Option SlotMapKey} {part : Bytes}
    (h : Gathering p g channel segmentKey all arrived r) (hi : all[i]? = some part)
    (hnew : i ∉ arrived) (hmore : arrived.card + 1 < all.length)
    (fits : (segmentPacket channel order segmentKey all.length i key part).Fits channel.channel) :
    ∃ later, (later = arrived ∨ later = insert i arrived) ∧
      Gathering p g channel segmentKey all later (handleMessage p now
        (segmentPacket channel order segmentKey all.length i key part).bytes r).2 ∧
      (key = none → later = insert i arrived ∧ (handleMessage p now
        (segmentPacket channel order segmentKey all.length i key part).bytes r).1 = .ok ()) := by
  have hread := read_packet_bytes fits.id h.resolves fits
  have hack := acknowledge_acknowledging (d := (segmentPacket channel order segmentKey all.length
    i key part).bytes) (by rw [hread]; exact h.compact) (congrArg Prod.fst hread)
  rw [handleMessage, Act.bind_of_ok hread]
  rw [hread] at hack
  dsimp only [Packet.header, segmentPacket] at hack ⊢
  generalize Packet.bytes _ = d at hack ⊢
  rcases hacked : acknowledgeIfNeeded d key r with ⟨a, t⟩
  rw [hacked] at hack
  have hsame : SameReceipts r t := same_receipts acknowledging_quiet hack
  have hcompact : t.Compact := moves_compact hack h.compact
  have hjoiner : t.joiner.Gathers segmentKey all arrived := by
    rw [show t.joiner = r.joiner from same_joiner id hack]
    exact h.gathers
  have lost (hne : a ≠ .ok ()) : Gathering p g channel segmentKey all arrived t ∧ key ≠ none := by
    refine ⟨h.same hsame hcompact hjoiner h.within, ?_⟩
    rintro rfl
    cases hacked
    exact hne rfl
  cases a with
  | err e =>
    obtain ⟨hg, hkey⟩ := lost (by simp)
    rw [Act.bind_of_err hacked]
    exact ⟨arrived, Or.inl rfl, hg, fun hk => absurd hk hkey⟩
  | panic =>
    obtain ⟨hg, hkey⟩ := lost (by simp)
    rw [Act.bind_of_panic hacked]
    exact ⟨arrived, Or.inl rfl, hg, fun hk => absurd hk hkey⟩
  | ok _ =>
    obtain ⟨j, hadd, hj⟩ := PacketSegmentJoiner.add_keeps hjoiner hi hnew hmore
    have hrec : receive channel.channel ⟨some ⟨segmentKey, i, all.length⟩, order, key, part⟩ t =
        (.ok none, { t with joiner := j }) := by
      simp only [receive, Act.bind_apply, addSegment, hadd, Outcome.mapErr, Act.pure_apply]
    have hlt := (List.getElem?_eq_some_iff.mp hi).1
    rw [Act.bind_of_ok hacked, Act.bind_of_ok hrec]
    exact ⟨insert i arrived, Or.inr rfl, h.same ⟨hsame.state, hsame.notLocalInner, hsame.orderers,
      hsame.buffers⟩ hcompact hj (Finset.insert_subset (Finset.mem_range.mpr hlt) h.within),
      fun _ => ⟨rfl, rfl⟩⟩

/-- The datagrams are the segments of the packet. -/
def Carries (channel : ConnectionChannel) (order : Option U32) (segmentKey : U32)
    (all datagrams : List Bytes) : Prop :=
  ∀ i part, all[i]? = some part → ∃ key,
    (segmentPacket channel order segmentKey all.length i key part).Fits channel.channel ∧
    datagrams[i]? = some (segmentPacket channel order segmentKey all.length i key part).bytes

/-- The segments numbered by a list, each read at its own time. -/
def readings (clock : Nat → Nat) (datagrams : List Bytes) (arrivals : List Nat) : List Input :=
  arrivals.map (fun i => .read (clock i) (datagrams.getD i []))

/-- What has arrived before the last segment; without acknowledgements nothing is lost. -/
theorem segments_arrive {datagrams : List Bytes} (clock : Nat → Nat) {arrivals : List Nat}
    {arrived : Finset ℕ} (carries : Carries channel order segmentKey all datagrams)
    (h : Gathering p g channel segmentKey all arrived r) (nodup : arrivals.Nodup)
    (hnew : ∀ i ∈ arrivals, i ∉ arrived) (hin : ∀ i ∈ arrivals, i < all.length)
    (hmore : arrived.card + arrivals.length < all.length) :
    (∀ t, performAll p (readings clock datagrams arrivals) r = some t →
      ∃ later, later ⊆ arrived ∪ arrivals.toFinset ∧
        Gathering p g channel segmentKey all later t) ∧
    (channel.channel.isReliable = false →
      ∃ t, performAll p (readings clock datagrams arrivals) r = some t ∧
        Gathering p g channel segmentKey all (arrived ∪ arrivals.toFinset) t) := by
  induction arrivals generalizing arrived r with
  | nil =>
    simp only [List.toFinset_nil, Finset.union_empty]
    refine ⟨fun t ht => ?_, fun _ => ⟨r, rfl, h⟩⟩
    cases ht
    exact ⟨arrived, Finset.Subset.refl _, h⟩
  | cons i rest ih =>
    rw [List.nodup_cons] at nodup
    have hlt := hin i List.mem_cons_self
    have hpart : all[i]? = some all[i] := List.getElem?_eq_getElem hlt
    obtain ⟨key, fits, hd⟩ := carries i all[i] hpart
    rw [List.length_cons] at hmore
    obtain ⟨later, hlater, hg, hok⟩ := segment_arrives (clock i) h hpart
      (hnew i List.mem_cons_self) (by omega) fits
    have hget : datagrams.getD i [] =
        (segmentPacket channel order segmentKey all.length i key all[i]).bytes := by
      rw [List.getD_eq_getElem?_getD, hd]
      rfl
    rw [← hget] at hg hok
    have hcard : later.card ≤ arrived.card + 1 := by
      rcases hlater with rfl | rfl
      · exact Nat.le_succ _
      · exact Finset.card_insert_le i arrived
    have hsub : later ⊆ insert i arrived := by
      rcases hlater with rfl | rfl
      · exact Finset.subset_insert i _
      · exact Finset.Subset.refl _
    have hrest : ∀ j ∈ rest, j ∉ later := by
      intro j hj hmem
      rcases Finset.mem_insert.mp (hsub hmem) with rfl | hmem
      · exact nodup.1 hj
      · exact hnew j (List.mem_cons_of_mem _ hj) hmem
    have hnext := ih hg nodup.2 hrest (fun j hj => hin j (List.mem_cons_of_mem _ hj)) (by omega)
    have hunion : insert i arrived ∪ rest.toFinset = arrived ∪ (i :: rest).toFinset := by
      rw [List.toFinset_cons, Finset.insert_union, Finset.union_insert]
    rcases hstep : handleMessage p (clock i) (datagrams.getD i []) r with ⟨a, m⟩
    rw [hstep] at hnext hok
    have run (ha : a ≠ .panic) : performAll p (readings clock datagrams (i :: rest)) r =
        performAll p (readings clock datagrams rest) m := by
      rw [readings, List.map_cons, performAll, show perform p (.read (clock i)
        (datagrams.getD i [])) r = (a, m) from hstep]
      cases a with
      | panic => exact absurd rfl ha
      | ok _ => rfl
      | err _ => rfl
    constructor
    · intro t ht
      have ha : a ≠ .panic := by
        rintro rfl
        rw [readings, List.map_cons, performAll, show perform p (.read (clock i)
          (datagrams.getD i [])) r = (.panic, m) from hstep] at ht
        cases ht
      rw [run ha] at ht
      obtain ⟨final, hfinal, hgather⟩ := hnext.1 t ht
      refine ⟨final, ?_, hgather⟩
      rw [← hunion]
      exact hfinal.trans (Finset.union_subset_union_left hsub)
    · intro hr
      have hkey : key = none := by
        have hk := fits.key
        rw [hr, Option.isSome_eq_false_iff, Option.isNone_iff_eq_none] at hk
        exact hk
      obtain ⟨rfl, ha⟩ := hok hkey
      have ha : a = .ok () := ha
      rw [run (by simp [ha]), ← hunion]
      exact hnext.2 hr

theorem send_packet_generations (channel : ConnectionChannel) (payload : Bytes) (m : Endpoint) :
    m.resender.packets.generations.length ≤
      (sendPacket channel payload m).2.resender.packets.generations.length := by
  rw [sendPacket]
  rcases next_order_cases channel m with hn | ⟨_, hn⟩ | ⟨o, orders, _, _, _, hn⟩
  · rw [Act.bind_of_panic hn]
  · rw [Act.bind_of_ok hn]
    exact generations_le (transmit_sending channel none payload m)
  · rw [Act.bind_of_ok hn]
    have grown := generations_le (transmit_sending channel (some o) payload { m with orders := orders })
    exact grown

/-- A segment that completes its packet hands on what the joined parts are read as. -/
theorem completes_last {arrived : Finset ℕ} {last : Nat} {key : Option SlotMapKey} {part : Bytes}
    {message : Option U32 × Bytes} (h : Gathering p g channel segmentKey all arrived r)
    (hi : all[last]? = some part) (hnew : last ∉ arrived)
    (hc : completes r.joiner ⟨g, channel,
      (segmentPacket channel order segmentKey all.length last key part).header⟩ = some message) :
    joinSegments channel.channel all = .ok message := by
  have hlt := (List.getElem?_eq_some_iff.mp hi).1
  have hcard := PacketSegmentJoiner.card_lt_of_missing h.within hlt hnew
  simp only [completes, Packet.header, segmentPacket] at hc
  by_cases hlast : arrived.card + 1 = all.length
  · rw [PacketSegmentJoiner.add_completes h.gathers h.within hi hnew hlast] at hc
    dsimp only at hc
    split at hc
    · rename_i message' hjoin
      rw [hjoin, Option.some.inj hc]
    · cases hc
  · obtain ⟨j, hadd, _⟩ := PacketSegmentJoiner.add_keeps h.gathers hi hnew (by omega)
    rw [hadd] at hc
    cases hc

/-- The last segment hands on the sender's payload under its order exactly when no header was
written into the segments: on a channel that is neither ordered nor reliable. -/
theorem segments_round_trip_iff {q : ChannelProvider} {m m' : Endpoint} {payload : Bytes}
    {keys : List SlotMapKey} {datagrams : List Bytes} {clock : Nat → Nat} {arrivals : List Nat}
    {last : Nat} (sender : Reachable q m) (fits : m'.resender.packets.Fits)
    (long : maxNonSegmentedPayloadLen < payload.length)
    (sent : sendPacket channel payload m = (.ok keys, m'))
    (assigned : (nextOrder channel m).1 = .ok order)
    (emitted : m'.datagrams = m.datagrams ++ datagrams) (receiver : Reachable p r)
    (registered : resolveChannel p r.state r.notLocalInner channel.localId = .ok (g, channel))
    (free : r.joiner.getEntry m.segmentKeysCounter = none)
    (arrive : (arrivals ++ [last]).Perm (List.range datagrams.length)) :
    (∃ t inc t', performAll p (readings clock datagrams arrivals) r = some t ∧
      inc.globalChannelId = g ∧ inc.channel = channel ∧
      Reaches p (datagrams.getD last []) t inc order payload t') ↔
    (channel.channel.isOrdered = false ∧ channel.channel.isReliable = false) := by
  have grown := send_packet_generations channel payload m
  rw [sent] at grown
  have healthy := sender.passed.tidy (Nat.le_trans grown fits)
  obtain ⟨hunordered, emitted', hall, hlen, hcarries⟩ :=
    send_packet_segments healthy fits long sent assigned
  rw [emitted, List.append_cancel_left_eq] at hall
  subst hall
  have carries : Carries channel order m.segmentKeysCounter (parts payload) datagrams := hcarries
  have start : Gathering p g channel m.segmentKeysCounter (parts payload) ∅ r :=
    ⟨receiver.passed.compact, registered, free, Finset.empty_subset _⟩
  have hnodup := arrive.nodup_iff.mpr List.nodup_range
  rw [List.nodup_append] at hnodup
  obtain ⟨nodup, _, hdistinct⟩ := hnodup
  have hnew : last ∉ arrivals := fun hmem => hdistinct last hmem last (by simp) rfl
  have hbound {i : Nat} (hi : i ∈ arrivals ++ [last]) : i < (parts payload).length := by
    rw [← hlen]
    exact List.mem_range.mp (arrive.mem_iff.mp hi)
  have hlast : last < (parts payload).length := hbound (by simp)
  have hcount := arrive.length_eq
  rw [List.length_append, List.length_singleton, List.length_range, hlen] at hcount
  obtain ⟨some_run, plain_run⟩ := segments_arrive clock carries start nodup (by simp)
    (fun i hi => hbound (by simp [hi])) (by rw [Finset.card_empty]; omega)
  rw [Finset.empty_union] at some_run plain_run
  have hpart := List.getElem?_eq_getElem hlast
  obtain ⟨key, hfits, hd⟩ := carries last _ hpart
  have hget : datagrams.getD last [] = (segmentPacket channel order m.segmentKeysCounter
      (parts payload).length last key (parts payload)[last]).bytes := by
    rw [List.getD_eq_getElem?_getD, hd]
    rfl
  rw [hget]
  constructor
  · rintro ⟨t, inc, t', hrun, _, _, hreach⟩
    obtain ⟨later, hsub, hgather⟩ := some_run t hrun
    have hread := read_packet_bytes hfits.id hgather.resolves hfits
    have hinc := hreach.read
    rw [hread, Outcome.ok.injEq] at hinc
    subst hinc
    have hcomplete := (hreach.prepared (by rw [hread]; exact hgather.compact)).2.1
    rw [hread] at hcomplete
    have hjoin := completes_last hgather hpart
      (fun hmem => hnew (List.mem_toFinset.mp (hsub hmem))) hcomplete
    by_contra hkind
    have hshort := join_shorter (by
      cases ho : channel.channel.isOrdered with
      | true => exact Or.inl rfl
      | false =>
        cases hr : channel.channel.isReliable with
        | true => exact Or.inr rfl
        | false => exact absurd ⟨ho, hr⟩ hkind) hjoin
    rw [parts_flatten] at hshort
    exact Nat.lt_irrefl _ hshort
  · rintro ⟨ho, hr⟩
    obtain ⟨t, hrun, hgather⟩ := plain_run hr
    have hread := read_packet_bytes hfits.id hgather.resolves hfits
    have hkey : key = none := by
      have hk := hfits.key
      rw [hr, Option.isSome_eq_false_iff, Option.isNone_iff_eq_none] at hk
      exact hk
    subst hkey
    have hadd := PacketSegmentJoiner.add_completes hgather.gathers hgather.within hpart
      (fun hmem => hnew (List.mem_toFinset.mp hmem))
      (by rw [List.toFinset_card_of_nodup nodup]; exact hcount)
    have hne : parts payload ≠ [] := List.ne_nil_of_length_pos (by omega)
    have hjoin := join_plain ho hr hne
    rw [parts_flatten] at hjoin
    rcases hfull : PacketSegmentJoiner.add ⟨m.segmentKeysCounter, last, (parts payload).length⟩
      (parts payload)[last] true t.joiner with ⟨full, j⟩
    rw [hfull] at hadd
    dsimp only at hadd
    subst hadd
    refine ⟨t, _, { t with joiner := j }, hrun, rfl, rfl, congrArg Prod.fst hread, ?_, ?_⟩
    · rw [hread]
      rfl
    · rw [hread, hunordered ho]
      simp only [Packet.header, segmentPacket, acknowledgeIfNeeded, Act.pure_apply, receive,
        Act.bind_apply, addSegment, hfull, Outcome.mapErr, decoding, Act.lift_apply, hjoin]

end

/-- A provider with an ordered and reliable channel beside the built-in ones. -/
def chatProvider : ChannelProvider :=
  (DefaultChannelProvider.new.add "chat" chat.channel DefaultChannelProvider.new_fits).asProvider
    _ (.refl _)

def chatOpened : Endpoint := (initializeConnection chatProvider (.fresh 0)).2

/-- A connection that has handled a whole registration and then a transfer packet, an empty
acknowledgement. -/
def talking : Endpoint :=
  (performAll chatProvider (chatOpened.datagrams.map (.read 0) ++ [.read 1 [0, 5, 0]])
    chatOpened).getD chatOpened

theorem talking_reachable : Reachable chatProvider talking :=
  have opened : Reachable chatProvider chatOpened := .initialized 0 chatOpened (by decide +kernel)
  opened.performAll (Option.getD_of_ne_none (by decide +kernel) _).symm

def talk : ConnectionChannel := ⟨1, chat.channel⟩

/-- A payload of two segments whose bytes look like orders and keys. -/
def sevens : Bytes := List.replicate 1981 7

def talkedSevens : Endpoint := (sendPacket talk sevens talking).2

def sevensDatagrams : List Bytes := talkedSevens.datagrams.drop talking.datagrams.length

def talkedKeys : List SlotMapKey :=
  match (sendPacket talk sevens talking).1 with
  | .ok keys => keys
  | _ => []

theorem talked_sevens : sendPacket talk sevens talking = (.ok talkedKeys, talkedSevens) := by
  have sent : (sendPacket talk sevens talking).1 = .ok talkedKeys := by decide +kernel
  unfold talkedSevens
  exact eq_of_fst sent

theorem segments_round_trip_sevens :
    (∃ t inc t', performAll chatProvider (readings (fun _ => 2) sevensDatagrams [0]) talking =
        some t ∧ inc.globalChannelId = 2 ∧ inc.channel = talk ∧
      Reaches chatProvider (sevensDatagrams.getD 1 []) t inc (some 0) sevens t') ↔
    (talk.channel.isOrdered = false ∧ talk.channel.isReliable = false) := by
  have fits : talkedSevens.resender.packets.Fits := by
    unfold SlotMap.Fits
    decide +kernel
  have long : maxNonSegmentedPayloadLen < sevens.length := by decide +kernel
  have assigned : (nextOrder talk talking).1 = .ok (some 0) := by decide +kernel
  have emitted : talkedSevens.datagrams = talking.datagrams ++ sevensDatagrams := by
    decide +kernel
  have registered : resolveChannel chatProvider talking.state talking.notLocalInner talk.localId =
      .ok (2, talk) := by decide +kernel
  have free : talking.joiner.getEntry talking.segmentKeysCounter = none := by decide +kernel
  have arrive : ([0] ++ [1]).Perm (List.range sevensDatagrams.length) := by decide +kernel
  exact segments_round_trip_iff talking_reachable fits long talked_sevens assigned emitted
    talking_reachable registered free arrive

/-- The receiver after the first of the two segments. -/
def halfway : Endpoint := (handleMessage chatProvider 2 (sevensDatagrams.getD 0 []) talking).2

/-- What the receiver reads of the second segment. -/
def secondSeven : Incoming :=
  ⟨2, talk, ⟨some ⟨0, 1, 2⟩, some 0, talkedKeys[1]?, List.replicate 12 7⟩⟩

/-- The second segment completes a message that has lost six bytes and takes order 7 from the
payload, where the sender gave it order 0. -/
theorem sevens_mangled :
    Reachable chatProvider talking ∧ (nextOrder talk talking).1 = .ok (some 0) ∧
      sendPacket talk sevens talking = (.ok talkedKeys, talkedSevens) ∧
      talking.joiner.getEntry talking.segmentKeysCounter = none ∧
      (handleMessage chatProvider 2 (sevensDatagrams.getD 0 []) talking).1 = .ok () ∧
      (readPacket chatProvider (sevensDatagrams.getD 1 []) halfway).1 = .ok secondSeven ∧
      completes halfway.joiner secondSeven = some (some 7, List.replicate 1975 7) ∧
      ∀ t, ¬ Reaches chatProvider (sevensDatagrams.getD 1 []) halfway secondSeven (some 0) sevens
        t := by
  have returns : (handleMessage chatProvider 2 (sevensDatagrams.getD 0 []) talking).1 = .ok () := by
    decide +kernel
  have mangled : completes (readPacket chatProvider (sevensDatagrams.getD 1 []) halfway).2.joiner
      secondSeven = some (some 7, List.replicate 1975 7) := by decide +kernel
  have compact : halfway.Compact := by
    unfold Endpoint.Compact
    decide +kernel
  refine ⟨talking_reachable, by decide +kernel, talked_sevens, by decide +kernel, returns,
    by decide +kernel, by decide +kernel, fun t h => ?_⟩
  have handed := (h.prepared (read_packet_compact compact)).2.1
  rw [mangled, Option.some.injEq, Prod.mk.injEq] at handed
  exact absurd handed.1 (by decide)

end Theta
