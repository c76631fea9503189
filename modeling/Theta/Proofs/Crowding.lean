import Theta.Proofs.Entries
import Theta.Proofs.Receipts

namespace Theta
open Lib Relation

namespace PacketSegmentJoiner

/-- A segment given to the joiner as `handle_message` gives it: what the joiner is afterwards, also
when the call comes to an error or a panic. -/
def feed (j : PacketSegmentJoiner) (segment : PacketSegmentMetadata × Bytes) :
    Option PacketSegmentJoiner :=
  some (add segment.1 segment.2 true j).2

/-- The joiner holds no more unfinished messages than it has capacity for, or one. -/
def Bounded (j : PacketSegmentJoiner) : Prop := j.map.length ≤ max j.capacity 1

/-- A joiner without capacity, where the equality test finds no reason to make room, already holds
a message, and the segment starts another one that it does not complete. -/
def crowds (j : PacketSegmentJoiner) (metadata : PacketSegmentMetadata) : Bool :=
  j.capacity = 0 && j.map ≠ [] && (j.getEntry metadata.segmentKey).isNone &&
    !(metadata.segmentCount = 1 && metadata.segment = 0)

section
variable {j j' : PacketSegmentJoiner} {key : U32} {segments : PacketSegments}
  {metadata : PacketSegmentMetadata} {payload : Bytes} {pop : Bool}

/-- What filling an entry may do to the map, whether the entry is sound or not. -/
theorem fill_ends (j : PacketSegmentJoiner) (metadata : PacketSegmentMetadata) (payload : Bytes)
    (segments : PacketSegments) :
    (∀ r, j.fill metadata payload segments ≠ .ok r) ∨
    (∃ parts, j.fill metadata payload segments =
      .ok (some parts, j.removeEntry metadata.segmentKey)) ∨
    ∃ segments', j.fill metadata payload segments =
      .ok (none, j.setEntry metadata.segmentKey segments') := by
  unfold fill
  split
  · simp
  · split
    · simp
    · simp
    · split
      · simp
      · dsimp only
        split
        · cases (segments.segments.set metadata.segment (some payload)).mapM id with
          | none => exact Or.inl (by simp [Outcome.ofOption])
          | some parts => exact Or.inr (Or.inl ⟨parts, rfl⟩)
        · exact Or.inr (Or.inr ⟨_, rfl⟩)

/-- The map that an addition leaves, once the entry is found. -/
theorem add_ends (payload : Bytes) (h : j.entry metadata pop = .ok (segments, j')) :
    (add metadata payload pop j).2 = j' ∨
    (add metadata payload pop j).2 = j'.removeEntry metadata.segmentKey ∨
    ∃ segments', (add metadata payload pop j).2 = j'.setEntry metadata.segmentKey segments' := by
  rw [add_of_entry h]
  rcases fill_ends j' metadata payload segments with hf | ⟨parts, hf⟩ | ⟨segments', hf⟩
  · left
    cases hfill : j'.fill metadata payload segments with
    | ok r => exact absurd hfill (hf r)
    | err e => rfl
    | panic => rfl
  · rw [hf]
    exact Or.inr (Or.inl rfl)
  · rw [hf]
    exact Or.inr (Or.inr ⟨segments', rfl⟩)

theorem add_capacity (metadata : PacketSegmentMetadata) (payload : Bytes) (pop : Bool)
    (j : PacketSegmentJoiner) : (add metadata payload pop j).2.capacity = j.capacity := by
  have ends {j' : PacketSegmentJoiner} {segments : PacketSegments}
      (he : j.entry metadata pop = .ok (segments, j')) (h : j'.capacity = j.capacity) :
      (add metadata payload pop j).2.capacity = j.capacity := by
    rcases add_ends payload he with hend | hend | ⟨_, hend⟩ <;> rw [hend] <;> exact h
  rcases entry_cases j metadata pop with ⟨_, _, he⟩ | ⟨_, _, _, he⟩ | ⟨_, j', hj', he⟩
  · exact ends he rfl
  · simp [add, Act.bind_apply, he]
  · refine ends he ?_
    rcases hj' with ⟨_, rfl⟩ | ⟨_, rfl⟩ <;> rfl

theorem feed_all_capacity (segments : List (PacketSegmentMetadata × Bytes))
    (j : PacketSegmentJoiner) : (stepAll feed segments j).capacity = j.capacity := by
  induction segments generalizing j with
  | nil => rfl
  | cons segment rest ih =>
    rw [stepAll, ih]
    exact add_capacity segment.1 segment.2 true j

theorem remove_length_le (j : PacketSegmentJoiner) (key : U32) :
    (j.removeEntry key).map.length ≤ j.map.length := List.length_filter_le _ _

theorem set_length_known (h : j.getEntry key = some segments) (segments' : PacketSegments) :
    (j.setEntry key segments').map.length ≤ j.map.length := by
  have hlt : (j.map.filter (fun e => e.1 != key)).length < j.map.length := by
    rw [List.length_filter_lt_length_iff_exists]
    exact ⟨_, get_entry_mem h, by simp⟩
  exact hlt

theorem set_length_new (h : j.getEntry key = none) (segments' : PacketSegments) :
    (j.setEntry key segments').map.length = j.map.length + 1 := by
  have hall : j.map.filter (fun e => e.1 != key) = j.map := by
    rw [List.filter_eq_self]
    intro e he
    rw [getEntry, List.lookup_eq_none_iff] at h
    have hne := h e he
    simpa using fun heq => by simp [heq] at hne
  simp only [setEntry, List.length_cons, hall]

theorem pop_get_none (h : j.getEntry key = none) : j.popFirst.getEntry key = none := by
  rw [getEntry, List.lookup_eq_none_iff] at h ⊢
  exact fun e he => h e (List.mem_of_mem_tail he)

/-- A segment that starts a message leaves the joiner one entry longer, or completes it at once. -/
theorem add_new_length (payload : Bytes) (he : j.entry metadata pop =
      .ok (emptyEntry metadata, j'.setEntry metadata.segmentKey (emptyEntry metadata)))
    (new : j'.getEntry metadata.segmentKey = none) :
    if metadata.segmentCount = 1 ∧ metadata.segment = 0 then
      (add metadata payload pop j).2.map.length ≤ j'.map.length
    else (add metadata payload pop j).2.map.length = j'.map.length + 1 := by
  have hset := set_length_new new (emptyEntry metadata)
  have hagain (segments' : PacketSegments) : ((j'.setEntry metadata.segmentKey
      (emptyEntry metadata)).setEntry metadata.segmentKey segments').map.length =
        j'.map.length + 1 := by
    have hdrop : (j'.setEntry metadata.segmentKey (emptyEntry metadata)).map.filter
        (fun e => e.1 != metadata.segmentKey) =
          j'.map.filter (fun e => e.1 != metadata.segmentKey) := by
      simp [setEntry]
    rw [setEntry, List.length_cons, hdrop, ← hset]
    rfl
  have hremove : ((j'.setEntry metadata.segmentKey (emptyEntry metadata)).removeEntry
      metadata.segmentKey).map.length ≤ j'.map.length := by
    have hle := List.length_filter_le (fun e : U32 × PacketSegments => e.1 != metadata.segmentKey)
      j'.map
    simpa [removeEntry, setEntry] using hle
  rw [add_of_entry he]
  by_cases late : metadata.segmentCount ≤ metadata.segment
  · rw [fill_empty_late late, if_neg (by omega)]
    exact hset
  have sound := empty_entry_sound metadata (by omega)
  have counted : (emptyEntry metadata).nonFilled = metadata.segmentCount := rfl
  rcases fill_cases (j'.setEntry metadata.segmentKey (emptyEntry metadata)) metadata payload sound with
    ⟨hne, _⟩ | ⟨_, hlate, _⟩ | ⟨_, _, ⟨part, hpart, _⟩ | ⟨_, hone, _, hf⟩ | ⟨_, hmore, _, _, hf⟩⟩
  · simp [emptyEntry] at hne
  · exact absurd hlate late
  · have hmem := List.mem_of_getElem? hpart
    simp [emptyEntry] at hmem
  · rw [hf, if_pos (by omega)]
    exact hremove
  · rw [hf, if_neg (by omega)]
    exact hagain _

/-- One segment keeps the bound exactly when it does not crowd the joiner. -/
theorem feed_bounded_iff (h : j.Bounded) (payload : Bytes) :
    (add metadata payload true j).2.Bounded ↔ j.crowds metadata = false := by
  unfold Bounded at h ⊢
  rw [add_capacity]
  rcases entry_cases j metadata true with ⟨segments, hget, he⟩ | ⟨_, _, hpop, _⟩ |
    ⟨hnone, j', hj', he⟩
  · refine iff_of_true ?_ (by simp [crowds, hget])
    rcases add_ends payload he with hend | hend | ⟨segments', hend⟩
    · rwa [hend]
    · rw [hend]
      exact Nat.le_trans (remove_length_le _ _) h
    · rw [hend]
      exact Nat.le_trans (set_length_known hget segments') h
  · cases hpop
  have hcrowds : j.crowds metadata = false ↔ ¬ (j.capacity = 0 ∧ j.map ≠ [] ∧
      ¬ (metadata.segmentCount = 1 ∧ metadata.segment = 0)) := by
    simp [crowds, hnone]
  have new : j'.getEntry metadata.segmentKey = none := by
    rcases hj' with ⟨_, rfl⟩ | ⟨_, rfl⟩
    · exact pop_get_none hnone
    · exact hnone
  have room : (j.capacity = j.map.length ∧ j'.map.length = j.map.length - 1) ∨
      (j.capacity ≠ j.map.length ∧ j'.map.length = j.map.length) := by
    rcases hj' with ⟨hfull, rfl⟩ | ⟨hroom, rfl⟩
    · exact Or.inl ⟨hfull, List.length_tail⟩
    · exact Or.inr ⟨hroom, rfl⟩
  have hempty : j.map ≠ [] ↔ j.map.length ≠ 0 := by simp
  have hlength := add_new_length payload he new
  rw [hcrowds, hempty]
  split at hlength <;> omega

/-- Segments keep the joiner of a new connection bounded exactly when none of them crowds it. -/
theorem joiner_bounded_iff (now : Nat) (segments : List (PacketSegmentMetadata × Bytes)) :
    AtEach feed (fun _ _ j => j.Bounded) segments (Endpoint.fresh now).joiner ↔
      AtEach feed (fun j segment _ => j.crowds segment.1 = false) segments
        (Endpoint.fresh now).joiner := by
  refine at_each_iff (I := Bounded) (fun j segment j' h hfeed => ?_) (by simp [Bounded, Endpoint.fresh])
  obtain rfl := Option.some.inj hfeed
  exact ⟨feed_bounded_iff h segment.2, id⟩

/-- The second message of which only a part arrives is one too many. -/
theorem joiner_unbounded :
    ¬ AtEach feed (fun _ _ j => j.Bounded) [(⟨0, 0, 2⟩, [7]), (⟨1, 0, 2⟩, [8])]
      (Endpoint.fresh 0).joiner := by
  rintro ⟨_, bounded, _⟩
  revert bounded
  unfold Bounded
  decide

end

end PacketSegmentJoiner

section
variable {p : ChannelProvider} {m : Endpoint}

/-- The joiner after a packet with this header was received. -/
def PacketHeader.joined (header : PacketHeader) (j : PacketSegmentJoiner) : PacketSegmentJoiner :=
  match header.segment with
  | some metadata => (PacketSegmentJoiner.add metadata header.payload true j).2
  | none => j

theorem receive_joined (channel : Channel) (header : PacketHeader) (m : Endpoint) :
    (receive channel header m).2 = { m with joiner := header.joined m.joiner } := by
  unfold receive PacketHeader.joined
  cases header.segment with
  | none => rfl
  | some metadata =>
    simp only [Act.bind_apply, addSegment]
    rcases PacketSegmentJoiner.add metadata header.payload true m.joiner with ⟨full, joiner⟩
    cases full with
    | err e => rfl
    | panic => rfl
    | ok full =>
      cases full with
      | none => rfl
      | some full =>
        simp only [Outcome.mapErr, decoding, Act.bind_apply, Act.lift_apply]
        cases joinSegments channel full <;> rfl

/-- The joiner was given at most one segment. -/
def Endpoint.Joins (m t : Endpoint) : Prop :=
  t.joiner = m.joiner ∨ ∃ header : PacketHeader, t.joiner = header.joined m.joiner

/-- A datagram gives the joiner the segment that it carries, or nothing. -/
theorem handle_message_joined (now : Nat) (d : Bytes) (hc : m.Compact) :
    m.Joins (handleMessage p now d m).2 := by
  have hread : (readPacket p d m).2.joiner = m.joiner :=
    same_joiner (s := delivering) id (read_packet_moves trivial m)
  unfold handleMessage
  refine Act.bind_ends (P := m.Joins) (fun _ _ _ => Or.inl hread) (fun inc hinc => ?_)
  have hack := same_joiner id (acknowledge_acknowledging (read_packet_compact hc) hinc)
  refine Act.bind_ends (P := m.Joins) (fun _ _ _ => Or.inl (hack.trans hread)) (fun _ _ => ?_)
  right
  refine ⟨inc.header, ?_⟩
  rw [← hread, ← hack]
  have hreceive := receive_joined inc.channel.channel inc.header
    (acknowledgeIfNeeded d inc.header.resendKey (readPacket p d m).2).2
  refine Act.bind_ends (P := fun t : Endpoint => t.joiner = inc.header.joined _)
    (fun _ _ _ => by rw [hreceive]) (fun message _ => ?_)
  cases message with
  | none => exact congrArg (fun t : Endpoint => t.joiner) hreceive
  | some message =>
    have hdeliver := same_joiner id (deliver_delivering p inc.globalChannelId inc.channel
      message.1 message.2 (receive inc.channel.channel inc.header
        (acknowledgeIfNeeded d inc.header.resendKey (readPacket p d m).2).2).2)
    rw [hreceive] at hdeliver
    obtain ⟨_, time, hend⟩ := touch_ends
      (deliver p inc.globalChannelId inc.channel message.1 message.2) _ now
    rw [hend, hreceive]
    exact hdeliver

/-- Only datagrams give the joiner anything. -/
theorem update_connection_joiner {delta : U32} (hc : m.Compact) :
    (updateConnection delta m).2.joiner = m.joiner := by
  have ticked : ReflTransGen (Move flushing) m (updateConnection delta m).2 :=
    update_connection_moves hc (fun _ => ⟨rfl, rfl⟩)
  exact same_joiner id ticked

theorem send_event_joiner {channel : U32} {payload : Bytes} :
    (sendEvent p channel payload m).2.joiner = m.joiner := by
  refine send_event_ends (P := fun t => t.joiner = m.joiner) rfl (fun _ => rfl) ?_
  exact fun kind order t ht => (same_joiner id (transmit_sending kind order payload t)).trans ht

theorem perform_joined (input : Input) (hc : m.Compact) : m.Joins (perform p input m).2 := by
  cases input with
  | read now d => exact handle_message_joined now d hc
  | tick delta => exact Or.inl (update_connection_joiner hc)
  | send channel payload => exact Or.inl send_event_joiner

/-- The joiner of a connection is what the segments given to it have made of a new one. -/
theorem Reachable.fed (h : Reachable p m) : ∃ segments,
    m.joiner = stepAll PacketSegmentJoiner.feed segments (Endpoint.fresh 0).joiner := by
  induction h with
  | initialized now m h =>
    refine ⟨[], ?_⟩
    have setup := initialize_setup p now
    rw [h] at setup
    refine invariant_of_step (P := fun m => m.joiner = (Endpoint.fresh 0).joiner)
      (fun m m' hs hm => ?_) setup rfl
    cases hs with
    | move _ hmove => exact (hmove.same_joiner id).trans hm
    | prepare => exact hm
    | await => exact hm
  | step input m m' before h ih =>
    obtain ⟨segments, hfed⟩ := ih
    have joined := perform_joined (p := p) input before.passed.compact
    rw [h.2] at joined
    rcases joined with hsame | ⟨header, hjoined⟩
    · exact ⟨segments, hsame.trans hfed⟩
    · cases hsegment : header.segment with
      | none =>
        rw [PacketHeader.joined, hsegment] at hjoined
        exact ⟨segments, hjoined.trans hfed⟩
      | some metadata =>
        rw [PacketHeader.joined, hsegment, hfed] at hjoined
        exact ⟨segments ++ [(metadata, header.payload)], by rw [step_all_append]; exact hjoined⟩

end

end Theta
