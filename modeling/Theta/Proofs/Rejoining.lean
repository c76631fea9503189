import Theta.Proofs.Crowding
import Theta.Proofs.Opening

namespace Theta
open Lib Relation

/-- The bytes of a segment do not run over when they are read as order and resend key once more. -/
def rereads (kind : Channel) (segment : Bytes) : Bool :=
  match readOrderAndResendKey kind segment with
  | .panic => false
  | _ => true

/-- No segment of the message that this packet completes runs over. -/
def joinable (m : Endpoint) (inc : Incoming) : Bool :=
  match inc.header.segment with
  | some metadata =>
    match (PacketSegmentJoiner.add metadata inc.header.payload true m.joiner).1 with
    | .ok (some full) => full.all (rereads inc.channel.channel)
    | _ => true
  | none => true

section
variable {kind : Channel} {segment : Bytes} {full : List Bytes}

theorem strip_segment_returns (h : rereads kind segment = true) :
    ∃ rest, (stripSegment kind segment : Outcome Unit _) = .ok rest := by
  unfold rereads at h
  unfold stripSegment
  cases hr : readOrderAndResendKey kind segment with
  | ok r => exact ⟨r.2, rfl⟩
  | err e => exact ⟨[], rfl⟩
  | panic =>
    rw [hr] at h
    cases h

theorem strip_segments_return (h : full.all (rereads kind) = true) :
    ∃ parts, (full.mapM (stripSegment kind) : Outcome Unit _) = .ok parts := by
  induction full with
  | nil => exact ⟨[], rfl⟩
  | cons segment rest ih =>
    rw [List.all_cons, Bool.and_eq_true] at h
    obtain ⟨part, hpart⟩ := strip_segment_returns h.1
    obtain ⟨parts, hparts⟩ := ih h.2
    exact ⟨part :: parts, by simp [List.mapM_cons, hpart, hparts]⟩

/-- A full packet is joined unless one of its segments runs over. -/
theorem join_segments_returns (nonempty : full ≠ []) (h : full.all (rereads kind) = true) :
    joinSegments kind full ≠ .panic := by
  cases full with
  | nil => exact absurd rfl nonempty
  | cons first rest =>
    rw [List.all_cons, Bool.and_eq_true] at h
    obtain ⟨hfirst, hrest⟩ := h
    obtain ⟨parts, hparts⟩ := strip_segments_return hrest
    unfold rereads at hfirst
    rw [joinSegments]
    cases hr : readOrderAndResendKey kind first with
    | ok r => simp [hparts]
    | err e => simp
    | panic =>
      rw [hr] at hfirst
      cases hfirst

end

namespace PacketSegmentJoiner
variable {j j' : PacketSegmentJoiner} {metadata : PacketSegmentMetadata} {payload : Bytes}
  {entry : PacketSegments} {full : List Bytes} {pop : Bool}

theorem fill_full (h : j.fill metadata payload entry = .ok (some full, j')) : full ≠ [] := by
  unfold fill at h
  split at h
  · cases h
  split at h
  · cases h
  · cases h
  · rename_i slot
    obtain ⟨hlt, _⟩ := List.getElem?_eq_some_iff.mp slot
    split at h
    · cases h
    dsimp only at h
    split at h
    · obtain ⟨parts, hparts, hend⟩ := Outcome.bind_ok.mp h
      cases hend
      rintro rfl
      cases hset : entry.segments.set metadata.segment (some payload) with
      | nil =>
        have hlen := congrArg List.length hset
        rw [List.length_set, List.length_nil] at hlen
        omega
      | cons first rest =>
        rw [hset] at hparts
        cases first with
        | none => cases hparts
        | some part =>
          cases hrest : rest.mapM id with
          | none => simp [List.mapM_cons, hrest, Outcome.ofOption] at hparts
          | some parts => simp [List.mapM_cons, hrest, Outcome.ofOption] at hparts
    · cases h

theorem add_full (h : (add metadata payload pop j).1 = .ok (some full)) : full ≠ [] := by
  cases he : j.entry metadata pop with
  | ok r =>
    rw [add_of_entry he] at h
    cases hf : r.2.fill metadata payload r.1 with
    | ok r' =>
      obtain ⟨full', j'⟩ := r'
      rw [hf] at h
      cases h
      exact fill_full hf
    | err e =>
      rw [hf] at h
      cases h
    | panic =>
      rw [hf] at h
      cases h
  | err e =>
    simp only [add, Act.bind_apply, Act.get_apply, Act.lift_apply, he] at h
    cases h
  | panic =>
    simp only [add, Act.bind_apply, Act.get_apply, Act.lift_apply, he] at h
    cases h

/-- A segment with an index below its count is taken or refused. -/
theorem add_returns (h : j.Sound) (valid : metadata.segment < metadata.segmentCount) :
    (add metadata payload pop j).1 ≠ .panic := by
  have filled {j' : PacketSegmentJoiner} {segments : PacketSegments}
      (he : j.entry metadata pop = .ok (segments, j')) (sound : segments.Sound) :
      (add metadata payload pop j).1 ≠ .panic := by
    rw [add_of_entry he]
    rcases fill_cases j' metadata payload sound with
      ⟨_, hf⟩ | ⟨_, late, _⟩ | ⟨_, _, ⟨_, _, hf⟩ | ⟨_, _, _, hf⟩ | ⟨_, _, _, _, hf⟩⟩
    · simp [hf]
    · omega
    · simp [hf]
    · simp [hf]
    · simp [hf]
  rcases entry_cases j metadata pop with ⟨segments, hget, he⟩ | ⟨_, _, _, he⟩ | ⟨_, j', _, he⟩
  · exact filled he (h _ (get_entry_mem hget))
  · simp [add, Act.bind_apply, he]
  · exact filled he (empty_entry_sound metadata (by omega))

end PacketSegmentJoiner

section
variable {p : ChannelProvider} {m m' : Endpoint}

/-- What a joiner is given by a datagram that is handled without a panic, it takes. -/
theorem receive_returns {channel : Channel} {header : PacketHeader}
    (hret : (receive channel header m).1 ≠ .panic) (h : m.joiner.Sound) :
    (receive channel header m).2.joiner.Sound := by
  rw [receive_joined, PacketHeader.joined]
  cases hs : header.segment with
  | none => exact h
  | some metadata =>
    refine PacketSegmentJoiner.add_sound h fun he => hret ?_
    have panics : addSegment metadata header.payload m = (.panic, { m with
        joiner := (PacketSegmentJoiner.add metadata header.payload true m.joiner).2 }) := by
      unfold addSegment
      rcases hadd : PacketSegmentJoiner.add metadata header.payload true m.joiner with ⟨_, joiner⟩
      rw [hadd] at he
      cases he
      rfl
    rw [receive, hs]
    exact congrArg Prod.fst (Act.bind_of_panic panics)

theorem handle_message_sound {now : Nat} {d : Bytes} (hc : m.Compact)
    (hret : (handleMessage p now d m).1 ≠ .panic) (h : m.joiner.Sound) :
    (handleMessage p now d m).2.joiner.Sound := by
  have hread : (readPacket p d m).2.joiner.Sound := by
    rw [same_joiner (s := delivering) id (read_packet_moves trivial m)]
    exact h
  unfold handleMessage at hret ⊢
  refine Act.bind_returns (P := fun t : Endpoint => t.joiner.Sound) hret (fun _ => hread)
    fun inc hinc hret => ?_
  have hack : (acknowledgeIfNeeded d inc.header.resendKey (readPacket p d m).2).2.joiner.Sound := by
    rw [same_joiner id (acknowledge_acknowledging (read_packet_compact hc) hinc)]
    exact hread
  refine Act.bind_returns (P := fun t : Endpoint => t.joiner.Sound) hret (fun _ => hack)
    fun _ _ hret => ?_
  refine Act.bind_returns (P := fun t : Endpoint => t.joiner.Sound) hret
    (fun hret => receive_returns hret hack) fun message hmessage _ => ?_
  have received := receive_returns (by rw [hmessage]; simp) hack
  cases message with
  | none => exact received
  | some message =>
    obtain ⟨_, time, hend⟩ := touch_ends
      (deliver p inc.globalChannelId inc.channel message.1 message.2) _ now
    rw [hend]
    show (deliver p inc.globalChannelId inc.channel message.1 message.2 _).2.joiner.Sound
    rw [same_joiner id (deliver_delivering p inc.globalChannelId inc.channel message.1 message.2 _)]
    exact received

/-- The joiner of a connection is sound. -/
theorem Reachable.sound (h : Reachable p m) : m.joiner.Sound := by
  induction h with
  | initialized now m h =>
    obtain ⟨_, _, _, _, rfl⟩ := initialize_opened h
    exact fun e he => absurd he List.not_mem_nil
  | step input m m' before h ih =>
    obtain ⟨hret, rfl⟩ := h
    have hc := before.passed.compact
    cases input with
    | read now d => exact handle_message_sound hc hret ih
    | tick delta =>
      have same : (perform p (.tick delta) m).2.joiner = m.joiner := update_connection_joiner hc
      rw [same]
      exact ih
    | send channel payload =>
      have same : (perform p (.send channel payload) m).2.joiner = m.joiner := send_event_joiner
      rw [same]
      exact ih

/-- A valid packet is joined or kept, unless a segment runs over. -/
theorem receive_valid {inc : Incoming} (h : m.joiner.Sound)
    (indexed : ∀ x, inc.header.segment = some x → x.segment < x.segmentCount)
    (joins : joinable m inc = true) :
    (receive inc.channel.channel inc.header m).1 ≠ .panic := by
  unfold receive
  unfold joinable at joins
  cases hs : inc.header.segment with
  | none => simp
  | some metadata =>
    rw [hs] at joins
    dsimp only at joins ⊢
    have returns : (PacketSegmentJoiner.add metadata inc.header.payload true m.joiner).1 ≠ .panic :=
      PacketSegmentJoiner.add_returns h (indexed metadata hs)
    simp only [Act.bind_apply, addSegment]
    rcases hadd : PacketSegmentJoiner.add metadata inc.header.payload true m.joiner with
      ⟨full, joiner⟩
    rw [hadd] at joins returns
    cases full with
    | err e => simp [Outcome.mapErr]
    | panic => exact absurd rfl returns
    | ok full =>
      cases full with
      | none => simp [Outcome.mapErr]
      | some full =>
        have nonempty := PacketSegmentJoiner.add_full (congrArg Prod.fst hadd)
        have joined := join_segments_returns nonempty joins
        simp only [Outcome.mapErr, decoding, Act.bind_apply, Act.lift_apply]
        cases hj : joinSegments inc.channel.channel full with
        | ok message => simp
        | err e => simp
        | panic => exact absurd hj joined

end

end Theta
