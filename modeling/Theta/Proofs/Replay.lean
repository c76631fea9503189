import Theta.Proofs.Lifetime
import Theta.Proofs.Rejection

namespace Theta
open Lib Relation

/-- The registration stage reads a packet the same way whatever else it knows. -/
theorem parse_registration {p : ChannelProvider} {received : Bool} {lastKey : Option SlotMapKey}
    {mapper : ConnectionIdMapperInner} {primary : PrimaryPacketMetadata} {payload : Bytes} :
    parsePacket p (.registration received lastKey) mapper primary payload =
      parsePacket p .default {} primary payload := rfl

/-- A recorded datagram of the registration stage is of no use in the transfer stage, and one
recorded in the present stage still reads as its key. -/
def Stale (p : ChannelProvider) (m : Endpoint) (key : SlotMapKey) (d : Bytes) : Prop :=
  ∃ primary payload, PrimaryPacketMetadata.decode d = .ok (primary, payload) ∧
    ((ConnectionIdMapperInner.registrationId primary.channelId ≠ none ∧
      (m.state = .transfer ∨ (key ∈ m.resendKeyDuplicateChecker.set ∧
        ∃ inc, parsePacket p .default {} primary payload = .ok inc ∧
          inc.header.resendKey = some key))) ∨
    (m.state = .transfer ∧ key ∈ m.resendKeyDuplicateChecker.set ∧
      ∃ inc, parsePacket p .transfer m.notLocalInner primary payload = .ok inc ∧
        inc.header.resendKey = some key))

section
variable {p : ChannelProvider} {m m' : Endpoint} {key : SlotMapKey} {d : Bytes}

theorem Stale.kept (h : Stale p m key d)
    (hstate : m.state = .transfer → m'.state = .transfer ∧ m'.notLocalInner = m.notLocalInner)
    (hset : ∀ k ∈ m.resendKeyDuplicateChecker.set, k ∈ m'.resendKeyDuplicateChecker.set) :
    Stale p m' key d := by
  obtain ⟨primary, payload, hd, ⟨hid, hst | ⟨hmem, hkey⟩⟩ | ⟨hst, hmem, hkey⟩⟩ := h
  · exact ⟨primary, payload, hd, Or.inl ⟨hid, Or.inl (hstate hst).1⟩⟩
  · exact ⟨primary, payload, hd, Or.inl ⟨hid, Or.inr ⟨hset _ hmem, hkey⟩⟩⟩
  · exact ⟨primary, payload, hd, Or.inr ⟨(hstate hst).1, hset _ hmem, (hstate hst).2 ▸ hkey⟩⟩

/-- Leaving the registration stage clears the checker, but also the use of its packets. -/
theorem Stale.switched (h : Stale p m key d) {lastKey : Option SlotMapKey}
    (hst : m.state = .registration true lastKey) : Stale p m.switched key d := by
  obtain ⟨primary, payload, hd, ⟨hid, _⟩ | ⟨htr, _⟩⟩ := h
  · exact ⟨primary, payload, hd, Or.inl ⟨hid, Or.inl rfl⟩⟩
  · rw [hst] at htr
    cases htr

/-- A key is recorded for a datagram that the present stage reads. -/
theorem stale_recorded (h : ReadsKey p m key d)
    (hmem : key ∈ m'.resendKeyDuplicateChecker.set) (hstate : m'.state = m.state)
    (hmap : m'.notLocalInner = m.notLocalInner) : Stale p m' key d := by
  obtain ⟨inc, hread, hkey⟩ := h
  cases hd : PrimaryPacketMetadata.decode d with
  | err e => exact absurd (congrArg Prod.fst hread) ((read_packet_undecoded (by simp [hd])).2 inc)
  | panic => exact absurd (congrArg Prod.fst hread) ((read_packet_undecoded (by simp [hd])).2 inc)
  | ok r =>
    obtain ⟨primary, payload⟩ := r
    refine ⟨primary, payload, hd, ?_⟩
    obtain ⟨m1, _, heq⟩ : ∃ m1, _ ∧ readPacket p d m = _ := read_packet_decoded hd
    rw [hread, Prod.mk.injEq] at heq
    obtain ⟨hparse, rfl⟩ := heq
    cases hst : m.state with
    | transfer =>
      rw [hst] at hparse
      exact Or.inr ⟨hstate.trans hst, hmem, inc, hmap ▸ hparse.symm, hkey⟩
    | registration received lastKey =>
      rw [hst, parse_registration] at hparse
      refine Or.inl ⟨fun hnone => ?_, Or.inr ⟨hmem, inc, hparse.symm, hkey⟩⟩
      simp [parsePacket, resolveChannel, ConnectionState.default,
        ConnectionIdMapperInner.globalId, hnone] at hparse

def AllStale (p : ChannelProvider) (m : Endpoint) : Prop :=
  ∀ key d, .recorded key d ∈ m.log → Stale p m key d

theorem Move.all_stale {s : Scope} (hr : ∀ m key d, s.records m key d → ReadsKey p m key d)
    (h : Move s m m') (hm : AllStale p m) : AllStale p m' := by
  intro key d hrec
  have kept (hlog : .recorded key d ∈ m.log)
      (hstate : m.state = .transfer → m'.state = .transfer ∧ m'.notLocalInner = m.notLocalInner)
      (hset : ∀ k ∈ m.resendKeyDuplicateChecker.set, k ∈ m'.resendKeyDuplicateChecker.set) :=
    (hm key d hlog).kept hstate hset
  cases h with
  | switch lastKey hst _ => exact (hm key d hrec).switched hst
  | record k d' hk _ =>
    rcases List.mem_append.mp hrec with hlog | hnew
    · exact kept hlog (fun h => ⟨h, rfl⟩) (fun _ hk => List.mem_cons_of_mem _ hk)
    · cases List.mem_singleton.mp hnew
      exact stale_recorded (hr _ _ _ hk) List.mem_cons_self rfl rfl
  | confirm received k hst _ =>
    exact kept (by simpa using hrec) (by simp [hst]) (fun _ => id)
  | finish received lastKey hst _ => exact kept hrec (by simp [hst]) (fun _ => id)
  | register received lastKey _ _ _ _ hst _ _ => exact kept hrec (by simp [hst]) (fun _ => id)
  | _ => exact kept (by simpa using hrec) (fun h => ⟨h, rfl⟩) (fun _ => id)

theorem Passed.all_stale (h : Passed p m) : AllStale p m := by
  have frame {m m' : Endpoint} (hm : AllStale p m)
      (hlog : ∀ key d, .recorded key d ∈ m'.log → .recorded key d ∈ m.log)
      (hstate : m'.state = .transfer ↔ m.state = .transfer)
      (hset : m'.resendKeyDuplicateChecker = m.resendKeyDuplicateChecker)
      (hmap : m'.notLocalInner = m.notLocalInner) : AllStale p m' := fun key d hrec =>
    (hm key d (hlog key d hrec)).kept (fun hst => ⟨hstate.mpr hst, hmap⟩)
      (fun _ hk => hset ▸ hk)
  refine h.invariant (fun now key d hrec => by cases hrec) (fun m m' hs hm => ?_)
    (fun m m' hw hm => ?_)
  · cases hs with
    | move _ h => exact h.all_stale (fun _ _ _ => False.elim) hm
    | prepare => exact frame hm (fun _ _ => id) .rfl rfl rfl
    | await received lastKey k d' hst _ => exact frame hm (fun _ _ => id) (by simp [hst]) rfl rfl
  · cases hw with
    | move _ h => exact h.all_stale (fun _ _ _ => id) hm
    | request => exact frame hm (fun _ _ hrec => by simpa using hrec) .rfl rfl rfl
    | count => exact frame hm (fun _ _ hrec => by simpa using hrec) .rfl rfl rfl
    | abandon => exact frame hm (fun _ _ hrec => by simpa using hrec) .rfl rfl rfl

theorem handle_message_duplicate {inc : Incoming} (hread : readPacket p d m = (.ok inc, m))
    (hkey : inc.header.resendKey = some key) (hmem : key ∈ m.resendKeyDuplicateChecker.set)
    (now : Nat) : handleMessage p now d m = (.err .packetDuplicateDetected, m) := by
  rw [handleMessage, Act.bind_of_ok hread]
  refine Act.bind_of_err ?_
  rw [hkey, acknowledge_known hmem]

theorem registration_id_large {id : U32} (h : ConnectionIdMapperInner.registrationId id ≠ none) :
    2 ^ 31 - 2 ≤ id.toNat := by
  unfold ConnectionIdMapperInner.registrationId at h
  split at h
  · rename_i hid
    rcases hid with rfl | rfl <;> decide
  · exact absurd rfl h

/-- Reading a stale datagram once more changes nothing: the transfer stage rejects those of the
registration stage, and the others are duplicates. -/
theorem Stale.rejected (h : Stale p m key d)
    (few : m.notLocalInner.localIdToGlobalId.length < 2 ^ 31 - 2) (now : Nat) :
    ∃ e, handleMessage p now d m = (.err e, m) := by
  obtain ⟨primary, payload, hd, hcase⟩ := h
  have settled (hn : ¬ Speculates m primary.channelId) :
      readPacket p d m = (parsePacket p m.state m.notLocalInner primary payload, m) := by
    obtain ⟨m1, ⟨hs, _⟩ | ⟨_, rfl⟩, hread⟩ : ∃ m1, _ ∧ readPacket p d m = _ :=
      read_packet_decoded hd
    · exact absurd hs hn
    · exact hread
  rcases hcase with ⟨hid, hrest⟩ | ⟨hst, hmem, inc, hparse, hkey⟩
  · have hread := settled (fun hs => hid hs.2)
    cases hst : m.state with
    | transfer =>
      -- An id of the registration stage is beyond every registered channel.
      have hlarge := registration_id_large hid
      have hnone : m.notLocalInner.localIdToGlobalId[primary.channelId.toNat]? = none :=
        List.getElem?_eq_none (by omega)
      refine ⟨.unknownChannel, ?_⟩
      rw [handle_message_rejected (e := .unknownChannel), hread]
      rw [hread, hst]
      simp [parsePacket, resolveChannel, ConnectionIdMapperInner.globalId, hnone]
    | registration received lastKey =>
      rcases hrest with htr | ⟨hmem, inc, hparse, hkey⟩
      · rw [hst] at htr
        cases htr
      · rw [hst, parse_registration, hparse] at hread
        exact ⟨_, handle_message_duplicate hread hkey hmem now⟩
  · have hread := settled (not_speculates_transfer hst)
    rw [hst, hparse] at hread
    exact ⟨_, handle_message_duplicate hread hkey hmem now⟩

/-- A copy of a recorded datagram is rejected at any later point and leaves no trace. -/
theorem replay_rejected (hm : Reachable p m)
    (few : m.notLocalInner.localIdToGlobalId.length < 2 ^ 31 - 2)
    (recorded : .recorded key d ∈ m.log) (now : Nat) :
    ∃ e, handleMessage p now d m = (.err e, m) :=
  (hm.passed.all_stale key d recorded).rejected few now

end

/-- A connection that has gone over to the transfer stage after the whole registration. -/
def transferred : Endpoint := (handleMessage builtinProvider 1 [10] completed).2

theorem transferred_reachable : Reachable builtinProvider transferred :=
  .step (.read 1 [10]) completed transferred completed_reachable ⟨by decide +kernel, rfl⟩

/-- The first registration packet is rejected also after the stage was left. -/
theorem replay_rejected_transferred :
    ∃ e, handleMessage builtinProvider 2 (announced.datagrams.headD []) transferred =
      (.err e, transferred) :=
  have recorded : .recorded ⟨0, 0⟩ (announced.datagrams.headD []) ∈ transferred.log := by
    decide +kernel
  replay_rejected transferred_reachable (by decide +kernel) recorded 2

end Theta
