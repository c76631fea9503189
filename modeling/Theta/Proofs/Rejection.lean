import Theta.Proofs.Header

namespace Theta
open Lib

/-- The speculative switch was made for a datagram that the transfer stage
cannot place: its channel is not registered there or its header does not decode. -/
def Misjudged (p : ChannelProvider) (m : Endpoint) (d : Bytes) : Prop :=
  ∃ lastKey primary payload e, m.state = .registration true lastKey ∧
    PrimaryPacketMetadata.decode d = .ok (primary, payload) ∧
    ConnectionIdMapperInner.registrationId primary.channelId = none ∧
    parsePacket p .transfer m.notLocalInner primary payload = .err e

theorem switched_ne {m : Endpoint} (h : m.state ≠ .transfer) : m.switched ≠ m := by
  intro he
  have hs := congrArg (fun m : Endpoint => m.state) he
  exact h hs.symm

/-- A rejected header leaves the connection as it was exactly when the switch
was not made for it. -/
theorem rejected_header_unchanged_iff (p : ChannelProvider) (now : Nat) (d : Bytes)
    (m : Endpoint) :
    (∀ e, (readPacket p d m).1 = .err e → handleMessage p now d m = (.err e, m)) ↔
      ¬ Misjudged p m d := by
  constructor
  · rintro h ⟨lastKey, primary, payload, e, hs, hd, hid, hp⟩
    obtain ⟨m', hcase, hr⟩ : ∃ m', _ ∧ readPacket p d m = _ := read_packet_decoded hd
    rcases hcase with ⟨_, rfl⟩ | ⟨hn, _⟩
    · have he : (readPacket p d m).1 = .err e := by rw [hr]; exact hp
      have hkeep := h e he
      rw [handle_message_rejected he, hr] at hkeep
      exact switched_ne (by simp [hs]) (congrArg Prod.snd hkeep)
    · exact hn ⟨⟨lastKey, hs⟩, hid⟩
  · intro hm e he
    rw [handle_message_rejected he]
    congr 1
    cases hd : PrimaryPacketMetadata.decode d with
    | err _ => exact (read_packet_undecoded (by simp [hd])).1
    | panic => exact (read_packet_undecoded (by simp [hd])).1
    | ok r =>
      obtain ⟨primary, payload⟩ := r
      obtain ⟨m', hcase, hr⟩ : ∃ m', _ ∧ readPacket p d m = _ := read_packet_decoded hd
      rw [hr] at he ⊢
      rcases hcase with ⟨⟨⟨lastKey, hs⟩, hid⟩, rfl⟩ | ⟨_, rfl⟩
      · exact absurd ⟨lastKey, primary, payload, e, hs, hd, hid, he⟩ hm
      · rfl

/-- A connection that has handled the whole registration of the other side. -/
def completed : Endpoint :=
  (performAll builtinProvider (announced.datagrams.map (.read 0)) announced).getD announced

theorem completed_reachable : Reachable builtinProvider completed :=
  announced_reachable.performAll (Option.getD_of_ne_none (by decide +kernel) _).symm

/-- A datagram on the unknown channel 5 moves a completed registration to the
transfer stage and clears its resender. -/
theorem unknown_channel_switches :
    Reachable builtinProvider completed ∧
      (readPacket builtinProvider [10] completed).1 = .err .unknownChannel ∧
      (handleMessage builtinProvider 1 [10] completed).2 ≠ completed ∧
      (handleMessage builtinProvider 1 [10] completed).2.state = .transfer ∧
      completed.resender.packets.len = 3 ∧
      (handleMessage builtinProvider 1 [10] completed).2.resender.packets.len = 0 :=
  ⟨completed_reachable, by decide +kernel, by decide +kernel, by decide +kernel,
    by decide +kernel, by decide +kernel⟩

end Theta
