import Theta.Proofs.Agreement

namespace Theta
open Lib Relation

/-- A registration packet was handed to its handler, or its orderer holds it under its number. -/
def Accepted (m : Endpoint) (i : Nat) (payload : Bytes) : Prop :=
  .handed payload ∈ m.log ∨
    ∃ o, m.orderers.channelManagementRegistrationStage = some o ∧ o.view.held i = some payload

instance (m : Endpoint) (i : Nat) (payload : Bytes) : Decidable (Accepted m i payload) :=
  decidable_of_iff (.handed payload ∈ m.log ∨ (m.orderers.channelManagementRegistrationStage.any
    fun o => decide (o.view.held i = some payload)) = true) (by simp [Accepted, Option.any_eq_true])

section
variable {E : Prop} {p : ChannelProvider} {channels : List (String × U32)} {m m' : Endpoint}
  {i : Nat} {payload : Bytes}

theorem Accepted.later (h : Accepted m i payload) (log : m.log <+: m'.log)
    (slot : m'.orderers.channelManagementRegistrationStage =
      m.orderers.channelManagementRegistrationStage) : Accepted m' i payload := by
  rcases h with handed | ⟨o, ho, held⟩
  · exact Or.inl (log.subset handed)
  · exact Or.inr ⟨o, slot.trans ho, held⟩

/-- The packets before the next one were handed to the handler. -/
theorem Following.handled (h : Following E channels m)
    (place : (announcements channels)[i]? = some payload) (hi : i < m.handedPackets.length) :
    .handed payload ∈ m.log := by
  have hmem : payload ∈ m.handedPackets := by
    rw [h.handed]
    apply List.mem_of_getElem? (i := i)
    rw [List.getElem?_take_of_lt hi, place]
  obtain ⟨event, hevent, he⟩ := List.mem_filterMap.mp hmem
  cases event with
  | handed packet =>
    obtain rfl : packet = payload := Option.some.inj he
    exact hevent
  | _ => cases he

/-- Whoever has seen the end of a registration has accepted all of it. -/
theorem Following.complete_accepted (h : Following E channels m)
    (complete : ∀ lastKey, m.state ≠ .registration false lastKey)
    (place : (announcements channels)[i]? = some payload) : Accepted m i payload := by
  have hlt := (List.getElem?_eq_some_iff.mp place).1
  rw [announcements_length] at hlt
  left
  apply h.handled place
  rw [h.complete complete]
  exact hlt

/-- A registration packet that the orderer takes is accepted, and nothing accepted is lost. -/
theorem Agreeing.admit {g : U32} {o o' : PacketOrderer} (h : Agreeing E channels m)
    (shared : Shared p channels) (named : ∀ entry ∈ channels, entry.1 ≠ "")
    (hst : m.state ≠ .transfer) (place : (announcements channels)[i]? = some payload)
    (last : i = channels.length → E)
    (slot : m.orderers.channelManagementRegistrationStage = some o)
    (push : o.push (BitVec.ofNat 32 i : U32).toNat payload = .ok o') :
    ∃ m', Theta.deliver p g registrationChannel (some (BitVec.ofNat 32 i)) payload m = (.ok (), m') ∧
      m'.orderers.channelManagementRegistrationStage ≠ none ∧ Accepted m' i payload ∧
      ∀ j x, (announcements channels)[j]? = some x → Accepted m j x → Accepted m' j x := by
  have hfew := shared.few
  have hlt := (List.getElem?_eq_some_iff.mp place).1
  rw [announcements_length] at hlt
  have hi : (BitVec.ofNat 32 i : U32).toNat = i := SlotMap.index_of_fits (by omega)
  have taken : Following E channels (m.manage none) := ⟨h.handed, h.entered, h.complete, h.last⟩
  have before := h.orderer hst o slot
  obtain ⟨queued, hview⟩ := before.push place hi last push
  obtain ⟨o'', t, hrun, ht, _, _, hkept⟩ := @retain_following _ p _ _ g _ shared named taken
    queued rfl (PacketOrderer.push_inside before.bounded.sound push)
  have settled {j : Nat} {x : Bytes} (hx : (announcements channels)[j]? = some x)
      (held : o'.view.held j = some x) : Accepted (t.manage (some o'')) j x := by
    rcases hkept j x held with hheld | hdone
    · exact Or.inr ⟨o'', rfl, hheld⟩
    · exact Or.inl (ht.handled hx hdone)
  have hdeliver := deliver_managed_ok hst slot push hrun
  have grows : m.log <+: (t.manage (some o'')).log := by
    have moves : ReflTransGen (Move unrestricted) m
        (Theta.deliver p g registrationChannel (some (BitVec.ofNat 32 i)) payload m).2 :=
      deliver_moves trivial trivial (fun _ _ _ _ => trivial) trivial trivial m
    rw [hdeliver] at moves
    exact log_grows moves
  refine ⟨_, hdeliver, by simp [Endpoint.manage], settled place ?_, fun j x hx accepted => ?_⟩
  · rw [hview, Sequencer.held_accept]
  · rcases accepted with handed | ⟨_, ho, held⟩
    · exact Or.inl (grows.subset handed)
    · cases slot.symm.trans ho
      apply settled hx
      rw [hview]
      by_cases he : j = i
      · subst he
        rw [Sequencer.held_accept, ← place, hx]
      · rw [Sequencer.held_accept_ne he]
        exact held

end

end Theta
