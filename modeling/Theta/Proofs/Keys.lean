import Theta.Proofs.Lifetime
import Theta.Proofs.Resender

namespace Theta
open Lib Relation

section
variable {m m' : Endpoint}

/-- Slots are never given back. -/
theorem Move.generations_le {s : Scope} (h : Move s m m') :
    m.resender.packets.generations.length ≤ m'.resender.packets.generations.length := by
  cases h with
  | issue _ _ _ _ _ _ _ _ _ _ add _ =>
    exact SlotMap.add_generations_le (PacketResender.add_ok add).2.2
  | release _ _ _ remove _ =>
    have hgen := (SlotMap.remove_cases (PacketResender.remove_ok remove).2).2.1
    exact Nat.le_of_eq (congrArg List.length hgen.symm)
  | clock _ _ _ _ _ visited =>
    exact Nat.le_of_eq (congrArg List.length (SlotMap.retain_generations visited).symm)
  | _ => exact Nat.le_refl _

theorem generations_le {s : Scope} (h : ReflTransGen (Move s) m m') :
    m.resender.packets.generations.length ≤ m'.resender.packets.generations.length := by
  induction h with
  | refl => exact Nat.le_refl _
  | tail _ h ih => exact Nat.le_trans ih h.generations_le

theorem Work.generations_le {p : ChannelProvider} (h : Work p m m') :
    m.resender.packets.generations.length ≤ m'.resender.packets.generations.length := by
  cases h with
  | move _ h => exact h.generations_le
  | _ => exact Nat.le_refl _

/-- While the slots fit their indices, the resender's slot map is healthy. -/
def Tidy (m : Endpoint) : Prop := m.resender.packets.Fits → m.resender.packets.Healthy

theorem Move.tidy {s : Scope} (h : Move s m m') (hm : Tidy m) : Tidy m' := by
  intro fits
  have healthy := hm (Nat.le_trans h.generations_le fits)
  cases h with
  | issue _ _ _ _ _ _ _ _ _ _ add _ =>
    exact SlotMap.add_healthy healthy (PacketResender.add_ok add).2.2
  | switch => exact SlotMap.clear_healthy
  | release _ _ _ remove _ => exact SlotMap.remove_healthy healthy (PacketResender.remove_ok remove).2
  | clock _ _ _ _ _ visited =>
    have fits : m.resender.packets.Fits := by
      rw [SlotMap.Fits, ← SlotMap.retain_generations visited]
      exact fits
    exact (PacketResender.clock_cases healthy fits visited).1
  | _ => exact healthy

theorem Passed.tidy {p : ChannelProvider} (h : Passed p m) : Tidy m := by
  refine h.invariant (fun _ _ => SlotMap.healthy_empty) (fun m m' hs hm => ?_) (fun m m' hw hm => ?_)
  · cases hs with
    | move _ h => exact h.tidy hm
    | _ => exact hm
  · cases hw with
    | move _ h => exact h.tidy hm
    | _ => exact hm

end

end Theta
