import Theta.Util.SlotMap

namespace Theta
open Lib

structure ReliableBufferedPacket where
  payload : Bytes
  resendInterval : U32
  resendAttempts : U32
  currentTime : U32
  deriving DecidableEq, Repr

def ReliableBufferedPacket.new (payload : Bytes) (resendInterval resendAttempts : U32) :
    ReliableBufferedPacket :=
  ⟨payload, resendInterval, resendAttempts, 0⟩

inductive PacketResenderError where
  | capacityReached
  deriving DecidableEq, Repr

structure PacketResender where
  packets : SlotMap ReliableBufferedPacket := {}
  capacity : Nat := 0
  deriving DecidableEq, Repr

namespace PacketResender

def add (r : PacketResender) (func : SlotMapKey → ReliableBufferedPacket) :
    Outcome PacketResenderError (SlotMapKey × PacketResender) :=
  if r.packets.len = r.capacity then .err .capacityReached
  else do
    let (key, packets) ← r.packets.add (fun key => some (func key))
    .ok (key, { r with packets := packets })

/-- One visit of `update`; the sum of the clocks panics past `u32::MAX`. -/
def visit (delta : U32) (func : ReliableBufferedPacket → Act σ ε Unit)
    (packet : ReliableBufferedPacket) : Act σ ε (ReliableBufferedPacket × Bool) :=
  if packet.currentTime.toNat + delta.toNat < 2 ^ 32 then
    let packet := { packet with currentTime := packet.currentTime + delta }
    if packet.currentTime ≥ packet.resendInterval then
      let packet := { packet with currentTime := 0 }
      if packet.resendAttempts ≠ 0 then do
        let packet := { packet with resendAttempts := packet.resendAttempts - 1 }
        func packet
        pure (packet, packet.resendAttempts = 0)
      else pure (packet, true)
    else pure (packet, false)
  else Act.abort

def update (r : PacketResender) (delta : U32) (func : ReliableBufferedPacket → Act σ ε Unit) :
    Act σ ε PacketResender := do
  let packets ← r.packets.retainIf (visit delta func)
  pure { r with packets := packets }

def remove (r : PacketResender) (id : SlotMapKey) :
    Outcome ε (Option ReliableBufferedPacket × PacketResender) := do
  let (packet, packets) ← r.packets.remove id
  .ok (packet, { r with packets := packets })

end PacketResender

end Theta
