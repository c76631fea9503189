import Mathlib.Logic.Function.Basic
import Theta.Net.Pair

namespace Theta
open Lib

namespace ConnectionChannelMessageSwapBuffer

/-- `take`: the effective vector and the given one change places. -/
def take (effective swap : List Bytes) : List Bytes × List Bytes := (swap, effective)

end ConnectionChannelMessageSwapBuffer

/-- A side whose application takes the messages out of the buffers: `swap` is what is left of the
vector that it drains, with the channel it was taken from, and `handled` everything that it has
drained. -/
structure Reader where
  peer : Peer := {}
  swap : Option (U32 × List Bytes) := none
  handled : U32 → List Bytes := fun _ => []

namespace Reader

/-- The vector is empty when the application takes the next one. -/
def take (channel : U32) (r : Reader) : Option Reader :=
  match r.swap with
  | some _ => none
  | none =>
    match r.peer.endpoint.buffers.get channel with
    | none => none
    | some effective =>
      let (effective, swap) := ConnectionChannelMessageSwapBuffer.take effective []
      let endpoint := { r.peer.endpoint with
        buffers := r.peer.endpoint.buffers.modify channel (fun _ => effective) }
      some { r with
        peer := { r.peer with endpoint := endpoint }
        swap := some (channel, swap) }

/-- The next message of the vector, or its end. -/
def next (r : Reader) : Option Reader :=
  match r.swap with
  | none => none
  | some (_, []) => some { r with swap := none }
  | some (channel, message :: rest) =>
    some { r with
      swap := some (channel, rest)
      handled := Function.update r.handled channel (r.handled channel ++ [message]) }

/-- What the vector still holds of a channel. -/
def holding (r : Reader) (channel : U32) : List Bytes :=
  match r.swap with
  | some (taken, rest) => if taken = channel then rest else []
  | none => []

/-- Everything that was taken out of the buffer of a channel. -/
def taken (r : Reader) (channel : U32) : List Bytes := r.handled channel ++ r.holding channel

/-- The event loop and the application work on the buffers in turn. -/
inductive Acts (registry : Registry) (r r' : Reader) : Prop where
  | peer (h : Theta.Acts registry anyInput r.peer r'.peer) (swap : r'.swap = r.swap)
      (handled : r'.handled = r.handled)
  | take (channel : U32) (h : r.take channel = some r')
  | next (h : r.next = some r')

end Reader

/-- A peer with its application. -/
def reader (registry : Registry) : Party Reader Bytes where
  acts := Reader.Acts registry
  reads datagram r r' := (∃ now, r.peer.call registry.provider (.read now datagram) = some r'.peer) ∧
    r'.swap = r.swap ∧ r'.handled = r.handled
  sent r := r.peer.endpoint.datagrams

/-- Two peers with their applications that started without a connection. -/
def Corresponding (P Q : Registry) (s : Reader × Reader) : Prop :=
  Relation.ReflTransGen (Party.Exchange (reader P) (reader Q)) ({}, {}) s

end Theta
