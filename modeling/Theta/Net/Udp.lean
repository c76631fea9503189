import Theta.Lib.Table
import Theta.Net.Run

namespace Theta
open Lib

def deltaMin : Nat := 25
def connectionTimeout : Nat := 30000

inductive UdpEvent (Addr : Type) where
  | read (payload : Bytes) (addr : Addr)
  | closeConnection (addr : Addr)
  | closeServer
  | connect (addr : Addr)
  | send (channel : U32) (payload : Bytes) (addr : Addr)
  deriving DecidableEq, Repr

/-- The shared buffers of a connection are named by their number. -/
inductive UdpConnectionEvent (Addr : Type) where
  | connected (addr : Addr) (buffer : Nat)
  | timedOut (addr : Addr)
  deriving DecidableEq, Repr

/-- A connection with the number of its buffers, and the number of events that had been pushed
when it was made. -/
structure Client where
  connection : Endpoint
  buffer : Nat
  since : Nat
  deriving DecidableEq, Repr

/-- The variables of the event loop; instants are milliseconds. -/
structure EventLoop (Addr : Type) where
  connections : Table Addr Client
  time0 : Nat
  buffer : List (Addr × Bytes) := []
  newConnections : List (UdpConnectionEvent Addr) := []
  buffers : Nat := 0
  closed : Bool := false

namespace EventLoop
variable {Addr : Type} [DecidableEq Addr]

def start (now : Nat) : EventLoop Addr := { connections := .empty, time0 := now }

/-- What a call has given to the packet sender of an address. -/
def posted (addr : Addr) (before after : Endpoint) : List (Addr × Bytes) :=
  (after.datagrams.drop before.datagrams.length).map (addr, ·)

/-- The connection of an address after a call, with the event of a change to the transfer stage. -/
def put (s : EventLoop Addr) (addr : Addr) (client : Client) (transferBefore : Bool)
    (before after : Endpoint) : EventLoop Addr :=
  { s with
    connections := s.connections.insert addr { client with connection := after }
    buffer := s.buffer ++ posted addr before after
    newConnections :=
      if !transferBefore && after.state = .transfer then
        s.newConnections ++ [.connected addr client.buffer]
      else s.newConnections }

/-- A default connection is inserted and initialized, and forgotten when that fails. -/
def makeConnection (provider : ChannelProvider) (created : Nat) (addr : Addr) (s : EventLoop Addr) :
    Option (EventLoop Addr × Option Client) :=
  let default := Endpoint.fresh created
  let s' := { s with buffers := s.buffers + 1 }
  match initializeConnection provider default with
  | (.ok _, m) =>
    let client : Client := ⟨m, s.buffers, s.newConnections.length⟩
    some ({ s' with
      connections := s.connections.insert addr client
      buffer := s.buffer ++ posted addr default m }, some client)
  | (.err _, m) => some ({ s' with buffer := s.buffer ++ posted addr default m }, none)
  | (.panic, _) => none

/-- A datagram of a live connection; an error is only logged. -/
def readMessage (provider : ChannelProvider) (now : Nat) (addr : Addr) (payload : Bytes)
    (transferBefore : Bool) (client : Client) (s : EventLoop Addr) : Option (EventLoop Addr) :=
  match handleMessage provider now payload client.connection with
  | (.panic, _) => none
  | (_, m) => some (s.put addr client transferBefore client.connection m)

/-- One event; a panic ends the loop. -/
def handleEvent (provider : ChannelProvider) (created now : Nat) (s : EventLoop Addr) :
    UdpEvent Addr → Option (EventLoop Addr)
  | .read payload addr =>
    match s.connections.get addr with
    | some client =>
      s.readMessage provider now addr payload (client.connection.state = .transfer) client
    | none =>
      match s.makeConnection provider created addr with
      | some (s, some client) =>
        s.readMessage provider now addr payload ((Endpoint.fresh created).state = .transfer) client
      | some (s, none) => some s
      | none => none
  | .closeConnection addr => some { s with connections := s.connections.remove addr }
  | .closeServer => some { s with closed := true }
  | .connect addr =>
    match s.connections.get addr with
    | some _ => some s
    | none => (s.makeConnection provider created addr).map Prod.fst
  | .send channel payload addr =>
    match s.connections.get addr with
    | none => some s
    | some client =>
      match sendEvent provider channel payload client.connection with
      | (.panic, _) => none
      | (_, m) =>
        some (s.put addr client (client.connection.state = .transfer) client.connection m)

/-- One connection of a maintenance tick: its address is noted, or it is updated. -/
def maintain (delta : U32) (time0 : Nat) (addr : Addr) (client : Client) :
    List Addr × List (Addr × Bytes) → Option (Client × List Addr × List (Addr × Bytes))
  | (toRemove, buffer) =>
    if client.connection.lastTimeReceivedPacket - time0 > connectionTimeout then
      some (client, toRemove ++ [addr], buffer)
    else
      match updateConnection delta client.connection with
      | (.panic, _) => none
      | (_, m) => some ({ client with connection := m }, toRemove,
          buffer ++ posted addr client.connection m)

/-- The end of a turn of the loop, at the instants `elapsed` and `now`. -/
def tick (elapsed now : Nat) (s : EventLoop Addr) : Option (EventLoop Addr) :=
  let delta := (elapsed - s.time0) % 2 ^ 64
  if delta > deltaMin then
    match s.connections.visit (maintain (BitVec.ofNat 32 delta) now) ([], s.buffer) with
    | none => none
    | some (connections, toRemove, buffer) => some { s with
        time0 := now
        connections := connections.removeAll toRemove
        buffer := buffer
        newConnections := s.newConnections ++ toRemove.map .timedOut }
  else some s

end EventLoop

/-- The states of a loop that has not ended, each with the instant at which it is reached. -/
inductive Looping {Addr : Type} [DecidableEq Addr] (provider : ChannelProvider) :
    Nat → EventLoop Addr → Prop where
  | start (now : Nat) : Looping provider now (.start now)
  | event (clock created now : Nat) (s s' : EventLoop Addr) (event : UdpEvent Addr)
      (before : Looping provider clock s) (running : s.closed = false)
      (later : clock ≤ created) (later' : created ≤ now)
      (h : s.handleEvent provider created now event = some s') : Looping provider now s'
  | tick (clock elapsed now : Nat) (s s' : EventLoop Addr)
      (before : Looping provider clock s) (running : s.closed = false)
      (later : clock ≤ elapsed) (later' : elapsed ≤ now)
      (h : s.tick elapsed now = some s') : Looping provider now s'
  | rehash (clock : Nat) (s : EventLoop Addr) (connections : Table Addr Client)
      (before : Looping provider clock s)
      (same : s.connections.Reordered connections) :
      Looping provider clock { s with connections := connections }

end Theta
