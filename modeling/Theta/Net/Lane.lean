import Theta.Lib.Trace
import Theta.Net.Udp

namespace Theta
open Lib

/-- A step of the event loop, with the instants that it reads. The order in which the map is gone
through may change at any time. -/
inductive Turn (Addr : Type) where
  | event (created now : Nat) (event : UdpEvent Addr)
  | tick (elapsed now : Nat)
  | rehash
  deriving DecidableEq, Repr

section
variable {Addr : Type} [DecidableEq Addr]

/-- What a turn does to a loop that goes on. -/
inductive EventLoop.Turns (provider : ChannelProvider) :
    EventLoop Addr → Turn Addr → EventLoop Addr → Prop where
  | event (created now : Nat) (event : UdpEvent Addr) (s s' : EventLoop Addr)
      (running : s.closed = false) (h : s.handleEvent provider created now event = some s') :
      Turns provider s (.event created now event) s'
  | tick (elapsed now : Nat) (s s' : EventLoop Addr) (running : s.closed = false)
      (h : s.tick elapsed now = some s') : Turns provider s (.tick elapsed now) s'
  | rehash (s : EventLoop Addr) (connections : Table Addr Client)
      (same : s.connections.Reordered connections) :
      Turns provider s .rehash { s with connections := connections }

def EventLoop.turn (provider : ChannelProvider) (s : EventLoop Addr) :
    Turn Addr → Option (EventLoop Addr)
  | .event created now e => s.handleEvent provider created now e
  | .tick elapsed now => s.tick elapsed now
  | .rehash => some s

/-- Turns one after the other, as long as the loop goes on. -/
def EventLoop.turnAll (provider : ChannelProvider) :
    List (Turn Addr) → EventLoop Addr → Option (EventLoop Addr)
  | [], s => some s
  | turn :: rest, s =>
    if s.closed then none else (s.turn provider turn).bind (turnAll provider rest)

theorem turn_all_trace {provider : ChannelProvider} {turns : List (Turn Addr)}
    {s t : EventLoop Addr} (h : s.turnAll provider turns = some t) :
    Trace (EventLoop.Turns provider) turns s t := by
  induction turns generalizing s with
  | nil =>
    cases h
    exact .nil _
  | cons turn rest ih =>
    rw [EventLoop.turnAll] at h
    split at h
    · cases h
    · rename_i running
      rw [Bool.not_eq_true] at running
      obtain ⟨s1, hnext, hrest⟩ := Option.bind_eq_some_iff.mp h
      have first : EventLoop.Turns provider s turn s1 := by
        cases turn with
        | event created now e => exact .event created now e s s1 running hnext
        | tick elapsed now => exact .tick elapsed now s s1 running hnext
        | rehash =>
          cases hnext
          exact .rehash s s.connections (.refl _)
      exact (Trace.single first).append (ih hrest)

end

/-- What an event asks of the connection of its address. -/
inductive Request where
  | read (payload : Bytes)
  | closeConnection
  | connect
  | send (channel : U32) (payload : Bytes)
  deriving DecidableEq, Repr

/-- What a call has given to its packet sender. -/
def fresh (before after : Endpoint) : List Bytes := after.datagrams.drop before.datagrams.length

/-- The connection after a request, with what it has sent, and whether it has come to the transfer
stage or has panicked on the way. -/
structure Answer where
  connection : Option Endpoint
  sent : List Bytes := []
  connected : Bool := false
  panicked : Bool := false
  deriving DecidableEq, Repr

namespace Answer

def read (provider : ChannelProvider) (now : Nat) (payload : Bytes) (transferBefore : Bool)
    (m : Endpoint) : Answer :=
  match handleMessage provider now payload m with
  | (.panic, m') => { connection := some m', sent := fresh m m', panicked := true }
  | (_, m') =>
    { connection := some m', sent := fresh m m',
      connected := !transferBefore && m'.state = .transfer }

/-- A connection is made, and forgotten when its initialization fails. -/
def make (provider : ChannelProvider) (created : Nat) : Answer :=
  match initializeConnection provider (.fresh created) with
  | (.ok _, m) => { connection := some m, sent := fresh (.fresh created) m }
  | (.err _, m) => { connection := none, sent := fresh (.fresh created) m }
  | (.panic, m) => { connection := none, sent := fresh (.fresh created) m, panicked := true }

def send (provider : ChannelProvider) (channel : U32) (payload : Bytes) (m : Endpoint) : Answer :=
  match sendEvent provider channel payload m with
  | (.panic, m') => { connection := some m', sent := fresh m m', panicked := true }
  | (_, m') =>
    { connection := some m', sent := fresh m m',
      connected := !(decide (m.state = .transfer)) && m'.state = .transfer }

/-- What comes after another answer. -/
def after (first second : Answer) : Answer :=
  { second with sent := first.sent ++ second.sent }

/-- The answer of the connection that an address has, if it has one. -/
def respond (provider : ChannelProvider) (created now : Nat) : Request → Option Endpoint → Answer
  | .read payload, some m => read provider now payload (m.state = .transfer) m
  | .read payload, none =>
    let made := make provider created
    match made.connection with
    | some m => made.after (read provider now payload ((Endpoint.fresh created).state = .transfer) m)
    | none => made
  | .closeConnection, _ => { connection := none }
  | .connect, some m => { connection := some m }
  | .connect, none => make provider created
  | .send _ _, none => { connection := none }
  | .send channel payload, some m => send provider channel payload m

end Answer

inductive Report where
  | connected
  | timedOut
  deriving DecidableEq, Repr

/-- A turn as one connection sees it. -/
inductive LaneTurn where
  | request (created now : Nat) (request : Request)
  | tick (elapsed now : Nat)
  | closeServer
  deriving DecidableEq, Repr

/-- An event loop that serves a single address. -/
structure Lane where
  connection : Option Endpoint := none
  time0 : Nat
  posted : List Bytes := []
  reports : List Report := []
  closed : Bool := false
  deriving DecidableEq, Repr

namespace Lane

def answer (lane : Lane) (a : Answer) : Option Lane :=
  if a.panicked then none
  else some { lane with
    connection := a.connection
    posted := lane.posted ++ a.sent
    reports := if a.connected then lane.reports ++ [.connected] else lane.reports }

/-- The maintenance of a connection that is not taken for too old. -/
def update (delta : U32) (lane : Lane) (m : Endpoint) : Option Lane :=
  match updateConnection delta m with
  | (.panic, _) => none
  | (_, m') => some { lane with connection := some m', posted := lane.posted ++ fresh m m' }

def tick (elapsed now : Nat) (lane : Lane) : Option Lane :=
  let delta := (elapsed - lane.time0) % 2 ^ 64
  let lane' := { lane with time0 := now }
  if delta > deltaMin then
    match lane.connection with
    | none => some lane'
    | some m =>
      if m.lastTimeReceivedPacket - now > connectionTimeout then
        some { lane' with connection := none, reports := lane.reports ++ [.timedOut] }
      else lane'.update (BitVec.ofNat 32 delta) m
  else some lane

def step (provider : ChannelProvider) (lane : Lane) (turn : LaneTurn) : Option Lane :=
  if lane.closed then none
  else match turn with
    | .request created now request =>
      lane.answer (Answer.respond provider created now request lane.connection)
    | .tick elapsed now => lane.tick elapsed now
    | .closeServer => some { lane with closed := true }

end Lane

section
variable {Addr : Type}

/-- The address of an event and what is asked of its connection; every event but one has both. -/
def UdpEvent.request : UdpEvent Addr → Option (Addr × Request)
  | .read payload addr => some (addr, .read payload)
  | .closeConnection addr => some (addr, .closeConnection)
  | .closeServer => none
  | .connect addr => some (addr, .connect)
  | .send channel payload addr => some (addr, .send channel payload)

variable [DecidableEq Addr]

/-- What a turn is to the connection of an address. -/
def Turn.lane? (addr : Addr) : Turn Addr → Option LaneTurn
  | .event created now e =>
    match e.request with
    | some (addr', request) => if addr' = addr then some (.request created now request) else none
    | none => some .closeServer
  | .tick elapsed now => some (.tick elapsed now)
  | .rehash => none

def UdpConnectionEvent.report? (addr : Addr) : UdpConnectionEvent Addr → Option Report
  | .connected addr' _ => if addr' = addr then some .connected else none
  | .timedOut addr' => if addr' = addr then some .timedOut else none

/-- The datagrams for an address. -/
def addressed (addr : Addr) (packets : List (Addr × Bytes)) : List Bytes :=
  packets.filterMap (fun packet => if packet.1 = addr then some packet.2 else none)

/-- What a loop has to do with an address. -/
def EventLoop.lane (addr : Addr) (s : EventLoop Addr) : Lane where
  connection := (s.connections.get addr).map Client.connection
  time0 := s.time0
  posted := addressed addr s.buffer
  reports := s.newConnections.filterMap (UdpConnectionEvent.report? addr)
  closed := s.closed

end

end Theta
