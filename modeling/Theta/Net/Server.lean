import Theta.Net.Lane
import Theta.Net.Pair
import Theta.Util.Channel

namespace Theta
open Lib

/-- The capacity that the loops reserve for their bunches. -/
def bunchCapacity : Nat := 16

/-- Where a thread stands: at the wait for its queue, with the rest of a bunch, or behind its
loop. -/
inductive Phase (T : Type) where
  | waiting
  | busy (bunch : List T)
  | ended
  deriving DecidableEq, Repr

def Phase.bunch {T : Type} : Phase T → List T
  | .busy bunch => bunch
  | _ => []

section
variable {Addr : Type} [DecidableEq Addr]

namespace EventLoop

/-- What an event gives to the packet senders, also when it panics. -/
def eventPosts (provider : ChannelProvider) (created now : Nat) (s : EventLoop Addr)
    (event : UdpEvent Addr) : List (Addr × Bytes) :=
  match event.request with
  | some (addr, request) => (Answer.respond provider created now request
      ((s.connections.get addr).map Client.connection)).sent.map (addr, ·)
  | none => []

/-- What a tick gives to the packet senders, up to a connection that panics. -/
def tickPosts (delta : U32) (time0 : Nat) : List (Addr × Client) → List (Addr × Bytes)
  | [] => []
  | (addr, client) :: rest =>
    if client.connection.lastTimeReceivedPacket - time0 > connectionTimeout then
      tickPosts delta time0 rest
    else
      match updateConnection delta client.connection with
      | (.panic, m) => posted addr client.connection m
      | (_, m) => posted addr client.connection m ++ tickPosts delta time0 rest

end EventLoop

/-- The three threads of `launch_udp_server_instance` with their two queues. `last` is what the
event loop sent in the turn in which it panicked, `submitted` everything that was pushed to the
event queue and `sent` everything that the socket has taken. -/
structure UdpServer (Addr : Type) where
  loop : EventLoop Addr
  clock : Nat
  eventQueue : ManyToSingleChannel (UdpEvent Addr) := {}
  buffer : ManyToSingleChannel (Addr × Bytes) := {}
  events : Phase (UdpEvent Addr) := .waiting
  writing : Phase (Addr × Bytes) := .waiting
  reading : Bool := true
  last : List (Addr × Bytes) := []
  submitted : List (UdpEvent Addr) := []
  sent : List (Addr × Bytes) := []

namespace UdpServer

def launch (now : Nat) : UdpServer Addr := { loop := .start now, clock := now }

def submit (event : UdpEvent Addr) (s : UdpServer Addr) : UdpServer Addr :=
  { s with eventQueue := s.eventQueue.push event, submitted := s.submitted ++ [event] }

/-- A datagram that the socket cuts off at the length of the read buffer. -/
def receive (addr : Addr) (datagram : Bytes) (s : UdpServer Addr) : Option (UdpServer Addr) :=
  if s.reading then some (s.submit (.read (datagram.take maxPacketLen) addr)) else none

def stopReading (s : UdpServer Addr) : Option (UdpServer Addr) :=
  if s.reading && s.loop.closed then some { s with reading := false } else none

def takeEvents (s : UdpServer Addr) : Option (UdpServer Addr) :=
  match s.events with
  | .waiting =>
    let (eventQueue, bunch) := s.eventQueue.takeBunch bunchCapacity
    some { s with eventQueue := eventQueue, events := .busy bunch }
  | _ => none

/-- The next event of the bunch. A panic unwinds the thread of the event loop and no other one. -/
def handleNext (provider : ChannelProvider) (created now : Nat) (s : UdpServer Addr) :
    Option (UdpServer Addr) :=
  match s.events with
  | .busy (event :: rest) =>
    let posts := s.loop.eventPosts provider created now event
    let s' := { s with clock := now, buffer := s.buffer.pushMany posts }
    match s.loop.handleEvent provider created now event with
    | some loop =>
      some { s' with loop := loop, events := if loop.closed then .ended else .busy rest }
    | none => some { s' with events := .ended, last := posts }
  | _ => none

/-- The end of a turn of the event loop. -/
def endTurn (elapsed now : Nat) (s : UdpServer Addr) : Option (UdpServer Addr) :=
  match s.events with
  | .busy [] =>
    match s.loop.tick elapsed now with
    | some loop =>
      let posts := loop.buffer.drop s.loop.buffer.length
      some { s with
        clock := now, buffer := s.buffer.pushMany posts, loop := loop, events := .waiting }
    | none =>
      let delta := (elapsed - s.loop.time0) % 2 ^ 64
      let posts := EventLoop.tickPosts (BitVec.ofNat 32 delta) now s.loop.connections.entries
      some { s with
        clock := now, buffer := s.buffer.pushMany posts, events := .ended, last := posts }
  | _ => none

def takePackets (s : UdpServer Addr) : Option (UdpServer Addr) :=
  match s.writing with
  | .waiting =>
    let (buffer, bunch) := s.buffer.takeBunch bunchCapacity
    some { s with buffer := buffer, writing := .busy bunch }
  | _ => none

/-- The next packet of the bunch goes to the socket, unless the fake lag or an error drops it. -/
def sendNext (dropped : Bool) (s : UdpServer Addr) : Option (UdpServer Addr) :=
  match s.writing with
  | .busy (packet :: rest) =>
    some { s with writing := .busy rest, sent := if dropped then s.sent else s.sent ++ [packet] }
  | _ => none

/-- The end of a turn of the write loop, which may not have seen yet that the server is closed. -/
def endBunch (seen : Bool) (s : UdpServer Addr) : Option (UdpServer Addr) :=
  match s.writing with
  | .busy [] =>
    if seen then
      if s.loop.closed then some { s with writing := .ended } else none
    else some { s with writing := .waiting }
  | _ => none

/-- A step of one of the threads; the instants that the event loop reads do not run back. -/
inductive Acts (provider : ChannelProvider) (s s' : UdpServer Addr) : Prop where
  | stopReading (h : s.stopReading = some s')
  | takeEvents (h : s.takeEvents = some s')
  | handleNext (created now : Nat) (later : s.clock ≤ created) (later' : created ≤ now)
      (h : s.handleNext provider created now = some s')
  | endTurn (elapsed now : Nat) (later : s.clock ≤ elapsed) (later' : elapsed ≤ now)
      (h : s.endTurn elapsed now = some s')
  | rehash (connections : Table Addr Client) (running : s.events ≠ .ended)
      (same : s.loop.connections.Reordered connections)
      (h : s' = { s with loop := { s.loop with connections := connections } })
  | takePackets (h : s.takePackets = some s')
  | sendNext (dropped : Bool) (h : s.sendNext dropped = some s')
  | endBunch (seen : Bool) (h : s.endBunch seen = some s')

/-- A step of a server among whatever sends datagrams and pushes events. -/
inductive Serves (provider : ChannelProvider) (s s' : UdpServer Addr) : Prop where
  | acts (h : s.Acts provider s')
  | submit (event : UdpEvent Addr) (h : s' = s.submit event)
  | receive (addr : Addr) (datagram : Bytes) (h : s.receive addr datagram = some s')

end UdpServer

/-- A step of one of the threads of a server. -/
inductive Task where
  | takeEvents
  | handleNext (created now : Nat)
  | endTurn (elapsed now : Nat)
  | takePackets
  | sendNext (dropped : Bool)
  | endBunch (seen : Bool)
  deriving DecidableEq, Repr

def UdpServer.work (provider : ChannelProvider) (s : UdpServer Addr) :
    Task → Option (UdpServer Addr)
  | .takeEvents => s.takeEvents
  | .handleNext created now =>
    if s.clock ≤ created ∧ created ≤ now then s.handleNext provider created now else none
  | .endTurn elapsed now =>
    if s.clock ≤ elapsed ∧ elapsed ≤ now then s.endTurn elapsed now else none
  | .takePackets => s.takePackets
  | .sendNext dropped => s.sendNext dropped
  | .endBunch seen => s.endBunch seen

theorem work_acts {provider : ChannelProvider} {s s' : UdpServer Addr} {task : Task}
    (h : s.work provider task = some s') : s.Acts provider s' := by
  unfold UdpServer.work at h
  cases task with
  | takeEvents => exact .takeEvents h
  | handleNext created now =>
    simp only [Option.ite_none_right_eq_some] at h
    exact .handleNext created now h.1.1 h.1.2 h.2
  | endTurn elapsed now =>
    simp only [Option.ite_none_right_eq_some] at h
    exact .endTurn elapsed now h.1.1 h.1.2 h.2
  | takePackets => exact .takePackets h
  | sendNext dropped => exact .sendNext dropped h
  | endBunch seen => exact .endBunch seen h

theorem works_serve {provider : ChannelProvider} {s t : UdpServer Addr} {tasks : List Task}
    (h : tasks.foldlM (UdpServer.work provider) s = some t) :
    Relation.ReflTransGen (UdpServer.Serves provider) s t := by
  induction tasks generalizing s with
  | nil =>
    cases h
    exact .refl
  | cons task rest ih =>
    rw [List.foldlM_cons] at h
    obtain ⟨s1, hs1, hrest⟩ := Option.bind_eq_some_iff.mp h
    exact .head (.acts (work_acts hs1)) (ih hrest)

end

end Theta
