import Theta.Net.Server

namespace Theta
open Lib Relation

section
variable {Addr : Type} [DecidableEq Addr]

/-- What an application pushes to the queue of its server. It has no channel ids but those of its
provider, makes up no datagrams of this peer, and does not close the connection to it. -/
def UdpEvent.pushes (r : Registry) (peer : Addr) : UdpEvent Addr → Bool
  | .read _ addr => addr ≠ peer
  | .closeConnection addr => addr ≠ peer
  | .closeServer => true
  | .connect _ => true
  | .send channel _ addr => addr ≠ peer || (r.provider.byId channel).isSome

/-- What a server does with anyone but this peer: its threads take their steps, its application
pushes events, and datagrams come in from other addresses. -/
inductive HostActs (r : Registry) (peer : Addr) (s s' : UdpServer Addr) : Prop where
  | acts (h : s.Acts r.provider s')
  | push (event : UdpEvent Addr) (allowed : event.pushes r peer = true) (h : s' = s.submit event)
  | hear (addr : Addr) (datagram : Bytes) (other : addr ≠ peer)
      (h : s.receive addr datagram = some s')

/-- A server on a network that carries the datagrams of a peer under the address of this peer
only. -/
def host (r : Registry) (peer : Addr) : Party (UdpServer Addr) Bytes where
  acts := HostActs r peer
  reads datagram s s' := s.receive peer datagram = some s'
  sent s := addressed peer s.sent

/-- A state of two servers at their addresses, among any others. -/
def Deployed (P Q : Registry) (a b : Addr) (start start' : Nat)
    (s : UdpServer Addr × UdpServer Addr) : Prop :=
  ReflTransGen (Party.Exchange (host P b) (host Q a)) (.launch start, .launch start') s

/-- A step of a host; what it reads is one of the datagrams that the other one has sent. -/
inductive Errand (Addr : Type) where
  | push (event : UdpEvent Addr)
  | read (index : Nat)
  | work (task : Task)

def UdpServer.run (r : Registry) (peer self : Addr) (s other : UdpServer Addr) :
    Errand Addr → Option (UdpServer Addr)
  | .push event => if event.pushes r peer then some (s.submit event) else none
  | .read index =>
    match (addressed self other.sent)[index]? with
    | some datagram => s.receive peer datagram
    | none => none
  | .work task => s.work r.provider task

/-- The steps of a schedule, as long as they are possible. -/
def serveAll (P Q : Registry) (a b : Addr) :
    List (Side × Errand Addr) → UdpServer Addr × UdpServer Addr →
      Option (UdpServer Addr × UdpServer Addr)
  | [], s => some s
  | (.left, errand) :: rest, (s, t) =>
    match s.run P b a t errand with
    | some s => serveAll P Q a b rest (s, t)
    | none => none
  | (.right, errand) :: rest, (s, t) =>
    match t.run Q a b s errand with
    | some t => serveAll P Q a b rest (s, t)
    | none => none

theorem run_step {P Q : Registry} {peer self : Addr} {other s s' : UdpServer Addr}
    {errand : Errand Addr} (h : s.run P peer self other errand = some s') :
    (host P peer).Step (host Q self) other s s' := by
  unfold UdpServer.run at h
  cases errand with
  | push event =>
    simp only [Option.ite_none_right_eq_some, Option.some.injEq] at h
    exact .act _ _ (.push event h.1 h.2.symm)
  | read index =>
    simp only at h
    split at h
    · rename_i datagram hd
      exact .read _ _ datagram (List.mem_of_getElem? hd) h
    · cases h
  | work task => exact .act _ _ (.acts (work_acts h))

theorem serve_all {P Q : Registry} {a b : Addr} {schedule : List (Side × Errand Addr)}
    {s t : UdpServer Addr × UdpServer Addr} (h : serveAll P Q a b schedule s = some t) :
    ReflTransGen (Party.Exchange (host P b) (host Q a)) s t := by
  induction schedule generalizing s with
  | nil =>
    cases h
    exact .refl
  | cons entry rest ih =>
    obtain ⟨side, errand⟩ := entry
    obtain ⟨s, s'⟩ := s
    cases side with
    | left =>
      simp only [serveAll] at h
      split at h
      · rename_i s1 hs1
        exact .head (.left s s1 s' (run_step hs1)) (ih h)
      · cases h
    | right =>
      simp only [serveAll] at h
      split at h
      · rename_i s1 hs1
        exact .head (.right s s' s1 (run_step hs1)) (ih h)
      · cases h

end

end Theta
