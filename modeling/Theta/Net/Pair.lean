import Theta.Lib.Duplex
import Theta.Net.Run

namespace Theta
open Lib

/-- A default provider with the iteration order of its map. Its channels leave the two ids of the
registration stage free. -/
structure Registry extends DefaultChannelProvider where
  all : List (String × U32)
  order : all.Perm nameToId
  few : channels.length ≤ channelManagementChannelIdRegistrationStage.toNat

def Registry.provider (r : Registry) : ChannelProvider :=
  r.toDefaultChannelProvider.asProvider r.all r.order

/-- A side has no connection yet, has one, or has none any more: an initialization that fails
forgets it, and a panic ends the event loop. -/
inductive Stage where
  | closed
  | live
  | gone
  deriving DecidableEq, Repr

structure Peer where
  stage : Stage := .closed
  endpoint : Endpoint := .fresh 0
  deriving DecidableEq, Repr

namespace Peer

/-- The connection is made and initialized. -/
def establish (provider : ChannelProvider) (now : Nat) (peer : Peer) : Option Peer :=
  match peer.stage with
  | .closed =>
    match initializeConnection provider (.fresh now) with
    | (.ok _, m) => some ⟨.live, m⟩
    | (_, m) => some ⟨.gone, m⟩
  | _ => none

def call (provider : ChannelProvider) (input : Input) (peer : Peer) : Option Peer :=
  match peer.stage with
  | .live =>
    match perform provider input peer.endpoint with
    | (.panic, m) => some ⟨.gone, m⟩
    | (_, m) => some ⟨.live, m⟩
  | _ => none

end Peer

/-- What a side does on its own. An application has no channel ids but those of its provider. -/
inductive Acts (r : Registry) (guard : Endpoint → Input → Bool) (s s' : Peer) : Prop where
  | establish (now : Nat) (h : s.establish r.provider now = some s')
  | tick (delta : U32) (allowed : guard s.endpoint (.tick delta) = true)
      (h : s.call r.provider (.tick delta) = some s')
  | send (channel : U32) (payload : Bytes) (offered : (r.provider.byId channel).isSome)
      (allowed : guard s.endpoint (.send channel payload) = true)
      (h : s.call r.provider (.send channel payload) = some s')

/-- A peer of a registry, whose calls are those that the guard lets pass. -/
def party (r : Registry) (guard : Endpoint → Input → Bool) : Party Peer Bytes where
  acts := Acts r guard
  reads datagram s s' := ∃ now, guard s.endpoint (.read now datagram) = true ∧
    s.call r.provider (.read now datagram) = some s'
  sent s := s.endpoint.datagrams

/-- No restriction. -/
def anyInput (_ : Endpoint) (_ : Input) : Bool := true

/-- The two sides of a network that may lose, repeat, delay and reorder datagrams. -/
abbrev Network (P Q : Registry) (guard guard' : Endpoint → Input → Bool) :
    Peer × Peer → Peer × Peer → Prop :=
  Party.Exchange (party P guard) (party Q guard')

/-- A state of two peers that started without a connection. -/
def Connected (P Q : Registry) (guard guard' : Endpoint → Input → Bool) (s : Peer × Peer) : Prop :=
  Relation.ReflTransGen (Network P Q guard guard') ({}, {}) s

theorem party_step_mono {P Q : Registry} {guard guard' other other' : Endpoint → Input → Bool}
    (allows : ∀ m input, guard m input = true → other m input = true) {b a a' : Peer}
    (step : (party P guard).Step (party Q guard') b a a') :
    (party P other).Step (party Q other') b a a' := by
  cases step with
  | act acts =>
    cases acts with
    | establish now h => exact .act _ _ (.establish now h)
    | tick delta allowed h => exact .act _ _ (.tick delta (allows _ _ allowed) h)
    | send channel payload offered allowed h =>
      exact .act _ _ (.send channel payload offered (allows _ _ allowed) h)
  | read datagram sent reads =>
    obtain ⟨now, allowed, h⟩ := reads
    exact .read _ _ datagram sent ⟨now, allows _ _ allowed, h⟩

/-- Where more is allowed, no less is reached. -/
theorem connected_mono {P Q : Registry} {guard guard' other other' : Endpoint → Input → Bool}
    (left : ∀ m input, guard m input = true → other m input = true)
    (right : ∀ m input, guard' m input = true → other' m input = true) {s : Peer × Peer}
    (h : Connected P Q guard guard' s) : Connected P Q other other' s := by
  refine Relation.ReflTransGen.mono (fun s t step => ?_) _ _ h
  cases step with
  | left a a' b step => exact .left a a' b (party_step_mono left step)
  | right a b b' step => exact .right a b b' (party_step_mono right step)

/-- A step of one side; what it reads is one of the other side's datagrams. -/
inductive Deed where
  | establish (now : Nat)
  | tick (delta : U32)
  | send (channel : U32) (payload : Bytes)
  | read (now : Nat) (index : Nat)
  deriving DecidableEq, Repr

def Peer.act (r : Registry) (guard : Endpoint → Input → Bool) (peer other : Peer) :
    Deed → Option Peer
  | .establish now => peer.establish r.provider now
  | .tick delta =>
    if guard peer.endpoint (.tick delta) then peer.call r.provider (.tick delta) else none
  | .send channel payload =>
    if (r.provider.byId channel).isSome && guard peer.endpoint (.send channel payload) then
      peer.call r.provider (.send channel payload)
    else none
  | .read now index =>
    match other.endpoint.datagrams[index]? with
    | some datagram =>
      if guard peer.endpoint (.read now datagram) then peer.call r.provider (.read now datagram)
      else none
    | none => none

inductive Side where
  | left
  | right
  deriving DecidableEq, Repr

/-- The steps of a schedule, as long as they are possible. -/
def exchangeAll (P Q : Registry) (guard guard' : Endpoint → Input → Bool) :
    List (Side × Deed) → Peer × Peer → Option (Peer × Peer)
  | [], s => some s
  | (.left, deed) :: rest, (a, b) =>
    match a.act P guard b deed with
    | some a => exchangeAll P Q guard guard' rest (a, b)
    | none => none
  | (.right, deed) :: rest, (a, b) =>
    match b.act Q guard' a deed with
    | some b => exchangeAll P Q guard guard' rest (a, b)
    | none => none

theorem act_step {P Q : Registry} {guard guard' : Endpoint → Input → Bool} {other peer peer' : Peer}
    {deed : Deed} (h : peer.act P guard other deed = some peer') :
    (party P guard).Step (party Q guard') other peer peer' := by
  unfold Peer.act at h
  cases deed with
  | establish now => exact .act _ _ (.establish now h)
  | tick delta =>
    simp only [Option.ite_none_right_eq_some] at h
    exact .act _ _ (.tick delta h.1 h.2)
  | send channel payload =>
    simp only [Option.ite_none_right_eq_some, Bool.and_eq_true] at h
    exact .act _ _ (.send channel payload h.1.1 h.1.2 h.2)
  | read now index =>
    simp only at h
    split at h
    · rename_i datagram hd
      simp only [Option.ite_none_right_eq_some] at h
      exact .read _ _ datagram (List.mem_of_getElem? hd) ⟨now, h.1, h.2⟩
    · cases h

theorem exchange_all_trans {P Q : Registry} {guard guard' : Endpoint → Input → Bool}
    {schedule more : List (Side × Deed)} {s t u : Peer × Peer}
    (h : exchangeAll P Q guard guard' schedule s = some t)
    (h' : exchangeAll P Q guard guard' more t = some u) :
    exchangeAll P Q guard guard' (schedule ++ more) s = some u := by
  induction schedule generalizing s with
  | nil =>
    cases h
    exact h'
  | cons entry rest ih =>
    obtain ⟨side, deed⟩ := entry
    obtain ⟨a, b⟩ := s
    rw [List.cons_append]
    cases side with
    | left =>
      simp only [exchangeAll] at h ⊢
      split at h
      · exact ih h
      · cases h
    | right =>
      simp only [exchangeAll] at h ⊢
      split at h
      · exact ih h
      · cases h

/-- What one side does while the other one waits. -/
theorem exchange_all_left {P Q : Registry} {guard guard' : Endpoint → Input → Bool}
    {deeds : List Deed} {a a' b : Peer}
    (h : deeds.foldlM (fun peer => peer.act P guard b) a = some a') :
    exchangeAll P Q guard guard' (deeds.map (Side.left, ·)) (a, b) = some (a', b) := by
  induction deeds generalizing a with
  | nil =>
    cases h
    rfl
  | cons deed rest ih =>
    obtain ⟨next, act, h⟩ := Option.bind_eq_some_iff.mp h
    simp only [List.map_cons, exchangeAll, act]
    exact ih h

theorem exchange_all_right {P Q : Registry} {guard guard' : Endpoint → Input → Bool}
    {deeds : List Deed} {a b b' : Peer}
    (h : deeds.foldlM (fun peer => peer.act Q guard' a) b = some b') :
    exchangeAll P Q guard guard' (deeds.map (Side.right, ·)) (a, b) = some (a, b') := by
  induction deeds generalizing b with
  | nil =>
    cases h
    rfl
  | cons deed rest ih =>
    obtain ⟨next, act, h⟩ := Option.bind_eq_some_iff.mp h
    simp only [List.map_cons, exchangeAll, act]
    exact ih h

theorem exchange_all {P Q : Registry} {guard guard' : Endpoint → Input → Bool}
    {schedule : List (Side × Deed)} {s t : Peer × Peer}
    (h : exchangeAll P Q guard guard' schedule s = some t) :
    Relation.ReflTransGen (Network P Q guard guard') s t := by
  induction schedule generalizing s with
  | nil =>
    cases h
    exact .refl
  | cons entry rest ih =>
    obtain ⟨side, deed⟩ := entry
    obtain ⟨a, b⟩ := s
    cases side with
    | left =>
      simp only [exchangeAll] at h
      split at h
      · rename_i a' ha
        exact .head (.left a a' b (act_step ha)) (ih h)
      · cases h
    | right =>
      simp only [exchangeAll] at h
      split at h
      · rename_i b' hb
        exact .head (.right a b b' (act_step hb)) (ih h)
      · cases h

end Theta
