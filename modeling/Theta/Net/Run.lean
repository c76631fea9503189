import Theta.Net.Connection

namespace Theta
open Lib

/-- What the event loop gives to a live connection. -/
inductive Input where
  | read (now : Nat) (datagram : Bytes)
  | tick (delta : U32)
  | send (channel : U32) (payload : Bytes)
  deriving DecidableEq, Repr

def perform (provider : ChannelProvider) : Input → Call Unit
  | .read now datagram => handleMessage provider now datagram
  | .tick delta => updateConnection delta
  | .send channel payload => sendEvent provider channel payload

def Endpoint.fresh (now : Nat) : Endpoint := { lastTimeReceivedPacket := now }

/-- A call that returns. -/
def Returns (provider : ChannelProvider) (input : Input) (m m' : Endpoint) : Prop :=
  (perform provider input m).1 ≠ .panic ∧ (perform provider input m).2 = m'

/-- A connection that was initialized and has come through calls that all returned. -/
inductive Reachable (provider : ChannelProvider) : Endpoint → Prop where
  | initialized (now : Nat) (m : Endpoint)
      (h : initializeConnection provider (.fresh now) = (.ok (), m)) : Reachable provider m
  | step (input : Input) (m m' : Endpoint) (before : Reachable provider m)
      (h : Returns provider input m m') : Reachable provider m'

/-- Calls one after the other, as long as they return. -/
def performAll (provider : ChannelProvider) : List Input → Endpoint → Option Endpoint
  | [], m => some m
  | input :: rest, m =>
    match perform provider input m with
    | (.panic, _) => none
    | (_, m) => performAll provider rest m

theorem perform_all_append (provider : ChannelProvider) (inputs more : List Input) (m : Endpoint) :
    performAll provider (inputs ++ more) m =
      (performAll provider inputs m).bind (performAll provider more) := by
  induction inputs generalizing m with
  | nil => rfl
  | cons input rest ih =>
    rw [List.cons_append, performAll, performAll]
    rcases perform provider input m with ⟨r, m1⟩
    cases r with
    | panic => rfl
    | ok _ => exact ih m1
    | err _ => exact ih m1

theorem Reachable.performAll {p : ChannelProvider} {inputs : List Input} {m m' : Endpoint}
    (hr : Reachable p m) (h : performAll p inputs m = some m') : Reachable p m' := by
  induction inputs generalizing m with
  | nil =>
    cases h
    exact hr
  | cons input rest ih =>
    rcases hp : perform p input m with ⟨r, m1⟩
    rw [Theta.performAll, hp] at h
    cases r with
    | panic => cases h
    | ok _ => exact ih (.step input m m1 hr ⟨by simp [hp], by rw [hp]⟩) h
    | err _ => exact ih (.step input m m1 hr ⟨by simp [hp], by rw [hp]⟩) h

/-- A guard on the datagrams that a connection reads. -/
def Input.passes (guard : Endpoint → Bytes → Bool) (m : Endpoint) : Input → Bool
  | .read _ datagram => guard m datagram
  | _ => true

/-- One call that returns, of an input that the guard lets pass. -/
def GuardedCall (guard : Endpoint → Bytes → Bool) (provider : ChannelProvider) (m m' : Endpoint) :
    Prop :=
  ∃ input : Input, Returns provider input m m' ∧ input.passes guard m = true

theorem Reachable.guarded {guard : Endpoint → Bytes → Bool} {p : ChannelProvider} {m m' : Endpoint}
    (hr : Reachable p m) (run : Relation.ReflTransGen (GuardedCall guard p) m m') :
    Reachable p m' := by
  induction run with
  | refl => exact hr
  | tail _ h ih =>
    obtain ⟨input, hcall, _⟩ := h
    exact .step input _ _ ih hcall

/-- Guarded calls one after the other. -/
def performGuarded (guard : Endpoint → Bytes → Bool) (provider : ChannelProvider) :
    List Input → Endpoint → Option Endpoint
  | [], m => some m
  | input :: rest, m =>
    match perform provider input m with
    | (.panic, _) => none
    | (_, m') => if input.passes guard m then performGuarded guard provider rest m' else none

theorem guarded_calls {guard : Endpoint → Bytes → Bool} {p : ChannelProvider} {inputs : List Input}
    {m m' : Endpoint} (h : performGuarded guard p inputs m = some m') :
    Relation.ReflTransGen (GuardedCall guard p) m m' := by
  induction inputs generalizing m with
  | nil =>
    cases h
    exact .refl
  | cons input rest ih =>
    rcases hp : perform p input m with ⟨r, m1⟩
    rw [performGuarded, hp] at h
    have call (hr : r ≠ .panic)
        (h : (if input.passes guard m then performGuarded guard p rest m1 else none) = some m') :
        Relation.ReflTransGen (GuardedCall guard p) m m' := by
      split at h
      · rename_i hpass
        exact .head ⟨input, ⟨by simpa [hp] using hr, by rw [hp]⟩, hpass⟩ (ih h)
      · cases h
    cases r with
    | panic => cases h
    | ok _ => exact call (by simp) h
    | err _ => exact call (by simp) h

def Event.datagram? : Event → Option Bytes
  | .sent datagram => some datagram
  | _ => none

/-- The datagrams given to the packet sender so far. -/
def Endpoint.datagrams (m : Endpoint) : List Bytes := m.log.filterMap Event.datagram?

theorem datagrams_append (m : Endpoint) (events : List Event) :
    Endpoint.datagrams { m with log := m.log ++ events } =
      m.datagrams ++ events.filterMap Event.datagram? :=
  List.filterMap_append

/-- A provider with nothing but the built-in channels. -/
def builtinProvider : ChannelProvider := DefaultChannelProvider.new.asProvider _ (.refl _)

/-- A connection of this provider that has sent its registration. -/
def announced : Endpoint := (initializeConnection builtinProvider (.fresh 0)).2

theorem announced_reachable : Reachable builtinProvider announced :=
  .initialized 0 announced (by decide +kernel)

end Theta
