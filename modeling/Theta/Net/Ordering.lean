import Mathlib.Data.List.Rotate
import Theta.Proto

namespace Theta
open Lib

structure PacketOrderer where
  vec : List (Option Bytes)
  orderStart : Nat
  dequeStart : Nat
  capacity : Nat
  deriving DecidableEq, Repr

inductive PacketOrdererError where
  | capacityReached
  deriving DecidableEq, Repr

/-- Longest vector of 24-byte elements: an allocation has at most `isize::MAX` bytes. -/
def maxVecLen : Nat := (2 ^ 63 - 1) / 24

namespace PacketOrderer

def new (capacity : Nat) : PacketOrderer := ⟨[], 0, 0, capacity⟩

def flatten (o : PacketOrderer) : PacketOrderer :=
  if o.dequeStart = 0 then o
  else { o with vec := o.vec.drop o.dequeStart ++ o.vec.take o.dequeStart, dequeStart := 0 }

/-- Position of `order` past the next expected one, by `wrapping_sub`. -/
def distance (o : PacketOrderer) (order : Nat) : Nat :=
  (order + usizeModulus - o.orderStart) % usizeModulus

/-- Room for the packet at distance `dist`; growing past the largest allocation panics. -/
def grow (o : PacketOrderer) (dist : Nat) : Outcome PacketOrdererError PacketOrderer :=
  if dist ≥ o.vec.length then
    if dist + 1 > maxVecLen then .panic
    else
      let o := o.flatten
      .ok { o with vec := o.vec ++ List.replicate (dist + 1 - o.vec.length) none }
  else .ok o

def push (o : PacketOrderer) (order : Nat) (packet : Bytes) :
    Outcome PacketOrdererError PacketOrderer := do
  let orderDistMinus1 := o.distance order
  if orderDistMinus1 ≥ o.capacity then .err .capacityReached
  else
    let o ← o.grow orderDistMinus1
    let l := o.vec.length
    .ok { o with
      vec := o.vec.set ((o.dequeStart + orderDistMinus1) % usizeModulus % l) (some packet) }

/-- The loop takes one packet a turn, so the length of the ring is fuel enough. -/
def retainLoop (func : Bytes → Act σ ε Unit) :
    Nat → PacketOrderer → σ → Outcome ε Unit × PacketOrderer × σ
  | 0, o, s => (.ok (), o, s)
  | fuel + 1, o, s =>
    match o.vec[o.dequeStart]? with
    | none => (.panic, o, s)
    | some none => (.ok (), o, s)
    | some (some element) =>
      let o := { o with vec := o.vec.set o.dequeStart none }
      match func element s with
      | (.ok _, s) =>
        retainLoop func fuel { o with
          orderStart := (o.orderStart + 1) % usizeModulus
          dequeStart := (o.dequeStart + 1) % o.vec.length } s
      | (.err e, s) => (.err e, o, s)
      | (.panic, s) => (.panic, o, s)

def retain (func : Bytes → Act σ ε Unit) (o : PacketOrderer) (s : σ) :
    Outcome ε Unit × PacketOrderer × σ :=
  retainLoop func (o.vec.length + 1) o s

end PacketOrderer

end Theta
