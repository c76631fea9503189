import Mathlib.Data.List.Nodup
import Theta.Proto

namespace Theta
open Lib

structure SlotMapKey where
  index : U32
  generation : U32
  deriving DecidableEq, Repr

namespace SlotMapKey

def encode (key : SlotMapKey) : Bytes :=
  VarInt.encode key.index ++ VarInt.encode key.generation

def decode (bytes : Bytes) : Outcome Unit (SlotMapKey × Bytes) := do
  let (index, bytes) ← VarInt.decode 32 bytes
  let (generation, bytes) ← VarInt.decode 32 bytes
  .ok (⟨index, generation⟩, bytes)

@[simp] theorem decode_encode (key : SlotMapKey) (r : Bytes) :
    decode (key.encode ++ r) = .ok (key, r) := by
  simp [decode, encode, List.append_assoc]

theorem encode_length_le (key : SlotMapKey) : key.encode.length ≤ 10 := by
  have hi := VarInt.encode_length_le key.index
  have hg := VarInt.encode_length_le key.generation
  simp only [encode, List.length_append]
  omega

theorem encode_ne_nil (key : SlotMapKey) : key.encode ≠ [] := by
  simp [encode, VarInt.encode_ne_nil]

theorem decode_shorter {bytes r : Bytes} {key : SlotMapKey} (h : decode bytes = .ok (key, r)) :
    r.length < bytes.length := by
  simp only [decode, Outcome.bind_ok, Prod.exists, Outcome.ok.injEq, Prod.mk.injEq] at h
  obtain ⟨i, b, hi, g, b', hg, _, rfl⟩ := h
  have h1 := VarInt.decode_shorter hi
  have h2 := VarInt.decode_shorter hg
  omega

end SlotMapKey

/-- The free slots form a stack; its head is the end of the source's vector. -/
structure SlotMap (T : Type) where
  values : List (Option T) := []
  generations : List U32 := []
  freeSlots : List U32 := []
  deriving DecidableEq, Repr

namespace SlotMap

def len (m : SlotMap T) : Nat := m.values.length - m.freeSlots.length

def get (m : SlotMap T) (key : SlotMapKey) : Option T :=
  match m.values[key.index.toNat]? with
  | some (some v) => if m.generations[key.index.toNat]? = some key.generation then some v else none
  | _ => none

/-- The write through `get_mut`. -/
def getMut (m : SlotMap T) (key : SlotMapKey) (func : T → T) : SlotMap T :=
  match m.get key with
  | some v => { m with values := m.values.set key.index.toNat (some (func v)) }
  | none => m

/-- Incrementing a generation past `u32::MAX` panics. -/
def nextGeneration (g : U32) : Outcome ε U32 :=
  if g.toNat + 1 < 2 ^ 32 then .ok (g + 1) else .panic

def add (m : SlotMap T) (value : SlotMapKey → Option T) : Outcome ε (SlotMapKey × SlotMap T) :=
  match m.freeSlots with
  | freeSlot :: rest => do
    let g ← Outcome.ofOption m.generations[freeSlot.toNat]?
    let generation ← nextGeneration g
    let key : SlotMapKey := ⟨freeSlot, generation⟩
    let _ ← Outcome.ofOption m.values[freeSlot.toNat]?
    .ok (key, {
      values := m.values.set freeSlot.toNat (value key)
      generations := m.generations.set freeSlot.toNat generation
      freeSlots := rest })
  | [] => do
    let index := m.values.length
    if m.generations.length ≤ m.values.length then
      let key : SlotMapKey := ⟨BitVec.ofNat 32 index, 0⟩
      .ok (key, {
        values := m.values ++ [value key]
        generations := m.generations ++ [0]
        freeSlots := [] })
    else
      let g ← Outcome.ofOption m.generations[index]?
      let generation ← nextGeneration g
      let key : SlotMapKey := ⟨BitVec.ofNat 32 index, generation⟩
      .ok (key, {
        values := m.values ++ [value key]
        generations := m.generations.set index generation
        freeSlots := [] })

/-- The generation is indexed before the value: an index beyond every slot panics. -/
def remove (m : SlotMap T) (key : SlotMapKey) : Outcome ε (Option T × SlotMap T) :=
  match m.generations[key.index.toNat]? with
  | none => .panic
  | some g =>
    if g ≠ key.generation then .ok (none, m)
    else match m.values[key.index.toNat]? with
      | some (some v) => .ok (some v, { m with
          values := m.values.set key.index.toNat none
          freeSlots := key.index :: m.freeSlots })
      | _ => .ok (none, m)

/-- Visits the values from slot `i` on; returns what is left and the freed slots. -/
def retainLoop (func : T → Act σ ε (T × Bool)) :
    Nat → List (Option T) → Act σ ε (List (Option T) × List U32)
  | _, [] => pure ([], [])
  | i, none :: rest => do
    let (values, freed) ← retainLoop func (i + 1) rest
    pure (none :: values, freed)
  | i, some val :: rest => do
    let (val, drop) ← func val
    let (values, freed) ← retainLoop func (i + 1) rest
    if drop then pure (none :: values, BitVec.ofNat 32 i :: freed)
    else pure (some val :: values, freed)

def retainIf (m : SlotMap T) (func : T → Act σ ε (T × Bool)) : Act σ ε (SlotMap T) := do
  let (values, freed) ← retainLoop func 0 m.values
  pure { m with values := values, freeSlots := freed.reverse ++ m.freeSlots }

def iter (m : SlotMap T) : List T := m.values.filterMap id

/-- The writes through `iter_mut`, each of them with the slot it is made in. -/
def iterMut (m : SlotMap T) (func : Nat → T → T) : SlotMap T :=
  { m with values := m.values.mapIdx (fun i val => val.map (func i)) }

def isEmpty (m : SlotMap T) : Bool := m.len = 0

def clear (m : SlotMap T) : SlotMap T := { m with values := [], freeSlots := [] }

end SlotMap

structure SlotSet where
  set : List SlotMapKey := []
  deriving DecidableEq, Repr

inductive SlotSetInsertError where
  | insertedError
  deriving DecidableEq, Repr

namespace SlotSet

def insert (s : SlotSet) (key : SlotMapKey) : Outcome SlotSetInsertError SlotSet :=
  if key ∈ s.set then .err .insertedError else .ok ⟨key :: s.set⟩

def clear (_ : SlotSet) : SlotSet := ⟨[]⟩

end SlotSet

end Theta
