import Theta.Proto

namespace Theta
open Lib

structure PacketSegmentMetadata where
  segmentKey : U32
  segment : Nat
  segmentCount : Nat
  deriving DecidableEq, Repr

namespace PacketSegmentMetadata

def decode (bytes : Bytes) : Outcome Unit (PacketSegmentMetadata × Bytes) := do
  let (segmentKey, bytes) ← VarInt.decode 32 bytes
  let (segment, bytes) ← VarInt.decode 16 bytes
  let (segmentCount, bytes) ← VarInt.decode 16 bytes
  .ok (⟨segmentKey, segment.toNat, segmentCount.toNat + 1⟩, bytes)

/-- `usize` to `u16` by `try_into().unwrap()`. -/
def toU16 (n : Nat) : Outcome Unit U16 :=
  if n < 2 ^ 16 then .ok (BitVec.ofNat 16 n) else .panic

def encode (m : PacketSegmentMetadata) : Outcome Unit Bytes :=
  if m.segmentCount = 0 then .panic
  else do
    let segment ← toU16 m.segment
    let segmentCount ← toU16 (m.segmentCount - 1)
    .ok (VarInt.encode m.segmentKey ++ VarInt.encode segment ++ VarInt.encode segmentCount)

end PacketSegmentMetadata

structure PacketSegments where
  segments : List (Option Bytes)
  nonFilled : Nat
  deriving DecidableEq, Repr

/-- The map's list order stands for the iteration order of the source's hash map. -/
structure PacketSegmentJoiner where
  map : List (U32 × PacketSegments) := []
  capacity : Nat := 0
  deriving DecidableEq, Repr

inductive PacketSegmentJoinerError where
  | capacityReached
  | segmentRepeated
  | segmentMetadataMalformed
  deriving DecidableEq, Repr

namespace PacketSegmentJoiner

def popFirst (j : PacketSegmentJoiner) : PacketSegmentJoiner := { j with map := j.map.tail }

def getEntry (j : PacketSegmentJoiner) (key : U32) : Option PacketSegments := j.map.lookup key

def removeEntry (j : PacketSegmentJoiner) (key : U32) : PacketSegmentJoiner :=
  { j with map := j.map.filter (fun e => e.1 != key) }

def setEntry (j : PacketSegmentJoiner) (key : U32) (segments : PacketSegments) :
    PacketSegmentJoiner :=
  { j with map := (key, segments) :: j.map.filter (fun e => e.1 != key) }

/-- The entry of a segment's key, made and given room when there is none. -/
def entry (j : PacketSegmentJoiner) (metadata : PacketSegmentMetadata)
    (popFirstOnCapacity : Bool) :
    Outcome PacketSegmentJoinerError (PacketSegments × PacketSegmentJoiner) :=
  match j.getEntry metadata.segmentKey with
  | some segments => .ok (segments, j)
  | none =>
    let segments : PacketSegments :=
      ⟨List.replicate metadata.segmentCount none, metadata.segmentCount⟩
    if j.capacity = j.map.length then
      if popFirstOnCapacity then
        .ok (segments, j.popFirst.setEntry metadata.segmentKey segments)
      else .err .capacityReached
    else .ok (segments, j.setEntry metadata.segmentKey segments)

/-- Fills the segment into its entry. An index past the entry's segments panics. -/
def fill (j : PacketSegmentJoiner) (metadata : PacketSegmentMetadata) (payload : Bytes)
    (entry : PacketSegments) :
    Outcome PacketSegmentJoinerError (Option (List Bytes) × PacketSegmentJoiner) :=
  if metadata.segmentCount ≠ entry.segments.length then .err .segmentMetadataMalformed
  else match entry.segments[metadata.segment]? with
    | none => .panic
    | some (some _) => .err .segmentRepeated
    | some none =>
      if entry.nonFilled = 0 then .panic
      else
        let entry : PacketSegments :=
          ⟨entry.segments.set metadata.segment (some payload), entry.nonFilled - 1⟩
        if entry.nonFilled = 0 then do
          let full ← Outcome.ofOption (entry.segments.mapM id)
          .ok (some full, j.removeEntry metadata.segmentKey)
        else .ok (none, j.setEntry metadata.segmentKey entry)

/-- The joiner as `add` leaves it, also when it returns an error. -/
def add (metadata : PacketSegmentMetadata) (payload : Bytes) (popFirstOnCapacity : Bool) :
    Act PacketSegmentJoiner PacketSegmentJoinerError (Option (List Bytes)) := do
  let j ← Act.get
  let (entry, j) ← Act.lift (j.entry metadata popFirstOnCapacity)
  Act.modify (fun _ => j)
  let (full, j) ← Act.lift (j.fill metadata payload entry)
  Act.modify (fun _ => j)
  pure full

end PacketSegmentJoiner

end Theta
