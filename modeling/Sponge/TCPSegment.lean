import Sponge.Lib.Offsets
import Sponge.Lib.Slice
import Sponge.WrappingIntegers

/-!
# Segments

`libsponge/tcp_helpers/tcp_header.hh`, `tcp_segment.cc` and the payload limit of
`tcp_config.hh`. Every header field has the default that the source gives it.
-/

namespace Sponge

open Offsets Slice

structure TCPHeader where
  sport : UInt16 := 0
  dport : UInt16 := 0
  seqno : WrappingInt32 := ⟨0⟩
  ackno : WrappingInt32 := ⟨0⟩
  doff : UInt8 := 5
  urg : Bool := false
  ack : Bool := false
  psh : Bool := false
  rst : Bool := false
  syn : Bool := false
  fin : Bool := false
  win : UInt16 := 0
  cksum : UInt16 := 0
  uptr : UInt16 := 0
  deriving Repr, DecidableEq

structure TCPSegment where
  header : TCPHeader := {}
  payload : List UInt8 := []
  deriving Repr, DecidableEq

namespace TCPConfig

def maxPayloadSize : Nat := 1000

end TCPConfig

namespace TCPSegment

def lengthInSequenceSpace (seg : TCPSegment) : Nat :=
  seg.payload.length + (if seg.header.syn then 1 else 0) + (if seg.header.fin then 1 else 0)

end TCPSegment

/-! ## Segments in a row -/

def seqLength (segs : List TCPSegment) : Nat := extent TCPSegment.lengthInSequenceSpace segs

/-- The segments with their absolute numbers, when the first one has number `n`. -/
def numbered (n : Nat) (segs : List TCPSegment) : List (Nat × TCPSegment) :=
  offsets TCPSegment.lengthInSequenceSpace n segs

variable {seg : TCPSegment} {segs : List TCPSegment} {n a : Nat}

@[simp] theorem seqLength_nil : seqLength [] = 0 := extent_nil

@[simp] theorem seqLength_cons : seqLength (seg :: segs) = seg.lengthInSequenceSpace + seqLength segs := extent_cons

@[simp] theorem seqLength_append (l m : List TCPSegment) : seqLength (l ++ m) = seqLength l + seqLength m :=
  extent_append

@[simp] theorem numbered_nil : numbered n [] = [] := rfl

@[simp] theorem numbered_cons :
    numbered n (seg :: segs) = (n, seg) :: numbered (n + seg.lengthInSequenceSpace) segs := rfl

theorem numbered_append (l m : List TCPSegment) : numbered n (l ++ m) = numbered n l ++ numbered (n + seqLength l) m :=
  offsets_append l m n

/-! ## Segments of a stream -/

/-- The segment is part of the stream `S`, and its sequence number stands for `a`. -/
structure SegmentAt (S : List UInt8) (isn : WrappingInt32) (seg : TCPSegment) (a : Nat) : Prop where
  seqno : seg.header.seqno = wrap a isn
  short : a ≤ S.length + 2
  syn : seg.header.syn = true → a = 0
  body : seg.payload ≠ [] ∨ seg.header.fin = true → seg.header.syn = true ∨ 1 ≤ a
  slice : IsSlice S (max a 1 - 1) seg.payload
  fin : seg.header.fin = true → max a 1 - 1 + seg.payload.length = S.length

instance (S : List UInt8) (isn : WrappingInt32) (seg : TCPSegment) : DecidablePred (SegmentAt S isn seg) :=
  fun a => decidable_of_iff
    ((seg.header.seqno = wrap a isn ∧ a ≤ S.length + 2 ∧ (seg.header.syn = true → a = 0)) ∧
      (seg.payload ≠ [] ∨ seg.header.fin = true → seg.header.syn = true ∨ 1 ≤ a) ∧
      IsSlice S (max a 1 - 1) seg.payload ∧
      (seg.header.fin = true → max a 1 - 1 + seg.payload.length = S.length))
    ⟨fun h => ⟨h.1.1, h.1.2.1, h.1.2.2, h.2.1, h.2.2.1, h.2.2.2⟩,
      fun h => ⟨⟨h.seqno, h.short, h.syn⟩, h.body, h.slice, h.fin⟩⟩

end Sponge
