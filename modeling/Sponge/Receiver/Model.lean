import Sponge.Reassembler.Model
import Sponge.TCPSegment

/-!
# The receiver

`libsponge/tcp_receiver.cc`. `segmentReceived` returns the new state and the
verdict on the window, or `none` when the reassembler throws.
-/

namespace Sponge

open Word64

structure TCPReceiver where
  reassembler : StreamReassembler
  capacity : Nat
  isn : WrappingInt32 := ⟨0⟩
  isnset : Bool := false
  finset : Bool := false
  deriving Repr, DecidableEq

namespace TCPReceiver

def new (capacity : Nat) : TCPReceiver :=
  { reassembler := StreamReassembler.new capacity, capacity := capacity }

def streamOut (r : TCPReceiver) : ByteStream := r.reassembler.output

def unassembledBytes (r : TCPReceiver) : Nat := r.reassembler.unassembledBytes

def windowSize (r : TCPReceiver) : Nat := r.streamOut.remainingCapacity

def ackno (r : TCPReceiver) : Option WrappingInt32 :=
  if r.isnset then
    let isend := r.finset && r.unassembledBytes == 0
    some (wrap (1 + r.streamOut.bytesWritten + (if isend then 1 else 0)) r.isn)
  else none

/-- The index in the stream at which the payload of a segment goes: `abs_n` after the
decrement, and 0 for the segment that starts the stream. -/
def streamIndex (r : TCPReceiver) (seg : TCPSegment) : Nat :=
  if r.isnset then
    let absn := unwrap seg.header.seqno r.isn r.streamOut.bytesWritten
    if seg.header.syn then absn else sub64 absn 1
  else 0

def segmentReceived (r : TCPReceiver) (seg : TCPSegment) : Option (TCPReceiver × Bool) :=
  let index := r.streamIndex seg
  if !r.isnset then
    if seg.header.syn then
      let r := { r with isn := seg.header.seqno, isnset := true, finset := seg.header.fin }
      match r.reassembler.pushSubstring seg.payload index seg.header.fin with
      | none => none
      | some reassembler => some ({ r with reassembler := reassembler }, true)
    else if seg.header.fin then some (r, true)
    else some (r, false)
  else
    let checkpoint := r.streamOut.bytesWritten
    let winSize := if r.windowSize = 0 then 1 else r.windowSize
    let length := if seg.payload.length = 0 then 1 else seg.payload.length
    match r.ackno with
    | none => none  -- `value()` of an empty optional
    | some ackno =>
      let winBegin := unwrap ackno r.isn checkpoint
      let winEnd := add64 winBegin winSize
      let left := unwrap seg.header.seqno r.isn checkpoint
      let right := add64 left length
      let inside := decide (winBegin < right) && decide (left < winEnd)
      match r.reassembler.pushSubstring seg.payload index seg.header.fin with
      | none => none
      | some reassembler =>
        let r := { r with reassembler := reassembler }
        let r := if seg.header.fin && !r.finset then { r with finset := true } else r
        some (r, inside)

def readOut (r : TCPReceiver) (len : Nat) : TCPReceiver :=
  { r with reassembler := r.reassembler.readOut len }

variable {r r' : TCPReceiver} {seg : TCPSegment} {inside : Bool}

theorem segmentReceived_cases (h : r.segmentReceived seg = some (r', inside)) :
    (r.isnset = false ∧ seg.header.syn = false ∧ r' = r) ∨
    ((r.isnset = true ∨ seg.header.syn = true) ∧
      ∃ ra, r.reassembler.pushSubstring seg.payload (r.streamIndex seg) seg.header.fin = some ra ∧
        r' = { r with
          reassembler := ra
          isn := if r.isnset then r.isn else seg.header.seqno
          isnset := true
          finset := seg.header.fin || (r.isnset && r.finset) }) := by
  unfold segmentReceived at h
  cases hset : r.isnset with
  | false =>
    simp only [hset, Bool.not_false, if_true] at h
    cases hsyn : seg.header.syn with
    | false =>
      left
      simp only [hsyn, Bool.false_eq_true, if_false] at h
      split_ifs at h
      all_goals
        simp only [Option.some.injEq, Prod.mk.injEq] at h
        exact ⟨rfl, rfl, h.1.symm⟩
    | true =>
      right
      simp only [hsyn, if_true] at h
      cases hp : r.reassembler.pushSubstring seg.payload (r.streamIndex seg) seg.header.fin with
      | none => simp [hp] at h
      | some ra =>
        simp only [hp, Option.some.injEq, Prod.mk.injEq] at h
        exact ⟨Or.inr rfl, ra, rfl, by rw [← h.1]; simp⟩
  | true =>
    right
    have hack : ∃ a, r.ackno = some a := by simp [ackno, hset]
    obtain ⟨a, hack⟩ := hack
    simp only [hset, hack, Bool.not_true, Bool.false_eq_true, if_false] at h
    cases hp : r.reassembler.pushSubstring seg.payload (r.streamIndex seg) seg.header.fin with
    | none => simp [hp] at h
    | some ra =>
      simp only [hp, Option.some.injEq, Prod.mk.injEq] at h
      refine ⟨Or.inl rfl, ra, rfl, ?_⟩
      rw [← h.1]
      -- A FIN sets the mark; without one the mark stays as it was.
      cases seg.header.fin with
      | false => simp
      | true => cases r.finset <;> simp

theorem streamIndex_eq {a : Nat} {isn : WrappingInt32} (hisn : r.isnset = true → r.isn = isn)
    (hnear : r.isnset = true → unwrap seg.header.seqno isn r.streamOut.bytesWritten = a) (ha : a < 2 ^ 64)
    (hsyn : seg.header.syn = true → a = 0) (hbody : seg.header.syn = true ∨ 1 ≤ a)
    (hset : r.isnset = true ∨ seg.header.syn = true) : r.streamIndex seg = max a 1 - 1 := by
  unfold streamIndex
  cases hr : r.isnset with
  | false =>
    rw [hsyn (hset.resolve_left (by simp [hr]))]
    simp
  | true =>
    simp only [if_true, hisn hr, hnear hr]
    cases hs : seg.header.syn with
    | true => simp [hsyn hs]
    | false =>
      have ha1 : 1 ≤ a := hbody.resolve_left (by simp [hs])
      simp only [Bool.false_eq_true, if_false]
      rw [sub64_eq ha1 ha]
      omega

end TCPReceiver

end Sponge
