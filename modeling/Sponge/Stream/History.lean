import Sponge.ByteStream
import Sponge.Lib.Run

/-!
# The byte stream is a bounded FIFO

A stream with its history: what was taken out, and what the writes put in. The
bytes come out in the order in which they went in, and the counters and the
capacity are those of the queue.
-/

namespace Sponge

open Run Word64

/-- A stream, the bytes that `read` and `pop_output` have taken off it, and the parts of the
written strings that it has accepted. -/
structure StreamTrace where
  s : ByteStream
  removed : List UInt8 := []
  accepted : List UInt8 := []
  deriving Repr, DecidableEq

inductive StreamOp where
  | write (data : List UInt8)
  | read (len : Nat)
  | peekOutput (len : Nat)
  | popOutput (len : Nat)
  | endInput
  deriving Repr, DecidableEq

namespace ByteStream

variable {s : ByteStream} {data : List UInt8}

theorem write_eq (s : ByteStream) (data : List UInt8) :
    s.write data = ({ s with content := s.content ++ data.take (min data.length s.remainingCapacity)
                             alwritten := s.alwritten + min data.length s.remainingCapacity },
      min data.length s.remainingCapacity) := by
  unfold write
  split
  · rw [Nat.min_eq_left (by omega)]
  · rw [Nat.min_eq_right (by omega)]

theorem peekOutput_eq_read (s : ByteStream) (len : Nat) : s.peekOutput len = (s.read len).1 := by
  rw [read_eq]
  unfold peekOutput bufferSize
  split
  · rfl
  · rw [List.take_length, List.take_of_length_le (by omega)]

theorem read_append_content (s : ByteStream) (len : Nat) :
    (s.read len).1 ++ (s.popOutput len).content = s.content := by
  rw [read_eq, popOutput_eq]
  have hdrop : s.content.drop (min len s.content.length) = s.content.drop len := by
    rcases Nat.le_total len s.content.length with h | h
    · rw [Nat.min_eq_left h]
    · rw [Nat.min_eq_right h, List.drop_length, List.drop_of_length_le h]
  rw [hdrop, List.take_append_drop]

end ByteStream

namespace StreamTrace

variable {t t' : StreamTrace} {op : StreamOp} {capacity : Nat}

def start (capacity : Nat) : StreamTrace := { s := ByteStream.new capacity }

def step (t : StreamTrace) : StreamOp → Option StreamTrace
  | .write data =>
    let (s, size) := t.s.write data
    some { t with s := s, accepted := t.accepted ++ data.take size }
  | .read len =>
    let (bytes, s) := t.s.read len
    some { t with s := s, removed := t.removed ++ bytes }
  | .peekOutput _ => some t
  | .popOutput len => some { t with s := t.s.popOutput len, removed := t.removed ++ t.s.peekOutput len }
  | .endInput => some { t with s := t.s.endInput }

/-- The history of a stream of the given capacity: nothing is lost, duplicated or reordered. -/
structure Fifo (capacity : Nat) (t : StreamTrace) : Prop where
  inv : t.s.Inv
  max : t.s.max = capacity
  order : t.removed ++ t.s.content = t.accepted

theorem fifo_start (capacity : Nat) : Fifo capacity (start capacity) := ⟨ByteStream.inv_new capacity, rfl, rfl⟩

theorem Fifo.pop (h : Fifo capacity t) (len : Nat) :
    Fifo capacity { t with s := t.s.popOutput len, removed := t.removed ++ (t.s.read len).1 } := by
  refine ⟨h.inv.popOutput len, ?_, ?_⟩
  · rw [ByteStream.popOutput_eq]
    exact h.max
  · rw [List.append_assoc, ByteStream.read_append_content]
    exact h.order

theorem Fifo.write (h : Fifo capacity t) (hcap : capacity < 2 ^ 64) (data : List UInt8) :
    Fifo capacity
      { t with s := (t.s.write data).1, accepted := t.accepted ++ data.take (t.s.write data).2 } := by
  have hmax : t.s.max < 2 ^ 64 := by
    rw [h.max]
    exact hcap
  refine ⟨h.inv.write hmax data, ?_, ?_⟩
  · rw [ByteStream.write_eq]
    exact h.max
  · rw [ByteStream.write_eq]
    simp only
    rw [← List.append_assoc, h.order]

theorem Fifo.step (hcap : capacity < 2 ^ 64) (h : Fifo capacity t) (op : StreamOp) :
    ∃ t', step t op = some t' ∧ Fifo capacity t' := by
  cases op with
  | write data => exact ⟨_, rfl, h.write hcap data⟩
  | read len =>
    refine ⟨_, ?_, h.pop len⟩
    simp only [StreamTrace.step, ByteStream.read_eq]
  | peekOutput len => exact ⟨t, rfl, h⟩
  | popOutput len =>
    refine ⟨_, rfl, ?_⟩
    rw [ByteStream.peekOutput_eq_read]
    exact h.pop len
  | endInput => exact ⟨_, rfl, h.inv.endInput, h.max, h.order⟩

/-- After any calls on a stream of any capacity: the bytes taken out and then those in the buffer
are the accepted ones in order, the counters differ by the size of the buffer, and the buffer and
what remains make up the capacity. From there a write takes as much as fits and says so, and
`peek_output` shows what `read` would give and leaves everything as it is. -/
theorem bounded_fifo (capacity : UInt64) (ops : List StreamOp) :
    ∃ t, run step (start capacity.toNat) ops = some t ∧
      t.removed ++ t.s.content = t.accepted ∧
      t.s.bytesRead ≤ t.s.bytesWritten ∧ t.s.bytesWritten - t.s.bytesRead = t.s.bufferSize ∧
      t.s.bufferSize ≤ capacity.toNat ∧ t.s.bufferSize + t.s.remainingCapacity = capacity.toNat ∧
      (∀ data, (t.s.write data).2 = min data.length t.s.remainingCapacity ∧
        (t.s.write data).1.content = t.s.content ++ data.take (min data.length t.s.remainingCapacity)) ∧
      ∀ len, step t (.peekOutput len) = some t ∧ t.s.peekOutput len = (t.s.read len).1 := by
  have hcap : capacity.toNat < 2 ^ 64 := capacity.toNat_lt
  have hany : AllSteps step (fun _ _ => True) (start capacity.toNat) ops := allSteps_of_forall fun _ _ => trivial
  obtain ⟨t, hrun, hfifo⟩ := exists_run_inv (I := Fifo capacity.toNat) (fun t op h _ => h.step hcap op)
    (fifo_start capacity.toNat) hany
  obtain ⟨⟨hfits, hcounted⟩, hmax, horder⟩ := hfifo
  have hremaining := ByteStream.remainingCapacity_eq hfits (hmax ▸ hcap)
  refine ⟨t, hrun, horder, ?_, ?_, hmax ▸ hfits, ?_, fun data => ?_, fun len => ?_⟩
  · unfold ByteStream.bytesRead ByteStream.bytesWritten
    omega
  · unfold ByteStream.bytesRead ByteStream.bytesWritten ByteStream.bufferSize
    omega
  · unfold ByteStream.bufferSize
    omega
  · rw [ByteStream.write_eq]
    exact ⟨rfl, rfl⟩
  · exact ⟨rfl, t.s.peekOutput_eq_read len⟩

example : run step (start 2) [.write [1, 2, 3], .popOutput 1, .write [4], .endInput, .read 9] =
    some { s := { ended := true, alread := 3, alwritten := 3, max := 2 }, removed := [1, 2, 4], accepted := [1, 2, 4] } := by
  decide

end StreamTrace

end Sponge
