import Sponge.Lib.Word64

/-!
# The byte stream

`libsponge/byte_stream.cc`. A string of bytes is a `List UInt8`. The counters
`alread` and `alwritten` count bytes that really passed, so they are plain
numbers.
-/

namespace Sponge

open Word64

structure ByteStream where
  error : Bool := false
  ended : Bool := false
  content : List UInt8 := []
  alread : Nat := 0
  alwritten : Nat := 0
  max : Nat := 0
  deriving Repr, DecidableEq

namespace ByteStream

def new (capacity : Nat) : ByteStream := { max := capacity }

def bufferSize (s : ByteStream) : Nat := s.content.length

def bufferEmpty (s : ByteStream) : Bool := s.content.isEmpty

def inputEnded (s : ByteStream) : Bool := s.ended

def eof (s : ByteStream) : Bool := s.ended && s.bufferEmpty

def bytesWritten (s : ByteStream) : Nat := s.alwritten

def bytesRead (s : ByteStream) : Nat := s.alread

def remainingCapacity (s : ByteStream) : Nat := sub64 s.max s.content.length

/-- The new stream, and how many bytes of `data` it took. -/
def write (s : ByteStream) (data : List UInt8) : ByteStream × Nat :=
  let size := if s.remainingCapacity ≥ data.length then data.length else s.remainingCapacity
  ({ s with content := s.content ++ data.take size, alwritten := s.alwritten + size }, size)

def peekOutput (s : ByteStream) (len : Nat) : List UInt8 :=
  let size := if s.bufferSize ≥ len then len else s.bufferSize
  s.content.take size

def popOutput (s : ByteStream) (len : Nat) : ByteStream :=
  let size := if s.bufferSize ≥ len then len else s.bufferSize
  { s with content := s.content.drop size, alread := s.alread + size }

/-- The bytes read, and the stream without them. -/
def read (s : ByteStream) (len : Nat) : List UInt8 × ByteStream :=
  let size := if s.bufferSize ≥ len then len else s.bufferSize
  (s.peekOutput size, s.popOutput size)

def endInput (s : ByteStream) : ByteStream := { s with ended := true }

def setError (s : ByteStream) : ByteStream := { s with error := true }

/-! ## What each operation does to the buffer -/

/-- The buffer fits the capacity, and the counters agree with it. -/
structure Inv (s : ByteStream) : Prop where
  fits : s.content.length ≤ s.max
  counted : s.alwritten = s.alread + s.content.length

instance (s : ByteStream) : Decidable s.Inv :=
  decidable_of_iff (s.content.length ≤ s.max ∧ s.alwritten = s.alread + s.content.length)
    ⟨fun h => ⟨h.1, h.2⟩, fun h => ⟨h.fits, h.counted⟩⟩

theorem inv_new (capacity : Nat) : (new capacity).Inv := ⟨by simp [new], by simp [new]⟩

theorem remainingCapacity_eq {s : ByteStream} (h : s.content.length ≤ s.max) (hmax : s.max < 2 ^ 64) :
    s.remainingCapacity = s.max - s.content.length := sub64_eq h hmax

theorem write_of_le {s : ByteStream} {data : List UInt8} (h : data.length ≤ s.remainingCapacity) :
    s.write data = ({ s with content := s.content ++ data, alwritten := s.alwritten + data.length },
      data.length) := by
  simp [write, h]

theorem write_spec (s : ByteStream) (data : List UInt8) :
    ∃ n ≤ data.length, s.write data =
      ({ s with content := s.content ++ data.take n, alwritten := s.alwritten + n }, n) := by
  unfold write
  split
  · exact ⟨_, Nat.le_refl _, rfl⟩
  · exact ⟨_, by omega, rfl⟩

theorem popOutput_eq (s : ByteStream) (len : Nat) :
    s.popOutput len = { s with content := s.content.drop (min len s.content.length),
                               alread := s.alread + min len s.content.length } := by
  unfold popOutput bufferSize
  split
  · rw [Nat.min_eq_left (by omega)]
  · rw [Nat.min_eq_right (by omega)]

theorem read_eq (s : ByteStream) (len : Nat) :
    s.read len = (s.content.take len, s.popOutput len) := by
  unfold read peekOutput popOutput bufferSize
  by_cases h : len ≤ s.content.length
  · simp [h]
  · simp [h, List.take_of_length_le (by omega : s.content.length ≤ len)]

theorem Inv.popOutput {s : ByteStream} (h : s.Inv) (len : Nat) : (s.popOutput len).Inv := by
  obtain ⟨hfits, hcounted⟩ := h
  rw [popOutput_eq]
  refine ⟨?_, ?_⟩
  · simp only [List.length_drop]
    omega
  · simp only [List.length_drop]
    omega

theorem Inv.endInput {s : ByteStream} (h : s.Inv) : s.endInput.Inv := ⟨h.fits, h.counted⟩

theorem Inv.write {s : ByteStream} (h : s.Inv) (hmax : s.max < 2 ^ 64) (data : List UInt8) :
    (s.write data).1.Inv := by
  obtain ⟨hfits, hcounted⟩ := h
  have hcap := remainingCapacity_eq hfits hmax
  unfold ByteStream.write
  split
  · refine ⟨?_, ?_⟩
    · simp only [List.take_length, List.length_append]
      omega
    · simp only [List.take_length, List.length_append]
      omega
  · refine ⟨?_, ?_⟩
    · simp only [List.length_append, List.length_take]
      omega
    · simp only [List.length_append, List.length_take]
      omega

end ByteStream

end Sponge
