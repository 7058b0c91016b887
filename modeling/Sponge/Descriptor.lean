import Sponge.ByteStream
import Sponge.FileDescriptor

/-!
# A descriptor that is polled

The shared `FDWrapper` of `libsponge/util/file_descriptor.hh` with the functions
that read, write once and close. The kernel is not part of the code: what its calls
return is an argument. The bytes that it has handed over and taken are kept as a
record.
-/

namespace Sponge

/-- `EAGAIN` -/
def eagain : Nat := 11

theorem eagain_ne_zero : eagain ≠ 0 := by decide

/-- What a call of `read` brings: bytes, as many as an `int` can count, or an error. -/
inductive ReadResult where
  | bytes (data : Buffer) (fits : data.length < 2 ^ 31)
  | failed (errno : Nat) (real : errno ≠ 0)
  deriving DecidableEq

namespace ReadResult

/-- No bytes, which is the end of the input. -/
def nothing : ReadResult := .bytes [] (by decide)

def again : ReadResult := .failed eagain eagain_ne_zero

def data : ReadResult → Buffer
  | .bytes data _ => data
  | .failed _ _ => []

def sys : ReadResult → SysResult
  | .bytes data _ => { value := data.length }
  | .failed errno _ => { value := -1, errno := errno }

end ReadResult

/-- What a call of `writev` returns: how many bytes were taken, as an `int`, or an error. -/
inductive WriteResult where
  | count (n : Nat) (fits : n < 2 ^ 31)
  | failed (errno : Nat) (real : errno ≠ 0)
  deriving DecidableEq

def WriteResult.nothing : WriteResult := .count 0 (by decide)

def WriteResult.sys : WriteResult → SysResult
  | .count n _ => { value := n }
  | .failed errno _ => { value := -1, errno := errno }

/-- What is thrown when the kernel reports an error or returns what a call cannot return. -/
def kernelErrors : List String :=
  ["read() read more than requested", "write returned 0 given non-empty input buffer",
    "write wrote more than length of input buffer", "EventLoop: error on polled file descriptor"]

/-- It was the kernel, and not the program. -/
def ByKernel : Thrown → Prop
  | .outOfRange _ => False
  | .runtimeError what => what ∈ kernelErrors
  | .unixError _ _ => True

instance : DecidablePred ByKernel
  | .outOfRange _ => inferInstanceAs (Decidable False)
  | .runtimeError what => inferInstanceAs (Decidable (what ∈ kernelErrors))
  | .unixError _ _ => inferInstanceAs (Decidable True)

structure FDWrapper where
  eof : Bool := false
  closed : Bool := false
  readCount : UInt32 := 0
  /-- Every byte that `read` has returned. -/
  supplied : Buffer := []
  /-- The writing half, with its count and every byte that the kernel took. -/
  out : FileDescriptor := {}
  deriving Repr, DecidableEq

namespace FileDescriptor

theorem writeCount_of_run {w w' : Writing} {result : SysResult} (h : (turn result).run w = .ok () w') :
    w'.fd.writeCount = w.fd.writeCount + 1 := by
  have hv := (turned_of_run h).nonneg
  unfold turn at h
  simp only [EStateM.run_bind, EStateM.run_get, EStateM.run_modify, run_ofExcept, systemCall, if_pos (Or.inl hv)] at h
  split_ifs at h with hzero hmore
  · cases h
  · cases h
  · obtain ⟨rest, -, hrun⟩ :=
      advance_run (w := { w with fd := w.fd.writev w.buffer.asIovecs result.value }) hv (by simp only; omega)
    rw [hrun] at h
    cases h
    rfl

theorem turn_error {w w' : Writing} {result : SysResult} {thrown : Thrown}
    (h : (turn result).run w = .error thrown w') (hmask : result.errno = 0 → 0 ≤ toInt result.value) : ByKernel thrown := by
  unfold turn at h
  simp only [EStateM.run_bind, EStateM.run_get, EStateM.run_modify, run_ofExcept, systemCall] at h
  split_ifs at h with hok
  · simp only at h
    have hv : 0 ≤ toInt result.value := hok.elim id hmask
    split_ifs at h with hzero hmore
    · cases h
      decide
    · cases h
      decide
    · obtain ⟨rest, -, hrun⟩ :=
        advance_run (w := { w with fd := w.fd.writev w.buffer.asIovecs result.value }) hv (by simp only; omega)
      rw [hrun] at h
      cases h
  · cases h
    exact trivial

end FileDescriptor

namespace FDWrapper

/-- The local `BUFFER_SIZE` of `read`. -/
def bufferSize : Nat := 1024 * 1024

def registerRead (fd : FDWrapper) : FDWrapper := { fd with readCount := fd.readCount + 1 }

def read (fd : FDWrapper) (limit : Nat) (result : ReadResult) : Except Thrown (FDWrapper × Buffer) :=
  let sizeToRead := min bufferSize limit
  match systemCall "read" result.sys 0 with
  | .error thrown => .error thrown
  | .ok bytesRead =>
    let fd := if limit > 0 ∧ bytesRead = 0 then { fd with eof := true } else fd
    if bytesRead > sizeToRead then .error (.runtimeError "read() read more than requested")
    else .ok ({ fd with supplied := fd.supplied ++ result.data }.registerRead, result.data)

/-- `write` of a string with `write_all` false: the loop has one turn. -/
def write (fd : FDWrapper) (data : Buffer) (fits : data.length < 2 ^ 63) (result : WriteResult) :
    Except Thrown (FDWrapper × Nat) :=
  match (FileDescriptor.turn result.sys).run { fd := fd.out, buffer := ⟨[data], by simpa using fits⟩ } with
  | .error thrown _ => .error thrown
  | .ok () w => .ok ({ fd with out := w.fd }, w.totalBytesWritten)

/-- `Socket::shutdown(SHUT_WR)` of `util/socket.cc`, with what the kernel returns. -/
def shutdownWrite (fd : FDWrapper) (result : SysResult) : Except Thrown FDWrapper :=
  match systemCall "shutdown" result 0 with
  | .error thrown => .error thrown
  | .ok _ => .ok { fd with out := fd.out.registerWrite }

def close (fd : FDWrapper) (result : SysResult) : Except Thrown FDWrapper :=
  match systemCall "close" result 0 with
  | .error thrown => .error thrown
  | .ok _ => .ok { fd with eof := true, closed := true }

variable {fd fd' : FDWrapper} {limit n : Nat} {data : Buffer}

theorem systemCall_error {attempt : String} {result : SysResult} {mask : Nat} {thrown : Thrown}
    (h : systemCall attempt result mask = .error thrown) : ByKernel thrown := by
  unfold systemCall at h
  split_ifs at h
  cases h
  exact trivial

theorem shutdownWrite_eq {result : SysResult} (h : fd.shutdownWrite result = .ok fd') :
    fd' = { fd with out := fd.out.registerWrite } := by
  unfold shutdownWrite at h
  split at h
  · cases h
  · cases h
    rfl

theorem shutdownWrite_error {result : SysResult} {thrown : Thrown} (h : fd.shutdownWrite result = .error thrown) :
    ByKernel thrown := by
  unfold shutdownWrite at h
  split at h
  · rename_i hcall
    cases h
    exact systemCall_error hcall
  · cases h

theorem close_error {result : SysResult} {thrown : Thrown} (h : fd.close result = .error thrown) : ByKernel thrown := by
  unfold close at h
  split at h
  · rename_i hcall
    cases h
    exact systemCall_error hcall
  · cases h

theorem read_cases {result : ReadResult} (h : fd.read limit result = .ok (fd', data)) :
    data.length ≤ limit ∧ data.length ≤ bufferSize ∧ fd' = { fd with
      eof := fd.eof || (decide (0 < limit) && data.isEmpty)
      readCount := fd.readCount + 1
      supplied := fd.supplied ++ data } := by
  unfold read systemCall at h
  cases result with
  | failed errno real => simp [ReadResult.sys, toInt, real] at h
  | bytes bytes fits =>
    have hvalue : toInt (bytes.length : Int) = bytes.length := toInt_of_lt (by omega) (by omega)
    simp only [ReadResult.sys, ReadResult.data, hvalue, Int.natCast_nonneg, ge_iff_le, true_or, if_true] at h
    split_ifs at h with hmore hzero
    all_goals
      obtain ⟨rfl, rfl⟩ := Prod.mk.inj (Except.ok.inj h)
      refine ⟨by omega, by omega, ?_⟩
    · -- A read of no bytes where some were asked for is the end.
      have hempty : bytes = [] := List.eq_nil_of_length_eq_zero (by omega)
      simp [registerRead, hempty, hzero.1]
    · have hopen : (decide (0 < limit) && bytes.isEmpty) = false := by
        simp only [Bool.and_eq_false_iff, decide_eq_false_iff_not, List.isEmpty_eq_false_iff]
        by_cases hlimit : 0 < limit
        · right
          rintro rfl
          exact hzero ⟨hlimit, rfl⟩
        · exact Or.inl hlimit
      simp [registerRead, hopen]

theorem read_bytes {result : ReadResult} (h : fd.read limit result = .ok (fd', data)) :
    ∃ fits, result = .bytes data fits := by
  unfold read systemCall at h
  cases result with
  | failed errno real => simp [ReadResult.sys, toInt, real] at h
  | bytes bytes fits =>
    have hvalue : toInt (bytes.length : Int) = bytes.length := toInt_of_lt (by omega) (by omega)
    simp only [ReadResult.sys, ReadResult.data, hvalue, Int.natCast_nonneg, ge_iff_le, true_or, if_true] at h
    split_ifs at h with hmore hzero
    all_goals
      obtain ⟨-, rfl⟩ := Prod.mk.inj (Except.ok.inj h)
      exact ⟨fits, rfl⟩

theorem read_error {result : ReadResult} {thrown : Thrown} (h : fd.read limit result = .error thrown) :
    ByKernel thrown := by
  unfold read at h
  simp only at h
  split at h
  · rename_i hcall
    cases h
    exact systemCall_error hcall
  · by_cases hmore : ‹Int› > ((min bufferSize limit : Nat) : Int)
    · rw [if_pos hmore] at h
      cases h
      decide
    · rw [if_neg hmore] at h
      cases h

theorem write_cases {fits : data.length < 2 ^ 63} {result : WriteResult}
    (h : fd.write data fits result = .ok (fd', n)) :
    n ≤ data.length ∧ fd' = { fd with out :=
      { writeCount := fd.out.writeCount + 1, accepted := fd.out.accepted ++ data.take n } } := by
  unfold write at h
  split at h
  · cases h
  rename_i w hrun
  obtain ⟨rfl, rfl⟩ := Prod.mk.inj (Except.ok.inj h)
  have hturned := FileDescriptor.turned_of_run hrun
  have hcount := FileDescriptor.writeCount_of_run hrun
  cases result with
  | failed errno real =>
    -- A call that fails ends the turn with an exception.
    have := hturned.nonneg
    simp [WriteResult.sys, toInt] at this
  | count m hm =>
    have hvalue : toInt (m : Int) = m := toInt_of_lt (by omega) (by omega)
    have htotal := hturned.total
    have hsize := hturned.size
    have haccepted := hturned.accepted
    simp only [WriteResult.sys, hvalue, Int.toNat_natCast, Nat.zero_add] at htotal hsize haccepted
    simp only [BufferViewList.size, BufferViewList.concatenate, List.map_cons, List.map_nil, List.sum_cons,
      List.sum_nil, Nat.add_zero, List.flatten_cons, List.flatten_nil, List.append_nil] at hsize haccepted
    refine ⟨by omega, ?_⟩
    rw [htotal, ← haccepted, ← hcount]

theorem write_error {fits : data.length < 2 ^ 63} {result : WriteResult} {thrown : Thrown}
    (h : fd.write data fits result = .error thrown) : ByKernel thrown := by
  unfold write at h
  split at h
  · rename_i hrun
    cases h
    refine FileDescriptor.turn_error hrun ?_
    cases result with
    | count m hm =>
      intro _
      rw [WriteResult.sys, toInt_of_lt (by simp) (by simp only; omega)]
      simp
    | failed errno real => exact fun hzero => absurd hzero real
  · cases h

/-! ## Writing from a stream -/

theorem length_peekOutput_le (stream : ByteStream) (len : Nat) : (stream.peekOutput len).length ≤ len := by
  unfold ByteStream.peekOutput
  split_ifs <;> simp only [List.length_take] <;> omega

theorem peekOutput_eq (stream : ByteStream) (len : Nat) : stream.peekOutput len = stream.content.take len := by
  unfold ByteStream.peekOutput ByteStream.bufferSize
  split_ifs with h
  · rfl
  · rw [List.take_of_length_le (Nat.le_refl _), List.take_of_length_le (by omega)]

/-- A piece of the stream, at most `limit` bytes, is written, and as much is popped as was written. -/
def writeFrom (fd : FDWrapper) (limit : Nat) (small : limit < 2 ^ 63) (stream : ByteStream) (result : WriteResult) :
    Except Thrown (FDWrapper × ByteStream) :=
  let amountToWrite := min limit stream.bufferSize
  have fits : (stream.peekOutput amountToWrite).length < 2 ^ 63 := by
    have hlen := length_peekOutput_le stream amountToWrite
    have hmin : amountToWrite ≤ limit := Nat.min_le_left _ _
    omega
  match fd.write (stream.peekOutput amountToWrite) fits result with
  | .error thrown => .error thrown
  | .ok (fd, bytesWritten) => .ok (fd, stream.popOutput bytesWritten)

theorem writeFrom_cases {small : limit < 2 ^ 63} {stream stream' : ByteStream} {result : WriteResult}
    (h : fd.writeFrom limit small stream result = .ok (fd', stream')) :
    ∃ n ≤ stream.content.length, stream' = stream.popOutput n ∧ fd' = { fd with out :=
      { writeCount := fd.out.writeCount + 1, accepted := fd.out.accepted ++ stream.content.take n } } := by
  unfold writeFrom at h
  simp only at h
  split at h
  · cases h
  rename_i fd₁ n hwrite
  obtain ⟨hle, rfl⟩ := write_cases hwrite
  obtain ⟨rfl, rfl⟩ := Prod.mk.inj (Except.ok.inj h)
  rw [peekOutput_eq, List.length_take] at hle
  refine ⟨n, by omega, rfl, ?_⟩
  rw [peekOutput_eq, List.take_take, Nat.min_eq_left (by omega)]

theorem writeFrom_error {small : limit < 2 ^ 63} {stream : ByteStream} {result : WriteResult} {thrown : Thrown}
    (h : fd.writeFrom limit small stream result = .error thrown) : ByKernel thrown := by
  unfold writeFrom at h
  simp only at h
  split at h
  · rename_i hwrite
    cases h
    exact write_error hwrite
  · cases h

end FDWrapper

end Sponge
