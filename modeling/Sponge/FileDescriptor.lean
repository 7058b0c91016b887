import Mathlib.Algebra.Ring.Int.Defs
import Sponge.Lib.Run
import Sponge.Net.Parser

/-!
# Writing to a file descriptor

`BufferViewList` of `libsponge/util/buffer.cc`, `SystemCall` of `util/util.cc` and
`FileDescriptor::write` of `util/file_descriptor.cc`. The kernel is not part of the
code: what the calls of `writev` return is an argument, and each call takes as many
bytes from the front of the iovecs as it says.
-/

namespace Sponge

open Run

/-- The exceptions, with what they carry. -/
inductive Thrown where
  | outOfRange (what : String)
  | runtimeError (what : String)
  | unixError (attempt : String) (errno : Nat)
  deriving Repr, DecidableEq

/-! ## Views -/

/-- The loop of `remove_prefix`. Each turn takes a view off the front, or is the last one. -/
def removeFront : List Buffer → Nat → Except Thrown (List Buffer)
  | views, 0 => .ok views
  | [], _ + 1 => .error (.outOfRange "BufferListView::remove_prefix")
  | view :: views, n + 1 =>
    if n + 1 < view.length then .ok (view.drop (n + 1) :: views) else removeFront views (n + 1 - view.length)

theorem flatten_of_removeFront {views rest : List Buffer} {n : Nat} (h : removeFront views n = .ok rest) :
    rest.flatten = views.flatten.drop n := by
  fun_induction removeFront views n with
  | case1 views =>
    cases h
    rfl
  | case2 n => cases h
  | case3 view views n hlt =>
    cases h
    simp [List.drop_append_of_le_length (Nat.le_of_lt hlt)]
  | case4 view views n hge ih =>
    have hview : view.drop (n + 1) = [] := List.drop_of_length_le (by omega)
    rw [ih h, List.flatten_cons, List.drop_append, hview, List.nil_append]

theorem removeFront_of_le {views : List Buffer} {n : Nat} (h : n ≤ views.flatten.length) :
    ∃ rest, removeFront views n = .ok rest := by
  fun_induction removeFront views n with
  | case1 views => exact ⟨_, rfl⟩
  | case2 n => simp at h
  | case3 view views n hlt => exact ⟨_, rfl⟩
  | case4 view views n hge ih =>
    apply ih
    rw [List.flatten_cons, List.length_append] at h
    omega

theorem removeFront_of_lt {views : List Buffer} {n : Nat} (h : views.flatten.length < n) :
    removeFront views n = .error (.outOfRange "BufferListView::remove_prefix") := by
  fun_induction removeFront views n with
  | case1 views => omega
  | case2 n => rfl
  | case3 view views n hlt =>
    rw [List.flatten_cons, List.length_append] at h
    omega
  | case4 view views n hge ih =>
    apply ih
    rw [List.flatten_cons, List.length_append] at h
    omega

/-- The bytes of a list are counted in a `size_t` that `write` takes for an `ssize_t`. -/
structure BufferViewList where
  views : List Buffer
  fits : views.flatten.length < 2 ^ 63
  deriving DecidableEq

namespace BufferViewList

def size (b : BufferViewList) : Nat := (b.views.map List.length).sum

/-- The bytes that the list stands for. -/
def concatenate (b : BufferViewList) : Buffer := b.views.flatten

/-- An iovec is the bytes that it points to. -/
def asIovecs (b : BufferViewList) : List Buffer := b.views.map fun x => x

def removePrefix (b : BufferViewList) (n : Nat) : Except Thrown BufferViewList :=
  match h : removeFront b.views n with
  | .error thrown => .error thrown
  | .ok views => .ok {
      views := views
      fits := by
        rw [flatten_of_removeFront h, List.length_drop]
        exact Nat.lt_of_le_of_lt (Nat.sub_le _ _) b.fits }

variable {b rest : BufferViewList} {n : Nat}

theorem length_concatenate (b : BufferViewList) : b.concatenate.length = b.size := List.length_flatten

theorem size_lt (b : BufferViewList) : b.size < 2 ^ 63 := by
  rw [← length_concatenate]
  exact b.fits

theorem concatenate_of_removePrefix (h : b.removePrefix n = .ok rest) :
    rest.concatenate = b.concatenate.drop n := by
  unfold removePrefix at h
  split at h
  · cases h
  · rename_i views hviews
    cases h
    exact flatten_of_removeFront hviews

theorem removePrefix_of_le (h : n ≤ b.size) : ∃ rest, b.removePrefix n = .ok rest := by
  rw [← length_concatenate] at h
  obtain ⟨views, hviews⟩ := removeFront_of_le h
  unfold removePrefix
  split
  · rename_i hthrown
    rw [hviews] at hthrown
    cases hthrown
  · exact ⟨_, rfl⟩

theorem removePrefix_of_lt (h : b.size < n) :
    b.removePrefix n = .error (.outOfRange "BufferListView::remove_prefix") := by
  rw [← length_concatenate] at h
  have hthrows := removeFront_of_lt h
  unfold removePrefix
  split
  · rename_i hthrown
    rw [hthrows] at hthrown
    cases hthrown
    rfl
  · rename_i hviews
    rw [hthrows] at hviews
    cases hviews

end BufferViewList

/-! ## The call of `writev` -/

/-- What a system call returns, and what `errno` is after it. -/
structure SysResult where
  value : Int
  errno : Nat := 0
  deriving Repr, DecidableEq

/-- The conversion of an `ssize_t` to an `int`. -/
def toInt (value : Int) : Int := (value + 2 ^ 31) % 2 ^ 32 - 2 ^ 31

/-- The conversion of an `ssize_t` to a `size_t`. -/
def toSize (value : Int) : Nat := (value % 2 ^ 64).toNat

/-- The result of the call is passed on as an `int`. -/
def systemCall (attempt : String) (result : SysResult) (errnoMask : Nat) : Except Thrown Int :=
  if toInt result.value ≥ 0 ∨ result.errno = errnoMask then .ok (toInt result.value)
  else .error (.unixError attempt result.errno)

theorem toInt_of_lt {value : Int} (hnonneg : 0 ≤ value) (hlt : value < 2 ^ 31) : toInt value = value := by
  unfold toInt
  omega

theorem toInt_le {value : Int} (h : 0 ≤ value) : toInt value ≤ value := by
  unfold toInt
  omega

theorem toInt_lt (value : Int) : toInt value < 2 ^ 31 := by
  unfold toInt
  omega

structure FileDescriptor where
  writeCount : UInt32 := 0
  /-- What the kernel has taken, since the descriptor was opened. -/
  accepted : Buffer := []
  deriving Repr, DecidableEq

namespace FileDescriptor

def registerWrite (fd : FileDescriptor) : FileDescriptor := { fd with writeCount := fd.writeCount + 1 }

def writev (fd : FileDescriptor) (iovecs : List Buffer) (value : Int) : FileDescriptor :=
  { fd with accepted := fd.accepted ++ iovecs.flatten.take value.toNat }

/-- The descriptor and the variables of `write`. -/
structure Writing where
  fd : FileDescriptor
  buffer : BufferViewList
  totalBytesWritten : Nat := 0

/-- The last lines of a turn. -/
def advance (bytesWritten : Int) : EStateM Thrown Writing Unit := do
  modify fun w => { w with fd := w.fd.registerWrite }
  let rest ← MonadExcept.ofExcept ((← get).buffer.removePrefix (toSize bytesWritten))
  modify fun w => { w with buffer := rest, totalBytesWritten := w.totalBytesWritten + toSize bytesWritten }

/-- A turn of the loop in `write`. -/
def turn (result : SysResult) : EStateM Thrown Writing Unit := do
  let buffer := (← get).buffer
  modify fun w => { w with fd := w.fd.writev buffer.asIovecs result.value }
  let bytesWritten ← MonadExcept.ofExcept (systemCall "writev" result 0)
  if bytesWritten = 0 ∧ buffer.size ≠ 0 then
    throw (.runtimeError "write returned 0 given non-empty input buffer")
  else if bytesWritten > buffer.size then
    throw (.runtimeError "write wrote more than length of input buffer")
  else
    advance bytesWritten

/-- The loop, with the results of the calls of `writev`. Without a further one it waits for the
call. -/
def writeLoop (writeAll : Bool) : List SysResult → EStateM Thrown Writing (Option Nat)
  | [] => return none
  | result :: results => do
    turn result
    let w ← get
    if writeAll ∧ w.buffer.size ≠ 0 then writeLoop writeAll results
    else return some w.totalBytesWritten

def write (fd : FileDescriptor) (buffer : BufferViewList) (writeAll : Bool) (results : List SysResult) :
    EStateM.Result Thrown Writing (Option Nat) := (writeLoop writeAll results).run { fd := fd, buffer := buffer }

/-- The state in which the loop, writing all, calls `writev` again. -/
def step (w : Writing) (result : SysResult) : Option Writing :=
  match (turn result).run w with
  | .ok _ w' => if w'.buffer.size ≠ 0 then some w' else none
  | .error _ _ => none

/-- The kernel takes at least one byte, if there is one, and no more than there are. -/
def InRange (w : Writing) (result : SysResult) : Prop :=
  min 1 (w.buffer.size : Int) ≤ result.value ∧ result.value ≤ w.buffer.size

instance (w : Writing) (result : SysResult) : Decidable (InRange w result) := inferInstanceAs (Decidable (_ ∧ _))

/-- The result is the same number as an `int`. -/
def FitsInt (_ : Writing) (result : SysResult) : Prop := result.value < 2 ^ 31

instance (w : Writing) (result : SysResult) : Decidable (FitsInt w result) := inferInstanceAs (Decidable (_ < _))

/-! ## A turn of the loop -/

variable {w w' : Writing} {result : SysResult} {results : List SysResult}

theorem run_ofExcept {α : Type} (x : Except Thrown α) (w : Writing) :
    EStateM.run (MonadExcept.ofExcept x) w = match x with
      | .ok a => .ok a w
      | .error thrown => .error thrown w := by
  cases x <;> rfl

theorem nonneg_of_advance {v : Int} (hv : -2 ^ 31 ≤ v) (h : (advance v).run w = .ok () w') : 0 ≤ v := by
  by_contra hneg
  have hsize := w.buffer.size_lt
  have hthrows := BufferViewList.removePrefix_of_lt (b := w.buffer) (n := toSize v) (by unfold toSize; omega)
  unfold advance at h
  simp only [EStateM.run_bind, EStateM.run_get, EStateM.run_modify, run_ofExcept, hthrows] at h
  cases h

theorem advance_run {v : Int} (hv : 0 ≤ v) (hle : v ≤ w.buffer.size) :
    ∃ rest, w.buffer.removePrefix v.toNat = .ok rest ∧ (advance v).run w = .ok () {
      fd := w.fd.registerWrite, buffer := rest, totalBytesWritten := w.totalBytesWritten + v.toNat } := by
  have hsize := w.buffer.size_lt
  have hv' : toSize v = v.toNat := by
    unfold toSize
    omega
  obtain ⟨rest, hrest⟩ := BufferViewList.removePrefix_of_le (b := w.buffer) (n := v.toNat) (by omega)
  refine ⟨rest, hrest, ?_⟩
  unfold advance
  simp only [EStateM.run_bind, EStateM.run_get, EStateM.run_modify, run_ofExcept, hv', hrest]

/-- What a turn does: the kernel takes as many bytes as it says, and as many are taken off the
buffer as the `int` says. -/
structure Turned (w : Writing) (result : SysResult) (w' : Writing) : Prop where
  nonneg : 0 ≤ toInt result.value
  buffer : w'.buffer.concatenate = w.buffer.concatenate.drop (toInt result.value).toNat
  size : w'.buffer.size + (toInt result.value).toNat = w.buffer.size
  total : w'.totalBytesWritten = w.totalBytesWritten + (toInt result.value).toNat
  accepted : w'.fd.accepted = w.fd.accepted ++ w.buffer.concatenate.take result.value.toNat

theorem turned_of_advance (result : SysResult) (hv : 0 ≤ toInt result.value) (hle : toInt result.value ≤ w.buffer.size) :
    ∃ w', (advance (toInt result.value)).run { w with fd := w.fd.writev w.buffer.asIovecs result.value } = .ok () w' ∧
      Turned w result w' := by
  obtain ⟨rest, hrest, hrun⟩ :=
    advance_run (w := { w with fd := w.fd.writev w.buffer.asIovecs result.value }) hv hle
  have hbytes := BufferViewList.concatenate_of_removePrefix hrest
  refine ⟨_, hrun, hv, hbytes, ?_, rfl, ?_⟩
  · have hlength := congrArg List.length hbytes
    rw [List.length_drop, BufferViewList.length_concatenate, BufferViewList.length_concatenate] at hlength
    simp only at hlength ⊢
    omega
  · simp [writev, registerWrite, BufferViewList.asIovecs, BufferViewList.concatenate]

theorem turned_of_run (h : (turn result).run w = .ok () w') : Turned w result w' := by
  unfold turn at h
  simp only [EStateM.run_bind, EStateM.run_get, EStateM.run_modify, run_ofExcept, systemCall] at h
  split_ifs at h
  simp only at h
  split_ifs at h with hzero hmore
  · cases h
  · cases h
  · have hv : 0 ≤ toInt result.value := nonneg_of_advance (by unfold toInt; omega) h
    obtain ⟨w'', hrun, hturned⟩ := turned_of_advance (w := w) result hv (by omega)
    rw [hrun] at h
    cases h
    exact hturned

theorem fitsInt_of_eq (h : toInt result.value = result.value) : FitsInt w result := by
  unfold FitsInt
  rw [← h]
  exact toInt_lt _

theorem turn_run (hrange : InRange w result) (hint : FitsInt w result) :
    ∃ w', (turn result).run w = .ok () w' ∧ Turned w result w' := by
  obtain ⟨hmin, hmax⟩ := hrange
  have hvalue : toInt result.value = result.value := toInt_of_lt (by omega) hint
  obtain ⟨w', hrun, hturned⟩ := turned_of_advance (w := w) result (by omega) (by omega)
  refine ⟨w', ?_, hturned⟩
  unfold turn
  simp only [EStateM.run_bind, EStateM.run_get, EStateM.run_modify, run_ofExcept, systemCall]
  rw [if_pos (Or.inl (by omega))]
  simp only
  -- Neither of the two checks of the turn fails on a result in range.
  rw [if_neg (by omega), if_neg (by omega), hrun]

theorem step_of_run (h : (turn result).run w = .ok () w') (hmore : w'.buffer.size ≠ 0) : step w result = some w' := by
  unfold step
  rw [h]
  exact if_pos hmore

/-! ## The loop -/

theorem writeLoop_cons (h : (turn result).run w = .ok () w') :
    (writeLoop true (result :: results)).run w =
      if w'.buffer.size ≠ 0 then (writeLoop true results).run w' else .ok (some w'.totalBytesWritten) w' := by
  rw [writeLoop]
  simp only [EStateM.run_bind, EStateM.run_get, h, true_and]
  split_ifs <;> rfl

theorem writeLoop_ends (henough : max 1 w.buffer.size ≤ results.length) (hrange : AllSteps step InRange w results)
    (hint : AllSteps step FitsInt w results) :
    ∃ w', (writeLoop true results).run w = .ok (some (w.totalBytesWritten + w.buffer.size)) w' ∧
      w'.fd.accepted = w.fd.accepted ++ w.buffer.concatenate := by
  induction results generalizing w with
  | nil => simp at henough
  | cons result results ih =>
    have hhead : InRange w result := hrange.1
    have hvalue : FitsInt w result := hint.1
    obtain ⟨w₁, hrun, hturned⟩ := turn_run hhead hvalue
    obtain ⟨hmin, hmax⟩ := hhead
    have hexact : toInt result.value = result.value := toInt_of_lt (by omega) hvalue
    obtain ⟨-, hbuffer, hsize, htotal, haccepted⟩ := hturned
    rw [hexact] at hbuffer hsize htotal
    rw [writeLoop_cons hrun]
    split_ifs with hmore
    · -- A turn that leaves something has written at least one byte, so the results are enough.
      rw [List.length_cons] at henough
      have hstep := step_of_run hrun hmore
      obtain ⟨w', hw', hall⟩ := ih (w := w₁) (by omega) (hrange.cons hstep).2 (hint.cons hstep).2
      refine ⟨w', ?_, ?_⟩
      · rw [hw', htotal]
        congr 2
        omega
      · rw [hall, haccepted, hbuffer, List.append_assoc, List.take_append_drop]
    · -- The last turn has taken all that was left.
      have hlast : result.value.toNat = w.buffer.size := by omega
      refine ⟨w₁, ?_, ?_⟩
      · rw [htotal, hlast]
      · rw [haccepted, hlast, ← BufferViewList.length_concatenate, List.take_length]

theorem writeLoop_accepts {n : Nat} (hrange : AllSteps step InRange w results)
    (h : (writeLoop true results).run w = .ok (some n) w') :
    w.fd.accepted.length + w.buffer.size ≤ w'.fd.accepted.length ∧
      (w'.fd.accepted.length = w.fd.accepted.length + w.buffer.size → AllSteps step FitsInt w results) := by
  induction results generalizing w with
  | nil => cases h
  | cons result results ih =>
    obtain ⟨hmin, hmax⟩ : InRange w result := hrange.1
    match hrun : (turn result).run w with
    | .error thrown w₁ => simp [writeLoop, hrun] at h
    | .ok () w₁ =>
      obtain ⟨hnonneg, -, hsize, -, haccepted⟩ := turned_of_run hrun
      have hlength := congrArg List.length haccepted
      rw [List.length_append, List.length_take, BufferViewList.length_concatenate] at hlength
      have hle : toInt result.value ≤ result.value := toInt_le (by omega)
      have hint : toInt result.value = result.value → FitsInt w result := fitsInt_of_eq
      rw [writeLoop_cons hrun] at h
      split_ifs at h with hmore
      · -- What was taken and not counted stays uncounted.
        have hstep := step_of_run hrun hmore
        obtain ⟨hless, hints⟩ := ih (hrange.cons hstep).2 h
        refine ⟨by omega, fun heq => ?_⟩
        apply allSteps_cons (hint (by omega))
        intro w₂ hw₂
        rw [hstep] at hw₂
        cases hw₂
        exact hints (by omega)
      · cases h
        refine ⟨by omega, fun heq => ?_⟩
        apply allSteps_cons (hint (by omega))
        intro w₂ hw₂
        simp only [step, hrun, if_neg hmore] at hw₂
        cases hw₂

/-! ## What is written -/

/-- A view of `n` zeros. -/
def zeros (n : Nat) (h : n < 2 ^ 63) : BufferViewList where
  views := [List.replicate n 0]
  fits := by
    rw [List.flatten_singleton, List.length_replicate]
    exact h

theorem size_zeros {n : Nat} (h : n < 2 ^ 63) : (zeros n h).size = n := by
  rw [← BufferViewList.length_concatenate]
  unfold BufferViewList.concatenate zeros
  rw [List.flatten_singleton, List.length_replicate]

theorem throws_of_size {buffer : BufferViewList} (hsize : buffer.size = 2 ^ 32) (fd : FileDescriptor) :
    fd.write buffer true [{ value := 2 ^ 32 }] =
      .error (.runtimeError "write returned 0 given non-empty input buffer")
        { fd := { fd with accepted := fd.accepted ++ buffer.concatenate }, buffer := buffer } := by
  have hzero : toInt (2 ^ 32) = 0 := by decide
  have hall : buffer.concatenate.take (2 ^ 32) = buffer.concatenate := by
    rw [← hsize, ← BufferViewList.length_concatenate, List.take_length]
  have hwritev : fd.writev buffer.asIovecs (2 ^ 32) = { fd with accepted := fd.accepted ++ buffer.concatenate } := by
    unfold writev BufferViewList.asIovecs
    rw [List.map_id']
    exact congrArg (fun taken => { fd with accepted := fd.accepted ++ taken }) hall
  unfold write
  rw [writeLoop, turn]
  simp only [EStateM.run_bind, EStateM.run_get, EStateM.run_modify, run_ofExcept, systemCall, hzero, hwritev,
    or_true, if_true]
  rw [if_pos ⟨trivial, by omega⟩]
  rfl

/-- The bytes have all been written when `write` throws. -/
theorem large_result_taken_for_zero :
    let buffer := zeros (2 ^ 32) (by decide)
    InRange { fd := {}, buffer := buffer } { value := 2 ^ 32 } ∧
      write {} buffer true [{ value := 2 ^ 32 }] =
        .error (.runtimeError "write returned 0 given non-empty input buffer")
          { fd := { accepted := buffer.concatenate }, buffer := buffer } := by
  intro buffer
  have hsize : buffer.size = 2 ^ 32 := size_zeros _
  refine ⟨?_, throws_of_size hsize {}⟩
  unfold InRange
  simp only [hsize]
  omega

/-- Removing what was written leaves the rest. The loop of `write` then hands over all bytes, once
and in order, if and only if no call of `writev` takes more bytes than an `int` can count. -/
theorem partial_writes_exact (fd : FileDescriptor) (buffer : BufferViewList) (results : List SysResult)
    (henough : max 1 buffer.size ≤ results.length)
    (hrange : AllSteps step InRange { fd := fd, buffer := buffer } results) :
    (∀ n ≤ buffer.size, ∃ rest, buffer.removePrefix n = .ok rest ∧
      rest.concatenate = buffer.concatenate.drop n) ∧
    (∀ n, buffer.size < n →
      buffer.removePrefix n = .error (.outOfRange "BufferListView::remove_prefix")) ∧
    ((∃ w, fd.write buffer true results = .ok (some buffer.size) w ∧
        w.fd.accepted = fd.accepted ++ buffer.concatenate) ↔
      AllSteps step FitsInt { fd := fd, buffer := buffer } results) := by
  refine ⟨?_, fun n => BufferViewList.removePrefix_of_lt, ?_, ?_⟩
  · intro n hn
    obtain ⟨rest, hrest⟩ := BufferViewList.removePrefix_of_le hn
    exact ⟨rest, hrest, BufferViewList.concatenate_of_removePrefix hrest⟩
  · rintro ⟨w, hwrite, haccepted⟩
    apply (writeLoop_accepts hrange hwrite).2
    rw [haccepted, List.length_append, BufferViewList.length_concatenate]
  · intro hint
    obtain ⟨w, hwrite, haccepted⟩ := writeLoop_ends henough hrange hint
    rw [Nat.zero_add] at hwrite
    exact ⟨w, hwrite, haccepted⟩

theorem partial_writes_exact_views :
    let buffer : BufferViewList := { views := [[1, 2], [], [3, 4, 5]], fits := by decide }
    let results : List SysResult := List.map (fun value => { value := value }) [1, 3, 1, 7, 7]
    AllSteps step InRange { fd := {}, buffer := buffer } results ∧
      ∃ w, write {} buffer true results = .ok (some 5) w ∧ w.fd.accepted = [1, 2, 3, 4, 5] := by
  intro buffer results
  have hrange : AllSteps step InRange { fd := {}, buffer := buffer } results := by decide
  exact ⟨hrange, (partial_writes_exact {} buffer results (by decide) hrange).2.2.mpr (by decide)⟩

end FileDescriptor

end Sponge
