import Sponge.ByteStream
import Sponge.EventLoop.Moves
import Sponge.Lib.Run

/-!
# Copying between the terminal and a socket

`apps/bidirectional_stream_copy.cc`: four rules that read from the standard input
into a stream, from the stream into the socket, and the same the other way round.
Every byte is copied once and in order, and an end is passed on only when all that
came before it was.
-/

namespace Sponge

open EventLoop Relation Run

namespace StreamCopy

def maxCopyLength : Nat := 65536

def bufferSize : Nat := 1048576

/-- What the kernel answers to the calls of one callback: a read or a write, and the `shutdown` or
`close` that can follow. -/
structure Answer where
  read : ReadResult := .nothing
  write : WriteResult := .nothing
  control : SysResult := { value := 0 }
  deriving DecidableEq

instance : Inhabited Answer := ⟨{}⟩

/-- The variables of `bidirectional_stream_copy`. -/
structure Copy where
  input : FDWrapper := {}
  output : FDWrapper := {}
  socket : FDWrapper := {}
  outbound : ByteStream := .new bufferSize
  inbound : ByteStream := .new bufferSize
  outboundShutdown : Bool := false
  inboundShutdown : Bool := false
  deriving Repr, DecidableEq

/-- `stream.write(fd.read(stream.remaining_capacity()))`, and the end when `fd` has reached it. -/
def pull (fd : FDWrapper) (stream : ByteStream) (result : ReadResult) : Except Thrown (FDWrapper × ByteStream) :=
  match fd.read stream.remainingCapacity result with
  | .error thrown => .error thrown
  | .ok (fd, data) =>
    let stream := (stream.write data).1
    .ok (fd, if fd.eof then stream.endInput else stream)

def push (fd : FDWrapper) (stream : ByteStream) (result : WriteResult) : Except Thrown (FDWrapper × ByteStream) :=
  fd.writeFrom maxCopyLength (by decide) stream result

/-! ## The rules -/

inductive RuleName where
  | rule1
  | rule2
  | rule3
  | rule4
  deriving Repr, DecidableEq

def callback1 (answer : Answer) (s : Copy) : Except Thrown Copy :=
  match pull s.input s.outbound answer.read with
  | .error thrown => .error thrown
  | .ok (input, outbound) => .ok { s with input := input, outbound := outbound }

def callback2 (answer : Answer) (s : Copy) : Except Thrown Copy :=
  match push s.socket s.outbound answer.write with
  | .error thrown => .error thrown
  | .ok (socket, outbound) =>
    if outbound.eof then
      match socket.shutdownWrite answer.control with
      | .error thrown => .error thrown
      | .ok socket => .ok { s with socket := socket, outbound := outbound, outboundShutdown := true }
    else .ok { s with socket := socket, outbound := outbound }

def callback3 (answer : Answer) (s : Copy) : Except Thrown Copy :=
  match pull s.socket s.inbound answer.read with
  | .error thrown => .error thrown
  | .ok (socket, inbound) => .ok { s with socket := socket, inbound := inbound }

def callback4 (answer : Answer) (s : Copy) : Except Thrown Copy :=
  match push s.output s.inbound answer.write with
  | .error thrown => .error thrown
  | .ok (output, inbound) =>
    if inbound.eof then
      match output.close answer.control with
      | .error thrown => .error thrown
      | .ok output => .ok { s with output := output, inbound := inbound, inboundShutdown := true }
    else .ok { s with output := output, inbound := inbound }

/-- The `interest` of the rules that read, for the stream they fill and the other one. -/
def wantsBytes (stream other : ByteStream) : Bool := !stream.error && stream.remainingCapacity > 0 && !other.error

/-- The `interest` of the rules that write. -/
def hasBytes (stream : ByteStream) (shutdown : Bool) : Bool := !stream.bufferEmpty || (stream.eof && !shutdown)

def endOutbound (s : Copy) : Except Thrown Copy := .ok { s with outbound := s.outbound.endInput }

def endInbound (s : Copy) : Except Thrown Copy := .ok { s with inbound := s.inbound.endInput }

def table : RuleName → Rule Copy Answer
  | .rule1 =>
    { fd := Copy.input, direction := .pollIn, callback := callback1
      interest := fun s => wantsBytes s.outbound s.inbound, cancel := endOutbound }
  | .rule2 =>
    { fd := Copy.socket, direction := .pollOut, callback := callback2
      interest := fun s => hasBytes s.outbound s.outboundShutdown, cancel := endOutbound }
  | .rule3 =>
    { fd := Copy.socket, direction := .pollIn, callback := callback3
      interest := fun s => wantsBytes s.inbound s.outbound, cancel := endInbound }
  | .rule4 =>
    { fd := Copy.output, direction := .pollOut, callback := callback4
      interest := fun s => hasBytes s.inbound s.inboundShutdown, cancel := endInbound }

def rules : List RuleName := addRule (addRule (addRule (addRule [] .rule1) .rule2) .rule3) .rule4

/-- A turn of the loop until completion. `none` is an exception, and an exit returns. -/
def step (l : List RuleName × Copy) (poll : Poll Answer) : Option (List RuleName × Copy) :=
  match waitNextEvent table l.1 l.2 poll with
  | .error _ => none
  | .ok (_, rules, s) => some (rules, s)

/-! ## What the callbacks do -/

theorem pull_cases {fd fd' : FDWrapper} {stream stream' : ByteStream} {result : ReadResult}
    (h : pull fd stream result = .ok (fd', stream')) :
    ∃ data, data.length ≤ stream.remainingCapacity ∧ (fd.eof = true → fd'.eof = true) ∧ fd'.out = fd.out ∧
      fd'.readCount = fd.readCount + 1 ∧ fd'.supplied = fd.supplied ++ data ∧ stream' = { stream with
        content := stream.content ++ data
        alwritten := stream.alwritten + data.length
        ended := stream.ended || fd'.eof } := by
  unfold pull at h
  split at h
  · cases h
  rename_i fd₁ data hread
  obtain ⟨hlimit, -, hfd⟩ := FDWrapper.read_cases hread
  obtain ⟨rfl, hstream⟩ := Prod.mk.inj (Except.ok.inj h)
  refine ⟨data, hlimit, fun heof => by simp [hfd, heof], by rw [hfd], by rw [hfd], by rw [hfd], ?_⟩
  rw [← hstream, ByteStream.write_of_le hlimit]
  cases fd₁.eof with
  | true => simp [ByteStream.endInput]
  | false => simp

theorem push_cases {fd fd' : FDWrapper} {stream stream' : ByteStream} {result : WriteResult}
    (h : push fd stream result = .ok (fd', stream')) :
    ∃ n ≤ stream.content.length, fd' = { fd with out :=
        { writeCount := fd.out.writeCount + 1, accepted := fd.out.accepted ++ stream.content.take n } } ∧
      stream' = { stream with content := stream.content.drop n, alread := stream.alread + n } := by
  obtain ⟨n, hle, rfl, hfd⟩ := FDWrapper.writeFrom_cases h
  exact ⟨n, hle, hfd, by rw [ByteStream.popOutput_eq, Nat.min_eq_left hle]⟩

/-! ## The two directions -/

inductive Half where
  | outbound
  | inbound

/-- One direction: where the bytes come from and go to, the stream between, and its flag. -/
structure View where
  src : FDWrapper
  dst : FDWrapper
  stream : ByteStream
  shut : Bool

def view : Half → Copy → View
  | .outbound, s => ⟨s.input, s.socket, s.outbound, s.outboundShutdown⟩
  | .inbound, s => ⟨s.socket, s.output, s.inbound, s.inboundShutdown⟩

def Half.fill : Half → RuleName
  | .outbound => .rule1
  | .inbound => .rule3

def Half.drain : Half → RuleName
  | .outbound => .rule2
  | .inbound => .rule4

/-- Bytes were read, as many as there is room for. -/
structure Filled (v v' : View) : Prop where
  bytes : ∃ data, data.length ≤ v.stream.remainingCapacity ∧ v'.src.supplied = v.src.supplied ++ data ∧
    v'.stream.content = v.stream.content ++ data
  max : v'.stream.max = v.stream.max
  eof : v.src.eof = true → v'.src.eof = true
  ended : v'.stream.ended = true → v.stream.ended = true ∨ v'.src.eof = true
  dst : v'.dst.out.accepted = v.dst.out.accepted
  shut : v'.shut = v.shut

/-- Bytes were written, and the end was passed on when none is left. -/
structure Drained (v v' : View) : Prop where
  bytes : ∃ n, v'.dst.out.accepted = v.dst.out.accepted ++ v.stream.content.take n ∧
    v'.stream.content = v.stream.content.drop n
  max : v'.stream.max = v.stream.max
  ended : v'.stream.ended = v.stream.ended
  src : v'.src.supplied = v.src.supplied ∧ v'.src.eof = v.src.eof
  shut : v'.shut = true → v.shut = true ∨ (v'.stream.content = [] ∧ v'.stream.ended = true)

/-- The other direction was served. -/
structure Rested (v v' : View) : Prop where
  src : v'.src.supplied = v.src.supplied ∧ v'.src.eof = v.src.eof
  dst : v'.dst.out.accepted = v.dst.out.accepted
  stream : v'.stream = v.stream
  shut : v'.shut = v.shut

variable {s s' : Copy} {answer : Answer}

theorem callback1_cases (h : callback1 answer s = .ok s') :
    ∃ input outbound, pull s.input s.outbound answer.read = .ok (input, outbound) ∧
      s' = { s with input := input, outbound := outbound } := by
  unfold callback1 at h
  split at h
  · cases h
  · exact ⟨_, _, ‹_›, (Except.ok.inj h).symm⟩

theorem callback3_cases (h : callback3 answer s = .ok s') :
    ∃ socket inbound, pull s.socket s.inbound answer.read = .ok (socket, inbound) ∧
      s' = { s with socket := socket, inbound := inbound } := by
  unfold callback3 at h
  split at h
  · cases h
  · exact ⟨_, _, ‹_›, (Except.ok.inj h).symm⟩

theorem callback2_cases (h : callback2 answer s = .ok s') :
    ∃ socket outbound count, push s.socket s.outbound answer.write = .ok (socket, outbound) ∧
      s' = { s with
        socket := { socket with out := { socket.out with writeCount := count } }
        outbound := outbound
        outboundShutdown := s.outboundShutdown || outbound.eof } ∧
      count ≠ s.socket.out.writeCount := by
  unfold callback2 at h
  split at h
  · cases h
  rename_i socket outbound hpush
  obtain ⟨n, -, hsocket, -⟩ := push_cases hpush
  split_ifs at h with heof
  · -- The last bytes are out: the socket is shut down, which counts as a second write.
    split at h
    · cases h
    · rename_i socket₁ hshut
      cases h
      rw [FDWrapper.shutdownWrite_eq hshut]
      refine ⟨socket, outbound, socket.out.writeCount + 1, hpush, ?_, ?_⟩
      · simp [heof, FileDescriptor.registerWrite]
      · rw [hsocket]
        simp only
        grind
  · cases h
    refine ⟨socket, outbound, socket.out.writeCount, hpush, by simp [Bool.eq_false_iff.mpr heof], ?_⟩
    rw [hsocket]
    simp only
    grind

theorem callback4_cases (h : callback4 answer s = .ok s') :
    ∃ output inbound eof closed, push s.output s.inbound answer.write = .ok (output, inbound) ∧
      s' = { s with
        output := { output with eof := eof, closed := closed }
        inbound := inbound
        inboundShutdown := s.inboundShutdown || inbound.eof } := by
  unfold callback4 at h
  split at h
  · cases h
  rename_i output inbound hpush
  split_ifs at h with heof
  · -- The last bytes are out: the output is closed.
    unfold FDWrapper.close at h
    split at h
    · cases h
    · rename_i output₁ hclose
      split at hclose
      · cases hclose
      · cases hclose
        cases h
        exact ⟨output, inbound, true, true, hpush, by simp [heof]⟩
  · cases h
    exact ⟨output, inbound, output.eof, output.closed, hpush, by simp [Bool.eq_false_iff.mpr heof]⟩

/-- What a callback does to a direction. -/
def Effect (half : Half) (i : RuleName) (v v' : View) : Prop :=
  (i = half.fill ∧ Filled v v') ∨ (i = half.drain ∧ Drained v v') ∨ (i ≠ half.fill ∧ i ≠ half.drain ∧ Rested v v')

theorem filled_of_pull {src src' dst : FDWrapper} {stream stream' : ByteStream} {result : ReadResult} (shut : Bool)
    (h : pull src stream result = .ok (src', stream')) : Filled ⟨src, dst, stream, shut⟩ ⟨src', dst, stream', shut⟩ := by
  obtain ⟨data, hlen, heof, -, -, hsupplied, rfl⟩ := pull_cases h
  refine ⟨⟨data, hlen, hsupplied, rfl⟩, rfl, heof, fun hend => ?_, rfl, rfl⟩
  simpa using hend

theorem drained_of_push {src dst dst' : FDWrapper} {stream stream' : ByteStream} {result : WriteResult} {shut : Bool}
    (fd : FDWrapper) (h : push dst stream result = .ok (dst', stream')) (haccepted : fd.out.accepted = dst'.out.accepted) :
    Drained ⟨src, dst, stream, shut⟩ ⟨src, fd, stream', shut || stream'.eof⟩ := by
  obtain ⟨n, -, rfl, rfl⟩ := push_cases h
  refine ⟨⟨n, haccepted, rfl⟩, rfl, rfl, ⟨rfl, rfl⟩, fun hshut => ?_⟩
  simp only [ByteStream.eof, ByteStream.bufferEmpty, Bool.or_eq_true, Bool.and_eq_true, List.isEmpty_iff] at hshut
  exact hshut.imp_right fun h => ⟨h.2, h.1⟩

theorem callback_effect {i : RuleName} (h : (table i).callback answer s = .ok s') (half : Half) :
    Effect half i (view half s) (view half s') := by
  cases i with
  | rule1 =>
    obtain ⟨input, outbound, hpull, rfl⟩ := callback1_cases h
    cases half with
    | outbound => exact Or.inl ⟨rfl, filled_of_pull _ hpull⟩
    | inbound => exact Or.inr (Or.inr ⟨by decide, by decide, ⟨rfl, rfl⟩, rfl, rfl, rfl⟩)
  | rule2 =>
    obtain ⟨socket, outbound, count, hpush, rfl, -⟩ := callback2_cases h
    cases half with
    | outbound => exact Or.inr (Or.inl ⟨rfl, drained_of_push _ hpush rfl⟩)
    | inbound =>
      obtain ⟨n, -, rfl, -⟩ := push_cases hpush
      exact Or.inr (Or.inr ⟨by decide, by decide, ⟨rfl, rfl⟩, rfl, rfl, rfl⟩)
  | rule3 =>
    obtain ⟨socket, inbound, hpull, rfl⟩ := callback3_cases h
    cases half with
    | outbound =>
      obtain ⟨data, -, -, hout, -⟩ := pull_cases hpull
      exact Or.inr (Or.inr ⟨by decide, by decide, ⟨rfl, rfl⟩, congrArg _ hout, rfl, rfl⟩)
    | inbound => exact Or.inl ⟨rfl, filled_of_pull _ hpull⟩
  | rule4 =>
    obtain ⟨output, inbound, eof, closed, hpush, rfl⟩ := callback4_cases h
    cases half with
    | outbound => exact Or.inr (Or.inr ⟨by decide, by decide, ⟨rfl, rfl⟩, rfl, rfl, rfl⟩)
    | inbound => exact Or.inr (Or.inl ⟨rfl, drained_of_push _ hpush rfl⟩)

theorem cancel_effect {i : RuleName} (h : (table i).cancel s = .ok s') (half : Half) :
    ((i = half.fill ∨ i = half.drain) ∧ view half s' = { view half s with stream := (view half s).stream.endInput }) ∨
      (i ≠ half.fill ∧ i ≠ half.drain ∧ view half s' = view half s) := by
  cases i <;> cases h <;> cases half
  all_goals first
    | exact Or.inl ⟨by decide, rfl⟩
    | exact Or.inr ⟨by decide, by decide, rfl⟩

/-! ## The invariant -/

/-- The place of a rule in the list. -/
def RuleName.rank : RuleName → Nat
  | .rule1 => 1
  | .rule2 => 2
  | .rule3 => 3
  | .rule4 => 4

theorem Half.fill_before (half : Half) : half.fill.rank < half.drain.rank := by
  cases half <;> decide

def Sorted (alive : List RuleName) : Prop := alive.Pairwise fun i j => i.rank < j.rank

/-- One direction of a loop: what was read was written or is in the stream, and once the end is
passed on nothing more is read. -/
structure Sound (half : Half) (l : Loop RuleName Copy) : Prop where
  fits : (view half l.s).stream.content.length ≤ bufferSize
  max : (view half l.s).stream.max = bufferSize
  conserved : (view half l.s).src.supplied = (view half l.s).dst.out.accepted ++ (view half l.s).stream.content
  ending : (view half l.s).stream.ended = true → half.drain ∈ l.alive → half.fill ∈ l.alive →
    (view half l.s).src.eof = true
  shut : (view half l.s).shut = true → (view half l.s).stream.content = [] ∧ half.fill ∉ l.asked ∧
    (half.fill ∈ l.alive → (view half l.s).src.eof = true)

theorem sound_start (half : Half) : Sound half ⟨rules, [], {}⟩ := by
  cases half
  all_goals exact ⟨by simp [view, ByteStream.new], rfl, rfl, by simp [view, ByteStream.new], by simp [view]⟩

variable {half : Half} {alive asked : List RuleName}

theorem Sound.filled (h : Sound half ⟨alive, half.fill :: asked, s⟩) (heffect : Filled (view half s) (view half s')) :
    Sound half ⟨alive, asked, s'⟩ := by
  obtain ⟨data, hroom, hsupplied, hcontent⟩ := heffect.bytes
  have hfits := h.fits
  have hmax := h.max
  have hconserved := h.conserved
  have hending := h.ending
  have hshut := h.shut
  simp only at hfits hmax hconserved hending hshut
  refine ⟨?_, ?_, ?_, ?_, ?_⟩
  · have hremains := ByteStream.remainingCapacity_eq (s := (view half s).stream) (by omega)
      (by rw [hmax]; decide)
    simp only [hcontent, List.length_append]
    omega
  · exact heffect.max.trans hmax
  · simp only [hsupplied, hconserved, heffect.dst, hcontent, List.append_assoc]
  · intro hended hdrain hfill
    rcases heffect.ended hended with hold | hnew
    · exact heffect.eof (hending hold hdrain hfill)
    · exact hnew
  · -- A rule that was asked for has not passed on its end.
    intro hnew
    rw [heffect.shut] at hnew
    exact absurd List.mem_cons_self (hshut hnew).2.1

theorem Sound.drained (h : Sound half ⟨alive, half.drain :: asked, s⟩) (hdrain : half.drain ∈ alive)
    (hbefore : half.fill ∉ asked) (heffect : Drained (view half s) (view half s')) : Sound half ⟨alive, asked, s'⟩ := by
  obtain ⟨n, haccepted, hcontent⟩ := heffect.bytes
  obtain ⟨hsupplied, heof⟩ := heffect.src
  have hfits := h.fits
  have hending := h.ending
  simp only at hfits hending
  refine ⟨?_, heffect.max.trans h.max, ?_, ?_, ?_⟩
  · simp only [hcontent, List.length_drop]
    omega
  · simp only [hsupplied, haccepted, hcontent, List.append_assoc, List.take_append_drop]
    exact h.conserved
  · simp only [heffect.ended, heof]
    exact hending
  · intro hnew
    simp only at hnew ⊢
    rw [heof]
    -- The mark was set before, or this call set it on an empty stream that had ended.
    rcases heffect.shut hnew with hold | ⟨hempty, hended⟩
    · obtain ⟨hnone, -, hlast⟩ := h.shut hold
      simp only at hnone
      exact ⟨by rw [hcontent, hnone, List.drop_nil], hbefore, hlast⟩
    · rw [heffect.ended] at hended
      exact ⟨hempty, hbefore, hending hended hdrain⟩

theorem Sound.rested {asked' : List RuleName} (h : Sound half ⟨alive, asked, s⟩)
    (hsub : ∀ i ∈ asked', i ∈ asked) (heffect : Rested (view half s) (view half s')) : Sound half ⟨alive, asked', s'⟩ := by
  obtain ⟨⟨hsupplied, heof⟩, haccepted, hstream, hshut⟩ := heffect
  have hfits := h.fits
  have hmax := h.max
  have hconserved := h.conserved
  have hending := h.ending
  have hold := h.shut
  simp only [← hsupplied, ← heof, ← haccepted, ← hstream, ← hshut] at hfits hmax hconserved hending hold
  exact ⟨hfits, hmax, hconserved, hending, fun hnew =>
    ⟨(hold hnew).1, fun hmem => (hold hnew).2.1 (hsub _ hmem), (hold hnew).2.2⟩⟩

theorem Sound.cancelled {alive' asked' : List RuleName} {i : RuleName} (h : Sound half ⟨alive, asked, s⟩)
    (hcancel : (table i).cancel s = .ok s') (halive : ∀ j ∈ alive', j ∈ alive) (hgone : i ∉ alive')
    (hasked : ∀ j ∈ asked', j ∈ asked) : Sound half ⟨alive', asked', s'⟩ := by
  rcases cancel_effect hcancel half with ⟨hmine, heq⟩ | ⟨-, -, heq⟩
  · -- The rule is one of this half: its `cancel` ends the stream.
    refine ⟨?_, ?_, ?_, ?_, ?_⟩
    all_goals simp only [heq, ByteStream.endInput]
    · exact h.fits
    · exact h.max
    · exact h.conserved
    · rintro - hdrain hfill
      rcases hmine with rfl | rfl
      · exact absurd hfill hgone
      · exact absurd hdrain hgone
    · intro hshut
      obtain ⟨hnone, hfill, hlast⟩ := h.shut hshut
      exact ⟨hnone, fun hmem => hfill (hasked _ hmem), fun hmem => hlast (halive _ hmem)⟩
  · -- The rule is one of the other half.
    refine ⟨?_, ?_, ?_, ?_, ?_⟩
    all_goals simp only [heq]
    · exact h.fits
    · exact h.max
    · exact h.conserved
    · exact fun hended hdrain hfill => h.ending hended (halive _ hdrain) (halive _ hfill)
    · intro hshut
      obtain ⟨hnone, hfill, hlast⟩ := h.shut hshut
      exact ⟨hnone, fun hmem => hfill (hasked _ hmem), fun hmem => hlast (halive _ hmem)⟩

theorem Sound.asked_more (h : Sound half ⟨alive, asked, s⟩) {i : RuleName} (hi : i ∈ alive)
    (hlives : (table i).defunct s = false) : Sound half ⟨alive, asked ++ [i], s⟩ := by
  refine ⟨h.fits, h.max, h.conserved, h.ending, fun hshut => ?_⟩
  obtain ⟨hnone, hfill, hlast⟩ := h.shut hshut
  refine ⟨hnone, fun hmem => ?_, hlast⟩
  rcases List.mem_append.mp hmem with hmem | hmem
  · exact hfill hmem
  · -- The source of a direction that is over has ended, and so the rule would have been dropped.
    have hi' := List.mem_singleton.mp hmem
    have heof := hlast (hi' ▸ hi)
    rw [← hi'] at hlives
    cases half
    all_goals
      simp only [view] at heof
      simp [Half.fill, table, Rule.defunct, heof] at hlives

/-- What holds of a loop between two moves. -/
structure Kept (l : Loop RuleName Copy) : Prop where
  sorted : Sorted l.alive
  sound : ∀ half, Sound half l

theorem kept_start : Kept ⟨rules, [], {}⟩ := ⟨by simp [Sorted, rules, addRule, RuleName.rank], sound_start⟩

theorem Sorted.not_mem {pre post : List RuleName} {i : RuleName} (h : Sorted (pre ++ i :: post)) : i ∉ pre ++ post := by
  obtain ⟨-, hpost, hpre⟩ := List.pairwise_append.mp h
  rw [List.mem_append]
  rintro (hmem | hmem)
  · exact Nat.lt_irrefl _ (hpre i hmem i List.mem_cons_self)
  · exact Nat.lt_irrefl _ ((List.pairwise_cons.mp hpost).1 i hmem)

theorem Sorted.fill_not_mem {pre post : List RuleName} (h : Sorted (pre ++ half.drain :: post)) : half.fill ∉ post := by
  obtain ⟨-, hpost, -⟩ := List.pairwise_append.mp h
  intro hmem
  have hafter := (List.pairwise_cons.mp hpost).1 _ hmem
  have hbefore := half.fill_before
  omega

theorem Sorted.removed {pre post : List RuleName} {i : RuleName} (h : Sorted (pre ++ i :: post)) : Sorted (pre ++ post) :=
  h.sublist (List.Sublist.append_left (List.sublist_cons_self i post) pre)

theorem mem_of_mem_removed {pre post : List RuleName} {i j : RuleName} (h : j ∈ pre ++ post) : j ∈ pre ++ i :: post := by
  rcases List.mem_append.mp h with h | h
  · exact List.mem_append_left _ h
  · exact List.mem_append_right _ (List.mem_cons_of_mem _ h)

theorem Kept.move {l l' : Loop RuleName Copy} (h : Kept l) (hmove : Move table (fun _ => True) l l') :
    Kept l' := by
  obtain ⟨hsorted, hsound⟩ := h
  cases hmove with
  | ask pre post asked i s hasked hlives hint =>
    exact ⟨hsorted, fun half => (hsound half).asked_more (List.mem_append_right _ List.mem_cons_self) hlives⟩
  | drop pre post asked i s s' hasked hdefunct hcancel =>
    exact ⟨hsorted.removed, fun half => (hsound half).cancelled hcancel (fun _ => mem_of_mem_removed) hsorted.not_mem
      fun _ hj => hj⟩
  | hangUp pre post asked i s s' hasked hcancel =>
    exact ⟨hsorted.removed, fun half => (hsound half).cancelled hcancel (fun _ => mem_of_mem_removed) hsorted.not_mem
      fun _ hj => List.mem_cons_of_mem _ hj⟩
  | call pre post asked i answer s s' hasked _ hcall =>
    refine ⟨hsorted, fun half => ?_⟩
    rcases callback_effect hcall half with ⟨rfl, heffect⟩ | ⟨rfl, heffect⟩ | ⟨-, -, heffect⟩
    · exact (hsound half).filled heffect
    · exact (hsound half).drained (List.mem_append_right _ List.mem_cons_self)
        (fun hmem => hsorted.fill_not_mem (hasked.subset hmem)) heffect
    · exact (hsound half).rested (fun _ hj => List.mem_cons_of_mem _ hj) heffect
  | pass alive asked i s =>
    exact ⟨hsorted, fun half => (hsound half).rested (fun _ hj => List.mem_cons_of_mem _ hj) ⟨⟨rfl, rfl⟩, rfl, rfl, rfl⟩⟩

theorem Kept.step (l : List RuleName × Copy) (poll : Poll Answer) (l' : List RuleName × Copy)
    (h : Kept ⟨l.1, [], l.2⟩) (hstep : step l poll = some l') : Kept ⟨l'.1, [], l'.2⟩ := by
  unfold StreamCopy.step at hstep
  split at hstep
  · cases hstep
  · rename_i hwait
    cases hstep
    exact waitNextEvent_inv (answers_any _) hwait h fun _ _ hl hmove => hl.move hmove

theorem Sound.copied {l : Loop RuleName Copy} (h : Sound half l) (hempty : (view half l.s).stream.content = []) :
    (view half l.s).dst.out.accepted = (view half l.s).src.supplied := by
  rw [h.conserved, hempty, List.append_nil]

/-- In both directions what was read is what was written and then what the stream holds, which is at
most a buffer; and once the end was passed on, all of it is written. -/
theorem copies_in_order (polls : List (Poll Answer)) (left : List RuleName) (s : Copy)
    (h : run step (rules, {}) polls = some (left, s)) (half : Half) :
    (view half s).src.supplied = (view half s).dst.out.accepted ++ (view half s).stream.content ∧
      (view half s).stream.content.length ≤ bufferSize ∧
      ((view half s).shut = true → (view half s).dst.out.accepted = (view half s).src.supplied) := by
  have hsound := (run_inv Kept.step (s := (rules, {})) kept_start h).sound half
  exact ⟨hsound.conserved, hsound.fits, fun hshut => hsound.copied (hsound.shut hshut).1⟩

/-- A poll on three descriptors: the first byte comes in, is written, and the input ends. -/
def copyPolls : List (Poll Answer) :=
  [.ready [{ pollIn := true }] [{ read := .bytes [97, 98] (by decide) }],
    .ready [{ pollIn := true }, { pollOut := true }] [{}, { write := .count 1 (by decide) }],
    .ready [{ pollOut := true }] [{ write := .count 1 (by decide) }]]

theorem copies_in_order_two :
    ∃ left s, run step (rules, {}) copyPolls = some (left, s) ∧ s.outboundShutdown = true ∧
      s.socket.out.accepted = [97, 98] ∧ (view .outbound s).dst.out.accepted = (view .outbound s).src.supplied := by
  have hrun : (run step (rules, {}) copyPolls).isSome = true := by decide +kernel
  obtain ⟨⟨left, s⟩, hs⟩ := Option.isSome_iff_exists.mp hrun
  have hshut : s.outboundShutdown = true ∧ s.socket.out.accepted = [97, 98] := by
    have : ∀ l ∈ run step (rules, {}) copyPolls, l.2.outboundShutdown = true ∧ l.2.socket.out.accepted = [97, 98] := by
      decide +kernel
    exact this _ hs
  exact ⟨left, s, hs, hshut.1, hshut.2, (copies_in_order copyPolls left s hs .outbound).2.2 hshut.1⟩

/-! ## The return -/

end StreamCopy

end Sponge
