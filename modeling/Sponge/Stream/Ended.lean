import Sponge.Connection.Steps
import Sponge.Stream.History

/-!
# Writing to an ended stream

`write` does not look at the end of the stream, so what comes after `end_input` is
taken like everything else. The stream is then no longer at its end, and a
connection that has sent its FIN never sends those bytes.
-/

namespace Sponge

open Run

namespace ByteStream

variable {s : ByteStream} {data : List UInt8}

/-- The write takes no byte: there is none, or there is no room. -/
def TakesNone (s : ByteStream) (data : List UInt8) : Prop := data = [] ∨ s.remainingCapacity = 0

instance (s : ByteStream) (data : List UInt8) : Decidable (s.TakesNone data) := inferInstanceAs (Decidable (_ ∨ _))

/-- When the stream has ended, the write takes no byte. -/
def EndRespected (s : ByteStream) (data : List UInt8) : Prop := s.inputEnded = true → s.TakesNone data

instance (s : ByteStream) (data : List UInt8) : Decidable (s.EndRespected data) :=
  inferInstanceAs (Decidable (_ → _))

theorem write_of_takesNone (h : s.TakesNone data) : s.write data = (s, 0) := by
  have hzero : min data.length s.remainingCapacity = 0 := by
    rcases h with rfl | h
    · exact Nat.zero_min _
    · rw [h]
      exact Nat.min_zero _
  rw [write_eq, hzero, List.take_zero, List.append_nil, Nat.add_zero]

theorem popOutput_suffix (s : ByteStream) (len : Nat) : (s.popOutput len).content <:+ s.content := by
  rw [popOutput_eq]
  exact List.drop_suffix _ _

end ByteStream

namespace StreamTrace

variable {t t' : StreamTrace} {op : StreamOp}

/-- A write after the end of the stream finds nothing to take. -/
def EndRespected (t : StreamTrace) : StreamOp → Prop
  | .write data => t.s.EndRespected data
  | _ => True

instance (t : StreamTrace) (op : StreamOp) : Decidable (EndRespected t op) :=
  match op with
  | .write data => inferInstanceAs (Decidable (t.s.EndRespected data))
  | .read _ | .peekOutput _ | .popOutput _ | .endInput => inferInstanceAs (Decidable True)

/-- What is left of the ended stream `t` after more calls. -/
structure After (t t' : StreamTrace) : Prop where
  ended : t'.s.ended = true
  written : t'.s.alwritten = t.s.alwritten
  accepted : t'.accepted = t.accepted
  content : t'.s.content <:+ t.s.content

theorem After.pop {s : ByteStream} {removed : List UInt8} (h : After t t') (len : Nat) (hs : s = t'.s.popOutput len) :
    After t { t' with s := s, removed := removed } := by
  subst hs
  refine ⟨?_, ?_, h.accepted, (t'.s.popOutput_suffix len).trans h.content⟩
  · rw [ByteStream.popOutput_eq]
    exact h.ended
  · rw [ByteStream.popOutput_eq]
    exact h.written

theorem After.step (h : After t t') (hop : EndRespected t' op) : ∃ t'', step t' op = some t'' ∧ After t t'' := by
  cases op with
  | write data =>
    refine ⟨t', ?_, h⟩
    simp only [StreamTrace.step, ByteStream.write_of_takesNone (hop h.ended), List.take_zero, List.append_nil]
  | read len => exact ⟨_, rfl, h.pop len (congrArg Prod.snd (t'.s.read_eq len))⟩
  | peekOutput len => exact ⟨t', rfl, h⟩
  | popOutput len => exact ⟨_, rfl, h.pop len rfl⟩
  | endInput => exact ⟨_, rfl, rfl, h.written, h.accepted, h.content⟩

theorem After.eof (h : After t t') (heof : t.s.eof = true) : t'.s.eof = true := by
  simp only [ByteStream.eof, ByteStream.bufferEmpty, Bool.and_eq_true, List.isEmpty_iff] at heof ⊢
  exact ⟨h.ended, List.suffix_nil.mp (heof.2 ▸ h.content)⟩

end StreamTrace

/-! ## The outgoing stream of a connection -/

namespace TCPConnection

variable {c : TCPConnection} {s : TCPSender}

theorem fillWindow_ended (h : s.stream.ended = true) : s.fillWindow.stream.ended = true := by
  apply SenderTrace.fillWindow_inv (P := fun s => s.stream.ended = true) _ h
  intro s seg hs hemits
  rw [hemits.stream_eq]
  exact hs

theorem ackReceived_ended {ackno : WrappingInt32} {w : UInt16} (h : s.stream.ended = true) :
    (s.ackReceived ackno w).1.stream.ended = true := by
  apply TCPSender.ackReceived_inv (P := fun s => s.stream.ended = true)
  · exact h
  · intro absAckNo
    obtain ⟨timer, hfields⟩ := TCPSender.acknowledge_eq { s with windowSize := w } absAckNo
    rw [hfields]
    exact h
  · intro s' hs'
    exact fillWindow_ended hs'

theorem tick_ended {s' : TCPSender} {ms : Nat} (h : s.stream.ended = true) (htick : s.tick ms = some s') :
    s'.stream.ended = true := by
  rcases TCPSender.tick_cases htick with ⟨time, timer, rfl⟩ | ⟨front, rest, time, timer, retrans, -, rfl⟩
  · exact h
  · exact h

theorem senderKeeps_ended : SenderKeeps fun s => s.stream.ended = true where
  queue := fun _ _ h => h
  fillWindow := fun _ h => fillWindow_ended h
  ackReceived := fun _ _ _ h => ackReceived_ended h
  tick := fun _ _ _ h htick => tick_ended h htick
  write := fun s data h => by
    rw [ByteStream.write_eq]
    exact h
  endInput := fun _ _ => rfl
  setError := fun _ h => h

theorem ended_after_endInputStream {calls : List Op} (hend : .endInputStream ∈ calls) {start : TCPConnection}
    (h : run step start calls = some c) : c.sender.stream.ended = true := by
  apply run_after (P := fun c => c.sender.stream.ended = true) _ _ hend h
  · intro c op c' hc hstep
    exact senderKeeps_ended.step hc hstep
  · intro c c' hstep
    cases hstep
    exact fillWindow_ended rfl

end TCPConnection

/-! ## The end of the stream -/

namespace StreamTrace

open TCPConnection

/-- A write to an ended stream is taken and the stream is no longer at its end. The connection
reports the byte as written after its FIN, and does not send it even when the FIN is acknowledged. -/
theorem write_after_end_taken :
    (∃ t, run step (start 4) [.endInput] = some t ∧ t.s.eof = true ∧
      ∃ t', step t (.write [97]) = some t' ∧ t'.s.bytesWritten = 1 ∧ t'.s.content = [97] ∧ t'.s.eof = false) ∧
    ∃ c, run TCPConnection.step (TCPConnection.new smallConfig ⟨0⟩) [.connect, synAck 8, .endInputStream] = some c ∧
      c.sender.finSent = true ∧ (c.write [97]).2 = 1 ∧
      ∃ c', run TCPConnection.step c [.write [97], ackSegment 1 2 8 false, .tick 9000] = some c' ∧
        c'.sender.finAcked = true ∧ c'.sender.stream.content = [97] ∧ ∀ seg ∈ c'.segmentsOut, seg.payload = [] := by
  decide +kernel

/-- In a run in which every write after `end_input` is empty or finds the buffer full, an ended
stream stays as it is apart from what is read, and a connection accepts nothing after
`end_input_stream`. -/
theorem ended_stays_ended (capacity : UInt64) (before later : List StreamOp) (t : StreamTrace)
    (hops : AllSteps step EndRespected (start capacity.toNat) (before ++ later))
    (hbefore : run step (start capacity.toNat) before = some t) (hended : t.s.inputEnded = true) :
    (∃ t', run step t later = some t' ∧ t'.s.inputEnded = true ∧ t'.s.bytesWritten = t.s.bytesWritten ∧
      t'.accepted = t.accepted ∧ t'.s.content <:+ t.s.content ∧ (t.s.eof = true → t'.s.eof = true) ∧
      ∀ data, t'.s.EndRespected data → t'.s.write data = (t'.s, 0)) ∧
    ∀ (cfg : TCPConfig) (random : WrappingInt32) (calls : List TCPConnection.Op) (c : TCPConnection) (data : List UInt8),
      run TCPConnection.step (TCPConnection.new cfg random) calls = some c → .endInputStream ∈ calls →
        c.sender.stream.EndRespected data → (c.write data).2 = 0 := by
  constructor
  · have hstart : After t t := ⟨hended, rfl, rfl, List.suffix_rfl⟩
    obtain ⟨t', hrun, hafter⟩ := exists_run_inv (I := After t) (fun t' op h hop => h.step hop) hstart
      (hops.append hbefore)
    refine ⟨t', hrun, hafter.ended, hafter.written, hafter.accepted, hafter.content, hafter.eof, ?_⟩
    intro data hdata
    exact ByteStream.write_of_takesNone (hdata hafter.ended)
  · intro cfg random calls c data hrun hend hdata
    change (c.sender.stream.write data).2 = 0
    rw [ByteStream.write_of_takesNone (hdata (ended_after_endInputStream hend hrun))]

theorem ended_stays_ended_full :
    ∃ t, run step (start 1) [.write [97], .endInput] = some t ∧
      (∃ t', run step t [.write [98], .read 1, .write []] = some t' ∧ t'.s.inputEnded = true ∧
        t'.s.bytesWritten = t.s.bytesWritten ∧ t'.accepted = t.accepted ∧ t'.s.content <:+ t.s.content ∧
        (t.s.eof = true → t'.s.eof = true) ∧ ∀ data, t'.s.EndRespected data → t'.s.write data = (t'.s, 0)) ∧
      ∀ (cfg : TCPConfig) (random : WrappingInt32) (calls : List TCPConnection.Op) (c : TCPConnection)
        (data : List UInt8), run TCPConnection.step (TCPConnection.new cfg random) calls = some c →
          .endInputStream ∈ calls → c.sender.stream.EndRespected data → (c.write data).2 = 0 := by
  obtain ⟨t, hrun, hended⟩ : ∃ t, run step (start 1) [.write [97], .endInput] = some t ∧ t.s.inputEnded = true := by
    decide
  exact ⟨t, hrun, ended_stays_ended 1 [.write [97], .endInput] [.write [98], .read 1, .write []] t
    (by decide) hrun hended⟩

end StreamTrace

end Sponge
