import Sponge.Connection.Model
import Sponge.Reassembler.Frame
import Sponge.Receiver.Window
import Sponge.Sender.Idle

/-!
# What one call of the connection can do

`segment_received` has four ways out and `tick` has two. Each is written down once
here, with what the calls leave alone.
-/

namespace Sponge

open Word64

namespace TCPConnection

variable {c c' : TCPConnection} {seg : TCPSegment} {ms : Nat}

/-! ## Inversion -/

/-- Before the SYN a segment that takes up no number is dropped. -/
def Drops (c : TCPConnection) (seg : TCPSegment) : Prop :=
  c.receiver.isnset = false ∧ seg.lengthInSequenceSpace = 0

instance (c : TCPConnection) (seg : TCPSegment) : Decidable (c.Drops seg) :=
  inferInstanceAs (Decidable (_ ∧ _))

theorem noteEnd_eq (c : TCPConnection) :
    c.noteEnd = { c with
      lingerAfterStreamsFinish :=
        c.lingerAfterStreamsFinish && !(c.inboundStream.inputEnded && !c.sender.finSent) } := by
  unfold noteEnd
  split_ifs with h
  · simp [h]
  · simp [Bool.eq_false_iff.mpr h]

theorem isSome_ackno (r : TCPReceiver) : r.ackno.isSome = r.isnset := by
  unfold TCPReceiver.ackno
  split_ifs with h
  · rw [h]
    rfl
  · rw [Bool.eq_false_iff.mpr h]
    rfl

/-- The sender with the empty segment that answers when nothing else does. -/
def answered (receiver : TCPReceiver) (s : TCPSender) : TCPSender :=
  if s.segmentsOut.isEmpty && receiver.isnset then s.sendEmptySegment else s

theorem answer_eq (c : TCPConnection) : c.answer = { c with sender := answered c.receiver c.sender } := by
  unfold answer answered
  rw [isSome_ackno]
  split_ifs <;> rfl

theorem process_cases (h : c.process seg = some c') :
    ∃ receiver inside, c.receiver.segmentReceived seg = some (receiver, inside) ∧
      ((seg.lengthInSequenceSpace = 0 ∧ inside = true ∧ (senderReceived c.sender seg.header).2 = true ∧
          c' = { c with
            lingerAfterStreamsFinish :=
              c.lingerAfterStreamsFinish && !(c.inboundStream.inputEnded && !c.sender.finSent)
            sender := (senderReceived c.sender seg.header).1
            receiver := receiver }) ∨
        (¬ (seg.lengthInSequenceSpace = 0 ∧ inside = true ∧ (senderReceived c.sender seg.header).2 = true) ∧
          c' = { c with
            lingerAfterStreamsFinish :=
              c.lingerAfterStreamsFinish && !(c.inboundStream.inputEnded && !c.sender.finSent)
            sender := answered receiver (senderReceived c.sender seg.header).1
            receiver := receiver }.segmentOut)) := by
  unfold process at h
  simp only [noteEnd_eq] at h
  cases hrec : c.receiver.segmentReceived seg with
  | none => simp [hrec] at h
  | some p =>
    obtain ⟨receiver, inside⟩ := p
    refine ⟨receiver, inside, rfl, ?_⟩
    simp only [hrec, answer_eq] at h
    -- An empty segment in the window with an acceptable ackno is the only one without an answer.
    split_ifs at h with hacc
    · exact Or.inl ⟨hacc.1, hacc.2.1, hacc.2.2, (Option.some.inj h).symm⟩
    · exact Or.inr ⟨hacc, (Option.some.inj h).symm⟩

theorem segmentReceived_cases (h : c.segmentReceived seg = some c') :
    (seg.header.rst = true ∧ c' = { c with lastSegmentTime := c.time }.abort) ∨
    (seg.header.rst = false ∧ c.Drops seg ∧ c' = { c with lastSegmentTime := c.time }) ∨
    (seg.header.rst = false ∧ ¬ c.Drops seg ∧ { c with lastSegmentTime := c.time }.process seg = some c') := by
  have hnone : (c.receiver.ackno.isNone = true ∧ seg.lengthInSequenceSpace = 0) ↔ c.Drops seg := by
    unfold Drops
    rw [← Option.not_isSome, isSome_ackno, Bool.not_eq_true']
  unfold segmentReceived at h
  simp only [hnone] at h
  split_ifs at h with hrst hdrop
  · exact Or.inl ⟨hrst, (Option.some.inj h).symm⟩
  · exact Or.inr (Or.inl ⟨Bool.eq_false_iff.mpr hrst, hdrop, (Option.some.inj h).symm⟩)
  · exact Or.inr (Or.inr ⟨Bool.eq_false_iff.mpr hrst, hdrop, h⟩)

theorem tick_cases (h : c.tick ms = some c') :
    ∃ sender, c.sender.tick ms = some sender ∧
      ((sender.consecutiveRetrans ≤ TCPConfig.maxRetxAttempts ∧
          c' = { c with sender := sender, time := add64 c.time ms }.segmentOut) ∨
        (TCPConfig.maxRetxAttempts < sender.consecutiveRetrans ∧
          ∃ c₁, ({ c with sender := sender, time := add64 c.time ms } : TCPConnection).abort.rstSegment = some c₁ ∧
            c' = c₁.segmentOut)) := by
  unfold tick at h
  cases htick : c.sender.tick ms with
  | none => simp [htick] at h
  | some sender =>
    refine ⟨sender, rfl, ?_⟩
    simp only [htick] at h
    -- The count is tested after the sender has sent once more.
    split_ifs at h with hmany
    · right
      refine ⟨hmany, ?_⟩
      split at h
      · cases h
      · exact ⟨_, ‹_›, (Option.some.inj h).symm⟩
    · exact Or.inl ⟨not_lt.mp hmany, (Option.some.inj h).symm⟩

theorem rstSegment_spec (c : TCPConnection) :
    ∃ front rest, (rstSender c.sender).segmentsOut = front :: rest ∧
      c.rstSegment = some { c with
        segmentsOut := c.segmentsOut ++
          [{ c.receiverInfo front with header := { (c.receiverInfo front).header with rst := true } }]
        sender := { rstSender c.sender with segmentsOut := rest } } := by
  unfold rstSegment
  cases hq : (rstSender c.sender).segmentsOut with
  | nil =>
    unfold rstSender TCPSender.sendEmptySegment at hq
    split_ifs at hq with hempty
    · simp at hq
    · simp [hq] at hempty
  | cons front rest =>
    simp only [hq]
    exact ⟨front, rest, rfl, rfl⟩

theorem rstSegment_cases (h : c.rstSegment = some c') :
    ∃ front rest, (rstSender c.sender).segmentsOut = front :: rest ∧ c' = { c with
        segmentsOut := c.segmentsOut ++
          [{ c.receiverInfo front with header := { (c.receiverInfo front).header with rst := true } }]
        sender := { rstSender c.sender with segmentsOut := rest } } := by
  obtain ⟨front, rest, hq, heq⟩ := rstSegment_spec c
  rw [h] at heq
  exact ⟨front, rest, hq, Option.some.inj heq⟩

/-! ## What the calls keep -/

theorem streamOut_readOut (r : TCPReceiver) (len : Nat) : (r.readOut len).streamOut = r.streamOut.popOutput len :=
  congrArg Prod.snd (r.streamOut.read_eq len)

theorem inputEnded_readOut (r : TCPReceiver) (len : Nat) :
    (r.readOut len).streamOut.inputEnded = r.streamOut.inputEnded := by
  rw [streamOut_readOut, ByteStream.popOutput_eq]
  rfl

theorem receiver_ended {r r' : TCPReceiver} {inside : Bool} (h : r.segmentReceived seg = some (r', inside))
    (hend : r.streamOut.inputEnded = true) : r'.streamOut.inputEnded = true := by
  rcases TCPReceiver.segmentReceived_cases h with ⟨-, -, rfl⟩ | ⟨-, ra, hpush, rfl⟩
  · exact hend
  · exact StreamReassembler.pushSubstring_ended hend hpush

theorem senderReceived_eof {s : TCPSender} (header : TCPHeader) (h : s.eof = true) :
    (senderReceived s header).1.eof = true := by
  unfold senderReceived
  split_ifs
  · exact TCPSender.ackReceived_eof h
  · exact TCPSender.fillWindow_eof h

theorem answered_eof (r : TCPReceiver) (s : TCPSender) :
    (answered r s).eof = s.eof ∧ (answered r s).unacked = s.unacked := by
  unfold answered
  split_ifs
  · exact ⟨rfl, rfl⟩
  · exact ⟨rfl, rfl⟩

theorem process_ends (h : c.process seg = some c') :
    (c.inboundStream.inputEnded = true → c'.inboundStream.inputEnded = true) ∧
      (c.sender.finSent = true → c'.sender.finSent = true) ∧
      c'.lingerAfterStreamsFinish =
        (c.lingerAfterStreamsFinish && !(c.inboundStream.inputEnded && !c.sender.finSent)) := by
  obtain ⟨receiver, inside, hrec, ⟨-, -, -, rfl⟩ | ⟨-, rfl⟩⟩ := process_cases h
  · exact ⟨receiver_ended hrec, senderReceived_eof seg.header, rfl⟩
  · refine ⟨receiver_ended hrec, fun heof => ?_, rfl⟩
    exact (answered_eof receiver _).1.trans (senderReceived_eof seg.header heof)

theorem rstSender_eof (s : TCPSender) : (rstSender s).eof = s.eof ∧ (rstSender s).unacked = s.unacked := by
  unfold rstSender
  split_ifs
  · exact ⟨rfl, rfl⟩
  · exact ⟨rfl, rfl⟩

theorem tick_ends (h : c.tick ms = some c') :
    c'.inboundStream.inputEnded = c.inboundStream.inputEnded ∧ c'.sender.finSent = c.sender.finSent ∧
      c'.lingerAfterStreamsFinish = c.lingerAfterStreamsFinish := by
  obtain ⟨sender, htick, ⟨-, rfl⟩ | ⟨-, c₁, hrst, rfl⟩⟩ := tick_cases h
  · exact ⟨rfl, (TCPSender.tick_eof htick).1, rfl⟩
  · obtain ⟨front, rest, -, rfl⟩ := rstSegment_cases hrst
    refine ⟨rfl, ?_, rfl⟩
    exact (rstSender_eof _).1.trans (TCPSender.tick_eof htick).1

/-! ## What all calls keep -/

/-- A property that no call on the sender takes away, whatever is on its queue. -/
structure SenderKeeps (P : TCPSender → Prop) : Prop where
  queue : ∀ s segs, P s → P { s with segmentsOut := segs }
  fillWindow : ∀ s, P s → P s.fillWindow
  ackReceived : ∀ s ackno w, P s → P (s.ackReceived ackno w).1
  tick : ∀ s ms s', P s → s.tick ms = some s' → P s'
  write : ∀ s data, P s → P { s with stream := (s.stream.write data).1 }
  endInput : ∀ s, P s → P { s with stream := s.stream.endInput }
  setError : ∀ s, P s → P { s with stream := s.stream.setError }

/-- A property that no call on the receiver takes away. -/
structure ReceiverKeeps (P : TCPReceiver → Prop) : Prop where
  segmentReceived : ∀ r seg r' inside, P r → r.segmentReceived seg = some (r', inside) → P r'
  readOut : ∀ r len, P r → P (r.readOut len)
  setError : ∀ r : TCPReceiver, P r →
    P { r with reassembler := { r.reassembler with output := r.reassembler.output.setError } }

variable {P : TCPSender → Prop} {Q : TCPReceiver → Prop} {op : Op}

theorem SenderKeeps.senderReceived {s : TCPSender} (hP : SenderKeeps P) (header : TCPHeader) (h : P s) :
    P (senderReceived s header).1 := by
  unfold TCPConnection.senderReceived
  split_ifs
  · exact hP.ackReceived s _ _ h
  · exact hP.fillWindow s h

theorem SenderKeeps.answered {s : TCPSender} (hP : SenderKeeps P) (r : TCPReceiver) (h : P s) :
    P (answered r s) := by
  unfold TCPConnection.answered
  split_ifs
  · exact hP.queue s _ h
  · exact h

theorem SenderKeeps.rstSender {s : TCPSender} (hP : SenderKeeps P) (h : P s) : P (rstSender s) := by
  unfold TCPConnection.rstSender
  split_ifs
  · exact hP.queue s _ h
  · exact h

theorem SenderKeeps.step (hP : SenderKeeps P) (h : P c.sender) (hstep : c.step op = some c') : P c'.sender := by
  cases op with
  | connect =>
    cases hstep
    exact hP.queue _ [] (hP.fillWindow _ h)
  | write data =>
    cases hstep
    exact hP.queue _ [] (hP.fillWindow _ (hP.write _ data h))
  | endInputStream =>
    cases hstep
    exact hP.queue _ [] (hP.fillWindow _ (hP.endInput _ h))
  | segmentReceived seg =>
    rcases segmentReceived_cases hstep with ⟨-, rfl⟩ | ⟨-, -, rfl⟩ | ⟨-, -, hproc⟩
    · exact hP.setError _ h
    · exact h
    · obtain ⟨receiver, inside, -, ⟨-, -, -, rfl⟩ | ⟨-, rfl⟩⟩ := process_cases hproc
      · exact hP.senderReceived _ h
      · exact hP.queue _ [] (hP.answered receiver (hP.senderReceived _ h))
  | tick ms =>
    obtain ⟨sender, htick, ⟨-, rfl⟩ | ⟨-, c₁, hrst, rfl⟩⟩ := tick_cases hstep
    · exact hP.queue _ [] (hP.tick _ ms sender h htick)
    · -- The RST takes the front of the queue, or that of an empty segment made for it.
      obtain ⟨front, rest, -, rfl⟩ := rstSegment_cases hrst
      exact hP.queue _ [] (hP.queue _ rest (hP.rstSender (hP.setError _ (hP.tick _ ms sender h htick))))
  | read len =>
    cases hstep
    exact h

theorem ReceiverKeeps.step (hQ : ReceiverKeeps Q) (h : Q c.receiver) (hstep : c.step op = some c') : Q c'.receiver := by
  cases op with
  | connect | write | endInputStream =>
    cases hstep
    exact h
  | segmentReceived seg =>
    rcases segmentReceived_cases hstep with ⟨-, rfl⟩ | ⟨-, -, rfl⟩ | ⟨-, -, hproc⟩
    · exact hQ.setError _ h
    · exact h
    · obtain ⟨receiver, inside, hrec, ⟨-, -, -, rfl⟩ | ⟨-, rfl⟩⟩ := process_cases hproc
      · exact hQ.segmentReceived _ seg receiver inside h hrec
      · exact hQ.segmentReceived _ seg receiver inside h hrec
  | tick ms =>
    obtain ⟨sender, -, ⟨-, rfl⟩ | ⟨-, c₁, hrst, rfl⟩⟩ := tick_cases hstep
    · exact h
    · obtain ⟨front, rest, -, rfl⟩ := rstSegment_cases hrst
      exact hQ.setError _ h
  | read len =>
    cases hstep
    exact hQ.readOut _ len h

/-! ## When the sender stays silent -/

/-- `fill_window` has nothing to send when the header has been looked at. -/
def AckIdle (s : TCPSender) (header : TCPHeader) : Prop :=
  (header.ack = true → s.byteReceived ≤ unwrap header.ackno s.isn s.byteReceived →
    unwrap header.ackno s.isn s.byteReceived ≤ s.byteSent →
      TCPSender.Idle
        { s with windowSize := header.win, byteReceived := unwrap header.ackno s.isn s.byteReceived }) ∧
  (header.ack = false → s.Idle)

instance (s : TCPSender) (header : TCPHeader) : Decidable (AckIdle s header) :=
  inferInstanceAs (Decidable (_ ∧ _))

theorem senderReceived_of_idle {s : TCPSender} {header : TCPHeader} (h : AckIdle s header) :
    (senderReceived s header).1.segmentsOut = s.segmentsOut := by
  unfold senderReceived
  split_ifs with hack
  · rcases TCPSender.ackReceived_cases s header.ackno header.win with ⟨-, heq⟩ | ⟨hsame, hle, heq⟩ | ⟨hlo, hhi, heq⟩
    · rw [heq]
    · have hidle := h.1 hack (by omega) hle
      rw [hsame] at hidle
      rw [heq, TCPSender.fillWindow_of_idle hidle]
    · obtain ⟨timer, hfields⟩ := TCPSender.acknowledge_eq { s with windowSize := header.win }
        (unwrap header.ackno s.isn s.byteReceived)
      have hidle : TCPSender.Idle ({ s with windowSize := header.win }.acknowledge
          (unwrap header.ackno s.isn s.byteReceived)) := by
        rw [hfields]
        exact h.1 hack (by omega) hhi
      rw [heq, TCPSender.fillWindow_of_idle hidle, hfields]
  · exact congrArg _ (TCPSender.fillWindow_of_idle (h.2 (Bool.eq_false_iff.mpr hack)))

theorem segmentOut_of_empty (h : c.sender.segmentsOut = []) : c.segmentOut.segmentsOut = c.segmentsOut := by
  unfold segmentOut
  simp [h]

/-! ## Runs for the examples -/

/-- A connection with little room and a fixed initial number. -/
def smallConfig : TCPConfig := { recvCapacity := 8, sendCapacity := 8, fixedIsn := some ⟨0⟩ }

/-- The peer's answer to the SYN. -/
def synAck (win : UInt16) : Op :=
  .segmentReceived { header := { seqno := ⟨0⟩, syn := true, ack := true, ackno := ⟨1⟩, win := win } }

/-- An acknowledgment from the peer, alone or with its FIN. -/
def ackSegment (seqno ackno : UInt32) (win : UInt16) (fin : Bool) : Op :=
  .segmentReceived { header := { seqno := ⟨seqno⟩, ack := true, ackno := ⟨ackno⟩, win := win, fin := fin } }

end TCPConnection

end Sponge
