import Sponge.Connection.State
import Sponge.Connection.Steps
import Sponge.Lib.Run
import Sponge.Sender.Fill

/-!
# Waiting for a SYN

A fresh connection sends nothing by itself. `segment_received` hands a segment to
the sender before the receiver has seen it, so what takes up a sequence number and
does not acknowledge something unsent makes the sender open the connection.
-/

namespace Sponge

open Word64 Run

/-- The sender has not sent its SYN and has nothing else to send. -/
structure TCPSender.Unstarted (s : TCPSender) : Prop where
  error : s.stream.error = false
  byteSent : s.byteSent = 0
  byteReceived : s.byteReceived = 0
  eof : s.eof = false
  timer : s.sendtimer.active = false
  retrans : s.consecutiveRetrans = 0
  queue : s.segmentsOut = []

namespace TCPSender

variable {s : TCPSender} {ackno : WrappingInt32} {w : UInt16}

theorem Unstarted.window (h : s.Unstarted) (w : UInt16) : TCPSender.Unstarted { s with windowSize := w } :=
  { h with }

theorem Unstarted.tick (h : s.Unstarted) (ms : Nat) :
    s.tick ms = some { s with time := add64 s.time ms } := by
  unfold TCPSender.tick
  simp [h.timer]

theorem Unstarted.not_idle (h : s.Unstarted) : ¬ s.Idle := by
  have hwindow := window_eq s
  unfold Idle bytesInFlight
  simp only [h.eof, h.byteSent, h.byteReceived, sub64]
  simp
  omega

theorem Unstarted.fillWindow (h : s.Unstarted) :
    ∃ syn rest, s.fillWindow.segmentsOut = syn :: rest ∧ syn.header.syn = true := by
  obtain ⟨segs, hfills⟩ := fills_fillWindow s
  rw [hfills.segmentsOut, h.queue, List.nil_append]
  generalize s.fillWindow = s' at hfills
  cases hfills with
  | stop hnone => exact absurd (idle_of_fillStep hnone) h.not_idle
  | next hemits _ _ =>
    refine ⟨_, _, rfl, ?_⟩
    rw [hemits.syn, h.byteSent]
    rfl

theorem Unstarted.ackReceived (h : s.Unstarted) :
    s.ackReceived ackno w =
      if ackno = s.isn then (TCPSender.fillWindow { s with windowSize := w }, true)
      else ({ s with windowSize := w }, false) := by
  have hzero : ackno = s.isn ↔ unwrap ackno s.isn 0 = 0 := by
    constructor
    · intro hisn
      have hwrap := unwrap_wrap_of_short 0 0 s.isn (by omega) (by omega)
      rw [wrap_zero] at hwrap
      rw [hisn, hwrap]
    · intro hunwrap
      rw [← wrap_unwrap ackno s.isn 0, hunwrap, wrap_zero]
  unfold TCPSender.ackReceived
  simp only [h.byteReceived, h.byteSent, hzero]
  by_cases hunwrap : unwrap ackno s.isn 0 = 0
  · simp [hunwrap]
  · rw [if_pos (by omega), if_neg hunwrap]

end TCPSender

namespace TCPConnection

variable {c c' : TCPConnection} {seg : TCPSegment} {ms : Nat}

structure Listening (c : TCPConnection) : Prop where
  sender : c.sender.Unstarted
  isnset : c.receiver.isnset = false
  error : c.receiver.streamOut.error = false
  ended : c.receiver.streamOut.inputEnded = false
  rst : c.rst = false
  linger : c.lingerAfterStreamsFinish = true
  out : c.segmentsOut = []

theorem listening_new (cfg : TCPConfig) (random : WrappingInt32) : Listening (new cfg random) :=
  ⟨⟨rfl, rfl, rfl, rfl, rfl, rfl, rfl⟩, rfl, rfl, rfl, rfl, rfl, rfl⟩

theorem Listening.state (h : Listening c) : c.state = .ofState .listen := by
  have hactive : c.active = true := by
    unfold active
    simp [h.rst, TCPSender.finSent, h.sender.eof]
  have hreceiver : c.receiver.stateSummary = .listen := by
    unfold TCPReceiver.stateSummary TCPReceiver.ackno
    simp [h.error, h.isnset]
  have hsender : c.sender.stateSummary = .closed := by
    unfold TCPSender.stateSummary TCPSender.nextSeqnoAbsolute
    simp [h.sender.error, h.sender.byteSent]
  unfold TCPConnection.state TCPState.ofParts
  rw [hactive, hreceiver, hsender, h.linger]
  rfl

/-! ## One call -/

/-- Time passes, or a segment comes that neither begins nor resets a connection. -/
def Inbound : Op → Prop
  | .segmentReceived seg => seg.header.syn = false ∧ seg.header.rst = false
  | .tick _ => True
  | _ => False

instance : ∀ op, Decidable (Inbound op)
  | .segmentReceived _ => inferInstanceAs (Decidable (_ ∧ _))
  | .tick _ => .isTrue trivial
  | .connect | .write _ | .endInputStream | .read _ => .isFalse not_false

/-- The segment takes up no sequence number, or acknowledges something that was not sent. -/
def Unprovoked (c : TCPConnection) : Op → Prop
  | .segmentReceived seg =>
    seg.lengthInSequenceSpace = 0 ∨ (seg.header.ack = true ∧ seg.header.ackno ≠ c.sender.isn)
  | _ => True

instance (c : TCPConnection) : ∀ op, Decidable (Unprovoked c op)
  | .segmentReceived _ => inferInstanceAs (Decidable (_ ∨ _))
  | .tick _ | .connect | .write _ | .endInputStream | .read _ => .isTrue trivial

theorem Listening.segmentOut (h : Listening c) : Listening c.segmentOut :=
  { h with
    sender := { h.sender with queue := rfl }
    out := (segmentOut_of_empty h.sender.queue).trans h.out }

theorem Listening.tick (h : Listening c) (ms : Nat) : ∃ c', c.tick ms = some c' ∧ Listening c' := by
  have hfew : ¬ TCPConfig.maxRetxAttempts < c.sender.consecutiveRetrans := by
    rw [h.sender.retrans]
    exact Nat.not_lt_zero _
  have htick : c.tick ms = some ({ c with
      sender := { c.sender with time := add64 c.sender.time ms }, time := add64 c.time ms } : TCPConnection).segmentOut := by
    unfold TCPConnection.tick
    simp only [h.sender.tick ms]
    exact if_neg hfew
  refine ⟨_, htick, Listening.segmentOut ?_⟩
  exact { h with sender := { h.sender with } }

theorem Listening.process (h : Listening c) (hsyn : seg.header.syn = false) (hlen : seg.lengthInSequenceSpace ≠ 0) :
    c.process seg = some ({ c with sender := (senderReceived c.sender seg.header).1 } : TCPConnection).segmentOut := by
  have hrec : c.receiver.segmentReceived seg = some (c.receiver, seg.header.fin) := by
    unfold TCPReceiver.segmentReceived
    simp only [h.isnset, hsyn]
    cases seg.header.fin <;> rfl
  have hnote : c.noteEnd = c := by
    unfold noteEnd
    exact if_neg (by simp [inboundStream, h.ended])
  -- No acknowledgment number is known, so that no empty segment is sent in answer.
  have hanswer : answered c.receiver (senderReceived c.sender seg.header).1 = (senderReceived c.sender seg.header).1 := by
    unfold answered
    simp [h.isnset]
  unfold TCPConnection.process
  simp only [hnote, hrec, answer_eq, hanswer]
  rw [if_neg (by simp [hlen])]

theorem Listening.segment_of_drops (h : Listening c) (hrst : seg.header.rst = false)
    (hlen : seg.lengthInSequenceSpace = 0) : c.segmentReceived seg = some { c with lastSegmentTime := c.time } := by
  have hnone : c.receiver.ackno = none := by
    unfold TCPReceiver.ackno
    simp [h.isnset]
  unfold segmentReceived
  simp [hrst, hnone, hlen]

theorem Listening.segment_of_length (h : Listening c) (hsyn : seg.header.syn = false) (hrst : seg.header.rst = false)
    (hlen : seg.lengthInSequenceSpace ≠ 0) :
    c.segmentReceived seg = some ({ c with
      lastSegmentTime := c.time, sender := (senderReceived c.sender seg.header).1 } : TCPConnection).segmentOut := by
  have hstill : Listening { c with lastSegmentTime := c.time } := { h with }
  unfold segmentReceived
  simp only [hrst, Bool.false_eq_true, if_false]
  rw [if_neg (fun hdrop => hlen hdrop.2), hstill.process hsyn hlen]

theorem Listening.segment (h : Listening c) (hin : Inbound (.segmentReceived seg))
    (hquiet : Unprovoked c (.segmentReceived seg)) : ∃ c', c.segmentReceived seg = some c' ∧ Listening c' := by
  obtain ⟨hsyn, hrst⟩ := hin
  by_cases hlen : seg.lengthInSequenceSpace = 0
  · exact ⟨_, h.segment_of_drops hrst hlen, { h with }⟩
  · obtain ⟨hack, hackno⟩ := hquiet.resolve_left hlen
    refine ⟨_, h.segment_of_length hsyn hrst hlen, Listening.segmentOut ?_⟩
    have hsender : (senderReceived c.sender seg.header).1 = { c.sender with windowSize := seg.header.win } := by
      unfold senderReceived
      rw [if_pos hack, h.sender.ackReceived, if_neg hackno]
    rw [hsender]
    exact { h with sender := h.sender.window _ }

theorem Listening.provoked (h : Listening c) (hin : Inbound (.segmentReceived seg))
    (hloud : ¬ Unprovoked c (.segmentReceived seg)) :
    ∃ c' syn rest, c.segmentReceived seg = some c' ∧ c'.segmentsOut = syn :: rest ∧ syn.header.syn = true := by
  obtain ⟨hsyn, hrst⟩ := hin
  unfold Unprovoked at hloud
  push Not at hloud
  obtain ⟨hlen, hackno⟩ := hloud
  -- An acknowledgment of anything but the ISN is refused, and `fill_window` runs all the same.
  have hsender : ∃ s : TCPSender, s.Unstarted ∧ (senderReceived c.sender seg.header).1 = s.fillWindow := by
    unfold senderReceived
    split_ifs with hack
    · refine ⟨_, h.sender.window seg.header.win, ?_⟩
      rw [h.sender.ackReceived, if_pos (hackno hack)]
    · exact ⟨_, h.sender, rfl⟩
  obtain ⟨s, hs, heq⟩ := hsender
  obtain ⟨syn, rest, hqueue, hflag⟩ := hs.fillWindow
  have hinfo : ∀ out, (c.receiverInfo out).header.syn = out.header.syn := by
    intro out
    unfold receiverInfo
    split <;> rfl
  refine ⟨_, c.receiverInfo syn, rest.map c.receiverInfo, h.segment_of_length hsyn hrst hlen, ?_, ?_⟩
  · unfold TCPConnection.segmentOut
    simp only [heq, hqueue, h.out, List.nil_append, List.map_cons]
    rfl
  · rw [hinfo, hflag]

theorem Listening.step (c : TCPConnection) (op : Op) (h : Listening c) (hop : Inbound op ∧ Unprovoked c op) :
    ∃ c', step c op = some c' ∧ Listening c' := by
  obtain ⟨hin, hquiet⟩ := hop
  cases op with
  | segmentReceived seg => exact h.segment hin hquiet
  | tick ms => exact h.tick ms
  | connect => exact absurd hin not_false
  | write data => exact absurd hin not_false
  | endInputStream => exact absurd hin not_false
  | read len => exact absurd hin not_false

/-! ## Whole runs -/

/-- One byte, with no flag set. -/
def strayByte : Op := .segmentReceived { payload := [97] }

theorem listener_sends_syn :
    Inbound strayByte ∧ ∃ c, run step (new smallConfig ⟨0⟩) [strayByte] = some c ∧
      c.segmentsOut = [{ header := { seqno := ⟨0⟩, syn := true } }] ∧ c.state = .ofState .synSent := by
  decide +kernel

/-- A fresh connection that is left alone, by its owner and by segments the sender acts on, stays
silent and goes on listening. -/
theorem listener_stays_silent (cfg : TCPConfig) (random : WrappingInt32) (ops : List Op)
    (hin : ∀ op ∈ ops, Inbound op) (hquiet : AllSteps step Unprovoked (new cfg random) ops) :
    ∃ c, run step (new cfg random) ops = some c ∧ c.segmentsOut = [] ∧ c.state = .ofState .listen := by
  have hops : AllSteps step (fun c op => Inbound op ∧ Unprovoked c op) (new cfg random) ops :=
    (allSteps_of_forall hin).and hquiet
  obtain ⟨c, hc, hlisten⟩ := exists_run_inv (I := Listening) Listening.step (listening_new cfg random) hops
  exact ⟨c, hc, hlisten.out, hlisten.state⟩

/-- Data and a FIN that acknowledge what was never sent, and an acknowledgment alone. -/
def strayOps : List Op :=
  [.tick 5, .segmentReceived { header := { ack := true, ackno := ⟨7⟩, win := 3 }, payload := [97, 98] },
    .tick 2000, ackSegment 4 9 0 true, ackSegment 4 0 8 false]

theorem listener_stays_silent_stray :
    ∃ c, run step (new smallConfig ⟨0⟩) strayOps = some c ∧ c.segmentsOut = [] ∧ c.state = .ofState .listen :=
  listener_stays_silent smallConfig ⟨0⟩ strayOps (by decide) (by decide +kernel)

end TCPConnection

end Sponge
