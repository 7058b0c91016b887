import Sponge.Connection.Steps
import Sponge.Lib.Run

/-!
# After the end

`active()` is computed from the state each time, and no call asks for it. A
connection that is over stays so, and silent, as long as nothing waits in the
sender, its timer does not run out, and no segment restarts the linger time or
asks for an answer.
-/

namespace Sponge

open Word64 Run

namespace TCPConnection

variable {c c' : TCPConnection} {seg : TCPSegment} {op : Op} {ms : Nat}

theorem active_eq_false_iff :
    c.active = false ↔ c.rst = true ∨ (c.sender.Closed ∧ c.inboundStream.inputEnded = true ∧
      (c.lingerAfterStreamsFinish = false ∨ 10 * c.cfg.rtTimeout.toNat ≤ c.timeSinceLastSegmentReceived)) := by
  rw [TCPSender.closed_iff]
  unfold active
  cases hacked : c.sender.finAcked with
  | false => cases c.rst <;> simp
  | true =>
    have hsent : c.sender.finSent = true := by
      unfold TCPSender.finAcked at hacked
      exact (Bool.and_eq_true_iff.mp hacked).2
    rw [hsent]
    cases c.rst <;> cases c.inboundStream.inputEnded <;> cases c.lingerAfterStreamsFinish <;> simp

/-! ## Calls that stay silent -/

/-- Nothing waits to be sent. -/
def Still (s : TCPSender) : Prop := s.segmentsOut = [] ∧ s.Idle

instance (s : TCPSender) : Decidable (Still s) := inferInstanceAs (Decidable (_ ∧ _))

/-- The segment is dropped, taken in without an answer, or cannot be answered because the peer's
SYN has not come. -/
def Unanswered (c : TCPConnection) (seg : TCPSegment) : Prop :=
  c.Drops seg ∨
    (c.receiver.isnset = true ∧ seg.lengthInSequenceSpace = 0 ∧ c.receiver.inWindow seg = true ∧
      (seg.header.ack = true → unwrap seg.header.ackno c.sender.isn c.sender.byteReceived ≤ c.sender.byteSent)) ∨
    (c.receiver.isnset = false ∧ seg.header.syn = false ∧ c.sender.segmentsOut = [] ∧ AckIdle c.sender seg.header)

instance (c : TCPConnection) (seg : TCPSegment) : Decidable (c.Unanswered seg) :=
  inferInstanceAs (Decidable (_ ∨ _))

/-- The time of the last segment has no part in `active()`. -/
def Timeless (c : TCPConnection) : Prop :=
  c.rst = true ∨ c.lingerAfterStreamsFinish = false ∨ c.cfg.rtTimeout = 0

instance (c : TCPConnection) : Decidable c.Timeless := inferInstanceAs (Decidable (_ ∨ _))

def Silent (c : TCPConnection) : Op → Prop
  | .connect => Still c.sender
  | .write data => Still { c.sender with stream := (c.sender.stream.write data).1 }
  | .endInputStream => Still { c.sender with stream := c.sender.stream.endInput }
  | .segmentReceived seg => seg.header.rst = true ∨ (c.Timeless ∧ c.Unanswered seg)
  | .tick ms =>
    c.sender.segmentsOut = [] ∧ ¬ c.sender.Expires ms ∧
      c.sender.consecutiveRetrans ≤ TCPConfig.maxRetxAttempts ∧
      (c.Timeless ∨ c.timeSinceLastSegmentReceived + ms < 2 ^ 64)
  | .read _ => True

instance (c : TCPConnection) : ∀ op, Decidable (Silent c op)
  | .connect | .write _ | .endInputStream => inferInstanceAs (Decidable (Still _))
  | .segmentReceived _ => inferInstanceAs (Decidable (_ ∨ _))
  | .tick _ => inferInstanceAs (Decidable (_ ∧ _))
  | .read _ => .isTrue trivial

/-! ## One call -/

/-- The connection is over and `out` is all that was ever sent. -/
structure Dead (out : List TCPSegment) (c : TCPConnection) : Prop where
  inactive : c.active = false
  out : c.segmentsOut = out

variable {out : List TCPSegment}

theorem Dead.keep (h : Dead out c) (hcfg : c'.cfg = c.cfg) (hrst : c.rst = true → c'.rst = true)
    (hclosed : c.sender.Closed → c'.sender.Closed)
    (hend : c.inboundStream.inputEnded = true → c'.inboundStream.inputEnded = true)
    (hflag : c.lingerAfterStreamsFinish = false → c'.lingerAfterStreamsFinish = false)
    (htime : c.Timeless ∨ c.timeSinceLastSegmentReceived ≤ c'.timeSinceLastSegmentReceived)
    (hout : c'.segmentsOut = c.segmentsOut) : Dead out c' := by
  refine ⟨?_, hout.trans h.out⟩
  rw [active_eq_false_iff]
  -- Over by a RST, or with both streams at their ends and no reason to linger.
  rcases active_eq_false_iff.mp h.inactive with hr | ⟨hs, he, hl⟩
  · exact Or.inl (hrst hr)
  rcases htime with (hr | hf | hzero) | htime
  · exact Or.inl (hrst hr)
  · exact Or.inr ⟨hclosed hs, hend he, Or.inl (hflag hf)⟩
  · exact Or.inr ⟨hclosed hs, hend he, Or.inr (by simp [hcfg, hzero])⟩
  · refine Or.inr ⟨hclosed hs, hend he, hl.imp hflag fun hl => ?_⟩
    rw [hcfg]
    exact le_trans hl htime

theorem Dead.fillAndSend {s : TCPSender} (h : Dead out c) (hs : Still s) (hclosed : c.sender.Closed → s.Closed) :
    Dead out ({ c with sender := s } : TCPConnection).fillAndSend := by
  have heq := TCPSender.fillWindow_of_idle hs.2
  have hempty : ({ c with sender := s.fillWindow } : TCPConnection).sender.segmentsOut = [] := by
    simp only [heq, hs.1]
  refine h.keep rfl id (fun hc => ?_) id id (Or.inr (le_refl _)) (segmentOut_of_empty hempty)
  have hs := hclosed hc
  refine ⟨?_, ?_⟩
  · show s.fillWindow.eof = true
    rw [heq, hs.eof]
  · show s.fillWindow.unacked = []
    rw [heq, hs.unacked]

theorem senderReceived_closed {s : TCPSender} (header : TCPHeader) (h : s.Closed) :
    (senderReceived s header).1.Closed := by
  unfold senderReceived
  split_ifs
  · exact TCPSender.ackReceived_closed h
  · rw [TCPSender.fillWindow_of_idle (TCPSender.idle_of_eof h.eof)]
    exact h

theorem ackReceived_check {s : TCPSender} {ackno : WrappingInt32} {w : UInt16}
    (h : unwrap ackno s.isn s.byteReceived ≤ s.byteSent) : (s.ackReceived ackno w).2 = true := by
  unfold TCPSender.ackReceived
  simp only
  rw [if_neg (by omega)]
  split_ifs <;> rfl

theorem Dead.process (h : Dead out c) (hproc : c.process seg = some c') (htime : c.Timeless)
    (hdrop : ¬ c.Drops seg) (hun : c.Unanswered seg) : Dead out c' := by
  obtain ⟨hend, -, hflag⟩ := process_ends hproc
  have hlinger : c.lingerAfterStreamsFinish = false → c'.lingerAfterStreamsFinish = false := by
    intro hf
    rw [hflag, hf]
    rfl
  obtain ⟨receiver, inside, hrec, ⟨-, -, -, rfl⟩ | ⟨hacc, rfl⟩⟩ := process_cases hproc
  · exact h.keep rfl id (senderReceived_closed seg.header) hend hlinger (Or.inl htime) rfl
  · refine h.keep rfl id (fun hc => ?_) hend hlinger (Or.inl htime) (segmentOut_of_empty ?_)
    · have hs := senderReceived_closed seg.header hc
      have ha := answered_eof receiver (senderReceived c.sender seg.header).1
      exact ⟨ha.1.trans hs.eof, ha.2.trans hs.unacked⟩
    · rcases hun with hd | ⟨hset, hlen, hwin, hack⟩ | ⟨hunset, hsyn, hq, hidle⟩
      · exact absurd hd hdrop
      · -- Such a segment is taken in, so this way out is not reached.
        refine absurd ⟨hlen, ?_, ?_⟩ hacc
        · rw [TCPReceiver.segmentReceived_verdict hset hrec, hwin]
        · unfold senderReceived
          split_ifs with hflag
          · exact ackReceived_check (hack hflag)
          · rfl
      · have hr : receiver = c.receiver := by
          rcases TCPReceiver.segmentReceived_cases hrec with ⟨-, -, hr⟩ | ⟨hset, -⟩
          · exact hr
          · simp [hunset, hsyn] at hset
        show (answered receiver (senderReceived c.sender seg.header).1).segmentsOut = []
        rw [answered, hr, hunset, Bool.and_false, if_neg Bool.false_ne_true, senderReceived_of_idle hidle, hq]

theorem timeSince_tick (h : c.timeSinceLastSegmentReceived + ms < 2 ^ 64) :
    c.timeSinceLastSegmentReceived ≤ sub64 (add64 c.time ms) c.lastSegmentTime := by
  unfold timeSinceLastSegmentReceived sub64 at h ⊢
  unfold add64
  omega

theorem Dead.tick (h : Dead out c) (hop : Silent c (.tick ms)) (htick : c.tick ms = some c') : Dead out c' := by
  obtain ⟨hq, hexp, hfew, htime⟩ := hop
  obtain ⟨timer, hs⟩ := TCPSender.tick_of_not_expires hexp
  obtain ⟨sender, hs', hout⟩ := tick_cases htick
  rw [hs] at hs'
  cases hs'
  rcases hout with ⟨-, rfl⟩ | ⟨hmany, -⟩
  · refine h.keep rfl id (fun hc => ⟨hc.eof, hc.unacked⟩) id id ?_ (segmentOut_of_empty hq)
    exact htime.imp id timeSince_tick
  · exact absurd hfew (by simpa using hmany)

theorem Dead.step (c : TCPConnection) (op : Op) (c' : TCPConnection) (h : Dead out c) (hop : Silent c op)
    (hstep : c.step op = some c') : Dead out c' := by
  cases op with
  | connect =>
    cases hstep
    exact h.fillAndSend hop id
  | write data =>
    cases hstep
    exact h.fillAndSend hop fun hc => ⟨hc.eof, hc.unacked⟩
  | endInputStream =>
    cases hstep
    exact h.fillAndSend hop fun hc => ⟨hc.eof, hc.unacked⟩
  | segmentReceived seg =>
    have hdead : c.Timeless → Dead out { c with lastSegmentTime := c.time } := fun htime =>
      h.keep rfl id id id id (Or.inl htime) rfl
    -- A RST ends it for good. Any other segment sets the clock back, which must not matter.
    rcases segmentReceived_cases hstep with ⟨-, rfl⟩ | ⟨hrst, -, rfl⟩ | ⟨hrst, hdrop, hproc⟩
    · exact ⟨active_eq_false_iff.mpr (Or.inl rfl), h.out⟩
    · exact hdead (hop.resolve_left (by simp [hrst])).1
    · obtain ⟨htime, hun⟩ := hop.resolve_left (by simp [hrst])
      exact (hdead htime).process hproc htime hdrop hun
  | tick ms => exact h.tick hop hstep
  | read len =>
    cases hstep
    exact h.keep rfl id id (fun he => (inputEnded_readOut _ len).trans he) id (Or.inr (le_refl _)) rfl

/-! ## Whole runs -/

/-- The active close, up to the end of the linger time. -/
def timeWaitOps : List Op :=
  [.connect, synAck 8, .endInputStream, ackSegment 1 2 8 false, ackSegment 1 2 8 true, .tick 10000]

/-- The peer's FIN comes once more, and the connection is active again and answers. -/
theorem late_fin_revives :
    ∃ c c', run step (new smallConfig ⟨0⟩) timeWaitOps = some c ∧ c.active = false ∧
      c.step (ackSegment 1 2 8 true) = some c' ∧ c'.active = true ∧
      c'.segmentsOut.length = c.segmentsOut.length + 1 := by
  have hrun : ∃ c, run step (new smallConfig ⟨0⟩) timeWaitOps = some c ∧ c.active = false ∧
      ∃ c', c.step (ackSegment 1 2 8 true) = some c' ∧ c'.active = true ∧
        c'.segmentsOut.length = c.segmentsOut.length + 1 := by decide +kernel
  obtain ⟨c, hc, hdead, c', hc', hrevived⟩ := hrun
  exact ⟨c, c', hc, hdead, hc', hrevived⟩

/-- Once a connection is over, every run of calls that stay silent leaves it over and silent. -/
theorem stays_dead (c : TCPConnection) (later : List Op) (c' : TCPConnection) (hdead : c.active = false)
    (hok : AllSteps step Silent c later) (h : run step c later = some c') :
    c'.active = false ∧ c'.segmentsOut = c.segmentsOut := by
  have hinv : Dead c.segmentsOut c' := run_inv_of_allSteps Dead.step ⟨hdead, rfl⟩ hok h
  exact ⟨hinv.inactive, hinv.out⟩

def laterOps : List Op :=
  [.tick 5, .write [97], .endInputStream, .connect, .read 1, .segmentReceived { header := { rst := true } },
    ackSegment 2 2 8 false]

theorem stays_dead_after_time_wait :
    ∃ c c', run step (new smallConfig ⟨0⟩) timeWaitOps = some c ∧ run step c laterOps = some c' ∧
      c'.active = false ∧ c'.segmentsOut = c.segmentsOut := by
  have hrun : ∃ c, run step (new smallConfig ⟨0⟩) timeWaitOps = some c ∧ c.active = false ∧
      AllSteps step Silent c laterOps ∧ (run step c laterOps).isSome = true := by
    decide +kernel
  obtain ⟨c, hc, hdead, hsilent, hsome⟩ := hrun
  obtain ⟨c', hc'⟩ := Option.isSome_iff_exists.mp hsome
  obtain ⟨hdead', hout⟩ := stays_dead c laterOps c' hdead hsilent hc'
  exact ⟨c, c', hc, hc', hdead', hout⟩

end TCPConnection

end Sponge
