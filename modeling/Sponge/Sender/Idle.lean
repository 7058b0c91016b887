import Sponge.Sender.Steps

/-!
# When `fill_window` sends nothing

`fill_window` stops when the FIN is sent, when the window is full, and when there
is nothing to send.
-/

namespace Sponge

open Word64

namespace TCPSender

def Idle (s : TCPSender) : Prop :=
  s.eof = true ∨ s.window ≤ s.bytesInFlight ∨
    (s.byteSent ≠ 0 ∧ s.stream.content = [] ∧ s.stream.ended = false)

instance (s : TCPSender) : Decidable s.Idle := inferInstanceAs (Decidable (_ ∨ _))

variable {s s' : TCPSender} {seg : TCPSegment} {ackno : WrappingInt32} {w : UInt16} {ms : Nat}

theorem fillStep_of_idle (h : s.Idle) : s.fillStep = none := by
  unfold fillStep
  by_cases heof : s.eof = true
  · rw [if_pos heof]
  rw [if_neg heof]
  by_cases hfull : s.window ≤ s.bytesInFlight
  · simp only [ge_iff_le, hfull, or_true, if_true]
  obtain ⟨hsent, hempty, hopen⟩ := (h.resolve_left heof).resolve_left hfull
  have hzero : TCPSegment.lengthInSequenceSpace { header := { syn := s.byteSent == 0 } } = 0 := by
    simp [TCPSegment.lengthInSequenceSpace, hsent]
  have hpayload : s.payloadSize 0 = 0 := by
    rw [payloadSize_eq (by omega), hempty]
    simp
  simp only [hzero, hpayload, ByteStream.eof, hopen]
  simp

theorem fillWindow_of_idle (h : s.Idle) : s.fillWindow = s := by
  rw [fillWindow_eq, fillStep_of_idle h]

theorem idle_of_eof (h : s.eof = true) : s.Idle := Or.inl h

theorem Emits.bytesInFlight_emit (h : Emits s seg) :
    (s.emit seg).bytesInFlight = s.bytesInFlight + seg.lengthInSequenceSpace := by
  have hfits := h.fits
  have hlt := s.window_lt
  unfold bytesInFlight at hfits ⊢
  rw [emit_byteSent, emit_byteReceived]
  unfold sub64 at hfits ⊢
  omega

/-! ## What the FIN ends -/

/-- The FIN is sent and everything is acknowledged. -/
structure Closed (s : TCPSender) : Prop where
  eof : s.eof = true
  unacked : s.unacked = []

theorem closed_iff : s.Closed ↔ s.finAcked = true := by
  unfold finAcked finSent
  simp only [Bool.and_eq_true, List.isEmpty_iff]
  exact ⟨fun h => ⟨h.unacked, h.eof⟩, fun h => ⟨h.2, h.1⟩⟩

theorem acknowledge_closed {a : Nat} (h : s.Closed) : (s.acknowledge a).Closed := by
  obtain ⟨timer, heq⟩ := acknowledge_eq s a
  rw [heq]
  exact ⟨h.eof, by simp only [h.unacked, popAcked]⟩

theorem fillWindow_eof (h : s.eof = true) : s.fillWindow.eof = true := by
  rw [fillWindow_of_idle (idle_of_eof h)]
  exact h

theorem ackReceived_eof (h : s.eof = true) : (s.ackReceived ackno w).1.eof = true := by
  apply ackReceived_inv (P := fun s => s.eof = true)
  · exact h
  · intro absAckNo
    obtain ⟨timer, hack⟩ := acknowledge_eq { s with windowSize := w } absAckNo
    rw [hack]
    exact h
  · exact fun s' hs' => fillWindow_eof hs'

theorem fillWindow_closed (h : s.Closed) : s.fillWindow.Closed := by
  rw [fillWindow_of_idle (idle_of_eof h.eof)]
  exact h

theorem ackReceived_closed (h : s.Closed) : (s.ackReceived ackno w).1.Closed := by
  have hwin : TCPSender.Closed { s with windowSize := w } := ⟨h.eof, h.unacked⟩
  apply ackReceived_inv hwin
  · exact fun absAckNo => acknowledge_closed hwin
  · exact fun s' hs' => fillWindow_closed hs'

/-- The timer runs out within `ms` milliseconds. -/
def Expires (s : TCPSender) (ms : Nat) : Prop :=
  s.sendtimer.active = true ∧ s.sendtimer.rto ≤ sub64 (add64 s.time ms) s.sendtimer.startTime

instance (s : TCPSender) (ms : Nat) : Decidable (s.Expires ms) := inferInstanceAs (Decidable (_ ∧ _))

theorem tick_of_not_expires (h : ¬ s.Expires ms) :
    ∃ now, s.tick ms = some { s with
      time := add64 s.time ms, sendtimer := { s.sendtimer with currentTime := now } } := by
  unfold tick Timer.timeout Timer.updateTime
  simp only
  split_ifs with hactive hout
  · simp only [Bool.and_eq_true, decide_eq_true_eq] at hout
    exact absurd hout h
  · exact ⟨_, rfl⟩
  · exact ⟨s.sendtimer.currentTime, rfl⟩

theorem tick_eof (h : s.tick ms = some s') : s'.eof = s.eof ∧ s'.unacked = s.unacked := by
  rcases tick_cases h with ⟨_, _, rfl⟩ | ⟨_, _, _, _, _, -, rfl⟩
  · exact ⟨rfl, rfl⟩
  · exact ⟨rfl, rfl⟩

end TCPSender

end Sponge
