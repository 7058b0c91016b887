import Sponge.Connection.State
import Sponge.Sender.Emitted

/-!
# Two notions of the FIN state

`TCPState::state_summary` infers from the numbers of bytes whether the FIN was
sent and acknowledged; the sender keeps a flag and a queue. The numbers agree with
them as long as nothing is written behind the end of the stream.
-/

namespace Sponge

open Run

namespace SenderTrace

open TCPSender

variable {t t' t₁ : SenderTrace} {op : SenderOp} {first : Nat}

theorem bytesWritten_step (t : SenderTrace) (op : SenderOp) (t' : SenderTrace)
    (h : t.s.stream.alwritten = t.input.length) (hstep : step t op = some t') :
    t'.s.stream.alwritten = t'.input.length := by
  refine step_inv (P := fun t => t.s.stream.alwritten = t.input.length) (fun t₁ hp => ?_) (fun t seg ht he => ?_) hstep
  · cases hp with
    | write data n hn =>
      simp only [List.length_append, List.length_take, Nat.min_eq_left hn, h]
    | acknowledge ackno w absAckNo hlo hhi habs =>
      obtain ⟨timer, heq⟩ := acknowledge_eq (t.windowed ackno w).s absAckNo
      rw [heq]
      exact h
    | _ => exact h
  · simp only [SenderTrace.emit, he.stream_eq]
    exact ht

theorem Drained.stream_eof (h : Drained t) (heof : t.s.eof = true) : t.s.stream.eof = true := by
  obtain ⟨hended, hall⟩ := h.eof heof
  have hempty : t.s.stream.content = [] := by
    rw [h.faithful.content, hall, List.drop_length]
  simp [ByteStream.eof, ByteStream.bufferEmpty, hended, hempty]

theorem Faithful.alread_of_eof (h : Faithful t) (heof : t.s.stream.eof = true) :
    t.s.stream.alread = t.input.length := by
  simp only [ByteStream.eof, ByteStream.bufferEmpty, Bool.and_eq_true, List.isEmpty_iff, h.content,
    List.drop_eq_nil_iff] at heof
  exact Nat.le_antisymm h.within heof.2

theorem Drained.stateSummary (h : Drained t) (hq : Queue t.s first) (hwritten : t.s.stream.alwritten = t.input.length)
    (herror : t.s.stream.error = false) (hacked : 0 < t.s.byteReceived) :
    t.s.stateSummary = if t.s.finSent then (if t.s.finAcked then .finAcked else .finSent) else .synAcked := by
  have hflight := hq.inFlight.bytesInFlight_eq
  have hreceived := hq.inFlight.received
  have hsent : t.firsts ≠ [] := by
    intro hnone
    have := (h.faithful.fresh hnone).1
    omega
  have hcount := h.faithful.count hsent
  have hopen : t.s.byteSent ≠ 0 ∧ t.s.byteSent ≠ t.s.bytesInFlight := by omega
  unfold TCPSender.stateSummary nextSeqnoAbsolute ByteStream.bytesWritten finAcked finSent
  rw [if_neg (by simp [herror]), if_neg hopen.1, if_neg hopen.2]
  cases heof : t.s.eof with
  | false =>
    simp only [heof, Bool.false_eq_true, if_false] at hcount ⊢
    -- Without a FIN the last two states need a count that only the FIN can bring.
    split_ifs with hstream hshort hflying
    · rfl
    · rfl
    · have := h.faithful.alread_of_eof (by simpa using hstream)
      omega
    · have := h.faithful.alread_of_eof (by simpa using hstream)
      omega
  | true =>
    have hall := (h.eof heof).2
    simp only [heof, if_true] at hcount
    rw [if_neg (by simp [h.stream_eof heof]), if_neg (by omega)]
    have hempty : t.s.unacked.isEmpty = true ↔ t.s.bytesInFlight = 0 := by
      rw [List.isEmpty_iff, hq.unacked_eq_nil_iff]
      omega
    simp only [Bool.and_true, if_true, hempty, ne_eq, ite_not]

/-- In every state that a sender reaches without a write after the end, the summary says that the
FIN was sent or acknowledged exactly when the sender says so. The sum `bytes_written() + 2` of the
summary is to fit in 64 bits. -/
theorem fin_states_agree (capacity : Nat) (retxTimeout : UInt16) (isn : WrappingInt32) (ops : List SenderOp)
    (t : SenderTrace) (hops : AllSteps step NoLateWrite (start capacity retxTimeout isn) ops)
    (h : run step (start capacity retxTimeout isn) ops = some t) (herror : t.s.stream.error = false)
    (hacked : 0 < t.s.byteReceived) (hfits : t.s.stream.bytesWritten + 2 < 2 ^ 64) :
    (t.s.stateSummary = .finSent ↔ t.s.finSent = true ∧ t.s.finAcked = false) ∧
      (t.s.stateSummary = .finAcked ↔ t.s.finAcked = true) ∧
      (¬ (t.s.finSent = true ∧ t.s.finAcked = false) → ¬ t.s.finAcked = true → t.s.stateSummary = .synAcked) := by
  have hdrained := run_inv_of_allSteps Drained.step (drained_start capacity retxTimeout isn) hops h
  have hwritten : t.s.stream.alwritten = t.input.length := run_inv bytesWritten_step rfl h
  have hsent : t.s.byteSent < 2 ^ 64 := by
    have hle := hdrained.faithful.byteSent_le
    unfold ByteStream.bytesWritten at hfits
    omega
  obtain ⟨first, hq⟩ := run_inv queue_step (fun _ => ⟨0, queue_new capacity retxTimeout isn⟩) h hsent
  have hunsent : t.s.finSent = false → t.s.finAcked = false := by
    intro hf
    unfold finAcked
    rw [hf, Bool.and_false]
  rw [hdrained.stateSummary hq hwritten herror hacked]
  split_ifs with hf ha
  · simp [ha]
  · simp [hf, ha]
  · simp [hf, hunsent (Bool.eq_false_iff.mpr hf)]

theorem fin_states_agree_acked :
    ∃ t, run step (start 8 100 ⟨5⟩) (threeByteOps ++ [.sendEmptySegment, .ackReceived ⟨10⟩ 4]) = some t ∧
      t.s.finAcked = true ∧ t.s.stateSummary = .finAcked ∧
      (t.s.stateSummary = .finAcked ↔ t.s.finAcked = true) := by
  have hrun : ∃ t, run step (start 8 100 ⟨5⟩) (threeByteOps ++ [.sendEmptySegment, .ackReceived ⟨10⟩ 4]) = some t ∧
      t.s.finAcked = true ∧ t.s.stateSummary = .finAcked ∧ t.s.stream.error = false ∧ 0 < t.s.byteReceived ∧
      t.s.stream.bytesWritten + 2 < 2 ^ 64 := by
    decide +kernel
  obtain ⟨t, ht, hacked, hsummary, herror, hreceived, hfits⟩ := hrun
  have hagree := fin_states_agree 8 100 ⟨5⟩ (threeByteOps ++ [.sendEmptySegment, .ackReceived ⟨10⟩ 4]) t
    (by decide +kernel) ht herror hreceived hfits
  exact ⟨t, ht, hacked, hsummary, hagree.2.1⟩

end SenderTrace

end Sponge
