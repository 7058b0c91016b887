import Sponge.System.Delivery

/-!
# What is acknowledged has been written

The sender gives up a segment when an answer of the receiver covers it. The number
in an answer is the first one that was not written, so nothing is given up too
early, as long as the receiver keeps the end of the stream. When a FIN overtakes
bytes that were sent before it, the answer counts the FIN in their place.
-/

namespace Sponge

open Slice Run StreamReassembler

namespace System

open SenderTrace TCPReceiver TCPSender

/-- The receiver keeps the end of the stream when it looks at the segment. -/
def KeepsEnd (s : System) (_ : Nat) (seg : TCPSegment) : Prop :=
  s.b.isnset = true ∨ seg.header.syn = true → FinSafe s.b seg

instance (s : System) (n : Nat) (seg : TCPSegment) : Decidable (KeepsEnd s n seg) :=
  inferInstanceAs (Decidable (_ ∨ _ → FinSafe _ _))

/-- What holds between two actions that keep to `KeepsEnd`. -/
structure Acked (capacity : Nat) (s : System) : Prop where
  joined : Joined capacity s
  queue : ∃ first, Queue s.a.s first
  ackno : AcknoInv s.a.taken s.a.s.isn s.b
  ending : s.b.reassembler.checkeof = true → s.a.s.eof = true
  answers : ∀ p ∈ s.answers, ∃ v ≤ s.b.delivered, p.1 = wrap v s.a.s.isn
  received : s.a.s.byteReceived ≤ s.b.delivered

theorem acked_start (sendCapacity : Nat) (retxTimeout : UInt16) (isn : WrappingInt32) (recvCapacity : Nat) :
    Acked recvCapacity (start sendCapacity retxTimeout isn recvCapacity) where
  joined := joined_start sendCapacity retxTimeout isn recvCapacity
  queue := ⟨0, queue_new sendCapacity retxTimeout isn⟩
  ackno := acknoInv_new _ isn recvCapacity
  ending := by simp [start, TCPReceiver.new, StreamReassembler.new]
  answers := by simp [start]
  received := Nat.zero_le _

variable {s s' : System} {action : Action} {capacity n : Nat} {seg : TCPSegment} {b : TCPReceiver} {inside : Bool}

theorem length_taken_le (t : SenderTrace) : t.taken.length ≤ t.input.length :=
  (List.take_prefix t.s.stream.alread t.input).length_le

/-! ## The sender -/

theorem Acked.received_step {a : SenderTrace} {op : SenderOp} (h : Acked capacity s)
    (hlen : s.a.input.length + 2 < 2 ^ 31) (ha : s.a.step op = some a)
    (hop : ∀ ackno w, op = .ackReceived ackno w → (ackno, w) ∈ s.answers) :
    a.s.byteReceived ≤ s.b.delivered := by
  have hreceived := h.received
  have hdelivered := h.ackno.delivered_le
  have htaken := length_taken_le s.a
  rcases byteReceived_step ha with heq | ⟨ackno, w, rfl, heq⟩
  · omega
  · obtain ⟨v, hv, hwrap⟩ := h.answers (ackno, w) (hop ackno w rfl)
    simp only at hwrap
    rw [heq, hwrap, unwrap_wrap_of_short v _ _ (by omega) (by omega)]
    exact hv

theorem Acked.sender_step {a : SenderTrace} {op : SenderOp} (h : Acked capacity s)
    (hlen : a.input.length + 2 < 2 ^ 31) (ha : s.a.step op = some a)
    (hop : ∀ ackno w, op = .ackReceived ackno w → (ackno, w) ∈ s.answers) :
    Acked capacity { s with a := a } := by
  have hjoined := h.joined.sender_step ha
  have hinput := (input_step ha).length_le
  have hsent := hjoined.sender.byteSent_le
  have hisn : a.s.isn = s.a.s.isn := isn_step s.a op a rfl ha
  obtain ⟨hgrows, hlast⟩ := h.joined.sender.taken_step ha
  refine
    { joined := hjoined
      queue := queue_step s.a op a (fun _ => h.queue) ha (by simp only at hsent; omega)
      ackno := ?_
      ending := fun hmark => (hlast (h.ending hmark)).2
      answers := ?_
      received := h.received_step (by omega) ha hop }
  · simp only [hisn]
    exact h.ackno.mono hgrows fun hmark => (hlast (h.ending hmark)).1
  · simp only [hisn]
    exact h.answers

/-! ## The receiver -/

theorem Acked.near (h : Acked capacity s) (hlen : s.a.input.length + 2 < 2 ^ 31)
    (hseg : (n, seg) ∈ s.a.emitted) : Near s n seg := by
  have hshort := (h.joined.sender.segmentAt_of_emitted hseg).1.short
  have hwithin := h.ackno.endInv.within
  have htaken := length_taken_le s.a
  unfold Near
  rw [h.ackno.bytesWritten_eq]
  omega

theorem Acked.deliver (h : Acked capacity s) (hlen : s.a.input.length + 2 < 2 ^ 31)
    (hseg : (n, seg) ∈ s.a.emitted) (hkept : KeepsEnd s n seg)
    (hrec : s.b.segmentReceived seg = some (b, inside)) :
    Acked capacity
      { s with b := b, output := s.output ++ b.streamOut.content.drop s.b.streamOut.content.length } := by
  obtain ⟨hat, -, hfin⟩ := h.joined.sender.segmentAt_of_emitted hseg
  have hnear := h.near hlen hseg
  have htaken := length_taken_le s.a
  have hjoined := h.joined.deliver (by omega) hseg hnear (fun hset => ?_) hrec
  swap
  · -- The index of the data is known only once the receiver has the ISN.
    have hlimit := (hkept hset).eofSafe.limit
    rwa [h.joined.streamIndex_eq (by omega) hseg hnear hset] at hlimit
  have hackno := h.ackno.segment (by omega) hat hkept hrec
  obtain ⟨hstays, hcomes⟩ := checkeof_segment hrec
  have hF : s.b.reassembler.firstindex ≤ b.reassembler.firstindex := by
    have hold := h.joined.trace.length
    have hnew := hjoined.trace.length
    simp only [List.length_append] at hold hnew
    omega
  have hmono := h.ackno.delivered_mono hackno hF hstays
  refine
    { joined := hjoined
      queue := h.queue
      ackno := hackno
      ending := fun hmark => (hcomes hmark).elim h.ending hfin
      answers := fun p hp => ?_
      received := h.received.trans hmono }
  obtain ⟨v, hv, hwrap⟩ := h.answers p hp
  exact ⟨v, hv.trans hmono, hwrap⟩

theorem Acked.answer {ackno : WrappingInt32} (h : Acked capacity s) (hack : s.b.ackno = some ackno) (w : UInt16) :
    Acked capacity { s with answers := s.answers ++ [(ackno, w)] } := by
  have hset : s.b.isnset = true := by
    cases hr : s.b.isnset with
    | true => rfl
    | false => simp [TCPReceiver.ackno, hr] at hack
  rw [h.ackno.ackno_eq hset, Option.some.injEq] at hack
  refine ⟨⟨h.joined.sender, h.joined.isn, h.joined.trace⟩, h.queue, h.ackno, h.ending, fun p hp => ?_, h.received⟩
  rcases List.mem_append.mp hp with hp | hp
  · exact h.answers p hp
  · rw [List.mem_singleton.mp hp]
    exact ⟨s.b.delivered, Nat.le_refl _, hack.symm⟩

theorem Acked.read (h : Acked capacity s) (len : Nat) : Acked capacity { s with b := s.b.readOut len } where
  joined := ⟨h.joined.sender, h.joined.isn, h.joined.trace.readOut len⟩
  queue := h.queue
  ackno := h.ackno.readOut len
  ending := h.ending
  answers := by
    simp only [delivered_readOut]
    exact h.answers
  received := by
    simp only [delivered_readOut]
    exact h.received

/-! ## Whole runs -/

theorem Acked.step (s : System) (action : Action) (s' : System)
    (h : s.a.input.length + 2 < 2 ^ 31 → Acked capacity s) (hkept : AtDelivery KeepsEnd s action)
    (hstep : step s action = some s') : s'.a.input.length + 2 < 2 ^ 31 → Acked capacity s' := by
  intro hlen'
  have hlen : s.a.input.length + 2 < 2 ^ 31 := by
    have := (input_mono hstep).length_le
    omega
  specialize h hlen
  rcases step_cases hstep with ⟨op, a, ha, rfl, hop⟩ | ⟨i, n, seg, b, inside, rfl, hi, hrec, rfl⟩ |
    (rfl | ⟨ackno, hack, rfl⟩) | ⟨len, rfl⟩
  · exact h.sender_step hlen' ha hop
  · exact h.deliver hlen (List.mem_of_getElem? hi) (hkept _ hi) hrec
  · exact h
  · exact h.answer hack _
  · exact h.read len

theorem Acked.written (h : Acked capacity s) (hseg : (n, seg) ∈ numbered 0 s.a.firsts)
    (hend : n + seg.lengthInSequenceSpace ≤ s.b.delivered) :
    IsSlice s.output (max n 1 - 1) seg.payload ∧
      (seg.header.fin = true → s.b.streamOut.inputEnded = true) := by
  obtain ⟨hat, hsyn, -, hfin⟩ := h.joined.sender.segments (n, seg) hseg
  simp only at hat hsyn hfin
  have hwithin := h.ackno.endInv.within
  have hlength := h.joined.trace.length
  unfold delivered at hend
  rw [h.ackno.bytesWritten_eq] at hend
  simp only at hlength
  refine ⟨?_, fun hf => ?_⟩
  · by_cases hne : seg.payload = []
    · rw [hne]
      exact isSlice_nil
    have hstop : max n 1 - 1 + seg.payload.length ≤ s.output.length := by
      -- With the stream ended all of it is out; otherwise the count has no FIN in it.
      by_cases hended : s.b.streamOut.inputEnded = true
      · have hall := (h.ackno.endInv.marked hended).2
        have := hat.slice.end_le hne
        omega
      · rw [if_neg hended, TCPSegment.lengthInSequenceSpace] at hend
        by_cases h0 : n = 0
        · rw [if_pos (hsyn.mpr h0)] at hend
          omega
        · omega
    exact (hat.slice.mono ( List.take_prefix _ _)).restrict h.joined.trace.start hstop
  · by_contra hopen
    rw [if_neg hopen] at hend
    have := (hfin hf).2
    omega

/-- `a` and the FIN are sent in two segments. The FIN arrives, is answered with the number
behind both, and the answer arrives. -/
def overtakenActions : List Action :=
  [.fillWindow, .deliver 0, .answer, .acknowledge 0, .write [97], .fillWindow, .endInput, .fillWindow,
    .deliver 2, .answer, .acknowledge 1]

theorem acked_unwritten :
    ∃ s, run step (start 8 1000 ⟨0⟩ 8) overtakenActions = some s ∧ s.a.input = [97] ∧ s.output = [] ∧
      (∀ seg ∈ s.a.s.unacked, seg.payload = []) ∧
      ¬ s.a.s.byteReceived ≤ 1 + s.b.streamOut.bytesWritten + (if s.b.streamOut.inputEnded then 1 else 0) := by
  decide +kernel

/-- In every run that keeps the end, the sender's left edge is not ahead of the receiver, and what
left the queue is in the receiver's output. -/
theorem acked_written (sendCapacity : Nat) (retxTimeout : UInt16) (isn : WrappingInt32) (recvCapacity : Nat)
    (actions : List Action) (s : System)
    (hkept : AllSteps step (AtDelivery KeepsEnd) (start sendCapacity retxTimeout isn recvCapacity) actions)
    (h : run step (start sendCapacity retxTimeout isn recvCapacity) actions = some s)
    (hlen : s.a.input.length + 2 < 2 ^ 31) :
    s.a.s.byteReceived ≤ 1 + s.b.streamOut.bytesWritten + (if s.b.streamOut.inputEnded then 1 else 0) ∧
      ∃ acked, s.a.firsts = acked ++ s.a.s.unacked ∧ ∀ n seg, (n, seg) ∈ numbered 0 acked →
        IsSlice s.output (max n 1 - 1) seg.payload ∧
          (seg.header.fin = true → s.b.streamOut.inputEnded = true) := by
  have hinv := run_inv_of_allSteps Acked.step
    (fun _ => acked_start sendCapacity retxTimeout isn recvCapacity) hkept h hlen
  obtain ⟨first, hq⟩ := hinv.queue
  obtain ⟨acked, hfirsts⟩ := hinv.joined.sender.queue
  refine ⟨hinv.received, acked, hfirsts.symm, fun n seg hseg => hinv.written ?_ ?_⟩
  · rw [← hfirsts, numbered_append]
    exact List.mem_append_left _ hseg
  · -- The acknowledged segments fill the numbers up to the first one in the queue.
    have hrange := (Offsets.offset_range hseg).2
    have hlength := hq.length
    have htotal := hinv.joined.sender.length
    rw [← hfirsts, seqLength_append] at htotal
    have hreceived := hinv.received
    have hstart := hq.start_le
    simp only [seqLength] at htotal hlength
    omega

/-- Two bytes and the FIN in three segments: the second byte and the FIN come before the first byte. -/
def keptEndActions : List Action :=
  [.fillWindow, .deliver 0, .answer, .acknowledge 0, .write [97], .fillWindow, .write [98], .fillWindow,
    .endInput, .fillWindow, .deliver 2, .deliver 3, .deliver 1, .answer, .acknowledge 1, .read 1, .deliver 3]

theorem acked_written_kept :
    ∃ s, run step (start 8 1000 ⟨0⟩ 8) keptEndActions = some s ∧ s.a.s.byteReceived = 4 ∧
      s.a.s.byteReceived ≤ 1 + s.b.streamOut.bytesWritten + (if s.b.streamOut.inputEnded then 1 else 0) := by
  have hrun : ∃ s, run step (start 8 1000 ⟨0⟩ 8) keptEndActions = some s ∧ s.a.s.byteReceived = 4 ∧
      s.a.input.length + 2 < 2 ^ 31 := by decide +kernel
  obtain ⟨s, hs, hreceived, hshort⟩ := hrun
  exact ⟨s, hs, hreceived, (acked_written 8 1000 ⟨0⟩ 8 keptEndActions s (by decide +kernel) hs hshort).1⟩

end System

end Sponge
