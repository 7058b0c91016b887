import Sponge.Lib.Run
import Sponge.Sender.Model

/-!
# What one call of the sender can do

Every call is one change of its own and then zero or more new segments. `Prep`
lists the changes and `Emits` says what a new segment looks like; an invariant of
the sender is proved for these and then holds after every call.
-/

namespace Sponge

open Word64

namespace TCPSender

variable {s s' : TCPSender} {seg : TCPSegment}

theorem window_eq (s : TCPSender) : s.window = max s.windowSize.toNat 1 := by
  unfold window
  split_ifs with h
  · have : 0 < s.windowSize.toNat := h
    omega
  · have : ¬ 0 < s.windowSize.toNat := h
    omega

theorem window_lt (s : TCPSender) : s.window < 2 ^ 16 := by
  have := s.windowSize.toNat_lt
  rw [window_eq]
  omega

/-- A segment that `fill_window` can send next. -/
structure Emits (s : TCPSender) (seg : TCPSegment) : Prop where
  unended : s.eof = false
  syn : seg.header.syn = (s.byteSent == 0)
  seqno : seg.header.seqno = s.nextSeqno
  payload : seg.payload = s.stream.content.take seg.payload.length
  short : seg.payload.length ≤ TCPConfig.maxPayloadSize
  nonempty : 0 < seg.lengthInSequenceSpace
  fits : s.bytesInFlight + seg.lengthInSequenceSpace ≤ s.window
  fin : seg.header.fin = true → s.stream.ended = true ∧ seg.payload.length = s.stream.content.length

/-- The segment carries as many bytes as it may, or all that wait, or all that fit the window. -/
def Packed (s : TCPSender) (seg : TCPSegment) : Prop :=
  seg.payload.length = TCPConfig.maxPayloadSize ∨ seg.payload.length = s.stream.content.length ∨
    s.bytesInFlight + (if seg.header.syn then 1 else 0) + seg.payload.length = s.window

def emit (s : TCPSender) (seg : TCPSegment) : TCPSender :=
  { s with stream := s.stream.popOutput seg.payload.length, eof := seg.header.fin }.send seg

theorem Emits.payload_le (h : Emits s seg) : seg.payload.length ≤ s.stream.content.length := by
  have := congrArg List.length h.payload
  rw [List.length_take] at this
  omega

theorem Emits.stream_eq (h : Emits s seg) :
    (s.emit seg).stream = { s.stream with
      content := s.stream.content.drop seg.payload.length
      alread := s.stream.alread + seg.payload.length } := by
  simp only [emit, send]
  rw [ByteStream.popOutput_eq, Nat.min_eq_left h.payload_le]

theorem payloadSize_eq {n : Nat} (h : s.bytesInFlight + n ≤ s.window) :
    s.payloadSize n =
      min (min (s.window - s.bytesInFlight - n) s.stream.content.length) TCPConfig.maxPayloadSize := by
  have hlt := s.window_lt
  unfold payloadSize
  rw [sub64_eq (by omega : s.bytesInFlight ≤ s.window) (by omega), sub64_eq (by omega) (by omega)]
  have hsize : s.stream.bufferSize = s.stream.content.length := rfl
  by_cases hlen : s.window - s.bytesInFlight - n > s.stream.bufferSize
  · simp only [if_pos hlen]
    split <;> omega
  · simp only [if_neg hlen]
    split <;> omega

def nextSegment (s : TCPSender) (n : Nat) (fin : Bool) : TCPSegment :=
  { header := { seqno := s.nextSeqno, syn := s.byteSent == 0, fin := fin }, payload := s.stream.content.take n }

theorem nextSegment_length {n : Nat} (hn : n ≤ s.stream.content.length) (fin : Bool) :
    (s.nextSegment n fin).lengthInSequenceSpace =
      n + (if s.byteSent == 0 then 1 else 0) + (if fin then 1 else 0) := by
  simp only [nextSegment, TCPSegment.lengthInSequenceSpace, List.length_take, Nat.min_eq_left hn]
  rfl

theorem emits_nextSegment {n : Nat} {fin : Bool} (heof : s.eof = false) (hn : n ≤ s.stream.content.length)
    (hshort : n ≤ TCPConfig.maxPayloadSize)
    (hpos : 0 < n + (if s.byteSent == 0 then 1 else 0) + (if fin then 1 else 0))
    (hfits : s.bytesInFlight + (n + (if s.byteSent == 0 then 1 else 0) + (if fin then 1 else 0)) ≤ s.window)
    (hfin : fin = true → s.stream.ended = true ∧ n = s.stream.content.length) :
    Emits s (s.nextSegment n fin) where
  unended := heof
  syn := rfl
  seqno := rfl
  payload := by simp [nextSegment]
  short := by simpa [nextSegment, Nat.min_eq_left hn] using hshort
  nonempty := by rw [nextSegment_length hn]; exact hpos
  fits := by rw [nextSegment_length hn]; exact hfits
  fin := by simpa [nextSegment, Nat.min_eq_left hn] using hfin

theorem emit_nextSegment {n : Nat} (hn : n ≤ s.stream.content.length) (fin : Bool) :
    s.emit (s.nextSegment n fin) =
      { s with stream := s.stream.popOutput n, eof := fin }.send (s.nextSegment n fin) := by
  simp only [emit, nextSegment, List.length_take, Nat.min_eq_left hn]

theorem eof_popOutput {b : ByteStream} {n : Nat} (hn : n ≤ b.content.length) :
    (b.popOutput n).eof = true ↔ b.ended = true ∧ n = b.content.length := by
  have hle : b.content.length ≤ n ↔ n = b.content.length := by omega
  rw [ByteStream.popOutput_eq, Nat.min_eq_left hn]
  simp only [ByteStream.eof, ByteStream.bufferEmpty, Bool.and_eq_true, List.isEmpty_iff, List.drop_eq_nil_iff, hle]

theorem packed_nextSegment {n : Nat} {fin : Bool} (hlen : n ≤ s.stream.content.length)
    (hfits : s.bytesInFlight + (if s.byteSent == 0 then 1 else 0) ≤ s.window)
    (hn : n = min (min (s.window - s.bytesInFlight - (if s.byteSent == 0 then 1 else 0)) s.stream.content.length)
      TCPConfig.maxPayloadSize) : Packed s (s.nextSegment n fin) := by
  have hsyn : (s.nextSegment n fin).header.syn = (s.byteSent == 0) := rfl
  have hpayload : (s.nextSegment n fin).payload.length = n := by
    simp only [nextSegment, List.length_take, Nat.min_eq_left hlen]
  unfold Packed
  rw [hsyn, hpayload]
  omega

theorem fillStep_spec (h : s.fillStep = some s') : ∃ seg, Emits s seg ∧ Packed s seg ∧ s' = s.emit seg := by
  unfold fillStep at h
  cases heof : s.eof with
  | true => simp [heof] at h
  | false =>
    simp only [heof, Bool.false_eq_true, if_false] at h
    have hq : TCPSegment.lengthInSequenceSpace { header := { syn := s.byteSent == 0 } } =
        if s.byteSent == 0 then 1 else 0 := by simp [TCPSegment.lengthInSequenceSpace]
    rw [hq] at h
    have hq1 : (if s.byteSent == 0 then 1 else 0) ≤ 1 := by split_ifs <;> omega
    generalize hq' : (if s.byteSent == 0 then 1 else 0) = q at h hq hq1
    split_ifs at h with hwin hidle hroom
    all_goals
      have hlt := s.window_lt
      have hbif : s.bytesInFlight < s.window := by omega
      rw [add64_eq (by omega)] at hwin
      have hn := payloadSize_eq (s := s) (n := q) (by omega)
      generalize s.payloadSize q = n at h hidle hroom hn
      have hlen : n ≤ s.stream.content.length := by omega
      have hseg := nextSegment_length hlen false
      simp only [ByteStream.read_eq] at h hroom
      simp only [nextSegment, hq', Bool.false_eq_true, if_false, Nat.add_zero] at hseg
      rw [hseg, add64_eq (by omega)] at hroom
    · -- There is room for the end of the stream behind the payload.
      refine ⟨s.nextSegment n (s.stream.popOutput n).eof, emits_nextSegment heof hlen (by omega) ?_ ?_
        (eof_popOutput hlen).mp, packed_nextSegment hlen (by omega) (by rw [hq']; exact hn), ?_⟩
      · rw [hq']
        by_cases hpos : n + q = 0
        · have hend : s.stream.eof = true := by
            simp only [Bool.and_eq_true, beq_iff_eq, not_and] at hidle
            by_contra hne
            exact hidle (by simpa using hne) (by omega)
          have hdone : (s.stream.popOutput n).eof = true := by
            rw [eof_popOutput hlen]
            simp only [ByteStream.eof, ByteStream.bufferEmpty, Bool.and_eq_true, List.isEmpty_iff] at hend
            exact ⟨hend.1, by rw [hend.2, List.length_nil]; omega⟩
          rw [if_pos hdone]
          omega
        · omega
      · rw [hq']
        split_ifs <;> omega
      · rw [emit_nextSegment hlen]
        exact (Option.some.inj h).symm
    · refine ⟨s.nextSegment n false, emits_nextSegment heof hlen (by omega) ?_ ?_ (by simp),
        packed_nextSegment hlen (by omega) (by rw [hq']; exact hn), ?_⟩
      · rw [hq']
        omega
      · rw [hq']
        simp only [Bool.false_eq_true, if_false]
        omega
      · rw [emit_nextSegment hlen]
        exact (Option.some.inj h).symm

theorem fillStep_cases (h : s.fillStep = some s') : ∃ seg, Emits s seg ∧ s' = s.emit seg := by
  obtain ⟨seg, hseg, -, heq⟩ := fillStep_spec h
  exact ⟨seg, hseg, heq⟩

/-! ## The recursion of `fill_window` -/

@[simp] theorem emit_isn (s : TCPSender) (seg : TCPSegment) : (s.emit seg).isn = s.isn := rfl

@[simp] theorem emit_byteSent (s : TCPSender) (seg : TCPSegment) :
    (s.emit seg).byteSent = s.byteSent + seg.lengthInSequenceSpace := rfl

@[simp] theorem emit_byteReceived (s : TCPSender) (seg : TCPSegment) :
    (s.emit seg).byteReceived = s.byteReceived := rfl

@[simp] theorem emit_unacked (s : TCPSender) (seg : TCPSegment) :
    (s.emit seg).unacked = s.unacked ++ [seg] := rfl

@[simp] theorem emit_segmentsOut (s : TCPSender) (seg : TCPSegment) :
    (s.emit seg).segmentsOut = s.segmentsOut ++ [seg] := rfl

@[simp] theorem emit_eof (s : TCPSender) (seg : TCPSegment) : (s.emit seg).eof = seg.header.fin := rfl

theorem Emits.fillBound_lt (h : Emits s seg) : (s.emit seg).fillBound < s.fillBound := by
  have hle := h.payload_le
  have hpos := h.nonempty
  have hsent : (s.emit seg).byteSent ≠ 0 := by
    rw [emit_byteSent]
    omega
  have hsize : (s.emit seg).stream.bufferSize = s.stream.bufferSize - seg.payload.length := by
    rw [h.stream_eq]
    simp [ByteStream.bufferSize]
  have hbuf : s.stream.bufferSize = s.stream.content.length := rfl
  rw [TCPSegment.lengthInSequenceSpace, h.syn] at hpos
  rw [fillBound, fillBound, hsize, if_neg hsent, emit_eof, h.unended]
  by_cases h0 : s.byteSent = 0
  all_goals cases hf : seg.header.fin
  all_goals
    simp only [h0, hf, beq_self_eq_true, beq_iff_eq, Bool.false_eq_true, if_true, if_false] at hpos ⊢
    omega

theorem fillStep_of_fillBound (h : s.fillBound = 0) : s.fillStep = none := by
  have heof : s.eof = true := by
    by_contra hne
    simp [fillBound, hne] at h
  simp [fillStep, heof]

/-- The bound is enough: more of it changes nothing. -/
theorem fillLoop_congr {m n : Nat} (hm : s.fillBound ≤ m) (hn : s.fillBound ≤ n) :
    fillLoop m s = fillLoop n s := by
  induction m generalizing s n with
  | zero =>
    have hnone := fillStep_of_fillBound (Nat.le_zero.mp hm)
    cases n with
    | zero => rfl
    | succ n => simp [fillLoop, hnone]
  | succ m ih =>
    cases n with
    | zero =>
      have hnone := fillStep_of_fillBound (Nat.le_zero.mp hn)
      simp [fillLoop, hnone]
    | succ n =>
      simp only [fillLoop]
      cases hstep : s.fillStep with
      | none => rfl
      | some s' =>
        obtain ⟨seg, hseg, rfl⟩ := fillStep_cases hstep
        have := hseg.fillBound_lt
        exact ih (by omega) (by omega)

theorem fillWindow_eq (s : TCPSender) :
    s.fillWindow = match s.fillStep with
      | none => s
      | some s' => s'.fillWindow := by
  unfold fillWindow
  cases hstep : s.fillStep with
  | none => cases s.fillBound <;> simp [fillLoop, hstep]
  | some s' =>
    obtain ⟨seg, hseg, rfl⟩ := fillStep_cases hstep
    have hlt := hseg.fillBound_lt
    obtain ⟨n, hn⟩ : ∃ n, s.fillBound = n + 1 := ⟨s.fillBound - 1, by omega⟩
    rw [hn, fillLoop, hstep]
    exact fillLoop_congr (by omega) (Nat.le_refl _)

theorem segmentsOut_fillLoop (n : Nat) (s : TCPSender) : s.segmentsOut <+: (fillLoop n s).segmentsOut := by
  induction n generalizing s with
  | zero => exact List.prefix_rfl
  | succ n ih =>
    simp only [fillLoop]
    cases hstep : s.fillStep with
    | none => exact List.prefix_rfl
    | some s' =>
      obtain ⟨seg, -, rfl⟩ := fillStep_cases hstep
      exact (List.prefix_append _ [seg]).trans (ih (s.emit seg))

/-! ## The other calls -/

theorem acknowledge_eq (s : TCPSender) (absAckNo : Nat) :
    ∃ timer, s.acknowledge absAckNo = { s with
      byteReceived := absAckNo
      unacked := popAcked s.isn absAckNo absAckNo s.unacked
      consecutiveRetrans := 0
      sendtimer := timer } := by
  unfold acknowledge
  simp only
  split_ifs
  · exact ⟨_, rfl⟩
  · exact ⟨_, rfl⟩

theorem ackReceived_cases (s : TCPSender) (ackno : WrappingInt32) (w : UInt16) :
    let absAckNo := unwrap ackno s.isn s.byteReceived
    ((s.byteSent < absAckNo ∨ absAckNo < s.byteReceived) ∧
      (s.ackReceived ackno w).1 = { s with windowSize := w }) ∨
    (absAckNo = s.byteReceived ∧ absAckNo ≤ s.byteSent ∧
      (s.ackReceived ackno w).1 = { s with windowSize := w }.fillWindow) ∨
    (s.byteReceived < absAckNo ∧ absAckNo ≤ s.byteSent ∧
      (s.ackReceived ackno w).1 = ({ s with windowSize := w }.acknowledge absAckNo).fillWindow) := by
  intro absAckNo
  unfold ackReceived
  simp only
  split_ifs with h1 h2 h3
  · exact Or.inl ⟨Or.inl h1, rfl⟩
  · exact Or.inl ⟨Or.inr h2, rfl⟩
  · exact Or.inr (Or.inl ⟨h3, by omega, rfl⟩)
  · exact Or.inr (Or.inr ⟨by omega, by omega, rfl⟩)

theorem ackReceived_inv {P : TCPSender → Prop} {ackno : WrappingInt32} {w : UInt16}
    (hwin : P { s with windowSize := w }) (hack : ∀ absAckNo, P ({ s with windowSize := w }.acknowledge absAckNo))
    (hfill : ∀ s', P s' → P s'.fillWindow) : P (s.ackReceived ackno w).1 := by
  rcases ackReceived_cases s ackno w with ⟨-, heq⟩ | ⟨-, -, heq⟩ | ⟨-, -, heq⟩
  · rw [heq]
    exact hwin
  · rw [heq]
    exact hfill _ hwin
  · rw [heq]
    exact hfill _ (hack _)

theorem tick_cases {ms : Nat} (h : s.tick ms = some s') :
    (∃ time timer, s' = { s with time := time, sendtimer := timer }) ∨
    (∃ front rest time timer retrans, s.unacked = front :: rest ∧ s' = { s with
      time := time
      sendtimer := timer
      consecutiveRetrans := retrans
      segmentsOut := s.segmentsOut ++ [front] }) := by
  unfold tick at h
  simp only at h
  split_ifs at h
  · cases hq : s.unacked with
    | nil => simp [hq] at h
    | cons front rest =>
      simp only [hq, Option.some.injEq] at h
      exact Or.inr ⟨front, rest, _, _, _, rfl, h.symm⟩
  · exact Or.inl ⟨_, _, (Option.some.inj h).symm⟩
  · exact Or.inl ⟨_, _, (Option.some.inj h).symm⟩

end TCPSender

/-! ## Runs -/

/-- A sender with its history: the bytes its stream took, the new segments in order, the
segments that were sent again with the number of their first byte, and the right edge of the
windows that were advertised with numbers up to `byte_sent`. -/
structure SenderTrace where
  s : TCPSender
  input : List UInt8 := []
  firsts : List TCPSegment := []
  resent : List (Nat × TCPSegment) := []
  edge : Nat := 1
  deriving Repr, DecidableEq

inductive SenderOp where
  | write (data : List UInt8)
  | endInput
  | fillWindow
  | ackReceived (ackno : WrappingInt32) (windowSize : UInt16)
  | tick (msSinceLastTick : Nat)
  | sendEmptySegment
  deriving Repr, DecidableEq

namespace SenderTrace

open TCPSender

def emitted (t : SenderTrace) : List (Nat × TCPSegment) :=
  numbered 0 t.firsts ++ t.resent

def sent (t : SenderTrace) (s' : TCPSender) : SenderTrace :=
  { t with s := s', firsts := t.firsts ++ s'.segmentsOut.drop t.s.segmentsOut.length }

def windowed (t : SenderTrace) (ackno : WrappingInt32) (w : UInt16) : SenderTrace :=
  let absAckNo := unwrap ackno t.s.isn t.s.byteReceived
  { t with
    s := { t.s with windowSize := w }
    edge := if absAckNo ≤ t.s.byteSent then max t.edge (absAckNo + max w.toNat 1) else t.edge }

def step (t : SenderTrace) : SenderOp → Option SenderTrace
  | .write data =>
    let (stream, n) := t.s.stream.write data
    some { t with s := { t.s with stream := stream }, input := t.input ++ data.take n }
  | .endInput => some { t with s := { t.s with stream := t.s.stream.endInput } }
  | .fillWindow => some (t.sent t.s.fillWindow)
  | .ackReceived ackno w => some ((t.windowed ackno w).sent (t.s.ackReceived ackno w).1)
  | .tick ms =>
    match t.s.tick ms with
    | none => none
    | some s' =>
      let front := t.s.byteSent - seqLength t.s.unacked
      let segs := s'.segmentsOut.drop t.s.segmentsOut.length
      some { t with s := s', resent := t.resent ++ segs.map fun seg => (front, seg) }
  | .sendEmptySegment => some { t with s := t.s.sendEmptySegment }

/-- The change that a call makes before it sends new segments. -/
inductive Prep (t : SenderTrace) : SenderOp → SenderTrace → Prop where
  | write (data : List UInt8) (n : Nat) (hn : n ≤ data.length) : Prep t (.write data)
      { t with
        s := { t.s with stream := { t.s.stream with
          content := t.s.stream.content ++ data.take n, alwritten := t.s.stream.alwritten + n } }
        input := t.input ++ data.take n }
  | endInput : Prep t .endInput { t with s := { t.s with stream := t.s.stream.endInput } }
  | fillWindow : Prep t .fillWindow t
  | window (ackno : WrappingInt32) (w : UInt16) : Prep t (.ackReceived ackno w) (t.windowed ackno w)
  | acknowledge (ackno : WrappingInt32) (w : UInt16) (absAckNo : Nat) (hlo : t.s.byteReceived < absAckNo)
      (hhi : absAckNo ≤ t.s.byteSent) (habs : absAckNo = unwrap ackno t.s.isn t.s.byteReceived) :
      Prep t (.ackReceived ackno w)
        { t.windowed ackno w with s := (t.windowed ackno w).s.acknowledge absAckNo }
  | clock (ms time : Nat) (timer : Timer) : Prep t (.tick ms)
      { t with s := { t.s with time := time, sendtimer := timer } }
  | resend (ms time retrans : Nat) (timer : Timer) (front : TCPSegment) (rest : List TCPSegment)
      (hfront : t.s.unacked = front :: rest) : Prep t (.tick ms)
      { t with
        s := { t.s with
          time := time, sendtimer := timer, consecutiveRetrans := retrans
          segmentsOut := t.s.segmentsOut ++ [front] }
        resent := t.resent ++ [(t.s.byteSent - seqLength t.s.unacked, front)] }
  | sendEmptySegment : Prep t .sendEmptySegment { t with s := t.s.sendEmptySegment }

def emit (t : SenderTrace) (seg : TCPSegment) : SenderTrace :=
  { t with s := t.s.emit seg, firsts := t.firsts ++ [seg] }

variable {t t' : SenderTrace} {op : SenderOp}

theorem sent_self (t : SenderTrace) (s' : TCPSender) (h : s'.segmentsOut = t.s.segmentsOut) :
    t.sent s' = { t with s := s' } := by
  simp [sent, h]

theorem sent_emit (t : SenderTrace) (seg : TCPSegment) (s' : TCPSender)
    (h : (t.s.emit seg).segmentsOut <+: s'.segmentsOut) : (t.emit seg).sent s' = t.sent s' := by
  obtain ⟨segs, hsegs⟩ := h
  simp only [sent, emit, ← hsegs, emit_segmentsOut, List.append_assoc, List.drop_left]
  congr 2
  rw [← List.append_assoc, List.drop_left]

theorem sent_fillWindow {P : SenderTrace → Prop} (hemit : ∀ t seg, P t → Emits t.s seg → P (t.emit seg))
    (ht : P t) : P (t.sent t.s.fillWindow) := by
  unfold TCPSender.fillWindow
  generalize t.s.fillBound = n
  induction n generalizing t with
  | zero =>
    rw [fillLoop, sent_self t t.s rfl]
    exact ht
  | succ n ih =>
    rw [fillLoop]
    cases hstep : t.s.fillStep with
    | none =>
      simp only
      rw [sent_self t t.s rfl]
      exact ht
    | some s' =>
      obtain ⟨seg, hseg, rfl⟩ := fillStep_cases hstep
      simp only
      rw [← sent_emit t seg _ (segmentsOut_fillLoop n _)]
      exact ih (hemit t seg ht hseg)

theorem fillWindow_inv {P : TCPSender → Prop} (hemit : ∀ s seg, P s → Emits s seg → P (s.emit seg))
    {s : TCPSender} (hs : P s) : P s.fillWindow :=
  sent_fillWindow (t := { s := s }) (fun t seg ht he => hemit t.s seg ht he) hs

/-- What the first change and every new segment keep, the call keeps. -/
theorem step_inv {P : SenderTrace → Prop} (hprep : ∀ t₁, Prep t op t₁ → P t₁)
    (hemit : ∀ t seg, P t → Emits t.s seg → P (t.emit seg)) (h : step t op = some t') : P t' := by
  cases op with
  | write data =>
    obtain ⟨n, hn, hwrite⟩ := ByteStream.write_spec t.s.stream data
    simp only [step, hwrite, Option.some.injEq] at h
    rw [← h]
    exact hprep _ (.write data n hn)
  | endInput =>
    cases h
    exact hprep _ .endInput
  | fillWindow =>
    cases h
    exact sent_fillWindow hemit (hprep _ .fillWindow)
  | ackReceived ackno w =>
    have hwin := hprep _ (.window ackno w)
    cases h
    -- The ackno lies outside what is in flight, repeats the last one, or acknowledges something new.
    rcases ackReceived_cases t.s ackno w with ⟨-, heq⟩ | ⟨-, -, heq⟩ | ⟨hlo, hhi, heq⟩
    · rw [heq, sent_self (t.windowed ackno w) { t.s with windowSize := w } rfl]
      exact hwin
    · rw [heq]
      exact sent_fillWindow hemit hwin
    · rw [heq]
      have hack := sent_fillWindow hemit (hprep _ (.acknowledge ackno w _ hlo hhi rfl))
      obtain ⟨timer, hfields⟩ := acknowledge_eq { t.s with windowSize := w } (unwrap ackno t.s.isn t.s.byteReceived)
      simp only [sent, windowed, hfields] at hack ⊢
      exact hack
  | tick ms =>
    simp only [step] at h
    cases htick : t.s.tick ms with
    | none => simp [htick] at h
    | some s' =>
      simp only [htick, Option.some.injEq] at h
      rw [← h]
      rcases tick_cases htick with ⟨time, timer, rfl⟩ | ⟨front, rest, time, timer, retrans, hq, rfl⟩
      · simp only [List.drop_length, List.map_nil, List.append_nil]
        exact hprep _ (.clock ms time timer)
      · simp only [List.drop_left, List.map_cons, List.map_nil]
        exact hprep _ (.resend ms time retrans timer front rest hq)
  | sendEmptySegment =>
    cases h
    exact hprep _ .sendEmptySegment

end SenderTrace

end Sponge
