import Mathlib.Logic.Relation
import Sponge.Connection.Steps

/-!
# A call as a row of moves

A call of the connection is made of calls on its sender, a segment for its
receiver, and segments that go from the sender's queue to the outgoing ones. What
every such move keeps, every call keeps; the moves come with the history of the
sender.
-/

namespace Sponge

open Word64 Relation

namespace SenderTrace

/-- Segments were taken off the sender's queue. -/
def requeued (t : SenderTrace) (segs : List TCPSegment) : SenderTrace :=
  { t with s := { t.s with segmentsOut := segs } }

/-- The outbound stream was marked as failed. -/
def failed (t : SenderTrace) : SenderTrace := { t with s := { t.s with stream := t.s.stream.setError } }

end SenderTrace

namespace TCPConnection

/-- A connection with the history of its sender. -/
structure Recorded where
  c : TCPConnection
  t : SenderTrace

/-- The calls that an operation of the connection `c₀` can make on its sender, when that is `s`. -/
inductive Calls (c₀ : TCPConnection) (s : TCPSender) : Op → SenderOp → Prop where
  | fillWindow (op : Op) : Calls c₀ s op .fillWindow
  | write (data : List UInt8) (hfirst : s = c₀.sender) : Calls c₀ s (.write data) (.write data)
  | endInput : Calls c₀ s .endInputStream .endInput
  | ackReceived (seg : TCPSegment) (hrst : seg.header.rst = false) (hack : seg.header.ack = true) :
      Calls c₀ s (.segmentReceived seg) (.ackReceived seg.header.ackno seg.header.win)
  | tick (ms : Nat) : Calls c₀ s (.tick ms) (.tick ms)
  | sendEmptySegment (op : Op) : Calls c₀ s op .sendEmptySegment

/-- The RST that is made of the first segment in the queue. -/
def rstOf (c : TCPConnection) (front : TCPSegment) : TCPSegment :=
  { c.receiverInfo front with header := { (c.receiverInfo front).header with rst := true } }

/-- One move of the operation `op` on `c₀`. -/
inductive Move (op : Op) (c₀ : TCPConnection) : Recorded → Recorded → Prop where
  | call (c : TCPConnection) (t t' : SenderTrace) (call : SenderOp) (hcall : Calls c₀ t.s op call)
      (hstep : t.step call = some t') : Move op c₀ ⟨c, t⟩ ⟨{ c with sender := t'.s }, t'⟩
  | out (c : TCPConnection) (t : SenderTrace) : Move op c₀ ⟨c, t⟩ ⟨c.segmentOut, t.requeued []⟩
  | rst (c : TCPConnection) (t : SenderTrace) (front : TCPSegment) (rest : List TCPSegment)
      (hq : c.sender.segmentsOut = front :: rest) : Move op c₀ ⟨c, t⟩
      ⟨{ c with segmentsOut := c.segmentsOut ++ [c.rstOf front], sender := { c.sender with segmentsOut := rest } },
        t.requeued rest⟩
  | abort (c : TCPConnection) (t : SenderTrace) : Move op c₀ ⟨c, t⟩ ⟨c.abort, t.failed⟩
  | receive (c : TCPConnection) (t : SenderTrace) (seg : TCPSegment) (receiver : TCPReceiver) (inside : Bool)
      (hop : op = .segmentReceived seg) (hrst : seg.header.rst = false) (hfirst : c.receiver = c₀.receiver)
      (hrec : c.receiver.segmentReceived seg = some (receiver, inside)) :
      Move op c₀ ⟨c, t⟩ ⟨{ c with receiver := receiver }, t⟩
  | read (c : TCPConnection) (t : SenderTrace) (len : Nat) (hop : op = .read len) :
      Move op c₀ ⟨c, t⟩ ⟨{ c with receiver := c.receiver.readOut len }, t⟩
  | note (c : TCPConnection) (t : SenderTrace) (time lastSegmentTime : Nat) (linger : Bool) :
      Move op c₀ ⟨c, t⟩ ⟨{ c with
        time := time, lastSegmentTime := lastSegmentTime, lingerAfterStreamsFinish := linger }, t⟩

/-- The bytes that the outbound stream takes in a call. -/
def accepted (c : TCPConnection) : Op → List UInt8
  | .write data => data.take (c.write data).2
  | _ => []

variable {c c' c₀ : TCPConnection} {t : SenderTrace} {op : Op} {seg : TCPSegment} {ms : Nat}

/-- Moves of `op` lead from `c` to `c'`, and the outbound stream takes `bytes`. -/
def Reaches (op : Op) (c₀ c : TCPConnection) (t : SenderTrace) (c' : TCPConnection) (bytes : List UInt8) : Prop :=
  ∃ t', t'.s = c'.sender ∧ t'.input = t.input ++ bytes ∧ ReflTransGen (Move op c₀) ⟨c, t⟩ ⟨c', t'⟩

theorem Move.same {x y : Recorded} (h : Move op c₀ x y) (hx : x.t.s = x.c.sender) : y.t.s = y.c.sender := by
  cases h with
  | call => rfl
  | out c t | rst c t | abort c t =>
    simp only at hx
    simp only [SenderTrace.requeued, SenderTrace.failed, segmentOut, TCPConnection.abort, hx]
  | receive | read | note => exact hx

theorem Reaches.inv {I : Recorded → Prop} {bytes : List UInt8} (h : Reaches op c₀ c t c' bytes) (hI : I ⟨c, t⟩)
    (hmove : ∀ x y, I x → Move op c₀ x y → I y) :
    ∃ t', t'.s = c'.sender ∧ t'.input = t.input ++ bytes ∧ I ⟨c', t'⟩ := by
  obtain ⟨t', hs, hin, hmoves⟩ := h
  refine ⟨t', hs, hin, ?_⟩
  generalize (⟨c', t'⟩ : Recorded) = y at hmoves ⊢
  induction hmoves with
  | refl => exact hI
  | tail _ hlast ih => exact hmove _ _ ih hlast

/-! ## The parts of a call -/

theorem fillAndSend_moves (ht : t.s = c.sender) : Reaches op c₀ c t c.fillAndSend [] := by
  refine ⟨(t.sent t.s.fillWindow).requeued [], ?_, (List.append_nil _).symm, ?_⟩
  · simp only [SenderTrace.requeued, SenderTrace.sent, ht]
    rfl
  · have hfill : Move op c₀ ⟨c, t⟩ ⟨{ c with sender := (t.sent t.s.fillWindow).s }, t.sent t.s.fillWindow⟩ :=
      .call c t _ .fillWindow (.fillWindow op) rfl
    simp only [SenderTrace.sent, ht] at hfill ⊢
    exact (ReflTransGen.single hfill).tail (.out _ _)

theorem fillAndSend_after {t' : SenderTrace} {call : SenderOp} {bytes : List UInt8} (hcall : Calls c₀ t.s op call)
    (hstep : t.step call = some t') (hinput : t'.input = t.input ++ bytes) :
    Reaches op c₀ c t { c with sender := t'.s }.fillAndSend bytes := by
  have hfirst : Move op c₀ ⟨c, t⟩ ⟨{ c with sender := t'.s }, t'⟩ := .call c t t' call hcall hstep
  have hrest : Reaches op c₀ { c with sender := t'.s } t' ({ c with sender := t'.s } : TCPConnection).fillAndSend [] :=
    fillAndSend_moves rfl
  obtain ⟨t₂, hs, hin, hmoves⟩ := hrest
  refine ⟨t₂, hs, ?_, ReflTransGen.head hfirst hmoves⟩
  rw [hin, hinput, List.append_nil]

theorem senderReceived_step (ht : t.s = c.sender) (hrst : seg.header.rst = false) :
    ∃ t' call, Calls c₀ t.s (.segmentReceived seg) call ∧ t.step call = some t' ∧
      t'.s = (senderReceived c.sender seg.header).1 ∧ t'.input = t.input := by
  unfold senderReceived
  split_ifs with hack
  · refine ⟨_, _, .ackReceived seg hrst hack, rfl, ?_, rfl⟩
    simp only [SenderTrace.sent, ht]
  · refine ⟨_, _, .fillWindow _, rfl, ?_, rfl⟩
    simp only [SenderTrace.sent, ht]

theorem sendEmptySegment_moves (ht : t.s = c.sender) :
    Reaches op c₀ c t { c with sender := c.sender.sendEmptySegment } [] := by
  have hempty : Move op c₀ ⟨c, t⟩ ⟨{ c with sender := t.s.sendEmptySegment }, { t with s := t.s.sendEmptySegment }⟩ :=
    .call c t _ .sendEmptySegment (.sendEmptySegment op) rfl
  rw [ht] at hempty
  exact ⟨{ t with s := c.sender.sendEmptySegment }, rfl, (List.append_nil _).symm, .single hempty⟩

theorem Reaches.refl (ht : t.s = c.sender) : Reaches op c₀ c t c [] := ⟨t, ht, (List.append_nil _).symm, .refl⟩

theorem answered_moves (r : TCPReceiver) (ht : t.s = c.sender) :
    Reaches op c₀ c t { c with sender := answered r c.sender } [] := by
  unfold answered
  split_ifs
  · exact sendEmptySegment_moves ht
  · exact Reaches.refl ht

theorem Reaches.out {bytes : List UInt8} (h : Reaches op c₀ c t c' bytes) : Reaches op c₀ c t c'.segmentOut bytes := by
  obtain ⟨t', hs, hin, hmoves⟩ := h
  refine ⟨t'.requeued [], ?_, hin, hmoves.tail (.out c' t')⟩
  simp only [SenderTrace.requeued, hs]
  rfl

theorem Reaches.of_move {t₁ : SenderTrace} {c₁ : TCPConnection} {bytes : List UInt8} (hmove : Move op c₀ ⟨c, t⟩ ⟨c₁, t₁⟩)
    (hin : t₁.input = t.input) (h : Reaches op c₀ c₁ t₁ c' bytes) : Reaches op c₀ c t c' bytes := by
  obtain ⟨t', hs, hin', hmoves⟩ := h
  exact ⟨t', hs, hin'.trans (by rw [hin]), ReflTransGen.head hmove hmoves⟩

theorem process_moves (ht : t.s = c.sender) (hfirst : c.receiver = c₀.receiver) (hrst : seg.header.rst = false)
    (h : c.process seg = some c') :
    Reaches (.segmentReceived seg) c₀ c t c' [] := by
  obtain ⟨receiver, inside, hrec, hout⟩ := process_cases h
  obtain ⟨t₁, call, hcall, hstep, hs₁, hin₁⟩ := senderReceived_step ht hrst
  -- The flag, the acknowledgment and the payload come first in every case.
  let linger := c.lingerAfterStreamsFinish && !(c.inboundStream.inputEnded && !c.sender.finSent)
  let c₁ : TCPConnection :=
    { c with lingerAfterStreamsFinish := linger, sender := (senderReceived c.sender seg.header).1 }
  have hstart : ∀ d bytes, Reaches (.segmentReceived seg) c₀ { c₁ with receiver := receiver } t₁ d bytes →
      Reaches (.segmentReceived seg) c₀ c t d bytes := by
    intro d bytes hrest
    refine Reaches.of_move (.note c t c.time c.lastSegmentTime linger) rfl ?_
    refine Reaches.of_move (.call _ t t₁ call hcall hstep) hin₁ ?_
    rw [hs₁]
    exact Reaches.of_move (.receive c₁ t₁ seg receiver inside rfl hrst hfirst hrec) rfl hrest
  rcases hout with ⟨-, -, -, rfl⟩ | ⟨-, rfl⟩
  · exact hstart _ _ (Reaches.refl hs₁)
  · exact hstart _ _ (answered_moves receiver hs₁).out

theorem rstSender_moves (ht : t.s = c.sender) : Reaches op c₀ c t { c with sender := rstSender c.sender } [] := by
  unfold rstSender
  split_ifs
  · exact sendEmptySegment_moves ht
  · exact Reaches.refl ht

theorem rstSegment_moves (ht : t.s = c.sender) (h : c.rstSegment = some c') : Reaches op c₀ c t c' [] := by
  obtain ⟨front, rest, hq, rfl⟩ := rstSegment_cases h
  have hsender : Reaches op c₀ c t { c with sender := rstSender c.sender } [] := rstSender_moves ht
  obtain ⟨t', hs, hin, hmoves⟩ := hsender
  refine ⟨t'.requeued rest, ?_, hin, hmoves.tail (.rst _ t' front rest hq)⟩
  simp only [SenderTrace.requeued, hs]

theorem tick_lost {sender : TCPSender} (h : c.sender.tick ms = some sender)
    (hlost : sender.consecutiveRetransmissions > TCPConfig.maxRetxAttempts) :
    c.tick ms = (TCPConnection.abort { c with sender := sender, time := add64 c.time ms }).rstSegment.map
      segmentOut := by
  unfold tick
  rw [h]
  simp only
  rw [if_pos hlost]
  cases (TCPConnection.abort _).rstSegment <;> rfl

theorem tick_kept {sender : TCPSender} (h : c.sender.tick ms = some sender)
    (hkept : ¬ sender.consecutiveRetransmissions > TCPConfig.maxRetxAttempts) :
    c.tick ms = some (TCPConnection.segmentOut { c with sender := sender, time := add64 c.time ms }) := by
  unfold tick
  rw [h]
  simp only
  rw [if_neg hkept]

theorem tick_moves (ht : t.s = c.sender) (h : c.tick ms = some c') : Reaches (.tick ms) c₀ c t c' [] := by
  obtain ⟨sender, htick, hout⟩ := tick_cases h
  obtain ⟨t₁, hstep, hs₁, hin₁⟩ : ∃ t₁, t.step (.tick ms) = some t₁ ∧ t₁.s = sender ∧ t₁.input = t.input := by
    simp only [SenderTrace.step, ht, htick]
    exact ⟨_, rfl, rfl, rfl⟩
  have hfirst : ∀ d bytes, Reaches (.tick ms) c₀ { c with sender := sender, time := add64 c.time ms } t₁ d bytes →
      Reaches (.tick ms) c₀ c t d bytes := by
    intro d bytes hrest
    refine Reaches.of_move (.call c t t₁ (.tick ms) (.tick ms) hstep) hin₁ ?_
    rw [hs₁]
    exact Reaches.of_move (.note _ t₁ (add64 c.time ms) c.lastSegmentTime c.lingerAfterStreamsFinish) rfl hrest
  rcases hout with ⟨-, rfl⟩ | ⟨-, c₁, hrst, rfl⟩
  · exact hfirst _ _ (Reaches.refl hs₁).out
  · refine hfirst _ _ (Reaches.of_move (.abort _ t₁) rfl (rstSegment_moves ?_ hrst).out)
    simp only [SenderTrace.failed, hs₁]
    rfl

/-- Every call is a row of moves. -/
theorem step_moves (ht : t.s = c.sender) (h : c.step op = some c') : Reaches op c c t c' (c.accepted op) := by
  cases op with
  | connect =>
    cases h
    exact fillAndSend_moves ht
  | write data =>
    cases h
    have hstep := fillAndSend_after (c := c) (t := t) (.write data ht) rfl rfl
    simp only [ht] at hstep
    exact hstep
  | endInputStream =>
    cases h
    have hend : Calls c t.s .endInputStream .endInput := .endInput
    have hstep := fillAndSend_after (c := c) (t := t) hend rfl (List.append_nil _).symm
    simp only [ht] at hstep
    exact hstep
  | segmentReceived seg =>
    rcases segmentReceived_cases h with ⟨-, rfl⟩ | ⟨-, -, rfl⟩ | ⟨hrst, -, hproc⟩
    · -- A RST: the clock is set, and both streams get their error mark.
      refine Reaches.of_move (.note c t c.time c.time c.lingerAfterStreamsFinish) rfl ?_
      refine ⟨t.failed, ?_, (List.append_nil _).symm, .single (.abort _ t)⟩
      simp only [SenderTrace.failed, ht]
      rfl
    · exact ⟨t, ht, (List.append_nil _).symm, .single (.note c t c.time c.time c.lingerAfterStreamsFinish)⟩
    · exact Reaches.of_move (.note c t c.time c.time c.lingerAfterStreamsFinish) rfl (process_moves ht rfl hrst hproc)
  | tick ms => exact tick_moves ht h
  | read len =>
    cases h
    exact ⟨t, ht, (List.append_nil _).symm, .single (.read c t len rfl)⟩

theorem receiver_cases (h : c.step op = some c') :
    c'.receiver = c.receiver ∨
    c'.receiver = { c.receiver with reassembler := { c.receiver.reassembler with
      output := c.receiver.reassembler.output.setError } } ∨
    (∃ seg inside, op = .segmentReceived seg ∧ seg.header.rst = false ∧
      c.receiver.segmentReceived seg = some (c'.receiver, inside)) ∨
    ∃ len, op = .read len ∧ c'.receiver = c.receiver.readOut len := by
  cases op with
  | connect | write | endInputStream =>
    cases h
    exact Or.inl rfl
  | segmentReceived seg =>
    rcases segmentReceived_cases h with ⟨-, rfl⟩ | ⟨-, -, rfl⟩ | ⟨hrst, -, hproc⟩
    · exact Or.inr (Or.inl rfl)
    · exact Or.inl rfl
    · obtain ⟨receiver, inside, hrec, ⟨-, -, -, rfl⟩ | ⟨-, rfl⟩⟩ := process_cases hproc
      · exact Or.inr (Or.inr (Or.inl ⟨seg, inside, rfl, hrst, hrec⟩))
      · exact Or.inr (Or.inr (Or.inl ⟨seg, inside, rfl, hrst, hrec⟩))
  | tick ms =>
    obtain ⟨sender, -, ⟨-, rfl⟩ | ⟨-, c₁, hrst, rfl⟩⟩ := tick_cases h
    · exact Or.inl rfl
    · -- A connection that gives up marks its own streams as well.
      obtain ⟨front, rest, -, rfl⟩ := rstSegment_cases hrst
      exact Or.inr (Or.inl rfl)
  | read len =>
    cases h
    exact Or.inr (Or.inr (Or.inr ⟨len, rfl, rfl⟩))

end TCPConnection

end Sponge
