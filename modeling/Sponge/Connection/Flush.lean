import Mathlib.Data.List.Forall2
import Sponge.Connection.Steps
import Sponge.Lib.Run

/-!
# Segments left in the sender's queue

Every call but one ends in `_segment_out`. The exception is an empty segment that
`segment_received` takes in without an answer: what its acknowledgment let the
sender send stays in the sender's queue.
-/

namespace Sponge

open Word64 Run

namespace TCPConnection

/-- `out` is `seg` with the receiver's fields and the RST flag filled in. -/
def Stamped (seg out : TCPSegment) : Prop :=
  out = { seg with header := { seg.header with
    ack := out.header.ack, ackno := out.header.ackno, win := out.header.win, rst := out.header.rst } }

instance (seg out : TCPSegment) : Decidable (Stamped seg out) := inferInstanceAs (Decidable (_ = _))

/-- The sender after the calls that are made on it, with nothing taken off its queue. -/
def senderCalls (c : TCPConnection) : Op → Option TCPSender
  | .connect => some c.sender.fillWindow
  | .write data => some ({ c.sender with stream := (c.sender.stream.write data).1 } : TCPSender).fillWindow
  | .endInputStream => some ({ c.sender with stream := c.sender.stream.endInput } : TCPSender).fillWindow
  | .segmentReceived seg =>
    if seg.header.rst = true ∨ c.Drops seg then some c.sender
    else
      match c.receiver.segmentReceived seg with
      | none => none
      | some (receiver, inside) =>
        let (s, ackNoCheck) := senderReceived c.sender seg.header
        if seg.lengthInSequenceSpace = 0 ∧ inside = true ∧ ackNoCheck = true then some s
        else some (answered receiver s)
  | .tick ms =>
    match c.sender.tick ms with
    | none => none
    | some s => if s.consecutiveRetrans > TCPConfig.maxRetxAttempts then some (rstSender s) else some s
  | .read _ => some c.sender

/-- The queue of the sender is empty, and what it produced was sent in order. -/
structure Moved (c c' : TCPConnection) (s : TCPSender) : Prop where
  empty : c'.sender.segmentsOut = []
  sent : ∃ out, c'.segmentsOut = c.segmentsOut ++ out ∧ List.Forall₂ Stamped s.segmentsOut out

/-- An empty segment that is taken in without an answer lets the sender send nothing. -/
def NothingLeft (c : TCPConnection) : Op → Prop
  | .segmentReceived seg =>
    seg.header.rst = false → seg.lengthInSequenceSpace = 0 → c.receiver.isnset = true →
      c.receiver.inWindow seg = true → AckIdle c.sender seg.header
  | _ => True

instance (c : TCPConnection) : ∀ op, Decidable (NothingLeft c op)
  | .segmentReceived _ => inferInstanceAs (Decidable (_ → _))
  | .connect | .write _ | .endInputStream | .tick _ | .read _ => .isTrue trivial

variable {c c' : TCPConnection} {s : TCPSender} {seg : TCPSegment} {op : Op}

theorem receiverInfo_stamped (c : TCPConnection) (seg : TCPSegment) : Stamped seg (c.receiverInfo seg) := by
  unfold receiverInfo Stamped
  split <;> rfl

theorem forall₂_receiverInfo (c : TCPConnection) (segs : List TCPSegment) :
    List.Forall₂ Stamped segs (segs.map c.receiverInfo) := by
  rw [List.forall₂_map_right_iff]
  exact List.forall₂_same.mpr fun seg _ => receiverInfo_stamped c seg

theorem moved_segmentOut (hout : c'.segmentsOut = c.segmentsOut) : Moved c c'.segmentOut c'.sender := by
  refine ⟨rfl, _, ?_, forall₂_receiverInfo c' _⟩
  rw [← hout]
  rfl

theorem moved_self (h : c.sender.segmentsOut = []) (hs : c'.sender.segmentsOut = c.sender.segmentsOut)
    (hout : c'.segmentsOut = c.segmentsOut) (hcalls : s.segmentsOut = []) : Moved c c' s := by
  refine ⟨hs.trans h, [], by rw [hout, List.append_nil], ?_⟩
  rw [hcalls]
  exact .nil

theorem moved_rst (c : TCPConnection) (h : c.rstSegment = some c') :
    Moved c c'.segmentOut (rstSender c.sender) := by
  obtain ⟨front, rest, hq, rfl⟩ := rstSegment_cases h
  refine ⟨rfl, _, List.append_assoc _ _ _, ?_⟩
  rw [hq]
  -- The RST is the first segment of the queue with a flag, and the rest follows.
  refine List.Forall₂.cons ?_ (forall₂_receiverInfo _ rest)
  have hstamp := receiverInfo_stamped c front
  unfold Stamped at hstamp ⊢
  rw [hstamp]

theorem process_moved (h : c.process seg = some c') (hq : c.sender.segmentsOut = []) (hrst : seg.header.rst = false)
    (hdrop : ¬ c.Drops seg) (hop : NothingLeft c (.segmentReceived seg)) :
    ∃ s, senderCalls c (.segmentReceived seg) = some s ∧ Moved c c' s := by
  obtain ⟨receiver, inside, hrec, hout⟩ := process_cases h
  have hcalls : senderCalls c (.segmentReceived seg) =
      if seg.lengthInSequenceSpace = 0 ∧ inside = true ∧ (senderReceived c.sender seg.header).2 = true then
        some (senderReceived c.sender seg.header).1
      else some (answered receiver (senderReceived c.sender seg.header).1) := by
    unfold senderCalls
    simp only [hrst, hdrop, hrec, Bool.false_eq_true, or_self, if_false]
  rcases hout with ⟨hlen, hin, hack, rfl⟩ | ⟨hacc, rfl⟩
  · have hset : c.receiver.isnset = true := by
      rw [← Bool.not_eq_false]
      exact fun hunset => hdrop ⟨hunset, hlen⟩
    have hwin := TCPReceiver.segmentReceived_verdict hset hrec
    have hidle := senderReceived_of_idle (hop hrst hlen hset (hwin.symm.trans hin))
    rw [hcalls, if_pos ⟨hlen, hin, hack⟩]
    exact ⟨_, rfl, moved_self hq hidle rfl (hidle.trans hq)⟩
  · rw [hcalls, if_neg hacc]
    exact ⟨_, rfl, moved_segmentOut rfl⟩

theorem tick_moved {ms : Nat} (h : c.tick ms = some c') :
    ∃ s, senderCalls c (.tick ms) = some s ∧ Moved c c' s := by
  obtain ⟨sender, htick, ⟨hfew, rfl⟩ | ⟨hmany, c₁, hrst, rfl⟩⟩ := tick_cases h
  · refine ⟨sender, ?_, moved_segmentOut rfl⟩
    simp only [senderCalls, htick]
    rw [if_neg (by omega)]
  · refine ⟨rstSender sender, ?_, ?_⟩
    · simp only [senderCalls, htick]
      rw [if_pos hmany]
    · obtain ⟨hempty, out, hout, hall⟩ := moved_rst _ hrst
      refine ⟨hempty, out, hout, ?_⟩
      rw [show (rstSender sender).segmentsOut = (rstSender { sender with stream := sender.stream.setError }).segmentsOut
        by unfold rstSender; split_ifs <;> rfl]
      exact hall

theorem step_moved (hq : c.sender.segmentsOut = []) (hop : NothingLeft c op) (h : c.step op = some c') :
    ∃ s, senderCalls c op = some s ∧ Moved c c' s := by
  cases op with
  | connect | write | endInputStream =>
    cases h
    exact ⟨_, rfl, moved_segmentOut rfl⟩
  | segmentReceived seg =>
    rcases segmentReceived_cases h with ⟨hrst, rfl⟩ | ⟨hrst, hdrop, rfl⟩ | ⟨hrst, hdrop, hproc⟩
    · exact ⟨c.sender, by simp [senderCalls, hrst], moved_self hq rfl rfl hq⟩
    · exact ⟨c.sender, by simp [senderCalls, hdrop], moved_self hq rfl rfl hq⟩
    · obtain ⟨s, hs, hm⟩ := process_moved (c := { c with lastSegmentTime := c.time }) hproc hq hrst hdrop hop
      exact ⟨s, hs, hm.empty, hm.sent⟩
  | tick ms => exact tick_moved h
  | read len =>
    cases h
    exact ⟨c.sender, rfl, moved_self hq rfl rfl hq⟩

/-! ## Whole runs -/

/-- The acknowledgment opens the window for two bytes more. -/
def openingOps : List Op := [.connect, synAck 1, .write [97, 98, 99], ackSegment 1 2 5 false]

theorem opened_window_leaves_segment :
    ∃ c, run step (new smallConfig ⟨0⟩) openingOps = some c ∧
      c.sender.segmentsOut.map TCPSegment.payload = [[98, 99]] := by
  decide +kernel

/-- In every run in which no such segment lets the sender send, each call moves what the sender
produced, in order, and leaves its queue empty. -/
theorem calls_move_all (cfg : TCPConfig) (random : WrappingInt32) (ops : List Op) (op : Op) (c c' : TCPConnection)
    (hok : AllSteps step NothingLeft (new cfg random) ops) (h : run step (new cfg random) ops = some c)
    (hop : NothingLeft c op) (hstep : c.step op = some c') :
    c'.sender.segmentsOut = [] ∧
      ∃ s out, senderCalls c op = some s ∧ c'.segmentsOut = c.segmentsOut ++ out ∧
        List.Forall₂ Stamped s.segmentsOut out := by
  have hq : c.sender.segmentsOut = [] := by
    refine run_inv_of_allSteps (I := fun c => c.sender.segmentsOut = []) ?_ rfl hok h
    intro c op c' hq hop hstep
    obtain ⟨s, -, hm⟩ := step_moved hq hop hstep
    exact hm.empty
  obtain ⟨s, hs, hm⟩ := step_moved hq hop hstep
  obtain ⟨out, hout, hall⟩ := hm.sent
  exact ⟨hm.empty, s, out, hs, hout, hall⟩

/-- The window is open all the time, and the FIN is answered. -/
def openOps : List Op := [.connect, synAck 8, .write [97, 98, 99], ackSegment 1 4 8 false, .endInputStream]

theorem calls_move_all_fin :
    ∃ c c' s out, run step (new smallConfig ⟨0⟩) openOps = some c ∧
      c.step (ackSegment 1 4 8 true) = some c' ∧ c'.sender.segmentsOut = [] ∧
      senderCalls c (ackSegment 1 4 8 true) = some s ∧ c'.segmentsOut = c.segmentsOut ++ out ∧
      List.Forall₂ Stamped s.segmentsOut out := by
  have hrun : ∃ c, run step (new smallConfig ⟨0⟩) openOps = some c ∧ NothingLeft c (ackSegment 1 4 8 true) ∧
      (c.step (ackSegment 1 4 8 true)).isSome = true := by
    decide +kernel
  obtain ⟨c, hc, hop, hsome⟩ := hrun
  obtain ⟨c', hc'⟩ := Option.isSome_iff_exists.mp hsome
  obtain ⟨hq, s, out, hs, hout, hall⟩ :=
    calls_move_all smallConfig ⟨0⟩ openOps _ c c' (by decide +kernel) hc hop hc'
  exact ⟨c, c', s, out, hc, hc', hq, hs, hout, hall⟩

end TCPConnection

end Sponge
