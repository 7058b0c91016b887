import Sponge.Connection.Moves
import Sponge.Sender.Emitted

/-!
# The headers of what is sent

The sender sets the number, the SYN and the FIN of a segment and nothing else, and
the connection adds the acknowledgment, the window and the RST. So every segment has a
header without options and a payload that fits a datagram.
-/

namespace Sponge

/-- A segment as the sender makes it. -/
structure TCPSegment.Plain (seg : TCPSegment) : Prop where
  header : seg.header = { seqno := seg.header.seqno, syn := seg.header.syn, fin := seg.header.fin }
  short : seg.payload.length ≤ TCPConfig.maxPayloadSize

theorem TCPSegment.Plain.ack {seg : TCPSegment} (h : seg.Plain) : seg.header.ack = false := by
  rw [h.header]

namespace TCPSender

variable {s s' : TCPSender} {seg : TCPSegment}

def AllPlain (s : TCPSender) : Prop := ∀ seg, seg ∈ s.segmentsOut ∨ seg ∈ s.unacked → seg.Plain

theorem AllPlain.send (h : AllPlain s) (hseg : seg.Plain) : AllPlain (s.send seg) := by
  intro x hx
  unfold TCPSender.send at hx
  simp only [List.mem_append, List.mem_singleton] at hx
  rcases hx with (hx | rfl) | hx | rfl
  · exact h x (Or.inl hx)
  · exact hseg
  · exact h x (Or.inr hx)
  · exact hseg

theorem payloadSize_le (s : TCPSender) (n : Nat) : s.payloadSize n ≤ TCPConfig.maxPayloadSize := by
  unfold payloadSize
  simp only
  split_ifs <;> omega

theorem length_read_le (stream : ByteStream) (len : Nat) : (stream.read len).1.length ≤ len := by
  rw [ByteStream.read_eq, List.length_take]
  omega

theorem AllPlain.fillStep (h : AllPlain s) (hstep : s.fillStep = some s') : AllPlain s' := by
  unfold TCPSender.fillStep at hstep
  simp only at hstep
  split_ifs at hstep
  all_goals
    rw [← Option.some.inj hstep]
    apply AllPlain.send
    · intro x hx
      exact h x hx
    · constructor
      · simp only
      · apply Nat.le_trans (length_read_le s.stream _)
        apply payloadSize_le

theorem AllPlain.fillLoop (n : Nat) (h : AllPlain s) : AllPlain (fillLoop n s) := by
  induction n generalizing s with
  | zero => exact h
  | succ n ih =>
    rw [TCPSender.fillLoop]
    split
    · exact h
    · exact ih (h.fillStep ‹_›)

theorem AllPlain.fillWindow (h : AllPlain s) : AllPlain s.fillWindow := h.fillLoop _

theorem AllPlain.acknowledge (h : AllPlain s) (absAckNo : Nat) : AllPlain (s.acknowledge absAckNo) := by
  obtain ⟨timer, heq⟩ := acknowledge_eq s absAckNo
  rw [heq]
  intro x hx
  rcases hx with hx | hx
  · exact h x (Or.inl hx)
  · exact h x (Or.inr ((popAcked_suffix _ _ _ _).subset hx))

theorem AllPlain.tick {ms : Nat} (h : AllPlain s) (htick : s.tick ms = some s') : AllPlain s' := by
  rcases tick_cases htick with ⟨time, timer, rfl⟩ | ⟨front, rest, time, timer, retrans, hq, rfl⟩
  · exact h
  · intro x hx
    simp only [List.mem_append, List.mem_singleton] at hx
    rcases hx with (hx | rfl) | hx
    · exact h x (Or.inl hx)
    · exact h x (Or.inr (by rw [hq]; exact List.mem_cons_self))
    · exact h x (Or.inr hx)

end TCPSender

namespace SenderTrace

open TCPSender

theorem allPlain_step {t t' : SenderTrace} {op : SenderOp} (h : AllPlain t.s) (hstep : step t op = some t') :
    AllPlain t'.s := by
  cases op with
  | write | endInput =>
    cases hstep
    exact h
  | fillWindow =>
    cases hstep
    exact h.fillWindow
  | ackReceived ackno w =>
    cases hstep
    -- The new window, the queue without what was acknowledged, and then `fill_window`.
    have hwin : AllPlain { t.s with windowSize := w } := h
    exact ackReceived_inv hwin hwin.acknowledge fun _ h => h.fillWindow
  | tick ms =>
    simp only [step] at hstep
    cases htick : t.s.tick ms with
    | none => simp [htick] at hstep
    | some s' =>
      simp only [htick, Option.some.injEq] at hstep
      rw [← hstep]
      exact h.tick htick
  | sendEmptySegment =>
    cases hstep
    intro x hx
    simp only [sendEmptySegment, List.mem_append, List.mem_singleton] at hx
    rcases hx with (hx | rfl) | hx
    · exact h x (Or.inl hx)
    · exact ⟨rfl, by simp⟩
    · exact h x (Or.inr hx)

end SenderTrace

/-- A segment that a datagram can carry: no options, and a payload that fits. -/
structure TCPSegment.Sendable (seg : TCPSegment) : Prop where
  doff : seg.header.doff = 5
  short : seg.payload.length ≤ TCPConfig.maxPayloadSize

namespace TCPConnection

open TCPSender

variable {x y : Recorded} {c c' c₀ : TCPConnection} {op : Op} {seg : TCPSegment}

theorem sendable_receiverInfo (c : TCPConnection) (h : seg.Plain) : (c.receiverInfo seg).Sendable := by
  have hdoff : seg.header.doff = 5 := by rw [h.header]
  unfold receiverInfo
  split
  · exact ⟨hdoff, h.short⟩
  · exact ⟨hdoff, h.short⟩

/-- What the sender holds is plain, and what was sent can be carried. -/
structure Sends (x : Recorded) : Prop where
  same : x.t.s = x.c.sender
  plain : AllPlain x.c.sender
  sent : ∀ seg ∈ x.c.segmentsOut, seg.Sendable

theorem sends_new (cfg : TCPConfig) (random : WrappingInt32) : Sends ⟨new cfg random, { s := (new cfg random).sender }⟩ :=
  ⟨rfl, by simp [AllPlain, new, TCPSender.new], by simp [new]⟩

theorem Sends.move (h : Sends x) (hmove : Move op c₀ x y) : Sends y := by
  obtain ⟨hsame, hplain, hsent⟩ := h
  have hsame' := hmove.same hsame
  suffices AllPlain y.c.sender ∧ ∀ seg ∈ y.c.segmentsOut, seg.Sendable from ⟨hsame', this.1, this.2⟩
  cases hmove with
  | call c t t' call hcall hstep =>
    simp only at hsame hplain
    rw [← hsame] at hplain
    exact ⟨SenderTrace.allPlain_step hplain hstep, hsent⟩
  | out c t =>
    refine ⟨fun seg hseg => hplain seg (Or.inr (hseg.resolve_left (by simp [segmentOut]))), ?_⟩
    intro out hout
    rcases List.mem_append.mp hout with hout | hout
    · exact hsent out hout
    · obtain ⟨seg, hseg, rfl⟩ := List.mem_map.mp hout
      exact sendable_receiverInfo c (hplain seg (Or.inl hseg))
  | rst c t front rest hq =>
    have hqueue : ∀ seg ∈ front :: rest, seg.Plain := fun seg hseg => hplain seg (Or.inl (by simpa only [hq] using hseg))
    refine ⟨?_, ?_⟩
    · rintro seg (hseg | hseg)
      · exact hqueue seg (List.mem_cons_of_mem _ hseg)
      · exact hplain seg (Or.inr hseg)
    · intro out hout
      rcases List.mem_append.mp hout with hout | hout
      · exact hsent out hout
      · rw [List.mem_singleton.mp hout]
        -- The flag changes neither the offset nor the payload.
        have hfront := sendable_receiverInfo c (hqueue front List.mem_cons_self)
        exact ⟨hfront.doff, hfront.short⟩
  | _ => exact ⟨hplain, hsent⟩

end TCPConnection

end Sponge
