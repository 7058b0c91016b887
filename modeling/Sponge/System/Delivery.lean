import Sponge.System.Model

/-!
# The receiver writes what the sender's application wrote

Every segment in the network is a piece of the stream at the place that its number
says. The receiver finds the place as long as the number is near the bytes it has
written, and the reassembler then writes the stream in order. It fails to when
`firstindex + _capacity` overflows.
-/

namespace Sponge

open Slice Run StreamReassembler

namespace SenderTrace

theorem input_step {t t' : SenderTrace} {op : SenderOp} (h : step t op = some t') : t.input <+: t'.input := by
  refine step_inv (P := fun t' => t.input <+: t'.input) (fun t₁ hp => ?_) (fun _ _ h _ => h) h
  cases hp with
  | write data n hn => exact List.prefix_append _ _
  | _ => exact List.prefix_rfl

end SenderTrace

namespace System

open SenderTrace TCPReceiver

/-- The absolute sequence number is within `2 ^ 31 - 1` of the bytes written. -/
def Near (s : System) (n : Nat) (_ : TCPSegment) : Prop :=
  s.b.streamOut.bytesWritten ≤ n + (2 ^ 31 - 1) ∧ n ≤ s.b.streamOut.bytesWritten + (2 ^ 31 - 1)

instance (s : System) (n : Nat) (seg : TCPSegment) : Decidable (Near s n seg) :=
  inferInstanceAs (Decidable (_ ∧ _))

/-- The end of the window does not overflow when new bytes arrive. -/
def Fits (s : System) (n : Nat) (seg : TCPSegment) : Prop :=
  NoOverflow s.b.reassembler seg.payload (max n 1 - 1)

instance (s : System) (n : Nat) (seg : TCPSegment) : Decidable (Fits s n seg) :=
  inferInstanceAs (Decidable (NoOverflow ..))

/-- The two parties, between two actions. -/
structure Joined (capacity : Nat) (s : System) : Prop where
  sender : Faithful s.a
  isn : s.b.isnset = true → s.b.isn = s.a.s.isn
  trace : TraceInv s.a.input capacity ⟨s.b.reassembler, s.output⟩

theorem joined_start (sendCapacity : Nat) (retxTimeout : UInt16) (isn : WrappingInt32) (recvCapacity : Nat) :
    Joined recvCapacity (start sendCapacity retxTimeout isn recvCapacity) where
  sender := faithful_start sendCapacity retxTimeout isn
  isn := by simp [start, TCPReceiver.new]
  trace := traceInv_start [] recvCapacity

variable {s s' : System} {action : Action} {capacity n : Nat} {seg : TCPSegment} {b : TCPReceiver} {inside : Bool}

theorem Joined.streamIndex_eq (h : Joined capacity s) (hlen : s.a.input.length + 2 < 2 ^ 64)
    (hseg : (n, seg) ∈ s.a.emitted) (hnear : Near s n seg) (hset : s.b.isnset = true ∨ seg.header.syn = true) :
    s.b.streamIndex seg = max n 1 - 1 := by
  obtain ⟨hat, hsyn, -⟩ := h.sender.segmentAt_of_emitted hseg
  have hshort := hat.short
  have htaken := (List.take_prefix s.a.s.stream.alread s.a.input).length_le
  obtain ⟨hlo, hhi⟩ := hnear
  have hn : n < 2 ^ 64 := by
    simp only [taken] at hshort
    omega
  refine TCPReceiver.streamIndex_eq h.isn (fun _ => ?_) hn hsyn.mp ?_ hset
  · rw [hat.seqno]
    exact unwrap_wrap_of_near n _ _ hn (by omega) (by omega)
  · by_cases h0 : n = 0
    · exact Or.inl (hsyn.mpr h0)
    · exact Or.inr (by omega)

theorem Joined.deliver (h : Joined capacity s) (hlen : s.a.input.length + 2 < 2 ^ 64)
    (hseg : (n, seg) ∈ s.a.emitted) (hnear : Near s n seg)
    (hfits : s.b.isnset = true ∨ seg.header.syn = true → Fits s n seg)
    (hrec : s.b.segmentReceived seg = some (b, inside)) :
    Joined capacity
      { s with b := b, output := s.output ++ b.streamOut.content.drop s.b.streamOut.content.length } := by
  obtain ⟨hat, hsyn, -⟩ := h.sender.segmentAt_of_emitted hseg
  rcases segmentReceived_cases hrec with ⟨-, -, rfl⟩ | ⟨hset, ra, hpush, rfl⟩
  · simp only [List.drop_length, List.append_nil]
    exact h
  have hindex := h.streamIndex_eq hlen hseg hnear hset
  rw [hindex] at hpush
  refine ⟨h.sender, fun _ => ?_, ?_⟩
  · simp only
    cases hr : s.b.isnset with
    | true => exact h.isn hr
    | false =>
      have h0 := hsyn.mp (hset.resolve_left (by simp [hr]))
      simp only [Bool.false_eq_true, if_false]
      rw [hat.seqno, h0, wrap_zero]
  · exact h.trace.push (hat.slice.mono ( List.take_prefix _ _)) (by omega) (hfits hset) hpush

theorem input_mono (hstep : step s action = some s') : s.a.input <+: s'.a.input := by
  rcases step_cases hstep with ⟨op, a, ha, rfl, -⟩ | ⟨i, n, seg, b, inside, -, -, -, rfl⟩ |
    (rfl | ⟨ackno, -, rfl⟩) | ⟨len, rfl⟩
  · exact input_step ha
  all_goals exact List.prefix_rfl

theorem Joined.sender_step {a : SenderTrace} {op : SenderOp} (h : Joined capacity s) (ha : s.a.step op = some a) :
    Joined capacity { s with a := a } where
  sender := Faithful.step s.a op a h.sender ha
  isn := fun hset => (h.isn hset).trans (isn_step s.a op a rfl ha).symm
  trace := h.trace.mono (input_step ha)

theorem Joined.step (s : System) (action : Action) (s' : System)
    (h : s.a.input.length + 2 < 2 ^ 64 → Joined capacity s)
    (hkept : AtDelivery Near s action ∧ AtDelivery Fits s action) (hstep : step s action = some s') :
    s'.a.input.length + 2 < 2 ^ 64 → Joined capacity s' := by
  intro hlen'
  have hlen : s.a.input.length + 2 < 2 ^ 64 := by
    have := (input_mono hstep).length_le
    omega
  specialize h hlen
  rcases step_cases hstep with ⟨op, a, ha, rfl, -⟩ | ⟨i, n, seg, b, inside, rfl, hi, hrec, rfl⟩ |
    (rfl | ⟨ackno, -, rfl⟩) | ⟨len, rfl⟩
  · exact h.sender_step ha
  · exact h.deliver hlen (List.mem_of_getElem? hi) (hkept.1 _ hi) (fun _ => hkept.2 _ hi) hrec
  · exact h
  · exact ⟨h.sender, h.isn, h.trace⟩
  · exact ⟨h.sender, h.isn, h.trace.readOut len⟩

/-- `a` and then `b` are sent and delivered, and then `a` is delivered again. The window of the
receiver ends at `2 ^ 64` when `b` arrives, which is 0 in 64 bits. -/
def repeatedActions : List Action :=
  [.write [97], .fillWindow, .deliver 0, .answer, .acknowledge 0, .write [98], .fillWindow,
    .deliver 1, .deliver 2, .deliver 1]

theorem output_repeats :
    AllSteps step (AtDelivery Near) (start 8 1000 ⟨0⟩ (2 ^ 64 - 1)) repeatedActions ∧
      ∃ s, run step (start 8 1000 ⟨0⟩ (2 ^ 64 - 1)) repeatedActions = some s ∧
        s.a.input = [97, 98] ∧ s.output = [97, 98, 97] ∧ ¬ s.output <+: s.a.input := by
  decide +kernel

/-- What the receiver has ever written is the start of what was ever written to the sender,
whatever the network does. -/
theorem output_in_order (sendCapacity : Nat) (retxTimeout : UInt16) (isn : WrappingInt32) (recvCapacity : Nat)
    (actions : List Action) (s : System)
    (hnear : AllSteps step (AtDelivery Near) (start sendCapacity retxTimeout isn recvCapacity) actions)
    (hfits : AllSteps step (AtDelivery Fits) (start sendCapacity retxTimeout isn recvCapacity) actions)
    (h : run step (start sendCapacity retxTimeout isn recvCapacity) actions = some s)
    (hlen : s.a.input.length + 2 < 2 ^ 64) : s.output <+: s.a.input :=
  (run_inv_of_allSteps Joined.step (fun _ => joined_start sendCapacity retxTimeout isn recvCapacity)
    (hnear.and hfits) h hlen).trace.start

/-- Two segments that arrive in the wrong order and twice, one of them sent again, and the FIN. -/
def reorderedActions : List Action :=
  [.write [97], .fillWindow, .deliver 0, .answer, .acknowledge 0, .write [98], .fillWindow, .endInput,
    .fillWindow, .deliver 2, .tick 1000, .deliver 4, .read 1, .deliver 1, .deliver 3, .answer, .acknowledge 1,
    .acknowledge 0]

theorem output_in_order_reordered :
    ∃ s, run step (start 8 1000 ⟨4294967295⟩ 4) reorderedActions = some s ∧ s.output = [97, 98] ∧
      s.output <+: s.a.input := by
  have hrun : ∃ s, run step (start 8 1000 ⟨4294967295⟩ 4) reorderedActions = some s ∧ s.output = [97, 98] ∧
      s.a.input.length + 2 < 2 ^ 64 := by decide +kernel
  obtain ⟨s, hs, houtput, hshort⟩ := hrun
  exact ⟨s, hs, houtput, output_in_order 8 1000 ⟨4294967295⟩ 4 reorderedActions s (by decide +kernel)
    (by decide +kernel) hs hshort⟩

end System

end Sponge
