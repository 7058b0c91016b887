import Sponge.Receiver.Ackno
import Sponge.Sender.Emitted

/-!
# A sender, a receiver and a network between them

The network holds every segment that the sender ever sent and every answer that
the receiver ever gave. It may deliver any of them at any time, again or never, so
loss, delay, duplication and reordering are all orders of the same actions.
-/

namespace Sponge

structure System where
  a : SenderTrace
  b : TCPReceiver
  /-- Every byte that `b` ever wrote to its stream. -/
  output : List UInt8 := []
  answers : List (WrappingInt32 × UInt16) := []
  deriving Repr, DecidableEq

namespace System

inductive Action where
  | write (data : List UInt8)
  | endInput
  | fillWindow
  | tick (msSinceLastTick : Nat)
  | deliver (i : Nat)
  | answer
  | acknowledge (i : Nat)
  | read (len : Nat)
  deriving Repr, DecidableEq

def start (sendCapacity : Nat) (retxTimeout : UInt16) (isn : WrappingInt32) (recvCapacity : Nat) : System :=
  { a := SenderTrace.start sendCapacity retxTimeout isn, b := TCPReceiver.new recvCapacity }

def stepA (s : System) (op : SenderOp) : Option System :=
  match s.a.step op with
  | none => none
  | some a => some { s with a := a }

/-- `none` is a call that throws, or a delivery of something that was never sent. -/
def step (s : System) : Action → Option System
  | .write data => s.stepA (.write data)
  | .endInput => s.stepA .endInput
  | .fillWindow => s.stepA .fillWindow
  | .tick ms => s.stepA (.tick ms)
  | .deliver i =>
    match s.a.emitted[i]? with
    | none => none
    | some (_, seg) =>
      match s.b.segmentReceived seg with
      | none => none
      | some (b, _) =>
        some { s with b := b, output := s.output ++ b.streamOut.content.drop s.b.streamOut.content.length }
  | .answer =>
    -- The window is cut down to the 16 bits of the header field.
    match s.b.ackno with
    | none => some s
    | some ackno => some { s with answers := s.answers ++ [(ackno, UInt16.ofNat s.b.windowSize)] }
  | .acknowledge i =>
    match s.answers[i]? with
    | none => none
    | some (ackno, w) => s.stepA (.ackReceived ackno w)
  | .read len => some { s with b := s.b.readOut len }

/-- A condition on what the network delivers: the state, and the segment with its absolute
sequence number. -/
def AtDelivery (P : System → Nat → TCPSegment → Prop) (s : System) : Action → Prop
  | .deliver i => ∀ p ∈ s.a.emitted[i]?, P s p.1 p.2
  | _ => True

instance (P : System → Nat → TCPSegment → Prop) [∀ s n seg, Decidable (P s n seg)] (s : System) :
    ∀ action, Decidable (AtDelivery P s action)
  | .deliver i => inferInstanceAs (Decidable (∀ p ∈ s.a.emitted[i]?, P s p.1 p.2))
  | .write _ | .endInput | .fillWindow | .tick _ | .answer | .acknowledge _ | .read _ => .isTrue trivial

variable {s s' : System} {action : Action}

theorem stepA_cases {op : SenderOp} (h : s.stepA op = some s') :
    ∃ a, s.a.step op = some a ∧ s' = { s with a := a } := by
  unfold stepA at h
  cases ha : s.a.step op with
  | none => simp [ha] at h
  | some a =>
    simp only [ha, Option.some.injEq] at h
    exact ⟨a, rfl, h.symm⟩

theorem step_deliver {i : Nat} (h : step s (.deliver i) = some s') :
    ∃ n seg b inside, s.a.emitted[i]? = some (n, seg) ∧ s.b.segmentReceived seg = some (b, inside) ∧
      s' = { s with b := b, output := s.output ++ b.streamOut.content.drop s.b.streamOut.content.length } := by
  simp only [step] at h
  cases hi : s.a.emitted[i]? with
  | none => simp [hi] at h
  | some p =>
    simp only [hi] at h
    cases hb : s.b.segmentReceived p.2 with
    | none => simp [hb] at h
    | some q =>
      simp only [hb, Option.some.injEq] at h
      exact ⟨p.1, p.2, q.1, q.2, rfl, hb, h.symm⟩

theorem step_cases (h : step s action = some s') :
    (∃ op a, s.a.step op = some a ∧ s' = { s with a := a } ∧
      ∀ ackno w, op = .ackReceived ackno w → (ackno, w) ∈ s.answers) ∨
    (∃ i n seg b inside, action = .deliver i ∧ s.a.emitted[i]? = some (n, seg) ∧
      s.b.segmentReceived seg = some (b, inside) ∧
      s' = { s with b := b, output := s.output ++ b.streamOut.content.drop s.b.streamOut.content.length }) ∨
    (s' = s ∨ ∃ ackno, s.b.ackno = some ackno ∧
      s' = { s with answers := s.answers ++ [(ackno, UInt16.ofNat s.b.windowSize)] }) ∨
    (∃ len, s' = { s with b := s.b.readOut len }) := by
  have hcall : ∀ op, s.stepA op = some s' → (∀ ackno w, op = .ackReceived ackno w → (ackno, w) ∈ s.answers) →
      ∃ op a, s.a.step op = some a ∧ s' = { s with a := a } ∧
        ∀ ackno w, op = .ackReceived ackno w → (ackno, w) ∈ s.answers := by
    intro op hop hack
    obtain ⟨a, ha, heq⟩ := stepA_cases hop
    exact ⟨op, a, ha, heq, hack⟩
  cases action with
  | write data => exact Or.inl (hcall (.write data) h (by simp))
  | endInput => exact Or.inl (hcall .endInput h (by simp))
  | fillWindow => exact Or.inl (hcall .fillWindow h (by simp))
  | tick ms => exact Or.inl (hcall (.tick ms) h (by simp))
  | deliver i =>
    obtain ⟨n, seg, b, inside, hi, hb, heq⟩ := step_deliver h
    exact Or.inr (Or.inl ⟨i, n, seg, b, inside, rfl, hi, hb, heq⟩)
  | answer =>
    right; right; left
    simp only [step] at h
    cases hack : s.b.ackno with
    | none =>
      simp only [hack, Option.some.injEq] at h
      exact Or.inl h.symm
    | some ackno =>
      simp only [hack, Option.some.injEq] at h
      exact Or.inr ⟨ackno, rfl, h.symm⟩
  | acknowledge i =>
    simp only [step] at h
    cases hi : s.answers[i]? with
    | none => simp [hi] at h
    | some p =>
      simp only [hi] at h
      refine Or.inl (hcall _ h ?_)
      intro ackno w hop
      cases hop
      exact List.mem_of_getElem? hi
  | read len =>
    cases h
    exact Or.inr (Or.inr (Or.inr ⟨len, rfl⟩))

end System

end Sponge
