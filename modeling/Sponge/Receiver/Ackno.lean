import Sponge.Reassembler.Eof
import Sponge.Receiver.Model

/-!
# The acknowledgment and the stream

`ackno` counts the end of the stream when `_finset` is set and no byte waits in
the reassembler. Both can hold while bytes are missing, so the number can be one
too large. It agrees with the stream when the reassembler keeps the end and when
the end does not come with old bytes alone.
-/

namespace Sponge

open Word64 Slice StreamReassembler Run

namespace TCPReceiver

/-! ## Runs -/

inductive Op where
  | segment (seg : TCPSegment)
  | read (len : Nat)
  deriving Repr, DecidableEq

def step (r : TCPReceiver) : Op → Option TCPReceiver
  | .segment seg =>
    match r.segmentReceived seg with
    | none => none
    | some (r', _) => some r'
  | .read len => some (r.readOut len)

theorem step_segment {r r' : TCPReceiver} {seg : TCPSegment} (h : step r (.segment seg) = some r') :
    ∃ inside, r.segmentReceived seg = some (r', inside) := by
  unfold step at h
  cases hrec : r.segmentReceived seg with
  | none => simp [hrec] at h
  | some p =>
    simp only [hrec, Option.some.injEq] at h
    exact ⟨p.2, by rw [← h]⟩

def Consistent (S : List UInt8) (isn : WrappingInt32) : Op → Prop
  | .segment seg => ∃ a < S.length + 3, SegmentAt S isn seg a
  | .read _ => True

instance (S : List UInt8) (isn : WrappingInt32) : ∀ op, Decidable (Consistent S isn op)
  | .segment seg => inferInstanceAs (Decidable (∃ a < S.length + 3, SegmentAt S isn seg a))
  | .read _ => .isTrue trivial

/-- The end reaches the reassembler inside the window with its last byte known, and with new
bytes unless the stream has ended. -/
structure FinSafe (r : TCPReceiver) (seg : TCPSegment) : Prop where
  eofSafe : EofSafe r.reassembler seg.payload (r.streamIndex seg) seg.header.fin
  fresh : seg.header.fin = true → seg.payload ≠ [] →
    r.streamIndex seg + seg.payload.length ≤ r.reassembler.firstindex → r.streamOut.inputEnded = true

instance (r : TCPReceiver) (seg : TCPSegment) : Decidable (FinSafe r seg) :=
  decidable_of_iff (EofSafe r.reassembler seg.payload (r.streamIndex seg) seg.header.fin ∧
      (seg.header.fin = true → seg.payload ≠ [] →
        r.streamIndex seg + seg.payload.length ≤ r.reassembler.firstindex → r.streamOut.inputEnded = true))
    ⟨fun h => ⟨h.1, h.2⟩, fun h => ⟨h.eofSafe, h.fresh⟩⟩

/-- The condition at one step of a run. Segments before the SYN are not looked at. -/
def FinKept (r : TCPReceiver) : Op → Prop
  | .segment seg => r.isnset = true ∨ seg.header.syn = true → FinSafe r seg
  | .read _ => True

instance (r : TCPReceiver) : ∀ op, Decidable (FinKept r op)
  | .segment _ => inferInstanceAs (Decidable (_ ∨ _ → FinSafe _ _))
  | .read _ => .isTrue trivial

variable {r r' : TCPReceiver} {seg : TCPSegment} {S : List UInt8} {isn : WrappingInt32} {inside : Bool}

/-! ## The invariant -/

/-- What holds between two calls that keep to `FinKept`. -/
structure AcknoInv (S : List UInt8) (isn : WrappingInt32) (r : TCPReceiver) : Prop where
  endInv : EndInv S r.reassembler
  complete : Complete S r.reassembler
  isn : r.isnset = true → r.isn = isn
  fin : r.finset = r.reassembler.checkeof
  fresh : r.isnset = false → r.finset = false

theorem acknoInv_new (S : List UInt8) (isn : WrappingInt32) (capacity : Nat) :
    AcknoInv S isn (new capacity) where
  endInv := endInv_new S capacity
  complete := by simp [Complete, new, StreamReassembler.new]
  isn := by simp [new]
  fin := rfl
  fresh := fun _ => rfl

theorem AcknoInv.ackno_eq (h : AcknoInv S isn r) (hset : r.isnset = true) :
    r.ackno = some (wrap (1 + r.streamOut.bytesWritten + (if r.streamOut.inputEnded then 1 else 0)) isn) := by
  have hend : (r.finset && r.unassembledBytes == 0) = r.streamOut.inputEnded := by
    rw [Bool.eq_iff_iff, Bool.and_eq_true, beq_iff_eq, h.fin]
    exact (h.endInv.ended_iff h.complete).symm
  simp only [ackno, hset, if_true, h.isn hset, hend]

theorem AcknoInv.segment {a : Nat} (h : AcknoInv S isn r) (hS : S.length < 2 ^ 31)
    (ha : SegmentAt S isn seg a) (hkept : r.isnset = true ∨ seg.header.syn = true → FinSafe r seg)
    (hstep : r.segmentReceived seg = some (r', inside)) : AcknoInv S isn r' := by
  rcases segmentReceived_cases hstep with ⟨-, -, rfl⟩ | ⟨hset, ra, hpush, rfl⟩
  · exact h
  have hwritten : r.streamOut.bytesWritten < 2 ^ 31 := by
    have := h.endInv.within
    rw [h.endInv.safe.aligned] at this
    simp only [streamOut, ByteStream.bytesWritten]
    omega
  have hshort := ha.short
  have hindex : seg.payload ≠ [] ∨ seg.header.fin = true → r.streamIndex seg = max a 1 - 1 := fun hbody =>
    streamIndex_eq h.isn (fun _ => by rw [ha.seqno, unwrap_wrap_of_short a _ isn (by omega) hwritten])
      (by omega) ha.syn (ha.body hbody) hset
  have hdata : IsSlice S (r.streamIndex seg) seg.payload := by
    by_cases hne : seg.payload = []
    · rw [hne]
      exact isSlice_nil
    · rw [hindex (Or.inl hne)]
      exact ha.slice
  have hfin : seg.header.fin = true → r.streamIndex seg + seg.payload.length = S.length := fun hf => by
    rw [hindex (Or.inr hf)]
    exact ha.fin hf
  obtain ⟨heof, hfresh⟩ := hkept hset
  refine
    { endInv := h.endInv.push hdata hfin (by omega) heof hpush
      complete := h.endInv.safe.push_complete hdata hfin (by omega) heof.limit hfresh h.complete hpush
      isn := fun _ => ?_
      fin := ?_
      fresh := by simp }
  · simp only
    cases hr : r.isnset with
    | true => exact h.isn hr
    | false =>
      -- The SYN is at 0, and `isn` is what 0 wraps to.
      have hsyn := hset.resolve_left (by simp [hr])
      simp only [Bool.false_eq_true, if_false, ha.seqno, ha.syn hsyn, wrap_zero]
  · rw [pushSubstring_checkeof hpush, ← h.fin]
    cases hr : r.isnset with
    | true => simp
    | false => simp [h.fresh hr]

theorem AcknoInv.readOut (h : AcknoInv S isn r) (len : Nat) : AcknoInv S isn (r.readOut len) := by
  refine ⟨h.endInv.readOut len, ?_, h.isn, h.fin, h.fresh⟩
  simp only [TCPReceiver.readOut, readOut_eq]
  exact h.complete

theorem AcknoInv.mono {T : List UInt8} (h : AcknoInv S isn r) (hST : S <+: T)
    (hopen : r.reassembler.checkeof = true → T = S) : AcknoInv T isn r where
  endInv := h.endInv.mono hST hopen
  complete := fun hmark => by
    rw [hopen hmark]
    exact h.complete hmark
  isn := h.isn
  fin := h.fin
  fresh := h.fresh

/-- The first number that the receiver has not written. -/
def delivered (r : TCPReceiver) : Nat :=
  1 + r.streamOut.bytesWritten + (if r.streamOut.inputEnded then 1 else 0)

theorem delivered_readOut (r : TCPReceiver) (len : Nat) : (r.readOut len).delivered = r.delivered := by
  rw [TCPReceiver.readOut, readOut_eq]
  rfl

theorem AcknoInv.bytesWritten_eq (h : AcknoInv S isn r) : r.streamOut.bytesWritten = r.reassembler.firstindex :=
  h.endInv.safe.aligned.symm

theorem AcknoInv.delivered_le (h : AcknoInv S isn r) : r.delivered ≤ S.length + 2 := by
  have hwithin := h.endInv.within
  unfold delivered
  rw [h.bytesWritten_eq]
  split_ifs <;> omega

theorem AcknoInv.delivered_mono (h : AcknoInv S isn r) (h' : AcknoInv S isn r')
    (hF : r.reassembler.firstindex ≤ r'.reassembler.firstindex)
    (hmark : r.reassembler.checkeof = true → r'.reassembler.checkeof = true) : r.delivered ≤ r'.delivered := by
  have hwithin := h'.endInv.within
  unfold delivered
  rw [h.bytesWritten_eq, h'.bytesWritten_eq]
  by_cases hend : r.streamOut.inputEnded = true
  · obtain ⟨hce, hall⟩ := h.endInv.marked hend
    have hend' : r'.streamOut.inputEnded = true := h'.complete (hmark hce) (by omega)
    rw [if_pos hend, if_pos hend']
    omega
  · rw [if_neg hend]
    omega

theorem checkeof_segment (h : r.segmentReceived seg = some (r', inside)) :
    (r.reassembler.checkeof = true → r'.reassembler.checkeof = true) ∧
      (r'.reassembler.checkeof = true → r.reassembler.checkeof = true ∨ seg.header.fin = true) := by
  rcases segmentReceived_cases h with ⟨-, -, rfl⟩ | ⟨-, ra, hpush, rfl⟩
  · exact ⟨id, Or.inl⟩
  · simp only [pushSubstring_checkeof hpush, Bool.or_eq_true]
    exact ⟨Or.inr, Or.symm⟩

theorem AcknoInv.step (hS : S.length < 2 ^ 31) (r : TCPReceiver) (op : Op) (r' : TCPReceiver)
    (h : AcknoInv S isn r) (hop : Consistent S isn op ∧ FinKept r op) (hstep : step r op = some r') :
    AcknoInv S isn r' := by
  obtain ⟨hcons, hkept⟩ := hop
  cases op with
  | segment seg =>
    obtain ⟨a, -, ha⟩ := hcons
    obtain ⟨inside, hrec⟩ := step_segment hstep
    exact h.segment hS ha hkept hrec
  | read len =>
    cases hstep
    exact h.readOut len

/-! ## The SYN -/

theorem isnset_step (r : TCPReceiver) (op : Op) (r' : TCPReceiver)
    (h : r.isnset = true ∨ ∃ seg, op = .segment seg ∧ seg.header.syn = true) (hstep : step r op = some r') :
    r'.isnset = true := by
  cases op with
  | segment seg =>
    obtain ⟨inside, hrec⟩ := step_segment hstep
    rcases segmentReceived_cases hrec with ⟨hset, hsyn, -⟩ | ⟨-, ra, -, heq⟩
    · rcases h with h | ⟨_, hseg, hs⟩
      · simp [hset] at h
      · cases hseg
        simp [hsyn] at hs
    · rw [heq]
  | read len =>
    cases hstep
    rcases h with h | ⟨_, hseg, -⟩
    · exact h
    · cases hseg

theorem isnset_of_syn {ops : List Op} (hseg : .segment seg ∈ ops) (hsyn : seg.header.syn = true)
    (h : run step r ops = some r') : r'.isnset = true :=
  run_after (fun r op r' hr hs => isnset_step r op r' (Or.inl hr) hs)
    (fun r r' hs => isnset_step r _ r' (Or.inr ⟨seg, rfl, hsyn⟩) hs) hseg h

/-! ## Whole runs -/

def synSegment (isn : WrappingInt32) : TCPSegment := { header := { seqno := isn, syn := true } }

/-- The stream of one byte: its end comes before the byte. -/
def earlyFinOps : List Op :=
  [.segment (synSegment ⟨0⟩), .segment { header := { seqno := ⟨2⟩, fin := true } }]

theorem ackno_counts_missing :
    (∀ op ∈ earlyFinOps, Consistent [97] ⟨0⟩ op) ∧
      ∃ r, run step (new 8) earlyFinOps = some r ∧ r.streamOut.bytesWritten = 0 ∧
        r.streamOut.inputEnded = false ∧ r.ackno = some (wrap 2 ⟨0⟩) ∧
        r.ackno ≠ some (wrap (1 + r.streamOut.bytesWritten + (if r.streamOut.inputEnded then 1 else 0)) ⟨0⟩) :=
  ⟨by decide, _, rfl, rfl, rfl, rfl, by decide⟩

/-- In every run that keeps the end, `ackno` is the first number that was not written. -/
theorem ackno_agrees (S : List UInt8) (isn : WrappingInt32) (capacity : Nat) (ops : List Op) (r : TCPReceiver)
    (hS : S.length < 2 ^ 31) (hops : ∀ op ∈ ops, Consistent S isn op)
    (hkept : AllSteps step FinKept (new capacity) ops) (h : run step (new capacity) ops = some r)
    (hsyn : ∃ seg, .segment seg ∈ ops ∧ seg.header.syn = true) :
    r.ackno = some (wrap (1 + r.streamOut.bytesWritten + (if r.streamOut.inputEnded then 1 else 0)) isn) := by
  obtain ⟨seg, hseg, hs⟩ := hsyn
  have hinv := run_inv_of_allSteps (AcknoInv.step hS) (acknoInv_new S isn capacity)
    ((allSteps_of_forall hops).and hkept) h
  exact hinv.ackno_eq (isnset_of_syn hseg hs h)

/-- The same stream: the end comes with its byte, twice, and then alone. -/
def keptFinOps : List Op :=
  [.segment (synSegment ⟨0⟩), .segment { header := { seqno := ⟨1⟩, fin := true }, payload := [97] },
    .segment { header := { seqno := ⟨1⟩, fin := true }, payload := [97] }, .read 1,
    .segment { header := { seqno := ⟨2⟩, fin := true } }]

theorem ackno_agrees_one :
    ∃ r, run step (new 8) keptFinOps = some r ∧ r.streamOut.inputEnded = true ∧
      r.ackno = some (wrap (1 + r.streamOut.bytesWritten + (if r.streamOut.inputEnded then 1 else 0)) ⟨0⟩) := by
  have hrun : ∃ r, run step (new 8) keptFinOps = some r ∧ r.streamOut.inputEnded = true := by decide +kernel
  obtain ⟨r, hr, hend⟩ := hrun
  exact ⟨r, hr, hend, ackno_agrees [97] ⟨0⟩ 8 keptFinOps r (by decide) (by decide +kernel) (by decide +kernel) hr
    ⟨synSegment ⟨0⟩, by decide, rfl⟩⟩

end TCPReceiver

end Sponge
