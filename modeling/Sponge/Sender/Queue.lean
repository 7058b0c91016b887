import Sponge.Sender.Steps

/-!
# The retransmission queue

The segments of `unacked` are laid end to end and end at `byte_sent`. The first of
them holds the first number that was not acknowledged. This rests on `unwrap`
being exact for the numbers in the queue, which are near `byte_received` because
no window is larger than 65535.
-/

namespace Sponge

open Word64 Run

namespace TCPSender

variable {s : TCPSender} {seg : TCPSegment} {start absAckNo : Nat}

/-! ## The numbers in flight -/

structure InFlight (s : TCPSender) : Prop where
  received : s.byteReceived ≤ s.byteSent
  small : s.byteSent < s.byteReceived + 2 ^ 16

theorem InFlight.bytesInFlight_eq (h : InFlight s) : s.bytesInFlight = s.byteSent - s.byteReceived := by
  obtain ⟨h1, h2⟩ := h
  exact sub64_eq_sub h1 (by omega)

theorem InFlight.emit (h : InFlight s) (he : Emits s seg) : InFlight (s.emit seg) := by
  have hfits := he.fits
  rw [h.bytesInFlight_eq] at hfits
  have hlt := s.window_lt
  obtain ⟨h1, h2⟩ := h
  constructor
  · rw [emit_byteReceived, emit_byteSent]
    omega
  · rw [emit_byteReceived, emit_byteSent]
    omega

/-! ## The queue -/

/-- The queue, when its first segment has the number `start`. -/
structure Queue (s : TCPSender) (start : Nat) : Prop where
  inFlight : InFlight s
  length : start + seqLength s.unacked = s.byteSent
  numbered : ∀ p ∈ numbered start s.unacked,
    p.2.header.seqno = wrap p.1 s.isn
  sizes : ∀ seg ∈ s.unacked, 0 < seg.lengthInSequenceSpace ∧ seg.lengthInSequenceSpace ≤ 1002
  front : ∀ front rest, s.unacked = front :: rest →
    start ≤ s.byteReceived ∧ s.byteReceived < start + front.lengthInSequenceSpace
  empty : s.unacked = [] → s.byteReceived = s.byteSent

theorem Queue.start_le (h : Queue s start) : start ≤ s.byteReceived := by
  have hlen := h.length
  cases hu : s.unacked with
  | nil =>
    have := h.empty hu
    omega
  | cons front rest => exact (h.front front rest hu).1

theorem Queue.unacked_eq_nil_iff (h : Queue s start) : s.unacked = [] ↔ s.byteReceived = s.byteSent := by
  refine ⟨h.empty, fun heq => ?_⟩
  cases hu : s.unacked with
  | nil => rfl
  | cons front rest =>
    have hfront := h.front front rest hu
    have hlen := h.length
    rw [hu, seqLength_cons] at hlen
    omega

theorem Emits.length_le (he : Emits s seg) : seg.lengthInSequenceSpace ≤ 1002 := by
  have hshort := he.short
  simp only [TCPConfig.maxPayloadSize] at hshort
  unfold TCPSegment.lengthInSequenceSpace
  split_ifs <;> omega

theorem Queue.emit (h : Queue s start) (he : Emits s seg) : Queue (s.emit seg) start where
  inFlight := h.inFlight.emit he
  length := by
    have := h.length
    rw [emit_unacked, emit_byteSent, seqLength_append, seqLength_cons, seqLength_nil]
    omega
  numbered := by
    intro p hp
    rw [emit_unacked, numbered_append] at hp
    rcases List.mem_append.mp hp with hp | hp
    · exact h.numbered p hp
    · rw [numbered_cons, numbered_nil, List.mem_singleton] at hp
      rw [hp, he.seqno, h.length, emit_isn, nextSeqno]
  sizes := by
    intro x hx
    rw [emit_unacked] at hx
    rcases List.mem_append.mp hx with hx | hx
    · exact h.sizes x hx
    · rw [List.mem_singleton.mp hx]
      exact ⟨he.nonempty, he.length_le⟩
  front := by
    intro front rest hq
    rw [emit_unacked] at hq
    rw [emit_byteReceived]
    cases hu : s.unacked with
    | nil =>
      -- The new segment is the first: it starts at `byte_sent`, and all before it is acknowledged.
      have hlen := h.length
      have hempty := h.empty hu
      have hpos := he.nonempty
      rw [hu] at hq hlen
      cases hq
      rw [seqLength_nil] at hlen
      omega
    | cons f r =>
      rw [hu, List.cons_append] at hq
      cases hq
      exact h.front front r hu
  empty := by simp

theorem popAcked_spec {isn : WrappingInt32} {l : List TCPSegment}
    (hnum : ∀ p ∈ numbered start l, p.2.header.seqno = wrap p.1 isn)
    (hstart : start ≤ absAckNo) (hlo : absAckNo < start + 2 ^ 31)
    (hlt : start + seqLength l < 2 ^ 64) :
    ∃ popped, l = popped ++ popAcked isn absAckNo absAckNo l ∧
      start + seqLength popped ≤ absAckNo ∧
      ∀ front rest, popAcked isn absAckNo absAckNo l = front :: rest →
        absAckNo < start + seqLength popped + front.lengthInSequenceSpace := by
  induction l generalizing start with
  | nil => exact ⟨[], rfl, by simpa using hstart, by simp [popAcked]⟩
  | cons seg l ih =>
    rw [seqLength_cons] at hlt
    have hseq : seg.header.seqno = wrap start isn := hnum (start, seg) List.mem_cons_self
    -- The queue reaches back less than half of the sequence space, so the number unwraps to its own.
    have hunwrap := unwrap_wrap_of_near start absAckNo isn (by omega) hlo (by omega)
    simp only [popAcked, hseq, hunwrap]
    rw [add64_eq (by omega)]
    split_ifs with c
    · obtain ⟨popped, hl, hle, hfront⟩ :=
        ih (fun p hp => hnum p (List.mem_cons_of_mem _ hp)) c (by omega) (by omega)
      refine ⟨seg :: popped, by rw [List.cons_append, ← hl], ?_, ?_⟩
      · rw [seqLength_cons]
        omega
      · intro front rest hq
        have := hfront front rest hq
        rw [seqLength_cons]
        omega
    · -- The first segment that is not fully acknowledged stops the loop.
      refine ⟨[], rfl, by simpa using hstart, ?_⟩
      intro front rest hq
      cases hq
      rw [seqLength_nil]
      omega

theorem Queue.acknowledge (h : Queue s start) (hsent : s.byteSent < 2 ^ 64) (hlo : s.byteReceived < absAckNo)
    (hhi : absAckNo ≤ s.byteSent) : ∃ start', Queue (s.acknowledge absAckNo) start' := by
  obtain ⟨timer, heq⟩ := acknowledge_eq s absAckNo
  have hlen := h.length
  have hsmall := h.inFlight.small
  -- The queue is not empty, and its first segment holds `byte_received`.
  have hstart := h.start_le
  have hnear : s.byteReceived < start + 1002 := by
    cases hu : s.unacked with
    | nil =>
      have := h.empty hu
      omega
    | cons front rest =>
      have hfront := h.front front rest hu
      have hsize := (h.sizes front (by simp [hu])).2
      omega
  obtain ⟨popped, hl, hle, hfront⟩ := popAcked_spec h.numbered (by omega : start ≤ absAckNo) (by omega) (by omega)
  have hnum := h.numbered
  rw [hl, numbered_append] at hnum
  have hsum := hlen
  rw [hl, seqLength_append] at hsum
  rw [heq]
  refine ⟨start + seqLength popped, ?_⟩
  refine
    { inFlight := ⟨hhi, by simp only; omega⟩
      length := by simp only; omega
      numbered := fun p hp => hnum p (List.mem_append_right _ hp)
      sizes := fun x hx => h.sizes x (by rw [hl]; exact List.mem_append_right _ hx)
      front := fun front rest hq => ⟨hle, hfront front rest hq⟩
      empty := ?_ }
  intro hq
  simp only at hq ⊢
  rw [hq, seqLength_nil] at hsum
  omega

end TCPSender

namespace SenderTrace

open TCPSender

variable {t t' t₁ : SenderTrace} {op : SenderOp}

def start (capacity : Nat) (retxTimeout : UInt16) (isn : WrappingInt32) : SenderTrace :=
  { s := TCPSender.new capacity retxTimeout isn }

theorem inFlight_prep (h : InFlight t.s) (hp : Prep t op t₁) : InFlight t₁.s := by
  cases hp with
  | acknowledge ackno w absAckNo hlo hhi habs =>
    obtain ⟨timer, heq⟩ := acknowledge_eq (t.windowed ackno w).s absAckNo
    have := h.small
    simp only [heq]
    exact ⟨hhi, by simp only [windowed]; omega⟩
  | _ => exact ⟨h.received, h.small⟩

theorem queue_prep {start : Nat} (h : Queue t.s start) (hsent : t.s.byteSent < 2 ^ 64) (hp : Prep t op t₁) :
    ∃ start', Queue t₁.s start' := by
  cases hp with
  | acknowledge ackno w absAckNo hlo hhi habs =>
    have hw : Queue (t.windowed ackno w).s start :=
      ⟨⟨h.inFlight.received, h.inFlight.small⟩, h.length, h.numbered, h.sizes, h.front, h.empty⟩
    exact hw.acknowledge hsent hlo hhi
  | _ =>
    exact ⟨start, ⟨h.inFlight.received, h.inFlight.small⟩, h.length, h.numbered, h.sizes, h.front, h.empty⟩

theorem byteSent_prep (hp : Prep t op t₁) : t₁.s.byteSent = t.s.byteSent := by
  cases hp with
  | acknowledge ackno w absAckNo hlo hhi habs =>
    obtain ⟨timer, heq⟩ := acknowledge_eq (t.windowed ackno w).s absAckNo
    simp only [heq]
    rfl
  | _ => rfl

theorem queue_step (t : SenderTrace) (op : SenderOp) (t' : SenderTrace)
    (h : t.s.byteSent < 2 ^ 64 → ∃ start, Queue t.s start) (hstep : step t op = some t') :
    t'.s.byteSent < 2 ^ 64 → ∃ start, Queue t'.s start := by
  refine step_inv (P := fun t => t.s.byteSent < 2 ^ 64 → ∃ start, Queue t.s start) ?_ ?_ hstep
  · intro t₁ hp hsent
    rw [byteSent_prep hp] at hsent
    obtain ⟨start, hq⟩ := h hsent
    exact queue_prep hq hsent hp
  · intro t seg ht he hsent
    have hle : t.s.byteSent < 2 ^ 64 := by
      simp only [SenderTrace.emit, emit_byteSent] at hsent
      omega
    obtain ⟨start, hq⟩ := ht hle
    exact ⟨start, hq.emit he⟩

theorem queue_new (capacity : Nat) (retxTimeout : UInt16) (isn : WrappingInt32) :
    Queue (TCPSender.new capacity retxTimeout isn) 0 where
  inFlight := ⟨Nat.le_refl _, by simp [TCPSender.new]⟩
  length := rfl
  numbered := by simp [TCPSender.new]
  sizes := by simp [TCPSender.new]
  front := by simp [TCPSender.new]
  empty := fun _ => rfl

theorem byteReceived_fillWindow (s : TCPSender) : s.fillWindow.byteReceived = s.byteReceived :=
  fillWindow_inv (P := fun s' => s'.byteReceived = s.byteReceived) (fun _ _ h _ => h) rfl

theorem byteReceived_ackReceived (s : TCPSender) (ackno : WrappingInt32) (w : UInt16) :
    (s.ackReceived ackno w).1.byteReceived =
      if s.byteReceived < unwrap ackno s.isn s.byteReceived ∧ unwrap ackno s.isn s.byteReceived ≤ s.byteSent then
        unwrap ackno s.isn s.byteReceived else s.byteReceived := by
  rcases ackReceived_cases s ackno w with ⟨hout, heq⟩ | ⟨hsame, -, heq⟩ | ⟨hlo, hhi, heq⟩
  · rw [heq, if_neg (by omega)]
  · rw [heq, byteReceived_fillWindow, if_neg (by omega)]
  · rw [heq, byteReceived_fillWindow, if_pos ⟨hlo, hhi⟩]
    obtain ⟨timer, hfields⟩ := acknowledge_eq { s with windowSize := w } (unwrap ackno s.isn s.byteReceived)
    rw [hfields]

theorem byteReceived_step (h : step t op = some t') :
    t'.s.byteReceived = t.s.byteReceived ∨
      ∃ ackno w, op = .ackReceived ackno w ∧ t'.s.byteReceived = unwrap ackno t.s.isn t.s.byteReceived := by
  refine step_inv (P := fun t' => t'.s.byteReceived = t.s.byteReceived ∨
    ∃ ackno w, op = .ackReceived ackno w ∧ t'.s.byteReceived = unwrap ackno t.s.isn t.s.byteReceived)
    (fun t₁ hp => ?_) (fun _ _ h _ => h) h
  cases hp with
  | acknowledge ackno w absAckNo hlo hhi habs =>
    obtain ⟨timer, heq⟩ := acknowledge_eq (t.windowed ackno w).s absAckNo
    rw [heq]
    exact Or.inr ⟨ackno, w, rfl, habs⟩
  | _ => exact Or.inl rfl

/-- The retransmission queue, in every state that a sender reaches. -/
theorem unacked_in_order (capacity : Nat) (retxTimeout : UInt16) (isn : WrappingInt32) (ops : List SenderOp)
    (t : SenderTrace) (h : run step (start capacity retxTimeout isn) ops = some t)
    (hsent : t.s.byteSent < 2 ^ 63) :
    t.s.byteReceived ≤ t.s.byteSent ∧ t.s.bytesInFlight = t.s.byteSent - t.s.byteReceived ∧
      (∀ seg ∈ t.s.unacked, 0 < seg.lengthInSequenceSpace) ∧
      (∃ first, first + seqLength t.s.unacked = t.s.byteSent ∧
        (∀ a seg, (a, seg) ∈ numbered first t.s.unacked → seg.header.seqno = wrap a t.s.isn) ∧
        ∀ front rest, t.s.unacked = front :: rest →
          first ≤ t.s.byteReceived ∧ t.s.byteReceived < first + front.lengthInSequenceSpace) ∧
      (t.s.unacked = [] ↔ t.s.byteReceived = t.s.byteSent) ∧
      (∀ ackno w, (t.s.ackReceived ackno w).1.byteReceived ≠ t.s.byteReceived →
        ∃ a, ackno = wrap a t.s.isn ∧ t.s.byteReceived < a ∧ a ≤ t.s.byteSent ∧
          (t.s.ackReceived ackno w).1.byteReceived = a) ∧
      (∀ a w, t.s.byteReceived < a → a ≤ t.s.byteSent →
        (t.s.ackReceived (wrap a t.s.isn) w).1.byteReceived = a) := by
  obtain ⟨first, hq⟩ := run_inv queue_step (fun _ => ⟨0, queue_new capacity retxTimeout isn⟩) h (by omega)
  have hsmall := hq.inFlight.small
  refine ⟨hq.inFlight.received, hq.inFlight.bytesInFlight_eq, fun seg hseg => (hq.sizes seg hseg).1,
    ⟨first, hq.length, fun a seg hseg => hq.numbered (a, seg) hseg, hq.front⟩, hq.unacked_eq_nil_iff, ?_, ?_⟩
  · intro ackno w hne
    rw [byteReceived_ackReceived] at hne ⊢
    split_ifs at hne ⊢ with c
    · exact ⟨_, (wrap_unwrap ackno t.s.isn t.s.byteReceived).symm, c.1, c.2, rfl⟩
    · exact absurd rfl hne
  · intro a w hlo hhi
    rw [byteReceived_ackReceived, unwrap_wrap_of_near a _ _ (by omega) (by omega) (by omega), if_pos ⟨hlo, hhi⟩]

/-- A SYN, three bytes in two segments, and an acknowledgment of the SYN and one byte. -/
def partlyAckedOps : List SenderOp :=
  [.fillWindow, .ackReceived ⟨6⟩ 2, .write [97, 98, 99], .fillWindow, .ackReceived ⟨7⟩ 3, .tick 1000,
    .sendEmptySegment]

theorem unacked_in_order_partly :
    ∃ t, run step (start 8 100 ⟨5⟩) partlyAckedOps = some t ∧ t.s.byteSent = 4 ∧ t.s.byteReceived = 2 ∧
      t.s.byteReceived ≤ t.s.byteSent ∧ (t.s.unacked = [] ↔ t.s.byteReceived = t.s.byteSent) := by
  have hrun : ∃ t, run step (start 8 100 ⟨5⟩) partlyAckedOps = some t ∧ t.s.byteSent = 4 ∧ t.s.byteReceived = 2 := by
    decide +kernel
  obtain ⟨t, ht, hsent, hreceived⟩ := hrun
  have hinv := unacked_in_order 8 100 ⟨5⟩ partlyAckedOps t ht (by omega)
  exact ⟨t, ht, hsent, hreceived, hinv.1, hinv.2.2.2.2.1⟩

end SenderTrace

end Sponge
