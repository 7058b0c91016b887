import Sponge.Sender.Queue

/-!
# What the sender sends

Every segment is a piece of the stream at its place, first transmissions lie end
to end from 0 on, and a segment that is sent again is one of them.
-/

namespace Sponge

open Slice Run

namespace TCPSender

theorem popAcked_suffix (isn : WrappingInt32) (byteReceived absAckNo : Nat) (l : List TCPSegment) :
    popAcked isn byteReceived absAckNo l <:+ l := by
  induction l with
  | nil => exact List.suffix_rfl
  | cons seg l ih =>
    simp only [popAcked]
    split_ifs
    · exact ih.trans (List.suffix_cons seg l)
    · exact List.suffix_rfl

end TCPSender

theorem SegmentAt.mono {S T : List UInt8} {isn : WrappingInt32} {seg : TCPSegment} {a : Nat}
    (h : SegmentAt S isn seg a) (hST : S <+: T) (hfin : seg.header.fin = false) : SegmentAt T isn seg a where
  seqno := h.seqno
  short := by
    have := h.short
    have := hST.length_le
    omega
  syn := h.syn
  body := h.body
  slice := h.slice.mono hST
  fin := by simp [hfin]

namespace SenderTrace

open TCPSender

variable {t t' t₁ : SenderTrace} {op : SenderOp} {seg : TCPSegment}

def taken (t : SenderTrace) : List UInt8 := t.input.take t.s.stream.alread

/-- What holds between two calls. -/
structure Faithful (t : SenderTrace) : Prop where
  within : t.s.stream.alread ≤ t.input.length
  content : t.s.stream.content = t.input.drop t.s.stream.alread
  fresh : t.firsts = [] → t.s.byteSent = 0 ∧ t.s.stream.alread = 0 ∧ t.s.eof = false
  count : t.firsts ≠ [] → t.s.byteSent = 1 + t.s.stream.alread + (if t.s.eof then 1 else 0)
  length : t.s.byteSent = seqLength t.firsts
  queue : t.s.unacked <:+ t.firsts
  resent : ∀ p ∈ t.resent, p ∈ numbered 0 t.firsts
  segments : ∀ p ∈ numbered 0 t.firsts, SegmentAt t.taken t.s.isn p.2 p.1 ∧
    (p.2.header.syn = true ↔ p.1 = 0) ∧ p.2.payload.length ≤ TCPConfig.maxPayloadSize ∧
    (p.2.header.fin = true → t.s.eof = true ∧ p.1 + p.2.lengthInSequenceSpace = t.taken.length + 2)

theorem faithful_start (capacity : Nat) (retxTimeout : UInt16) (isn : WrappingInt32) :
    Faithful (start capacity retxTimeout isn) where
  within := Nat.le_refl _
  content := rfl
  fresh := fun _ => ⟨rfl, rfl, rfl⟩
  count := by simp [start]
  length := rfl
  queue := List.suffix_rfl
  resent := by simp [start]
  segments := by simp [start]

theorem Faithful.length_taken (h : Faithful t) : t.taken.length = t.s.stream.alread := by
  rw [taken, List.length_take, Nat.min_eq_left h.within]

/-! ## A new segment -/

theorem Faithful.taken_emit (h : Faithful t) (he : Emits t.s seg) :
    (t.emit seg).taken = t.taken ++ seg.payload := by
  have hpayload := he.payload
  rw [h.content] at hpayload
  simp only [taken, SenderTrace.emit, he.stream_eq]
  rw [List.take_add, ← hpayload]

theorem Faithful.index_eq (h : Faithful t) (he : Emits t.s seg) :
    (t.s.byteSent = 0 ∧ t.s.stream.alread = 0) ∨ t.s.byteSent = 1 + t.s.stream.alread := by
  by_cases hf : t.firsts = []
  · exact Or.inl ⟨(h.fresh hf).1, (h.fresh hf).2.1⟩
  · have := h.count hf
    simp only [he.unended, Bool.false_eq_true, if_false] at this
    exact Or.inr this

theorem Faithful.segmentAt (h : Faithful t) (he : Emits t.s seg) :
    SegmentAt (t.emit seg).taken t.s.isn seg t.s.byteSent := by
  have hidx := h.index_eq he
  have hlen := h.length_taken
  have hsyn := he.syn
  rw [h.taken_emit he]
  refine
    { seqno := he.seqno
      short := by rw [List.length_append]; omega
      syn := fun hs => by simpa [hsyn] using hs
      body := fun _ => ?_
      slice := ?_
      fin := fun _ => by rw [List.length_append]; omega }
  · rw [hsyn, beq_iff_eq]
    omega
  · have hat : max t.s.byteSent 1 - 1 = t.taken.length := by omega
    rw [hat]
    exact isSlice_append t.taken seg.payload

theorem Faithful.segments_emit (h : Faithful t) (he : Emits t.s seg) :
    ∀ p ∈ numbered 0 (t.emit seg).firsts, SegmentAt (t.emit seg).taken t.s.isn p.2 p.1 ∧
      (p.2.header.syn = true ↔ p.1 = 0) ∧ p.2.payload.length ≤ TCPConfig.maxPayloadSize ∧
      (p.2.header.fin = true → (t.emit seg).s.eof = true ∧
        p.1 + p.2.lengthInSequenceSpace = (t.emit seg).taken.length + 2) := by
  intro p hp
  simp only [SenderTrace.emit, numbered_append] at hp
  rcases List.mem_append.mp hp with hp | hp
  · -- No earlier segment is the last: the sender still sends.
    obtain ⟨hat, hsyn, hshort, hfin⟩ := h.segments p hp
    have hopen : p.2.header.fin = false := by
      rw [Bool.eq_false_iff]
      intro hf
      have := (hfin hf).1
      rw [he.unended] at this
      cases this
    refine ⟨hat.mono ?_ hopen, hsyn, hshort, by simp [hopen]⟩
    rw [h.taken_emit he]
    exact List.prefix_append _ _
  · rw [numbered_cons, numbered_nil, List.mem_singleton, Nat.zero_add, ← h.length] at hp
    have hidx := h.index_eq he
    have hlen := h.length_taken
    rw [hp]
    refine ⟨h.segmentAt he, by rw [he.syn, beq_iff_eq], he.short, fun hf => ⟨hf, ?_⟩⟩
    rw [h.taken_emit he, List.length_append, TCPSegment.lengthInSequenceSpace, he.syn, hf]
    simp only [beq_iff_eq, if_true]
    split_ifs <;> omega

theorem Faithful.emit (h : Faithful t) (he : Emits t.s seg) : Faithful (t.emit seg) where
  within := by
    have hle := he.payload_le
    have hwithin := h.within
    rw [h.content, List.length_drop] at hle
    simp only [SenderTrace.emit, he.stream_eq]
    omega
  content := by
    simp only [SenderTrace.emit, he.stream_eq]
    rw [h.content, List.drop_drop]
  fresh := by simp [SenderTrace.emit]
  count := by
    intro _
    have hidx := h.index_eq he
    show t.s.byteSent + seg.lengthInSequenceSpace =
      1 + (t.s.emit seg).stream.alread + (if seg.header.fin then 1 else 0)
    rw [he.stream_eq, TCPSegment.lengthInSequenceSpace, he.syn]
    simp only [beq_iff_eq]
    -- The first segment carries the SYN, which the count has beside the bytes read.
    rcases hidx with ⟨h0, ha⟩ | h1
    · rw [if_pos h0]
      omega
    · rw [if_neg (by omega)]
      omega
  length := by
    simp only [SenderTrace.emit, emit_byteSent, h.length, seqLength_append, seqLength_cons, seqLength_nil, Nat.add_zero]
  queue := by
    obtain ⟨acked, hq⟩ := h.queue
    exact ⟨acked, by simp [SenderTrace.emit, ← hq]⟩
  resent := by
    intro p hp
    simp only [SenderTrace.emit, numbered_append]
    exact List.mem_append_left _ (h.resent p hp)
  segments := h.segments_emit he

/-! ## The other changes -/

theorem Faithful.write (h : Faithful t) (data : List UInt8) (n : Nat) :
    Faithful { t with
      s := { t.s with stream := { t.s.stream with
        content := t.s.stream.content ++ data.take n, alwritten := t.s.stream.alwritten + n } }
      input := t.input ++ data.take n } := by
  have hwithin := h.within
  have htaken : (t.input ++ data.take n).take t.s.stream.alread = t.taken :=
    List.take_append_of_le_length hwithin
  refine ⟨?_, ?_, h.fresh, h.count, h.length, h.queue, h.resent, ?_⟩
  · simp only [List.length_append]
    omega
  · simp only [h.content]
    rw [List.drop_append_of_le_length hwithin]
  · simp only [taken, htaken]
    exact h.segments

theorem Faithful.prep (h : Faithful t) (hp : Prep t op t₁) : Faithful t₁ := by
  cases hp with
  | write data n hn => exact h.write data n
  | acknowledge ackno w absAckNo hlo hhi habs =>
    obtain ⟨timer, heq⟩ := acknowledge_eq (t.windowed ackno w).s absAckNo
    rw [heq]
    exact ⟨h.within, h.content, h.fresh, h.count, h.length, (popAcked_suffix _ _ _ _).trans h.queue, h.resent,
      h.segments⟩
  | resend ms time retrans timer front rest hfront =>
    refine ⟨h.within, h.content, h.fresh, h.count, h.length, h.queue, ?_, h.segments⟩
    intro p hp
    rcases List.mem_append.mp hp with hp | hp
    · exact h.resent p hp
    · -- The queue ends where the first transmissions end, so its front has its first number.
      obtain ⟨acked, hq⟩ := h.queue
      have hlen := h.length
      rw [← hq, seqLength_append] at hlen
      have hnum : t.s.byteSent - seqLength t.s.unacked = 0 + seqLength acked := by omega
      rw [List.mem_singleton.mp hp, hnum, ← hq, numbered_append]
      refine List.mem_append_right _ ?_
      rw [hfront, numbered_cons]
      exact List.mem_cons_self
  | _ => exact ⟨h.within, h.content, h.fresh, h.count, h.length, h.queue, h.resent, h.segments⟩

theorem Faithful.step (t : SenderTrace) (op : SenderOp) (t' : SenderTrace) (h : Faithful t)
    (hstep : step t op = some t') : Faithful t' :=
  step_inv (fun _ hp => h.prep hp) (fun _ _ h he => h.emit he) hstep

theorem Faithful.emitted (h : Faithful t) {p : Nat × TCPSegment} (hp : p ∈ t.emitted) : p ∈ numbered 0 t.firsts := by
  rcases List.mem_append.mp hp with hp | hp
  · exact hp
  · exact h.resent p hp

theorem Faithful.segmentAt_of_emitted (h : Faithful t) {n : Nat} (hp : (n, seg) ∈ t.emitted) :
    SegmentAt t.taken t.s.isn seg n ∧ (seg.header.syn = true ↔ n = 0) ∧ (seg.header.fin = true → t.s.eof = true) := by
  obtain ⟨hat, hsyn, -, hfin⟩ := h.segments (n, seg) (h.emitted hp)
  exact ⟨hat, hsyn, fun hf => (hfin hf).1⟩

theorem Faithful.byteSent_le (h : Faithful t) : t.s.byteSent ≤ t.input.length + 2 := by
  have hwithin := h.within
  by_cases hf : t.firsts = []
  · have := (h.fresh hf).1
    omega
  · rw [h.count hf]
    split_ifs <;> omega

theorem taken_prep (h : Faithful t) (hp : Prep t op t₁) : t₁.taken = t.taken ∧ t₁.s.eof = t.s.eof := by
  cases hp with
  | write data n hn => exact ⟨List.take_append_of_le_length h.within, rfl⟩
  | acknowledge ackno w absAckNo hlo hhi habs =>
    obtain ⟨timer, heq⟩ := acknowledge_eq (t.windowed ackno w).s absAckNo
    rw [heq]
    exact ⟨rfl, rfl⟩
  | _ => exact ⟨rfl, rfl⟩

theorem Faithful.taken_step (h : Faithful t) (hstep : SenderTrace.step t op = some t') :
    t.taken <+: t'.taken ∧ (t.s.eof = true → t'.taken = t.taken ∧ t'.s.eof = true) := by
  refine (step_inv (P := fun t' => Faithful t' ∧ t.taken <+: t'.taken ∧
    (t.s.eof = true → t'.taken = t.taken ∧ t'.s.eof = true)) (fun t₁ hp => ?_) (fun t₂ seg h₂ he => ?_) hstep).2
  · obtain ⟨htaken, heof⟩ := taken_prep h hp
    exact ⟨h.prep hp, htaken.symm ▸ List.prefix_rfl, fun hend => ⟨htaken, heof.trans hend⟩⟩
  · obtain ⟨hf, hgrows, hlast⟩ := h₂
    refine ⟨hf.emit he, ?_, fun hend => ?_⟩
    · rw [hf.taken_emit he]
      exact hgrows.trans (List.prefix_append _ _)
    · have := he.unended
      rw [(hlast hend).2] at this
      cases this

/-! ## Runs with no write after the end -/

/-- Nothing is written after `end_input`, and no segment is sent for its acknowledgment alone. -/
def WritesBeforeEnd (t : SenderTrace) : SenderOp → Prop
  | .write _ => t.s.stream.inputEnded = false
  | .sendEmptySegment => False
  | _ => True

instance (t : SenderTrace) : ∀ op, Decidable (WritesBeforeEnd t op)
  | .write _ => inferInstanceAs (Decidable (_ = _))
  | .sendEmptySegment => .isFalse id
  | .endInput | .fillWindow | .ackReceived _ _ | .tick _ => .isTrue trivial

/-- Nothing is written after `end_input`. -/
def NoLateWrite (t : SenderTrace) : SenderOp → Prop
  | .write _ => t.s.stream.inputEnded = false
  | _ => True

instance (t : SenderTrace) : ∀ op, Decidable (NoLateWrite t op)
  | .write _ => inferInstanceAs (Decidable (_ = _))
  | .endInput | .fillWindow | .ackReceived _ _ | .tick _ | .sendEmptySegment => .isTrue trivial

theorem WritesBeforeEnd.noLateWrite (h : WritesBeforeEnd t op) : NoLateWrite t op := by
  cases op with
  | write data => exact h
  | _ => trivial

/-- The last segment is sent when the whole stream was taken. -/
structure Drained (t : SenderTrace) : Prop where
  faithful : Faithful t
  eof : t.s.eof = true → t.s.stream.ended = true ∧ t.s.stream.alread = t.input.length

theorem drained_start (capacity : Nat) (retxTimeout : UInt16) (isn : WrappingInt32) :
    Drained (start capacity retxTimeout isn) :=
  ⟨faithful_start capacity retxTimeout isn, by simp [start, TCPSender.new]⟩

theorem Drained.emit (h : Drained t) (he : Emits t.s seg) : Drained (t.emit seg) := by
  refine ⟨h.faithful.emit he, fun hf => ?_⟩
  obtain ⟨hend, hall⟩ := he.fin hf
  have hwithin := h.faithful.within
  rw [h.faithful.content, List.length_drop] at hall
  simp only [SenderTrace.emit, he.stream_eq]
  exact ⟨hend, by omega⟩

theorem Drained.prep (h : Drained t) (hop : NoLateWrite t op) (hp : Prep t op t₁) : Drained t₁ := by
  have hf := h.faithful.prep hp
  cases hp with
  | write data n hn =>
    refine ⟨hf, fun heof => ?_⟩
    rw [NoLateWrite, ByteStream.inputEnded, (h.eof heof).1] at hop
    cases hop
  | endInput => exact ⟨hf, fun heof => ⟨rfl, (h.eof heof).2⟩⟩
  | acknowledge ackno w absAckNo hlo hhi habs =>
    obtain ⟨timer, heq⟩ := acknowledge_eq (t.windowed ackno w).s absAckNo
    rw [heq] at hf ⊢
    exact ⟨hf, h.eof⟩
  | _ => exact ⟨hf, h.eof⟩

theorem Drained.step (t : SenderTrace) (op : SenderOp) (t' : SenderTrace) (h : Drained t) (hop : NoLateWrite t op)
    (hstep : step t op = some t') : Drained t' :=
  step_inv (fun _ hp => h.prep hop hp) (fun _ _ h he => h.emit he) hstep

/-- The last segment is sent when the whole stream was taken, and all that leaves the sender is
on record. -/
structure Finished (t : SenderTrace) : Prop where
  faithful : Faithful t
  eof : t.s.eof = true → t.s.stream.ended = true ∧ t.s.stream.alread = t.input.length
  out : ∀ seg ∈ t.s.segmentsOut, ∃ a, (a, seg) ∈ t.emitted

theorem Finished.drained (h : Finished t) : Drained t := ⟨h.faithful, h.eof⟩

theorem Drained.finished (h : Drained t) (hout : ∀ seg ∈ t.s.segmentsOut, ∃ a, (a, seg) ∈ t.emitted) : Finished t :=
  ⟨h.faithful, h.eof, hout⟩

theorem finished_start (capacity : Nat) (retxTimeout : UInt16) (isn : WrappingInt32) :
    Finished (start capacity retxTimeout isn) :=
  (drained_start capacity retxTimeout isn).finished (by simp [start, TCPSender.new])

theorem Finished.emit (h : Finished t) (he : Emits t.s seg) : Finished (t.emit seg) := by
  apply (h.drained.emit he).finished
  intro x hx
  simp only [SenderTrace.emit, SenderTrace.emitted, numbered_append] at hx ⊢
  rw [emit_segmentsOut] at hx
  rcases List.mem_append.mp hx with hx | hx
  · obtain ⟨a, ha⟩ := h.out x hx
    refine ⟨a, ?_⟩
    rcases List.mem_append.mp ha with ha | ha
    · exact List.mem_append_left _ (List.mem_append_left _ ha)
    · exact List.mem_append_right _ ha
  · rw [List.mem_singleton.mp hx]
    exact ⟨_, List.mem_append_left _ (List.mem_append_right _ List.mem_cons_self)⟩

theorem Finished.prep (h : Finished t) (hop : WritesBeforeEnd t op) (hp : Prep t op t₁) : Finished t₁ := by
  apply (h.drained.prep hop.noLateWrite hp).finished
  cases hp with
  | acknowledge ackno w absAckNo hlo hhi habs =>
    obtain ⟨timer, heq⟩ := acknowledge_eq (t.windowed ackno w).s absAckNo
    rw [heq]
    exact h.out
  | resend ms time retrans timer front rest hfront =>
    intro x hx
    simp only [SenderTrace.emitted, ← List.append_assoc] at hx ⊢
    rcases List.mem_append.mp hx with hx | hx
    · obtain ⟨a, ha⟩ := h.out x hx
      exact ⟨a, List.mem_append_left _ ha⟩
    · rw [List.mem_singleton.mp hx]
      exact ⟨_, List.mem_append_right _ List.mem_cons_self⟩
  | sendEmptySegment => exact hop.elim
  | _ => exact h.out

theorem Finished.step (t : SenderTrace) (op : SenderOp) (t' : SenderTrace) (h : Finished t)
    (hop : WritesBeforeEnd t op) (hstep : step t op = some t') : Finished t' :=
  step_inv (fun _ hp => h.prep hop hp) (fun _ _ h he => h.emit he) hstep

theorem Faithful.any_syn (h : Faithful t) : t.firsts.any (fun seg => seg.header.syn) = true ↔ t.firsts ≠ [] := by
  cases hf : t.firsts with
  | nil => simp
  | cons seg rest =>
    have hsyn := (h.segments (0, seg) (by simp [hf])).2.1
    simp [hsyn]

theorem isn_step (t : SenderTrace) (op : SenderOp) (t' : SenderTrace) {isn : WrappingInt32} (h : t.s.isn = isn)
    (hstep : step t op = some t') : t'.s.isn = isn := by
  refine step_inv (P := fun t => t.s.isn = isn) (fun t₁ hp => ?_) (fun _ _ h _ => h) hstep
  cases hp with
  | acknowledge ackno w absAckNo hlo hhi habs =>
    obtain ⟨timer, heq⟩ := acknowledge_eq (t.windowed ackno w).s absAckNo
    rw [heq]
    exact h
  | _ => exact h

/-- Every segment that a sender sends is a piece of its stream, at the place its number says. The
counters are at most two above the bytes written (`Faithful.byteSent_le`), so they are those of the code
as long as these are fewer than `2 ^ 64 - 2`. -/
theorem sent_pieces (capacity : Nat) (retxTimeout : UInt16) (isn : WrappingInt32) (ops : List SenderOp)
    (t : SenderTrace) (hops : AllSteps step WritesBeforeEnd (start capacity retxTimeout isn) ops)
    (h : run step (start capacity retxTimeout isn) ops = some t) :
    (∀ seg ∈ t.s.segmentsOut, ∃ a, (a, seg) ∈ t.emitted) ∧
      (∀ a seg, (a, seg) ∈ t.emitted →
        seg.header.seqno = wrap a isn ∧ (seg.header.syn = true ↔ a = 0) ∧
          IsSlice t.input (max a 1 - 1) seg.payload ∧ seg.payload.length ≤ 1000 ∧
          (seg.header.fin = true → t.s.stream.inputEnded = true ∧
            max a 1 - 1 + seg.payload.length = t.input.length ∧
            a + seg.lengthInSequenceSpace = (t.input.length + 1) + 1)) ∧
      (∀ p ∈ t.resent, p ∈ numbered 0 t.firsts) ∧ t.s.byteSent = seqLength t.firsts ∧
      t.s.byteSent = (if t.firsts.any (fun seg => seg.header.syn) then 1 else 0) + t.s.stream.bytesRead +
        (if t.s.finSent then 1 else 0) := by
  have hfin := run_inv_of_allSteps Finished.step (finished_start capacity retxTimeout isn) hops h
  have hisn : t.s.isn = isn := run_inv (fun t op t' => isn_step t op t') rfl h
  have hf := hfin.faithful
  refine ⟨hfin.out, fun a seg hp => ?_, hf.resent, hf.length, ?_⟩
  · obtain ⟨hat, hsyn, hshort, hlast⟩ := hf.segments (a, seg) (hf.emitted hp)
    refine ⟨by rw [← hisn]; exact hat.seqno, hsyn, hat.slice.mono (List.take_prefix _ _), hshort, fun hf' => ?_⟩
    obtain ⟨heof, hnum⟩ := hlast hf'
    -- The FIN was sent at the end of the stream, and all of the input had been taken then.
    obtain ⟨hend, hall⟩ := hfin.eof heof
    have htaken : t.taken.length = t.input.length := by rw [hf.length_taken, hall]
    refine ⟨hend, ?_, ?_⟩
    · rw [← htaken]
      exact hat.fin hf'
    · simp only at hnum
      omega
  · by_cases hnil : t.firsts = []
    · obtain ⟨h1, h2, h3⟩ := hf.fresh hnil
      simp [hnil, h1, h2, h3, ByteStream.bytesRead, finSent]
    · rw [if_pos (hf.any_syn.mpr hnil)]
      exact hf.count hnil

/-- Three bytes in two segments, the second with the FIN, and one segment sent again. -/
def threeByteOps : List SenderOp :=
  [.write [97, 98, 99], .fillWindow, .ackReceived ⟨6⟩ 2, .endInput, .tick 1000, .ackReceived ⟨8⟩ 4]

theorem sent_pieces_three :
    ∃ t, run step (start 8 100 ⟨5⟩) threeByteOps = some t ∧ t.s.finSent = true ∧ t.resent ≠ [] ∧
      t.s.byteSent = seqLength t.firsts ∧
      t.s.byteSent = (if t.firsts.any (fun seg => seg.header.syn) then 1 else 0) + t.s.stream.bytesRead +
        (if t.s.finSent then 1 else 0) := by
  have hrun : ∃ t, run step (start 8 100 ⟨5⟩) threeByteOps = some t ∧ t.s.finSent = true ∧ t.resent ≠ [] := by
    decide +kernel
  obtain ⟨t, ht, hfin, hresent⟩ := hrun
  have hpieces := sent_pieces 8 100 ⟨5⟩ threeByteOps t (by decide +kernel) ht
  exact ⟨t, ht, hfin, hresent, hpieces.2.2.2⟩

end SenderTrace

end Sponge
