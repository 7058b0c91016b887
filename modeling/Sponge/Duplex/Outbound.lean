import Sponge.Connection.Flush
import Sponge.Connection.Moves
import Sponge.Sender.Emitted

/-!
# What a connection sends

Every segment that leaves a connection, the empty ones and the RST included, is a
piece of its outbound stream at the place that its number says.
-/

namespace Sponge

open Slice

namespace SenderTrace

open TCPSender

variable {t t' t₁ : SenderTrace} {op : SenderOp} {seg out : TCPSegment} {sent : List TCPSegment}

/-- The segment is a piece of what was taken from the stream. -/
def Piece (t : SenderTrace) (seg : TCPSegment) : Prop :=
  (∃ n, SegmentAt t.taken t.s.isn seg n) ∧ (seg.header.fin = true → t.s.eof = true)

theorem Piece.mono (h : Piece t seg) (hgrows : t.taken <+: t'.taken)
    (hlast : t.s.eof = true → t'.taken = t.taken ∧ t'.s.eof = true) (hisn : t'.s.isn = t.s.isn) : Piece t' seg := by
  obtain ⟨⟨n, hat⟩, hfin⟩ := h
  refine ⟨⟨n, ?_⟩, fun hf => (hlast (hfin hf)).2⟩
  rw [hisn]
  cases hf : seg.header.fin with
  | false => exact hat.mono hgrows hf
  | true =>
    rw [(hlast (hfin hf)).1]
    exact hat

theorem Piece.stamped (h : Piece t seg) (hout : TCPConnection.Stamped seg out) : Piece t out := by
  obtain ⟨⟨n, hat⟩, hfin⟩ := h
  rw [hout]
  exact ⟨⟨n, hat.seqno, hat.short, hat.syn, hat.body, hat.slice, hat.fin⟩, hfin⟩

theorem Faithful.piece_of_numbered {n : Nat} (h : Faithful t) (hseg : (n, seg) ∈ numbered 0 t.firsts) :
    Piece t seg := by
  obtain ⟨hat, -, -, hfin⟩ := h.segments (n, seg) hseg
  exact ⟨⟨n, hat⟩, fun hf => (hfin hf).1⟩

theorem Faithful.byteSent_le_taken (h : Faithful t) : t.s.byteSent ≤ t.taken.length + 2 := by
  rw [h.length_taken]
  by_cases hf : t.firsts = []
  · have := (h.fresh hf).1
    omega
  · rw [h.count hf]
    split_ifs <;> omega

theorem Faithful.piece_empty (h : Faithful t) : Piece t { header := { seqno := t.s.nextSeqno } } := by
  refine ⟨⟨t.s.byteSent, ?_⟩, by simp⟩
  exact ⟨rfl, h.byteSent_le_taken, by simp, by simp, isSlice_nil, by simp⟩

/-- What holds of the sender's queue and of the segments that were taken off it. -/
structure Spoken (t : SenderTrace) (sent : List TCPSegment) : Prop where
  faithful : Faithful t
  queue : ∀ seg ∈ t.s.segmentsOut, Piece t seg
  sent : ∀ seg ∈ sent, Piece t seg

theorem spoken_start (capacity : Nat) (retxTimeout : UInt16) (isn : WrappingInt32) :
    Spoken (start capacity retxTimeout isn) [] :=
  ⟨faithful_start capacity retxTimeout isn, by simp [start, TCPSender.new], by simp⟩

theorem isn_prep (hp : Prep t op t₁) : t₁.s.isn = t.s.isn := by
  cases hp with
  | acknowledge ackno w absAckNo hlo hhi habs =>
    obtain ⟨timer, heq⟩ := acknowledge_eq (t.windowed ackno w).s absAckNo
    rw [heq]
    rfl
  | _ => rfl

theorem Spoken.prep (h : Spoken t sent) (hp : Prep t op t₁) : Spoken t₁ sent := by
  have hfaithful := h.faithful.prep hp
  obtain ⟨htaken, heof⟩ := taken_prep h.faithful hp
  have hkeep : ∀ seg, Piece t seg → Piece t₁ seg := fun seg hseg =>
    hseg.mono (by rw [htaken]) (fun hend => ⟨htaken, heof.trans hend⟩) (isn_prep hp)
  refine ⟨hfaithful, ?_, fun seg hseg => hkeep seg (h.sent seg hseg)⟩
  intro seg hseg
  cases hp with
  | acknowledge ackno w absAckNo hlo hhi habs =>
    obtain ⟨timer, heq⟩ := acknowledge_eq (t.windowed ackno w).s absAckNo
    rw [heq] at hseg
    exact hkeep seg (h.queue seg hseg)
  | resend ms time retrans timer front rest hfront =>
    -- What is sent again is one of the first sendings.
    rcases List.mem_append.mp hseg with hseg | hseg
    · exact hkeep seg (h.queue seg hseg)
    · rw [List.mem_singleton.mp hseg]
      exact hfaithful.piece_of_numbered (hfaithful.resent _ (List.mem_append_right _ List.mem_cons_self))
  | sendEmptySegment =>
    rcases List.mem_append.mp hseg with hseg | hseg
    · exact hkeep seg (h.queue seg hseg)
    · rw [List.mem_singleton.mp hseg]
      exact hkeep _ h.faithful.piece_empty
  | _ => exact hkeep seg (h.queue seg hseg)

theorem Spoken.emit (h : Spoken t sent) (he : Emits t.s seg) : Spoken (t.emit seg) sent := by
  have hfaithful := h.faithful.emit he
  have hkeep : ∀ x, Piece t x → Piece (t.emit seg) x := by
    intro x hx
    refine hx.mono ?_ (fun hend => ?_) rfl
    · rw [h.faithful.taken_emit he]
      exact List.prefix_append _ _
    · rw [he.unended] at hend
      cases hend
  refine ⟨hfaithful, ?_, fun x hx => hkeep x (h.sent x hx)⟩
  intro x hx
  simp only [SenderTrace.emit, emit_segmentsOut] at hx
  rcases List.mem_append.mp hx with hx | hx
  · exact hkeep x (h.queue x hx)
  · rw [List.mem_singleton.mp hx]
    refine hfaithful.piece_of_numbered (n := 0 + seqLength t.firsts) ?_
    simp only [SenderTrace.emit, numbered_append, List.mem_append]
    exact Or.inr List.mem_cons_self

theorem Spoken.step (h : Spoken t sent) (hstep : SenderTrace.step t op = some t') : Spoken t' sent :=
  step_inv (fun _ hp => h.prep hp) (fun _ _ h he => h.emit he) hstep

theorem Spoken.requeued {segs : List TCPSegment} (h : Spoken t sent) (hsub : ∀ seg ∈ segs, seg ∈ t.s.segmentsOut) :
    Spoken (t.requeued segs) sent := by
  obtain ⟨⟨hwithin, hcontent, hfresh, hcount, hlength, hqueue, hresent, hsegments⟩, hq, hs⟩ := h
  exact ⟨⟨hwithin, hcontent, hfresh, hcount, hlength, hqueue, hresent, hsegments⟩, fun seg hseg => hq seg (hsub seg hseg), hs⟩

theorem Spoken.failed (h : Spoken t sent) : Spoken t.failed sent := by
  obtain ⟨⟨hwithin, hcontent, hfresh, hcount, hlength, hqueue, hresent, hsegments⟩, hq, hs⟩ := h
  exact ⟨⟨hwithin, hcontent, hfresh, hcount, hlength, hqueue, hresent, hsegments⟩, hq, hs⟩

theorem Spoken.append {segs : List TCPSegment} (h : Spoken t sent) (hsegs : ∀ seg ∈ segs, Piece t seg) :
    Spoken t (sent ++ segs) := by
  refine ⟨h.faithful, h.queue, fun seg hseg => ?_⟩
  rcases List.mem_append.mp hseg with hseg | hseg
  · exact h.sent seg hseg
  · exact hsegs seg hseg

end SenderTrace

namespace TCPConnection

open SenderTrace

variable {x y : Recorded} {op : Op} {c₀ : TCPConnection}

/-- The history is the sender's, and all that was sent are pieces of the stream. -/
structure Outbound (x : Recorded) : Prop where
  same : x.t.s = x.c.sender
  spoken : Spoken x.t x.c.segmentsOut

theorem Outbound.move (h : Outbound x) (hmove : Move op c₀ x y) : Outbound y := by
  obtain ⟨hsame, hspoken⟩ := h
  cases hmove with
  | call c t t' call hcall hstep => exact ⟨rfl, hspoken.step hstep⟩
  | out c t =>
    simp only at hsame hspoken
    refine ⟨by simp only [SenderTrace.requeued, hsame]; rfl, Spoken.requeued (hspoken.append ?_) (by simp)⟩
    intro out hout
    obtain ⟨seg, hseg, rfl⟩ := List.mem_map.mp hout
    rw [← hsame] at hseg
    exact (hspoken.queue seg hseg).stamped (receiverInfo_stamped c seg)
  | rst c t front rest hq =>
    simp only at hsame hspoken
    rw [← hsame] at hq
    refine ⟨by simp only [SenderTrace.requeued, hsame], Spoken.requeued (hspoken.append ?_) ?_⟩
    · intro out hout
      rw [List.mem_singleton.mp hout]
      have hfront := hspoken.queue front (by rw [hq]; exact List.mem_cons_self)
      -- Neither the receiver's fields nor the RST flag matter to a piece of the stream.
      refine (hfront.stamped (receiverInfo_stamped c front)).stamped ?_
      simp only [Stamped, rstOf]
    · intro seg hseg
      rw [hq]
      exact List.mem_cons_of_mem _ hseg
  | abort c t =>
    simp only at hsame hspoken
    exact ⟨by simp only [SenderTrace.failed, hsame]; rfl, hspoken.failed⟩
  | receive | read | note => exact ⟨hsame, hspoken⟩

theorem outbound_new (cfg : TCPConfig) (random : WrappingInt32) :
    Outbound ⟨new cfg random, SenderTrace.start cfg.sendCapacity cfg.rtTimeout (cfg.fixedIsn.getD random)⟩ :=
  ⟨rfl, spoken_start _ _ _⟩

end TCPConnection

end Sponge
