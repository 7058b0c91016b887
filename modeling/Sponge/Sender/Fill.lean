import Sponge.Sender.Idle

/-!
# What `fill_window` sends

`Fills s segs s'` follows the recursion: each call sends one segment of `segs`, and
the last one returns. What `fill_window` sends and leaves behind is read off it by
induction.
-/

namespace Sponge

open Word64

namespace TCPSender

inductive Fills : TCPSender → List TCPSegment → TCPSender → Prop where
  | stop {s : TCPSender} (h : s.fillStep = none) : Fills s [] s
  | next {s s' : TCPSender} {seg : TCPSegment} {segs : List TCPSegment} (hemits : Emits s seg)
      (hpacked : Packed s seg) (hrest : Fills (s.emit seg) segs s') : Fills s (seg :: segs) s'

variable {s s' : TCPSender} {segs : List TCPSegment}

theorem fills_fillWindow (s : TCPSender) : ∃ segs, Fills s segs s.fillWindow := by
  induction hn : s.fillBound using Nat.strong_induction_on generalizing s with
  | _ n ih =>
    rw [fillWindow_eq]
    cases hstep : s.fillStep with
    | none => exact ⟨[], .stop hstep⟩
    | some s' =>
      obtain ⟨seg, hemits, hpacked, rfl⟩ := fillStep_spec hstep
      obtain ⟨segs, hrest⟩ := ih _ (by rw [← hn]; exact hemits.fillBound_lt) (s.emit seg) rfl
      exact ⟨seg :: segs, .next hemits hpacked hrest⟩

theorem idle_of_fillStep (h : s.fillStep = none) : s.Idle := by
  by_contra hidle
  unfold Idle at hidle
  push Not at hidle
  obtain ⟨heof, hroom, hwaits⟩ := hidle
  have hlt := s.window_lt
  have hsize : TCPSegment.lengthInSequenceSpace { header := { syn := s.byteSent == 0 } } =
      if s.byteSent == 0 then 1 else 0 := by simp [TCPSegment.lengthInSequenceSpace]
  have hle : (if s.byteSent == 0 then 1 else 0) ≤ 1 := by split_ifs <;> omega
  unfold fillStep at h
  rw [if_neg heof] at h
  simp only [hsize] at h
  generalize hq : (if s.byteSent == 0 then 1 else 0) = q at h hle
  rw [add64_eq (by omega), if_neg (by omega)] at h
  split_ifs at h with hnothing
  -- The call returned although the SYN, a byte or the FIN is due.
  rw [payloadSize_eq (by omega)] at hnothing
  simp only [TCPConfig.maxPayloadSize, Bool.and_eq_true, beq_iff_eq, Nat.add_eq_zero_iff] at hnothing
  obtain ⟨heofs, hsyn, hbytes⟩ := hnothing
  have hsent : s.byteSent ≠ 0 := by
    intro h0
    simp only [h0, beq_self_eq_true, if_true] at hq
    omega
  have hempty : s.stream.content = [] := List.eq_nil_of_length_eq_zero (by omega)
  have hended := hwaits hsent hempty
  simp [ByteStream.eof, ByteStream.bufferEmpty, hempty, hended] at heofs

theorem Fills.idle (h : Fills s segs s') : s'.Idle := by
  induction h with
  | stop h => exact idle_of_fillStep h
  | next _ _ _ ih => exact ih

theorem Fills.segmentsOut (h : Fills s segs s') : s'.segmentsOut = s.segmentsOut ++ segs := by
  induction h with
  | stop => simp
  | next _ _ _ ih =>
    rw [ih, emit_segmentsOut, List.append_assoc]
    rfl

theorem Fills.byteSent (h : Fills s segs s') : s'.byteSent = s.byteSent + seqLength segs := by
  induction h with
  | stop => simp
  | next _ _ _ ih =>
    rw [ih, emit_byteSent, seqLength_cons, Nat.add_assoc]

theorem Fills.window (h : Fills s segs s') : s'.window = s.window := by
  induction h with
  | stop => rfl
  | next _ _ _ ih =>
    rw [ih]
    rfl

theorem Fills.bytesInFlight_le (h : Fills s segs s') : s'.bytesInFlight ≤ max s.bytesInFlight s.window := by
  induction h with
  | stop => exact Nat.le_max_left _ _
  | @next s s' seg segs hemits _ _ ih =>
    have hfits := hemits.fits
    have hwin : (s.emit seg).window = s.window := rfl
    rw [hemits.bytesInFlight_emit, hwin] at ih
    omega

theorem Fills.numbered (h : Fills s segs s') :
    ∀ p ∈ numbered s.byteSent segs, p.2.header.seqno = wrap p.1 s.isn ∧ 0 < p.2.lengthInSequenceSpace := by
  induction h with
  | stop => simp
  | next hemits _ _ ih =>
    rintro p hp
    rw [numbered_cons] at hp
    rcases List.mem_cons.mp hp with rfl | hp
    · exact ⟨hemits.seqno, hemits.nonempty⟩
    · exact ih p hp

theorem Fills.packed (h : Fills s segs s') :
    ∀ before seg after, segs = before ++ seg :: after →
      seg.payload.length = TCPConfig.maxPayloadSize ∨
      seg.payload = s.stream.content.drop (before.flatMap TCPSegment.payload).length ∨
      s.bytesInFlight + seqLength before + (if seg.header.syn then 1 else 0) + seg.payload.length = s.window := by
  induction h with
  | stop => simp
  | @next s s' first segs hemits hpacked _ ih =>
    intro before seg after hsplit
    cases before with
    | nil =>
      obtain ⟨rfl, -⟩ := List.cons.inj hsplit
      -- A segment ends at the largest payload, at the end of the stream or at the edge of the window.
      rcases hpacked with hmax | hall | hfull
      · exact Or.inl hmax
      · right
        left
        have htake := hemits.payload
        rw [hall, List.take_length] at htake
        simpa using htake
      · right
        right
        simpa using hfull
    | cons b before =>
      obtain ⟨rfl, hrest⟩ := List.cons.inj hsplit
      have hwin : (s.emit first).window = s.window := rfl
      have hcontent : (s.emit first).stream.content = s.stream.content.drop first.payload.length := by
        rw [hemits.stream_eq]
      have hseg := ih before seg after hrest
      rw [hemits.bytesInFlight_emit, hwin, hcontent, List.drop_drop] at hseg
      rw [List.flatMap_cons, List.length_append, seqLength_cons, ← Nat.add_assoc s.bytesInFlight]
      exact hseg

/-- `fill_window` ends, fills the window, and does not overfill it. -/
theorem fillWindow_fills (s : TCPSender) :
    (∀ n, s.fillBound ≤ n → fillLoop n s = s.fillWindow) ∧ s.fillWindow.fillStep = none ∧
      s.fillWindow.bytesInFlight ≤ max s.bytesInFlight (max s.windowSize.toNat 1) ∧
      (s.fillWindow.finSent = true ∨ max s.windowSize.toNat 1 ≤ s.fillWindow.bytesInFlight ∨
        (s.fillWindow.nextSeqnoAbsolute ≠ 0 ∧ s.fillWindow.stream.bufferEmpty = true ∧
          s.fillWindow.stream.inputEnded = false)) ∧
      ∃ segs, s.fillWindow.segmentsOut = s.segmentsOut ++ segs ∧
        s.fillWindow.nextSeqnoAbsolute = s.nextSeqnoAbsolute + seqLength segs ∧
        (∀ a seg, (a, seg) ∈ Sponge.numbered s.nextSeqnoAbsolute segs →
          seg.header.seqno = wrap a s.isn ∧ 0 < seg.lengthInSequenceSpace) ∧
        ∀ before seg after, segs = before ++ seg :: after →
          seg.payload.length = TCPConfig.maxPayloadSize ∨
          seg.payload = s.stream.content.drop (before.flatMap TCPSegment.payload).length ∨
          s.bytesInFlight + seqLength before + (if seg.header.syn then 1 else 0) + seg.payload.length =
            max s.windowSize.toNat 1 := by
  obtain ⟨segs, h⟩ := fills_fillWindow s
  have hidle := h.idle
  rw [← window_eq]
  refine ⟨fun n hn => fillLoop_congr hn (Nat.le_refl _), fillStep_of_idle hidle, h.bytesInFlight_le, ?_,
    segs, h.segmentsOut, h.byteSent, fun a seg hmem => h.numbered (a, seg) hmem, h.packed⟩
  unfold Idle at hidle
  rw [h.window] at hidle
  rcases hidle with heof | hfull | ⟨hsent, hempty, hopen⟩
  · exact Or.inl heof
  · exact Or.inr (Or.inl hfull)
  · exact Or.inr (Or.inr ⟨hsent, by simp [ByteStream.bufferEmpty, hempty], hopen⟩)

end TCPSender

end Sponge
