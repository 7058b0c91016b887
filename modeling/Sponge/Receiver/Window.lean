import Sponge.Reassembler.Eof
import Sponge.Reassembler.Frame
import Sponge.Reassembler.Window
import Sponge.Receiver.Ackno

/-!
# Segments outside the window

`segment_received` finds out whether a segment lies in the window, but gives its
payload to the reassembler in any case. What lies outside has no effect when the
reassembler has no use for it: old bytes, and bytes that are already stored or lie
past the capacity. As long as no block lies past the window, this is exactly when.
-/

namespace Sponge

open Word64 Slice Spans StreamReassembler Run Inforsubstr

namespace TCPReceiver

/-- The verdict of `segment_received` once the SYN has come. -/
def inWindow (r : TCPReceiver) (seg : TCPSegment) : Bool :=
  let checkpoint := r.streamOut.bytesWritten
  let winSize := if r.windowSize = 0 then 1 else r.windowSize
  let length := if seg.payload.length = 0 then 1 else seg.payload.length
  let winBegin := unwrap (r.ackno.getD r.isn) r.isn checkpoint
  let left := unwrap seg.header.seqno r.isn checkpoint
  decide (winBegin < add64 left length) && decide (left < add64 winBegin winSize)

variable {r r' : TCPReceiver} {seg : TCPSegment} {inside : Bool} {capacity : Nat}

theorem segmentReceived_of_isnset {ra : StreamReassembler} (hset : r.isnset = true)
    (hpush : r.reassembler.pushSubstring seg.payload (r.streamIndex seg) seg.header.fin = some ra) :
    r.segmentReceived seg =
      some ({ r with reassembler := ra, finset := seg.header.fin || r.finset }, r.inWindow seg) := by
  unfold segmentReceived inWindow
  obtain ⟨a, hack⟩ : ∃ a, r.ackno = some a := by simp [ackno, hset]
  simp only [hset, hack, hpush, Option.getD_some, Bool.not_true, Bool.false_eq_true, if_false, Option.some.injEq,
    Prod.mk.injEq, and_true]
  cases seg.header.fin <;> cases r.finset <;> simp

theorem segmentReceived_verdict (hset : r.isnset = true) (h : r.segmentReceived seg = some (r', inside)) :
    inside = r.inWindow seg := by
  rcases segmentReceived_cases h with ⟨hunset, -, -⟩ | ⟨-, ra, hpush, -⟩
  · simp [hset] at hunset
  · rw [segmentReceived_of_isnset hset hpush] at h
    exact (congrArg Prod.snd (Option.some.inj h)).symm

/-! ## Numbers -/

/-- The number that `ackno` stands for. -/
def absAckno (r : TCPReceiver) : Nat :=
  1 + r.streamOut.bytesWritten + (if r.finset && r.unassembledBytes == 0 then 1 else 0)

/-- The number of the first thing in the segment. -/
def absSeqno (r : TCPReceiver) (seg : TCPSegment) : Nat :=
  unwrap seg.header.seqno r.isn r.streamOut.bytesWritten

/-- Every number that the segment takes up is old, or every one is past the window. -/
def Outside (r : TCPReceiver) (seg : TCPSegment) : Prop :=
  (∀ i < seg.lengthInSequenceSpace, r.absSeqno seg + i < r.absAckno) ∨
    ∀ i < seg.lengthInSequenceSpace, r.absAckno + r.windowSize ≤ r.absSeqno seg + i

instance (r : TCPReceiver) (seg : TCPSegment) : Decidable (Outside r seg) :=
  inferInstanceAs (Decidable (_ ∨ _))

theorem ackno_congr (hset : r'.isnset = r.isnset) (hisn : r'.isn = r.isn) (hout : r'.streamOut = r.streamOut)
    (hend : (r'.finset && r'.unassembledBytes == 0) = (r.finset && r.unassembledBytes == 0)) :
    r'.ackno = r.ackno := by
  unfold ackno
  rw [hset, hisn, hout, hend]

/-- The number of the first payload byte. -/
def payloadSeqno (r : TCPReceiver) (seg : TCPSegment) : Nat :=
  r.absSeqno seg + (if seg.header.syn then 1 else 0)

/-- The place of the first payload byte in the stream, where number 1 is place 0. -/
def payloadIndex (r : TCPReceiver) (seg : TCPSegment) : Nat := sub64 (r.payloadSeqno seg) 1

theorem streamIndex_of_isnset (hset : r.isnset = true) : r.streamIndex seg = r.payloadIndex seg := by
  have := unwrap_lt seg.header.seqno r.isn r.streamOut.bytesWritten
  unfold streamIndex payloadIndex payloadSeqno absSeqno
  cases seg.header.syn with
  | true =>
    simp only [hset, if_true]
    rw [sub64_eq_sub (by omega) (by omega)]
    omega
  | false => simp only [hset, if_true, Bool.false_eq_true, if_false, Nat.add_zero]

theorem lengthInSequenceSpace_eq (seg : TCPSegment) :
    seg.lengthInSequenceSpace =
      (if seg.header.syn then 1 else 0) + seg.payload.length + (if seg.header.fin then 1 else 0) := by
  unfold TCPSegment.lengthInSequenceSpace
  omega

/-! ## What a segment outside the window must leave alone -/

/-- Neither the end of the window nor that of the payload is past the range of 64 bits. -/
def InRange (r : TCPReceiver) (seg : TCPSegment) : Prop :=
  r.reassembler.firstindex + r.reassembler.capacity + seg.payload.length < 2 ^ 64 ∧
    r.payloadSeqno seg + seg.payload.length ≤ 2 ^ 64

instance (r : TCPReceiver) (seg : TCPSegment) : Decidable (InRange r seg) :=
  inferInstanceAs (Decidable (_ ∧ _))

/-- With capacity 0 the next byte is thrown away, which cannot be seen once the end is marked. -/
def Idle (r : TCPReceiver) (seg : TCPSegment) : Prop :=
  r.reassembler.Tidy ∧ r.InRange seg ∧ r.reassembler.capacity = 0 ∧ 1 ≤ r.payloadSeqno seg ∧
    r.streamOut.inputEnded = true

instance (r : TCPReceiver) (seg : TCPSegment) : Decidable (Idle r seg) :=
  inferInstanceAs (Decidable (_ ∧ _))

/-- Old data: a lone byte at the ISN counts as the last place of the range, and a byte at the number of
the FIN is written. -/
structure HarmlessEarly (r : TCPReceiver) (seg : TCPSegment) : Prop where
  aligned : r.streamOut.bytesWritten = r.reassembler.firstindex
  notIsn : 2 ≤ r.payloadSeqno seg + seg.payload.length
  notFin : r.finset = true → r.unassembledBytes = 0 →
    r.payloadSeqno seg + seg.payload.length ≤ 1 + r.streamOut.bytesWritten ∨ r.Idle seg

/-- Late data: the reassembler keeps what lies below its capacity, and all of what begins past it; and
any data makes it write what waits at the front, or with capacity 0 look for the end. -/
structure HarmlessLate (r : TCPReceiver) (seg : TCPSegment) : Prop where
  tidy : r.reassembler.Tidy
  range : r.reassembler.firstindex + r.reassembler.capacity + seg.payload.length < 2 ^ 64
  begins : r.payloadSeqno seg ≤ 1 + r.reassembler.firstindex + r.reassembler.capacity
  held : ∀ i < seg.payload.length,
    r.payloadSeqno seg + i < 1 + r.reassembler.firstindex + r.reassembler.capacity →
      Covers first stop r.reassembler.storelist (r.payloadSeqno seg + i - 1)
  blocked : Covers first stop r.reassembler.storelist r.reassembler.firstindex → r.windowSize = 0
  idle : r.reassembler.capacity = 0 → seg.header.fin = true ∨ r.finset = true → r.streamOut.inputEnded = true

/-- The segment brings nothing that the code acts on. Its FIN is known, or bytes still wait; and an
empty payload does not stand at the end. -/
structure Harmless (r : TCPReceiver) (seg : TCPSegment) : Prop where
  fin : seg.header.fin = true → r.finset = true ∨ r.unassembledBytes ≠ 0
  empty : seg.payload = [] → seg.header.fin = true ∨ r.finset = true →
    r.payloadIndex seg = r.reassembler.firstindex → r.streamOut.inputEnded = true
  early : seg.payload ≠ [] → r.absSeqno seg < r.absAckno → HarmlessEarly r seg
  late : seg.payload ≠ [] → r.absAckno ≤ r.absSeqno seg → HarmlessLate r seg

instance (r : TCPReceiver) (seg : TCPSegment) : Decidable (HarmlessEarly r seg) :=
  decidable_of_iff
    (r.streamOut.bytesWritten = r.reassembler.firstindex ∧ 2 ≤ r.payloadSeqno seg + seg.payload.length ∧
      (r.finset = true → r.unassembledBytes = 0 →
        r.payloadSeqno seg + seg.payload.length ≤ 1 + r.streamOut.bytesWritten ∨ r.Idle seg))
    ⟨fun ⟨h1, h2, h3⟩ => ⟨h1, h2, h3⟩, fun h => ⟨h.aligned, h.notIsn, h.notFin⟩⟩

instance (r : TCPReceiver) (seg : TCPSegment) : Decidable (HarmlessLate r seg) :=
  decidable_of_iff
    (r.reassembler.Tidy ∧ r.reassembler.firstindex + r.reassembler.capacity + seg.payload.length < 2 ^ 64 ∧
      r.payloadSeqno seg ≤ 1 + r.reassembler.firstindex + r.reassembler.capacity ∧
      (∀ i < seg.payload.length,
        r.payloadSeqno seg + i < 1 + r.reassembler.firstindex + r.reassembler.capacity →
          Covers first stop r.reassembler.storelist (r.payloadSeqno seg + i - 1)) ∧
      (Covers first stop r.reassembler.storelist r.reassembler.firstindex → r.windowSize = 0) ∧
      (r.reassembler.capacity = 0 → seg.header.fin = true ∨ r.finset = true → r.streamOut.inputEnded = true))
    ⟨fun ⟨h1, h2, h3, h4, h5, h6⟩ => ⟨h1, h2, h3, h4, h5, h6⟩,
      fun h => ⟨h.tidy, h.range, h.begins, h.held, h.blocked, h.idle⟩⟩

instance (r : TCPReceiver) (seg : TCPSegment) : Decidable (Harmless r seg) :=
  decidable_of_iff
    ((seg.header.fin = true → r.finset = true ∨ r.unassembledBytes ≠ 0) ∧
      (seg.payload = [] → seg.header.fin = true ∨ r.finset = true →
        r.payloadIndex seg = r.reassembler.firstindex → r.streamOut.inputEnded = true) ∧
      (seg.payload ≠ [] → r.absSeqno seg < r.absAckno → HarmlessEarly r seg) ∧
      (seg.payload ≠ [] → r.absAckno ≤ r.absSeqno seg → HarmlessLate r seg))
    ⟨fun ⟨h1, h2, h3, h4⟩ => ⟨h1, h2, h3, h4⟩, fun h => ⟨h.fin, h.empty, h.early, h.late⟩⟩

/-- Nothing that can be seen changes with the segment. -/
def Unchanged (r : TCPReceiver) (seg : TCPSegment) : Prop :=
  ∃ r' inside, r.segmentReceived seg = some (r', inside) ∧ r'.streamOut = r.streamOut ∧
    r'.unassembledBytes = r.unassembledBytes ∧ r'.ackno = r.ackno ∧ r'.windowSize = r.windowSize

/-- What every call keeps. -/
structure Marks (r : TCPReceiver) : Prop where
  fin : r.finset = r.reassembler.checkeof
  fresh : r.isnset = false → r.finset = false
  range : r.reassembler.firstindex < 2 ^ 64

theorem marks_new (capacity : Nat) : (new capacity).Marks :=
  ⟨rfl, fun _ => rfl, Nat.two_pow_pos 64⟩

theorem Marks.step (r : TCPReceiver) (op : Op) (r' : TCPReceiver) (h : r.Marks) (hstep : step r op = some r') :
    r'.Marks := by
  cases op with
  | segment seg =>
    obtain ⟨inside, hrec⟩ := step_segment hstep
    rcases segmentReceived_cases hrec with ⟨-, -, rfl⟩ | ⟨-, ra, hpush, rfl⟩
    · exact h
    refine ⟨?_, by simp, pushSubstring_firstindex_lt h.range hpush⟩
    rw [pushSubstring_checkeof hpush, ← h.fin]
    cases hr : r.isnset with
    | true => simp
    | false => simp [h.fresh hr]
  | read len =>
    cases hstep
    exact ⟨h.fin, h.fresh, h.range⟩

theorem unchanged_iff (hset : r.isnset = true) :
    Unchanged r seg ↔ Quiet r.reassembler seg.payload (r.payloadIndex seg) seg.header.fin ∧
      (seg.header.fin = true → r.finset = true ∨ r.unassembledBytes ≠ 0) := by
  constructor
  · rintro ⟨r', inside, hrec, hout, hbytes, hack, -⟩
    rcases segmentReceived_cases hrec with ⟨hunset, -, -⟩ | ⟨-, ra, hpush, -⟩
    · simp [hset] at hunset
    rw [segmentReceived_of_isnset hset hpush] at hrec
    obtain ⟨rfl, -⟩ := Prod.mk.inj (Option.some.inj hrec)
    rw [streamIndex_of_isnset hset] at hpush
    refine ⟨⟨ra, hpush, hout, hbytes⟩, fun hfin => ?_⟩
    -- A first FIN with nothing left to assemble would move the ackno past it.
    by_contra hnew
    rw [not_or, not_not] at hnew
    have hzero : ra.unassembledBytes = 0 := hbytes.trans hnew.2
    have hwritten : ra.output.bytesWritten = r.streamOut.bytesWritten := congrArg ByteStream.bytesWritten hout
    simp only [ackno, hset, if_true, hfin, Bool.true_or, streamOut, unassembledBytes, hzero, beq_self_eq_true,
      Bool.and_self, hnew.1, Bool.false_and, Bool.false_eq_true, if_false, Nat.add_zero, Option.some.injEq,
      wrap_eq_iff] at hack
    simp only [streamOut] at hwritten
    omega
  · rintro ⟨⟨ra, hpush, hout, hbytes⟩, hfin⟩
    rw [← streamIndex_of_isnset hset] at hpush
    refine ⟨_, _, segmentReceived_of_isnset hset hpush, hout, hbytes, ?_, ?_⟩
    · refine ackno_congr rfl rfl hout ?_
      simp only [unassembledBytes, hbytes]
      rw [Bool.eq_iff_iff]
      simp only [Bool.and_eq_true, Bool.or_eq_true, beq_iff_eq]
      constructor
      · rintro ⟨hf | hf, hz⟩
        · exact ⟨(hfin hf).resolve_right (fun hn => hn hz), hz⟩
        · exact ⟨hf, hz⟩
      · rintro ⟨hf, hz⟩
        exact ⟨Or.inr hf, hz⟩
    · simp only [windowSize, streamOut, hout]

theorem space_pos (hne : seg.payload ≠ []) : 0 < seg.lengthInSequenceSpace := by
  have := List.length_pos_of_ne_nil hne
  rw [lengthInSequenceSpace_eq]
  omega

theorem payload_le_absAckno (hne : seg.payload ≠ [])
    (hold : ∀ i < seg.lengthInSequenceSpace, r.absSeqno seg + i < r.absAckno) :
    r.payloadSeqno seg + seg.payload.length ≤ r.absAckno := by
  have hspace := space_pos hne
  have hlast := hold (seg.lengthInSequenceSpace - 1) (by omega)
  rw [payloadSeqno]
  rw [lengthInSequenceSpace_eq] at hlast
  omega

theorem absAckno_eq (h : ¬ (r.finset = true ∧ r.unassembledBytes = 0)) :
    r.absAckno = 1 + r.streamOut.bytesWritten := by
  rw [absAckno, if_neg (by simpa only [Bool.and_eq_true, beq_iff_eq] using h), Nat.add_zero]

theorem absAckno_bounds (r : TCPReceiver) :
    1 + r.streamOut.bytesWritten ≤ r.absAckno ∧ r.absAckno ≤ 2 + r.streamOut.bytesWritten := by
  unfold absAckno
  split_ifs <;> omega

theorem payloadIndex_eq (hpos : 1 ≤ r.payloadSeqno seg) (hlt : r.payloadSeqno seg ≤ 2 ^ 64) :
    r.payloadIndex seg = r.payloadSeqno seg - 1 := by
  rw [payloadIndex, sub64_eq_sub hpos (by omega)]

theorem late_pos (htidy : r.reassembler.Tidy) (hlate : r.absAckno ≤ r.absSeqno seg) :
    1 + r.reassembler.firstindex ≤ r.payloadSeqno seg := by
  have haligned : r.streamOut.bytesWritten = r.reassembler.firstindex := htidy.store.aligned.symm
  have hack := (absAckno_bounds r).1
  rw [payloadSeqno]
  omega

theorem HarmlessEarly.quiet (h : HarmlessEarly r seg) (hm : r.Marks) (hne : seg.payload ≠ [])
    (hold : ∀ i < seg.lengthInSequenceSpace, r.absSeqno seg + i < r.absAckno) :
    Quiet r.reassembler seg.payload (r.payloadIndex seg) seg.header.fin := by
  obtain ⟨hF, hisn, hend⟩ := h
  have hlen := List.length_pos_of_ne_nil hne
  have hle := payload_le_absAckno hne hold
  have hack := absAckno_bounds r
  have hF64 := hm.range
  by_cases hbefore : r.payloadSeqno seg + seg.payload.length ≤ 1 + r.reassembler.firstindex
  · refine ⟨_, pushSubstring_old hne ?_, rfl, rfl⟩
    unfold payloadIndex add64 sub64
    omega
  -- The last byte is at the number of the FIN.
  by_cases he : r.finset = true ∧ r.unassembledBytes = 0
  · obtain ⟨htidy, hrange, hcap, hpos, hended⟩ := (hend he.1 he.2).resolve_left (by omega)
    have hsum := hrange.2
    have hindex := payloadIndex_eq hpos (by omega)
    exact (htidy.quiet_iff_of_capacity_zero hcap hne (by omega) (by omega) (by omega)).mpr fun _ => hended
  · rw [absAckno_eq he] at hle
    omega

theorem HarmlessLate.quiet (h : HarmlessLate r seg) (hm : r.Marks) (hne : seg.payload ≠ [])
    (hlate : r.absAckno ≤ r.absSeqno seg) :
    Quiet r.reassembler seg.payload (r.payloadIndex seg) seg.header.fin := by
  obtain ⟨htidy, hrange, hbegin, hheld, hblocked, hidle⟩ := h
  have hlen := List.length_pos_of_ne_nil hne
  have hpos := late_pos htidy hlate
  have hindex : r.payloadIndex seg = r.payloadSeqno seg - 1 := payloadIndex_eq (by omega) (by omega)
  rcases Nat.eq_zero_or_pos r.reassembler.capacity with hcap | hcap
  · refine (htidy.quiet_iff_of_capacity_zero hcap hne (by omega) (by omega) (by omega)).mpr ?_
    rw [← hm.fin]
    exact hidle hcap
  refine (htidy.quiet_iff hcap seg.header.fin hne (by omega) (by omega) hrange).mpr ⟨?_, hblocked⟩
  intro i h1 h2 h3 h4
  have hi := hheld (i - r.payloadIndex seg) (by omega) (by omega)
  rwa [show r.payloadSeqno seg + (i - r.payloadIndex seg) - 1 = i by omega] at hi

theorem Harmless.quiet (h : Harmless r seg) (hm : r.Marks) (hout : Outside r seg) :
    Quiet r.reassembler seg.payload (r.payloadIndex seg) seg.header.fin := by
  by_cases hne : seg.payload = []
  · rw [hne, quiet_nil_iff, ← hm.fin]
    exact h.empty hne
  have hspace := space_pos hne
  -- The first number the segment takes up tells on which side of the window all of it is.
  rcases hout with hold | hlate
  · exact (h.early hne (by simpa using hold 0 hspace)).quiet hm hne hold
  · have hle : r.absAckno ≤ r.absSeqno seg := by
      have := hlate 0 hspace
      omega
    exact (h.late hne hle).quiet hm hne hle

/-! ## Nothing else is harmless -/

theorem not_quiet_isn (htidy : r.reassembler.Tidy) (hrange : r.InRange seg) (hne : seg.payload ≠ [])
    (hseq : r.payloadSeqno seg = 0)
    (hlast : seg.payload.length = 1 ∨ r.reassembler.firstindex + 1 < seg.payload.length) :
    ¬ Quiet r.reassembler seg.payload (r.payloadIndex seg) seg.header.fin := by
  have hlen := List.length_pos_of_ne_nil hne
  have hsum := hrange.1
  have hindex : r.payloadIndex seg = 2 ^ 64 - 1 := by
    rw [payloadIndex, hseq]
    rfl
  apply htidy.not_quiet_behind seg.header.fin hne
  · rw [hindex]
    unfold add64 sub64
    omega
  all_goals omega

theorem not_covers_of_unassembledBytes (hs : r.reassembler.Store) (h : r.unassembledBytes = 0) (i : Nat) :
    ¬ Covers first stop r.reassembler.storelist i := by
  intro hi
  have hcard := hs.unassembledBytes_ncard
  rw [show r.reassembler.unassembledBytes = 0 from h, eq_comm, Set.ncard_eq_zero (covers_finite _)] at hcard
  exact (Set.eq_empty_iff_forall_notMem.mp hcard) i hi

theorem harmlessEarly_of_quiet (hm : r.Marks) (htidy : r.reassembler.Tidy) (hrange : r.InRange seg)
    (hne : seg.payload ≠ []) (hold : ∀ i < seg.lengthInSequenceSpace, r.absSeqno seg + i < r.absAckno)
    (hquiet : Quiet r.reassembler seg.payload (r.payloadIndex seg) seg.header.fin) : HarmlessEarly r seg := by
  have hlen := List.length_pos_of_ne_nil hne
  have haligned : r.streamOut.bytesWritten = r.reassembler.firstindex := htidy.store.aligned.symm
  have hsum := hrange
  unfold InRange at hsum
  refine ⟨haligned, ?_, fun hfin hzero => ?_⟩
  · by_contra hisn
    exact not_quiet_isn htidy hrange hne (by omega) (by omega) hquiet
  have hle := payload_le_absAckno hne hold
  have hack := absAckno_bounds r
  by_contra hnot
  rw [not_or] at hnot
  -- The payload begins at the ISN, or its last byte is the next one of the stream.
  rcases Nat.eq_zero_or_pos (r.payloadSeqno seg) with hseq | hpos
  · exact not_quiet_isn htidy hrange hne hseq (by omega) hquiet
  have hindex : r.payloadIndex seg = r.payloadSeqno seg - 1 := payloadIndex_eq hpos (by omega)
  rcases Nat.eq_zero_or_pos r.reassembler.capacity with hcap | hcap
  · have hended := (htidy.quiet_iff_of_capacity_zero hcap hne (by omega) (by omega) (by omega)).mp hquiet
    exact hnot.2 ⟨htidy, hrange, hcap, hpos, hended (Or.inr (hm.fin ▸ hfin))⟩
  · have hheld := ((htidy.quiet_iff hcap seg.header.fin hne (by omega) (by omega) hsum.1).mp hquiet).1
    exact not_covers_of_unassembledBytes htidy.store hzero r.reassembler.firstindex
      (hheld _ (by omega) (by omega) le_rfl (by omega))

theorem harmlessLate_of_quiet (hm : r.Marks) (htidy : r.reassembler.Tidy) (hrange : r.InRange seg)
    (hne : seg.payload ≠ []) (hlate : r.absAckno ≤ r.absSeqno seg)
    (hquiet : Quiet r.reassembler seg.payload (r.payloadIndex seg) seg.header.fin) : HarmlessLate r seg := by
  have hlen := List.length_pos_of_ne_nil hne
  have hpos := late_pos htidy hlate
  have hsum := hrange
  unfold InRange at hsum
  have hindex : r.payloadIndex seg = r.payloadSeqno seg - 1 := payloadIndex_eq (by omega) (by omega)
  have hbegin : r.payloadSeqno seg ≤ 1 + r.reassembler.firstindex + r.reassembler.capacity := by
    -- Data that begins behind the window is stored as a stray block, and counted.
    by_contra hbehind
    refine htidy.not_quiet_behind seg.header.fin hne ?_ (by omega) (by omega) (by omega) hquiet
    rw [add64_eq (by omega), sub64_eq_sub (by omega) (by omega)]
    omega
  rcases Nat.eq_zero_or_pos r.reassembler.capacity with hcap | hcap
  · refine ⟨htidy, hsum.1, hbegin, fun i _ hi => by omega, ?_, fun _ => ?_⟩
    · rw [htidy.storelist_eq_nil hcap]
      rintro ⟨b, hb, -⟩
      exact absurd hb List.not_mem_nil
    · rw [hm.fin]
      exact (htidy.quiet_iff_of_capacity_zero hcap hne (by omega) (by omega) (by omega)).mp hquiet
  · obtain ⟨hheld, hblocked⟩ := (htidy.quiet_iff hcap seg.header.fin hne (by omega) (by omega) hsum.1).mp hquiet
    refine ⟨htidy, hsum.1, hbegin, fun i hi hlt => ?_, hblocked, fun hzero => by omega⟩
    exact hheld _ (by omega) (by omega) (by omega) (by omega)

theorem harmless_of_quiet (hm : r.Marks) (htidy : r.reassembler.Tidy) (hrange : r.InRange seg)
    (hout : Outside r seg) (hfin : seg.header.fin = true → r.finset = true ∨ r.unassembledBytes ≠ 0)
    (hquiet : Quiet r.reassembler seg.payload (r.payloadIndex seg) seg.header.fin) : Harmless r seg := by
  refine ⟨hfin, fun hnil => ?_, fun hne hlt => ?_, fun hne hle => ?_⟩
  · rw [hnil, quiet_nil_iff, ← hm.fin] at hquiet
    exact hquiet
  · refine harmlessEarly_of_quiet hm htidy hrange hne (hout.resolve_right fun hlate => ?_) hquiet
    have := hlate 0 (space_pos hne)
    omega
  · exact harmlessLate_of_quiet hm htidy hrange hne hle hquiet

def isnByte : TCPSegment := { header := { seqno := ⟨0⟩ }, payload := [97] }

/-- A data byte at the ISN is counted as unassembled. -/
theorem byte_at_isn_is_stored :
    ∃ r r' inside, run step (new 8) [.segment (synSegment ⟨0⟩)] = some r ∧ r.isnset = true ∧
      Outside r isnByte ∧ r.segmentReceived isnByte = some (r', inside) ∧
      r.unassembledBytes = 0 ∧ r'.unassembledBytes = 1 :=
  ⟨_, _, _, rfl, rfl, by decide, rfl, rfl, rfl⟩

/-- In every state after the SYN, a segment outside the window that is harmless changes nothing that
can be seen; and while no block lies past the window, no other segment outside it does so. -/
theorem outside_unchanged (capacity : Nat) (ops : List Op) (r : TCPReceiver) (seg : TCPSegment)
    (h : run step (new capacity) ops = some r) (hset : r.isnset = true) (hout : Outside r seg) :
    (Harmless r seg → Unchanged r seg) ∧
      (r.reassembler.Tidy → r.InRange seg → Unchanged r seg → Harmless r seg) := by
  have hm : r.Marks := run_inv Marks.step (marks_new capacity) h
  rw [unchanged_iff hset]
  refine ⟨fun hharm => ⟨hharm.quiet hm hout, hharm.fin⟩, ?_⟩
  rintro htidy hrange ⟨hquiet, hfin⟩
  exact harmless_of_quiet hm htidy hrange hout hfin hquiet

/-- The first byte is read and the third one waits. -/
def waitingOps : List Op :=
  [.segment (synSegment ⟨0⟩), .segment { header := { seqno := ⟨1⟩ }, payload := [97] }, .read 1,
    .segment { header := { seqno := ⟨3⟩ }, payload := [99] }]

/-- The segment that starts right after the window. -/
def lateSegment : TCPSegment := { header := { seqno := ⟨10⟩ }, payload := [120, 121] }

/-- The one that starts a number later is kept. -/
def laterSegment : TCPSegment := { header := { seqno := ⟨11⟩ }, payload := [120, 121] }

theorem outside_unchanged_late :
    ∃ r r' inside, run step (new 8) waitingOps = some r ∧ Outside r lateSegment ∧
      r.segmentReceived lateSegment = some (r', inside) ∧ r'.unassembledBytes = 1 ∧ r'.ackno = some ⟨2⟩ ∧
      Outside r laterSegment ∧ ¬ Unchanged r laterSegment := by
  have hrun : ∃ r, run step (new 8) waitingOps = some r ∧ r.isnset = true ∧ Outside r lateSegment ∧
      Harmless r lateSegment ∧ r.unassembledBytes = 1 ∧ r.ackno = some ⟨2⟩ ∧ Outside r laterSegment ∧
      r.reassembler.Tidy ∧ r.InRange laterSegment ∧ ¬ Harmless r laterSegment := by decide +kernel
  obtain ⟨r, hr, hset, hout, hharm, hone, htwo, hlater, htidy, hrange, hnot⟩ := hrun
  obtain ⟨r', inside, hrec, -, hbytes, hack, -⟩ :=
    (outside_unchanged 8 waitingOps r lateSegment hr hset hout).1 hharm
  have hchanged := (outside_unchanged 8 waitingOps r laterSegment hr hset hlater).2 htidy hrange
  exact ⟨r, r', inside, hr, hout, hrec, hbytes.trans hone, hack.trans htwo, hlater, fun h => hnot (hchanged h)⟩

/-- A block past the window, in front of another one. -/
def strayBlock : TCPSegment := { header := { seqno := ⟨102⟩ }, payload := [97, 98, 99, 100, 101] }

-- With blocks past the window the converse fails: such a block may be sent once more.
example :
    ∃ r, run step (new 8) [.segment (synSegment ⟨0⟩), .segment { header := { seqno := ⟨200⟩ }, payload := [122] },
        .segment strayBlock] = some r ∧
      Outside r strayBlock ∧ ¬ Harmless r strayBlock ∧ r.segmentReceived strayBlock = some (r, false) := by
  decide +kernel

end TCPReceiver

end Sponge
