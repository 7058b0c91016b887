import Sponge.Reassembler.Prefix

/-!
# The end of the stream

The reassembler remembers that the stream ends, but not where: `checkeof` is a
bare flag. It ends the output when the flag is set and the store is empty, which
is early when the end that was announced did not get into the store. The output
is complete when each substring with the end lies inside the window and, if it is
empty, reaches the last block.
-/

namespace Sponge

open Word64 Slice Spans Inforsubstr Run

namespace StreamReassembler

def ConsistentEof (S : List UInt8) : Op → Prop
  | .push data index eof => IsSlice S index data ∧ (eof = true → index + data.length = S.length)
  | .read _ => True

instance (S : List UInt8) : ∀ op, Decidable (ConsistentEof S op)
  | .push _ _ _ => inferInstanceAs (Decidable (_ ∧ _))
  | .read _ => .isTrue trivial

/-- The end is announced inside the window and with its last byte known, and no empty substring
comes at the front while the bytes up to the end are still in the store. -/
structure EofSafe (r : StreamReassembler) (data : List UInt8) (index : Nat) (eof : Bool) : Prop where
  limit : NoOverflow r data index
  window : eof = true → index + data.length ≤ r.firstindex + r.capacity
  reached : data = [] → eof = true →
    index = r.firstindex ∨ r.storelist.getLast?.map (fun b => b.last + 1) = some index
  front : data = [] → r.checkeof = true → index = r.firstindex → r.storelist = []

instance (r : StreamReassembler) (data : List UInt8) (index : Nat) (eof : Bool) :
    Decidable (EofSafe r data index eof) :=
  decidable_of_iff ((NoOverflow r data index ∧
      (eof = true → index + data.length ≤ r.firstindex + r.capacity)) ∧
      (data = [] → eof = true →
        index = r.firstindex ∨ r.storelist.getLast?.map (fun b => b.last + 1) = some index) ∧
      (data = [] → r.checkeof = true → index = r.firstindex → r.storelist = []))
    ⟨fun h => ⟨h.1.1, h.1.2, h.2.1, h.2.2⟩, fun h => ⟨⟨h.limit, h.window⟩, h.reached, h.front⟩⟩

/-- The whole stream is written, or the last block is its end. -/
def TailKnown (S : List UInt8) (r : StreamReassembler) : Prop :=
  r.firstindex = S.length ∨
    (S.length ≤ r.firstindex + r.capacity ∧ r.storelist.getLast?.map (fun b => b.last + 1) = some S.length)

/-- What holds between two calls that keep to `EofSafe`. -/
structure EndInv (S : List UInt8) (r : StreamReassembler) : Prop where
  safe : Safe S r
  within : r.firstindex ≤ S.length
  tail : r.checkeof = true → TailKnown S r
  marked : r.output.ended = true → r.checkeof = true ∧ r.firstindex = S.length
  clear : r.firstindex = S.length → r.storelist = [] ∧ r.unassembledBytes = 0

theorem endInv_new (S : List UInt8) (capacity : Nat) : EndInv S (new capacity) where
  safe := safe_new S capacity
  within := Nat.zero_le _
  tail := by simp [new]
  marked := by simp [new, ByteStream.new]
  clear := fun _ => ⟨rfl, rfl⟩

/-- A stream that is written to its end is marked as ended. -/
def Complete (S : List UInt8) (r : StreamReassembler) : Prop :=
  r.checkeof = true → r.firstindex = S.length → r.output.ended = true

variable {r r' t : StreamReassembler} {S data : List UInt8} {index : Nat} {eof : Bool}
  {init rest : List Inforsubstr} {back m front : Inforsubstr}

theorem Store.clear (hr : r.Store) (hS : Sliced S r) (hF : r.firstindex = S.length) :
    r.storelist = [] ∧ r.unassembledBytes = 0 := by
  have hnil : r.storelist = [] := by
    rw [List.eq_nil_iff_forall_not_mem]
    intro b hb
    have := hr.ahead b hb
    have := (hS b hb).2
    omega
  exact ⟨hnil, by rw [hr.unassembledBytes_eq, hnil, storedBytes_nil]⟩

/-! ## The store after a substring -/

theorem Trimmed.reached (ht : Trimmed r (pushed data index) eof init back m t) (hr : r.Store)
    (hS : Sliced S r) (hdata : IsSlice S index data) (hne : data ≠ []) (hF : r.firstindex < index + data.length)
    (heof : eof = true → index + data.length = S.length) (htail : r.checkeof = true → TailKnown S r)
    (hmark : t.checkeof = true) : ∃ c ∈ init ++ [back], c.Sound ∧ c.stop = S.length := by
  have hsub := hdata.end_le hne
  have hfirst := ht.placed.first_le
  have hstop := ht.placed.stop_le
  have hlen := List.length_pos_of_ne_nil hne
  simp only [pushed, Inforsubstr.stop] at hfirst hstop
  have hmS : m.stop ≤ S.length := by
    have hslice := ht.placed.slice S (fun b hb => (hS b hb).1) hdata
    refine hslice.end_le fun hnil => ?_
    simp only [hnil, List.length_nil] at hstop
    omega
  have hm : S.length ≤ m.stop → ∃ c ∈ init ++ [back], c.Sound ∧ c.stop = S.length := fun h =>
    ⟨m, ht.placed.mem, ht.placed.sound, Nat.le_antisymm hmS h⟩
  rw [ht.checkeof, Bool.or_eq_true] at hmark
  -- The mark is new, and the data reaches the end; or it is old, and the last block reached it.
  rcases hmark with he | hc
  · have := heof he
    apply hm
    simp only [Inforsubstr.stop]
    omega
  · rcases htail hc with hF' | ⟨-, hlast⟩
    · omega
    · obtain ⟨b, hb, hbS⟩ := Option.map_eq_some_iff.mp hlast
      have hmem := List.mem_of_getLast? hb
      have hbfirst := (hS b hmem).2
      -- A stray block would begin behind the stream.
      have hsound : b.Sound := by
        rcases (hr.stored b hmem).shape with h | h
        · exact h
        · simp only [Stray] at h
          omega
      have hbstop : b.stop = S.length := by
        simp only [Sound] at hsound
        omega
      rcases ht.placed.kept b hmem hsound with hkept | ⟨-, hin⟩
      · exact ⟨b, hkept, hsound, hbstop⟩
      · exact hm (by omega)

theorem Trimmed.tailKnown (ht : Trimmed r (pushed data index) eof init back m t) (hr : r.Store)
    (hS : Sliced S r) (hdata : IsSlice S index data) (hne : data ≠ []) (hF : r.firstindex < index + data.length)
    (heof : eof = true → index + data.length = S.length)
    (hwin : eof = true → index + data.length ≤ r.firstindex + r.capacity)
    (htail : r.checkeof = true → TailKnown S r) (hmark : t.checkeof = true) : TailKnown S t := by
  obtain ⟨c, hc, hsound, hstop⟩ := ht.reached hr hS hdata hne hF heof htail hmark
  have hSt := ht.sliced hS hdata hne hF
  have hsub := hdata.end_le hne
  have hlim : S.length ≤ r.firstindex + r.capacity := by
    rw [ht.checkeof, Bool.or_eq_true] at hmark
    rcases hmark with he | hc
    · have := heof he
      have := hwin he
      omega
    · rcases htail hc with h | h
      · omega
      · exact h.1
  have hback : back.first < S.length := by
    have := (hSt (cut (r.firstindex + r.capacity) back) (by simp [ht.list])).2
    rw [cut_first] at this
    exact this
  -- No block begins behind the end of the stream, so the one that reaches it is the last.
  obtain rfl : c = back := eq_last_of_hi_le ht.placed.gapped hc (by omega)
  right
  rw [ht.firstindex, ht.capacity, ht.list]
  refine ⟨hlim, ?_⟩
  have hlast : (cut (r.firstindex + r.capacity) c).last + 1 = S.length := by
    simp only [Sound] at hsound
    by_cases h : r.firstindex + r.capacity ≤ c.last + 1
    · simp only [cut, if_pos h]
      omega
    · rw [cut, if_neg h]
      omega
  simp [hlast]

theorem getLast?_leftover {n : Nat} (h : leftover front n rest ≠ []) :
    (leftover front n rest).getLast?.map (fun b => b.last + 1) =
      (front :: rest).getLast?.map (fun b => b.last + 1) := by
  unfold leftover at h ⊢
  cases rest with
  | nil => split_ifs at h ⊢ <;> simp_all
  | cons b rest => split_ifs <;> simp [List.getLast?_cons_cons]

theorem Store.writeFront_complete (hr : r.Store) (hS : Sliced S r) (hcap : r.capacity < 2 ^ 64)
    (hF : r.firstindex < S.length) (hmark : r.checkeof = true) (hdone : r.writeFront.firstindex = S.length) :
    r.writeFront.output.ended = true := by
  have hclear := (hr.writeFront hcap).clear (hr.writeFront_sliced hS).1 hdone
  rcases hr.writeFront_cases with ⟨heq, -⟩ | ⟨front, rest, bytes, -, -, -, -, heq⟩
  · rw [heq] at hdone
    omega
  · rw [heq] at hclear ⊢
    simp only [unassembledBytes] at hclear
    simp [hclear, hmark]

theorem Store.writeFront_end (hr : r.Store) (hS : Sliced S r) (hcap : r.capacity < 2 ^ 64)
    (hF : r.firstindex < S.length) (htail : r.checkeof = true → TailKnown S r) :
    (r.checkeof = true → TailKnown S r.writeFront) ∧
      (r.writeFront.output.ended = true ↔
        r.output.ended = true ∨ (r.checkeof = true ∧ r.writeFront.firstindex = S.length)) := by
  have hcomplete := hr.writeFront_complete hS hcap hF
  rcases hr.writeFront_cases with ⟨heq, -⟩ | ⟨front, rest, bytes, hlist, hfirst, hs, hc, heq⟩
  · rw [heq]
    refine ⟨htail, Or.inl, ?_⟩
    rintro (h | ⟨-, h⟩)
    · exact h
    · omega
  have hn : writable r front ≤ front.data.length := Nat.min_le_right _ _
  -- With the end announced, the last block is the end of `S`.
  have hlast : r.checkeof = true → (front :: rest).getLast?.map (fun b => b.last + 1) = some S.length := by
    intro hce
    rcases htail hce with h | ⟨-, h⟩
    · omega
    · rwa [hlist] at h
  have hdone : r.checkeof = true → leftover front (writable r front) rest = [] →
      r.firstindex + writable r front = S.length := by
    intro hce hnil
    unfold leftover at hnil
    split_ifs at hnil with c
    have h := hlast hce
    simp only [hnil, List.getLast?_singleton, Option.map_some, Option.some.injEq] at h
    simp only [Sound, Inforsubstr.stop] at hs
    omega
  rw [heq] at hcomplete ⊢
  constructor
  · intro hce
    by_cases hnil : leftover front (writable r front) rest = []
    · exact Or.inl (hdone hce hnil)
    · refine Or.inr ⟨?_, ?_⟩
      · rcases htail hce with h | ⟨h, -⟩
        · omega
        · simp only
          omega
      · simp only [getLast?_leftover hnil]
        exact hlast hce
  · constructor
    · simp only [Bool.or_eq_true, Bool.and_eq_true, beq_iff_eq]
      rintro (h | ⟨⟨hnil, -⟩, hce⟩)
      · exact Or.inl h
      · exact Or.inr ⟨hce, hdone hce hnil⟩
    · rintro (h | ⟨hce, h⟩)
      · simp [h]
      · exact hcomplete hce h

/-! ## One push -/

theorem EndInv.push_fresh (hr : EndInv S r) (hcap : 0 < r.capacity) (hst : r.Store) (hS : Sliced S r)
    (hdata : IsSlice S index data) (hne : data ≠ []) (hnew : r.firstindex < index + data.length)
    (heof : eof = true → index + data.length = S.length) (hlen : S.length < 2 ^ 64)
    (hsafe : EofSafe r data index eof) (h : pushSubstring r data index eof = some r') :
    r'.checkeof = (eof || r.checkeof) ∧ (r'.checkeof = true → TailKnown S r') ∧
      (r'.output.ended = true ↔ r'.checkeof = true ∧ r'.firstindex = S.length) := by
  have hsub := hdata.end_le hne
  have hlim := hsafe.limit hne hnew
  obtain ⟨p, hp⟩ := insertLoop_of_pushSubstring hne (by omega) hnew h
  obtain ⟨init, back, m, t, ht, heq⟩ :=
    hst.pushSubstring_trimmed eof hne (by omega) hnew hlim (by omega) hp
  rw [heq] at h
  cases h
  have htail := ht.tailKnown hst hS hdata hne hnew heof hsafe.window hr.tail
  obtain ⟨htail', hended⟩ := ht.store.writeFront_end (ht.sliced hS hdata hne hnew) (by rw [ht.capacity]; omega)
    (by rw [ht.firstindex]; omega) htail
  have hmark := ht.store.writeFront_frame.2.1
  -- A stream that has ended holds every byte, and this push brings a new one.
  have hopen : t.output.ended = false := by
    rw [ht.output, Bool.eq_false_iff]
    intro he
    have := (hr.marked he).2
    omega
  rw [hmark]
  refine ⟨ht.checkeof, htail', ?_⟩
  rw [hended, hopen]
  simp

theorem writeFront_marks (r : StreamReassembler) :
    r.writeFront.checkeof = r.checkeof ∧
      (r.writeFront.output.ended = true → r.output.ended = true ∨ r.checkeof = true) := by
  have hwrite : ∀ d, (r.output.write d).1.ended = r.output.ended := fun d => by
    unfold ByteStream.write
    split_ifs <;> rfl
  unfold writeFront
  split
  · exact ⟨rfl, Or.inl⟩
  · simp only
    split_ifs with _ _ h h
    all_goals simp_all [ByteStream.endInput]

theorem trimBack_marks (r : StreamReassembler) :
    r.trimBack.checkeof = r.checkeof ∧ r.trimBack.output = r.output := by
  unfold trimBack
  split
  · exact ⟨rfl, rfl⟩
  · simp only
    split_ifs <;> exact ⟨rfl, rfl⟩

theorem trimFront_checkeof (h : trimFront r = some r') : r'.checkeof = r.checkeof := by
  unfold trimFront at h
  split at h
  · cases h
    rfl
  · split_ifs at h
    · split at h
      · cases h
      · cases h
        rfl
    · cases h
      rfl

theorem pushSubstring_checkeof (h : pushSubstring r data index eof = some r') :
    r'.checkeof = (eof || r.checkeof) := by
  by_cases hne : data = []
  · subst hne
    rw [pushSubstring_nil] at h
    cases h
    rfl
  have hmark : (if eof then eof else r.checkeof) = (eof || r.checkeof) := by cases eof <;> rfl
  unfold pushSubstring at h
  simp only [List.length_eq_zero_iff, if_neg hne, hmark] at h
  split_ifs at h
  · cases h
    rfl
  · split at h
    · cases h
    · split at h
      · cases h
      · rename_i t ht
        cases h
        rw [(writeFront_marks _).1, (trimBack_marks _).1, trimFront_checkeof ht]

theorem Sealed.push_open (hr : r.Sealed) (hne : data ≠ []) (hmark : r.checkeof = false)
    (hend : r.output.ended = false) (h : pushSubstring r data index false = some r') :
    r'.checkeof = false ∧ r'.output.ended = false := by
  obtain ⟨t, -, hce, hout, rfl⟩ := hr.pushSubstring_cases hne h
  obtain ⟨hw1, hw2⟩ := writeFront_marks t.trimBack
  obtain ⟨ht1, ht2⟩ := trimBack_marks t
  rw [ht1, hce, hmark] at hw1 hw2
  rw [ht2, hout, hend] at hw2
  exact ⟨hw1, by simpa using hw2⟩

theorem EndInv.push_nil (hr : EndInv S r) (heof : eof = true → index = S.length)
    (hsafe : EofSafe r [] index eof) (hsafe' : Safe S r') (h : pushSubstring r [] index eof = some r') :
    EndInv S r' := by
  rw [pushSubstring_nil] at h
  cases h
  have htail : (eof || r.checkeof) = true → TailKnown S r := by
    intro hm
    rcases Bool.or_eq_true_iff.mp hm with he | hc
    · have hS := heof he
      have hwin := hsafe.window he
      simp only [List.length_nil, Nat.add_zero] at hwin
      rcases hsafe.reached rfl he with hi | hi
      · exact Or.inl (by omega)
      · exact Or.inr ⟨by omega, by rw [hi, hS]⟩
    · exact hr.tail hc
  refine ⟨hsafe', hr.within, htail, ?_, hr.clear⟩
  simp only
  split_ifs with c
  · intro _
    rw [Bool.and_eq_true, beq_iff_eq] at c
    refine ⟨c.1, ?_⟩
    rcases htail c.1 with hF | ⟨-, hlast⟩
    · exact hF
    rcases Bool.or_eq_true_iff.mp c.1 with he | hc
    · exact c.2.trans (heof he)
    · -- The end was announced before: the store is empty, so no block is the end.
      simp [hsafe.front rfl hc c.2.symm] at hlast
  · intro he
    exact ⟨by simp [(hr.marked he).1], (hr.marked he).2⟩

theorem EndInv.push_sealed (hr : EndInv S r) (hs : r.Sealed) (hdata : IsSlice S index data) (hne : data ≠ [])
    (hsafe : EofSafe r data index eof) (h : pushSubstring r data index eof = some r') : EndInv S r' := by
  have hsub := hdata.end_le hne
  have hpos := List.length_pos_of_ne_nil hne
  have hF := hs.firstindex
  -- Without a window no data fits, so a safe push carries no end of the stream.
  have heof : eof = false := by
    rw [Bool.eq_false_iff]
    intro he
    have := hsafe.window he
    rw [hF, hs.capacity] at this
    omega
  have hce : r.checkeof = false := by
    rw [Bool.eq_false_iff]
    intro hc
    rcases hr.tail hc with h | ⟨h, -⟩
    · omega
    · rw [hF, hs.capacity] at h
      omega
  have hend : r.output.ended = false := by
    rw [Bool.eq_false_iff]
    intro he
    rw [(hr.marked he).1] at hce
    cases hce
  rw [heof] at h
  obtain ⟨hce', hend'⟩ := hs.push_open hne hce hend h
  have hF' := (hs.push h).firstindex
  exact ⟨Or.inl (hs.push h), by omega, by simp [hce'], by simp [hend'], by omega⟩

theorem EndInv.push_stale (hr : EndInv S r) (hne : data ≠ []) (hend : index + data.length < 2 ^ 64)
    (hold : index + data.length ≤ r.firstindex) (heof : eof = true → index + data.length = S.length)
    (hsafe' : Safe S r') (h : pushSubstring r data index eof = some r') : EndInv S r' := by
  rw [pushSubstring_stale hne hend hold] at h
  cases h
  refine ⟨hsafe', hr.within, fun hm => ?_, fun he => ?_, hr.clear⟩
  · rcases Bool.or_eq_true_iff.mp hm with he | hc
    · have := heof he
      have := hr.within
      exact Or.inl (by simp only; omega)
    · exact hr.tail hc
  · exact ⟨by simp [(hr.marked he).1], (hr.marked he).2⟩

theorem EndInv.push (hr : EndInv S r) (hdata : IsSlice S index data)
    (heof : eof = true → index + data.length = S.length) (hlen : S.length < 2 ^ 64)
    (hsafe : EofSafe r data index eof) (h : pushSubstring r data index eof = some r') : EndInv S r' := by
  obtain ⟨hsafe', bytes, hadv⟩ := hr.safe.push hdata hlen hsafe.limit h
  by_cases hne : data = []
  · subst hne
    exact hr.push_nil heof hsafe hsafe' h
  have hsub := hdata.end_le hne
  rcases hr.safe with hs | ⟨hcap, hst, hS⟩
  · exact hr.push_sealed hs hdata hne hsafe h
  by_cases hnew : r.firstindex < index + data.length
  · have hwithin : r'.firstindex ≤ S.length := by
      rw [hadv.firstindex]
      by_cases hb : bytes = []
      · simpa [hb] using hr.within
      · exact hadv.slice.end_le hb
    obtain ⟨-, htail, hended⟩ := hr.push_fresh hcap hst hS hdata hne hnew heof hlen hsafe h
    obtain ⟨hst', hS', -⟩ := hst.push hS hdata hlen hsafe.limit hcap h
    exact ⟨hsafe', hwithin, htail, hended.mp, hst'.clear hS'⟩
  · exact hr.push_stale hne (by omega) (by omega) heof hsafe' h

theorem EndInv.readOut (hr : EndInv S r) (len : Nat) : EndInv S (r.readOut len) := by
  have hsafe := hr.safe.readOut len
  rw [readOut_eq] at hsafe ⊢
  exact ⟨hsafe, hr.within, hr.tail, hr.marked, hr.clear⟩

theorem EndInv.mono {T : List UInt8} (hr : EndInv S r) (hST : S <+: T) (hopen : r.checkeof = true → T = S) :
    EndInv T r := by
  by_cases hmark : r.checkeof = true
  · rw [hopen hmark]
    exact hr
  have hlen := hST.length_le
  have hwithin := hr.within
  refine ⟨hr.safe.mono hST, by omega, fun h => absurd h hmark, fun h => absurd (hr.marked h).1 hmark, fun hF => ?_⟩
  exact hr.clear (by omega)

theorem Safe.push_complete (hr : Safe S r) (hdata : IsSlice S index data)
    (heof : eof = true → index + data.length = S.length) (hlen : S.length < 2 ^ 64)
    (hlim : NoOverflow r data index)
    (hold : eof = true → data ≠ [] → index + data.length ≤ r.firstindex → r.output.ended = true)
    (hc : Complete S r) (h : pushSubstring r data index eof = some r') : Complete S r' := by
  by_cases hne : data = []
  · subst hne
    rw [pushSubstring_nil] at h
    cases h
    intro hm hF
    simp only at hm hF ⊢
    split_ifs with c
    · rfl
    · rcases Bool.or_eq_true_iff.mp hm with he | hce
      · have hS := heof he
        simp only [List.length_nil, Nat.add_zero] at hS
        simp [hm, hF, hS] at c
      · exact hc hce hF
  have hsub := hdata.end_le hne
  rcases hr with hs | ⟨hcap, hst, hS⟩
  · intro _ hF
    have hpos := List.length_pos_of_ne_nil hne
    rw [(hs.push h).firstindex] at hF
    omega
  by_cases hnew : r.firstindex < index + data.length
  · have hlim' := hlim hne hnew
    obtain ⟨p, hp⟩ := insertLoop_of_pushSubstring hne (by omega) hnew h
    obtain ⟨init, back, m, t, ht, heq⟩ := hst.pushSubstring_trimmed eof hne (by omega) hnew hlim' (by omega) hp
    rw [heq] at h
    cases h
    intro hm hF
    rw [ht.store.writeFront_frame.2.1] at hm
    exact ht.store.writeFront_complete (ht.sliced hS hdata hne hnew) (by rw [ht.capacity]; omega)
      (by rw [ht.firstindex]; omega) hm hF
  · rw [pushSubstring_stale hne (by omega) (by omega)] at h
    cases h
    intro hm hF
    rcases Bool.or_eq_true_iff.mp hm with he | hce
    · -- The end comes again, in data that was assembled before: this is what `hold` is for.
      exact hold he hne (by omega)
    · exact hc hce hF

theorem EndInv.written_of_unassembled (hr : EndInv S r) (hmark : r.checkeof = true)
    (hzero : r.unassembledBytes = 0) : r.firstindex = S.length := by
  rcases hr.tail hmark with hF | ⟨hlim, hlast⟩
  · exact hF
  rcases hr.safe with hs | ⟨-, hst, hS⟩
  · rw [hs.firstindex, hs.capacity] at hlim
    rw [hs.firstindex]
    omega
  · obtain ⟨b, hb, hbS⟩ := Option.map_eq_some_iff.mp hlast
    have hmem := List.mem_of_getLast? hb
    have hfirst := (hS b hmem).2
    have hbytes := length_le_storedBytes hmem
    rw [← hst.unassembledBytes_eq, hzero] at hbytes
    rcases (hst.stored b hmem).shape with h | h
    · simp only [Sound, Inforsubstr.stop] at h
      omega
    · simp only [Stray] at h
      omega

theorem EndInv.ended_iff (hr : EndInv S r) (hc : Complete S r) :
    r.output.ended = true ↔ r.checkeof = true ∧ r.unassembledBytes = 0 := by
  constructor
  · intro h
    obtain ⟨hmark, hF⟩ := hr.marked h
    exact ⟨hmark, (hr.clear hF).2⟩
  · rintro ⟨hmark, hzero⟩
    exact hc hmark (hr.written_of_unassembled hmark hzero)

/-! ## Whole runs -/

/-- The condition under which the end is not lost, at one step of a run. -/
def EndKept (t : Trace) : Op → Prop
  | .push data index eof => EofSafe t.r data index eof
  | .read _ => True

instance (t : Trace) : ∀ op, Decidable (EndKept t op)
  | .push _ _ _ => inferInstanceAs (Decidable (EofSafe _ _ _ _))
  | .read _ => .isTrue trivial

theorem EndInv.step (hS : S.length < 2 ^ 64) (t : Trace) (op : Op) (t' : Trace) (ht : EndInv S t.r)
    (hop : ConsistentEof S op ∧ EndKept t op) (h : step t op = some t') : EndInv S t'.r := by
  obtain ⟨hcons, hkept⟩ := hop
  cases op with
  | push data index eof =>
    obtain ⟨r', hp, rfl⟩ := step_push h
    exact ht.push hcons.1 hcons.2 hS hkept hp
  | read len =>
    cases h
    exact ht.readOut len

/-- The end of `ab` comes in an empty substring before its bytes. -/
def lostEndOps : List Op := [.push [] 2 true, .push [97] 0 false]

theorem ends_early :
    (∀ op ∈ lostEndOps, ConsistentEof [97, 98] op) ∧
      ∃ t, run step (start 8) lostEndOps = some t ∧ t.r.output.inputEnded = true ∧
        t.r.output.bytesWritten ≠ ([97, 98] : List UInt8).length :=
  ⟨by decide, _, rfl, rfl, by decide⟩

/-- In every run that keeps to `EndKept`, an output that has ended is the whole stream. -/
theorem ended_whole (S : List UInt8) (capacity : Nat) (ops : List Op) (t : Trace) (hS : S.length < 2 ^ 64)
    (hops : ∀ op ∈ ops, ConsistentEof S op) (hkept : AllSteps step EndKept (start capacity) ops)
    (h : run step (start capacity) ops = some t) (hend : t.r.output.inputEnded = true) :
    t.r.output.bytesWritten = S.length := by
  have ht := run_inv_of_allSteps (EndInv.step hS) (endInv_new S capacity)
    ((allSteps_of_forall hops).and hkept) h
  rw [← (ht.marked hend).2, ht.safe.aligned]
  rfl

/-- The same bytes with the end inside the window and after a gap, and then an empty substring. -/
def keptEndOps : List Op := [.push [98] 1 true, .push [] 2 true, .push [97] 0 false, .read 1, .push [] 2 true]

theorem ended_whole_gap :
    ∃ t, run step (start 8) keptEndOps = some t ∧ t.r.output.inputEnded = true ∧
      t.r.output.bytesWritten = ([97, 98] : List UInt8).length :=
  ⟨_, rfl, rfl, ended_whole [97, 98] 8 keptEndOps _ (by decide) (by decide) (by decide) rfl rfl⟩

end StreamReassembler

end Sponge
