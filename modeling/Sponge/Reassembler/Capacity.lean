import Sponge.Reassembler.Prefix

/-!
# The capacity

The window of `pushSubstring` is `capacity` bytes from `firstindex` on, whatever
the output still holds, and a substring that begins past it is kept whole. So the
bytes in memory can be more than `capacity`. They are not, when each substring ends
within `capacity` bytes of the first unread byte, or begins no later than the end of
the window when nothing is unread.
-/

namespace Sponge

open Word64 Spans Inforsubstr Run

namespace StreamReassembler

/-- The substring has room beside the unread bytes. -/
def HasRoom (t : Trace) : Op → Prop
  | .push data index _ => data ≠ [] → index + data.length < 2 ^ 64 ∧ NoOverflow t.r data index ∧
      (index + data.length ≤ t.r.output.bytesRead + t.r.capacity ∨
        (t.r.output.bufferEmpty = true ∧ index ≤ t.r.firstindex + t.r.capacity))
  | .read _ => True

instance (t : Trace) : ∀ op, Decidable (HasRoom t op)
  | .push _ _ _ => inferInstanceAs (Decidable (_ → _))
  | .read _ => .isTrue trivial

/-- All blocks are sound, and none ends more than `capacity` past the first unread byte. -/
structure Roomy (r : StreamReassembler) : Prop where
  store : r.Store
  sound : ∀ b ∈ r.storelist, b.Sound
  near : ∀ b ∈ r.storelist, b.stop ≤ r.output.alread + r.capacity

variable {r r' t : StreamReassembler} {data : List UInt8} {index capacity : Nat} {eof : Bool}
  {init : List Inforsubstr} {back m : Inforsubstr}

theorem roomy_new (capacity : Nat) : (new capacity).Roomy :=
  ⟨store_new capacity, by simp [new], by simp [new]⟩

theorem Roomy.setEnd (hr : r.Roomy) (c e : Bool) :
    ({ r with checkeof := c, output := { r.output with ended := e } } : StreamReassembler).Roomy :=
  ⟨hr.store.setEnd c e, hr.sound, hr.near⟩

theorem Roomy.readOut (hr : r.Roomy) (len : Nat) : (r.readOut len).Roomy := by
  refine ⟨hr.store.readOut len, hr.sound, fun b hb => ?_⟩
  have := hr.near b hb
  simp only [readOut_eq]
  omega

theorem Store.firstindex_le (hr : r.Store) : r.firstindex ≤ r.output.alread + r.capacity := by
  obtain ⟨hfits, hcounted⟩ := hr.stream
  have hroom := hr.room
  have haligned := hr.aligned
  omega

theorem Roomy.total_le (hr : r.Roomy) : r.unassembledBytes + r.output.bufferSize ≤ r.capacity := by
  obtain ⟨hfits, hcounted⟩ := hr.store.stream
  have hroom := hr.store.room
  have haligned := hr.store.aligned
  -- The blocks lie apart, between the first unassembled byte and the end of the window.
  have htotal := Spans.total_le hr.store.gapped hr.store.firstindex_le fun b hb =>
    ⟨b.first_le_stop, hr.store.ahead b hb, hr.near b hb⟩
  rw [hr.store.unassembledBytes_eq, storedBytes, ByteStream.bufferSize]
  omega

theorem Roomy.trimmed (hr : r.Roomy) (ht : Trimmed r (pushed data index) eof init back m t) (hne : data ≠ [])
    (hnew : r.firstindex < index + data.length) (hcap : 0 < r.firstindex + r.capacity)
    (hin : index ≤ r.firstindex + r.capacity)
    (hroom : index + data.length ≤ r.output.alread + r.capacity ∨ r.firstindex = r.output.alread) :
    ∀ b ∈ t.storelist, b.Sound ∧ b.stop ≤ r.output.alread + r.capacity := by
  have hpos := List.length_pos_of_ne_nil hne
  have hF := hr.store.aligned
  obtain ⟨hfits, hcounted⟩ := hr.store.stream
  have hplaced : ∀ b ∈ init ++ [back], b.Sound ∧ b.first ≤ r.firstindex + r.capacity ∧
      b.stop ≤ max (index + data.length) (r.output.alread + r.capacity) := by
    intro b hb
    rcases ht.placed.rest b hb with rfl | hb
    · have hfirst := ht.placed.first_le
      have hstop := ht.placed.stop_le
      simp only [pushed, Inforsubstr.stop] at hfirst hstop
      refine ⟨ht.placed.sound, by omega, ?_⟩
      -- Its last index is one of the substring or of a block.
      have hlast := ht.placed.only (b.stop - 1) (by simp only [Inforsubstr.stop]; omega)
        (by simp only [Inforsubstr.stop]; omega)
      rcases hlast with hi | ⟨c, hc, hi⟩
      · simp only [pushed, Inforsubstr.stop] at hi ⊢
        omega
      · have := hr.near c hc
        omega
    · have hstop := hr.near b hb
      have := b.first_le_stop
      exact ⟨hr.sound b hb, by omega, by omega⟩
  have hgap := (gapped_concat.mp ht.placed.gapped).2
  obtain ⟨hbs, hbfirst, hbstop⟩ := hplaced back (by simp)
  obtain ⟨hcs, hcstop⟩ := cut_sound hbs hbfirst hcap
  intro b hb
  rw [ht.list] at hb
  rcases List.mem_append.mp hb with hb | hb
  · obtain ⟨hs, -, hstop⟩ := hplaced b (List.mem_append_left _ hb)
    have := hgap b hb
    exact ⟨hs, by omega⟩
  · rw [List.mem_singleton.mp hb]
    exact ⟨hcs, by omega⟩

theorem Roomy.writeFront (hr : r.Roomy) (hcap : r.capacity < 2 ^ 64) : r.writeFront.Roomy := by
  have hstore := hr.store.writeFront hcap
  rcases hr.store.writeFront_cases with ⟨heq, -⟩ | ⟨front, rest, bytes, hlist, -, -, -, heq⟩
  · rw [heq]
    exact hr
  have hn : writable r front ≤ front.data.length := Nat.min_le_right _ _
  rw [heq] at hstore ⊢
  refine ⟨hstore, fun b hb => ?_, fun b hb => ?_⟩
  · rcases mem_leftover hb with hb | ⟨-, rfl⟩
    · exact hr.sound b (by simp [hlist, hb])
    · have hs := hr.sound front (by simp [hlist])
      simp only [Sound] at hs ⊢
      rw [leftover_stop front hn]
      exact hs
  · rcases mem_leftover hb with hb | ⟨-, rfl⟩
    · exact hr.near b (by simp [hlist, hb])
    · rw [leftover_stop front hn]
      exact hr.near front (by simp [hlist])

theorem Roomy.push_fresh (hr : r.Roomy) (hne : data ≠ []) (hnew : r.firstindex < index + data.length)
    (hlim : r.firstindex + r.capacity < 2 ^ 64) (hend : index + data.length < 2 ^ 64)
    (hcap : 0 < r.firstindex + r.capacity) (hin : index ≤ r.firstindex + r.capacity)
    (hroom : index + data.length ≤ r.output.alread + r.capacity ∨ r.firstindex = r.output.alread)
    (h : pushSubstring r data index eof = some r') : r'.Roomy ∧ r'.capacity = r.capacity := by
  obtain ⟨p, hp⟩ := insertLoop_of_pushSubstring hne hend hnew h
  obtain ⟨init, back, m, t, ht, heq⟩ := hr.store.pushSubstring_trimmed eof hne hend hnew hlim hcap hp
  rw [heq] at h
  cases h
  have hblocks := hr.trimmed ht hne hnew hcap hin hroom
  have hrt : t.Roomy := by
    refine ⟨ht.store, fun b hb => (hblocks b hb).1, fun b hb => ?_⟩
    rw [ht.output, ht.capacity]
    exact (hblocks b hb).2
  refine ⟨hrt.writeFront (by rw [ht.capacity]; omega), ?_⟩
  rw [ht.store.writeFront_frame.1, ht.capacity]

theorem pushSubstring_no_window (hr : r.Store) (hcap : r.capacity = 0) (hlist : r.storelist = [])
    (hF : r.firstindex = 0) (hne : data ≠ []) (hend : data.length < 2 ^ 64)
    (h : pushSubstring r data 0 eof = some r') :
    ∃ c e, r' = { r with checkeof := c, output := { r.output with ended := e } } := by
  have hpos := List.length_pos_of_ne_nil hne
  have hlen : r.output.content.length = 0 := by
    have := hr.stream.fits
    rw [hr.room, hcap] at this
    omega
  have hrc : r.output.remainingCapacity = 0 := by
    rw [ByteStream.remainingCapacity, hr.room, hcap, hlen]
    rfl
  have hcount : r.privateUnassembledBytes = 0 := by rw [hr.counted, hlist]; rfl
  rw [pushSubstring_fresh hne (by omega) (by omega)] at h
  have hlimit : add64 0 0 = 0 := rfl
  -- The last index of an empty window is one below zero.
  have hlast : sub64 0 1 = 2 ^ 64 - 1 := rfl
  have hwrap : add64 (2 ^ 64 - 1) 1 = 0 := rfl
  have hzero : sub64 0 0 = 0 := rfl
  have hback : sub64 (add64 0 data.length) data.length = 0 := by
    rw [add64_eq (by omega), sub64_eq (by omega) (by omega)]
    omega
  simp only [hlist, insertLoop, trimFront, trimBack, writeFront, pushed, hF, hcap, hrc, hcount, hlimit, hlast,
    hwrap, hzero, hback, Nat.lt_irrefl, if_false, List.getLast?_singleton, ge_iff_le, Nat.zero_le, if_true,
    List.dropLast_singleton, List.nil_append, List.take_zero, List.length_nil, Option.some.injEq,
    ByteStream.write, List.append_nil, Nat.add_zero] at h
  rw [hlist, hF, hcap, hcount]
  split_ifs at h
  · exact ⟨_, true, h.symm⟩
  · exact ⟨_, r.output.ended, h.symm⟩

theorem Roomy.push {written : List UInt8} (hr : r.Roomy)
    (hop : HasRoom ⟨r, written⟩ (.push data index eof)) (h : pushSubstring r data index eof = some r') :
    r'.Roomy ∧ r'.capacity = r.capacity := by
  by_cases hne : data = []
  · subst hne
    rw [pushSubstring_nil] at h
    cases h
    split_ifs
    · exact ⟨hr.setEnd _ true, rfl⟩
    · exact ⟨hr.setEnd _ r.output.ended, rfl⟩
  obtain ⟨hend, hlim, hroom⟩ := hop hne
  by_cases hnew : r.firstindex < index + data.length
  · have hpos := List.length_pos_of_ne_nil hne
    obtain ⟨hfits, hcounted⟩ := hr.store.stream
    have haligned := hr.store.aligned
    have hF := hr.store.firstindex_le
    simp only [ByteStream.bytesRead, ByteStream.bufferEmpty, List.isEmpty_iff] at hroom
    have hroom' : index + data.length ≤ r.output.alread + r.capacity ∨ r.firstindex = r.output.alread := by
      rcases hroom with hroom | ⟨hempty, -⟩
      · exact Or.inl hroom
      · simp only [hempty, List.length_nil] at hcounted
        exact Or.inr (by omega)
    -- At the very start a capacity of zero leaves no window, and the limit wraps below zero.
    by_cases hcap : 0 < r.firstindex + r.capacity
    · exact hr.push_fresh hne hnew (hlim hne hnew) hend hcap (by omega) hroom' h
    · have hnil : r.storelist = [] := by
        rw [List.eq_nil_iff_forall_not_mem]
        intro b hb
        have := hr.near b hb
        have := hr.sound b hb
        simp only [Sound] at this
        omega
      obtain rfl : index = 0 := by omega
      obtain ⟨c, e, rfl⟩ := pushSubstring_no_window hr.store (by omega) hnil (by omega) hne (by omega) h
      exact ⟨hr.setEnd c e, rfl⟩
  · -- All of the data was assembled before.
    rw [pushSubstring_stale hne hend (by omega)] at h
    cases h
    exact ⟨hr.setEnd _ r.output.ended, rfl⟩

theorem Roomy.step (t : Trace) (op : Op) (t' : Trace) (ht : t.r.Roomy ∧ t.r.capacity = capacity)
    (hop : HasRoom t op) (h : step t op = some t') : t'.r.Roomy ∧ t'.r.capacity = capacity := by
  obtain ⟨hr, hcap⟩ := ht
  cases op with
  | push data index eof =>
    obtain ⟨r', hp, rfl⟩ := step_push h
    rw [← hcap]
    exact hr.push hop hp
  | read len =>
    cases h
    exact ⟨hr.readOut len, hcap⟩

/-- The output of two bytes is full, and two more are kept in the store. -/
def overfullOps : List Op := [.push [97, 98] 0 false, .push [99, 100] 2 false]

theorem holds_too_much :
    ∃ t, run step (start 2) overfullOps = some t ∧ ¬ t.r.unassembledBytes + t.r.output.bufferSize ≤ 2 :=
  ⟨_, rfl, by decide⟩

/-- In every run whose substrings have room, memory holds at most `capacity` bytes. -/
theorem holds_le_capacity (capacity : Nat) (ops : List Op) (t : Trace)
    (hops : AllSteps step HasRoom (start capacity) ops) (h : run step (start capacity) ops = some t) :
    t.r.unassembledBytes + t.r.output.bufferSize ≤ capacity := by
  have hinit : (start capacity).r.Roomy ∧ (start capacity).r.capacity = capacity := ⟨roomy_new capacity, rfl⟩
  obtain ⟨hr, hcap⟩ := run_inv_of_allSteps Roomy.step hinit hops h
  rw [← hcap]
  exact hr.total_le

/-- A substring that fills the window, one that ends past it, and after a read one that fits. -/
def roomyOps : List Op :=
  [.push [98, 99, 100] 1 false, .push [97] 0 false, .read 2, .push [99, 100] 2 false, .push [120] 3 true]

theorem holds_le_capacity_two :
    ∃ t, run step (start 2) roomyOps = some t ∧ t.r.unassembledBytes + t.r.output.bufferSize ≤ 2 :=
  ⟨_, rfl, holds_le_capacity 2 roomyOps _ (by decide) rfl⟩

end StreamReassembler

end Sponge
