import Sponge.Reassembler.Push

/-!
# Substrings that begin inside the window

When every substring begins before `firstindex + capacity`, all blocks are sound
and none reaches past the window. Then it is enough to know which indices the
store covers: a push adds those of the substring that lie in the window, and the
write takes off those below the new `firstindex`.
-/

namespace Sponge

open Word64 Slice Spans Inforsubstr

namespace StreamReassembler

/-- Between two calls, when every substring began inside the window. -/
structure InWindow (r : StreamReassembler) : Prop where
  store : r.Store
  sound : ∀ b ∈ r.storelist, b.Sound ∧ b.data ≠ []
  window : ∀ b ∈ r.storelist, b.stop ≤ r.firstindex + r.capacity
  awake : 0 < r.capacity ∨ r.firstindex = 0

theorem inWindow_new (capacity : Nat) : (new capacity).InWindow :=
  ⟨store_new capacity, by simp [new], by simp [new], Or.inr rfl⟩

theorem ne_nil_of_first_lt_stop {b : Inforsubstr} (h : b.first < b.stop) : b.data ≠ [] := by
  intro hnil
  simp [Inforsubstr.stop, hnil] at h

variable {r t : StreamReassembler} {sub back m : Inforsubstr} {init : List Inforsubstr} {eof : Bool}

theorem Placed.covers_iff {F : Nat} {l l' : List Inforsubstr} (h : Placed F l sub l' m)
    (hl : ∀ b ∈ l, b.Sound ∧ F ≤ b.first) (i : Nat) :
    Covers first stop l' i ↔ F ≤ i ∧ ((sub.first ≤ i ∧ i < sub.stop) ∨ Covers first stop l i) := by
  constructor
  · rintro ⟨b, hb, hi⟩
    have hF := h.ahead b hb
    refine ⟨by omega, ?_⟩
    rcases h.rest b hb with rfl | hb'
    · exact h.only i hi.1 hi.2
    · exact Or.inr ⟨b, hb', hi⟩
  · rintro ⟨hF, hi | ⟨b, hb, hi⟩⟩
    · have h1 := h.first_le
      have h2 := h.stop_le
      exact ⟨m, h.mem, by omega, by omega⟩
    · rcases h.kept b hb (hl b hb).1 with hmem | hin
      · exact ⟨b, hmem, hi⟩
      · exact ⟨m, h.mem, by omega, by omega⟩

theorem Trimmed.covers_iff (ht : Trimmed r sub eof init back m t) (hr : r.Store)
    (hsound : ∀ b ∈ r.storelist, b.Sound ∧ b.first ≤ r.firstindex + r.capacity)
    (hsub : sub.first ≤ r.firstindex + r.capacity) (hpos : 0 < r.firstindex + r.capacity) (i : Nat) :
    Covers first stop t.storelist i ↔ r.firstindex ≤ i ∧ i < r.firstindex + r.capacity ∧
      ((sub.first ≤ i ∧ i < sub.stop) ∨ Covers first stop r.storelist i) := by
  -- Only the last block is cut, and it may be the new one or an old one.
  have hback : back.Sound ∧ back.first ≤ r.firstindex + r.capacity := by
    rcases ht.placed.rest back (by simp) with rfl | hb
    · have := ht.placed.first_le
      exact ⟨ht.placed.sound, by omega⟩
    · exact hsound back hb
  have hcstop := (cut_sound hback.1 hback.2 hpos).2
  have hcfirst := cut_first (r.firstindex + r.capacity) back
  have hinit : ∀ b ∈ init, b.stop < back.first := (gapped_concat.mp ht.placed.gapped).2
  have hall := ht.placed.covers_iff (fun b hb => ⟨(hsound b hb).1, hr.ahead b hb⟩) i
  rw [covers_concat] at hall
  rw [ht.list, covers_concat, hcfirst, hcstop]
  constructor
  · rintro (⟨b, hb, hi⟩ | hi)
    · have := hinit b hb
      have := hall.mp (Or.inl ⟨b, hb, hi⟩)
      exact ⟨this.1, by omega, this.2⟩
    · have := hall.mp (Or.inr (by omega))
      exact ⟨this.1, by omega, this.2⟩
  · rintro ⟨h1, h2, h3⟩
    rcases hall.mpr ⟨h1, h3⟩ with hi | hi
    · exact Or.inl hi
    · exact Or.inr (by omega)

theorem InWindow.placed (hr : r.InWindow) (ht : Trimmed r sub eof init back m t)
    (hsub : sub.first < r.firstindex + r.capacity) (hne : sub.data ≠ []) (hnew : r.firstindex < sub.stop) :
    ∀ b ∈ init ++ [back], b.Sound ∧ b.data ≠ [] ∧ b.first < r.firstindex + r.capacity := by
  have hcap := hr.awake
  intro b hb
  rcases ht.placed.rest b hb with rfl | hb
  · have h1 := ht.placed.first_le
    have h2 := ht.placed.stop_le
    have h3 := first_lt_stop hne
    exact ⟨ht.placed.sound, ne_nil_of_first_lt_stop (by omega), by omega⟩
  · have := hr.window b hb
    have := first_lt_stop (hr.sound b hb).2
    exact ⟨(hr.sound b hb).1, (hr.sound b hb).2, by omega⟩

theorem InWindow.trimmed (hr : r.InWindow) (ht : Trimmed r sub eof init back m t)
    (hsub : sub.first < r.firstindex + r.capacity) (hne : sub.data ≠ []) (hnew : r.firstindex < sub.stop) :
    t.InWindow ∧ ∀ i, Covers first stop t.storelist i ↔
      r.firstindex ≤ i ∧ i < r.firstindex + r.capacity ∧
        ((sub.first ≤ i ∧ i < sub.stop) ∨ Covers first stop r.storelist i) := by
  have hplaced := hr.placed ht hsub hne hnew
  obtain ⟨hbs, hbne, hbfirst⟩ := hplaced back (by simp)
  obtain ⟨hcs, hcstop⟩ := cut_sound hbs (by omega) (by omega : 0 < r.firstindex + r.capacity)
  have hinit : ∀ b ∈ init, b.stop < back.first := (gapped_concat.mp ht.placed.gapped).2
  have hbpos := first_lt_stop hbne
  have hcfirst := cut_first (r.firstindex + r.capacity) back
  refine ⟨⟨ht.store, ?_, ?_, ?_⟩, ht.covers_iff hr.store (fun b hb => ⟨(hr.sound b hb).1, ?_⟩) (by omega) (by omega)⟩
  · intro b hb
    rw [ht.list] at hb
    rcases List.mem_append.mp hb with hb | hb
    · have := hplaced b (List.mem_append_left _ hb)
      exact ⟨this.1, this.2.1⟩
    · rw [List.mem_singleton.mp hb]
      exact ⟨hcs, ne_nil_of_first_lt_stop (by omega)⟩
  · intro b hb
    rw [ht.list] at hb
    rw [ht.firstindex, ht.capacity]
    rcases List.mem_append.mp hb with hb | hb
    · have := hinit b hb
      omega
    · rw [List.mem_singleton.mp hb]
      omega
  · rw [ht.firstindex, ht.capacity]
    exact hr.awake
  · have := hr.window b hb
    have := b.first_le_stop
    omega

theorem covers_leftover {front : Inforsubstr} {rest : List Inforsubstr} {n : Nat}
    (hg : Gapped first stop (front :: rest)) (hn : n ≤ front.data.length) (i : Nat) :
    Covers first stop (leftover front n rest) i ↔ front.first + n ≤ i ∧ Covers first stop (front :: rest) i := by
  have hgap := (gapped_cons.mp hg).1
  have hstop : front.stop = front.first + front.data.length := rfl
  have hrest : Covers first stop rest i → front.stop < i := by
    rintro ⟨b, hb, hi⟩
    have := hgap b hb
    omega
  rw [covers_cons, leftover]
  split_ifs with c
  · rw [covers_cons, leftover_stop front hn]
    simp only
    constructor
    · rintro (hi | hi)
      · exact ⟨hi.1, Or.inl ⟨by omega, hi.2⟩⟩
      · exact ⟨by have := hrest hi; omega, Or.inr hi⟩
    · rintro ⟨h1, hi | hi⟩
      · exact Or.inl ⟨h1, hi.2⟩
      · exact Or.inr hi
  · constructor
    · intro hi
      exact ⟨by have := hrest hi; omega, Or.inr hi⟩
    · rintro ⟨h1, hi | hi⟩
      · omega
      · exact hi

theorem InWindow.writeFront (hr : r.InWindow) (hcap : r.capacity < 2 ^ 64) :
    r.writeFront.InWindow ∧ ∀ i, Covers first stop r.writeFront.storelist i ↔
      r.writeFront.firstindex ≤ i ∧ Covers first stop r.storelist i := by
  have hstore := hr.store.writeFront hcap
  rcases hr.store.writeFront_cases with ⟨heq, hwait⟩ | ⟨front, rest, bytes, hlist, hF, hs, -, heq⟩
  · rw [heq]
    refine ⟨hr, fun i => ⟨fun hi => ⟨?_, hi⟩, And.right⟩⟩
    obtain ⟨b, hb, hi⟩ := hi
    have := hwait b hb
    omega
  have hn : writable r front ≤ front.data.length := Nat.min_le_right _ _
  have hg := hr.store.gapped
  rw [hlist] at hg
  rw [heq] at hstore ⊢
  refine ⟨⟨hstore, ?_, ?_, ?_⟩, ?_⟩
  · intro b hb
    rcases mem_leftover hb with hb | ⟨hlt, rfl⟩
    · exact hr.sound b (by simp [hlist, hb])
    · have hst := leftover_stop front hn
      refine ⟨?_, ?_⟩
      · simp only [Sound] at hs ⊢
        rw [hst]
        exact hs
      · simp only [ne_eq, List.drop_eq_nil_iff]
        omega
  · intro b hb
    simp only
    rcases mem_leftover hb with hb | ⟨hlt, rfl⟩
    · have := hr.window b (by simp [hlist, hb])
      omega
    · have := hr.window front (by simp [hlist])
      rw [leftover_stop front hn]
      omega
  · -- With no capacity nothing was written.
    rcases hr.awake with h | h
    · exact Or.inl h
    · rcases Nat.eq_zero_or_pos r.capacity with hzero | hpos
      · right
        have hrc := ByteStream.remainingCapacity_eq hr.store.stream.fits (by rw [hr.store.room]; exact hcap)
        rw [hr.store.room] at hrc
        have : writable r front ≤ r.output.remainingCapacity := Nat.min_le_left _ _
        simp only
        omega
      · exact Or.inl hpos
  · intro i
    rw [hlist, covers_leftover hg hn, hF]

theorem InWindow.setEnd (hr : r.InWindow) (c e : Bool) :
    ({ r with checkeof := c, output := { r.output with ended := e } } : StreamReassembler).InWindow :=
  ⟨hr.store.setEnd c e, hr.sound, hr.window, hr.awake⟩

theorem InWindow.readOut (hr : r.InWindow) (len : Nat) : (r.readOut len).InWindow :=
  ⟨hr.store.readOut len, hr.sound, hr.window, hr.awake⟩

theorem Store.unassembledBytes_ncard (hr : r.Store) :
    r.unassembledBytes = {i | Covers first stop r.storelist i}.ncard := by
  rw [ncard_covers hr.gapped, hr.unassembledBytes_eq, storedBytes]

/-! ## Substrings with nothing new -/

/-- No block reaches past the window, and none without bytes stands at `firstindex`. -/
structure Tidy (r : StreamReassembler) : Prop where
  store : r.Store
  sound : ∀ b ∈ r.storelist, b.Sound ∧ b.stop ≤ r.firstindex + r.capacity
  front : ∀ b ∈ r.storelist, b.data = [] → r.firstindex < b.first

instance (r : StreamReassembler) : Decidable r.Tidy :=
  decidable_of_iff
    (r.Store ∧ (∀ b ∈ r.storelist, b.Sound ∧ b.stop ≤ r.firstindex + r.capacity) ∧
      (∀ b ∈ r.storelist, b.data = [] → r.firstindex < b.first))
    ⟨fun ⟨h1, h2, h3⟩ => ⟨h1, h2, h3⟩, fun h => ⟨h.store, h.sound, h.front⟩⟩

variable {data : List UInt8} {index : Nat}

theorem Tidy.trimmed_front (hr : r.Tidy) (hcap : 0 < r.capacity) (ht : Trimmed r sub eof init back m t)
    (hnew : r.firstindex < sub.stop) : ∀ b ∈ t.storelist, b.first = r.firstindex → b.first < b.stop := by
  have hfull : ∀ b ∈ init ++ [back], b.first = r.firstindex → b.Sound ∧ b.first < b.stop := by
    intro b hb hF
    rcases ht.placed.rest b hb with rfl | hb
    · have := ht.placed.stop_le
      exact ⟨ht.placed.sound, by omega⟩
    · refine ⟨(hr.sound b hb).1, first_lt_stop fun hnil => ?_⟩
      have := hr.front b hb hnil
      omega
  intro b hb hF
  rw [ht.list] at hb
  rcases List.mem_append.mp hb with hb | hb
  · exact (hfull b (List.mem_append_left _ hb) hF).2
  · obtain rfl := List.mem_singleton.mp hb
    rw [cut_first] at hF ⊢
    obtain ⟨hs, hlt⟩ := hfull back (by simp) hF
    rw [(cut_sound hs (by omega) (by omega : 0 < r.firstindex + r.capacity)).2]
    omega

theorem Store.writeFront_blocked (hr : r.Store) (hcap : r.capacity < 2 ^ 64)
    (hfront : ∀ b ∈ r.storelist, b.first = r.firstindex → b.first < b.stop)
    (hblocked : Covers first stop r.storelist r.firstindex → r.output.remainingCapacity = 0) :
    r.writeFront.output = r.output ∧ r.writeFront.unassembledBytes = r.unassembledBytes := by
  have hstore := hr.writeFront hcap
  rcases hr.writeFront_cases with ⟨heq, -⟩ | ⟨front, rest, bytes, hlist, hF, -, -, heq⟩
  · rw [heq]
    exact ⟨rfl, rfl⟩
  have hmem : front ∈ r.storelist := by simp [hlist]
  have hlt := hfront front hmem hF
  -- The front block is ready to be written, and the stream has no room for a byte of it.
  have hzero : writable r front = 0 := by
    unfold writable
    rw [hblocked ⟨front, hmem, by omega, by omega⟩, Nat.zero_min]
  have hlen : 0 < front.data.length := by
    simp only [Inforsubstr.stop] at hlt
    omega
  have hleft : leftover front 0 rest = r.storelist := by
    rw [leftover, if_pos hlen, hlist]
    rfl
  rw [hstore.unassembledBytes_eq, hr.unassembledBytes_eq, heq]
  simp only [hzero, hleft]
  simp [hlist]

/-- A call that changes neither the output nor the count. -/
def Quiet (r : StreamReassembler) (data : List UInt8) (index : Nat) (eof : Bool) : Prop :=
  ∃ r', pushSubstring r data index eof = some r' ∧ r'.output = r.output ∧
    r'.unassembledBytes = r.unassembledBytes

theorem endInput_eq_self_iff {s : ByteStream} {c : Prop} [Decidable c] :
    (if c then s.endInput else s) = s ↔ (c → s.ended = true) := by
  split_ifs with hc
  · constructor
    · exact fun h _ => (congrArg ByteStream.ended h).symm
    · intro h
      rw [ByteStream.endInput, ← h hc]
  · exact iff_of_true rfl fun h => absurd h hc

theorem quiet_nil_iff : Quiet r [] index eof ↔
    (eof = true ∨ r.checkeof = true → index = r.firstindex → r.output.ended = true) := by
  unfold Quiet
  simp only [pushSubstring_nil, Option.some.injEq, exists_eq_left', unassembledBytes, and_true, Bool.and_eq_true,
    Bool.or_eq_true, beq_iff_eq]
  rw [endInput_eq_self_iff, and_imp, eq_comm (a := index)]

theorem Tidy.trimmed (hr : r.Tidy) (hcap : 0 < r.capacity) (eof : Bool) (hne : data ≠ [])
    (hnew : r.firstindex < index + data.length) (hend : index + data.length < 2 ^ 64)
    (hlimit : r.firstindex + r.capacity < 2 ^ 64) :
    ∃ init back m t, Trimmed r (pushed data index) eof init back m t ∧
      pushSubstring r data index eof = some t.writeFront := by
  have hsound : (pushed data index).Sound := pushed_sound hne
  obtain ⟨p, hp⟩ := insertLoop_total r.privateUnassembledBytes hr.store.stored hr.store.gapped hsound hne hend
    fun b hb => not_jams_of_sound (hr.sound b hb).1 _
  exact hr.store.pushSubstring_trimmed eof hne hend hnew hlimit (by omega) hp

theorem Tidy.covers_iff (hr : r.Tidy) (hcap : 0 < r.capacity)
    (ht : Trimmed r (pushed data index) eof init back m t) (hbegin : index ≤ r.firstindex + r.capacity) (i : Nat) :
    Covers first stop t.storelist i ↔ Covers first stop r.storelist i ∨
      (r.firstindex ≤ i ∧ i < r.firstindex + r.capacity ∧ index ≤ i ∧ i < index + data.length) := by
  have hfirst : ∀ b ∈ r.storelist, b.Sound ∧ b.first ≤ r.firstindex + r.capacity := by
    intro b hb
    have hstop := (hr.sound b hb).2
    have hle := b.first_le_stop
    exact ⟨(hr.sound b hb).1, by omega⟩
  have hsub : (pushed data index).stop = index + data.length := rfl
  rw [ht.covers_iff hr.store hfirst hbegin (by omega), hsub]
  constructor
  · rintro ⟨h1, h2, h3 | h3⟩
    · exact Or.inr ⟨h1, h2, h3⟩
    · exact Or.inl h3
  · rintro (⟨b, hb, hi⟩ | ⟨h1, h2, h3⟩)
    · have hahead := hr.store.ahead b hb
      have hstop := (hr.sound b hb).2
      exact ⟨by omega, by omega, Or.inr ⟨b, hb, hi⟩⟩
    · exact ⟨h1, h2, Or.inl h3⟩

theorem Store.blocked_of_writeFront (hr : r.Store) (hcap : r.capacity < 2 ^ 64)
    (hfront : ∀ b ∈ r.storelist, b.first = r.firstindex → b.first < b.stop) (hout : r.writeFront.output = r.output) :
    r.writeFront.unassembledBytes = r.unassembledBytes ∧
      (Covers first stop r.storelist r.firstindex → r.output.remainingCapacity = 0) := by
  have hblocked : Covers first stop r.storelist r.firstindex → r.output.remainingCapacity = 0 := by
    rintro ⟨b, hb, hi⟩
    rcases hr.writeFront_cases with ⟨-, hwait⟩ | ⟨front, rest, bytes, hlist, hF, -, -, heq⟩
    · have := hwait b hb
      omega
    · have hlt := hfront front (by simp [hlist]) hF
      have hlen : 0 < front.data.length := by
        simp only [Inforsubstr.stop] at hlt
        omega
      have hwritten := congrArg ByteStream.alwritten hout
      rw [heq] at hwritten
      simp only [writable] at hwritten
      omega
  exact ⟨(hr.writeFront_blocked hcap hfront hblocked).2, hblocked⟩

/-- A substring that begins no later than the end of the window has no effect exactly when its indices
in the window are stored already and nothing that is stored can be written. -/
theorem Tidy.quiet_iff (hr : r.Tidy) (hcap : 0 < r.capacity) (eof : Bool) (hne : data ≠ [])
    (hnew : r.firstindex < index + data.length) (hbegin : index ≤ r.firstindex + r.capacity)
    (hrange : r.firstindex + r.capacity + data.length < 2 ^ 64) :
    Quiet r data index eof ↔
      (∀ i, index ≤ i → i < index + data.length → r.firstindex ≤ i → i < r.firstindex + r.capacity →
        Covers first stop r.storelist i) ∧
      (Covers first stop r.storelist r.firstindex → r.output.remainingCapacity = 0) := by
  obtain ⟨init, back, m, t, ht, heq⟩ := hr.trimmed hcap eof hne hnew (by omega) (by omega)
  have hcovers := hr.covers_iff hcap ht hbegin
  have hfront : ∀ b ∈ t.storelist, b.first = t.firstindex → b.first < b.stop := by
    rw [ht.firstindex]
    exact hr.trimmed_front hcap ht hnew
  have hsmall : t.capacity < 2 ^ 64 := by
    rw [ht.capacity]
    omega
  constructor
  · rintro ⟨r', hr', hout, hcount⟩
    rw [heq] at hr'
    cases hr'
    obtain ⟨hsame, hblocked⟩ := ht.store.blocked_of_writeFront hsmall hfront (hout.trans ht.output.symm)
    rw [ht.firstindex, ht.output] at hblocked
    -- As many indices are covered as before, and the old ones still are.
    have hcard : {i | Covers first stop t.storelist i}.ncard = {i | Covers first stop r.storelist i}.ncard := by
      rw [← ht.store.unassembledBytes_ncard, ← hr.store.unassembledBytes_ncard, ← hsame, hcount]
    have hsub : {i | Covers first stop r.storelist i} ⊆ {i | Covers first stop t.storelist i} :=
      fun i hi => (hcovers i).mpr (Or.inl hi)
    have hequal := Set.eq_of_subset_of_ncard_le hsub hcard.le (covers_finite _)
    refine ⟨fun i h1 h2 h3 h4 => ?_, fun hF => hblocked ((hcovers _).mpr (Or.inl hF))⟩
    have hi : i ∈ {i | Covers first stop t.storelist i} := (hcovers i).mpr (Or.inr ⟨h3, h4, h1, h2⟩)
    rw [← hequal] at hi
    exact hi
  · rintro ⟨hheld, hblocked⟩
    have hsame : ∀ i, Covers first stop t.storelist i ↔ Covers first stop r.storelist i := by
      intro i
      rw [hcovers i]
      exact ⟨fun hi => hi.elim id fun ⟨h1, h2, h3, h4⟩ => hheld i h3 h4 h1 h2, Or.inl⟩
    have hwrite := ht.store.writeFront_blocked hsmall hfront (by rw [ht.firstindex, hsame, ht.output]; exact hblocked)
    refine ⟨_, heq, hwrite.1.trans ht.output, hwrite.2.trans ?_⟩
    rw [ht.store.unassembledBytes_ncard, hr.store.unassembledBytes_ncard]
    simp only [hsame]

theorem Tidy.storelist_eq_nil (hr : r.Tidy) (hcap : r.capacity = 0) : r.storelist = [] := by
  rw [List.eq_nil_iff_forall_not_mem]
  intro b hb
  have hahead := hr.store.ahead b hb
  have hstop := (hr.sound b hb).2
  have hnil : b.data = [] := by
    rw [← List.length_eq_zero_iff]
    simp only [Inforsubstr.stop] at hstop
    omega
  have := hr.front b hb hnil
  have := b.first_le_stop
  omega

theorem writeFront_of_data_nil {front : Inforsubstr} (hlist : r.storelist = [front])
    (h : front.first = r.firstindex) (hnil : front.data = []) (hlast : add64 front.last 1 = r.firstindex)
    (hzero : r.unassembledBytes = 0) :
    writeFront r = { r with
      storelist := []
      output := if r.checkeof then r.output.endInput else r.output } := by
  unfold unassembledBytes at hzero
  have hnone : sub64 r.privateUnassembledBytes 0 = r.privateUnassembledBytes := by
    unfold sub64
    omega
  unfold writeFront
  rw [hlist]
  simp only [if_pos h]
  rw [hnil, List.length_nil, if_neg (Nat.not_lt_zero _), ByteStream.write_of_le (Nat.zero_le _), hlast, List.length_nil,
    hnone, List.append_nil, Nat.add_zero]
  simp only [empty, unassembledBytes, List.length_nil, hzero, beq_self_eq_true, Bool.and_self, Bool.true_and]
  split_ifs
  · rfl
  · rfl

theorem pushSubstring_of_capacity_zero (hcap : r.capacity = 0) (hlist : r.storelist = [])
    (hzero : r.privateUnassembledBytes = 0) (hne : data ≠ []) (hbegin : index ≤ r.firstindex)
    (hnew : r.firstindex < index + data.length) (hend : index + data.length < 2 ^ 64) :
    pushSubstring r data index eof = some { r with
      checkeof := eof || r.checkeof
      output := if eof || r.checkeof then r.output.endInput else r.output } := by
  have hpos := List.length_pos_of_ne_nil hne
  have hlast : sub64 (add64 index data.length) 1 = index + data.length - 1 := by
    unfold sub64 add64
    omega
  have hmark : (if eof = true then eof else r.checkeof) = (eof || r.checkeof) := by cases eof <;> rfl
  -- The block that is left starts at `firstindex`, so that `trimBack` keeps nothing of it.
  have hfront : trimFront { r with
        checkeof := eof || r.checkeof
        storelist := [⟨index, index + data.length - 1, data⟩]
        privateUnassembledBytes := add64 r.privateUnassembledBytes data.length } = some { r with
        checkeof := eof || r.checkeof
        storelist := [⟨r.firstindex, index + data.length - 1, data.drop (r.firstindex - index)⟩]
        privateUnassembledBytes := data.length - (r.firstindex - index) } := by
    unfold trimFront
    simp only
    split_ifs with hlt
    · have hcount : add64 (sub64 (add64 r.privateUnassembledBytes data.length) data.length)
          (data.length - (r.firstindex - index)) = data.length - (r.firstindex - index) := by
        unfold add64 sub64
        omega
      rw [sub64_eq_sub hbegin (by omega), substr, if_neg (by omega)]
      simp only [List.length_drop, hcount]
    · obtain rfl : index = r.firstindex := by omega
      simp only [Nat.sub_self, List.drop_zero, Nat.sub_zero]
      rw [hzero, add64_eq (by omega), Nat.zero_add]
  have hback : trimBack { r with
        checkeof := eof || r.checkeof
        storelist := [⟨r.firstindex, index + data.length - 1, data.drop (r.firstindex - index)⟩]
        privateUnassembledBytes := data.length - (r.firstindex - index) } = { r with
        checkeof := eof || r.checkeof
        storelist := [⟨r.firstindex, sub64 r.firstindex 1, []⟩] } := by
    unfold trimBack
    simp only [List.getLast?_singleton, hcap, Nat.add_zero, add64_eq (show r.firstindex + 0 < 2 ^ 64 by omega),
      add64_eq (show index + data.length - 1 + 1 < 2 ^ 64 by omega)]
    rw [if_pos (by omega), sub64_eq_sub le_rfl (by omega), Nat.sub_self, List.take_zero, List.length_drop]
    have hcount : add64 (sub64 (data.length - (r.firstindex - index)) (data.length - (r.firstindex - index))) 0 = 0 := by
      unfold add64 sub64
      omega
    simp only [List.dropLast_singleton, List.nil_append, List.length_nil, hzero, hcount]
  unfold pushSubstring
  simp only [hlast, hlist, insertLoop, hmark]
  rw [if_neg (by omega), if_neg (by omega), hfront]
  simp only [hback]
  have hsame : add64 (sub64 r.firstindex 1) 1 = r.firstindex := by
    unfold sub64 add64
    omega
  rw [Option.some.injEq]
  exact writeFront_of_data_nil rfl rfl rfl hsame hzero

theorem Tidy.quiet_iff_of_capacity_zero (hr : r.Tidy) (hcap : r.capacity = 0) (hne : data ≠ [])
    (hbegin : index ≤ r.firstindex) (hnew : r.firstindex < index + data.length) (hend : index + data.length < 2 ^ 64) :
    Quiet r data index eof ↔ (eof = true ∨ r.checkeof = true → r.output.ended = true) := by
  have hlist := hr.storelist_eq_nil hcap
  have hzero : r.privateUnassembledBytes = 0 := by
    rw [hr.store.counted, hlist]
    rfl
  unfold Quiet
  rw [pushSubstring_of_capacity_zero hcap hlist hzero hne hbegin hnew hend]
  simp only [Option.some.injEq, exists_eq_left', unassembledBytes, and_true, Bool.or_eq_true]
  exact endInput_eq_self_iff

/-! ## Substrings behind all blocks -/

theorem insertLoop_behind {l : List Inforsubstr} (bytes : Nat)
    (hl : ∀ b ∈ l, b.stop < 2 ^ 64 ∧ b.stop < sub.first) :
    insertLoop l sub bytes = some (l ++ [sub], add64 bytes sub.data.length) := by
  induction l with
  | nil => rfl
  | cons temp l ih =>
    obtain ⟨⟨hrange, hlt⟩, hl'⟩ := List.forall_mem_cons.mp hl
    have hadd : add64 temp.first temp.data.length = temp.stop := add64_eq hrange
    unfold insertLoop
    rw [hadd, if_pos hlt, ih hl', List.cons_append]

theorem trimBack_behind (hlist : r.storelist = init ++ [back]) (hlimit : r.firstindex + r.capacity < back.first)
    (hfirst : back.first < 2 ^ 64) (hpos : 0 < back.data.length)
    (hc : Counted r.storelist r.privateUnassembledBytes) :
    ∃ b bytes, r.trimBack = r.setStore (init ++ [b]) bytes ∧ Counted (init ++ [b]) bytes ∧ b.first = back.first ∧
      0 < b.data.length ∧ b.data.length ≤ back.data.length := by
  unfold trimBack
  rw [hlist, List.getLast?_concat]
  simp only [add64_eq (show r.firstindex + r.capacity < 2 ^ 64 by omega)]
  rw [hlist, Counted, storedBytes_concat] at hc
  split_ifs
  · rw [List.dropLast_concat]
    refine ⟨_, _, rfl, ?_, rfl, ?_, ?_⟩
    · rw [Counted, storedBytes_concat]
      exact recount hc _
    · simp only [List.length_take, sub64]
      omega
    · simp
  · refine ⟨back, r.privateUnassembledBytes, ?_, ?_, rfl, hpos, le_rfl⟩
    · rw [setStore, ← hlist]
    · rw [Counted, storedBytes_concat]
      exact hc

theorem Tidy.writeFront_behind (hr : r.Tidy) {b : Inforsubstr} (hsame : t.writeFront.output = r.output)
    (hbytes : t.writeFront.unassembledBytes = r.unassembledBytes) (hlist : t.storelist = r.storelist ++ [b])
    (hout : t.output = r.output) (hF : t.firstindex = r.firstindex) (hb : r.firstindex < b.first)
    (hpos : 0 < b.data.length) (hlen : b.data.length < 2 ^ 64) (hc : Counted t.storelist t.privateUnassembledBytes) :
    False := by
  -- The new block is counted until something is written, and a write shows in the output.
  have hcount : ∀ bytes, Counted t.storelist bytes → bytes ≠ r.unassembledBytes := by
    intro bytes hbytes
    have hold := hr.store.counted
    rw [hlist, Counted, storedBytes_concat] at hbytes
    unfold unassembledBytes
    omega
  cases hstore : r.storelist with
  | nil =>
    rw [hstore, List.nil_append] at hlist
    rw [writeFront_of_ne hlist (by omega)] at hbytes
    exact hcount _ hc hbytes
  | cons front rest =>
    have hmem : front ∈ r.storelist := by simp [hstore]
    rw [hstore, List.cons_append] at hlist
    by_cases hfirst : front.first = t.firstindex
    · obtain ⟨bytes, hcounted, heq⟩ :=
        writeFront_eq hlist hfirst (hr.sound front hmem).1 (hr.store.stored front hmem).range hc
      have hfull : 0 < front.data.length := by
        apply List.length_pos_of_ne_nil
        intro hnil
        have := hr.front front hmem hnil
        omega
      by_cases hzero : writable t front = 0
      · have hleft : leftover front 0 (rest ++ [b]) = t.storelist := by
          rw [leftover, if_pos hfull, hlist]
          rfl
        rw [hzero, hleft] at hcounted
        rw [heq] at hbytes
        exact hcount bytes hcounted hbytes
      · have hwritten := congrArg ByteStream.alwritten hsame
        rw [heq, ← hout] at hwritten
        simp only at hwritten
        omega
    · rw [writeFront_of_ne hlist hfirst] at hbytes
      exact hcount _ hc hbytes

theorem Tidy.not_quiet_behind (hr : r.Tidy) (eof : Bool) (hne : data ≠ [])
    (hlast : r.firstindex ≤ sub64 (add64 index data.length) 1) (hbegin : r.firstindex + r.capacity < index)
    (hindex : index < 2 ^ 64) (hlen : data.length < 2 ^ 64) : ¬ Quiet r data index eof := by
  have hpos := List.length_pos_of_ne_nil hne
  -- The data begins behind the window and so behind every block: it is stored last.
  have hins : insertLoop r.storelist ⟨index, sub64 (add64 index data.length) 1, data⟩ r.privateUnassembledBytes =
      some (r.storelist ++ [⟨index, sub64 (add64 index data.length) 1, data⟩],
        add64 r.privateUnassembledBytes data.length) := by
    apply insertLoop_behind
    intro b hb
    have hrange := (hr.store.stored b hb).range
    have hstop := (hr.sound b hb).2
    exact ⟨hrange, by simp only; omega⟩
  rintro ⟨r', hpush, hout, hcount⟩
  unfold pushSubstring at hpush
  simp only [hins] at hpush
  rw [if_neg (by omega), if_neg (by omega)] at hpush
  -- Nothing begins before the first unassembled byte, so nothing is cut in front.
  have hahead : ∀ b ∈ r.storelist ++ [⟨index, sub64 (add64 index data.length) 1, data⟩], r.firstindex ≤ b.first := by
    intro b hb
    rcases List.mem_append.mp hb with hb | hb
    · exact hr.store.ahead b hb
    · rw [List.mem_singleton.mp hb]
      simp only
      omega
  rw [trimFront_of_ahead hahead] at hpush
  have hc : Counted (r.storelist ++ [⟨index, sub64 (add64 index data.length) 1, data⟩])
      (add64 r.privateUnassembledBytes data.length) := by
    have hold := hr.store.counted
    rw [Counted, storedBytes_concat]
    simp only [add64]
    omega
  obtain ⟨b, bytes, hback, hcounted, hfirst, hkept, hle⟩ := trimBack_behind (r := { r with
      checkeof := if eof then eof else r.checkeof
      storelist := r.storelist ++ [⟨index, sub64 (add64 index data.length) 1, data⟩]
      privateUnassembledBytes := add64 r.privateUnassembledBytes data.length }) rfl hbegin hindex hpos hc
  simp only [hback, Option.some.injEq] at hpush
  subst hpush
  simp only at hfirst hle
  exact hr.writeFront_behind hout hcount rfl rfl rfl (by omega) hkept (by omega) hcounted

end StreamReassembler

end Sponge
