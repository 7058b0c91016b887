import Sponge.Lib.Slice
import Sponge.Lib.Spans
import Sponge.Reassembler.Model

/-!
# Blocks, and what the insertion loop makes of them

A block whose `last` is the index of its last byte is sound. A substring that
starts past the window is stored with the `last` that the window allows, which
lies below its `first`: such a block is stray. A sound substring is never merged
with a stray block: the loop throws, or it drops the stray block.
-/

namespace Sponge

open Word64 Slice Spans

namespace Inforsubstr

def stop (b : Inforsubstr) : Nat := b.first + b.data.length

def Sound (b : Inforsubstr) : Prop := b.last + 1 = b.stop

def Stray (b : Inforsubstr) : Prop := b.last + 1 < b.first

/-- A block of the store: it stays in range, and it is sound or stray. -/
structure Stored (b : Inforsubstr) : Prop where
  range : b.stop < 2 ^ 64
  shape : b.Sound ∨ b.Stray

instance (b : Inforsubstr) : Decidable b.Sound := inferInstanceAs (Decidable (_ = _))

instance (b : Inforsubstr) : Decidable b.Stray := inferInstanceAs (Decidable (_ < _))

instance (b : Inforsubstr) : Decidable b.Stored :=
  decidable_of_iff (b.stop < 2 ^ 64 ∧ (b.Sound ∨ b.Stray)) ⟨fun h => ⟨h.1, h.2⟩, fun h => ⟨h.range, h.shape⟩⟩

@[simp] theorem stop_sub_first (b : Inforsubstr) : b.stop - b.first = b.data.length := by
  simp [stop]

theorem first_le_stop (b : Inforsubstr) : b.first ≤ b.stop := Nat.le_add_right _ _

theorem first_lt_stop {b : Inforsubstr} (h : b.data ≠ []) : b.first < b.stop := by
  have := List.length_pos_of_ne_nil h
  simp only [stop]
  omega

end Inforsubstr

open Inforsubstr

namespace StreamReassembler

theorem substr_of_le {s : List UInt8} {pos : Nat} (h : pos ≤ s.length) :
    substr s pos = some (s.drop pos) := by
  rw [substr, if_neg (by omega)]

/-! ## One block and the substring -/

section Overlap

variable {temp sub : Inforsubstr}

/-- What `overlap` makes of a sound block and a sound substring that meet: their hull. -/
structure Hull (temp sub m : Inforsubstr) : Prop where
  sound : m.Sound
  first : m.first = min temp.first sub.first
  stop : m.stop = max temp.stop sub.stop
  slice : ∀ S, IsSlice S temp.first temp.data → IsSlice S sub.first sub.data → IsSlice S m.first m.data

theorem Hull.symm {m : Inforsubstr} (h : Hull temp sub m) : Hull sub temp m where
  sound := h.sound
  first := h.first.trans (min_comm _ _)
  stop := h.stop.trans (max_comm _ _)
  slice S hsub htemp := h.slice S htemp hsub

theorem hull_append (hs : sub.Sound) (hfirst : temp.first ≤ sub.first) (hmeet : sub.first ≤ temp.stop)
    (hstop : temp.stop ≤ sub.stop) :
    Hull temp sub ⟨temp.first, sub.last, temp.data ++ sub.data.drop (temp.stop - sub.first)⟩ := by
  simp only [Sound, Inforsubstr.stop] at hs hmeet hstop
  refine ⟨?_, ?_, ?_, ?_⟩
  · simp only [Sound, Inforsubstr.stop, List.length_append, List.length_drop]
    omega
  · simp only
    omega
  · simp only [Inforsubstr.stop, List.length_append, List.length_drop]
    omega
  · intro S hT hS
    exact hT.append (hS.drop_to hmeet)

theorem overlap_sound (ht : temp.Sound) (hs : sub.Sound) (htr : temp.stop < 2 ^ 64)
    (hsr : sub.stop < 2 ^ 64) (h1 : sub.first ≤ temp.stop) (h2 : temp.first ≤ sub.stop) :
    ∃ m, overlap temp sub = some m ∧ Hull temp sub m := by
  simp only [Sound, Inforsubstr.stop] at ht hs htr hsr h1 h2
  unfold overlap
  split_ifs with c1 c2 c3
  · -- The substring lies inside the block.
    refine ⟨temp, rfl, ht, by omega, ?_, fun S h _ => h⟩
    simp only [Inforsubstr.stop]
    omega
  · have hpos : sub64 (add64 temp.last 1) sub.first = temp.first + temp.data.length - sub.first := by
      rw [add64_eq (by omega), sub64_eq (by omega) (by omega), ht]
    rw [hpos, substr_of_le (by omega)]
    exact ⟨_, rfl, hull_append hs c2.1 h1 (by simp only [Inforsubstr.stop]; omega)⟩
  · -- The other way round, the substring comes first.
    have hpos : sub64 (add64 sub.last 1) temp.first = sub.first + sub.data.length - temp.first := by
      rw [add64_eq (by omega), sub64_eq (by omega) (by omega), hs]
    rw [hpos, substr_of_le (by omega)]
    exact ⟨_, rfl, (hull_append ht c3.1 h2 (by simp only [Inforsubstr.stop]; omega)).symm⟩
  · -- The substring covers the block.
    refine ⟨sub, rfl, hs, by omega, ?_, fun S _ h => h⟩
    simp only [Inforsubstr.stop]
    omega

theorem Hull.data_ne_nil {m : Inforsubstr} (h : Hull temp sub m) (hne : sub.data ≠ []) : m.data ≠ [] := by
  have hlt := first_lt_stop hne
  have hfirst := h.first
  have hstop := h.stop
  intro hnil
  simp only [Inforsubstr.stop, hnil, List.length_nil] at hstop hfirst hlt
  omega

/-- A stray block that meets a sound substring: the call throws when the block begins first, and
drops the block otherwise. -/
theorem overlap_stray (ht : temp.Stray) (hs : sub.Sound) (hne : sub.data ≠ [])
    (hsr : sub.stop < 2 ^ 64) (h2 : temp.first ≤ sub.stop) :
    overlap temp sub = if temp.first ≤ sub.first then none else some sub := by
  have hpos := List.length_pos_of_ne_nil hne
  simp only [Sound, Stray, Inforsubstr.stop] at ht hs hsr h2
  unfold overlap
  rw [if_neg (by omega)]
  split_ifs with c1 c2 c3 c4
  · -- The position passed to `substr` is below zero, so it wraps.
    rw [add64_eq (by omega), sub64_of_lt (by omega) (by omega), substr, if_pos (by omega)]
  · omega
  · omega
  · omega
  · omega
  · rfl

end Overlap

/-! ## The loop -/

/-- The list `l'` is `l` with the substring put in: `m` holds the substring together with the
sound blocks it met, and every other block comes from `l`. -/
structure Inserted (l : List Inforsubstr) (sub : Inforsubstr) (l' : List Inforsubstr)
    (m : Inforsubstr) : Prop where
  mem : m ∈ l'
  sound : m.Sound
  first_le : m.first ≤ sub.first
  stop_le : sub.stop ≤ m.stop
  /-- `m` holds no index but those of the substring and of the blocks. -/
  only : ∀ i, m.first ≤ i → i < m.stop → (sub.first ≤ i ∧ i < sub.stop) ∨ Covers first stop l i
  rest : ∀ b ∈ l', b = m ∨ b ∈ l
  kept : ∀ t ∈ l, t.Sound → t ∈ l' ∨ (m.first ≤ t.first ∧ t.stop ≤ m.stop)
  gapped : Gapped first stop l'
  slice : ∀ S, (∀ t ∈ l, IsSlice S t.first t.data) → IsSlice S sub.first sub.data →
    IsSlice S m.first m.data

section Loop

variable {l l' : List Inforsubstr} {temp sub m : Inforsubstr} {bytes bytes' : Nat}

theorem Inserted.nil (hs : sub.Sound) : Inserted [] sub [sub] sub where
  mem := List.mem_singleton_self _
  sound := hs
  first_le := le_refl _
  stop_le := le_refl _
  only := fun _ h1 h2 => Or.inl ⟨h1, h2⟩
  rest := by simp
  kept := by simp
  gapped := List.pairwise_singleton _ _
  slice := fun _ _ h => h

theorem Inserted.before (hs : sub.Sound) (hg : Gapped first stop (temp :: l))
    (hlt : sub.stop < temp.first) : Inserted (temp :: l) sub (sub :: temp :: l) sub where
  mem := List.mem_cons_self
  sound := hs
  first_le := le_refl _
  stop_le := le_refl _
  only := fun _ h1 h2 => Or.inl ⟨h1, h2⟩
  rest := fun b hb => List.mem_cons.mp hb
  kept := fun t ht _ => Or.inl (List.mem_cons_of_mem _ ht)
  gapped := by
    refine gapped_cons.mpr ⟨?_, hg⟩
    intro y hy
    have := hg.lo_le_of_mem temp.first_le_stop y hy
    omega
  slice := fun _ _ h => h

theorem Inserted.skip (h : Inserted l sub l' m) (hne : sub.data ≠ []) (hg : Gapped first stop (temp :: l))
    (hlt : temp.stop < sub.first) : Inserted (temp :: l) sub (temp :: l') m where
  mem := List.mem_cons_of_mem _ h.mem
  sound := h.sound
  first_le := h.first_le
  stop_le := h.stop_le
  only := by
    intro i h1 h2
    rcases h.only i h1 h2 with hi | hi
    · exact Or.inl hi
    · exact Or.inr ((covers_cons i).mpr (Or.inr hi))
  rest := by
    intro b hb
    rcases List.mem_cons.mp hb with rfl | hb
    · exact Or.inr List.mem_cons_self
    · exact (h.rest b hb).imp id (List.mem_cons_of_mem _)
  kept := by
    intro t ht hts
    rcases List.mem_cons.mp ht with rfl | ht
    · exact Or.inl List.mem_cons_self
    · exact (h.kept t ht hts).imp (List.mem_cons_of_mem _) id
  gapped := by
    obtain ⟨hgap, -⟩ := gapped_cons.mp hg
    refine gapped_cons.mpr ⟨?_, h.gapped⟩
    intro y hy
    rcases h.rest y hy with rfl | hy
    · -- `y` starts with the substring, or with a block after `temp`.
      have hlt' := first_lt_stop hne
      have := h.first_le
      have := h.stop_le
      rcases h.only y.first (le_refl _) (by omega) with hi | ⟨t, ht, hi, -⟩
      · omega
      · have := hgap t ht
        omega
    · exact hgap y hy
  slice := fun S hS hsub => h.slice S (fun t ht => hS t (List.mem_cons_of_mem _ ht)) hsub

theorem Inserted.merge {sub' : Inforsubstr} (hull : Hull temp sub sub') (h : Inserted l sub' l' m)
    (h1 : sub.first ≤ temp.stop) (h2 : temp.first ≤ sub.stop) : Inserted (temp :: l) sub l' m where
  mem := h.mem
  sound := h.sound
  first_le := by
    have := h.first_le
    have := hull.first
    omega
  stop_le := by
    have := h.stop_le
    have := hull.stop
    omega
  only := by
    intro i hi1 hi2
    have := hull.first
    have := hull.stop
    rw [covers_cons]
    rcases h.only i hi1 hi2 with hi | hi
    · omega
    · exact Or.inr (Or.inr hi)
  rest := fun b hb => (h.rest b hb).imp id (List.mem_cons_of_mem _)
  kept := by
    intro t ht hts
    rcases List.mem_cons.mp ht with rfl | ht
    · -- `temp` itself is gone, but inside the block that has taken it in.
      have := h.first_le
      have := h.stop_le
      have := hull.first
      have := hull.stop
      right
      omega
    · exact h.kept t ht hts
  gapped := h.gapped
  slice := by
    intro S hS hsub
    apply h.slice S (fun t ht => hS t (List.mem_cons_of_mem _ ht))
    exact hull.slice S (hS temp List.mem_cons_self) hsub

theorem Inserted.drop (ht : temp.Stray) (h : Inserted l sub l' m) : Inserted (temp :: l) sub l' m where
  mem := h.mem
  sound := h.sound
  first_le := h.first_le
  stop_le := h.stop_le
  only := by
    intro i hi1 hi2
    rw [covers_cons]
    rcases h.only i hi1 hi2 with hi | hi
    · exact Or.inl hi
    · exact Or.inr (Or.inr hi)
  rest := fun b hb => (h.rest b hb).imp id (List.mem_cons_of_mem _)
  kept := by
    intro t ht' hts
    rcases List.mem_cons.mp ht' with rfl | ht'
    · have := t.first_le_stop
      simp only [Sound, Stray] at hts ht
      omega
    · exact h.kept t ht' hts
  gapped := h.gapped
  slice := fun S hS hsub => h.slice S (fun t ht => hS t (List.mem_cons_of_mem _ ht)) hsub

/-- What the loop does at a block: it goes on behind it, puts the substring before it, or goes on
with what the two make together. -/
theorem insertLoop_cases (h : insertLoop (temp :: l) sub bytes = some (l', bytes')) :
    (add64 temp.first temp.data.length < sub.first ∧
      ∃ rest, insertLoop l sub bytes = some (rest, bytes') ∧ l' = temp :: rest) ∨
    (¬ add64 temp.first temp.data.length < sub.first ∧ add64 sub.last 1 < temp.first ∧
      l' = sub :: temp :: l ∧ bytes' = add64 bytes sub.data.length) ∨
    (¬ add64 temp.first temp.data.length < sub.first ∧ ¬ add64 sub.last 1 < temp.first ∧
      ∃ sub', overlap temp sub = some sub' ∧
        insertLoop l sub' (sub64 bytes temp.data.length) = some (l', bytes')) := by
  rw [insertLoop] at h
  split_ifs at h with c1 c2
  · left
    split at h
    · cases h
    · cases h
      exact ⟨c1, _, ‹_›, rfl⟩
  · right; left
    cases h
    exact ⟨c1, c2, rfl, rfl⟩
  · right; right
    split at h
    · cases h
    · exact ⟨c1, c2, _, ‹_›, h⟩

theorem add64_last (hs : sub.Sound) (hsr : sub.stop < 2 ^ 64) : add64 sub.last 1 = sub.stop := by
  rw [add64_eq (by rw [hs]; exact hsr), hs]

theorem insertLoop_cons (ht : temp.stop < 2 ^ 64) (hs : sub.Sound) (hsr : sub.stop < 2 ^ 64) :
    insertLoop (temp :: l) sub bytes =
      if temp.stop < sub.first then
        match insertLoop l sub bytes with
        | none => none
        | some (l', bytes') => some (temp :: l', bytes')
      else if sub.stop < temp.first then
        some (sub :: temp :: l, add64 bytes sub.data.length)
      else
        match overlap temp sub with
        | none => none
        | some sub' => insertLoop l sub' (sub64 bytes temp.data.length) := by
  have hstop : add64 temp.first temp.data.length = temp.stop := add64_eq ht
  rw [← hstop, ← add64_last hs hsr]
  rfl

theorem insertLoop_spec (hl : ∀ b ∈ l, b.Stored) (hg : Gapped first stop l) (hs : sub.Sound)
    (hne : sub.data ≠ []) (hsr : sub.stop < 2 ^ 64) (h : insertLoop l sub bytes = some (l', bytes')) :
    ∃ m, Inserted l sub l' m := by
  induction l generalizing sub bytes l' bytes' with
  | nil =>
    rw [insertLoop] at h
    cases h
    exact ⟨sub, .nil hs⟩
  | cons temp l ih =>
    have ht := hl temp List.mem_cons_self
    have hl' : ∀ b ∈ l, b.Stored := fun b hb => hl b (List.mem_cons_of_mem _ hb)
    have hg' := (gapped_cons.mp hg).2
    have htstop : add64 temp.first temp.data.length = temp.stop := add64_eq ht.range
    have hcases := insertLoop_cases h
    rw [htstop, add64_last hs hsr] at hcases
    rcases hcases with ⟨c1, rest, hrec, rfl⟩ | ⟨-, c2, rfl, -⟩ | ⟨c1, c2, sub₁, hov, h⟩
    · -- `temp` ends before the substring begins: it stays in front.
      obtain ⟨m, hm⟩ := ih hl' hg' hs hne hsr hrec
      exact ⟨m, hm.skip hne hg c1⟩
    · exact ⟨sub, .before hs hg c2⟩
    · rcases ht.shape with hsound | hstray
      · -- `temp` and the substring touch: the loop goes on with their hull.
        obtain ⟨sub', hsub', hull⟩ := overlap_sound hsound hs ht.range hsr (by omega) (by omega)
        cases hsub'.symm.trans hov
        have hstop := hull.stop
        obtain ⟨m, hm⟩ := ih hl' hg' hull.sound (hull.data_ne_nil hne) (by have := ht.range; omega) h
        exact ⟨m, hm.merge hull (by omega) (by omega)⟩
      · -- `substr` has not thrown, so the stray block was inside the substring and is dropped.
        rw [overlap_stray hstray hs hne hsr (by omega)] at hov
        split_ifs at hov
        cases hov
        obtain ⟨m, hm⟩ := ih hl' hg' hs hne hsr h
        exact ⟨m, hm.drop hstray⟩

/-- A stray block that the substring begins in, or right behind. -/
def Jams (b sub : Inforsubstr) : Prop := b.Stray ∧ b.first ≤ sub.first ∧ sub.first ≤ b.stop

instance (b sub : Inforsubstr) : Decidable (Jams b sub) := inferInstanceAs (Decidable (_ ∧ _))

theorem not_jams_of_sound {b : Inforsubstr} (h : b.Sound) (sub : Inforsubstr) : ¬ Jams b sub := by
  rintro ⟨hstray, -, -⟩
  have := b.first_le_stop
  simp only [Sound, Stray] at h hstray
  omega

theorem insertLoop_eq_none_iff (bytes : Nat) (hl : ∀ b ∈ l, b.Stored) (hg : Gapped first stop l) (hs : sub.Sound)
    (hne : sub.data ≠ []) (hsr : sub.stop < 2 ^ 64) :
    insertLoop l sub bytes = none ↔ ∃ b ∈ l, Jams b sub := by
  induction l generalizing sub bytes with
  | nil => simp [insertLoop]
  | cons temp l ih =>
    have ht := hl temp List.mem_cons_self
    have hl' : ∀ b ∈ l, b.Stored := fun b hb => hl b (List.mem_cons_of_mem _ hb)
    obtain ⟨hgap, hg'⟩ := gapped_cons.mp hg
    have hlt := first_lt_stop hne
    -- A substring that does not begin behind `temp` begins before all later blocks.
    have hlater : ∀ s : Inforsubstr, s.first ≤ temp.stop → ¬ ∃ b ∈ l, Jams b s := by
      rintro s hle ⟨b, hb, -, hfirst, -⟩
      have := hgap b hb
      omega
    rw [insertLoop_cons ht.range hs hsr, List.exists_mem_cons_iff]
    split_ifs with c1 c2
    · have htemp : ¬ Jams temp sub := by
        rintro ⟨-, -, hle⟩
        omega
      simp only [htemp, false_or]
      rw [← ih bytes hl' hg' hs hne hsr]
      cases insertLoop l sub bytes with
      | none => simp
      | some p => simp
    · have htemp : ¬ Jams temp sub := by
        rintro ⟨-, hle, -⟩
        omega
      simp [htemp, hlater sub (by omega)]
    · simp only [hlater sub (by omega), or_false]
      rcases ht.shape with hsound | hstray
      · -- The hull begins no later than `temp` ends, so no later block can jam it.
        obtain ⟨sub', hsub', hull⟩ := overlap_sound hsound hs ht.range hsr (by omega) (by omega)
        have hstop := hull.stop
        have hfirst := hull.first
        rw [hsub']
        simp only [not_jams_of_sound hsound, iff_false]
        rw [ih _ hl' hg' hull.sound (hull.data_ne_nil hne) (by have := ht.range; omega)]
        exact hlater sub' (by omega)
      · rw [overlap_stray hstray hs hne hsr (by omega)]
        split_ifs with c3
        · simp only [true_iff]
          exact ⟨hstray, c3, by omega⟩
        · have htemp : ¬ Jams temp sub := fun h => c3 h.2.1
          simp only [htemp, iff_false]
          rw [ih _ hl' hg' hs hne hsr]
          exact hlater sub (by omega)

theorem insertLoop_total (bytes : Nat) (hl : ∀ b ∈ l, b.Stored) (hg : Gapped first stop l) (hs : sub.Sound)
    (hne : sub.data ≠ []) (hsr : sub.stop < 2 ^ 64) (hclear : ∀ b ∈ l, ¬ Jams b sub) :
    ∃ p, insertLoop l sub bytes = some p := by
  refine Option.ne_none_iff_exists'.mp fun hnone => ?_
  obtain ⟨b, hb, hjam⟩ := (insertLoop_eq_none_iff bytes hl hg hs hne hsr).mp hnone
  exact hclear b hb hjam

def storedBytes (l : List Inforsubstr) : Nat := total first stop l

@[simp] theorem storedBytes_nil : storedBytes [] = 0 := rfl

@[simp] theorem storedBytes_cons (b : Inforsubstr) (l : List Inforsubstr) :
    storedBytes (b :: l) = b.data.length + storedBytes l := by
  simp [storedBytes]

@[simp] theorem storedBytes_concat (l : List Inforsubstr) (b : Inforsubstr) :
    storedBytes (l ++ [b]) = b.data.length + storedBytes l := by
  simp [storedBytes, Nat.add_comm]

theorem length_le_storedBytes {b : Inforsubstr} (h : b ∈ l) : b.data.length ≤ storedBytes l := by
  induction l with
  | nil => cases h
  | cons c l ih =>
    rw [storedBytes_cons]
    rcases List.mem_cons.mp h with rfl | h
    · omega
    · have := ih h
      omega

theorem insertLoop_count (h : insertLoop l sub bytes = some (l', bytes')) :
    bytes' < 2 ^ 64 ∧ (bytes' + storedBytes l) % 2 ^ 64 = (bytes + storedBytes l') % 2 ^ 64 := by
  induction l generalizing sub bytes l' bytes' with
  | nil =>
    rw [insertLoop] at h
    cases h
    simp only [storedBytes_cons, storedBytes_nil, add64]
    omega
  | cons temp l ih =>
    rcases insertLoop_cases h with ⟨-, rest, hrec, rfl⟩ | ⟨-, -, rfl, rfl⟩ | ⟨-, -, sub', -, hrec⟩
    · have := ih hrec
      simp only [storedBytes_cons]
      omega
    · simp only [storedBytes_cons, add64]
      omega
    · have := ih hrec
      simp only [storedBytes_cons, sub64] at this ⊢
      omega

end Loop

end StreamReassembler

end Sponge
