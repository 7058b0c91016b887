import Sponge.Reassembler.Prefix

/-!
# When a push throws

The positions passed to `substr` are differences of bounds. They are in range for
sound blocks. A substring that begins in a stray block, or right behind it, makes
one of them negative. With a window of no bytes the blocks have the largest `last`
instead, and a substring that runs from before such a block past its end makes one
too large.
-/

namespace Sponge

open Word64 Spans Inforsubstr Run

namespace StreamReassembler

variable {r r' : StreamReassembler} {data : List UInt8} {index : Nat} {eof : Bool}
  {l : List Inforsubstr} {temp sub : Inforsubstr}

/-! ## A window with bytes -/

theorem Store.pushSubstring_eq_none_iff (hr : r.Store) (eof : Bool) (hend : index + data.length < 2 ^ 64)
    (hlim : NoOverflow r data index) (hcap : 0 < r.capacity) :
    pushSubstring r data index eof = none ↔
      data ≠ [] ∧ r.firstindex < index + data.length ∧ ∃ b ∈ r.storelist, Jams b (pushed data index) := by
  by_cases hne : data = []
  · subst hne
    simp [pushSubstring_nil]
  by_cases hnew : r.firstindex < index + data.length
  · have hiff := insertLoop_eq_none_iff r.privateUnassembledBytes hr.stored hr.gapped
      (pushed_sound hne : (pushed data index).Sound) hne hend
    simp only [ne_eq, hne, not_false_eq_true, hnew, true_and]
    rw [← hiff]
    constructor
    · intro h
      -- Once the insertion has returned, nothing after it throws.
      by_contra hsome
      obtain ⟨p, hp⟩ := Option.ne_none_iff_exists'.mp hsome
      obtain ⟨init, back, m, t, -, heq⟩ :=
        hr.pushSubstring_trimmed eof hne hend hnew (hlim hne hnew) (by omega) hp
      rw [heq] at h
      cases h
    · intro h
      rw [pushSubstring_fresh hne hend hnew, h]
  · have hstale : pushSubstring r data index eof = _ := pushSubstring_stale hne hend (Nat.not_lt.mp hnew)
    simp [hstale, hnew]

/-! ## A window of no bytes -/

def AtTop (b : Inforsubstr) : Prop := b.last = 2 ^ 64 - 1

instance (b : Inforsubstr) : Decidable (AtTop b) := inferInstanceAs (Decidable (_ = _))

/-- The substring begins before a block at the top and runs past its end. -/
def Overruns (b sub : Inforsubstr) : Prop :=
  AtTop b ∧ sub.first < b.first ∧ b.first ≤ sub.stop ∧ b.stop < sub.stop

instance (b sub : Inforsubstr) : Decidable (Overruns b sub) := inferInstanceAs (Decidable (_ ∧ _))

structure Shut (b : Inforsubstr) : Prop where
  range : b.stop < 2 ^ 64
  shape : b.Sound ∨ AtTop b

theorem overlap_atTop (ht : AtTop temp) (hs : sub.Sound) (hsr : sub.stop < 2 ^ 64)
    (h2 : temp.first ≤ sub.stop) (hclear : ¬ Overruns temp sub) :
    ∃ m, overlap temp sub = some m ∧ AtTop m ∧ m.first = min temp.first sub.first ∧ m.stop = temp.stop := by
  have htop : temp.last = 2 ^ 64 - 1 := ht
  have hlast : sub.last + 1 = sub.stop := hs
  unfold overlap
  by_cases hfirst : temp.first ≤ sub.first
  · rw [if_pos ⟨hfirst, by omega⟩]
    exact ⟨temp, rfl, ht, by omega, rfl⟩
  · have hstop : sub.stop ≤ temp.stop := by
      by_contra hlt
      exact hclear ⟨ht, by omega, h2, by omega⟩
    have hpos : sub64 (add64 sub.last 1) temp.first = sub.stop - temp.first := by
      rw [add64_eq (by omega), sub64_eq (by omega) (by omega), hlast]
    have hlen : sub.stop - temp.first ≤ temp.data.length := by
      simp only [Inforsubstr.stop] at hstop ⊢
      omega
    rw [if_neg (by omega), if_neg (by omega), if_pos ⟨by omega, by omega⟩, hpos, substr_of_le hlen]
    refine ⟨_, rfl, ht, by simp only; omega, ?_⟩
    simp only [Inforsubstr.stop, List.length_append, List.length_drop] at hstop h2 ⊢
    omega

theorem insertLoop_atTop (bytes : Nat) (hsub : AtTop sub) (hl : ∀ b ∈ l, b.stop < 2 ^ 64 ∧ sub.stop < b.first) :
    insertLoop l sub bytes = some (sub :: l, add64 bytes sub.data.length) := by
  cases l with
  | nil => rfl
  | cons temp l =>
    obtain ⟨hrange, hlt⟩ := hl temp List.mem_cons_self
    have hadd : add64 temp.first temp.data.length = temp.stop := add64_eq hrange
    have hwrap : add64 sub.last 1 = 0 := by
      rw [hsub]
      rfl
    have := sub.first_le_stop
    have := temp.first_le_stop
    unfold insertLoop
    rw [hadd, hwrap, if_neg (by omega), if_pos (by omega)]

theorem insertLoop_shut (bytes : Nat) (hl : ∀ b ∈ l, Shut b) (hg : Gapped first stop l) (hs : sub.Sound)
    (hsr : sub.stop < 2 ^ 64) (hclear : ∀ b ∈ l, ¬ Overruns b sub) :
    ∃ l' bytes', insertLoop l sub bytes = some (l', bytes') ∧ Gapped first stop l' ∧ (∀ b ∈ l', Shut b) ∧
      ∀ n < sub.first, (∀ c ∈ l, n < c.first) → ∀ b ∈ l', n < b.first := by
  induction l generalizing sub bytes with
  | nil => exact ⟨[sub], _, rfl, List.pairwise_singleton _ _, by simpa using ⟨hsr, Or.inl hs⟩, by simp⟩
  | cons temp l ih =>
    obtain ⟨⟨hrange, hshape⟩, hl'⟩ := List.forall_mem_cons.mp hl
    obtain ⟨hclear, hclear'⟩ := List.forall_mem_cons.mp hclear
    obtain ⟨hgap, hg'⟩ := gapped_cons.mp hg
    have htemp := temp.first_le_stop
    rw [insertLoop_cons hrange hs hsr]
    split_ifs with c1 c2
    · obtain ⟨l', bytes', hrec, hg₁, hshut, hlow⟩ := ih bytes hl' hg' hs hsr hclear'
      rw [hrec]
      refine ⟨temp :: l', bytes', rfl, gapped_cons.mpr ⟨hlow temp.stop c1 hgap, hg₁⟩,
        List.forall_mem_cons.mpr ⟨⟨hrange, hshape⟩, hshut⟩, ?_⟩
      intro n hn hfirst
      obtain ⟨hfirst, hfirst'⟩ := List.forall_mem_cons.mp hfirst
      exact List.forall_mem_cons.mpr ⟨hfirst, hlow n hn hfirst'⟩
    · have hbefore : ∀ b ∈ temp :: l, sub.stop < b.first := by
        intro b hb
        have := hg.lo_le_of_mem htemp b hb
        omega
      exact ⟨sub :: temp :: l, _, rfl, gapped_cons.mpr ⟨hbefore, hg⟩,
        List.forall_mem_cons.mpr ⟨⟨hsr, Or.inl hs⟩, hl⟩, fun n hn hfirst => List.forall_mem_cons.mpr ⟨hn, hfirst⟩⟩
    · rcases hshape with hsound | htop
      · obtain ⟨sub', hsub', hull⟩ := overlap_sound hsound hs hrange hsr (by omega) (by omega)
        have hfirst' := hull.first
        have hstop' := hull.stop
        -- Later blocks start behind `temp`, so it is the substring that would run past their end.
        have hclear₁ : ∀ b ∈ l, ¬ Overruns b sub' := by
          rintro b hb ⟨htop, -, h2, h3⟩
          have := hgap b hb
          have := b.first_le_stop
          exact hclear' b hb ⟨htop, by omega, by omega, by omega⟩
        obtain ⟨l', bytes', hrec, hg₁, hshut, hlow⟩ :=
          ih (sub64 bytes temp.data.length) hl' hg' hull.sound (by omega) hclear₁
        rw [hsub']
        refine ⟨l', bytes', hrec, hg₁, hshut, fun n hn hfirst => ?_⟩
        obtain ⟨hfirst, hfirst'⟩ := List.forall_mem_cons.mp hfirst
        exact hlow n (by omega) hfirst'
      · obtain ⟨m, hm, hmtop, hmfirst, hmstop⟩ := overlap_atTop htop hs hsr (by omega) hclear
        have hmgap : ∀ b ∈ l, m.stop < b.first := by
          rw [hmstop]
          exact hgap
        rw [hm]
        refine ⟨m :: l, _, insertLoop_atTop _ hmtop fun b hb => ⟨(hl' b hb).range, hmgap b hb⟩,
          gapped_cons.mpr ⟨hmgap, hg'⟩, List.forall_mem_cons.mpr ⟨⟨by omega, Or.inr hmtop⟩, hl'⟩, ?_⟩
        intro n hn hfirst
        obtain ⟨hfirst, hfirst'⟩ := List.forall_mem_cons.mp hfirst
        exact List.forall_mem_cons.mpr ⟨by omega, hfirst'⟩

/-- Between two calls, with a window of no bytes. -/
structure SealedStore (r : StreamReassembler) : Prop where
  toSealed : r.Sealed
  gapped : Gapped first stop r.storelist
  shut : ∀ b ∈ r.storelist, Shut b

theorem sealedStore_new : (new 0).SealedStore := ⟨sealed_new, List.Pairwise.nil, by simp [new]⟩

theorem SealedStore.trimBack (hr : r.SealedStore) : r.trimBack.SealedStore := by
  suffices h : Gapped first stop r.trimBack.storelist ∧ ∀ b ∈ r.trimBack.storelist, Shut b from
    ⟨hr.toSealed.trimBack, h.1, h.2⟩
  cases hlast : r.storelist.getLast? with
  | none =>
    have hsame : r.trimBack = r := by
      unfold StreamReassembler.trimBack
      rw [hlast]
    rw [hsame]
    exact ⟨hr.gapped, hr.shut⟩
  | some back =>
    obtain ⟨init, hlist⟩ := List.getLast?_eq_some_iff.mp hlast
    have hback := hr.shut back (by simp [hlist])
    obtain ⟨hg, hgap⟩ := gapped_concat.mp (hlist ▸ hr.gapped)
    -- The window is empty at index 0, so every last block is cut, to the index below zero.
    have hlimit : add64 r.firstindex r.capacity = 0 := by
      rw [hr.toSealed.firstindex, hr.toSealed.capacity]
      rfl
    have htrim : r.trimBack.storelist =
        init ++ [{ back with last := 2 ^ 64 - 1, data := back.data.take (sub64 0 back.first) }] := by
      unfold StreamReassembler.trimBack
      simp only [hlast, hlimit]
      rw [if_pos (Nat.zero_le _), hlist, List.dropLast_concat]
      rfl
    rw [htrim]
    refine ⟨gapped_concat.mpr ⟨hg, hgap⟩, fun b hb => ?_⟩
    rcases List.mem_append.mp hb with hb | hb
    · exact hr.shut b (by simp [hlist, hb])
    · rw [List.mem_singleton.mp hb]
      have := hback.range
      refine ⟨?_, Or.inr rfl⟩
      simp only [Inforsubstr.stop, List.length_take] at this ⊢
      omega

theorem SealedStore.writeFront (hr : r.SealedStore) : r.writeFront.SealedStore := by
  suffices h : Gapped first stop r.writeFront.storelist ∧ ∀ b ∈ r.writeFront.storelist, Shut b from
    ⟨hr.toSealed.writeFront, h.1, h.2⟩
  obtain ⟨l, bytes, ended, hl, heq⟩ := hr.toSealed.writeFront_eq
  rw [heq]
  rcases hl with rfl | rfl
  · exact ⟨hr.gapped, hr.shut⟩
  · exact ⟨hr.gapped.tail, fun b hb => hr.shut b (List.mem_of_mem_tail hb)⟩

theorem SealedStore.push (hr : r.SealedStore) (eof : Bool) (hend : index + data.length < 2 ^ 64)
    (hclear : data ≠ [] → ∀ b ∈ r.storelist, ¬ Overruns b (pushed data index)) :
    ∃ r', pushSubstring r data index eof = some r' ∧ r'.SealedStore := by
  by_cases hne : data = []
  · subst hne
    refine ⟨_, pushSubstring_nil r index eof, hr.toSealed.push (pushSubstring_nil r index eof), hr.gapped, hr.shut⟩
  have hF := hr.toSealed.firstindex
  have hpos := List.length_pos_of_ne_nil hne
  obtain ⟨l', bytes', hins, hg, hshut, -⟩ := insertLoop_shut r.privateUnassembledBytes hr.shut hr.gapped
    (pushed_sound hne : (pushed data index).Sound) hend (hclear hne)
  have hinert : Inert (pushed data index) := by
    refine ⟨?_, fun _ hnil => absurd hnil hne⟩
    simp only [pushed]
    omega
  have hstore : ({ r with
      checkeof := eof || r.checkeof, storelist := l', privateUnassembledBytes := bytes' } :
      StreamReassembler).SealedStore :=
    ⟨⟨hr.toSealed.capacity, hr.toSealed.max, hr.toSealed.content, hr.toSealed.written, hF,
      Inert.insertLoop hr.toSealed.inert hinert hins⟩, hg, hshut⟩
  refine ⟨_, ?_, hstore.trimBack.writeFront⟩
  rw [pushSubstring_fresh hne hend (by omega), hins]
  simp only [hstore.toSealed.trimFront]

/-! ## Whole runs -/

def InRange : Op → Prop
  | .push data index _ => index + data.length < 2 ^ 64
  | .read _ => True

instance : ∀ op, Decidable (InRange op)
  | .push _ _ _ => inferInstanceAs (Decidable (_ < _))
  | .read _ => .isTrue trivial

/-- When a substring brings new bytes, the end of the window can be computed, the substring does not
begin in a stray block or right behind it, and it does not run past a block at the top. -/
def Clear (t : Trace) : Op → Prop
  | .push data index _ => data ≠ [] → t.r.firstindex < index + data.length →
      t.r.firstindex + t.r.capacity < 2 ^ 64 ∧
        ∀ b ∈ t.r.storelist, ¬ Jams b (pushed data index) ∧ ¬ Overruns b (pushed data index)
  | .read _ => True

instance (t : Trace) : ∀ op, Decidable (Clear t op)
  | .push _ _ _ => inferInstanceAs (Decidable (_ → _ → _))
  | .read _ => .isTrue trivial

/-- What holds between two calls, whatever is pushed. -/
def AnyStore (r : StreamReassembler) : Prop := r.SealedStore ∨ (0 < r.capacity ∧ r.Store)

theorem anyStore_new (capacity : Nat) : (new capacity).AnyStore := by
  rcases Nat.eq_zero_or_pos capacity with rfl | hpos
  · exact Or.inl sealedStore_new
  · exact Or.inr ⟨hpos, store_new capacity⟩

theorem AnyStore.push {written : List UInt8} (hr : r.AnyStore) (hend : index + data.length < 2 ^ 64)
    (hclear : Clear ⟨r, written⟩ (.push data index eof)) :
    ∃ r', pushSubstring r data index eof = some r' ∧ r'.AnyStore := by
  rcases hr with hr | ⟨hcap, hr⟩
  · have hF := hr.toSealed.firstindex
    obtain ⟨r', h, hr'⟩ := hr.push eof hend fun hne b hb => by
      have hpos := List.length_pos_of_ne_nil hne
      exact ((hclear hne (by simp only; omega)).2 b hb).2
    exact ⟨r', h, Or.inl hr'⟩
  · have hlim : NoOverflow r data index := fun hne hnew => (hclear hne hnew).1
    have hsome : pushSubstring r data index eof ≠ none := by
      intro hnone
      obtain ⟨hne, hnew, b, hb, hjam⟩ := (hr.pushSubstring_eq_none_iff eof hend hlim hcap).mp hnone
      exact ((hclear hne hnew).2 b hb).1 hjam
    obtain ⟨r', h⟩ := Option.ne_none_iff_exists'.mp hsome
    obtain ⟨hr', hcap'⟩ := hr.push_store hend hlim hcap h
    exact ⟨r', h, Or.inr ⟨by rw [hcap']; exact hcap, hr'⟩⟩

theorem AnyStore.readOut (hr : r.AnyStore) (len : Nat) : (r.readOut len).AnyStore := by
  rcases hr with hr | ⟨hcap, hr⟩
  · left
    have hs := hr.toSealed
    rw [readOut_eq]
    exact ⟨⟨hs.capacity, hs.max, by simp only [hs.content, List.drop_nil], hs.written, hs.firstindex, hs.inert⟩,
      hr.gapped, hr.shut⟩
  · exact Or.inr ⟨hcap, hr.readOut len⟩

theorem AnyStore.step (t : Trace) (op : Op) (ht : t.r.AnyStore) (hop : InRange op ∧ Clear t op) :
    ∃ t', step t op = some t' ∧ t'.r.AnyStore := by
  obtain ⟨hrange, hclear⟩ := hop
  cases op with
  | push data index eof =>
    obtain ⟨r', h, hr'⟩ := ht.push hrange hclear
    exact ⟨_, by rw [StreamReassembler.step, h], hr'⟩
  | read len => exact ⟨_, rfl, ht.readOut len⟩

/-- Five bytes far past a window of eight, and then a byte in the middle of them. -/
def jammedOps : List Op := [.push [97, 98, 99, 100, 101] 100 false, .push [120] 102 false]

theorem push_throws : (∀ op ∈ jammedOps, InRange op) ∧ run step (start 8) jammedOps = none := by
  decide +kernel

/-- In every run whose steps are all clear, no call throws. -/
theorem pushes_never_throw (capacity : Nat) (ops : List Op) (hrange : ∀ op ∈ ops, InRange op)
    (hclear : AllSteps step Clear (start capacity) ops) : ∃ t, run step (start capacity) ops = some t := by
  obtain ⟨t, ht, -⟩ := exists_run_inv (I := fun t => t.r.AnyStore) AnyStore.step (anyStore_new capacity)
    ((allSteps_of_forall hrange).and hclear)
  exact ⟨t, ht⟩

/-- A stray block that a longer substring covers, and bytes that fill the window. -/
def clearOps : List Op :=
  [.push [99] 100 false, .push [97, 98, 99, 100] 98 false, .read 1, .push [97, 98, 99, 100] 0 true]

theorem pushes_never_throw_stray :
    AllSteps step Clear (start 8) clearOps ∧ ∃ t, run step (start 8) clearOps = some t := by
  have hclear : AllSteps step Clear (start 8) clearOps := by decide +kernel
  exact ⟨hclear, pushes_never_throw 8 clearOps (by decide) hclear⟩

end StreamReassembler

end Sponge
