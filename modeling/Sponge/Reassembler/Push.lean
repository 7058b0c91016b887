import Sponge.Reassembler.Blocks

/-!
# One push, phase by phase

`Store` is what holds between two calls, whatever is pushed: the blocks are in
order and apart, none lies before `firstindex`, and a stray block never comes to
stand at `firstindex`. Each phase of `pushSubstring` has one lemma that says what
it does to the store; the properties of the reassembler are drawn from these.
-/

namespace Sponge

open Word64 Slice Spans Inforsubstr

namespace StreamReassembler

structure Store (r : StreamReassembler) : Prop where
  stored : ∀ b ∈ r.storelist, b.Stored
  gapped : Gapped first stop r.storelist
  ahead : ∀ b ∈ r.storelist, r.firstindex ≤ b.first
  stray : ∀ b ∈ r.storelist, b.Stray → r.firstindex < b.first
  counted : r.privateUnassembledBytes = storedBytes r.storelist % 2 ^ 64
  aligned : r.firstindex = r.output.alwritten
  stream : r.output.Inv
  room : r.output.max = r.capacity

instance (r : StreamReassembler) : Decidable r.Store :=
  decidable_of_iff
    ((∀ b ∈ r.storelist, b.Stored) ∧ Gapped first stop r.storelist ∧ (∀ b ∈ r.storelist, r.firstindex ≤ b.first) ∧
      (∀ b ∈ r.storelist, b.Stray → r.firstindex < b.first) ∧
      r.privateUnassembledBytes = storedBytes r.storelist % 2 ^ 64 ∧ r.firstindex = r.output.alwritten ∧
      r.output.Inv ∧ r.output.max = r.capacity)
    ⟨fun ⟨h1, h2, h3, h4, h5, h6, h7, h8⟩ => ⟨h1, h2, h3, h4, h5, h6, h7, h8⟩,
      fun h => ⟨h.stored, h.gapped, h.ahead, h.stray, h.counted, h.aligned, h.stream, h.room⟩⟩

theorem store_new (capacity : Nat) : (new capacity).Store where
  stored := by simp [new]
  gapped := List.Pairwise.nil
  ahead := by simp [new]
  stray := by simp [new]
  counted := rfl
  aligned := rfl
  stream := ByteStream.inv_new capacity
  room := rfl

theorem storedBytes_lt {l : List Inforsubstr} (hl : ∀ b ∈ l, b.Stored) (hg : Gapped first stop l) :
    storedBytes l < 2 ^ 64 := by
  have h := total_le (A := 0) (B := 2 ^ 64 - 1) hg (by omega) fun b hb =>
    ⟨b.first_le_stop, Nat.zero_le _, by have := (hl b hb).range; omega⟩
  rw [storedBytes]
  omega

theorem Store.unassembledBytes_eq {r : StreamReassembler} (h : r.Store) :
    r.unassembledBytes = storedBytes r.storelist := by
  rw [unassembledBytes, h.counted, Nat.mod_eq_of_lt (storedBytes_lt h.stored h.gapped)]

/-! ## The front -/

/-- The store `l` after the substring was put in and its part below `F` was cut off. -/
structure Placed (F : Nat) (l : List Inforsubstr) (sub : Inforsubstr) (l' : List Inforsubstr)
    (m : Inforsubstr) : Prop where
  mem : m ∈ l'
  sound : m.Sound
  first_le : m.first ≤ max F sub.first
  stop_le : sub.stop ≤ m.stop
  only : ∀ i, m.first ≤ i → i < m.stop → (sub.first ≤ i ∧ i < sub.stop) ∨ Covers first stop l i
  rest : ∀ b ∈ l', b = m ∨ b ∈ l
  kept : ∀ t ∈ l, t.Sound → t ∈ l' ∨ (m.first ≤ t.first ∧ t.stop ≤ m.stop)
  gapped : Gapped first stop l'
  ahead : ∀ b ∈ l', F ≤ b.first
  slice : ∀ S, (∀ t ∈ l, IsSlice S t.first t.data) → IsSlice S sub.first sub.data →
    IsSlice S m.first m.data

def dropTo (F : Nat) (b : Inforsubstr) : Inforsubstr :=
  { b with first := F, data := b.data.drop (F - b.first) }

theorem dropTo_stop {F : Nat} {b : Inforsubstr} (h1 : b.first ≤ F) (h2 : F ≤ b.stop) :
    (dropTo F b).stop = b.stop := by
  simp only [dropTo, Inforsubstr.stop, List.length_drop] at h2 ⊢
  omega

variable {r r' : StreamReassembler} {l l' rest init : List Inforsubstr} {sub m front back : Inforsubstr}

theorem Inserted.placed_dropTo {F : Nat} (h : Inserted l sub (m :: rest) m) (hl : ∀ b ∈ l, F ≤ b.first)
    (hF : F < sub.stop) (hm : m.first < F) : Placed F l sub (dropTo F m :: rest) (dropTo F m) := by
  have hstop : (dropTo F m).stop = m.stop := dropTo_stop (by omega) (by have := h.stop_le; omega)
  have hfirst : (dropTo F m).first = F := rfl
  obtain ⟨hgap, hg⟩ := gapped_cons.mp h.gapped
  -- `m` is the first block, so every other block was in the list before.
  have hrest : ∀ b ∈ rest, b ∈ l := by
    intro b hb
    rcases h.rest b (List.mem_cons_of_mem _ hb) with rfl | hb'
    · have := hgap b hb
      have := b.first_le_stop
      omega
    · exact hb'
  refine
    { mem := List.mem_cons_self
      sound := ?_
      first_le := by rw [hfirst]; omega
      stop_le := by rw [hstop]; exact h.stop_le
      only := ?_
      rest := fun b hb => (List.mem_cons.mp hb).imp id (hrest b)
      kept := ?_
      gapped := ?_
      ahead := ?_
      slice := ?_ }
  · have hs := h.sound
    simp only [Sound] at hs ⊢
    rw [hstop]
    exact hs
  · intro i h1 h2
    exact h.only i (by omega) (by omega)
  · intro t ht hts
    have htF := hl t ht
    -- A block that `m` has taken in begins at `F` or later, so `dropTo` keeps it inside.
    rcases h.kept t ht hts with hmem | hin
    · left
      rcases List.mem_cons.mp hmem with rfl | hmem
      · omega
      · exact List.mem_cons_of_mem _ hmem
    · right
      rw [hstop, hfirst]
      exact ⟨htF, hin.2⟩
  · refine gapped_cons.mpr ⟨?_, hg⟩
    rw [hstop]
    exact hgap
  · intro b hb
    rcases List.mem_cons.mp hb with rfl | hb
    · exact le_refl _
    · exact hl b (hrest b hb)
  · intro S hS hsub
    exact (h.slice S hS hsub).drop_to (by omega)

theorem Inserted.placed {F : Nat} (h : Inserted l sub l' m) (hl' : ∀ b ∈ l', F ≤ b.first) :
    Placed F l sub l' m where
  mem := h.mem
  sound := h.sound
  first_le := by have := h.first_le; omega
  stop_le := h.stop_le
  only := h.only
  rest := h.rest
  kept := h.kept
  gapped := h.gapped
  ahead := hl'
  slice := h.slice

def setStore (r : StreamReassembler) (l : List Inforsubstr) (bytes : Nat) : StreamReassembler :=
  { r with storelist := l, privateUnassembledBytes := bytes }

/-- The counter of unassembled bytes agrees with the store, modulo `2 ^ 64`. -/
def Counted (l : List Inforsubstr) (bytes : Nat) : Prop := bytes = storedBytes l % 2 ^ 64

theorem recount {bytes x y : Nat} (h : bytes = (x + y) % 2 ^ 64) (x' : Nat) :
    add64 (sub64 bytes x) x' = (x' + y) % 2 ^ 64 := by
  unfold add64 sub64
  omega

theorem uncount {bytes x y n : Nat} (h : bytes = (x + y) % 2 ^ 64) (hn : n ≤ x) :
    sub64 bytes n = (x - n + y) % 2 ^ 64 := by
  unfold sub64
  omega

theorem trimFront_of_ahead (h : ∀ b ∈ r.storelist, r.firstindex ≤ b.first) : trimFront r = some r := by
  unfold trimFront
  split
  · rfl
  · rename_i front rest hlist
    have := h front (by simp [hlist])
    rw [if_neg (by omega)]

theorem trimFront_spec (h : Inserted l sub r.storelist m) (hl : ∀ b ∈ l, r.firstindex ≤ b.first)
    (hF : r.firstindex < sub.stop) (hsr : sub.stop < 2 ^ 64)
    (hc : Counted r.storelist r.privateUnassembledBytes) :
    ∃ l' bytes m', trimFront r = some (r.setStore l' bytes) ∧ Placed r.firstindex l sub l' m' ∧
      Counted l' bytes := by
  unfold trimFront
  cases hlist : r.storelist with
  | nil =>
    rw [hlist] at h
    exact absurd h.mem List.not_mem_nil
  | cons front rest =>
    rw [hlist] at h hc
    simp only
    -- Only the merged block can begin before the first unassembled byte.
    have hmF : front.first < r.firstindex → front = m := by
      intro hlt
      rcases h.rest front List.mem_cons_self with hm | hm
      · exact hm
      · have := hl front hm
        omega
    split_ifs with c
    · obtain rfl := hmF c
      have hlong : r.firstindex - front.first ≤ front.data.length := by
        have := h.stop_le
        simp only [Inforsubstr.stop] at this hF
        omega
      rw [sub64_eq (by omega) (by omega), substr_of_le hlong]
      refine ⟨_, _, _, rfl, h.placed_dropTo hl hF c, ?_⟩
      rw [Counted, storedBytes_cons] at hc ⊢
      exact recount hc _
    · refine ⟨front :: rest, r.privateUnassembledBytes, m, ?_, h.placed ?_, hc⟩
      · rw [setStore, ← hlist]
      · intro b hb
        have := h.gapped.lo_le_of_mem front.first_le_stop b hb
        omega

/-! ## The back -/

/-- The last block, cut at `limit`. A block that starts past `limit` keeps its bytes. -/
def cut (limit : Nat) (b : Inforsubstr) : Inforsubstr :=
  if limit ≤ b.last + 1 then
    { b with last := limit - 1, data := if b.first ≤ limit then b.data.take (limit - b.first) else b.data }
  else b

@[simp] theorem cut_first (limit : Nat) (b : Inforsubstr) : (cut limit b).first = b.first := by
  unfold cut
  split_ifs <;> rfl

theorem cut_stop_le (limit : Nat) (b : Inforsubstr) : (cut limit b).stop ≤ b.stop := by
  unfold cut Inforsubstr.stop
  split_ifs <;> simp

theorem cut_slice {S : List UInt8} (limit : Nat) {b : Inforsubstr} (h : IsSlice S b.first b.data) :
    IsSlice S (cut limit b).first (cut limit b).data := by
  unfold cut
  split_ifs
  · exact h.take _
  · exact h
  · exact h

theorem cut_sound {limit : Nat} {b : Inforsubstr} (h : b.Sound) (hb : b.first ≤ limit) (hl : 0 < limit) :
    (cut limit b).Sound ∧ (cut limit b).stop = min b.stop limit := by
  simp only [Sound, Inforsubstr.stop] at h ⊢
  unfold cut
  split_ifs with c
  · simp only [List.length_take]
    omega
  · omega

theorem cut_shape {limit : Nat} {b : Inforsubstr} (h : b.Sound ∨ b.Stray) (hl : 0 < limit) :
    (cut limit b).Sound ∨ ((cut limit b).Stray ∧ (b.Stray ∨ limit < b.first)) := by
  rcases h with h | h
  · by_cases hb : b.first ≤ limit
    · exact Or.inl (cut_sound h hb hl).1
    · by_cases hc : limit ≤ b.last + 1
      · right
        simp only [Stray, cut, if_pos hc]
        omega
      · left
        rw [cut, if_neg hc]
        exact h
  · right
    refine ⟨?_, Or.inl h⟩
    simp only [Stray] at h ⊢
    by_cases c : limit ≤ b.last + 1
    · simp only [cut, if_pos c]
      omega
    · rw [cut, if_neg c]
      exact h

theorem cut_stored {limit : Nat} {b : Inforsubstr} (h : b.Stored) (hl : 0 < limit) : (cut limit b).Stored where
  range := lt_of_le_of_lt (cut_stop_le limit b) h.range
  shape := (cut_shape h.shape hl).imp id And.left

theorem trimBack_eq (hlist : r.storelist = init ++ [back]) (hb : back.Stored)
    (hlim : r.firstindex + r.capacity < 2 ^ 64) (hpos : 0 < r.firstindex + r.capacity)
    (hc : Counted r.storelist r.privateUnassembledBytes) :
    ∃ bytes, trimBack r = r.setStore (init ++ [cut (r.firstindex + r.capacity) back]) bytes ∧
      Counted (init ++ [cut (r.firstindex + r.capacity) back]) bytes := by
  have hlast : back.last + 1 < 2 ^ 64 := by
    have := hb.range
    have := back.first_le_stop
    rcases hb.shape with h | h
    all_goals simp only [Sound, Stray] at h; omega
  have htake : back.data.take (sub64 (r.firstindex + r.capacity) back.first) =
      if back.first ≤ r.firstindex + r.capacity then
        back.data.take (r.firstindex + r.capacity - back.first) else back.data := by
    split_ifs with hf
    · rw [sub64_eq hf hlim]
    · -- The length wraps to a huge number, so the block is kept whole.
      have hr := hb.range
      simp only [Inforsubstr.stop] at hr
      rw [sub64_of_lt (by omega) (by omega), List.take_of_length_le (by omega)]
  unfold trimBack
  rw [hlist] at hc ⊢
  simp only [List.getLast?_append, List.getLast?_singleton, Option.some_or, List.dropLast_concat]
  have hlim1 : sub64 (r.firstindex + r.capacity) 1 = r.firstindex + r.capacity - 1 := sub64_eq hpos hlim
  rw [add64_eq hlim, add64_eq hlast, hlim1, htake]
  by_cases hcut : r.firstindex + r.capacity ≤ back.last + 1
  · have hcuteq : cut (r.firstindex + r.capacity) back =
        { back with last := r.firstindex + r.capacity - 1,
                    data := if back.first ≤ r.firstindex + r.capacity then
                      back.data.take (r.firstindex + r.capacity - back.first) else back.data } := by
      rw [cut, if_pos hcut]
    rw [if_pos hcut, hcuteq]
    refine ⟨_, rfl, ?_⟩
    rw [Counted, storedBytes_concat] at hc ⊢
    exact recount hc _
  · rw [if_neg hcut, cut, if_neg hcut]
    exact ⟨r.privateUnassembledBytes, by rw [setStore, ← hlist], hc⟩

/-! ## The write -/

/-- What is left of the first block and the blocks after it when `n` bytes are written. -/
def leftover (front : Inforsubstr) (n : Nat) (rest : List Inforsubstr) : List Inforsubstr :=
  if n < front.data.length then { front with first := front.first + n, data := front.data.drop n } :: rest
  else rest

theorem writeFront_of_ne (hlist : r.storelist = front :: rest) (h : front.first ≠ r.firstindex) :
    writeFront r = r := by
  unfold writeFront
  rw [hlist]
  simp only [if_neg h]

def writable (r : StreamReassembler) (front : Inforsubstr) : Nat :=
  min r.output.remainingCapacity front.data.length

theorem length_take_writable (r : StreamReassembler) (front : Inforsubstr) :
    (front.data.take (writable r front)).length = writable r front := by
  rw [List.length_take]
  exact Nat.min_eq_left (Nat.min_le_right _ _)

theorem writeFront_eq (hlist : r.storelist = front :: rest) (h : front.first = r.firstindex)
    (hs : front.Sound) (hr : front.stop < 2 ^ 64)
    (hc : Counted r.storelist r.privateUnassembledBytes) :
    ∃ bytes, Counted (leftover front (writable r front) rest) bytes ∧
      writeFront r = { r with
        storelist := leftover front (writable r front) rest
        firstindex := r.firstindex + writable r front
        privateUnassembledBytes := bytes
        output := { r.output with
          content := r.output.content ++ front.data.take (writable r front)
          alwritten := r.output.alwritten + writable r front
          ended := r.output.ended || (leftover front (writable r front) rest == [] && bytes == 0 &&
            r.checkeof) } } := by
  simp only [Sound, Inforsubstr.stop] at hs hr
  unfold writeFront writable
  rw [hlist] at hc ⊢
  simp only [if_pos h]
  -- The stream takes a part of the front block and the rest is put back, or it takes all of it.
  by_cases hrc : r.output.remainingCapacity < front.data.length
  · have hmin : min r.output.remainingCapacity front.data.length = r.output.remainingCapacity := by omega
    have hlen : (front.data.take r.output.remainingCapacity).length = r.output.remainingCapacity := by
      rw [List.length_take]
      omega
    have hadd : add64 front.first r.output.remainingCapacity =
        front.first + r.output.remainingCapacity := add64_eq (by omega)
    rw [hmin, if_pos hrc, ByteStream.write_of_le (by omega), hlen, hadd]
    refine ⟨sub64 r.privateUnassembledBytes r.output.remainingCapacity, ?_, ?_⟩
    · rw [Counted, storedBytes_cons] at hc
      rw [Counted, leftover, if_pos hrc, storedBytes_cons, List.length_drop]
      exact uncount hc (by omega)
    · simp [empty, leftover, hrc, h]
  · have hmin : min r.output.remainingCapacity front.data.length = front.data.length := by omega
    have hadd : add64 front.last 1 = r.firstindex + front.data.length := by
      rw [add64_eq (by omega)]
      omega
    rw [hmin, if_neg hrc, ByteStream.write_of_le (by omega), hadd]
    refine ⟨sub64 r.privateUnassembledBytes front.data.length, ?_, ?_⟩
    · rw [Counted, storedBytes_cons] at hc
      rw [Counted, leftover, if_neg (lt_irrefl _), uncount hc (le_refl _)]
      simp
    · simp only [empty, unassembledBytes, leftover, if_neg (lt_irrefl _), List.take_length,
        ByteStream.endInput]
      cases rest with
      | nil =>
        cases hb : (sub64 r.privateUnassembledBytes front.data.length == 0) && r.checkeof
        · simp [hb]
        · simp [hb]
      | cons x xs => simp

theorem Store.writeFront_cases (hr : r.Store) :
    (writeFront r = r ∧ ∀ b ∈ r.storelist, r.firstindex < b.first) ∨
    ∃ front rest bytes, r.storelist = front :: rest ∧ front.first = r.firstindex ∧ front.Sound ∧
      Counted (leftover front (writable r front) rest) bytes ∧
      writeFront r = { r with
        storelist := leftover front (writable r front) rest
        firstindex := r.firstindex + writable r front
        privateUnassembledBytes := bytes
        output := { r.output with
          content := r.output.content ++ front.data.take (writable r front)
          alwritten := r.output.alwritten + writable r front
          ended := r.output.ended || (leftover front (writable r front) rest == [] && bytes == 0 &&
            r.checkeof) } } := by
  cases hlist : r.storelist with
  | nil => exact Or.inl ⟨by simp [writeFront, hlist], by simp⟩
  | cons front rest =>
    have hmem : front ∈ r.storelist := by simp [hlist]
    have hst := hr.stored front hmem
    by_cases h : front.first = r.firstindex
    · right
      have hsound : front.Sound := by
        rcases hst.shape with hs | hs
        · exact hs
        · have := hr.stray front hmem hs
          omega
      obtain ⟨bytes, hc, heq⟩ := writeFront_eq hlist h hsound hst.range hr.counted
      exact ⟨front, rest, bytes, rfl, h, hsound, hc, heq⟩
    · left
      refine ⟨writeFront_of_ne hlist h, ?_⟩
      have hfront := hr.ahead front hmem
      have hg := hr.gapped
      rw [hlist] at hg
      intro b hb
      have := hg.lo_le_of_mem front.first_le_stop b hb
      omega

theorem mem_leftover {b : Inforsubstr} {n : Nat} (hb : b ∈ leftover front n rest) :
    b ∈ rest ∨ (n < front.data.length ∧ b = { front with first := front.first + n, data := front.data.drop n }) := by
  unfold leftover at hb
  split_ifs at hb with c
  · rcases List.mem_cons.mp hb with rfl | hb
    · exact Or.inr ⟨c, rfl⟩
    · exact Or.inl hb
  · exact Or.inl hb

theorem leftover_stop (front : Inforsubstr) {n : Nat} (h : n ≤ front.data.length) :
    ({ front with first := front.first + n, data := front.data.drop n } : Inforsubstr).stop = front.stop := by
  simp only [Inforsubstr.stop, List.length_drop]
  omega

theorem gapped_leftover {n : Nat} (hg : Gapped first stop (front :: rest)) :
    Gapped first stop (leftover front n rest) := by
  obtain ⟨hgap, hg⟩ := gapped_cons.mp hg
  unfold leftover
  split_ifs with c
  · refine gapped_cons.mpr ⟨?_, hg⟩
    rw [leftover_stop front (by omega)]
    exact hgap
  · exact hg

theorem Store.writeFront (hr : r.Store) (hcap : r.capacity < 2 ^ 64) : (writeFront r).Store := by
  rcases hr.writeFront_cases with ⟨heq, -⟩ | ⟨front, rest, bytes, hlist, hF, hs, hc, heq⟩
  · rw [heq]
    exact hr
  have hmem : front ∈ r.storelist := by simp [hlist]
  have hst := hr.stored front hmem
  have hg := hr.gapped
  rw [hlist] at hg
  have hn : writable r front ≤ front.data.length := Nat.min_le_right _ _
  have hrc : writable r front ≤ r.output.remainingCapacity := Nat.min_le_left _ _
  have hstop : front.stop = r.firstindex + front.data.length := by rw [Inforsubstr.stop, hF]
  have hrest : ∀ b ∈ rest, b ∈ r.storelist ∧ front.stop < b.first := fun b hb =>
    ⟨by simp [hlist, hb], (gapped_cons.mp hg).1 b hb⟩
  rw [heq]
  refine
    { stored := ?_
      gapped := gapped_leftover hg
      ahead := ?_
      stray := ?_
      counted := hc
      aligned := by simp only [hr.aligned]
      stream := ?_
      room := hr.room }
  · intro b hb
    rcases mem_leftover hb with hb | ⟨hlt, rfl⟩
    · exact hr.stored b (hrest b hb).1
    · -- What the stream had no room for ends where the block ended.
      have hst' := leftover_stop front hn
      refine ⟨by rw [hst']; exact hst.range, Or.inl ?_⟩
      simp only [Sound] at hs ⊢
      rw [hst']
      exact hs
  · intro b hb
    rcases mem_leftover hb with hb | ⟨hlt, rfl⟩
    · have := (hrest b hb).2
      simp only
      omega
    · simp only
      omega
  · intro b hb hstray
    rcases mem_leftover hb with hb | ⟨hlt, rfl⟩
    · have := (hrest b hb).2
      simp only
      omega
    · simp only [Sound, Stray, Inforsubstr.stop] at hs hstray ⊢
      omega
  · obtain ⟨hfits, hcounted⟩ := hr.stream
    rw [ByteStream.remainingCapacity_eq hfits (by rw [hr.room]; exact hcap)] at hrc
    refine ⟨?_, ?_⟩
    · simp only [List.length_append, List.length_take]
      omega
    · simp only [List.length_append, List.length_take]
      omega

theorem Store.writeFront_frame (hr : r.Store) :
    r.writeFront.capacity = r.capacity ∧ r.writeFront.checkeof = r.checkeof ∧
      r.writeFront.output.alread = r.output.alread := by
  rcases hr.writeFront_cases with ⟨heq, -⟩ | ⟨_, _, _, -, -, -, -, heq⟩
  · rw [heq]
    exact ⟨rfl, rfl, rfl⟩
  · rw [heq]
    exact ⟨rfl, rfl, rfl⟩

theorem Store.setEnd (hr : r.Store) (c e : Bool) :
    ({ r with checkeof := c, output := { r.output with ended := e } } : StreamReassembler).Store :=
  ⟨hr.stored, hr.gapped, hr.ahead, hr.stray, hr.counted, hr.aligned, ⟨hr.stream.fits, hr.stream.counted⟩,
    hr.room⟩

theorem Store.readOut (hr : r.Store) (len : Nat) : (r.readOut len).Store := by
  have hstream := hr.stream.popOutput len
  rw [ByteStream.popOutput_eq] at hstream
  rw [readOut_eq]
  exact ⟨hr.stored, hr.gapped, hr.ahead, hr.stray, hr.counted, hr.aligned, hstream, hr.room⟩

/-! ## The whole call -/

def pushed (data : List UInt8) (index : Nat) : Inforsubstr := ⟨index, index + data.length - 1, data⟩

theorem pushed_sound {data : List UInt8} {index : Nat} (h : data ≠ []) : (pushed data index).Sound := by
  have := List.length_pos_of_ne_nil h
  simp only [Sound, pushed, Inforsubstr.stop]
  omega

/-- `t` is the state when the store is trimmed and nothing is written yet. -/
structure Trimmed (r : StreamReassembler) (sub : Inforsubstr) (eof : Bool) (init : List Inforsubstr)
    (back m : Inforsubstr) (t : StreamReassembler) : Prop where
  placed : Placed r.firstindex r.storelist sub (init ++ [back]) m
  list : t.storelist = init ++ [cut (r.firstindex + r.capacity) back]
  checkeof : t.checkeof = (eof || r.checkeof)
  firstindex : t.firstindex = r.firstindex
  output : t.output = r.output
  capacity : t.capacity = r.capacity
  store : t.Store

theorem pushSubstring_nil (r : StreamReassembler) (index : Nat) (eof : Bool) :
    pushSubstring r [] index eof = some { r with
      checkeof := eof || r.checkeof
      output := if (eof || r.checkeof) && r.firstindex == index then r.output.endInput else r.output } := by
  unfold pushSubstring
  cases eof <;> simp <;> split_ifs <;> rfl

section Push

variable {data : List UInt8} {index : Nat} {eof : Bool}

theorem pushed_eq (hne : data ≠ []) (hend : index + data.length < 2 ^ 64) :
    (⟨index, sub64 (add64 index data.length) 1, data⟩ : Inforsubstr) = pushed data index := by
  have := List.length_pos_of_ne_nil hne
  rw [add64_eq hend, sub64_eq (by omega) hend, pushed]

theorem pushSubstring_old (hne : data ≠ []) (hlast : sub64 (add64 index data.length) 1 < r.firstindex) :
    pushSubstring r data index eof = some { r with checkeof := eof || r.checkeof } := by
  have hlen := List.length_pos_of_ne_nil hne
  unfold pushSubstring
  simp only
  rw [if_neg (by omega), if_pos hlast]
  cases eof <;> rfl

theorem pushSubstring_stale (hne : data ≠ []) (hend : index + data.length < 2 ^ 64)
    (hold : index + data.length ≤ r.firstindex) :
    pushSubstring r data index eof = some { r with checkeof := eof || r.checkeof } := by
  have hlen := List.length_pos_of_ne_nil hne
  refine pushSubstring_old hne ?_
  rw [add64_eq hend, sub64_eq (by omega) hend]
  omega

theorem pushSubstring_fresh (hne : data ≠ []) (hend : index + data.length < 2 ^ 64)
    (hnew : r.firstindex < index + data.length) :
    pushSubstring r data index eof =
      match insertLoop r.storelist (pushed data index) r.privateUnassembledBytes with
      | none => none
      | some (l, bytes) =>
        match trimFront { r with checkeof := eof || r.checkeof, storelist := l, privateUnassembledBytes := bytes } with
        | none => none
        | some r => some (writeFront (trimBack r)) := by
  have hlen := List.length_pos_of_ne_nil hne
  have hlast : ¬ sub64 (add64 index data.length) 1 < r.firstindex := by
    rw [add64_eq hend, sub64_eq (by omega) hend]
    omega
  unfold pushSubstring
  simp only [pushed_eq hne hend]
  rw [if_neg (by omega), if_neg hlast]
  cases eof <;> rfl

theorem Placed.stored {F : Nat} (h : Placed F l sub l' m) (hl : ∀ b ∈ l, b.Stored)
    (hsr : sub.stop < 2 ^ 64) (hsub : max F sub.first < sub.stop) : ∀ b ∈ l', b.Stored := by
  intro b hb
  rcases h.rest b hb with rfl | hb
  · refine ⟨?_, Or.inl h.sound⟩
    -- The last index of `b` is one of the substring or of a block.
    have h1 := h.first_le
    have h2 := h.stop_le
    rcases h.only (b.stop - 1) (by omega) (by omega) with hi | ⟨t, ht, -, hi⟩
    · omega
    · have := (hl t ht).range
      omega
  · exact hl b hb

theorem Store.cut_back {init : List Inforsubstr} {back m sub : Inforsubstr} {bytes : Nat} (hr : r.Store)
    (eof : Bool) (hplaced : Placed r.firstindex r.storelist sub (init ++ [back]) m)
    (hstored : ∀ b ∈ init ++ [back], b.Stored) (hpos : 0 < r.firstindex + r.capacity)
    (hcount : Counted (init ++ [cut (r.firstindex + r.capacity) back]) bytes) :
    ({ r with
      checkeof := eof, storelist := init ++ [cut (r.firstindex + r.capacity) back]
      privateUnassembledBytes := bytes } : StreamReassembler).Store := by
  have hback : back ∈ init ++ [back] := by simp
  obtain ⟨hg, hgap⟩ := gapped_concat.mp hplaced.gapped
  refine
    { stored := ?_
      gapped := ?_
      ahead := ?_
      stray := ?_
      counted := hcount
      aligned := hr.aligned
      stream := hr.stream
      room := hr.room }
  · intro b hb
    rcases List.mem_append.mp hb with hb | hb
    · exact hstored b (List.mem_append_left _ hb)
    · rw [List.mem_singleton.mp hb]
      exact cut_stored (hstored back hback) hpos
  · refine gapped_concat.mpr ⟨hg, fun b hb => ?_⟩
    rw [cut_first]
    exact hgap b hb
  · intro b hb
    rcases List.mem_append.mp hb with hb | hb
    · exact hplaced.ahead b (List.mem_append_left _ hb)
    · rw [List.mem_singleton.mp hb, cut_first]
      exact hplaced.ahead back hback
  · intro b hb hstray
    have hold : ∀ c ∈ init ++ [back], c.Stray → r.firstindex < c.first := by
      intro c hc hcs
      rcases hplaced.rest c hc with rfl | hc'
      · have hs := hplaced.sound
        have := c.first_le_stop
        simp only [Sound, Stray] at hs hcs
        omega
      · exact hr.stray c hc' hcs
    rcases List.mem_append.mp hb with hb | hb
    · exact hold b (List.mem_append_left _ hb) hstray
    · obtain rfl := List.mem_singleton.mp hb
      rw [cut_first]
      -- A stray block comes from a stray block, or from a cut before the block begins.
      rcases cut_shape (hstored back hback).shape hpos with hs | ⟨-, hs | hs⟩
      · have := (cut (r.firstindex + r.capacity) back).first_le_stop
        simp only [Sound, Stray] at hs hstray
        omega
      · exact hold back hback hs
      · simp only
        omega

/-- A substring with new bytes: once the loop ends, the call ends, with what `Trimmed` says. -/
theorem Store.pushSubstring_trimmed (hr : r.Store) (eof : Bool) (hne : data ≠ [])
    (hend : index + data.length < 2 ^ 64)
    (hnew : r.firstindex < index + data.length) (hlim : r.firstindex + r.capacity < 2 ^ 64)
    (hpos : 0 < r.firstindex + r.capacity) {p : List Inforsubstr × Nat}
    (hp : insertLoop r.storelist (pushed data index) r.privateUnassembledBytes = some p) :
    ∃ init back m t, Trimmed r (pushed data index) eof init back m t ∧
      pushSubstring r data index eof = some t.writeFront := by
  obtain ⟨l, bytes⟩ := p
  have hsub : (pushed data index).stop = index + data.length := rfl
  have hfirst : (pushed data index).first = index := rfl
  have hlen := List.length_pos_of_ne_nil hne
  obtain ⟨m₁, hins⟩ := insertLoop_spec hr.stored hr.gapped (pushed_sound hne) hne (by rw [hsub]; exact hend) hp
  have hc₁ : Counted l bytes := by
    obtain ⟨hlt, hcount⟩ := insertLoop_count hp
    have := hr.counted
    simp only [Counted]
    omega
  rw [pushSubstring_fresh hne hend hnew, hp]
  simp only
  obtain ⟨l₂, bytes₂, m, htrim, hplaced, hc₂⟩ :=
    trimFront_spec (r := { r with checkeof := eof || r.checkeof, storelist := l, privateUnassembledBytes := bytes })
      hins hr.ahead (by rw [hsub]; exact hnew) (by rw [hsub]; exact hend) hc₁
  rw [htrim]
  simp only [setStore] at hplaced ⊢
  -- The block with the pushed data is there, so there is a last block to cut.
  have hne₂ : l₂ ≠ [] := List.ne_nil_of_mem hplaced.mem
  obtain ⟨init, back, rfl⟩ : ∃ init back, l₂ = init ++ [back] :=
    ⟨l₂.dropLast, l₂.getLast hne₂, (List.dropLast_append_getLast hne₂).symm⟩
  have hstored := hplaced.stored hr.stored (by rw [hsub]; exact hend) (by rw [hsub, hfirst]; omega)
  have hback : back ∈ init ++ [back] := by simp
  obtain ⟨bytes₃, hback_eq, hc₃⟩ := trimBack_eq (r := { r with
      checkeof := eof || r.checkeof, storelist := init ++ [back], privateUnassembledBytes := bytes₂ })
    rfl (hstored back hback) hlim hpos hc₂
  refine ⟨init, back, m, _, ⟨hplaced, ?_, ?_, ?_, ?_, ?_, ?_⟩, congrArg _ (congrArg _ hback_eq)⟩
  all_goals simp only [setStore]
  exact hr.cut_back _ hplaced hstored hpos hc₃

theorem insertLoop_of_pushSubstring (hne : data ≠ []) (hend : index + data.length < 2 ^ 64)
    (hnew : r.firstindex < index + data.length) (h : pushSubstring r data index eof = some r') :
    ∃ p, insertLoop r.storelist (pushed data index) r.privateUnassembledBytes = some p := by
  rw [pushSubstring_fresh hne hend hnew] at h
  cases hp : insertLoop r.storelist (pushed data index) r.privateUnassembledBytes with
  | none => simp [hp] at h
  | some p => exact ⟨p, rfl⟩

end Push

end StreamReassembler

end Sponge
