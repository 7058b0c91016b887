import Sponge.Lib.Run
import Sponge.Reassembler.Push

/-!
# Prefix safety

Whatever substrings of a stream `S` are pushed, at whatever indices, the bytes
that the reassembler writes are `S` from its start, each once and in order. Stray
blocks may sit in the store, and they may make a call throw, but they never reach
the output.
-/

namespace Sponge

open Word64 Slice Spans Inforsubstr Run

namespace StreamReassembler

/-! ## Runs -/

/-- A reassembler, and every byte that was ever written to its output. -/
structure Trace where
  r : StreamReassembler
  written : List UInt8
  deriving Repr, DecidableEq

/-- A reader calls `read` or `pop_output`: both take bytes off the front of the buffer. -/
inductive Op where
  | push (data : List UInt8) (index : Nat) (eof : Bool)
  | read (len : Nat)
  deriving Repr, DecidableEq

def start (capacity : Nat) : Trace := ⟨new capacity, []⟩

def step (t : Trace) : Op → Option Trace
  | .push data index eof =>
    match t.r.pushSubstring data index eof with
    | none => none
    | some r => some ⟨r, t.written ++ r.output.content.drop t.r.output.content.length⟩
  | .read len => some { t with r := t.r.readOut len }

theorem step_push {t t' : Trace} {data : List UInt8} {index : Nat} {eof : Bool}
    (h : step t (.push data index eof) = some t') :
    ∃ r, t.r.pushSubstring data index eof = some r ∧
      t' = ⟨r, t.written ++ r.output.content.drop t.r.output.content.length⟩ := by
  unfold step at h
  cases hp : t.r.pushSubstring data index eof with
  | none => simp [hp] at h
  | some r =>
    simp only [hp, Option.some.injEq] at h
    exact ⟨r, rfl, h.symm⟩

def Consistent (S : List UInt8) : Op → Prop
  | .push data index _ => IsSlice S index data
  | .read _ => True

instance (S : List UInt8) : ∀ op, Decidable (Consistent S op)
  | .push data index _ => inferInstanceAs (Decidable (IsSlice S index data))
  | .read _ => .isTrue trivial

/-! ## What one push writes -/

variable {r r' : StreamReassembler} {S data : List UInt8} {index : Nat} {eof : Bool}

def Sliced (S : List UInt8) (r : StreamReassembler) : Prop :=
  ∀ b ∈ r.storelist, IsSlice S b.first b.data ∧ b.first < S.length

/-- The reassembler took `bytes` from `S` and put them into the output. -/
structure Advanced (S : List UInt8) (r r' : StreamReassembler) (bytes : List UInt8) : Prop where
  capacity : r'.capacity = r.capacity
  content : r'.output.content = r.output.content ++ bytes
  firstindex : r'.firstindex = r.firstindex + bytes.length
  written : r'.output.alwritten = r.output.alwritten + bytes.length
  slice : IsSlice S r.firstindex bytes

theorem Trimmed.sliced {sub : Inforsubstr} {init : List Inforsubstr} {back m : Inforsubstr}
    {t : StreamReassembler} (h : Trimmed r sub eof init back m t) (hS : Sliced S r)
    (hsub : IsSlice S sub.first sub.data) (hne : sub.data ≠ []) (hnew : r.firstindex < sub.stop) :
    Sliced S t := by
  have hend : sub.stop ≤ S.length := hsub.end_le hne
  have hold : ∀ b ∈ init ++ [back], IsSlice S b.first b.data ∧ b.first < S.length := by
    intro b hb
    rcases h.placed.rest b hb with rfl | hb
    · refine ⟨h.placed.slice S (fun t ht => (hS t ht).1) hsub, ?_⟩
      have := h.placed.first_le
      have := first_lt_stop hne
      omega
    · exact hS b hb
  intro b hb
  rw [h.list] at hb
  rcases List.mem_append.mp hb with hb | hb
  · exact hold b (List.mem_append_left _ hb)
  · rw [List.mem_singleton.mp hb, cut_first]
    obtain ⟨h1, h2⟩ := hold back (by simp)
    have hcut := cut_slice (r.firstindex + r.capacity) h1
    rw [cut_first] at hcut
    exact ⟨hcut, h2⟩

theorem Store.writeFront_sliced (hr : r.Store) (hS : Sliced S r) :
    Sliced S r.writeFront ∧ ∃ bytes, Advanced S r r.writeFront bytes := by
  rcases hr.writeFront_cases with ⟨heq, -⟩ | ⟨front, rest, bytes, hlist, hF, -, -, heq⟩
  · rw [heq]
    exact ⟨hS, [], ⟨rfl, by simp, rfl, rfl, isSlice_nil⟩⟩
  obtain ⟨hslice, -⟩ := hS front (by simp [hlist])
  have hlen := length_take_writable r front
  rw [heq]
  refine ⟨?_, front.data.take (writable r front), ⟨rfl, rfl, ?_, ?_, ?_⟩⟩
  · intro b hb
    rcases mem_leftover hb with hb | ⟨hlt, rfl⟩
    · exact hS b (by simp [hlist, hb])
    · refine ⟨hslice.drop _, ?_⟩
      have := hslice.end_le (List.ne_nil_of_length_pos (by omega))
      simp only
      omega
  · rw [hlen]
  · rw [hlen]
  · rw [← hF]
    exact hslice.take _

theorem advanced_nil (hcap : r'.capacity = r.capacity) (hF : r'.firstindex = r.firstindex)
    (hc : r'.output.content = r.output.content) (hw : r'.output.alwritten = r.output.alwritten) :
    Advanced S r r' [] := ⟨hcap, by simp [hc], by simp [hF], by simp [hw], isSlice_nil⟩

/-- When a substring brings new bytes, the end of the window can be computed. -/
def NoOverflow (r : StreamReassembler) (data : List UInt8) (index : Nat) : Prop :=
  data ≠ [] → r.firstindex < index + data.length → r.firstindex + r.capacity < 2 ^ 64

instance (r : StreamReassembler) (data : List UInt8) (index : Nat) : Decidable (NoOverflow r data index) :=
  inferInstanceAs (Decidable (_ → _ → _))

theorem Store.push_store (hr : r.Store) (hend : index + data.length < 2 ^ 64) (hlim : NoOverflow r data index)
    (hcap : 0 < r.capacity) (h : pushSubstring r data index eof = some r') : r'.Store ∧ r'.capacity = r.capacity := by
  by_cases hne : data = []
  · subst hne
    rw [pushSubstring_nil] at h
    cases h
    split_ifs
    · exact ⟨hr.setEnd _ true, rfl⟩
    · exact ⟨hr.setEnd _ r.output.ended, rfl⟩
  by_cases hnew : r.firstindex < index + data.length
  · have hlim' := hlim hne hnew
    obtain ⟨p, hp⟩ := insertLoop_of_pushSubstring hne hend hnew h
    obtain ⟨init, back, m, t, ht, heq⟩ := hr.pushSubstring_trimmed eof hne hend hnew hlim' (by omega) hp
    rw [heq] at h
    cases h
    exact ⟨ht.store.writeFront (by rw [ht.capacity]; omega), ht.store.writeFront_frame.1.trans ht.capacity⟩
  · rw [pushSubstring_stale hne hend (by omega)] at h
    cases h
    exact ⟨hr.setEnd _ r.output.ended, rfl⟩

theorem Store.push (hr : r.Store) (hS : Sliced S r) (hdata : IsSlice S index data)
    (hlen : S.length < 2 ^ 64) (hlim : NoOverflow r data index) (hcap : 0 < r.capacity)
    (h : pushSubstring r data index eof = some r') :
    r'.Store ∧ Sliced S r' ∧ ∃ bytes, Advanced S r r' bytes := by
  by_cases hne : data = []
  · subst hne
    rw [pushSubstring_nil] at h
    cases h
    split_ifs
    · exact ⟨hr.setEnd _ true, hS, [], advanced_nil rfl rfl rfl rfl⟩
    · exact ⟨hr.setEnd _ r.output.ended, hS, [], advanced_nil rfl rfl rfl rfl⟩
  have hend : index + data.length < 2 ^ 64 := lt_of_le_of_lt (hdata.end_le hne) hlen
  have hstore := (hr.push_store hend hlim hcap h).1
  by_cases hnew : r.firstindex < index + data.length
  · obtain ⟨p, hp⟩ := insertLoop_of_pushSubstring hne hend hnew h
    obtain ⟨init, back, m, t, ht, heq⟩ :=
      hr.pushSubstring_trimmed eof hne hend hnew (hlim hne hnew) (by omega) hp
    rw [heq] at h
    cases h
    have htS := ht.sliced hS hdata hne hnew
    -- Trimming leaves the output alone, so what is written is written by `writeFront`.
    obtain ⟨hS', bytes, hadv⟩ := ht.store.writeFront_sliced htS
    refine ⟨hstore, hS', bytes, ?_⟩
    exact
      { capacity := by rw [hadv.capacity, ht.capacity]
        content := by rw [hadv.content, ht.output]
        firstindex := by rw [hadv.firstindex, ht.firstindex]
        written := by rw [hadv.written, ht.output]
        slice := by rw [← ht.firstindex]; exact hadv.slice }
  · rw [pushSubstring_stale hne hend (by omega)] at h
    cases h
    exact ⟨hstore, hS, [], advanced_nil rfl rfl rfl rfl⟩

/-! ## A window of no bytes

With capacity 0 the `last` of the last block wraps to the top of the range, so the blocks are
neither sound nor stray. Nothing is ever written. -/

/-- A block that leaves `firstindex` at 0 when the write phase takes it out. -/
structure Inert (b : Inforsubstr) : Prop where
  range : b.last < 2 ^ 64
  top : b.first = 0 → b.data = [] → b.last = 2 ^ 64 - 1

structure Sealed (r : StreamReassembler) : Prop where
  capacity : r.capacity = 0
  max : r.output.max = 0
  content : r.output.content = []
  written : r.output.alwritten = 0
  firstindex : r.firstindex = 0
  inert : ∀ b ∈ r.storelist, Inert b

theorem sealed_new : (new 0).Sealed := ⟨rfl, rfl, rfl, rfl, rfl, by simp [new]⟩

theorem Inert.overlap {temp sub m : Inforsubstr} (ht : Inert temp) (hs : Inert sub)
    (h : overlap temp sub = some m) : Inert m := by
  unfold StreamReassembler.overlap at h
  split_ifs at h with c1 c2 c3
  · cases h
    exact ht
  · split at h
    · cases h
    · cases h
      refine ⟨hs.range, fun h0 hnil => ?_⟩
      -- An empty block at 0 has the largest `last`, so the first case would have applied.
      have := ht.top h0 (List.append_eq_nil_iff.mp hnil).1
      have := hs.range
      simp only at h0
      omega
  · split at h
    · cases h
    · cases h
      refine ⟨ht.range, fun h0 hnil => ?_⟩
      have := hs.top h0 (List.append_eq_nil_iff.mp hnil).1
      have := ht.range
      simp only
      omega
  · cases h
    exact hs

theorem Inert.insertLoop {l l' : List Inforsubstr} {sub : Inforsubstr} {bytes bytes' : Nat}
    (hl : ∀ b ∈ l, Inert b) (hs : Inert sub) (h : insertLoop l sub bytes = some (l', bytes')) :
    ∀ b ∈ l', Inert b := by
  induction l generalizing sub bytes l' bytes' with
  | nil =>
    rw [StreamReassembler.insertLoop] at h
    cases h
    simpa using hs
  | cons temp l ih =>
    have hl' : ∀ b ∈ l, Inert b := fun b hb => hl b (List.mem_cons_of_mem _ hb)
    rcases insertLoop_cases h with ⟨-, rest, hrec, rfl⟩ | ⟨-, -, rfl, -⟩ | ⟨-, -, sub', hov, hrec⟩
    · exact List.forall_mem_cons.mpr ⟨hl temp List.mem_cons_self, ih hl' hs hrec⟩
    · exact List.forall_mem_cons.mpr ⟨hs, hl⟩
    · exact ih hl' ((hl temp List.mem_cons_self).overlap hs hov) hrec

theorem Sealed.trimFront (hr : r.Sealed) : trimFront r = some r := by
  apply trimFront_of_ahead
  intro b _
  rw [hr.firstindex]
  exact Nat.zero_le _

theorem Sealed.trimBack (hr : r.Sealed) : (trimBack r).Sealed := by
  unfold StreamReassembler.trimBack
  split
  · exact hr
  · simp only
    split_ifs
    · refine ⟨hr.capacity, hr.max, hr.content, hr.written, hr.firstindex, ?_⟩
      intro b hb
      rcases List.mem_append.mp hb with hb | hb
      · exact hr.inert b (List.mem_of_mem_dropLast hb)
      · have hlast : sub64 (add64 r.firstindex r.capacity) 1 = 2 ^ 64 - 1 := by
          rw [hr.firstindex, hr.capacity]
          rfl
        rw [List.mem_singleton.mp hb]
        exact ⟨sub64_lt _ _, fun _ _ => hlast⟩
    · exact hr

theorem Sealed.remainingCapacity_eq (hr : r.Sealed) : r.output.remainingCapacity = 0 := by
  unfold ByteStream.remainingCapacity
  rw [hr.max, hr.content]
  rfl

theorem Sealed.write_eq (hr : r.Sealed) (d : List UInt8) : (r.output.write d).1 = r.output := by
  unfold ByteStream.write
  rw [hr.remainingCapacity_eq]
  cases d <;> simp

theorem Sealed.writeFront_eq (hr : r.Sealed) :
    ∃ l bytes ended, (l = r.storelist ∨ l = r.storelist.tail) ∧
      r.writeFront = { r with
        storelist := l
        privateUnassembledBytes := bytes
        output := { r.output with ended := ended } } := by
  have hsame : ∃ l bytes ended, (l = r.storelist ∨ l = r.storelist.tail) ∧
      r = { r with storelist := l, privateUnassembledBytes := bytes, output := { r.output with ended := ended } } :=
    ⟨r.storelist, r.privateUnassembledBytes, r.output.ended, Or.inl rfl, rfl⟩
  unfold StreamReassembler.writeFront
  cases hlist : r.storelist with
  | nil =>
    rw [hlist] at hsame
    exact hsame
  | cons front rest =>
    simp only [hr.remainingCapacity_eq, hr.write_eq]
    by_cases hF : front.first = r.firstindex
    · rw [if_pos hF]
      by_cases hlen : 0 < front.data.length
      · have hfirst : add64 front.first 0 = front.first := by
          rw [hF, hr.firstindex]
          rfl
        rw [if_pos hlen, hfirst, List.drop_zero, hF]
        split_ifs
        · exact ⟨_, _, true, Or.inl (by rw [← hF]), rfl⟩
        · exact ⟨_, _, r.output.ended, Or.inl (by rw [← hF]), rfl⟩
      · -- An empty block at 0 is taken out, and its `last` wraps back to 0.
        have hnil : front.data = [] := List.eq_nil_of_length_eq_zero (by omega)
        have hlast : add64 front.last 1 = r.firstindex := by
          rw [(hr.inert front (by simp [hlist])).top (by rw [hF]; exact hr.firstindex) hnil, hr.firstindex]
          rfl
        rw [if_neg hlen, hlast]
        split_ifs
        · exact ⟨_, _, true, Or.inr rfl, rfl⟩
        · exact ⟨_, _, r.output.ended, Or.inr rfl, rfl⟩
    · rw [if_neg hF]
      rw [hlist] at hsame
      exact hsame

theorem Sealed.writeFront (hr : r.Sealed) : (writeFront r).Sealed := by
  obtain ⟨l, bytes, ended, hl, heq⟩ := hr.writeFront_eq
  rw [heq]
  refine ⟨hr.capacity, hr.max, hr.content, hr.written, hr.firstindex, ?_⟩
  rcases hl with rfl | rfl
  · exact hr.inert
  · exact fun b hb => hr.inert b (List.mem_of_mem_tail hb)

theorem Sealed.pushSubstring_cases (hr : r.Sealed) (hne : data ≠ [])
    (h : pushSubstring r data index eof = some r') :
    ∃ t : StreamReassembler, t.Sealed ∧ t.checkeof = (eof || r.checkeof) ∧ t.output = r.output ∧
      r' = t.trimBack.writeFront := by
  unfold pushSubstring at h
  simp only [List.length_eq_zero_iff, if_neg hne, hr.firstindex, Nat.not_lt_zero, if_false] at h
  cases hins : StreamReassembler.insertLoop r.storelist ⟨index, sub64 (add64 index data.length) 1, data⟩
      r.privateUnassembledBytes with
  | none => simp [hins] at h
  | some p =>
    have hsub : Inert ⟨index, sub64 (add64 index data.length) 1, data⟩ :=
      ⟨sub64_lt _ _, fun _ hnil => absurd hnil hne⟩
    have hsealed : ({ r with
        checkeof := if eof then eof else r.checkeof
        storelist := p.1
        firstindex := 0
        privateUnassembledBytes := p.2 } : StreamReassembler).Sealed :=
      ⟨hr.capacity, hr.max, hr.content, hr.written, rfl, Inert.insertLoop hr.inert hsub hins⟩
    simp only [hins, hsealed.trimFront, Option.some.injEq] at h
    exact ⟨_, hsealed, by cases eof <;> rfl, rfl, h.symm⟩

theorem Sealed.push (hr : r.Sealed) (h : pushSubstring r data index eof = some r') : r'.Sealed := by
  by_cases hne : data = []
  · subst hne
    rw [pushSubstring_nil] at h
    cases h
    refine ⟨hr.capacity, ?_, ?_, ?_, hr.firstindex, hr.inert⟩
    all_goals simp only; split_ifs
    exacts [hr.max, hr.max, hr.content, hr.content, hr.written, hr.written]
  · obtain ⟨t, ht, -, -, rfl⟩ := hr.pushSubstring_cases hne h
    exact ht.trimBack.writeFront

/-! ## Any capacity, any indices -/

/-- What holds between two calls when only pieces of `S` are pushed. -/
def Safe (S : List UInt8) (r : StreamReassembler) : Prop :=
  r.Sealed ∨ (0 < r.capacity ∧ r.Store ∧ Sliced S r)

theorem safe_new (S : List UInt8) (capacity : Nat) : Safe S (new capacity) := by
  rcases Nat.eq_zero_or_pos capacity with rfl | hpos
  · exact Or.inl sealed_new
  · exact Or.inr ⟨hpos, store_new capacity, by simp [Sliced, new]⟩

theorem Safe.aligned (h : Safe S r) : r.firstindex = r.output.alwritten := by
  rcases h with h | ⟨-, h, -⟩
  · rw [h.firstindex, h.written]
  · exact h.aligned

theorem Safe.mono {T : List UInt8} (h : Safe S r) (hST : S <+: T) : Safe T r := by
  rcases h with h | ⟨hcap, h, hS⟩
  · exact Or.inl h
  · exact Or.inr ⟨hcap, h, fun b hb => ⟨(hS b hb).1.mono hST, lt_of_lt_of_le (hS b hb).2 hST.length_le⟩⟩

theorem Safe.readOut (h : Safe S r) (len : Nat) : Safe S (r.readOut len) := by
  rcases h with h | ⟨hcap, h, hS⟩
  · left
    rw [readOut_eq]
    exact ⟨h.capacity, h.max, by simp only [h.content, List.drop_nil], h.written, h.firstindex, h.inert⟩
  · exact Or.inr ⟨hcap, h.readOut len, hS⟩

theorem Safe.push (hr : Safe S r) (hdata : IsSlice S index data) (hlen : S.length < 2 ^ 64)
    (hlim : NoOverflow r data index) (h : pushSubstring r data index eof = some r') :
    Safe S r' ∧ ∃ bytes, Advanced S r r' bytes := by
  rcases hr with hr | ⟨hcap, hr, hS⟩
  · have hr' := hr.push h
    refine ⟨Or.inl hr', [], advanced_nil ?_ ?_ ?_ ?_⟩
    · rw [hr'.capacity, hr.capacity]
    · rw [hr'.firstindex, hr.firstindex]
    · rw [hr'.content, hr.content]
    · rw [hr'.written, hr.written]
  · obtain ⟨hr', hS', bytes, hadv⟩ := hr.push hS hdata hlen hlim hcap h
    exact ⟨Or.inr ⟨by rw [hadv.capacity]; exact hcap, hr', hS'⟩, bytes, hadv⟩

/-- What holds between two steps of a run. -/
structure TraceInv (S : List UInt8) (capacity : Nat) (t : Trace) : Prop where
  safe : Safe S t.r
  capacity : t.r.capacity = capacity
  start : t.written <+: S
  length : t.written.length = t.r.firstindex

theorem traceInv_start (S : List UInt8) (capacity : Nat) : TraceInv S capacity (start capacity) :=
  ⟨safe_new S capacity, rfl, List.nil_prefix, rfl⟩

theorem TraceInv.mono {T : List UInt8} {capacity : Nat} {t : Trace} (ht : TraceInv S capacity t) (hST : S <+: T) :
    TraceInv T capacity t :=
  ⟨ht.safe.mono hST, ht.capacity, ht.start.trans hST, ht.length⟩

theorem TraceInv.readOut {capacity : Nat} {t : Trace} (ht : TraceInv S capacity t) (len : Nat) :
    TraceInv S capacity { t with r := t.r.readOut len } :=
  ⟨ht.safe.readOut len, ht.capacity, ht.start, ht.length⟩

theorem TraceInv.firstindex_le {capacity : Nat} {t : Trace} (ht : TraceInv S capacity t) :
    t.r.firstindex ≤ S.length := by
  rw [← ht.length]
  exact ht.start.length_le

theorem TraceInv.push {capacity : Nat} {t : Trace} (ht : TraceInv S capacity t)
    (hdata : IsSlice S index data) (hlen : S.length < 2 ^ 64) (hlim : NoOverflow t.r data index)
    (h : pushSubstring t.r data index eof = some r') :
    TraceInv S capacity ⟨r', t.written ++ r'.output.content.drop t.r.output.content.length⟩ := by
  obtain ⟨hsafe, bytes, hadv⟩ := ht.safe.push hdata hlen hlim h
  have hnew : r'.output.content.drop t.r.output.content.length = bytes := by
    rw [hadv.content, List.drop_left]
  rw [hnew]
  refine ⟨hsafe, by rw [hadv.capacity, ht.capacity], ?_, ?_⟩
  · have hw := isSlice_zero_iff.mpr ht.start
    refine isSlice_zero_iff.mp (hw.append ?_)
    rw [Nat.zero_add, ht.length]
    exact hadv.slice
  · rw [hadv.firstindex, List.length_append, ht.length]

theorem TraceInv.step {capacity : Nat} (hS : S.length + capacity < 2 ^ 64) (t : Trace) (op : Op)
    (t' : Trace) (ht : TraceInv S capacity t) (hop : Consistent S op) (h : step t op = some t') :
    TraceInv S capacity t' := by
  cases op with
  | push data index eof =>
    obtain ⟨r', hp, rfl⟩ := step_push h
    have hF := ht.firstindex_le
    exact ht.push hop (by omega) (fun _ _ => by rw [ht.capacity]; omega) hp
  | read len =>
    cases h
    exact ht.readOut len

/-- The bytes ever written are the first `bytes_written` bytes of the stream, and `firstindex`
counts them. -/
theorem written_eq_take (S : List UInt8) (capacity : Nat) (ops : List Op) (t : Trace)
    (hS : S.length + capacity < 2 ^ 64) (hops : ∀ op ∈ ops, Consistent S op)
    (h : run step (start capacity) ops = some t) :
    t.r.output.bytesWritten ≤ S.length ∧ t.written = S.take t.r.output.bytesWritten ∧
      t.r.firstindex = t.r.output.bytesWritten := by
  have ht := run_inv_of_allSteps (TraceInv.step hS) (traceInv_start S capacity) (allSteps_of_forall hops) h
  have haligned := ht.safe.aligned
  have hlen := ht.length
  have hle := ht.start.length_le
  simp only [ByteStream.bytesWritten]
  refine ⟨by omega, ?_, haligned⟩
  rw [← haligned, ← hlen]
  exact (List.prefix_iff_eq_take.mp ht.start)

/-- Pieces of `abcdef`: one past a window of two bytes, and two that overlap. -/
def strayOps : List Op :=
  [.push [101, 102] 4 false, .push [97, 98, 99] 0 false, .read 2, .push [98, 99, 100] 1 false]

theorem written_eq_take_stray :
    ∃ t, run step (start 2) strayOps = some t ∧ t.r.output.bytesWritten ≤ 6 ∧
      t.written = ([97, 98, 99, 100, 101, 102] : List UInt8).take t.r.output.bytesWritten ∧
      t.r.firstindex = t.r.output.bytesWritten :=
  ⟨_, rfl, written_eq_take [97, 98, 99, 100, 101, 102] 2 strayOps _ (by decide) (by decide) rfl⟩

end StreamReassembler

end Sponge
