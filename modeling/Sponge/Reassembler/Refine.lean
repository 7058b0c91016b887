import Sponge.Reassembler.Prefix
import Sponge.Reassembler.Window

/-!
# The reassembler as a set of bytes

For substrings that begin inside the window, the store is a way to keep a finite
map from indices to bytes. `Reference` is that map and nothing else; it has no
blocks, no order and no counters to keep in step.
-/

namespace Sponge

open Word64 Slice Spans Inforsubstr Run

/-! ## The reference -/

structure Reference where
  /-- The first index that was not written. -/
  front : Nat
  held : Nat → Option UInt8
  out : List UInt8
  /-- How many bytes of `out` nobody has read. -/
  unread : Nat

namespace Reference

def start : Reference := ⟨0, fun _ => none, [], 0⟩

def longestRun (held : Nat → Option UInt8) (i : Nat) : Nat → List UInt8
  | 0 => []
  | n + 1 => match held i with
    | none => []
    | some b => b :: longestRun held (i + 1) n

def add (u : Reference) (capacity : Nat) (data : List UInt8) (index : Nat) : Nat → Option UInt8 := fun i =>
  if u.front ≤ i ∧ i < u.front + capacity ∧ index ≤ i ∧ i < index + data.length then data[i - index]?
  else u.held i

def move (u : Reference) (held : Nat → Option UInt8) (bytes : List UInt8) : Reference where
  front := u.front + bytes.length
  held := fun i => if i < u.front + bytes.length then none else held i
  out := u.out ++ bytes
  unread := u.unread + bytes.length

def push (u : Reference) (capacity : Nat) (data : List UInt8) (index : Nat) : Reference :=
  if data ≠ [] ∧ u.front < index + data.length then
    let held := u.add capacity data index
    u.move held (longestRun held u.front (capacity - u.unread))
  else u

def step (capacity : Nat) (u : Reference) : StreamReassembler.Op → Reference
  | .push data index _ => u.push capacity data index
  | .read len => { u with unread := u.unread - len }

theorem longestRun_eq {held : Nat → Option UInt8} {d : List UInt8} {i : Nat}
    (hd : ∀ k < d.length, held (i + k) = d[k]?) (hgap : held (i + d.length) = none) (n : Nat) :
    longestRun held i n = d.take n := by
  induction n generalizing d i with
  | zero => simp [longestRun]
  | succ n ih =>
    cases d with
    | nil =>
      simp only [List.length_nil, Nat.add_zero] at hgap
      simp [longestRun, hgap]
    | cons b d =>
      have hb : held i = some b := by simpa using hd 0 (by simp)
      have hrest : longestRun held (i + 1) n = d.take n := by
        apply ih
        · intro k hk
          have := hd (k + 1) (by simp; omega)
          rw [Nat.add_assoc, Nat.add_comm 1 k, this]
          simp
        · rw [← hgap, List.length_cons]
          congr 1
          omega
      simp [longestRun, hb, hrest]

end Reference

namespace StreamReassembler

/-! ## What the store holds -/

variable {r t : StreamReassembler}

/-- The bytes that a store holds, given the stream they come from. -/
def heldBytes (S : List UInt8) (r : StreamReassembler) (i : Nat) : Option UInt8 :=
  if r.storelist.any (fun b => b.first ≤ i && i < b.stop) then S[i]? else none

theorem heldBytes_of_covers {S : List UInt8} {i : Nat} (h : Covers first stop r.storelist i) :
    heldBytes S r i = S[i]? := by
  obtain ⟨b, hb, hi⟩ := h
  rw [heldBytes, if_pos]
  rw [List.any_eq_true]
  exact ⟨b, hb, by simpa using hi⟩

theorem heldBytes_of_not_covers {S : List UInt8} {i : Nat} (h : ¬ Covers first stop r.storelist i) :
    heldBytes S r i = none := by
  rw [heldBytes, if_neg]
  rw [List.any_eq_true]
  rintro ⟨b, hb, hi⟩
  exact h ⟨b, hb, by simpa using hi⟩

theorem longestRun_front {S : List UInt8} {front : Inforsubstr} {rest : List Inforsubstr} (hr : r.Store)
    (hS : Sliced S r) (hlist : r.storelist = front :: rest) (hF : front.first = r.firstindex) (n : Nat) :
    Reference.longestRun (heldBytes S r) r.firstindex n = front.data.take n := by
  obtain ⟨hslice, -⟩ := hS front (by simp [hlist])
  have hgap := hr.gapped
  rw [hlist] at hgap
  apply Reference.longestRun_eq
  · intro k hk
    rw [heldBytes_of_covers, ← hF, hslice k hk]
    rw [hlist, covers_cons]
    left
    simp only [Inforsubstr.stop]
    omega
  · apply heldBytes_of_not_covers
    rw [hlist, covers_cons, ← hF]
    rintro (hi | ⟨b, hb, hi⟩)
    · simp only [Inforsubstr.stop] at hi
      omega
    · have := (gapped_cons.mp hgap).1 b hb
      simp only [Inforsubstr.stop] at this
      omega

theorem InWindow.writeFront_longestRun {S : List UInt8} (hr : r.InWindow) (hS : Sliced S r)
    (hcap : r.capacity < 2 ^ 64) : ∃ bytes, Advanced S r r.writeFront bytes ∧
      bytes = Reference.longestRun (heldBytes S r) r.firstindex (r.capacity - r.output.content.length) := by
  rcases hr.store.writeFront_cases with ⟨heq, hwait⟩ | ⟨front, rest, bytes, hlist, hF, hs, -, heq⟩
  · -- The front block is still ahead: the run is empty.
    have hnone : heldBytes S r (r.firstindex + 0) = none := by
      apply heldBytes_of_not_covers
      rintro ⟨b, hb, hi⟩
      have := hwait b hb
      omega
    rw [heq]
    refine ⟨[], advanced_nil rfl rfl rfl rfl, ?_⟩
    rw [Reference.longestRun_eq (d := []) (by simp) hnone, List.take_nil]
  obtain ⟨hslice, -⟩ := hS front (by simp [hlist])
  have hrc : r.output.remainingCapacity = r.capacity - r.output.content.length := by
    rw [ByteStream.remainingCapacity_eq hr.store.stream.fits (by rw [hr.store.room]; exact hcap), hr.store.room]
  have hlen := length_take_writable r front
  rw [heq]
  refine ⟨front.data.take (writable r front), ⟨rfl, rfl, ?_, ?_, ?_⟩, ?_⟩
  · rw [hlen]
  · rw [hlen]
  · rw [← hF]
    exact hslice.take _
  · rw [longestRun_front hr.store hS hlist hF, ← hrc, writable, List.take_eq_take_iff]
    omega

/-! ## The simulation -/

variable {S data : List UInt8} {index capacity : Nat}

theorem heldBytes_trimmed (ht : ∀ i, Covers first stop t.storelist i ↔
      r.firstindex ≤ i ∧ i < r.firstindex + r.capacity ∧
        ((index ≤ i ∧ i < index + data.length) ∨ Covers first stop r.storelist i))
    (hr : r.InWindow) (hdata : IsSlice S index data) {u : Reference} (hfront : u.front = r.firstindex)
    (hheld : u.held = heldBytes S r) : u.add r.capacity data index = heldBytes S t := by
  funext i
  rw [Reference.add, hfront, hheld]
  split_ifs with c
  · rw [heldBytes_of_covers ((ht i).mpr ⟨c.1, c.2.1, Or.inl c.2.2⟩), ← hdata (i - index) (by omega)]
    congr 1
    omega
  · -- Outside the new data a byte is held exactly if it was held before.
    by_cases hc : Covers first stop r.storelist i
    · have hcover : Covers first stop t.storelist i := by
        obtain ⟨b, hb, hi⟩ := hc
        have := hr.store.ahead b hb
        have := hr.window b hb
        exact (ht i).mpr ⟨by omega, by omega, Or.inr ⟨b, hb, hi⟩⟩
      rw [heldBytes_of_covers hc, heldBytes_of_covers hcover]
    · have hnot : ¬ Covers first stop t.storelist i := by
        rw [ht i]
        rintro ⟨h1, h2, h3 | h3⟩
        · exact c ⟨h1, h2, h3⟩
        · exact hc h3
      rw [heldBytes_of_not_covers hc, heldBytes_of_not_covers hnot]

/-- The states that correspond: the store is the held bytes of the reference. -/
structure Refines (S : List UInt8) (capacity : Nat) (t : Trace) (u : Reference) : Prop where
  inv : TraceInv S capacity t
  window : t.r.InWindow
  sliced : Sliced S t.r
  front : u.front = t.r.firstindex
  held : u.held = heldBytes S t.r
  out : u.out = t.written
  unread : u.unread = t.r.output.content.length

theorem refines_start (S : List UInt8) (capacity : Nat) :
    Refines S capacity (start capacity) Reference.start where
  inv := traceInv_start S capacity
  window := inWindow_new capacity
  sliced := by simp [Sliced, start, new]
  front := rfl
  held := by
    funext i
    simp [Reference.start, heldBytes, start, new]
  out := rfl
  unread := rfl

theorem Refines.setEnd {t : Trace} {u : Reference} (h : Refines S capacity t u) (c e : Bool) :
    Refines S capacity ⟨{ t.r with checkeof := c, output := { t.r.output with ended := e } }, t.written⟩ u where
  inv := by
    refine ⟨?_, h.inv.capacity, h.inv.start, h.inv.length⟩
    rcases h.inv.safe with hs | ⟨hcap, hst, hS⟩
    · exact Or.inl ⟨hs.capacity, hs.max, hs.content, hs.written, hs.firstindex, hs.inert⟩
    · exact Or.inr ⟨hcap, hst.setEnd c e, hS⟩
  window := h.window.setEnd c e
  sliced := h.sliced
  front := h.front
  held := h.held
  out := h.out
  unread := h.unread

theorem Refines.push_nil {t : Trace} {u : Reference} (h : Refines S capacity t u) (eof : Bool) :
    ∃ t', step t (.push [] index eof) = some t' ∧ Refines S capacity t' (u.push capacity [] index) := by
  have hu : u.push capacity [] index = u := by simp [Reference.push]
  rw [hu]
  simp only [step, pushSubstring_nil]
  refine ⟨_, rfl, ?_⟩
  by_cases c : ((eof || t.r.checkeof) && t.r.firstindex == index) = true
  · simp only [if_pos c, ByteStream.endInput, List.drop_length, List.append_nil]
    exact h.setEnd _ true
  · simp only [if_neg c, List.drop_length, List.append_nil]
    exact h.setEnd _ t.r.output.ended

theorem Refines.push_stale {t : Trace} {u : Reference} (h : Refines S capacity t u) (eof : Bool)
    (hne : data ≠ []) (hend : index + data.length < 2 ^ 64) (hold : index + data.length ≤ t.r.firstindex) :
    ∃ t', step t (.push data index eof) = some t' ∧ Refines S capacity t' (u.push capacity data index) := by
  have hu : u.push capacity data index = u := by
    rw [Reference.push, if_neg]
    rw [h.front]
    omega
  rw [hu]
  simp only [step, pushSubstring_stale hne hend hold, List.drop_length, List.append_nil]
  exact ⟨_, rfl, h.setEnd _ t.r.output.ended⟩

theorem Refines.push_fresh {t : Trace} {u : Reference} (h : Refines S capacity t u) (eof : Bool)
    (hS : S.length + capacity < 2 ^ 64) (hdata : IsSlice S index data) (hne : data ≠ [])
    (hnew : t.r.firstindex < index + data.length) (hwin : index < t.r.firstindex + capacity) :
    ∃ t', step t (.push data index eof) = some t' ∧ Refines S capacity t' (u.push capacity data index) := by
  have hcap := h.inv.capacity
  have hend : index + data.length < 2 ^ 64 := by
    have := hdata.end_le hne
    omega
  have hF := h.inv.firstindex_le
  obtain ⟨p, hp⟩ := insertLoop_total t.r.privateUnassembledBytes h.window.store.stored h.window.store.gapped
    (pushed_sound hne : (pushed data index).Sound) hne hend fun b hb => not_jams_of_sound (h.window.sound b hb).1 _
  obtain ⟨init, back, m, q, hq, heq⟩ := h.window.store.pushSubstring_trimmed eof hne hend hnew
    (by rw [hcap]; omega) (by rw [hcap]; omega) hp
  obtain ⟨hwq, hcov⟩ := h.window.trimmed hq (by rw [hcap]; exact hwin) hne hnew
  have hSq := hq.sliced h.sliced hdata hne hnew
  obtain ⟨hw', hcov'⟩ := hwq.writeFront (by rw [hq.capacity, hcap]; omega)
  obtain ⟨bytes, hadv, hrun⟩ := hwq.writeFront_longestRun hSq (by rw [hq.capacity, hcap]; omega)
  have hF' : q.writeFront.firstindex = t.r.firstindex + bytes.length := by rw [hadv.firstindex, hq.firstindex]
  have hheld : u.add t.r.capacity data index = heldBytes S q :=
    heldBytes_trimmed hcov h.window hdata h.front h.held
  -- The reference adds the data and moves over the longest run; so do `trimBack` and `writeFront`.
  have hpush : u.push capacity data index = u.move (heldBytes S q) bytes := by
    have hcond : data ≠ [] ∧ u.front < index + data.length := ⟨hne, by rw [h.front]; exact hnew⟩
    rw [Reference.push, if_pos hcond, ← hcap, hheld, hrun, hq.firstindex, hq.capacity, hq.output, h.front,
      h.unread]
  have hbytes : q.writeFront.output.content.drop t.r.output.content.length = bytes := by
    rw [hadv.content, hq.output, List.drop_left]
  have hinv := h.inv.push hdata (by omega) (fun _ _ => by rw [hcap]; omega) heq
  refine ⟨⟨q.writeFront, t.written ++ bytes⟩, by simp only [step, heq, hbytes], ?_⟩
  rw [hbytes] at hinv
  rw [hpush]
  refine ⟨hinv, hw', (hwq.store.writeFront_sliced hSq).1, ?_, ?_, ?_, ?_⟩
  · rw [Reference.move, hF', h.front]
  · funext i
    simp only [Reference.move, h.front]
    split_ifs with c
    · rw [heldBytes_of_not_covers]
      rw [hcov', hF']
      omega
    · by_cases hc : Covers first stop q.storelist i
      · have hc' := (hcov' i).mpr ⟨by rw [hF']; omega, hc⟩
        rw [heldBytes_of_covers hc, heldBytes_of_covers hc']
      · have hc' : ¬ Covers first stop q.writeFront.storelist i := fun hi => hc ((hcov' i).mp hi).2
        rw [heldBytes_of_not_covers hc, heldBytes_of_not_covers hc']
  · rw [Reference.move, h.out]
  · rw [Reference.move, hadv.content, hq.output, List.length_append, h.unread]

/-- Every push equals `S` at its place and begins inside the window. -/
def InsidePush (S : List UInt8) (t : Trace) : Op → Prop
  | .push data index _ => IsSlice S index data ∧ index < t.r.firstindex + t.r.capacity
  | .read _ => True

instance (S : List UInt8) (t : Trace) : ∀ op, Decidable (InsidePush S t op)
  | .push _ _ _ => inferInstanceAs (Decidable (_ ∧ _))
  | .read _ => .isTrue trivial

theorem Refines.step (hS : S.length + capacity < 2 ^ 64) (t : Trace) (u : Reference) (op : Op)
    (h : Refines S capacity t u) (hop : InsidePush S t op) :
    ∃ t', step t op = some t' ∧ Refines S capacity t' (u.step capacity op) := by
  cases op with
  | push data index eof =>
    obtain ⟨hdata, hwin⟩ := hop
    rw [h.inv.capacity] at hwin
    by_cases hne : data = []
    · subst hne
      exact h.push_nil eof
    · by_cases hnew : t.r.firstindex < index + data.length
      · exact h.push_fresh eof hS hdata hne hnew hwin
      · have := hdata.end_le hne
        exact h.push_stale eof hne (by omega) (by omega)
  | read len =>
    refine ⟨_, rfl, ?_⟩
    exact
      { inv := h.inv.readOut len
        window := h.window.readOut len
        sliced := h.sliced
        front := h.front
        held := h.held
        out := h.out
        unread := by
          simp only [Reference.step, readOut_eq, h.unread, List.length_drop]
          omega }

theorem Refines.isSome_held {t : Trace} {u : Reference} (h : Refines S capacity t u) (i : Nat) :
    (u.held i).isSome ↔ Covers first stop t.r.storelist i := by
  rw [h.held]
  by_cases hc : Covers first stop t.r.storelist i
  · rw [heldBytes_of_covers hc]
    obtain ⟨b, hb, hi⟩ := hc
    have hend := (h.sliced b hb).1.end_le (h.window.sound b hb).2
    have hlt : i < S.length := lt_of_lt_of_le hi.2 hend
    simp only [List.getElem?_eq_getElem hlt, Option.isSome_some, true_iff]
    exact ⟨b, hb, hi⟩
  · simp [heldBytes_of_not_covers hc, hc]

theorem Refines.held_iff {t : Trace} {u : Reference} (h : Refines S capacity t u) (i : Nat) (c : UInt8) :
    u.held i = some c ↔ ∃ b ∈ t.r.storelist, b.first ≤ i ∧ b.data[i - b.first]? = some c := by
  constructor
  · intro hc
    obtain ⟨b, hb, hi⟩ := (h.isSome_held i).mp (by rw [hc]; rfl)
    refine ⟨b, hb, hi.1, ?_⟩
    rw [h.held, heldBytes_of_covers ⟨b, hb, hi⟩] at hc
    have hlt : i - b.first < b.data.length := by
      have := hi.2
      simp only [Inforsubstr.stop] at this
      omega
    rw [← (h.sliced b hb).1 _ hlt, ← hc]
    congr 1
    omega
  · rintro ⟨b, hb, hi, hc⟩
    obtain ⟨hlt, -⟩ := List.getElem?_eq_some_iff.mp hc
    rw [h.held, heldBytes_of_covers ⟨b, hb, hi, by simp only [Inforsubstr.stop]; omega⟩, ← hc,
      ← (h.sliced b hb).1 _ hlt]
    congr 1
    omega

/-- Substrings that begin inside the window are never refused, and the reassembler holds and
writes exactly the bytes that the reference does. -/
theorem reassembler_refines (S : List UInt8) (capacity : Nat) (ops : List Op)
    (hS : S.length + capacity < 2 ^ 64) (hops : AllSteps step (InsidePush S) (start capacity) ops) :
    ∃ t u, run step (start capacity) ops = some t ∧ u = ops.foldl (Reference.step capacity) Reference.start ∧
      t.r.firstindex = u.front ∧ t.r.output.bytesWritten = u.front ∧ t.written = u.out ∧
      t.r.output.bufferSize = u.unread ∧
      t.r.storelist.Pairwise (fun x y => x.first + x.data.length < y.first) ∧
      (∀ b ∈ t.r.storelist, b.data ≠ [] ∧ b.last = b.first + b.data.length - 1) ∧
      (∀ i c, u.held i = some c ↔ ∃ b ∈ t.r.storelist, b.first ≤ i ∧ b.data[i - b.first]? = some c) ∧
      (∀ i, (u.held i).isSome → u.front ≤ i) ∧ {i | (u.held i).isSome}.Finite ∧
      t.r.unassembledBytes = {i | (u.held i).isSome}.ncard := by
  obtain ⟨t, ht, h⟩ := run_sim (Refines.step hS) (refines_start S capacity) hops
  -- The blocks of the code cover exactly the bytes that the reference holds.
  have hset : {i | ((ops.foldl (Reference.step capacity) Reference.start).held i).isSome} =
      {i | Covers first stop t.r.storelist i} := by
    ext i
    exact h.isSome_held i
  refine ⟨t, _, ht, rfl, h.front.symm, ?_, h.out.symm, h.unread.symm, h.window.store.gapped, ?_,
    h.held_iff, ?_, ?_, ?_⟩
  · rw [h.front, h.window.store.aligned]
    rfl
  · intro b hb
    obtain ⟨hs, hne⟩ := h.window.sound b hb
    refine ⟨hne, ?_⟩
    simp only [Sound, Inforsubstr.stop] at hs
    omega
  · intro i hi
    obtain ⟨b, hb, hi⟩ := (h.isSome_held i).mp hi
    have := h.window.store.ahead b hb
    rw [h.front]
    omega
  · rw [hset]
    exact covers_finite _
  · rw [hset, h.window.store.unassembledBytes_ncard]

/-- The stream `abcdef` with a window of four bytes: a gap, an overlap, a substring that ends past
the window, and a read. -/
def insideOps : List Op :=
  [.push [99] 2 false, .push [98, 99, 100, 101] 1 false, .push [97] 0 false, .read 1, .push [100, 101, 102] 3 true]

theorem reassembler_refines_inside :
    ∃ t u, run step (start 4) insideOps = some t ∧
      u = insideOps.foldl (Reference.step 4) Reference.start ∧
      t.r.firstindex = u.front ∧ t.r.output.bytesWritten = u.front ∧ t.written = u.out ∧
      t.r.output.bufferSize = u.unread ∧
      t.r.storelist.Pairwise (fun x y => x.first + x.data.length < y.first) ∧
      (∀ b ∈ t.r.storelist, b.data ≠ [] ∧ b.last = b.first + b.data.length - 1) ∧
      (∀ i c, u.held i = some c ↔ ∃ b ∈ t.r.storelist, b.first ≤ i ∧ b.data[i - b.first]? = some c) ∧
      (∀ i, (u.held i).isSome → u.front ≤ i) ∧ {i | (u.held i).isSome}.Finite ∧
      t.r.unassembledBytes = {i | (u.held i).isSome}.ncard :=
  reassembler_refines [97, 98, 99, 100, 101, 102] 4 insideOps (by decide) (by decide)

end StreamReassembler

end Sponge
