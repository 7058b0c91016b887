import Sponge.Lib.Loop
import Sponge.Lib.OnesComplement

/-!
# The Internet checksum

`InternetChecksum` of `libsponge/util/util.cc`. The sum is a 32-bit number, and
`_parity` carries the place in a word from one string to the next.
-/

namespace Sponge

open OnesComplement

structure InternetChecksum where
  sum : UInt32 := 0
  parity : Bool := false
  deriving Repr, DecidableEq

namespace InternetChecksum

def addByte (c : InternetChecksum) (b : UInt8) : InternetChecksum :=
  { sum := c.sum + UInt32.ofNat (if c.parity then b.toNat else b.toNat * 256)
    parity := !c.parity }

def add (c : InternetChecksum) (data : List UInt8) : InternetChecksum := data.foldl addByte c

/-- Each turn of the loop makes the number smaller, so it ends within as many turns as the number
says. -/
def value (c : InternetChecksum) : UInt16 := ~~~ UInt16.ofNat (fold 65536 c.sum.toNat c.sum.toNat)

/-- The words of the string and the initial sum add up to minus zero. -/
def Verifies (initial : Nat) (data : List UInt8) : Prop := digit 65536 (initial + wordSum data) = 65535

instance (initial : Nat) (data : List UInt8) : Decidable (Verifies initial data) :=
  inferInstanceAs (Decidable (_ = _))

theorem sum_add (c : InternetChecksum) (data : List UInt8)
    (h : c.sum.toNat + byteSum c.parity data < 2 ^ 32) :
    (c.add data).sum.toNat = c.sum.toNat + byteSum c.parity data := by
  unfold add
  induction data generalizing c with
  | nil => rfl
  | cons b data ih =>
    rw [byteSum] at h ⊢
    have hb := b.toNat_lt
    have hbyte : (c.addByte b).sum.toNat = c.sum.toNat + (if c.parity then b.toNat else b.toNat * 256) := by
      simp only [addByte, UInt32.toNat_add, UInt32.toNat_ofNat']
      split_ifs at h ⊢ <;> omega
    have hparity : (c.addByte b).parity = !c.parity := rfl
    rw [List.foldl_cons, ih (c.addByte b) (by rw [hbyte, hparity]; omega), hbyte, hparity]
    omega

theorem add_append (c : InternetChecksum) (front rest : List UInt8) : (c.add front).add rest = c.add (front ++ rest) :=
  List.foldl_append.symm

theorem toNat_complement {n : Nat} (h : n < 65536) : (~~~ UInt16.ofNat n).toNat = 65535 - n := by
  rw [UInt16.toNat_not, UInt16.toNat_ofNat']
  simp only [UInt16.size]
  omega

theorem toNat_value {initial : Nat} {data : List UInt8} (h : initial + wordSum data < 2 ^ 32) :
    (add { sum := UInt32.ofNat initial } data).value.toNat = 65535 - digit 65536 (initial + wordSum data) := by
  have hinit : (UInt32.ofNat initial).toNat = initial := by
    rw [UInt32.toNat_ofNat']
    omega
  have hsum := sum_add { sum := UInt32.ofNat initial } data
    (by simp only [hinit, byteSum_eq_wordSum]; exact h)
  simp only [hinit, byteSum_eq_wordSum] at hsum
  unfold value
  rw [hsum, fold_eq_digit (by omega) (le_refl _), toNat_complement (digit_lt (by omega) _)]

theorem value_eq_zero_iff {initial : Nat} {data : List UInt8} (h : initial + wordSum data < 2 ^ 32) :
    (add { sum := UInt32.ofNat initial } data).value = 0 ↔ Verifies initial data := by
  have hlt := digit_lt (by omega : 2 ≤ 65536) (initial + wordSum data)
  rw [← UInt16.toNat_inj, toNat_value h, UInt16.toNat_zero]
  unfold Verifies
  omega

theorem verifies_of_value {initial : Nat} {front zero word rest : List UInt8} (heven : front.length % 2 = 0)
    (hzero : zero.length = 2 ∧ wordSum zero = 0)
    (hword : word.length = 2 ∧
      wordSum word = (add { sum := UInt32.ofNat initial } (front ++ zero ++ rest)).value.toNat)
    (h : initial + wordSum (front ++ zero ++ rest) < 2 ^ 32) : Verifies initial (front ++ word ++ rest) := by
  -- The checksum stands on a word boundary, so its word is a summand of its own.
  have hsum : ∀ w : List UInt8, w.length = 2 →
      wordSum (front ++ w ++ rest) = wordSum front + wordSum w + wordSum rest := by
    intro w hw
    rw [wordSum_append (by simp only [List.length_append]; omega), wordSum_append heven]
  have hcomp := digit_add_complement (by omega : 2 ≤ 65536) (initial + wordSum (front ++ zero ++ rest))
  rw [toNat_value h] at hword
  unfold Verifies
  rw [hsum word hword.1, hword.2]
  rw [hsum zero hzero.1, hzero.2] at hcomp ⊢
  refine Eq.trans ?_ hcomp
  congr 1
  omega

/-! ## Any chunking -/

theorem add_chunks (c : InternetChecksum) (chunks : List (List UInt8)) :
    chunks.foldl add c = c.add chunks.flatten := by
  induction chunks generalizing c with
  | nil => rfl
  | cons chunk chunks ih => rw [List.foldl_cons, ih, add_append, List.flatten_cons]

/-- A turn of the loop in `value()`. -/
def foldOnce (ret : UInt32) : UInt32 := (ret >>> 16) + (ret &&& 0xffff)

theorem toNat_foldOnce (ret : UInt32) : (foldOnce ret).toNat = ret.toNat / 65536 + ret.toNat % 65536 := by
  have hret := ret.toNat_lt
  have hmask : ret.toNat &&& 65535 = ret.toNat % 65536 := Nat.and_two_pow_sub_one_eq_mod ret.toNat 16
  unfold foldOnce
  simp only [UInt32.toNat_add, UInt32.toNat_shiftRight, UInt32.toNat_and, UInt32.reduceToNat, hmask,
    Nat.shiftRight_eq_div_pow, Nat.reduceMod, Nat.reducePow]
  omega

theorem foldOnce_ends (c : InternetChecksum) :
    ∃ ret, Loop.Ends (fun ret : UInt32 => ret > 0xffff) foldOnce c.sum ret ∧ c.value = (~~~ ret).toUInt16 := by
  have hlarge : ∀ ret : UInt32, ret > 0xffff ↔ 65536 ≤ ret.toNat := fun ret => UInt32.lt_iff_toNat_lt
  obtain ⟨ret, hends⟩ : ∃ ret, Loop.Ends (fun ret : UInt32 => ret > 0xffff) foldOnce c.sum ret := by
    apply Loop.ends_of_variant UInt32.toNat
    intro ret h
    rw [toNat_foldOnce]
    exact carry_lt (by omega) ((hlarge ret).mp h)
  refine ⟨ret, hends, ?_⟩
  -- Each turn folds a carry back in, which keeps the digit.
  have hdigit : digit 65536 ret.toNat = digit 65536 c.sum.toNat := by
    apply hends.inv (I := fun ret => digit 65536 ret.toNat = digit 65536 c.sum.toNat)
    · intro ret h hret
      have := (hlarge ret).mp h
      rw [toNat_foldOnce, digit_carry (by omega) (by omega), hret]
    · rfl
  have hsmall : ret.toNat < 65536 := by
    apply Nat.lt_of_not_le
    rw [← hlarge]
    exact hends.not_again
  rw [digit_of_lt (by omega) hsmall] at hdigit
  unfold value
  rw [fold_eq_digit (by omega) (le_refl _), ← hdigit, UInt32.toUInt16_not]
  congr 1

/-- However the bytes come in, the checksum is the complement of their ones' complement sum. -/
theorem value_of_chunks (initial : UInt32) (chunks : List (List UInt8))
    (h : initial.toNat + wordSum chunks.flatten < 2 ^ 32) :
    let c := chunks.foldl add { sum := initial }
    let total := initial.toNat + wordSum chunks.flatten
    c = add { sum := initial } chunks.flatten ∧
      (∃ ret, Loop.Ends (fun ret : UInt32 => ret > 0xffff) foldOnce c.sum ret ∧ c.value = (~~~ ret).toUInt16) ∧
      ∃ s ≤ 0xffff, c.value.toNat = 0xffff - s ∧ s % 65535 = total % 65535 ∧ (s = 0 → total = 0) := by
  intro c total
  have hchunks : c = add { sum := initial } chunks.flatten := add_chunks _ chunks
  refine ⟨hchunks, foldOnce_ends c, digit 65536 total, ?_, ?_, digit_mod 65536 total, digit_eq_zero (by omega)⟩
  · exact Nat.le_of_lt_succ (digit_lt (by omega) total)
  · rw [hchunks, ← UInt32.ofNat_toNat (x := initial)]
    exact toNat_value h

theorem value_of_chunks_odd :
    (0xffff : UInt32).toNat + wordSum [0x12, 0x34, 0x56] < 2 ^ 32 ∧
      ∃ s ≤ 0xffff, ([[0x12], [], [0x34, 0x56]].foldl add { sum := 0xffff }).value.toNat = 0xffff - s ∧
        s % 65535 = (0xffff + 0x1234 + 0x5600) % 65535 ∧ (s = 0 → 0xffff + 0x1234 + 0x5600 = 0) := by
  have h : (0xffff : UInt32).toNat + wordSum [0x12, 0x34, 0x56] < 2 ^ 32 := by decide
  exact ⟨h, (value_of_chunks 0xffff [[0x12], [], [0x34, 0x56]] h).2.2⟩

end InternetChecksum

end Sponge
