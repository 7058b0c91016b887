import Mathlib.Algebra.Ring.Nat
import Mathlib.Tactic.Common

/-!
# Ones' complement sums

Adding one-digit numbers in base `B` with the carry added back in gives the sum
modulo `B - 1`, where only 0 itself gives 0. `wordSum` is the plain sum of the
16-bit words of a string of bytes.
-/

namespace Sponge.OnesComplement

/-- Add the carry back in until one digit is left, at most `k` times. -/
def fold (B : Nat) : Nat → Nat → Nat
  | 0, n => n
  | k + 1, n => if n < B then n else fold B k (n / B + n % B)

/-- The digit that stands for `n`. -/
def digit (B n : Nat) : Nat := if n = 0 then 0 else if n % (B - 1) = 0 then B - 1 else n % (B - 1)

variable {B k n : Nat}

theorem carry_lt (hB : 2 ≤ B) (hn : B ≤ n) : n / B + n % B < n := by
  have h1 := Nat.div_add_mod n B
  have h2 : 0 < n / B := Nat.div_pos hn (by omega)
  have h3 : 2 * (n / B) ≤ B * (n / B) := Nat.mul_le_mul_right _ hB
  omega

theorem carry_pos (hn : n ≠ 0) : n / B + n % B ≠ 0 := by
  intro h
  obtain ⟨h2, h3⟩ := Nat.add_eq_zero_iff.mp h
  have h1 := Nat.div_add_mod n B
  rw [h2, h3] at h1
  exact hn h1.symm

theorem carry_mod (hB : 2 ≤ B) : (n / B + n % B) % (B - 1) = n % (B - 1) := by
  obtain ⟨m, rfl⟩ : ∃ m, B = m + 1 := ⟨B - 1, by omega⟩
  have h := Nat.div_add_mod n (m + 1)
  have hsplit : n = m * (n / (m + 1)) + (n / (m + 1) + n % (m + 1)) := by
    rw [← Nat.add_assoc, ← Nat.succ_mul]
    exact h.symm
  rw [Nat.add_sub_cancel]
  conv_rhs => rw [hsplit, Nat.mul_add_mod]

theorem digit_of_lt (hB : 2 ≤ B) (hn : n < B) : digit B n = n := by
  unfold digit
  split_ifs with h0 hmod
  · exact h0.symm
  · have : n = B - 1 := by
      by_contra hne
      rw [Nat.mod_eq_of_lt (by omega)] at hmod
      exact h0 hmod
    exact this.symm
  · refine Nat.mod_eq_of_lt ?_
    by_contra hge
    have : n = B - 1 := by omega
    exact hmod (by rw [this, Nat.mod_self])

theorem digit_lt (hB : 2 ≤ B) (n : Nat) : digit B n < B := by
  have hmod : n % (B - 1) < B - 1 := Nat.mod_lt _ (by omega)
  unfold digit
  split_ifs <;> omega

theorem digit_mod (B n : Nat) : digit B n % (B - 1) = n % (B - 1) := by
  unfold digit
  split_ifs with h0 hmod
  · rw [h0]
  · rw [hmod, Nat.mod_self]
  · exact Nat.mod_mod _ _

/-- Zero alone stands for zero: the other multiples of `B - 1` stand for minus zero. -/
theorem digit_eq_zero (hB : 2 ≤ B) (h : digit B n = 0) : n = 0 := by
  unfold digit at h
  split_ifs at h with h0 hmod
  · exact h0
  · omega
  · exact absurd h hmod

theorem digit_carry (hB : 2 ≤ B) (hn : n ≠ 0) : digit B (n / B + n % B) = digit B n := by
  unfold digit
  rw [carry_mod hB, if_neg (carry_pos hn), if_neg hn]

theorem fold_eq_digit (hB : 2 ≤ B) (hk : n ≤ k) : fold B k n = digit B n := by
  induction k generalizing n with
  | zero =>
    obtain rfl : n = 0 := by omega
    rfl
  | succ k ih =>
    unfold fold
    split_ifs with hlt
    · exact (digit_of_lt hB hlt).symm
    · have hcarry := carry_lt hB (by omega : B ≤ n)
      rw [ih (by omega), digit_carry hB (by omega)]

theorem digit_add_complement (hB : 2 ≤ B) (n : Nat) : digit B (n + (B - 1 - digit B n)) = B - 1 := by
  have hlt : n % (B - 1) < B - 1 := Nat.mod_lt _ (by omega)
  -- Zero is the only number whose digit is 0: every other multiple of `B - 1` has the digit `B - 1`.
  by_cases h0 : n = 0
  · subst h0
    have hzero : digit B 0 = 0 := rfl
    rw [hzero, Nat.zero_add, Nat.sub_zero, digit_of_lt hB (by omega)]
  have hmod : (n + (B - 1 - digit B n)) % (B - 1) = 0 := by
    unfold digit
    rw [if_neg h0]
    split_ifs with hmod
    · rw [Nat.sub_self, Nat.add_zero, hmod]
    · rw [Nat.add_mod, Nat.mod_eq_of_lt (by omega : B - 1 - n % (B - 1) < B - 1), Nat.add_sub_of_le (Nat.le_of_lt hlt),
        Nat.mod_self]
  unfold digit at hmod ⊢
  rw [if_neg (by omega), if_pos hmod]

/-! ## Strings of bytes -/

/-- The sum of the big-endian 16-bit words; a last odd byte is padded with zero. -/
def wordSum : List UInt8 → Nat
  | [] => 0
  | [a] => a.toNat * 256
  | a :: b :: rest => a.toNat * 256 + b.toNat + wordSum rest

/-- The same sum byte by byte. `low` says that the next byte is the low half of a word. -/
def byteSum : Bool → List UInt8 → Nat
  | _, [] => 0
  | low, a :: rest => (if low then a.toNat else a.toNat * 256) + byteSum (!low) rest

theorem byteSum_eq_wordSum (bytes : List UInt8) : byteSum false bytes = wordSum bytes := by
  fun_induction wordSum bytes with
  | case1 => rfl
  | case2 a => simp [byteSum]
  | case3 a b rest ih =>
    simp only [byteSum, Bool.not_false, Bool.not_true, if_true, Bool.false_eq_true, if_false, ih]
    omega

theorem wordSum_le (bytes : List UInt8) : wordSum bytes ≤ 65535 * ((bytes.length + 1) / 2) := by
  fun_induction wordSum bytes with
  | case1 => simp
  | case2 a =>
    have := a.toNat_lt
    simp only [List.length_singleton]
    omega
  | case3 a b rest ih =>
    have := a.toNat_lt
    have := b.toNat_lt
    simp only [List.length_cons]
    omega

theorem wordSum_append {front : List UInt8} (h : front.length % 2 = 0) (rest : List UInt8) :
    wordSum (front ++ rest) = wordSum front + wordSum rest := by
  fun_induction wordSum front with
  | case1 => simp
  | case2 a => simp at h
  | case3 a b front ih =>
    simp only [List.length_cons] at h
    simp only [List.cons_append, wordSum, ih (by omega)]
    omega

/-! ## A changed byte -/

theorem byteSum_set {bytes : List UInt8} {i : Nat} {a : UInt8} (low : Bool) (ha : bytes[i]? = some a) (b : UInt8) :
    byteSum low (bytes.set i b) + a.toNat = byteSum low bytes + b.toNat ∨
      byteSum low (bytes.set i b) + a.toNat * 256 = byteSum low bytes + b.toNat * 256 := by
  induction bytes generalizing low i with
  | nil => cases ha
  | cons x bytes ih =>
    cases i with
    | zero =>
      cases ha
      cases low with
      | false =>
        -- An even position holds the high byte of its word.
        right
        simp only [List.set_cons_zero, byteSum, Bool.false_eq_true, if_false]
        omega
      | true =>
        left
        simp only [List.set_cons_zero, byteSum, if_true]
        omega
    | succ i =>
      have hrest := ih (!low) ha
      simp only [List.set_cons_succ, byteSum]
      omega

/-- A sum that stands for minus zero does not any more when one byte is changed: the difference is
too small to be a multiple of `2 ^ 16 - 1`. -/
theorem digit_set_ne {bytes : List UInt8} {i : Nat} {a b : UInt8} (ha : bytes[i]? = some a) (hne : a ≠ b) (n : Nat)
    (h : digit 65536 (n + wordSum bytes) = 65535) : digit 65536 (n + wordSum (bytes.set i b)) ≠ 65535 := by
  have hdiff : a.toNat ≠ b.toNat := fun heq => hne (UInt8.toNat_inj.mp heq)
  have hset := byteSum_set false ha b
  have hmod : ∀ m, digit 65536 m = 65535 → m % 65535 = 0 := by
    intro m hm
    have hdigit := digit_mod 65536 m
    rw [hm] at hdigit
    exact hdigit.symm
  have := a.toNat_lt
  have := b.toNat_lt
  rw [byteSum_eq_wordSum, byteSum_eq_wordSum] at hset
  intro hbad
  -- The sums differ, by less than 65535, so at most one of them is a multiple of 65535.
  have h1 := hmod _ h
  have h2 := hmod _ hbad
  omega

end Sponge.OnesComplement
