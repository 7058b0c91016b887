import Mathlib.Algebra.Ring.Nat
import Mathlib.Tactic.Common

/-!
# 64-bit unsigned arithmetic

A `uint64_t` or `size_t` is a `Nat` here, and the operations that can leave the
range say so: `add64` and `sub64` wrap modulo `2 ^ 64`.
-/

namespace Sponge.Word64

def add64 (a b : Nat) : Nat := (a + b) % 2 ^ 64

def sub64 (a b : Nat) : Nat := (a + (2 ^ 64 - b % 2 ^ 64)) % 2 ^ 64

theorem add64_eq {a b : Nat} (h : a + b < 2 ^ 64) : add64 a b = a + b := Nat.mod_eq_of_lt h

theorem add64_lt (a b : Nat) : add64 a b < 2 ^ 64 := Nat.mod_lt _ (Nat.two_pow_pos 64)

theorem sub64_eq_sub {a b : Nat} (h : b ≤ a) (hd : a - b < 2 ^ 64) : sub64 a b = a - b := by
  unfold sub64
  omega

theorem sub64_eq {a b : Nat} (h : b ≤ a) (ha : a < 2 ^ 64) : sub64 a b = a - b := sub64_eq_sub h (by omega)

theorem sub64_self (a : Nat) : sub64 a a = 0 := by
  unfold sub64
  omega

theorem sub64_of_lt {a b : Nat} (h : a < b) (hb : b < 2 ^ 64) : sub64 a b = 2 ^ 64 - (b - a) := by
  unfold sub64
  omega

theorem sub64_lt (a b : Nat) : sub64 a b < 2 ^ 64 := Nat.mod_lt _ (Nat.two_pow_pos 64)

end Sponge.Word64
