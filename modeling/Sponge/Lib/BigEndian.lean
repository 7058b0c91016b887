import Mathlib.Algebra.Ring.Nat
import Mathlib.Data.List.Induction
import Mathlib.Tactic.Common

/-!
# Big-endian numbers

A string of bytes read as a number in base 256, the first byte being the highest,
and the string of a given length that stands for a number.
-/

namespace Sponge.BigEndian

def decode (bytes : List UInt8) : Nat := bytes.foldl (fun n b => n * 256 + b.toNat) 0

def encode (len n : Nat) : List UInt8 :=
  (List.range len).map fun i => UInt8.ofNat (n >>> ((len - i - 1) * 8))

@[simp] theorem decode_nil : decode [] = 0 := rfl

theorem decode_concat (bytes : List UInt8) (b : UInt8) :
    decode (bytes ++ [b]) = decode bytes * 256 + b.toNat := by
  simp [decode]

@[simp] theorem length_encode (len n : Nat) : (encode len n).length = len := by simp [encode]

theorem encode_succ (len n : Nat) : encode (len + 1) n = encode len (n / 256) ++ [UInt8.ofNat n] := by
  unfold encode
  rw [List.range_succ, List.map_append]
  congr 1
  · apply List.map_congr_left
    intro i hi
    have hi := List.mem_range.mp hi
    have hexp : (len + 1 - i - 1) * 8 = 8 + (len - i - 1) * 8 := by omega
    rw [hexp, Nat.shiftRight_add, Nat.shiftRight_eq_div_pow n 8]
  · simp

theorem decode_encode (len n : Nat) : decode (encode len n) = n % 256 ^ len := by
  induction len generalizing n with
  | zero => simp [encode, Nat.mod_one]
  | succ len ih =>
    rw [encode_succ, decode_concat, ih, Nat.pow_succ, Nat.mul_comm (256 ^ len) 256, Nat.mod_mul]
    simp only [UInt8.toNat_ofNat']
    omega

theorem encode_decode (bytes : List UInt8) : encode bytes.length (decode bytes) = bytes := by
  induction bytes using List.reverseRecOn with
  | nil => rfl
  | append_singleton bytes b ih =>
    have hb := b.toNat_lt
    have hhigh : (decode bytes * 256 + b.toNat) / 256 = decode bytes := by omega
    have hlow : UInt8.ofNat (decode bytes * 256 + b.toNat) = b := by
      apply UInt8.toNat_inj.mp
      rw [UInt8.toNat_ofNat']
      omega
    rw [List.length_append, List.length_singleton, encode_succ, decode_concat, hhigh, hlow, ih]

theorem decode_lt (bytes : List UInt8) : decode bytes < 256 ^ bytes.length := by
  have h := decode_encode bytes.length (decode bytes)
  rw [encode_decode] at h
  rw [h]
  exact Nat.mod_lt _ (Nat.pow_pos (by decide))

end Sponge.BigEndian
