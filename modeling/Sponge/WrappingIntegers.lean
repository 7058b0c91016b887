import Sponge.Lib.Word64

/-!
# Wrapping sequence numbers

`libsponge/wrapping_integers.cc`. The difference of two raw values is taken in 32
bits and then widened, as in the source.
-/

namespace Sponge

open Word64

structure WrappingInt32 where
  rawValue : UInt32
  deriving Repr, DecidableEq

/-- The 32-bit number that stands for the absolute number `n`. -/
def wrap (n : Nat) (isn : WrappingInt32) : WrappingInt32 :=
  let temp := add64 n isn.rawValue.toNat % 2 ^ 32
  ⟨UInt32.ofNat temp⟩

/-- The absolute number near `checkpoint` that wraps to `n`. -/
def unwrap (n isn : WrappingInt32) (checkpoint : Nat) : Nat :=
  let sqenocheck := wrap checkpoint isn
  let difference1 := (n.rawValue - sqenocheck.rawValue).toNat
  let difference2 := (sqenocheck.rawValue - n.rawValue).toNat
  if difference1 > difference2 then
    if checkpoint ≥ difference2 then sub64 checkpoint difference2
    else add64 checkpoint difference1
  else add64 checkpoint difference1

theorem rawValue_wrap (n : Nat) (isn : WrappingInt32) :
    (wrap n isn).rawValue.toNat = (n + isn.rawValue.toNat) % 2 ^ 32 := by
  simp only [wrap, add64, UInt32.toNat_ofNat']
  omega

theorem wrappingInt32_ext {a b : WrappingInt32} (h : a.rawValue.toNat = b.rawValue.toNat) : a = b := by
  obtain ⟨a⟩ := a
  obtain ⟨b⟩ := b
  exact congrArg _ (UInt32.toNat.inj h)

@[simp] theorem wrap_zero (isn : WrappingInt32) : wrap 0 isn = isn := by
  apply wrappingInt32_ext
  rw [rawValue_wrap]
  have := isn.rawValue.toNat_lt
  omega

theorem wrap_eq_iff (m n : Nat) (isn : WrappingInt32) :
    wrap m isn = wrap n isn ↔ m % 2 ^ 32 = n % 2 ^ 32 := by
  constructor
  · intro h
    have hraw := congrArg (fun w => w.rawValue.toNat) h
    simp only [rawValue_wrap] at hraw
    omega
  · intro h
    apply wrappingInt32_ext
    rw [rawValue_wrap, rawValue_wrap]
    omega

theorem toNat_sub_wrap (n isn : WrappingInt32) (checkpoint : Nat) :
    wrap (checkpoint + (n.rawValue - (wrap checkpoint isn).rawValue).toNat) isn = n ∧
      ((wrap checkpoint isn).rawValue - n.rawValue).toNat =
        (2 ^ 32 - (n.rawValue - (wrap checkpoint isn).rawValue).toNat) % 2 ^ 32 := by
  have hn := n.rawValue.toNat_lt
  constructor
  · apply wrappingInt32_ext
    rw [rawValue_wrap, UInt32.toNat_sub, rawValue_wrap]
    omega
  · rw [UInt32.toNat_sub, UInt32.toNat_sub, rawValue_wrap]
    omega

/-- `unwrap` goes up to the next number that wraps to `n`, or down when that is nearer and not
below zero. -/
theorem unwrap_spec (n isn : WrappingInt32) (checkpoint : Nat) :
    ∃ up < 2 ^ 32, wrap (checkpoint + up) isn = n ∧ unwrap n isn checkpoint =
      if 2 ^ 31 < up ∧ 2 ^ 32 ≤ checkpoint + up then (checkpoint + up - 2 ^ 32) % 2 ^ 64
      else (checkpoint + up) % 2 ^ 64 := by
  obtain ⟨hwrap, hdown⟩ := toNat_sub_wrap n isn checkpoint
  have hup := (n.rawValue - (wrap checkpoint isn).rawValue).toNat_lt
  refine ⟨_, hup, hwrap, ?_⟩
  unfold unwrap
  simp only [hdown]
  generalize (n.rawValue - (wrap checkpoint isn).rawValue).toNat = up at hup
  unfold add64 sub64
  split_ifs <;> omega

theorem unwrap_wrap_of_near (v checkpoint : Nat) (isn : WrappingInt32) (hv : v < 2 ^ 64)
    (hlo : checkpoint < v + 2 ^ 31) (hhi : v ≤ checkpoint + 2 ^ 31) :
    unwrap (wrap v isn) isn checkpoint = v := by
  obtain ⟨up, hup, hwrap, heq⟩ := unwrap_spec (wrap v isn) isn checkpoint
  rw [wrap_eq_iff] at hwrap
  rw [heq]
  split_ifs <;> omega

theorem unwrap_wrap_of_short (v checkpoint : Nat) (isn : WrappingInt32) (hv : v < 2 ^ 32)
    (hc : checkpoint < 2 ^ 31) : unwrap (wrap v isn) isn checkpoint = v := by
  obtain ⟨up, hup, hwrap, heq⟩ := unwrap_spec (wrap v isn) isn checkpoint
  rw [wrap_eq_iff] at hwrap
  rw [heq]
  split_ifs <;> omega

theorem wrap_unwrap (n isn : WrappingInt32) (checkpoint : Nat) :
    wrap (unwrap n isn checkpoint) isn = n := by
  obtain ⟨up, -, hwrap, heq⟩ := unwrap_spec n isn checkpoint
  rw [heq, ← hwrap, wrap_eq_iff]
  split_ifs <;> omega

/-- How far `n` is from the checkpoint. -/
def distance (n checkpoint : Nat) : Nat := ((n : Int) - (checkpoint : Int)).natAbs

theorem unwrap_near_or_least (n isn : WrappingInt32) (checkpoint : Nat) (hc : checkpoint < 2 ^ 64 - 2 ^ 32) :
    (checkpoint < unwrap n isn checkpoint + 2 ^ 31 ∧ unwrap n isn checkpoint ≤ checkpoint + 2 ^ 31) ∨
      (checkpoint ≤ unwrap n isn checkpoint ∧ unwrap n isn checkpoint < 2 ^ 32) := by
  obtain ⟨up, hup, -, heq⟩ := unwrap_spec n isn checkpoint
  rw [heq]
  split_ifs <;> omega

theorem distance_unwrap_le (n isn : WrappingInt32) (checkpoint m : Nat) (hc : checkpoint < 2 ^ 64 - 2 ^ 32)
    (hm : wrap m isn = n) :
    distance (unwrap n isn checkpoint) checkpoint ≤ distance m checkpoint ∧
      (distance (unwrap n isn checkpoint) checkpoint = distance m checkpoint → m ≤ unwrap n isn checkpoint) := by
  have hcases := unwrap_near_or_least n isn checkpoint hc
  have hsame : m % 2 ^ 32 = unwrap n isn checkpoint % 2 ^ 32 := by
    rw [← wrap_eq_iff m _ isn, hm, wrap_unwrap]
  generalize unwrap n isn checkpoint = r at hcases hsame ⊢
  unfold distance
  omega

theorem unwrap_lt (n isn : WrappingInt32) (checkpoint : Nat) : unwrap n isn checkpoint < 2 ^ 64 := by
  unfold unwrap
  simp only
  split_ifs
  · exact sub64_lt _ _
  · exact add64_lt _ _
  · exact add64_lt _ _

/-- `unwrap` picks the absolute number nearest to the checkpoint, and the larger one of two as near. -/
theorem unwrap_nearest (n isn : WrappingInt32) (checkpoint : Nat) (hc : checkpoint < 2 ^ 64 - 2 ^ 32) :
    unwrap n isn checkpoint < 2 ^ 64 ∧ wrap (unwrap n isn checkpoint) isn = n ∧
      (∀ m < 2 ^ 64, wrap m isn = n → distance (unwrap n isn checkpoint) checkpoint ≤ distance m checkpoint ∧
        (distance (unwrap n isn checkpoint) checkpoint = distance m checkpoint → m ≤ unwrap n isn checkpoint)) ∧
      ∀ v < 2 ^ 64, distance v checkpoint < 2 ^ 31 → unwrap (wrap v isn) isn checkpoint = v := by
  refine ⟨unwrap_lt n isn checkpoint, wrap_unwrap n isn checkpoint, fun m _ hm =>
    distance_unwrap_le n isn checkpoint m hc hm, fun v hv hnear => ?_⟩
  unfold distance at hnear
  apply unwrap_wrap_of_near v checkpoint isn hv <;> omega

theorem unwrap_nearest_tie :
    unwrap ⟨0x80000000⟩ ⟨0⟩ 0x300000000 = 0x380000000 ∧ distance 0x380000000 0x300000000 = distance 0x280000000 0x300000000 ∧
      ∀ m < 2 ^ 64, wrap m ⟨0⟩ = ⟨0x80000000⟩ →
        distance (unwrap ⟨0x80000000⟩ ⟨0⟩ 0x300000000) 0x300000000 ≤ distance m 0x300000000 ∧
        (distance (unwrap ⟨0x80000000⟩ ⟨0⟩ 0x300000000) 0x300000000 = distance m 0x300000000 →
          m ≤ unwrap ⟨0x80000000⟩ ⟨0⟩ 0x300000000) :=
  ⟨by decide, by decide, (unwrap_nearest ⟨0x80000000⟩ ⟨0⟩ 0x300000000 (by decide)).2.2.1⟩

end Sponge
