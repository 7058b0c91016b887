import Mathlib.Data.List.Basic
import Mathlib.Algebra.BigOperators.Group.List.Basic
import Mathlib.Algebra.Ring.Nat

/-!
# Items laid end to end

Each item of a list takes up `w x` positions. `offsets w n l` pairs every item
with its first position when the list is laid out from `n` on without gaps.
-/

namespace Sponge.Offsets

variable {β : Type} (w : β → Nat)

def extent (l : List β) : Nat := (l.map w).sum

def offsets : Nat → List β → List (Nat × β)
  | _, [] => []
  | n, x :: l => (n, x) :: offsets (n + w x) l

variable {w} {l m : List β} {x : β} {n a : Nat}

@[simp] theorem extent_nil : extent w [] = 0 := rfl

@[simp] theorem extent_cons : extent w (x :: l) = w x + extent w l := by simp [extent]

@[simp] theorem extent_append : extent w (l ++ m) = extent w l + extent w m := by simp [extent]

theorem offsets_append (l m : List β) (n : Nat) :
    offsets w n (l ++ m) = offsets w n l ++ offsets w (n + extent w l) m := by
  induction l generalizing n with
  | nil => simp [offsets]
  | cons x l ih => simp [offsets, ih, Nat.add_assoc]

theorem offset_range (h : (a, x) ∈ offsets w n l) : n ≤ a ∧ a + w x ≤ n + extent w l := by
  induction l generalizing n with
  | nil => cases h
  | cons y l ih =>
    rw [extent_cons]
    rcases List.mem_cons.mp h with h | h
    · cases h
      omega
    · have := ih h
      omega

end Sponge.Offsets
