import Mathlib.Data.List.Basic

/-!
# Slices of a list

`IsSlice S i d` says that `d` is what `S` holds from position `i` on.
-/

namespace Sponge.Slice

variable {α : Type} {S T d e : List α} {i n : Nat}

/-- `d` equals `S` at the positions `i, …, i + d.length - 1`. -/
def IsSlice (S : List α) (i : Nat) (d : List α) : Prop := ∀ k < d.length, S[i + k]? = d[k]?

instance [DecidableEq α] (S : List α) (i : Nat) (d : List α) : Decidable (IsSlice S i d) :=
  inferInstanceAs (Decidable (∀ k < d.length, S[i + k]? = d[k]?))

@[simp] theorem isSlice_nil : IsSlice S i [] := by simp [IsSlice]

theorem IsSlice.end_le (h : IsSlice S i d) (hd : d ≠ []) : i + d.length ≤ S.length := by
  have hpos := List.length_pos_of_ne_nil hd
  have hlast := h (d.length - 1) (by omega)
  rw [List.getElem?_eq_getElem (by omega : d.length - 1 < d.length)] at hlast
  obtain ⟨hlt, -⟩ := List.getElem?_eq_some_iff.mp hlast
  omega

theorem IsSlice.append (hd : IsSlice S i d) (he : IsSlice S (i + d.length) e) :
    IsSlice S i (d ++ e) := by
  intro k hk
  by_cases hkd : k < d.length
  · rw [List.getElem?_append_left hkd]
    exact hd k hkd
  · rw [List.getElem?_append_right (by omega), ← he (k - d.length) (by simp at hk; omega)]
    congr 1
    omega

theorem IsSlice.drop (h : IsSlice S i d) (n : Nat) : IsSlice S (i + n) (d.drop n) := by
  intro k hk
  rw [List.length_drop] at hk
  rw [List.getElem?_drop, ← h (n + k) (by omega), Nat.add_assoc]

theorem IsSlice.take (h : IsSlice S i d) (n : Nat) : IsSlice S i (d.take n) := by
  intro k hk
  rw [List.length_take] at hk
  rw [List.getElem?_take_of_lt (by omega)]
  exact h k (by omega)

theorem IsSlice.drop_to (h : IsSlice S i d) {j : Nat} (hj : i ≤ j) : IsSlice S j (d.drop (j - i)) := by
  have := h.drop (j - i)
  rwa [Nat.add_sub_cancel' hj] at this

theorem IsSlice.mono (h : IsSlice S i d) (hST : S <+: T) : IsSlice T i d := by
  intro k hk
  have hlt : i + k < S.length := by
    have hS := h k hk
    rw [List.getElem?_eq_getElem hk] at hS
    exact (List.getElem?_eq_some_iff.mp hS).1
  obtain ⟨t, rfl⟩ := hST
  rw [List.getElem?_append_left hlt]
  exact h k hk

theorem IsSlice.restrict (h : IsSlice T i d) (hST : S <+: T) (hle : i + d.length ≤ S.length) : IsSlice S i d := by
  intro k hk
  obtain ⟨t, rfl⟩ := hST
  rw [← h k hk, List.getElem?_append_left (by omega)]

theorem isSlice_zero_iff : IsSlice S 0 d ↔ d <+: S := by
  constructor
  · intro h
    rw [List.prefix_iff_getElem?]
    intro k hk
    rw [← List.getElem?_eq_getElem hk, ← h k hk, Nat.zero_add]
  · intro h k hk
    rw [List.prefix_iff_getElem?] at h
    rw [Nat.zero_add, h k hk, List.getElem?_eq_getElem hk]

theorem isSlice_append (S d : List α) : IsSlice (S ++ d) S.length d := by
  intro k hk
  rw [List.getElem?_append_right (by omega), Nat.add_sub_cancel_left]

end Sponge.Slice
