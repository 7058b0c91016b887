import Mathlib.Data.Set.Card
import Mathlib.Order.Interval.Set.Nat

/-!
# Lists of separated spans

The items of a list stand for spans of positions: `b` covers `lo b, …, hi b - 1`.
In a `Gapped` list they are in order, and no two of them overlap or touch.
-/

namespace Sponge.Spans

variable {β : Type} (lo hi : β → Nat)

def Gapped (l : List β) : Prop := l.Pairwise fun x y => hi x < lo y

def Covers (l : List β) (i : Nat) : Prop := ∃ b ∈ l, lo b ≤ i ∧ i < hi b

instance (l : List β) : Decidable (Gapped lo hi l) :=
  inferInstanceAs (Decidable (l.Pairwise fun x y => hi x < lo y))

instance (l : List β) (i : Nat) : Decidable (Covers lo hi l i) :=
  inferInstanceAs (Decidable (∃ b ∈ l, lo b ≤ i ∧ i < hi b))

def total (l : List β) : Nat := (l.map fun b => hi b - lo b).sum

variable {lo hi} {l init : List β} {b x : β}

@[simp] theorem total_nil : total lo hi [] = 0 := rfl

@[simp] theorem total_cons (b : β) (l : List β) : total lo hi (b :: l) = hi b - lo b + total lo hi l := by
  simp [total]

@[simp] theorem total_append (l₁ l₂ : List β) :
    total lo hi (l₁ ++ l₂) = total lo hi l₁ + total lo hi l₂ := by
  simp [total]

theorem gapped_cons : Gapped lo hi (b :: l) ↔ (∀ y ∈ l, hi b < lo y) ∧ Gapped lo hi l :=
  List.pairwise_cons

theorem Gapped.lo_le_of_mem (hg : Gapped lo hi (b :: l)) (hb : lo b ≤ hi b) : ∀ y ∈ b :: l, lo b ≤ lo y := by
  obtain ⟨hgap, -⟩ := gapped_cons.mp hg
  refine List.forall_mem_cons.mpr ⟨Nat.le_refl _, fun y hy => ?_⟩
  have := hgap y hy
  omega

theorem gapped_concat : Gapped lo hi (init ++ [x]) ↔ Gapped lo hi init ∧ ∀ b ∈ init, hi b < lo x := by
  simp [Gapped, List.pairwise_append]

theorem covers_cons (i : Nat) : Covers lo hi (b :: l) i ↔ (lo b ≤ i ∧ i < hi b) ∨ Covers lo hi l i := by
  simp [Covers]

theorem covers_concat (i : Nat) :
    Covers lo hi (init ++ [x]) i ↔ Covers lo hi init i ∨ (lo x ≤ i ∧ i < hi x) := by
  simp only [Covers, List.mem_append, List.mem_singleton]
  constructor
  · rintro ⟨b, hb | rfl, h⟩
    · exact Or.inl ⟨b, hb, h⟩
    · exact Or.inr h
  · rintro (⟨b, hb, h⟩ | h)
    · exact ⟨b, Or.inl hb, h⟩
    · exact ⟨x, Or.inr rfl, h⟩

theorem total_le {A B : Nat} (hg : Gapped lo hi l) (hAB : A ≤ B)
    (hl : ∀ b ∈ l, lo b ≤ hi b ∧ A ≤ lo b ∧ hi b ≤ B) : total lo hi l ≤ B - A := by
  induction l generalizing A with
  | nil => simp
  | cons b l ih =>
    obtain ⟨hgap, hg⟩ := gapped_cons.mp hg
    obtain ⟨hb, hA, hB⟩ := hl b List.mem_cons_self
    have hrest := ih (A := hi b) hg hB fun c hc => by
      have := hgap c hc
      have := hl c (List.mem_cons_of_mem _ hc)
      omega
    rw [total_cons]
    omega

theorem eq_last_of_hi_le {c : β} (hg : Gapped lo hi (init ++ [x])) (hc : c ∈ init ++ [x])
    (h : lo x ≤ hi c) : c = x := by
  rw [List.mem_append, List.mem_singleton] at hc
  rcases hc with hc | rfl
  · have := (gapped_concat.mp hg).2 c hc
    omega
  · rfl

theorem setOf_covers_cons (b : β) (l : List β) :
    {i | Covers lo hi (b :: l) i} = Set.Ico (lo b) (hi b) ∪ {i | Covers lo hi l i} := by
  ext i
  exact covers_cons i

theorem covers_finite (l : List β) : {i | Covers lo hi l i}.Finite := by
  induction l with
  | nil => simp [Covers]
  | cons b l ih =>
    rw [setOf_covers_cons]
    exact (Set.finite_Ico _ _).union ih

theorem ncard_covers (hg : Gapped lo hi l) : {i | Covers lo hi l i}.ncard = total lo hi l := by
  induction l with
  | nil => simp [Covers]
  | cons b l ih =>
    obtain ⟨hgap, hg⟩ := gapped_cons.mp hg
    have hdisj : Disjoint (Set.Ico (lo b) (hi b)) {i | Covers lo hi l i} := by
      rw [Set.disjoint_left]
      rintro i ⟨-, hib⟩ ⟨c, hc, hci, -⟩
      have := hgap c hc
      omega
    rw [setOf_covers_cons, Set.ncard_union_eq hdisj (Set.finite_Ico _ _) (covers_finite l), ih hg, total_cons,
      ← Nat.card_coe_set_eq, Nat.card_eq_fintype_card]
    simp

end Sponge.Spans
