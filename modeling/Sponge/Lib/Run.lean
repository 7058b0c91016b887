import Mathlib.Algebra.Ring.Nat
import Mathlib.Data.List.Basic
import Mathlib.Logic.Relation

/-!
# Runs of a partial step function

`step s a` is the state after action `a`, or `none` when the action cannot be
taken or ends the run. A property of every state that a run reaches is an
invariant of `step`, proved once per step.
-/

namespace Sponge.Run

variable {σ α τ : Type}

def run (step : σ → α → Option σ) : σ → List α → Option σ
  | s, [] => some s
  | s, a :: as => match step s a with
    | none => none
    | some s' => run step s' as

/-- Every action of the run meets the condition `G` in the state before it. -/
def AllSteps (step : σ → α → Option σ) (G : σ → α → Prop) : σ → List α → Prop
  | _, [] => True
  | s, a :: as => G s a ∧ match step s a with
    | none => True
    | some s' => AllSteps step G s' as

variable {step : σ → α → Option σ} {G : σ → α → Prop}

def decAllSteps [∀ s a, Decidable (G s a)] : ∀ s as, Decidable (AllSteps step G s as)
  | _, [] => .isTrue trivial
  | s, a :: as =>
    have : Decidable (match step s a with
        | none => True
        | some s' => AllSteps step G s' as) :=
      match step s a with
      | none => .isTrue trivial
      | some s' => decAllSteps s' as
    inferInstanceAs (Decidable (_ ∧ _))

instance [∀ s a, Decidable (G s a)] (s : σ) (as : List α) : Decidable (AllSteps step G s as) :=
  decAllSteps s as

theorem run_cons {s t : σ} {a : α} {as : List α} (h : run step s (a :: as) = some t) :
    ∃ s', step s a = some s' ∧ run step s' as = some t := by
  unfold run at h
  split at h
  · cases h
  · exact ⟨_, ‹_›, h⟩

theorem run_append {s u : σ} {as : List α} (h : run step s as = some u) (bs : List α) :
    run step s (as ++ bs) = run step u bs := by
  induction as generalizing s with
  | nil =>
    cases h
    rfl
  | cons a as ih =>
    obtain ⟨s', hs', h'⟩ := run_cons h
    rw [List.cons_append, run, hs']
    exact ih h'

theorem AllSteps.cons {s s' : σ} {a : α} {as : List α} (h : AllSteps step G s (a :: as))
    (hs : step s a = some s') : G s a ∧ AllSteps step G s' as := by
  unfold AllSteps at h
  rw [hs] at h
  exact h

theorem allSteps_cons {s : σ} {a : α} {as : List α} (ha : G s a)
    (hrest : ∀ s', step s a = some s' → AllSteps step G s' as) : AllSteps step G s (a :: as) := by
  unfold AllSteps
  refine ⟨ha, ?_⟩
  split
  · trivial
  · exact hrest _ ‹_›

theorem AllSteps.append {s u : σ} {as bs : List α} (h : AllSteps step G s (as ++ bs))
    (hrun : run step s as = some u) : AllSteps step G u bs := by
  induction as generalizing s with
  | nil =>
    cases hrun
    exact h
  | cons a as ih =>
    obtain ⟨s', hs', hrun'⟩ := run_cons hrun
    exact ih (h.cons hs').2 hrun'

theorem allSteps_append {s u : σ} {as bs : List α} (ha : AllSteps step G s as) (hrun : run step s as = some u)
    (hb : AllSteps step G u bs) : AllSteps step G s (as ++ bs) := by
  induction as generalizing s with
  | nil =>
    cases hrun
    exact hb
  | cons a as ih =>
    obtain ⟨s', hs', hrun'⟩ := run_cons hrun
    apply allSteps_cons (ha.cons hs').1
    intro s'' hs''
    rw [hs'] at hs''
    cases hs''
    exact ih (ha.cons hs').2 hrun'

theorem allSteps_of_forall {P : α → Prop} {s : σ} {as : List α} (h : ∀ a ∈ as, P a) :
    AllSteps step (fun _ => P) s as := by
  induction as generalizing s with
  | nil => trivial
  | cons a as ih =>
    apply allSteps_cons (h a List.mem_cons_self)
    intro s' _
    exact ih fun b hb => h b (List.mem_cons_of_mem _ hb)

theorem AllSteps.imp {H : σ → α → Prop} {s : σ} {as : List α} (himp : ∀ s a, G s a → H s a)
    (hG : AllSteps step G s as) : AllSteps step H s as := by
  induction as generalizing s with
  | nil => trivial
  | cons a as ih =>
    apply allSteps_cons (himp s a hG.1)
    intro s' hs'
    exact ih (hG.cons hs').2

theorem AllSteps.and {H : σ → α → Prop} {s : σ} {as : List α} (hG : AllSteps step G s as)
    (hH : AllSteps step H s as) : AllSteps step (fun s a => G s a ∧ H s a) s as := by
  induction as generalizing s with
  | nil => trivial
  | cons a as ih =>
    apply allSteps_cons ⟨hG.1, hH.1⟩
    intro s' hs'
    exact ih (hG.cons hs').2 (hH.cons hs').2

theorem run_inv_of_allSteps {I : σ → Prop}
    (hstep : ∀ s a s', I s → G s a → step s a = some s' → I s') {s t : σ} {as : List α}
    (hs : I s) (hG : AllSteps step G s as) (h : run step s as = some t) : I t := by
  induction as generalizing s with
  | nil =>
    cases h
    exact hs
  | cons a as ih =>
    obtain ⟨s', hs', h'⟩ := run_cons h
    obtain ⟨hGa, hGas⟩ := hG.cons hs'
    exact ih (hstep s a s' hs hGa hs') hGas h'

theorem run_inv {I : σ → Prop} (hstep : ∀ s a s', I s → step s a = some s' → I s')
    {s t : σ} {as : List α} (hs : I s) (h : run step s as = some t) : I t := by
  induction as generalizing s with
  | nil =>
    cases h
    exact hs
  | cons a as ih =>
    obtain ⟨s', hs', h'⟩ := run_cons h
    exact ih (hstep s a s' hs hs') h'

/-- Each action is paid for from what is left, until the run is done. -/
theorem run_budget {I Done : σ → Prop} {cost : α → Nat} {left : σ → Nat}
    (hdone : ∀ s a s', Done s → step s a = some s' → Done s')
    (hstep : ∀ s a s', I s → G s a → step s a = some s' → Done s' ∨ I s' ∧ left s' + cost a ≤ left s)
    {s t : σ} {as : List α} (hs : I s) (hG : AllSteps step G s as) (h : run step s as = some t) :
    Done t ∨ I t ∧ left t + (as.map cost).sum ≤ left s := by
  induction as generalizing s with
  | nil =>
    cases h
    exact Or.inr ⟨hs, Nat.le_refl _⟩
  | cons a as ih =>
    obtain ⟨s', hs', h'⟩ := run_cons h
    obtain ⟨hGa, hGas⟩ := hG.cons hs'
    rcases hstep s a s' hs hGa hs' with hd | ⟨hI, hleft⟩
    · exact Or.inl (run_inv hdone hd h')
    · rcases ih hI hGas h' with hd | ⟨hI', hrest⟩
      · exact Or.inl hd
      · refine Or.inr ⟨hI', ?_⟩
        rw [List.map_cons, List.sum_cons]
        omega

/-- What every step keeps while no more than `bound` has been spent. -/
theorem run_within {I : σ → Prop} {cost : α → Nat} {spent : σ → Nat} {bound : Nat}
    (hstep : ∀ s a s', I s → G s a → spent s + cost a < bound → step s a = some s' → I s' ∧ spent s' ≤ spent s + cost a)
    {s t : σ} {as : List α} (hs : I s) (hG : AllSteps step G s as) (hbound : spent s + (as.map cost).sum < bound)
    (h : run step s as = some t) : I t := by
  induction as generalizing s with
  | nil =>
    cases h
    exact hs
  | cons a as ih =>
    obtain ⟨s', hs', h'⟩ := run_cons h
    obtain ⟨hGa, hGas⟩ := hG.cons hs'
    rw [List.map_cons, List.sum_cons] at hbound
    obtain ⟨hI, hspent⟩ := hstep s a s' hs hGa (by omega) hs'
    exact ih hI hGas (by omega) h'

theorem run_after {P : σ → Prop} {a : α} (hkeep : ∀ s b s', P s → step s b = some s' → P s')
    (hset : ∀ s s', step s a = some s' → P s') {s t : σ} {as : List α} (ha : a ∈ as)
    (h : run step s as = some t) : P t := by
  induction as generalizing s with
  | nil => cases ha
  | cons b as ih =>
    obtain ⟨s', hs', h'⟩ := run_cons h
    rcases List.mem_cons.mp ha with rfl | ha
    · exact run_inv hkeep (hset s s' hs') h'
    · exact ih ha h'

theorem run_first {P : σ → Prop} {s t : σ} {as : List α} (hs : ¬ P s) (ht : P t) (h : run step s as = some t) :
    ∃ before a after u u', as = before ++ a :: after ∧ run step s before = some u ∧ ¬ P u ∧ step u a = some u' ∧ P u' := by
  induction as generalizing s with
  | nil =>
    cases h
    exact absurd ht hs
  | cons a as ih =>
    obtain ⟨s', hs', h'⟩ := run_cons h
    by_cases hP : P s'
    · exact ⟨[], a, as, s, s', rfl, rfl, hs, hs', hP⟩
    · obtain ⟨before, b, after, u, u', rfl, hu, hrest⟩ := ih hP h'
      refine ⟨a :: before, b, after, u, u', rfl, ?_, hrest⟩
      rw [run, hs']
      exact hu

/-- A forward simulation: when each step that meets `G` succeeds and is matched by the
abstract function `f`, the whole run succeeds and is matched. -/
theorem run_sim {R : σ → τ → Prop} {f : τ → α → τ}
    (hstep : ∀ s u a, R s u → G s a → ∃ s', step s a = some s' ∧ R s' (f u a))
    {s : σ} {u : τ} {as : List α} (hs : R s u) (hG : AllSteps step G s as) :
    ∃ t, run step s as = some t ∧ R t (as.foldl f u) := by
  induction as generalizing s u with
  | nil => exact ⟨s, rfl, hs⟩
  | cons a as ih =>
    obtain ⟨s', hs', hR⟩ := hstep s u a hs (by unfold AllSteps at hG; exact hG.1)
    obtain ⟨t, ht, hRt⟩ := ih hR (hG.cons hs').2
    refine ⟨t, ?_, hRt⟩
    simp only [run, hs']
    exact ht

theorem exists_run_inv {I : σ → Prop} (hstep : ∀ s a, I s → G s a → ∃ s', step s a = some s' ∧ I s')
    {s : σ} {as : List α} (hs : I s) (hG : AllSteps step G s as) : ∃ t, run step s as = some t ∧ I t :=
  run_sim (R := fun s (_ : Unit) => I s) (f := fun u _ => u) (fun s _ a => hstep s a) (u := ()) hs hG

theorem exists_run {R : σ → σ → Prop} (hR : ∀ s s', R s s' → ∃ a, step s a = some s' ∧ G s a) {s t : σ}
    (h : Relation.ReflTransGen R s t) : ∃ as, run step s as = some t ∧ AllSteps step G s as := by
  induction h using Relation.ReflTransGen.head_induction_on with
  | refl => exact ⟨[], rfl, trivial⟩
  | head hfirst _ ih =>
    obtain ⟨a, hstep, hG⟩ := hR _ _ hfirst
    obtain ⟨as, hrun, hall⟩ := ih
    refine ⟨a :: as, ?_, allSteps_cons hG fun s' hs' => ?_⟩
    · rw [run, hstep]
      exact hrun
    · rw [hstep] at hs'
      cases hs'
      exact hall

end Sponge.Run
