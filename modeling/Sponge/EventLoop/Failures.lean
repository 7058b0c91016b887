import Sponge.EventLoop.Moves

/-!
# What `wait_next_event` throws

The check for a busy wait is a check of the program that set the rules up: it cannot
fail when every callback reads from its descriptor, writes to it, or has nothing more to
ask for. What is left then are an error on a descriptor and what the callbacks throw.
-/

namespace Sponge.EventLoop

variable {ι σ ρ : Type}

/-- The callback uses the descriptor, or the rule is not interested any more. -/
def Rule.Serves (rule : Rule σ ρ) : Prop :=
  ∀ answer s s', rule.callback answer s = .ok s' → rule.serviceCount s' ≠ rule.serviceCount s ∨ rule.interest s' = false

/-- One of the functions of the rule throws. -/
def Rule.Raises (rule : Rule σ ρ) (thrown : Thrown) : Prop :=
  (∃ s, rule.cancel s = .error thrown) ∨ ∃ answer s, rule.callback answer s = .error thrown

variable {table : ι → Rule σ ρ} {rules : List ι} {s : σ} {thrown : Thrown}

theorem scan_sublist {kept : List ι} {asked : List (Option Direction)} {s' : σ}
    (h : scan table rules s = .ok (kept, asked, s')) : kept.Sublist rules := by
  induction rules generalizing s kept asked with
  | nil =>
    cases h
    exact List.Sublist.refl _
  | cons i rules ih =>
    unfold scan at h
    split_ifs at h
    · split at h
      · cases h
      · exact (ih h).cons _
    all_goals
      simp only at h
      split at h
      · cases h
      · rename_i hrest
        cases h
        exact (ih hrest).cons_cons _

theorem scan_error (h : scan table rules s = .error thrown) : ∃ i ∈ rules, (table i).Raises thrown := by
  induction rules generalizing s with
  | nil => cases h
  | cons i rules ih =>
    unfold scan at h
    split_ifs at h
    · split at h
      · rename_i hcancel
        cases h
        exact ⟨i, List.mem_cons_self, Or.inl ⟨_, hcancel⟩⟩
      · obtain ⟨j, hj, hraises⟩ := ih h
        exact ⟨j, List.mem_cons_of_mem _ hj, hraises⟩
    all_goals
      simp only at h
      split at h
      · rename_i hrest
        cases h
        obtain ⟨j, hj, hraises⟩ := ih hrest
        exact ⟨j, List.mem_cons_of_mem _ hj, hraises⟩
      · cases h

theorem serve_error {pollfds : List (Pollfd ρ)} {idx : Nat} (hserves : ∀ i ∈ rules, (table i).Serves)
    (hlen : idx + rules.length ≤ pollfds.length) (h : serve table pollfds idx rules s = .error thrown) :
    ByKernel thrown ∨ ∃ i ∈ rules, (table i).Raises thrown := by
  induction rules generalizing idx s with
  | nil => cases h
  | cons i rules ih =>
    rw [List.forall_mem_cons] at hserves
    rw [List.length_cons] at hlen
    -- What the rest of the loop throws, from any state.
    have hrest : ∀ s, serve table pollfds (idx + 1) rules s = .error thrown →
        ByKernel thrown ∨ ∃ j ∈ i :: rules, (table j).Raises thrown := by
      intro s hs
      rcases ih hserves.2 (by omega) hs with hkernel | ⟨j, hj, hraises⟩
      · exact Or.inl hkernel
      · exact Or.inr ⟨j, List.mem_cons_of_mem _ hj, hraises⟩
    unfold serve at h
    rw [List.getElem?_eq_getElem (by omega)] at h
    simp only at h
    split_ifs at h
    · cases h
      exact Or.inl (by decide)
    · split at h
      · rename_i hcancel
        cases h
        exact Or.inr ⟨i, List.mem_cons_self, Or.inl ⟨_, hcancel⟩⟩
      · exact hrest _ h
    · split at h
      · rename_i hcallback
        cases h
        exact Or.inr ⟨i, List.mem_cons_self, Or.inr ⟨_, _, hcallback⟩⟩
      · rename_i s' hcallback
        have hbusy : ¬ ((table i).serviceCount s = (table i).serviceCount s' ∧ (table i).interest s' = true) := by
          rintro ⟨hcount, hinterest⟩
          rcases hserves.1 _ _ _ hcallback with hne | hfalse
          · exact hne hcount.symm
          · rw [hfalse] at hinterest
            cases hinterest
        rw [if_neg hbusy] at h
        split at h
        · rename_i hs
          cases h
          exact hrest _ hs
        · cases h
    · split at h
      · rename_i hs
        cases h
        exact hrest _ hs
      · cases h

/-- When every rule serves its descriptor, `wait_next_event` throws only what the kernel has brought
about or what one of the rules throws. -/
theorem waitNextEvent_error [Inhabited ρ] {poll : Poll ρ} (hserves : ∀ i ∈ rules, (table i).Serves)
    (h : waitNextEvent table rules s poll = .error thrown) : ByKernel thrown ∨ ∃ i ∈ rules, (table i).Raises thrown := by
  unfold waitNextEvent at h
  split at h
  · rename_i hscan
    cases h
    exact Or.inr (scan_error hscan)
  rename_i kept asked s₁ hscan
  have hsub : kept.Sublist rules := scan_sublist hscan
  have hserve : ∀ revents answers, serve table (pollfds asked revents answers) 0 kept s₁ = .error thrown →
      ByKernel thrown ∨ ∃ i ∈ rules, (table i).Raises thrown := by
    intro revents answers hs
    -- There is one `pollfd` for each rule that is left, so that none is looked for past the end.
    have hlen : 0 + kept.length ≤ (pollfds asked revents answers).length := by
      simp [pollfds, scan_length hscan]
    rcases serve_error (fun i hi => hserves i (hsub.subset hi)) hlen hs with hkernel | ⟨i, hi, hraises⟩
    · exact Or.inl hkernel
    · exact Or.inr ⟨i, hsub.subset hi, hraises⟩
  simp only at h
  split_ifs at h
  cases poll with
  | timeout => cases h
  | failed errno =>
    simp only at h
    -- Only an interrupt ends the call; after any other error the rules are served with empty results.
    split_ifs at h
    split at h
    · rename_i hs
      cases h
      exact hserve _ _ hs
    · cases h
  | ready revents answers =>
    simp only at h
    split at h
    · rename_i hs
      cases h
      exact hserve _ _ hs
    · cases h

end Sponge.EventLoop
