import Mathlib.Tactic.Common

/-!
# While loops

`Ends again body s t` says that the loop `while (again s) s = body s`, started in
`s`, ends, and that it ends in `t`.
-/

namespace Sponge.Loop

variable {σ : Type} {again : σ → Prop} {body : σ → σ}

inductive Ends (again : σ → Prop) (body : σ → σ) : σ → σ → Prop where
  | stop {s : σ} (hstop : ¬ again s) : Ends again body s s
  | turn {s t : σ} (hagain : again s) (hrest : Ends again body (body s) t) : Ends again body s t

theorem ends_of_variant (variant : σ → Nat) (hturn : ∀ s, again s → variant (body s) < variant s) (s : σ) :
    ∃ t, Ends again body s t := by
  induction hn : variant s using Nat.strongRecOn generalizing s with
  | ind n ih =>
    rcases Classical.em (again s) with hagain | hstop
    · obtain ⟨t, ht⟩ := ih _ (hn ▸ hturn s hagain) (body s) rfl
      exact ⟨t, .turn hagain ht⟩
    · exact ⟨s, .stop hstop⟩

theorem Ends.not_again {s t : σ} (h : Ends again body s t) : ¬ again t := by
  induction h with
  | stop hstop => exact hstop
  | turn _ _ ih => exact ih

theorem Ends.inv {s t : σ} {I : σ → Prop} (h : Ends again body s t) (hturn : ∀ s, again s → I s → I (body s))
    (hs : I s) : I t := by
  induction h with
  | stop _ => exact hs
  | turn hagain _ ih => exact ih (hturn _ hagain hs)

end Sponge.Loop
