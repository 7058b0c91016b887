import Mathlib.Logic.Relation
import Sponge.EventLoop.Model

/-!
# What a call of the event loop does

A call looks at the rules in order and asks for those that are interested, and then
looks at the ones it asked for, again in order. Each look calls the rule, cancels it
or passes it over. What every such move keeps, the call keeps.
-/

namespace Sponge.EventLoop

open Relation

variable {ι σ ρ : Type}

/-- A loop in the middle of a call: the rules that are left, those of them that were asked for and
not looked at since, and the state of the program. -/
structure Loop (ι σ : Type) where
  alive : List ι
  asked : List ι
  s : σ

/-- One look at the rule `i`, which stands behind `pre` and before `post`. What the kernel answers
to a callback meets `A`. -/
inductive Move (table : ι → Rule σ ρ) (A : ρ → Prop) : Loop ι σ → Loop ι σ → Prop where
  | ask (pre post asked : List ι) (i : ι) (s : σ) (hasked : asked.Sublist pre)
      (hlives : (table i).defunct s = false) (hint : (table i).interest s = true) :
      Move table A ⟨pre ++ i :: post, asked, s⟩ ⟨pre ++ i :: post, asked ++ [i], s⟩
  | drop (pre post asked : List ι) (i : ι) (s s' : σ) (hasked : asked.Sublist pre)
      (hdefunct : (table i).defunct s = true) (hcancel : (table i).cancel s = .ok s') :
      Move table A ⟨pre ++ i :: post, asked, s⟩ ⟨pre ++ post, asked, s'⟩
  | hangUp (pre post asked : List ι) (i : ι) (s s' : σ) (hasked : asked.Sublist post)
      (hcancel : (table i).cancel s = .ok s') :
      Move table A ⟨pre ++ i :: post, i :: asked, s⟩ ⟨pre ++ post, asked, s'⟩
  | call (pre post asked : List ι) (i : ι) (answer : ρ) (s s' : σ) (hasked : asked.Sublist post)
      (hanswer : A answer) (hcall : (table i).callback answer s = .ok s') :
      Move table A ⟨pre ++ i :: post, i :: asked, s⟩ ⟨pre ++ i :: post, asked, s'⟩
  | pass (alive asked : List ι) (i : ι) (s : σ) : Move table A ⟨alive, i :: asked, s⟩ ⟨alive, asked, s⟩

variable {table : ι → Rule σ ρ} {A : ρ → Prop} {rules kept : List ι} {asked : List (Option Direction)} {s s' : σ}

/-- The rules that were asked for. -/
def askedOf : List ι → List (Option Direction) → List ι
  | i :: rules, some _ :: asked => i :: askedOf rules asked
  | _ :: rules, none :: asked => askedOf rules asked
  | _, _ => []

theorem askedOf_sublist (rules : List ι) (asked : List (Option Direction)) : (askedOf rules asked).Sublist rules := by
  fun_induction askedOf rules asked with
  | case1 i rules d asked ih => exact ih.cons_cons i
  | case2 i rules asked ih => exact ih.cons i
  | case3 => exact List.nil_sublist _

/-! ## The first loop -/

theorem scan_length (h : scan table rules s = .ok (kept, asked, s')) : asked.length = kept.length := by
  induction rules generalizing s kept asked with
  | nil =>
    cases h
    rfl
  | cons i rules ih =>
    rw [scan] at h
    split_ifs at h
    · split at h
      · cases h
      · exact ih h
    all_goals
      simp only at h
      split at h
      · cases h
      · rename_i hscan
        cases h
        simp [ih hscan]

theorem scan_moves (pre before : List ι) (hbefore : before.Sublist pre) (h : scan table rules s = .ok (kept, asked, s')) :
    ReflTransGen (Move table A) ⟨pre ++ rules, before, s⟩ ⟨pre ++ kept, before ++ askedOf kept asked, s'⟩ := by
  -- `pre` are the rules that the loop has passed and kept, `before` those of them that were asked for.
  induction rules generalizing s kept asked pre before with
  | nil =>
    cases h
    simp only [askedOf, List.append_nil]
    exact .refl
  | cons i rules ih =>
    rw [scan] at h
    split_ifs at h with hdefunct hint
    · split at h
      · cases h
      · exact .head (.drop pre rules before i s _ hbefore hdefunct ‹_›) (ih pre before hbefore h)
    · simp only at h
      split at h
      · cases h
      · rename_i hscan
        cases h
        have hask := Move.ask (A := A) pre rules before i s hbefore (Bool.eq_false_iff.mpr hdefunct) hint
        have hrest := ih (pre ++ [i]) (before ++ [i]) (hbefore.append (List.Sublist.refl _)) hscan
        simp only [List.append_assoc, List.singleton_append] at hrest
        exact .head hask hrest
    · simp only at h
      split at h
      · cases h
      · rename_i hscan
        cases h
        -- A rule without interest is kept and not asked for: no move.
        have hrest := ih (pre ++ [i]) before (hbefore.trans (List.sublist_append_left _ _)) hscan
        simp only [List.append_assoc, List.singleton_append] at hrest
        exact hrest

/-! ## The second loop -/

variable {pfs : List (Pollfd ρ)}

theorem not_hungUp {p : Pollfd ρ} (h : p.events = none) : p.hungUp = false := by
  simp [Pollfd.hungUp, h]

theorem not_pollReady {p : Pollfd ρ} (h : p.events = none) : p.pollReady = false := by
  simp [Pollfd.pollReady, h]

theorem serve_moves (pre : List ι) {idx : Nat} (hA : ∀ p ∈ pfs, A p.answer) (hlength : (pfs.drop idx).length = rules.length)
    (h : serve table pfs idx rules s = .ok (kept, s')) :
    ReflTransGen (Move table A) ⟨pre ++ rules, askedOf rules ((pfs.drop idx).map Pollfd.events), s⟩
      ⟨pre ++ kept, [], s'⟩ := by
  induction rules generalizing pre idx s kept with
  | nil =>
    cases h
    simp only [askedOf]
    exact .refl
  | cons i rules ih =>
    rw [serve] at h
    split at h
    · cases h
    rename_i p hp
    obtain ⟨hlt, rfl⟩ := List.getElem?_eq_some_iff.mp hp
    have hdrop : pfs.drop idx = pfs[idx] :: pfs.drop (idx + 1) := List.drop_eq_getElem_cons hlt
    have hlength' : (pfs.drop (idx + 1)).length = rules.length := by
      rw [hdrop, List.length_cons, List.length_cons] at hlength
      omega
    -- The rule stays, and the loop goes on behind it.
    have hkeep : ∀ s kept, serve table pfs (idx + 1) rules s = .ok (kept, s') →
        ReflTransGen (Move table A) ⟨pre ++ i :: rules, askedOf rules ((pfs.drop (idx + 1)).map Pollfd.events), s⟩
          ⟨pre ++ i :: kept, [], s'⟩ := by
      intro s kept hrest
      have := ih (pre ++ [i]) hlength' hrest
      simpa only [List.append_assoc, List.singleton_append] using this
    have hsub := askedOf_sublist rules ((pfs.drop (idx + 1)).map Pollfd.events)
    rw [hdrop, List.map_cons]
    cases hevents : pfs[idx].events with
    | none =>
      rw [not_hungUp hevents, not_pollReady hevents] at h
      simp only [Bool.false_eq_true, if_false] at h
      split_ifs at h
      split at h
      · cases h
      · rename_i hserve
        cases h
        rw [askedOf]
        exact hkeep _ _ hserve
    | some d =>
      rw [askedOf]
      split_ifs at h with herror hhup hready
      · split at h
        · cases h
        · exact .head (.hangUp pre rules _ i s _ hsub ‹_›) (ih pre hlength' h)
      · split at h
        · cases h
        · rename_i s₁ hcall
          split_ifs at h
          split at h
          · cases h
          · rename_i hserve
            cases h
            exact .head (.call pre rules _ i _ s s₁ hsub (hA _ (List.getElem_mem hlt)) hcall) (hkeep _ _ hserve)
      · split at h
        · cases h
        · rename_i hserve
          cases h
          exact .head (.pass _ _ i s) (hkeep _ _ hserve)

theorem map_events_pollfds [Inhabited ρ] (asked : List (Option Direction)) (revents : List Revents) (answers : List ρ) :
    (pollfds asked revents answers).map Pollfd.events = asked := by
  unfold pollfds
  exact List.ext_getElem (by simp) (by simp)

theorem serve_pollfds_moves [Inhabited ρ] {revents : List Revents} {answers : List ρ} (hdefault : A default)
    (hA : ∀ answer ∈ answers, A answer) (hlength : asked.length = rules.length)
    (h : serve table (pollfds asked revents answers) 0 rules s = .ok (kept, s')) :
    ReflTransGen (Move table A) ⟨rules, askedOf rules asked, s⟩ ⟨kept, [], s'⟩ := by
  have hanswers : ∀ p ∈ pollfds asked revents answers, A p.answer := by
    intro p hp
    obtain ⟨idx, hidx, rfl⟩ := List.mem_mapIdx.mp hp
    simp only [List.getD_eq_getElem?_getD]
    cases hanswer : answers[idx]? with
    | none => exact hdefault
    | some answer => exact hA answer (List.mem_of_getElem? hanswer)
  have hmoves := serve_moves [] hanswers (by simpa [pollfds] using hlength) h
  rw [List.drop_zero, map_events_pollfds] at hmoves
  exact hmoves

theorem pass_all (alive asked : List ι) (s : σ) : ReflTransGen (Move table A) ⟨alive, asked, s⟩ ⟨alive, [], s⟩ := by
  induction asked with
  | nil => exact .refl
  | cons i asked ih => exact .head (.pass alive asked i s) ih

/-- Whatever the kernel answers in the call meets `A`. -/
def Answers [Inhabited ρ] (A : ρ → Prop) : Poll ρ → Prop
  | .timeout => True
  | .failed _ => A default
  | .ready _ answers => A default ∧ ∀ answer ∈ answers, A answer

instance [Inhabited ρ] (A : ρ → Prop) [DecidablePred A] : DecidablePred (Answers A)
  | .timeout => .isTrue trivial
  | .failed _ => inferInstanceAs (Decidable (A default))
  | .ready _ answers => inferInstanceAs (Decidable (A default ∧ ∀ answer ∈ answers, A answer))

theorem answers_any [Inhabited ρ] (poll : Poll ρ) : Answers (fun _ => True) poll := by
  cases poll <;> simp [Answers]

/-- Every call of `wait_next_event` that returns is a row of moves. -/
theorem waitNextEvent_moves [Inhabited ρ] {poll : Poll ρ} {result : Result} (hA : Answers A poll)
    (h : waitNextEvent table rules s poll = .ok (result, kept, s')) :
    ReflTransGen (Move table A) ⟨rules, [], s⟩ ⟨kept, [], s'⟩ := by
  unfold waitNextEvent at h
  split at h
  · cases h
  rename_i left asked s₁ hscan
  have hlength := scan_length hscan
  have hfirst : ReflTransGen (Move table A) ⟨rules, [], s⟩ ⟨left, askedOf left asked, s₁⟩ := by
    have := scan_moves (A := A) [] [] (List.Sublist.refl _) hscan
    simpa only [List.nil_append] using this
  simp only at h
  split_ifs at h
  · -- No rule is interested: the call returns without a `poll`.
    cases h
    exact hfirst.trans (pass_all _ _ _)
  · cases poll with
    | timeout =>
      cases h
      exact hfirst.trans (pass_all _ _ _)
    | failed errno =>
      simp only at h
      split_ifs at h
      · cases h
        exact hfirst.trans (pass_all _ _ _)
      · split at h
        · cases h
        · cases h
          exact hfirst.trans (serve_pollfds_moves hA (fun _ hnil => absurd hnil List.not_mem_nil) hlength ‹_›)
    | ready revents answers =>
      simp only at h
      split at h
      · cases h
      · cases h
        exact hfirst.trans (serve_pollfds_moves hA.1 hA.2 hlength ‹_›)

theorem waitNextEvent_inv [Inhabited ρ] {I : Loop ι σ → Prop} {poll : Poll ρ} {result : Result}
    (hA : Answers A poll) (h : waitNextEvent table rules s poll = .ok (result, kept, s')) (hI : I ⟨rules, [], s⟩)
    (hmove : ∀ l l', I l → Move table A l l' → I l') : I ⟨kept, [], s'⟩ := by
  have hmoves := waitNextEvent_moves hA h
  generalize (⟨kept, [], s'⟩ : Loop ι σ) = l at hmoves ⊢
  induction hmoves with
  | refl => exact hI
  | tail _ hlast ih => exact hmove _ _ ih hlast

end Sponge.EventLoop
