import Sponge.Reassembler.Eof

/-!
# Whether the end is missed

A substring that is already written returns before the end of the stream is looked
at. When the end is announced by such a substring alone, the output never ends.
-/

namespace Sponge

open Word64 Slice Run

namespace StreamReassembler

/-- The end does not come with old bytes alone, unless the output has ended. -/
def EndFresh (t : Trace) : Op → Prop
  | .push data index eof => NoOverflow t.r data index ∧
      (eof = true → data ≠ [] → t.r.firstindex < index + data.length ∨ t.r.output.inputEnded = true)
  | .read _ => True

instance (t : Trace) : ∀ op, Decidable (EndFresh t op)
  | .push _ _ _ => inferInstanceAs (Decidable (_ ∧ _))
  | .read _ => .isTrue trivial

variable {S : List UInt8} {capacity : Nat}

/-- What holds between two calls that keep to `EndFresh`. -/
structure EndSeen (S : List UInt8) (capacity : Nat) (t : Trace) : Prop where
  inv : TraceInv S capacity t
  complete : Complete S t.r

theorem endSeen_start (S : List UInt8) (capacity : Nat) : EndSeen S capacity (start capacity) :=
  ⟨traceInv_start S capacity, by simp [Complete, start, new]⟩

theorem EndSeen.step (hS : S.length < 2 ^ 64) (t : Trace) (op : Op) (t' : Trace) (ht : EndSeen S capacity t)
    (hop : ConsistentEof S op ∧ EndFresh t op) (h : step t op = some t') : EndSeen S capacity t' := by
  obtain ⟨hcons, hfresh⟩ := hop
  cases op with
  | push data index eof =>
    obtain ⟨r', hp, rfl⟩ := step_push h
    obtain ⟨hdata, heof⟩ := hcons
    obtain ⟨hlim, hnew⟩ := hfresh
    refine ⟨ht.inv.push hdata hS hlim hp, ht.inv.safe.push_complete hdata heof hS hlim ?_ ht.complete hp⟩
    intro he hne hold
    exact (hnew he hne).resolve_left (by omega)
  | read len =>
    cases h
    refine ⟨ht.inv.readOut len, ?_⟩
    have hc := ht.complete
    unfold Complete at hc ⊢
    simp only [readOut_eq]
    exact hc

theorem step_checkeof {t t' : Trace} {op : Op} (h : step t op = some t') (hmark : t.r.checkeof = true) :
    t'.r.checkeof = true := by
  cases op with
  | push data index eof =>
    obtain ⟨r', hp, rfl⟩ := step_push h
    simp [pushSubstring_checkeof hp, hmark]
  | read len =>
    cases h
    exact hmark

/-- The bytes of `ab`, and then the same bytes with the end. -/
def oldEndOps : List Op := [.push [97, 98] 0 false, .push [97, 98] 0 true]

theorem end_missed :
    (∀ op ∈ oldEndOps, ConsistentEof [97, 98] op) ∧ .push [97, 98] 0 true ∈ oldEndOps ∧
      ∃ t, run step (start 8) oldEndOps = some t ∧ t.written = [97, 98] ∧ t.r.output.bytesWritten = 2 ∧
        t.r.output.inputEnded = false :=
  ⟨by decide, by decide, _, rfl, rfl, rfl, rfl⟩

/-- In every run that keeps to `EndFresh`, an output with the whole stream has ended once the end
was announced. -/
theorem end_not_missed (S : List UInt8) (capacity : Nat) (ops : List Op) (t : Trace) (hS : S.length < 2 ^ 64)
    (hops : ∀ op ∈ ops, ConsistentEof S op) (hfresh : AllSteps step EndFresh (start capacity) ops)
    (h : run step (start capacity) ops = some t) (heof : ∃ data index, .push data index true ∈ ops)
    (hall : t.r.output.bytesWritten = S.length) : t.r.output.inputEnded = true := by
  obtain ⟨data, index, hmem⟩ := heof
  have ht := run_inv_of_allSteps (EndSeen.step hS) (endSeen_start S capacity) ((allSteps_of_forall hops).and hfresh) h
  have hmark : t.r.checkeof = true := by
    refine run_after (P := fun t => t.r.checkeof = true) (fun _ _ _ hm hs => step_checkeof hs hm) ?_ hmem h
    intro s s' hs
    obtain ⟨r', hp, rfl⟩ := step_push hs
    simp [pushSubstring_checkeof hp]
  exact ht.complete hmark (ht.inv.safe.aligned.trans hall)

/-- The end comes with bytes ahead of the first one, and twice more with old bytes. -/
def freshEndOps : List Op := [.push [98, 99] 1 true, .push [97] 0 false, .push [98, 99] 1 true, .push [98, 99] 1 true]

theorem end_not_missed_repeated :
    ∃ t, run step (start 3) freshEndOps = some t ∧ t.r.output.bytesWritten = 3 ∧ t.r.output.inputEnded = true :=
  ⟨_, rfl, rfl, end_not_missed [97, 98, 99] 3 freshEndOps _ (by decide) (by decide) (by decide) rfl
    ⟨[98, 99], 1, by decide⟩ rfl⟩

end StreamReassembler

end Sponge
