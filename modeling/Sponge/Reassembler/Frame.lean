import Sponge.Reassembler.Model

/-!
# What a call can change

Whatever the store holds, a call of `push_substring` changes the marks and the
store, ends the output, or writes to it and moves `firstindex`. A property that
these changes keep holds after every call.
-/

namespace Sponge

open Word64

namespace StreamReassembler

variable {r r' : StreamReassembler} {data : List UInt8} {index : Nat} {eof : Bool}

/-- A property that each of the changes keeps. -/
structure Stable (P : StreamReassembler → Prop) : Prop where
  store : ∀ r c l bytes, P r → P { r with checkeof := c, storelist := l, privateUnassembledBytes := bytes }
  ends : ∀ r, P r → P { r with output := r.output.endInput }
  writes : ∀ r d n l bytes, n < 2 ^ 64 → P r →
    P { r with
      storelist := l, firstindex := n, privateUnassembledBytes := bytes, output := (r.output.write d).1 }

variable {P : StreamReassembler → Prop}

theorem Stable.trimFront (hP : Stable P) (hr : P r) (h : trimFront r = some r') : P r' := by
  unfold StreamReassembler.trimFront at h
  split at h
  · cases h
    exact hr
  split_ifs at h
  · split at h
    · cases h
    · cases h
      exact hP.store r r.checkeof _ _ hr
  · cases h
    exact hr

theorem Stable.trimBack (hP : Stable P) (hr : P r) : P r.trimBack := by
  unfold StreamReassembler.trimBack
  split
  · exact hr
  simp only
  split_ifs
  · exact hP.store r r.checkeof _ _ hr
  · exact hr

theorem Stable.writeFront (hP : Stable P) (hr : P r) : P r.writeFront := by
  unfold StreamReassembler.writeFront
  split
  · exact hr
  simp only
  split_ifs
  · apply hP.ends
    exact hP.writes r _ _ _ _ (add64_lt _ _) hr
  · exact hP.writes r _ _ _ _ (add64_lt _ _) hr
  · apply hP.ends
    exact hP.writes r _ _ _ _ (add64_lt _ _) hr
  · exact hP.writes r _ _ _ _ (add64_lt _ _) hr
  · exact hr

theorem Stable.pushSubstring (hP : Stable P) (hr : P r) (h : pushSubstring r data index eof = some r') : P r' := by
  unfold StreamReassembler.pushSubstring at h
  generalize (if eof then eof else r.checkeof) = mark at h
  have hmark : P { r with checkeof := mark } := hP.store r _ _ _ hr
  simp only at h
  split_ifs at h
  · cases h
    exact hP.ends _ hmark
  · cases h
    exact hmark
  · cases h
    exact hmark
  · split at h
    · cases h
    · split at h
      · cases h
      · rename_i htrim
        cases h
        apply hP.writeFront
        apply hP.trimBack
        exact hP.trimFront (hP.store r _ _ _ hr) htrim

theorem pushSubstring_ended (hr : r.output.ended = true) (h : pushSubstring r data index eof = some r') :
    r'.output.ended = true := by
  have hP : Stable (fun r => r.output.ended = true) :=
    { store := fun _ _ _ _ hr => hr
      ends := fun _ _ => rfl
      writes := fun _ _ _ _ _ _ hr => hr }
  exact hP.pushSubstring hr h

theorem pushSubstring_firstindex_lt (hr : r.firstindex < 2 ^ 64) (h : pushSubstring r data index eof = some r') :
    r'.firstindex < 2 ^ 64 := by
  have hP : Stable (fun r => r.firstindex < 2 ^ 64) :=
    { store := fun _ _ _ _ hr => hr
      ends := fun _ hr => hr
      writes := fun _ _ _ _ _ hn _ => hn }
  exact hP.pushSubstring hr h

end StreamReassembler

end Sponge
