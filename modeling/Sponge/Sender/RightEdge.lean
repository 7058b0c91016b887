import Sponge.Sender.Queue

/-!
# The advertised right edge

`ack_received` installs the window of every acknowledgment, also of one that it
then does not look at: an old one, or one of data that was not sent. The window of
an old acknowledgment counts from an old left edge, so with it the sender can go
past every right edge that was advertised. A rejected acknowledgment leaves its
window behind, and what is sent later depends on it.
-/

namespace Sponge

open Run

namespace SenderTrace

open TCPSender

variable {t t₁ : SenderTrace} {op : SenderOp} {seg : TCPSegment}

/-- An acknowledgment that is not looked at does not open the window past the edge. -/
def WindowKept (t : SenderTrace) : SenderOp → Prop
  | .ackReceived ackno w =>
    let absAckNo := unwrap ackno t.s.isn t.s.byteReceived
    absAckNo < t.s.byteReceived ∨ t.s.byteSent < absAckNo → t.s.byteReceived + max w.toNat 1 ≤ t.edge
  | _ => True

instance (t : SenderTrace) : ∀ op, Decidable (WindowKept t op)
  | .ackReceived _ _ => inferInstanceAs (Decidable (_ → _))
  | .write _ | .endInput | .fillWindow | .tick _ | .sendEmptySegment => .isTrue trivial

/-- The window in use ends at the advertised edge or before it. -/
structure Bounded (t : SenderTrace) : Prop where
  inFlight : InFlight t.s
  window : t.s.byteReceived + max t.s.windowSize.toNat 1 ≤ t.edge
  sent : t.s.byteSent ≤ t.edge

theorem bounded_start (capacity : Nat) (retxTimeout : UInt16) (isn : WrappingInt32) :
    Bounded (start capacity retxTimeout isn) where
  inFlight := (queue_new capacity retxTimeout isn).inFlight
  window := Nat.le_refl _
  sent := Nat.zero_le _

theorem Bounded.emit (h : Bounded t) (he : Emits t.s seg) : Bounded (t.emit seg) := by
  have hfits := he.fits
  rw [h.inFlight.bytesInFlight_eq, window_eq] at hfits
  have hreceived := h.inFlight.received
  have hwindow := h.window
  refine ⟨h.inFlight.emit he, hwindow, ?_⟩
  simp only [SenderTrace.emit, emit_byteSent]
  omega

theorem Bounded.prep (h : Bounded t) (hop : WindowKept t op) (hp : Prep t op t₁) : Bounded t₁ := by
  have hflight := inFlight_prep h.inFlight hp
  have hwindow := h.window
  have hsent := h.sent
  cases hp with
  | window ackno w =>
    refine ⟨hflight, ?_, ?_⟩
    · simp only [WindowKept] at hop
      simp only [windowed]
      split_ifs with c
      · -- An old ackno brings its window too; here the right edge must not move back.
        by_cases hold : unwrap ackno t.s.isn t.s.byteReceived < t.s.byteReceived
        · have := hop (Or.inl hold)
          omega
        · omega
      · exact hop (Or.inr (by omega))
    · simp only [windowed]
      split_ifs <;> omega
  | acknowledge ackno w absAckNo hlo hhi habs =>
    obtain ⟨timer, heq⟩ := acknowledge_eq (t.windowed ackno w).s absAckNo
    rw [heq] at hflight ⊢
    have hedge : (t.windowed ackno w).edge = max t.edge (absAckNo + max w.toNat 1) := by
      simp only [windowed, ← habs]
      rw [if_pos hhi]
    refine ⟨hflight, ?_, ?_⟩
    · show absAckNo + max w.toNat 1 ≤ (t.windowed ackno w).edge
      rw [hedge]
      omega
    · show t.s.byteSent ≤ (t.windowed ackno w).edge
      rw [hedge]
      omega
  | _ => exact ⟨hflight, hwindow, hsent⟩

theorem Bounded.step (t : SenderTrace) (op : SenderOp) (t' : SenderTrace) (h : Bounded t)
    (hop : WindowKept t op) (hstep : step t op = some t') : Bounded t' :=
  step_inv (fun _ hp => h.prep hop hp) (fun _ _ h he => h.emit he) hstep

/-- A window of three is advertised at 1 and a window of one at 4. The first acknowledgment
comes once more, late. -/
def lateAckOps : List SenderOp :=
  [.fillWindow, .ackReceived ⟨1⟩ 3, .write [97, 98, 99, 100, 101, 102, 103, 104], .fillWindow,
    .ackReceived ⟨4⟩ 1, .ackReceived ⟨1⟩ 3, .fillWindow]

theorem sends_past_edge :
    ∃ t, run step (start 8 100 ⟨0⟩) lateAckOps = some t ∧ t.edge = 5 ∧ t.s.byteSent = 7 ∧
      ¬ t.s.byteSent ≤ t.edge := by
  decide +kernel

/-- In every run that keeps the window, nothing is sent past the advertised edge. -/
theorem sent_within_edge (capacity : Nat) (retxTimeout : UInt16) (isn : WrappingInt32) (ops : List SenderOp)
    (t : SenderTrace) (hops : AllSteps step WindowKept (start capacity retxTimeout isn) ops)
    (h : run step (start capacity retxTimeout isn) ops = some t) : t.s.byteSent ≤ t.edge :=
  (run_inv_of_allSteps Bounded.step (bounded_start capacity retxTimeout isn) hops h).sent

/-- The same run with a late acknowledgment whose window is small. -/
def keptWindowOps : List SenderOp :=
  [.fillWindow, .ackReceived ⟨1⟩ 3, .write [97, 98, 99, 100, 101, 102, 103, 104], .fillWindow,
    .ackReceived ⟨4⟩ 1, .ackReceived ⟨1⟩ 1, .ackReceived ⟨4⟩ 2, .tick 1000, .fillWindow]

theorem sent_within_edge_late :
    ∃ t, run step (start 8 100 ⟨0⟩) keptWindowOps = some t ∧ t.s.byteSent = 6 ∧ t.s.byteSent ≤ t.edge := by
  have hrun : ∃ t, run step (start 8 100 ⟨0⟩) keptWindowOps = some t ∧ t.s.byteSent = 6 := by decide +kernel
  obtain ⟨t, ht, hsent⟩ := hrun
  exact ⟨t, ht, hsent, sent_within_edge 8 100 ⟨0⟩ keptWindowOps t (by decide +kernel) ht⟩

/-! ## Rejected acknowledgments -/

theorem ackReceived_snd (s : TCPSender) (ackno : WrappingInt32) (w : UInt16) :
    (s.ackReceived ackno w).2 = false ↔ s.byteSent < unwrap ackno s.isn s.byteReceived := by
  unfold ackReceived
  simp only
  split_ifs with h1 h2 h3
  · exact iff_of_true rfl h1
  · exact iff_of_false (by simp) h1
  · exact iff_of_false (by simp) h1
  · exact iff_of_false (by simp) h1

theorem step_rejected {ackno : WrappingInt32} {w : UInt16} (h : (t.s.ackReceived ackno w).2 = false) :
    step t (.ackReceived ackno w) = some { t with s := { t.s with windowSize := w } } := by
  rw [ackReceived_snd] at h
  have hedge : t.windowed ackno w = { t with s := { t.s with windowSize := w } } := by
    simp only [windowed]
    rw [if_neg (by omega)]
  have hsender : (t.s.ackReceived ackno w).1 = { t.s with windowSize := w } := by
    rcases ackReceived_cases t.s ackno w with ⟨-, heq⟩ | ⟨-, hle, -⟩ | ⟨-, hle, -⟩
    · exact heq
    · omega
    · omega
  simp only [step, hedge, hsender]
  rw [sent_self { t with s := { t.s with windowSize := w } } { t.s with windowSize := w } rfl]

/-- It leaves the sender as it is exactly when it carries the window in use. -/
theorem step_rejected_eq_iff {ackno : WrappingInt32} {w : UInt16} (h : (t.s.ackReceived ackno w).2 = false) :
    step t (.ackReceived ackno w) = some t ↔ w = t.s.windowSize := by
  rw [step_rejected h, Option.some.injEq]
  constructor
  · intro hsame
    exact congrArg (fun t : SenderTrace => t.s.windowSize) hsame
  · rintro rfl
    rfl

/-- The SYN is acknowledged with a window of one, and four bytes are written. -/
def narrowOps : List SenderOp := [.fillWindow, .ackReceived ⟨1⟩ 1, .write [97, 98, 99, 100]]

theorem rejected_ack_opens_window :
    ∃ u t t', run step (start 8 100 ⟨0⟩) narrowOps = some u ∧ (u.s.ackReceived ⟨100⟩ 3).2 = false ∧
      run step (start 8 100 ⟨0⟩) (narrowOps ++ .ackReceived ⟨100⟩ 3 :: [.fillWindow]) = some t ∧
      run step (start 8 100 ⟨0⟩) (narrowOps ++ [.fillWindow]) = some t' ∧
      t.s.segmentsOut.map TCPSegment.payload = [[], [97, 98, 99]] ∧
      t'.s.segmentsOut.map TCPSegment.payload = [[], [97]] := by
  have hbefore : ∃ u, run step (start 8 100 ⟨0⟩) narrowOps = some u ∧ (u.s.ackReceived ⟨100⟩ 3).2 = false := by
    decide +kernel
  have hwith : ∃ t, run step (start 8 100 ⟨0⟩) (narrowOps ++ .ackReceived ⟨100⟩ 3 :: [.fillWindow]) = some t ∧
      t.s.segmentsOut.map TCPSegment.payload = [[], [97, 98, 99]] := by decide +kernel
  have hwithout : ∃ t', run step (start 8 100 ⟨0⟩) (narrowOps ++ [.fillWindow]) = some t' ∧
      t'.s.segmentsOut.map TCPSegment.payload = [[], [97]] := by decide +kernel
  obtain ⟨u, hu, hfalse⟩ := hbefore
  obtain ⟨t, ht, hsent⟩ := hwith
  obtain ⟨t', ht', hsent'⟩ := hwithout
  exact ⟨u, t, t', hu, hfalse, ht, ht', hsent, hsent'⟩

/-- A rejected acknowledgment that carries the window in use can be left out of a run. -/
theorem rejected_ack_ignored (capacity : Nat) (retxTimeout : UInt16) (isn : WrappingInt32)
    (before after : List SenderOp) (u : SenderTrace) (ackno : WrappingInt32) (w : UInt16)
    (hbefore : run step (start capacity retxTimeout isn) before = some u)
    (hfalse : (u.s.ackReceived ackno w).2 = false) (hw : w = u.s.windowSize) :
    run step (start capacity retxTimeout isn) (before ++ .ackReceived ackno w :: after) =
      run step (start capacity retxTimeout isn) (before ++ after) := by
  rw [run_append hbefore, run_append hbefore, run, (step_rejected_eq_iff hfalse).mpr hw]

theorem rejected_ack_ignored_narrow :
    run step (start 8 100 ⟨0⟩) (narrowOps ++ .ackReceived ⟨100⟩ 1 :: [.fillWindow, .tick 100]) =
      run step (start 8 100 ⟨0⟩) (narrowOps ++ [.fillWindow, .tick 100]) := by
  have hbefore : ∃ u, run step (start 8 100 ⟨0⟩) narrowOps = some u ∧
      (u.s.ackReceived ⟨100⟩ 1).2 = false ∧ 1 = u.s.windowSize := by decide +kernel
  obtain ⟨u, hu, hfalse, hwindow⟩ := hbefore
  exact rejected_ack_ignored 8 100 ⟨0⟩ narrowOps [.fillWindow, .tick 100] u ⟨100⟩ 1 hu hfalse hwindow

end SenderTrace

end Sponge
