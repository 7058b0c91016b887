import Sponge.Connection.Steps
import Sponge.Lib.Run

/-!
# The linger flag

`segment_received` looks at the ends of the streams before it gives the segment to
the receiver. When the inbound stream ends before the FIN is sent, the flag is
cleared by the next segment that is looked at, unless the FIN is sent before that
segment comes. So the flag is right in every state exactly when the stream never ends
that early.
-/

namespace Sponge

open Run

namespace TCPConnection

/-- The segment of the call goes on to the sender and the receiver. -/
def processes (c : TCPConnection) : Op → Bool
  | .segmentReceived seg => !seg.header.rst && !decide (c.Drops seg)
  | _ => false

end TCPConnection

/-- A connection with the history of its inbound stream: whether it ended before the FIN was sent,
and whether a segment was looked at between the two. -/
structure LingerTrace where
  c : TCPConnection
  early : Bool := false
  noted : Bool := false
  deriving Repr, DecidableEq

namespace LingerTrace

open TCPConnection

def start (cfg : TCPConfig) (random : WrappingInt32) : LingerTrace := { c := TCPConnection.new cfg random }

/-- The inbound stream ends in `segment_received` after the last call that can send the FIN. -/
def endsEarly (c c' : TCPConnection) : Bool :=
  !c.inboundStream.inputEnded && c'.inboundStream.inputEnded && !c'.sender.finSent

def step (t : LingerTrace) (op : Op) : Option LingerTrace :=
  match t.c.step op with
  | none => none
  | some c' => some {
      c := c'
      early := t.early || endsEarly t.c c'
      noted := t.noted || (t.early && !t.c.sender.finSent && t.c.processes op) }

structure LingerInv (t : LingerTrace) : Prop where
  flag : t.c.lingerAfterStreamsFinish = !t.noted
  noted : t.noted = true → t.early = true
  early : t.early = true → t.c.inboundStream.inputEnded = true
  late : t.c.inboundStream.inputEnded = true → t.early = false → t.c.sender.finSent = true

theorem lingerInv_start (cfg : TCPConfig) (random : WrappingInt32) : LingerInv (start cfg random) where
  flag := rfl
  noted := by simp [start]
  early := by simp [start]
  late := by simp [start, TCPConnection.new, inboundStream, TCPReceiver.new, TCPReceiver.streamOut,
    StreamReassembler.new, ByteStream.new, ByteStream.inputEnded]

variable {t t' : LingerTrace} {c' : TCPConnection} {op : Op}

theorem step_eq (h : step t op = some t') :
    ∃ c', t.c.step op = some c' ∧
      t' = { c := c', early := t.early || endsEarly t.c c',
             noted := t.noted || (t.early && !t.c.sender.finSent && t.c.processes op) } := by
  unfold step at h
  split at h
  · cases h
  · exact ⟨_, ‹_›, (Option.some.inj h).symm⟩

theorem LingerInv.other (h : LingerInv t) (hop : t.c.processes op = false)
    (hend : c'.inboundStream.inputEnded = t.c.inboundStream.inputEnded)
    (hflag : c'.lingerAfterStreamsFinish = t.c.lingerAfterStreamsFinish)
    (hfin : t.c.sender.finSent = true → c'.sender.finSent = true) :
    LingerInv { c := c', early := t.early || endsEarly t.c c',
                noted := t.noted || (t.early && !t.c.sender.finSent && t.c.processes op) } := by
  have hearly : endsEarly t.c c' = false := by
    unfold endsEarly
    rw [hend]
    cases t.c.inboundStream.inputEnded <;> rfl
  simp only [hearly, hop, Bool.or_false, Bool.and_false]
  refine ⟨hflag.trans h.flag, h.noted, ?_, ?_⟩
  · rw [hend]
    exact h.early
  · rw [hend]
    exact fun he hearly => hfin (h.late he hearly)

theorem LingerInv.test_eq (h : LingerInv t) :
    (t.c.inboundStream.inputEnded && !t.c.sender.finSent) = (t.early && !t.c.sender.finSent) := by
  cases hsent : t.c.sender.finSent with
  | true => simp
  | false =>
    cases hearly : t.early with
    | true => simp [h.early hearly]
    | false =>
      have hopen : t.c.inboundStream.inputEnded = false := by
        rw [Bool.eq_false_iff]
        intro he
        simp [h.late he hearly] at hsent
      simp [hopen]

theorem LingerInv.processed {c₀ : TCPConnection} {seg : TCPSegment} (h : LingerInv t)
    (hop : t.c.processes op = true)
    (hc₀ : c₀ = { t.c with lastSegmentTime := t.c.time }) (hproc : c₀.process seg = some c') :
    LingerInv { c := c', early := t.early || endsEarly t.c c',
                noted := t.noted || (t.early && !t.c.sender.finSent && t.c.processes op) } := by
  obtain ⟨hend, hfin, hflag⟩ := process_ends hproc
  subst hc₀
  have hend : t.c.inboundStream.inputEnded = true → c'.inboundStream.inputEnded = true := hend
  have hfin : t.c.sender.finSent = true → c'.sender.finSent = true := hfin
  have hflag : c'.lingerAfterStreamsFinish = (t.c.lingerAfterStreamsFinish &&
      !(t.c.inboundStream.inputEnded && !t.c.sender.finSent)) := hflag
  simp only [hop, Bool.and_true]
  refine ⟨?_, ?_, ?_, ?_⟩
  · -- The test comes before the receiver gets the segment, so it is about the state before the call.
    rw [hflag, h.flag, h.test_eq, Bool.not_or]
  · intro hnoted
    rcases Bool.or_eq_true_iff.mp hnoted with hnoted | hnow
    · simp [h.noted hnoted]
    · simp [(Bool.and_eq_true_iff.mp hnow).1]
  · intro hearly
    rcases Bool.or_eq_true_iff.mp hearly with hearly | hends
    · exact hend (h.early hearly)
    · simp only [endsEarly, Bool.and_eq_true] at hends
      exact hends.1.2
  · intro he' hnot
    obtain ⟨hearly, hends⟩ := Bool.or_eq_false_iff.mp hnot
    -- An end that is not early was there before, or has come after the FIN in this very call.
    cases he : t.c.inboundStream.inputEnded with
    | true => exact hfin (h.late he hearly)
    | false => simpa [endsEarly, he, show c'.inboundStream.inputEnded = true from he'] using hends

theorem fillAndSend_sent {c : TCPConnection} (h : c.sender.finSent = true) : c.fillAndSend.sender.finSent = true :=
  TCPSender.fillWindow_eof h

theorem LingerInv.step (t : LingerTrace) (op : Op) (t' : LingerTrace) (h : LingerInv t) (hstep : step t op = some t') :
    LingerInv t' := by
  obtain ⟨c', hc', rfl⟩ := step_eq hstep
  cases op with
  | connect | write | endInputStream =>
    cases hc'
    exact h.other rfl rfl rfl fun hf => fillAndSend_sent hf
  | segmentReceived seg =>
    rcases segmentReceived_cases hc' with ⟨hrst, rfl⟩ | ⟨hrst, hdrop, rfl⟩ | ⟨hrst, hdrop, hproc⟩
    · exact h.other (by simp [processes, hrst]) rfl rfl id
    · exact h.other (by simp [processes, hdrop]) rfl rfl id
    · exact h.processed (by simp [processes, hrst, hdrop]) rfl hproc
  | tick ms =>
    obtain ⟨hend, hfin, hflag⟩ := tick_ends hc'
    exact h.other rfl hend hflag fun hf => hfin.trans hf
  | read len =>
    cases hc'
    exact h.other rfl (inputEnded_readOut _ len) rfl id

theorem lingerInv_of_run {cfg : TCPConfig} {random : WrappingInt32} {ops : List Op}
    (h : run step (start cfg random) ops = some t) : LingerInv t :=
  run_inv LingerInv.step (lingerInv_start cfg random) h

theorem LingerInv.flag_right_iff (h : LingerInv t) :
    (t.c.lingerAfterStreamsFinish = false ↔ t.early = true) ↔ (t.early = true → t.noted = true) := by
  rw [h.flag, Bool.not_eq_false']
  exact ⟨fun hiff => hiff.mpr, fun himp => ⟨h.noted, himp⟩⟩

theorem early_step (t : LingerTrace) (op : Op) (t' : LingerTrace) (h : t.early = true) (hstep : step t op = some t') :
    t'.early = true := by
  obtain ⟨c', -, rfl⟩ := step_eq hstep
  simp [h]

theorem not_noted_of_step (hinv : LingerInv t) (hopen : t.early = false) (hstep : step t op = some t') :
    t'.noted = false := by
  obtain ⟨c', -, rfl⟩ := step_eq hstep
  have hnoted : t.noted = false := by
    rw [Bool.eq_false_iff]
    intro hnoted
    simp [hinv.noted hnoted] at hopen
  -- The call in which the stream ends is too early to note it.
  simp [hnoted, hopen]

/-! ## Whole runs -/

/-- The passive close: the peer's FIN comes, and its answer is sent at once. -/
def closeAtOnce : List Op :=
  [.connect, synAck 8, ackSegment 1 1 8 true, .endInputStream, ackSegment 2 2 8 false]

/-- The peer ended first, everything is acknowledged, and the connection still lingers. -/
theorem passive_close_lingers :
    ∃ t, run step (start smallConfig ⟨0⟩) closeAtOnce = some t ∧ t.early = true ∧ t.c.rst = false ∧
      t.c.lingerAfterStreamsFinish = true ∧ t.c.sender.finAcked = true ∧ t.c.active = true := by
  decide +kernel

/-- In every run, the flag is right in all states between the calls if and only if the inbound stream
never ended before the FIN was sent. In a state after such an end it is right if and only if a segment
was looked at between the two; and so it is with a passive closer that is done when its FIN is
acknowledged, unless it is reset or has waited long enough. -/
theorem linger_iff_early (cfg : TCPConfig) (random : WrappingInt32) (ops : List Op) (t : LingerTrace)
    (h : run step (start cfg random) ops = some t) :
    ((∀ before after u, ops = before ++ after → run step (start cfg random) before = some u →
        (u.c.lingerAfterStreamsFinish = false ↔ u.early = true)) ↔ t.early = false) ∧
      ((t.c.lingerAfterStreamsFinish = false ↔ t.early = true) ↔ (t.early = true → t.noted = true)) ∧
      (t.early = true → t.c.sender.finAcked = true → t.c.rst = false →
        t.c.timeSinceLastSegmentReceived < 10 * t.c.cfg.rtTimeout.toNat → (t.c.active = false ↔ t.noted = true)) := by
  have hinv := lingerInv_of_run h
  refine ⟨⟨fun hall => ?_, fun hopen before after u hops hu => ?_⟩, hinv.flag_right_iff, ?_⟩
  · -- Otherwise some call ends the stream early, and the flag is wrong in the state after it.
    rw [Bool.eq_false_iff]
    intro hearly
    obtain ⟨before, op, after, u, u', hops, hu, hopen, hstep, hend⟩ :=
      run_first (P := fun t => t.early = true) (by simp [start]) hearly h
    have hu' : run step (start cfg random) (before ++ [op]) = some u' := by
      rw [run_append hu]
      simp only [run, hstep]
    have hright := hall (before ++ [op]) after u' (by simp [hops]) hu'
    have hnoted := (lingerInv_of_run hu').flag_right_iff.mp hright hend
    rw [not_noted_of_step (lingerInv_of_run hu) (Bool.eq_false_iff.mpr hopen) hstep] at hnoted
    cases hnoted
  · refine (lingerInv_of_run hu).flag_right_iff.mpr fun hearly => ?_
    rw [hops, run_append hu] at h
    have hend := run_inv (I := fun t => t.early = true) early_step hearly h
    rw [hopen] at hend
    cases hend
  · intro hearly hacked hrst hshort
    have hsent : t.c.sender.finSent = true := by
      unfold TCPSender.finAcked at hacked
      exact (Bool.and_eq_true_iff.mp hacked).2
    -- Both streams are done and the linger time is not over: `active` is the flag.
    unfold active
    simp only [hrst, hsent, hacked, hinv.early hearly, hinv.flag]
    cases t.noted with
    | true => simp
    | false => simpa using hshort

/-- The same close with a segment in between. -/
def closeLater : List Op :=
  [.connect, synAck 8, ackSegment 1 1 8 true, .write [97], ackSegment 2 2 8 false, .endInputStream,
    ackSegment 2 3 8 false]

theorem linger_iff_early_passive :
    ∃ t, run step (start smallConfig ⟨0⟩) closeLater = some t ∧ t.early = true ∧ t.noted = true ∧
      t.c.lingerAfterStreamsFinish = false ∧ t.c.active = false := by
  have hrun : ∃ t, run step (start smallConfig ⟨0⟩) closeLater = some t ∧ t.early = true ∧ t.noted = true ∧
      t.c.sender.finAcked = true ∧ t.c.rst = false ∧
      t.c.timeSinceLastSegmentReceived < 10 * t.c.cfg.rtTimeout.toNat := by decide +kernel
  obtain ⟨t, ht, hearly, hnoted, hacked, hrst, hshort⟩ := hrun
  obtain ⟨-, hflag, hactive⟩ := linger_iff_early smallConfig ⟨0⟩ closeLater t ht
  exact ⟨t, ht, hearly, hnoted, (hflag.mpr fun _ => hnoted).mpr hearly,
    (hactive hearly hacked hrst hshort).mpr hnoted⟩

end LingerTrace

end Sponge
