import Sponge.Sender.Idle
import Sponge.Sender.Queue

/-!
# The retransmission timer

The timer runs while segments are outstanding, and its timeout is the initial one,
doubled for each retransmission since the last new acknowledgment. Clock and count
wrap, so this is told in milliseconds since the sender was made, which do not.
-/

namespace Sponge

open Word64 Run

namespace TCPSender

variable {s s' : TCPSender} {ackno : WrappingInt32} {w : UInt16} {ms : Nat}

/-- The timer when it is started now with the initial timeout. -/
def freshTimer (s : TCPSender) : Timer :=
  { active := true, startTime := s.time, currentTime := s.time, rto := s.initialRetransmissionTimeout }

/-! ## What the calls do to the timer -/

/-- A call that sends new segments at most: they start the timer when it does not run. -/
structure Refilled (s s' : TCPSender) : Prop where
  time : s'.time = s.time
  timeout : s'.initialRetransmissionTimeout = s.initialRetransmissionTimeout
  retrans : s'.consecutiveRetrans = s.consecutiveRetrans
  queue : s.unacked <+: s'.unacked
  running : s.sendtimer.active = true → s'.sendtimer = s.sendtimer
  waiting : s.sendtimer.active = false →
    s'.sendtimer = if s'.unacked = s.unacked then s.sendtimer else s.freshTimer

theorem refilled_self (htime : s'.time = s.time)
    (htimeout : s'.initialRetransmissionTimeout = s.initialRetransmissionTimeout)
    (hretrans : s'.consecutiveRetrans = s.consecutiveRetrans) (hqueue : s'.unacked = s.unacked)
    (htimer : s'.sendtimer = s.sendtimer) : Refilled s s' where
  time := htime
  timeout := htimeout
  retrans := hretrans
  queue := ⟨[], by rw [List.append_nil, hqueue]⟩
  running := fun _ => htimer
  waiting := fun _ => by rw [if_pos hqueue, htimer]

theorem Refilled.emit {seg : TCPSegment} (h : Refilled s s') : Refilled s (s'.emit seg) := by
  have hlong : s'.unacked ++ [seg] ≠ s.unacked := by
    intro heq
    have hle := h.queue.length_le
    rw [← heq, List.length_append, List.length_singleton] at hle
    omega
  refine
    { time := h.time
      timeout := h.timeout
      retrans := h.retrans
      queue := h.queue.trans (List.prefix_append _ _)
      running := ?_
      waiting := ?_ }
  · intro hactive
    have htimer := h.running hactive
    simp only [TCPSender.emit, send, htimer, hactive, Bool.not_true, Bool.false_eq_true, if_false]
  · intro hactive
    have htimer := h.waiting hactive
    rw [emit_unacked, if_neg hlong]
    simp only [TCPSender.emit, send]
    by_cases hqueue : s'.unacked = s.unacked
    · -- The first new segment.
      rw [if_pos hqueue] at htimer
      rw [htimer, hactive, h.time, h.timeout]
      rfl
    · rw [if_neg hqueue] at htimer
      rw [htimer]
      rfl

theorem refilled_fillWindow (s : TCPSender) : Refilled s s.fillWindow :=
  SenderTrace.fillWindow_inv (P := Refilled s) (fun _ _ h _ => h.emit) (refilled_self rfl rfl rfl rfl rfl)

/-- The acknowledgment is of new data. -/
def AcksNew (s : TCPSender) (ackno : WrappingInt32) : Prop :=
  s.byteReceived < unwrap ackno s.isn s.byteReceived ∧ unwrap ackno s.isn s.byteReceived ≤ s.byteSent

instance (s : TCPSender) (ackno : WrappingInt32) : Decidable (s.AcksNew ackno) := inferInstanceAs (Decidable (_ ∧ _))

theorem refilled_ackReceived (h : ¬ s.AcksNew ackno) : Refilled s (s.ackReceived ackno w).1 := by
  rcases ackReceived_cases s ackno w with ⟨-, heq⟩ | ⟨-, -, heq⟩ | ⟨hlo, hhi, -⟩
  · rw [heq]
    exact refilled_self rfl rfl rfl rfl rfl
  · rw [heq]
    obtain ⟨htime, htimeout, hretrans, hqueue, hrunning, hwaiting⟩ := refilled_fillWindow { s with windowSize := w }
    exact ⟨htime, htimeout, hretrans, hqueue, hrunning, hwaiting⟩
  · exact absurd ⟨hlo, hhi⟩ h

/-- An acknowledgment of new data: the timeout and the count are reset, and the timer is started
when segments are outstanding. -/
structure Reset (s s' : TCPSender) : Prop where
  time : s'.time = s.time
  timeout : s'.initialRetransmissionTimeout = s.initialRetransmissionTimeout
  retrans : s'.consecutiveRetrans = 0
  timer : s'.sendtimer =
    if s'.unacked = [] then s.sendtimer.rtoReset s.initialRetransmissionTimeout else s.freshTimer

theorem reset_acknowledge (s : TCPSender) (a : Nat) : Reset s (s.acknowledge a) := by
  unfold acknowledge
  simp only
  split_ifs with hempty
  · refine ⟨rfl, rfl, rfl, ?_⟩
    simp only at hempty ⊢
    rw [if_neg (by simpa using hempty)]
    rfl
  · refine ⟨rfl, rfl, rfl, ?_⟩
    simp only at hempty ⊢
    rw [if_pos (by simpa using hempty)]

theorem Reset.refilled {s'' : TCPSender} (h : Reset s s') (hr : Refilled s' s'') : Reset s s'' := by
  have htimer := h.timer
  refine ⟨hr.time.trans h.time, hr.timeout.trans h.timeout, hr.retrans.trans h.retrans, ?_⟩
  by_cases hqueue : s'.unacked = []
  · rw [if_pos hqueue] at htimer
    rw [hr.waiting (by rw [htimer]; rfl), hqueue, htimer]
    simp only [freshTimer, h.time, h.timeout]
  · have hqueue' : s''.unacked ≠ [] := by
      intro hnil
      have := hr.queue
      rw [hnil] at this
      exact hqueue (List.prefix_nil.mp this)
    rw [if_neg hqueue] at htimer
    rw [hr.running (by rw [htimer]; rfl), if_neg hqueue', htimer]

theorem reset_ackReceived (h : s.AcksNew ackno) : Reset s (s.ackReceived ackno w).1 := by
  obtain ⟨hlo, hhi⟩ := h
  rcases ackReceived_cases s ackno w with ⟨hout, -⟩ | ⟨hsame, -, -⟩ | ⟨-, -, heq⟩
  · omega
  · omega
  · rw [heq]
    have hreset := reset_acknowledge { s with windowSize := w } (unwrap ackno s.isn s.byteReceived)
    obtain ⟨htime, htimeout, hretrans, htimer⟩ := hreset.refilled (refilled_fillWindow _)
    exact ⟨htime, htimeout, hretrans, htimer⟩

/-- The sender when `ms` milliseconds have passed and it sends `front` again. -/
def retransmit (s : TCPSender) (ms : Nat) (front : TCPSegment) : TCPSender :=
  { s with
    time := add64 s.time ms
    segmentsOut := s.segmentsOut ++ [front]
    consecutiveRetrans := (s.consecutiveRetrans + 1) % 2 ^ 32
    sendtimer :=
      { active := true
        startTime := add64 s.time ms
        currentTime := add64 s.time ms
        rto := s.sendtimer.rto * 2 % 2 ^ 64 } }

theorem tick_of_expires {front : TCPSegment} {rest : List TCPSegment} (h : s.Expires ms)
    (hqueue : s.unacked = front :: rest) : s.tick ms = some (s.retransmit ms front) := by
  obtain ⟨hactive, hout⟩ := h
  unfold tick retransmit Timer.timeout Timer.updateTime
  simp only [hactive, hqueue, Bool.true_and, decide_eq_true_eq, ge_iff_le, hout, if_true]
  rfl

end TCPSender

/-! ## Runs -/

/-- A sender, the milliseconds since it was made, and the time at which its timer was last
started. -/
structure TimerTrace where
  s : TCPSender
  now : Nat := 0
  started : Nat := 0
  deriving Repr, DecidableEq

namespace TimerTrace

open TCPSender

def elapsed : SenderOp → Nat
  | .tick ms => ms
  | _ => 0

/-- The call that led from `s` to `s'` started the timer. -/
def Starts (s s' : TCPSender) : SenderOp → Prop
  | .tick _ => s'.segmentsOut.length ≠ s.segmentsOut.length
  | .ackReceived ackno _ => s'.sendtimer.active = true ∧ (s.sendtimer.active = false ∨ s.AcksNew ackno)
  | _ => s'.sendtimer.active = true ∧ s.sendtimer.active = false

instance (s s' : TCPSender) : ∀ op, Decidable (Starts s s' op)
  | .tick _ => inferInstanceAs (Decidable (_ ≠ _))
  | .ackReceived _ _ | .write _ | .endInput | .fillWindow | .sendEmptySegment => inferInstanceAs (Decidable (_ ∧ _))

def step (t : TimerTrace) (op : SenderOp) : Option TimerTrace :=
  match SenderTrace.step { s := t.s } op with
  | none => none
  | some u => some
      { s := u.s
        now := t.now + elapsed op
        started := if Starts t.s u.s op then t.now + elapsed op else t.started }

def start (capacity : Nat) (retxTimeout : UInt16) (isn : WrappingInt32) : TimerTrace :=
  { s := TCPSender.new capacity retxTimeout isn }

variable {t t' : TimerTrace} {op : SenderOp} {ms : Nat}

/-- The timer is running and its timeout has passed when `ms` more milliseconds have. -/
def Due (t : TimerTrace) (ms : Nat) : Prop :=
  t.s.sendtimer.active = true ∧ t.s.sendtimer.rto ≤ t.now + ms - t.started

instance (t : TimerTrace) (ms : Nat) : Decidable (Due t ms) := inferInstanceAs (Decidable (_ ∧ _))

/-- The time since the timer was started fits 64 bits, or its remainder is past the timeout too;
and the count of retransmissions does not wrap, unless the timeout is 0 anyway. -/
def TimerOk (t : TimerTrace) : SenderOp → Prop
  | .tick ms => t.s.sendtimer.active = true →
      (t.now + ms - t.started < 2 ^ 64 ∨ t.s.sendtimer.rto ≤ (t.now + ms - t.started) % 2 ^ 64) ∧
      (t.s.Expires ms → t.s.consecutiveRetrans + 1 < 2 ^ 32 ∨ t.s.initialRetransmissionTimeout = 0)
  | _ => True

instance (t : TimerTrace) : ∀ op, Decidable (TimerOk t op)
  | .tick _ => inferInstanceAs (Decidable (_ → _))
  | .ackReceived _ _ | .write _ | .endInput | .fillWindow | .sendEmptySegment => .isTrue trivial

structure TimerInv (t : TimerTrace) : Prop where
  active : t.s.sendtimer.active = true ↔ t.s.unacked ≠ []
  calm : t.s.sendtimer.active = false → t.s.consecutiveRetrans = 0
  backoff : t.s.sendtimer.active = true →
    t.s.sendtimer.rto = t.s.initialRetransmissionTimeout * 2 ^ t.s.consecutiveRetrans % 2 ^ 64
  small : t.s.initialRetransmissionTimeout < 2 ^ 64
  clock : t.s.time = t.now % 2 ^ 64
  since : t.s.sendtimer.active = true → t.s.sendtimer.startTime = t.started % 2 ^ 64
  past : t.started ≤ t.now

theorem timerInv_start (capacity : Nat) (retxTimeout : UInt16) (isn : WrappingInt32) :
    TimerInv (start capacity retxTimeout isn) where
  active := by simp [start, TCPSender.new]
  calm := fun _ => rfl
  backoff := by simp [start, TCPSender.new]
  small := by
    have := retxTimeout.toNat_lt
    simp only [start, TCPSender.new]
    omega
  clock := rfl
  since := by simp [start, TCPSender.new]
  past := Nat.le_refl _

theorem TimerInv.expires_iff (ht : TimerInv t) (hok : TimerOk t (.tick ms)) :
    t.s.Expires ms ↔ Due t ms := by
  unfold Expires Due
  refine and_congr_right fun hactive => ?_
  have hpast := ht.past
  have hrem : sub64 (add64 t.s.time ms) t.s.sendtimer.startTime = (t.now + ms - t.started) % 2 ^ 64 := by
    rw [ht.clock, ht.since hactive]
    unfold sub64 add64
    omega
  have hok := (hok hactive).1
  rw [hrem]
  have hle := Nat.mod_le (t.now + ms - t.started) (2 ^ 64)
  rcases hok with hfits | hrto
  · rw [Nat.mod_eq_of_lt hfits]
  · exact iff_of_true hrto (by omega)

section Keeps

variable {s' : TCPSender}

theorem TimerInv.of_timer {started : Nat} (ht : TimerInv t) (htime : s'.time = t.s.time)
    (htimeout : s'.initialRetransmissionTimeout = t.s.initialRetransmissionTimeout)
    (hactive : s'.sendtimer.active = true ↔ s'.unacked ≠ [])
    (hcalm : s'.sendtimer.active = false → s'.consecutiveRetrans = 0)
    (hbackoff : s'.sendtimer.active = true →
      s'.sendtimer.rto = t.s.initialRetransmissionTimeout * 2 ^ s'.consecutiveRetrans % 2 ^ 64)
    (hsince : s'.sendtimer.active = true → s'.sendtimer.startTime = started % 2 ^ 64)
    (hpast : started ≤ t.now) : TimerInv { s := s', now := t.now, started := started } where
  active := hactive
  calm := hcalm
  backoff := by
    simp only [htimeout]
    exact hbackoff
  small := by
    simp only [htimeout]
    exact ht.small
  clock := by
    simp only [htime]
    exact ht.clock
  since := hsince
  past := hpast

theorem TimerInv.keep (ht : TimerInv t) (htime : s'.time = t.s.time)
    (htimeout : s'.initialRetransmissionTimeout = t.s.initialRetransmissionTimeout)
    (hretrans : s'.consecutiveRetrans = t.s.consecutiveRetrans) (hqueue : s'.unacked ≠ [])
    (hactive : t.s.sendtimer.active = true) (htimer : s'.sendtimer = t.s.sendtimer) :
    TimerInv { t with s := s' } := by
  refine ht.of_timer htime htimeout ?_ ?_ ?_ ?_ ht.past
  · simp [htimer, hactive, hqueue]
  · simp [htimer, hactive]
  · rw [htimer, hretrans]
    exact ht.backoff
  · rw [htimer]
    exact ht.since

theorem TimerInv.idle (ht : TimerInv t) (htime : s'.time = t.s.time)
    (htimeout : s'.initialRetransmissionTimeout = t.s.initialRetransmissionTimeout)
    (hretrans : s'.consecutiveRetrans = 0) (hqueue : s'.unacked = []) (htimer : s'.sendtimer.active = false) :
    TimerInv { t with s := s' } := by
  refine ht.of_timer htime htimeout ?_ (fun _ => hretrans) ?_ ?_ ht.past
  · simp [htimer, hqueue]
  · simp [htimer]
  · simp [htimer]

theorem TimerInv.fresh (ht : TimerInv t) (htime : s'.time = t.s.time)
    (htimeout : s'.initialRetransmissionTimeout = t.s.initialRetransmissionTimeout)
    (hretrans : s'.consecutiveRetrans = 0) (hqueue : s'.unacked ≠ []) (htimer : s'.sendtimer = t.s.freshTimer) :
    TimerInv { s := s', now := t.now, started := t.now } := by
  refine ht.of_timer htime htimeout ?_ (fun _ => hretrans) ?_ ?_ (Nat.le_refl _)
  · simp [htimer, freshTimer, hqueue]
  · intro _
    rw [htimer, hretrans, Nat.pow_zero, Nat.mul_one]
    exact (Nat.mod_eq_of_lt ht.small).symm
  · intro _
    rw [htimer]
    exact ht.clock

theorem TimerInv.refilled {started : Nat} (ht : TimerInv t) (hr : Refilled t.s s')
    (hstarted : started = if s'.sendtimer.active = true ∧ t.s.sendtimer.active = false then t.now else t.started) :
    TimerInv { s := s', now := t.now, started := started } := by
  cases hactive : t.s.sendtimer.active with
  | true =>
    -- The timer was running: it runs on, and the queue has only grown.
    have hqueue : s'.unacked ≠ [] := by
      intro hnil
      have hprefix := hr.queue
      rw [hnil] at hprefix
      exact ht.active.mp hactive (List.prefix_nil.mp hprefix)
    rw [hactive, if_neg (by simp)] at hstarted
    rw [hstarted]
    exact ht.keep hr.time hr.timeout hr.retrans hqueue hactive (hr.running hactive)
  | false =>
    have hempty : t.s.unacked = [] := by
      by_contra hne
      simp [ht.active.mpr hne] at hactive
    have hcount := hr.retrans.trans (ht.calm hactive)
    have htimer := hr.waiting hactive
    rw [hempty] at htimer
    -- The timer was off and the queue empty, so the first segment sent starts the timer.
    by_cases hqueue : s'.unacked = []
    · rw [if_pos hqueue] at htimer
      rw [htimer, hactive, if_neg (by simp)] at hstarted
      rw [hstarted]
      exact ht.idle hr.time hr.timeout hcount hqueue (by rw [htimer]; exact hactive)
    · rw [if_neg hqueue] at htimer
      rw [htimer, hactive, if_pos (by simp [freshTimer])] at hstarted
      rw [hstarted]
      exact ht.fresh hr.time hr.timeout hcount hqueue htimer

theorem TimerInv.reset {started : Nat} (ht : TimerInv t) (hr : Reset t.s s')
    (hstarted : started = if s'.sendtimer.active = true then t.now else t.started) :
    TimerInv { s := s', now := t.now, started := started } := by
  have htimer := hr.timer
  by_cases hqueue : s'.unacked = []
  · rw [if_pos hqueue] at htimer
    rw [htimer, if_neg (by simp [Timer.rtoReset])] at hstarted
    rw [hstarted]
    exact ht.idle hr.time hr.timeout hr.retrans hqueue (by rw [htimer]; rfl)
  · rw [if_neg hqueue] at htimer
    rw [htimer, if_pos (by simp [freshTimer])] at hstarted
    rw [hstarted]
    exact ht.fresh hr.time hr.timeout hr.retrans hqueue htimer

end Keeps

theorem TimerInv.clock_add (ht : TimerInv t) (ms : Nat) : add64 t.s.time ms = (t.now + ms) % 2 ^ 64 := by
  rw [ht.clock]
  unfold add64
  omega

theorem TimerInv.retransmit {front : TCPSegment} (ht : TimerInv t) (hactive : t.s.sendtimer.active = true)
    (hcount : t.s.consecutiveRetrans + 1 < 2 ^ 32 ∨ t.s.initialRetransmissionTimeout = 0) :
    TimerInv { s := t.s.retransmit ms front, now := t.now + ms, started := t.now + ms } where
  active := by
    have hqueue := ht.active.mp hactive
    simp [TCPSender.retransmit, hqueue]
  calm := by simp [TCPSender.retransmit]
  backoff := by
    intro _
    simp only [TCPSender.retransmit, ht.backoff hactive]
    rcases hcount with hcount | hzero
    · have hpow : 2 ^ (t.s.consecutiveRetrans + 1) = 2 ^ t.s.consecutiveRetrans * 2 := by rw [Nat.pow_succ]
      rw [Nat.mod_eq_of_lt hcount, hpow, ← Nat.mul_assoc]
      omega
    · rw [hzero]
      simp
  small := ht.small
  clock := ht.clock_add ms
  since := fun _ => ht.clock_add ms
  past := Nat.le_refl _

theorem TimerInv.wait (ht : TimerInv t) (currentTime : Nat) :
    TimerInv
      { t with
        s := { t.s with time := add64 t.s.time ms, sendtimer := { t.s.sendtimer with currentTime := currentTime } }
        now := t.now + ms } where
  active := ht.active
  calm := ht.calm
  backoff := ht.backoff
  small := ht.small
  clock := ht.clock_add ms
  since := ht.since
  past := Nat.le_add_right_of_le ht.past

theorem TimerInv.tick (ht : TimerInv t) (hok : TimerOk t (.tick ms)) :
    ∃ s', t.s.tick ms = some s' ∧
      TimerInv
        { s := s', now := t.now + ms, started := if Starts t.s s' (.tick ms) then t.now + ms else t.started } ∧
      ((Due t ms →
          ∃ front rest, t.s.unacked = front :: rest ∧ s'.segmentsOut = t.s.segmentsOut ++ [front]) ∧
        (¬ Due t ms → s'.segmentsOut = t.s.segmentsOut)) := by
  rw [← ht.expires_iff hok]
  by_cases hexp : t.s.Expires ms
  · obtain ⟨front, rest, hqueue⟩ := List.exists_cons_of_ne_nil (ht.active.mp hexp.1)
    have hstarts : Starts t.s (t.s.retransmit ms front) (.tick ms) := by simp [Starts, TCPSender.retransmit]
    refine ⟨_, tick_of_expires hexp hqueue, ?_, fun _ => ⟨front, rest, hqueue, rfl⟩, fun hne => absurd hexp hne⟩
    rw [if_pos hstarts]
    exact ht.retransmit hexp.1 ((hok hexp.1).2 hexp)
  · obtain ⟨currentTime, htick⟩ := tick_of_not_expires hexp
    refine ⟨_, htick, ?_, fun h => absurd h hexp, fun _ => rfl⟩
    rw [if_neg (by simp [Starts])]
    exact ht.wait currentTime

theorem TimerInv.step (t : TimerTrace) (op : SenderOp) (ht : TimerInv t) (hok : TimerOk t op) :
    ∃ t', step t op = some t' ∧ TimerInv t' := by
  cases op with
  | write data =>
    refine ⟨_, rfl, ht.refilled ?_ rfl⟩
    exact refilled_self rfl rfl rfl rfl rfl
  | endInput =>
    refine ⟨_, rfl, ht.refilled ?_ rfl⟩
    exact refilled_self rfl rfl rfl rfl rfl
  | fillWindow => exact ⟨_, rfl, ht.refilled (refilled_fillWindow t.s) rfl⟩
  | ackReceived ackno w =>
    refine ⟨_, rfl, ?_⟩
    by_cases hnew : t.s.AcksNew ackno
    · refine ht.reset (reset_ackReceived (w := w) hnew) ?_
      simp [Starts, hnew, elapsed]
    · refine ht.refilled (refilled_ackReceived (w := w) hnew) ?_
      simp [Starts, hnew, elapsed]
  | tick ms =>
    obtain ⟨s', htick, hinv, -⟩ := ht.tick hok
    refine ⟨_, ?_, hinv⟩
    simp only [TimerTrace.step, SenderTrace.step, htick]
    rfl
  | sendEmptySegment =>
    refine ⟨_, rfl, ht.refilled ?_ rfl⟩
    exact refilled_self rfl rfl rfl rfl rfl

/-! ## The timer law -/

structure TimerLaw (t : TimerTrace) : Prop where
  active : t.s.sendtimer.active = true ↔ t.s.unacked ≠ []
  front : ∀ ms, ∃ s', t.s.tick ms = some s'
  timeout : t.s.sendtimer.active = true →
    t.s.initialRetransmissionTimeout * 2 ^ t.s.consecutiveRetransmissions < 2 ^ 64 →
    t.s.sendtimer.rto = t.s.initialRetransmissionTimeout * 2 ^ t.s.consecutiveRetransmissions
  tick : ∀ ms s', TimerOk t (.tick ms) → t.s.tick ms = some s' →
    (Due t ms →
        ∃ front rest, t.s.unacked = front :: rest ∧ s'.segmentsOut = t.s.segmentsOut ++ [front]) ∧
      (¬ Due t ms → s'.segmentsOut = t.s.segmentsOut)
  newAck : ∀ ackno w s', t.s.AcksNew ackno → (t.s.ackReceived ackno w).1 = s' →
    s'.sendtimer.rto = t.s.initialRetransmissionTimeout ∧ s'.consecutiveRetransmissions = 0 ∧
      (s'.unacked = [] → s'.sendtimer.active = false) ∧
      (s'.unacked ≠ [] → s'.sendtimer.active = true ∧ s'.sendtimer.startTime = s'.time)
  oldAck : ∀ ackno w, ¬ t.s.AcksNew ackno → t.s.sendtimer.active = true →
    (t.s.ackReceived ackno w).1.sendtimer = t.s.sendtimer
  newSegments : t.s.sendtimer.active = true → t.s.fillWindow.sendtimer = t.s.sendtimer

theorem Reset.law {s s' : TCPSender} (h : Reset s s') :
    s'.sendtimer.rto = s.initialRetransmissionTimeout ∧ s'.consecutiveRetransmissions = 0 ∧
      (s'.unacked = [] → s'.sendtimer.active = false) ∧
      (s'.unacked ≠ [] → s'.sendtimer.active = true ∧ s'.sendtimer.startTime = s'.time) := by
  have htimer := h.timer
  by_cases hqueue : s'.unacked = []
  · rw [if_pos hqueue] at htimer
    rw [htimer]
    exact ⟨rfl, h.retrans, fun _ => rfl, fun hne => absurd hqueue hne⟩
  · rw [if_neg hqueue] at htimer
    rw [htimer, h.time]
    exact ⟨rfl, h.retrans, fun hnil => absurd hnil hqueue, fun _ => ⟨rfl, rfl⟩⟩

theorem TimerInv.exists_tick (ht : TimerInv t) (ms : Nat) : ∃ s', t.s.tick ms = some s' := by
  by_cases hexp : t.s.Expires ms
  · obtain ⟨front, rest, hqueue⟩ := List.exists_cons_of_ne_nil (ht.active.mp hexp.1)
    exact ⟨_, tick_of_expires hexp hqueue⟩
  · obtain ⟨now, htick⟩ := tick_of_not_expires hexp
    exact ⟨_, htick⟩

theorem TimerInv.law (ht : TimerInv t) : TimerLaw t where
  active := ht.active
  front := ht.exists_tick
  timeout := by
    intro hactive hlt
    rw [ht.backoff hactive]
    exact Nat.mod_eq_of_lt hlt
  tick := by
    intro ms s' hok htick
    obtain ⟨s'', htick'', -, hdue, hnot⟩ := ht.tick hok
    rw [htick] at htick''
    cases htick''
    exact ⟨hdue, hnot⟩
  newAck := by
    rintro ackno w _ hnew rfl
    exact Reset.law (reset_ackReceived hnew)
  oldAck := fun ackno w hold hactive => (refilled_ackReceived hold).running hactive
  newSegments := (refilled_fillWindow t.s).running

/-- The timer runs since 0 ms and has one more to go. -/
def almostDueOps : List SenderOp := [.fillWindow, .tick 999]

theorem tick_misses_timeout :
    ∃ t t', run step (start 8 1000 ⟨0⟩) almostDueOps = some t ∧ step t (.tick (2 ^ 64 - 999)) = some t' ∧
      Due t (2 ^ 64 - 999) ∧ t'.s.segmentsOut = t.s.segmentsOut := by
  have hrun : ∃ t, run step (start 8 1000 ⟨0⟩) almostDueOps = some t ∧ ∃ t', step t (.tick (2 ^ 64 - 999)) = some t' ∧
      Due t (2 ^ 64 - 999) ∧ t'.s.segmentsOut = t.s.segmentsOut := by
    decide +kernel
  obtain ⟨t, ht, t', ht', hmissed⟩ := hrun
  exact ⟨t, t', ht, ht', hmissed⟩

/-- In every run whose ticks keep within the range of clock and count, no call fails and the timer
obeys the law in the state that is reached. -/
theorem timer_obeys_law (capacity : Nat) (retxTimeout : UInt16) (isn : WrappingInt32) (ops : List SenderOp)
    (hops : AllSteps step TimerOk (start capacity retxTimeout isn) ops) :
    ∃ t, run step (start capacity retxTimeout isn) ops = some t ∧ TimerLaw t := by
  obtain ⟨t, ht, hinv⟩ := exists_run_inv (I := TimerInv) TimerInv.step (timerInv_start capacity retxTimeout isn) hops
  exact ⟨t, ht, hinv.law⟩

/-- Two retransmissions of the SYN, the second one after twice the time, an acknowledgment, and
data that is sent again once. -/
def backoffOps : List SenderOp :=
  [.fillWindow, .tick 1000, .tick 1999, .tick 1, .ackReceived ⟨1⟩ 5, .write [97, 98], .fillWindow, .tick 999,
    .ackReceived ⟨1⟩ 5, .tick 1]

theorem timer_obeys_law_backoff :
    ∃ t, run step (start 8 1000 ⟨0⟩) backoffOps = some t ∧ TimerLaw t ∧ t.s.segmentsOut.length = 5 ∧
      t.s.sendtimer.rto = 2000 := by
  have hrun : ∃ t, run step (start 8 1000 ⟨0⟩) backoffOps = some t ∧ t.s.segmentsOut.length = 5 ∧
      t.s.sendtimer.rto = 2000 := by decide +kernel
  obtain ⟨t, ht, hgrown⟩ := hrun
  obtain ⟨u, hu, hlaw⟩ := timer_obeys_law 8 1000 ⟨0⟩ backoffOps (by decide +kernel)
  rw [ht] at hu
  cases hu
  exact ⟨t, ht, hlaw, hgrown⟩

end TimerTrace

/-! ## Probes of a zero window -/

namespace SenderTrace

open TCPSender

/-- The timer does not run out while the window is 0, but where the doubled timeout and the next
count are no larger. -/
def ProbeFree (t : SenderTrace) : SenderOp → Prop
  | .tick ms => t.s.windowSize = 0 → t.s.Expires ms →
      t.s.sendtimer.rto = 0 ∧ t.s.consecutiveRetrans + 1 = 2 ^ 32
  | _ => True

instance (t : SenderTrace) : ∀ op, Decidable (ProbeFree t op)
  | .tick _ => inferInstanceAs (Decidable (_ → _))
  | .ackReceived _ _ | .write _ | .endInput | .fillWindow | .sendEmptySegment => .isTrue trivial

/-- While the window is 0 the count does not grow, and a tick leaves the timeout as it was. -/
def KeepsTimeout (t : SenderTrace) (op : SenderOp) : Prop :=
  t.s.windowSize = 0 → ∀ t', step t op = some t' →
    t'.s.consecutiveRetransmissions ≤ t.s.consecutiveRetransmissions ∧
      ∀ ms, op = .tick ms → t'.s.sendtimer.rto = t.s.sendtimer.rto

theorem tick_keepsTimeout {s s' : TCPSender} {ms : Nat}
    (h : s.Expires ms → s.sendtimer.rto = 0 ∧ s.consecutiveRetrans + 1 = 2 ^ 32) (htick : s.tick ms = some s') :
    s'.consecutiveRetrans ≤ s.consecutiveRetrans ∧ s'.sendtimer.rto = s.sendtimer.rto := by
  by_cases hexp : s.Expires ms
  · obtain ⟨hrto, hcount⟩ := h hexp
    cases hqueue : s.unacked with
    | nil =>
      obtain ⟨hactive, hout⟩ := hexp
      unfold tick Timer.timeout Timer.updateTime at htick
      simp [hactive, hqueue, hout] at htick
    | cons front rest =>
      rw [tick_of_expires hexp hqueue] at htick
      cases htick
      simp [retransmit, hrto, hcount]
  · obtain ⟨now, hwait⟩ := tick_of_not_expires hexp
    rw [hwait] at htick
    cases htick
    exact ⟨Nat.le_refl _, rfl⟩

theorem ProbeFree.keepsTimeout (t : SenderTrace) (op : SenderOp) (h : ProbeFree t op) : KeepsTimeout t op := by
  intro hzero t' hstep
  cases op with
  | tick ms =>
    simp only [step] at hstep
    cases htick : t.s.tick ms with
    | none => simp [htick] at hstep
    | some s' =>
      simp only [htick, Option.some.injEq] at hstep
      obtain ⟨hcount, hrto⟩ := tick_keepsTimeout (h hzero) htick
      rw [← hstep]
      exact ⟨hcount, fun _ _ => hrto⟩
  | ackReceived ackno w =>
    cases hstep
    refine ⟨?_, by simp⟩
    -- Only an ackno for new data sets the count, and it sets it to zero.
    by_cases hnew : t.s.AcksNew ackno
    · exact (reset_ackReceived hnew).retrans.le.trans (Nat.zero_le _)
    · exact (refilled_ackReceived hnew).retrans.le
  | fillWindow =>
    cases hstep
    exact ⟨(refilled_fillWindow t.s).retrans.le, by simp⟩
  | write data =>
    cases hstep
    exact ⟨Nat.le_refl _, by simp⟩
  | endInput =>
    cases hstep
    exact ⟨Nat.le_refl _, by simp⟩
  | sendEmptySegment =>
    cases hstep
    exact ⟨Nat.le_refl _, by simp⟩

/-- The SYN is acknowledged with a window of 0, and one byte is sent to probe it. -/
def zeroWindowOps : List SenderOp := [.fillWindow, .ackReceived ⟨1⟩ 0, .write [97], .fillWindow]

theorem probe_backs_off :
    ∃ t t', run step (start 8 1000 ⟨0⟩) zeroWindowOps = some t ∧ t.s.windowSize = 0 ∧ t.s.Expires 1000 ∧
      step t (.tick 1000) = some t' ∧ t.s.sendtimer.rto = 1000 ∧ t'.s.sendtimer.rto = 2000 ∧
      t.s.consecutiveRetransmissions = 0 ∧ t'.s.consecutiveRetransmissions = 1 := by
  have hrun : ∃ t, run step (start 8 1000 ⟨0⟩) zeroWindowOps = some t ∧ t.s.windowSize = 0 ∧ t.s.Expires 1000 ∧
      ∃ t', step t (.tick 1000) = some t' ∧ t.s.sendtimer.rto = 1000 ∧ t'.s.sendtimer.rto = 2000 ∧
        t.s.consecutiveRetransmissions = 0 ∧ t'.s.consecutiveRetransmissions = 1 := by
    decide +kernel
  obtain ⟨t, ht, hzero, hexp, t', ht', hgrown⟩ := hrun
  exact ⟨t, t', ht, hzero, hexp, ht', hgrown⟩

/-- In every run without such probes, what happens while the window is 0 does not back off. -/
theorem zero_window_keeps_timeout (capacity : Nat) (retxTimeout : UInt16) (isn : WrappingInt32)
    (ops : List SenderOp) (hops : AllSteps step ProbeFree (start capacity retxTimeout isn) ops) :
    AllSteps step KeepsTimeout (start capacity retxTimeout isn) ops :=
  hops.imp ProbeFree.keepsTimeout

/-- The window opens before the probe would be sent again. -/
def openedOps : List SenderOp := zeroWindowOps ++ [.tick 999, .ackReceived ⟨1⟩ 3, .tick 1]

theorem zero_window_keeps_timeout_opened :
    AllSteps step ProbeFree (start 8 1000 ⟨0⟩) openedOps ∧ AllSteps step KeepsTimeout (start 8 1000 ⟨0⟩) openedOps := by
  have hops : AllSteps step ProbeFree (start 8 1000 ⟨0⟩) openedOps := by decide +kernel
  exact ⟨hops, zero_window_keeps_timeout 8 1000 ⟨0⟩ openedOps hops⟩

end SenderTrace

end Sponge
