import Sponge.Connection.Moves
import Sponge.Lib.Run
import Sponge.Sender.Timer

/-!
# Giving up

A connection whose segments are not acknowledged any more sends the oldest one again
eight times, waits twice as long after each time, and then resets itself. The clock only
moves in `tick`, which sends one segment at most, so the waits are longer by up to one
tick.
-/

namespace Sponge

open Word64 Run

namespace TCPSender

variable {rt : UInt16} {s s' : TCPSender} {ms limit : Nat}

/-- The time since the timer was started. -/
def waited (s : TCPSender) : Nat := sub64 s.time s.sendtimer.startTime

/-- The timer of a sender that has not given up: it runs while segments are outstanding, its timeout is
the initial one doubled for each retransmission, and it has not run out. -/
structure Backoff (rt : UInt16) (s : TCPSender) : Prop where
  timeout : s.initialRetransmissionTimeout = rt.toNat
  active : s.sendtimer.active = true ↔ s.unacked ≠ []
  calm : s.sendtimer.active = false → s.consecutiveRetrans = 0
  few : s.consecutiveRetrans ≤ TCPConfig.maxRetxAttempts
  rto : s.sendtimer.active = true → s.sendtimer.rto = rt.toNat * 2 ^ s.consecutiveRetrans
  waited : s.sendtimer.active = true → s.waited ≤ s.sendtimer.rto

theorem backoff_new (capacity : Nat) (isn : WrappingInt32) : Backoff rt (TCPSender.new capacity rt isn) where
  timeout := rfl
  active := by simp [TCPSender.new]
  calm := fun _ => rfl
  few := Nat.zero_le _
  rto := by simp [TCPSender.new]
  waited := by simp [TCPSender.new]

theorem Refilled.nil_of_nil (hr : Refilled s s') (h : s'.unacked = []) : s.unacked = [] :=
  List.prefix_nil.mp (h ▸ hr.queue)

theorem Refilled.queued (hr : Refilled s s') (queue : List TCPSegment) :
    Refilled s { s' with segmentsOut := queue } where
  time := hr.time
  timeout := hr.timeout
  retrans := hr.retrans
  queue := hr.queue
  running := hr.running
  waiting := hr.waiting

theorem Reset.queued (hr : Reset s s') (queue : List TCPSegment) : Reset s { s' with segmentsOut := queue } where
  time := hr.time
  timeout := hr.timeout
  retrans := hr.retrans
  timer := hr.timer

theorem Backoff.fresh (h : Backoff rt s) (htime : s'.time = s.time)
    (htimeout : s'.initialRetransmissionTimeout = s.initialRetransmissionTimeout) (hretrans : s'.consecutiveRetrans = 0)
    (hqueue : s'.unacked ≠ []) (htimer : s'.sendtimer = s.freshTimer) : Backoff rt s' where
  timeout := htimeout.trans h.timeout
  active := by simp [htimer, freshTimer, hqueue]
  calm := fun _ => hretrans
  few := by simp [hretrans]
  rto := by simp [htimer, freshTimer, hretrans, h.timeout]
  waited := by
    intro _
    rw [TCPSender.waited, htimer, htime, freshTimer, sub64_self]
    exact Nat.zero_le _

theorem Backoff.refilled (h : Backoff rt s) (hr : Refilled s s') : Backoff rt s' := by
  cases hactive : s.sendtimer.active with
  | true =>
    -- New segments do not touch a timer that runs.
    have htimer := hr.running hactive
    have hqueue : s'.unacked ≠ [] := fun hnil => h.active.mp hactive (hr.nil_of_nil hnil)
    refine ⟨hr.timeout.trans h.timeout, ?_, ?_, ?_, ?_, ?_⟩
    · simp [htimer, hactive, hqueue]
    · simp [htimer, hactive]
    · rw [hr.retrans]
      exact h.few
    · rw [htimer, hr.retrans]
      exact h.rto
    · rw [TCPSender.waited, htimer, hr.time]
      exact h.waited
  | false =>
    have htimer := hr.waiting hactive
    -- A timer at rest is started by the first new segment.
    by_cases hsame : s'.unacked = s.unacked
    · rw [if_pos hsame] at htimer
      refine ⟨hr.timeout.trans h.timeout, ?_, ?_, ?_, ?_, ?_⟩
      · rw [htimer, hsame]
        exact h.active
      · rw [hr.retrans]
        exact fun _ => h.calm hactive
      · rw [hr.retrans]
        exact h.few
      all_goals simp [htimer, hactive]
    · rw [if_neg hsame] at htimer
      have hqueue : s'.unacked ≠ [] := fun hnil => hsame (hnil.trans (hr.nil_of_nil hnil).symm)
      exact h.fresh hr.time hr.timeout (hr.retrans.trans (h.calm hactive)) hqueue htimer

theorem Backoff.reset (h : Backoff rt s) (hr : Reset s s') : Backoff rt s' := by
  have htimer := hr.timer
  by_cases hqueue : s'.unacked = []
  · rw [if_pos hqueue] at htimer
    refine ⟨hr.timeout.trans h.timeout, ?_, fun _ => hr.retrans, ?_, ?_, ?_⟩
    · simp [htimer, Timer.rtoReset, hqueue]
    · simp [hr.retrans]
    all_goals simp [htimer, Timer.rtoReset]
  · rw [if_neg hqueue] at htimer
    exact h.fresh hr.time hr.timeout hr.retrans hqueue htimer

/-! ## A tick -/

theorem waited_tick (s : TCPSender) (ms : Nat) (timer : Timer) (h : timer.startTime = s.sendtimer.startTime) :
    TCPSender.waited { s with time := add64 s.time ms, sendtimer := timer } = (s.waited + ms) % 2 ^ 64 := by
  simp only [TCPSender.waited, h]
  unfold sub64 add64
  omega

theorem Backoff.timeout_le (h : Backoff rt s) : rt.toNat * 2 ^ s.consecutiveRetrans ≤ rt.toNat * 2 ^ 8 :=
  Nat.mul_le_mul_left _ (Nat.pow_le_pow_right (by decide) h.few)

theorem Backoff.rto_lt (h : Backoff rt s) (hactive : s.sendtimer.active = true) : s.sendtimer.rto < 2 ^ 32 := by
  have hrt : rt.toNat < 2 ^ 16 := rt.toNat_lt
  rw [h.rto hactive]
  calc rt.toNat * 2 ^ s.consecutiveRetrans ≤ rt.toNat * 2 ^ 8 := h.timeout_le
    _ < 2 ^ 32 := by omega

theorem Backoff.tick (h : Backoff rt s) (ms : Nat) :
    (¬ s.Expires ms ∧ ∃ s', s.tick ms = some s' ∧ Backoff rt s' ∧ s'.unacked = s.unacked ∧
      s'.consecutiveRetrans = s.consecutiveRetrans ∧
      (s.sendtimer.active = true → s'.waited = (s.waited + ms) % 2 ^ 64)) ∨
    (s.Expires ms ∧ ∃ s', s.tick ms = some s' ∧ s'.unacked = s.unacked ∧
      s'.consecutiveRetrans = s.consecutiveRetrans + 1 ∧ s'.waited = 0 ∧
      (s.consecutiveRetrans < TCPConfig.maxRetxAttempts → Backoff rt s')) := by
  by_cases hexp : s.Expires ms
  · right
    refine ⟨hexp, ?_⟩
    -- The timer runs only while something is outstanding: there is a segment to send again.
    obtain ⟨front, rest, hqueue⟩ := List.exists_cons_of_ne_nil (h.active.mp hexp.1)
    have hfew := h.few
    have hcount : (s.consecutiveRetrans + 1) % 2 ^ 32 = s.consecutiveRetrans + 1 := by
      simp only [TCPConfig.maxRetxAttempts] at hfew
      omega
    have hzero : (s.retransmit ms front).waited = 0 := sub64_self _
    refine ⟨_, tick_of_expires hexp hqueue, rfl, hcount, hzero, ?_⟩
    intro hless
    -- A timeout is below `2 ^ 32` and can be doubled without wrapping.
    have hrto : s.sendtimer.rto * 2 % 2 ^ 64 = rt.toNat * 2 ^ (s.consecutiveRetrans + 1) := by
      have hlt := h.rto_lt hexp.1
      rw [Nat.mod_eq_of_lt (by omega), h.rto hexp.1, Nat.pow_succ, Nat.mul_assoc]
    refine ⟨h.timeout, ?_, by simp [retransmit], ?_, fun _ => ?_, fun _ => ?_⟩
    · simp [retransmit, hqueue]
    · simp only [retransmit, hcount]
      exact hless
    · simp only [retransmit, hcount, hrto]
    · rw [hzero]
      exact Nat.zero_le _
  · left
    refine ⟨hexp, ?_⟩
    obtain ⟨now, htick⟩ := tick_of_not_expires hexp
    have hwaited := waited_tick s ms { s.sendtimer with currentTime := now } rfl
    refine ⟨_, htick, ⟨h.timeout, h.active, h.calm, h.few, h.rto, ?_⟩, rfl, rfl, fun _ => hwaited⟩
    intro hactive
    rw [TCPSender.Expires] at hexp
    have hless := not_le.mp fun hle => hexp ⟨hactive, hle⟩
    exact hless.le

/-- How long the sender goes on when no tick is longer than `limit`. -/
def patience (rt : UInt16) (limit : Nat) (s : TCPSender) : Nat :=
  rt.toNat * 512 + (9 - s.consecutiveRetrans) * limit - (rt.toNat * 2 ^ s.consecutiveRetrans + s.waited)

/-- How long the sender has been trying, and one timeout more. -/
def spent (rt : UInt16) (s : TCPSender) : Nat := rt.toNat * 2 ^ s.consecutiveRetrans + s.waited

theorem mul_two_pow_succ (a n : Nat) : a * 2 ^ (n + 1) = 2 * (a * 2 ^ n) := by
  rw [Nat.pow_succ, Nat.mul_comm (2 ^ n) 2, Nat.mul_left_comm]

theorem patience_le (s : TCPSender) : patience rt limit s ≤ 511 * rt.toNat + 9 * limit := by
  have hone : rt.toNat * 1 ≤ rt.toNat * 2 ^ s.consecutiveRetrans := Nat.mul_le_mul_left _ Nat.one_le_two_pow
  have hlimit : (9 - s.consecutiveRetrans) * limit ≤ 9 * limit := Nat.mul_le_mul_right _ (Nat.sub_le _ _)
  unfold patience
  omega

theorem patience_waits (h : Backoff rt s) (hactive : s.sendtimer.active = true)
    (hcount : s'.consecutiveRetrans = s.consecutiveRetrans) (hwaited : s'.waited = s.waited + ms)
    (hless : s.waited + ms ≤ s.sendtimer.rto) : patience rt limit s' + ms ≤ patience rt limit s := by
  have htimeout := h.timeout_le
  rw [h.rto hactive] at hless
  unfold patience
  rw [hcount, hwaited]
  omega

theorem patience_retransmits (h : Backoff rt s) (hactive : s.sendtimer.active = true)
    (hcount : s'.consecutiveRetrans = s.consecutiveRetrans + 1) (hwaited : s'.waited = 0) (hms : ms ≤ limit) :
    patience rt limit s' + ms ≤ patience rt limit s := by
  have htimeout := h.timeout_le
  have hwait := h.waited hactive
  have hfew := h.few
  rw [h.rto hactive] at hwait
  simp only [TCPConfig.maxRetxAttempts] at hfew
  have hmul : (9 - s.consecutiveRetrans) * limit = (9 - (s.consecutiveRetrans + 1)) * limit + limit := by
    rw [← Nat.succ_mul]
    congr 1
    omega
  unfold patience
  rw [hcount, hwaited, mul_two_pow_succ, hmul]
  omega

end TCPSender

namespace TCPConnection

open TCPSender

variable {rt : UInt16} {c c' : TCPConnection} {op : Op} {ms limit : Nat}

/-- The milliseconds that a call tells of. -/
def Op.elapsed : Op → Nat
  | .tick ms => ms
  | _ => 0

/-- The call brings no acknowledgment of new data. -/
def Unheard (c : TCPConnection) : Op → Prop
  | .segmentReceived seg => seg.header.ack = true → ¬ c.sender.AcksNew seg.header.ackno
  | _ => True

instance (c : TCPConnection) : DecidablePred (Unheard c)
  | .segmentReceived _ => inferInstanceAs (Decidable (_ → _))
  | .connect | .write _ | .endInputStream | .tick _ | .read _ => inferInstanceAs (Decidable True)

theorem senderReceived_timer (s : TCPSender) (header : TCPHeader) :
    ((header.ack = true → ¬ s.AcksNew header.ackno) → Refilled s (senderReceived s header).1) ∧
      (Refilled s (senderReceived s header).1 ∨ Reset s (senderReceived s header).1) := by
  unfold senderReceived
  split_ifs with hack
  · by_cases hnew : s.AcksNew header.ackno
    · exact ⟨fun hold => absurd hnew (hold hack), Or.inr (reset_ackReceived hnew)⟩
    · exact ⟨fun _ => refilled_ackReceived hnew, Or.inl (refilled_ackReceived hnew)⟩
  · exact ⟨fun _ => refilled_fillWindow s, Or.inl (refilled_fillWindow s)⟩

theorem answered_eq (r : TCPReceiver) (s : TCPSender) : ∃ queue, answered r s = { s with segmentsOut := queue } := by
  unfold answered
  split_ifs
  · exact ⟨_, rfl⟩
  · exact ⟨s.segmentsOut, rfl⟩

theorem rstSender_eq (s : TCPSender) : ∃ queue, rstSender s = { s with segmentsOut := queue } := by
  unfold rstSender
  split_ifs
  · exact ⟨_, rfl⟩
  · exact ⟨s.segmentsOut, rfl⟩

theorem step_timer (h : c.step op = some c') (hop : ∀ ms, op ≠ .tick ms) :
    (Unheard c op → Refilled c.sender c'.sender) ∧ (Refilled c.sender c'.sender ∨ Reset c.sender c'.sender) := by
  -- The queue and the stream do not matter to the timer.
  have hfill : ∀ stream, Refilled c.sender { c with sender := { c.sender with stream := stream } }.fillAndSend.sender := by
    intro stream
    obtain ⟨htime, htimeout, hretrans, hqueue, hrunning, hwaiting⟩ := refilled_fillWindow { c.sender with stream := stream }
    exact ⟨htime, htimeout, hretrans, hqueue, hrunning, hwaiting⟩
  have hself : Refilled c.sender c.sender := refilled_self rfl rfl rfl rfl rfl
  cases op with
  | connect =>
    cases h
    exact ⟨fun _ => hfill _, Or.inl (hfill _)⟩
  | write data =>
    cases h
    exact ⟨fun _ => hfill _, Or.inl (hfill _)⟩
  | endInputStream =>
    cases h
    exact ⟨fun _ => hfill _, Or.inl (hfill _)⟩
  | tick ms => exact absurd rfl (hop ms)
  | read len =>
    cases h
    exact ⟨fun _ => hself, Or.inl hself⟩
  | segmentReceived seg =>
    rcases segmentReceived_cases h with ⟨-, rfl⟩ | ⟨-, -, rfl⟩ | ⟨-, -, hproc⟩
    · exact ⟨fun _ => refilled_self rfl rfl rfl rfl rfl, Or.inl (refilled_self rfl rfl rfl rfl rfl)⟩
    · exact ⟨fun _ => hself, Or.inl hself⟩
    · have hsender := senderReceived_timer c.sender seg.header
      obtain ⟨receiver, inside, -, ⟨-, -, -, rfl⟩ | ⟨-, rfl⟩⟩ := process_cases hproc
      · exact hsender
      · obtain ⟨queue, hqueue⟩ := answered_eq receiver (senderReceived c.sender seg.header).1
        simp only [segmentOut, hqueue]
        obtain ⟨hold, hany⟩ := hsender
        exact ⟨fun hunheard => (hold hunheard).queued _, hany.imp (fun hr => hr.queued _) fun hr => hr.queued _⟩

/-- All that the timer depends on is the same. -/
structure Alike (s s' : TCPSender) : Prop where
  time : s'.time = s.time
  timeout : s'.initialRetransmissionTimeout = s.initialRetransmissionTimeout
  retrans : s'.consecutiveRetrans = s.consecutiveRetrans
  queue : s'.unacked = s.unacked
  timer : s'.sendtimer = s.sendtimer

theorem Alike.backoff {s s' : TCPSender} (h : Alike s s') (hs : Backoff rt s) : Backoff rt s' :=
  hs.refilled (refilled_self h.time h.timeout h.retrans h.queue h.timer)

theorem Alike.waited {s s' : TCPSender} (h : Alike s s') : s'.waited = s.waited := by
  rw [TCPSender.waited, h.time, h.timer, TCPSender.waited]

theorem tick_alike {sender : TCPSender} (h : c.sender.tick ms = some sender) :
    ∃ c', c.tick ms = some c' ∧ Alike sender c'.sender ∧
      (TCPConfig.maxRetxAttempts < sender.consecutiveRetrans → c'.rst = true) ∧
      (sender.consecutiveRetrans ≤ TCPConfig.maxRetxAttempts → c'.rst = c.rst) := by
  by_cases hmany : TCPConfig.maxRetxAttempts < sender.consecutiveRetrans
  · have htick := tick_lost h hmany
    obtain ⟨front, rest, -, hrst⟩ :=
      rstSegment_spec (TCPConnection.abort { c with sender := sender, time := add64 c.time ms })
    rw [hrst, Option.map_some] at htick
    refine ⟨_, htick, ?_, fun _ => rfl, fun hfew => absurd hmany (not_lt.mpr hfew)⟩
    obtain ⟨queue, hqueue⟩ :=
      rstSender_eq (TCPConnection.abort { c with sender := sender, time := add64 c.time ms }).sender
    simp only [segmentOut, hqueue]
    exact ⟨rfl, rfl, rfl, rfl, rfl⟩
  · exact ⟨_, tick_kept h hmany, ⟨rfl, rfl, rfl, rfl, rfl⟩, fun hlost => absurd hlost hmany, fun _ => rfl⟩

theorem step_rst (h : c.step op = some c') (hop : ∀ ms, op ≠ .tick ms) :
    c'.rst = true ↔ c.rst = true ∨ ∃ seg, op = .segmentReceived seg ∧ seg.header.rst = true := by
  cases op with
  | connect | write | endInputStream | read =>
    cases h
    simp [connect, write, endInputStream, fillAndSend, segmentOut]
  | segmentReceived seg =>
    rcases segmentReceived_cases h with ⟨hrst, rfl⟩ | ⟨hrst, -, rfl⟩ | ⟨hrst, -, hproc⟩
    · simp [hrst, abort]
    · simp [hrst]
    · obtain ⟨receiver, inside, -, ⟨-, -, -, rfl⟩ | ⟨-, rfl⟩⟩ := process_cases hproc
      · simp [hrst]
      · simp [hrst, segmentOut]
  | tick ms => exact absurd rfl (hop ms)

theorem rst_stays (h : c.step op = some c') (hrst : c.rst = true) : c'.rst = true := by
  cases op with
  | tick ms =>
    obtain ⟨sender, -, ⟨-, rfl⟩ | ⟨-, c₁, hc₁, rfl⟩⟩ := tick_cases h
    · exact hrst
    · obtain ⟨front, rest, -, rfl⟩ := rstSegment_cases hc₁
      rfl
  | connect | write | endInputStream | segmentReceived | read => exact (step_rst h (by simp)).mpr (Or.inl hrst)

theorem backoff_step (h : c.step op = some c') (hc : c.rst = true ∨ Backoff rt c.sender) :
    c'.rst = true ∨ Backoff rt c'.sender := by
  rcases hc with hrst | hback
  · exact Or.inl (rst_stays h hrst)
  cases op with
  | tick ms =>
    -- One retransmission too many resets the connection in the same call.
    have hsome : ∃ sender, c.sender.tick ms = some sender ∧
        (Backoff rt sender ∨ TCPConfig.maxRetxAttempts < sender.consecutiveRetrans) := by
      rcases hback.tick ms with ⟨-, sender, hs, hb, -⟩ | ⟨-, sender, hs, -, hcount, -, hb⟩
      · exact ⟨sender, hs, Or.inl hb⟩
      · by_cases hless : c.sender.consecutiveRetrans < TCPConfig.maxRetxAttempts
        · exact ⟨sender, hs, Or.inl (hb hless)⟩
        · exact ⟨sender, hs, Or.inr (by omega)⟩
    obtain ⟨sender, hs, hsender⟩ := hsome
    obtain ⟨d, hd, halike, hlost, -⟩ := tick_alike hs
    cases hd.symm.trans h
    rcases hsender with hb | hmany
    · exact Or.inr (halike.backoff hb)
    · exact Or.inl (hlost hmany)
  | connect | write | endInputStream | segmentReceived | read =>
    -- The other calls refill the queue, or an acknowledgment of new data starts the timer afresh.
    rcases (step_timer h (by simp)).2 with hr | hr
    · exact Or.inr (hback.refilled hr)
    · exact Or.inr (hback.reset hr)

/-! ## Without an acknowledgment -/

/-- Segments are outstanding, and the connection keeps to its timeouts. -/
structure Waiting (rt : UInt16) (c : TCPConnection) : Prop where
  backoff : Backoff rt c.sender
  queue : c.sender.unacked ≠ []

theorem Waiting.active (h : Waiting rt c) : c.sender.sendtimer.active = true := h.backoff.active.mpr h.queue

theorem Waiting.call (h : Waiting rt c) (hstep : c.step op = some c') (hop : ∀ ms, op ≠ .tick ms)
    (hunheard : Unheard c op) : Waiting rt c' ∧ c'.sender.consecutiveRetrans = c.sender.consecutiveRetrans ∧
      c'.sender.waited = c.sender.waited := by
  have hr := (step_timer hstep hop).1 hunheard
  have htimer := hr.running h.active
  refine ⟨⟨h.backoff.refilled hr, fun hnil => h.queue (hr.nil_of_nil hnil)⟩, hr.retrans, ?_⟩
  rw [TCPSender.waited, htimer, hr.time, TCPSender.waited]

theorem Waiting.tick (h : Waiting rt c) (ms : Nat) :
    ∃ c', c.tick ms = some c' ∧
      (¬ c.sender.Expires ms ∧ Waiting rt c' ∧ c'.rst = c.rst ∧
          c'.sender.consecutiveRetrans = c.sender.consecutiveRetrans ∧
          c'.sender.waited = (c.sender.waited + ms) % 2 ^ 64 ∨
        c.sender.Expires ms ∧ c'.sender.consecutiveRetrans = c.sender.consecutiveRetrans + 1 ∧ c'.sender.waited = 0 ∧
          (c.sender.consecutiveRetrans = TCPConfig.maxRetxAttempts ∧ c'.rst = true ∨
            c.sender.consecutiveRetrans < TCPConfig.maxRetxAttempts ∧ Waiting rt c' ∧ c'.rst = c.rst)) := by
  have hfew := h.backoff.few
  rcases h.backoff.tick ms with ⟨hexp, s', hs', hback, hqueue, hcount, hwaited⟩ | ⟨hexp, s', hs', hqueue, hcount, hzero, hback⟩
  · obtain ⟨c', hc', halike, -, hkept⟩ := tick_alike hs'
    refine ⟨c', hc', Or.inl ⟨hexp, ⟨halike.backoff hback, ?_⟩, hkept (by omega), halike.retrans.trans hcount, ?_⟩⟩
    · rw [halike.queue, hqueue]
      exact h.queue
    · rw [halike.waited, hwaited h.active]
  · obtain ⟨c', hc', halike, hlost, hkept⟩ := tick_alike hs'
    refine ⟨c', hc', Or.inr ⟨hexp, halike.retrans.trans hcount, halike.waited.trans hzero, ?_⟩⟩
    -- After eight retransmissions the next one is a reset.
    by_cases hless : c.sender.consecutiveRetrans < TCPConfig.maxRetxAttempts
    · refine Or.inr ⟨hless, ⟨halike.backoff (hback hless), ?_⟩, hkept (by omega)⟩
      rw [halike.queue, hqueue]
      exact h.queue
    · exact Or.inl ⟨by omega, hlost (by omega)⟩

theorem Waiting.no_wrap (h : Waiting rt c) (hms : ms < 2 ^ 63) :
    (c.sender.waited + ms) % 2 ^ 64 = c.sender.waited + ms := by
  have hlt := h.backoff.rto_lt h.active
  have hwaited := h.backoff.waited h.active
  -- The time waited is at most a timeout, which is below `2 ^ 32`.
  omega

theorem Waiting.pays (h : Waiting rt c) (hlimit : limit < 2 ^ 63) (hunheard : Unheard c op) (hop : op.elapsed ≤ limit)
    (hstep : c.step op = some c') :
    c'.rst = true ∨ Waiting rt c' ∧ patience rt limit c'.sender + op.elapsed ≤ patience rt limit c.sender := by
  cases op with
  | tick ms =>
    simp only [Op.elapsed] at hop ⊢
    obtain ⟨d, hd, hcases⟩ := h.tick ms
    cases hd.symm.trans hstep
    rcases hcases with ⟨-, hd, -, hcount, hwaited⟩ | ⟨-, hcount, hzero, ⟨-, hrst⟩ | ⟨-, hd, -⟩⟩
    · rw [h.no_wrap (by omega)] at hwaited
      have hless := hd.backoff.waited hd.active
      rw [hd.backoff.rto hd.active, hcount, ← h.backoff.rto h.active, hwaited] at hless
      exact Or.inr ⟨hd, patience_waits h.backoff h.active hcount hwaited hless⟩
    · exact Or.inl hrst
    · exact Or.inr ⟨hd, patience_retransmits h.backoff h.active hcount hzero hop⟩
  | connect | write | endInputStream | segmentReceived | read =>
    obtain ⟨hd, hcount, hwaited⟩ := h.call hstep (by simp) hunheard
    refine Or.inr ⟨hd, ?_⟩
    rw [patience, hcount, hwaited]
    exact Nat.le_refl _

theorem Waiting.spends (h : Waiting rt c) (hunheard : Unheard c op)
    (hbound : spent rt c.sender + op.elapsed < rt.toNat * 512)
    (hrst : ∀ seg, op = .segmentReceived seg → seg.header.rst = false) (hstep : c.step op = some c') :
    Waiting rt c' ∧ c'.rst = c.rst ∧ spent rt c'.sender ≤ spent rt c.sender + op.elapsed := by
  have hlimit : op.elapsed < 2 ^ 63 := by
    have := rt.toNat_lt
    omega
  cases op with
  | tick ms =>
    simp only [Op.elapsed] at hbound hlimit ⊢
    obtain ⟨d, hd, hcases⟩ := h.tick ms
    cases hd.symm.trans hstep
    rcases hcases with ⟨-, hd, hkept, hcount, hwaited⟩ | ⟨hexp, hcount, hzero, hcases⟩
    · rw [h.no_wrap hlimit] at hwaited
      refine ⟨hd, hkept, ?_⟩
      rw [spent, hcount, hwaited, spent]
      omega
    · -- The timeout has passed, so the next one is paid for.
      have hlong : c.sender.sendtimer.rto ≤ c.sender.waited + ms := by
        rw [← h.no_wrap hlimit, ← waited_tick c.sender ms c.sender.sendtimer rfl]
        exact hexp.2
      rw [h.backoff.rto h.active] at hlong
      have hspent : spent rt c'.sender ≤ spent rt c.sender + ms := by
        rw [spent, hcount, hzero, mul_two_pow_succ, spent]
        omega
      rcases hcases with ⟨hlast, -⟩ | ⟨-, hd, hkept⟩
      · rw [spent, hcount, hlast] at hspent
        simp only [TCPConfig.maxRetxAttempts] at hspent
        omega
      · exact ⟨hd, hkept, hspent⟩
  | connect | write | endInputStream | segmentReceived | read =>
    obtain ⟨hd, hcount, hwaited⟩ := h.call hstep (by simp) hunheard
    refine ⟨hd, ?_, ?_⟩
    · rw [Bool.eq_iff_iff, step_rst hstep (by simp)]
      refine or_iff_left ?_
      rintro ⟨seg, hseg, hreset⟩
      rw [hrst seg hseg] at hreset
      cases hreset
    · rw [spent, hcount, hwaited]
      exact Nat.le_refl _

theorem backoff_of_run {cfg : TCPConfig} {random : WrappingInt32} {ops : List Op}
    (h : run step (new cfg random) ops = some c) : c.rst = true ∨ Backoff cfg.rtTimeout c.sender :=
  run_inv (I := fun c => c.rst = true ∨ Backoff cfg.rtTimeout c.sender) (fun _ _ _ hc hstep => backoff_step hstep hc)
    (Or.inr (backoff_new _ _)) h

/-- The timer runs only while segments are outstanding, after a reset too. -/
def Armed (s : TCPSender) : Prop := s.sendtimer.active = true → s.unacked ≠ []

theorem Armed.refilled {s s' : TCPSender} (h : Armed s) (hr : Refilled s s') : Armed s' := by
  intro hactive hnil
  have hempty := hr.nil_of_nil hnil
  have hidle : s.sendtimer.active = false := Bool.eq_false_iff.mpr fun hrun => h hrun hempty
  rw [hr.waiting hidle, if_pos (hnil.trans hempty.symm), hidle] at hactive
  cases hactive

theorem Armed.reset {s s' : TCPSender} (hr : Reset s s') : Armed s' := by
  intro hactive hnil
  rw [hr.timer, if_pos hnil] at hactive
  cases hactive

theorem senderKeeps_armed : SenderKeeps Armed where
  queue := fun _ _ h => h
  fillWindow := fun s h => h.refilled (refilled_fillWindow s)
  ackReceived := by
    intro s ackno w h
    by_cases hnew : s.AcksNew ackno
    · exact .reset (reset_ackReceived hnew)
    · exact h.refilled (refilled_ackReceived hnew)
  tick := by
    intro s ms s' h htick
    by_cases hexp : s.Expires ms
    · intro _
      rw [(tick_eof htick).2]
      exact h hexp.1
    · obtain ⟨now, heq⟩ := tick_of_not_expires hexp
      cases heq.symm.trans htick
      exact h
  write := fun _ _ h => h
  endInput := fun _ h => h
  setError := fun _ h => h

theorem exists_step (h : Armed c.sender) (hop : ∀ seg, op ≠ .segmentReceived seg) : ∃ c', c.step op = some c' := by
  cases op with
  | segmentReceived seg => exact absurd rfl (hop seg)
  | connect | write | endInputStream | read => exact ⟨_, rfl⟩
  | tick ms =>
    have hsome : ∃ sender, c.sender.tick ms = some sender := by
      by_cases hexp : c.sender.Expires ms
      · obtain ⟨front, rest, hqueue⟩ := List.exists_cons_of_ne_nil (h hexp.1)
        exact ⟨_, tick_of_expires hexp hqueue⟩
      · obtain ⟨now, heq⟩ := tick_of_not_expires hexp
        exact ⟨_, heq⟩
    obtain ⟨sender, hs⟩ := hsome
    obtain ⟨c', hc', -⟩ := tick_alike hs
    exact ⟨c', hc'⟩

theorem armed_of_run {cfg : TCPConfig} {random : WrappingInt32} {ops : List Op}
    (h : run step (new cfg random) ops = some c) : Armed c.sender :=
  run_inv (I := fun c => Armed c.sender) (fun _ _ _ hc hstep => senderKeeps_armed.step hc hstep)
    (fun hactive => by cases hactive) h

/-- A connection with outstanding segments that hears of no acknowledgment is reset, whatever its owner
and the peer do otherwise: at the latest when 511 timeouts and nine of its longest ticks have passed.
Without segments from the peer no call fails on the way there. -/
theorem gives_up (cfg : TCPConfig) (random : WrappingInt32) (before ops : List Op) (c : TCPConnection) (limit : Nat)
    (hlimit : limit < 2 ^ 63) (hc : run step (new cfg random) before = some c) (hwaits : c.sender.unacked ≠ [])
    (hunheard : AllSteps step Unheard c ops) (hticks : ∀ op ∈ ops, op.elapsed ≤ limit)
    (htime : 511 * cfg.rtTimeout.toNat + 9 * limit < (ops.map Op.elapsed).sum) :
    (∀ c', run step c ops = some c' → c'.rst = true ∧ c'.active = false) ∧
      ((∀ seg, Op.segmentReceived seg ∉ ops) → ∃ c', run step c ops = some c') := by
  refine ⟨?_, ?_⟩
  · intro c' h
    have hrst : c'.rst = true := by
      rcases backoff_of_run hc with hreset | hback
      · exact run_inv (I := fun c => c.rst = true) (fun _ _ _ hr hstep => rst_stays hstep hr) hreset h
      · have hall := hunheard.and (allSteps_of_forall hticks)
        have hdone : ∀ d op d', d.rst = true → step d op = some d' → d'.rst = true :=
          fun _ _ _ hr hstep => rst_stays hstep hr
        -- The time that passes is paid for out of the patience, until the connection is reset.
        have hpays : ∀ d op d', Waiting cfg.rtTimeout d → Unheard d op ∧ op.elapsed ≤ limit → step d op = some d' →
            d'.rst = true ∨ Waiting cfg.rtTimeout d' ∧
              patience cfg.rtTimeout limit d'.sender + op.elapsed ≤ patience cfg.rtTimeout limit d.sender :=
          fun _ _ _ hd hG hstep => hd.pays hlimit hG.1 hG.2 hstep
        rcases run_budget hdone hpays ⟨hback, hwaits⟩ hall h with hreset | ⟨-, hleft⟩
        · exact hreset
        · have hle : patience cfg.rtTimeout limit c.sender ≤ 511 * cfg.rtTimeout.toNat + 9 * limit := patience_le c.sender
          omega
    exact ⟨hrst, by simp [active, hrst]⟩
  · intro hquiet
    -- Without segments nothing can throw: a tick finds the queue in order.
    have hops : AllSteps step (fun _ op => ∀ seg, op ≠ .segmentReceived seg) c ops := by
      apply allSteps_of_forall
      rintro op hop seg rfl
      exact hquiet seg hop
    have hexists : ∃ c', run step c ops = some c' ∧ Armed c'.sender := by
      apply exists_run_inv (I := fun c => Armed c.sender) _ (armed_of_run hc) hops
      intro c op harmed hop
      obtain ⟨c', hc'⟩ := exists_step harmed hop
      exact ⟨c', hc', senderKeeps_armed.step harmed hc'⟩
    obtain ⟨c', hc', -⟩ := hexists
    exact ⟨c', hc'⟩

def impatient : TCPConfig := { smallConfig with rtTimeout := 1 }

theorem gives_up_connecting :
    ∃ c c', run step (new impatient ⟨0⟩) [.connect] = some c ∧ run step c (List.replicate 15 (.tick 100)) = some c' ∧
      c'.rst = true ∧ c'.active = false := by
  have hrun : ∃ c, run step (new impatient ⟨0⟩) [.connect] = some c ∧ c.sender.unacked ≠ [] ∧
      AllSteps step Unheard c (List.replicate 15 (.tick 100)) := by
    decide +kernel
  obtain ⟨c, hc, hwaits, hunheard⟩ := hrun
  obtain ⟨hdead, hexists⟩ := gives_up impatient ⟨0⟩ [.connect] (List.replicate 15 (.tick 100)) c 100 (by decide) hc hwaits
    hunheard (by decide) (by decide)
  obtain ⟨c', hc'⟩ := hexists (by simp)
  exact ⟨c, c', hc, hc', hdead c' hc'⟩

/-- And not before 510 timeouts have passed since a state without retransmissions, unless a RST comes:
until then the connection stays active. -/
theorem keeps_trying (cfg : TCPConfig) (random : WrappingInt32) (before ops : List Op) (c c' : TCPConnection)
    (hc : run step (new cfg random) before = some c) (hwaits : c.sender.unacked ≠ [])
    (hfresh : c.sender.consecutiveRetrans = 0) (hopen : c.rst = false) (hunheard : AllSteps step Unheard c ops)
    (hrst : ∀ seg, Op.segmentReceived seg ∈ ops → seg.header.rst = false)
    (htime : (ops.map Op.elapsed).sum < 510 * cfg.rtTimeout.toNat) (h : run step c ops = some c') :
    c'.rst = false ∧ c'.active = true := by
  have hback : Backoff cfg.rtTimeout c.sender := by
    rcases backoff_of_run hc with hreset | hback
    · rw [hopen] at hreset
      cases hreset
    · exact hback
  have hstart : Waiting cfg.rtTimeout c := ⟨hback, hwaits⟩
  -- With no retransmission behind it, at most two timeouts have been spent so far.
  have hspent : spent cfg.rtTimeout c.sender ≤ 2 * cfg.rtTimeout.toNat := by
    have hwaited := hback.waited hstart.active
    rw [hback.rto hstart.active, hfresh] at hwaited
    rw [spent, hfresh]
    omega
  have hops : AllSteps step (fun c op => Unheard c op ∧ ∀ seg, op = .segmentReceived seg → seg.header.rst = false) c ops := by
    apply hunheard.and
    apply allSteps_of_forall
    rintro op hop seg rfl
    exact hrst seg hop
  have hspends : ∀ d op d', (Waiting cfg.rtTimeout d ∧ d.rst = false) →
      (Unheard d op ∧ ∀ seg, op = .segmentReceived seg → seg.header.rst = false) →
      spent cfg.rtTimeout d.sender + op.elapsed < cfg.rtTimeout.toNat * 512 → step d op = some d' →
      (Waiting cfg.rtTimeout d' ∧ d'.rst = false) ∧
        spent cfg.rtTimeout d'.sender ≤ spent cfg.rtTimeout d.sender + op.elapsed := by
    rintro d op d' ⟨hd, hdopen⟩ ⟨hd₁, hd₂⟩ hbound hstep
    obtain ⟨hd', hkept, hless⟩ := hd.spends hd₁ hbound hd₂ hstep
    exact ⟨⟨hd', hkept.trans hdopen⟩, hless⟩
  obtain ⟨hend, hopen'⟩ := run_within hspends ⟨hstart, hopen⟩ hops (by omega) h
  refine ⟨hopen', ?_⟩
  -- Something is still outstanding, so that the outbound side is not done.
  have hqueue : c'.sender.finAcked = false := by
    simp [finAcked, hend.queue]
  simp [active, hopen', hqueue]

theorem keeps_trying_connecting :
    ∃ c c', run step (new impatient ⟨0⟩) [.connect] = some c ∧ run step c (List.replicate 5 (.tick 100)) = some c' ∧
      c'.rst = false ∧ c'.active = true := by
  have hrun : ∃ c, run step (new impatient ⟨0⟩) [.connect] = some c ∧ c.sender.unacked ≠ [] ∧
      c.sender.consecutiveRetrans = 0 ∧ c.rst = false ∧ AllSteps step Unheard c (List.replicate 5 (.tick 100)) ∧
      (run step c (List.replicate 5 (.tick 100))).isSome = true := by
    decide +kernel
  obtain ⟨c, hc, hwaits, hfresh, hopen, hunheard, hsome⟩ := hrun
  obtain ⟨c', hc'⟩ := Option.isSome_iff_exists.mp hsome
  exact ⟨c, c', hc, hc', keeps_trying impatient ⟨0⟩ [.connect] (List.replicate 5 (.tick 100)) c c' hc hwaits hfresh hopen
    hunheard (by simp) (by decide) hc'⟩

end TCPConnection

end Sponge
