import Sponge.Interface.Trace

/-!
# Datagrams of the network interface

Every datagram handed over leaves in one IPv4 frame or waits in `unsent`, and a frame
goes to the address that its next hop announced last. An announcement counts for
thirty seconds of the clock, which wraps: after `2 ^ 64` ms an old one is young again.
-/

namespace Sponge

open Word64 Run

/-- An IPv4 frame that was pushed, when, and the log before it. -/
structure IPv4Push where
  frame : EthernetFrame
  time : Nat
  before : List Event
  deriving DecidableEq

namespace Trace

open NetworkInterface

/-- The last accepted message of the sender and when it came. -/
def lastFrom (ip : UInt32) : List Event → Option (ARPMessage × Nat)
  | [] => none
  | .accepted msg time :: log => if ip = msg.senderIpAddress then some (msg, time) else lastFrom ip log
  | .pushed _ _ :: log => lastFrom ip log

def ipv4Pushes : List Event → List IPv4Push
  | [] => []
  | .accepted _ _ :: log => ipv4Pushes log
  | .pushed frame time :: log =>
    if frame.header.type = EthernetHeader.typeIPv4 then { frame := frame, time := time, before := log } :: ipv4Pushes log
    else ipv4Pushes log

def pushedFrames : List Event → List EthernetFrame
  | [] => []
  | .accepted _ _ :: log => pushedFrames log
  | .pushed frame _ :: log => frame :: pushedFrames log

/-- The frame holds the datagram and goes from the interface to the address that the next hop
announced last, not more than thirty seconds before. -/
structure Carries (own : EthernetAddress) (entry : InternetDatagram × UInt32) (p : IPv4Push) : Prop where
  payload : entry.1.serialize = some p.frame.payload
  src : p.frame.header.src = own
  dst : ∃ msg time, lastFrom entry.2 p.before = some (msg, time) ∧ p.frame.header.dst = msg.senderEthernetAddress ∧
    p.time ≤ time + 30000

/-- The datagram serializes, the payload is contiguous, and the clock does not wrap. -/
def Orderly (t : Trace) : Action → Prop
  | .send dgram _ _ => dgram.serialize.isSome
  | .recv frame => frame.payload.toBuffer.isSome
  | .tick ms => t.s.time + ms < 2 ^ 64

instance (t : Trace) : (a : Action) → Decidable (Orderly t a)
  | .send _ _ _ | .recv _ => inferInstanceAs (Decidable (_ = _))
  | .tick _ => inferInstanceAs (Decidable (_ < _))

variable {t t' : Trace} {own : EthernetAddress} {log : List Event} {frames : List EthernetFrame} {now : Nat}
variable {carried : List (InternetDatagram × UInt32)}

/-! ## Logs -/

theorem lastFrom_pushAll (ip : UInt32) (now : Nat) (log : List Event) (frames : List EthernetFrame) :
    lastFrom ip (pushAll now log frames) = lastFrom ip log := by
  induction frames generalizing log with
  | nil => rfl
  | cons f frames ih => exact ih (.pushed f now :: log)

theorem pushedFrames_pushAll (now : Nat) (log : List Event) (frames : List EthernetFrame) :
    pushedFrames (pushAll now log frames) = frames.reverse ++ pushedFrames log := by
  induction frames generalizing log with
  | nil => rfl
  | cons f frames ih =>
    rw [List.reverse_cons, List.append_assoc]
    exact ih (.pushed f now :: log)

theorem ipv4Pushes_pushAll (h : ∀ f ∈ frames, f.header.type ≠ EthernetHeader.typeIPv4) :
    ipv4Pushes (pushAll now log frames) = ipv4Pushes log := by
  induction frames generalizing log with
  | nil => rfl
  | cons f frames ih =>
    have hpush : ipv4Pushes (.pushed f now :: log) = ipv4Pushes log := if_neg (h f List.mem_cons_self)
    exact (ih fun g hg => h g (List.mem_cons_of_mem _ hg)).trans hpush

theorem Carries.pushed {entry : InternetDatagram × UInt32} {f g : EthernetFrame}
    (h : Carries own entry ⟨f, now, log⟩) : Carries own entry ⟨f, now, .pushed g now :: log⟩ :=
  ⟨h.payload, h.src, h.dst⟩

theorem carries_pushAll {out : List (InternetDatagram × UInt32)}
    (hlog : List.Forall₂ (Carries own) carried (ipv4Pushes log))
    (h : List.Forall₂ (fun e f => f.header.type = EthernetHeader.typeIPv4 ∧ Carries own e ⟨f, now, log⟩) out frames) :
    List.Forall₂ (Carries own) (out.reverse ++ carried) (ipv4Pushes (pushAll now log frames)) := by
  induction out generalizing frames log carried with
  | nil =>
    cases h
    exact hlog
  | cons e out ih =>
    cases h with
    | cons hf hrest =>
      rename_i f frames
      rw [List.reverse_cons, List.append_assoc]
      change List.Forall₂ _ _ (ipv4Pushes (pushAll now (.pushed f now :: log) frames))
      refine ih ?_ (hrest.imp fun _ _ hg => ⟨hg.1, hg.2.pushed⟩)
      have hpush : ipv4Pushes (.pushed f now :: log) = ⟨f, now, log⟩ :: ipv4Pushes log := if_pos hf.1
      rw [hpush]
      exact .cons hf.2 hlog

/-! ## The ledger -/

/-- The map, the log and the frames agree; `carried` holds the datagrams that have left, the last one first. -/
structure Ledger (own : EthernetAddress) (carried : List (InternetDatagram × UInt32)) (t : Trace) : Prop where
  clock : t.s.time = t.now
  bound : t.now < 2 ^ 64
  address : t.s.ethernetAddress = own
  learned : ∀ ip, t.s.ipEthernetMap.lookup ip =
    (lastFrom ip t.log).map fun last => { ethernetAddress := last.1.senderEthernetAddress, timeEthernet := last.2 }
  since : ∀ ip msg time, lastFrom ip t.log = some (msg, time) → time ≤ t.now
  serializes : ∀ e ∈ t.s.unsent, e.1.serialize.isSome
  queue : t.s.framesOut = (pushedFrames t.log).reverse
  frames : List.Forall₂ (Carries own) carried (ipv4Pushes t.log)

theorem ledger_start (own : EthernetAddress) (ip : UInt32) : Ledger own [] (start own ip) :=
  ⟨rfl, by simp [start], rfl, fun _ => rfl, nofun, nofun, rfl, .nil⟩

def mappings (t : Trace) (msg : Option ARPMessage) : List (UInt32 × Ethernet) :=
  (msg.map fun msg => (msg.senderIpAddress,
    { ethernetAddress := msg.senderEthernetAddress, timeEthernet := t.s.time : Ethernet })).toList ++ t.s.ipEthernetMap

theorem ipv4Pushes_noted (t : Trace) (msg : Option ARPMessage) : ipv4Pushes (t.noted msg) = ipv4Pushes t.log := by
  cases msg <;> rfl

theorem pushedFrames_noted (t : Trace) (msg : Option ARPMessage) :
    pushedFrames (t.noted msg) = pushedFrames t.log := by
  cases msg <;> rfl

theorem Ledger.since_noted (hl : Ledger own carried t) (msg : Option ARPMessage) (ip : UInt32) (m : ARPMessage)
    (time : Nat) (h : lastFrom ip (t.noted msg) = some (m, time)) : time ≤ t.now := by
  cases msg with
  | none => exact hl.since ip m time h
  | some msg =>
    change (if ip = msg.senderIpAddress then some (msg, t.now) else lastFrom ip t.log) = some (m, time) at h
    split at h
    · cases h
      exact Nat.le_refl _
    · exact hl.since ip m time h

theorem Ledger.learned_noted (hl : Ledger own carried t) (msg : Option ARPMessage) (ip : UInt32) :
    (t.mappings msg).lookup ip = (lastFrom ip (t.noted msg)).map fun last =>
      { ethernetAddress := last.1.senderEthernetAddress, timeEthernet := last.2 } := by
  cases msg with
  | none => exact hl.learned ip
  | some msg =>
    change ((msg.senderIpAddress, _) :: t.s.ipEthernetMap).lookup ip =
      (if ip = msg.senderIpAddress then some (msg, t.now) else lastFrom ip t.log).map _
    rw [List.lookup_cons]
    split
    · rename_i heq
      rw [if_pos (eq_of_beq heq), hl.clock]
      rfl
    · rename_i hne
      rw [if_neg (by simpa using hne)]
      exact hl.learned ip

theorem Ledger.call {s : NetworkInterface} {carried' handed : List (InternetDatagram × UInt32)}
    (hl : Ledger own carried t) (msg : Option ARPMessage) (htime : s.time = t.s.time)
    (haddr : s.ethernetAddress = t.s.ethernetAddress) (hmap : s.ipEthernetMap = t.mappings msg)
    (hunsent : ∀ e ∈ s.unsent, e.1.serialize.isSome) (hout : s.framesOut = t.s.framesOut ++ frames)
    (hframes : List.Forall₂ (Carries own) carried' (ipv4Pushes (pushAll t.now (t.noted msg) frames))) :
    Ledger own carried' { t with s := s, log := t.logAfter msg s, handed := handed } := by
  have hlog : t.logAfter msg s = pushAll t.now (t.noted msg) frames := logAfter_eq msg hout
  refine ⟨htime.trans hl.clock, hl.bound, haddr.trans hl.address, ?_, ?_, hunsent, ?_, ?_⟩
  · intro ip
    simp only [hlog, lastFrom_pushAll, hmap, hl.learned_noted msg ip]
  · intro ip m time h
    simp only [hlog, lastFrom_pushAll] at h
    exact hl.since_noted msg ip m time h
  · simp only [hlog, pushedFrames_pushAll, pushedFrames_noted, hout, hl.queue, List.reverse_append,
      List.reverse_reverse]
  · simp only [hlog]
    exact hframes

theorem Ledger.age {hop : UInt32} {ethernet : Ethernet} (hl : Ledger own carried t)
    (h : t.s.ipEthernetMap.lookup hop = some ethernet) :
    ∃ msg time, lastFrom hop t.log = some (msg, time) ∧
      ethernet = { ethernetAddress := msg.senderEthernetAddress, timeEthernet := time } ∧
      sub64 t.s.time time = t.now - time := by
  rw [hl.learned hop] at h
  obtain ⟨⟨msg, time⟩, hlast, rfl⟩ := Option.map_eq_some_iff.mp h
  refine ⟨msg, time, hlast, rfl, ?_⟩
  -- The clock has not wrapped, so the difference is the true age.
  rw [hl.clock, sub64_eq (hl.since hop msg time hlast) hl.bound]

theorem Ledger.fresh {hop : UInt32} {past : PastTheEnd} {ethernet : Ethernet} (hl : Ledger own carried t)
    (h : t.s.mapping hop past = some ethernet) :
    ∃ msg time, lastFrom hop t.log = some (msg, time) ∧ ethernet.ethernetAddress = msg.senderEthernetAddress ∧
      t.now ≤ time + 30000 := by
  obtain ⟨hlookup, hage⟩ := mapping_eq_some_iff.mp h
  obtain ⟨msg, time, hlast, rfl, hsub⟩ := hl.age hlookup
  rw [hsub] at hage
  exact ⟨msg, time, hlast, rfl, by omega⟩

/-! ## Steps -/

/-- How a call moves datagrams; `out` are those that leave, in their order. -/
inductive Shift (t t' : Trace) : Action → List (InternetDatagram × UInt32) → Prop
  | stays {a : Action} (hunsent : t'.s.unsent = t.s.unsent) (hhanded : t'.handed = t.handed)
      (hmap : t'.s.ipEthernetMap = t.s.ipEthernetMap) (hnow : t.now ≤ t'.now) : Shift t t' a []
  | learns {frame : EthernetFrame} (msg : ARPMessage) (hmsg : t.s.accepted frame = some msg)
      (hop : msg.opcode ≠ ARPMessage.opcodeReply) (hunsent : t'.s.unsent = t.s.unsent) (hhanded : t'.handed = t.handed)
      (hmap : t'.s.ipEthernetMap = t.mappings (some msg)) (hnow : t'.now = t.now) : Shift t t' (.recv frame) []
  | queues {dgram : InternetDatagram} {hop : UInt32} {past : PastTheEnd} (hnone : t.s.mapping hop past = none)
      (hunsent : t'.s.unsent = t.s.unsent ++ [(dgram, hop)]) (hhanded : t'.handed = t.handed ++ [(dgram, hop)])
      (hmap : t'.s.ipEthernetMap = t.s.ipEthernetMap) (hnow : t'.now = t.now) : Shift t t' (.send dgram hop past) []
  | direct {dgram : InternetDatagram} {hop : UInt32} {past : PastTheEnd} {ethernet : Ethernet}
      (hsome : t.s.mapping hop past = some ethernet)
      (hunsent : t'.s.unsent = t.s.unsent) (hhanded : t'.handed = t.handed ++ [(dgram, hop)])
      (hmap : t'.s.ipEthernetMap = t.s.ipEthernetMap) (hnow : t'.now = t.now) :
      Shift t t' (.send dgram hop past) [(dgram, hop)]
  | flushes {frame : EthernetFrame} (msg : ARPMessage)
      (hunsent : t'.s.unsent = t.s.unsent.filter (·.2 ≠ msg.senderIpAddress)) (hhanded : t'.handed = t.handed)
      (hmap : t'.s.ipEthernetMap = t.mappings (some msg)) (hnow : t'.now = t.now) :
      Shift t t' (.recv frame) (t.s.unsent.filter (·.2 = msg.senderIpAddress))

theorem Ledger.send {dgram : InternetDatagram} {hop : UInt32} {past : PastTheEnd} {s : NetworkInterface}
    {handed : List (InternetDatagram × UInt32)} (hhanded : handed = t.handed ++ [(dgram, hop)])
    (hl : Ledger own carried t) (hd : dgram.serialize.isSome) (hs : Sends t.s dgram hop past s) :
    ∃ out, Ledger own (out.reverse ++ carried) { t with s := s, log := t.logAfter none s, handed := handed } ∧
      Shift t { t with s := s, log := t.logAfter none s, handed := handed } (.send dgram hop past) out := by
  have hqueued : ∀ e ∈ t.s.unsent ++ [(dgram, hop)], e.1.serialize.isSome := by
    intro e he
    rcases List.mem_append.mp he with he | he
    · exact hl.serializes e he
    · obtain rfl := List.mem_singleton.mp he
      exact hd
  cases hs with
  | direct ethernet payload hmap hpayload =>
    obtain ⟨msg, time, hlast, haddr, hage⟩ := hl.fresh hmap
    refine ⟨[(dgram, hop)], hl.call none rfl rfl rfl hl.serializes rfl ?_, .direct hmap rfl hhanded rfl rfl⟩
    refine carries_pushAll hl.frames (.cons ⟨rfl, ?_⟩ .nil)
    exact ⟨hpayload, hl.address, msg, time, hlast, haddr, hage⟩
  | waits hmap =>
    exact ⟨[], hl.call none rfl rfl rfl hqueued (List.append_nil _).symm hl.frames, .queues hmap rfl hhanded rfl rfl⟩
  | blank hmap =>
    -- The frame that was never filled in has no type, so it is not an IPv4 frame.
    refine ⟨[], hl.call none rfl rfl rfl hqueued rfl ?_, .queues hmap rfl hhanded rfl rfl⟩
    rw [ipv4Pushes_pushAll (by simp [EthernetHeader.typeIPv4])]
    exact hl.frames
  | request hmap =>
    refine ⟨[], hl.call none rfl rfl rfl hqueued rfl ?_, .queues hmap rfl hhanded rfl rfl⟩
    rw [ipv4Pushes_pushAll (by simp [requestFrame, arpFrame, EthernetHeader.typeIPv4, EthernetHeader.typeARP])]
    exact hl.frames

theorem Ledger.recv {frame : EthernetFrame} {s : NetworkInterface} (hl : Ledger own carried t)
    (hs : Receives t.s frame s) :
    ∃ out, Ledger own (out.reverse ++ carried) { t with s := s, log := t.logAfter (t.s.accepted frame) s } ∧
      Shift t { t with s := s, log := t.logAfter (t.s.accepted frame) s } (.recv frame) out := by
  cases hs with
  | ignores hnone =>
    rw [hnone]
    exact ⟨[], hl.call none rfl rfl rfl hl.serializes (List.append_nil _).symm hl.frames,
      .stays rfl rfl rfl (Nat.le_refl _)⟩
  | learns msg hmsg hop =>
    refine ⟨[], ?_, .learns msg hmsg hop rfl rfl rfl rfl⟩
    rw [hmsg]
    exact hl.call (some msg) rfl rfl rfl hl.serializes (List.append_nil _).symm hl.frames
  | replies msg hmsg hop =>
    refine ⟨[], ?_, .learns msg hmsg hop rfl rfl rfl rfl⟩
    rw [hmsg]
    refine hl.call (some msg) rfl rfl rfl hl.serializes rfl ?_
    rw [ipv4Pushes_pushAll (by simp [replyFrame, arpFrame, EthernetHeader.typeIPv4, EthernetHeader.typeARP])]
    exact hl.frames
  | resolves msg frames hmsg hop hframes =>
    -- Each frame goes to the address that the reply has just announced.
    refine ⟨t.s.unsent.filter (·.2 = msg.senderIpAddress), ?_, .flushes msg rfl rfl rfl rfl⟩
    rw [hmsg]
    refine hl.call (some msg) rfl rfl rfl (fun e he => hl.serializes e (List.mem_of_mem_filter he)) rfl ?_
    refine carries_pushAll (by rw [ipv4Pushes_noted]; exact hl.frames) ?_
    refine hframes.imp ?_
    rintro e f ⟨hip, payload, hpayload, rfl⟩
    exact ⟨rfl, hpayload, hl.address, msg, t.now, if_pos hip, rfl, Nat.le_add_right _ _⟩

theorem Ledger.tick {ms : Nat} (hl : Ledger own carried t) (hms : t.s.time + ms < 2 ^ 64) :
    Ledger own carried { t with s := t.s.tick ms, now := t.now + ms } := by
  have htime : (t.s.tick ms).time = t.s.time + ms := add64_eq hms
  rw [hl.clock] at hms htime
  exact ⟨htime, hms, hl.address, hl.learned, fun ip m time h => Nat.le_add_right_of_le (hl.since ip m time h),
    hl.serializes, hl.queue, hl.frames⟩

theorem Ledger.step {a : Action} (hl : Ledger own carried t) (hG : Orderly t a) :
    ∃ t' out, t.step a = some t' ∧ Ledger own (out.reverse ++ carried) t' ∧ Shift t t' a out := by
  cases a with
  | send dgram hop past =>
    obtain ⟨s, hs⟩ := sendDatagram_isSome t.s hop past hG
    obtain ⟨out, hl', hshift⟩ := hl.send rfl hG (sendDatagram_sends hs)
    exact ⟨_, out, by simp only [Trace.step, hs], hl', hshift⟩
  | recv frame =>
    obtain ⟨s, result, hs⟩ := recvFrame_isSome hG hl.serializes
    obtain ⟨out, hl', hshift⟩ := hl.recv (recvFrame_receives hs)
    exact ⟨_, out, by simp only [Trace.step, hs], hl', hshift⟩
  | tick ms => exact ⟨_, [], rfl, hl.tick hG, .stays rfl rfl rfl (Nat.le_add_right _ _)⟩

theorem Shift.perm {a : Action} {out : List (InternetDatagram × UInt32)} (hshift : Shift t t' a out)
    (h : (carried ++ t.s.unsent).Perm t.handed) :
    (out.reverse ++ carried ++ t'.s.unsent).Perm t'.handed := by
  cases hshift with
  | stays hunsent hhanded | learns _ _ _ hunsent hhanded =>
    rw [hunsent, hhanded]
    exact h
  | queues _ hunsent hhanded =>
    rw [hunsent, hhanded, List.reverse_nil, List.nil_append, ← List.append_assoc]
    exact h.append_right _
  | direct _ hunsent hhanded =>
    rw [hunsent, hhanded, List.reverse_singleton, List.append_assoc]
    exact List.perm_append_comm.trans (h.append_right _)
  | flushes msg hunsent hhanded =>
    -- The entries of the sender leave, the others stay.
    have hsplit : (t.s.unsent.filter (·.2 = msg.senderIpAddress) ++
        t.s.unsent.filter (·.2 ≠ msg.senderIpAddress)).Perm t.s.unsent := by
      simpa using List.filter_append_perm (fun e : InternetDatagram × UInt32 => e.2 = msg.senderIpAddress) t.s.unsent
    have hcomm : ((t.s.unsent.filter (·.2 = msg.senderIpAddress)).reverse ++ carried).Perm
        (carried ++ t.s.unsent.filter (·.2 = msg.senderIpAddress)) :=
      ((List.reverse_perm _).append_right _).trans List.perm_append_comm
    rw [hunsent, hhanded]
    refine ((hcomm.append_right _).trans ?_).trans h
    rw [List.append_assoc]
    exact hsplit.append_left _

/-- The first announcement is used again once the clock has come round. -/
theorem stale_mapping_used : ∃ t frame,
    run Trace.step hostStart [recvHop ARPMessage.opcodeReply, .tick (2 ^ 64 - 1), .tick 1, sendHop] = some t ∧
      t.log = [.pushed frame (2 ^ 64), .accepted (hopMessage ARPMessage.opcodeReply) 0] ∧
      frame.header.type = EthernetHeader.typeIPv4 ∧
      ¬ Carries hostAddress (emptyDatagram, hopIp)
        ⟨frame, 2 ^ 64, [.accepted (hopMessage ARPMessage.opcodeReply) 0]⟩ := by
  have hrun : ∃ t, run Trace.step hostStart [recvHop ARPMessage.opcodeReply, .tick (2 ^ 64 - 1), .tick 1, sendHop] = some t ∧
      t.log = [.pushed (ipv4Frame hostAddress hopAddress ((emptyDatagram.serialize).getD [])) (2 ^ 64),
        .accepted (hopMessage ARPMessage.opcodeReply) 0] := by decide +kernel
  obtain ⟨t, ht, hlog⟩ := hrun
  refine ⟨t, _, ht, hlog, rfl, ?_⟩
  rintro ⟨_, _, msg, time, hlast, _, hage⟩
  have hzero : (hopMessage ARPMessage.opcodeReply, 0) = (msg, time) := Option.some.inj hlast
  cases hzero
  exact absurd hage (by decide)

/-- While the clock does not wrap, every datagram handed over is in exactly one IPv4 frame or once in
`unsent`, there is no other IPv4 frame, and each is addressed as its next hop announced last. -/
theorem datagrams_accounted (own : EthernetAddress) (ip : UInt32) (actions : List Action)
    (hG : AllSteps Trace.step Orderly (start own ip) actions) :
    ∃ t, run Trace.step (start own ip) actions = some t ∧ t.s.framesOut = (pushedFrames t.log).reverse ∧
      ∃ carried, List.Forall₂ (Carries own) carried (ipv4Pushes t.log) ∧ (carried ++ t.s.unsent).Perm t.handed := by
  have hrun := exists_run_inv (G := Orderly)
    (I := fun t => ∃ carried, Ledger own carried t ∧ (carried ++ t.s.unsent).Perm t.handed) (by
      rintro t a ⟨carried, hl, hperm⟩ hG
      obtain ⟨t', out, hstep, hl', hshift⟩ := hl.step hG
      exact ⟨t', hstep, _, hl', hshift.perm hperm⟩) ⟨[], ledger_start own ip, List.Perm.refl _⟩ hG
  obtain ⟨t, ht, carried, hl, hperm⟩ := hrun
  exact ⟨t, ht, hl.queue, carried, hl.frames, hperm⟩

theorem datagrams_accounted_two : ∃ t,
    run Trace.step hostStart [sendHop, recvHop ARPMessage.opcodeReply, .tick 30000, sendHop] = some t ∧
      t.s.framesOut = (pushedFrames t.log).reverse ∧ ∃ carried,
        List.Forall₂ (Carries hostAddress) carried (ipv4Pushes t.log) ∧ (carried ++ t.s.unsent).Perm t.handed :=
  datagrams_accounted hostAddress hostIp [sendHop, recvHop ARPMessage.opcodeReply, .tick 30000, sendHop]
    (by decide +kernel)

end Trace

end Sponge
