import Sponge.Interface.Trace

/-!
# ARP requests

`send_datagram` looks at the first request in the list that it made for the next hop.
An expired one is never taken out before a reply comes, so once a request has expired,
every further datagram for that hop is followed by a new request.
-/

namespace Sponge

open Word64 Run

namespace EthernetFrame

/-- The address that the frame asks for, when it is an ARP request. -/
def requestedIp (frame : EthernetFrame) : Option UInt32 :=
  if frame.header.type = EthernetHeader.typeARP then
    match frame.payload.toBuffer with
    | none => none
    | some buffer =>
      let (result, msg) := ARPMessage.parse {} buffer
      if result = .noError ∧ msg.opcode = ARPMessage.opcodeRequest then some msg.targetIpAddress else none
  else none

theorem requestedIp_of_type {frame : EthernetFrame} (h : frame.header.type ≠ EthernetHeader.typeARP) :
    frame.requestedIp = none := if_neg h

theorem requestedIp_arpFrame {msg : ARPMessage} (src dst : EthernetAddress) (h : msg.supported = true) :
    (NetworkInterface.arpFrame src dst (msg.types ++ msg.addresses)).requestedIp =
      if msg.opcode = ARPMessage.opcodeRequest then some msg.targetIpAddress else none := by
  unfold requestedIp NetworkInterface.arpFrame
  simp only [if_true, BufferList.toBuffer, ARPMessage.parse_serialize h, true_and]

end EthernetFrame

namespace Event

/-- An accepted ARP reply from the address. -/
def Replies (ip : UInt32) : Event → Prop
  | .accepted msg _ => msg.opcode = ARPMessage.opcodeReply ∧ msg.senderIpAddress = ip
  | .pushed _ _ => False

instance (ip : UInt32) : (e : Event) → Decidable (e.Replies ip)
  | .accepted _ _ => inferInstanceAs (Decidable (_ ∧ _))
  | .pushed _ _ => .isFalse id

/-- The time of an ARP request for the address. -/
def requestTime (ip : UInt32) : Event → Option Nat
  | .accepted _ _ => none
  | .pushed frame time => if frame.requestedIp = some ip then some time else none

end Event

namespace Trace

open NetworkInterface

/-- The times of the requests for `ip` that no reply has followed. -/
def openRequests (ip : UInt32) : List Event → List Nat
  | [] => []
  | e :: log => if e.Replies ip then [] else (e.requestTime ip).toList ++ openRequests ip log

/-- Every request for `ip` comes more than five seconds after those still open. -/
def RateLimited (ip : UInt32) : List Event → Prop
  | [] => True
  | e :: log => (∀ t₂, e.requestTime ip = some t₂ → ∀ t₁ ∈ openRequests ip log, t₁ + 5000 < t₂) ∧ RateLimited ip log

/-- When the first request for the hop has expired, then so have all of them. -/
def ExpireTogether (t : Trace) : Action → Prop
  | .send _ hop past => t.s.mapping hop past = none →
      (t.s.arpReq.find? (·.arpAddr = hop)).all (fun a => 5000 < sub64 t.s.time a.timeArp) = true →
      ∀ a ∈ t.s.arpReq, a.arpAddr = hop → 5000 < sub64 t.s.time a.timeArp
  | .recv _ => True
  | .tick _ => True

instance (t : Trace) : (a : Action) → Decidable (ExpireTogether t a)
  | .send _ _ _ => inferInstanceAs (Decidable (_ → _))
  | .recv _ | .tick _ => .isTrue trivial

variable {t t' : Trace} {ip : UInt32} {log : List Event} {frames : List EthernetFrame}

/-! ## Logs -/

theorem mem_openRequests {between before : List Event} {frame : EthernetFrame} {t₁ : Nat}
    (hframe : frame.requestedIp = some ip) (hno : ∀ e ∈ between, ¬ e.Replies ip) :
    t₁ ∈ openRequests ip (between ++ .pushed frame t₁ :: before) := by
  induction between with
  | nil => simp [openRequests, Event.Replies, Event.requestTime, hframe]
  | cons e between ih =>
    rw [List.cons_append, openRequests, if_neg (hno e List.mem_cons_self)]
    exact List.mem_append_right _ (ih fun e' he' => hno e' (List.mem_cons_of_mem _ he'))

theorem RateLimited.of_append {after : List Event} (h : RateLimited ip (after ++ log)) : RateLimited ip log := by
  induction after with
  | nil => exact h
  | cons e after ih => exact ih h.2

theorem RateLimited.apart {after between before : List Event} {f g : EthernetFrame} {t₁ t₂ : Nat}
    (h : RateLimited ip (after ++ .pushed g t₂ :: (between ++ .pushed f t₁ :: before)))
    (hf : f.requestedIp = some ip) (hg : g.requestedIp = some ip) (hno : ∀ e ∈ between, ¬ e.Replies ip) :
    t₁ + 5000 < t₂ :=
  h.of_append.1 t₂ (by simp [Event.requestTime, hg]) t₁ (mem_openRequests hf hno)

theorem openRequests_pushAll (now : Nat) (h : ∀ f ∈ frames, f.requestedIp ≠ some ip) :
    openRequests ip (pushAll now log frames) = openRequests ip log := by
  induction frames generalizing log with
  | nil => rfl
  | cons f frames ih =>
    have hpush : openRequests ip (.pushed f now :: log) = openRequests ip log := by
      simp [openRequests, Event.Replies, Event.requestTime, h f List.mem_cons_self]
    exact (ih fun g hg => h g (List.mem_cons_of_mem _ hg)).trans hpush

theorem RateLimited.pushAll (now : Nat) (hlog : RateLimited ip log) (h : ∀ f ∈ frames, f.requestedIp ≠ some ip) :
    RateLimited ip (pushAll now log frames) := by
  induction frames generalizing log with
  | nil => exact hlog
  | cons f frames ih =>
    change RateLimited ip (Trace.pushAll now (.pushed f now :: log) frames)
    refine ih ⟨?_, hlog⟩ fun g hg => h g (List.mem_cons_of_mem _ hg)
    intro t₂ ht₂
    simp [Event.requestTime, h f List.mem_cons_self] at ht₂

/-! ## The invariant -/

structure RequestInv (ip : UInt32) (t : Trace) : Prop where
  clock : t.s.time = t.now % 2 ^ 64
  listed : ∀ t₁ ∈ openRequests ip t.log, t₁ ≤ t.now ∧ ∃ a ∈ t.s.arpReq, a.arpAddr = ip ∧ a.timeArp = t₁ % 2 ^ 64
  limited : RateLimited ip t.log

theorem openRequests_noted (t : Trace) (msg : Option ARPMessage) {t₁ : Nat} (h : t₁ ∈ openRequests ip (t.noted msg)) :
    t₁ ∈ openRequests ip t.log := by
  cases msg with
  | none => exact h
  | some m =>
    change t₁ ∈ if (Event.accepted m t.now).Replies ip then [] else openRequests ip t.log at h
    split at h
    · cases h
    · exact h

theorem RateLimited.noted (h : RateLimited ip t.log) (msg : Option ARPMessage) : RateLimited ip (t.noted msg) := by
  cases msg with
  | none => exact h
  | some m => exact ⟨by rintro _ ⟨⟩, h⟩

theorem RequestInv.quiet {s : NetworkInterface} {handed : List (InternetDatagram × UInt32)}
    {msg : Option ARPMessage} (hinv : RequestInv ip t) (htime : s.time = t.s.time)
    (hout : s.framesOut = t.s.framesOut ++ frames) (hframes : ∀ f ∈ frames, f.requestedIp ≠ some ip)
    (hkeep : openRequests ip (t.noted msg) ≠ [] → ∀ a ∈ t.s.arpReq, a.arpAddr = ip → a ∈ s.arpReq) :
    RequestInv ip { t with s := s, log := t.logAfter msg s, handed := handed } := by
  refine ⟨htime.trans hinv.clock, ?_, ?_⟩
  · simp only [logAfter_eq msg hout, openRequests_pushAll _ hframes]
    intro t₁ ht₁
    obtain ⟨hle, a, ha, haddr, htime₁⟩ := hinv.listed t₁ (openRequests_noted t msg ht₁)
    exact ⟨hle, a, hkeep (List.ne_nil_of_mem ht₁) a ha haddr, haddr, htime₁⟩
  · simp only [logAfter_eq msg hout]
    exact (hinv.limited.noted msg).pushAll _ hframes

theorem requestedIp_requestFrame (n : NetworkInterface) (hop : UInt32) :
    (n.requestFrame hop).requestedIp = some hop := by
  unfold requestFrame
  rw [EthernetFrame.requestedIp_arpFrame _ _ (by rfl)]
  rfl

theorem requestedIp_replyFrame (n : NetworkInterface) (header : EthernetHeader) (msg : ARPMessage) :
    (n.replyFrame header msg).requestedIp = none := by
  unfold replyFrame
  rw [EthernetFrame.requestedIp_arpFrame _ _ (by rfl)]
  rfl

theorem requestedIp_ipv4Frame (src dst : EthernetAddress) (payload : BufferList) :
    (ipv4Frame src dst payload).requestedIp = none :=
  EthernetFrame.requestedIp_of_type (by simp [ipv4Frame, EthernetHeader.typeIPv4, EthernetHeader.typeARP])

theorem RequestInv.request {hop : UInt32} {unsent handed : List (InternetDatagram × UInt32)}
    (hinv : RequestInv ip t) (hexp : ∀ a ∈ t.s.arpReq, a.arpAddr = hop → 5000 < sub64 t.s.time a.timeArp) :
    RequestInv ip { t with
      s := { t.s with
        framesOut := t.s.framesOut ++ [t.s.requestFrame hop]
        unsent := unsent
        arpReq := t.s.arpReq ++ [{ arpAddr := hop, timeArp := t.s.time }] }
      log := .pushed (t.s.requestFrame hop) t.now :: t.log
      handed := handed } := by
  refine ⟨hinv.clock, ?_, ?_, hinv.limited⟩
  · intro t₁ ht₁
    simp only [openRequests, Event.Replies, if_false, Event.requestTime, requestedIp_requestFrame, Option.some.injEq,
      List.mem_append] at ht₁
    rcases ht₁ with hnew | hold
    · split at hnew
      · rename_i heq
        obtain rfl : t₁ = t.now := by simpa using hnew
        exact ⟨Nat.le_refl _, _, List.mem_append_right _ List.mem_cons_self, heq, hinv.clock⟩
      · cases hnew
    · obtain ⟨hle, a, ha, haddr, htime⟩ := hinv.listed t₁ hold
      exact ⟨hle, a, List.mem_append_left _ ha, haddr, htime⟩
  · intro t₂ ht₂ t₁ ht₁
    simp only [Event.requestTime, requestedIp_requestFrame, Option.some.injEq] at ht₂
    split at ht₂
    · rename_i heq
      cases ht₂
      obtain ⟨hle, a, ha, haddr, htime⟩ := hinv.listed t₁ ht₁
      have hold := hexp a ha (haddr.trans heq.symm)
      -- Modulo 2 ^ 64 the age can only come out smaller than it is.
      rw [hinv.clock, htime] at hold
      unfold sub64 at hold
      omega
    · cases ht₂

theorem RequestInv.send {dgram : InternetDatagram} {hop : UInt32} {past : PastTheEnd} {s : NetworkInterface}
    {handed : List (InternetDatagram × UInt32)} (hinv : RequestInv ip t)
    (hG : ExpireTogether t (.send dgram hop past)) (hs : Sends t.s dgram hop past s) :
    RequestInv ip { t with s := s, log := t.logAfter none s, handed := handed } := by
  cases hs with
  | direct ethernet payload =>
    refine hinv.quiet rfl rfl ?_ fun _ a ha _ => ha
    simp [requestedIp_ipv4Frame]
  | waits => exact hinv.quiet rfl (List.append_nil _).symm (by simp) fun _ a ha _ => ha
  | blank =>
    refine hinv.quiet rfl rfl ?_ fun _ a ha _ => ha
    intro f hf
    obtain rfl := List.mem_singleton.mp hf
    rw [EthernetFrame.requestedIp_of_type (by simp [EthernetHeader.typeARP])]
    exact nofun
  | request hmap hexpired =>
    -- The search stops at the first request for the hop; by the guard the others have expired with it.
    have hall : ∀ a ∈ t.s.arpReq, a.arpAddr = hop → 5000 < sub64 t.s.time a.timeArp := by
      refine hG hmap ?_
      rw [Option.all_eq_true]
      intro a ha
      exact decide_eq_true (hexpired a ha)
    rw [logAfter_eq none rfl]
    exact hinv.request hall

theorem RequestInv.recv {frame : EthernetFrame} {s : NetworkInterface} (hinv : RequestInv ip t)
    (hs : Receives t.s frame s) :
    RequestInv ip { t with s := s, log := t.logAfter (t.s.accepted frame) s } := by
  cases hs with
  | ignores | learns => exact hinv.quiet rfl (List.append_nil _).symm (by simp) fun _ a ha _ => ha
  | replies msg =>
    refine hinv.quiet rfl rfl ?_ fun _ a ha _ => ha
    simp [requestedIp_replyFrame]
  | resolves msg frames hmsg hop hframes =>
    refine hinv.quiet rfl rfl ?_ ?_
    · intro f hf
      obtain ⟨payload, rfl⟩ := exists_payload_of_carried hframes hf
      simp [requestedIp_ipv4Frame]
    · -- The entries of the sender go, and its requests are no longer open.
      intro hopen a ha haddr
      rw [hmsg] at hopen
      refine List.mem_filter.mpr ⟨ha, decide_eq_true ?_⟩
      intro hsender
      apply hopen
      simp [noted, openRequests, Event.Replies, hop, ← hsender, haddr]

theorem RequestInv.tick (hinv : RequestInv ip t) (ms : Nat) :
    RequestInv ip { t with s := t.s.tick ms, now := t.now + ms } := by
  refine ⟨?_, fun t₁ ht₁ => ?_, hinv.limited⟩
  · simp only [NetworkInterface.tick, add64, hinv.clock]
    omega
  · obtain ⟨hle, ha⟩ := hinv.listed t₁ ht₁
    exact ⟨Nat.le_add_right_of_le hle, ha⟩

theorem RequestInv.step {a : Action} (hinv : RequestInv ip t) (hG : ExpireTogether t a) (h : t.step a = some t') :
    RequestInv ip t' := by
  cases a with
  | send dgram hop past =>
    obtain ⟨s, hs, rfl⟩ := step_send h
    exact hinv.send hG hs
  | recv frame =>
    obtain ⟨s, hs, rfl⟩ := step_recv h
    exact hinv.recv hs
  | tick ms =>
    cases h
    exact hinv.tick ms

theorem requestInv_start (ip : UInt32) (ethernetAddress : EthernetAddress) (ipAddress : UInt32) :
    RequestInv ip (start ethernetAddress ipAddress) :=
  ⟨rfl, nofun, trivial⟩

def requestHop : EthernetFrame := hostStart.s.requestFrame hopIp

/-- The request at 5001 ms is followed by another one at once: the search finds the expired one. -/
theorem expired_request_is_found_again : ∃ t f,
    run step hostStart [sendHop, .tick 5001, sendHop, sendHop] = some t ∧
      t.log = [.pushed f 5001, .pushed f 5001, .pushed f 0] ∧ f.requestedIp = some hopIp := by
  have hrun : ∃ t, run step hostStart [sendHop, .tick 5001, sendHop, sendHop] = some t ∧
      t.log = [.pushed requestHop 5001, .pushed requestHop 5001, .pushed requestHop 0] := by
    decide +kernel
  obtain ⟨t, ht, hlog⟩ := hrun
  exact ⟨t, requestHop, ht, hlog, requestedIp_requestFrame _ _⟩

/-- While the requests for a hop expire together, two requests for it with no reply from it
between them are more than five seconds apart. -/
theorem requests_apart (ethernetAddress : EthernetAddress) (ipAddress ip : UInt32) (actions : List Action) (t : Trace)
    (hG : AllSteps step ExpireTogether (start ethernetAddress ipAddress) actions)
    (hrun : run step (start ethernetAddress ipAddress) actions = some t)
    (after between before : List Event) (f g : EthernetFrame) (t₁ t₂ : Nat)
    (hlog : t.log = after ++ .pushed g t₂ :: (between ++ .pushed f t₁ :: before))
    (hf : f.requestedIp = some ip) (hg : g.requestedIp = some ip) (hno : ∀ e ∈ between, ¬ e.Replies ip) :
    t₁ + 5000 < t₂ := by
  have hinv : RequestInv ip t := run_inv_of_allSteps (fun _ _ _ hinv hG h => hinv.step hG h)
    (requestInv_start ip ethernetAddress ipAddress) hG hrun
  have hlimited := hinv.limited
  rw [hlog] at hlimited
  exact hlimited.apart hf hg hno

theorem requests_apart_two : ∃ t, run step hostStart [sendHop, .tick 5001, sendHop] = some t ∧
    t.log = [.pushed requestHop 5001, .pushed requestHop 0] ∧ 0 + 5000 < 5001 := by
  have hrun : ∃ t, run step hostStart [sendHop, .tick 5001, sendHop] = some t ∧
      t.log = [.pushed requestHop 5001, .pushed requestHop 0] := by decide +kernel
  obtain ⟨t, ht, hlog⟩ := hrun
  have hrequest : requestHop.requestedIp = some hopIp := requestedIp_requestFrame _ _
  refine ⟨t, ht, hlog, ?_⟩
  exact requests_apart hostAddress hostIp hopIp [sendHop, .tick 5001, sendHop] t (by decide +kernel) ht [] [] []
    requestHop requestHop 0 5001 hlog hrequest hrequest nofun

end Trace

end Sponge
