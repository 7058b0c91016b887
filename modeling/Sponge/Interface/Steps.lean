import Sponge.Interface.Model

/-!
# What the calls of the network interface do

Each call is inverted once. The frames it pushes and the fields it changes are
written out in every case, so that invariants do not look at the functions again.
-/

namespace Sponge

open Word64

namespace NetworkInterface

variable {n n' : NetworkInterface} {dgram : InternetDatagram} {hop : UInt32} {past : PastTheEnd} {msg : ARPMessage}
variable {header : EthernetHeader} {frame : EthernetFrame} {unsent : List (InternetDatagram × UInt32)}

theorem mapping_eq_some_iff {ethernet : Ethernet} : n.mapping hop past = some ethernet ↔
    n.ipEthernetMap.lookup hop = some ethernet ∧ sub64 n.time ethernet.timeEthernet ≤ 30000 := by
  unfold mapping
  cases hiter : n.ipEthernetMap.lookup hop with
  | none => simp
  | some e =>
    simp only [Option.map_some, Option.getD_some, reduceCtorEq, or_false, Option.some.injEq]
    split
    · constructor
      · rintro ⟨⟩
      · rintro ⟨rfl, h⟩
        omega
    · constructor
      · rintro ⟨⟩
        exact ⟨rfl, by omega⟩
      · rintro ⟨rfl, _⟩
        rfl

def requestFrame (n : NetworkInterface) (hop : UInt32) : EthernetFrame :=
  arpFrame n.ethernetAddress ethernetBroadcast ((n.requestMessage hop).types ++ (n.requestMessage hop).addresses)

def replyFrame (n : NetworkInterface) (header : EthernetHeader) (msg : ARPMessage) : EthernetFrame :=
  arpFrame n.ethernetAddress header.src ((n.replyMessage msg).types ++ (n.replyMessage msg).addresses)

theorem sendRequest_eq (n : NetworkInterface) (hop : UInt32) : n.sendRequest hop = some { n with
    framesOut := n.framesOut ++ [n.requestFrame hop]
    arpReq := n.arpReq ++ [{ arpAddr := hop, timeArp := n.time }] } := by
  unfold sendRequest
  rw [ARPMessage.serialize_of_supported (by rfl)]
  rfl

theorem sendReply_eq (n : NetworkInterface) (header : EthernetHeader) (msg : ARPMessage) :
    n.sendReply header msg = some (n.push (n.replyFrame header msg)) := by
  unfold sendReply
  rw [ARPMessage.serialize_of_supported (by rfl)]
  rfl

/-- The ways in which `send_datagram` can go. -/
inductive Sends (n : NetworkInterface) (dgram : InternetDatagram) (hop : UInt32) (past : PastTheEnd) :
    NetworkInterface → Prop
  | direct (ethernet : Ethernet) (payload : BufferList) (hmap : n.mapping hop past = some ethernet)
      (hpayload : dgram.serialize = some payload) :
      Sends n dgram hop past (n.push (ipv4Frame n.ethernetAddress ethernet.ethernetAddress payload))
  | waits (hmap : n.mapping hop past = none) :
      Sends n dgram hop past { n with unsent := n.unsent ++ [(dgram, hop)] }
  | blank (hmap : n.mapping hop past = none) :
      Sends n dgram hop past { n with
        framesOut := n.framesOut ++ [{ header := { src := n.ethernetAddress } }]
        unsent := n.unsent ++ [(dgram, hop)] }
  | request (hmap : n.mapping hop past = none)
      (hexpired : ∀ a, n.arpReq.find? (·.arpAddr = hop) = some a → 5000 < sub64 n.time a.timeArp) :
      Sends n dgram hop past { n with
        framesOut := n.framesOut ++ [n.requestFrame hop]
        unsent := n.unsent ++ [(dgram, hop)]
        arpReq := n.arpReq ++ [{ arpAddr := hop, timeArp := n.time }] }

theorem sendDatagram_sends (h : n.sendDatagram dgram hop past = some n') : Sends n dgram hop past n' := by
  unfold sendDatagram at h
  split at h
  · rename_i hmap
    cases hfind : n.arpReq.find? (·.arpAddr = hop) with
    | none =>
      -- No request is listed: the time is read through `end()` and may look recent or not.
      simp only [hfind, Option.isSome_none, Bool.false_eq_true, if_false, sendRequest_eq] at h
      split at h
      · cases h
        exact .blank hmap
      · cases h
        exact .request hmap (by simp [hfind])
    | some a =>
      simp only [hfind, Option.map_some, Option.getD_some, Option.isSome_some, if_true, sendRequest_eq] at h
      split at h
      · cases h
        -- The request is at most five seconds old.
        exact .waits hmap
      · rename_i hold
        cases h
        refine .request hmap fun b hb => ?_
        rw [hfind] at hb
        cases hb
        omega
  · rename_i ethernet hmap
    cases hpayload : dgram.serialize with
    | none => simp [hpayload] at h
    | some payload =>
      simp only [hpayload] at h
      cases h
      exact .direct ethernet payload hmap hpayload

theorem sendDatagram_isSome (n : NetworkInterface) (hop : UInt32) (past : PastTheEnd) (h : dgram.serialize.isSome) :
    ∃ n', n.sendDatagram dgram hop past = some n' := by
  obtain ⟨payload, hpayload⟩ := Option.isSome_iff_exists.mp h
  unfold sendDatagram
  split
  · simp only [sendRequest_eq]
    split
    · split
      · exact ⟨_, rfl⟩
      · exact ⟨_, rfl⟩
    · exact ⟨_, rfl⟩
  · rw [hpayload]
    exact ⟨_, rfl⟩

/-- The entry waits for the sender of the message, and the frame carries it there. -/
def Carried (src : EthernetAddress) (msg : ARPMessage) (entry : InternetDatagram × UInt32) (frame : EthernetFrame) :
    Prop :=
  entry.2 = msg.senderIpAddress ∧
    ∃ payload, entry.1.serialize = some payload ∧ frame = ipv4Frame src msg.senderEthernetAddress payload

theorem exists_payload_of_carried {src : EthernetAddress} {entries : List (InternetDatagram × UInt32)}
    {frames : List EthernetFrame} (h : List.Forall₂ (Carried src msg) entries frames) (hf : frame ∈ frames) :
    ∃ payload, frame = ipv4Frame src msg.senderEthernetAddress payload := by
  induction h with
  | nil => cases hf
  | cons hcarried _ ih =>
    rcases List.mem_cons.mp hf with rfl | hf
    · obtain ⟨_, payload, _, rfl⟩ := hcarried
      exact ⟨payload, rfl⟩
    · exact ih hf

theorem flushUnsent_spec {src : EthernetAddress} {frames : List EthernetFrame}
    {kept : List (InternetDatagram × UInt32)} (h : flushUnsent src msg unsent = some (frames, kept)) :
    kept = unsent.filter (·.2 ≠ msg.senderIpAddress) ∧
      List.Forall₂ (Carried src msg) (unsent.filter (·.2 = msg.senderIpAddress)) frames := by
  induction unsent generalizing frames kept with
  | nil =>
    cases h
    exact ⟨rfl, .nil⟩
  | cons entry rest ih =>
    unfold flushUnsent at h
    split at h
    · rename_i hip
      simp only [Option.bind_eq_bind, Option.bind_eq_some_iff] at h
      obtain ⟨payload, hpayload, ⟨fs, ks⟩, hrest, hret⟩ := h
      cases hret
      obtain ⟨hkept, hframes⟩ := ih hrest
      -- An entry for the sender of the reply leaves in a frame; the next branch keeps its entry.
      rw [List.filter_cons_of_neg (by simp [hip]), List.filter_cons_of_pos (by simp [hip])]
      exact ⟨hkept, .cons ⟨hip, payload, hpayload, rfl⟩ hframes⟩
    · rename_i hip
      simp only [Option.bind_eq_bind, Option.bind_eq_some_iff] at h
      obtain ⟨⟨fs, ks⟩, hrest, hret⟩ := h
      cases hret
      obtain ⟨hkept, hframes⟩ := ih hrest
      rw [List.filter_cons_of_pos (by simp [hip]), List.filter_cons_of_neg (by simp [hip])]
      exact ⟨by rw [hkept], hframes⟩

theorem flushUnsent_isSome (src : EthernetAddress) (msg : ARPMessage) (h : ∀ e ∈ unsent, e.1.serialize.isSome) :
    ∃ frames kept, flushUnsent src msg unsent = some (frames, kept) := by
  induction unsent with
  | nil => exact ⟨[], [], rfl⟩
  | cons entry rest ih =>
    obtain ⟨payload, hpayload⟩ := Option.isSome_iff_exists.mp (h entry List.mem_cons_self)
    obtain ⟨frames, kept, hrest⟩ := ih fun e he => h e (List.mem_cons_of_mem _ he)
    unfold flushUnsent
    rw [hpayload, hrest]
    split
    · exact ⟨_, _, rfl⟩
    · exact ⟨_, _, rfl⟩

/-- The ARP message that `recv_frame` takes from the frame and learns from. -/
def accepted (n : NetworkInterface) (frame : EthernetFrame) : Option ARPMessage :=
  if (frame.header.dst = ethernetBroadcast ∨ frame.header.dst = n.ethernetAddress) ∧
      frame.header.type = EthernetHeader.typeARP then
    match frame.payload.toBuffer with
    | none => none
    | some buffer =>
      let (result, msg) := ARPMessage.parse {} buffer
      if result = .noError then some msg else none
  else none

/-- The ways in which `recv_frame` can go. -/
inductive Receives (n : NetworkInterface) (frame : EthernetFrame) : NetworkInterface → Prop
  | ignores (hnone : n.accepted frame = none) : Receives n frame n
  | learns (msg : ARPMessage) (hmsg : n.accepted frame = some msg) (hop : msg.opcode ≠ ARPMessage.opcodeReply) :
      Receives n frame (n.learn msg)
  | replies (msg : ARPMessage) (hmsg : n.accepted frame = some msg) (hop : msg.opcode ≠ ARPMessage.opcodeReply) :
      Receives n frame ((n.learn msg).push (n.replyFrame frame.header msg))
  | resolves (msg : ARPMessage) (frames : List EthernetFrame) (hmsg : n.accepted frame = some msg)
      (hop : msg.opcode = ARPMessage.opcodeReply)
      (hframes : List.Forall₂ (Carried n.ethernetAddress msg) (n.unsent.filter (·.2 = msg.senderIpAddress)) frames) :
      Receives n frame { n.learn msg with
        framesOut := n.framesOut ++ frames
        unsent := n.unsent.filter (·.2 ≠ msg.senderIpAddress)
        arpReq := n.arpReq.filter (·.arpAddr ≠ msg.senderIpAddress) }

theorem recvARP_receives (hmsg : n.accepted frame = some msg) (h : n.recvARP frame.header msg = some n') :
    Receives n frame n' := by
  unfold recvARP at h
  simp only [sendReply_eq] at h
  by_cases hreply : msg.opcode = ARPMessage.opcodeReply
  · -- A reply is never a request, whoever it is for.
    have hreq : ¬ (msg.opcode = ARPMessage.opcodeRequest ∧ msg.targetIpAddress = (n.learn msg).ipAddress) := by
      rintro ⟨hreq, _⟩
      rw [hreply] at hreq
      exact absurd hreq (by decide)
    simp only [if_neg hreq, if_pos hreply, Option.bind_eq_bind, Option.bind_some] at h
    unfold resolve at h
    simp only [Option.bind_eq_bind, Option.bind_eq_some_iff] at h
    obtain ⟨⟨frames, kept⟩, hflush, hret⟩ := h
    obtain ⟨rfl, hframes⟩ := flushUnsent_spec hflush
    cases hret
    exact .resolves msg frames hmsg hreply hframes
  · simp only [hreply, if_false] at h
    split at h
    · cases h
      exact .replies msg hmsg hreply
    · cases h
      exact .learns msg hmsg hreply

theorem accepted_of_type (h : frame.header.type ≠ EthernetHeader.typeARP) : n.accepted frame = none :=
  if_neg fun hacc => h hacc.2

theorem accepted_of_buffer {buffer : Buffer}
    (hdst : ¬ (frame.header.dst ≠ ethernetBroadcast ∧ frame.header.dst ≠ n.ethernetAddress))
    (htype : frame.header.type = EthernetHeader.typeARP) (hbuffer : frame.payload.toBuffer = some buffer) :
    n.accepted frame = if (ARPMessage.parse {} buffer).1 = .noError then some (ARPMessage.parse {} buffer).2
      else none := by
  unfold accepted
  rw [if_pos ⟨by tauto, htype⟩, hbuffer]

theorem recvFrame_receives {result : Option InternetDatagram} (h : n.recvFrame frame = some (n', result)) :
    Receives n frame n' := by
  unfold recvFrame at h
  split at h
  · rename_i hdst
    cases h
    exact .ignores (by simp [accepted, hdst])
  · rename_i hdst
    split at h
    · rename_i htype
      simp only [Option.bind_eq_bind, Option.bind_eq_some_iff] at h
      -- A datagram for the host above changes nothing in the interface.
      obtain ⟨_, _, hret⟩ := h
      cases hret
      exact .ignores (accepted_of_type (by rw [htype]; decide))
    · split at h
      · rename_i htype
        simp only [Option.bind_eq_bind, Option.bind_eq_some_iff] at h
        obtain ⟨buffer, hbuffer, h⟩ := h
        have hacc := accepted_of_buffer hdst htype hbuffer
        split at h
        · rename_i hbad
          cases h
          exact .ignores (by rw [hacc, if_neg hbad])
        · rename_i hgood
          rw [if_pos (not_not.mp hgood)] at hacc
          simp only [Option.bind_eq_some_iff] at h
          obtain ⟨n₁, hrecv, hret⟩ := h
          cases hret
          exact recvARP_receives hacc hrecv
      · rename_i htype
        cases h
        exact .ignores (accepted_of_type htype)

theorem recvARP_isSome (header : EthernetHeader) (msg : ARPMessage) (hunsent : ∀ e ∈ n.unsent, e.1.serialize.isSome) :
    ∃ n', n.recvARP header msg = some n' := by
  obtain ⟨frames, kept, hflush⟩ := flushUnsent_isSome n.ethernetAddress msg hunsent
  have hresolve : ∀ n₁ : NetworkInterface, n₁.ethernetAddress = n.ethernetAddress → n₁.unsent = n.unsent →
      ∃ n', (if msg.opcode = ARPMessage.opcodeReply then n₁.resolve msg else some n₁) = some n' := by
    intro n₁ haddr hunsent₁
    split
    · unfold resolve
      rw [haddr, hunsent₁, hflush]
      exact ⟨_, rfl⟩
    · exact ⟨_, rfl⟩
  unfold recvARP
  simp only [sendReply_eq]
  split
  · exact hresolve _ rfl rfl
  · exact hresolve _ rfl rfl

theorem recvFrame_isSome (hpayload : frame.payload.toBuffer.isSome)
    (hunsent : ∀ e ∈ n.unsent, e.1.serialize.isSome) : ∃ n' result, n.recvFrame frame = some (n', result) := by
  obtain ⟨buffer, hbuffer⟩ := Option.isSome_iff_exists.mp hpayload
  unfold recvFrame
  rw [hbuffer]
  split
  · exact ⟨_, _, rfl⟩
  · split
    · exact ⟨_, _, rfl⟩
    · split
      · simp only [Option.bind_eq_bind, Option.bind_some]
        split
        · exact ⟨_, _, rfl⟩
        · obtain ⟨n', hn'⟩ := recvARP_isSome frame.header (ARPMessage.parse {} buffer).2 hunsent
          rw [hn']
          exact ⟨_, _, rfl⟩
      · exact ⟨_, _, rfl⟩

end NetworkInterface

end Sponge
