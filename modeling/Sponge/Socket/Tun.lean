import Sponge.Socket.IPv4

/-!
# Sockets over IPv4

The `TCPOverIPv4OverTunFdAdapter` of `libsponge/tcp_helpers/tuntap_adapter.hh`. The device
of `libsponge/util/tun.cc` takes a packet whole or not at all.
-/

namespace Sponge

open Run EventLoop TCPSpongeSocket TCPConnection

structure TunTapFD where
  fd : FDWrapper := {}
  /-- Everything that the device took. -/
  sent : List Buffer := []
  deriving Repr, DecidableEq

namespace TunTapFD

/-- `read` without a limit of its own. -/
def read (tun : TunTapFD) (result : ReadResult) : Except Thrown (TunTapFD × Buffer) :=
  match tun.fd.read (2 ^ 64 - 1) result with
  | .error thrown => .error thrown
  | .ok (fd, data) => .ok ({ tun with fd := fd }, data)

/-- A TUN or TAP device takes a packet whole, or the call fails with a number: the loop of
`FileDescriptor::write` over short writes ends after one call. -/
def write (tun : TunTapFD) (packet : BufferList) : Option Nat → Except Thrown TunTapFD
  | some errno => .error (.unixError "writev" errno)
  | none => .ok
      { fd := { tun.fd with out := tun.fd.out.registerWrite }
        sent := tun.sent ++ [packet.concatenate] }

theorem read_cases {tun tun' : TunTapFD} {result : ReadResult} {data : Buffer} (h : tun.read result = .ok (tun', data)) :
    (∃ fits, result = .bytes data fits) ∧ tun'.sent = tun.sent ∧ tun'.fd.readCount = tun.fd.readCount + 1 := by
  unfold read at h
  split at h
  · cases h
  · rename_i hread
    cases h
    refine ⟨FDWrapper.read_bytes hread, rfl, ?_⟩
    rw [(FDWrapper.read_cases hread).2.2]

end TunTapFD

abbrev TunFD := TunTapFD

/-- What the kernel answers to one operation of the adapter. -/
structure TunAnswer where
  read : ReadResult := .again
  write : Option Nat := some eagain
  deriving DecidableEq

instance : Inhabited TunAnswer := ⟨{}⟩

structure TCPOverIPv4OverTunFdAdapter where
  base : TCPOverIPv4Adapter := {}
  tun : TunFD := {}
  deriving Repr, DecidableEq

namespace TCPOverIPv4OverTunFdAdapter

def read (answer : TunAnswer) (a : TCPOverIPv4OverTunFdAdapter) :
    Except Thrown (TCPOverIPv4OverTunFdAdapter × Option TCPSegment) :=
  match a.tun.read answer.read with
  | .error thrown => .error thrown
  | .ok (tun, data) =>
    let a := { a with tun := tun }
    let (result, ipDgram) := IPv4Datagram.parse {} data
    if result ≠ .noError then .ok (a, none)
    else
      match a.base.unwrapTcpInIp ipDgram with
      | none => .error BufferList.notContiguous
      | some (seg, base) => .ok ({ a with base := base }, seg)

def write (answer : TunAnswer) (seg : TCPSegment) (a : TCPOverIPv4OverTunFdAdapter) :
    Except Thrown TCPOverIPv4OverTunFdAdapter :=
  match a.base.wrapTcpInIp seg with
  | none => .error (.runtimeError "TCP header too short")
  | some (_, ipDgram) =>
    match ipDgram.serialize with
    | none => .error IPv4Datagram.wrongSize
    | some packet =>
      match a.tun.write packet answer.write with
      | .error thrown => .error thrown
      | .ok tun => .ok { a with tun := tun }

def adapter : FdAdapter TCPOverIPv4OverTunFdAdapter TunAnswer where
  fd := fun a => a.tun.fd
  setConfig := fun config a => { a with base := { a.base with config := config } }
  setListening := fun l a => { a with base := { a.base with listening := l } }
  read := read
  write := write
  tick := fun _ _ a => .ok a

/-! ## The link -/

variable {a a' before : TCPOverIPv4OverTunFdAdapter} {answer : TunAnswer} {seg : TCPSegment}
  {hosts : Side → UInt32} {p : Side} {handed : List TCPSegment}

def Reads (packet : Buffer) (seg : TCPSegment) : Prop :=
  ∃ d, datagramOf packet = some d ∧ TCPOverIPv4Adapter.Delivers d seg

/-- The network brings what it can bring, or there is nothing to read. -/
def Genuine (hosts : Side → UInt32) (p : Side) (packets : List Buffer) (before : TCPOverIPv4OverTunFdAdapter)
    (answer : TunAnswer) : Prop :=
  match answer.read with
  | .failed _ _ => True
  | .bytes data _ => ∀ d ∈ datagramOf data,
      TCPOverIPv4Adapter.Brought hosts p (packets.filterMap datagramOf) before.base.listening d

instance {packets : List Buffer} : DecidablePred (Genuine hosts p packets before) := fun answer =>
  match h : answer.read with
  | .failed _ _ => .isTrue (by simp [Genuine, h])
  | .bytes data _ => decidable_of_iff (∀ d ∈ datagramOf data,
      TCPOverIPv4Adapter.Brought hosts p (packets.filterMap datagramOf) before.base.listening d) (by simp [Genuine, h])

structure Inv (hosts : Side → UInt32) (p : Side) (before : TCPOverIPv4OverTunFdAdapter) (handed : List TCPSegment)
    (a : TCPOverIPv4OverTunFdAdapter) : Prop where
  knows : TCPOverIPv4Adapter.Knows hosts p before.base a.base
  sent : Counts Reads handed a.tun.sent

theorem read_cases {out : Option TCPSegment} (h : read answer a = .ok (a', out)) :
    ∃ data fits, answer.read = .bytes data fits ∧ a'.tun.sent = a.tun.sent ∧
      a'.tun.fd.readCount = a.tun.fd.readCount + 1 ∧
      (out = none ∧ a'.base = a.base ∨
        ∃ d, datagramOf data = some d ∧ a.base.unwrapTcpInIp d = some (out, a'.base)) := by
  unfold read at h
  split at h
  · cases h
  rename_i tun data hread
  obtain ⟨⟨fits, hbytes⟩, hsent, hcount⟩ := TunTapFD.read_cases hread
  simp only at h
  split_ifs at h with herror
  · cases h
    exact ⟨data, fits, hbytes, hsent, hcount, Or.inl ⟨rfl, rfl⟩⟩
  split at h
  · cases h
  · rename_i hunwrap
    cases h
    exact ⟨data, fits, hbytes, hsent, hcount, Or.inr ⟨_, if_pos (not_not.mp herror), hunwrap⟩⟩

theorem write_cases (h : write answer seg a = .ok a') :
    ∃ sent d packet, a.base.wrapTcpInIp seg = some (sent, d) ∧ d.serialize = some packet ∧ a'.base = a.base ∧
      a'.tun.sent = a.tun.sent ++ [packet.concatenate] := by
  unfold write at h
  split at h
  · cases h
  rename_i sent d hwrap
  split at h
  · cases h
  rename_i packet hserialize
  cases hresult : answer.write with
  | some errno =>
    rw [hresult] at h
    cases h
  | none =>
    rw [hresult] at h
    cases h
    exact ⟨sent, d, packet, hwrap, hserialize, rfl, rfl⟩

theorem Inv.read {packets : List Buffer} {out : Option TCPSegment} (h : Inv hosts p before handed a)
    (hgenuine : Genuine hosts p packets before answer) (hread : read answer a = .ok (a', out)) :
    Inv hosts p before handed a' ∧ ∀ seg, out = some seg → ∃ x ∈ packets, Reads x seg := by
  obtain ⟨data, fits, hbytes, hsent, -, hout⟩ := read_cases hread
  have hcounts : Counts Reads handed a'.tun.sent := by
    rw [hsent]
    exact h.sent
  rcases hout with ⟨rfl, hbase⟩ | ⟨d, hd, hunwrap⟩
  · refine ⟨⟨?_, hcounts⟩, by simp⟩
    rw [hbase]
    exact h.knows
  · rw [Genuine, hbytes] at hgenuine
    obtain ⟨hknows, hout⟩ := h.knows.unwrap (hgenuine d hd) (payload_datagramOf hd) hunwrap
    refine ⟨⟨hknows, hcounts⟩, ?_⟩
    intro seg hseg
    obtain ⟨d', hd', hdelivers⟩ := hout seg hseg
    obtain ⟨x, hx, hxd⟩ := List.mem_filterMap.mp hd'
    exact ⟨x, hx, d', hxd, hdelivers⟩

theorem Inv.write (h : Inv hosts p before handed a) (hseg : seg.Sendable) (hwrite : write answer seg a = .ok a') :
    Inv hosts p before (handed ++ [seg]) a' := by
  obtain ⟨sent, d, packet, hwrap, hserialize, hbase, hsent⟩ := write_cases hwrite
  refine ⟨?_, ?_⟩
  · rw [hbase]
    exact h.knows
  · rw [hsent]
    apply h.sent.append
    rintro seg' ⟨d', hd', hdelivers⟩
    exact TCPOverIPv4Adapter.core_of_delivers hseg hwrap hserialize hd' hdelivers

/-- Adapters on two hosts, and a network that carries IPv4. -/
def link (hosts : Side → UInt32) : Link adapter Buffer where
  sent := fun a => a.tun.sent
  Reads := Reads
  Genuine := Genuine hosts
  Inv := Inv hosts
  restart := fun h => ⟨⟨h.knows.hosts, id⟩, h.sent⟩
  mono := fun h hsub => ⟨h.knows, h.sent.mono hsub⟩
  sound := fun h => h.sent
  read := fun h hgenuine hread => h.read hgenuine hread
  write := fun h hseg hwrite => h.write hseg hwrite
  tick := fun h htick => by
    cases htick
    exact h

end TCPOverIPv4OverTunFdAdapter

/-! ## From owner to owner -/

/-- The adapter of `LossyTCPOverIPv4SpongeSocket`. -/
def lossyTun : FdAdapter (LossyFdAdapter TCPOverIPv4OverTunFdAdapter) (LossyAnswer TunAnswer) :=
  LossyFdAdapter.adapterOf TCPOverIPv4OverTunFdAdapter.adapter

/-- A new socket with any rates of loss, which connects from its host to the other one or listens. -/
inductive OpensTun (hosts : Side → UInt32) (p : Side) (cfg : TCPConfig) (random : WrappingInt32)
    (th : Thread (LossyFdAdapter TCPOverIPv4OverTunFdAdapter)) : Prop where
  | connects (source destination : UInt16) (up dn : UInt16) (now : Nat)
      (h : connect lossyTun cfg random ⟨⟨hosts p, source⟩, ⟨hosts p.other, destination⟩⟩ ⟨{}, up, dn⟩ now = .ok th)
  | listens (ad : FdAdapterConfig) (up dn : UInt16) (now : Nat)
      (h : listenAndAccept lossyTun cfg random ad ⟨{}, up, dn⟩ now = th)

namespace OpensTun

variable {hosts : Side → UInt32} {p : Side} {cfg : TCPConfig} {random : WrappingInt32}
  {th : Thread (LossyFdAdapter TCPOverIPv4OverTunFdAdapter)}

theorem starts (h : OpensTun hosts p cfg random th) : Starts lossyTun cfg random th := by
  cases h with
  | connects source destination up dn now h => exact .connects _ _ _ h
  | listens ad up dn now h => exact .listens _ _ _ h

theorem honest (h : OpensTun hosts p cfg random th) :
    Honest (TCPOverIPv4OverTunFdAdapter.link hosts).lossy p th.socket.datagramAdapter th.socket := by
  cases h with
  | connects source destination up dn now h =>
    rw [connect_eq] at h
    cases h
    exact ⟨⟨fun _ => ⟨rfl, rfl⟩, id⟩, counts_nil⟩
  | listens ad up dn now h =>
    rw [← h]
    exact ⟨⟨(fun hsettled => by cases hsettled), id⟩, counts_nil⟩

end OpensTun

open World TCPOverIPv4OverTunFdAdapter

/-- Two sockets over IPv4, with any loss inside and outside of them: however the turns of the two
threads are mixed, what the owner of one has got is the start of what the owner of the other wrote,
when nobody else uses their addresses. -/
theorem tun_owners_in_order (hosts : Side → UInt32) (cfg : Side → TCPConfig) (random : Side → WrappingInt32)
    (start w : World (LossyFdAdapter TCPOverIPv4OverTunFdAdapter)) (turns : List (Side × Turn (LossyAnswer TunAnswer)))
    (hstart : ∀ p, OpensTun hosts p (cfg p) (random p) (start.get p))
    (hgenuine : AllSteps (World.step lossyTun) (World.Genuine (link hosts).lossy) start turns)
    (h : run (World.step lossyTun) start turns = some w) (p : Side) (hcap : (cfg p.other).recvCapacity < 2 ^ 63)
    (hlen : (w.get p).socket.threadData.supplied.length + 2 < 2 ^ 31) :
    (w.get p.other).socket.threadData.out.accepted <+: (w.get p).socket.threadData.supplied := by
  have hopens : Opens (link hosts).lossy cfg random start :=
    ⟨fun p => (hstart p).starts, fun p => (hstart p).honest⟩
  exact hopens.in_order hgenuine h p hcap hlen

instance (hosts : Side → UInt32) (w : World (LossyFdAdapter TCPOverIPv4OverTunFdAdapter))
    (turn : Side × Turn (LossyAnswer TunAnswer)) : Decidable (World.Genuine (link hosts).lossy w turn) :=
  inferInstanceAs (Decidable (Answers (fun answer : Answer (LossyAnswer TunAnswer) =>
    TCPOverIPv4OverTunFdAdapter.Genuine hosts turn.1 _ _ (answer.adapter.headD default).inner) _))

def twoHosts : Side → UInt32
  | .a => 1
  | .b => 2

def tunSendsTurn : Turn (LossyAnswer TunAnswer) :=
  readyTurn [{}, {}, {}, { pollOut := true }] [{}, {}, {}, { adapter := [{ inner := { write := none } }] }]

def tunHearsTurn (packet : Buffer) (fits : packet.length < 2 ^ 31) : Turn (LossyAnswer TunAnswer) :=
  readyTurn [{ pollIn := true }] [{ adapter := [{ inner := { read := .bytes packet fits } }] }]

/-- A SYN from one of the two hosts, the answer to it, and a segment with two bytes. -/
def synPacket : Buffer := [69, 0, 0, 40, 0, 0, 64, 0, 128, 6, 250, 205, 0, 0, 0, 1, 0, 0, 0, 2,
  3, 232, 7, 208, 0, 0, 0, 0, 0, 0, 0, 0, 80, 2, 0, 0, 164, 40, 0, 0]

@[inherit_doc synPacket]
def synAckPacket : Buffer := [69, 0, 0, 40, 0, 0, 64, 0, 128, 6, 250, 205, 0, 0, 0, 2, 0, 0, 0, 1,
  7, 208, 3, 232, 0, 0, 0, 0, 0, 0, 0, 1, 80, 18, 0, 8, 164, 15, 0, 0]

@[inherit_doc synPacket]
def hiPacket : Buffer := [69, 0, 0, 42, 0, 0, 64, 0, 128, 6, 250, 203, 0, 0, 0, 1, 0, 0, 0, 2,
  3, 232, 7, 208, 0, 0, 0, 1, 0, 0, 0, 1, 80, 16, 0, 8, 59, 165, 0, 0, 104, 105]

/-- The handshake, and two bytes from the owner of `a` to that of `b`; the ACK of the handshake is lost. -/
def tunTurns : List (Side × Turn (LossyAnswer TunAnswer)) :=
  [(.a, tunSendsTurn),
    (.b, tunHearsTurn synPacket (by decide)),
    (.b, tunSendsTurn),
    (.a, tunHearsTurn synAckPacket (by decide)),
    (.a, readyTurn [] []),
    (.a, readyTurn [{}, { pollIn := true }, {}, { pollOut := true }] [{}, { read := hiRead }, {},
      { adapter := [{ inner := { write := none } }, { inner := { write := none } }] }]),
    (.b, tunHearsTurn hiPacket (by decide)),
    (.b, readyTurn [] []),
    (.b, readyTurn [{}, {}, { pollOut := true }] [{}, {}, { write := hiWritten }])]

def tunServer : Thread (LossyFdAdapter TCPOverIPv4OverTunFdAdapter) :=
  listenAndAccept lossyTun smallConfig ⟨0⟩ ⟨⟨2, 2000⟩, {}⟩ ⟨{}, 0, 0⟩ 0

def tunClient : Except Thrown (Thread (LossyFdAdapter TCPOverIPv4OverTunFdAdapter)) :=
  connect lossyTun smallConfig ⟨0⟩ ⟨⟨1, 1000⟩, ⟨2, 2000⟩⟩ ⟨{}, 0, 0⟩ 0

theorem tun_owners_in_order_hi :
    ∃ client w, tunClient = .ok client ∧ run (World.step lossyTun) ⟨client, tunServer⟩ tunTurns = some w ∧
      w.b.socket.threadData.out.accepted = [104, 105] ∧
      w.b.socket.threadData.out.accepted <+: w.a.socket.threadData.supplied := by
  have hrun : ∀ client ∈ tunClient.toOption,
      AllSteps (World.step lossyTun) (World.Genuine (link twoHosts).lossy) ⟨client, tunServer⟩ tunTurns ∧
        ∃ w, run (World.step lossyTun) ⟨client, tunServer⟩ tunTurns = some w ∧
          w.b.socket.threadData.out.accepted = [104, 105] ∧
          w.a.socket.threadData.supplied.length + 2 < 2 ^ 31 := by
    decide +kernel
  have hclient : tunClient = .ok _ := connect_eq _ _ _ _ _ _
  obtain ⟨hgenuine, w, hw, haccepted, hshort⟩ := hrun _ (by rw [hclient]; rfl)
  refine ⟨_, w, hclient, hw, haccepted, tun_owners_in_order twoHosts (fun _ => smallConfig) (fun _ => ⟨0⟩) _ w tunTurns
    ?_ hgenuine hw .a (by decide) hshort⟩
  intro p
  cases p with
  | a => exact .connects 1000 2000 0 0 0 hclient
  | b => exact .listens _ 0 0 0 rfl

end Sponge
