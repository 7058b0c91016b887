import Sponge.Interface.Steps
import Sponge.Net.Ethernet
import Sponge.Socket.Tun

/-!
# Sockets over Ethernet

The `TCPOverIPv4OverEthernetAdapter` of `libsponge/tcp_helpers/tuntap_adapter.cc`, with
which `FullStackSocket` works. Its datagrams go through a `NetworkInterface`: they may wait
there for a mapping, while the adapter is given others, and leave in any later call.
-/

namespace Sponge

open Run EventLoop TCPSpongeSocket TCPConnection

abbrev TapFD := TunTapFD

/-- What the kernel answers to one operation of the adapter, and what stands behind the tables. -/
structure EthernetAnswer where
  read : ReadResult := .again
  /-- One answer for each frame that is written. -/
  writes : List (Option Nat) := []
  past : PastTheEnd := ⟨0, 0⟩
  deriving DecidableEq

instance : Inhabited EthernetAnswer := ⟨{}⟩

structure TCPOverIPv4OverEthernetAdapter where
  base : TCPOverIPv4Adapter := {}
  tap : TapFD := {}
  interface : NetworkInterface
  nextHop : Address
  deriving DecidableEq

namespace TCPOverIPv4OverEthernetAdapter

/-- A frame with nothing in it is sent at once. -/
def new (ethAddress : EthernetAddress) (ipAddress nextHop : Address) (answer : Option Nat) :
    Except Thrown TCPOverIPv4OverEthernetAdapter :=
  match TunTapFD.write {} ({} : EthernetFrame).serialize answer with
  | .error thrown => .error thrown
  | .ok tap => .ok
      { tap := tap
        interface := { ethernetAddress := ethAddress, ipAddress := ipAddress.ipv4Numeric }
        nextHop := nextHop }

def sendFrames : List EthernetFrame → List (Option Nat) → TapFD → Except Thrown TapFD
  | [], _, tap => .ok tap
  | frame :: frames, writes, tap =>
    match tap.write frame.serialize (writes.headD (some eagain)) with
    | .error thrown => .error thrown
    | .ok tap => sendFrames frames writes.tail tap

def sendPending (writes : List (Option Nat)) (a : TCPOverIPv4OverEthernetAdapter) :
    Except Thrown TCPOverIPv4OverEthernetAdapter :=
  match sendFrames a.interface.framesOut writes a.tap with
  | .error thrown => .error thrown
  | .ok tap => .ok { a with tap := tap, interface := { a.interface with framesOut := [] } }

def read (answer : EthernetAnswer) (a : TCPOverIPv4OverEthernetAdapter) :
    Except Thrown (TCPOverIPv4OverEthernetAdapter × Option TCPSegment) :=
  match a.tap.read answer.read with
  | .error thrown => .error thrown
  | .ok (tap, data) =>
    let a := { a with tap := tap }
    let (result, frame) := EthernetFrame.parse {} data
    if result ≠ .noError then .ok (a, none)
    else
      match a.interface.recvFrame frame with
      | none => .error IPv4Datagram.wrongSize
      | some (interface, ipDgram) =>
        match sendPending answer.writes { a with interface := interface } with
        | .error thrown => .error thrown
        | .ok a =>
          match ipDgram with
          | none => .ok (a, none)
          | some ipDgram =>
            match a.base.unwrapTcpInIp ipDgram with
            | none => .error BufferList.notContiguous
            | some (seg, base) => .ok ({ a with base := base }, seg)

def tick (answer : EthernetAnswer) (msSinceLastTick : Nat) (a : TCPOverIPv4OverEthernetAdapter) :
    Except Thrown TCPOverIPv4OverEthernetAdapter :=
  sendPending answer.writes { a with interface := a.interface.tick msSinceLastTick }

def write (answer : EthernetAnswer) (seg : TCPSegment) (a : TCPOverIPv4OverEthernetAdapter) :
    Except Thrown TCPOverIPv4OverEthernetAdapter :=
  match a.base.wrapTcpInIp seg with
  | none => .error (.runtimeError "TCP header too short")
  | some (_, ipDgram) =>
    match a.interface.sendDatagram ipDgram a.nextHop.ipv4Numeric answer.past with
    | none => .error IPv4Datagram.wrongSize
    | some interface => sendPending answer.writes { a with interface := interface }

def adapter : FdAdapter TCPOverIPv4OverEthernetAdapter EthernetAnswer where
  fd := fun a => a.tap.fd
  setConfig := fun config a => { a with base := { a.base with config := config } }
  setListening := fun l a => { a with base := { a.base with listening := l } }
  read := read
  write := write
  tick := tick

/-! ## What frames carry -/

/-- The datagram in a frame, for the interface to which the frame is addressed. -/
def frameDatagram (frame : Buffer) : Option InternetDatagram :=
  let (_, frame) := EthernetFrame.parse {} frame
  if frame.header.type = EthernetHeader.typeIPv4 then frame.payload.toBuffer.bind datagramOf else none

def Reads (frame : Buffer) (seg : TCPSegment) : Prop :=
  ∃ d, frameDatagram frame = some d ∧ TCPOverIPv4Adapter.Delivers d seg

theorem frameDatagram_serialize (frame : EthernetFrame) : frameDatagram frame.serialize.concatenate =
    if frame.header.type = EthernetHeader.typeIPv4 then datagramOf frame.payload.concatenate else none := by
  rw [frameDatagram, EthernetFrame.parse_serialize_frame]
  rfl

theorem frameDatagram_ipv4Frame (src dst : EthernetAddress) (packet : BufferList) :
    frameDatagram (NetworkInterface.ipv4Frame src dst packet).serialize.concatenate = datagramOf packet.concatenate :=
  (frameDatagram_serialize _).trans (if_pos rfl)

/-- All that can be read from the frame is among the segments of `handed`. -/
def Harmless (handed : List TCPSegment) (frame : EthernetFrame) : Prop :=
  Counts Reads handed [frame.serialize.concatenate]

/-- All that can be read from the datagram, once it is sent, is among the segments of `handed`. -/
def Stands (handed : List TCPSegment) (d : InternetDatagram) : Prop :=
  ∀ packet, d.serialize = some packet → Counts TCPOverIPv4OverTunFdAdapter.Reads handed [packet.concatenate]

variable {handed handed' : List TCPSegment} {d : InternetDatagram} {frame : EthernetFrame}

theorem harmless_of_type (h : frame.header.type ≠ EthernetHeader.typeIPv4) : Harmless handed frame := by
  intro x hx seg hreads
  obtain ⟨d, hd, -⟩ := hreads
  rw [List.mem_singleton.mp hx, frameDatagram_serialize, if_neg h] at hd
  cases hd

theorem typeARP_ne : EthernetHeader.typeARP ≠ EthernetHeader.typeIPv4 := by
  decide

theorem Stands.harmless {packet : BufferList} {src dst : EthernetAddress} (h : Stands handed d)
    (hpacket : d.serialize = some packet) : Harmless handed (NetworkInterface.ipv4Frame src dst packet) := by
  intro x hx seg hreads
  obtain ⟨d', hd', hdelivers⟩ := hreads
  rw [List.mem_singleton.mp hx, frameDatagram_ipv4Frame] at hd'
  exact h packet hpacket _ (List.mem_singleton_self _) seg ⟨d', hd', hdelivers⟩

theorem Stands.mono (h : Stands handed d) (hsub : handed ⊆ handed') : Stands handed' d :=
  fun packet hpacket => (h packet hpacket).mono hsub

/-- What is on its way out, and what waits for a mapping. -/
structure Pending (handed : List TCPSegment) (n : NetworkInterface) : Prop where
  frames : ∀ frame ∈ n.framesOut, Harmless handed frame
  waiting : ∀ entry ∈ n.unsent, Stands handed entry.1

theorem Pending.mono {n : NetworkInterface} (h : Pending handed n) (hsub : handed ⊆ handed') : Pending handed' n :=
  ⟨fun frame hframe => (h.frames frame hframe).mono hsub, fun entry hentry => (h.waiting entry hentry).mono hsub⟩

/-! ## The interface -/

section

variable {n n' : NetworkInterface} {hop : UInt32} {past : PastTheEnd}

theorem Pending.push (h : Pending handed n) (hframe : Harmless handed frame) : Pending handed (n.push frame) := by
  refine ⟨?_, h.waiting⟩
  intro f hf
  rcases List.mem_append.mp hf with hf | hf
  · exact h.frames f hf
  · rw [List.mem_singleton.mp hf]
    exact hframe

theorem Pending.wait (h : Pending handed n) (hd : Stands handed d) :
    Pending handed { n with unsent := n.unsent ++ [(d, hop)] } := by
  refine ⟨h.frames, ?_⟩
  intro entry hentry
  rcases List.mem_append.mp hentry with hentry | hentry
  · exact h.waiting entry hentry
  · rw [List.mem_singleton.mp hentry]
    exact hd

theorem Pending.sendDatagram (h : Pending handed n) (hd : Stands handed d)
    (hsend : n.sendDatagram d hop past = some n') :
    Pending handed n' ∧ n'.ethernetAddress = n.ethernetAddress := by
  cases NetworkInterface.sendDatagram_sends hsend with
  | direct ethernet packet hmap hpacket => exact ⟨h.push (hd.harmless hpacket), rfl⟩
  | waits hmap => exact ⟨h.wait hd, rfl⟩
  | blank hmap =>
    have hframe : Harmless handed { header := { src := n.ethernetAddress } } :=
      harmless_of_type (show (0 : UInt16) ≠ EthernetHeader.typeIPv4 by decide)
    exact ⟨(h.wait hd).push hframe, rfl⟩
  | request hmap hexpired =>
    have hframe : Harmless handed (n.requestFrame hop) := harmless_of_type typeARP_ne
    have hwait : Pending handed { n with unsent := n.unsent ++ [(d, hop)] } := h.wait hd
    have hpending := hwait.push hframe
    exact ⟨⟨hpending.frames, hpending.waiting⟩, rfl⟩

theorem harmless_of_carried {src : EthernetAddress} {msg : ARPMessage} {entries : List (InternetDatagram × UInt32)}
    {frames : List EthernetFrame} (h : List.Forall₂ (NetworkInterface.Carried src msg) entries frames)
    (hentries : ∀ entry ∈ entries, Stands handed entry.1) : ∀ frame ∈ frames, Harmless handed frame := by
  induction h with
  | nil => simp
  | cons hcarried _ ih =>
    obtain ⟨-, packet, hpacket, rfl⟩ := hcarried
    rw [List.forall_mem_cons] at hentries ⊢
    exact ⟨hentries.1.harmless hpacket, ih hentries.2⟩

theorem Pending.recvFrame {out : Option InternetDatagram} (h : Pending handed n)
    (hrecv : n.recvFrame frame = some (n', out)) :
    Pending handed n' ∧ n'.ethernetAddress = n.ethernetAddress := by
  cases NetworkInterface.recvFrame_receives hrecv with
  | ignores hnone => exact ⟨h, rfl⟩
  | learns msg hmsg hop => exact ⟨⟨h.frames, h.waiting⟩, rfl⟩
  | replies msg hmsg hop =>
    have hframe : Harmless handed (n.replyFrame frame.header msg) := harmless_of_type typeARP_ne
    have hpending := h.push hframe
    exact ⟨⟨hpending.frames, hpending.waiting⟩, rfl⟩
  | resolves msg frames hmsg hop hframes =>
    refine ⟨⟨?_, ?_⟩, rfl⟩
    · intro f hf
      rcases List.mem_append.mp hf with hf | hf
      · exact h.frames f hf
      · exact harmless_of_carried hframes (fun entry hentry => h.waiting entry (List.mem_filter.mp hentry).1) f hf
    · exact fun entry hentry => h.waiting entry (List.mem_filter.mp hentry).1

end

/-! ## The link -/

variable {a a' before : TCPOverIPv4OverEthernetAdapter} {answer : EthernetAnswer} {seg : TCPSegment}
  {hosts : Side → UInt32} {p : Side}

theorem sendFrames_counts {frames : List EthernetFrame} {writes : List (Option Nat)} {tap tap' : TapFD}
    (h : sendFrames frames writes tap = .ok tap') (hsent : Counts Reads handed tap.sent)
    (hframes : ∀ frame ∈ frames, Harmless handed frame) : Counts Reads handed tap'.sent := by
  induction frames generalizing writes tap with
  | nil =>
    cases h
    exact hsent
  | cons frame frames ih =>
    rw [List.forall_mem_cons] at hframes
    unfold sendFrames at h
    cases hanswer : writes.headD (some eagain) with
    | some errno =>
      rw [hanswer] at h
      cases h
    | none =>
      rw [hanswer] at h
      refine ih h ?_ hframes.2
      intro x hx
      rcases List.mem_append.mp hx with hx | hx
      · exact hsent x hx
      · exact hframes.1 x hx

theorem sendPending_cases {writes : List (Option Nat)} (h : sendPending writes a = .ok a') :
    ∃ tap, sendFrames a.interface.framesOut writes a.tap = .ok tap ∧
      a' = { a with tap := tap, interface := { a.interface with framesOut := [] } } := by
  unfold sendPending at h
  split at h
  · cases h
  · cases h
    exact ⟨_, ‹_›, rfl⟩

/-- The datagram that the interface takes from a frame. -/
def taken (n : NetworkInterface) (data : Buffer) : Option InternetDatagram :=
  let (_, frame) := EthernetFrame.parse {} data
  if frame.header.dst ≠ ethernetBroadcast ∧ frame.header.dst ≠ n.ethernetAddress then none else frameDatagram data

theorem recvFrame_taken {n n' : NetworkInterface} {data : Buffer}
    (h : n.recvFrame (EthernetFrame.parse {} data).2 = some (n', some d)) : taken n data = some d := by
  unfold NetworkInterface.recvFrame at h
  unfold taken frameDatagram
  simp only
  split_ifs at h ⊢ with hdst htype harp
  · cases h
  · simp only [Option.bind_eq_bind, Option.bind_eq_some_iff] at h
    obtain ⟨buffer, hbuffer, h⟩ := h
    obtain ⟨-, hout⟩ := Prod.mk.inj (Option.some.inj h)
    rw [hbuffer]
    exact hout
  · simp only [Option.bind_eq_bind, Option.bind_eq_some_iff] at h
    obtain ⟨buffer, -, h⟩ := h
    split_ifs at h
    · cases h
    · simp only [Option.bind_eq_some_iff] at h
      obtain ⟨_, -, h⟩ := h
      cases h
  · cases h

theorem payload_taken {n : NetworkInterface} {data : Buffer} (h : taken n data = some d) :
    ∃ payload, d.payload = [payload] := by
  unfold taken frameDatagram at h
  simp only at h
  split_ifs at h
  obtain ⟨buffer, -, hd⟩ := Option.bind_eq_some_iff.mp h
  exact payload_datagramOf hd

structure Inv (hosts : Side → UInt32) (p : Side) (before : TCPOverIPv4OverEthernetAdapter) (handed : List TCPSegment)
    (a : TCPOverIPv4OverEthernetAdapter) : Prop where
  knows : TCPOverIPv4Adapter.Knows hosts p before.base a.base
  sent : Counts Reads handed a.tap.sent
  pending : Pending handed a.interface
  address : a.interface.ethernetAddress = before.interface.ethernetAddress

/-- The network brings what it can bring, or there is nothing to read. -/
def Genuine (hosts : Side → UInt32) (p : Side) (frames : List Buffer) (before : TCPOverIPv4OverEthernetAdapter)
    (answer : EthernetAnswer) : Prop :=
  match answer.read with
  | .failed _ _ => True
  | .bytes data _ => ∀ d ∈ taken before.interface data,
      TCPOverIPv4Adapter.Brought hosts p (frames.filterMap frameDatagram) before.base.listening d

instance {frames : List Buffer} : DecidablePred (Genuine hosts p frames before) := fun answer =>
  match h : answer.read with
  | .failed _ _ => .isTrue (by simp [Genuine, h])
  | .bytes data _ => decidable_of_iff (∀ d ∈ taken before.interface data,
      TCPOverIPv4Adapter.Brought hosts p (frames.filterMap frameDatagram) before.base.listening d) (by simp [Genuine, h])

theorem Inv.sendPending {writes : List (Option Nat)} (h : Inv hosts p before handed a)
    (hsend : sendPending writes a = .ok a') : Inv hosts p before handed a' ∧ a'.base = a.base := by
  obtain ⟨tap, hframes, rfl⟩ := sendPending_cases hsend
  exact ⟨⟨h.knows, sendFrames_counts hframes h.sent h.pending.frames, ⟨by simp, h.pending.waiting⟩, h.address⟩, rfl⟩

theorem read_cases {out : Option TCPSegment} (h : read answer a = .ok (a', out)) :
    ∃ data fits tap, answer.read = .bytes data fits ∧ tap.sent = a.tap.sent ∧
      tap.fd.readCount = a.tap.fd.readCount + 1 ∧
      (out = none ∧ a' = { a with tap := tap } ∨
        ∃ interface dgram a₁, a.interface.recvFrame (EthernetFrame.parse {} data).2 = some (interface, dgram) ∧
          sendPending answer.writes { a with tap := tap, interface := interface } = .ok a₁ ∧
          (out = none ∧ a' = a₁ ∨
            ∃ d base, dgram = some d ∧ a₁.base.unwrapTcpInIp d = some (out, base) ∧ a' = { a₁ with base := base })) := by
  unfold read at h
  split at h
  · cases h
  rename_i tap data hread
  obtain ⟨⟨fits, hbytes⟩, hsent, hcount⟩ := TunTapFD.read_cases hread
  refine ⟨data, fits, tap, hbytes, hsent, hcount, ?_⟩
  simp only at h
  split_ifs at h with herror
  · cases h
    exact Or.inl ⟨rfl, rfl⟩
  split at h
  · cases h
  rename_i interface dgram hrecv
  split at h
  · cases h
  rename_i a₁ hsend
  -- The replies of the interface go out before the datagram is looked at.
  refine Or.inr ⟨interface, dgram, a₁, hrecv, hsend, ?_⟩
  split at h
  · cases h
    exact Or.inl ⟨rfl, rfl⟩
  split at h
  · cases h
  · rename_i hunwrap
    cases h
    exact Or.inr ⟨_, _, rfl, hunwrap, rfl⟩

theorem Inv.read {frames : List Buffer} {out : Option TCPSegment} (h : Inv hosts p before handed a)
    (hgenuine : Genuine hosts p frames before answer) (hread : read answer a = .ok (a', out)) :
    Inv hosts p before handed a' ∧ ∀ seg, out = some seg → ∃ x ∈ frames, Reads x seg := by
  obtain ⟨data, fits, tap, hbytes, hsent, -, hcases⟩ := read_cases hread
  have hcounts : Counts Reads handed tap.sent := by
    rw [hsent]
    exact h.sent
  rcases hcases with ⟨rfl, rfl⟩ | ⟨interface, dgram, a₁, hrecv, hsend, hcases⟩
  · exact ⟨⟨h.knows, hcounts, h.pending, h.address⟩, by simp⟩
  obtain ⟨hpending, haddress⟩ := h.pending.recvFrame hrecv
  have hinv : Inv hosts p before handed { a with tap := tap, interface := interface } :=
    ⟨h.knows, hcounts, hpending, haddress.trans h.address⟩
  obtain ⟨hinv₁, hbase⟩ := hinv.sendPending hsend
  rcases hcases with ⟨rfl, rfl⟩ | ⟨d, base, rfl, hunwrap, rfl⟩
  · exact ⟨hinv₁, by simp⟩
  · -- Which frames are taken depends on the address of the interface alone, and it has not changed.
    have htaken : taken before.interface data = some d := by
      rw [← recvFrame_taken hrecv, taken, taken, h.address]
    rw [Genuine, hbytes] at hgenuine
    obtain ⟨hknows, hout⟩ := hinv₁.knows.unwrap (hgenuine d htaken) (payload_taken htaken) hunwrap
    refine ⟨⟨hknows, hinv₁.sent, hinv₁.pending, hinv₁.address⟩, ?_⟩
    intro seg hseg
    obtain ⟨d', hd', hdelivers⟩ := hout seg hseg
    obtain ⟨x, hx, hxd⟩ := List.mem_filterMap.mp hd'
    exact ⟨x, hx, d', hxd, hdelivers⟩

theorem Inv.write (h : Inv hosts p before handed a) (hseg : seg.Sendable) (hwrite : write answer seg a = .ok a') :
    Inv hosts p before (handed ++ [seg]) a' := by
  unfold TCPOverIPv4OverEthernetAdapter.write at hwrite
  split at hwrite
  · cases hwrite
  rename_i sent d hwrap
  split at hwrite
  · cases hwrite
  rename_i interface hsend
  have hsub : handed ⊆ handed ++ [seg] := List.subset_append_left _ _
  have hstands : Stands (handed ++ [seg]) d := by
    intro packet hpacket
    have hnil : Counts TCPOverIPv4OverTunFdAdapter.Reads handed [] := counts_nil
    apply hnil.append
    rintro seg' ⟨d', hd', hdelivers⟩
    exact TCPOverIPv4Adapter.core_of_delivers hseg hwrap hpacket hd' hdelivers
  obtain ⟨hpending, haddress⟩ := (h.pending.mono hsub).sendDatagram hstands hsend
  have hinv : Inv hosts p before (handed ++ [seg]) { a with interface := interface } :=
    ⟨h.knows, h.sent.mono hsub, hpending, haddress.trans h.address⟩
  exact (hinv.sendPending hwrite).1

theorem Inv.tick {ms : Nat} (h : Inv hosts p before handed a) (htick : tick answer ms a = .ok a') :
    Inv hosts p before handed a' := by
  have hinv : Inv hosts p before handed { a with interface := a.interface.tick ms } :=
    ⟨h.knows, h.sent, ⟨h.pending.frames, h.pending.waiting⟩, h.address⟩
  exact (hinv.sendPending htick).1

/-- Adapters on two hosts, and a network of Ethernets and routers between them. -/
def link (hosts : Side → UInt32) : Link adapter Buffer where
  sent := fun a => a.tap.sent
  Reads := Reads
  Genuine := Genuine hosts
  Inv := Inv hosts
  restart := fun h => ⟨⟨h.knows.hosts, id⟩, h.sent, h.pending, rfl⟩
  mono := fun h hsub => ⟨h.knows, h.sent.mono hsub, h.pending.mono hsub, h.address⟩
  sound := fun h => h.sent
  read := fun h hgenuine hread => h.read hgenuine hread
  write := fun h hseg hwrite => h.write hseg hwrite
  tick := fun h htick => h.tick htick

end TCPOverIPv4OverEthernetAdapter

/-! ## From owner to owner -/

/-- A new socket over a device of its own, which connects from its host to the other one or listens. -/
inductive OpensEthernet (hosts : Side → UInt32) (p : Side) (cfg : TCPConfig) (random : WrappingInt32)
    (th : Thread TCPOverIPv4OverEthernetAdapter) : Prop where
  | connects (ethAddress : EthernetAddress) (ipAddress nextHop : Address) (answer : Option Nat)
      (a : TCPOverIPv4OverEthernetAdapter) (source destination : UInt16) (now : Nat)
      (hnew : TCPOverIPv4OverEthernetAdapter.new ethAddress ipAddress nextHop answer = .ok a)
      (h : connect TCPOverIPv4OverEthernetAdapter.adapter cfg random
        ⟨⟨hosts p, source⟩, ⟨hosts p.other, destination⟩⟩ a now = .ok th)
  | listens (ethAddress : EthernetAddress) (ipAddress nextHop : Address) (answer : Option Nat)
      (a : TCPOverIPv4OverEthernetAdapter) (ad : FdAdapterConfig) (now : Nat)
      (hnew : TCPOverIPv4OverEthernetAdapter.new ethAddress ipAddress nextHop answer = .ok a)
      (h : listenAndAccept TCPOverIPv4OverEthernetAdapter.adapter cfg random ad a now = th)

namespace OpensEthernet

open TCPOverIPv4OverEthernetAdapter

variable {hosts : Side → UInt32} {p : Side} {cfg : TCPConfig} {random : WrappingInt32}
  {th : Thread TCPOverIPv4OverEthernetAdapter}

theorem starts (h : OpensEthernet hosts p cfg random th) : Starts adapter cfg random th := by
  cases h with
  | connects ethAddress ipAddress nextHop answer a source destination now hnew h => exact .connects _ _ _ h
  | listens ethAddress ipAddress nextHop answer a ad now hnew h => exact .listens _ _ _ h

theorem new_cases {ethAddress : EthernetAddress} {ipAddress nextHop : Address} {answer : Option Nat}
    {a : TCPOverIPv4OverEthernetAdapter} (h : new ethAddress ipAddress nextHop answer = .ok a) :
    Counts Reads [] a.tap.sent ∧ Pending [] a.interface := by
  unfold TCPOverIPv4OverEthernetAdapter.new at h
  cases answer with
  | some errno => cases h
  | none =>
    cases h
    have hframe : Harmless [] {} := harmless_of_type (show (0 : UInt16) ≠ EthernetHeader.typeIPv4 by decide)
    exact ⟨hframe, by simp, by simp⟩

theorem honest (h : OpensEthernet hosts p cfg random th) :
    Honest (link hosts) p th.socket.datagramAdapter th.socket := by
  cases h with
  | connects ethAddress ipAddress nextHop answer a source destination now hnew h =>
    obtain ⟨hsent, hpending⟩ := new_cases hnew
    rw [connect_eq] at h
    cases h
    exact ⟨⟨fun _ => ⟨rfl, rfl⟩, id⟩, hsent, hpending, rfl⟩
  | listens ethAddress ipAddress nextHop answer a ad now hnew h =>
    obtain ⟨hsent, hpending⟩ := new_cases hnew
    rw [← h]
    exact ⟨⟨(fun hsettled => by cases hsettled), id⟩, hsent, hpending, rfl⟩

end OpensEthernet

open World TCPOverIPv4OverEthernetAdapter

/-- Two sockets over Ethernet, whatever mappings their interfaces learn and however long datagrams wait
for one: however the turns of the two threads are mixed, what the owner of one has got is the start of
what the owner of the other wrote, when nobody else uses their addresses. -/
theorem ethernet_owners_in_order (hosts : Side → UInt32) (cfg : Side → TCPConfig) (random : Side → WrappingInt32)
    (start w : World TCPOverIPv4OverEthernetAdapter) (turns : List (Side × Turn EthernetAnswer))
    (hstart : ∀ p, OpensEthernet hosts p (cfg p) (random p) (start.get p))
    (hgenuine : AllSteps (World.step adapter) (World.Genuine (link hosts)) start turns)
    (h : run (World.step adapter) start turns = some w) (p : Side) (hcap : (cfg p.other).recvCapacity < 2 ^ 63)
    (hlen : (w.get p).socket.threadData.supplied.length + 2 < 2 ^ 31) :
    (w.get p.other).socket.threadData.out.accepted <+: (w.get p).socket.threadData.supplied := by
  have hopens : Opens (link hosts) cfg random start :=
    ⟨fun p => (hstart p).starts, fun p => (hstart p).honest⟩
  exact hopens.in_order hgenuine h p hcap hlen

instance (hosts : Side → UInt32) (w : World TCPOverIPv4OverEthernetAdapter) (turn : Side × Turn EthernetAnswer) :
    Decidable (World.Genuine (link hosts) w turn) :=
  inferInstanceAs (Decidable (Answers (fun answer : Answer EthernetAnswer =>
    TCPOverIPv4OverEthernetAdapter.Genuine hosts turn.1 _ _ (answer.adapter.headD default)) _))

def tapSendsTurn : Turn EthernetAnswer :=
  readyTurn [{}, {}, {}, { pollOut := true }] [{}, {}, {}, { adapter := [{ writes := [none], past := ⟨1, 1⟩ }] }]

def tapHearsTurn (frame : EthernetFrame) (fits : frame.serialize.concatenate.length < 2 ^ 31) : Turn EthernetAnswer :=
  readyTurn [{ pollIn := true }] [{ adapter := [{ read := .bytes _ fits, writes := [none] }] }]

def firstAddress : EthernetAddress := ethernetAddress 3

def secondAddress : EthernetAddress := ethernetAddress 4

def whoHasFrame : EthernetFrame :=
  NetworkInterface.requestFrame { ethernetAddress := firstAddress, ipAddress := 1 } 2

def isAtFrame : EthernetFrame :=
  NetworkInterface.replyFrame { ethernetAddress := secondAddress, ipAddress := 2 } whoHasFrame.header
    (NetworkInterface.requestMessage { ethernetAddress := firstAddress, ipAddress := 1 } 2)

/-- The SYN waits until the second host has told its address, and then all goes as over a TUN device. -/
def tapTurns : List (Side × Turn EthernetAnswer) :=
  [(.a, tapSendsTurn),
    (.b, tapHearsTurn whoHasFrame (by decide)),
    (.a, tapHearsTurn isAtFrame (by decide)),
    (.b, tapHearsTurn (NetworkInterface.ipv4Frame firstAddress secondAddress [synPacket]) (by decide)),
    (.b, tapSendsTurn),
    (.a, tapHearsTurn (NetworkInterface.ipv4Frame secondAddress firstAddress [synAckPacket]) (by decide)),
    (.a, readyTurn [] []),
    (.a, readyTurn [{}, { pollIn := true }, {}, { pollOut := true }] [{}, { read := hiRead }, {},
      { adapter := [{ writes := [none] }, { writes := [none] }] }]),
    (.b, tapHearsTurn (NetworkInterface.ipv4Frame firstAddress secondAddress [hiPacket]) (by decide)),
    (.b, readyTurn [] []),
    (.b, readyTurn [{}, {}, { pollOut := true }] [{}, {}, { write := hiWritten }])]

def tapAdapter (ethAddress : EthernetAddress) (ip hop : UInt32) : Except Thrown TCPOverIPv4OverEthernetAdapter :=
  TCPOverIPv4OverEthernetAdapter.new ethAddress ⟨ip, 0⟩ ⟨hop, 0⟩ none

def tapServer (a : TCPOverIPv4OverEthernetAdapter) : Thread TCPOverIPv4OverEthernetAdapter :=
  listenAndAccept adapter smallConfig ⟨0⟩ ⟨⟨2, 2000⟩, {}⟩ a 0

def tapClient (a : TCPOverIPv4OverEthernetAdapter) : Except Thrown (Thread TCPOverIPv4OverEthernetAdapter) :=
  connect adapter smallConfig ⟨0⟩ ⟨⟨1, 1000⟩, ⟨2, 2000⟩⟩ a 0

theorem ethernet_owners_in_order_hi :
    ∃ a b client w, tapAdapter firstAddress 1 2 = .ok a ∧ tapAdapter secondAddress 2 1 = .ok b ∧
      tapClient a = .ok client ∧ run (World.step adapter) ⟨client, tapServer b⟩ tapTurns = some w ∧
      w.b.socket.threadData.out.accepted = [104, 105] ∧
      w.b.socket.threadData.out.accepted <+: w.a.socket.threadData.supplied := by
  have hrun : ∀ a ∈ (tapAdapter firstAddress 1 2).toOption, ∀ b ∈ (tapAdapter secondAddress 2 1).toOption,
      ∀ client ∈ (tapClient a).toOption,
      AllSteps (World.step adapter) (World.Genuine (link twoHosts)) ⟨client, tapServer b⟩ tapTurns ∧
        ∃ w, run (World.step adapter) ⟨client, tapServer b⟩ tapTurns = some w ∧
          w.b.socket.threadData.out.accepted = [104, 105] ∧
          w.a.socket.threadData.supplied.length + 2 < 2 ^ 31 := by
    decide +kernel
  have ha : tapAdapter firstAddress 1 2 = .ok _ := rfl
  have hb : tapAdapter secondAddress 2 1 = .ok _ := rfl
  have hclient : ∀ a, tapClient a = .ok _ := fun a => connect_eq _ _ _ _ _ _
  obtain ⟨hgenuine, w, hw, haccepted, hshort⟩ := hrun _ (by rw [ha]; rfl) _ (by rw [hb]; rfl) _ (by rw [hclient]; rfl)
  refine ⟨_, _, _, w, ha, hb, hclient _, hw, haccepted, ethernet_owners_in_order twoHosts (fun _ => smallConfig)
    (fun _ => ⟨0⟩) _ w tapTurns ?_ hgenuine hw .a (by decide) hshort⟩
  intro p
  cases p with
  | a => exact .connects _ _ _ _ _ 1000 2000 0 ha (hclient _)
  | b => exact .listens _ _ _ _ _ _ 0 hb rfl

end Sponge
