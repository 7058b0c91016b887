import Sponge.Lib.Run
import Sponge.Net.RoundTrip

/-!
# TCP over IPv4

`libsponge/tcp_helpers/tcp_over_ip.cc` over `FdAdapterBase`. An address is the pair
of its numbers; the conversions to and from text are taken to be faithful.
-/

namespace Sponge

open Run

structure Address where
  ipv4Numeric : UInt32 := 0
  port : UInt16 := 0
  deriving Repr, DecidableEq

structure FdAdapterConfig where
  source : Address := {}
  destination : Address := {}
  deriving Repr, DecidableEq

structure TCPOverIPv4Adapter where
  config : FdAdapterConfig := {}
  listening : Bool := false
  deriving Repr, DecidableEq

def IPv4Header.protoTCP : UInt8 := 6

namespace TCPOverIPv4Adapter

/-- While listening, take the addresses of a SYN; `none` where the source returns empty. -/
def target (a : TCPOverIPv4Adapter) (ipDgram : InternetDatagram) (tcpSeg : TCPSegment) : Option TCPOverIPv4Adapter :=
  if a.listening then
    if tcpSeg.header.syn ∧ ¬ tcpSeg.header.rst then
      some
        { config :=
            { source := ⟨ipDgram.header.dst, a.config.source.port⟩
              destination := ⟨ipDgram.header.src, tcpSeg.header.sport⟩ }
          listening := false }
    else none
  else some a

/-- The segment for the connection, if there is one. The call throws when the payload has to be
made contiguous and is not. -/
def unwrapTcpInIp (a : TCPOverIPv4Adapter) (ipDgram : InternetDatagram) :
    Option (Option TCPSegment × TCPOverIPv4Adapter) :=
  if ¬ a.listening ∧ ipDgram.header.dst ≠ a.config.source.ipv4Numeric then some (none, a)
  else if ¬ a.listening ∧ ipDgram.header.src ≠ a.config.destination.ipv4Numeric then some (none, a)
  else if ipDgram.header.proto ≠ IPv4Header.protoTCP then some (none, a)
  else
    match ipDgram.payload.toBuffer with
    | none => none
    | some payload =>
      let (result, tcpSeg) := TCPSegment.parse {} payload ipDgram.header.pseudoCksum
      if result ≠ .noError then some (none, a)
      else if tcpSeg.header.dport ≠ a.config.source.port then some (none, a)
      else
        match a.target ipDgram tcpSeg with
        | none => some (none, a)
        | some a =>
          if tcpSeg.header.sport ≠ a.config.destination.port then some (none, a)
          else some (some tcpSeg, a)

/-- The segment with its ports, and the datagram it is wrapped in. -/
def wrapTcpInIp (a : TCPOverIPv4Adapter) (seg : TCPSegment) : Option (TCPSegment × InternetDatagram) :=
  let seg : TCPSegment := { seg with
    header := { seg.header with sport := a.config.source.port, dport := a.config.destination.port } }
  let header : IPv4Header := {}
  let header : IPv4Header := { header with
    src := a.config.source.ipv4Numeric
    dst := a.config.destination.ipv4Numeric
    len := UInt16.ofNat (header.hlen.toNat * 4 + seg.header.doff.toNat * 4 + seg.payload.length) }
  match seg.serialize header.pseudoCksum with
  | none => none
  | some payload => some (seg, { header := header, payload := payload })

/-! ## One call -/

variable {a a' : TCPOverIPv4Adapter} {ipDgram : InternetDatagram} {seg : TCPSegment}

/-- The local and the remote end of a segment that came in a datagram. -/
def fourTuple (ipDgram : InternetDatagram) (seg : TCPSegment) : FdAdapterConfig :=
  { source := ⟨ipDgram.header.dst, seg.header.dport⟩
    destination := ⟨ipDgram.header.src, seg.header.sport⟩ }

def Contiguous (ipDgram : InternetDatagram) : Prop := ipDgram.payload.length ≤ 1

instance : DecidablePred Contiguous := fun _ => inferInstanceAs (Decidable (_ ≤ _))

theorem isSome_toBuffer (h : Contiguous ipDgram) : ∃ payload, ipDgram.payload.toBuffer = some payload := by
  unfold Contiguous at h
  match hp : ipDgram.payload, h with
  | [], _ => exact ⟨[], rfl⟩
  | [payload], _ => exact ⟨payload, rfl⟩

/-- The adapter belongs to the connection of the segment. -/
structure Bound (a : TCPOverIPv4Adapter) (tuple : FdAdapterConfig) : Prop where
  settled : a.listening = false
  config : a.config = tuple

theorem unwrapTcpInIp_cases (a : TCPOverIPv4Adapter) (h : Contiguous ipDgram) :
    a.unwrapTcpInIp ipDgram = some (none, a) ∨
      ∃ seg a', a.unwrapTcpInIp ipDgram = some (some seg, a') ∧ a'.Bound (fourTuple ipDgram seg) ∧
        (a.listening = false → a' = a) := by
  obtain ⟨payload, hpayload⟩ := isSome_toBuffer h
  unfold unwrapTcpInIp
  rw [hpayload]
  dsimp only
  generalize TCPSegment.parse {} payload ipDgram.header.pseudoCksum = parsed
  obtain ⟨result, seg⟩ := parsed
  split_ifs with hdst hsrc hproto hresult hdport
  · exact Or.inl rfl
  · exact Or.inl rfl
  · exact Or.inl rfl
  · exact Or.inl rfl
  · exact Or.inl rfl
  -- All checks have passed; what is left is the 4-tuple.
  unfold target
  by_cases hlisten : a.listening = true
  · rw [if_pos hlisten]
    split_ifs with hsyn
    · -- The port was just taken from the segment.
      dsimp only
      rw [if_neg (not_not.mpr rfl)]
      right
      refine ⟨seg, _, rfl, ⟨rfl, ?_⟩, fun hsettled => absurd hlisten (by simp [hsettled])⟩
      rw [fourTuple, not_not.mp hdport]
    · exact Or.inl rfl
  · rw [if_neg hlisten]
    dsimp only
    split_ifs with hsport
    · exact Or.inl rfl
    · right
      have hdst := not_not.mp fun hne => hdst ⟨hlisten, hne⟩
      have hsrc := not_not.mp fun hne => hsrc ⟨hlisten, hne⟩
      refine ⟨seg, a, rfl, ⟨by simpa using hlisten, ?_⟩, fun _ => rfl⟩
      rw [fourTuple, hdst, hsrc, not_not.mp hdport, not_not.mp hsport]

/-! ## Runs -/

/-- An adapter, and the segments it has returned with the datagrams they came in. -/
structure Trace where
  adapter : TCPOverIPv4Adapter
  returned : List (InternetDatagram × TCPSegment) := []
  deriving Repr, DecidableEq

def step (t : Trace) (ipDgram : InternetDatagram) : Option Trace :=
  match t.adapter.unwrapTcpInIp ipDgram with
  | none => none
  | some (none, a) => some { t with adapter := a }
  | some (some seg, a) => some { adapter := a, returned := t.returned ++ [(ipDgram, seg)] }

/-- Once a segment was returned, the adapter is bound to the connection of all that were. -/
def OneTuple (t : Trace) : Prop := ∀ x ∈ t.returned, t.adapter.Bound (fourTuple x.1 x.2)

theorem OneTuple.step {t : Trace} (ht : OneTuple t) (h : Contiguous ipDgram) :
    ∃ t', step t ipDgram = some t' ∧ OneTuple t' := by
  rcases unwrapTcpInIp_cases t.adapter h with heq | ⟨seg, a', heq, hbound, hkeep⟩
  · exact ⟨t, by rw [TCPOverIPv4Adapter.step, heq], ht⟩
  · refine ⟨_, by rw [TCPOverIPv4Adapter.step, heq], ?_⟩
    intro x hx
    rcases List.mem_append.mp hx with hx | hx
    · -- A segment was returned before, so the adapter did not listen and did not change.
      have hx := ht x hx
      rw [hkeep hx.settled]
      exact hx
    · obtain rfl := List.mem_singleton.mp hx
      exact hbound

/-- Connection isolation: a call that returns nothing changes nothing, a call that returns a
segment leaves the adapter bound to its 4-tuple, and all segments of a run have one 4-tuple. -/
theorem unwrap_isolated (a : TCPOverIPv4Adapter) (ipDgrams : List InternetDatagram)
    (h : ∀ d ∈ ipDgrams, Contiguous d) :
    (∀ (b : TCPOverIPv4Adapter) (d : InternetDatagram), Contiguous d →
      ∃ out b', b.unwrapTcpInIp d = some (out, b') ∧ (out = none → b' = b) ∧
        ∀ seg, out = some seg → b'.listening = false ∧ b'.config = fourTuple d seg) ∧
      ∃ t, run step { adapter := a } ipDgrams = some t ∧
        ∀ x ∈ t.returned, ∀ y ∈ t.returned, fourTuple x.1 x.2 = fourTuple y.1 y.2 := by
  constructor
  · intro b d hd
    rcases unwrapTcpInIp_cases b hd with heq | ⟨seg, b', heq, hbound, -⟩
    · exact ⟨none, b, heq, fun _ => rfl, by simp⟩
    · refine ⟨some seg, b', heq, by simp, ?_⟩
      rintro _ ⟨⟩
      exact ⟨hbound.settled, hbound.config⟩
  · obtain ⟨t, ht, hone⟩ := exists_run_inv (I := OneTuple) (fun _ _ ht hd => ht.step hd)
      (s := { adapter := a }) (by simp [OneTuple]) (allSteps_of_forall h)
    exact ⟨t, ht, fun x hx y hy => (hone x hx).config.symm.trans (hone y hy).config⟩

/-- The datagram as the other end parses it: its payload is in one buffer. -/
def received (a : TCPOverIPv4Adapter) (seg : TCPSegment) : InternetDatagram :=
  match a.wrapTcpInIp seg with
  | none => {}
  | some (_, d) => { d with payload := [d.payload.concatenate] }

/-- Two clients call one listener: a SYN and data of the first, and between them a SYN of the second. -/
def twoClients : List InternetDatagram :=
  let client (port : UInt16) : TCPOverIPv4Adapter := { config := ⟨⟨0x0a000001, port⟩, ⟨0x0a000002, 80⟩⟩ }
  [received (client 4000) { header := { syn := true } }, received (client 4001) { header := { syn := true } },
    received (client 4000) { header := { ack := true }, payload := [104, 105] }]

theorem unwrap_isolated_two_clients :
    (∀ d ∈ twoClients, Contiguous d) ∧
      ∃ t, run step { adapter := { config := ⟨⟨0, 80⟩, {}⟩, listening := true } } twoClients = some t ∧
        t.returned.length = 2 ∧ ∀ x ∈ t.returned, ∀ y ∈ t.returned, fourTuple x.1 x.2 = fourTuple y.1 y.2 := by
  have hcont : ∀ d ∈ twoClients, Contiguous d := by decide +kernel
  have hrun : ∃ t, run step { adapter := { config := ⟨⟨0, 80⟩, {}⟩, listening := true } } twoClients = some t ∧
      t.returned.length = 2 := by decide +kernel
  obtain ⟨t, ht, hcount⟩ := hrun
  obtain ⟨-, u, hu, hone⟩ := unwrap_isolated { config := ⟨⟨0, 80⟩, {}⟩, listening := true } twoClients hcont
  rw [ht] at hu
  cases hu
  exact ⟨hcont, t, ht, hcount, hone⟩

/-! ## From one end to the other -/

/-- The segment with the ports of the adapter. -/
def addressed (a : TCPOverIPv4Adapter) (seg : TCPSegment) : TCPSegment :=
  { seg with header := { seg.header with sport := a.config.source.port, dport := a.config.destination.port } }

def ipHeader (a : TCPOverIPv4Adapter) (seg : TCPSegment) : IPv4Header :=
  { src := a.config.source.ipv4Numeric
    dst := a.config.destination.ipv4Numeric
    len := UInt16.ofNat (5 * 4 + seg.header.doff.toNat * 4 + seg.payload.length) }

theorem wrapTcpInIp_eq {payload : BufferList}
    (h : (a.addressed seg).serialize (a.ipHeader seg).pseudoCksum = some payload) :
    a.wrapTcpInIp seg = some (a.addressed seg, { header := a.ipHeader seg, payload := payload }) := by
  unfold wrapTcpInIp
  simp only
  change (match (a.addressed seg).serialize (a.ipHeader seg).pseudoCksum with
    | none => none
    | some payload => some (a.addressed seg, ({ header := a.ipHeader seg, payload := payload } : InternetDatagram))) = _
  rw [h]

theorem unwrapTcpInIp_of_bound {payload : Buffer} (hpayload : ipDgram.payload = [payload])
    (hproto : ipDgram.header.proto = IPv4Header.protoTCP)
    (hparse : TCPSegment.parse {} payload ipDgram.header.pseudoCksum = (.noError, seg))
    (hbound : a.Bound (fourTuple ipDgram seg)) : a.unwrapTcpInIp ipDgram = some (some seg, a) := by
  obtain ⟨hsettled, hconfig⟩ := hbound
  unfold unwrapTcpInIp target
  rw [hpayload]
  simp only [BufferList.toBuffer, hparse, hsettled, hproto]
  simp [hconfig, fourTuple]

theorem unwrapTcpInIp_of_wrapTcpInIp {b : TCPOverIPv4Adapter} (hsettled : b.listening = false)
    (hsource : b.config.source = a.config.destination) (hdestination : b.config.destination = a.config.source)
    (hmin : 5 ≤ seg.header.doff.toNat) (hmax : seg.header.doff.toNat ≤ 15)
    (hlen : 20 + 4 * seg.header.doff.toNat + seg.payload.length ≤ 65535) :
    ∃ sent d bytes v, a.wrapTcpInIp seg = some (sent, d) ∧ d.serialize = some bytes ∧
      (IPv4Datagram.parse {} bytes.concatenate).1 = .noError ∧
      b.unwrapTcpInIp (IPv4Datagram.parse {} bytes.concatenate).2 =
        some (some { sent with header := { sent.header with cksum := v } }, b) := by
  obtain ⟨payload, v, hser, hsize, hparse⟩ := TCPSegment.exists_serialize (a.addressed seg) {}
    (a.ipHeader seg).pseudoCksum_lt hmin hmax (by simp only [addressed]; omega)
  -- The length field of the IPv4 header is right because the two headers and the payload fit in 16 bits.
  have hsize : payload.size = 4 * seg.header.doff.toNat + seg.payload.length := hsize
  have hhlen : (a.ipHeader seg).hlen.toNat = 5 := rfl
  have htotal : (a.ipHeader seg).len.toNat = 20 + 4 * seg.header.doff.toNat + seg.payload.length := by
    simp only [ipHeader, UInt16.toNat_ofNat']
    omega
  obtain ⟨bytes, w, hbytes, hdgram, -⟩ := IPv4Datagram.exists_serialize {}
    (d := { header := a.ipHeader seg, payload := payload })
    ⟨rfl, by rw [hhlen], by rw [hhlen]; omega, by simp [ipHeader]⟩ (by simp only [hsize, htotal, hhlen]; omega)
  refine ⟨_, _, bytes, v, wrapTcpInIp_eq hser, hbytes, by rw [hdgram], ?_⟩
  rw [hdgram]
  refine unwrapTcpInIp_of_bound rfl rfl hparse ⟨hsettled, ?_⟩
  simp only [fourTuple, addressed, ipHeader, ← hsource, ← hdestination]

end TCPOverIPv4Adapter

end Sponge
