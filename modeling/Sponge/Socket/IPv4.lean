import Sponge.Socket.EndToEnd

/-!
# Segments inside datagrams

What the two adapters of `libsponge/tcp_helpers/tuntap_adapter.hh` share. The addresses in
the header of a datagram tell an adapter who has sent it, and the checksums tell nothing
about that: two sockets are safe from a third as long as nobody writes their addresses
into a datagram. On its way a datagram may be given another time to live and another
checksum, as a router does, but not another payload.
-/

namespace Sponge

/-- What is left alone on the way: the payload, and the fields that the checksum of TCP covers. -/
def InternetDatagram.cargo (d : InternetDatagram) : BufferList × UInt32 := (d.payload, d.header.pseudoCksum)

/-- The datagram that a packet is accepted as. -/
def datagramOf (packet : Buffer) : Option InternetDatagram :=
  let (result, d) := IPv4Datagram.parse {} packet
  if result = .noError then some d else none

/-- What `serialize` throws, for a datagram whose version is 4 and whose header is long enough. -/
def IPv4Datagram.wrongSize : Thrown := .runtimeError "IPv4Datagram::serialize: payload is wrong size"

/-- What the conversion of a payload of many buffers to one throws. -/
def BufferList.notContiguous : Thrown := .runtimeError
  "BufferList: please use concatenate() to combine a multi-Buffer BufferList into one Buffer"

theorem payload_parse (old : IPv4Datagram) (data : Buffer) :
    ∃ payload, (IPv4Datagram.parse old data).2.payload = [payload] := by
  unfold IPv4Datagram.parse
  simp only
  split_ifs <;> exact ⟨_, rfl⟩

theorem payload_datagramOf {packet : Buffer} {d : InternetDatagram} (h : datagramOf packet = some d) :
    ∃ payload, d.payload = [payload] := by
  unfold datagramOf at h
  simp only at h
  split_ifs at h
  cases h
  exact payload_parse {} packet

namespace TCPOverIPv4Adapter

variable {base base' before : TCPOverIPv4Adapter} {d d' : InternetDatagram} {seg seg' : TCPSegment}
  {hosts : Side → UInt32} {p : Side}

/-- The payload of the datagram is parsed to the segment. -/
def Delivers (d : InternetDatagram) (seg : TCPSegment) : Prop :=
  ∃ payload, d.payload = [payload] ∧ TCPSegment.parse {} payload d.header.pseudoCksum = (.noError, seg)

theorem Delivers.congr (h : Delivers d seg) (hcargo : d.cargo = d'.cargo) : Delivers d' seg := by
  obtain ⟨payload, hpayload, hparse⟩ := h
  obtain ⟨hsame, hcksum⟩ := Prod.mk.inj hcargo
  exact ⟨payload, by rw [← hsame, hpayload], by rw [← hcksum, hparse]⟩

theorem core_of_delivers {sent : TCPSegment} {packet : BufferList} (hseg : seg.Sendable)
    (hwrap : base.wrapTcpInIp seg = some (sent, d)) (hserialize : d.serialize = some packet)
    (hpacket : datagramOf packet.concatenate = some d') (hdelivers : Delivers d' seg') : seg'.core = seg.core := by
  have hdoff : seg.header.doff.toNat = 5 := by
    rw [hseg.doff]
    rfl
  have hshort := hseg.short
  simp only [TCPConfig.maxPayloadSize] at hshort
  obtain ⟨payload, v, hser, hsize, hparse⟩ := TCPSegment.exists_serialize (base.addressed seg) {}
    (base.ipHeader seg).pseudoCksum_lt hdoff.ge (by simp only [addressed]; omega) (by simp only [addressed]; omega)
  have hsize : payload.size = 4 * seg.header.doff.toNat + seg.payload.length := hsize
  have hlen : (base.ipHeader seg).len.toNat = 20 + payload.size := by
    simp only [ipHeader, UInt16.toNat_ofNat']
    omega
  rw [wrapTcpInIp_eq hser] at hwrap
  obtain ⟨-, rfl⟩ := Prod.mk.inj (Option.some.inj hwrap)
  have hhlen : (base.ipHeader seg).hlen.toNat = 5 := rfl
  obtain ⟨bytes, w, hbytes, hdgram, -⟩ := IPv4Datagram.exists_serialize {}
    (d := { header := base.ipHeader seg, payload := payload })
    ⟨rfl, by rw [hhlen], by rw [hhlen]; omega, by simp [ipHeader]⟩ (by simp only [hhlen, hlen])
  rw [hserialize, Option.some.injEq] at hbytes
  rw [hbytes, datagramOf, hdgram] at hpacket
  cases hpacket
  obtain ⟨front, hfront, hseg'⟩ := hdelivers
  obtain ⟨rfl, -⟩ := List.cons.inj hfront
  -- The pseudo header does not include the checksum of the IPv4 header.
  have hcksum : ({ base.ipHeader seg with cksum := w } : IPv4Header).pseudoCksum = (base.ipHeader seg).pseudoCksum := rfl
  rw [hcksum, hparse] at hseg'
  rw [← (Prod.mk.inj hseg').2]
  rfl

theorem delivers_of_unwrapTcpInIp (hpayload : ∃ payload, d.payload = [payload])
    (h : base.unwrapTcpInIp d = some (some seg, base')) : Delivers d seg := by
  obtain ⟨payload, hpayload⟩ := hpayload
  refine ⟨payload, hpayload, ?_⟩
  unfold unwrapTcpInIp at h
  rw [hpayload] at h
  simp only [BufferList.toBuffer] at h
  split_ifs at h with hdst hsrc hproto hresult hport
  · cases h
  · cases h
  · cases h
  · cases h
  · cases h
  split at h
  · cases h
  split_ifs at h
  · cases h
  obtain ⟨hseg, -⟩ := Prod.mk.inj (Option.some.inj h)
  exact Prod.ext (not_not.mp hresult) (Option.some.inj hseg)

/-! ## Two hosts -/

/-- The datagram says that it comes from the other side and is for this one. -/
def Ours (hosts : Side → UInt32) (p : Side) (d : InternetDatagram) : Prop :=
  d.header.src = hosts p.other ∧ d.header.dst = hosts p

instance : Decidable (Ours hosts p d) := inferInstanceAs (Decidable (_ ∧ _))

/-- The network can bring the datagram to a side when `sent` has left the other one: nobody else uses
the two addresses, and nobody else writes to a side that still listens. -/
def Brought (hosts : Side → UInt32) (p : Side) (sent : List InternetDatagram) (listening : Bool) (d : InternetDatagram) :
    Prop :=
  if Ours hosts p d then d.cargo ∈ sent.map InternetDatagram.cargo else listening = false

instance {sent : List InternetDatagram} {listening : Bool} : Decidable (Brought hosts p sent listening d) :=
  inferInstanceAs (Decidable (if Ours hosts p d then d.cargo ∈ sent.map InternetDatagram.cargo else listening = false))

/-- Once it does not listen any more, the adapter is for the two hosts. -/
structure Knows (hosts : Side → UInt32) (p : Side) (before base : TCPOverIPv4Adapter) : Prop where
  hosts : base.listening = false →
    base.config.source.ipv4Numeric = hosts p ∧ base.config.destination.ipv4Numeric = hosts p.other
  listening : base.listening = true → before.listening = true

theorem Knows.unwrap {sent : List InternetDatagram} {out : Option TCPSegment} (h : Knows hosts p before base)
    (hbrought : Brought hosts p sent before.listening d) (hpayload : ∃ payload, d.payload = [payload])
    (hunwrap : base.unwrapTcpInIp d = some (out, base')) :
    Knows hosts p before base' ∧ ∀ seg, out = some seg → ∃ d' ∈ sent, Delivers d' seg := by
  have hcontiguous : Contiguous d := by
    obtain ⟨payload, hpayload⟩ := hpayload
    rw [Contiguous, hpayload]
    exact Nat.le_refl _
  rcases unwrapTcpInIp_cases base hcontiguous with hnone | ⟨seg, base₁, hsome, hbound, hkeep⟩
  · rw [hnone] at hunwrap
    cases hunwrap
    exact ⟨h, by simp⟩
  rw [hsome] at hunwrap
  cases hunwrap
  -- While it listens no other datagram comes, and later it looks at the addresses.
  have hours : Ours hosts p d := by
    by_contra hstranger
    rw [Brought, if_neg hstranger] at hbrought
    have hsettled : base.listening = false := by
      by_contra hlistening
      rw [h.listening (by simpa using hlistening)] at hbrought
      cases hbrought
    have hhosts := h.hosts hsettled
    rw [← hkeep hsettled, hbound.config] at hhosts
    exact hstranger ⟨hhosts.2, hhosts.1⟩
  rw [Brought, if_pos hours, List.mem_map] at hbrought
  obtain ⟨d', hd', hcargo⟩ := hbrought
  refine ⟨⟨fun _ => ?_, by simp [hbound.settled]⟩, ?_⟩
  · rw [hbound.config]
    exact ⟨hours.2, hours.1⟩
  · rintro _ ⟨⟩
    exact ⟨d', hd', (delivers_of_unwrapTcpInIp hpayload hsome).congr hcargo.symm⟩

end TCPOverIPv4Adapter

end Sponge
