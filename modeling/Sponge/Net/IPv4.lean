import Sponge.Net.Checksum
import Sponge.Net.Parser

/-!
# IPv4 headers and datagrams

`libsponge/tcp_helpers/ipv4_header.cc` and `ipv4_datagram.cc`. Parsing changes the
object it is called on; here it returns the result, the new object and, for a
header, the rest of the input. `serialize` is `none` where the source throws.
-/

namespace Sponge

structure IPv4Header where
  ver : UInt8 := 4
  hlen : UInt8 := 5
  tos : UInt8 := 0
  len : UInt16 := 0
  id : UInt16 := 0
  df : Bool := true
  mf : Bool := false
  offset : UInt16 := 0
  ttl : UInt8 := 128
  proto : UInt8 := 6
  cksum : UInt16 := 0
  src : UInt32 := 0
  dst : UInt32 := 0
  deriving Repr, DecidableEq

/-- `string::resize`. -/
def resize (s : Buffer) (n : Nat) : Buffer := s.take n ++ List.replicate (n - s.length) 0

namespace IPv4Header

def length : Nat := 20

/-- The reads of `parse`, in their order. -/
def readFields : StateM NetParser IPv4Header := do
  let firstByte ← NetParser.u8
  let tos ← NetParser.u8
  let len ← NetParser.u16
  let id ← NetParser.u16
  let foVal ← NetParser.u16
  let ttl ← NetParser.u8
  let proto ← NetParser.u8
  let cksum ← NetParser.u16
  let src ← NetParser.u32
  let dst ← NetParser.u32
  return {
    ver := firstByte >>> 4
    hlen := firstByte &&& 0x0f
    tos := tos
    len := len
    id := id
    df := (foVal &&& 0x4000) != 0
    mf := (foVal &&& 0x2000) != 0
    offset := foVal &&& 0x1fff
    ttl := ttl
    proto := proto
    cksum := cksum
    src := src
    dst := dst }

def parse (h : IPv4Header) (p : NetParser) : ParseResult × IPv4Header × NetParser :=
  let original := p.buffer
  let dataSize := p.buffer.length
  if dataSize < length then (.packetTooShort, h, p)
  else
    let (h, p) := readFields p
    if dataSize < 4 * h.hlen.toNat then (.packetTooShort, h, p)
    else if h.ver ≠ 4 then (.wrongIPVersion, h, p)
    else if h.hlen < 5 then (.headerTooShort, h, p)
    else if dataSize ≠ h.len.toNat then (.truncatedPacket, h, p)
    else
      let p := p.removePrefix (h.hlen.toNat * 4 - length)
      if p.error ≠ .noError then (p.error, h, p)
      else
        let check := InternetChecksum.add {} (original.take (4 * h.hlen.toNat))
        if check.value ≠ 0 then (.badChecksum, h, p) else (.noError, h, p)

def serialize (h : IPv4Header) : Option Buffer :=
  if h.ver ≠ 4 then none
  else if 4 * h.hlen.toNat < length then none
  else
    let firstByte := (h.ver <<< 4) ||| (h.hlen &&& 0xf)
    let foVal := (if h.df then 0x4000 else 0) ||| (if h.mf then 0x2000 else 0) ||| (h.offset &&& 0x1fff)
    let ret := NetUnparser.u8 firstByte ++ NetUnparser.u8 h.tos ++ NetUnparser.u16 h.len ++ NetUnparser.u16 h.id ++
      NetUnparser.u16 foVal ++ NetUnparser.u8 h.ttl ++ NetUnparser.u8 h.proto ++ NetUnparser.u16 h.cksum ++
      NetUnparser.u32 h.src ++ NetUnparser.u32 h.dst
    some (resize ret (4 * h.hlen.toNat))

/-- The difference is taken modulo `2 ^ 16`. -/
def payloadLength (h : IPv4Header) : UInt16 := h.len - 4 * h.hlen.toUInt16

theorem toNat_payloadLength (h : IPv4Header) :
    h.payloadLength.toNat = (h.len.toNat + 65536 - 4 * h.hlen.toNat) % 65536 := by
  have hhlen := h.hlen.toNat_lt
  have hlen := h.len.toNat_lt
  unfold payloadLength
  rw [UInt16.toNat_sub, UInt16.toNat_mul, UInt8.toNat_toUInt16]
  simp only [UInt16.reduceToNat]
  omega

def pseudoCksum (h : IPv4Header) : UInt32 :=
  let low : UInt32 := 0xffff
  let pcksum := (h.src >>> 16) + (h.src &&& low)
  let pcksum := pcksum + ((h.dst >>> 16) + (h.dst &&& low))
  pcksum + h.proto.toUInt32 + h.payloadLength.toUInt32

end IPv4Header

structure IPv4Datagram where
  header : IPv4Header := {}
  payload : BufferList := []
  deriving Repr, DecidableEq

abbrev InternetDatagram := IPv4Datagram

namespace IPv4Datagram

def parse (d : IPv4Datagram) (buffer : Buffer) : ParseResult × IPv4Datagram :=
  let (_, header, p) := d.header.parse { buffer := buffer }
  let d := { header := header, payload := [p.buffer] }
  if d.payload.size ≠ d.header.payloadLength.toNat then (.packetTooShort, d)
  else (p.error, d)

def serialize (d : IPv4Datagram) : Option BufferList :=
  if d.payload.size ≠ d.header.payloadLength.toNat then none
  else
    let headerOut := { d.header with cksum := 0 }
    match headerOut.serialize with
    | none => none
    | some headerZeroChecksum =>
      let check := InternetChecksum.add {} headerZeroChecksum
      match { headerOut with cksum := check.value }.serialize with
      | none => none
      | some header => some (header :: d.payload)

end IPv4Datagram

end Sponge
