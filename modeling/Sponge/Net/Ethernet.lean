import Sponge.Net.ARP

/-!
# The codec of Ethernet frames

`libsponge/tcp_helpers/ethernet_header.cc` and `ethernet_frame.cc`. The header
reports a string that is too short in the result of its `parse`, which the frame
does not look at: the parser itself has not failed.
-/

namespace Sponge

open ARPMessage NetParser

namespace EthernetHeader

def length : Nat := 14

def readFields : StateM NetParser EthernetHeader := do
  let dst ← readBytes 6
  let src ← readBytes 6
  let type ← u16
  return { dst := dst, src := src, type := type }

/-- The result, the header and the parser behind it. -/
def parse (h : EthernetHeader) (p : NetParser) : ParseResult × EthernetHeader × NetParser :=
  if p.buffer.length < length then (.packetTooShort, h, p)
  else
    let (h, p) := readFields p
    (p.error, h, p)

def serialize (h : EthernetHeader) : Buffer :=
  writeBytes h.dst.toList ++ (writeBytes h.src.toList ++ NetUnparser.u16 h.type)

theorem length_serialize (h : EthernetHeader) : h.serialize.length = length := by
  simp [serialize, length_writeBytes, length]

theorem readFields_append (h : EthernetHeader) (rest : Buffer) :
    readFields { buffer := h.serialize ++ rest } = (h, { buffer := rest }) := by
  unfold readFields serialize
  rw [List.append_assoc, List.append_assoc, bind_of_eq (readBytes_append _ _), bind_of_eq (readBytes_append _ _),
    bind_of_eq (u16_append _), pure_run]

/-- The header in the first 14 bytes of a string. -/
def headerAt (b : Buffer) : EthernetHeader where
  dst := bytesAt b 0 6
  src := bytesAt b 6 6
  type := u16At b 12

variable {b : Buffer}

theorem readFields_at (h : length ≤ b.length) :
    readFields { buffer := b } = (headerAt b, { buffer := b.drop length }) := by
  have hstart : ({ buffer := b } : NetParser) = { buffer := b.drop 0 } := rfl
  unfold length at h
  unfold readFields
  rw [hstart]
  simp (disch := omega) only [bind_run, pure_run, readBytes_at, u16_at, Nat.reduceAdd]
  rfl

theorem serialize_headerAt (h : length ≤ b.length) : (headerAt b).serialize = b.take length := by
  unfold length at h ⊢
  unfold serialize headerAt
  simp only
  rw [writeBytes_bytesAt (by omega), writeBytes_bytesAt (by omega), u16_u16At (by omega), take_drop_append b 6 6 2,
    take_drop_append b 0 6 8, List.drop_zero]

end EthernetHeader

namespace EthernetFrame

variable {b : Buffer}

def parse (frame : EthernetFrame) (buffer : Buffer) : ParseResult × EthernetFrame :=
  let (_, header, p) := frame.header.parse { buffer := buffer }
  (p.error, { header := header, payload := [p.buffer] })

def serialize (frame : EthernetFrame) : BufferList := frame.header.serialize :: frame.payload

theorem concatenate_serialize (frame : EthernetFrame) :
    frame.serialize.concatenate = frame.header.serialize ++ frame.payload.concatenate := List.flatten_cons

theorem parse_serialize_frame (frame old : EthernetFrame) :
    parse old frame.serialize.concatenate =
      (.noError, { header := frame.header, payload := [frame.payload.concatenate] }) := by
  have hlong : ¬ (frame.header.serialize ++ frame.payload.concatenate).length < EthernetHeader.length := by
    rw [List.length_append, EthernetHeader.length_serialize]
    omega
  rw [concatenate_serialize]
  unfold parse EthernetHeader.parse
  simp only [if_neg hlong, EthernetHeader.readFields_append]

theorem parse_of_long (frame : EthernetFrame) (h : EthernetHeader.length ≤ b.length) :
    parse frame b =
      (.noError, { header := EthernetHeader.headerAt b, payload := [b.drop EthernetHeader.length] }) := by
  unfold parse EthernetHeader.parse
  simp only [if_neg (not_lt.mpr h), EthernetHeader.readFields_at h]

theorem parse_of_short (frame : EthernetFrame) (h : b.length < EthernetHeader.length) :
    parse frame b = (.noError, { header := frame.header, payload := [b] }) := by
  unfold parse EthernetHeader.parse
  simp only [if_pos h]

theorem short_frame_accepted :
    (parse {} [1, 2, 3]).1 = .noError ∧ (parse {} [1, 2, 3]).2.serialize.concatenate.length = 17 := by
  decide

/-- Frames are parsed as they were serialized, and a string of at least 14 bytes is serialized as it
was parsed. -/
theorem frame_codec_exact (frame old : EthernetFrame) (b : Buffer) (hb : EthernetHeader.length ≤ b.length) :
    ((parse old frame.serialize.concatenate).1 = .noError ∧
      (parse old frame.serialize.concatenate).2.header = frame.header ∧
      (parse old frame.serialize.concatenate).2.payload.concatenate = frame.payload.concatenate) ∧
    ((parse old b).1 = .noError ↔ EthernetHeader.length ≤ b.length) ∧
    (parse old b).2.serialize.concatenate = b := by
  rw [parse_serialize_frame, parse_of_long old hb]
  refine ⟨⟨rfl, rfl, ?_⟩, iff_of_true rfl hb, ?_⟩
  · simp [BufferList.concatenate]
  · rw [concatenate_serialize, EthernetHeader.serialize_headerAt hb]
    simp [BufferList.concatenate]

theorem frame_codec_exact_sample :
    let frame : EthernetFrame := { header := { dst := ethernetBroadcast, type := 0x806 }, payload := [[1, 2], [3]] }
    let b : Buffer := List.replicate 14 7
    ((parse {} frame.serialize.concatenate).1 = .noError ∧
      (parse {} frame.serialize.concatenate).2.header = frame.header ∧
      (parse {} frame.serialize.concatenate).2.payload.concatenate = frame.payload.concatenate) ∧
    ((parse {} b).1 = .noError ↔ EthernetHeader.length ≤ b.length) ∧ (parse {} b).2.serialize.concatenate = b :=
  frame_codec_exact _ {} _ (by decide)

end EthernetFrame

end Sponge
