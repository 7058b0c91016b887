import Mathlib.Data.Vector.Basic
import Sponge.Net.IPv4

/-!
# Ethernet frames and ARP messages

`libsponge/tcp_helpers/ethernet_header.hh`, `ethernet_frame.hh` and
`arp_message.cc`. An Ethernet address is an array of six bytes.
-/

namespace Sponge

open NetParser

abbrev EthernetAddress := List.Vector UInt8 6

/-- The address in which every byte is `b`. -/
def ethernetAddress (b : UInt8) : EthernetAddress := List.Vector.replicate 6 b

def ethernetBroadcast : EthernetAddress := ethernetAddress 0xff

structure EthernetHeader where
  dst : EthernetAddress := ethernetAddress 0
  src : EthernetAddress := ethernetAddress 0
  type : UInt16 := 0
  deriving DecidableEq

namespace EthernetHeader

def typeIPv4 : UInt16 := 0x800

def typeARP : UInt16 := 0x806

end EthernetHeader

structure EthernetFrame where
  header : EthernetHeader := {}
  payload : BufferList := []
  deriving DecidableEq

structure ARPMessage where
  hardwareType : UInt16 := 1
  protocolType : UInt16 := EthernetHeader.typeIPv4
  hardwareAddressSize : UInt8 := 6
  protocolAddressSize : UInt8 := 4
  opcode : UInt16 := 0
  senderEthernetAddress : EthernetAddress := ethernetAddress 0
  senderIpAddress : UInt32 := 0
  targetEthernetAddress : EthernetAddress := ethernetAddress 0
  targetIpAddress : UInt32 := 0
  deriving DecidableEq

namespace ARPMessage

def length : Nat := 28

def typeEthernet : UInt16 := 1

def opcodeRequest : UInt16 := 1

def opcodeReply : UInt16 := 2

def supported (m : ARPMessage) : Bool :=
  m.hardwareType == typeEthernet && m.protocolType == EthernetHeader.typeIPv4 && m.hardwareAddressSize == 6 &&
    m.protocolAddressSize == 4 && (m.opcode == opcodeRequest || m.opcode == opcodeReply)

/-- The loop that reads an address byte by byte. -/
def readBytes : (n : Nat) → StateM NetParser (List.Vector UInt8 n)
  | 0 => return List.Vector.nil
  | n + 1 => do
    let byte ← u8
    let rest ← readBytes n
    return List.Vector.cons byte rest

def readTypes (m : ARPMessage) : StateM NetParser ARPMessage := do
  let hardwareType ← u16
  let protocolType ← u16
  let hardwareAddressSize ← u8
  let protocolAddressSize ← u8
  let opcode ← u16
  return { m with
    hardwareType := hardwareType
    protocolType := protocolType
    hardwareAddressSize := hardwareAddressSize
    protocolAddressSize := protocolAddressSize
    opcode := opcode }

def readAddresses (m : ARPMessage) : StateM NetParser ARPMessage := do
  let senderEthernetAddress ← readBytes 6
  let senderIpAddress ← u32
  let targetEthernetAddress ← readBytes 6
  let targetIpAddress ← u32
  return { m with
    senderEthernetAddress := senderEthernetAddress
    senderIpAddress := senderIpAddress
    targetEthernetAddress := targetEthernetAddress
    targetIpAddress := targetIpAddress }

def parse (m : ARPMessage) (buffer : Buffer) : ParseResult × ARPMessage :=
  let p : NetParser := { buffer := buffer }
  if p.buffer.length < length then (.packetTooShort, m)
  else
    let (m, p) := m.readTypes p
    if !m.supported then (.unsupported, m)
    else
      let (m, p) := m.readAddresses p
      (p.error, m)

/-- The loop that writes an address byte by byte. -/
def writeBytes (address : List UInt8) : Buffer := address.flatMap NetUnparser.u8

def types (m : ARPMessage) : Buffer :=
  NetUnparser.u16 m.hardwareType ++ (NetUnparser.u16 m.protocolType ++ (NetUnparser.u8 m.hardwareAddressSize ++
    (NetUnparser.u8 m.protocolAddressSize ++ NetUnparser.u16 m.opcode)))

def addresses (m : ARPMessage) : Buffer :=
  writeBytes m.senderEthernetAddress.toList ++ (NetUnparser.u32 m.senderIpAddress ++
    (writeBytes m.targetEthernetAddress.toList ++ NetUnparser.u32 m.targetIpAddress))

def serialize (m : ARPMessage) : Option Buffer :=
  if !m.supported then none else some (m.types ++ m.addresses)

/-! ## Reading back what was written -/

variable {m : ARPMessage}

theorem readBytes_append {n : Nat} (address : List.Vector UInt8 n) (rest : Buffer) :
    readBytes n { buffer := writeBytes address.toList ++ rest } = (address, { buffer := rest }) := by
  induction n with
  | zero =>
    rw [List.Vector.eq_nil address]
    rfl
  | succ n ih =>
    obtain ⟨byte, tail, rfl⟩ : ∃ byte tail, address = List.Vector.cons byte tail :=
      ⟨address.head, address.tail, (List.Vector.cons_head_tail address).symm⟩
    have hwrite : writeBytes (List.Vector.cons byte tail).toList ++ rest =
        NetUnparser.u8 byte ++ (writeBytes tail.toList ++ rest) := by
      simp [writeBytes, List.Vector.toList_cons]
    simp only [hwrite, readBytes, bind_run, u8_append, ih, pure_run]

theorem readTypes_append (m₀ : ARPMessage) (rest : Buffer) :
    readTypes m₀ { buffer := m.types ++ rest } =
      ({ m₀ with
          hardwareType := m.hardwareType
          protocolType := m.protocolType
          hardwareAddressSize := m.hardwareAddressSize
          protocolAddressSize := m.protocolAddressSize
          opcode := m.opcode }, { buffer := rest }) := by
  simp only [readTypes, types, List.append_assoc, bind_run, u16_append, u8_append, pure_run]

theorem readAddresses_eq (m₀ : ARPMessage) :
    readAddresses m₀ { buffer := m.addresses } =
      ({ m₀ with
          senderEthernetAddress := m.senderEthernetAddress
          senderIpAddress := m.senderIpAddress
          targetEthernetAddress := m.targetEthernetAddress
          targetIpAddress := m.targetIpAddress }, { buffer := [] }) := by
  have hlast : u32 { buffer := NetUnparser.u32 m.targetIpAddress ++ [] } = (m.targetIpAddress, { buffer := [] }) :=
    u32_append m.targetIpAddress
  rw [List.append_nil] at hlast
  simp only [readAddresses, addresses, bind_run, readBytes_append, u32_append, hlast, pure_run]

theorem length_writeBytes (address : List UInt8) : (writeBytes address).length = address.length := by
  induction address with
  | nil => rfl
  | cons b address ih =>
    simp only [writeBytes, List.flatMap_cons, List.length_append, List.length_cons] at ih ⊢
    simp only [ih, NetUnparser.u8, BigEndian.length_encode]
    omega

theorem length_types_addresses (m : ARPMessage) : (m.types ++ m.addresses).length = length := by
  simp [types, addresses, NetUnparser.u8, NetUnparser.u16, NetUnparser.u32, length_writeBytes, length]

theorem serialize_of_supported (h : m.supported = true) : m.serialize = some (m.types ++ m.addresses) := by
  simp [serialize, h]

theorem parse_serialize (h : m.supported = true) (m₀ : ARPMessage) :
    parse m₀ (m.types ++ m.addresses) = (.noError, m) := by
  unfold parse
  simp only
  rw [if_neg (by rw [length_types_addresses]; omega)]
  simp only [readTypes_append, readAddresses_eq]
  unfold supported at h ⊢
  simp only [h, Bool.not_true, Bool.false_eq_true, if_false]

/-! ## Writing back what was read -/

variable {b : Buffer} {i n : Nat}

/-- The `n` bytes from position `i` on. -/
def bytesAt (b : Buffer) (i : Nat) : (n : Nat) → List.Vector UInt8 n
  | 0 => List.Vector.nil
  | n + 1 => List.Vector.cons (u8At b i) (bytesAt b (i + 1) n)

theorem readBytes_at (h : i + n ≤ b.length) :
    readBytes n { buffer := b.drop i } = (bytesAt b i n, { buffer := b.drop (i + n) }) := by
  induction n generalizing i with
  | zero => rfl
  | succ n ih =>
    unfold readBytes
    rw [bind_of_eq (u8_at (by omega)), bind_of_eq (ih (by omega)), pure_run, bytesAt, Nat.add_right_comm, Nat.add_assoc]

theorem writeBytes_bytesAt (h : i + n ≤ b.length) : writeBytes (bytesAt b i n).toList = (b.drop i).take n := by
  induction n generalizing i with
  | zero => rfl
  | succ n ih =>
    have hrest := ih (i := i + 1) (by omega)
    unfold writeBytes at hrest ⊢
    rw [bytesAt, List.Vector.toList_cons, List.flatMap_cons, u8_u8At (by omega), hrest, take_drop_append, Nat.add_comm]

theorem readTypes_at (m : ARPMessage) (h : 28 ≤ b.length) :
    readTypes m { buffer := b } =
      ({ m with
          hardwareType := u16At b 0
          protocolType := u16At b 2
          hardwareAddressSize := u8At b 4
          protocolAddressSize := u8At b 5
          opcode := u16At b 6 }, { buffer := b.drop 8 }) := by
  have hstart : ({ buffer := b } : NetParser) = { buffer := b.drop 0 } := rfl
  unfold readTypes
  rw [hstart]
  simp (disch := omega) only [bind_run, pure_run, u8_at, u16_at, Nat.reduceAdd]

theorem readAddresses_at (m : ARPMessage) (h : 28 ≤ b.length) :
    readAddresses m { buffer := b.drop 8 } =
      ({ m with
          senderEthernetAddress := bytesAt b 8 6
          senderIpAddress := u32At b 14
          targetEthernetAddress := bytesAt b 18 6
          targetIpAddress := u32At b 24 }, { buffer := b.drop 28 }) := by
  unfold readAddresses
  simp (disch := omega) only [bind_run, pure_run, readBytes_at, u32_at, Nat.reduceAdd]

/-- The message in the first 28 bytes of a string. -/
def messageAt (b : Buffer) : ARPMessage where
  hardwareType := u16At b 0
  protocolType := u16At b 2
  hardwareAddressSize := u8At b 4
  protocolAddressSize := u8At b 5
  opcode := u16At b 6
  senderEthernetAddress := bytesAt b 8 6
  senderIpAddress := u32At b 14
  targetEthernetAddress := bytesAt b 18 6
  targetIpAddress := u32At b 24

theorem types_messageAt (h : 28 ≤ b.length) : (messageAt b).types = b.take 8 := by
  unfold types messageAt
  simp only
  rw [u16_u16At (by omega), u16_u16At (by omega), u8_u8At (by omega), u8_u8At (by omega), u16_u16At (by omega),
    take_drop_append b 5 1 2, take_drop_append b 4 1 3, take_drop_append b 2 2 4, take_drop_append b 0 2 6,
    List.drop_zero]

theorem addresses_messageAt (h : 28 ≤ b.length) : (messageAt b).addresses = (b.drop 8).take 20 := by
  unfold addresses messageAt
  simp only
  rw [writeBytes_bytesAt (by omega), u32_u32At (by omega), writeBytes_bytesAt (by omega), u32_u32At (by omega),
    take_drop_append b 18 6 4, take_drop_append b 14 4 10, take_drop_append b 8 6 14]

theorem parse_of_long (m : ARPMessage) (h : 28 ≤ b.length) :
    (parse m b).1 = (if (messageAt b).supported then .noError else .unsupported) ∧
      ((messageAt b).supported = true → (parse m b).2 = messageAt b) := by
  have hlength : ¬ b.length < length := not_lt.mpr h
  unfold parse
  simp only [if_neg hlength, readTypes_at m h]
  change (if !(messageAt b).supported then _ else _ : ParseResult × ARPMessage).1 = _ ∧ (_ →
    (if !(messageAt b).supported then _ else _ : ParseResult × ARPMessage).2 = _)
  cases hsupported : (messageAt b).supported with
  | false => simp
  | true =>
    simp only [Bool.not_true, Bool.false_eq_true, if_false, if_true, readAddresses_at _ h]
    exact ⟨trivial, fun _ => rfl⟩

theorem supported_messageAt_iff : (messageAt b).supported = true ↔
    u16At b 0 = typeEthernet ∧ u16At b 2 = EthernetHeader.typeIPv4 ∧ u8At b 4 = 6 ∧ u8At b 5 = 4 ∧
      (u16At b 6 = opcodeRequest ∨ u16At b 6 = opcodeReply) := by
  simp only [supported, messageAt, Bool.and_eq_true, Bool.or_eq_true, beq_iff_eq, and_assoc]

/-- What is serialized is parsed again; a string is parsed exactly when it has room for a message and
begins with supported types, and then its first 28 bytes are those of the message. -/
theorem arp_codec_exact (m₀ : ARPMessage) :
    (∀ m : ARPMessage, m.supported = true →
      ∃ bytes, m.serialize = some bytes ∧ parse m₀ bytes = (.noError, m)) ∧
    ∀ b : Buffer,
      ((parse m₀ b).1 = .noError ↔ 28 ≤ b.length ∧ u16At b 0 = typeEthernet ∧ u16At b 2 = EthernetHeader.typeIPv4 ∧
        u8At b 4 = 6 ∧ u8At b 5 = 4 ∧ (u16At b 6 = opcodeRequest ∨ u16At b 6 = opcodeReply)) ∧
      ((parse m₀ b).1 = .noError → (parse m₀ b).2.serialize = some (b.take 28)) := by
  refine ⟨fun m hm => ⟨_, serialize_of_supported hm, parse_serialize hm m₀⟩, fun b => ?_⟩
  rw [← supported_messageAt_iff]
  rcases Nat.lt_or_ge b.length 28 with hshort | hlong
  · have hfails : (parse m₀ b).1 = .packetTooShort := by
      unfold parse
      simp only [if_pos (show b.length < length from hshort)]
    rw [hfails]
    exact ⟨⟨nofun, fun h => absurd h.1 (not_le.mpr hshort)⟩, nofun⟩
  · obtain ⟨hresult, hmessage⟩ := parse_of_long m₀ hlong
    rw [hresult]
    cases hsupported : (messageAt b).supported with
    | false => exact ⟨⟨nofun, nofun⟩, nofun⟩
    | true =>
      refine ⟨⟨fun _ => ⟨hlong, rfl⟩, fun _ => rfl⟩, fun _ => ?_⟩
      rw [hmessage hsupported, serialize_of_supported hsupported, types_messageAt hlong, addresses_messageAt hlong]
      exact congrArg some (take_drop_append b 0 8 20)

end ARPMessage

end Sponge
