import Sponge.Net.IPv4

/-!
# Which datagrams are accepted

`IPv4Datagram::parse` does not look at the result of `IPv4Header::parse`. A header
that fails its checks is noticed only when the length of what follows disagrees
with it, and a bad checksum is not noticed at all.
-/

namespace Sponge

open InternetChecksum NetParser

namespace IPv4Header

variable {b : Buffer}

/-- The header that stands in the first 20 bytes. -/
def fieldsOf (b : Buffer) : IPv4Header :=
  { ver := u8At b 0 >>> 4
    hlen := u8At b 0 &&& 0x0f
    tos := u8At b 1
    len := u16At b 2
    id := u16At b 4
    df := (u16At b 6 &&& 0x4000) != 0
    mf := (u16At b 6 &&& 0x2000) != 0
    offset := u16At b 6 &&& 0x1fff
    ttl := u8At b 8
    proto := u8At b 9
    cksum := u16At b 10
    src := u32At b 12
    dst := u32At b 16 }

theorem readFields_eq (h : 20 ≤ b.length) : readFields { buffer := b } = (fieldsOf b, { buffer := b.drop 20 }) := by
  have hstart : ({ buffer := b } : NetParser) = { buffer := b.drop 0 } := rfl
  unfold readFields
  rw [hstart]
  simp (disch := omega) only [bind_run, pure_run, u8_at, u16_at, u32_at, Nat.reduceAdd]
  rfl

/-- The version nibble. -/
def versionOf (b : Buffer) : Nat := (u8At b 0).toNat / 16

/-- The header-length nibble, in words of four bytes. -/
def hlenOf (b : Buffer) : Nat := (u8At b 0).toNat % 16

/-- The total-length field. -/
def totalOf (b : Buffer) : Nat := (u16At b 2).toNat

structure HeaderOk (b : Buffer) : Prop where
  version : versionOf b = 4
  headerLength : 5 ≤ hlenOf b
  header : 4 * hlenOf b ≤ b.length
  total : totalOf b = b.length

instance (b : Buffer) : Decidable (HeaderOk b) :=
  decidable_of_iff (versionOf b = 4 ∧ 5 ≤ hlenOf b ∧ 4 * hlenOf b ≤ b.length ∧ totalOf b = b.length)
    ⟨fun ⟨h1, h2, h3, h4⟩ => ⟨h1, h2, h3, h4⟩, fun h => ⟨h.version, h.headerLength, h.header, h.total⟩⟩

theorem toNat_ver (b : Buffer) : (fieldsOf b).ver.toNat = versionOf b := by
  simp only [fieldsOf, versionOf, UInt8.toNat_shiftRight]
  exact Nat.shiftRight_eq_div_pow _ 4

theorem toNat_hlen (b : Buffer) : (fieldsOf b).hlen.toNat = hlenOf b := by
  simp only [fieldsOf, hlenOf, UInt8.toNat_and]
  exact Nat.and_two_pow_sub_one_eq_mod _ 4

theorem headerOk_iff (b : Buffer) :
    HeaderOk b ↔ ¬ b.length < 4 * (fieldsOf b).hlen.toNat ∧ ¬ (fieldsOf b).ver ≠ 4 ∧ ¬ (fieldsOf b).hlen < 5 ∧
      ¬ b.length ≠ (fieldsOf b).len.toNat := by
  have hver : (fieldsOf b).ver = 4 ↔ versionOf b = 4 := by
    rw [← UInt8.toNat_inj, toNat_ver]
    rfl
  have hhlen : (fieldsOf b).hlen < 5 ↔ hlenOf b < 5 := by
    rw [UInt8.lt_iff_toNat_lt, toNat_hlen]
    rfl
  have htotal : (fieldsOf b).len.toNat = totalOf b := rfl
  rw [toNat_hlen, not_not, not_not, hver, hhlen, htotal]
  constructor
  · rintro ⟨h1, h2, h3, h4⟩
    exact ⟨by omega, h1, by omega, h4.symm⟩
  · rintro ⟨h1, h2, h3, h4⟩
    exact ⟨h2, by omega, by omega, h4.symm⟩

theorem parse_snd (h : 20 ≤ b.length) :
    (parse {} { buffer := b }).2 =
      (fieldsOf b, { buffer := b.drop (if HeaderOk b then 4 * hlenOf b else 20) }) := by
  have hiff := headerOk_iff b
  unfold parse
  simp only [readFields_eq h]
  rw [if_neg (by simp only [length]; omega)]
  by_cases hok : HeaderOk b
  · obtain ⟨h1, h2, h3, h4⟩ := hiff.mp hok
    rw [if_neg h1, if_neg h2, if_neg h3, if_neg h4, if_pos hok, toNat_hlen]
    have hlen := hok.headerLength
    -- The options are skipped before the checksum is looked at.
    have hrest : removePrefix { buffer := b.drop 20 } (hlenOf b * 4 - length) = { buffer := b.drop (4 * hlenOf b) } := by
      have := hok.header
      rw [removePrefix_at (by simp only [length]; omega)]
      congr 2
      simp only [length]
      omega
    rw [hrest, if_neg (by simp)]
    split_ifs <;> rfl
  · rw [if_neg hok]
    -- Each of the four checks returns early, behind the twenty bytes of fields.
    by_cases h1 : b.length < 4 * (fieldsOf b).hlen.toNat
    · rw [if_pos h1]
    by_cases h2 : (fieldsOf b).ver ≠ 4
    · rw [if_neg h1, if_pos h2]
    by_cases h3 : (fieldsOf b).hlen < 5
    · rw [if_neg h1, if_neg h2, if_pos h3]
    by_cases h4 : b.length ≠ (fieldsOf b).len.toNat
    · rw [if_neg h1, if_neg h2, if_neg h3, if_pos h4]
    · exact absurd (hiff.mpr ⟨h1, h2, h3, h4⟩) hok

end IPv4Header

namespace IPv4Datagram

open IPv4Header

variable {b : Buffer}

structure Valid (b : Buffer) : Prop where
  size : 20 ≤ b.length
  header : HeaderOk b
  checksum : Verifies 0 (b.take (4 * hlenOf b))

instance (b : Buffer) : Decidable (Valid b) :=
  decidable_of_iff (20 ≤ b.length ∧ HeaderOk b ∧ Verifies 0 (b.take (4 * hlenOf b)))
    ⟨fun ⟨h1, h2, h3⟩ => ⟨h1, h2, h3⟩, fun h => ⟨h.size, h.header, h.checksum⟩⟩

/-- The length after the first 20 bytes gives a bad header away, and the checksum is good. -/
structure Telling (b : Buffer) : Prop where
  length : 20 ≤ b.length → ¬ HeaderOk b → b.length - 20 ≠ (totalOf b + 65536 - 4 * hlenOf b) % 65536
  checksum : 20 ≤ b.length → HeaderOk b → Verifies 0 (b.take (4 * hlenOf b))

instance (b : Buffer) : Decidable (Telling b) :=
  decidable_of_iff
    ((20 ≤ b.length → ¬ HeaderOk b → b.length - 20 ≠ (totalOf b + 65536 - 4 * hlenOf b) % 65536) ∧
      (20 ≤ b.length → HeaderOk b → Verifies 0 (b.take (4 * hlenOf b))))
    ⟨fun ⟨h1, h2⟩ => ⟨h1, h2⟩, fun h => ⟨h.length, h.checksum⟩⟩

theorem size_singleton (buffer : Buffer) : BufferList.size [buffer] = buffer.length := by
  simp [BufferList.size]

theorem parse_of_short (h : b.length < 20) : (parse {} b).1 = .packetTooShort := by
  have hheader : IPv4Header.parse {} { buffer := b } = (.packetTooShort, {}, { buffer := b }) := by
    unfold IPv4Header.parse
    exact if_pos h
  -- The payload length of the default header has wrapped.
  have hlen : (({} : IPv4Header).payloadLength).toNat = 65516 := by decide
  unfold parse
  simp only [hheader, size_singleton, hlen]
  rw [if_pos (by omega)]

theorem parse_of_long (h : 20 ≤ b.length) :
    parse {} b =
      let payload := b.drop (if HeaderOk b then 4 * hlenOf b else 20)
      let d : IPv4Datagram := { header := fieldsOf b, payload := [payload] }
      if payload.length ≠ (totalOf b + 65536 - 4 * hlenOf b) % 65536 then (.packetTooShort, d) else (.noError, d) := by
  have hsnd := parse_snd h
  unfold parse
  generalize IPv4Header.parse {} { buffer := b } = result at hsnd
  obtain ⟨r, header, p⟩ := result
  cases hsnd
  simp only [size_singleton, toNat_payloadLength, toNat_hlen]
  rfl

/-- A datagram whose header checksum is off by one. -/
def badChecksum : Buffer := [0x45, 0, 0, 20, 0, 0, 0, 0, 64, 6, 0x7a, 0xe4, 0, 0, 0, 0, 0, 0, 0, 0]

theorem bad_checksum_accepted : (parse {} badChecksum).1 = .noError ∧ ¬ Valid badChecksum := by
  decide +kernel

theorem payload_length_of_headerOk (hok : HeaderOk b) :
    (b.drop (4 * hlenOf b)).length = (totalOf b + 65536 - 4 * hlenOf b) % 65536 := by
  have hheader := hok.header
  have htotal := hok.total
  have hlt := (u16At b 2).toNat_lt
  rw [List.length_drop]
  unfold totalOf at *
  omega

/-- Exactly the strings of bytes that tell are treated as they should be: the valid datagrams among them
are accepted, with the payload that follows the header, and the others are not. -/
theorem parse_noError_iff_valid (b : Buffer) :
    Telling b ↔ ((parse {} b).1 = .noError ↔ Valid b) ∧
      ((parse {} b).1 = .noError → (parse {} b).2.payload = [b.drop (4 * hlenOf b)]) := by
  by_cases hsize : 20 ≤ b.length
  · rw [parse_of_long hsize]
    by_cases hok : HeaderOk b
    · have hlen := payload_length_of_headerOk hok
      simp only [if_pos hok, hlen, ne_eq, not_true, if_false, true_iff, forall_const, and_true]
      constructor
      · exact fun htells => ⟨hsize, hok, htells.checksum hsize hok⟩
      · exact fun hvalid => ⟨fun _ hbad => absurd hok hbad, fun _ _ => hvalid.checksum⟩
    · have hinvalid : ¬ Valid b := fun hvalid => hok hvalid.header
      simp only [if_neg hok]
      split_ifs with hlen
      · -- The length gives the bad header away.
        rw [List.length_drop] at hlen
        simp only [hinvalid, iff_self, false_imp_iff, and_true, iff_true]
        exact ⟨fun _ _ => hlen, fun _ hgood => absurd hgood hok⟩
      · rw [List.length_drop] at hlen
        simp only [hinvalid, iff_false, not_true_eq_false, false_and]
        exact fun htells => hlen (htells.length hsize hok)
  · have hinvalid : ¬ Valid b := fun hvalid => hsize hvalid.size
    rw [parse_of_short (by omega)]
    simp only [reduceCtorEq, hinvalid, iff_self, false_imp_iff, and_true, iff_true]
    exact ⟨fun hlong => absurd hlong hsize, fun hlong => absurd hlong hsize⟩

/-- A datagram with two bytes of payload. -/
def goodDatagram : Buffer := [0x45, 0, 0, 22, 0, 0, 0, 0, 64, 6, 0x7a, 0xe3, 0, 0, 0, 0, 0, 0, 0, 0, 1, 2]

theorem good_datagram_accepted :
    Valid goodDatagram ∧ (parse {} goodDatagram).1 = .noError ∧ (parse {} goodDatagram).2.payload = [[1, 2]] := by
  have hvalid : Valid goodDatagram := by decide +kernel
  obtain ⟨hiff, hpayload⟩ := (parse_noError_iff_valid goodDatagram).mp (by decide +kernel)
  have hok := hiff.mpr hvalid
  exact ⟨hvalid, hok, (hpayload hok).trans (by decide +kernel)⟩

end IPv4Datagram

end Sponge
