import Sponge.Net.IPv4
import Sponge.TCPSegment

/-!
# TCP segments on the wire

`TCPHeader::parse`, `TCPSegment::parse` and the two `serialize`, which are `none`
where the source throws. The segment parser asks the `NetParser`
for its error and does not look at the result of the header parser, so that a data
offset below 5, which only that result reports, is let through.
-/

namespace Sponge

open InternetChecksum NetParser OnesComplement

namespace TCPHeader

def length : Nat := 20

/-- The reads of `parse`, in their order. -/
def readFields : StateM NetParser TCPHeader := do
  let sport ← NetParser.u16
  let dport ← NetParser.u16
  let seqno ← NetParser.u32
  let ackno ← NetParser.u32
  let doff ← NetParser.u8
  let flags ← NetParser.u8
  let win ← NetParser.u16
  let cksum ← NetParser.u16
  let uptr ← NetParser.u16
  return {
    sport := sport
    dport := dport
    seqno := ⟨seqno⟩
    ackno := ⟨ackno⟩
    doff := doff >>> 4
    urg := (flags &&& 0b00100000) != 0
    ack := (flags &&& 0b00010000) != 0
    psh := (flags &&& 0b00001000) != 0
    rst := (flags &&& 0b00000100) != 0
    syn := (flags &&& 0b00000010) != 0
    fin := (flags &&& 0b00000001) != 0
    win := win
    cksum := cksum
    uptr := uptr }

/-- Every field is read, so the header before does not matter. -/
def parse (p : NetParser) : ParseResult × TCPHeader × NetParser :=
  let (h, p) := readFields p
  if h.doff < 5 then (.headerTooShort, h, p)
  else
    let p := p.removePrefix (h.doff.toNat * 4 - length)
    (p.error, h, p)

def serialize (h : TCPHeader) : Option Buffer :=
  if h.doff < 5 then none
  else
    let flags : UInt8 := (if h.urg then 0b00100000 else 0) ||| (if h.ack then 0b00010000 else 0) |||
      (if h.psh then 0b00001000 else 0) ||| (if h.rst then 0b00000100 else 0) |||
      (if h.syn then 0b00000010 else 0) ||| (if h.fin then 0b00000001 else 0)
    let ret := NetUnparser.u16 h.sport ++ NetUnparser.u16 h.dport ++ NetUnparser.u32 h.seqno.rawValue ++
      NetUnparser.u32 h.ackno.rawValue ++ NetUnparser.u8 (h.doff <<< 4) ++ NetUnparser.u8 flags ++
      NetUnparser.u16 h.win ++ NetUnparser.u16 h.cksum ++ NetUnparser.u16 h.uptr
    some (resize ret (4 * h.doff.toNat))

end TCPHeader

namespace TCPSegment

def parse (seg : TCPSegment) (buffer : Buffer) (datagramLayerChecksum : UInt32) : ParseResult × TCPSegment :=
  let check := add { sum := datagramLayerChecksum } buffer
  if check.value ≠ 0 then (.badChecksum, seg)
  else
    let (_, header, p) := TCPHeader.parse { buffer := buffer }
    (p.error, { header := header, payload := p.buffer })

def serialize (seg : TCPSegment) (datagramLayerChecksum : UInt32) : Option BufferList :=
  let headerOut := { seg.header with cksum := 0 }
  match headerOut.serialize with
  | none => none
  | some headerZeroChecksum =>
    let check := add (add { sum := datagramLayerChecksum } headerZeroChecksum) seg.payload
    match { headerOut with cksum := check.value }.serialize with
    | none => none
    | some header => some [header, seg.payload]

end TCPSegment

/-! ## The header -/

namespace TCPHeader

variable {b : Buffer} {p : NetParser}

/-- The header that stands in the first 20 bytes. -/
def fieldsOf (b : Buffer) : TCPHeader :=
  { sport := u16At b 0
    dport := u16At b 2
    seqno := ⟨u32At b 4⟩
    ackno := ⟨u32At b 8⟩
    doff := u8At b 12 >>> 4
    urg := (u8At b 13 &&& 0b00100000) != 0
    ack := (u8At b 13 &&& 0b00010000) != 0
    psh := (u8At b 13 &&& 0b00001000) != 0
    rst := (u8At b 13 &&& 0b00000100) != 0
    syn := (u8At b 13 &&& 0b00000010) != 0
    fin := (u8At b 13 &&& 0b00000001) != 0
    win := u16At b 14
    cksum := u16At b 16
    uptr := u16At b 18 }

/-- The data-offset nibble, in words of four bytes. -/
def doffOf (b : Buffer) : Nat := (u8At b 12).toNat / 16

theorem toNat_doff (b : Buffer) : (fieldsOf b).doff.toNat = doffOf b := by
  simp only [fieldsOf, doffOf, UInt8.toNat_shiftRight]
  exact Nat.shiftRight_eq_div_pow _ 4

theorem doff_lt_iff (b : Buffer) : (fieldsOf b).doff < 5 ↔ doffOf b < 5 := by
  rw [UInt8.lt_iff_toNat_lt, toNat_doff]
  rfl

theorem readFields_eq (h : 20 ≤ b.length) : readFields { buffer := b } = (fieldsOf b, { buffer := b.drop 20 }) := by
  have hstart : ({ buffer := b } : NetParser) = { buffer := b.drop 0 } := rfl
  unfold readFields
  rw [hstart]
  simp (disch := omega) only [bind_run, pure_run, u8_at, u16_at, u32_at, Nat.reduceAdd]
  rfl

theorem needs_readFields : Needs readFields 20 :=
  needs_u16.bind fun _ => needs_u16.bind fun _ => needs_u32.bind fun _ => needs_u32.bind fun _ =>
    needs_u8.bind fun _ => needs_u8.bind fun _ => needs_u16.bind fun _ => needs_u16.bind fun _ =>
      needs_u16.bind fun _ => needs_pure _

theorem parse_of_short (h : b.length < 20) : (parse { buffer := b }).2.2.error ≠ .noError := by
  have hfails := needs_readFields { buffer := b } 0 (Or.inr h)
  unfold parse
  generalize readFields { buffer := b } = fields at hfails ⊢
  obtain ⟨header, p⟩ := fields
  simp only
  split_ifs
  · exact hfails.error
  · exact hfails.removePrefix

theorem parse_of_long (h : 20 ≤ b.length) :
    ((parse { buffer := b }).2.2.error = .noError ↔ doffOf b < 5 ∨ 4 * doffOf b ≤ b.length) ∧
      (5 ≤ doffOf b → 4 * doffOf b ≤ b.length →
        (parse { buffer := b }).2 = (fieldsOf b, { buffer := b.drop (4 * doffOf b) })) := by
  unfold parse
  simp only [readFields_eq h, doff_lt_iff, toNat_doff]
  by_cases hdoff : doffOf b < 5
  · rw [if_pos hdoff]
    exact ⟨iff_of_true rfl (Or.inl hdoff), fun hge => by omega⟩
  rw [if_neg hdoff]
  have hskip : 20 + (doffOf b * 4 - length) = 4 * doffOf b := by
    simp only [length]
    omega
  by_cases hlen : 4 * doffOf b ≤ b.length
  · rw [removePrefix_at (by omega), hskip]
    exact ⟨iff_of_true rfl (Or.inr hlen), fun _ _ => rfl⟩
  · refine ⟨iff_of_false (removePrefix_short ?_) (by omega), fun _ hle => absurd hle hlen⟩
    simp only [List.length_drop]
    omega

end TCPHeader

/-! ## Which segments are accepted -/

theorem IPv4Header.pseudoCksum_lt (ip : IPv4Header) : ip.pseudoCksum.toNat < 2 ^ 20 := by
  have hhigh : ∀ x : UInt32, (x >>> 16).toNat < 2 ^ 16 := by
    intro x
    have := x.toNat_lt
    rw [UInt32.toNat_shiftRight]
    change x.toNat >>> 16 < 2 ^ 16
    rw [Nat.shiftRight_eq_div_pow]
    omega
  have hlow : ∀ x : UInt32, (x &&& 0xffff).toNat < 2 ^ 16 := by
    intro x
    rw [UInt32.toNat_and]
    exact Nat.and_lt_two_pow _ (by decide)
  have h1 := hhigh ip.src
  have h2 := hlow ip.src
  have h3 := hhigh ip.dst
  have h4 := hlow ip.dst
  have h5 := ip.proto.toNat_lt
  have h6 := ip.payloadLength.toNat_lt
  unfold IPv4Header.pseudoCksum
  simp only [UInt32.toNat_add, UInt8.toNat_toUInt32, UInt16.toNat_toUInt32]
  omega

namespace TCPSegment

open TCPHeader

variable {b : Buffer} {c : UInt32}

structure WellFormed (c : UInt32) (b : Buffer) : Prop where
  checksum : Verifies c.toNat b
  size : 20 ≤ b.length
  offset : 5 ≤ doffOf b
  header : 4 * doffOf b ≤ b.length

instance (c : UInt32) (b : Buffer) : Decidable (WellFormed c b) :=
  decidable_of_iff (Verifies c.toNat b ∧ 20 ≤ b.length ∧ 5 ≤ doffOf b ∧ 4 * doffOf b ≤ b.length)
    ⟨fun ⟨h1, h2, h3, h4⟩ => ⟨h1, h2, h3, h4⟩, fun h => ⟨h.checksum, h.size, h.offset, h.header⟩⟩

/-- A segment that is long enough and has a good checksum has a data offset of at least 5. -/
def OffsetOk (c : UInt32) (b : Buffer) : Prop := 20 ≤ b.length → Verifies c.toNat b → 5 ≤ doffOf b

instance (c : UInt32) (b : Buffer) : Decidable (OffsetOk c b) := inferInstanceAs (Decidable (_ → _))

theorem pseudo_add_wordSum_lt (hb : b.length ≤ 65535 + 60) (hc : c.toNat < 2 ^ 20) :
    c.toNat + wordSum b < 2 ^ 32 := by
  have hsum := wordSum_le b
  omega

theorem value_eq_zero_iff_verifies (hb : b.length ≤ 65535 + 60) (hc : c.toNat < 2 ^ 20) :
    (add { sum := c } b).value = 0 ↔ Verifies c.toNat b := by
  have h : (add { sum := UInt32.ofNat c.toNat } b).value = 0 ↔ Verifies c.toNat b :=
    value_eq_zero_iff (pseudo_add_wordSum_lt hb hc)
  rwa [UInt32.ofNat_toNat] at h

theorem parse_eq (seg : TCPSegment) (b : Buffer) (c : UInt32) :
    parse seg b c =
      if (add { sum := c } b).value ≠ 0 then (.badChecksum, seg)
      else ((TCPHeader.parse { buffer := b }).2.2.error,
        { header := (TCPHeader.parse { buffer := b }).2.1, payload := (TCPHeader.parse { buffer := b }).2.2.buffer }) := by
  unfold parse
  generalize TCPHeader.parse { buffer := b } = result
  obtain ⟨r, header, p⟩ := result
  rfl

/-- Twenty bytes with a good checksum and a data offset of 4. -/
def shortOffset : Buffer := [0, 0, 0, 0, 0, 0, 0, 0, 0, 0, 0, 0, 0x40, 0, 0, 0, 0xbf, 0xe5, 0, 0]

theorem short_offset_accepted :
    (parse {} shortOffset (IPv4Header.pseudoCksum { len := 40 })).1 = .noError ∧
      ¬ WellFormed (IPv4Header.pseudoCksum { len := 40 }) shortOffset := by
  decide +kernel

/-- Unless such an offset gets through, exactly the well-formed segments are accepted, and they are read
as they stand; and with such an offset they are not. -/
theorem parse_noError_iff_wellFormed (b : Buffer) (ip : IPv4Header) (hb : b.length ≤ 65535) :
    OffsetOk ip.pseudoCksum b ↔ ((parse {} b ip.pseudoCksum).1 = .noError ↔ WellFormed ip.pseudoCksum b) ∧
      ((parse {} b ip.pseudoCksum).1 = .noError →
        (parse {} b ip.pseudoCksum).2 = { header := fieldsOf b, payload := b.drop (4 * doffOf b) }) := by
  have hsum := value_eq_zero_iff_verifies (by omega : b.length ≤ 65535 + 60) ip.pseudoCksum_lt
  rw [parse_eq]
  by_cases hck : Verifies ip.pseudoCksum.toNat b
  · rw [if_neg (not_not.mpr (hsum.mpr hck))]
    dsimp only
    by_cases hsize : 20 ≤ b.length
    · obtain ⟨hiff, hread⟩ := parse_of_long hsize
      constructor
      · intro h
        have hdoff := h hsize hck
        have hvalid : (TCPHeader.parse { buffer := b }).2.2.error = .noError ↔ WellFormed ip.pseudoCksum b := by
          rw [hiff]
          constructor
          · rintro (hlt | hle)
            · omega
            · exact ⟨hck, hsize, hdoff, hle⟩
          · exact fun hw => Or.inr hw.header
        refine ⟨hvalid, fun herr => ?_⟩
        rw [hread hdoff (hvalid.mp herr).header]
      · rintro ⟨hvalid, -⟩ - -
        -- A short offset is accepted whatever follows, so it cannot be there.
        by_contra hshort
        exact hshort (hvalid.mp (hiff.mpr (Or.inl (by omega)))).offset
    · have herr := parse_of_short (b := b) (by omega)
      exact iff_of_true (fun hlong => absurd hlong hsize)
        ⟨iff_of_false herr fun hw => hsize hw.size, fun h => absurd h herr⟩
  · rw [if_pos (fun hzero => hck (hsum.mp hzero))]
    simp only [reduceCtorEq, false_iff, false_imp_iff, and_true]
    exact iff_of_true (fun _ hgood => absurd hgood hck) fun hw => hck hw.checksum

/-- A segment with two bytes of payload. -/
def goodSegment : Buffer :=
  [0, 0, 0, 0, 0, 0, 0, 0, 0, 0, 0, 0, 0x50, 0x10, 0, 0, 0x47, 0x6a, 0, 0, 0x68, 0x69]

theorem good_segment_accepted :
    WellFormed (IPv4Header.pseudoCksum { len := 42 }) goodSegment ∧
      (parse {} goodSegment (IPv4Header.pseudoCksum { len := 42 })).1 = .noError ∧
      (parse {} goodSegment (IPv4Header.pseudoCksum { len := 42 })).2.payload = [0x68, 0x69] := by
  have hwell : WellFormed (IPv4Header.pseudoCksum { len := 42 }) goodSegment := by decide +kernel
  obtain ⟨hiff, hread⟩ := (parse_noError_iff_wellFormed goodSegment { len := 42 } (by decide)).mp (by decide +kernel)
  have hok := hiff.mpr hwell
  exact ⟨hwell, hok, by rw [hread hok]; decide +kernel⟩

end TCPSegment

end Sponge
