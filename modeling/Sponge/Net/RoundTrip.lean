import Sponge.Net.IPv4Accept
import Sponge.Net.TCP

/-!
# Parsing what was serialized

Both headers are laid out the same way: fields of whole words, the checksum, and
more words. The checksum is computed with a zero in its place, so that the whole
comes out as minus zero when it is put there.
-/

namespace Sponge

open InternetChecksum NetParser OnesComplement

theorem resize_of_le {s : Buffer} {n : Nat} (h : s.length ≤ n) :
    resize s n = s ++ List.replicate (n - s.length) 0 := by
  rw [resize, List.take_of_length_le h]

theorem not_lt_five {n : UInt8} (h : 5 ≤ n.toNat) : ¬ n < 5 := by
  rw [UInt8.lt_iff_toNat_lt]
  exact Nat.not_lt.mpr h

theorem wordSum_u16 (v : UInt16) : wordSum (NetUnparser.u16 v) = v.toNat := by
  have hv := v.toNat_lt
  have hbytes : NetUnparser.u16 v = [UInt8.ofNat (v.toNat >>> 8), UInt8.ofNat v.toNat] := rfl
  rw [hbytes]
  simp only [wordSum, UInt8.toNat_ofNat', Nat.shiftRight_eq_div_pow]
  omega

theorem verifies_u16 (initial : Nat) (front rest : Buffer) (heven : front.length % 2 = 0)
    (h : initial + wordSum (front ++ NetUnparser.u16 0 ++ rest) < 2 ^ 32) :
    Verifies initial (front ++
      NetUnparser.u16 (add { sum := UInt32.ofNat initial } (front ++ NetUnparser.u16 0 ++ rest)).value ++ rest) :=
  verifies_of_value heven ⟨rfl, rfl⟩ ⟨NetUnparser.length_u16 _, wordSum_u16 _⟩ h

/-! ## TCP -/

namespace TCPHeader

variable {h : TCPHeader}

def flagByte (h : TCPHeader) : UInt8 :=
  (if h.urg then 0b00100000 else 0) ||| (if h.ack then 0b00010000 else 0) |||
    (if h.psh then 0b00001000 else 0) ||| (if h.rst then 0b00000100 else 0) |||
    (if h.syn then 0b00000010 else 0) ||| (if h.fin then 0b00000001 else 0)

def beforeCksum (h : TCPHeader) : Buffer :=
  NetUnparser.u16 h.sport ++ NetUnparser.u16 h.dport ++ NetUnparser.u32 h.seqno.rawValue ++
    NetUnparser.u32 h.ackno.rawValue ++ NetUnparser.u8 (h.doff <<< 4) ++ NetUnparser.u8 h.flagByte ++
    NetUnparser.u16 h.win

def options (h : TCPHeader) : Buffer := List.replicate (4 * h.doff.toNat - 20) 0

def afterCksum (h : TCPHeader) : Buffer := NetUnparser.u16 h.uptr ++ h.options

@[simp] theorem length_beforeCksum (h : TCPHeader) : h.beforeCksum.length = 16 := by simp [beforeCksum]

@[simp] theorem length_options (h : TCPHeader) : h.options.length = 4 * h.doff.toNat - 20 := by simp [options]

theorem serialize_eq (hmin : 5 ≤ h.doff.toNat) :
    h.serialize = some (h.beforeCksum ++ NetUnparser.u16 h.cksum ++ h.afterCksum) := by
  unfold serialize
  rw [if_neg (not_lt_five hmin)]
  simp only
  rw [resize_of_le (by simp; omega)]
  simp [beforeCksum, afterCksum, options, flagByte, List.append_assoc]

theorem flagByte_bits (h : TCPHeader) :
    ((h.flagByte &&& 0b00100000) != 0) = h.urg ∧ ((h.flagByte &&& 0b00010000) != 0) = h.ack ∧
      ((h.flagByte &&& 0b00001000) != 0) = h.psh ∧ ((h.flagByte &&& 0b00000100) != 0) = h.rst ∧
      ((h.flagByte &&& 0b00000010) != 0) = h.syn ∧ ((h.flagByte &&& 0b00000001) != 0) = h.fin := by
  unfold flagByte
  generalize h.urg = urg, h.ack = ack, h.psh = psh, h.rst = rst, h.syn = syn, h.fin = fin
  revert urg ack psh rst syn fin
  decide

theorem doff_shift (hmax : h.doff.toNat ≤ 15) : (h.doff <<< 4) >>> 4 = h.doff := by
  apply UInt8.toNat_inj.mp
  rw [UInt8.toNat_shiftRight, UInt8.toNat_shiftLeft]
  change ((h.doff.toNat <<< 4) % 2 ^ 8) >>> 4 = h.doff.toNat
  rw [Nat.shiftLeft_eq, Nat.shiftRight_eq_div_pow]
  omega

theorem readFields_append (hmax : h.doff.toNat ≤ 15) (rest : Buffer) :
    readFields { buffer := h.beforeCksum ++ NetUnparser.u16 h.cksum ++ (NetUnparser.u16 h.uptr ++ rest) } =
      (h, { buffer := rest }) := by
  obtain ⟨hurg, hack, hpsh, hrst, hsyn, hfin⟩ := h.flagByte_bits
  unfold readFields beforeCksum
  simp only [List.append_assoc, bind_of_eq (u16_append _), bind_of_eq (u32_append _), bind_of_eq (u8_append _),
    pure_run]
  simp only [doff_shift hmax, hurg, hack, hpsh, hrst, hsyn, hfin]

theorem parse_append (hmin : 5 ≤ h.doff.toNat) (hmax : h.doff.toNat ≤ 15) (rest : Buffer) :
    parse { buffer := h.beforeCksum ++ NetUnparser.u16 h.cksum ++ h.afterCksum ++ rest } =
      (.noError, h, { buffer := rest }) := by
  have hskip : h.doff.toNat * 4 - length = h.options.length := by
    rw [length_options, length]
    omega
  unfold parse afterCksum
  rw [List.append_assoc _ _ rest, List.append_assoc _ h.options rest, readFields_append hmax]
  simp only
  rw [if_neg (not_lt_five hmin), hskip, removePrefix_append]

end TCPHeader

namespace TCPSegment

open TCPHeader

variable {seg : TCPSegment}

theorem serialize_eq (c : UInt32) (hmin : 5 ≤ seg.header.doff.toNat) :
    seg.serialize c =
      some [seg.header.beforeCksum ++
        NetUnparser.u16 (add { sum := c } (seg.header.beforeCksum ++ NetUnparser.u16 0 ++
          (seg.header.afterCksum ++ seg.payload))).value ++ seg.header.afterCksum, seg.payload] := by
  have hser : ∀ v, ({ seg.header with cksum := v } : TCPHeader).serialize =
      some (seg.header.beforeCksum ++ NetUnparser.u16 v ++ seg.header.afterCksum) := fun v =>
    TCPHeader.serialize_eq hmin
  unfold serialize
  simp only [hser, add_append, List.append_assoc]

theorem exists_serialize (seg old : TCPSegment) {c : UInt32} (hc : c.toNat < 2 ^ 20)
    (hmin : 5 ≤ seg.header.doff.toNat) (hmax : seg.header.doff.toNat ≤ 15) (hlen : seg.payload.length ≤ 65535) :
    ∃ bytes v, seg.serialize c = some bytes ∧ bytes.size = 4 * seg.header.doff.toNat + seg.payload.length ∧
      parse old bytes.concatenate c = (.noError, { seg with header := { seg.header with cksum := v } }) := by
  have hverifies := verifies_u16 c.toNat seg.header.beforeCksum (seg.header.afterCksum ++ seg.payload) (by simp)
    (pseudo_add_wordSum_lt (by simp [afterCksum]; omega) hc)
  rw [UInt32.ofNat_toNat] at hverifies
  rw [serialize_eq c hmin]
  -- From here on only what the checksum verifies matters, not how it was computed.
  generalize (add { sum := c } (seg.header.beforeCksum ++ NetUnparser.u16 0 ++
    (seg.header.afterCksum ++ seg.payload))).value = v at hverifies ⊢
  refine ⟨_, v, rfl, ?_, ?_⟩
  · simp only [BufferList.size, afterCksum, List.map_cons, List.map_nil, List.sum_cons, List.sum_nil,
      List.length_append, length_beforeCksum, NetUnparser.length_u16, length_options]
    omega
  have hbytes : BufferList.concatenate [seg.header.beforeCksum ++ NetUnparser.u16 v ++ seg.header.afterCksum,
      seg.payload] = seg.header.beforeCksum ++ NetUnparser.u16 v ++ (seg.header.afterCksum ++ seg.payload) := by
    simp [BufferList.concatenate]
  have hvalue := (value_eq_zero_iff_verifies (by simp [afterCksum]; omega) hc).mpr hverifies
  have hparse : TCPHeader.parse { buffer := seg.header.beforeCksum ++ NetUnparser.u16 v ++
      (seg.header.afterCksum ++ seg.payload) } =
      (.noError, { seg.header with cksum := v }, { buffer := seg.payload }) := by
    rw [← List.append_assoc]
    exact TCPHeader.parse_append (h := { seg.header with cksum := v }) hmin hmax seg.payload
  rw [hbytes, parse_eq, if_neg (not_not.mpr hvalue), hparse]

/-- Parsing undoes serializing: the segment comes back, but for its checksum. -/
theorem parse_serialize_segment (seg old : TCPSegment) (ip : IPv4Header) (hmin : 5 ≤ seg.header.doff)
    (hmax : seg.header.doff ≤ 15) (hlen : seg.payload.length ≤ 65535) :
    ∃ bytes, seg.serialize ip.pseudoCksum = some bytes ∧
      (parse old bytes.concatenate ip.pseudoCksum).1 = .noError ∧
      (parse old bytes.concatenate ip.pseudoCksum).2.payload = seg.payload ∧
      { (parse old bytes.concatenate ip.pseudoCksum).2.header with cksum := seg.header.cksum } = seg.header := by
  obtain ⟨bytes, v, hbytes, -, hparse⟩ := exists_serialize seg old ip.pseudoCksum_lt
    (UInt8.le_iff_toNat_le.mp hmin) (UInt8.le_iff_toNat_le.mp hmax) hlen
  refine ⟨bytes, hbytes, ?_⟩
  rw [hparse]
  exact ⟨rfl, rfl, rfl⟩

/-- A segment with options, flags and an odd number of payload bytes. -/
def sampleSegment : TCPSegment :=
  { header := { sport := 80, dport := 4000, seqno := ⟨7⟩, ackno := ⟨9⟩, doff := 6, ack := true, fin := true, win := 500 }
    payload := [104, 105, 33] }

theorem parse_serialize_segment_sample :
    ∃ bytes, sampleSegment.serialize (IPv4Header.pseudoCksum { len := 47 }) = some bytes ∧
      (parse {} bytes.concatenate (IPv4Header.pseudoCksum { len := 47 })).1 = .noError ∧
      (parse {} bytes.concatenate (IPv4Header.pseudoCksum { len := 47 })).2.payload = [104, 105, 33] := by
  obtain ⟨bytes, hbytes, hok, hpayload, -⟩ :=
    parse_serialize_segment sampleSegment {} { len := 47 } (by decide) (by decide) (by decide)
  exact ⟨bytes, hbytes, hok, hpayload⟩

end TCPSegment

/-! ## IPv4 -/

namespace IPv4Header

variable {h : IPv4Header}

def flagsOffset (h : IPv4Header) : UInt16 :=
  (if h.df then 0x4000 else 0) ||| (if h.mf then 0x2000 else 0) ||| (h.offset &&& 0x1fff)

def beforeCksum (h : IPv4Header) : Buffer :=
  NetUnparser.u8 ((h.ver <<< 4) ||| (h.hlen &&& 0xf)) ++ NetUnparser.u8 h.tos ++ NetUnparser.u16 h.len ++
    NetUnparser.u16 h.id ++ NetUnparser.u16 h.flagsOffset ++ NetUnparser.u8 h.ttl ++ NetUnparser.u8 h.proto

def options (h : IPv4Header) : Buffer := List.replicate (4 * h.hlen.toNat - 20) 0

def afterCksum (h : IPv4Header) : Buffer := NetUnparser.u32 h.src ++ (NetUnparser.u32 h.dst ++ h.options)

@[simp] theorem length_beforeCksum (h : IPv4Header) : h.beforeCksum.length = 10 := by simp [beforeCksum]

@[simp] theorem length_options (h : IPv4Header) : h.options.length = 4 * h.hlen.toNat - 20 := by simp [options]

@[simp] theorem length_afterCksum (hmin : 5 ≤ h.hlen.toNat) : h.afterCksum.length = 4 * h.hlen.toNat - 12 := by
  simp only [afterCksum, List.length_append, NetUnparser.length_u32, length_options]
  omega

theorem serialize_eq (hver : h.ver = 4) (hmin : 5 ≤ h.hlen.toNat) :
    h.serialize = some (h.beforeCksum ++ NetUnparser.u16 h.cksum ++ h.afterCksum) := by
  unfold serialize
  rw [if_neg (not_not.mpr hver), if_neg (by simp only [length]; omega)]
  simp only
  rw [resize_of_le (by simp; omega)]
  simp [beforeCksum, afterCksum, options, flagsOffset, List.append_assoc]

theorem firstByte_nibbles (hmax : h.hlen.toNat ≤ 15) :
    ((4 : UInt8) <<< 4 ||| (h.hlen &&& 0xf)) >>> 4 = 4 ∧
      ((4 : UInt8) <<< 4 ||| (h.hlen &&& 0xf)) &&& 0x0f = h.hlen := by
  have hall : ∀ n ≤ 15, ((4 : UInt8) <<< 4 ||| (UInt8.ofNat n &&& 0xf)) >>> 4 = 4 ∧
      ((4 : UInt8) <<< 4 ||| (UInt8.ofNat n &&& 0xf)) &&& 0x0f = UInt8.ofNat n := by decide
  have hn := hall h.hlen.toNat hmax
  rwa [UInt8.ofNat_toNat] at hn

theorem flagsOffset_bits (hoff : h.offset.toNat < 2 ^ 13) :
    ((h.flagsOffset &&& 0x4000) != 0) = h.df ∧ ((h.flagsOffset &&& 0x2000) != 0) = h.mf ∧
      h.flagsOffset &&& 0x1fff = h.offset := by
  have hlow : h.offset &&& 0x1fff = h.offset := by
    apply UInt16.toNat_inj.mp
    rw [UInt16.toNat_and]
    change h.offset.toNat &&& (2 ^ 13 - 1) = h.offset.toNat
    rw [Nat.and_two_pow_sub_one_eq_mod, Nat.mod_eq_of_lt hoff]
  have hor : ∀ x y m : UInt16, (x ||| y) &&& m = (x &&& m) ||| (y &&& m) := by
    intro x y m
    apply UInt16.toNat_inj.mp
    simp only [UInt16.toNat_and, UInt16.toNat_or, Nat.and_or_distrib_right]
  have hmask : ∀ m, h.flagsOffset &&& m =
      (((if h.df then 0x4000 else 0) ||| (if h.mf then 0x2000 else 0)) &&& m) ||| (h.offset &&& (0x1fff &&& m)) := by
    intro m
    rw [flagsOffset, hor, UInt16.and_assoc]
  have hdf : (0x1fff : UInt16) &&& 0x4000 = 0 := rfl
  have hmf : (0x1fff : UInt16) &&& 0x2000 = 0 := rfl
  have hall : (0x1fff : UInt16) &&& 0x1fff = 0x1fff := rfl
  -- The flags lie above the thirteen bits of the offset.
  have hflags : ((if h.df then 0x4000 else 0) ||| (if h.mf then 0x2000 else 0) : UInt16) &&& 0x1fff = 0 := by
    split_ifs <;> rfl
  rw [hmask, hmask, hmask, hdf, hmf, hall, hflags, hlow]
  simp only [UInt16.and_zero, UInt16.or_zero, UInt16.zero_or, and_true]
  generalize h.df = df, h.mf = mf
  revert df mf
  decide

theorem readFields_append (hver : h.ver = 4) (hmax : h.hlen.toNat ≤ 15) (hoff : h.offset.toNat < 2 ^ 13)
    (rest : Buffer) :
    readFields { buffer := h.beforeCksum ++ NetUnparser.u16 h.cksum ++
      (NetUnparser.u32 h.src ++ (NetUnparser.u32 h.dst ++ rest)) } = (h, { buffer := rest }) := by
  obtain ⟨hhigh, hlow⟩ := firstByte_nibbles hmax
  obtain ⟨hdf, hmf, hoffset⟩ := flagsOffset_bits hoff
  unfold readFields beforeCksum
  simp only [List.append_assoc, bind_of_eq (u16_append _), bind_of_eq (u32_append _), bind_of_eq (u8_append _),
    pure_run]
  simp only [hver, hhigh, hlow, hdf, hmf, hoffset]
  rw [← hver]

/-- What `serialize` needs, and what `parse` can read back. -/
structure Plain (h : IPv4Header) : Prop where
  version : h.ver = 4
  headerMin : 5 ≤ h.hlen.toNat
  headerMax : h.hlen.toNat ≤ 15
  offset : h.offset.toNat < 2 ^ 13

theorem parse_append (old : IPv4Header) (hh : h.Plain) {rest : Buffer}
    (hlen : 4 * h.hlen.toNat + rest.length = h.len.toNat)
    (hverifies : Verifies 0 (h.beforeCksum ++ NetUnparser.u16 h.cksum ++ h.afterCksum)) :
    parse old { buffer := h.beforeCksum ++ NetUnparser.u16 h.cksum ++ h.afterCksum ++ rest } =
      (.noError, h, { buffer := rest }) := by
  have hmin := hh.headerMin
  have hmax := hh.headerMax
  have hsize : (h.beforeCksum ++ NetUnparser.u16 h.cksum ++ h.afterCksum).length = 4 * h.hlen.toNat := by
    simp only [List.length_append, length_beforeCksum, NetUnparser.length_u16, length_afterCksum hmin]
    omega
  -- The options are what the header length counts beyond the fixed fields.
  have hskip : h.hlen.toNat * 4 - length = h.options.length := by
    rw [length_options, length]
    omega
  have hfields : readFields { buffer := h.beforeCksum ++ NetUnparser.u16 h.cksum ++ h.afterCksum ++ rest } =
      (h, { buffer := h.options ++ rest }) := by
    rw [afterCksum, List.append_assoc _ _ rest, List.append_assoc _ _ rest, List.append_assoc _ _ rest]
    exact readFields_append hh.version hmax hh.offset _
  have hvalue : (add {} (h.beforeCksum ++ NetUnparser.u16 h.cksum ++ h.afterCksum)).value = 0 := by
    have hsum := wordSum_le (h.beforeCksum ++ NetUnparser.u16 h.cksum ++ h.afterCksum)
    rw [hsize] at hsum
    have hsum : 0 + wordSum (h.beforeCksum ++ NetUnparser.u16 h.cksum ++ h.afterCksum) < 2 ^ 32 := by omega
    exact (value_eq_zero_iff hsum).mpr hverifies
  unfold parse
  simp only [hfields]
  rw [List.length_append, hsize, if_neg (by simp only [length]; omega), if_neg (by omega),
    if_neg (not_not.mpr hh.version), if_neg (not_lt_five hmin), if_neg (by omega), hskip, removePrefix_append,
    List.take_left' hsize, hvalue]
  rfl

end IPv4Header

namespace IPv4Datagram

open IPv4Header

variable {d : IPv4Datagram}

theorem serialize_eq (hh : d.header.Plain) (hsize : d.payload.size = d.header.payloadLength.toNat) :
    d.serialize = some ((d.header.beforeCksum ++
      NetUnparser.u16 (add {} (d.header.beforeCksum ++ NetUnparser.u16 0 ++ d.header.afterCksum)).value ++
        d.header.afterCksum) :: d.payload) := by
  have hser : ∀ v, ({ d.header with cksum := v } : IPv4Header).serialize =
      some (d.header.beforeCksum ++ NetUnparser.u16 v ++ d.header.afterCksum) := fun v =>
    IPv4Header.serialize_eq hh.version hh.headerMin
  unfold serialize
  rw [if_neg (not_not.mpr hsize)]
  simp only [hser]

theorem concatenate_cons (front : Buffer) (rest : BufferList) :
    BufferList.concatenate (front :: rest) = front ++ rest.concatenate := List.flatten_cons

theorem length_concatenate (buffers : BufferList) : buffers.concatenate.length = buffers.size := List.length_flatten

theorem exists_serialize (old : IPv4Datagram) (hplain : d.header.Plain)
    (hsize : 4 * d.header.hlen.toNat + d.payload.size = d.header.len.toNat) :
    ∃ bytes v, d.serialize = some bytes ∧
      parse old bytes.concatenate =
        (.noError, { header := { d.header with cksum := v }, payload := [d.payload.concatenate] }) ∧
      ∀ o : IPv4Header, (IPv4Header.parse o { buffer := bytes.concatenate }).1 = .noError := by
  have hmin := hplain.headerMin
  have hpayload := d.header.toNat_payloadLength
  have hlen := d.header.len.toNat_lt
  have hverifies := verifies_u16 0 d.header.beforeCksum d.header.afterCksum (by simp) (by
    have hsum := wordSum_le (d.header.beforeCksum ++ NetUnparser.u16 0 ++ d.header.afterCksum)
    have hmax := hplain.headerMax
    simp only [List.length_append, length_beforeCksum, NetUnparser.length_u16, length_afterCksum hmin] at hsum
    omega)
  have hzero : UInt32.ofNat 0 = 0 := rfl
  rw [hzero] at hverifies
  rw [serialize_eq hplain (by omega)]
  generalize (add {} (d.header.beforeCksum ++ NetUnparser.u16 0 ++ d.header.afterCksum)).value = v at hverifies ⊢
  have hparse : ∀ o : IPv4Header, IPv4Header.parse o { buffer := d.header.beforeCksum ++ NetUnparser.u16 v ++
      d.header.afterCksum ++ d.payload.concatenate } =
      (.noError, { d.header with cksum := v }, { buffer := d.payload.concatenate }) := fun o =>
    IPv4Header.parse_append (h := { d.header with cksum := v }) o
      ⟨hplain.version, hmin, hplain.headerMax, hplain.offset⟩ (by rw [length_concatenate]; exact hsize) hverifies
  have hlength : BufferList.size [d.payload.concatenate] =
      ({ d.header with cksum := v } : IPv4Header).payloadLength.toNat := by
    change _ = d.header.payloadLength.toNat
    rw [size_singleton, length_concatenate]
    omega
  refine ⟨_, v, rfl, ?_⟩
  rw [concatenate_cons]
  unfold parse
  simp only [hparse, if_neg (not_not.mpr hlength)]
  exact ⟨trivial, fun _ => trivial⟩

/-- Parsing undoes serializing: the datagram comes back, but for its checksum. -/
theorem parse_serialize_datagram (d old : IPv4Datagram) (oldHeader : IPv4Header) (hver : d.header.ver = 4)
    (hmin : 5 ≤ d.header.hlen) (hmax : d.header.hlen ≤ 15) (hoff : d.header.offset.toNat < 2 ^ 13)
    (hsize : 4 * d.header.hlen.toNat + d.payload.size = d.header.len.toNat) :
    ∃ bytes, d.serialize = some bytes ∧ (parse old bytes.concatenate).1 = .noError ∧
      (IPv4Header.parse oldHeader { buffer := bytes.concatenate }).1 = .noError ∧
      (parse old bytes.concatenate).2.payload.concatenate = d.payload.concatenate ∧
      { (parse old bytes.concatenate).2.header with cksum := d.header.cksum } = d.header := by
  have hplain : d.header.Plain := ⟨hver, UInt8.le_iff_toNat_le.mp hmin, UInt8.le_iff_toNat_le.mp hmax, hoff⟩
  obtain ⟨bytes, v, hbytes, hparse, hheader⟩ := exists_serialize old hplain hsize
  refine ⟨bytes, hbytes, ?_⟩
  rw [hparse]
  exact ⟨rfl, hheader oldHeader, by simp [BufferList.concatenate], rfl⟩

/-- A datagram with options and a payload in two buffers. -/
def sampleDatagram : IPv4Datagram :=
  { header := { hlen := 6, len := 29, df := false, mf := true, offset := 4097, src := 0x0a000001, dst := 0x0a000002 }
    payload := [[1, 2, 3], [4, 5]] }

theorem parse_serialize_datagram_sample :
    ∃ bytes, sampleDatagram.serialize = some bytes ∧ (parse {} bytes.concatenate).1 = .noError ∧
      (IPv4Header.parse {} { buffer := bytes.concatenate }).1 = .noError ∧
      (parse {} bytes.concatenate).2.payload.concatenate = [1, 2, 3, 4, 5] := by
  obtain ⟨bytes, hbytes, hok, hheader, hpayload, -⟩ :=
    parse_serialize_datagram sampleDatagram {} {} rfl (by decide) (by decide) (by decide) rfl
  exact ⟨bytes, hbytes, hok, hheader, hpayload⟩

end IPv4Datagram

end Sponge
