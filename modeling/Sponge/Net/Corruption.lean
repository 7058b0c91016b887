import Sponge.Net.RoundTrip

/-!
# A corrupted byte

The checksum of a segment is over every byte of it, so one byte that arrives with
another value is always noticed, wherever it stands.
-/

namespace Sponge

open InternetChecksum OnesComplement

namespace TCPSegment

variable {b : Buffer} {c : UInt32} {i : Nat} {x : UInt8}

theorem verifies_of_noError (seg : TCPSegment) (hb : b.length ≤ 65535 + 60) (hc : c.toNat < 2 ^ 20)
    (h : (parse seg b c).1 = .noError) : Verifies c.toNat b := by
  rw [← value_eq_zero_iff_verifies hb hc]
  rw [parse_eq] at h
  by_contra hvalue
  rw [if_pos hvalue] at h
  cases h

theorem badChecksum_of_set (seg : TCPSegment) (hb : b.length ≤ 65535 + 60) (hc : c.toNat < 2 ^ 20)
    (hverifies : Verifies c.toNat b) (hi : i < b.length) (hx : b[i]? ≠ some x) :
    (parse seg (b.set i x) c).1 = .badChecksum := by
  have hat : b[i]? = some b[i] := List.getElem?_eq_getElem hi
  have hne : b[i] ≠ x := fun heq => hx (heq ▸ hat)
  have hvalue : (add { sum := c } (b.set i x)).value ≠ 0 := by
    intro hzero
    have hset : Verifies c.toNat (b.set i x) :=
      (value_eq_zero_iff_verifies (by rw [List.length_set]; exact hb) hc).mp hzero
    exact digit_set_ne hat hne c.toNat hverifies hset
  rw [parse_eq, if_pos hvalue]

/-- Whichever byte of a serialized segment is replaced by another, the segment is not accepted. -/
theorem corrupted_byte_detected (seg old : TCPSegment) (ip : IPv4Header) (hmin : 5 ≤ seg.header.doff)
    (hmax : seg.header.doff ≤ 15) (hlen : seg.payload.length ≤ 65535) :
    ∃ bytes, seg.serialize ip.pseudoCksum = some bytes ∧
      ∀ (i : Nat) (x : UInt8), i < bytes.concatenate.length → bytes.concatenate[i]? ≠ some x →
        (parse old (bytes.concatenate.set i x) ip.pseudoCksum).1 = .badChecksum := by
  have hdoff : seg.header.doff.toNat ≤ 15 := UInt8.le_iff_toNat_le.mp hmax
  obtain ⟨bytes, v, hbytes, hsize, hparse⟩ := exists_serialize seg old ip.pseudoCksum_lt
    (UInt8.le_iff_toNat_le.mp hmin) hdoff hlen
  have hlength : bytes.concatenate.length ≤ 65535 + 60 := by
    rw [IPv4Datagram.length_concatenate, hsize]
    omega
  have hverifies := verifies_of_noError old hlength ip.pseudoCksum_lt (by rw [hparse])
  exact ⟨bytes, hbytes, fun i x hi hx => badChecksum_of_set old hlength ip.pseudoCksum_lt hverifies hi hx⟩

theorem corrupted_byte_detected_sample :
    ∃ bytes, sampleSegment.serialize (IPv4Header.pseudoCksum { len := 47 }) = some bytes ∧
      ∀ (i : Nat) (x : UInt8), i < bytes.concatenate.length → bytes.concatenate[i]? ≠ some x →
        (parse {} (bytes.concatenate.set i x) (IPv4Header.pseudoCksum { len := 47 })).1 = .badChecksum :=
  corrupted_byte_detected sampleSegment {} { len := 47 } (by decide) (by decide) (by decide)

end TCPSegment

end Sponge
