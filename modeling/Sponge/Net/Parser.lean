import Sponge.Lib.BigEndian

/-!
# Parsing and unparsing

`libsponge/util/parser.cc` and the parts of `util/buffer.cc` that the codecs use.
The error of a parser is sticky: once it is set, nothing more is read.
-/

namespace Sponge

open BigEndian

inductive ParseResult where
  | noError
  | badChecksum
  | packetTooShort
  | wrongIPVersion
  | headerTooShort
  | truncatedPacket
  | unsupported
  deriving Repr, DecidableEq

abbrev Buffer := List UInt8

abbrev BufferList := List Buffer

namespace BufferList

/-- The conversion to a `Buffer`, which throws when there are several. -/
def toBuffer : BufferList → Option Buffer
  | [] => some []
  | [buffer] => some buffer
  | _ => none

def concatenate (buffers : BufferList) : Buffer := List.flatten buffers

def size (buffers : BufferList) : Nat := (buffers.map List.length).sum

end BufferList

structure NetParser where
  buffer : Buffer
  error : ParseResult := .noError
  deriving Repr, DecidableEq

namespace NetParser

def checkSize (p : NetParser) (size : Nat) : NetParser :=
  if size > p.buffer.length then { p with error := .packetTooShort } else p

/-- The integer does not leave its type: it has `len` bytes. -/
def parseInt (len : Nat) : StateM NetParser Nat := fun p =>
  let p := p.checkSize len
  if p.error ≠ .noError then (0, p)
  else (decode (p.buffer.take len), { p with buffer := p.buffer.drop len })

def u32 : StateM NetParser UInt32 := do return UInt32.ofNat (← parseInt 4)

def u16 : StateM NetParser UInt16 := do return UInt16.ofNat (← parseInt 2)

def u8 : StateM NetParser UInt8 := do return UInt8.ofNat (← parseInt 1)

def removePrefix (p : NetParser) (n : Nat) : NetParser :=
  let p := p.checkSize n
  if p.error ≠ .noError then p else { p with buffer := p.buffer.drop n }

end NetParser

namespace NetUnparser

def u32 (val : UInt32) : Buffer := encode 4 val.toNat

def u16 (val : UInt16) : Buffer := encode 2 val.toNat

def u8 (val : UInt8) : Buffer := encode 1 val.toNat

@[simp] theorem length_u32 (val : UInt32) : (u32 val).length = 4 := length_encode _ _

@[simp] theorem length_u16 (val : UInt16) : (u16 val).length = 2 := length_encode _ _

@[simp] theorem length_u8 (val : UInt8) : (u8 val).length = 1 := length_encode _ _

end NetUnparser

/-! ## Reading the fields of a string of bytes -/

/-- The number in the `n` bytes from position `i` on. -/
def field (b : Buffer) (i n : Nat) : Nat := decode ((b.drop i).take n)

def u32At (b : Buffer) (i : Nat) : UInt32 := UInt32.ofNat (field b i 4)

def u16At (b : Buffer) (i : Nat) : UInt16 := UInt16.ofNat (field b i 2)

def u8At (b : Buffer) (i : Nat) : UInt8 := UInt8.ofNat (field b i 1)

namespace NetParser

variable {b : Buffer} {i n : Nat} {p : NetParser}

theorem bind_run {α β : Type} (m : StateM NetParser α) (f : α → StateM NetParser β) (p : NetParser) :
    (m >>= f) p = f (m p).1 (m p).2 := rfl

theorem bind_of_eq {α β : Type} {m : StateM NetParser α} {p p' : NetParser} {a : α} (h : m p = (a, p'))
    (f : α → StateM NetParser β) : (m >>= f) p = f a p' := by
  rw [bind_run, h]

theorem pure_run {α : Type} (a : α) (p : NetParser) : (pure a : StateM NetParser α) p = (a, p) := rfl

theorem checkSize_of_le (h : n ≤ p.buffer.length) : p.checkSize n = p := by
  unfold checkSize
  rw [if_neg (by omega)]

theorem checkSize_of_lt (h : p.buffer.length < n) : p.checkSize n = { p with error := .packetTooShort } := by
  unfold checkSize
  rw [if_pos h]

theorem le_length_drop (h : i + n ≤ b.length) : n ≤ (b.drop i).length := by
  rw [List.length_drop]
  omega

theorem parseInt_at (h : i + n ≤ b.length) :
    parseInt n { buffer := b.drop i } = (field b i n, { buffer := b.drop (i + n) }) := by
  unfold parseInt
  rw [checkSize_of_le (le_length_drop h)]
  simp [field]

theorem u32_at (h : i + 4 ≤ b.length) :
    u32 { buffer := b.drop i } = (u32At b i, { buffer := b.drop (i + 4) }) := by
  unfold u32
  rw [bind_run, parseInt_at h]
  rfl

theorem u16_at (h : i + 2 ≤ b.length) :
    u16 { buffer := b.drop i } = (u16At b i, { buffer := b.drop (i + 2) }) := by
  unfold u16
  rw [bind_run, parseInt_at h]
  rfl

theorem u8_at (h : i + 1 ≤ b.length) :
    u8 { buffer := b.drop i } = (u8At b i, { buffer := b.drop (i + 1) }) := by
  unfold u8
  rw [bind_run, parseInt_at h]
  rfl

theorem removePrefix_at (h : i + n ≤ b.length) :
    removePrefix { buffer := b.drop i } n = { buffer := b.drop (i + n) } := by
  unfold removePrefix
  rw [checkSize_of_le (le_length_drop h)]
  simp

theorem removePrefix_append (front rest : Buffer) :
    removePrefix { buffer := front ++ rest } front.length = { buffer := rest } := by
  unfold removePrefix
  rw [checkSize_of_le (by simp)]
  simp

theorem removePrefix_short (h : p.buffer.length < n) : (p.removePrefix n).error ≠ .noError := by
  unfold removePrefix
  rw [checkSize_of_lt h]
  simp

/-! ## Reading back what was written -/

variable {rest : Buffer}

theorem parseInt_append (n v : Nat) (rest : Buffer) :
    parseInt n { buffer := encode n v ++ rest } = (v % 256 ^ n, { buffer := rest }) := by
  unfold parseInt
  rw [checkSize_of_le (by simp)]
  simp [List.take_left' (length_encode n v), List.drop_left' (length_encode n v), decode_encode]

theorem u32_append (v : UInt32) : u32 { buffer := NetUnparser.u32 v ++ rest } = (v, { buffer := rest }) := by
  have hv : v.toNat % 256 ^ 4 = v.toNat := Nat.mod_eq_of_lt v.toNat_lt
  unfold u32 NetUnparser.u32
  rw [bind_run, parseInt_append, hv, pure_run, UInt32.ofNat_toNat]

theorem u16_append (v : UInt16) : u16 { buffer := NetUnparser.u16 v ++ rest } = (v, { buffer := rest }) := by
  have hv : v.toNat % 256 ^ 2 = v.toNat := Nat.mod_eq_of_lt v.toNat_lt
  unfold u16 NetUnparser.u16
  rw [bind_run, parseInt_append, hv, pure_run, UInt16.ofNat_toNat]

theorem u8_append (v : UInt8) : u8 { buffer := NetUnparser.u8 v ++ rest } = (v, { buffer := rest }) := by
  have hv : v.toNat % 256 ^ 1 = v.toNat := Nat.mod_eq_of_lt v.toNat_lt
  unfold u8 NetUnparser.u8
  rw [bind_run, parseInt_append, hv, pure_run, UInt8.ofNat_toNat]

/-! ## Writing back what was read -/

theorem length_take_drop (h : i + n ≤ b.length) : ((b.drop i).take n).length = n := by
  rw [List.length_take, List.length_drop]
  omega

theorem encode_field (h : i + n ≤ b.length) : encode n (field b i n) = (b.drop i).take n := by
  have henc := encode_decode ((b.drop i).take n)
  rwa [length_take_drop h] at henc

theorem field_lt (h : i + n ≤ b.length) : field b i n < 256 ^ n := by
  have hlt := decode_lt ((b.drop i).take n)
  rwa [length_take_drop h] at hlt

theorem u32_u32At (h : i + 4 ≤ b.length) : NetUnparser.u32 (u32At b i) = (b.drop i).take 4 := by
  have hlt : field b i 4 < 2 ^ 32 := field_lt h
  unfold NetUnparser.u32 u32At
  rw [UInt32.toNat_ofNat', Nat.mod_eq_of_lt hlt, encode_field h]

theorem u16_u16At (h : i + 2 ≤ b.length) : NetUnparser.u16 (u16At b i) = (b.drop i).take 2 := by
  have hlt : field b i 2 < 2 ^ 16 := field_lt h
  unfold NetUnparser.u16 u16At
  rw [UInt16.toNat_ofNat', Nat.mod_eq_of_lt hlt, encode_field h]

theorem u8_u8At (h : i + 1 ≤ b.length) : NetUnparser.u8 (u8At b i) = (b.drop i).take 1 := by
  have hlt : field b i 1 < 2 ^ 8 := field_lt h
  unfold NetUnparser.u8 u8At
  rw [UInt8.toNat_ofNat', Nat.mod_eq_of_lt hlt, encode_field h]

theorem take_drop_append (b : Buffer) (i m n : Nat) :
    (b.drop i).take m ++ (b.drop (i + m)).take n = (b.drop i).take (m + n) := by
  rw [← List.drop_drop, ← List.take_add]

/-! ## Parsers that fail -/

/-- The parser has failed, or will when `n` more bytes are asked for. -/
def Fails (p : NetParser) (n : Nat) : Prop := p.error ≠ .noError ∨ p.buffer.length < n

theorem Fails.checkSize (h : p.Fails n) : (p.checkSize n).error ≠ .noError := by
  rcases h with herr | hshort
  · unfold NetParser.checkSize
    split_ifs
    · simp
    · exact herr
  · rw [checkSize_of_lt hshort]
    simp

theorem Fails.mono {m : Nat} (h : p.Fails m) (hle : m ≤ n) : p.Fails n := h.imp id fun hlt => by omega

/-- A reader that needs `n` bytes fails with the parser when there are fewer. -/
def Needs {α : Type} (m : StateM NetParser α) (n : Nat) : Prop :=
  ∀ p k, Fails p (n + k) → (m p).2.Fails k

theorem needs_parseInt (n : Nat) : Needs (parseInt n) n := by
  intro p k h
  unfold parseInt
  simp only
  split_ifs with herr
  · exact Or.inl herr
  · have hsize : n ≤ p.buffer.length := by
      by_contra hlt
      exact (Fails.checkSize (Or.inr (by omega))) (not_not.mp herr)
    rw [checkSize_of_le hsize] at herr ⊢
    right
    have := h.resolve_left herr
    simp only [List.length_drop]
    omega

theorem needs_pure {α : Type} (a : α) : Needs (pure a) 0 := by
  intro p k h
  rwa [Nat.zero_add] at h

theorem Needs.bind {α β : Type} {m : StateM NetParser α} {f : α → StateM NetParser β} {k : Nat}
    (hm : Needs m n) (hf : ∀ a, Needs (f a) k) : Needs (m >>= f) (n + k) := by
  intro p l h
  rw [bind_run]
  exact hf _ _ l (hm p (k + l) (by rwa [← Nat.add_assoc]))

theorem needs_u32 : Needs u32 4 := (needs_parseInt 4).bind fun _ => needs_pure _

theorem needs_u16 : Needs u16 2 := (needs_parseInt 2).bind fun _ => needs_pure _

theorem needs_u8 : Needs u8 1 := (needs_parseInt 1).bind fun _ => needs_pure _

theorem Fails.removePrefix (h : p.Fails 0) : (p.removePrefix n).error ≠ .noError := by
  have herr := (h.mono (Nat.zero_le n)).checkSize
  unfold NetParser.removePrefix
  simp only [if_pos herr]
  exact herr

theorem Fails.error (h : p.Fails 0) : p.error ≠ .noError := h.resolve_right (by omega)

end NetParser

end Sponge
