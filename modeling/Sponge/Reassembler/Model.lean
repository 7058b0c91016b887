import Sponge.ByteStream

/-!
# The stream reassembler

`libsponge/stream_reassembler.cc`. The store is a list of blocks. `pushSubstring`
is cut at its comments: the loop that inserts the substring, the trim of the
front, the trim of the back, and the write. It returns `none` where the source
throws `std::out_of_range`.
-/

namespace Sponge

open Word64

structure Inforsubstr where
  first : Nat
  last : Nat
  data : List UInt8
  deriving Repr, DecidableEq

structure StreamReassembler where
  privateUnassembledBytes : Nat := 0
  checkeof : Bool := false
  storelist : List Inforsubstr := []
  firstindex : Nat := 0
  output : ByteStream
  capacity : Nat
  deriving Repr, DecidableEq

/-- `std::string::substr(pos)`. -/
def substr (s : List UInt8) (pos : Nat) : Option (List UInt8) :=
  if pos > s.length then none else some (s.drop pos)

namespace StreamReassembler

def new (capacity : Nat) : StreamReassembler :=
  { output := ByteStream.new capacity, capacity := capacity }

def unassembledBytes (r : StreamReassembler) : Nat := r.privateUnassembledBytes

def empty (r : StreamReassembler) : Bool := r.storelist.length == 0 && r.unassembledBytes == 0

/-- The substring after it met the stored block `temp`. Its bounds and bytes are those of
`sub_begin`, `sub_end` and `sub_string`. -/
def overlap (temp sub : Inforsubstr) : Option Inforsubstr :=
  if temp.first ≤ sub.first ∧ temp.last ≥ sub.last then
    some temp
  else if temp.first ≤ sub.first ∧ temp.last ≤ sub.last then
    match substr sub.data (sub64 (add64 temp.last 1) sub.first) with
    | none => none
    | some rest => some { sub with first := temp.first, data := temp.data ++ rest }
  else if temp.first ≥ sub.first ∧ temp.last ≥ sub.last then
    match substr temp.data (sub64 (add64 sub.last 1) temp.first) with
    | none => none
    | some rest => some { sub with last := temp.last, data := sub.data ++ rest }
  else some sub

/-- The loop over the store, with the bytes that are counted as unassembled. A block that
meets the substring is erased, and the walk goes on with the block after it. (When that block
was the first of the list the source steps back over `begin()`: in a circular list this is the
end mark, and the next step forward gives the block after it again.) -/
def insertLoop : List Inforsubstr → Inforsubstr → Nat → Option (List Inforsubstr × Nat)
  | [], sub, bytes => some ([sub], add64 bytes sub.data.length)  -- `is_inserted` is still false
  | temp :: rest, sub, bytes =>
    if add64 temp.first temp.data.length < sub.first then
      match insertLoop rest sub bytes with
      | none => none
      | some (l, bytes') => some (temp :: l, bytes')
    else if add64 sub.last 1 < temp.first then
      some (sub :: temp :: rest, add64 bytes sub.data.length)
    else
      match overlap temp sub with
      | none => none
      | some sub' => insertLoop rest sub' (sub64 bytes temp.data.length)

def trimFront (r : StreamReassembler) : Option StreamReassembler :=
  match r.storelist with
  | [] => some r
  | front :: rest =>
    if front.first < r.firstindex then
      match substr front.data (sub64 r.firstindex front.first) with
      | none => none
      | some data => some { r with
          storelist := { front with first := r.firstindex, data := data } :: rest
          privateUnassembledBytes :=
            add64 (sub64 r.privateUnassembledBytes front.data.length) data.length }
    else some r

def trimBack (r : StreamReassembler) : StreamReassembler :=
  match r.storelist.getLast? with
  | none => r
  | some back =>
    let limit := add64 r.firstindex r.capacity
    if add64 back.last 1 ≥ limit then
      let data := back.data.take (sub64 limit back.first)
      { r with
        storelist := r.storelist.dropLast ++ [{ back with last := sub64 limit 1, data := data }]
        privateUnassembledBytes :=
          add64 (sub64 r.privateUnassembledBytes back.data.length) data.length }
    else r

/-- Write the first block, or as much of it as fits, when it is next in the stream. -/
def writeFront (r : StreamReassembler) : StreamReassembler :=
  match r.storelist with
  | [] => r
  | front :: rest =>
    if front.first = r.firstindex then
      let rc := r.output.remainingCapacity
      let r :=
        if rc < front.data.length then
          let first := add64 front.first rc
          { r with
            storelist := { front with first := first, data := front.data.drop rc } :: rest
            firstindex := first
            privateUnassembledBytes := sub64 r.privateUnassembledBytes (front.data.take rc).length
            output := (r.output.write (front.data.take rc)).1 }
        else
          { r with
            storelist := rest
            firstindex := add64 front.last 1
            privateUnassembledBytes := sub64 r.privateUnassembledBytes front.data.length
            output := (r.output.write front.data).1 }
      if r.empty && r.checkeof then { r with output := r.output.endInput } else r
    else r

def pushSubstring (r : StreamReassembler) (data : List UInt8) (index : Nat) (eof : Bool) :
    Option StreamReassembler :=
  let r := { r with checkeof := if eof then eof else r.checkeof }
  if data.length = 0 then
    some (if r.checkeof && r.firstindex == index then { r with output := r.output.endInput } else r)
  else
    let sub : Inforsubstr := ⟨index, sub64 (add64 index data.length) 1, data⟩
    if sub.last < r.firstindex then some r
    else
      match insertLoop r.storelist sub r.privateUnassembledBytes with
      | none => none
      | some (l, bytes) =>
        match trimFront { r with storelist := l, privateUnassembledBytes := bytes } with
        | none => none
        | some r => some (writeFront (trimBack r))

def readOut (r : StreamReassembler) (len : Nat) : StreamReassembler :=
  { r with output := (r.output.read len).2 }

theorem readOut_eq (r : StreamReassembler) (len : Nat) :
    r.readOut len = { r with output := { r.output with
      content := r.output.content.drop (min len r.output.content.length)
      alread := r.output.alread + min len r.output.content.length } } := by
  rw [readOut, ByteStream.read_eq, ByteStream.popOutput_eq]

end StreamReassembler

end Sponge
