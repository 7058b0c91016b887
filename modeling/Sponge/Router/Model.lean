import Sponge.Interface.Model

/-!
# The router

`libsponge/router.cc`. Addresses of next hops are their 32 bits. What
`route_one_datagram` hands to which interface is decided before the call of
`send_datagram`, and stands on its own here as `handover`.
-/

namespace Sponge

structure Routingtable where
  routePrefix : UInt32
  prefixLength : UInt8
  nextHop : Option UInt32
  interfaceNum : Nat
  deriving DecidableEq

structure AsyncNetworkInterface extends NetworkInterface where
  datagramsOut : List InternetDatagram := []
  deriving DecidableEq

structure Router where
  routingTable : List Routingtable := []
  interfaces : List AsyncNetworkInterface := []
  deriving DecidableEq

/-- A call of `send_datagram`. -/
structure Handover where
  interfaceNum : Nat
  dgram : InternetDatagram
  nextHop : UInt32
  deriving DecidableEq

namespace Routingtable

/-- The first `prefixLength` bits agree; a shift by all 32 bits is avoided in the source. -/
def Matches (object : Routingtable) (dst : UInt32) : Prop :=
  let postfixLength := 32 - object.prefixLength.toNat
  let routeBits := if object.prefixLength > 0 then object.routePrefix.toNat >>> postfixLength else 0
  let dstTemp := if object.prefixLength > 0 then dst.toNat >>> postfixLength else 0
  -- Above 32 the `size_t` wraps and the shift by it is undefined. Such an entry matches nothing here.
  object.prefixLength ≤ 32 ∧ routeBits = dstTemp

instance (object : Routingtable) (dst : UInt32) : Decidable (object.Matches dst) :=
  inferInstanceAs (Decidable (_ ∧ _))

end Routingtable

namespace Router

def addInterface (r : Router) (interface : AsyncNetworkInterface) : Router :=
  { r with interfaces := r.interfaces ++ [interface] }

def addRoute (r : Router) (routePrefix : UInt32) (prefixLength : UInt8) (nextHop : Option UInt32)
    (interfaceNum : Nat) : Router :=
  { r with routingTable := r.routingTable ++ [{
      routePrefix := routePrefix
      prefixLength := prefixLength
      nextHop := nextHop
      interfaceNum := interfaceNum }] }

/-- The variables of the search loop; the match is only read once `max` has been set. -/
structure Search where
  max : Int := -1
  longestPrefixMatch : Nat := 0
  deriving DecidableEq

def Search.next (dst : UInt32) (found : Search) (object : Routingtable) (i : Nat) : Search :=
  if object.Matches dst ∧ found.max < object.prefixLength.toNat then
    { max := object.prefixLength.toNat, longestPrefixMatch := i }
  else found

/-- The loop from index `i` on. -/
def searchFrom (dst : UInt32) (found : Search) (i : Nat) : List Routingtable → Search
  | [] => found
  | object :: rest => searchFrom dst (found.next dst object i) (i + 1) rest

/-- `none` when the datagram is dropped. -/
def handover (r : Router) (dgram : InternetDatagram) : Option Handover :=
  let dst := dgram.header.dst
  let found := searchFrom dst {} 0 r.routingTable
  if found.max ≠ -1 then
    if dgram.header.ttl = 0 ∨ (dgram.header.ttl.toNat : Int) - 1 = 0 then none
    else
      match r.routingTable[found.longestPrefixMatch]? with
      | none => none
      | some matched =>
        some { interfaceNum := matched.interfaceNum, dgram := dgram, nextHop := matched.nextHop.getD dst }
  else none

/-- `none` where `interface` or `send_datagram` throws. -/
def routeOneDatagram (r : Router) (dgram : InternetDatagram) (past : PastTheEnd) : Option Router :=
  match r.handover dgram with
  | none => some r
  | some h => do
    let interface ← r.interfaces[h.interfaceNum]?
    let sent ← interface.toNetworkInterface.sendDatagram h.dgram h.nextHop past
    return { r with interfaces := r.interfaces.set h.interfaceNum { interface with toNetworkInterface := sent } }

/-! ## The search -/

variable {dst : UInt32} {table : List Routingtable} {found : Search} {r : Router} {dgram : InternetDatagram}

/-- The best match among the entries seen so far. -/
structure Best (dst : UInt32) (table : List Routingtable) (found : Search) : Prop where
  none_iff : found.max = -1 ↔ ∀ object ∈ table, ¬ object.Matches dst
  longest : ∀ object ∈ table, object.Matches dst → (object.prefixLength.toNat : Int) ≤ found.max
  at_index : found.max ≠ -1 → ∃ object, table[found.longestPrefixMatch]? = some object ∧ object.Matches dst ∧
    (object.prefixLength.toNat : Int) = found.max

theorem Best.next (h : Best dst table found) (object : Routingtable) :
    Best dst (table ++ [object]) (found.next dst object table.length) := by
  have hmem : ∀ {o : Routingtable}, o ∈ table ++ [object] → o ∈ table ∨ o = object := by simp
  unfold Search.next
  split
  · -- The comparison is strict, so the first of several longest matches stays.
    rename_i hnew
    refine ⟨⟨fun hmax => ?_, fun hno => ?_⟩, fun o ho hmatch => ?_, fun _ => ⟨object, by simp, hnew.1, rfl⟩⟩
    · simp only at hmax
      omega
    · exact absurd hnew.1 (hno object (by simp))
    · rcases hmem ho with ho | rfl
      · exact (h.longest o ho hmatch).trans (Int.le_of_lt hnew.2)
      · exact Int.le_refl _
  · rename_i hold
    refine ⟨⟨fun hmax o ho hmatch => ?_, fun hno => ?_⟩, fun o ho hmatch => ?_, fun hmax => ?_⟩
    · rcases hmem ho with ho | rfl
      · exact h.none_iff.mp hmax o ho hmatch
      · exact hold ⟨hmatch, by omega⟩
    · exact h.none_iff.mpr fun o ho => hno o (List.mem_append_left _ ho)
    · rcases hmem ho with ho | rfl
      · exact h.longest o ho hmatch
      · exact Int.not_lt.mp fun hlt => hold ⟨hmatch, hlt⟩
    · obtain ⟨o, hat, hmatch, hlen⟩ := h.at_index hmax
      refine ⟨o, ?_, hmatch, hlen⟩
      rw [List.getElem?_append_left (List.getElem?_eq_some_iff.mp hat).1]
      exact hat

theorem Best.searchFrom (h : Best dst table found) (rest : List Routingtable) :
    Best dst (table ++ rest) (searchFrom dst found table.length rest) := by
  induction rest generalizing table found with
  | nil =>
    rw [List.append_nil]
    exact h
  | cons object rest ih =>
    have hrest := ih (h.next object)
    rw [List.append_assoc, List.length_append] at hrest
    exact hrest

theorem best_search (dst : UInt32) (table : List Routingtable) : Best dst table (searchFrom dst {} 0 table) := by
  have hstart : Best dst [] {} := ⟨by simp, by simp, fun h => absurd rfl h⟩
  exact hstart.searchFrom table

end Router

end Sponge
