import Sponge.Router.TTL

/-!
# Longest-prefix match

The loop of `route_one_datagram` compares shifted addresses and keeps the first
entry that is longer than all before it. What it finds is the longest match in the
sense of the bits of the addresses, and the one that was added first among equals.
-/

namespace Sponge

namespace Routingtable

variable {object : Routingtable} {dst : UInt32}

/-- The first `prefixLength` bits are those of the destination. -/
def AgreesWith (object : Routingtable) (dst : UInt32) : Prop :=
  ∀ i < object.prefixLength.toNat, object.routePrefix.toNat.testBit (31 - i) = dst.toNat.testBit (31 - i)

instance (object : Routingtable) (dst : UInt32) : Decidable (object.AgreesWith dst) :=
  inferInstanceAs (Decidable (∀ i < _, _))

theorem shiftRight_eq_iff {a b n : Nat} (ha : a < 2 ^ 32) (hb : b < 2 ^ 32) (hn : n ≤ 32) :
    a >>> (32 - n) = b >>> (32 - n) ↔ ∀ i < n, a.testBit (31 - i) = b.testBit (31 - i) := by
  constructor
  · intro h i hi
    have hbit := congrArg (fun x => x.testBit (n - 1 - i)) h
    simp only [Nat.testBit_shiftRight] at hbit
    rw [show 31 - i = 32 - n + (n - 1 - i) by omega]
    exact hbit
  · intro h
    apply Nat.eq_of_testBit_eq
    intro j
    rw [Nat.testBit_shiftRight, Nat.testBit_shiftRight]
    rcases Nat.lt_or_ge j n with hj | hj
    · rw [show 32 - n + j = 31 - (n - 1 - j) by omega]
      exact h _ (by omega)
    · -- Beyond the top of the addresses there are no bits.
      have hpow : 2 ^ 32 ≤ 2 ^ (32 - n + j) := Nat.pow_le_pow_right (by decide) (by omega)
      rw [Nat.testBit_lt_two_pow (ha.trans_le hpow), Nat.testBit_lt_two_pow (hb.trans_le hpow)]

theorem matches_iff_agreesWith (h : object.prefixLength ≤ 32) : object.Matches dst ↔ object.AgreesWith dst := by
  have hlen : object.prefixLength.toNat ≤ 32 := UInt8.le_iff_toNat_le.mp h
  unfold Matches AgreesWith
  simp only [h, true_and]
  split_ifs with hpos
  · exact shiftRight_eq_iff object.routePrefix.toNat_lt dst.toNat_lt hlen
  · have hzero : object.prefixLength.toNat = 0 := Nat.eq_zero_of_not_pos hpos
    simp [hzero]

end Routingtable

namespace Router

open Routingtable

variable {dst : UInt32} {table : List Routingtable} {found : Search} {r : Router} {dgram : InternetDatagram}

def addRoutes (r : Router) (routes : List Routingtable) : Router :=
  routes.foldl (fun r o => r.addRoute o.routePrefix o.prefixLength o.nextHop o.interfaceNum) r

theorem addRoutes_eq (r : Router) (routes : List Routingtable) :
    r.addRoutes routes = { r with routingTable := r.routingTable ++ routes } := by
  unfold addRoutes
  induction routes generalizing r with
  | nil => simp
  | cons object routes ih =>
    rw [List.foldl_cons, ih]
    simp [addRoute]

/-- The entry that is to be used: no entry before it that agrees is as long, and none behind it
is longer. -/
structure LongestMatch (dst : UInt32) (table : List Routingtable) (object : Routingtable) : Prop where
  agrees : object.AgreesWith dst
  first : ∃ before after, table = before ++ object :: after ∧
    (∀ o ∈ before, o.AgreesWith dst → o.prefixLength < object.prefixLength) ∧
    ∀ o ∈ after, o.AgreesWith dst → o.prefixLength ≤ object.prefixLength

theorem LongestMatch.mem {object : Routingtable} (h : LongestMatch dst table object) : object ∈ table := by
  obtain ⟨-, before, after, rfl, -, -⟩ := h
  simp

theorem LongestMatch.unique {object object' : Routingtable} (h : LongestMatch dst table object)
    (h' : LongestMatch dst table object') : object = object' := by
  obtain ⟨hagrees, before, after, rfl, hbefore, hafter⟩ := h
  obtain ⟨hagrees', before', after', hsplit, hbefore', hafter'⟩ := h'
  rcases List.append_eq_append_iff.mp hsplit with ⟨between, rfl, hrest⟩ | ⟨between, rfl, hrest⟩
  · cases between with
    | nil => exact (List.cons.inj hrest).1
    | cons first rest =>
      obtain ⟨rfl, rfl⟩ := List.cons.inj hrest
      have hlt := hbefore' object (by simp) hagrees
      exact absurd hlt (UInt8.not_lt.mpr (hafter object' (by simp) hagrees'))
  · cases between with
    | nil => exact (List.cons.inj hrest).1.symm
    | cons first rest =>
      obtain ⟨rfl, rfl⟩ := List.cons.inj hrest
      have hlt := hbefore object' (by simp) hagrees'
      exact absurd hlt (UInt8.not_lt.mpr (hafter' object (by simp) hagrees))

/-- What is to be done with a datagram: it goes to the next hop of the longest match, and is dropped when
no entry agrees or at most one hop is left. -/
inductive RoutedAs (table : List Routingtable) (dgram : InternetDatagram) : Option Handover → Prop where
  | sent (object : Routingtable) (hlongest : LongestMatch dgram.header.dst table object)
      (httl : 2 ≤ dgram.header.ttl.toNat) :
      RoutedAs table dgram (some ⟨object.interfaceNum, dgram, object.nextHop.getD dgram.header.dst⟩)
  | dropped (hnone : ¬ ((∃ o ∈ table, o.AgreesWith dgram.header.dst) ∧ 2 ≤ dgram.header.ttl.toNat)) :
      RoutedAs table dgram none

theorem RoutedAs.unique {out out' : Option Handover} (h : RoutedAs table dgram out) (h' : RoutedAs table dgram out') :
    out = out' := by
  cases h with
  | sent object hlongest httl =>
    cases h' with
    | sent object' hlongest' => rw [hlongest.unique hlongest']
    | dropped hnone => exact absurd ⟨⟨object, hlongest.mem, hlongest.agrees⟩, httl⟩ hnone
  | dropped hnone =>
    cases h' with
    | sent object hlongest httl => exact absurd ⟨⟨object, hlongest.mem, hlongest.agrees⟩, httl⟩ hnone
    | dropped => rfl

/-! ## The search finds it -/

/-- Whatever matches before the match that was found is shorter. -/
def Earliest (dst : UInt32) (table : List Routingtable) (found : Search) : Prop :=
  ∀ object ∈ table.take found.longestPrefixMatch, object.Matches dst →
    (object.prefixLength.toNat : Int) < found.max

theorem Earliest.next (hbest : Best dst table found) (h : Earliest dst table found)
    (hindex : found.longestPrefixMatch ≤ table.length) (object : Routingtable) :
    Earliest dst (table ++ [object]) (found.next dst object table.length) := by
  unfold Earliest Search.next
  split
  · rename_i hnew
    intro o ho hmatch
    rw [List.take_left] at ho
    exact Int.lt_of_le_of_lt (hbest.longest o ho hmatch) hnew.2
  · intro o ho hmatch
    rw [List.take_append_of_le_length hindex] at ho
    exact h o ho hmatch

theorem Search.next_index_le (hindex : found.longestPrefixMatch ≤ table.length) (dst : UInt32)
    (object : Routingtable) : (found.next dst object table.length).longestPrefixMatch ≤ table.length := by
  unfold Search.next
  split
  · exact Nat.le_refl _
  · exact hindex

theorem Earliest.searchFrom (hbest : Best dst table found) (h : Earliest dst table found)
    (hindex : found.longestPrefixMatch ≤ table.length) (rest : List Routingtable) :
    Earliest dst (table ++ rest) (searchFrom dst found table.length rest) := by
  induction rest generalizing table found with
  | nil =>
    rw [List.append_nil]
    exact h
  | cons object rest ih =>
    have hnext : (found.next dst object table.length).longestPrefixMatch ≤ (table ++ [object]).length := by
      have := Search.next_index_le hindex dst object
      rw [List.length_append]
      exact Nat.le_add_right_of_le this
    have hrest := ih (hbest.next object) (h.next hbest hindex object) hnext
    rw [List.append_assoc, List.length_append] at hrest
    exact hrest

theorem earliest_search (dst : UInt32) (table : List Routingtable) : Earliest dst table (searchFrom dst {} 0 table) := by
  have hstart : Earliest dst [] {} := by simp [Earliest]
  exact hstart.searchFrom (best_search dst []) (Nat.le_refl _) table

theorem longestMatch_search {object : Routingtable} (hlength : ∀ o ∈ table, o.prefixLength ≤ 32)
    (hmax : (searchFrom dst {} 0 table).max ≠ -1)
    (hat : table[(searchFrom dst {} 0 table).longestPrefixMatch]? = some object) : LongestMatch dst table object := by
  have hbest := best_search dst table
  have hearliest := earliest_search dst table
  unfold Earliest at hearliest
  obtain ⟨object', hat', hmatch, hlen⟩ := hbest.at_index hmax
  rw [hat] at hat'
  cases hat'
  obtain ⟨hlt, hget⟩ := List.getElem?_eq_some_iff.mp hat
  have hmem : object ∈ table := List.mem_of_getElem? hat
  have hsplit : table = table.take (searchFrom dst {} 0 table).longestPrefixMatch ++
      object :: table.drop ((searchFrom dst {} 0 table).longestPrefixMatch + 1) := by
    rw [← hget, List.getElem_cons_drop hlt, List.take_append_drop]
  -- Before the found route every match is shorter, behind it none is longer.
  rw [← hlen] at hearliest
  refine ⟨(matches_iff_agreesWith (hlength object hmem)).mp hmatch, _, _, hsplit, ?_, ?_⟩
  · intro o ho hagrees
    have ho' := List.mem_of_mem_take ho
    exact Int.ofNat_lt.mp (hearliest o ho ((matches_iff_agreesWith (hlength o ho')).mpr hagrees))
  · intro o ho hagrees
    have ho' := List.mem_of_mem_drop ho
    have hle := hbest.longest o ho' ((matches_iff_agreesWith (hlength o ho')).mpr hagrees)
    rw [← hlen] at hle
    exact Int.ofNat_le.mp hle

/-! ## What is sent -/

theorem handover_longest (hlength : ∀ o ∈ r.routingTable, o.prefixLength ≤ 32) (hgo : ¬ r.Stops dgram) :
    ∃ object, LongestMatch dgram.header.dst r.routingTable object ∧ r.handover dgram = some {
      interfaceNum := object.interfaceNum
      dgram := dgram
      nextHop := object.nextHop.getD dgram.header.dst } := by
  have hsome : r.handover dgram ≠ none := fun hnone => hgo (handover_eq_none_iff.mp hnone)
  unfold handover at hsome ⊢
  simp only at hsome ⊢
  split_ifs at hsome ⊢ with hmax httl
  · exact absurd rfl hsome
  · split
    · rename_i hnone
      rw [hnone] at hsome
      exact absurd rfl hsome
    · exact ⟨_, longestMatch_search hlength hmax ‹_›, rfl⟩
  · exact absurd rfl hsome

theorem stops_iff_not_agreesWith (hlength : ∀ o ∈ r.routingTable, o.prefixLength ≤ 32) :
    r.Stops dgram ↔ ¬ ((∃ o ∈ r.routingTable, o.AgreesWith dgram.header.dst) ∧ 2 ≤ dgram.header.ttl.toNat) := by
  have httl : dgram.header.ttl ≤ 1 ↔ ¬ 2 ≤ dgram.header.ttl.toNat := by
    rw [UInt8.le_iff_toNat_le]
    simp only [UInt8.reduceToNat]
    omega
  have hmatch : (∀ o ∈ r.routingTable, ¬ o.Matches dgram.header.dst) ↔
      ¬ ∃ o ∈ r.routingTable, o.AgreesWith dgram.header.dst := by
    simp only [not_exists, not_and]
    exact forall₂_congr fun o ho => not_congr (matches_iff_agreesWith (hlength o ho))
  unfold Stops
  rw [httl, hmatch, not_and_or, or_comm]

theorem handover_routedAs (hlength : ∀ o ∈ r.routingTable, o.prefixLength ≤ 32) (dgram : InternetDatagram) :
    RoutedAs r.routingTable dgram (r.handover dgram) := by
  by_cases hstops : r.Stops dgram
  · rw [handover_eq_none_iff.mpr hstops]
    exact .dropped ((stops_iff_not_agreesWith hlength).mp hstops)
  · obtain ⟨object, hlongest, hhandover⟩ := handover_longest hlength hstops
    rw [hhandover]
    exact .sent object hlongest (two_le_ttl_of_handover hhandover)

/-- With any routes on existing interfaces, a datagram with two hops left is sent once, as the
longest match that was added first says, and every other datagram is not sent. -/
theorem longest_match_sent_once (interfaces : List AsyncNetworkInterface) (routes : List Routingtable)
    (dgram : InternetDatagram) (past : PastTheEnd) (hlength : ∀ o ∈ routes, o.prefixLength ≤ 32)
    (hvalid : ∀ o ∈ routes, o.interfaceNum < interfaces.length) :
    let r := addRoutes { interfaces := interfaces } routes
    let dst := dgram.header.dst
    let forwarded := (∃ o ∈ routes, o.AgreesWith dst) ∧ 2 ≤ dgram.header.ttl.toNat
    (forwarded → ∃ object interface, LongestMatch dst routes object ∧
      interfaces[object.interfaceNum]? = some interface ∧
      r.handover dgram = some {
        interfaceNum := object.interfaceNum, dgram := dgram, nextHop := object.nextHop.getD dst } ∧
      r.routeOneDatagram dgram past =
        (interface.toNetworkInterface.sendDatagram dgram (object.nextHop.getD dst) past).map fun sent =>
          { r with interfaces := interfaces.set object.interfaceNum { interface with toNetworkInterface := sent } }) ∧
    (¬ forwarded → r.handover dgram = none ∧ r.routeOneDatagram dgram past = some r) := by
  intro r dst forwarded
  have hr : r = { interfaces := interfaces, routingTable := routes } := addRoutes_eq _ routes
  have hstops : r.Stops dgram ↔ ¬ forwarded := by
    rw [hr]
    exact stops_iff_not_agreesWith hlength
  constructor
  · intro hgo
    have hgoes : ¬ r.Stops dgram := fun hstop => hstops.mp hstop hgo
    obtain ⟨object, hlongest, hhandover⟩ := handover_longest (by rw [hr]; exact hlength) hgoes
    rw [hr] at hlongest
    obtain ⟨interface, hinterface⟩ : ∃ interface, interfaces[object.interfaceNum]? = some interface :=
      ⟨_, List.getElem?_eq_getElem (hvalid object hlongest.mem)⟩
    refine ⟨object, interface, hlongest, hinterface, hhandover, ?_⟩
    unfold routeOneDatagram
    rw [hhandover]
    simp only [hr, hinterface, Option.bind_eq_bind, Option.bind_some, Option.pure_def, Option.map_eq_bind,
      Function.comp_def]
    rfl
  · intro hno
    have hnone := handover_eq_none_iff.mpr (hstops.mpr hno)
    refine ⟨hnone, ?_⟩
    unfold routeOneDatagram
    rw [hnone]

/-- A default route, a longer one, and the longer one again with another next hop. -/
def nestedRoutes : List Routingtable :=
  [{ routePrefix := 0, prefixLength := 0, nextHop := some 0x0a000001, interfaceNum := 0 },
    { routePrefix := 0x0a000000, prefixLength := 8, nextHop := none, interfaceNum := 1 },
    { routePrefix := 0x0a000000, prefixLength := 8, nextHop := some 0x0a000002, interfaceNum := 0 }]

def twoInterfaces : List AsyncNetworkInterface :=
  [{ ethernetAddress := ethernetAddress 2, ipAddress := 0x01000001 },
    { ethernetAddress := ethernetAddress 4, ipAddress := 0x0a000001 }]

def toNested : InternetDatagram := { header := { ttl := 2, len := 20, dst := 0x0a010203 } }

theorem longest_match_nested :
    (addRoutes { interfaces := twoInterfaces } nestedRoutes).handover toNested =
      some { interfaceNum := 1, dgram := toNested, nextHop := 0x0a010203 } ∧
    ∃ object interface, LongestMatch 0x0a010203 nestedRoutes object ∧
      twoInterfaces[object.interfaceNum]? = some interface ∧
      (addRoutes { interfaces := twoInterfaces } nestedRoutes).handover toNested = some {
        interfaceNum := object.interfaceNum, dgram := toNested, nextHop := object.nextHop.getD 0x0a010203 } := by
  obtain ⟨object, interface, hlongest, hinterface, hhandover, -⟩ :=
    (longest_match_sent_once twoInterfaces nestedRoutes toNested { timeEthernet := 0, timeArp := 0 } (by decide)
      (by decide)).1 (by decide)
  exact ⟨by decide, object, interface, hlongest, hinterface, hhandover⟩

end Router

end Sponge
