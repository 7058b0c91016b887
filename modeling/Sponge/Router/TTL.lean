import Sponge.Router.Model

/-!
# The time to live

`route_one_datagram` compares `ttl - 1` with zero and drops what would expire, but it
hands over the datagram with the TTL it came with.
-/

namespace Sponge

namespace InternetDatagram

/-- The datagram after one hop. -/
def hopped (dgram : InternetDatagram) : InternetDatagram :=
  { dgram with header := { dgram.header with ttl := dgram.header.ttl - 1 } }

end InternetDatagram

namespace Router

open InternetDatagram

variable {r : Router} {dgram : InternetDatagram} {h : Handover}

/-- The datagram has at most one hop left, or no route matches. -/
def Stops (r : Router) (dgram : InternetDatagram) : Prop :=
  dgram.header.ttl ≤ 1 ∨ ∀ object ∈ r.routingTable, ¬ object.Matches dgram.header.dst

instance (r : Router) (dgram : InternetDatagram) : Decidable (r.Stops dgram) := inferInstanceAs (Decidable (_ ∨ _))

/-- How often the datagram is handed over along a chain of routers. -/
def forwards : List Router → InternetDatagram → Nat
  | [], _ => 0
  | r :: chain, dgram =>
    match r.handover dgram with
    | none => 0
    | some h => forwards chain h.dgram + 1

theorem expires_iff (ttl : UInt8) : (ttl = 0 ∨ (ttl.toNat : Int) - 1 = 0) ↔ ttl ≤ 1 := by
  rw [UInt8.le_iff_toNat_le, ← UInt8.toNat_inj]
  simp only [UInt8.toNat_zero, UInt8.reduceToNat]
  omega

theorem handover_eq_none_iff : r.handover dgram = none ↔ r.Stops dgram := by
  have hbest := best_search dgram.header.dst r.routingTable
  unfold handover Stops
  simp only [expires_iff]
  split
  · rename_i hmax
    split
    · simp [*]
    · rename_i httl
      obtain ⟨object, hat, hmatch, _⟩ := hbest.at_index hmax
      simp only [hat, reduceCtorEq, false_iff, not_or]
      exact ⟨httl, fun hno => hno object (List.mem_of_getElem? hat) hmatch⟩
  · rename_i hmax
    exact iff_of_true rfl (.inr (hbest.none_iff.mp (not_not.mp hmax)))

theorem handover_dgram (hh : r.handover dgram = some h) : h.dgram = dgram := by
  unfold handover at hh
  simp only at hh
  split at hh
  · split at hh
    · cases hh
    · split at hh
      · cases hh
      · cases hh
        rfl
  · cases hh

theorem two_le_ttl_of_handover (hh : r.handover dgram = some h) : 2 ≤ dgram.header.ttl.toNat := by
  have hnot : ¬ r.Stops dgram := by
    rw [← handover_eq_none_iff, hh]
    exact nofun
  have httl : ¬ dgram.header.ttl ≤ 1 := fun hle => hnot (.inl hle)
  rw [UInt8.le_iff_toNat_le] at httl
  simp only [UInt8.reduceToNat] at httl
  omega

/-- So a loop is never left: every router of the chain hands the datagram on. -/
theorem forwards_eq_length {chain : List Router} (hchain : ∀ r ∈ chain, ¬ r.Stops dgram) :
    forwards chain dgram = chain.length := by
  induction chain with
  | nil => rfl
  | cons r chain ih =>
    have hsome : r.handover dgram ≠ none := fun hnone => hchain r List.mem_cons_self (handover_eq_none_iff.mp hnone)
    obtain ⟨h, hh⟩ := Option.ne_none_iff_exists'.mp hsome
    simp only [forwards, hh, handover_dgram hh, ih fun r' hr' => hchain r' (List.mem_cons_of_mem _ hr'),
      List.length_cons]

/-- The decrement is right only where nothing is handed over. -/
theorem stops_iff : r.Stops dgram ↔ ∀ h, r.handover dgram = some h → h.dgram = dgram.hopped := by
  constructor
  · intro hstops h hh
    rw [handover_eq_none_iff.mpr hstops] at hh
    cases hh
  · intro hall
    rw [← handover_eq_none_iff, Option.eq_none_iff_forall_ne_some]
    intro h hh
    have hsame : dgram.hopped.header.ttl = dgram.header.ttl := by rw [← hall h hh, handover_dgram hh]
    have httl := two_le_ttl_of_handover hh
    have hless : (dgram.header.ttl - 1).toNat = dgram.header.ttl.toNat - 1 :=
      UInt8.toNat_sub_of_le _ _ (UInt8.le_iff_toNat_le.mpr (Nat.le_of_succ_le httl))
    have hequal : (dgram.header.ttl - 1).toNat = dgram.header.ttl.toNat := congrArg UInt8.toNat hsame
    omega

/-- A router with a default route on its only interface. -/
def defaultRouter : Router :=
  (addInterface {} { ethernetAddress := ethernetAddress 2, ipAddress := 0x0a000001 }).addRoute 0 0 none 0

def twoHops : InternetDatagram := { header := { ttl := 2, len := 20, dst := 0x01020304 } }

/-- A datagram with two hops left is handed over with two hops left, and by the next router again. -/
theorem ttl_not_decremented :
    defaultRouter.handover twoHops = some { interfaceNum := 0, dgram := twoHops, nextHop := 0x01020304 } ∧
      twoHops ≠ twoHops.hopped ∧ forwards [defaultRouter, defaultRouter] twoHops = 2 := by
  decide +kernel

/-- Where the datagrams stop, whatever is handed over has one hop less, and no chain forwards a
datagram more than its hops allow. -/
theorem ttl_decremented_of_stops (chain : List Router) (dgram : InternetDatagram)
    (hstops : ∀ r ∈ chain, r.Stops dgram) :
    (∀ r ∈ chain, (∀ past, r.routeOneDatagram dgram past = some r) ∧ ∀ h, r.handover dgram = some h →
      2 ≤ dgram.header.ttl.toNat ∧ h.dgram = dgram.hopped) ∧ forwards chain dgram ≤ dgram.header.ttl.toNat - 1 := by
  have hnone : ∀ r ∈ chain, r.handover dgram = none := fun r hr => handover_eq_none_iff.mpr (hstops r hr)
  constructor
  · intro r hr
    refine ⟨fun past => ?_, fun h hh => ⟨two_le_ttl_of_handover hh, stops_iff.mp (hstops r hr) h hh⟩⟩
    unfold routeOneDatagram
    rw [hnone r hr]
  · cases chain with
    | nil => exact Nat.zero_le _
    | cons r chain =>
      simp only [forwards, hnone r List.mem_cons_self]
      exact Nat.zero_le _

def lastHop : InternetDatagram := { header := { ttl := 1, len := 20, dst := 0x01020304 } }

theorem ttl_decremented_last_hop :
    (∀ r ∈ [defaultRouter], (∀ past, r.routeOneDatagram lastHop past = some r) ∧ ∀ h, r.handover lastHop = some h →
      2 ≤ lastHop.header.ttl.toNat ∧ h.dgram = lastHop.hopped) ∧
      forwards [defaultRouter] lastHop ≤ lastHop.header.ttl.toNat - 1 :=
  ttl_decremented_of_stops [defaultRouter] lastHop (by decide +kernel)

end Router

end Sponge
