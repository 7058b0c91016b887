import Sponge.Interface.Trace

/-!
# The entries that `send_datagram` reads

Both iterators are read before they are compared with `end()`. The time read
through `end()` of the map changes nothing, since the comparison comes next; the
one read through `end()` of the list of requests decides what is sent.
-/

namespace Sponge

open Word64

/-- An entry of which `send_datagram` reads a field; `none` is `end()`. -/
inductive Read where
  | mapping (iter : Option Ethernet)
  | request (arpIter : Option ARP)
  deriving DecidableEq

def Read.Exists : Read → Prop
  | .mapping iter => iter.isSome
  | .request arpIter => arpIter.isSome

instance (read : Read) : Decidable read.Exists :=
  match read with
  | .mapping iter => inferInstanceAs (Decidable (iter.isSome = true))
  | .request arpIter => inferInstanceAs (Decidable (arpIter.isSome = true))

namespace NetworkInterface

variable {n : NetworkInterface} {dgram : InternetDatagram} {hop : UInt32} {past : PastTheEnd} {requests : List ARP}

/-- The loop reads the address of every request up to the first for the hop. -/
def scanReads (hop : UInt32) : List ARP → List Read
  | [] => [.request none]
  | a :: rest => .request (some a) :: if a.arpAddr = hop then [] else scanReads hop rest

def reads (n : NetworkInterface) (hop : UInt32) (past : PastTheEnd) : List Read :=
  .mapping (n.ipEthernetMap.lookup hop) :: match n.mapping hop past with
    | none => scanReads hop n.arpReq ++ [.request (n.arpReq.find? (·.arpAddr = hop))]
    | some ethernet => [.mapping (some ethernet)]

/-- The hop has a mapping that is not older than 30 s. -/
def Fresh (n : NetworkInterface) (hop : UInt32) : Prop :=
  ∃ ethernet ∈ n.ipEthernetMap.lookup hop, sub64 n.time ethernet.timeEthernet ≤ 30000

/-- A request for the hop is in the list. -/
def Pending (n : NetworkInterface) (hop : UInt32) : Prop := ∃ a ∈ n.arpReq, a.arpAddr = hop

instance (n : NetworkInterface) (hop : UInt32) : Decidable (n.Fresh hop) :=
  inferInstanceAs (Decidable (∃ ethernet ∈ n.ipEthernetMap.lookup hop, _))

instance (n : NetworkInterface) (hop : UInt32) : Decidable (n.Pending hop) :=
  inferInstanceAs (Decidable (∃ a ∈ n.arpReq, _))

/-- The hop is in the map, and is in the list when its mapping has expired. -/
def Known (n : NetworkInterface) (hop : UInt32) : Prop :=
  (n.ipEthernetMap.lookup hop).isSome ∧ (n.Fresh hop ∨ n.Pending hop)

instance (n : NetworkInterface) (hop : UInt32) : Decidable (n.Known hop) := inferInstanceAs (Decidable (_ ∧ _))

theorem mapping_eq_none_iff : n.mapping hop past = none ↔ ¬ n.Fresh hop := by
  rw [Option.eq_none_iff_forall_ne_some]
  unfold Fresh
  simp only [not_exists, not_and]
  exact forall_congr' fun ethernet => by simp [mapping_eq_some_iff]

theorem find?_request_isSome : (n.arpReq.find? (·.arpAddr = hop)).isSome ↔ n.Pending hop := by
  simp [Pending]

theorem scanReads_exist_iff :
    (∀ read ∈ scanReads hop requests, read.Exists) ↔ ∃ a ∈ requests, a.arpAddr = hop := by
  induction requests with
  | nil => simp [scanReads, Read.Exists]
  | cons a rest ih =>
    unfold scanReads
    split_ifs with ha
    · simp [Read.Exists, ha]
    · simp only [List.mem_cons, forall_eq_or_imp, Read.Exists, Option.isSome_some, true_and, exists_eq_or_imp, ha,
        false_or]
      exact ih

theorem reads_exist_iff : (∀ read ∈ n.reads hop past, read.Exists) ↔ n.Known hop := by
  unfold reads Known
  rw [List.forall_mem_cons]
  apply and_congr Iff.rfl
  cases hmap : n.mapping hop past with
  | none =>
    have hstale := mapping_eq_none_iff.mp hmap
    simp only [List.forall_mem_append, List.forall_mem_singleton, scanReads_exist_iff, hstale, false_or]
    exact and_iff_left_iff_imp.mpr find?_request_isSome.mpr
  | some ethernet =>
    have hfresh : n.Fresh hop := ⟨ethernet, mapping_eq_some_iff.mp hmap⟩
    simp [hfresh, Read.Exists]

theorem sendDatagram_past (h : n.Fresh hop ∨ n.Pending hop) (past past' : PastTheEnd) :
    n.sendDatagram dgram hop past = n.sendDatagram dgram hop past' := by
  have hsame : n.mapping hop past = n.mapping hop past' := by
    apply Option.ext
    intro ethernet
    rw [mapping_eq_some_iff, mapping_eq_some_iff]
  unfold sendDatagram
  rw [hsame]
  cases hmap : n.mapping hop past' with
  | some ethernet => rfl
  | none =>
    -- Without a mapping the time of the request is read, and there is one.
    have hpending := h.resolve_left (mapping_eq_none_iff.mp hmap)
    obtain ⟨a, ha⟩ := Option.isSome_iff_exists.mp (find?_request_isSome.mpr hpending)
    simp only [ha, Option.map_some, Option.getD_some]

theorem sendDatagram_unknown (hfresh : ¬ n.Fresh hop) (hpending : ¬ n.Pending hop) :
    n.sendDatagram dgram hop past =
      let n : NetworkInterface := { n with unsent := n.unsent ++ [(dgram, hop)] }
      if sub64 n.time past.timeArp ≤ 5000 then some (n.push { header := { src := n.ethernetAddress } })
      else n.sendRequest hop := by
  have hnone : n.arpReq.find? (·.arpAddr = hop) = none := by
    rw [← Option.not_isSome_iff_eq_none, find?_request_isSome]
    exact hpending
  unfold sendDatagram
  simp only [mapping_eq_none_iff.mpr hfresh, hnone, Option.map_none, Option.getD_none, Option.isSome_none,
    Bool.false_eq_true, if_false]

end NetworkInterface

namespace Trace

open NetworkInterface

/-- The first datagram for a hop reads through `end()` of the map and of the list. When the time
found there happens to be recent, a frame without type and destination goes out and no request. -/
theorem first_send_reads_past_end :
    hostStart.s.reads hopIp stalePast = [.mapping none, .request none, .request none] ∧
    (∃ n, hostStart.s.sendDatagram emptyDatagram hopIp { timeEthernet := 0, timeArp := 0 } = some n ∧
      n.framesOut = [{ header := { src := hostAddress } }] ∧ n.arpReq = []) ∧
    ∃ n, hostStart.s.sendDatagram emptyDatagram hopIp stalePast = some n ∧
      n.framesOut = [hostStart.s.requestFrame hopIp] ∧ n.arpReq = [{ arpAddr := hopIp, timeArp := 0 }] := by
  decide +kernel

/-- When the hop is known, only entries that exist are read and the effect does not depend on
what `end()` yields. When it has neither a fresh mapping nor a request, one request is sent and
recorded if the time that `end()` yields is more than 5 s ago. -/
theorem send_reads_existing (n : NetworkInterface) (dgram : InternetDatagram) (hop : UInt32) :
    (n.Known hop → ∀ past, (∀ read ∈ n.reads hop past, read.Exists) ∧
      ∀ past', n.sendDatagram dgram hop past = n.sendDatagram dgram hop past') ∧
    ∀ past : PastTheEnd, ¬ n.Fresh hop → ¬ n.Pending hop → 5000 < sub64 n.time past.timeArp →
      ∃ payload, (n.requestMessage hop).serialize = some payload ∧
        n.sendDatagram dgram hop past = some { n with
          framesOut := n.framesOut ++ [arpFrame n.ethernetAddress ethernetBroadcast payload]
          unsent := n.unsent ++ [(dgram, hop)]
          arpReq := n.arpReq ++ [{ arpAddr := hop, timeArp := n.time }] } := by
  constructor
  · intro hknown past
    exact ⟨reads_exist_iff.mpr hknown, sendDatagram_past hknown.2 past⟩
  · intro past hfresh hpending hold
    refine ⟨_, ARPMessage.serialize_of_supported (by rfl), ?_⟩
    rw [sendDatagram_unknown hfresh hpending]
    simp only [if_neg (not_le.mpr hold), sendRequest_eq]
    rfl

theorem send_reads_existing_host :
    (∃ t, Run.run step hostStart [recvHop ARPMessage.opcodeReply] = some t ∧ t.s.Known hopIp ∧
      ∀ past, (∀ read ∈ t.s.reads hopIp past, read.Exists) ∧
        ∀ past', t.s.sendDatagram emptyDatagram hopIp past = t.s.sendDatagram emptyDatagram hopIp past') ∧
    ∃ payload, (hostStart.s.requestMessage hopIp).serialize = some payload ∧
      hostStart.s.sendDatagram emptyDatagram hopIp stalePast = some { hostStart.s with
        framesOut := [arpFrame hostAddress ethernetBroadcast payload]
        unsent := [(emptyDatagram, hopIp)]
        arpReq := [{ arpAddr := hopIp, timeArp := 0 }] } := by
  constructor
  · have hrun : ∃ t, Run.run step hostStart [recvHop ARPMessage.opcodeReply] = some t ∧ t.s.Known hopIp := by
      decide +kernel
    obtain ⟨t, ht, hknown⟩ := hrun
    exact ⟨t, ht, hknown, (send_reads_existing t.s emptyDatagram hopIp).1 hknown⟩
  · exact (send_reads_existing hostStart.s emptyDatagram hopIp).2 stalePast (by decide) (by decide) (by decide)

end Trace

end Sponge
