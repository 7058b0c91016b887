import Sponge.Interface.Datagrams

/-!
# Datagrams behind a known mapping

Only an ARP reply sends the datagrams that wait for its sender. A request of the same
sender is learned from as well, but leaves them in `unsent`, and what is handed over
next goes out before them.
-/

namespace Sponge

open Word64 Run

namespace Trace

open NetworkInterface

/-- No datagram waits for a next hop that was heard from in the last thirty seconds. -/
def NoneStranded (t : Trace) : Prop :=
  ∀ e ∈ t.s.unsent, ∀ ethernet, t.s.ipEthernetMap.lookup e.2 = some ethernet →
    ethernet.timeEthernet + 30000 < t.now

/-- The datagrams for each next hop have left and are waiting in the order they were handed over. -/
def InOrder (carried : List (InternetDatagram × UInt32)) (t : Trace) : Prop :=
  ∀ hop, (carried.reverse ++ t.s.unsent).filter (·.2 = hop) = t.handed.filter (·.2 = hop)

/-- An accepted message that is not a reply is from a sender that no datagram waits for. -/
def RepliesOnly (t : Trace) : Action → Prop
  | .send _ _ _ => True
  | .recv frame => ∀ msg ∈ t.s.accepted frame, msg.opcode ≠ ARPMessage.opcodeReply →
      ∀ e ∈ t.s.unsent, e.2 ≠ msg.senderIpAddress
  | .tick _ => True

instance (t : Trace) : (a : Action) → Decidable (RepliesOnly t a)
  | .recv frame => inferInstanceAs (Decidable (∀ msg ∈ t.s.accepted frame, _))
  | .send _ _ _ | .tick _ => .isTrue trivial

variable {t t' : Trace} {own : EthernetAddress} {carried out : List (InternetDatagram × UInt32)} {a : Action}

theorem lookup_mappings_of_ne {msg : ARPMessage} {ip : UInt32} (h : ip ≠ msg.senderIpAddress) :
    (t.mappings (some msg)).lookup ip = t.s.ipEthernetMap.lookup ip := by
  change ((msg.senderIpAddress, _) :: t.s.ipEthernetMap).lookup ip = _
  rw [List.lookup_cons, beq_false_of_ne h]

theorem Ledger.expired {hop : UInt32} {past : PastTheEnd} {ethernet : Ethernet} (hl : Ledger own carried t)
    (hnone : t.s.mapping hop past = none) (hlookup : t.s.ipEthernetMap.lookup hop = some ethernet) :
    ethernet.timeEthernet + 30000 < t.now := by
  obtain ⟨msg, time, -, rfl, hsub⟩ := hl.age hlookup
  have hold : ¬ t.now - time ≤ 30000 := by
    intro hage
    rw [← hsub] at hage
    rw [mapping_eq_some_iff.mpr ⟨hlookup, hage⟩] at hnone
    cases hnone
  change time + 30000 < t.now
  omega

theorem NoneStranded.not_waiting {hop : UInt32} {past : PastTheEnd} {ethernet : Ethernet}
    (hn : NoneStranded t) (hl : Ledger own carried t) (hsome : t.s.mapping hop past = some ethernet) :
    t.s.unsent.filter (·.2 = hop) = [] := by
  rw [List.filter_eq_nil_iff]
  intro e he heq
  obtain ⟨hlookup, hage⟩ := mapping_eq_some_iff.mp hsome
  rw [← of_decide_eq_true heq] at hlookup
  obtain ⟨msg, time, -, rfl, hsub⟩ := hl.age hlookup
  have hold : time + 30000 < t.now := hn e he _ hlookup
  rw [hsub] at hage
  omega

theorem NoneStranded.shift (hn : NoneStranded t) (hl : Ledger own carried t) (hG : RepliesOnly t a)
    (hshift : Shift t t' a out) : NoneStranded t' := by
  intro e he ethernet hlookup
  cases hshift with
  | stays hunsent _ hmap hnow =>
    rw [hunsent] at he
    rw [hmap] at hlookup
    exact Nat.lt_of_lt_of_le (hn e he ethernet hlookup) hnow
  | learns msg hmsg hop hunsent _ hmap hnow =>
    -- Here the guard is needed: the new mapping is for a sender that nothing waits for.
    rw [hunsent] at he
    rw [hmap, lookup_mappings_of_ne (hG msg hmsg hop e he)] at hlookup
    rw [hnow]
    exact hn e he ethernet hlookup
  | queues hnone hunsent _ hmap hnow =>
    rw [hunsent] at he
    rw [hmap] at hlookup
    rw [hnow]
    rcases List.mem_append.mp he with he | he
    · exact hn e he ethernet hlookup
    · obtain rfl := List.mem_singleton.mp he
      -- A datagram is queued only when the mapping of its hop was not used.
      exact hl.expired hnone hlookup
  | direct _ hunsent _ hmap hnow =>
    rw [hunsent] at he
    rw [hmap] at hlookup
    rw [hnow]
    exact hn e he ethernet hlookup
  | flushes msg hunsent _ hmap hnow =>
    rw [hunsent] at he
    obtain ⟨he, hne⟩ := List.mem_filter.mp he
    rw [hmap, lookup_mappings_of_ne (of_decide_eq_true hne)] at hlookup
    rw [hnow]
    exact hn e he ethernet hlookup

theorem filter_partition (entries : List (InternetDatagram × UInt32)) (ip hop : UInt32) :
    (entries.filter (·.2 = ip) ++ entries.filter (·.2 ≠ ip)).filter (·.2 = hop) = entries.filter (·.2 = hop) := by
  rw [List.filter_append, List.filter_filter, List.filter_filter]
  by_cases heq : hop = ip
  · subst heq
    simp
  · have hin : entries.filter (fun e => decide (e.2 = hop) && decide (e.2 = ip)) = [] := by
      rw [List.filter_eq_nil_iff]
      intro e _ h
      simp only [Bool.and_eq_true, decide_eq_true_eq] at h
      exact heq (h.1.symm.trans h.2)
    rw [hin, List.nil_append]
    apply List.filter_congr
    intro e _
    by_cases h : e.2 = hop
    · simp [h, heq]
    · simp [h]

theorem InOrder.shift (ho : InOrder carried t) (hn : NoneStranded t) (hl : Ledger own carried t)
    (hshift : Shift t t' a out) : InOrder (out.reverse ++ carried) t' := by
  intro hop
  have hhop := ho hop
  rw [List.reverse_append, List.reverse_reverse]
  cases hshift with
  | stays hunsent hhanded | learns _ _ _ hunsent hhanded =>
    rw [hunsent, hhanded, List.append_nil]
    exact hhop
  | queues _ hunsent hhanded =>
    rw [hunsent, hhanded, List.append_nil, ← List.append_assoc, List.filter_append, hhop, List.filter_append]
  | @direct dgram hop' past ethernet hsome hunsent hhanded =>
    rw [hunsent, hhanded]
    by_cases heq : hop' = hop
    · subst heq
      -- A datagram that leaves at once overtakes none, since none waits for its hop.
      have hnone := hn.not_waiting hl hsome
      rw [List.filter_append, hnone, List.append_nil] at hhop
      rw [List.filter_append, hnone, List.append_nil, List.filter_append, List.filter_append, hhop]
    · have hskip : [(dgram, hop')].filter (·.2 = hop) = [] := by simp [heq]
      rw [List.filter_append] at hhop
      rw [List.filter_append, List.filter_append, List.filter_append, hskip, List.append_nil, List.append_nil, hhop]
  | flushes msg hunsent hhanded =>
    rw [hunsent, hhanded, List.append_assoc, List.filter_append, filter_partition, ← List.filter_append]
    exact hhop

/-- A request of the next hop makes it known, and the datagram stays where it is. -/
theorem request_leaves_unsent : ∃ t,
    run Trace.step hostStart [sendHop, recvHop ARPMessage.opcodeRequest] = some t ∧
      t.s.unsent = [(emptyDatagram, hopIp)] ∧
      t.s.ipEthernetMap.lookup hopIp = some { ethernetAddress := hopAddress, timeEthernet := t.now } := by
  decide +kernel

/-- While requests come only from senders that no datagram waits for and the clock does not wrap,
nothing waits behind a known mapping and datagrams leave in their order. -/
theorem none_stranded_in_order (own : EthernetAddress) (ip : UInt32) (actions : List Action)
    (hG : AllSteps Trace.step (fun t a => Orderly t a ∧ RepliesOnly t a) (start own ip) actions) :
    ∃ t, run Trace.step (start own ip) actions = some t ∧ NoneStranded t ∧
      ∃ carried, List.Forall₂ (Carries own) carried (ipv4Pushes t.log) ∧ InOrder carried t := by
  have hrun := exists_run_inv (G := fun t a => Orderly t a ∧ RepliesOnly t a)
    (I := fun t => NoneStranded t ∧ ∃ carried, Ledger own carried t ∧ InOrder carried t) (by
      rintro t a ⟨hn, carried, hl, ho⟩ ⟨hG, hreplies⟩
      obtain ⟨t', out, hstep, hl', hshift⟩ := hl.step hG
      exact ⟨t', hstep, hn.shift hl hreplies hshift, _, hl', ho.shift hn hl hshift⟩)
    ⟨fun _ he => absurd he List.not_mem_nil, [], ledger_start own ip, fun _ => rfl⟩ hG
  obtain ⟨t, ht, hn, carried, hl, ho⟩ := hrun
  exact ⟨t, ht, hn, carried, hl.frames, ho⟩

theorem none_stranded_after_reply : ∃ t,
    run Trace.step hostStart [recvHop ARPMessage.opcodeRequest, sendHop, .tick 30001, sendHop,
        recvHop ARPMessage.opcodeReply] = some t ∧ NoneStranded t ∧
      ∃ carried, List.Forall₂ (Carries hostAddress) carried (ipv4Pushes t.log) ∧ InOrder carried t :=
  none_stranded_in_order hostAddress hostIp [recvHop ARPMessage.opcodeRequest, sendHop, .tick 30001, sendHop,
    recvHop ARPMessage.opcodeReply] (by decide +kernel)

end Trace

end Sponge
