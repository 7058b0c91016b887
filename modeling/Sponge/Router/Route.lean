import Sponge.Interface.Trace
import Sponge.Router.Longest

/-!
# Routing between the interfaces

`Router::route` and the interfaces with a queue of `libsponge/router.hh`. In any run of a
router, every datagram that came in waits in the queue of its interface or was routed
once, in the order of arrival. Each interface goes through a run of its own, in which it
is handed what the routing table says and nothing else.
-/

namespace Sponge

open Run

namespace AsyncNetworkInterface

def recvFrame (a : AsyncNetworkInterface) (frame : EthernetFrame) : Option AsyncNetworkInterface :=
  match a.toNetworkInterface.recvFrame frame with
  | none => none
  | some (n, optionalDgram) =>
    some { a with toNetworkInterface := n, datagramsOut := a.datagramsOut ++ optionalDgram.toList }

end AsyncNetworkInterface

namespace Router

/-- `datagrams_out()` of an interface. -/
def queue (r : Router) (i : Nat) : List InternetDatagram :=
  match r.interfaces[i]? with
  | none => []
  | some a => a.datagramsOut

def pop (r : Router) (i : Nat) : Router :=
  { r with interfaces := r.interfaces.modify i fun a => { a with datagramsOut := a.datagramsOut.tail } }

/-- The loop over the queue of interface `i`, for `size` turns at most. Each datagram has its own reads
through `end()`. -/
def routeQueue (i : Nat) : Nat → List PastTheEnd → Router → Option (List PastTheEnd × Router)
  | 0, pasts, r => some (pasts, r)
  | size + 1, pasts, r =>
    match r.queue i with
    | [] => some (pasts, r)
    | front :: _ =>
      match r.routeOneDatagram front (pasts.headD ⟨0, 0⟩) with
      | none => none
      | some r => routeQueue i size pasts.tail (r.pop i)

/-- The loop over the interfaces, from `i` on. -/
def routeFrom : Nat → Nat → List PastTheEnd → Router → Option Router
  | _, 0, _, r => some r
  | i, left + 1, pasts, r =>
    match routeQueue i (r.queue i).length pasts r with
    | none => none
    | some (pasts, r) => routeFrom (i + 1) left pasts r

def route (r : Router) (pasts : List PastTheEnd) : Option Router := routeFrom 0 r.interfaces.length pasts r

/-- What interface `j` is handed when the datagrams are routed. -/
def sends (r : Router) (j : Nat) (dgrams : List InternetDatagram) : List (InternetDatagram × UInt32) :=
  ((dgrams.filterMap r.handover).filter (·.interfaceNum = j)).map fun h => (h.dgram, h.nextHop)

theorem sends_append (r : Router) (j : Nat) (dgrams more : List InternetDatagram) :
    r.sends j (dgrams ++ more) = r.sends j dgrams ++ r.sends j more := by
  simp [sends]

theorem sends_congr {r r' : Router} (h : r'.routingTable = r.routingTable) (j : Nat) (dgrams : List InternetDatagram) :
    r'.sends j dgrams = r.sends j dgrams := by
  have hhandover : r'.handover = r.handover := by
    funext dgram
    unfold handover
    rw [h]
  rw [sends, hhandover, sends]

end Router

/-- What a history says of interface `i`. -/
def ofInterface {α : Type} (i : Nat) (history : List (Nat × α)) : List α := (history.filter (·.1 = i)).map Prod.snd

theorem ofInterface_append {α : Type} (i : Nat) (history more : List (Nat × α)) :
    ofInterface i (history ++ more) = ofInterface i history ++ ofInterface i more := by
  simp [ofInterface]

theorem ofInterface_map {α : Type} (i j : Nat) (xs : List α) :
    ofInterface i (xs.map (Prod.mk j)) = if j = i then xs else [] := by
  by_cases hij : j = i
  · simp [ofInterface, List.filter_map, hij, Function.comp_def]
  · simp [ofInterface, List.filter_map, hij, Function.comp_def]

theorem ofInterface_flatMap {α : Type} (i k n : Nat) (queue : Nat → List α) :
    ofInterface i ((List.range' k n).flatMap fun j => (queue j).map (Prod.mk j)) =
      if k ≤ i ∧ i < k + n then queue i else [] := by
  induction n generalizing k with
  | zero =>
    rw [if_neg (by omega)]
    rfl
  | succ n ih =>
    rw [List.range'_succ, List.flatMap_cons, ofInterface_append, ofInterface_map, ih]
    by_cases hk : k = i
    · subst hk
      rw [if_pos rfl, if_neg (by omega), if_pos (by omega), List.append_nil]
    · rw [if_neg hk, List.nil_append]
      exact if_congr (by omega) rfl rfl

namespace NetworkInterface

variable {n n₁ n₂ : NetworkInterface} {heard more : List Action} {handed rest : List (InternetDatagram × UInt32)}

/-- Neither a frame nor a tick. -/
def isSend : Action → Bool
  | .send _ _ _ => true
  | .recv _ => false
  | .tick _ => false

/-- Some calls take the interface from one state to the other. On the way it hears of these frames and
ticks, and is handed these datagrams. -/
def Reaches (n : NetworkInterface) (heard : List Action) (handed : List (InternetDatagram × UInt32))
    (n' : NetworkInterface) : Prop :=
  ∀ t : Trace, t.s = n → ∃ actions t', run Trace.step t actions = some t' ∧ t'.s = n' ∧
    actions.filter (!isSend ·) = heard ∧ t'.handed = t.handed ++ handed

theorem Reaches.refl (n : NetworkInterface) : Reaches n [] [] n :=
  fun t ht => ⟨[], t, rfl, ht, rfl, (List.append_nil _).symm⟩

theorem Reaches.trans (h : Reaches n heard handed n₁) (h' : Reaches n₁ more rest n₂) :
    Reaches n (heard ++ more) (handed ++ rest) n₂ := by
  intro t ht
  obtain ⟨actions, t₁, hrun, ht₁, hheard, hhanded⟩ := h t ht
  obtain ⟨actions', t₂, hrun', ht₂, hmore, hrest⟩ := h' t₁ ht₁
  refine ⟨actions ++ actions', t₂, ?_, ht₂, ?_, ?_⟩
  · rw [run_append hrun]
    exact hrun'
  · rw [List.filter_append, hheard, hmore]
  · rw [hrest, hhanded, List.append_assoc]

theorem reaches_send {dgram : InternetDatagram} {hop : UInt32} {past : PastTheEnd}
    (h : n.sendDatagram dgram hop past = some n₁) : Reaches n [] [(dgram, hop)] n₁ := by
  rintro t rfl
  refine ⟨[.send dgram hop past],
    { t with s := n₁, log := t.logAfter none n₁, handed := t.handed ++ [(dgram, hop)] }, ?_, rfl, rfl, rfl⟩
  simp only [run, Trace.step, h]

theorem reaches_recv {frame : EthernetFrame} {dgram : Option InternetDatagram}
    (h : n.recvFrame frame = some (n₁, dgram)) : Reaches n [.recv frame] [] n₁ := by
  rintro t rfl
  refine ⟨[.recv frame], { t with s := n₁, log := t.logAfter (t.s.accepted frame) n₁ }, ?_, rfl, rfl, ?_⟩
  · simp only [run, Trace.step, h]
  · exact (List.append_nil _).symm

theorem reaches_tick (n : NetworkInterface) (ms : Nat) : Reaches n [.tick ms] [] (n.tick ms) := by
  rintro t rfl
  exact ⟨[.tick ms], { t with s := t.s.tick ms, now := t.now + ms }, rfl, rfl, rfl, (List.append_nil _).symm⟩

end NetworkInterface

namespace Router

open NetworkInterface

variable {r r' r₁ : Router} {dgram : InternetDatagram} {past : PastTheEnd} {dgrams more : List InternetDatagram}
variable {i j : Nat} {pasts left : List PastTheEnd} {a a' : AsyncNetworkInterface} {heard later : List (Nat × Action)}

theorem queue_eq_of_getElem? (h : r.interfaces[i]? = some a) : r.queue i = a.datagramsOut := by
  rw [queue, h]

/-- The datagrams were routed, one after the other, and the interfaces heard of these frames and ticks.
The queues do not matter. -/
structure Sent (r : Router) (heard : List (Nat × Action)) (dgrams : List InternetDatagram) (r' : Router) : Prop where
  table : r'.routingTable = r.routingTable
  size : r'.interfaces.length = r.interfaces.length
  reaches : ∀ j a', r'.interfaces[j]? = some a' → ∃ a, r.interfaces[j]? = some a ∧
    Reaches a.toNetworkInterface (ofInterface j heard) (r.sends j dgrams) a'.toNetworkInterface

theorem Sent.refl (r : Router) : Sent r [] [] r := ⟨rfl, rfl, fun _ a ha => ⟨a, ha, .refl _⟩⟩

theorem Sent.trans (h : Sent r heard dgrams r₁) (h' : Sent r₁ later more r') :
    Sent r (heard ++ later) (dgrams ++ more) r' where
  table := h'.table.trans h.table
  size := h'.size.trans h.size
  reaches := by
    intro j a₂ ha₂
    obtain ⟨a₁, ha₁, hsecond⟩ := h'.reaches j a₂ ha₂
    obtain ⟨a, ha, hfirst⟩ := h.reaches j a₁ ha₁
    rw [sends_congr h.table] at hsecond
    refine ⟨a, ha, ?_⟩
    rw [ofInterface_append, sends_append]
    exact hfirst.trans hsecond

theorem sent_set (ha : r.interfaces[i]? = some a)
    (h : Reaches a.toNetworkInterface (ofInterface i heard) (r.sends i dgrams) a'.toNetworkInterface)
    (hothers : ∀ j, i ≠ j → ofInterface j heard = [] ∧ r.sends j dgrams = []) :
    Sent r heard dgrams { r with interfaces := r.interfaces.set i a' } := by
  refine ⟨rfl, List.length_set, fun j b hb => ?_⟩
  by_cases hij : i = j
  · subst hij
    simp only [List.getElem?_set_self (List.getElem?_eq_some_iff.mp ha).1] at hb
    cases hb
    exact ⟨a, ha, h⟩
  · simp only [List.getElem?_set_ne hij] at hb
    refine ⟨b, hb, ?_⟩
    rw [(hothers j hij).1, (hothers j hij).2]
    exact .refl _

theorem queue_set (ha : r.interfaces[i]? = some a) (a' : AsyncNetworkInterface) (j : Nat) :
    queue { r with interfaces := r.interfaces.set i a' } j = if i = j then a'.datagramsOut else r.queue j := by
  unfold queue
  by_cases hij : i = j
  · subst hij
    simp only [List.getElem?_set_self (List.getElem?_eq_some_iff.mp ha).1, if_true]
  · simp only [List.getElem?_set_ne hij, if_neg hij]

theorem sent_one (h : r.routeOneDatagram dgram past = some r') : Sent r [] [dgram] r' ∧ ∀ j, r'.queue j = r.queue j := by
  unfold routeOneDatagram at h
  split at h
  · rename_i hnone
    cases h
    refine ⟨⟨rfl, rfl, fun j a ha => ⟨a, ha, ?_⟩⟩, fun _ => rfl⟩
    rw [show r.sends j [dgram] = [] by simp [sends, hnone]]
    exact .refl _
  · rename_i call hcall
    simp only [Option.bind_eq_bind, Option.bind_eq_some_iff] at h
    obtain ⟨a, ha, n, hn, hr'⟩ := h
    cases hr'
    refine ⟨sent_set ha ?_ fun j hj => ⟨rfl, by simp [sends, hcall, hj]⟩, fun j => ?_⟩
    · rw [show r.sends call.interfaceNum [dgram] = [(call.dgram, call.nextHop)] by simp [sends, hcall]]
      exact reaches_send hn
    · rw [queue_set ha]
      split_ifs with hj
      · exact hj ▸ (queue_eq_of_getElem? ha).symm
      · rfl

theorem sent_pop (r : Router) (i : Nat) : Sent r [] [] (r.pop i) := by
  refine ⟨rfl, by simp [pop], fun j a' ha' => ?_⟩
  simp only [pop, List.getElem?_modify, Option.map_eq_map, Option.map_eq_some_iff] at ha'
  obtain ⟨a, ha, rfl⟩ := ha'
  refine ⟨a, ha, ?_⟩
  split
  · exact .refl _
  · exact .refl _

theorem queue_pop (r : Router) (i j : Nat) : (r.pop i).queue j = if i = j then (r.queue j).tail else r.queue j := by
  simp only [queue, pop, List.getElem?_modify]
  cases r.interfaces[j]? with
  | none => simp
  | some a =>
    by_cases hij : i = j
    · simp [hij]
    · simp [hij]

theorem routeQueue_spec {size : Nat} (h : routeQueue i size pasts r = some (left, r')) (hsize : (r.queue i).length ≤ size) :
    Sent r [] (r.queue i) r' ∧ r'.queue i = [] ∧ ∀ j, j ≠ i → r'.queue j = r.queue j := by
  induction size generalizing r pasts with
  | zero =>
    have hempty := List.eq_nil_of_length_eq_zero (Nat.le_zero.mp hsize)
    cases h
    rw [hempty]
    exact ⟨.refl _, rfl, fun _ _ => rfl⟩
  | succ size ih =>
    unfold routeQueue at h
    split at h
    · rename_i hempty
      cases h
      rw [hempty]
      exact ⟨.refl _, rfl, fun _ _ => rfl⟩
    · rename_i front rest hqueue
      split at h
      · cases h
      · rename_i r₁ hone
        -- Routing a datagram touches no queue, so the pop removes the one that was routed.
        obtain ⟨hsent, hsame⟩ := sent_one hone
        have hrest : (r₁.pop i).queue i = rest := by rw [queue_pop, if_pos rfl, hsame, hqueue, List.tail_cons]
        rw [hqueue, List.length_cons] at hsize
        obtain ⟨hlater, hempty, hothers⟩ := ih h (by rw [hrest]; omega)
        refine ⟨?_, hempty, fun j hj => ?_⟩
        · rw [hrest] at hlater
          rw [hqueue]
          exact (hsent.trans (sent_pop r₁ i)).trans hlater
        · rw [hothers j hj, queue_pop, if_neg hj.symm, hsame]

theorem routeFrom_spec {left : Nat} (h : routeFrom i left pasts r = some r') :
    Sent r [] ((List.range' i left).flatMap r.queue) r' ∧
      ∀ j, r'.queue j = if i ≤ j ∧ j < i + left then [] else r.queue j := by
  induction left generalizing i r pasts with
  | zero =>
    cases h
    refine ⟨.refl _, fun j => ?_⟩
    rw [if_neg (by omega)]
  | succ left ih =>
    unfold routeFrom at h
    split at h
    · cases h
    · rename_i pasts₁ r₁ hfirst
      obtain ⟨hsent, hempty, hothers⟩ := routeQueue_spec hfirst (Nat.le_refl _)
      obtain ⟨hlater, hqueues⟩ := ih h
      -- The later queues are as they were when the pass began.
      have hsame : (List.range' (i + 1) left).flatMap r₁.queue = (List.range' (i + 1) left).flatMap r.queue := by
        apply List.flatMap_congr
        intro j hj
        have := List.mem_range'_1.mp hj
        exact hothers j (by omega)
      refine ⟨?_, fun j => ?_⟩
      · rw [hsame] at hlater
        rw [List.range'_succ, List.flatMap_cons]
        exact hsent.trans hlater
      · rw [hqueues j]
        by_cases hj : j = i
        · subst hj
          rw [if_neg (by omega), if_pos (by omega), hempty]
        · rw [hothers j hj]
          exact if_congr (by omega) rfl rfl

/-- Everything that waits, by the interfaces. -/
def waiting (r : Router) : List (Nat × InternetDatagram) :=
  (List.range' 0 r.interfaces.length).flatMap fun i => (r.queue i).map (Prod.mk i)

theorem waiting_map_snd (r : Router) : r.waiting.map Prod.snd = (List.range' 0 r.interfaces.length).flatMap r.queue := by
  simp [waiting, List.map_flatMap, Function.comp_def]

theorem queue_of_length_le (h : r.interfaces.length ≤ i) : r.queue i = [] := by
  rw [queue, List.getElem?_eq_none h]

theorem ofInterface_waiting (r : Router) (i : Nat) : ofInterface i r.waiting = r.queue i := by
  rw [waiting, ofInterface_flatMap]
  split_ifs with hi
  · rfl
  · exact (queue_of_length_le (by omega)).symm

theorem route_spec (h : r.route pasts = some r') : Sent r [] (r.waiting.map Prod.snd) r' ∧ ∀ j, r'.queue j = [] := by
  obtain ⟨hsent, hqueues⟩ := routeFrom_spec h
  rw [waiting_map_snd]
  refine ⟨hsent, fun j => ?_⟩
  rw [hqueues j]
  split_ifs with hj
  · rfl
  · exact queue_of_length_le (by omega)

end Router

/-! ## No call fails -/

namespace Router

variable {r r' : Router} {i : Nat} {pasts : List PastTheEnd} {dgram : InternetDatagram} {heard : List (Nat × Action)}

/-- Every route names an interface. -/
def RoutesExist (r : Router) : Prop := ∀ object ∈ r.routingTable, object.interfaceNum < r.interfaces.length

instance (r : Router) : Decidable r.RoutesExist :=
  inferInstanceAs (Decidable (∀ object ∈ r.routingTable, object.interfaceNum < r.interfaces.length))

theorem Sent.routesExist {dgrams : List InternetDatagram} (h : Sent r heard dgrams r') (hr : r.RoutesExist) :
    r'.RoutesExist := by
  unfold RoutesExist
  rw [h.table, h.size]
  exact hr

theorem mem_of_handover {call : Handover} (h : r.handover dgram = some call) :
    ∃ object ∈ r.routingTable, object.interfaceNum = call.interfaceNum := by
  unfold handover at h
  simp only at h
  split at h
  · split at h
    · cases h
    · split at h
      · cases h
      · rename_i object hat
        cases h
        exact ⟨object, List.mem_of_getElem? hat, rfl⟩
  · cases h

theorem exists_routeOneDatagram (hr : r.RoutesExist) (hdgram : dgram.serialize.isSome) (past : PastTheEnd) :
    ∃ r', r.routeOneDatagram dgram past = some r' := by
  unfold routeOneDatagram
  split
  · exact ⟨r, rfl⟩
  · rename_i call hcall
    obtain ⟨object, hobject, hnum⟩ := mem_of_handover hcall
    have hlt : call.interfaceNum < r.interfaces.length := hnum ▸ hr object hobject
    obtain ⟨n, hn⟩ := (r.interfaces.get ⟨_, hlt⟩).toNetworkInterface.sendDatagram_isSome call.nextHop past
      ((handover_dgram hcall).symm ▸ hdgram)
    rw [List.getElem?_eq_getElem hlt]
    simp only [Option.bind_eq_bind, Option.bind_some]
    simp only [List.get_eq_getElem] at hn
    rw [hn]
    exact ⟨_, rfl⟩

theorem exists_routeQueue (hr : r.RoutesExist) (hqueue : ∀ dgram ∈ r.queue i, dgram.serialize.isSome) (size : Nat)
    (pasts : List PastTheEnd) : ∃ left r', routeQueue i size pasts r = some (left, r') := by
  induction size generalizing r pasts with
  | zero => exact ⟨pasts, r, rfl⟩
  | succ size ih =>
    unfold routeQueue
    split
    · exact ⟨pasts, r, rfl⟩
    · rename_i front rest hfront
      rw [hfront] at hqueue
      obtain ⟨r₁, hone⟩ := exists_routeOneDatagram hr (hqueue front List.mem_cons_self) (pasts.headD ⟨0, 0⟩)
      obtain ⟨hsent, hsame⟩ := sent_one hone
      simp only [hone]
      apply ih ((hsent.trans (sent_pop r₁ i)).routesExist hr)
      rw [queue_pop, if_pos rfl, hsame, hfront, List.tail_cons]
      exact fun dgram hdgram => hqueue dgram (List.mem_cons_of_mem _ hdgram)

theorem exists_routeFrom (hr : r.RoutesExist) (hqueue : ∀ j, ∀ dgram ∈ r.queue j, dgram.serialize.isSome) (left : Nat)
    (pasts : List PastTheEnd) : ∃ r', routeFrom i left pasts r = some r' := by
  induction left generalizing i r pasts with
  | zero => exact ⟨r, rfl⟩
  | succ left ih =>
    obtain ⟨pasts₁, r₁, hfirst⟩ := exists_routeQueue hr (hqueue i) (r.queue i).length pasts
    obtain ⟨hsent, hempty, hothers⟩ := routeQueue_spec hfirst (Nat.le_refl _)
    unfold routeFrom
    simp only [hfirst]
    apply ih (hsent.routesExist hr)
    intro j dgram hdgram
    by_cases hj : j = i
    · rw [hj, hempty] at hdgram
      cases hdgram
    · rw [hothers j hj] at hdgram
      exact hqueue j dgram hdgram

end Router

/-! ## Runs -/

/-- A router and its history: the frames and ticks, the datagrams that came in, and those that were
routed, each with its interface. -/
structure Forwarding where
  router : Router
  heard : List (Nat × Action) := []
  arrived : List (Nat × InternetDatagram) := []
  routed : List (Nat × InternetDatagram) := []
  deriving DecidableEq

namespace Forwarding

open Router NetworkInterface

inductive Event where
  | recvFrame (i : Nat) (frame : EthernetFrame)
  | tick (i ms : Nat)
  | route (pasts : List PastTheEnd)
  deriving DecidableEq

def step (f : Forwarding) : Event → Option Forwarding
  | .recvFrame i frame =>
    match f.router.interfaces[i]? with
    | none => none
    | some a =>
      match a.recvFrame frame with
      | none => none
      | some a' => some { f with
          router := { f.router with interfaces := f.router.interfaces.set i a' }
          heard := f.heard ++ [.recv frame].map (Prod.mk i)
          arrived := f.arrived ++ (a'.datagramsOut.drop a.datagramsOut.length).map (Prod.mk i) }
  | .tick i ms =>
    match f.router.interfaces[i]? with
    | none => none
    | some a =>
      let a' := { a with toNetworkInterface := a.toNetworkInterface.tick ms }
      some { f with
        router := { f.router with interfaces := f.router.interfaces.set i a' }
        heard := f.heard ++ [.tick ms].map (Prod.mk i) }
  | .route pasts =>
    match f.router.route pasts with
    | none => none
    | some router => some { f with router := router, routed := f.routed ++ f.router.waiting }

structure Inv (r₀ : Router) (f : Forwarding) : Prop where
  sent : Sent r₀ f.heard (f.routed.map Prod.snd) f.router
  order : ∀ i, ofInterface i f.arrived = ofInterface i f.routed ++ f.router.queue i

variable {r₀ : Router} {f f' : Forwarding} {i : Nat} {a a' : AsyncNetworkInterface}

theorem recvFrame_cases {frame : EthernetFrame} (h : a.recvFrame frame = some a') :
    Reaches a.toNetworkInterface [.recv frame] [] a'.toNetworkInterface ∧
      ∃ came, a'.datagramsOut = a.datagramsOut ++ came := by
  unfold AsyncNetworkInterface.recvFrame at h
  split at h
  · cases h
  · rename_i n dgram hn
    cases h
    exact ⟨reaches_recv hn, dgram.toList, rfl⟩

theorem Inv.heard {call : Action} {came : List InternetDatagram} (hf : Inv r₀ f)
    (ha : f.router.interfaces[i]? = some a) (a' : AsyncNetworkInterface)
    (hreach : Reaches a.toNetworkInterface [call] [] a'.toNetworkInterface)
    (hqueue : a'.datagramsOut = a.datagramsOut ++ came) :
    Inv r₀ { f with
      router := { f.router with interfaces := f.router.interfaces.set i a' }
      heard := f.heard ++ [call].map (Prod.mk i)
      arrived := f.arrived ++ came.map (Prod.mk i) } where
  sent := by
    have hset : Sent f.router ([call].map (Prod.mk i)) []
        { f.router with interfaces := f.router.interfaces.set i a' } := by
      apply sent_set ha
      · rw [ofInterface_map, if_pos rfl]
        exact hreach
      · -- The other interfaces have heard nothing.
        intro j hj
        rw [ofInterface_map, if_neg hj]
        exact ⟨rfl, rfl⟩
    have hboth := hf.sent.trans hset
    rw [List.append_nil] at hboth
    exact hboth
  order := by
    intro j
    rw [ofInterface_append, ofInterface_map, hf.order j, queue_set ha]
    split_ifs with hj
    · subst hj
      rw [hqueue, queue_eq_of_getElem? ha, List.append_assoc]
    · rw [List.append_nil]

theorem Inv.step {event : Event} (hf : Inv r₀ f) (h : f.step event = some f') : Inv r₀ f' := by
  cases event with
  | recvFrame i frame =>
    unfold Forwarding.step at h
    simp only at h
    split at h
    · cases h
    · rename_i a ha
      split at h
      · cases h
      · rename_i a' ha'
        cases h
        obtain ⟨hreach, came, hcame⟩ := recvFrame_cases ha'
        rw [hcame, List.drop_left]
        exact hf.heard ha a' hreach hcame
  | tick i ms =>
    unfold Forwarding.step at h
    simp only at h
    split at h
    · cases h
    · rename_i a ha
      cases h
      have hkept := hf.heard ha { a with toNetworkInterface := a.toNetworkInterface.tick ms }
        (reaches_tick a.toNetworkInterface ms) (List.append_nil _).symm
      -- A tick brings no datagram.
      rw [List.map_nil, List.append_nil] at hkept
      exact hkept
  | route pasts =>
    unfold Forwarding.step at h
    simp only at h
    split at h
    · cases h
    · rename_i router hroute
      cases h
      -- A pass routes all that waits, so nothing is left of what has arrived.
      obtain ⟨hsent, hempty⟩ := route_spec hroute
      refine ⟨?_, fun i => ?_⟩
      · have hboth := hf.sent.trans hsent
        rw [List.append_nil] at hboth
        rw [List.map_append]
        exact hboth
      · rw [ofInterface_append, ofInterface_waiting, hempty, List.append_nil]
        exact hf.order i

theorem inv_start (hstart : ∀ a ∈ r₀.interfaces, a.datagramsOut = []) : Inv r₀ { router := r₀ } where
  sent := .refl r₀
  order := by
    intro i
    simp only [ofInterface, List.filter_nil, List.map_nil, List.nil_append]
    unfold queue
    split
    · rfl
    · rename_i a ha
      exact (hstart a (List.mem_of_getElem? ha)).symm

/-- In every run of a router whose queues were empty, the datagrams that came in at an interface are
those that were routed, in their order, and then those that still wait. For each routed datagram there
is what the longest match says of it, and each interface has gone through a run of its own, with the
frames and ticks it heard of, in which it was handed what is said to go through it, in order. And
whenever `route` is called it returns, with nothing left to wait, if the routes name interfaces and the
datagrams can be written out again. -/
theorem forwards_in_order (r₀ : Router) (events : List Event) (f : Forwarding)
    (hlength : ∀ o ∈ r₀.routingTable, o.prefixLength ≤ 32) (hstart : ∀ a ∈ r₀.interfaces, a.datagramsOut = [])
    (h : run Forwarding.step { router := r₀ } events = some f) :
    (∀ i, ofInterface i f.arrived = ofInterface i f.routed ++ f.router.queue i) ∧
    (∃ out, List.Forall₂ (RoutedAs r₀.routingTable) (f.routed.map Prod.snd) out ∧
      ∀ i a, f.router.interfaces[i]? = some a → ∃ a₀ actions t, r₀.interfaces[i]? = some a₀ ∧
        run Trace.step { s := a₀.toNetworkInterface } actions = some t ∧ t.s = a.toNetworkInterface ∧
        actions.filter (!isSend ·) = ofInterface i f.heard ∧
        t.handed = (out.reduceOption.filter (·.interfaceNum = i)).map fun h => (h.dgram, h.nextHop)) ∧
    (r₀.RoutesExist → (∀ i, ∀ dgram ∈ f.router.queue i, dgram.serialize.isSome) → ∀ pasts,
      ∃ f', f.step (.route pasts) = some f' ∧ f'.arrived = f.arrived ∧ ∀ i, f'.router.queue i = []) := by
  have hf : Inv r₀ f := run_inv (I := Inv r₀) (fun _ _ _ hf hstep => hf.step hstep) (inv_start hstart) h
  refine ⟨hf.order, ⟨(f.routed.map Prod.snd).map r₀.handover, ?_, ?_⟩, ?_⟩
  · rw [List.forall₂_map_right_iff, List.forall₂_same]
    exact fun dgram _ => handover_routedAs hlength dgram
  · intro i a ha
    obtain ⟨a₀, ha₀, hreach⟩ := hf.sent.reaches i a ha
    obtain ⟨actions, t, hrun, ht, hheard, hhanded⟩ := hreach { s := a₀.toNetworkInterface } rfl
    have hout : ((f.routed.map Prod.snd).map r₀.handover).reduceOption = (f.routed.map Prod.snd).filterMap r₀.handover :=
      List.filterMap_map
    rw [hout]
    exact ⟨a₀, actions, t, ha₀, hrun, ht, hheard, hhanded⟩
  · intro hroutes hqueue pasts
    obtain ⟨router, hroute⟩ := exists_routeFrom (hf.sent.routesExist hroutes) hqueue f.router.interfaces.length pasts
    refine ⟨{ f with router := router, routed := f.routed ++ f.router.waiting }, ?_, rfl, (route_spec hroute).2⟩
    simp only [Forwarding.step, route, hroute]

/-- A frame for the first interface, with the datagram for the second. -/
def nestedFrame : EthernetFrame :=
  ipv4Frame (ethernetAddress 3) (ethernetAddress 2) [(toNested.serialize.getD []).concatenate]

def nestedRouter : Router := { interfaces := twoInterfaces, routingTable := nestedRoutes }

def nestedEvents : List Event := [.recvFrame 0 nestedFrame, .route [Trace.stalePast], .recvFrame 0 nestedFrame]

theorem forwards_in_order_nested :
    ∃ f dgram a actions t f', run Forwarding.step { router := nestedRouter } nestedEvents = some f ∧
      f.routed.map Prod.snd = [dgram] ∧ ofInterface 0 f.arrived = ofInterface 0 f.routed ++ f.router.queue 0 ∧
      f.router.interfaces[1]? = some a ∧
      run Trace.step { s := (twoInterfaces.getD 1 a).toNetworkInterface } actions = some t ∧
      t.s = a.toNetworkInterface ∧ t.handed = [(dgram, 0x0a010203)] ∧
      f.step (.route [Trace.stalePast]) = some f' ∧ f'.router.queue 0 = [] := by
  have hrun : ∃ f, run Forwarding.step { router := nestedRouter } nestedEvents = some f ∧
      (f.routed.map Prod.snd).length = 1 ∧ (∀ dgram ∈ f.routed.map Prod.snd,
        nestedRouter.handover dgram = some { interfaceNum := 1, dgram := dgram, nextHop := 0x0a010203 }) ∧
      f.router.interfaces.length = 2 ∧ ∀ i ∈ [0, 1], ∀ dgram ∈ f.router.queue i, dgram.serialize.isSome := by
    decide +kernel
  obtain ⟨f, hf, hcount, hhandover, hsize, hqueue⟩ := hrun
  obtain ⟨dgram, hone⟩ := List.length_eq_one_iff.mp hcount
  obtain ⟨horder, ⟨out, hout, hinterface⟩, hroute⟩ :=
    forwards_in_order nestedRouter nestedEvents f (by decide) (by decide) hf
  obtain ⟨a, ha⟩ : ∃ a, f.router.interfaces[1]? = some a := ⟨_, List.getElem?_eq_getElem (by omega)⟩
  obtain ⟨a₀, actions, t, ha₀, ht, hsame, -, hhanded⟩ := hinterface 1 a ha
  have hall : ∀ i, ∀ dgram ∈ f.router.queue i, dgram.serialize.isSome := by
    intro i dgram hdgram
    by_cases hi : i < 2
    · exact hqueue i (by simp; omega) dgram hdgram
    · rw [queue_of_length_le (by omega)] at hdgram
      cases hdgram
  obtain ⟨f', hf', -, hempty⟩ := hroute (by decide) hall [Trace.stalePast]
  refine ⟨f, dgram, a, actions, t, f', hf, hone, horder 0, ha, ?_, hsame, ?_, hf', hempty 0⟩
  · rw [List.getD_eq_getElem?_getD, show twoInterfaces[1]? = some a₀ from ha₀]
    exact ht
  · rw [hone] at hout
    cases hout with
    | cons hfirst hrest =>
      cases hrest
      rw [hfirst.unique (handover_routedAs (r := nestedRouter) (by decide) dgram),
        hhandover dgram (by simp [hone])] at hhanded
      rw [hhanded]
      rfl

end Forwarding

end Sponge
