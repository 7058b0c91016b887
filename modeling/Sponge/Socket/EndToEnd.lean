import Sponge.Duplex.Delivery
import Sponge.Socket.Link
import Sponge.Socket.Refine

/-!
# From owner to owner

Two sockets whose adapters are linked, with any interleaving of their turns. They are two
connections and a network between them, and so the bytes that one owner gets are the
start of what the other one wrote.
-/

namespace Sponge

open Relation Run EventLoop TCPSpongeSocket TCPConnection

variable {α ω π : Type}

/-! ## One turn -/

namespace TCPConnection

theorem Sends.step {e e' : Endpoint} {op : Op} (h : Sends ⟨e.c, { s := e.c.sender }⟩) (hstep : e.step op = some e') :
    Sends ⟨e'.c, { s := e'.c.sender }⟩ := by
  obtain ⟨c, hc, rfl⟩ := Endpoint.step_cases hstep
  obtain ⟨t', -, -, hsends⟩ := (step_moves (t := { s := e.c.sender }) rfl hc).inv h fun _ _ hx hmove => hx.move hmove
  exact ⟨rfl, hsends.plain, hsends.sent⟩

end TCPConnection

namespace Duplex

variable {d : Duplex} {p : Side} {e e' : Endpoint} {op : Op}

@[simp] theorem set_set (d : Duplex) (p : Side) (e e' : Endpoint) : (d.set p e).set p e' = d.set p e' := by
  cases p <;> rfl

@[simp] theorem set_get (d : Duplex) (p : Side) : d.set p (d.get p) = d := by
  cases p <;> rfl

theorem step_of_call
    (hheard : ∀ seg ∈ op.heard, ∃ seg' ∈ (d.get p.other).c.segmentsOut, seg.core = seg'.core)
    (hstep : e.step op = some e') : ∃ action, (d.set p e).step action = some (d.set p e') := by
  have hmake : ∀ action, (d.set p e).callOf action = some (p, op) → (d.set p e).step action = some (d.set p e') := by
    intro action hcall
    unfold Duplex.step
    rw [hcall]
    simp only [get_set_self, hstep, set_set]
  cases op with
  | connect => exact ⟨.connect p, hmake _ rfl⟩
  | write data => exact ⟨.write p data, hmake _ rfl⟩
  | endInputStream => exact ⟨.endInputStream p, hmake _ rfl⟩
  | tick ms => exact ⟨.tick p ms, hmake _ rfl⟩
  | read len => exact ⟨.read p len, hmake _ rfl⟩
  | segmentReceived seg =>
    obtain ⟨seg', hmem, hcore⟩ := hheard seg (List.mem_singleton_self seg)
    obtain ⟨i, hi⟩ := List.mem_iff_getElem?.mp hmem
    -- The connection reads no field beyond the core, so the segment as sent has the same effect.
    have hsame : e.step (.segmentReceived seg') = some e' := by
      rw [← hstep]
      unfold Endpoint.step
      simp only [TCPConnection.step, segmentReceived_congr hcore, accepted]
    refine ⟨.deliver p i, ?_⟩
    unfold Duplex.step callOf
    simp only [get_set_other, hi, get_set_self, hsame, set_set]

/-- One step of the pair. -/
def Moves (d d' : Duplex) : Prop := ∃ action, d.step action = some d'

theorem moves_of_calls {heard : List TCPSegment}
    (hheard : ∀ seg ∈ heard, ∃ seg' ∈ (d.get p.other).c.segmentsOut, seg.core = seg'.core)
    (h : e.Calls heard e') : ReflTransGen Moves (d.set p e) (d.set p e') := by
  obtain ⟨ops, hrun, rfl, -⟩ := h
  induction ops generalizing e with
  | nil =>
    cases hrun
    exact .refl
  | cons op ops ih =>
    obtain ⟨e₁, hstep, hrest⟩ := run_cons hrun
    simp only [List.flatMap_cons, List.mem_append] at hheard
    have hfirst : Moves (d.set p e) (d.set p e₁) := step_of_call (fun seg hseg => hheard seg (Or.inl hseg)) hstep
    exact .head hfirst (ih hrest fun seg hseg => hheard seg (Or.inr hseg))

end Duplex

namespace TCPSpongeSocket

variable [Inhabited ω] {adapter : FdAdapter α ω} {link : Link adapter π} {p : Side} {before : α}
  {s s' : TCPSpongeSocket α} {answer : Answer ω} {i : RuleName}

theorem adapter_callback (h : (table adapter i).callback answer s = .ok s') :
    s'.datagramAdapter = s.datagramAdapter ∧ s'.handed = s.handed ∨
    (∃ out, adapter.read (answer.adapter.headD default) s.datagramAdapter = .ok (s'.datagramAdapter, out) ∧
      s'.handed = s.handed) ∨
    (writeAll adapter answer.adapter s.tcp.segmentsOut s.datagramAdapter = .ok (s'.datagramAdapter, s.tcp.segmentsOut) ∧
      s'.handed = s.handed ++ s.tcp.segmentsOut) := by
  cases i with
  | rule1 =>
    obtain ⟨a, out, hread, ⟨-, rfl⟩ | ⟨seg, -, hcalls⟩⟩ := callback1_cases h
    · exact Or.inr (Or.inl ⟨out, hread, rfl⟩)
    · obtain ⟨tcp, -, rfl⟩ := calls_cases hcalls
      exact Or.inr (Or.inl ⟨out, hread, rfl⟩)
  | rule2 =>
    obtain ⟨threadData, data, -, ⟨-, rfl⟩ | ⟨-, rfl⟩⟩ := callback2_cases h
    · exact Or.inl ⟨rfl, rfl⟩
    · exact Or.inl ⟨rfl, rfl⟩
  | rule3 =>
    obtain ⟨threadData, n, -, -, -, -, shut, rfl⟩ := callback3_cases h
    exact Or.inl ⟨rfl, rfl⟩
  | rule4 =>
    obtain ⟨a, hwrite, rfl⟩ := callback4_cases h
    exact Or.inr (Or.inr ⟨hwrite, rfl⟩)

theorem writeAll_inv {answers : List ω} {segs written handed : List TCPSegment} {a a' : α}
    (h : link.Inv p before handed a) (hsegs : ∀ seg ∈ segs, seg.Sendable)
    (hwrite : writeAll adapter answers segs a = .ok (a', written)) : link.Inv p before (handed ++ written) a' := by
  induction segs generalizing answers written handed a with
  | nil =>
    cases hwrite
    rw [List.append_nil]
    exact h
  | cons seg segs ih =>
    obtain ⟨a₁, rest, hfirst, hrest, rfl⟩ := writeAll_cons hwrite
    have h₁ := link.write h (hsegs seg List.mem_cons_self) hfirst
    rw [List.append_cons]
    exact ih h₁ (fun x hx => hsegs x (List.mem_cons_of_mem _ hx)) hrest

/-- The adapter of a socket keeps its part. -/
def Honest (link : Link adapter π) (p : Side) (before : α) (s : TCPSpongeSocket α) : Prop :=
  link.Inv p before s.handed s.datagramAdapter

variable {l l' : Loop RuleName (TCPSpongeSocket α)} {packets : List π}

theorem Honest.callback (h : Honest link p before s)
    (hgenuine : link.Genuine p packets before (answer.adapter.headD default))
    (hsends : ∀ seg ∈ s.tcp.segmentsOut, seg.Sendable) (hcall : (table adapter i).callback answer s = .ok s') :
    Honest link p before s' := by
  unfold Honest at h ⊢
  rcases adapter_callback hcall with ⟨hsame, hhanded⟩ | ⟨out, hread, hhanded⟩ | ⟨hwrite, hhanded⟩
  · rw [hsame, hhanded]
    exact h
  · rw [hhanded]
    exact (link.read h hgenuine hread).1
  · rw [hhanded]
    exact writeAll_inv h hsends hwrite

theorem Honest.cancel (h : Honest link p before s) (hcancel : (table adapter i).cancel s = .ok s') :
    Honest link p before s' := by
  rcases cancel_cases hcancel with ⟨-, rfl⟩ | ⟨-, rfl⟩
  · exact h
  · exact h

theorem Honest.move (h : Honest link p before l.s) (hsends : ∀ seg ∈ l.s.tcp.segmentsOut, seg.Sendable)
    (hmove : Move (table adapter) (fun answer => link.Genuine p packets before (answer.adapter.headD default)) l l') :
    Honest link p before l'.s := by
  cases hmove with
  | ask | pass => exact h
  | drop pre post asked i s s' hsub hdefunct hcancel => exact h.cancel hcancel
  | hangUp pre post asked i s s' hsub hcancel => exact h.cancel hcancel
  | call pre post asked i answer s s' hsub hanswer hcall => exact h.callback hanswer hsends hcall

/-- Side `p` in the middle of a turn, while the other side is as in `d`. -/
structure InTurn (link : Link adapter π) (first d : Duplex) (p : Side) (before : α)
    (l : Loop RuleName (TCPSpongeSocket α)) : Prop where
  orderly : Orderly l
  reached : ReflTransGen Duplex.Moves first (d.set p l.s.view)
  sends : Sends ⟨l.s.view.c, { s := l.s.view.c.sender }⟩
  honest : Honest link p before l.s

variable {first d : Duplex}

theorem sends_calls {heard : List TCPSegment} {e e' : Endpoint} (h : Sends ⟨e.c, { s := e.c.sender }⟩)
    (hcalls : e.Calls heard e') : Sends ⟨e'.c, { s := e'.c.sender }⟩ := by
  obtain ⟨ops, hrun, -, -⟩ := hcalls
  exact run_inv (I := fun e => Sends ⟨e.c, { s := e.c.sender }⟩) (fun _ _ _ hI hstep => hI.step hstep) h hrun

theorem InTurn.move (h : InTurn link first d p before l)
    (hpeer : Counts link.Reads (d.get p.other).c.segmentsOut packets)
    (hmove : Move (table adapter) (fun answer => link.Genuine p packets before (answer.adapter.headD default)) l l') :
    InTurn link first d p before l' := by
  have hqueue : ∀ seg ∈ l.s.tcp.segmentsOut, seg.Sendable := fun seg hseg =>
    h.sends.sent seg (List.mem_append_right _ hseg)
  obtain ⟨heard, ⟨hcalls, -⟩, hread⟩ := advances_move h.orderly hmove
  refine ⟨h.orderly.move hmove, h.reached.trans (Duplex.moves_of_calls ?_ hcalls), sends_calls h.sends hcalls,
    h.honest.move hqueue hmove⟩
  intro seg hseg
  obtain ⟨answer, a, hgenuine, hout⟩ := hread seg hseg
  obtain ⟨x, hx, hreads⟩ := (link.read h.honest hgenuine hout).2 seg rfl
  exact hpeer x hx seg hreads

omit [Inhabited ω] in
theorem InTurn.tick {rules : List RuleName} {ms now : Nat} {tcp : TCPConnection} {a : α} {answer : ω}
    (h : InTurn link first d p before ⟨rules, [], s⟩) (hstep : s.tcp.step (.tick ms) = some tcp)
    (htick : adapter.tick answer ms s.datagramAdapter = .ok a) :
    InTurn link first d p before ⟨rules, [], { s with tcp := tcp, datagramAdapter := a, baseTime := now }⟩ := by
  obtain ⟨hcalls, -⟩ : Advances s [] { s with tcp := tcp, datagramAdapter := a, baseTime := now } :=
    advances_tick hstep
  exact ⟨h.orderly.tick hstep, h.reached.trans (Duplex.moves_of_calls (by simp) hcalls),
    sends_calls h.sends hcalls, link.tick h.honest htick⟩

theorem InTurn.step {t : Turn ω} {th th' : Thread α} (h : InTurn link first d p before ⟨th.rules, [], th.socket⟩)
    (hpeer : Counts link.Reads (d.get p.other).c.segmentsOut packets)
    (hgenuine : Answers (fun answer => link.Genuine p packets before (answer.adapter.headD default)) t.poll)
    (hstep : th.step adapter t = .ok th') : InTurn link first d p before ⟨th'.rules, [], th'.socket⟩ :=
  Thread.step_inv hgenuine hstep h (fun _ _ hl hmove => hl.move hpeer hmove)
    (fun _ _ _ _ _ hl htcp ha => hl.tick htcp ha)
    fun _ _ hl => ⟨⟨hl.orderly.nodup, hl.orderly.asked, hl.orderly.ended⟩, hl.reached, hl.sends, hl.honest⟩

end TCPSpongeSocket

/-! ## Both sockets -/

/-- Two sockets, each with its thread. -/
structure World (α : Type) where
  a : Thread α
  b : Thread α

namespace World

def get (w : World α) : Side → Thread α
  | .a => w.a
  | .b => w.b

def set (w : World α) (p : Side) (th : Thread α) : World α :=
  match p with
  | .a => { w with a := th }
  | .b => { w with b := th }

variable [Inhabited ω] {adapter : FdAdapter α ω} {link : Link adapter π}

/-- A turn of one of the threads. -/
def step (adapter : FdAdapter α ω) (w : World α) (turn : Side × Turn ω) : Option (World α) :=
  match (w.get turn.1).next adapter turn.2 with
  | none => none
  | some th => some (w.set turn.1 th)

/-- What is read in the turn can come from a network in which the other side has sent what it has. -/
def Genuine (link : Link adapter π) (w : World α) (turn : Side × Turn ω) : Prop :=
  Answers (fun answer => link.Genuine turn.1 (link.sent (w.get turn.1.other).socket.datagramAdapter)
    (w.get turn.1).socket.datagramAdapter (answer.adapter.headD default)) turn.2.poll

/-- The two connections. -/
def view (w : World α) : Duplex := { a := w.a.socket.view, b := w.b.socket.view }

@[simp] theorem get_view (w : World α) (p : Side) : w.view.get p = (w.get p).socket.view := by
  cases p <;> rfl

@[simp] theorem view_set (w : World α) (p : Side) (th : Thread α) : (w.set p th).view = w.view.set p th.socket.view := by
  cases p <;> rfl

@[simp] theorem get_set_self (w : World α) (p : Side) (th : Thread α) : (w.set p th).get p = th := by
  cases p <;> rfl

@[simp] theorem get_set_other (w : World α) (p : Side) (th : Thread α) : (w.set p th).get p.other = w.get p.other := by
  cases p <;> rfl

/-- What holds of a side between two turns. -/
structure Settled (link : Link adapter π) (p : Side) (th : Thread α) : Prop where
  orderly : Orderly ⟨th.rules, [], th.socket⟩
  sends : Sends ⟨th.socket.view.c, { s := th.socket.view.c.sender }⟩
  honest : Honest link p th.socket.datagramAdapter th.socket

structure Linked (link : Link adapter π) (first : Duplex) (w : World α) : Prop where
  reached : ReflTransGen Duplex.Moves first w.view
  sides : ∀ p, Settled link p (w.get p)

variable {first : Duplex} {w w' : World α} {turn : Side × Turn ω}

theorem Linked.step (h : Linked link first w) (hgenuine : Genuine link w turn) (hstep : w.step adapter turn = some w') :
    Linked link first w' := by
  obtain ⟨p, t⟩ := turn
  unfold World.step at hstep
  split at hstep
  · cases hstep
  rename_i th hnext
  cases hstep
  have hpeer : Counts link.Reads (w.view.get p.other).c.segmentsOut
      (link.sent (w.get p.other).socket.datagramAdapter) := by
    rw [get_view]
    exact Counts.mono (link.sound (h.sides p.other).honest) (List.subset_append_left _ _)
  have hturn : InTurn link first w.view p (w.get p).socket.datagramAdapter ⟨(w.get p).rules, [], (w.get p).socket⟩ := by
    refine ⟨(h.sides p).orderly, ?_, (h.sides p).sends, (h.sides p).honest⟩
    rw [← get_view, Duplex.set_get]
    exact h.reached
  have hdone := hturn.step hpeer hgenuine (Thread.next_cases hnext)
  refine ⟨by rw [view_set]; exact hdone.reached, fun q => ?_⟩
  -- The side that took the turn comes out of it; the other has not moved.
  rcases Duplex.eq_or_other p q with rfl | rfl
  · rw [get_set_self]
    exact ⟨hdone.orderly, hdone.sends, link.restart hdone.honest⟩
  · rw [get_set_other]
    exact h.sides _

/-- Both sides start with adapters that keep their part. -/
structure Opens (link : Link adapter π) (cfg : Side → TCPConfig) (random : Side → WrappingInt32) (w : World α) : Prop where
  starts : ∀ p, Starts adapter (cfg p) (random p) (w.get p)
  honest : ∀ p, Honest link p (w.get p).socket.datagramAdapter (w.get p).socket

variable {cfg : Side → TCPConfig} {random : Side → WrappingInt32}

omit [Inhabited ω] in
theorem Opens.linked (h : Opens link cfg random w) : Linked link (Duplex.start cfg random) w := by
  have hcalls : ∀ p, (Endpoint.new (cfg p) (random p)).Calls [] (w.get p).socket.view := by
    intro p
    obtain ⟨hruns, hnone⟩ := (h.starts p).runs
    rw [← hnone]
    exact hruns.calls
  refine ⟨?_, fun p => ⟨(h.starts p).runs.1.orderly, sends_calls (sends_new _ _) (hcalls p), h.honest p⟩⟩
  have ha := Duplex.moves_of_calls (d := Duplex.start cfg random) (p := .a) (by simp) (hcalls .a)
  have hb := Duplex.moves_of_calls (d := (Duplex.start cfg random).set .a (w.get .a).socket.view) (p := .b) (by simp)
    (hcalls .b)
  exact ha.trans hb

/-- Whatever linked adapters do, the bytes that one owner gets are the start of what the other one
wrote. -/
theorem Opens.in_order {start : World α} {turns : List (Side × Turn ω)} (hopens : Opens link cfg random start)
    (hgenuine : AllSteps (World.step adapter) (Genuine link) start turns)
    (h : run (World.step adapter) start turns = some w) (p : Side) (hcap : (cfg p.other).recvCapacity < 2 ^ 63)
    (hlen : (w.get p).socket.threadData.supplied.length + 2 < 2 ^ 31) :
    (w.get p.other).socket.threadData.out.accepted <+: (w.get p).socket.threadData.supplied := by
  have hlinked := run_inv_of_allSteps (fun _ _ _ hw hturn hstep => Linked.step hw hturn hstep) hopens.linked hgenuine h
  obtain ⟨actions, hrun, -⟩ :=
    exists_run (G := fun _ _ => True) (fun _ _ hmoves => hmoves.imp fun _ h => ⟨h, trivial⟩) hlinked.reached
  obtain ⟨t, -, -, hinbound⟩ := Duplex.carries_run hrun p hcap (by rw [get_view]; exact hlen)
  have hstart := hinbound.trace.start
  rw [get_view, get_view] at hstart
  exact (List.prefix_append _ _).trans hstart

end World

/-! ## Sockets over UDP -/

/-- The adapter of `LossyTCPOverUDPSpongeSocket`. -/
def lossyUDP : FdAdapter (LossyFdAdapter TCPOverUDPSocketAdapter) (LossyAnswer UDPAnswer) :=
  LossyFdAdapter.adapterOf TCPOverUDPSocketAdapter.adapter

/-- A new socket with any rates of loss, which connects to the other side or listens. -/
inductive OpensUDP (addr : Side → Address) (p : Side) (cfg : TCPConfig) (random : WrappingInt32)
    (th : Thread (LossyFdAdapter TCPOverUDPSocketAdapter)) : Prop where
  | connects (source : Address) (up dn : UInt16) (now : Nat)
      (h : connect lossyUDP cfg random ⟨source, addr p.other⟩ ⟨{}, up, dn⟩ now = .ok th)
  | listens (ad : FdAdapterConfig) (up dn : UInt16) (now : Nat)
      (h : listenAndAccept lossyUDP cfg random ad ⟨{}, up, dn⟩ now = th)

namespace OpensUDP

variable {addr : Side → Address} {p : Side} {cfg : TCPConfig} {random : WrappingInt32}
  {th : Thread (LossyFdAdapter TCPOverUDPSocketAdapter)}

theorem starts (h : OpensUDP addr p cfg random th) : Starts lossyUDP cfg random th := by
  cases h with
  | connects source up dn now h => exact .connects _ _ _ h
  | listens ad up dn now h => exact .listens _ _ _ h

theorem honest (h : OpensUDP addr p cfg random th) :
    Honest (TCPOverUDPSocketAdapter.link addr).lossy p th.socket.datagramAdapter th.socket := by
  cases h with
  | connects source up dn now h =>
    rw [connect_eq] at h
    cases h
    exact ⟨fun _ => rfl, id, counts_nil⟩
  | listens ad up dn now h =>
    rw [← h]
    exact ⟨(fun hsettled => by cases hsettled), id, counts_nil⟩

end OpensUDP

open World TCPOverUDPSocketAdapter

/-- Two sockets over UDP, with any loss inside and outside of them: however the turns of the two
threads are mixed, what the owner of one has got is the start of what the owner of the other wrote,
when the network brings only what was sent. -/
theorem udp_owners_in_order (addr : Side → Address) (cfg : Side → TCPConfig) (random : Side → WrappingInt32)
    (start w : World (LossyFdAdapter TCPOverUDPSocketAdapter)) (turns : List (Side × Turn (LossyAnswer UDPAnswer)))
    (hstart : ∀ p, OpensUDP addr p (cfg p) (random p) (start.get p))
    (hgenuine : AllSteps (World.step lossyUDP) (World.Genuine (link addr).lossy) start turns)
    (h : run (World.step lossyUDP) start turns = some w) (p : Side) (hcap : (cfg p.other).recvCapacity < 2 ^ 63)
    (hlen : (w.get p).socket.threadData.supplied.length + 2 < 2 ^ 31) :
    (w.get p.other).socket.threadData.out.accepted <+: (w.get p).socket.threadData.supplied := by
  have hopens : Opens (link addr).lossy cfg random start :=
    ⟨fun p => (hstart p).starts, fun p => (hstart p).honest⟩
  exact hopens.in_order hgenuine h p hcap hlen

instance (addr : Side → Address) (w : World (LossyFdAdapter TCPOverUDPSocketAdapter))
    (turn : Side × Turn (LossyAnswer UDPAnswer)) : Decidable (World.Genuine (link addr).lossy w turn) :=
  inferInstanceAs (Decidable (Answers (fun answer : Answer (LossyAnswer UDPAnswer) =>
    TCPOverUDPSocketAdapter.Genuine addr turn.1 _ _ (answer.adapter.headD default).inner) _))

def twoAddresses : Side → Address
  | .a => ⟨1, 1000⟩
  | .b => ⟨2, 2000⟩

/-- A turn in which the rules that are ready meet the given answers. -/
def readyTurn {ω : Type} [Inhabited ω] (revents : List Revents) (answers : List (Answer ω)) : Turn ω :=
  { poll := .ready revents answers, nextTime := 0, tick := default }

/-- The datagrams of the given lengths go out. -/
def sendsTurn (lengths : List Int) : Turn (LossyAnswer UDPAnswer) :=
  readyTurn [{}, {}, {}, { pollOut := true }]
    [{}, {}, {}, { adapter := lengths.map fun n => { inner := { send := { value := n } } } }]

def hearsTurn (source : Address) (payload : Buffer) (fits : payload.length < 2 ^ 31) : Turn (LossyAnswer UDPAnswer) :=
  readyTurn [{ pollIn := true }] [{ adapter := [{ inner := { recv := .datagram source payload fits } }] }]

def hiWritten : WriteResult := .count 2 (by decide)

/-- The handshake, and two bytes from the owner of `a` to that of `b`; the ACK of the handshake is lost. -/
def udpTurns : List (Side × Turn (LossyAnswer UDPAnswer)) :=
  [(.a, sendsTurn [20]),
    (.b, hearsTurn ⟨1, 1000⟩ [3, 232, 7, 208, 0, 0, 0, 0, 0, 0, 0, 0, 80, 2, 0, 0, 164, 69, 0, 0] (by decide)),
    (.b, sendsTurn [20]),
    (.a, hearsTurn ⟨2, 2000⟩ [7, 208, 3, 232, 0, 0, 0, 0, 0, 0, 0, 1, 80, 18, 0, 8, 164, 44, 0, 0] (by decide)),
    (.a, readyTurn [] []),
    (.a, readyTurn [{}, { pollIn := true }, {}, { pollOut := true }] [{}, { read := hiRead }, {},
      { adapter := [{ inner := { send := { value := 20 } } }, { inner := { send := { value := 22 } } }] }]),
    (.b, hearsTurn ⟨1, 1000⟩
      [3, 232, 7, 208, 0, 0, 0, 1, 0, 0, 0, 1, 80, 16, 0, 8, 59, 196, 0, 0, 104, 105] (by decide)),
    (.b, readyTurn [] []),
    (.b, readyTurn [{}, {}, { pollOut := true }] [{}, {}, { write := hiWritten }])]

def udpServer : Thread (LossyFdAdapter TCPOverUDPSocketAdapter) :=
  listenAndAccept lossyUDP smallConfig ⟨0⟩ ⟨⟨2, 2000⟩, {}⟩ ⟨{}, 0, 0⟩ 0

def udpClient : Except Thrown (Thread (LossyFdAdapter TCPOverUDPSocketAdapter)) :=
  connect lossyUDP smallConfig ⟨0⟩ ⟨⟨1, 1000⟩, ⟨2, 2000⟩⟩ ⟨{}, 0, 0⟩ 0

theorem udp_owners_in_order_hi :
    ∃ client w, udpClient = .ok client ∧ run (World.step lossyUDP) ⟨client, udpServer⟩ udpTurns = some w ∧
      w.b.socket.threadData.out.accepted = [104, 105] ∧
      w.b.socket.threadData.out.accepted <+: w.a.socket.threadData.supplied := by
  have hrun : ∀ client ∈ udpClient.toOption,
      AllSteps (World.step lossyUDP) (World.Genuine (link twoAddresses).lossy) ⟨client, udpServer⟩ udpTurns ∧
        ∃ w, run (World.step lossyUDP) ⟨client, udpServer⟩ udpTurns = some w ∧
          w.b.socket.threadData.out.accepted = [104, 105] ∧
          w.a.socket.threadData.supplied.length + 2 < 2 ^ 31 := by
    decide +kernel
  have hclient : udpClient = .ok _ := connect_eq _ _ _ _ _ _
  obtain ⟨hgenuine, w, hw, haccepted, hshort⟩ := hrun _ (by rw [hclient]; rfl)
  refine ⟨_, w, hclient, hw, haccepted, udp_owners_in_order twoAddresses (fun _ => smallConfig) (fun _ => ⟨0⟩) _ w udpTurns
    ?_ hgenuine hw .a (by decide) hshort⟩
  intro p
  cases p with
  | a => exact .connects _ 0 0 0 hclient
  | b => exact .listens _ 0 0 0 rfl

end Sponge
