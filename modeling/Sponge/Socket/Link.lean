import Sponge.Connection.Plain
import Sponge.Duplex.Model
import Sponge.Socket.Adapters

/-!
# What two adapters do for each other

Between the adapters of two sockets there is a network that may lose, repeat and
reorder what it carries. An adapter keeps its part when all that it returns is what the
other one was given, but for the fields of the header that no connection reads.
-/

namespace Sponge

/-! ## The fields that count -/

/-- The segment with only the fields that a connection reads. -/
def TCPSegment.core (seg : TCPSegment) : TCPSegment :=
  { header :=
      { seqno := seg.header.seqno, ackno := seg.header.ackno, ack := seg.header.ack, rst := seg.header.rst
        syn := seg.header.syn, fin := seg.header.fin, win := seg.header.win }
    payload := seg.payload }

theorem TCPConnection.segmentReceived_core (c : TCPConnection) (seg : TCPSegment) :
    c.segmentReceived seg.core = c.segmentReceived seg := rfl

theorem TCPConnection.segmentReceived_congr {c : TCPConnection} {seg seg' : TCPSegment} (h : seg.core = seg'.core) :
    c.segmentReceived seg = c.segmentReceived seg' := by
  rw [← segmentReceived_core, h, segmentReceived_core]

/-- How the adapters of the two sides are linked, by packets of type `π`. -/
structure Link {α ω : Type} (adapter : FdAdapter α ω) (π : Type) where
  /-- Every packet that the adapter has sent. -/
  sent : α → List π
  /-- The segment can be read from the packet. -/
  Reads : π → TCPSegment → Prop
  /-- The answer to a read can come from a network in which the other side has sent `packets`. -/
  Genuine : Side → (packets : List π) → (before : α) → ω → Prop
  /-- The adapter of a side, which was `before` when the turn began and has been given `handed`. -/
  Inv : Side → (before : α) → (handed : List TCPSegment) → α → Prop
  restart : ∀ {p before handed a}, Inv p before handed a → Inv p a handed a
  mono : ∀ {p before handed handed' a}, Inv p before handed a → handed ⊆ handed' → Inv p before handed' a
  sound : ∀ {p before handed a}, Inv p before handed a → ∀ x ∈ sent a, ∀ seg, Reads x seg →
    ∃ seg' ∈ handed, seg.core = seg'.core
  read : ∀ {p before handed a a' packets answer out}, Inv p before handed a → Genuine p packets before answer →
    adapter.read answer a = .ok (a', out) →
      Inv p before handed a' ∧ ∀ seg, out = some seg → ∃ x ∈ packets, Reads x seg
  write : ∀ {p before handed a a' answer seg}, Inv p before handed a → seg.Sendable →
    adapter.write answer seg a = .ok a' → Inv p before (handed ++ [seg]) a'
  tick : ∀ {p before handed a a' answer ms}, Inv p before handed a → adapter.tick answer ms a = .ok a' →
    Inv p before handed a'

/-- What was sent for the segments of `handed` can be read only as one of them. -/
def Counts {π : Type} (Reads : π → TCPSegment → Prop) (handed : List TCPSegment) (packets : List π) : Prop :=
  ∀ x ∈ packets, ∀ seg, Reads x seg → ∃ seg' ∈ handed, seg.core = seg'.core

section

variable {π : Type} {Reads : π → TCPSegment → Prop} {handed handed' : List TCPSegment} {packets : List π}

theorem counts_nil : Counts Reads handed [] := by
  simp [Counts]

theorem Counts.mono (h : Counts Reads handed packets) (hsub : handed ⊆ handed') : Counts Reads handed' packets := by
  intro x hx seg hseg
  obtain ⟨seg', hmem, hcore⟩ := h x hx seg hseg
  exact ⟨seg', hsub hmem, hcore⟩

theorem Counts.append (h : Counts Reads handed packets) {x : π} {sent : TCPSegment}
    (hx : ∀ seg, Reads x seg → seg.core = sent.core) :
    Counts Reads (handed ++ [sent]) (packets ++ [x]) := by
  intro y hy seg hseg
  rcases List.mem_append.mp hy with hy | hy
  · exact h.mono (List.subset_append_left _ _) y hy seg hseg
  · rw [List.mem_singleton.mp hy] at hseg
    exact ⟨sent, List.mem_append_right _ List.mem_cons_self, hx seg hseg⟩

end

/-! ## UDP -/

namespace TCPOverUDPSocketAdapter

/-- The segment is what the payload is parsed to. -/
def Reads (x : Address × Buffer) (seg : TCPSegment) : Prop := TCPSegment.parse {} x.2 0 = (.noError, seg)

/-- Once it does not listen any more, the adapter sends to the other side. -/
structure Inv (addr : Side → Address) (p : Side) (before : TCPOverUDPSocketAdapter) (handed : List TCPSegment)
    (a : TCPOverUDPSocketAdapter) : Prop where
  destination : a.listening = false → a.config.destination = addr p.other
  listening : a.listening = true → before.listening = true
  sent : Counts Reads handed a.sock.sent

/-- A datagram that seems to come from the other side does, and nobody else reaches a side that
still listens. -/
def Genuine (addr : Side → Address) (p : Side) (packets : List (Address × Buffer)) (before : TCPOverUDPSocketAdapter)
    (answer : UDPAnswer) : Prop :=
  match answer.recv with
  | .failed _ _ => True
  | .datagram source payload _ => if source = addr p.other then (addr p, payload) ∈ packets else before.listening = false

instance (addr : Side → Address) (p : Side) (packets : List (Address × Buffer)) (before : TCPOverUDPSocketAdapter) :
    DecidablePred (Genuine addr p packets before) := fun answer =>
  match h : answer.recv with
  | .failed _ _ => .isTrue (by simp [Genuine, h])
  | .datagram source payload _ => decidable_of_iff
      (if source = addr p.other then (addr p, payload) ∈ packets else before.listening = false) (by simp [Genuine, h])

variable {a a' before : TCPOverUDPSocketAdapter} {answer : UDPAnswer} {addr : Side → Address} {p : Side}

theorem recv_cases {sock sock' : UDPSocket} {result : RecvResult} {source : Address} {payload : Buffer}
    (h : sock.recv result = .ok (sock', source, payload)) :
    (∃ fits, result = .datagram source payload fits) ∧ sock' = { sock with fd := sock.fd.registerRead } := by
  cases result with
  | failed errno real => cases h
  | datagram source payload fits =>
    unfold UDPSocket.recv at h
    simp only at h
    split_ifs at h
    cases h
    exact ⟨⟨fits, rfl⟩, rfl⟩

theorem read_cases {out : Option TCPSegment} (h : read answer a = .ok (a', out)) :
    ∃ source payload fits, answer.recv = .datagram source payload fits ∧
      a'.sock = { a.sock with fd := a.sock.fd.registerRead } ∧
      (out = none ∧ a'.config = a.config ∧ a'.listening = a.listening ∨
        ∃ seg, out = some seg ∧ TCPSegment.parse {} payload 0 = (.noError, seg) ∧
          (a.listening = false → source = a.config.destination) ∧ a'.listening = false ∧
          a'.config.destination = source) := by
  unfold read at h
  split at h
  · cases h
  rename_i sock source payload hrecv
  obtain ⟨⟨fits, hresult⟩, hsock⟩ := recv_cases hrecv
  refine ⟨source, payload, fits, hresult, ?_⟩
  cases hparse : TCPSegment.parse {} payload 0 with
  | mk result seg =>
    simp only [hparse] at h
    -- A datagram is dropped if it is from a stranger, does not parse, or is no SYN while listening.
    split_ifs at h with hother herror hlisten hsyn
    · cases h
      exact ⟨hsock, Or.inl ⟨rfl, rfl, rfl⟩⟩
    · cases h
      exact ⟨hsock, Or.inl ⟨rfl, rfl, rfl⟩⟩
    · cases h
      refine ⟨hsock, Or.inr ⟨seg, rfl, ?_, ?_, rfl, rfl⟩⟩
      · rw [not_not.mp herror]
      · intro hsettled
        rw [hsettled] at hlisten
        cases hlisten
    · cases h
      exact ⟨hsock, Or.inl ⟨rfl, rfl, rfl⟩⟩
    · cases h
      have hsource : source = a.config.destination := by
        by_contra hne
        exact hother ⟨hlisten, hne⟩
      exact ⟨hsock, Or.inr ⟨seg, rfl, by rw [not_not.mp herror], fun _ => hsource, by simpa using hlisten, hsource.symm⟩⟩

theorem write_cases {seg : TCPSegment} (h : write answer seg a = .ok a') :
    ∃ payload, (a.addressed seg).serialize 0 = some payload ∧ a'.config = a.config ∧ a'.listening = a.listening ∧
      a'.sock.sent = a.sock.sent ++ [(a.config.destination, payload.concatenate)] := by
  unfold write at h
  split at h
  · cases h
  rename_i payload hserialize
  split at h
  · cases h
  rename_i sock hsendto
  cases h
  refine ⟨payload, hserialize, rfl, rfl, ?_⟩
  unfold UDPSocket.sendto at hsendto
  split at hsendto
  · cases hsendto
  split_ifs at hsendto
  cases hsendto
  rfl

theorem core_of_reads {seg seg' : TCPSegment} {payload : BufferList} {destination : Address} (hseg : seg.Sendable)
    (h : (a.addressed seg).serialize 0 = some payload) (hreads : Reads (destination, payload.concatenate) seg') :
    seg'.core = seg.core := by
  have hdoff : (a.addressed seg).header.doff.toNat = 5 := by
    rw [addressed, hseg.doff]
    rfl
  have hshort := hseg.short
  obtain ⟨bytes, v, hbytes, -, hparse⟩ := TCPSegment.exists_serialize (a.addressed seg) {} (c := 0) (by decide)
    (by omega) (by omega) (by simp only [addressed, TCPConfig.maxPayloadSize] at hshort ⊢; omega)
  rw [h, Option.some.injEq] at hbytes
  rw [← hbytes, hreads] at hparse
  rw [(Prod.mk.inj hparse).2]
  rfl

theorem Inv.read {handed : List TCPSegment} {packets : List (Address × Buffer)} {out : Option TCPSegment}
    (h : Inv addr p before handed a) (hgenuine : Genuine addr p packets before answer)
    (hread : read answer a = .ok (a', out)) :
    Inv addr p before handed a' ∧ ∀ seg, out = some seg → ∃ x ∈ packets, Reads x seg := by
  obtain ⟨source, payload, fits, hrecv, hsock, hout⟩ := read_cases hread
  rw [Genuine, hrecv] at hgenuine
  simp only at hgenuine
  have hcounts : Counts Reads handed a'.sock.sent := by
    rw [hsock]
    exact h.sent
  rcases hout with ⟨rfl, hconfig, hlistening⟩ | ⟨seg, rfl, hparse, hsource, hsettled, hdestination⟩
  · refine ⟨⟨?_, ?_, hcounts⟩, by simp⟩
    · rw [hlistening, hconfig]
      exact h.destination
    · rw [hlistening]
      exact h.listening
  · -- While it listens nobody else reaches it, and later it looks at the source.
    have hpeer : source = addr p.other := by
      by_contra hne
      rw [if_neg hne] at hgenuine
      have hsettled : a.listening = false := by
        by_contra hlistening
        rw [h.listening (by simpa using hlistening)] at hgenuine
        cases hgenuine
      exact hne ((hsource hsettled).trans (h.destination hsettled))
    rw [if_pos hpeer] at hgenuine
    refine ⟨⟨fun _ => hdestination.trans hpeer, by simp [hsettled], hcounts⟩, ?_⟩
    rintro _ ⟨⟩
    exact ⟨_, hgenuine, hparse⟩

theorem Inv.write {handed : List TCPSegment} {seg : TCPSegment} (h : Inv addr p before handed a) (hseg : seg.Sendable)
    (hwrite : write answer seg a = .ok a') : Inv addr p before (handed ++ [seg]) a' := by
  obtain ⟨payload, hserialize, hconfig, hlistening, hsent⟩ := write_cases hwrite
  refine ⟨?_, ?_, ?_⟩
  · rw [hlistening, hconfig]
    exact h.destination
  · rw [hlistening]
    exact h.listening
  · rw [hsent]
    exact h.sent.append fun seg' hreads => core_of_reads hseg hserialize hreads

/-- Adapters at two addresses, and a network that carries UDP. -/
def link (addr : Side → Address) : Link adapter (Address × Buffer) where
  sent := fun a => a.sock.sent
  Reads := Reads
  Genuine := Genuine addr
  Inv := Inv addr
  restart := fun h => ⟨h.destination, id, h.sent⟩
  mono := fun h hsub => ⟨h.destination, h.listening, h.sent.mono hsub⟩
  sound := fun h => h.sent
  read := fun h hgenuine hread => h.read hgenuine hread
  write := fun h hseg hwrite => h.write hseg hwrite
  tick := fun h htick => by
    cases htick
    exact h

end TCPOverUDPSocketAdapter

/-! ## Loss -/

/-- An adapter that drops what it likes is linked as the one inside it. -/
def Link.lossy {α ω π : Type} {inner : FdAdapter α ω} (link : Link inner π) :
    Link (LossyFdAdapter.adapterOf inner) π where
  sent := fun a => link.sent a.adapter
  Reads := link.Reads
  Genuine := fun p packets before answer => link.Genuine p packets before.adapter answer.inner
  Inv := fun p before handed a => link.Inv p before.adapter handed a.adapter
  restart := link.restart
  mono := link.mono
  sound := link.sound
  read := by
    intro p before handed a a' packets answer out h hgenuine hread
    obtain ⟨b, ret, hinner, rfl, hout⟩ := LossyFdAdapter.read_cases hread
    obtain ⟨h', hheard⟩ := link.read h hgenuine hinner
    refine ⟨h', ?_⟩
    rcases hout with rfl | rfl
    · simp
    · exact hheard
  write := by
    intro p before handed a a' answer seg h hseg hwrite
    rcases LossyFdAdapter.write_cases hwrite with rfl | ⟨b, hinner, rfl⟩
    · exact link.mono h (List.subset_append_left _ _)
    · exact link.write h hseg hinner
  tick := by
    intro p before handed a a' answer ms h htick
    obtain ⟨b, hinner, rfl⟩ := LossyFdAdapter.tick_cases htick
    exact link.tick h hinner

end Sponge
