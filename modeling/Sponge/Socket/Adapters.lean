import Sponge.Socket.Model

/-!
# Adapters

`libsponge/tcp_helpers/fd_adapter.cc` over the `UDPSocket` of `util/socket.cc`, and
`lossy_fd_adapter.hh`. What the random device gives is an argument, like the answers of
the kernel.
-/

namespace Sponge

/-! ## UDP -/

/-- What a call of `recvfrom` brings: a datagram, as long as an `int` can count, or an error. -/
inductive RecvResult where
  | datagram (source : Address) (payload : Buffer) (fits : payload.length < 2 ^ 31)
  | failed (errno : Nat) (real : errno ≠ 0)

structure UDPSocket where
  fd : FDWrapper := {}
  /-- Every datagram that the kernel took, with its destination. -/
  sent : List (Address × Buffer) := []
  deriving Repr, DecidableEq

namespace UDPSocket

def mtu : Nat := 65536

def recv (sock : UDPSocket) : RecvResult → Except Thrown (UDPSocket × Address × Buffer)
  | .failed errno _ => .error (.unixError "recvfrom" errno)
  | .datagram source payload _ =>
    if payload.length > mtu then .error (.runtimeError "recvfrom (oversized datagram)")
    else .ok ({ sock with fd := sock.fd.registerRead }, source, payload)

def sendto (sock : UDPSocket) (destination : Address) (payload : BufferList) (result : SysResult) :
    Except Thrown UDPSocket :=
  match systemCall "sendmsg" result 0 with
  | .error thrown => .error thrown
  | .ok bytesSent =>
    if bytesSent ≠ payload.size then .error (.runtimeError "datagram payload too big for sendmsg()")
    else .ok
      { fd := { sock.fd with out := sock.fd.out.registerWrite }
        sent := sock.sent ++ [(destination, payload.concatenate)] }

end UDPSocket

/-- What the kernel answers to one operation of the adapter. -/
structure UDPAnswer where
  recv : RecvResult := .failed eagain eagain_ne_zero
  send : SysResult := { value := -1, errno := eagain }

instance : Inhabited UDPAnswer := ⟨{}⟩

structure TCPOverUDPSocketAdapter where
  config : FdAdapterConfig := {}
  listening : Bool := false
  sock : UDPSocket := {}
  deriving Repr, DecidableEq

namespace TCPOverUDPSocketAdapter

def read (answer : UDPAnswer) (a : TCPOverUDPSocketAdapter) :
    Except Thrown (TCPOverUDPSocketAdapter × Option TCPSegment) :=
  match a.sock.recv answer.recv with
  | .error thrown => .error thrown
  | .ok (sock, source, payload) =>
    let a := { a with sock := sock }
    if ¬ a.listening ∧ source ≠ a.config.destination then .ok (a, none)
    else
      let (result, seg) := TCPSegment.parse {} payload 0
      if result ≠ .noError then .ok (a, none)
      else if a.listening then
        if seg.header.syn ∧ ¬ seg.header.rst then
          .ok ({ a with config := { a.config with destination := source }, listening := false }, some seg)
        else .ok (a, none)
      else .ok (a, some seg)

/-- The segment with the ports of the two ends. -/
def addressed (a : TCPOverUDPSocketAdapter) (seg : TCPSegment) : TCPSegment :=
  { seg with header := { seg.header with sport := a.config.source.port, dport := a.config.destination.port } }

def write (answer : UDPAnswer) (seg : TCPSegment) (a : TCPOverUDPSocketAdapter) :
    Except Thrown TCPOverUDPSocketAdapter :=
  match (a.addressed seg).serialize 0 with
  | none => .error (.runtimeError "TCP header too short")
  | some payload =>
    match a.sock.sendto a.config.destination payload answer.send with
    | .error thrown => .error thrown
    | .ok sock => .ok { a with sock := sock }

/-- `tick` is the one of `FdAdapterBase`, which does nothing. -/
def adapter : FdAdapter TCPOverUDPSocketAdapter UDPAnswer where
  fd := fun a => a.sock.fd
  setConfig := fun config a => { a with config := config }
  setListening := fun l a => { a with listening := l }
  read := read
  write := write
  tick := fun _ _ a => .ok a

end TCPOverUDPSocketAdapter

/-! ## Loss -/

/-- An adapter with the two rates of its configuration that only this class reads. -/
structure LossyFdAdapter (α : Type) where
  adapter : α
  lossRateUp : UInt16 := 0
  lossRateDn : UInt16 := 0
  deriving Repr, DecidableEq

/-- What the random device gives, and the kernel answers, to one operation. -/
structure LossyAnswer (ω : Type) where
  rand : UInt32 := 0
  inner : ω

instance {ω : Type} [Inhabited ω] : Inhabited (LossyAnswer ω) := ⟨{ inner := default }⟩

namespace LossyFdAdapter

variable {α ω : Type}

def shouldDrop (a : LossyFdAdapter α) (rand : UInt32) (uplink : Bool) : Bool :=
  let loss := if uplink then a.lossRateUp else a.lossRateDn
  loss ≠ 0 && rand.toUInt16 < loss

def read (inner : FdAdapter α ω) (answer : LossyAnswer ω) (a : LossyFdAdapter α) :
    Except Thrown (LossyFdAdapter α × Option TCPSegment) :=
  match inner.read answer.inner a.adapter with
  | .error thrown => .error thrown
  | .ok (adapter, ret) =>
    let a := { a with adapter := adapter }
    if a.shouldDrop answer.rand false then .ok (a, none) else .ok (a, ret)

def write (inner : FdAdapter α ω) (answer : LossyAnswer ω) (seg : TCPSegment) (a : LossyFdAdapter α) :
    Except Thrown (LossyFdAdapter α) :=
  if a.shouldDrop answer.rand true then .ok a
  else
    match inner.write answer.inner seg a.adapter with
    | .error thrown => .error thrown
    | .ok adapter => .ok { a with adapter := adapter }

def adapterOf (inner : FdAdapter α ω) : FdAdapter (LossyFdAdapter α) (LossyAnswer ω) where
  fd := fun a => inner.fd a.adapter
  setConfig := fun config a => { a with adapter := inner.setConfig config a.adapter }
  setListening := fun l a => { a with adapter := inner.setListening l a.adapter }
  read := read inner
  write := write inner
  tick := fun answer ms a =>
    match inner.tick answer.inner ms a.adapter with
    | .error thrown => .error thrown
    | .ok adapter => .ok { a with adapter := adapter }

variable {inner : FdAdapter α ω} {answer : LossyAnswer ω} {a a' : LossyFdAdapter α}

theorem read_cases {out : Option TCPSegment} (h : (adapterOf inner).read answer a = .ok (a', out)) :
    ∃ b ret, inner.read answer.inner a.adapter = .ok (b, ret) ∧ a' = { a with adapter := b } ∧
      (out = none ∨ out = ret) := by
  simp only [adapterOf, read] at h
  split at h
  · cases h
  rename_i b ret hinner
  split_ifs at h
  · cases h
    exact ⟨b, ret, hinner, rfl, Or.inl rfl⟩
  · cases h
    exact ⟨b, _, hinner, rfl, Or.inr rfl⟩

theorem write_cases {seg : TCPSegment} (h : (adapterOf inner).write answer seg a = .ok a') :
    a' = a ∨ ∃ b, inner.write answer.inner seg a.adapter = .ok b ∧ a' = { a with adapter := b } := by
  simp only [adapterOf, write] at h
  split_ifs at h
  · cases h
    exact Or.inl rfl
  · split at h
    · cases h
    · cases h
      exact Or.inr ⟨_, ‹_›, rfl⟩

theorem tick_cases {ms : Nat} (h : (adapterOf inner).tick answer ms a = .ok a') :
    ∃ b, inner.tick answer.inner ms a.adapter = .ok b ∧ a' = { a with adapter := b } := by
  simp only [adapterOf] at h
  split at h
  · cases h
  · cases h
    exact ⟨_, ‹_›, rfl⟩

end LossyFdAdapter

end Sponge
