import Sponge.Adapter
import Sponge.Connection.State
import Sponge.EventLoop.Model

/-!
# The socket

`libsponge/tcp_helpers/tcp_sponge_socket.cc`. The thread of the socket runs the event
loop over a connection, the end of a socket pair that the owner holds the other end of,
and an adapter for the datagrams. It is a machine whose step is one turn of `_tcp_loop`.
The messages to the user are left out.
-/

namespace Sponge

open Word64 EventLoop

/-- What the socket uses of an adapter of type `α`. `ω` is what the kernel answers to the calls
that one operation makes. -/
structure FdAdapter (α ω : Type) where
  fd : α → FDWrapper
  setConfig : FdAdapterConfig → α → α
  setListening : Bool → α → α
  read : ω → α → Except Thrown (α × Option TCPSegment)
  write : ω → TCPSegment → α → Except Thrown α
  tick : ω → Nat → α → Except Thrown α

structure TCPSpongeSocket (α : Type) where
  tcp : TCPConnection
  threadData : FDWrapper := {}
  datagramAdapter : α
  inboundShutdown : Bool := false
  outboundShutdown : Bool := false
  /-- The local variable of `_tcp_loop`. -/
  baseTime : Nat := 0
  /-- Every segment that the adapter returned. -/
  returned : List TCPSegment := []
  /-- Every segment that the adapter was given. -/
  handed : List TCPSegment := []
  deriving Repr, DecidableEq

namespace TCPSpongeSocket

variable {α ω : Type}

/-- What the kernel answers to the calls of one callback. The adapter takes one answer for each of
its operations. -/
structure Answer (ω : Type) where
  read : ReadResult := .nothing
  write : WriteResult := .nothing
  control : SysResult := { value := 0 }
  adapter : List ω := []

instance : Inhabited (Answer ω) := ⟨{}⟩

inductive RuleName where
  | rule1
  | rule2
  | rule3
  | rule4
  deriving Repr, DecidableEq

/-- A call of the connection. `none` is an exception of a container inside it. -/
def calls (s : TCPSpongeSocket α) (op : TCPConnection.Op) : Except Thrown (TCPSpongeSocket α) :=
  match s.tcp.step op with
  | none => .error (.outOfRange "TCPConnection")
  | some tcp => .ok { s with tcp := tcp }

section

variable [Inhabited ω] (adapter : FdAdapter α ω)

def callback1 (answer : Answer ω) (s : TCPSpongeSocket α) : Except Thrown (TCPSpongeSocket α) :=
  match adapter.read (answer.adapter.headD default) s.datagramAdapter with
  | .error thrown => .error thrown
  | .ok (a, none) => .ok { s with datagramAdapter := a }
  | .ok (a, some seg) =>
    { s with datagramAdapter := a, returned := s.returned ++ [seg] }.calls (.segmentReceived seg)

def remainingOutboundCapacity (s : TCPSpongeSocket α) : Nat := s.tcp.sender.stream.remainingCapacity

/-- `end_input_stream` with the flag that goes with it. -/
def endOutbound (s : TCPSpongeSocket α) : Except Thrown (TCPSpongeSocket α) :=
  .ok { s with tcp := s.tcp.endInputStream, outboundShutdown := true }

def callback2 (answer : Answer ω) (s : TCPSpongeSocket α) : Except Thrown (TCPSpongeSocket α) :=
  match s.threadData.read s.remainingOutboundCapacity answer.read with
  | .error thrown => .error thrown
  | .ok (threadData, data) =>
    let (tcp, amountWritten) := s.tcp.write data
    let s := { s with threadData := threadData, tcp := tcp }
    if amountWritten ≠ data.length then
      .error (.runtimeError "TCPConnection::write() accepted less than advertised length")
    else if s.threadData.eof then s.endOutbound
    else .ok s

/-- The connection with its inbound stream replaced. -/
def withInbound (c : TCPConnection) (inbound : ByteStream) : TCPConnection :=
  { c with receiver := { c.receiver with reassembler := { c.receiver.reassembler with output := inbound } } }

def callback3 (answer : Answer ω) (s : TCPSpongeSocket α) : Except Thrown (TCPSpongeSocket α) :=
  match s.threadData.writeFrom 65536 (by decide) s.tcp.inboundStream answer.write with
  | .error thrown => .error thrown
  | .ok (threadData, inbound) =>
    let s := { s with threadData := threadData, tcp := withInbound s.tcp inbound }
    if inbound.eof || inbound.error then
      match s.threadData.shutdownWrite answer.control with
      | .error thrown => .error thrown
      | .ok threadData => .ok { s with threadData := threadData, inboundShutdown := true }
    else .ok s

/-- The loop that gives the adapter one segment after the other, with those it has given. -/
def writeAll : List ω → List TCPSegment → α → Except Thrown (α × List TCPSegment)
  | _, [], a => .ok (a, [])
  | answers, seg :: segments, a =>
    match adapter.write (answers.headD default) seg a with
    | .error thrown => .error thrown
    | .ok a =>
      match writeAll answers.tail segments a with
      | .error thrown => .error thrown
      | .ok (a, written) => .ok (a, seg :: written)

def callback4 (answer : Answer ω) (s : TCPSpongeSocket α) : Except Thrown (TCPSpongeSocket α) :=
  match writeAll adapter answer.adapter s.tcp.segmentsOut s.datagramAdapter with
  | .error thrown => .error thrown
  | .ok (a, written) => .ok { s with
      datagramAdapter := a
      tcp := { s.tcp with segmentsOut := [] }
      handed := s.handed ++ written }

def wantsOutbound (s : TCPSpongeSocket α) : Bool :=
  s.tcp.active && !s.outboundShutdown && s.remainingOutboundCapacity > 0

def hasInbound (s : TCPSpongeSocket α) : Bool :=
  !s.tcp.inboundStream.bufferEmpty ||
    ((s.tcp.inboundStream.eof || s.tcp.inboundStream.error) && !s.inboundShutdown)

def table : RuleName → Rule (TCPSpongeSocket α) (Answer ω)
  | .rule1 =>
    { fd := fun s => adapter.fd s.datagramAdapter, direction := .pollIn, callback := callback1 adapter
      interest := fun s => s.tcp.active }
  | .rule2 =>
    { fd := threadData, direction := .pollIn, callback := callback2, interest := wantsOutbound, cancel := endOutbound }
  | .rule3 => { fd := threadData, direction := .pollOut, callback := callback3, interest := hasInbound }
  | .rule4 =>
    { fd := fun s => adapter.fd s.datagramAdapter, direction := .pollOut, callback := callback4 adapter
      interest := fun s => !s.tcp.segmentsOut.isEmpty }

def rules : List RuleName := addRule (addRule (addRule (addRule [] .rule1) .rule2) .rule3) .rule4

/-! ## The loops -/

/-- What one turn of `_tcp_loop` meets: what `poll` does, whether the owner has set `_abort`, what
time it is then and what the kernel answers to the `tick` of the adapter. -/
structure Turn (ω : Type) where
  poll : Poll (Answer ω)
  abort : Bool := false
  nextTime : Nat
  tick : ω

/-- One turn of `_tcp_loop`, and whether the loop goes on. -/
def turn (rules : List RuleName) (s : TCPSpongeSocket α) (t : Turn ω) :
    Except Thrown (Bool × List RuleName × TCPSpongeSocket α) :=
  match waitNextEvent (table adapter) rules s t.poll with
  | .error thrown => .error thrown
  | .ok (result, rules, s) =>
    if result = .exit ∨ t.abort then .ok (false, rules, s)
    else if s.tcp.active then
      let ms := sub64 t.nextTime s.baseTime
      match s.calls (.tick ms) with
      | .error thrown => .error thrown
      | .ok s =>
        match adapter.tick t.tick ms s.datagramAdapter with
        | .error thrown => .error thrown
        | .ok a => .ok (true, rules, { s with datagramAdapter := a, baseTime := t.nextTime })
    else .ok (true, rules, s)

/-- The loop that the thread is in: the one of `connect`, of `listen_and_accept` or of
`_tcp_main`, or none any more. -/
inductive Phase where
  | connecting
  | accepting
  | main
  | finished
  deriving Repr, DecidableEq

/-- The condition of the loop. -/
def Phase.condition : Phase → TCPSpongeSocket α → Bool
  | .connecting, s => s.tcp.state = .ofState .synSent
  | .accepting, s =>
    s.tcp.state = .ofState .listen ∨ s.tcp.state = .ofState .synRcvd ∨ s.tcp.state = .ofState .synSent
  | .main, _ => true
  | .finished, _ => false

def Phase.next : Phase → Phase
  | .connecting => .main
  | .accepting => .main
  | .main => .finished
  | .finished => .finished

structure Thread (α : Type) where
  phase : Phase
  rules : List RuleName
  socket : TCPSpongeSocket α

/-- The loop of the phase is left, and the next one starts at time `now`. -/
def Thread.leave (th : Thread α) (now : Nat) : Thread α :=
  { th with phase := th.phase.next, socket := { th.socket with baseTime := now } }

def Thread.step (th : Thread α) (t : Turn ω) : Except Thrown (Thread α) :=
  if th.phase.condition th.socket then
    match turn adapter th.rules th.socket t with
    | .error thrown => .error thrown
    | .ok (true, rules, s) => .ok { th with rules := rules, socket := s }
    | .ok (false, rules, s) => .ok ({ th with rules := rules, socket := s }.leave t.nextTime)
  else .ok (th.leave t.nextTime)

/-- `none` is an exception, which ends the thread. -/
def Thread.next (th : Thread α) (t : Turn ω) : Option (Thread α) := (th.step adapter t).toOption

/-- `_initialize_TCP` and the configuration of the adapter. -/
def initializeTCP (cfg : TCPConfig) (random : WrappingInt32) (ad : FdAdapterConfig) (a : α) : TCPSpongeSocket α :=
  { tcp := TCPConnection.new cfg random, datagramAdapter := adapter.setConfig ad a }

/-- `connect` up to its loop. -/
def connect (cfg : TCPConfig) (random : WrappingInt32) (ad : FdAdapterConfig) (a : α) (now : Nat) :
    Except Thrown (Thread α) :=
  let s := initializeTCP adapter cfg random ad a
  let tcp := s.tcp.connect
  let expectedState := TCPState.ofState .synSent
  if tcp.state ≠ expectedState then
    .error (.runtimeError ("After TCPConnection::connect(), state was " ++ tcp.state.name ++ " but expected " ++
      expectedState.name))
  else .ok { phase := .connecting, rules := rules, socket := { s with tcp := tcp, baseTime := now } }

/-- `listen_and_accept` up to its loop. -/
def listenAndAccept (cfg : TCPConfig) (random : WrappingInt32) (ad : FdAdapterConfig) (a : α) (now : Nat) : Thread α :=
  let s := initializeTCP adapter cfg random ad a
  { phase := .accepting, rules := rules
    socket := { s with datagramAdapter := adapter.setListening true s.datagramAdapter, baseTime := now } }

end

end TCPSpongeSocket

end Sponge
