import Sponge.ByteStream
import Sponge.TCPSegment

/-!
# The sender

`libsponge/tcp_sender.cc` and the timer of `tcp_sender.hh`. `byte_sent` and
`byte_received` count bytes that really passed, so they are plain numbers; the
clock and the timeout wrap. The owner takes segments off `segments_out` to send
them; here the queue keeps them, so that it is also the record of what was sent.
-/

namespace Sponge

open Word64

structure Timer where
  active : Bool := false
  startTime : Nat := 0
  currentTime : Nat := 0
  rto : Nat
  deriving Repr, DecidableEq

namespace Timer

def updateTime (t : Timer) (timestamp : Nat) : Timer := { t with currentTime := timestamp }

def timeout (t : Timer) : Bool := t.active && decide (sub64 t.currentTime t.startTime ≥ t.rto)

def rtoDouble (t : Timer) : Timer := { t with rto := t.rto * 2 % 2 ^ 64 }

def start (t : Timer) (timestamp : Nat) : Timer :=
  { t with startTime := timestamp, currentTime := timestamp, active := true }

def rtoReset (t : Timer) (rto : Nat) : Timer := { t with rto := rto, active := false }

end Timer

structure TCPSender where
  isn : WrappingInt32
  segmentsOut : List TCPSegment := []
  initialRetransmissionTimeout : Nat
  stream : ByteStream
  consecutiveRetrans : Nat := 0
  unacked : List TCPSegment := []
  sendtimer : Timer
  time : Nat := 0
  windowSize : UInt16 := 1
  byteSent : Nat := 0
  byteReceived : Nat := 0
  eof : Bool := false
  deriving Repr, DecidableEq

namespace TCPSender

/-- The initial sequence number is the fixed one, or any when it is drawn at random. -/
def new (capacity : Nat) (retxTimeout : UInt16) (isn : WrappingInt32) : TCPSender :=
  { isn := isn
    initialRetransmissionTimeout := retxTimeout.toNat
    stream := ByteStream.new capacity
    sendtimer := { rto := retxTimeout.toNat } }

def bytesInFlight (s : TCPSender) : Nat := sub64 s.byteSent s.byteReceived

def consecutiveRetransmissions (s : TCPSender) : Nat := s.consecutiveRetrans

def nextSeqnoAbsolute (s : TCPSender) : Nat := s.byteSent

def nextSeqno (s : TCPSender) : WrappingInt32 := wrap s.byteSent s.isn

def finSent (s : TCPSender) : Bool := s.eof

def finAcked (s : TCPSender) : Bool := s.unacked.isEmpty && s.finSent

def send (s : TCPSender) (seg : TCPSegment) : TCPSender :=
  { s with
    segmentsOut := s.segmentsOut ++ [seg]
    unacked := s.unacked ++ [seg]
    byteSent := s.byteSent + seg.lengthInSequenceSpace
    sendtimer :=
      if !s.sendtimer.active then (s.sendtimer.rtoReset s.initialRetransmissionTimeout).start s.time
      else s.sendtimer }

/-- The local `window_size` of `fill_window`. -/
def window (s : TCPSender) : Nat := if s.windowSize > 0 then s.windowSize.toNat else 1

/-- How many bytes of the stream `fill_window` puts into a segment that takes up `sequenceSize`
numbers without them. -/
def payloadSize (s : TCPSender) (sequenceSize : Nat) : Nat :=
  let payload := sub64 (sub64 s.window s.bytesInFlight) sequenceSize
  let payload := if payload > s.stream.bufferSize then s.stream.bufferSize else payload
  if payload > TCPConfig.maxPayloadSize then TCPConfig.maxPayloadSize else payload

/-- The body of `fill_window` up to its call of itself. `none` is a return. -/
def fillStep (s : TCPSender) : Option TCPSender :=
  if s.eof then none
  else
    let seg : TCPSegment := { header := { syn := s.byteSent == 0 } }
    let sequenceSize := seg.lengthInSequenceSpace
    if add64 s.bytesInFlight sequenceSize > s.window ∨ s.bytesInFlight ≥ s.window then none
    else
      let payload := s.payloadSize sequenceSize
      if !s.stream.eof && sequenceSize + payload == 0 then none
      else
        let (data, stream) := s.stream.read payload
        let seg := { seg with header := { seg.header with seqno := s.nextSeqno }, payload := data }
        if s.window > add64 s.bytesInFlight seg.lengthInSequenceSpace then
          let seg := { seg with header := { seg.header with fin := stream.eof } }
          some ({ s with stream := stream, eof := stream.eof }.send seg)
        else some ({ s with stream := stream }.send seg)

/-- More segments than `fill_window` can send from here: each takes bytes from the stream, is
the first, or is the last. -/
def fillBound (s : TCPSender) : Nat :=
  s.stream.bufferSize + (if s.byteSent = 0 then 1 else 0) + (if s.eof then 0 else 1)

def fillLoop : Nat → TCPSender → TCPSender
  | 0, s => s
  | n + 1, s => match s.fillStep with
    | none => s
    | some s' => fillLoop n s'

def fillWindow (s : TCPSender) : TCPSender := fillLoop s.fillBound s

def popAcked (isn : WrappingInt32) (byteReceived absAckNo : Nat) : List TCPSegment → List TCPSegment
  | [] => []
  | seg :: rest =>
    let absSeqNo := unwrap seg.header.seqno isn byteReceived
    if add64 absSeqNo seg.lengthInSequenceSpace ≤ absAckNo then popAcked isn byteReceived absAckNo rest
    else seg :: rest

def acknowledge (s : TCPSender) (absAckNo : Nat) : TCPSender :=
  let s := { s with
    sendtimer := s.sendtimer.rtoReset s.initialRetransmissionTimeout
    consecutiveRetrans := 0
    byteReceived := absAckNo }
  let s := { s with unacked := popAcked s.isn s.byteReceived absAckNo s.unacked }
  if !s.unacked.isEmpty then { s with sendtimer := s.sendtimer.start s.time } else s

def ackReceived (s : TCPSender) (ackno : WrappingInt32) (windowSize : UInt16) : TCPSender × Bool :=
  let absAckNo := unwrap ackno s.isn s.byteReceived
  let s := { s with windowSize := windowSize }
  if absAckNo > s.byteSent then (s, false)
  else if absAckNo < s.byteReceived then (s, true)
  else if absAckNo = s.byteReceived then (s.fillWindow, true)
  else ((s.acknowledge absAckNo).fillWindow, true)

/-- `none` is `front()` of an empty queue. -/
def tick (s : TCPSender) (msSinceLastTick : Nat) : Option TCPSender :=
  let s := { s with time := add64 s.time msSinceLastTick }
  if s.sendtimer.active then
    let s := { s with sendtimer := s.sendtimer.updateTime s.time }
    if s.sendtimer.timeout then
      match s.unacked with
      | [] => none
      | front :: _ => some { s with
          segmentsOut := s.segmentsOut ++ [front]
          consecutiveRetrans := (s.consecutiveRetrans + 1) % 2 ^ 32
          sendtimer := s.sendtimer.rtoDouble.start s.time }
    else some s
  else some s

def sendEmptySegment (s : TCPSender) : TCPSender :=
  { s with segmentsOut := s.segmentsOut ++ [{ header := { seqno := s.nextSeqno } }] }

end TCPSender

end Sponge
