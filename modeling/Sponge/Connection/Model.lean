import Sponge.Receiver.Model
import Sponge.Sender.Model

/-!
# The connection

`libsponge/tcp_connection.cc` and `tcp_helpers/tcp_config.hh`. The owner takes
segments off `segments_out` to send them; here the queue keeps them, so that it is
also the record of what was sent. The clock wraps. `segmentReceived` and `tick`
are `none` where the receiver or the sender throws.
-/

namespace Sponge

open Word64

structure TCPConfig where
  rtTimeout : UInt16 := 1000
  recvCapacity : Nat := 64000
  sendCapacity : Nat := 64000
  fixedIsn : Option WrappingInt32 := none
  deriving Repr, DecidableEq

namespace TCPConfig

def maxRetxAttempts : Nat := 8

end TCPConfig

structure TCPConnection where
  cfg : TCPConfig
  receiver : TCPReceiver
  sender : TCPSender
  segmentsOut : List TCPSegment := []
  lingerAfterStreamsFinish : Bool := true
  rst : Bool := false
  time : Nat := 0
  lastSegmentTime : Nat := 0
  deriving Repr, DecidableEq

namespace TCPConnection

/-- `random` is what the random device gives, used when no initial number is fixed. -/
def new (cfg : TCPConfig) (random : WrappingInt32) : TCPConnection :=
  { cfg := cfg
    receiver := TCPReceiver.new cfg.recvCapacity
    sender := TCPSender.new cfg.sendCapacity cfg.rtTimeout (cfg.fixedIsn.getD random) }

def inboundStream (c : TCPConnection) : ByteStream := c.receiver.streamOut

def timeSinceLastSegmentReceived (c : TCPConnection) : Nat := sub64 c.time c.lastSegmentTime

/-! ## Sending -/

def receiverInfo (c : TCPConnection) (seg : TCPSegment) : TCPSegment :=
  match c.receiver.ackno with
  | none => seg
  | some ackno =>
    { seg with header := { seg.header with
        ack := true, ackno := ackno, win := UInt16.ofNat c.receiver.windowSize } }

/-- Nothing in the loop changes the receiver, so all of the queue is stamped alike. -/
def segmentOut (c : TCPConnection) : TCPConnection :=
  { c with
    segmentsOut := c.segmentsOut ++ c.sender.segmentsOut.map c.receiverInfo
    sender := { c.sender with segmentsOut := [] } }

/-- The sender when a RST is about to go out: something is in the queue. -/
def rstSender (s : TCPSender) : TCPSender := if s.segmentsOut.isEmpty then s.sendEmptySegment else s

/-- `none` is `front()` of an empty queue. -/
def rstSegment (c : TCPConnection) : Option TCPConnection :=
  let sender := rstSender c.sender
  match sender.segmentsOut with
  | [] => none
  | front :: rest =>
    let segment := c.receiverInfo front
    let segment := { segment with header := { segment.header with rst := true } }
    some { c with
      segmentsOut := c.segmentsOut ++ [segment]
      sender := { sender with segmentsOut := rest } }

/-- What a RST does to this side, received or sent. -/
def abort (c : TCPConnection) : TCPConnection :=
  { c with
    rst := true
    receiver := { c.receiver with reassembler := { c.receiver.reassembler with
      output := c.receiver.reassembler.output.setError } }
    sender := { c.sender with stream := c.sender.stream.setError } }

/-! ## The calls -/

def fillAndSend (c : TCPConnection) : TCPConnection :=
  { c with sender := c.sender.fillWindow }.segmentOut

def connect (c : TCPConnection) : TCPConnection := c.fillAndSend

def write (c : TCPConnection) (data : List UInt8) : TCPConnection × Nat :=
  let (stream, size) := c.sender.stream.write data
  ({ c with sender := { c.sender with stream := stream } }.fillAndSend, size)

def endInputStream (c : TCPConnection) : TCPConnection :=
  { c with sender := { c.sender with stream := c.sender.stream.endInput } }.fillAndSend

/-- The side whose inbound stream ends first does not linger. -/
def noteEnd (c : TCPConnection) : TCPConnection :=
  if c.inboundStream.inputEnded && !c.sender.finSent then { c with lingerAfterStreamsFinish := false } else c

/-- What the sender makes of a segment: the new sender and `ack_no_check`. -/
def senderReceived (s : TCPSender) (header : TCPHeader) : TCPSender × Bool :=
  if header.ack then s.ackReceived header.ackno header.win else (s.fillWindow, true)

/-- An empty segment when nothing else carries the acknowledgment. -/
def answer (c : TCPConnection) : TCPConnection :=
  if c.sender.segmentsOut.isEmpty && c.receiver.ackno.isSome then
    { c with sender := c.sender.sendEmptySegment }
  else c

/-- The rest of `segment_received` when the segment is neither a RST nor dropped. -/
def process (c : TCPConnection) (seg : TCPSegment) : Option TCPConnection :=
  let c := c.noteEnd
  let (sender, ackNoCheck) := senderReceived c.sender seg.header
  match c.receiver.segmentReceived seg with
  | none => none
  | some (receiver, payloadCheck) =>
    let c := { c with sender := sender, receiver := receiver }
    if seg.lengthInSequenceSpace = 0 ∧ payloadCheck = true ∧ ackNoCheck = true then some c
    else some c.answer.segmentOut

def segmentReceived (c : TCPConnection) (seg : TCPSegment) : Option TCPConnection :=
  let c := { c with lastSegmentTime := c.time }
  if seg.header.rst then some c.abort
  else if c.receiver.ackno.isNone ∧ seg.lengthInSequenceSpace = 0 then some c
  else c.process seg

def tick (c : TCPConnection) (msSinceLastTick : Nat) : Option TCPConnection :=
  match c.sender.tick msSinceLastTick with
  | none => none
  | some sender =>
    let c := { c with sender := sender, time := add64 c.time msSinceLastTick }
    if c.sender.consecutiveRetransmissions > TCPConfig.maxRetxAttempts then
      match c.abort.rstSegment with
      | none => none
      | some c => some c.segmentOut
    else some c.segmentOut

def active (c : TCPConnection) : Bool :=
  if c.rst then false
  else if !c.sender.finSent || !c.sender.finAcked || !c.inboundStream.inputEnded then true
  else if c.lingerAfterStreamsFinish then
    if c.timeSinceLastSegmentReceived ≥ 10 * c.cfg.rtTimeout.toNat then false else true
  else false

/-! ## Runs -/

/-- A call of the owner. `read` is the reader's, on the inbound stream. -/
inductive Op where
  | connect
  | write (data : List UInt8)
  | endInputStream
  | segmentReceived (seg : TCPSegment)
  | tick (msSinceLastTick : Nat)
  | read (len : Nat)
  deriving Repr, DecidableEq

def step (c : TCPConnection) : Op → Option TCPConnection
  | .connect => some c.connect
  | .write data => some (c.write data).1
  | .endInputStream => some c.endInputStream
  | .segmentReceived seg => c.segmentReceived seg
  | .tick ms => c.tick ms
  | .read len => some { c with receiver := c.receiver.readOut len }

end TCPConnection

end Sponge
