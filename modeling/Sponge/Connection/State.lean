import Sponge.Connection.Model

/-!
# The state of a connection

`tcp_helpers/tcp_state.cc`. A `TCPState` is what can be seen of a connection, and
each official state has one. The summaries are texts in the source; no two of the
sender's and no two of the receiver's are the same.
-/

namespace Sponge

inductive TCPReceiverStateSummary where
  | error
  | listen
  | synRecv
  | finRecv
  deriving Repr, DecidableEq

inductive TCPSenderStateSummary where
  | error
  | closed
  | synSent
  | synAcked
  | finSent
  | finAcked
  deriving Repr, DecidableEq

structure TCPState where
  sender : TCPSenderStateSummary
  receiver : TCPReceiverStateSummary
  active : Bool := true
  lingerAfterStreamsFinish : Bool := true
  deriving Repr, DecidableEq

namespace TCPState

inductive State where
  | listen
  | synRcvd
  | synSent
  | established
  | closeWait
  | lastAck
  | finWait1
  | finWait2
  | closing
  | timeWait
  | closed
  | reset
  deriving Repr, DecidableEq

def ofState : State → TCPState
  | .listen => { receiver := .listen, sender := .closed }
  | .synRcvd => { receiver := .synRecv, sender := .synSent }
  | .synSent => { receiver := .listen, sender := .synSent }
  | .established => { receiver := .synRecv, sender := .synAcked }
  | .closeWait => { receiver := .finRecv, sender := .synAcked, lingerAfterStreamsFinish := false }
  | .lastAck => { receiver := .finRecv, sender := .finSent, lingerAfterStreamsFinish := false }
  | .closing => { receiver := .finRecv, sender := .finSent }
  | .finWait1 => { receiver := .synRecv, sender := .finSent }
  | .finWait2 => { receiver := .synRecv, sender := .finAcked }
  | .timeWait => { receiver := .finRecv, sender := .finAcked }
  | .reset => { receiver := .error, sender := .error, lingerAfterStreamsFinish := false, active := false }
  | .closed => { receiver := .finRecv, sender := .finAcked, lingerAfterStreamsFinish := false, active := false }

end TCPState

def TCPReceiver.stateSummary (receiver : TCPReceiver) : TCPReceiverStateSummary :=
  if receiver.streamOut.error then .error
  else if receiver.ackno.isNone then .listen
  else if receiver.streamOut.inputEnded then .finRecv
  else .synRecv

def TCPSender.stateSummary (sender : TCPSender) : TCPSenderStateSummary :=
  if sender.stream.error then .error
  else if sender.nextSeqnoAbsolute = 0 then .closed
  else if sender.nextSeqnoAbsolute = sender.bytesInFlight then .synSent
  else if !sender.stream.eof then .synAcked
  else if sender.nextSeqnoAbsolute < sender.stream.bytesWritten + 2 then .synAcked
  else if sender.bytesInFlight ≠ 0 then .finSent
  else .finAcked

namespace TCPState

/-- The constructor from the parts of a connection. -/
def ofParts (sender : TCPSender) (receiver : TCPReceiver) (active linger : Bool) : TCPState :=
  { sender := sender.stateSummary
    receiver := receiver.stateSummary
    active := active
    lingerAfterStreamsFinish := if active then linger else false }

end TCPState

namespace TCPConnection

def state (c : TCPConnection) : TCPState :=
  .ofParts c.sender c.receiver c.active c.lingerAfterStreamsFinish

end TCPConnection

/-! ## Texts -/

def TCPReceiverStateSummary.text : TCPReceiverStateSummary → String
  | .error => "error (connection was reset)"
  | .listen => "waiting for SYN: ackno is empty"
  | .synRecv => "SYN received (ackno exists), and input to stream hasn't ended"
  | .finRecv => "input to stream has ended"

def TCPSenderStateSummary.text : TCPSenderStateSummary → String
  | .error => "error (connection was reset)"
  | .closed => "waiting for stream to begin (no SYN sent)"
  | .synSent => "stream started but nothing acknowledged"
  | .synAcked => "stream ongoing"
  | .finSent => "stream finished (FIN sent) but not fully acknowledged"
  | .finAcked => "stream finished and fully acknowledged"

def TCPState.name (state : TCPState) : String :=
  "sender=`" ++ state.sender.text ++ "`, receiver=`" ++ state.receiver.text ++ "`, active=" ++
    (if state.active then "1" else "0") ++ ", linger_after_streams_finish=" ++
    (if state.lingerAfterStreamsFinish then "1" else "0")

end Sponge
