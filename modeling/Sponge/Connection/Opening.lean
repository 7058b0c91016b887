import Sponge.Connection.State

/-!
# Opening a connection

The first thing that a connection sends is its SYN alone, whatever its configuration.
-/

namespace Sponge

open Word64

namespace TCPSender

variable (capacity : Nat) (retxTimeout : UInt16) (isn : WrappingInt32)

/-- The SYN of a stream to which nothing was written yet. -/
def syn (isn : WrappingInt32) : TCPSegment := { header := { seqno := isn, syn := true } }

theorem fillStep_new : (new capacity retxTimeout isn).fillStep = some ((new capacity retxTimeout isn).send (syn isn)) := by
  simp [fillStep, syn, new, ByteStream.new, ByteStream.bufferSize, ByteStream.eof, ByteStream.bufferEmpty,
    ByteStream.read, ByteStream.peekOutput, ByteStream.popOutput, window, bytesInFlight, sub64, add64, nextSeqno,
    payloadSize, TCPSegment.lengthInSequenceSpace]

theorem fillStep_send_new : ((new capacity retxTimeout isn).send (syn isn)).fillStep = none := by
  simp [fillStep, send, syn, new, window, bytesInFlight, sub64, add64, TCPSegment.lengthInSequenceSpace]

theorem fillWindow_new : (new capacity retxTimeout isn).fillWindow = (new capacity retxTimeout isn).send (syn isn) := by
  have hbound : (new capacity retxTimeout isn).fillBound = 2 := by
    simp [fillBound, new, ByteStream.new, ByteStream.bufferSize]
  rw [fillWindow, hbound, fillLoop, fillStep_new]
  simp only
  rw [fillLoop, fillStep_send_new]

end TCPSender

namespace TCPConnection

theorem state_connect_new (cfg : TCPConfig) (random : WrappingInt32) :
    (new cfg random).connect.state = .ofState .synSent := by
  unfold connect fillAndSend new
  simp only [TCPSender.fillWindow_new]
  simp [state, TCPState.ofParts, TCPState.ofState, TCPReceiver.stateSummary, TCPSender.stateSummary, active,
    segmentOut, inboundStream, TCPSender.send, TCPSender.syn, TCPSender.new, TCPSender.nextSeqnoAbsolute,
    TCPSender.bytesInFlight, TCPSender.finSent, sub64, TCPSegment.lengthInSequenceSpace, TCPReceiver.new,
    TCPReceiver.streamOut, TCPReceiver.ackno, StreamReassembler.new, ByteStream.new]

end TCPConnection

end Sponge
