import Sponge.Lib.Word64
import Sponge.Lib.Slice
import Sponge.Lib.Run
import Sponge.ByteStream
import Sponge.WrappingIntegers
import Sponge.Lib.Spans
import Sponge.Reassembler.Model
import Sponge.Reassembler.Blocks
import Sponge.Reassembler.Push
import Sponge.Reassembler.Window
import Sponge.Reassembler.Prefix
import Sponge.Reassembler.Throws
import Sponge.Reassembler.Refine
import Sponge.Reassembler.Eof
import Sponge.Reassembler.MissedEnd
import Sponge.Reassembler.Capacity
import Sponge.TCPSegment
import Sponge.Receiver.Model
import Sponge.Receiver.Ackno
import Sponge.Lib.Offsets
import Sponge.Sender.Model
import Sponge.Sender.Steps
import Sponge.Sender.Queue
import Sponge.Sender.Emitted
import Sponge.Sender.RightEdge
import Sponge.System.Model
import Sponge.System.Delivery
import Sponge.System.Acked
import Sponge.Reassembler.Frame
import Sponge.Receiver.Window
import Sponge.Sender.Idle
import Sponge.Sender.Fill
import Sponge.Sender.Timer
import Sponge.Connection.Model
import Sponge.Connection.Steps
import Sponge.Connection.Linger
import Sponge.Connection.Flush
import Sponge.Connection.Dead
import Sponge.Connection.State
import Sponge.Sender.FinState
import Sponge.Connection.Listen
import Sponge.Connection.Advertise
import Sponge.Stream.History
import Sponge.Stream.Ended
import Sponge.Lib.Loop
import Sponge.Lib.OnesComplement
import Sponge.Lib.BigEndian
import Sponge.Net.Parser
import Sponge.Net.Checksum
import Sponge.FileDescriptor
import Sponge.Net.IPv4
import Sponge.Net.IPv4Accept
import Sponge.Net.TCP
import Sponge.Net.RoundTrip
import Sponge.Net.Corruption
import Sponge.Adapter
import Sponge.Net.ARP
import Sponge.Net.Ethernet
import Sponge.Interface.Model
import Sponge.Interface.Steps
import Sponge.Interface.Trace
import Sponge.Interface.Reads
import Sponge.Interface.Requests
import Sponge.Interface.Datagrams
import Sponge.Interface.Order
import Sponge.Router.Model
import Sponge.Router.TTL
import Sponge.Router.Longest
import Sponge.Router.Route
import Sponge.Connection.Moves
import Sponge.Connection.Plain
import Sponge.Connection.Opening
import Sponge.Duplex.Model
import Sponge.Duplex.Outbound
import Sponge.Duplex.Delivery
import Sponge.Duplex.Close
import Sponge.Descriptor
import Sponge.EventLoop.Model
import Sponge.EventLoop.Moves
import Sponge.EventLoop.Failures
import Sponge.StreamCopy
import Sponge.Socket.Model
import Sponge.Socket.Adapters
import Sponge.Socket.Refine
import Sponge.Socket.Link
import Sponge.Socket.EndToEnd
import Sponge.Socket.IPv4
import Sponge.Socket.Tun
import Sponge.Socket.Ethernet
import Sponge.Socket.Checks
import Sponge.Connection.GiveUp
