import Sponge.Lib.Word64
import Sponge.Net.ARP

/-!
# The network interface

`libsponge/network_interface.cc`. `send_datagram` reads through the iterator of a
failed search before it compares it with `end()`: what such a read yields is an
argument of the call. The frames queue is only pushed to here, so it is also the
history of all frames; its owner pops it. A call is `none` where the source throws.
-/

namespace Sponge

open Word64

structure ARP where
  arpAddr : UInt32
  timeArp : Nat
  deriving DecidableEq

structure Ethernet where
  ethernetAddress : EthernetAddress
  timeEthernet : Nat
  deriving DecidableEq

/-- What the reads through `end()` of the map and of the list of requests yield. -/
structure PastTheEnd where
  timeEthernet : Nat
  timeArp : Nat
  deriving DecidableEq

structure NetworkInterface where
  ethernetAddress : EthernetAddress
  ipAddress : UInt32
  framesOut : List EthernetFrame := []
  unsent : List (InternetDatagram × UInt32) := []
  arpReq : List ARP := []
  /-- A new mapping hides an older one with the same key. -/
  ipEthernetMap : List (UInt32 × Ethernet) := []
  time : Nat := 0
  deriving DecidableEq

namespace NetworkInterface

def push (n : NetworkInterface) (frame : EthernetFrame) : NetworkInterface :=
  { n with framesOut := n.framesOut ++ [frame] }

def ipv4Frame (src dst : EthernetAddress) (payload : BufferList) : EthernetFrame :=
  { header := { dst := dst, src := src, type := EthernetHeader.typeIPv4 }, payload := payload }

def arpFrame (src dst : EthernetAddress) (payload : Buffer) : EthernetFrame :=
  { header := { dst := dst, src := src, type := EthernetHeader.typeARP }, payload := [payload] }

/-- The mapping that `send_datagram` uses, unless it cannot be found or has expired. -/
def mapping (n : NetworkInterface) (nextHopIp : UInt32) (past : PastTheEnd) : Option Ethernet :=
  let iter := n.ipEthernetMap.lookup nextHopIp
  let timeEthernet := (iter.map (·.timeEthernet)).getD past.timeEthernet
  if 30000 < sub64 n.time timeEthernet ∨ iter = none then none else iter

def requestMessage (n : NetworkInterface) (nextHopIp : UInt32) : ARPMessage :=
  { opcode := ARPMessage.opcodeRequest
    targetIpAddress := nextHopIp
    senderIpAddress := n.ipAddress
    senderEthernetAddress := n.ethernetAddress }

def sendRequest (n : NetworkInterface) (nextHopIp : UInt32) : Option NetworkInterface := do
  let payload ← (n.requestMessage nextHopIp).serialize
  let n := n.push (arpFrame n.ethernetAddress ethernetBroadcast payload)
  return { n with arpReq := n.arpReq ++ [{ arpAddr := nextHopIp, timeArp := n.time }] }

def sendDatagram (n : NetworkInterface) (dgram : InternetDatagram) (nextHopIp : UInt32) (past : PastTheEnd) :
    Option NetworkInterface :=
  match n.mapping nextHopIp past with
  | none =>
    let n : NetworkInterface := { n with unsent := n.unsent ++ [(dgram, nextHopIp)] }
    -- The loop stops at `end()` whatever address it reads there.
    let arpIter := n.arpReq.find? (·.arpAddr = nextHopIp)
    let timeArp := (arpIter.map (·.timeArp)).getD past.timeArp
    if sub64 n.time timeArp ≤ 5000 then
      if arpIter.isSome then some n
      -- The frame goes out with nothing set but its source.
      else some (n.push { header := { src := n.ethernetAddress } })
    else n.sendRequest nextHopIp
  | some ethernet => do
    let payload ← dgram.serialize
    return n.push (ipv4Frame n.ethernetAddress ethernet.ethernetAddress payload)

def learn (n : NetworkInterface) (msg : ARPMessage) : NetworkInterface :=
  let ethernet := { ethernetAddress := msg.senderEthernetAddress, timeEthernet := n.time }
  { n with ipEthernetMap := (msg.senderIpAddress, ethernet) :: n.ipEthernetMap }

def replyMessage (n : NetworkInterface) (msg : ARPMessage) : ARPMessage :=
  { opcode := ARPMessage.opcodeReply
    targetIpAddress := msg.senderIpAddress
    targetEthernetAddress := msg.senderEthernetAddress
    senderIpAddress := n.ipAddress
    senderEthernetAddress := n.ethernetAddress }

def sendReply (n : NetworkInterface) (header : EthernetHeader) (msg : ARPMessage) : Option NetworkInterface := do
  let payload ← (n.replyMessage msg).serialize
  return n.push (arpFrame n.ethernetAddress header.src payload)

/-- The loop over `unsent` at a reply: the frames it pushes and the entries it leaves. -/
def flushUnsent (src : EthernetAddress) (msg : ARPMessage) :
    List (InternetDatagram × UInt32) → Option (List EthernetFrame × List (InternetDatagram × UInt32))
  | [] => some ([], [])
  | entry :: rest =>
    if entry.2 = msg.senderIpAddress then do
      let payload ← entry.1.serialize
      let (frames, kept) ← flushUnsent src msg rest
      return (ipv4Frame src msg.senderEthernetAddress payload :: frames, kept)
    else do
      let (frames, kept) ← flushUnsent src msg rest
      return (frames, entry :: kept)

def resolve (n : NetworkInterface) (msg : ARPMessage) : Option NetworkInterface := do
  let (frames, kept) ← flushUnsent n.ethernetAddress msg n.unsent
  return { n with
    framesOut := n.framesOut ++ frames
    unsent := kept
    arpReq := n.arpReq.filter (·.arpAddr ≠ msg.senderIpAddress) }

def recvARP (n : NetworkInterface) (header : EthernetHeader) (msg : ARPMessage) : Option NetworkInterface := do
  let n := n.learn msg
  let n ← if msg.opcode = ARPMessage.opcodeRequest ∧ msg.targetIpAddress = n.ipAddress then n.sendReply header msg
    else some n
  if msg.opcode = ARPMessage.opcodeReply then n.resolve msg else return n

def recvFrame (n : NetworkInterface) (frame : EthernetFrame) : Option (NetworkInterface × Option InternetDatagram) :=
  if frame.header.dst ≠ ethernetBroadcast ∧ frame.header.dst ≠ n.ethernetAddress then some (n, none)
  else if frame.header.type = EthernetHeader.typeIPv4 then do
    let buffer ← frame.payload.toBuffer
    let (result, dgram) := IPv4Datagram.parse {} buffer
    return (n, if result = .noError then some dgram else none)
  else if frame.header.type = EthernetHeader.typeARP then do
    let buffer ← frame.payload.toBuffer
    let (result, msg) := ARPMessage.parse {} buffer
    if result ≠ .noError then return (n, none)
    else return (← n.recvARP frame.header msg, none)
  else some (n, none)

def tick (n : NetworkInterface) (msSinceLastTick : Nat) : NetworkInterface :=
  { n with time := add64 n.time msSinceLastTick }

end NetworkInterface

end Sponge
