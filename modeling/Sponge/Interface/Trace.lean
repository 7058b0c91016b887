import Sponge.Interface.Steps
import Sponge.Lib.Run

/-!
# Runs of the network interface

The history next to the interface: the ARP messages it accepted and the frames it
pushed, with the time that had passed by then, and the datagrams it was handed. The
time here is the sum of all ticks; the clock of the interface wraps. The log has the
newest event first.
-/

namespace Sponge

open Word64

inductive Event where
  | accepted (msg : ARPMessage) (time : Nat)
  | pushed (frame : EthernetFrame) (time : Nat)
  deriving DecidableEq

inductive Action where
  | send (dgram : InternetDatagram) (nextHop : UInt32) (past : PastTheEnd)
  | recv (frame : EthernetFrame)
  | tick (ms : Nat)
  deriving DecidableEq

structure Trace where
  s : NetworkInterface
  now : Nat := 0
  log : List Event := []
  handed : List (InternetDatagram × UInt32) := []
  deriving DecidableEq

namespace Trace

open NetworkInterface

def start (ethernetAddress : EthernetAddress) (ipAddress : UInt32) : Trace :=
  { s := { ethernetAddress := ethernetAddress, ipAddress := ipAddress } }

def pushAll (now : Nat) (log : List Event) (frames : List EthernetFrame) : List Event :=
  frames.foldl (fun log frame => .pushed frame now :: log) log

/-- The log with the message that a call accepted, before its frames. -/
def noted (t : Trace) (msg : Option ARPMessage) : List Event :=
  (msg.map fun msg => Event.accepted msg t.now).toList ++ t.log

/-- The log after a call that accepted `msg` and left the interface as `s`. -/
def logAfter (t : Trace) (msg : Option ARPMessage) (s : NetworkInterface) : List Event :=
  pushAll t.now (t.noted msg) (s.framesOut.drop t.s.framesOut.length)

def step (t : Trace) : Action → Option Trace
  | .send dgram nextHop past =>
    match t.s.sendDatagram dgram nextHop past with
    | none => none
    | some s => some { t with s := s, log := t.logAfter none s, handed := t.handed ++ [(dgram, nextHop)] }
  | .recv frame =>
    match t.s.recvFrame frame with
    | none => none
    | some (s, _) => some { t with s := s, log := t.logAfter (t.s.accepted frame) s }
  | .tick ms => some { t with s := t.s.tick ms, now := t.now + ms }

variable {t t' : Trace} {dgram : InternetDatagram} {hop : UInt32} {past : PastTheEnd} {frame : EthernetFrame}

theorem logAfter_eq {s : NetworkInterface} {frames : List EthernetFrame} (msg : Option ARPMessage)
    (h : s.framesOut = t.s.framesOut ++ frames) :
    t.logAfter msg s = pushAll t.now (t.noted msg) frames := by
  unfold logAfter
  rw [h, List.drop_left]

theorem step_send (h : t.step (.send dgram hop past) = some t') :
    ∃ s, Sends t.s dgram hop past s ∧
      t' = { t with s := s, log := t.logAfter none s, handed := t.handed ++ [(dgram, hop)] } := by
  simp only [step] at h
  split at h
  · cases h
  · rename_i s hs
    cases h
    exact ⟨s, sendDatagram_sends hs, rfl⟩

theorem step_recv (h : t.step (.recv frame) = some t') :
    ∃ s, Receives t.s frame s ∧ t' = { t with s := s, log := t.logAfter (t.s.accepted frame) s } := by
  simp only [step] at h
  split at h
  · cases h
  · rename_i s _ hs
    cases h
    exact ⟨s, recvFrame_receives hs, rfl⟩

/-! ## A host and its next hop, for runs -/

def hostAddress : EthernetAddress := ethernetAddress 2

def hostIp : UInt32 := 0x0a000001

def hopAddress : EthernetAddress := ethernetAddress 3

def hopIp : UInt32 := 0x0a000002

def hostStart : Trace := start hostAddress hostIp

/-- Neither read makes a mapping or a request look fresh. -/
def stalePast : PastTheEnd := { timeEthernet := 1, timeArp := 1 }

def emptyDatagram : InternetDatagram := { header := { len := 20 } }

def sendHop : Action := .send emptyDatagram hopIp stalePast

/-- The ARP message with which the next hop makes itself known. -/
def hopMessage (opcode : UInt16) : ARPMessage :=
  { opcode := opcode
    senderEthernetAddress := hopAddress
    senderIpAddress := hopIp
    targetEthernetAddress := hostAddress
    targetIpAddress := hostIp }

def recvHop (opcode : UInt16) : Action :=
  .recv (arpFrame hopAddress hostAddress ((hopMessage opcode).types ++ (hopMessage opcode).addresses))

end Trace

end Sponge
