import Sponge.EventLoop.Failures
import Sponge.Socket.Ethernet
import Sponge.StreamCopy

/-!
# The program's own checks

`wait_next_event` throws when a callback has done nothing and would be called again at
once, and the second callback of a socket throws when the connection takes fewer bytes
than it has offered to take. Neither can happen, whatever the kernel does: not while a
terminal is copied, and not in the thread of a socket.
-/

namespace Sponge

open EventLoop

def busyWait : Thrown :=
  .runtimeError "EventLoop: busy wait detected: callback did not read/write fd and is still interested"

/-- What is thrown when the program finds an error of its own, and for a result of `poll` that is not
there. -/
def ownChecks : List Thrown :=
  [busyWait, .runtimeError "TCPConnection::write() accepted less than advertised length", .outOfRange "pollfds"]

theorem not_own_of_byKernel {thrown : Thrown} (h : ByKernel thrown) : thrown ∉ ownChecks := by
  have hnone : ∀ t ∈ ownChecks, ¬ ByKernel t := by
    decide
  exact fun hown => hnone thrown hown h

theorem add_one_ne (n : UInt32) : n + 1 ≠ n := by
  intro h
  simp at h

theorem add_two_ne (n : UInt32) : n + 1 + 1 ≠ n := by
  grind

/-! ## The terminal -/

namespace StreamCopy

variable {fd fd' : FDWrapper} {stream stream' : ByteStream} {thrown : Thrown} {answer : Answer} {s s' : Copy}

theorem pull_error {result : ReadResult} (h : pull fd stream result = .error thrown) : ByKernel thrown := by
  unfold pull at h
  split at h
  · rename_i hread
    cases h
    exact FDWrapper.read_error hread
  · cases h

theorem serves (i : RuleName) : (table i).Serves := by
  intro answer s s' h
  cases i with
  | rule1 =>
    obtain ⟨input, outbound, hpull, rfl⟩ := callback1_cases h
    obtain ⟨data, -, -, -, hcount, -⟩ := pull_cases hpull
    exact Or.inl (fun heq => add_one_ne _ (hcount.symm.trans heq))
  | rule2 =>
    obtain ⟨socket, outbound, count, -, rfl, hcount⟩ := callback2_cases h
    exact Or.inl hcount
  | rule3 =>
    obtain ⟨socket, inbound, hpull, rfl⟩ := callback3_cases h
    obtain ⟨data, -, -, -, hcount, -⟩ := pull_cases hpull
    exact Or.inl (fun heq => add_one_ne _ (hcount.symm.trans heq))
  | rule4 =>
    obtain ⟨output, inbound, eof, closed, hpush, rfl⟩ := callback4_cases h
    obtain ⟨n, -, rfl, -⟩ := push_cases hpush
    exact Or.inl (add_one_ne _)

theorem raises {i : RuleName} (h : (table i).Raises thrown) : ByKernel thrown := by
  rcases h with ⟨s, hcancel⟩ | ⟨answer, s, hcallback⟩
  · -- No `cancel` of a rule throws.
    cases i <;> cases hcancel
  cases i with
  | rule1 =>
    change callback1 answer s = .error thrown at hcallback
    unfold callback1 at hcallback
    split at hcallback
    · rename_i hpull
      cases hcallback
      exact pull_error hpull
    · cases hcallback
  | rule2 =>
    change callback2 answer s = .error thrown at hcallback
    unfold callback2 at hcallback
    split at hcallback
    · rename_i hpush
      cases hcallback
      exact FDWrapper.writeFrom_error hpush
    split_ifs at hcallback
    split at hcallback
    · rename_i hshutdown
      cases hcallback
      exact FDWrapper.shutdownWrite_error hshutdown
    · cases hcallback
  | rule3 =>
    change callback3 answer s = .error thrown at hcallback
    unfold callback3 at hcallback
    split at hcallback
    · rename_i hpull
      cases hcallback
      exact pull_error hpull
    · cases hcallback
  | rule4 =>
    change callback4 answer s = .error thrown at hcallback
    unfold callback4 at hcallback
    split at hcallback
    · rename_i hpush
      cases hcallback
      exact FDWrapper.writeFrom_error hpush
    split_ifs at hcallback
    split at hcallback
    · rename_i hclose
      cases hcallback
      exact FDWrapper.close_error hclose
    · cases hcallback

end StreamCopy

/-! ## The sockets -/

/-- A read of the adapter is a read of its descriptor, and what it throws is not one of our checks. -/
structure FdAdapter.Reports {α ω : Type} (adapter : FdAdapter α ω) : Prop where
  counts : ∀ {answer a a' out}, adapter.read answer a = .ok (a', out) →
    (adapter.fd a').readCount ≠ (adapter.fd a).readCount
  read : ∀ {answer a thrown}, adapter.read answer a = .error thrown → thrown ∉ ownChecks
  write : ∀ {answer seg a thrown}, adapter.write answer seg a = .error thrown → thrown ∉ ownChecks
  tick : ∀ {answer ms a thrown}, adapter.tick answer ms a = .error thrown → thrown ∉ ownChecks

namespace TCPSpongeSocket

variable {α ω : Type} [Inhabited ω] {adapter : FdAdapter α ω} {thrown : Thrown}

theorem serves (hadapter : adapter.Reports) (i : RuleName) : (table adapter i).Serves := by
  intro answer s s' h
  cases i with
  | rule1 =>
    obtain ⟨a, out, hread, hout⟩ := callback1_cases h
    have hcount := hadapter.counts hread
    rcases hout with ⟨-, rfl⟩ | ⟨seg, -, hcalls⟩
    · exact Or.inl hcount
    · obtain ⟨tcp, -, rfl⟩ := calls_cases hcalls
      exact Or.inl hcount
  | rule2 =>
    obtain ⟨threadData, data, hread, hs'⟩ := callback2_cases h
    have hcount : threadData.readCount ≠ s.threadData.readCount := by
      rw [(FDWrapper.read_cases hread).2.2]
      exact add_one_ne _
    rcases hs' with ⟨-, rfl⟩ | ⟨-, rfl⟩ <;> exact Or.inl hcount
  | rule3 =>
    change callback3 answer s = .ok s' at h
    unfold callback3 at h
    split at h
    · cases h
    rename_i threadData inbound hwrite
    obtain ⟨n, -, -, rfl⟩ := FDWrapper.writeFrom_cases hwrite
    simp only at h
    split_ifs at h
    · split at h
      · cases h
      · rename_i hshutdown
        cases h
        rw [FDWrapper.shutdownWrite_eq hshutdown]
        -- The write and the `shutdown` are counted one each.
        exact Or.inl (add_two_ne _)
    · cases h
      exact Or.inl (add_one_ne _)
  | rule4 =>
    obtain ⟨a, -, rfl⟩ := callback4_cases h
    -- Rule 4 may leave the descriptor alone: what ends its interest is the empty queue of segments.
    exact Or.inr rfl

theorem writeAll_error (hadapter : adapter.Reports) {answers : List ω} {segments : List TCPSegment} {a : α}
    (h : writeAll adapter answers segments a = .error thrown) : thrown ∉ ownChecks := by
  induction segments generalizing answers a with
  | nil => cases h
  | cons seg segments ih =>
    unfold writeAll at h
    split at h
    · rename_i hwrite
      cases h
      exact hadapter.write hwrite
    · split at h
      · rename_i hrest
        cases h
        exact ih hrest
      · cases h

theorem calls_error {s : TCPSpongeSocket α} {op : TCPConnection.Op} (h : s.calls op = .error thrown) :
    thrown ∉ ownChecks := by
  unfold calls at h
  split at h
  · cases h
    decide
  · cases h

omit [Inhabited ω] in
theorem callback2_error {answer : Answer ω} {s : TCPSpongeSocket α} (h : callback2 answer s = .error thrown) :
    thrown ∉ ownChecks := by
  unfold callback2 at h
  split at h
  · rename_i hread
    cases h
    exact not_own_of_byKernel (FDWrapper.read_error hread)
  · rename_i threadData data hread
    have hsize : (s.tcp.write data).2 = data.length :=
      congrArg Prod.snd (ByteStream.write_of_le (FDWrapper.read_cases hread).1)
    simp only [hsize, ne_eq, not_true, if_false, endOutbound] at h
    split_ifs at h

omit [Inhabited ω] in
theorem callback3_error {answer : Answer ω} {s : TCPSpongeSocket α} (h : callback3 answer s = .error thrown) :
    thrown ∉ ownChecks := by
  unfold callback3 at h
  split at h
  · rename_i hwrite
    cases h
    exact not_own_of_byKernel (FDWrapper.writeFrom_error hwrite)
  simp only at h
  split_ifs at h
  split at h
  · rename_i hshutdown
    cases h
    exact not_own_of_byKernel (FDWrapper.shutdownWrite_error hshutdown)
  · cases h

theorem raises (hadapter : adapter.Reports) {i : RuleName} (h : (table adapter i).Raises thrown) :
    thrown ∉ ownChecks := by
  rcases h with ⟨s, hcancel⟩ | ⟨answer, s, hcallback⟩
  · cases i <;> cases hcancel
  cases i with
  | rule1 =>
    change callback1 adapter answer s = .error thrown at hcallback
    unfold callback1 at hcallback
    split at hcallback
    · rename_i hread
      cases hcallback
      exact hadapter.read hread
    · cases hcallback
    · exact calls_error hcallback
  | rule2 => exact callback2_error hcallback
  | rule3 => exact callback3_error hcallback
  | rule4 =>
    change callback4 adapter answer s = .error thrown at hcallback
    unfold callback4 at hcallback
    split at hcallback
    · rename_i hwrite
      cases hcallback
      exact writeAll_error hadapter hwrite
    · cases hcallback

theorem step_error (hadapter : adapter.Reports) {th : Thread α} {t : Turn ω} (h : th.step adapter t = .error thrown) :
    thrown ∉ ownChecks := by
  unfold Thread.step at h
  split_ifs at h
  split at h
  · rename_i hturn
    cases h
    unfold turn at hturn
    split at hturn
    · rename_i hwait
      cases hturn
      -- The loop throws what the kernel or a rule throws, since every rule serves its descriptor.
      rcases waitNextEvent_error (fun i _ => serves hadapter i) hwait with hkernel | ⟨i, -, hraises⟩
      · exact not_own_of_byKernel hkernel
      · exact raises hadapter hraises
    split_ifs at hturn
    simp only at hturn
    split at hturn
    · rename_i hcalls
      cases hturn
      exact calls_error hcalls
    split at hturn
    · rename_i htick
      cases hturn
      exact hadapter.tick htick
    · cases hturn
  · cases h
  · cases h

end TCPSpongeSocket

theorem LossyFdAdapter.reports {α ω : Type} {inner : FdAdapter α ω} (h : inner.Reports) :
    (adapterOf inner).Reports where
  counts := by
    intro answer a a' out hread
    obtain ⟨b, ret, hinner, rfl, -⟩ := read_cases hread
    exact h.counts hinner
  read := by
    intro answer a thrown hread
    simp only [adapterOf, read] at hread
    split at hread
    · rename_i hinner
      cases hread
      exact h.read hinner
    · split_ifs at hread
  write := by
    intro answer seg a thrown hwrite
    simp only [adapterOf, write] at hwrite
    split_ifs at hwrite
    split at hwrite
    · rename_i hinner
      cases hwrite
      exact h.write hinner
    · cases hwrite
  tick := by
    intro answer ms a thrown htick
    simp only [adapterOf] at htick
    split at htick
    · rename_i hinner
      cases htick
      exact h.tick hinner
    · cases htick

theorem TCPOverUDPSocketAdapter.reports : TCPOverUDPSocketAdapter.adapter.Reports where
  counts := by
    intro answer a a' out hread
    obtain ⟨source, payload, fits, -, hsock, -⟩ := read_cases hread
    simp only [adapter, hsock]
    exact add_one_ne _
  read := by
    intro answer a thrown hread
    simp only [adapter, read] at hread
    split at hread
    · rename_i hrecv
      cases hread
      unfold UDPSocket.recv at hrecv
      split at hrecv
      · cases hrecv
        exact not_own_of_byKernel trivial
      · -- An oversized datagram is an exception of the socket, not one of the checks.
        split_ifs at hrecv
        cases hrecv
        decide
    · split_ifs at hread
  write := by
    intro answer seg a thrown hwrite
    simp only [adapter, write] at hwrite
    split at hwrite
    · cases hwrite
      decide
    split at hwrite
    · rename_i hsend
      cases hwrite
      unfold UDPSocket.sendto at hsend
      split at hsend
      · rename_i hcall
        cases hsend
        exact not_own_of_byKernel (FDWrapper.systemCall_error hcall)
      · split_ifs at hsend
        cases hsend
        decide
    · cases hwrite
  tick := by
    intro answer ms a thrown htick
    cases htick

theorem TunTapFD.read_error {tun : TunTapFD} {result : ReadResult} {thrown : Thrown}
    (h : tun.read result = .error thrown) : ByKernel thrown := by
  unfold TunTapFD.read at h
  split at h
  · rename_i hread
    cases h
    exact FDWrapper.read_error hread
  · cases h

theorem TunTapFD.write_error {tun : TunTapFD} {packet : BufferList} {answer : Option Nat} {thrown : Thrown}
    (h : tun.write packet answer = .error thrown) : ByKernel thrown := by
  cases answer with
  | none => cases h
  | some errno =>
    cases h
    exact trivial

theorem TCPOverIPv4OverTunFdAdapter.reports : TCPOverIPv4OverTunFdAdapter.adapter.Reports where
  counts := by
    intro answer a a' out hread
    obtain ⟨data, fits, -, -, hcount, -⟩ := read_cases hread
    simp only [adapter, hcount]
    exact add_one_ne _
  read := by
    intro answer a thrown hread
    simp only [adapter, read] at hread
    split at hread
    · rename_i herror
      cases hread
      exact not_own_of_byKernel (TunTapFD.read_error herror)
    split_ifs at hread
    split at hread
    · cases hread
      decide
    · cases hread
  write := by
    intro answer seg a thrown hwrite
    simp only [adapter, write] at hwrite
    split at hwrite
    · cases hwrite
      decide
    split at hwrite
    · cases hwrite
      decide
    split at hwrite
    · rename_i herror
      cases hwrite
      exact not_own_of_byKernel (TunTapFD.write_error herror)
    · cases hwrite
  tick := by
    intro answer ms a thrown htick
    cases htick

namespace TCPOverIPv4OverEthernetAdapter

variable {a a' : TCPOverIPv4OverEthernetAdapter} {writes : List (Option Nat)} {thrown : Thrown}

theorem readCount_sendFrames {frames : List EthernetFrame} {tap tap' : TapFD}
    (h : sendFrames frames writes tap = .ok tap') : tap'.fd.readCount = tap.fd.readCount := by
  induction frames generalizing writes tap with
  | nil =>
    cases h
    rfl
  | cons frame frames ih =>
    unfold sendFrames at h
    split at h
    · cases h
    · rename_i tap₁ hwrite
      rw [ih h]
      cases hanswer : writes.headD (some eagain) with
      | some errno =>
        rw [hanswer] at hwrite
        cases hwrite
      | none =>
        rw [hanswer] at hwrite
        cases hwrite
        rfl

theorem sendFrames_error {frames : List EthernetFrame} {tap : TapFD}
    (h : sendFrames frames writes tap = .error thrown) : ByKernel thrown := by
  induction frames generalizing writes tap with
  | nil => cases h
  | cons frame frames ih =>
    unfold sendFrames at h
    split at h
    · rename_i hwrite
      cases h
      exact TunTapFD.write_error hwrite
    · exact ih h

theorem sendPending_error (h : sendPending writes a = .error thrown) : ByKernel thrown := by
  unfold sendPending at h
  split at h
  · rename_i herror
    cases h
    exact sendFrames_error herror
  · cases h

theorem reports : adapter.Reports where
  counts := by
    intro answer a a' out hread
    obtain ⟨data, fits, tap, -, -, hcount, hcases⟩ := read_cases hread
    have htap : a'.tap.fd.readCount = tap.fd.readCount := by
      rcases hcases with ⟨-, rfl⟩ | ⟨interface, dgram, a₁, -, hsend, hcases⟩
      · rfl
      obtain ⟨tap₁, hframes, rfl⟩ := sendPending_cases hsend
      have htap₁ := readCount_sendFrames hframes
      rcases hcases with ⟨-, rfl⟩ | ⟨d, base, -, -, rfl⟩ <;> exact htap₁
    simp only [adapter, htap, hcount]
    exact add_one_ne _
  read := by
    intro answer a thrown hread
    simp only [adapter, read] at hread
    split at hread
    · rename_i herror
      cases hread
      exact not_own_of_byKernel (TunTapFD.read_error herror)
    split_ifs at hread
    split at hread
    · cases hread
      decide
    split at hread
    · rename_i herror
      cases hread
      exact not_own_of_byKernel (sendPending_error herror)
    split at hread
    · cases hread
    split at hread
    · cases hread
      decide
    · cases hread
  write := by
    intro answer seg a thrown hwrite
    simp only [adapter, write] at hwrite
    split at hwrite
    · cases hwrite
      decide
    split at hwrite
    · cases hwrite
      decide
    · exact not_own_of_byKernel (sendPending_error hwrite)
  tick := by
    intro answer ms a thrown htick
    exact not_own_of_byKernel (sendPending_error htick)

end TCPOverIPv4OverEthernetAdapter

/-- Whatever the kernel, the owner and the network do, no socket and no copy of a terminal ends by a
check of the program itself: no callback is ever called again without having done anything, the
connection takes all bytes that it has offered to take, and there is a result of `poll` for every
rule. -/
theorem own_checks_never_fail (thrown : Thrown) (hown : thrown ∈ ownChecks) :
    (∀ rules s poll, waitNextEvent StreamCopy.table rules s poll ≠ .error thrown) ∧
      (∀ th t, TCPSpongeSocket.Thread.step lossyUDP th t ≠ .error thrown) ∧
      (∀ th t, TCPSpongeSocket.Thread.step lossyTun th t ≠ .error thrown) ∧
      (∀ th t, TCPSpongeSocket.Thread.step TCPOverIPv4OverEthernetAdapter.adapter th t ≠ .error thrown) := by
  refine ⟨?_, ?_, ?_, ?_⟩
  · intro rules s poll h
    rcases waitNextEvent_error (fun i _ => StreamCopy.serves i) h with hkernel | ⟨i, -, hraises⟩
    · exact not_own_of_byKernel hkernel hown
    · exact not_own_of_byKernel (StreamCopy.raises hraises) hown
  · intro th t h
    exact TCPSpongeSocket.step_error (LossyFdAdapter.reports TCPOverUDPSocketAdapter.reports) h hown
  · intro th t h
    exact TCPSpongeSocket.step_error (LossyFdAdapter.reports TCPOverIPv4OverTunFdAdapter.reports) h hown
  · intro th t h
    exact TCPSpongeSocket.step_error TCPOverIPv4OverEthernetAdapter.reports h hown

def synAckPayload : Buffer := [7, 208, 3, 232, 0, 0, 0, 0, 0, 0, 0, 1, 80, 18, 0, 8, 164, 44, 0, 0]

theorem length_synAckPayload : synAckPayload.length < 2 ^ 31 := by decide

/-- The answer to the SYN is heard, two bytes are read from the owner, and three segments go out. -/
def busyTurn : TCPSpongeSocket.Turn (LossyAnswer UDPAnswer) :=
  readyTurn [{ pollIn := true }, { pollIn := true }, {}, { pollOut := true }]
    [{ adapter := [{ inner := { recv := .datagram ⟨2, 2000⟩ synAckPayload length_synAckPayload } }] },
      { read := TCPSpongeSocket.hiRead }, {},
      { adapter := [20, 20, 22].map fun n => { inner := { send := { value := n } } } }]

theorem own_checks_never_fail_busy :
    ∃ client th, udpClient = .ok client ∧ client.step lossyUDP busyTurn = .ok th ∧ th.socket.returned.length = 1 ∧
      th.socket.threadData.supplied = [104, 105] ∧ th.socket.handed.length = 3 ∧
      ∀ thrown ∈ ownChecks, client.step lossyUDP busyTurn ≠ .error thrown := by
  have hrun : ∀ client ∈ udpClient.toOption, ∃ th, client.next lossyUDP busyTurn = some th ∧
      th.socket.returned.length = 1 ∧ th.socket.threadData.supplied = [104, 105] ∧ th.socket.handed.length = 3 := by
    decide +kernel
  have hclient : udpClient = .ok _ := TCPSpongeSocket.connect_eq _ _ _ _ _ _
  obtain ⟨th, hth, hserved⟩ := hrun _ (by rw [hclient]; rfl)
  refine ⟨_, th, hclient, TCPSpongeSocket.Thread.next_cases hth, hserved.1, hserved.2.1, hserved.2.2, ?_⟩
  exact fun thrown hown => (own_checks_never_fail thrown hown).2.1 _ busyTurn

end Sponge
