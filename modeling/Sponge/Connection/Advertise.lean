import Sponge.Connection.Steps

/-!
# What a segment says about the receiver

`_receiver_info` writes the acknowledgment and the window into every segment that
goes out. The window is cut to 16 bits where the largest 16-bit number was meant,
so a window of more than 65535 bytes is advertised by its low bits.
-/

namespace Sponge

open Run Word64

namespace StreamReassembler

theorem pushSubstring_first {capacity : Nat} (b : UInt8) (hpos : 1 < capacity) (hlt : capacity < 2 ^ 64) :
    (new capacity).pushSubstring [b] 0 false = some { new capacity with
      firstindex := 1, output := ((ByteStream.new capacity).write [b]).1 } := by
  let stored : StreamReassembler :=
    { new capacity with storelist := [⟨0, 0, [b]⟩], privateUnassembledBytes := 1 }
  have hstored : (new capacity).pushSubstring [b] 0 false = some (writeFront (trimBack stored)) := by
    have hone : add64 0 1 = 1 := by decide
    have hlast : sub64 1 1 = 0 := by decide
    simp [pushSubstring, insertLoop, trimFront, new, stored, hone, hlast]
  -- A window of two or more has room for the byte, so that the trim of the back does not apply.
  have hlimit : ¬ add64 0 1 ≥ add64 stored.firstindex stored.capacity := by
    change ¬ (0 + 1) % 2 ^ 64 ≥ (0 + capacity) % 2 ^ 64
    omega
  have hback : trimBack stored = stored := if_neg hlimit
  have hroom : (new capacity).output.remainingCapacity = capacity := sub64_eq (Nat.zero_le _) hlt
  have hshort : ¬ (new capacity).output.remainingCapacity < [b].length := by
    rw [hroom, List.length_singleton]
    omega
  have hfirst : 0 = (new capacity).firstindex := rfl
  have hzero : sub64 1 [b].length = 0 := by
    rw [List.length_singleton]
    decide
  have hone : add64 0 1 = 1 := by decide
  -- The block is empty after the write, and the end is not known.
  have hwrite : writeFront stored = { new capacity with
      firstindex := 1, output := ((ByteStream.new capacity).write [b]).1 } := by
    unfold writeFront
    simp only [stored, if_pos hfirst, if_neg hshort, hzero, hone]
    exact if_neg (by simp [new])
  rw [hstored, hback, hwrite]

end StreamReassembler

namespace TCPConnection

variable {c c' c₀ : TCPConnection} {r r' : TCPReceiver} {seg : TCPSegment} {op : Op} {capacity : Nat}

/-- The fields that are filled in from the receiver, once it knows the peer's initial number. -/
def StampedFrom (receiver : TCPReceiver) (out : TCPSegment) : Prop :=
  ∀ ackno, receiver.ackno = some ackno →
    out.header.ack = true ∧ out.header.ackno = ackno ∧ out.header.win = UInt16.ofNat receiver.windowSize

/-- All that a call adds to the outgoing segments is stamped from the receiver as it is then. -/
def Adds (c c' : TCPConnection) : Prop :=
  ∃ added, c'.segmentsOut = c.segmentsOut ++ added ∧ ∀ out ∈ added, StampedFrom c'.receiver out

theorem stampedFrom_receiverInfo (c : TCPConnection) (seg : TCPSegment) :
    StampedFrom c.receiver (c.receiverInfo seg) := by
  intro ackno hackno
  unfold receiverInfo
  rw [hackno]
  exact ⟨rfl, rfl, rfl⟩

theorem adds_nothing (h : c'.segmentsOut = c.segmentsOut) : Adds c c' :=
  ⟨[], by rw [h, List.append_nil], nofun⟩

theorem adds_segmentOut (h : c'.segmentsOut = c.segmentsOut) : Adds c c'.segmentOut := by
  refine ⟨c'.sender.segmentsOut.map c'.receiverInfo, ?_, ?_⟩
  · rw [← h]
    rfl
  · intro out hout
    obtain ⟨seg, -, rfl⟩ := List.mem_map.mp hout
    exact stampedFrom_receiverInfo c' seg

theorem adds_rst (hsame : c.segmentsOut = c₀.segmentsOut) (h : c.rstSegment = some c') : Adds c₀ c'.segmentOut := by
  obtain ⟨front, rest, -, rfl⟩ := rstSegment_cases h
  unfold Adds
  rw [← hsame]
  refine ⟨_, List.append_assoc _ _ _, ?_⟩
  intro out hout
  rcases List.mem_append.mp hout with hout | hout
  · -- The RST goes first, with the fields that the other segments get as well.
    rw [List.mem_singleton.mp hout]
    exact stampedFrom_receiverInfo c front
  · obtain ⟨seg, -, rfl⟩ := List.mem_map.mp hout
    exact stampedFrom_receiverInfo _ seg

theorem adds_step (h : c.step op = some c') : Adds c c' := by
  cases op with
  | connect | write | endInputStream =>
    cases h
    exact adds_segmentOut rfl
  | segmentReceived seg =>
    rcases segmentReceived_cases h with ⟨-, rfl⟩ | ⟨-, -, rfl⟩ | ⟨-, -, hproc⟩
    · exact adds_nothing rfl
    · exact adds_nothing rfl
    · obtain ⟨receiver, inside, -, ⟨-, -, -, rfl⟩ | ⟨-, rfl⟩⟩ := process_cases hproc
      · exact adds_nothing rfl
      · exact adds_segmentOut rfl
  | tick ms =>
    obtain ⟨sender, -, ⟨-, rfl⟩ | ⟨-, c₁, hrst, rfl⟩⟩ := tick_cases h
    · exact adds_segmentOut rfl
    · exact adds_rst (by rfl) hrst
  | read len =>
    cases h
    exact adds_nothing rfl

/-! ## The window -/

/-- The inbound stream is in order and has the given capacity. -/
structure StreamWithin (capacity : Nat) (r : TCPReceiver) : Prop where
  inv : r.streamOut.Inv
  max : r.streamOut.max = capacity

theorem streamWithin_new (capacity : Nat) : StreamWithin capacity (TCPReceiver.new capacity) :=
  ⟨ByteStream.inv_new capacity, rfl⟩

theorem StreamWithin.windowSize_le (h : StreamWithin capacity r) (hcap : capacity < 2 ^ 64) : r.windowSize ≤ capacity := by
  have hmax := h.max
  unfold TCPReceiver.windowSize
  rw [ByteStream.remainingCapacity_eq h.inv.fits (by omega)]
  omega

theorem stable_streamWithin (hcap : capacity < 2 ^ 64) :
    StreamReassembler.Stable fun ra => ra.output.Inv ∧ ra.output.max = capacity where
  store := fun _ _ _ _ hra => hra
  ends := fun _ hra => ⟨hra.1.endInput, hra.2⟩
  writes := fun _ d _ _ _ _ hra => ⟨hra.1.write (by omega) d, hra.2⟩

theorem StreamWithin.segmentReceived {inside : Bool} (h : StreamWithin capacity r) (hcap : capacity < 2 ^ 64)
    (hrec : r.segmentReceived seg = some (r', inside)) : StreamWithin capacity r' := by
  rcases TCPReceiver.segmentReceived_cases hrec with ⟨-, -, rfl⟩ | ⟨-, ra, hpush, rfl⟩
  · exact h
  · obtain ⟨hinv, hmax⟩ := (stable_streamWithin hcap).pushSubstring ⟨h.inv, h.max⟩ hpush
    exact ⟨hinv, hmax⟩

theorem StreamWithin.readOut (h : StreamWithin capacity r) (len : Nat) : StreamWithin capacity (r.readOut len) := by
  refine ⟨?_, ?_⟩
  · rw [streamOut_readOut]
    exact h.inv.popOutput len
  · rw [streamOut_readOut, ByteStream.popOutput_eq]
    exact h.max

theorem receiverKeeps_streamWithin (hcap : capacity < 2 ^ 64) : ReceiverKeeps (StreamWithin capacity) where
  segmentReceived := fun _ _ _ _ h hrec => h.segmentReceived hcap hrec
  readOut := fun _ len h => h.readOut len
  setError := fun _ h => ⟨⟨h.inv.fits, h.inv.counted⟩, h.max⟩

/-! ## Windows of more than 16 bits -/

variable {cfg : TCPConfig} {payload : List UInt8}

/-- The peer's SYN, alone or with data. -/
def peerSyn (payload : List UInt8) : TCPSegment := { header := { syn := true }, payload := payload }

theorem answered_ne_nil {receiver : TCPReceiver} (hset : receiver.isnset = true) (s : TCPSender) :
    (answered receiver s).segmentsOut ≠ [] := by
  unfold answered
  split_ifs with h
  · simp [TCPSender.sendEmptySegment]
  · simpa [hset] using h

theorem segmentReceived_syn {ra : StreamReassembler} (seg : TCPSegment) (hsyn : seg.header.syn = true)
    (hfin : seg.header.fin = false)
    (hpush : (StreamReassembler.new capacity).pushSubstring seg.payload 0 false = some ra) :
    (TCPReceiver.new capacity).segmentReceived seg =
      some ({ TCPReceiver.new capacity with reassembler := ra, isn := seg.header.seqno, isnset := true }, true) := by
  unfold TCPReceiver.segmentReceived TCPReceiver.streamIndex TCPReceiver.new
  simp [hsyn, hfin, hpush]

theorem peerSyn_answered {ra : StreamReassembler} (random : WrappingInt32)
    (hpush : (StreamReassembler.new cfg.recvCapacity).pushSubstring payload 0 false = some ra) :
    ∃ c, (new cfg random).segmentReceived (peerSyn payload) = some c ∧ c.receiver.isnset = true ∧
      c.receiver.reassembler = ra ∧ c.segmentsOut ≠ [] := by
  have hlen : (peerSyn payload).lengthInSequenceSpace ≠ 0 := by simp [peerSyn, TCPSegment.lengthInSequenceSpace]
  have hrec := segmentReceived_syn (peerSyn payload) rfl rfl hpush
  have hprocess : ∃ c, ({ new cfg random with lastSegmentTime := 0 } : TCPConnection).process (peerSyn payload) = some c := by
    unfold process
    simp only [noteEnd_eq, new, hrec]
    rw [if_neg fun h => hlen h.1]
    exact ⟨_, rfl⟩
  have hreturns : (new cfg random).segmentReceived (peerSyn payload) =
      ({ new cfg random with lastSegmentTime := 0 } : TCPConnection).process (peerSyn payload) := by
    unfold segmentReceived
    simp only
    rw [if_neg (by simp [peerSyn]), if_neg fun h => hlen h.2]
    rfl
  -- A SYN takes up a number, so that the outcome without an answer is out of the question.
  obtain ⟨c, hc⟩ := hprocess
  refine ⟨c, hreturns.trans hc, ?_⟩
  obtain ⟨receiver, inside, hrec', ⟨hzero, -⟩ | ⟨-, rfl⟩⟩ := process_cases hc
  · exact absurd hzero hlen
  · cases hrec.symm.trans hrec'
    refine ⟨rfl, rfl, ?_⟩
    simpa [segmentOut, new] using answered_ne_nil rfl _

/-- Every larger capacity is advertised wrongly, after the SYN or after the first byte. -/
theorem large_capacity_misadvertised (cfg : TCPConfig) (random : WrappingInt32) (hlarge : 65535 < cfg.recvCapacity)
    (hlt : cfg.recvCapacity < 2 ^ 64) :
    ∃ payload c, run step (new cfg random) [.segmentReceived (peerSyn payload)] = some c ∧
      c.receiver.isnset = true ∧ ∃ out ∈ c.segmentsOut, out.header.win.toNat ≠ min c.receiver.windowSize 65535 := by
  -- A window that ends in sixteen ones looks right, and is not once a byte has come.
  obtain ⟨payload, ra, hpush, hwindow, hbits⟩ : ∃ payload ra,
      (StreamReassembler.new cfg.recvCapacity).pushSubstring payload 0 false = some ra ∧
      65535 ≤ ra.output.remainingCapacity ∧ ra.output.remainingCapacity % 65536 ≠ 65535 := by
    have hroom : (ByteStream.new cfg.recvCapacity).remainingCapacity = cfg.recvCapacity := sub64_eq (Nat.zero_le _) hlt
    by_cases hones : cfg.recvCapacity % 65536 = 65535
    · refine ⟨[0], _, StreamReassembler.pushSubstring_first 0 (by omega) hlt, ?_⟩
      have hleft : ((ByteStream.new cfg.recvCapacity).write [0]).1.remainingCapacity = cfg.recvCapacity - 1 := by
        rw [ByteStream.write_of_le (by rw [hroom, List.length_singleton]; omega)]
        exact sub64_eq (by simp [ByteStream.new]; omega) hlt
      simp only [hleft]
      omega
    · refine ⟨[], StreamReassembler.new cfg.recvCapacity, rfl, ?_⟩
      simp only [StreamReassembler.new, hroom]
      omega
  obtain ⟨c, hc, hset, hra, hsome⟩ := peerSyn_answered random hpush
  obtain ⟨out, hout⟩ := List.exists_mem_of_ne_nil _ hsome
  have hstep : (new cfg random).step (.segmentReceived (peerSyn payload)) = some c := hc
  obtain ⟨added, hadded, hstamped⟩ := adds_step hstep
  have hackno : ∃ ackno, c.receiver.ackno = some ackno := Option.isSome_iff_exists.mp (by rw [isSome_ackno, hset])
  obtain ⟨ackno, hackno⟩ := hackno
  have hwin := (hstamped out (by rw [hadded] at hout; exact hout) ackno hackno).2.2
  refine ⟨payload, c, ?_, hset, out, hout, ?_⟩
  · unfold run
    rw [hstep]
    rfl
  · have hsize : c.receiver.windowSize = ra.output.remainingCapacity := by
      rw [← hra]
      rfl
    rw [hwin, hsize, UInt16.toNat_ofNat']
    omega

/-! ## Runs -/

/-- With room for 65536 bytes a window of 0 is advertised. -/
theorem large_window_advertised_as_zero :
    ∃ c, run step (new { smallConfig with recvCapacity := 65536 } ⟨0⟩) [.segmentReceived (peerSyn [])] = some c ∧
      c.receiver.windowSize = 65536 ∧ c.segmentsOut.map (fun out => out.header.win) = [0] := by
  decide +kernel

/-- In every run of a connection whose window fits in 16 bits, what a call adds to the outgoing
segments acknowledges what the receiver has and advertises its window. -/
theorem advertises_truthfully (cfg : TCPConfig) (random : WrappingInt32) (ops : List Op) (op : Op)
    (c c' : TCPConnection) (ackno : WrappingInt32) (hcap : cfg.recvCapacity ≤ 65535)
    (h : run step (new cfg random) ops = some c) (hstep : c.step op = some c')
    (hackno : c'.receiver.ackno = some ackno) :
    ∃ added, c'.segmentsOut = c.segmentsOut ++ added ∧ ∀ out ∈ added,
      out.header.ack = true ∧ out.header.ackno = ackno ∧
        out.header.win.toNat = min c'.receiver.windowSize 65535 := by
  have hlt : cfg.recvCapacity < 2 ^ 64 := by omega
  have hkeeps := receiverKeeps_streamWithin hlt
  have hwithin : StreamWithin cfg.recvCapacity c.receiver :=
    run_inv (I := fun c => StreamWithin cfg.recvCapacity c.receiver) (fun _ _ _ hc hs => hkeeps.step hc hs)
      (streamWithin_new cfg.recvCapacity) h
  have hwindow := (hkeeps.step hwithin hstep).windowSize_le hlt
  obtain ⟨added, hadded, hstamped⟩ := adds_step hstep
  refine ⟨added, hadded, fun out hout => ?_⟩
  obtain ⟨hack, hnumber, hwin⟩ := hstamped out hout ackno hackno
  refine ⟨hack, hnumber, ?_⟩
  rw [hwin, UInt16.toNat_ofNat']
  omega

theorem advertises_truthfully_syn :
    ∃ c c' ackno, run step (new smallConfig ⟨0⟩) [.connect] = some c ∧ c.step (.segmentReceived (peerSyn [97, 98])) = some c' ∧
      c'.receiver.ackno = some ackno ∧ c'.receiver.windowSize = 6 ∧
      ∃ added, c'.segmentsOut = c.segmentsOut ++ added ∧ ∀ out ∈ added,
        out.header.ack = true ∧ out.header.ackno = ackno ∧
          out.header.win.toNat = min c'.receiver.windowSize 65535 := by
  have hrun : ∃ c, run step (new smallConfig ⟨0⟩) [.connect] = some c ∧
      ∃ c', c.step (.segmentReceived (peerSyn [97, 98])) = some c' ∧ c'.receiver.ackno = some ⟨3⟩ ∧ c'.receiver.windowSize = 6 := by
    decide +kernel
  obtain ⟨c, hc, c', hc', hackno, hwindow⟩ := hrun
  exact ⟨c, c', ⟨3⟩, hc, hc', hackno, hwindow,
    advertises_truthfully smallConfig ⟨0⟩ [.connect] (.segmentReceived (peerSyn [97, 98])) c c' ⟨3⟩ (by decide) hc hc' hackno⟩

end TCPConnection

end Sponge
