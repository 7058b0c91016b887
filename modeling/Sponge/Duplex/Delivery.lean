import Sponge.Duplex.Model
import Sponge.Duplex.Outbound
import Sponge.Reassembler.Prefix

/-!
# Both directions arrive in order

What comes out of a connection is the start of what went into its peer, whatever
the network does and however the calls on both sides are mixed.
-/

namespace Sponge

open Run Slice StreamReassembler

namespace StreamReassembler

theorem Safe.setError {S : List UInt8} {r : StreamReassembler} (h : Safe S r) :
    Safe S { r with output := r.output.setError } := by
  rcases h with h | ⟨hcap, h, hS⟩
  · exact Or.inl ⟨h.capacity, h.max, h.content, h.written, h.firstindex, h.inert⟩
  · exact Or.inr ⟨hcap, ⟨h.stored, h.gapped, h.ahead, h.stray, h.counted, h.aligned,
      ⟨h.stream.fits, h.stream.counted⟩, h.room⟩, hS⟩

end StreamReassembler

namespace TCPReceiver

variable {S T output : List UInt8} {isn : WrappingInt32} {capacity : Nat} {r r' : TCPReceiver} {seg : TCPSegment}
  {inside : Bool}

/-- The receiver knows where the peer's stream `S` starts, and has written the start of it. -/
structure Inbound (S : List UInt8) (isn : WrappingInt32) (capacity : Nat) (r : TCPReceiver)
    (output : List UInt8) : Prop where
  isn : r.isnset = true → r.isn = isn
  trace : TraceInv S capacity ⟨r.reassembler, output⟩

theorem inbound_new (S : List UInt8) (isn : WrappingInt32) (capacity : Nat) : Inbound S isn capacity (new capacity) [] :=
  ⟨by simp [new], traceInv_start S capacity⟩

theorem Inbound.mono (h : Inbound S isn capacity r output) (hST : S <+: T) : Inbound T isn capacity r output :=
  ⟨h.isn, h.trace.mono hST⟩

theorem Inbound.bytesWritten_le (h : Inbound S isn capacity r output) : r.streamOut.bytesWritten ≤ S.length := by
  have hle := h.trace.firstindex_le
  rw [h.trace.safe.aligned] at hle
  exact hle

theorem Inbound.streamIndex_eq {n : Nat} (h : Inbound S isn capacity r output) (hS : S.length + 2 < 2 ^ 31)
    (hat : SegmentAt T isn seg n) (hTS : T <+: S) (hbody : seg.payload ≠ [] ∨ seg.header.fin = true)
    (hset : r.isnset = true ∨ seg.header.syn = true) : r.streamIndex seg = max n 1 - 1 := by
  have hshort := hat.short
  have hlen := hTS.length_le
  have hwritten := h.bytesWritten_le
  refine TCPReceiver.streamIndex_eq h.isn (fun _ => ?_) (by omega) hat.syn (hat.body hbody) hset
  rw [hat.seqno]
  exact unwrap_wrap_of_short n _ isn (by omega) (by omega)

theorem Inbound.slice {n : Nat} (h : Inbound S isn capacity r output) (hS : S.length + 2 < 2 ^ 31)
    (hat : SegmentAt T isn seg n) (hTS : T <+: S) (hset : r.isnset = true ∨ seg.header.syn = true) :
    IsSlice S (r.streamIndex seg) seg.payload := by
  by_cases hne : seg.payload = []
  · rw [hne]
    exact isSlice_nil
  · rw [h.streamIndex_eq hS hat hTS (Or.inl hne) hset]
    exact hat.slice.mono hTS

theorem Inbound.segment {n : Nat} (h : Inbound S isn capacity r output) (hS : S.length + 2 < 2 ^ 31)
    (hcap : capacity < 2 ^ 63) (hat : SegmentAt T isn seg n) (hTS : T <+: S)
    (hrec : r.segmentReceived seg = some (r', inside)) :
    Inbound S isn capacity r' (output ++ r'.streamOut.content.drop r.streamOut.content.length) := by
  rcases segmentReceived_cases hrec with ⟨-, -, rfl⟩ | ⟨hset, ra, hpush, rfl⟩
  · simp only [List.drop_length, List.append_nil]
    exact h
  have hlimit : NoOverflow r.reassembler seg.payload (r.streamIndex seg) := by
    intro _ _
    have hfirst := h.trace.firstindex_le
    have hcapacity := h.trace.capacity
    simp only at hfirst hcapacity
    omega
  refine ⟨fun _ => ?_, h.trace.push (h.slice hS hat hTS hset) (by omega) hlimit hpush⟩
  simp only
  cases hr : r.isnset with
  | true => exact h.isn hr
  | false =>
    -- The segment that starts the stream has number 0, and that is `isn` itself.
    have hsyn := hset.resolve_left (by simp [hr])
    simp only [Bool.false_eq_true, if_false, hat.seqno, hat.syn hsyn, wrap_zero]

theorem Inbound.setError (h : Inbound S isn capacity r output) :
    Inbound S isn capacity
      { r with reassembler := { r.reassembler with output := r.reassembler.output.setError } } output :=
  ⟨h.isn, h.trace.safe.setError, h.trace.capacity, h.trace.start, h.trace.length⟩

end TCPReceiver

namespace Duplex

open TCPConnection TCPReceiver SenderTrace

variable {tx tx' rx rx' : Endpoint} {op : TCPConnection.Op} {capacity : Nat} {s s' : Duplex} {action : Action}

/-- What holds of an endpoint that sends and its peer between two steps. -/
def Carries (capacity : Nat) (tx rx : Endpoint) : Prop :=
  ∃ t, t.input = tx.input ∧ Outbound ⟨tx.c, t⟩ ∧
    Inbound tx.input tx.c.sender.isn capacity rx.c.receiver rx.output

theorem carries_new (cfg cfg' : TCPConfig) (random random' : WrappingInt32) :
    Carries cfg'.recvCapacity (Endpoint.new cfg random) (Endpoint.new cfg' random') :=
  ⟨_, rfl, outbound_new cfg random, inbound_new _ _ _⟩

theorem isn_move {x y : Recorded} {c₀ : TCPConnection} (hsame : x.t.s = x.c.sender) (h : Move op c₀ x y) :
    y.c.sender.isn = x.c.sender.isn := by
  cases h with
  | call c t t' call hcall hstep => exact (isn_step t call t' rfl hstep).trans (congrArg TCPSender.isn hsame)
  | _ => rfl

theorem Carries.send (h : Carries capacity tx rx) (hstep : tx.step op = some tx') : Carries capacity tx' rx := by
  obtain ⟨t, hin, hout, hinbound⟩ := h
  obtain ⟨c, hc, rfl⟩ := Endpoint.step_cases hstep
  have hmoves := step_moves hout.same hc
  obtain ⟨t', -, hin', hout', hisn⟩ := hmoves.inv
    (I := fun x => Outbound x ∧ x.c.sender.isn = tx.c.sender.isn) ⟨hout, rfl⟩
    (fun x y hx hmove => ⟨hx.1.move hmove, (isn_move hx.1.same hmove).trans hx.2⟩)
  refine ⟨t', by rw [hin', hin], hout', ?_⟩
  simp only at hisn
  rw [hisn]
  exact hinbound.mono (List.prefix_append _ _)

theorem inbound_step {S : List UInt8} {isn : WrappingInt32} (h : Inbound S isn capacity rx.c.receiver rx.output)
    (hlen : S.length + 2 < 2 ^ 31) (hcap : capacity < 2 ^ 63)
    (hseg : ∀ seg, op = .segmentReceived seg → ∃ T n, T <+: S ∧ SegmentAt T isn seg n)
    (hstep : rx.step op = some rx') : Inbound S isn capacity rx'.c.receiver rx'.output := by
  obtain ⟨c, hc, rfl⟩ := Endpoint.step_cases hstep
  simp only [inboundStream]
  rcases receiver_cases hc with heq | heq | ⟨seg, inside, rfl, -, hrec⟩ | ⟨len, rfl, heq⟩
  · rw [heq, List.drop_length, List.append_nil]
    exact h
  · rw [heq]
    simp only [TCPReceiver.streamOut, ByteStream.setError, List.drop_length, List.append_nil]
    exact h.setError
  · obtain ⟨T, n, hTS, hat⟩ := hseg seg rfl
    exact h.segment hlen hcap hat hTS hrec
  · have hgone : (rx.c.receiver.readOut len).streamOut.content.drop rx.c.receiver.streamOut.content.length = [] := by
      rw [streamOut_readOut, ByteStream.popOutput_eq, List.drop_drop]
      exact List.drop_eq_nil_of_le (by omega)
    rw [heq, hgone, List.append_nil]
    exact ⟨h.isn, h.trace.readOut len⟩

theorem segmentAt_of_sent {t : SenderTrace} {seg : TCPSegment} (hin : t.input = tx.input) (hout : Outbound ⟨tx.c, t⟩)
    (hseg : seg ∈ tx.c.segmentsOut) : ∃ T n, T <+: tx.input ∧ SegmentAt T tx.c.sender.isn seg n := by
  obtain ⟨⟨n, hat⟩, -⟩ := hout.spoken.sent seg hseg
  have hisn : t.s.isn = tx.c.sender.isn := congrArg TCPSender.isn hout.same
  rw [hisn] at hat
  refine ⟨t.taken, n, ?_, hat⟩
  rw [← hin]
  exact List.take_prefix _ _

theorem Carries.receive (h : Carries capacity tx rx) (hlen : tx.input.length + 2 < 2 ^ 31) (hcap : capacity < 2 ^ 63)
    (hseg : ∀ seg, op = .segmentReceived seg → seg ∈ tx.c.segmentsOut) (hstep : rx.step op = some rx') :
    Carries capacity tx rx' := by
  obtain ⟨t, hin, hout, hinbound⟩ := h
  refine ⟨t, hin, hout, inbound_step hinbound hlen hcap ?_ hstep⟩
  intro seg hop
  exact segmentAt_of_sent hin hout (hseg seg hop)

theorem Carries.step (p : Side) (hcap : capacity < 2 ^ 63) (s : Duplex) (action : Action) (s' : Duplex)
    (h : (s.get p).input.length + 2 < 2 ^ 31 → Carries capacity (s.get p) (s.get p.other))
    (hstep : s.step action = some s') :
    (s'.get p).input.length + 2 < 2 ^ 31 → Carries capacity (s'.get p) (s'.get p.other) := by
  intro hlen'
  have hmono := (input_mono hstep p).length_le
  have hlen : (s.get p).input.length + 2 < 2 ^ 31 := by omega
  apply pair_step p hstep
  · intro op e _ he _
    exact (h hlen).send he
  · intro op e _ he hseg
    exact (h hlen).receive hlen hcap hseg he

theorem carries_run {cfg : Side → TCPConfig} {random : Side → WrappingInt32} {actions : List Action}
    (h : run step (start cfg random) actions = some s) (p : Side) (hcap : (cfg p.other).recvCapacity < 2 ^ 63)
    (hlen : (s.get p).input.length + 2 < 2 ^ 31) : Carries (cfg p.other).recvCapacity (s.get p) (s.get p.other) := by
  have hstart : Carries (cfg p.other).recvCapacity ((start cfg random).get p) ((start cfg random).get p.other) := by
    rw [get_start, get_start]
    exact carries_new _ _ _ _
  exact run_inv (Carries.step p hcap) (fun _ => hstart) h hlen

/-- Each side's inbound stream has only ever held the start of what the other side's owner wrote. -/
theorem both_in_order (cfg : Side → TCPConfig) (random : Side → WrappingInt32) (actions : List Action) (s : Duplex)
    (h : run step (start cfg random) actions = some s) (p : Side) (hcap : (cfg p.other).recvCapacity < 2 ^ 63)
    (hlen : (s.get p).input.length + 2 < 2 ^ 31) : (s.get p.other).output <+: (s.get p).input := by
  obtain ⟨t, -, -, hinbound⟩ := carries_run h p hcap hlen
  exact hinbound.trace.start

/-- After the handshake `a` sends two segments that arrive in the wrong order and twice, while `b`
sends data of its own. -/
def crossedActions : List Action :=
  [.connect .a, .deliver .b 0, .deliver .a 0, .write .a [97, 98], .write .a [101], .write .b [99], .deliver .b 3,
    .deliver .a 1, .deliver .b 2, .deliver .b 2, .read .b 2, .tick .a 1000, .deliver .b 1]

theorem both_in_order_crossed :
    ∃ s, run step (start (fun _ => smallConfig) fun _ => ⟨0⟩) crossedActions = some s ∧
      (s.get .b).output = [97, 98, 101] ∧ (s.get .a).output = [99] ∧ (s.get .b).output <+: (s.get .a).input ∧
        (s.get .a).output <+: (s.get .b).input := by
  have hrun : ∃ s, run step (start (fun _ => smallConfig) fun _ => ⟨0⟩) crossedActions = some s ∧
      ((s.get .b).output = [97, 98, 101] ∧ (s.get .a).output = [99]) ∧
      (s.get .a).input.length + 2 < 2 ^ 31 ∧ (s.get .b).input.length + 2 < 2 ^ 31 := by decide +kernel
  obtain ⟨s, hs, ⟨hb, ha⟩, hshortA, hshortB⟩ := hrun
  exact ⟨s, hs, hb, ha, both_in_order _ _ _ s hs .a (by decide) hshortA, both_in_order _ _ _ s hs .b (by decide) hshortB⟩

end Duplex

end Sponge
