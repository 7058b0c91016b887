import Sponge.Connection.Advertise
import Sponge.Connection.Dead
import Sponge.Connection.Plain
import Sponge.Duplex.Delivery
import Sponge.Receiver.Ackno
import Sponge.System.Delivery

/-!
# A clean close

Each side gives up a segment only when the other side has written it, and so a
connection that is over without a RST has delivered all of its own stream and holds
all of the other's. As between one sender and one receiver, this rests on the
receivers keeping the end of the stream.
-/

namespace Sponge

open Run Slice StreamReassembler

/-! ## The side that receives -/

namespace TCPReceiver

variable {S : List UInt8} {isn : WrappingInt32} {r : TCPReceiver}

theorem AcknoInv.setError (h : AcknoInv S isn r) :
    AcknoInv S isn { r with reassembler := { r.reassembler with output := r.reassembler.output.setError } } where
  endInv := ⟨h.endInv.safe.setError, h.endInv.within, h.endInv.tail, h.endInv.marked, h.endInv.clear⟩
  complete := h.complete
  isn := h.isn
  fin := h.fin
  fresh := h.fresh

end TCPReceiver

namespace TCPConnection

open TCPReceiver TCPSender

variable {x y : Recorded} {op : Op} {c₀ : TCPConnection} {S : List UInt8} {isn : WrappingInt32}

/-- A connection that hears the stream `S`, of which the peer knows that the numbers below `reached`
have arrived, and that it ends if `ended`. -/
structure Hears (S : List UInt8) (isn : WrappingInt32) (reached : Nat) (ended : Bool) (x : Recorded) : Prop where
  same : x.t.s = x.c.sender
  plain : AllPlain x.c.sender
  ackno : AcknoInv S isn x.c.receiver
  ending : x.c.receiver.reassembler.checkeof = true → ended = true
  answers : ∀ out ∈ x.c.segmentsOut, out.header.ack = true →
    ∃ v ≤ x.c.receiver.delivered, out.header.ackno = wrap v isn
  reached : reached ≤ x.c.receiver.delivered

variable {reached : Nat} {ended : Bool}

theorem Hears.receiverInfo {seg : TCPSegment} (h : Hears S isn reached ended x) (hseg : seg.header.ack = false)
    (hack : (x.c.receiverInfo seg).header.ack = true) :
    (x.c.receiverInfo seg).header.ackno = wrap x.c.receiver.delivered isn := by
  unfold TCPConnection.receiverInfo at hack ⊢
  cases hackno : x.c.receiver.ackno with
  | none => simp [hackno, hseg] at hack
  | some ackno =>
    have hset : x.c.receiver.isnset = true := by
      rw [← isSome_ackno, hackno]
      rfl
    rw [h.ackno.ackno_eq hset, Option.some.injEq] at hackno
    exact hackno.symm

theorem Hears.append {segs : List TCPSegment} {t' : SenderTrace} (h : Hears S isn reached ended x) (s' : TCPSender)
    (hsame : t'.s = s') (hkeep : AllPlain s')
    (hsegs : ∀ out ∈ segs, out.header.ack = true → out.header.ackno = wrap x.c.receiver.delivered isn) :
    Hears S isn reached ended ⟨{ x.c with segmentsOut := x.c.segmentsOut ++ segs, sender := s' }, t'⟩ := by
  refine ⟨hsame, hkeep, h.ackno, h.ending, ?_, h.reached⟩
  intro out hout hack
  rcases List.mem_append.mp hout with hout | hout
  · exact h.answers out hout hack
  · exact ⟨_, Nat.le_refl _, hsegs out hout hack⟩

theorem Hears.advance {r : TCPReceiver} (h : Hears S isn reached ended x) (hackno : AcknoInv S isn r)
    (hmono : x.c.receiver.delivered ≤ r.delivered) (hend : r.reassembler.checkeof = true → ended = true) :
    Hears S isn reached ended ⟨{ x.c with receiver := r }, x.t⟩ := by
  refine ⟨h.same, h.plain, hackno, hend, ?_, h.reached.trans hmono⟩
  intro out hout hack
  obtain ⟨v, hv, hwrap⟩ := h.answers out hout hack
  exact ⟨v, hv.trans hmono, hwrap⟩

theorem Hears.move (h : Hears S isn reached ended x) (hmove : Move op c₀ x y)
    (hreceive : ∀ seg r inside, op = .segmentReceived seg → seg.header.rst = false →
      c₀.receiver.segmentReceived seg = some (r, inside) →
        AcknoInv S isn r ∧ c₀.receiver.delivered ≤ r.delivered ∧ (r.reassembler.checkeof = true → ended = true)) :
    Hears S isn reached ended y := by
  cases hmove with
  | call c t t' call hcall hstep =>
    have hkeep : AllPlain t.s := by
      rw [h.same]
      exact h.plain
    exact ⟨rfl, SenderTrace.allPlain_step hkeep hstep, h.ackno, h.ending, h.answers, h.reached⟩
  | out c t =>
    have hsame := h.same
    have hkeep := h.plain
    simp only at hsame hkeep
    refine h.append { c.sender with segmentsOut := [] } ?_ ?_ ?_
    · simp only [SenderTrace.requeued, hsame]
    · intro seg hseg
      exact hkeep seg (Or.inr (hseg.resolve_left (by simp)))
    · -- What leaves has the ackno of this moment.
      intro out hout hack
      obtain ⟨seg, hseg, rfl⟩ := List.mem_map.mp hout
      exact h.receiverInfo (hkeep seg (Or.inl hseg)).ack hack
  | rst c t front rest hq =>
    have hsame := h.same
    have hkeep := h.plain
    simp only at hsame hkeep
    refine h.append { c.sender with segmentsOut := rest } ?_ ?_ ?_
    · simp only [SenderTrace.requeued, hsame]
    · intro seg hseg
      refine hkeep seg (hseg.imp_left fun hin => ?_)
      rw [hq]
      exact List.mem_cons_of_mem _ hin
    · intro out hout hack
      rw [List.mem_singleton.mp hout] at hack ⊢
      -- A RST leaves with the ackno as well.
      exact h.receiverInfo (hkeep front (Or.inl (by rw [hq]; exact List.mem_cons_self))).ack hack
  | abort c t =>
    have hsame := h.same
    simp only at hsame
    refine ⟨?_, h.plain, h.ackno.setError, h.ending, h.answers, h.reached⟩
    simp only [SenderTrace.failed, hsame]
    rfl
  | receive c t seg r inside hop hrst hfirst hrec =>
    rw [hfirst] at hrec
    obtain ⟨hackno, hmono, hend⟩ := hreceive seg r inside hop hrst hrec
    rw [← hfirst] at hmono
    exact h.advance hackno hmono hend
  | read c t len hop =>
    exact h.advance (h.ackno.readOut len) (delivered_readOut c.receiver len).ge h.ending
  | note => exact ⟨h.same, h.plain, h.ackno, h.ending, h.answers, h.reached⟩

end TCPConnection

/-! ## Both sides -/

namespace Duplex

open TCPConnection TCPReceiver TCPSender SenderTrace

variable {tx tx' rx rx' : Endpoint} {op : TCPConnection.Op} {capacity : Nat} {s s' : Duplex} {x y : Recorded}
  {c₀ : TCPConnection}

/-- The owner writes nothing after the end, and the receiver keeps the end of the peer's stream. -/
def KeepsEnd (e : Endpoint) : TCPConnection.Op → Prop
  | .write _ => e.c.sender.stream.inputEnded = false
  | .segmentReceived seg =>
    seg.header.rst = false → e.c.receiver.isnset = true ∨ seg.header.syn = true → FinSafe e.c.receiver seg
  | _ => True

instance (e : Endpoint) : ∀ op, Decidable (KeepsEnd e op)
  | .write _ => inferInstanceAs (Decidable (_ = _))
  | .segmentReceived _ => inferInstanceAs (Decidable (_ → _ ∨ _ → FinSafe _ _))
  | .connect | .endInputStream | .tick _ | .read _ => .isTrue trivial

/-- A connection with its history and its peer, between two moves. -/
structure Agrees (capacity : Nat) (x : Recorded) (rx : Endpoint) : Prop where
  outbound : Outbound x
  inbound : Inbound x.t.input x.t.s.isn capacity rx.c.receiver rx.output
  drained : Drained x.t
  queue : ∃ first, Queue x.t.s first
  hears : Hears x.t.taken x.t.s.isn x.t.s.byteReceived x.t.s.eof ⟨rx.c, { s := rx.c.sender }⟩

theorem Agrees.of_queue {s' : TCPSender} (h : Agrees capacity x rx) (hout : Outbound y)
    (hy : y.t = { x.t with s := s' })
    (hs : s' = { x.t.s with segmentsOut := s'.segmentsOut, stream := { x.t.s.stream with error := s'.stream.error } }) :
    Agrees capacity y rx := by
  obtain ⟨c, t⟩ := y
  simp only at hy
  subst hy
  obtain ⟨first, hq⟩ := h.queue
  have hinbound := h.inbound
  have heof := h.drained.eof
  have hhears := h.hears
  rw [hs] at hout ⊢
  exact ⟨hout, hinbound, ⟨hout.spoken.faithful, heof⟩,
    ⟨first, ⟨hq.inFlight.received, hq.inFlight.small⟩, hq.length, hq.numbered, hq.sizes, hq.front, hq.empty⟩, hhears⟩

/-! ## The side that sends -/

theorem Agrees.received_step {t' : SenderTrace} {call : SenderOp} (h : Agrees capacity x rx)
    (hlen : x.t.input.length + 2 < 2 ^ 31) (hcall : Calls c₀ x.t.s op call)
    (hseg : ∀ seg, op = .segmentReceived seg → seg ∈ rx.c.segmentsOut) (hstep : x.t.step call = some t') :
    t'.s.byteReceived ≤ rx.c.receiver.delivered := by
  have hreached := h.hears.reached
  have hdelivered := h.hears.ackno.delivered_le
  have htaken := (List.take_prefix x.t.s.stream.alread x.t.input).length_le
  simp only [taken] at hreached hdelivered
  rcases byteReceived_step hstep with heq | ⟨ackno, w, rfl, heq⟩
  · omega
  · cases hcall with
    | ackReceived seg hrst hack =>
      -- The number comes from an answer of the peer, and no answer is ahead of it.
      obtain ⟨v, hv, hwrap⟩ := h.hears.answers seg (hseg seg rfl) hack
      simp only at hv
      rw [heq, hwrap, unwrap_wrap_of_short v _ _ (by omega) (by omega)]
      exact hv

theorem Agrees.call {t' : SenderTrace} {call : SenderOp} (h : Agrees capacity x rx)
    (hlen : t'.input.length + 2 < 2 ^ 31) (hcall : Calls c₀ x.t.s op call)
    (hwrite : ∀ data, op = .write data → c₀.sender.stream.inputEnded = false)
    (hseg : ∀ seg, op = .segmentReceived seg → seg ∈ rx.c.segmentsOut) (hstep : x.t.step call = some t') :
    Agrees capacity ⟨{ x.c with sender := t'.s }, t'⟩ rx := by
  have hout : Outbound ⟨{ x.c with sender := t'.s }, t'⟩ := h.outbound.move (.call x.c x.t t' call hcall hstep)
  have hinput := (SenderTrace.input_step hstep)
  have hsent := hout.spoken.faithful.byteSent_le
  simp only at hsent
  have hlate : NoLateWrite x.t call := by
    cases hcall with
    | write data hfirst =>
      unfold NoLateWrite
      rw [hfirst]
      exact hwrite data rfl
    | _ => trivial
  have hisn : t'.s.isn = x.t.s.isn := isn_step x.t call t' rfl hstep
  obtain ⟨hgrows, hlast⟩ := h.drained.faithful.taken_step hstep
  -- The numbers are short, so that every `unwrap` on the way is exact.
  have hreached := h.received_step (by have := hinput.length_le; omega) hcall hseg hstep
  obtain ⟨hsame, hkeep, hackno, hending, hanswers, -⟩ := h.hears
  refine ⟨hout, ?_, Drained.step x.t call t' h.drained hlate hstep,
    queue_step x.t call t' (fun _ => h.queue) hstep (by omega), ?_⟩
  · rw [hisn]
    exact h.inbound.mono hinput
  · rw [hisn]
    exact ⟨hsame, hkeep, hackno.mono hgrows fun hmark => (hlast (hending hmark)).1,
      fun hmark => (hlast (hending hmark)).2, hanswers, hreached⟩

theorem Agrees.move (h : x.t.input.length + 2 < 2 ^ 31 → Agrees capacity x rx) (hmove : Move op c₀ x y)
    (hwrite : ∀ data, op = .write data → c₀.sender.stream.inputEnded = false)
    (hseg : ∀ seg, op = .segmentReceived seg → seg ∈ rx.c.segmentsOut) :
    y.t.input.length + 2 < 2 ^ 31 → Agrees capacity y rx := by
  intro hlen
  cases hmove with
  | call c t t' call hcall hstep =>
    have hinput := (SenderTrace.input_step hstep).length_le
    exact (h (by simp only at hlen ⊢; omega)).call hlen hcall hwrite hseg hstep
  | out c t =>
    have hx := h hlen
    exact hx.of_queue (hx.outbound.move (.out c t : Move op c₀ ⟨c, t⟩ _)) rfl rfl
  | rst c t front rest hq =>
    have hx := h hlen
    exact hx.of_queue (hx.outbound.move (.rst c t front rest hq : Move op c₀ ⟨c, t⟩ _)) rfl rfl
  | abort c t =>
    have hx := h hlen
    exact hx.of_queue (hx.outbound.move (.abort c t : Move op c₀ ⟨c, t⟩ _)) rfl rfl
  | receive | read | note =>
    have hx := h hlen
    exact ⟨⟨hx.outbound.same, hx.outbound.spoken⟩, hx.inbound, hx.drained, hx.queue, hx.hears⟩

/-! ## The side that receives -/

theorem Agrees.segment {seg : TCPSegment} {r : TCPReceiver} {inside : Bool} (h : Agrees capacity x rx)
    (hlen : x.t.input.length + 2 < 2 ^ 31) (hcap : capacity < 2 ^ 63) (hseg : seg ∈ x.c.segmentsOut)
    (hkept : rx.c.receiver.isnset = true ∨ seg.header.syn = true → FinSafe rx.c.receiver seg)
    (hrec : rx.c.receiver.segmentReceived seg = some (r, inside)) :
    AcknoInv x.t.taken x.t.s.isn r ∧ rx.c.receiver.delivered ≤ r.delivered ∧
      (r.reassembler.checkeof = true → x.t.s.eof = true) := by
  obtain ⟨⟨n, hat⟩, hfin⟩ := h.outbound.spoken.sent seg hseg
  have htaken : x.t.taken <+: x.t.input := List.take_prefix _ _
  have hshort := htaken.length_le
  have hackno := h.hears.ackno.segment (by omega) hat hkept hrec
  obtain ⟨hstays, hcomes⟩ := checkeof_segment hrec
  have hgrown := h.inbound.segment hlen hcap hat htaken hrec
  have hF : rx.c.receiver.reassembler.firstindex ≤ r.reassembler.firstindex := by
    have hold := h.inbound.trace.length
    have hnew := hgrown.trace.length
    simp only [List.length_append] at hold hnew
    omega
  refine ⟨hackno, h.hears.ackno.delivered_mono hackno hF hstays, fun hmark => ?_⟩
  -- The mark was there, or came with the FIN of this segment.
  rcases hcomes hmark with hold | hnew
  · exact h.hears.ending hold
  · exact hfin hnew

theorem Agrees.receive (h : Agrees capacity x rx) (hlen : x.t.input.length + 2 < 2 ^ 31) (hcap : capacity < 2 ^ 63)
    (hseg : ∀ seg, op = .segmentReceived seg → seg ∈ x.c.segmentsOut) (hkept : KeepsEnd rx op)
    (hstep : rx.step op = some rx') : Agrees capacity x rx' := by
  have hinbound : Inbound x.t.input x.t.s.isn capacity rx'.c.receiver rx'.output := by
    refine inbound_step h.inbound hlen hcap (fun seg hop => ?_) hstep
    obtain ⟨⟨n, hat⟩, -⟩ := h.outbound.spoken.sent seg (hseg seg hop)
    exact ⟨x.t.taken, n, List.take_prefix _ _, hat⟩
  obtain ⟨c, hc, rfl⟩ := Endpoint.step_cases hstep
  have hmoves := step_moves (t := { s := rx.c.sender }) rfl hc
  obtain ⟨t', hsame, -, hhears⟩ := hmoves.inv
    (I := Hears x.t.taken x.t.s.isn x.t.s.byteReceived x.t.s.eof) h.hears fun y z hy hmove => by
      refine hy.move hmove fun seg r inside hop hrst hrec => ?_
      subst hop
      exact h.segment hlen hcap (hseg seg rfl) (hkept hrst) hrec
  exact ⟨h.outbound, hinbound, h.drained, h.queue, rfl, hhears.plain, hhears.ackno, hhears.ending,
    hhears.answers, hhears.reached⟩

/-! ## Whole runs -/

def Closing (capacity : Nat) (tx rx : Endpoint) : Prop :=
  ∃ t, t.input = tx.input ∧ Agrees capacity ⟨tx.c, t⟩ rx

theorem Closing.send (h : Closing capacity tx rx) (hlen : tx'.input.length + 2 < 2 ^ 31)
    (hseg : ∀ seg, op = .segmentReceived seg → seg ∈ rx.c.segmentsOut) (hkept : KeepsEnd tx op)
    (hstep : tx.step op = some tx') : Closing capacity tx' rx := by
  obtain ⟨t, hin, hagrees⟩ := h
  obtain ⟨c, hc, rfl⟩ := Endpoint.step_cases hstep
  have hmoves := step_moves hagrees.outbound.same hc
  have hwrite : ∀ data, op = .write data → tx.c.sender.stream.inputEnded = false := by
    rintro data rfl
    exact hkept
  obtain ⟨t', -, hin', hagrees'⟩ := hmoves.inv
    (I := fun x => x.t.input.length + 2 < 2 ^ 31 → Agrees capacity x rx) (fun _ => hagrees)
    (fun x y hx hmove => Agrees.move hx hmove hwrite hseg)
  rw [hin] at hin'
  refine ⟨t', hin', hagrees' ?_⟩
  rw [hin']
  exact hlen

theorem Closing.step (p : Side) (hcap : capacity < 2 ^ 63) (s : Duplex) (action : Action) (s' : Duplex)
    (h : (s.get p).input.length + 2 < 2 ^ 31 → Closing capacity (s.get p) (s.get p.other))
    (hkept : AtCall KeepsEnd s action) (hstep : s.step action = some s') :
    (s'.get p).input.length + 2 < 2 ^ 31 → Closing capacity (s'.get p) (s'.get p.other) := by
  have hmono := (input_mono hstep p).length_le
  apply pair_step (I := fun tx rx => tx.input.length + 2 < 2 ^ 31 → Closing capacity tx rx) p hstep
  · intro op e hcall he hseg hlen
    have hinput := (Endpoint.input_step he).length_le
    exact (h (by omega)).send hlen hseg (hkept _ hcall) he
  · intro op e hcall he hseg hlen
    obtain ⟨t, hin, hagrees⟩ := h hlen
    rw [← hin] at hlen
    exact ⟨t, hin, hagrees.receive hlen hcap hseg (hkept _ hcall) he⟩

end Duplex

end Sponge
