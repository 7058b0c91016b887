import Mathlib.Logic.Relation
import Sponge.Connection.Opening
import Sponge.Duplex.Model
import Sponge.EventLoop.Moves
import Sponge.Reassembler.Frame
import Sponge.Socket.Adapters

/-!
# The thread runs the connection

Seen from outside, a socket is a connection with what went in and came out: the
segments in its queue stand behind those that the adapter has got, the bytes that were
read from the owner have gone in, and those that were written to the owner or wait to be
written have come out. What the thread does between two turns is a row of calls of that
connection.
-/

namespace Sponge

open Relation Run EventLoop

namespace SenderTrace

theorem ended_step {t t' : SenderTrace} {op : SenderOp} (hop : op ≠ .endInput) (h : t.step op = some t') :
    t'.s.stream.ended = t.s.stream.ended := by
  refine step_inv (P := fun u => u.s.stream.ended = t.s.stream.ended) (fun t₁ hp => ?_) (fun u seg hu he => ?_) h
  · cases hp with
    | endInput => exact absurd rfl hop
    | acknowledge ackno w absAckNo hlo hhi habs =>
      obtain ⟨timer, heq⟩ := TCPSender.acknowledge_eq (t.windowed ackno w).s absAckNo
      simp only [heq]
      rfl
    | _ => rfl
  · simp only [SenderTrace.emit, he.stream_eq]
    exact hu

end SenderTrace

/-! ## Segments that have left the queue -/

namespace TCPConnection

/-- The connection as if `handed` were still in its queue. -/
def behind (handed : List TCPSegment) (c : TCPConnection) : TCPConnection :=
  { c with segmentsOut := handed ++ c.segmentsOut }

variable {handed : List TCPSegment} {c c' : TCPConnection} {op : Op}

@[simp] theorem sender_behind : (behind handed c).sender = c.sender := rfl

@[simp] theorem receiver_behind : (behind handed c).receiver = c.receiver := rfl

@[simp] theorem inboundStream_behind : (behind handed c).inboundStream = c.inboundStream := rfl

theorem segmentOut_behind (c : TCPConnection) : (behind handed c).segmentOut = behind handed c.segmentOut := by
  unfold segmentOut behind
  simp only [List.append_assoc]
  rfl

theorem fillAndSend_behind (c : TCPConnection) : (behind handed c).fillAndSend = behind handed c.fillAndSend :=
  segmentOut_behind { c with sender := c.sender.fillWindow }

theorem write_behind (data : List UInt8) :
    (behind handed c).write data = (behind handed (c.write data).1, (c.write data).2) :=
  Prod.ext (fillAndSend_behind { c with sender := { c.sender with stream := (c.sender.stream.write data).1 } }) rfl

theorem noteEnd_behind : (behind handed c).noteEnd = behind handed c.noteEnd := by
  unfold noteEnd
  rw [apply_ite (behind handed)]
  rfl

theorem answer_behind (c : TCPConnection) : (behind handed c).answer = behind handed c.answer := by
  unfold answer
  rw [apply_ite (behind handed)]
  rfl

theorem process_behind (seg : TCPSegment) : (behind handed c).process seg = (c.process seg).map (behind handed) := by
  unfold process
  simp only [noteEnd_behind]
  generalize c.noteEnd = c
  simp only [sender_behind, receiver_behind]
  cases c.receiver.segmentReceived seg with
  | none => rfl
  | some out =>
    simp only
    by_cases hquiet : seg.lengthInSequenceSpace = 0 ∧ out.2 = true ∧ (senderReceived c.sender seg.header).2 = true
    · refine (if_pos hquiet).trans ?_
      rw [if_pos hquiet]
      rfl
    · refine (if_neg hquiet).trans ?_
      rw [if_neg hquiet, Option.map_some, ← segmentOut_behind, ← answer_behind]
      rfl

theorem segmentReceived_behind (seg : TCPSegment) :
    (behind handed c).segmentReceived seg = (c.segmentReceived seg).map (behind handed) := by
  unfold segmentReceived
  by_cases hrst : seg.header.rst = true
  · simp only [if_pos hrst]
    rfl
  simp only [if_neg hrst]
  by_cases hdrop : c.receiver.ackno.isNone = true ∧ seg.lengthInSequenceSpace = 0
  · refine (if_pos hdrop).trans ?_
    rw [if_pos hdrop]
    rfl
  · refine (if_neg hdrop).trans ?_
    rw [if_neg hdrop]
    exact process_behind (c := { c with lastSegmentTime := c.time }) seg

theorem rstSegment_behind : (behind handed c).rstSegment = c.rstSegment.map (behind handed) := by
  unfold rstSegment
  simp only [sender_behind]
  split
  · rfl
  · simp only [Option.map_some, behind, List.append_assoc]
    rfl

theorem tick_behind (ms : Nat) : (behind handed c).tick ms = (c.tick ms).map (behind handed) := by
  cases hsender : c.sender.tick ms with
  | none =>
    unfold tick
    rw [sender_behind, hsender]
    rfl
  | some sender =>
    have hbehind : (behind handed c).sender.tick ms = some sender := hsender
    let d : TCPConnection := { c with sender := sender, time := Word64.add64 c.time ms }
    by_cases hlost : sender.consecutiveRetransmissions > TCPConfig.maxRetxAttempts
    · rw [tick_lost hsender hlost, tick_lost hbehind hlost]
      change (behind handed d.abort).rstSegment.map segmentOut = (d.abort.rstSegment.map segmentOut).map (behind handed)
      rw [rstSegment_behind]
      cases d.abort.rstSegment with
      | none => rfl
      | some c' => exact congrArg some (segmentOut_behind c')
    · rw [tick_kept hsender hlost, tick_kept hbehind hlost]
      exact congrArg some (segmentOut_behind d)

/-- What stands in front of the queue stays there, and nothing depends on it. -/
theorem step_behind : (behind handed c).step op = (c.step op).map (behind handed) := by
  cases op with
  | connect => exact congrArg some (fillAndSend_behind c)
  | write data => exact congrArg some (congrArg Prod.fst (write_behind data))
  | endInputStream =>
    exact congrArg some (fillAndSend_behind { c with sender := { c.sender with stream := c.sender.stream.endInput } })
  | segmentReceived seg => exact segmentReceived_behind seg
  | tick ms => exact tick_behind ms
  | read len => rfl

/-! ## The inbound stream -/

theorem stable_grows (before : List UInt8) :
    StreamReassembler.Stable fun ra => before <+: ra.output.content where
  store := fun _ _ _ _ h => h
  ends := fun _ h => h
  writes := fun r d _ _ _ _ h => by
    obtain ⟨n, -, heq⟩ := ByteStream.write_spec r.output d
    simp only [heq]
    exact h.trans (List.prefix_append _ _)

theorem content_grows (h : c.step op = some c') (hop : ∀ len, op ≠ .read len) :
    c.inboundStream.content <+: c'.inboundStream.content := by
  unfold inboundStream
  rcases receiver_cases h with heq | heq | ⟨seg, inside, -, -, hrec⟩ | ⟨len, rfl, -⟩
  · rw [heq]
  · rw [heq]
    exact List.prefix_rfl
  · rcases TCPReceiver.segmentReceived_cases hrec with ⟨-, -, heq⟩ | ⟨-, ra, hpush, heq⟩
    · rw [heq]
    · rw [heq]
      exact (stable_grows _).pushSubstring List.prefix_rfl hpush
  · exact absurd rfl (hop len)

theorem inputEnded_step (h : c.step op = some c') (hop : op ≠ .endInputStream) :
    c'.sender.stream.inputEnded = c.sender.stream.inputEnded := by
  have hmoves := step_moves (t := { s := c.sender }) rfl h
  obtain ⟨t', hsame, -, -, hended⟩ := hmoves.inv
    (I := fun x => x.t.s = x.c.sender ∧ x.c.sender.stream.ended = c.sender.stream.ended) ⟨rfl, rfl⟩
    fun x y hx hmove => by
      obtain ⟨hsame, hended⟩ := hx
      refine ⟨hmove.same hsame, ?_⟩
      cases hmove with
      | call d t t' call hcall hstep =>
        simp only at hsame hended ⊢
        rw [← hended, ← hsame]
        refine SenderTrace.ended_step ?_ hstep
        rintro rfl
        cases hcall
        exact hop rfl
      | _ => exact hended
  exact hended

end TCPConnection

/-! ## Calls -/

/-- The segment that the call brings. -/
def TCPConnection.Op.heard : Op → List TCPSegment
  | .segmentReceived seg => [seg]
  | _ => []

namespace Endpoint

/-- Nothing is written after the end. -/
def WritesBefore (e : Endpoint) (op : TCPConnection.Op) : Prop :=
  ∀ data, op = .write data → e.c.sender.stream.inputEnded = false

/-- Calls of the connection that bring it these segments. -/
def Calls (e : Endpoint) (heard : List TCPSegment) (e' : Endpoint) : Prop :=
  ∃ ops, run step e ops = some e' ∧ ops.flatMap TCPConnection.Op.heard = heard ∧ AllSteps step WritesBefore e ops

variable {e e' e'' : Endpoint} {heard heard' : List TCPSegment}

theorem Calls.refl (e : Endpoint) : Calls e [] e := ⟨[], rfl, rfl, trivial⟩

theorem Calls.single {op : TCPConnection.Op} (h : e.step op = some e') (hwrites : WritesBefore e op) :
    Calls e op.heard e' := by
  refine ⟨[op], ?_, by simp, allSteps_cons hwrites fun _ _ => trivial⟩
  rw [run, h]
  rfl

theorem Calls.trans (h : Calls e heard e') (h' : Calls e' heard' e'') : Calls e (heard ++ heard') e'' := by
  obtain ⟨ops, hrun, hheard, hall⟩ := h
  obtain ⟨ops', hrun', hheard', hall'⟩ := h'
  exact ⟨ops ++ ops', (run_append hrun _).trans hrun', by rw [List.flatMap_append, hheard, hheard'],
    allSteps_append hall hrun hall'⟩

end Endpoint

namespace TCPSpongeSocket

variable {α ω : Type} {s s' : TCPSpongeSocket α} {op : TCPConnection.Op}

def view (s : TCPSpongeSocket α) : Endpoint :=
  { c := TCPConnection.behind s.handed s.tcp
    input := s.threadData.supplied
    output := s.threadData.out.accepted ++ s.tcp.inboundStream.content }

theorem calls_cases (h : s.calls op = .ok s') : ∃ tcp, s.tcp.step op = some tcp ∧ s' = { s with tcp := tcp } := by
  unfold calls at h
  split at h
  · cases h
  · cases h
    exact ⟨_, ‹_›, rfl⟩

theorem view_calls (h : s.calls op = .ok s') (hwrite : ∀ data, op ≠ .write data) (hread : ∀ len, op ≠ .read len) :
    s.view.step op = some s'.view := by
  obtain ⟨tcp, hstep, rfl⟩ := calls_cases h
  obtain ⟨more, hmore⟩ := TCPConnection.content_grows hstep hread
  have haccepted : s.view.c.accepted op = [] := by
    unfold TCPConnection.accepted
    split
    · exact absurd rfl (hwrite _)
    · rfl
  unfold Endpoint.step
  rw [haccepted]
  simp only [view, TCPConnection.step_behind, hstep, Option.map_some, TCPConnection.inboundStream_behind, ← hmore,
    List.drop_left, List.append_nil, List.append_assoc]

theorem view_write {data : List UInt8} (threadData : FDWrapper) (hfits : data.length ≤ s.remainingOutboundCapacity)
    (hsupplied : threadData.supplied = s.threadData.supplied ++ data) (hout : threadData.out = s.threadData.out) :
    s.view.step (.write data) = some (view { s with tcp := (s.tcp.write data).1, threadData := threadData }) := by
  have haccepted : s.view.c.accepted (.write data) = data := by
    have hsize : (s.tcp.write data).2 = data.length := congrArg Prod.snd (ByteStream.write_of_le hfits)
    simp only [TCPConnection.accepted, view, TCPConnection.write_behind, hsize, List.take_length]
  have hsame : (s.tcp.write data).1.inboundStream = s.tcp.inboundStream := rfl
  unfold Endpoint.step
  rw [haccepted]
  simp only [view, TCPConnection.step, TCPConnection.write_behind, TCPConnection.inboundStream_behind, hsame,
    List.drop_length, List.append_nil, hsupplied, hout]

theorem view_read {n : Nat} {threadData : FDWrapper} (hsupplied : threadData.supplied = s.threadData.supplied)
    (hout : threadData.out.accepted = s.threadData.out.accepted ++ s.tcp.inboundStream.content.take n)
    (hle : n ≤ s.tcp.inboundStream.content.length) :
    s.view.step (.read n) = some
      (view { s with tcp := withInbound s.tcp (s.tcp.inboundStream.popOutput n), threadData := threadData }) := by
  have hcontent : (s.tcp.inboundStream.popOutput n).content = s.tcp.inboundStream.content.drop n := by
    rw [ByteStream.popOutput_eq, Nat.min_eq_left hle]
  -- A read assembles nothing, so no byte is added to what the endpoint has put out.
  have hdrop : (s.tcp.inboundStream.content.drop n).drop s.tcp.inboundStream.content.length = [] := by
    rw [List.drop_drop]
    exact List.drop_of_length_le (by omega)
  have hpopped : (withInbound s.tcp (s.tcp.inboundStream.popOutput n)).inboundStream =
    s.tcp.inboundStream.popOutput n := rfl
  have hread : s.view.c.step (.read n) =
      some (TCPConnection.behind s.handed (withInbound s.tcp (s.tcp.inboundStream.popOutput n))) := by
    have hpop : (s.tcp.inboundStream.read n).2 = s.tcp.inboundStream.popOutput n :=
      congrArg Prod.snd (s.tcp.inboundStream.read_eq n)
    rw [← hpop]
    rfl
  have haccepted : s.view.c.accepted (.read n) = [] := rfl
  unfold Endpoint.step
  rw [haccepted, hread]
  simp only [view, TCPConnection.inboundStream_behind, hpopped, hcontent, hdrop, hsupplied, hout, List.append_nil,
    List.append_assoc, List.take_append_drop]

/-! ## The callbacks -/

variable {adapter : FdAdapter α ω} {answer : Answer ω}

theorem callback1_cases [Inhabited ω] (h : callback1 adapter answer s = .ok s') :
    ∃ a out, adapter.read (answer.adapter.headD default) s.datagramAdapter = .ok (a, out) ∧
      (out = none ∧ s' = { s with datagramAdapter := a } ∨
        ∃ seg, out = some seg ∧
          { s with datagramAdapter := a, returned := s.returned ++ [seg] }.calls (.segmentReceived seg) = .ok s') := by
  unfold callback1 at h
  split at h
  · cases h
  · cases h
    exact ⟨_, _, ‹_›, Or.inl ⟨rfl, rfl⟩⟩
  · exact ⟨_, _, ‹_›, Or.inr ⟨_, rfl, h⟩⟩

theorem callback2_cases (h : callback2 answer s = .ok s') :
    ∃ threadData data, s.threadData.read s.remainingOutboundCapacity answer.read = .ok (threadData, data) ∧
      (threadData.eof = false ∧ s' = { s with threadData := threadData, tcp := (s.tcp.write data).1 } ∨
        threadData.eof = true ∧
          s' = { s with
            threadData := threadData, tcp := (s.tcp.write data).1.endInputStream, outboundShutdown := true }) := by
  unfold callback2 at h
  split at h
  · cases h
  rename_i threadData data hread
  simp only [endOutbound] at h
  split_ifs at h with hless heof
  · cases h
    exact ⟨threadData, data, hread, Or.inr ⟨heof, rfl⟩⟩
  · cases h
    exact ⟨threadData, data, hread, Or.inl ⟨Bool.eq_false_iff.mpr heof, rfl⟩⟩

theorem callback3_cases (h : callback3 answer s = .ok s') :
    ∃ threadData n, n ≤ s.tcp.inboundStream.content.length ∧ threadData.supplied = s.threadData.supplied ∧
      threadData.eof = s.threadData.eof ∧
      threadData.out.accepted = s.threadData.out.accepted ++ s.tcp.inboundStream.content.take n ∧
      ∃ shut, s' = { s with
        threadData := threadData, tcp := withInbound s.tcp (s.tcp.inboundStream.popOutput n), inboundShutdown := shut } := by
  unfold callback3 at h
  split at h
  · cases h
  rename_i threadData inbound hwrite
  obtain ⟨n, hle, rfl, rfl⟩ := FDWrapper.writeFrom_cases hwrite
  simp only at h
  split_ifs at h
  · -- At the end of the stream the descriptor is shut down, which leaves its logs alone.
    split at h
    · cases h
    rename_i threadData hshut
    cases h
    unfold FDWrapper.shutdownWrite at hshut
    split at hshut
    · cases hshut
    · cases hshut
      refine ⟨_, n, hle, ?_, ?_, ?_, _, rfl⟩ <;> rfl
  · cases h
    refine ⟨_, n, hle, ?_, ?_, ?_, _, rfl⟩ <;> rfl

theorem writeAll_cons [Inhabited ω] {answers : List ω} {seg : TCPSegment} {segs written : List TCPSegment} {a a' : α}
    (h : writeAll adapter answers (seg :: segs) a = .ok (a', written)) :
    ∃ a₁ rest, adapter.write (answers.headD default) seg a = .ok a₁ ∧
      writeAll adapter answers.tail segs a₁ = .ok (a', rest) ∧ written = seg :: rest := by
  rw [writeAll] at h
  split at h
  · cases h
  split at h
  · cases h
  · cases h
    exact ⟨_, _, ‹_›, ‹_›, rfl⟩

theorem writeAll_written [Inhabited ω] {answers : List ω} {segs written : List TCPSegment} {a a' : α}
    (h : writeAll adapter answers segs a = .ok (a', written)) : written = segs := by
  induction segs generalizing answers written a with
  | nil =>
    cases h
    rfl
  | cons seg segs ih =>
    obtain ⟨a₁, rest, -, hrest, rfl⟩ := writeAll_cons h
    rw [ih hrest]

theorem callback4_cases [Inhabited ω] (h : callback4 adapter answer s = .ok s') :
    ∃ a, writeAll adapter answer.adapter s.tcp.segmentsOut s.datagramAdapter = .ok (a, s.tcp.segmentsOut) ∧
      s' = { s with
        datagramAdapter := a
        tcp := { s.tcp with segmentsOut := [] }
        handed := s.handed ++ s.tcp.segmentsOut } := by
  unfold callback4 at h
  split at h
  · cases h
  rename_i a written hwrite
  cases h
  obtain rfl := writeAll_written hwrite
  exact ⟨a, hwrite, rfl⟩

/-! ## The moves -/

theorem view_endOutbound (s : TCPSpongeSocket α) :
    s.view.step .endInputStream = some (view { s with tcp := s.tcp.endInputStream, outboundShutdown := true }) := by
  have hcalls : s.calls .endInputStream = .ok { s with tcp := s.tcp.endInputStream } := rfl
  have hview := view_calls hcalls (by simp) (by simp)
  exact hview

/-- A loop in the middle of a call. Rule 2 is asked for only while the owner can still write. -/
structure Orderly (l : Loop RuleName (TCPSpongeSocket α)) : Prop where
  nodup : l.alive.Nodup
  asked : .rule2 ∈ l.asked → l.s.outboundShutdown = false
  ended : l.s.tcp.sender.stream.inputEnded = true → l.s.outboundShutdown = true

theorem Orderly.open {alive asked : List RuleName} (h : Orderly ⟨alive, .rule2 :: asked, s⟩) :
    s.tcp.sender.stream.inputEnded = false := by
  have hopen := h.asked List.mem_cons_self
  have hended := h.ended
  simp only at hopen hended
  rw [hopen] at hended
  exact Bool.eq_false_iff.mpr fun htrue => Bool.false_ne_true (hended htrue)

theorem cancel_cases [Inhabited ω] {i : RuleName} (h : (table adapter i).cancel s = .ok s') :
    i = .rule2 ∧ s' = { s with tcp := s.tcp.endInputStream, outboundShutdown := true } ∨ i ≠ .rule2 ∧ s' = s := by
  cases i with
  | rule2 =>
    cases h
    exact Or.inl ⟨rfl, rfl⟩
  | rule1 | rule3 | rule4 =>
    cases h
    exact Or.inr ⟨by simp, rfl⟩

theorem callback_ends [Inhabited ω] {i : RuleName} (h : (table adapter i).callback answer s = .ok s') :
    s'.outboundShutdown = s.outboundShutdown ∧
        s'.tcp.sender.stream.inputEnded = s.tcp.sender.stream.inputEnded ∨
      i = .rule2 ∧ s'.outboundShutdown = true := by
  cases i with
  | rule1 =>
    obtain ⟨a, out, -, ⟨-, rfl⟩ | ⟨seg, -, hcalls⟩⟩ := callback1_cases h
    · exact Or.inl ⟨rfl, rfl⟩
    · obtain ⟨tcp, hstep, rfl⟩ := calls_cases hcalls
      exact Or.inl ⟨rfl, TCPConnection.inputEnded_step hstep (by simp)⟩
  | rule2 =>
    obtain ⟨threadData, data, -, ⟨-, rfl⟩ | ⟨-, rfl⟩⟩ := callback2_cases h
    · have hwrite : s.tcp.step (.write data) = some (s.tcp.write data).1 := rfl
      exact Or.inl ⟨rfl, TCPConnection.inputEnded_step hwrite (by simp)⟩
    · exact Or.inr ⟨rfl, rfl⟩
  | rule3 =>
    obtain ⟨threadData, n, -, -, -, -, shut, rfl⟩ := callback3_cases h
    exact Or.inl ⟨rfl, rfl⟩
  | rule4 =>
    obtain ⟨a, -, rfl⟩ := callback4_cases h
    exact Or.inl ⟨rfl, rfl⟩

variable {l l' : Loop RuleName (TCPSpongeSocket α)} {A : Answer ω → Prop}

variable {alive asked asked' pre post : List RuleName} {i : RuleName}

theorem Orderly.subset (h : Orderly ⟨alive, asked, s⟩) (hsub : asked' ⊆ asked) : Orderly ⟨alive, asked', s⟩ :=
  ⟨h.nodup, fun hin => h.asked (hsub hin), h.ended⟩

theorem Orderly.cancelled [Inhabited ω] (h : Orderly ⟨pre ++ i :: post, asked, s⟩) (hnot : i ∉ asked)
    (hcancel : (table adapter i).cancel s = .ok s') : Orderly ⟨pre ++ post, asked, s'⟩ := by
  have hnodup := (List.nodup_cons.mp (List.nodup_middle.mp h.nodup)).2
  rcases cancel_cases hcancel with ⟨rfl, rfl⟩ | ⟨-, rfl⟩
  · exact ⟨hnodup, fun hin => absurd hin hnot, fun _ => rfl⟩
  · exact ⟨hnodup, h.asked, h.ended⟩

theorem Orderly.called [Inhabited ω] (h : Orderly ⟨alive, asked, s⟩) (hnot : i ∉ asked)
    (hcall : (table adapter i).callback answer s = .ok s') : Orderly ⟨alive, asked, s'⟩ := by
  rcases callback_ends hcall with ⟨hshut, hended⟩ | ⟨rfl, hshut⟩
  · refine ⟨h.nodup, fun hin => hshut.trans (h.asked hin), fun hend => hshut.trans (h.ended ?_)⟩
    rw [← hended]
    exact hend
  · exact ⟨h.nodup, fun hin => absurd hin hnot, fun _ => hshut⟩

theorem Orderly.not_mem (h : Orderly ⟨pre ++ i :: post, asked', s⟩) (hsub : asked.Sublist pre ∨ asked.Sublist post) :
    i ∉ asked := by
  have hnot := (List.nodup_cons.mp (List.nodup_middle.mp h.nodup)).1
  intro hin
  apply hnot
  rcases hsub with hsub | hsub
  · exact List.mem_append_left _ (hsub.subset hin)
  · exact List.mem_append_right _ (hsub.subset hin)

theorem Orderly.move [Inhabited ω] (h : Orderly l) (hmove : Move (table adapter) A l l') : Orderly l' := by
  cases hmove with
  | ask pre post asked i s hsub hlives hint =>
    refine ⟨h.nodup, fun hin => ?_, h.ended⟩
    rcases List.mem_append.mp hin with hin | hin
    · exact h.asked hin
    · rw [← List.mem_singleton.mp hin] at hint
      simp only [table, wantsOutbound, Bool.and_eq_true, Bool.not_eq_true'] at hint
      exact hint.1.2
  | drop pre post asked i s s' hsub hdefunct hcancel => exact h.cancelled (h.not_mem (.inl hsub)) hcancel
  | hangUp pre post asked i s s' hsub hcancel =>
    exact (h.subset (List.subset_cons_self _ _)).cancelled (h.not_mem (.inr hsub)) hcancel
  | call pre post asked i answer s s' hsub hanswer hcall =>
    exact (h.subset (List.subset_cons_self _ _)).called (h.not_mem (.inr hsub)) hcall
  | pass alive asked i s => exact h.subset (List.subset_cons_self _ _)

/-- What a callback, a tick or a whole move does: calls of the connection, which bring it what the
adapter returned in the meantime. -/
def Advances (s : TCPSpongeSocket α) (heard : List TCPSegment) (s' : TCPSpongeSocket α) : Prop :=
  s.view.Calls heard s'.view ∧ s'.returned = s.returned ++ heard

theorem Advances.of_eq (hview : s'.view = s.view) (hreturned : s'.returned = s.returned) : Advances s [] s' := by
  rw [Advances, hview, hreturned]
  exact ⟨.refl _, (List.append_nil _).symm⟩

theorem advances_endOutbound (s : TCPSpongeSocket α) :
    Advances s [] { s with tcp := s.tcp.endInputStream, outboundShutdown := true } :=
  ⟨.single (view_endOutbound s) (by simp [Endpoint.WritesBefore]), (List.append_nil _).symm⟩

theorem advances_callback [Inhabited ω] (hopen : i = .rule2 → s.tcp.sender.stream.inputEnded = false)
    (h : (table adapter i).callback answer s = .ok s') :
    ∃ heard, Advances s heard s' ∧
      ∀ seg ∈ heard, ∃ a, adapter.read (answer.adapter.headD default) s.datagramAdapter = .ok (a, some seg) := by
  cases i with
  | rule1 =>
    obtain ⟨a, out, hread, ⟨-, rfl⟩ | ⟨seg, rfl, hcalls⟩⟩ := callback1_cases h
    · exact ⟨[], .of_eq rfl rfl, by simp⟩
    · have hview := view_calls hcalls (by simp) (by simp)
      obtain ⟨tcp, -, rfl⟩ := calls_cases hcalls
      refine ⟨[seg], ⟨.single hview (by simp [Endpoint.WritesBefore]), rfl⟩, ?_⟩
      simp only [List.mem_singleton, forall_eq]
      exact ⟨a, hread⟩
  | rule2 =>
    obtain ⟨threadData, data, hread, hcases⟩ := callback2_cases h
    obtain ⟨hfits, -, hfd⟩ := FDWrapper.read_cases hread
    have hwrite := view_write (s := s) threadData hfits (by rw [hfd]) (by rw [hfd])
    have hfirst : Endpoint.Calls s.view [] _ := .single hwrite fun _ _ => hopen rfl
    -- The owner's end is closed in the same callback in which its last bytes are read.
    rcases hcases with ⟨-, rfl⟩ | ⟨-, rfl⟩
    · exact ⟨[], ⟨hfirst, (List.append_nil _).symm⟩, by simp⟩
    · exact ⟨[], ⟨hfirst.trans (advances_endOutbound _).1, (List.append_nil _).symm⟩, by simp⟩
  | rule3 =>
    obtain ⟨threadData, n, hle, hsupplied, -, haccepted, shut, rfl⟩ := callback3_cases h
    have hread := view_read hsupplied haccepted hle
    exact ⟨[], ⟨.single hread (by simp [Endpoint.WritesBefore]), (List.append_nil _).symm⟩, by simp⟩
  | rule4 =>
    obtain ⟨a, -, rfl⟩ := callback4_cases h
    -- The queue moves behind the segments that the adapter has got: for the view nothing happens.
    refine ⟨[], .of_eq ?_ rfl, by simp⟩
    simp only [view, TCPConnection.behind, List.append_nil]
    rfl

theorem advances_cancel [Inhabited ω] (h : (table adapter i).cancel s = .ok s') : Advances s [] s' := by
  rcases cancel_cases h with ⟨-, rfl⟩ | ⟨-, rfl⟩
  · exact advances_endOutbound s
  · exact .of_eq rfl rfl

theorem advances_move [Inhabited ω] (h : Orderly l) (hmove : Move (table adapter) A l l') :
    ∃ heard, Advances l.s heard l'.s ∧ ∀ seg ∈ heard, ∃ answer a, A answer ∧
      adapter.read (answer.adapter.headD default) l.s.datagramAdapter = .ok (a, some seg) := by
  cases hmove with
  | ask | pass => exact ⟨[], .of_eq rfl rfl, by simp⟩
  | drop pre post asked i s s' hsub hdefunct hcancel => exact ⟨[], advances_cancel hcancel, by simp⟩
  | hangUp pre post asked i s s' hsub hcancel => exact ⟨[], advances_cancel hcancel, by simp⟩
  | call pre post asked i answer s s' hsub hanswer hcall =>
    have hopen : i = .rule2 → s.tcp.sender.stream.inputEnded = false := by
      rintro rfl
      exact h.open
    obtain ⟨heard, hadvances, hread⟩ := advances_callback hopen hcall
    refine ⟨heard, hadvances, fun seg hseg => ?_⟩
    obtain ⟨a, ha⟩ := hread seg hseg
    exact ⟨answer, a, hanswer, ha⟩

/-! ## The thread -/

theorem turn_inv [Inhabited ω] {I : Loop RuleName (TCPSpongeSocket α) → Prop} {t : Turn ω} {go : Bool}
    {rules rules' : List RuleName} (hA : Answers A t.poll) (h : turn adapter rules s t = .ok (go, rules', s'))
    (hI : I ⟨rules, [], s⟩) (hmove : ∀ l l', I l → Move (table adapter) A l l' → I l')
    (htick : ∀ rules s ms tcp a, I ⟨rules, [], s⟩ → s.tcp.step (.tick ms) = some tcp →
      adapter.tick t.tick ms s.datagramAdapter = .ok a →
      I ⟨rules, [], { s with tcp := tcp, datagramAdapter := a, baseTime := t.nextTime }⟩) : I ⟨rules', [], s'⟩ := by
  unfold turn at h
  split at h
  · cases h
  rename_i result left s₁ hwait
  have hwaited := waitNextEvent_inv hA hwait hI hmove
  -- The loop has ended, the connection is active and its clock moves, or it is not.
  split_ifs at h
  · cases h
    exact hwaited
  · simp only at h
    split at h
    · cases h
    rename_i s₂ hcalls
    split at h
    · cases h
    rename_i a ha
    cases h
    obtain ⟨tcp, hstep, rfl⟩ := calls_cases hcalls
    exact htick _ s₁ _ tcp a hwaited hstep ha
  · cases h
    exact hwaited

theorem Thread.step_inv [Inhabited ω] {I : Loop RuleName (TCPSpongeSocket α) → Prop} {t : Turn ω} {th th' : Thread α}
    (hA : Answers A t.poll) (h : th.step adapter t = .ok th') (hI : I ⟨th.rules, [], th.socket⟩)
    (hmove : ∀ l l', I l → Move (table adapter) A l l' → I l')
    (htick : ∀ rules s ms tcp a, I ⟨rules, [], s⟩ → s.tcp.step (.tick ms) = some tcp →
      adapter.tick t.tick ms s.datagramAdapter = .ok a →
      I ⟨rules, [], { s with tcp := tcp, datagramAdapter := a, baseTime := t.nextTime }⟩)
    (hleave : ∀ rules s, I ⟨rules, [], s⟩ → I ⟨rules, [], { s with baseTime := t.nextTime }⟩) :
    I ⟨th'.rules, [], th'.socket⟩ := by
  unfold Thread.step at h
  split_ifs at h
  · split at h
    · cases h
    · cases h
      exact turn_inv hA ‹_› hI hmove htick
    · cases h
      exact hleave _ _ (turn_inv hA ‹_› hI hmove htick)
  · cases h
    exact hleave _ _ hI

theorem advances_tick {ms now : Nat} {tcp : TCPConnection} {a : α} (h : s.tcp.step (.tick ms) = some tcp) :
    Advances s [] { s with tcp := tcp, datagramAdapter := a, baseTime := now } := by
  have hcalls : s.calls (.tick ms) = .ok { s with tcp := tcp } := by
    unfold calls
    rw [h]
  have hview := view_calls hcalls (by simp) (by simp)
  exact ⟨.single hview (by simp [Endpoint.WritesBefore]), (List.append_nil _).symm⟩

theorem Orderly.tick {rules : List RuleName} {ms now : Nat} {tcp : TCPConnection} {a : α} (h : Orderly ⟨rules, [], s⟩)
    (hstep : s.tcp.step (.tick ms) = some tcp) :
    Orderly ⟨rules, [], { s with tcp := tcp, datagramAdapter := a, baseTime := now }⟩ := by
  refine ⟨h.nodup, by simp, fun hended => h.ended ?_⟩
  rw [← TCPConnection.inputEnded_step hstep (by simp)]
  exact hended

/-- The thread has made the calls that lead to what is seen of it, with all that the adapter returned. -/
structure Runs (e : Endpoint) (l : Loop RuleName (TCPSpongeSocket α)) : Prop where
  orderly : Orderly l
  calls : e.Calls l.s.returned l.s.view

variable {e : Endpoint}

theorem Runs.advance {heard : List TCPSegment} (h : e.Calls s.returned s.view) (hadvances : Advances s heard s') :
    e.Calls s'.returned s'.view := by
  rw [hadvances.2]
  exact h.trans hadvances.1

theorem Runs.step [Inhabited ω] {t : Turn ω} {th th' : Thread α} (h : Runs e ⟨th.rules, [], th.socket⟩)
    (hstep : th.step adapter t = .ok th') : Runs e ⟨th'.rules, [], th'.socket⟩ := by
  refine Thread.step_inv (answers_any t.poll) hstep h ?_ ?_ ?_
  · intro l l' hl hmove
    obtain ⟨heard, hadvances, -⟩ := advances_move hl.orderly hmove
    exact ⟨hl.orderly.move hmove, Runs.advance hl.calls hadvances⟩
  · intro rules s ms tcp a hl htick _
    exact ⟨hl.orderly.tick htick, Runs.advance hl.calls (advances_tick htick)⟩
  · intro rules s hl
    exact ⟨⟨hl.orderly.nodup, hl.orderly.asked, hl.orderly.ended⟩, hl.calls⟩

theorem Thread.next_cases [Inhabited ω] {t : Turn ω} {th th' : Thread α} (h : th.next adapter t = some th') :
    th.step adapter t = .ok th' := by
  unfold Thread.next at h
  cases hstep : th.step adapter t with
  | error thrown => simp [hstep, Except.toOption] at h
  | ok th₁ =>
    rw [hstep, Except.toOption, Option.some.injEq] at h
    rw [h]

theorem connect_eq (adapter : FdAdapter α ω) (cfg : TCPConfig) (random : WrappingInt32) (ad : FdAdapterConfig) (a : α)
    (now : Nat) :
    connect adapter cfg random ad a now = .ok { phase := .connecting, rules := rules, socket :=
      { initializeTCP adapter cfg random ad a with tcp := (TCPConnection.new cfg random).connect, baseTime := now } } := by
  unfold connect
  have hstate : (initializeTCP adapter cfg random ad a).tcp.connect.state = .ofState .synSent :=
    TCPConnection.state_connect_new cfg random
  simp only [hstate, ne_eq, not_true, if_false]
  rfl

theorem nodup_rules : rules.Nodup := by decide

/-- The thread as `connect` or `listen_and_accept` starts it. -/
inductive Starts (adapter : FdAdapter α ω) (cfg : TCPConfig) (random : WrappingInt32) (th : Thread α) : Prop where
  | connects (ad : FdAdapterConfig) (a : α) (now : Nat) (h : connect adapter cfg random ad a now = .ok th)
  | listens (ad : FdAdapterConfig) (a : α) (now : Nat) (h : listenAndAccept adapter cfg random ad a now = th)

theorem Starts.runs {cfg : TCPConfig} {random : WrappingInt32} {th : Thread α} (h : Starts adapter cfg random th) :
    Runs (Endpoint.new cfg random) ⟨th.rules, [], th.socket⟩ ∧ th.socket.returned = [] := by
  cases h with
  | connects ad a now h =>
    rw [connect_eq] at h
    cases h
    have hconnect : (TCPConnection.new cfg random).step .connect = some (TCPConnection.new cfg random).connect := rfl
    have hview : (initializeTCP adapter cfg random ad a).view.step .connect = some
        (view { initializeTCP adapter cfg random ad a with tcp := (TCPConnection.new cfg random).connect }) :=
      view_calls rfl (by simp) (by simp)
    refine ⟨⟨⟨nodup_rules, by simp, fun hended => ?_⟩, .single hview (by simp [Endpoint.WritesBefore])⟩, rfl⟩
    simp only [TCPConnection.inputEnded_step hconnect (by simp)] at hended
    cases hended
  | listens ad a now h =>
    rw [← h]
    exact ⟨⟨⟨nodup_rules, by simp, fun hended => by cases hended⟩, .refl _⟩, rfl⟩

/-- Whatever the adapter, the kernel and the owner do, a socket is a connection: there are calls that
lead a connection to the state in which the socket's is, but for the segments that the adapter has been
given. They bring it the segments that the adapter returned, each once and in order. The bytes that were
read from the owner are what was written to it, all of them and before the end, and what it has put out
is what the owner has got, with what still waits. -/
theorem runs_connection [Inhabited ω] (adapter : FdAdapter α ω) (cfg : TCPConfig) (random : WrappingInt32)
    (start th : Thread α) (turns : List (Turn ω)) (hstart : Starts adapter cfg random start)
    (h : run (Thread.next adapter) start turns = some th) :
    ∃ ops e, run Endpoint.step (Endpoint.new cfg random) ops = some e ∧
      ops.flatMap TCPConnection.Op.heard = th.socket.returned ∧
      AllSteps Endpoint.step Endpoint.WritesBefore (Endpoint.new cfg random) ops ∧
      e.c = { th.socket.tcp with segmentsOut := th.socket.handed ++ th.socket.tcp.segmentsOut } ∧
      e.input = th.socket.threadData.supplied ∧
      e.output = th.socket.threadData.out.accepted ++ th.socket.tcp.inboundStream.content := by
  have hruns : Runs (Endpoint.new cfg random) ⟨th.rules, [], th.socket⟩ :=
    run_inv (I := fun th => Runs (Endpoint.new cfg random) ⟨th.rules, [], th.socket⟩)
      (fun _ _ _ hI hnext => hI.step (Thread.next_cases hnext)) hstart.runs.1 h
  obtain ⟨ops, hrun, hheard, hall⟩ := hruns.calls
  exact ⟨ops, _, hrun, hheard, hall, rfl, rfl, rfl⟩

/-- The owner has written two bytes. -/
def hiRead : ReadResult := .bytes [104, 105] (by decide)

/-- A turn in which the answer to the SYN is heard, the two bytes are read and three segments go out. -/
def firstTurn : Turn UDPAnswer where
  poll := .ready [{ pollIn := true }, { pollIn := true }, {}, { pollOut := true }]
    [{ adapter := [{ recv := .datagram {} [0, 0, 0, 0, 0, 0, 0, 0, 0, 0, 0, 8, 80, 18, 0, 8, 175, 221, 0, 0] (by decide) }] },
      { read := hiRead }, {}, { adapter := [20, 20, 22].map fun n => { send := { value := n } } }]
  nextTime := 10
  tick := default

theorem runs_connection_first :
    ∃ start th ops e, connect TCPOverUDPSocketAdapter.adapter {} ⟨7⟩ {} {} 0 = .ok start ∧
      run (Thread.next TCPOverUDPSocketAdapter.adapter) start [firstTurn] = some th ∧
      run Endpoint.step (Endpoint.new {} ⟨7⟩) ops = some e ∧ (ops.flatMap TCPConnection.Op.heard).length = 1 ∧
      th.socket.handed.length = 3 ∧ e.input = [104, 105] ∧
      e.c = { th.socket.tcp with segmentsOut := th.socket.handed ++ th.socket.tcp.segmentsOut } := by
  have hstart := connect_eq TCPOverUDPSocketAdapter.adapter {} ⟨7⟩ {} {} 0
  have hrun : ∀ start ∈ (connect TCPOverUDPSocketAdapter.adapter {} ⟨7⟩ {} {} 0).toOption,
      ∃ th, run (Thread.next TCPOverUDPSocketAdapter.adapter) start [firstTurn] = some th ∧
        th.socket.returned.length = 1 ∧ th.socket.handed.length = 3 ∧ th.socket.threadData.supplied = [104, 105] := by
    decide +kernel
  obtain ⟨th, hth, hreturned, hhanded, hsupplied⟩ := hrun _ (by rw [hstart]; rfl)
  obtain ⟨ops, e, hops, hheard, -, hc, hinput, -⟩ := runs_connection _ _ _ _ th _ (.connects {} {} 0 hstart) hth
  exact ⟨_, th, ops, e, hstart, hth, hops, hheard ▸ hreturned, hhanded, hinput.trans hsupplied, hc⟩

end TCPSpongeSocket

end Sponge
