import Sponge.Connection.Moves
import Sponge.Lib.Run

/-!
# Two connections and a network between them

Each connection is used by its owner, who writes, reads, ends the stream and lets
time pass. The network may deliver any segment that one connection ever sent to the
other, at any time, again or never. The connections keep what they send in
`segments_out`, so these are also the segments in the network.
-/

namespace Sponge

open Run

/-- A connection with what went through it. -/
structure Endpoint where
  c : TCPConnection
  /-- Every byte that `write` ever took. -/
  input : List UInt8 := []
  /-- Every byte that was ever written to the inbound stream. -/
  output : List UInt8 := []
  deriving Repr, DecidableEq

namespace Endpoint

def new (cfg : TCPConfig) (random : WrappingInt32) : Endpoint := { c := TCPConnection.new cfg random }

def step (e : Endpoint) (op : TCPConnection.Op) : Option Endpoint :=
  match e.c.step op with
  | none => none
  | some c => some
    { c := c
      input := e.input ++ e.c.accepted op
      output := e.output ++ c.inboundStream.content.drop e.c.inboundStream.content.length }

variable {e e' : Endpoint} {op : TCPConnection.Op}

theorem step_cases (h : e.step op = some e') :
    ∃ c, e.c.step op = some c ∧ e' =
      { c := c
        input := e.input ++ e.c.accepted op
        output := e.output ++ c.inboundStream.content.drop e.c.inboundStream.content.length } := by
  unfold step at h
  split at h
  · cases h
  · exact ⟨_, ‹_›, (Option.some.inj h).symm⟩

theorem input_step (h : e.step op = some e') : e.input <+: e'.input := by
  obtain ⟨c, -, rfl⟩ := step_cases h
  exact List.prefix_append _ _

end Endpoint

inductive Side where
  | a
  | b
  deriving Repr, DecidableEq

def Side.other : Side → Side
  | .a => .b
  | .b => .a

@[simp] theorem Side.other_other (p : Side) : p.other.other = p := by
  cases p <;> rfl

structure Duplex where
  a : Endpoint
  b : Endpoint
  deriving Repr, DecidableEq

namespace Duplex

inductive Action where
  | connect (p : Side)
  | write (p : Side) (data : List UInt8)
  | endInputStream (p : Side)
  | tick (p : Side) (msSinceLastTick : Nat)
  | read (p : Side) (len : Nat)
  /-- The `i`-th segment of the other side arrives. -/
  | deliver (p : Side) (i : Nat)
  deriving Repr, DecidableEq

def start (cfg : Side → TCPConfig) (random : Side → WrappingInt32) : Duplex :=
  { a := Endpoint.new (cfg .a) (random .a), b := Endpoint.new (cfg .b) (random .b) }

def get (s : Duplex) : Side → Endpoint
  | .a => s.a
  | .b => s.b

def set (s : Duplex) (p : Side) (e : Endpoint) : Duplex :=
  match p with
  | .a => { s with a := e }
  | .b => { s with b := e }

/-- The call that an action makes, and where. `none` is the delivery of something never sent. -/
def callOf (s : Duplex) : Action → Option (Side × TCPConnection.Op)
  | .connect p => some (p, .connect)
  | .write p data => some (p, .write data)
  | .endInputStream p => some (p, .endInputStream)
  | .tick p ms => some (p, .tick ms)
  | .read p len => some (p, .read len)
  | .deliver p i =>
    match (s.get p.other).c.segmentsOut[i]? with
    | none => none
    | some seg => some (p, .segmentReceived seg)

def step (s : Duplex) (action : Action) : Option Duplex :=
  match s.callOf action with
  | none => none
  | some (p, op) =>
    match (s.get p).step op with
    | none => none
    | some e => some (s.set p e)

variable {s s' : Duplex} {action : Action} {p : Side} {e : Endpoint}

@[simp] theorem get_start (cfg : Side → TCPConfig) (random : Side → WrappingInt32) (p : Side) :
    (start cfg random).get p = Endpoint.new (cfg p) (random p) := by
  cases p <;> rfl

@[simp] theorem get_set_self (s : Duplex) (p : Side) (e : Endpoint) : (s.set p e).get p = e := by
  cases p <;> rfl

@[simp] theorem get_set_other (s : Duplex) (p : Side) (e : Endpoint) : (s.set p e).get p.other = s.get p.other := by
  cases p <;> rfl

/-- A condition on the calls that are made, with the endpoint and its peer. -/
def AtCall (P : Endpoint → TCPConnection.Op → Prop) (s : Duplex) (action : Action) : Prop :=
  ∀ call ∈ s.callOf action, P (s.get call.1) call.2

instance (P : Endpoint → TCPConnection.Op → Prop) [∀ e op, Decidable (P e op)] (s : Duplex) (action : Action) :
    Decidable (AtCall P s action) :=
  match h : s.callOf action with
  | none => .isTrue (by simp [AtCall, h])
  | some call => decidable_of_iff (P (s.get call.1) call.2) (by simp [AtCall, h])

theorem step_cases (h : s.step action = some s') :
    ∃ p op e, s.callOf action = some (p, op) ∧ (s.get p).step op = some e ∧ s' = s.set p e ∧
      ∀ seg, op = .segmentReceived seg → seg ∈ (s.get p.other).c.segmentsOut := by
  unfold step at h
  split at h
  · cases h
  · rename_i p op hcall
    split at h
    · cases h
    · refine ⟨p, op, _, hcall, ‹_›, (Option.some.inj h).symm, ?_⟩
      rintro seg rfl
      cases action with
      | deliver p' i =>
        simp only [callOf] at hcall
        split at hcall
        · cases hcall
        · cases hcall
          exact List.mem_of_getElem? ‹_›
      | _ => cases hcall

theorem eq_or_other (p q : Side) : q = p ∨ q = p.other := by
  cases p <;> cases q <;> simp [Side.other]

theorem input_mono (h : s.step action = some s') (p : Side) : (s.get p).input <+: (s'.get p).input := by
  obtain ⟨q, op, e, -, hstep, rfl, -⟩ := step_cases h
  rcases eq_or_other q p with rfl | rfl
  · rw [get_set_self]
    exact Endpoint.input_step hstep
  · rw [get_set_other]

/-- A relation between an endpoint and its peer holds after a step, when it holds after a call on
either of the two. -/
theorem pair_step {I : Endpoint → Endpoint → Prop} (p : Side) (hstep : s.step action = some s')
    (hsend : ∀ op e, s.callOf action = some (p, op) → (s.get p).step op = some e →
      (∀ seg, op = .segmentReceived seg → seg ∈ (s.get p.other).c.segmentsOut) → I e (s.get p.other))
    (hreceive : ∀ op e, s.callOf action = some (p.other, op) → (s.get p.other).step op = some e →
      (∀ seg, op = .segmentReceived seg → seg ∈ (s.get p).c.segmentsOut) → I (s.get p) e) :
    I (s'.get p) (s'.get p.other) := by
  obtain ⟨q, op, e, hcall, he, rfl, hseg⟩ := step_cases hstep
  rcases eq_or_other p q with rfl | rfl
  · rw [get_set_self, get_set_other]
    exact hsend op e hcall he hseg
  · have hget : (s.set p.other e).get p = s.get p := by
      rw [← Side.other_other p, Side.other_other p.other]
      exact get_set_other s p.other e
    rw [Side.other_other] at hseg
    rw [hget, get_set_self]
    exact hreceive op e hcall he hseg

end Duplex

end Sponge
