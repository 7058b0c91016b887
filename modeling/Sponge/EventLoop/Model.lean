import Sponge.Descriptor

/-!
# The event loop

`libsponge/util/eventloop.cc`. The callbacks of a rule are functions on the state of
the program, and the list of rules holds names, which a table turns into rules. What
`poll` reports is an argument, and so is what the kernel will answer to the callback
of a rule that is ready.
-/

namespace Sponge

inductive Direction where
  | pollIn
  | pollOut
  deriving Repr, DecidableEq

/-- The flags that `poll` sets for a descriptor. -/
structure Revents where
  pollIn : Bool := false
  pollOut : Bool := false
  pollErr : Bool := false
  pollHup : Bool := false
  pollNval : Bool := false
  deriving Repr, DecidableEq

/-- `events` is empty for a rule that is not interested. -/
structure Pollfd (ρ : Type) where
  events : Option Direction
  revents : Revents := {}
  answer : ρ

/-- What the call of `poll` does: nothing is ready in time, it fails, or it reports flags for the
descriptors in their order, with what the kernel will answer to the callbacks. -/
inductive Poll (ρ : Type) where
  | timeout
  | failed (errno : Nat)
  | ready (revents : List Revents) (answers : List ρ)

def eintr : Nat := 4

namespace Pollfd

def pollError {ρ : Type} (p : Pollfd ρ) : Bool := p.revents.pollErr || p.revents.pollNval

/-- `revents & events`. -/
def pollReady {ρ : Type} (p : Pollfd ρ) : Bool :=
  match p.events with
  | none => false
  | some .pollIn => p.revents.pollIn
  | some .pollOut => p.revents.pollOut

def hungUp {ρ : Type} (p : Pollfd ρ) : Bool := p.revents.pollHup && p.events.isSome && !p.pollReady

end Pollfd

namespace EventLoop

variable {ι σ ρ : Type}

structure Rule (σ ρ : Type) where
  fd : σ → FDWrapper
  direction : Direction
  callback : ρ → σ → Except Thrown σ
  interest : σ → Bool := fun _ => true
  cancel : σ → Except Thrown σ := .ok

def Rule.serviceCount (rule : Rule σ ρ) (s : σ) : UInt32 :=
  match rule.direction with
  | .pollIn => (rule.fd s).readCount
  | .pollOut => (rule.fd s).out.writeCount

/-- The first loop cancels the rule: there is no more to read, or the descriptor is closed. -/
def Rule.defunct (rule : Rule σ ρ) (s : σ) : Bool :=
  (rule.direction == .pollIn && (rule.fd s).eof) || (rule.fd s).closed

inductive Result where
  | success
  | timeout
  | exit
  deriving Repr, DecidableEq

def addRule (rules : List ι) (i : ι) : List ι := rules ++ [i]

section

variable (table : ι → Rule σ ρ)

/-- The loop that sets up the `pollfd` of each rule: the rules that are left, their events and the
new state. -/
def scan : List ι → σ → Except Thrown (List ι × List (Option Direction) × σ)
  | [], s => .ok ([], [], s)
  | i :: rules, s =>
    if (table i).defunct s then
      match (table i).cancel s with
      | .error thrown => .error thrown
      | .ok s => scan rules s
    else
      let events := if (table i).interest s then some (table i).direction else none
      match scan rules s with
      | .error thrown => .error thrown
      | .ok (kept, asked, s) => .ok (i :: kept, events :: asked, s)

/-- The loop over the results, from place `idx` on. -/
def serve (pollfds : List (Pollfd ρ)) : Nat → List ι → σ → Except Thrown (List ι × σ)
  | _, [], s => .ok ([], s)
  | idx, i :: rules, s =>
    match pollfds[idx]? with
    | none => .error (.outOfRange "pollfds")  -- a read past the end, which nothing checks
    | some p =>
      if p.pollError then .error (.runtimeError "EventLoop: error on polled file descriptor")
      else if p.hungUp then
        match (table i).cancel s with
        | .error thrown => .error thrown
        | .ok s => serve pollfds (idx + 1) rules s
      else if p.pollReady then
        match (table i).callback p.answer s with
        | .error thrown => .error thrown
        | .ok s' =>
          if (table i).serviceCount s = (table i).serviceCount s' ∧ (table i).interest s' then
            .error (.runtimeError
              "EventLoop: busy wait detected: callback did not read/write fd and is still interested")
          else
            match serve pollfds (idx + 1) rules s' with
            | .error thrown => .error thrown
            | .ok (kept, s) => .ok (i :: kept, s)
      else
        match serve pollfds (idx + 1) rules s with
        | .error thrown => .error thrown
        | .ok (kept, s) => .ok (i :: kept, s)

/-- The results for the descriptors. No flag is set for those behind the last one of `revents`. -/
def pollfds [Inhabited ρ] (asked : List (Option Direction)) (revents : List Revents) (answers : List ρ) :
    List (Pollfd ρ) :=
  asked.mapIdx fun idx events =>
    { events := events, revents := revents.getD idx {}, answer := answers.getD idx default }

/-- An error of `poll` other than an interruption is caught, and no flag is set then. -/
def waitNextEvent [Inhabited ρ] (rules : List ι) (s : σ) (poll : Poll ρ) : Except Thrown (Result × List ι × σ) :=
  match scan table rules s with
  | .error thrown => .error thrown
  | .ok (kept, asked, s) =>
    if asked.all Option.isNone then .ok (.exit, kept, s)
    else
      let served (revents : List Revents) (answers : List ρ) :=
        match serve table (pollfds asked revents answers) 0 kept s with
        | .error thrown => .error thrown
        | .ok (kept, s) => .ok (.success, kept, s)
      match poll with
      | .timeout => .ok (.timeout, kept, s)
      | .failed errno => if errno = eintr then .ok (.exit, kept, s) else served [] []
      | .ready revents answers => served revents answers

end

end EventLoop

end Sponge
