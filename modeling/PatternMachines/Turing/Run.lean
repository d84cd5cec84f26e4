import PatternMachines.Text.Part
import PatternMachines.Turing.Machine

/-!
# Runs

A run begins with the input on the tape, followed by the end marker where the machine has one. The
tape is a list of cells that grows by a blank cell when the head stands outside it. In each round
the machine first looks whether its state accepts, then whether it rejects, and otherwise takes the
first transition that fits. A run takes at most a thousand transitions.

## Main definitions

* `Turing.Configuration`: state, tape and head.
* `Turing.Machine.initialTape`: the tape of an input.
* `Turing.Machine.step`: one round.
* `Turing.Run`, `Turing.Machine.run`: runs, with the configurations they pass through.
-/

namespace PatternMachines.Turing

/-- What a machine is in the middle of. -/
structure Configuration where
  /-- The current state, where there is one. -/
  state : Option String
  /-- The cells that have been used. -/
  tape : List Symbol
  /-- The cell under the head, counted from the first cell of the tape. It may lie one cell outside
  the tape. -/
  head : Int
  deriving DecidableEq, Repr

/-- Why a run ends. -/
inductive HaltReason where
  /-- An accepting state was reached. -/
  | accept
  /-- The rejecting state was reached. -/
  | rejectState
  /-- No transition fits. -/
  | noTransition
  /-- The number of transitions is used up. -/
  | stepLimit
  /-- The input holds the end marker, so that its end cannot be marked. -/
  | invalidInput
  deriving DecidableEq, Repr

/-- The name of a reason in reports. -/
def HaltReason.name : HaltReason → String
  | .accept => "accept"
  | .rejectState => "reject_state"
  | .noTransition => "no_transition"
  | .stepLimit => "step_limit"
  | .invalidInput => "invalid_input"

/-- A transition that was taken, with what it led to. -/
structure Step where
  /-- The number of the transition, counted from one. -/
  number : Nat
  /-- The transition. -/
  transition : Transition
  /-- The configuration after the transition. -/
  after : Configuration
  deriving DecidableEq, Repr

/-- The course of a run. -/
structure Run where
  /-- Why the run ended. -/
  reason : HaltReason
  /-- How many transitions were taken. -/
  steps : Nat
  /-- The configuration in which the run ended. -/
  final : Configuration
  /-- The transitions that were taken, in order. -/
  trace : List Step
  deriving DecidableEq, Repr

/-- Whether the run accepts its input. -/
def Run.accepted (r : Run) : Bool := r.reason == .accept

/-- How many transitions a run may take. -/
def maxSteps : Nat := 1000

namespace Machine

/-- The tape of an input: its symbols, the end marker where there is one, and a blank cell if the
tape would be empty. -/
def initialTape (m : Machine) (input : String) : List Symbol :=
  match Symbol.ofText input ++ m.endMarker.toList with
  | [] => [m.blank]
  | cells => cells

/-- The configuration in which a run begins. -/
def initial (m : Machine) (input : String) : Configuration :=
  ⟨m.start, m.initialTape input, 0⟩

/-- The configuration with a blank cell added to the tape where the head stands outside it. -/
def reachHead (m : Machine) (c : Configuration) : Configuration :=
  if c.head < 0 then { c with tape := m.blank :: c.tape, head := 0 }
  else
    match c.tape[c.head.toNat]? with
    | some _ => c
    | none => { c with tape := c.tape ++ [m.blank], head := c.tape.length }

/-- The effect of a transition on a configuration whose head stands on the tape. -/
def apply (c : Configuration) (t : Transition) : Configuration where
  state := some t.target
  tape := c.tape.set c.head.toNat t.write
  head :=
    if t.move = moveLeft then c.head - 1
    else if t.move = moveRight then c.head + 1
    else c.head

/-- Whether a configuration accepts or rejects at once. -/
def verdict (m : Machine) (c : Configuration) : Option HaltReason :=
  if c.state.any m.accepting.contains then some .accept
  else if c.state = m.reject then some .rejectState
  else none

/-- The transition that a configuration takes, from its head on the tape. -/
def applicable (m : Machine) (c : Configuration) : Option Transition :=
  c.tape[c.head.toNat]?.bind fun x => m.transitionAt c.state x

/-- The run from a configuration that has taken `taken` transitions and may take `left` more. -/
def runFrom (m : Machine) (taken : Nat) : (left : Nat) → Configuration → Run
  | 0, c => ⟨.stepLimit, taken, c, []⟩
  | left + 1, c =>
    match m.verdict c with
    | some reason => ⟨reason, taken, c, []⟩
    | none =>
      let c := m.reachHead c
      match m.applicable c with
      | none => ⟨.noTransition, taken, c, []⟩
      | some t =>
        let after := apply c t
        let r := m.runFrom (taken + 1) left after
        { r with trace := ⟨taken + 1, t, after⟩ :: r.trace }

/-- Whether the input holds the end marker as a part. -/
def holdsEndMarker (m : Machine) (input : String) : Bool :=
  m.endMarker.any fun marker => Text.hasPart input marker

/-- The run on an input. An input that holds the end marker is refused without a step. -/
def run (m : Machine) (input : String) : Run :=
  if m.holdsEndMarker input then ⟨.invalidInput, 0, m.initial input, []⟩
  else m.runFrom 0 maxSteps (m.initial input)

/-- Whether the machine accepts the input. -/
def accepts (m : Machine) (input : String) : Bool := (m.run input).accepted

end Machine

end PatternMachines.Turing
