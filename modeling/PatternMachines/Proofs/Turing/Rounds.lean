import PatternMachines.Turing.Run

/-!
# Rounds of a run

A round either ends the run or takes a transition. A run is the repetition of rounds until one of
them ends it or the transitions that it may take are used up. What a run reports, and the
configurations that it passes through, are given by the configurations to which the transitions
lead one after another.

## Main definitions

* `Turing.Round`, `Turing.Machine.round`: what one round comes to.
* `Turing.Machine.after`: the configuration to which a number of transitions leads.
* `Turing.Run.configurations`: the configurations that a run passes through.

## Main results

* `Turing.Machine.getElem?_configurations`: the configurations of a run, one after another.
* `Turing.Machine.runFrom_eq_of_ends`, `Turing.Machine.runFrom_eq_of_after`: how a run ends.
* `Turing.Machine.invariant_of_after`: what each transition keeps holds along the run.
-/

namespace PatternMachines.Turing

/-! ### The beginning of a run -/

theorem occursIn_iff_isInfix {part whole : List Char} :
    Text.occursIn part whole = true ↔ part <:+: whole := by
  induction whole with
  | nil => rw [Text.occursIn, List.isEmpty_iff, List.infix_nil]
  | cons c whole ih =>
    rw [Text.occursIn, Bool.or_eq_true, List.isPrefixOf_iff_prefix, ih, List.infix_cons_iff]

namespace Machine

variable {m : Machine} {input : String}

theorem holdsEndMarker_iff : m.holdsEndMarker input = true ↔
    ∃ marker, m.endMarker = some marker ∧ marker.toList <:+: input.toList := by
  rw [holdsEndMarker, Option.any_eq_true]
  simp only [Text.hasPart, occursIn_iff_isInfix]

theorem not_holdsEndMarker_iff : ¬m.holdsEndMarker input = true ↔
    ∀ marker, m.endMarker = some marker → ¬marker.toList <:+: input.toList := by
  rw [holdsEndMarker_iff, not_exists]
  simp only [not_and]

theorem run_eq_runFrom (h : ¬m.holdsEndMarker input = true) :
    m.run input = m.runFrom 0 maxSteps (m.initial input) := if_neg h

end Machine

/-! ### One round -/

/-- What one round comes to. -/
inductive Round where
  /-- The run ends. -/
  | ends (reason : HaltReason) (final : Configuration)
  /-- A transition is taken. -/
  | takes (t : Transition) (after : Configuration)
  deriving DecidableEq

/-- The run with one more transition before it. -/
def Run.precededBy (r : Run) (step : Step) : Run := { r with trace := step :: r.trace }

/-- The configurations that a run passes through, from the one in which it begins. -/
def Run.configurations (r : Run) (first : Configuration) : List Configuration :=
  first :: r.trace.map Step.after

theorem Run.configurations_precededBy {r : Run} {step : Step} {first : Configuration} :
    (r.precededBy step).configurations first = first :: r.configurations step.after := rfl

namespace Machine

variable {m : Machine} {c c' final : Configuration} {t : Transition} {reason : HaltReason}
  {taken left n i : Nat}

/-- One round in a configuration. -/
def round (m : Machine) (c : Configuration) : Round :=
  match m.verdict c with
  | some reason => .ends reason c
  | none =>
    match m.applicable (m.reachHead c) with
    | none => .ends .noTransition (m.reachHead c)
    | some t => .takes t (apply (m.reachHead c) t)

/-- The state does not change when the head is brought onto the tape. -/
theorem state_reachHead (m : Machine) (c : Configuration) : (m.reachHead c).state = c.state := by
  rw [reachHead]
  split
  · rfl
  · split
    · rfl
    · rfl

theorem round_of_verdict (h : m.verdict c = some reason) : m.round c = .ends reason c := by
  rw [round, h]

/-- The configuration to which `n` transitions lead, if so many are taken. -/
def after (m : Machine) : Nat → Configuration → Option Configuration
  | 0, c => some c
  | n + 1, c =>
    match m.round c with
    | .ends _ _ => none
    | .takes _ c => m.after n c

theorem after_succ_of_ends (h : m.round c = .ends reason final) : m.after (n + 1) c = none := by
  rw [after, h]

theorem after_succ_of_takes (h : m.round c = .takes t c') : m.after (n + 1) c = m.after n c' := by
  rw [after, h]

theorem after_add (i j : Nat) : m.after (i + j) c = (m.after i c).bind (m.after j) := by
  induction i generalizing c with
  | zero => rw [Nat.zero_add, after, Option.bind_some]
  | succ i ih =>
    rw [Nat.succ_add]
    cases h : m.round c with
    | ends reason final => rw [after_succ_of_ends h, after_succ_of_ends h, Option.bind_none]
    | takes t c' => rw [after_succ_of_takes h, after_succ_of_takes h, ih]

/-- What each transition keeps holds of the configurations to which the transitions lead. -/
theorem invariant_of_after {P : Configuration → Prop}
    (hstep : ∀ c t c', P c → m.round c = .takes t c' → P c') (hc : P c)
    (hafter : m.after n c = some c') : P c' := by
  induction n generalizing c with
  | zero =>
    cases hafter
    exact hc
  | succ n ih =>
    cases h : m.round c with
    | ends reason final =>
      rw [after_succ_of_ends h] at hafter
      cases hafter
    | takes t c'' =>
      rw [after_succ_of_takes h] at hafter
      exact ih (hstep c t c'' hc h) hafter

/-! ### The course of a run -/

/-- A run begins with a round. -/
theorem runFrom_succ : m.runFrom taken (left + 1) c =
    match m.round c with
    | .ends reason final => ⟨reason, taken, final, []⟩
    | .takes t c' => (m.runFrom (taken + 1) left c').precededBy ⟨taken + 1, t, c'⟩ := by
  rw [runFrom, round]
  cases m.verdict c with
  | some reason => rfl
  | none =>
    cases happlicable : m.applicable (m.reachHead c) with
    | none => simp only [happlicable]
    | some t => simp only [happlicable, Run.precededBy]

theorem runFrom_of_ends (h : m.round c = .ends reason final) :
    m.runFrom taken (left + 1) c = ⟨reason, taken, final, []⟩ := by
  rw [runFrom_succ, h]

theorem runFrom_of_takes (h : m.round c = .takes t c') :
    m.runFrom taken (left + 1) c =
      (m.runFrom (taken + 1) left c').precededBy ⟨taken + 1, t, c'⟩ := by
  rw [runFrom_succ, h]

/-- A run passes through the configurations to which its transitions lead. -/
theorem getElem?_configurations : ((m.runFrom taken left c).configurations c)[i]? =
    if i ≤ left then m.after i c else none := by
  induction left generalizing taken c i with
  | zero =>
    cases i with
    | zero => rfl
    | succ i => rfl
  | succ left ih =>
    cases i with
    | zero => rfl
    | succ i =>
      cases h : m.round c with
      | ends reason final =>
        rw [runFrom_of_ends h, after_succ_of_ends h, ite_self]
        rfl
      | takes t c' =>
        rw [runFrom_of_takes h, after_succ_of_takes h, Run.configurations_precededBy,
          List.getElem?_cons_succ, ih]
        simp only [Nat.add_le_add_iff_right]

/-- A round that ends the run, among those that it may have, gives the run its end. -/
theorem runFrom_eq_of_ends (taken : Nat) (hn : n < left) (hafter : m.after n c = some c')
    (hround : m.round c' = .ends reason final) : (m.runFrom taken left c).reason = reason ∧
      (m.runFrom taken left c).steps = taken + n ∧ (m.runFrom taken left c).final = final := by
  induction n generalizing taken left c with
  | zero =>
    cases hafter
    obtain ⟨left, rfl⟩ := Nat.exists_eq_succ_of_ne_zero (Nat.ne_of_gt hn)
    rw [runFrom_of_ends hround]
    exact ⟨rfl, rfl, rfl⟩
  | succ n ih =>
    obtain ⟨left, rfl⟩ := Nat.exists_eq_succ_of_ne_zero (Nat.ne_zero_of_lt hn)
    cases h : m.round c with
    | ends reason' final' =>
      rw [after_succ_of_ends h] at hafter
      cases hafter
    | takes t c'' =>
      rw [after_succ_of_takes h] at hafter
      rw [runFrom_of_takes h]
      obtain ⟨hreason, hsteps, hfinal⟩ := ih (taken + 1) (Nat.lt_of_succ_lt_succ hn) hafter
      exact ⟨hreason, hsteps.trans (Nat.succ_add_eq_add_succ taken n), hfinal⟩

/-- A run that takes all the transitions that it may take ends with the last of them. -/
theorem runFrom_eq_of_after (taken : Nat) (hafter : m.after left c = some c') :
    (m.runFrom taken left c).reason = .stepLimit ∧
      (m.runFrom taken left c).steps = taken + left ∧ (m.runFrom taken left c).final = c' := by
  induction left generalizing taken c with
  | zero =>
    cases hafter
    exact ⟨rfl, rfl, rfl⟩
  | succ left ih =>
    cases h : m.round c with
    | ends reason final =>
      rw [after_succ_of_ends h] at hafter
      cases hafter
    | takes t c'' =>
      rw [after_succ_of_takes h] at hafter
      rw [runFrom_of_takes h]
      obtain ⟨hreason, hsteps, hfinal⟩ := ih (taken + 1) hafter
      exact ⟨hreason, hsteps.trans (Nat.succ_add_eq_add_succ taken left), hfinal⟩

end Machine

end PatternMachines.Turing
