import PatternMachines.Proofs.Text.Part
import PatternMachines.Proofs.Turing.Trace
import PatternMachines.Report.Machine

/-!
# Printed runs

Who watches a run may print the transitions that he is told of, up to a limit. The first transition
beyond the limit is answered by a note that no more are shown, and the others by nothing. A printer
keeps nothing in mind but the limit, so that it can be used for one run after another.

## Main definitions

* `Report.printer`, `Report.printRuns`: printing what is told of runs.
* `Report.ShowsRun`: the lines that tell of a run.

## Main results

* `Report.tape_eq`: the cell under the head is marked.
* `Report.flatMap_stepLines`, `Report.showsRun`: the lines that are printed for transitions.
* `Report.printRuns_eq`: what is printed for runs on several inputs.
-/

namespace PatternMachines

open PatternMachines.Turing

namespace Turing.Machine

variable {m : Machine} {input : String}

/-- The transitions of the run on an input are numbered from one on. -/
theorem numbers_run (m : Machine) (input : String) :
    (m.run input).trace.map Step.number = List.range' 1 (m.run input).steps ∧
      (m.run input).trace.length = (m.run input).steps := by
  rw [run]
  split
  · exact ⟨rfl, rfl⟩
  · obtain ⟨hnumbers, hsteps⟩ := numbers_runFrom m 0 maxSteps (m.initial input)
    rw [Nat.zero_add] at hsteps
    rw [hnumbers, hsteps]
    exact ⟨rfl, rfl⟩

/-- Who watches the run on an input is told of its trace, also if the input is refused. -/
theorem watch_some {M : Type → Type} [Monad M] [LawfulMonad M] (tell : Step → M PUnit) :
    m.watch (some tell) input = do
      (m.run input).trace.forM tell
      return (m.run input).ending := by
  by_cases hholds : m.holdsEndMarker input = true
  · rw [watch, run, if_pos hholds, if_pos hholds]
    simp [Run.ending]
  · rw [watch_eq_watchFrom _ hholds, run_eq_runFrom hholds]
    exact watchFrom_some tell

end Turing.Machine

namespace Report

variable {limit : Nat}

/-! ### Tapes -/

/-- The cells of a tape, that under the head in brackets. None is if the head stands next to the
tape. -/
def marked (c : Configuration) : List String :=
  if c.head < 0 then c.tape else c.tape.modify c.head.toNat fun x => "[" ++ x ++ "]"

theorem tape_eq (c : Configuration) : tape c.tape c.head = Text.join "" (marked c) := by
  rw [tape]
  congr 1
  refine List.ext_getElem? fun i => ?_
  rw [List.getElem?_map, List.getElem?_zipIdx, Nat.zero_add, marked]
  split
  · next hhead =>
    have hi : ¬(i : Int) = c.head := by omega
    cases c.tape[i]? with
    | none => rfl
    | some x => simp only [Option.map_some, if_neg hi]
  · next hhead =>
    have hi : (i : Int) = c.head ↔ c.head.toNat = i := by omega
    rw [List.getElem?_modify]
    cases c.tape[i]? with
    | none => rfl
    | some x =>
      simp only [Option.map_some, hi]
      rfl

/-! ### Lines -/

/-- The note that no more transitions are shown. -/
def note (limit : Nat) : String :=
  "... (solo se muestran los primeros " ++ toString limit ++ " pasos)"

/-- What the lines tell of a run. -/
structure ShowsRun (limit : Nat) (r : Run) (lines : List String) : Prop where
  /-- A line for each transition up to the limit, and one more if there are others. -/
  length_eq : lines.length = min r.steps limit + if limit < r.steps then 1 else 0
  /-- The lines are numbered and show the transitions in order, with the tapes after them. -/
  steps_eq : ∀ k < min r.steps limit, ∃ step, r.trace[k]? = some step ∧
    lines[k]? = some ("Paso " ++ toString (k + 1) ++ ": " ++ step.transition.display ++
      " | Cinta: " ++ Text.join "" (marked step.after))
  /-- If there are other transitions, the last line says so. -/
  note_eq : limit < r.steps → lines.getLast? = some (note limit)
  /-- No other line does. -/
  count_note : lines.count (note limit) = if limit < r.steps then 1 else 0

theorem stepLine_ne_note (s : Step) (limit : Nat) : stepLine s ≠ note limit := by
  have hpaso : "Paso ".toList.head? = some 'P' := by decide
  have hdots : "... (solo se muestran los primeros ".toList.head? = some '.' := by decide
  have hstep : (stepLine s).toList.head? = some 'P' := by
    simp only [stepLine, String.toList_append, List.head?_append, hpaso, Option.some_or]
  have hnote : (note limit).toList.head? = some '.' := by
    unfold note
    rw [String.toList_append, String.toList_append, List.head?_append, List.head?_append, hdots,
      Option.some_or, Option.some_or]
  intro heq
  rw [heq, hnote] at hstep
  cases hstep

/-- What is printed for one transition. -/
theorem stepLines_eq (limit : Nat) (s : Step) : stepLines limit s =
    if s.number ≤ limit then [stepLine s]
    else if s.number = limit + 1 then [note limit] else [] := by
  have hle : (s.number : Int) ≤ limit ↔ s.number ≤ limit := Int.ofNat_le
  have heq : (s.number : Int) = limit + 1 ↔ s.number = limit + 1 := by omega
  simp only [stepLines, hle, heq]
  rfl

/-- The lines that are printed for transitions that are numbered from `first + 1` on. -/
theorem flatMap_stepLines {steps : List Step} {first : Nat}
    (hnumbers : steps.map Step.number = List.range' (first + 1) steps.length) :
    steps.flatMap (stepLines limit) = (steps.take (limit - first)).map stepLine ++
      if first ≤ limit ∧ limit < first + steps.length then [note limit] else [] := by
  induction steps generalizing first with
  | nil =>
    have hnone : ¬(first ≤ limit ∧ limit < first + 0) := by omega
    rw [List.length_nil, if_neg hnone, List.take_nil]
    rfl
  | cons s steps ih =>
    rw [List.map_cons, List.length_cons, List.range'_succ, List.cons.injEq] at hnumbers
    obtain ⟨hnumber, hrest⟩ := hnumbers
    have hlength : first + (s :: steps).length = first + 1 + steps.length := by
      rw [List.length_cons]
      omega
    rw [List.flatMap_cons, ih hrest, stepLines_eq, hnumber, hlength]
    rcases Nat.lt_trichotomy first limit with hlt | rfl | hlt
    · have htake : limit - first = limit - (first + 1) + 1 := by omega
      have hnote : first ≤ limit ↔ first + 1 ≤ limit := by omega
      simp only [if_pos (Nat.succ_le_of_lt hlt), htake, List.take_succ_cons, List.map_cons, hnote]
      rfl
    · have hbelow : ¬first + 1 ≤ first := by omega
      have hnote : first < first + 1 + steps.length := by omega
      simp [hbelow, hnote]
    · have hbelow : ¬first + 1 ≤ limit := by omega
      have hnone : limit - (first + 1) = 0 ∧ limit - first = 0 := by omega
      simp [hbelow, hnone, Nat.ne_of_gt hlt, Nat.not_le.2 hlt]

/-- The lines that are printed for a run. -/
theorem flatMap_stepLines_run (m : Machine) (limit : Nat) (input : String) :
    (m.run input).trace.flatMap (stepLines limit) =
      ((m.run input).trace.take limit).map stepLine ++
        if limit < (m.run input).steps then [note limit] else [] := by
  obtain ⟨hnumbers, hlength⟩ := m.numbers_run input
  rw [flatMap_stepLines (hlength.symm ▸ hnumbers), hlength, Nat.zero_add, Nat.sub_zero]
  simp only [Nat.zero_le, true_and]

theorem showsRun (m : Machine) (limit : Nat) (input : String) :
    ShowsRun limit (m.run input) ((m.run input).trace.flatMap (stepLines limit)) := by
  obtain ⟨hnumbers, hlength⟩ := m.numbers_run input
  rw [flatMap_stepLines_run]
  have hshown : (((m.run input).trace.take limit).map stepLine).length =
      min (m.run input).steps limit := by
    rw [List.length_map, List.length_take, hlength, Nat.min_comm]
  constructor
  case length_eq =>
    rw [List.length_append, hshown]
    split <;> rfl
  case steps_eq =>
    intro k hk
    obtain ⟨step, hstep⟩ : ∃ step, (m.run input).trace[k]? = some step :=
      ⟨_, List.getElem?_eq_getElem (by omega)⟩
    have hnumber : step.number = 1 + k := by
      have hget := congrArg (·[k]?) hnumbers
      simpa [hstep, List.getElem?_range', (Nat.lt_min.1 hk).1] using hget
    refine ⟨step, hstep, ?_⟩
    rw [List.getElem?_append_left (hshown ▸ hk), List.getElem?_map, List.getElem?_take,
      if_pos (Nat.lt_min.1 hk).2, hstep, Option.map_some, stepLine, hnumber, tape_eq step.after,
      Nat.add_comm 1 k]
  case note_eq =>
    intro hmore
    rw [if_pos hmore, List.getLast?_concat]
  case count_note =>
    have hnone : (((m.run input).trace.take limit).map stepLine).count (note limit) = 0 := by
      rw [List.count_eq_zero, List.mem_map]
      rintro ⟨s, -, heq⟩
      exact stepLine_ne_note s limit heq
    rw [List.count_append, hnone]
    split <;> simp

/-! ### Printing -/

/-- Prints what is told of a run, in front of what was printed before. -/
def printer (limit : Nat) (s : Step) : StateM String PUnit :=
  modify (· ++ Text.ofLines (stepLines limit s))

/-- Runs a machine on several inputs, one after another, watched by the same printer. -/
def printRuns (m : Machine) (limit : Nat) (inputs : List String) : StateM String PUnit :=
  inputs.forM fun input => discard (m.watch (some (printer limit)) input)

theorem forM_printer (limit : Nat) (ss : List Step) (printed : String) :
    ss.forM (printer limit) printed =
      (⟨⟩, printed ++ Text.ofLines (ss.flatMap (stepLines limit))) := by
  induction ss generalizing printed with
  | nil =>
    rw [List.flatMap_nil, show Text.ofLines [] = "" from rfl, String.append_empty]
    rfl
  | cons s ss ih =>
    rw [List.flatMap_cons, Text.ofLines_append, ← String.append_assoc, ← ih]
    rfl

/-- A run is printed behind what was printed before. -/
theorem discard_watch_printer (m : Machine) (limit : Nat) (input printed : String) :
    (discard (m.watch (some (printer limit)) input) : StateM String PUnit) printed =
      (⟨⟩, printed ++ steps limit (m.run input)) := by
  rw [Machine.watch_some]
  exact congrArg (fun x => (PUnit.unit, x.2)) (forM_printer limit (m.run input).trace printed)

/-- The runs are printed one after another, whatever was printed before. -/
theorem printRuns_apply (m : Machine) (limit : Nat) (inputs : List String) (printed : String) :
    printRuns m limit inputs printed =
      (⟨⟩, printed ++ Text.join "" (inputs.map fun input => steps limit (m.run input))) := by
  induction inputs generalizing printed with
  | nil =>
    rw [List.map_nil, show Text.join "" [] = "" from rfl, String.append_empty]
    rfl
  | cons input inputs ih =>
    rw [List.map_cons, Text.join_empty_cons, ← String.append_assoc, ← ih]
    have hrun := discard_watch_printer m limit input printed
    have hfirst : printRuns m limit (input :: inputs) printed = printRuns m limit inputs
        ((discard (m.watch (some (printer limit)) input) : StateM String PUnit) printed).2 := rfl
    rw [hfirst, hrun]

/-- **Printed runs.** Several inputs are run one after another and watched by the same printer. What
is printed is made of one part for each of the runs, which depends on nothing else. The part of a
run shows its transitions up to the limit, numbered from one on, each with the tape after it, and
then a single note if and only if there are transitions that are not shown. -/
theorem printRuns_eq (m : Machine) (limit : Nat) (inputs : List String) :
    (∀ printed, printRuns m limit inputs printed =
      (⟨⟩, printed ++ Text.join "" (inputs.map fun input => steps limit (m.run input)))) ∧
    ∀ input, ∃ lines, steps limit (m.run input) = Text.ofLines lines ∧
      ShowsRun limit (m.run input) lines :=
  ⟨printRuns_apply m limit inputs, fun input => ⟨_, rfl, showsRun m limit input⟩⟩

end Report

end PatternMachines
