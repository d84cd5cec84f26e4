import Mathlib.Data.List.GetD
import Mathlib.Logic.Function.Basic
import Mathlib.Tactic.SplitIfs
import PatternMachines.Proofs.Turing.Rounds

/-!
# Runs on an endless tape

A machine is commonly said to work on a tape that has a cell for every integer, all but finitely
many of them blank. A run keeps a list of cells instead, which begins with the input and grows by a
blank cell when the head has left it. On the left that moves the numbers of all cells. The list is a
window of the endless tape, and outside the window the endless tape is blank, so that both machines
take the same transitions and halt for the same reason.

## Main definitions

* `Turing.Endless`: configurations on an endless tape.
* `Turing.Endless.initial`, `Turing.Endless.next`, `Turing.Endless.after`: the machine on them.
* `Turing.Configuration.extended`: a list of cells as a window of an endless tape.
* `Turing.Configuration.Near`: the head is on the tape or next to it.

## Main results

* `Turing.Machine.next_extended_of_ends`, `Turing.Machine.next_extended_of_takes`: one round.
* `Turing.Machine.exists_after_of_extended`: the configurations on the way.
* `Turing.Machine.run_eq_endless`: a run is the run on the endless tape, up to the number of
  transitions that it may take.
-/

namespace PatternMachines.Turing

/-- A configuration on a tape that has a cell for every integer. -/
@[ext]
structure Endless where
  /-- The current state, where there is one. -/
  state : Option String
  /-- The contents of the cells. -/
  tape : Int → Symbol
  /-- The cell under the head. -/
  head : Int

namespace Endless

/-- The configuration in which a run begins. The input stands from the cell `0` on, followed by the
end marker where there is one. All other cells are blank. -/
def initial (m : Machine) (input : String) : Endless where
  state := m.start
  tape z :=
    if z < 0 then m.blank
    else (Symbol.ofText input ++ m.endMarker.toList).getD z.toNat m.blank
  head := 0

/-- What a machine does in a configuration: it halts in an accepting state, or else in the rejecting
state, or else where no transition fits the state and the symbol under the head; otherwise it takes
the first one that does. -/
def next (m : Machine) (e : Endless) : Except HaltReason Endless :=
  if e.state.any m.accepting.contains then .error .accept
  else if e.state = m.reject then .error .rejectState
  else
    match m.transitions.find? fun t => some t.source == e.state && t.read == e.tape e.head with
    | none => .error .noTransition
    | some t => .ok {
        state := some t.target
        tape := Function.update e.tape e.head t.write
        head :=
          if t.move = moveLeft then e.head - 1
          else if t.move = moveRight then e.head + 1
          else e.head }

/-- The configuration at a time, unless the machine has halted before. -/
def after (m : Machine) : Nat → Endless → Option Endless
  | 0, e => some e
  | n + 1, e =>
    match e.next m with
    | .error _ => none
    | .ok e => e.after m n

end Endless

namespace Configuration

/-- The configuration with blank cells on both sides of its tape. The first cell of the tape is the
cell `-offset`. -/
def extended (c : Configuration) (blank : Symbol) (offset : Nat) : Endless where
  state := c.state
  tape z := if z + offset < 0 then blank else c.tape.getD (z + offset).toNat blank
  head := c.head - offset

/-- Whether the head stands on the tape or next to it. -/
def Near (c : Configuration) : Prop := -1 ≤ c.head ∧ c.head ≤ c.tape.length

end Configuration

namespace Machine

variable {m : Machine} {c c' final : Configuration} {t : Transition} {reason : HaltReason}
  {offset n : Nat} {x : Symbol} {e : Endless}

/-! ### The head and the tape -/

theorem extended_state (c : Configuration) (blank : Symbol) (offset : Nat) :
    (c.extended blank offset).state = c.state := rfl

theorem near_initial (m : Machine) (input : String) : (m.initial input).Near :=
  ⟨Int.le_of_lt (by decide : (-1 : Int) < 0), Int.natCast_nonneg _⟩

/-- The head is brought onto the tape. -/
theorem exists_getElem?_reachHead (hc : c.Near) :
    0 ≤ (m.reachHead c).head ∧ ∃ x, (m.reachHead c).tape[(m.reachHead c).head.toNat]? = some x := by
  obtain ⟨hleft, hright⟩ := hc
  rw [reachHead]
  split
  · exact ⟨Int.le_refl 0, m.blank, rfl⟩
  · next hhead =>
    split
    · next x hx => exact ⟨Int.not_lt.1 hhead, x, hx⟩
    · refine ⟨Int.natCast_nonneg _, m.blank, ?_⟩
      rw [Int.toNat_natCast, List.getElem?_concat_length]

/-- The cell that is added was blank before. -/
theorem extended_reachHead (m : Machine) (hc : c.Near) (offset : Nat) :
    ∃ offset', (m.reachHead c).extended m.blank offset' = c.extended m.blank offset := by
  obtain ⟨hleft, hright⟩ := hc
  rw [reachHead]
  split
  -- On the left the numbers of all cells move by one, and the offset makes up for it.
  · next hhead =>
    refine ⟨offset + 1, Endless.ext rfl (funext fun z => ?_) ?_⟩
    · simp only [Configuration.extended]
      rcases Int.lt_trichotomy (z + offset) (-1) with hz | hz | hz
      · rw [if_pos (by omega), if_pos (by omega)]
      · rw [if_neg (by omega), if_pos (by omega)]
        have hzero : (z + ↑(offset + 1)).toNat = 0 := by omega
        rw [hzero, List.getD_cons_zero]
      · rw [if_neg (by omega), if_neg (by omega)]
        have hsucc : (z + ↑(offset + 1)).toNat = (z + offset).toNat + 1 := by omega
        rw [hsucc, List.getD_cons_succ]
    · simp only [Configuration.extended]
      omega
  · next hhead =>
    split
    · exact ⟨offset, rfl⟩
    · next hnone =>
      have hlength : c.tape.length ≤ c.head.toNat := List.getElem?_eq_none_iff.1 hnone
      -- On the right the new cell is the first one outside the window, which was blank.
      refine ⟨offset, Endless.ext rfl (funext fun z => ?_) ?_⟩
      · simp only [Configuration.extended]
        split
        · rfl
        · rcases Nat.lt_or_ge (z + offset).toNat c.tape.length with hz | hz
          · rw [List.getD_append _ _ _ _ hz]
          · rw [List.getD_append_right _ _ _ _ hz, List.getD_eq_default _ _ hz]
            cases (z + offset).toNat - c.tape.length with
            | zero => rfl
            | succ i => rfl
      · simp only [Configuration.extended]
        omega

/-- Taking a transition with the head on the tape changes the cell under the head. -/
theorem extended_apply (hhead : 0 ≤ c.head) (hx : c.tape[c.head.toNat]? = some x)
    (t : Transition) (blank : Symbol) (offset : Nat) :
    (apply c t).extended blank offset = {
      state := some t.target
      tape := Function.update (c.extended blank offset).tape (c.extended blank offset).head t.write
      head :=
        if t.move = moveLeft then (c.extended blank offset).head - 1
        else if t.move = moveRight then (c.extended blank offset).head + 1
        else (c.extended blank offset).head } := by
  have hlength : c.head.toNat < c.tape.length := (List.getElem?_eq_some_iff.1 hx).1
  refine Endless.ext rfl (funext fun z => ?_) ?_
  · simp only [Configuration.extended, apply, Function.update_apply, List.getD_eq_getElem?_getD,
      List.getElem?_set]
    by_cases hz : z = c.head - offset
    · have hcell : (z + offset).toNat = c.head.toNat := by omega
      rw [if_neg (by omega), if_pos hz, hcell, if_pos rfl, if_pos hlength, Option.getD_some]
    · rw [if_neg hz]
      split
      · rfl
      · rw [if_neg (by omega)]
  · simp only [Configuration.extended, apply]
    split_ifs
    · omega
    · omega
    · rfl

theorem near_apply (hhead : 0 ≤ c.head) (hx : c.tape[c.head.toNat]? = some x) (t : Transition) :
    (apply c t).Near := by
  have hlength : c.head.toNat < c.tape.length := (List.getElem?_eq_some_iff.1 hx).1
  rw [Configuration.Near]
  simp only [apply, List.length_set]
  split_ifs
  · omega
  · omega
  · omega

/-! ### One round -/

theorem transitionAt_eq_find? (state : Option String) (x : Symbol) :
    m.transitionAt state x =
      m.transitions.find? fun t => some t.source == state && t.read == x := by
  cases state with
  | none =>
    refine Eq.symm (List.find?_eq_none.2 fun t _ => ?_)
    simp
  | some q => simp [transitionAt, findTransition]

theorem next_extended_of_verdict (h : m.verdict c = some reason) (blank : Symbol)
    (offset : Nat) : (c.extended blank offset).next m = .error reason := by
  rw [verdict] at h
  rw [Endless.next, extended_state]
  split_ifs at h with haccept hreject
  · cases h
    rw [if_pos haccept]
  · cases h
    rw [if_neg haccept, if_pos hreject]

/-- Where the machine does not halt at once, the first transition that fits decides. -/
theorem next_extended (hverdict : m.verdict c = none) (hhead : 0 ≤ c.head)
    (hx : c.tape[c.head.toNat]? = some x) (offset : Nat) :
    (c.extended m.blank offset).next m = match m.transitionAt c.state x with
      | none => .error .noTransition
      | some t => .ok ((apply c t).extended m.blank offset) := by
  have hcell : (c.extended m.blank offset).tape (c.extended m.blank offset).head = x := by
    have hz : c.head - offset + offset = c.head := by omega
    simp only [Configuration.extended, hz, if_neg (Int.not_lt.2 hhead),
      List.getD_eq_getElem?_getD, hx, Option.getD_some]
  rw [verdict] at hverdict
  split_ifs at hverdict with haccept hreject
  rw [Endless.next, hcell, extended_state, if_neg haccept, if_neg hreject, transitionAt_eq_find?]
  simp only [extended_apply hhead hx]

theorem verdict_reachHead (m : Machine) (c : Configuration) :
    m.verdict (m.reachHead c) = m.verdict c := by
  rw [verdict, verdict, state_reachHead]

/-- A round that ends the run, and the endless tape on which it does. -/
theorem next_extended_of_ends (hc : c.Near) (h : m.round c = .ends reason final) (offset : Nat) :
    (c.extended m.blank offset).next m = .error reason ∧
      ∃ offset', final.extended m.blank offset' = c.extended m.blank offset := by
  rw [round] at h
  split at h
  · next hverdict =>
    cases h
    exact ⟨next_extended_of_verdict hverdict m.blank offset, offset, rfl⟩
  · next hverdict =>
    split at h
    · next happlicable =>
      cases h
      obtain ⟨hhead, x, hx⟩ := exists_getElem?_reachHead (m := m) hc
      obtain ⟨offset', hoffset⟩ := extended_reachHead m hc offset
      rw [applicable, hx, Option.bind_some] at happlicable
      rw [← verdict_reachHead] at hverdict
      refine ⟨?_, offset', hoffset⟩
      rw [← hoffset, next_extended hverdict hhead hx, happlicable]
    · cases h

/-- A round that takes a transition, and the endless tape on which it does. -/
theorem next_extended_of_takes (hc : c.Near) (h : m.round c = .takes t c') (offset : Nat) :
    c'.Near ∧ ∃ offset',
      (c.extended m.blank offset).next m = .ok (c'.extended m.blank offset') := by
  rw [round] at h
  split at h
  · cases h
  · next hverdict =>
    split at h
    · cases h
    · next happlicable =>
      cases h
      obtain ⟨hhead, x, hx⟩ := exists_getElem?_reachHead (m := m) hc
      obtain ⟨offset', hoffset⟩ := extended_reachHead m hc offset
      rw [applicable, hx, Option.bind_some] at happlicable
      rw [← verdict_reachHead] at hverdict
      refine ⟨near_apply hhead hx t, offset', ?_⟩
      rw [← hoffset, next_extended hverdict hhead hx, happlicable]

/-! ### The whole run -/

/-- What the endless tape comes to, the list of cells comes to. -/
theorem exists_after_of_extended (hc : c.Near)
    (h : (c.extended m.blank offset).after m n = some e) :
    ∃ c' offset', m.after n c = some c' ∧ c'.Near ∧ c'.extended m.blank offset' = e := by
  induction n generalizing c offset with
  | zero =>
    cases h
    exact ⟨c, offset, rfl, hc, rfl⟩
  | succ n ih =>
    rw [Endless.after] at h
    cases hround : m.round c with
    | ends reason final =>
      rw [(next_extended_of_ends hc hround offset).1] at h
      cases h
    | takes t c' =>
      obtain ⟨hc', offset', hnext⟩ := next_extended_of_takes hc hround offset
      rw [hnext] at h
      obtain ⟨c'', offset'', hafter, hnear, hextended⟩ := ih hc' h
      exact ⟨c'', offset'', by rw [after_succ_of_takes hround, hafter], hnear, hextended⟩

theorem getD_initialTape (m : Machine) (input : String) (i : Nat) :
    (m.initialTape input).getD i m.blank =
      (Symbol.ofText input ++ m.endMarker.toList).getD i m.blank := by
  rw [initialTape]
  split
  · next hempty =>
    rw [hempty]
    cases i with
    | zero => rfl
    | succ i => rfl
  · rfl

theorem extended_initial (m : Machine) (input : String) :
    (m.initial input).extended m.blank 0 = Endless.initial m input := by
  refine Endless.ext rfl (funext fun z => ?_) rfl
  simp only [Configuration.extended, initial, Endless.initial, Int.ofNat_zero, Int.add_zero,
    getD_initialTape]

end Machine

/-- Where no configuration before a time halts, the machine comes to that time. -/
theorem Endless.exists_after {m : Machine} {n : Nat} {e : Endless}
    (h : ∀ k < n, ∀ e', e.after m k = some e' → ∃ e'', e'.next m = .ok e'') :
    ∃ e', e.after m n = some e' := by
  induction n generalizing e with
  | zero => exact ⟨e, rfl⟩
  | succ n ih =>
    obtain ⟨e', he'⟩ := h 0 (Nat.zero_lt_succ n) e rfl
    rw [Endless.after, he']
    refine ih fun k hk e'' he'' => h (k + 1) (Nat.succ_lt_succ hk) e'' ?_
    rw [Endless.after, he']
    exact he''

namespace Machine

/-- **Lists of cells and the endless tape.** Let the input not hold the end marker. If the machine
on the endless tape halts at a time before the number of transitions that a run may take, then the
run halts for the same reason after as many transitions; otherwise the run ends when these are used
up. In both cases the tape of the run is a window of the endless tape at that time, outside of which
all cells are blank, and the states and the places of the heads are the same. -/
theorem run_eq_endless (m : Machine) (input : String)
    (hinput : ∀ marker, m.endMarker = some marker → ¬marker.toList <:+: input.toList) :
    (∀ n < maxSteps, ∀ reason e, (Endless.initial m input).after m n = some e →
      e.next m = .error reason →
        (m.run input).reason = reason ∧ (m.run input).steps = n ∧
          ∃ offset, (m.run input).final.extended m.blank offset = e) ∧
    ((∀ n < maxSteps, ∀ e, (Endless.initial m input).after m n = some e →
      ∃ e', e.next m = .ok e') →
        (m.run input).reason = .stepLimit ∧ (m.run input).steps = maxSteps ∧
          ∃ e offset, (Endless.initial m input).after m maxSteps = some e ∧
            (m.run input).final.extended m.blank offset = e) := by
  have hrun : m.run input = m.runFrom 0 maxSteps (m.initial input) :=
    run_eq_runFrom (not_holdsEndMarker_iff.2 hinput)
  have hnear := near_initial m input
  rw [← extended_initial, hrun]
  constructor
  · intro n hn reason e he hnext
    obtain ⟨c, offset, hafter, hc, rfl⟩ := exists_after_of_extended hnear he
    cases hround : m.round c with
    | takes t c' =>
      obtain ⟨-, offset', hok⟩ := next_extended_of_takes hc hround offset
      rw [hok] at hnext
      cases hnext
    | ends reason' final =>
      obtain ⟨herror, offset', hfinal⟩ := next_extended_of_ends hc hround offset
      rw [herror] at hnext
      cases hnext
      obtain ⟨hreason, hsteps, hlast⟩ := runFrom_eq_of_ends 0 hn hafter hround
      exact ⟨hreason, hsteps.trans (Nat.zero_add n), offset', by rw [hlast, hfinal]⟩
  · intro hgoes
    obtain ⟨e, he⟩ := Endless.exists_after hgoes
    obtain ⟨c, offset, hafter, -, hc⟩ := exists_after_of_extended hnear he
    obtain ⟨hreason, hsteps, hlast⟩ := runFrom_eq_of_after 0 hafter
    exact ⟨hreason, hsteps.trans (Nat.zero_add maxSteps), e, offset, he, by rw [hlast, hc]⟩

/-- A machine that leaves the tape of the input `a` on both sides. It stays in place for a move that
it does not know, and has two transitions for the same state and symbol. -/
def wandering : Machine where
  transitions := [
    ⟨"s", "a", "s", "b", moveLeft⟩,
    ⟨"s", "_", "t", "c", "S"⟩,
    ⟨"s", "_", "s", "a", moveRight⟩,
    ⟨"t", "c", "t", "d", moveRight⟩,
    ⟨"t", "b", "t", "b", moveRight⟩,
    ⟨"t", "#", "t", "#", moveRight⟩]
  start := some "s"
  endMarker := some "#"

/-- The machine that leaves its tape on both sides stops to the right of the end marker, and the
window that its run has kept begins to the left of the input. -/
theorem run_wandering :
    (∀ marker, wandering.endMarker = some marker → ¬marker.toList <:+: "a".toList) ∧
      (wandering.run "a").reason = .noTransition ∧ (wandering.run "a").steps = 5 ∧
      ∃ e offset, (Endless.initial wandering "a").after wandering 5 = some e ∧
        (wandering.run "a").final.extended wandering.blank offset = e ∧ e.head = 2 ∧
        [e.tape (-1), e.tape 0, e.tape 1, e.tape 2] = ["d", "b", "#", "_"] := by
  have hinput : ∀ marker, wandering.endMarker = some marker →
      ¬marker.toList <:+: "a".toList := by
    rintro _ ⟨⟩
    decide
  obtain ⟨e, he, hnext, hhead, hcells⟩ : ∃ e,
      (Endless.initial wandering "a").after wandering 5 = some e ∧
        e.next wandering = .error .noTransition ∧ e.head = 2 ∧
        [e.tape (-1), e.tape 0, e.tape 1, e.tape 2] = ["d", "b", "#", "_"] :=
    ⟨_, rfl, rfl, rfl, rfl⟩
  obtain ⟨hreason, hsteps, offset, hfinal⟩ :=
    (run_eq_endless wandering "a" hinput).1 5 (by decide) .noTransition e he hnext
  exact ⟨hinput, hreason, hsteps, e, offset, he, hfinal, hhead, hcells⟩

end Machine

end PatternMachines.Turing
