import PatternMachines.Proofs.Nfa.Path
import PatternMachines.Proofs.Turing.Simulation

/-!
# The course of a run

A run of the machine of an automaton moves its head over the word in step with the automaton. The
number of symbols that the automaton can read decides where the run ends and for which reason. The
tape is the same from the beginning of the run to its end.

## Main definitions

* `Turing.OnWord`: the configurations that the machine of an automaton passes through on a word.
* `Turing.Course`: what a run does on a word of which the automaton can read a number of symbols.

## Main results

* `Turing.OnWord.of_takes`: the machine stays in such configurations.
* `Turing.Machine.getElem?_configurations_of_follow`: the machine goes in step with the automaton.
* `Turing.Machine.tape_eq_of_mem_configurations`, `Turing.Machine.tape_final_eq`: the tape.
* `Turing.Machine.course_ofDfa`: the course of a run.
-/

namespace PatternMachines.Turing

open Std

/-! ### The tape -/

/-- The configurations in which a word stands on the tape of the machine of an automaton. -/
inductive OnWord (d : Dfa) (word : List Symbol) : Configuration → Prop where
  /-- The machine reads the word, in a state that stands for a state of the automaton. -/
  | reads {id : StateId} {u v : List Symbol} : id ∈ d.states → u ++ v = word →
      OnWord d word (readingAt id u v)
  /-- The machine has decided. -/
  | decides {b : Bool} : OnWord d word (decided b word)

namespace OnWord

variable {d : Dfa} {word : List Symbol} {c c' : Configuration} {t : Transition}

theorem tape_eq (h : OnWord d word c) : c.tape = word ++ [Symbol.endMarker] := by
  cases h with
  | reads hid hword => rw [readingAt, hword]
  | decides => rfl

/-- A transition leads from such a configuration to another one. -/
theorem of_takes (hclosed : d.Closed)
    (hmarker : ∀ (id : StateId) (s : DfaState), d.states[id]? = some s →
      s.edges[Symbol.endMarker]? = none)
    (hword : Symbol.endMarker ∉ word) (h : OnWord d word c)
    (hround : (Machine.ofDfa d).round c = .takes t c') : OnWord d word c' := by
  cases h with
  | decides =>
    rw [Machine.round_decided] at hround
    cases hround
  | @reads id u v hid huv =>
    obtain ⟨s, hs⟩ := Dfa.mem_states_iff.1 hid
    cases v with
    | nil =>
      rw [Machine.round_end hmarker hs] at hround
      cases hround
      rw [← huv, List.append_nil]
      exact .decides
    | cons x v =>
      have hx : x ≠ Symbol.endMarker := by
        rintro rfl
        exact hword (huv ▸ List.mem_append_right u List.mem_cons_self)
      cases htarget : s.edges[x]? with
      | none =>
        rw [Machine.round_stuck hmarker hs hx htarget] at hround
        cases hround
      | some target =>
        rw [Machine.round_edge hmarker hs htarget] at hround
        cases hround
        refine .reads (hclosed.target_mem id s x target hs htarget) ?_
        rw [List.append_assoc, List.singleton_append, huv]

end OnWord

/-- What a run does on a word of which the automaton can read `k` symbols. The run begins in the
configuration `first`. -/
structure Course (d : Dfa) (word : List Symbol) (k : Nat) (first : Configuration) (r : Run) :
    Prop where
  /-- After `j` transitions the machine has read `j` symbols and is where the automaton is. -/
  reading : ∀ j ≤ k, j ≤ maxSteps → ∃ id, d.follow d.start (word.take j) = some id ∧
    (r.configurations first)[j]? = some ⟨some (stateName id), word ++ [Symbol.endMarker], j⟩
  /-- The run ends at a symbol that the automaton cannot read. -/
  stuck : k < word.length → k < maxSteps →
    r.reason = .noTransition ∧ r.steps = k ∧ r.final.head = k
  /-- The run ends with the verdict of the automaton. -/
  decided : k = word.length → word.length + 1 < maxSteps →
    r.steps = word.length + 1 ∧ r.final.head = (word.length + 1 : Nat) ∧
      ∃ id, d.follow d.start word = some id ∧
        (d.acceptsAt id = true → r.final.state = some acceptState ∧ r.reason = .accept) ∧
        (d.acceptsAt id = false → r.final.state = some rejectState ∧ r.reason = .rejectState)
  /-- All other runs are stopped. -/
  stopped : ¬(k < word.length ∧ k < maxSteps) → ¬(k = word.length ∧ word.length + 1 < maxSteps) →
    r.reason = .stepLimit ∧ r.steps = maxSteps
  /-- The tape never changes. -/
  tape_eq : ∀ c, c ∈ r.configurations first ∨ c = r.final → c.tape = word ++ [Symbol.endMarker]

namespace Machine

variable {d : Dfa} {w : String} {word : List Symbol} {c : Configuration} {r : Run} {k j : Nat}
  {id : StateId}

section

variable (hclosed : d.Closed) (hmarker : ∀ (id : StateId) (s : DfaState), d.states[id]? = some s →
  s.edges[Symbol.endMarker]? = none)

include hmarker

/-- As long as the automaton can read the word, the machine is where the automaton is. -/
theorem getElem?_configurations_of_follow
    (hr : (ofDfa d).runFrom 0 maxSteps (readingAt d.start [] word) = r) (hj : j ≤ word.length)
    (hlimit : j ≤ maxSteps) (hid : d.follow d.start (word.take j) = some id) :
    (r.configurations (readingAt d.start [] word))[j]? =
      some ⟨some (stateName id), word ++ [Symbol.endMarker], j⟩ := by
  rw [← hr, getElem?_configurations, if_pos hlimit, after_initial hmarker hj hid, Option.some_inj,
    readingAt, List.take_append_drop, List.length_take_of_le hj]

include hclosed

/-- The tape is the same in all configurations of a run. -/
theorem tape_eq_of_mem_configurations
    (hr : (ofDfa d).runFrom 0 maxSteps (readingAt d.start [] word) = r)
    (hword : Symbol.endMarker ∉ word) (hc : c ∈ r.configurations (readingAt d.start [] word)) :
    c.tape = word ++ [Symbol.endMarker] := by
  rw [← hr] at hc
  obtain ⟨i, hi⟩ := List.mem_iff_getElem?.1 hc
  rw [getElem?_configurations] at hi
  split at hi
  · have hfirst : OnWord d word (readingAt d.start [] word) :=
      .reads hclosed.start_mem (List.nil_append word)
    have hlast : OnWord d word c := invariant_of_after
      (fun _ _ _ hfrom hround => hfrom.of_takes hclosed hmarker hword hround) hfirst hi
    exact hlast.tape_eq
  · cases hi

/-- The tape is the same at the end of a run. -/
theorem tape_final_eq (hr : (ofDfa d).runFrom 0 maxSteps (readingAt d.start [] word) = r)
    (hword : Symbol.endMarker ∉ word) (hk : IsGreatest (d.readableLengths d.start word) k) :
    r.final.tape = word ++ [Symbol.endMarker] := by
  by_cases hstuck : k < word.length ∧ k < maxSteps
  · obtain ⟨-, -, id, hfinal⟩ := run_stuck hclosed hmarker hword hk hr hstuck.1 hstuck.2
    rw [hfinal, tape_readingAt_take_drop]
  by_cases hdecided : k = word.length ∧ word.length + 1 < maxSteps
  · obtain ⟨id, hid⟩ := Dfa.exists_follow_of_isGreatest hk (Nat.le_refl k)
    rw [hdecided.1, List.take_length] at hid
    rw [(run_decided hclosed hmarker hr hid hdecided.2).2.2]
    rfl
  · exact (run_stopped hclosed hmarker hk hr hstuck hdecided).2.2

/-- A run takes the course that belongs to how many symbols the automaton can read. -/
theorem course_runFrom (hr : (ofDfa d).runFrom 0 maxSteps (readingAt d.start [] word) = r)
    (hword : Symbol.endMarker ∉ word) (hk : IsGreatest (d.readableLengths d.start word) k) :
    Course d word k (readingAt d.start [] word) r := by
  constructor
  case reading =>
    intro j hj hlimit
    obtain ⟨id, hid⟩ := Dfa.exists_follow_of_isGreatest hk hj
    have hlength : j ≤ word.length := Nat.le_trans hj hk.1.1
    exact ⟨id, hid, getElem?_configurations_of_follow hmarker hr hlength hlimit hid⟩
  case stuck =>
    intro hlt hlimit
    obtain ⟨hreason, hsteps, id, hfinal⟩ := run_stuck hclosed hmarker hword hk hr hlt hlimit
    refine ⟨hreason, hsteps, ?_⟩
    rw [hfinal, readingAt, List.length_take_of_le hk.1.1]
  case decided =>
    rintro rfl hlimit
    obtain ⟨id, hid⟩ := Dfa.exists_follow_of_isGreatest hk (Nat.le_refl _)
    rw [List.take_length] at hid
    obtain ⟨hreason, hsteps, hfinal⟩ := run_decided hclosed hmarker hr hid hlimit
    rw [hreason, hfinal]
    refine ⟨hsteps, rfl, id, hid, fun haccepts => ?_, fun hrejects => ?_⟩
    · rw [haccepts]
      exact ⟨rfl, rfl⟩
    · rw [hrejects]
      exact ⟨rfl, rfl⟩
  case stopped =>
    intro hstuck hdecided
    obtain ⟨hreason, hsteps, -⟩ := run_stopped hclosed hmarker hk hr hstuck hdecided
    exact ⟨hreason, hsteps⟩
  case tape_eq =>
    rintro c (hc | rfl)
    · exact tape_eq_of_mem_configurations hclosed hmarker hr hword hc
    · exact tape_final_eq hclosed hmarker hr hword hk

end

/-- **The course of a run.** Let the edges of an automaton lead to states, and let none of them read
the end marker. Of a text without the end marker the automaton can read a beginning of a greatest
length, and a run of its machine on the text takes the course that belongs to that length. -/
theorem course_ofDfa (hclosed : d.Closed)
    (hmarker : ∀ (id : StateId) (s : DfaState), d.states[id]? = some s →
      s.edges[Symbol.endMarker]? = none) (hw : '#' ∉ w.toList) :
    ∃ k, IsGreatest {j | j ≤ (Symbol.ofText w).length ∧
        (d.follow d.start ((Symbol.ofText w).take j)).isSome} k ∧
      Course d (Symbol.ofText w) k ((ofDfa d).initial w) ((ofDfa d).run w) := by
  rw [← endMarker_mem_ofText_iff] at hw
  obtain ⟨k, hk⟩ := Dfa.exists_isGreatest_readableLengths d d.start (Symbol.ofText w)
  refine ⟨k, hk, ?_⟩
  rw [initial_ofDfa]
  exact course_runFrom hclosed hmarker (run_ofDfa_eq hw).symm hw hk

/-- An automaton with a state of a negative number. It reads two symbols in turn. -/
def alternating : Dfa where
  start := -1
  states := .ofList [
    ((-1 : StateId), DfaState.mk false (.ofList [("a", (7 : StateId))])),
    ((7 : StateId), DfaState.mk true (.ofList [("b", (-1 : StateId))]))]

theorem getElem?_states_alternating {id : StateId} {s : DfaState}
    (hs : alternating.states[id]? = some s) :
    (id = -1 ∧ s = DfaState.mk false (.ofList [("a", (7 : StateId))])) ∨
      (id = 7 ∧ s = DfaState.mk true (.ofList [("b", (-1 : StateId))])) := by
  have hmem := (getElem?_ofList_eq_some_iff (by decide)).1 hs
  simpa using hmem

theorem closed_alternating : alternating.Closed where
  start_mem := by simp [alternating, ExtTreeMap.mem_ofList]
  target_mem := by
    intro id s x target hs htarget
    rcases getElem?_states_alternating hs with ⟨rfl, rfl⟩ | ⟨rfl, rfl⟩
    · have hmem := (getElem?_ofList_eq_some_iff (by decide)).1 htarget
      obtain ⟨rfl, rfl⟩ : x = "a" ∧ target = 7 := by simpa using hmem
      simp [alternating, ExtTreeMap.mem_ofList]
    · have hmem := (getElem?_ofList_eq_some_iff (by decide)).1 htarget
      obtain ⟨rfl, rfl⟩ : x = "b" ∧ target = -1 := by simpa using hmem
      simp [alternating, ExtTreeMap.mem_ofList]

/-- The machine of the alternating automaton reads two symbols of the text `abb` and then stops. -/
theorem course_alternating : alternating.Closed ∧
    (∀ (id : StateId) (s : DfaState), alternating.states[id]? = some s →
      s.edges[Symbol.endMarker]? = none) ∧ '#' ∉ "abb".toList ∧
    ((ofDfa alternating).run "abb").reason = .noTransition ∧
    ((ofDfa alternating).run "abb").steps = 2 ∧ ((ofDfa alternating).run "abb").final.head = 2 ∧
    (((ofDfa alternating).run "abb").configurations ((ofDfa alternating).initial "abb"))[2]? =
      some ⟨some "q-1", ["a", "b", "b", "#"], 2⟩ := by
  have hmarker (id : StateId) (s : DfaState) (hs : alternating.states[id]? = some s) :
      s.edges[Symbol.endMarker]? = none := by
    rcases getElem?_states_alternating hs with ⟨rfl, rfl⟩ | ⟨rfl, rfl⟩
    · rfl
    · rfl
  have hw : '#' ∉ "abb".toList := by decide
  obtain ⟨k, hk, hcourse⟩ := course_ofDfa closed_alternating hmarker hw
  obtain rfl : k = 2 := by
    have hle : k ≤ 3 := hk.1.1
    have hge : 2 ≤ k := hk.2 ⟨by decide, rfl⟩
    have hne : k ≠ 3 := by
      rintro rfl
      exact absurd hk.1.2 (by decide)
    omega
  obtain ⟨hreason, hsteps, hhead⟩ := hcourse.stuck (by decide) (by decide)
  obtain ⟨id, hid, hconfiguration⟩ := hcourse.reading 2 (Nat.le_refl 2) (by decide)
  obtain rfl : -1 = id := Option.some_inj.1 hid
  exact ⟨closed_alternating, hmarker, hw, hreason, hsteps, hhead, hconfiguration⟩

end Machine

end PatternMachines.Turing
