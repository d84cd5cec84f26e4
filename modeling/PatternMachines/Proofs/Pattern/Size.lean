import PatternMachines.Proofs.Arena.Cover
import PatternMachines.Proofs.Pattern.Trim

/-!
# The size of the automata of patterns

Building the fragment of a pattern creates a number of states that the pattern alone decides. For a
pattern that has been read this number is bounded by the number of symbols that were taken: each
factor takes a symbol for any three states that it creates, and one state more is needed where a
term has no factors.

## Main definitions

* `Pattern.stateCount`: the number of states that are created for a pattern.

## Main results

* `Pattern.size_build`: the number of states after building.
* `Pattern.stateCount_readAlternatives`, `Pattern.stateCount_readFactors`,
  `Pattern.stateCount_readFactor`: the readers.
* `Pattern.size_states_toNfa_le`: the automaton of a text.
-/

namespace PatternMachines

open Std

namespace Arena

variable {a : Arena} {f g : Fragment}

theorem size_add (ha : a.Dense) (s : NfaState) : (a.add s).size = a.size + 1 :=
  Int.ofNat_inj.1 (nextId_add ha)

theorem size_modify (id : StateId) (change : NfaState → NfaState) :
    (a.modify id change).size = a.size :=
  Int.ofNat_inj.1 nextId_modify

theorem size_leave (last : StateId) (targets : List StateId) :
    (a.leave last targets).size = a.size := size_modify _ _

theorem size_oneOf (ha : a.Dense) (symbols : List Symbol) :
    (a.oneOf symbols).2.size = a.size + 2 := by
  rw [oneOf, size_add (ha.add _), size_add ha]

theorem size_epsilon (ha : a.Dense) : a.epsilon.2.size = a.size + 1 := size_add ha _

theorem size_concat : (a.concat f g).2.size = a.size := size_leave _ _

theorem size_union (ha : a.Dense) : (a.union f g).2.size = a.size + 2 := by
  rw [union, size_modify, size_leave, size_leave, size_add (ha.add _), size_add ha]

theorem size_star (ha : a.Dense) : (a.star f).2.size = a.size + 2 := by
  rw [star, size_leave, size_add (ha.add _), size_add ha]

theorem size_plus (ha : a.Dense) : (a.plus f).2.size = a.size + 2 := by
  rw [plus_eq, size_concat, size_star ha]

theorem size_option (ha : a.Dense) : (a.option f).2.size = a.size + 3 :=
  (size_union (ha.add _)).trans (congrArg (· + 2) (size_epsilon ha))

end Arena

namespace Pattern

variable {a : Arena}

/-- The number of states that are created for a pattern. -/
def stateCount : Pattern → Nat
  | .empty => 1
  | .literal _ | .wildcard => 2
  | .concat p q => p.stateCount + q.stateCount
  | .union p q => p.stateCount + q.stateCount + 2
  | .star p | .plus p => p.stateCount + 2
  | .option p => p.stateCount + 3

/-- Building the fragment of a pattern creates as many states as the pattern says. -/
theorem size_build (p : Pattern) (ha : a.Dense) :
    (p.build a).2.size = a.size + p.stateCount := by
  induction p generalizing a with
  | empty => exact Arena.size_epsilon ha
  | literal x => exact Arena.size_oneOf ha [x]
  | wildcard => exact Arena.size_oneOf ha Symbol.wildcard
  | concat p q ihp ihq =>
    rw [build, Arena.size_concat, ihq (grows_build p ha).extends_of.dense, ihp ha, stateCount]
    exact Nat.add_assoc _ _ _
  | union p q ihp ihq =>
    have hp := (grows_build p ha).extends_of.dense
    rw [build, Arena.size_union (grows_build q hp).extends_of.dense, ihq hp, ihp ha, stateCount]
    omega
  | star p ih =>
    rw [build, Arena.size_star (grows_build p ha).extends_of.dense, ih ha, stateCount]
    exact Nat.add_assoc _ _ _
  | plus p ih =>
    rw [build, Arena.size_plus (grows_build p ha).extends_of.dense, ih ha, stateCount]
    exact Nat.add_assoc _ _ _
  | option p ih =>
    rw [build, Arena.size_option (grows_build p ha).extends_of.dense, ih ha, stateCount]
    exact Nat.add_assoc _ _ _

/-! ### The readers -/

/-- The number of states that are created for several patterns. -/
def totalCount : List Pattern → Nat
  | [] => 0
  | p :: ps => p.stateCount + totalCount ps

/-- A state is created for a term without factors. -/
theorem stateCount_concatAll (ps : List Pattern) :
    (concatAll ps).stateCount ≤ totalCount ps + 1 := by
  have hfoldl (p : Pattern) (ps : List Pattern) :
      (ps.foldl concat p).stateCount = p.stateCount + totalCount ps := by
    induction ps generalizing p with
    | nil => rfl
    | cons q ps ih => rw [List.foldl_cons, ih, stateCount, totalCount, Nat.add_assoc]
  cases ps with
  | nil => exact Nat.le_refl 1
  | cons p ps =>
    rw [concatAll, hfoldl, totalCount]
    exact Nat.le_succ _

/-- A quantifier takes a symbol for the states that it creates. -/
theorem stateCount_readQuantifier (p : Pattern) (s : List Symbol) :
    (readQuantifier p s).value.stateCount + 3 * (readQuantifier p s).rest.length ≤
      p.stateCount + 3 * s.length := by
  cases s with
  | nil => exact Nat.le_refl _
  | cons x s =>
    rw [readQuantifier]
    split
    · next q _ =>
      have happly : (q.apply p).stateCount ≤ p.stateCount + 3 := by
        cases q with
        | star | plus => exact Nat.le_succ _
        | option => exact Nat.le_refl _
      simp only [List.length_cons]
      omega
    · exact Nat.le_refl _

mutual

/-- Three states for each symbol that alternatives take, and one more. -/
theorem stateCount_readAlternatives (d : Int) (s : List Symbol) :
    (readAlternatives d s).value.stateCount + 3 * (readAlternatives d s).rest.length ≤
      3 * s.length + 1 := by
  have hfactors := stateCount_readFactors d s
  have hterm := stateCount_concatAll (readFactors d s).value
  rw [readAlternatives]
  split
  · next hrest =>
    rw [hrest, List.length_nil] at hfactors
    simp only [List.length_nil]
    omega
  · next x rest hrest =>
    have hlength : rest.length + 1 ≤ s.length := by
      rw [← List.length_cons (a := x), ← hrest]
      exact (readFactors d s).rest_length
    rw [hrest, List.length_cons] at hfactors
    split
    · have hothers := stateCount_readAlternatives d rest
      simp only [stateCount]
      omega
    · simp only [List.length_cons]
      omega
termination_by 3 * s.length + 2
decreasing_by
  · omega
  · omega

/-- Three states for each symbol that factors take. -/
theorem stateCount_readFactors (d : Int) (s : List Symbol) :
    totalCount (readFactors d s).value + 3 * (readFactors d s).rest.length ≤ 3 * s.length := by
  match s with
  | [] =>
    rw [readFactors]
    exact Nat.le_refl 0
  | x :: s =>
    rw [readFactors]
    split
    · exact Nat.le_of_eq (Nat.zero_add _)
    · have hfactor := stateCount_readFactor d x s
      have hfactors := stateCount_readFactors d (readFactor d x s).rest
      simp only [totalCount, List.length_cons]
      omega
termination_by 3 * s.length + 1
decreasing_by
  · rw [List.length_cons]
    omega
  · have hlength := (readFactor d x s).rest_length
    rw [List.length_cons]
    omega

/-- Three states for each symbol that a factor takes, the first one included. -/
theorem stateCount_readFactor (d : Int) (x : Symbol) (s : List Symbol) :
    (readFactor d x s).value.stateCount + 3 * (readFactor d x s).rest.length ≤
      3 * (s.length + 1) := by
  rw [readFactor.eq_def]
  split
  · have hgroup := stateCount_readAlternatives (d + 1) s
    have hclosing := (readClosing (readAlternatives (d + 1) s).rest).rest_length
    have hquantifier := stateCount_readQuantifier (readAlternatives (d + 1) s).value
      (readClosing (readAlternatives (d + 1) s).rest).rest
    simp only [Reading.weaken]
    omega
  · split
    · split
      · exact Nat.le_refl 1 |>.trans (by simp)
      · next y s =>
        split
        · simp only [stateCount, List.length_cons]
          omega
        · have hquantifier := stateCount_readQuantifier (.literal y) s
          simp only [Reading.weaken, stateCount, List.length_cons] at hquantifier ⊢
          omega
    · split
      · exact (stateCount_readQuantifier .wildcard s).trans (by simp only [stateCount]; omega)
      · split
        · exact (stateCount_readQuantifier (.literal x) s).trans (by simp only [stateCount]; omega)
        · simp only [stateCount]
          omega
termination_by 3 * s.length + 3
decreasing_by omega

end

/-! ### The automaton of a pattern -/

/-- The automaton of a pattern has all states that have been created. -/
theorem states_toNfa_eq (p : Pattern) : p.toNfa.states = (p.build {}).2.states :=
  (Session.new.build p).states_toNfa

/-- The last state of the automaton of a pattern is the only one with the accepting flag. -/
theorem mem_acceptingStates_toNfa (p : Pattern) (id : StateId) :
    id ∈ p.toNfa.acceptingStates ↔ id = p.toNfa.accept := by
  have hstates : p.toNfa.acceptingStates = (p.build {}).2.acceptingStates := by
    rw [Nfa.acceptingStates, states_toNfa_eq, Arena.acceptingStates]
  rw [hstates, (Session.new.build p).mem_acceptingStates_iff, List.exists_mem_cons_iff]
  refine or_iff_left ?_
  rintro ⟨e, he, -⟩
  cases he

/-- There are at most three states for each symbol of a text, and one more. -/
theorem size_states_toNfa_le (s : List Symbol) :
    (ofSymbols s).toNfa.states.size ≤ 3 * s.length + 1 := by
  have hsize : (ofSymbols s).toNfa.states.size = (ofSymbols s).stateCount := by
    rw [states_toNfa_eq]
    exact (size_build (ofSymbols s) Arena.dense_empty).trans (Nat.zero_add _)
  have hread := stateCount_readAlternatives 0 s
  rw [hsize, ofSymbols]
  omega

end Pattern

end PatternMachines
