import PatternMachines.Dfa.Subset
import PatternMachines.Pattern
import PatternMachines.Reading

/-!
# Reading patterns

The grammar of patterns is

* alternatives: terms separated by `|`, grouped from the right;
* a term: any number of factors;
* a factor: an atom and at most one of the quantifiers `*`, `+`, `?`;
* an atom: a regular symbol, an escaped symbol, the wildcard `.`, or alternatives in parentheses.

Every text can be read. A group that is not closed ends with the text. A symbol that cannot begin a
factor where it stands matches the empty word and takes no quantifier: a quantifier without an atom,
a closing parenthesis outside all groups, an opening one inside too many groups, a backslash at the
end or before a reserved symbol, and every symbol that is not regular.

## Main definitions

* `Pattern.readAlternatives`, `Pattern.readFactors`, `Pattern.readFactor`: the readers of the
  grammar, inside a given number of groups.
* `Pattern.ofSymbols`, `Pattern.ofText`: the pattern of a text.
* `Dfa.ofText`: the deterministic automaton of the text of a pattern.
-/

namespace PatternMachines

namespace Pattern

/-- How deeply groups may be nested. -/
def maxGroupDepth : Int := 100

/-- The three quantifiers. -/
inductive Quantifier where
  /-- Any number of times. -/
  | star
  /-- Once or more. -/
  | plus
  /-- Once or not at all. -/
  | option
  deriving DecidableEq, Repr

namespace Quantifier

/-- The quantifier that a symbol denotes. -/
def ofSymbol? (x : Symbol) : Option Quantifier :=
  if x = "*" then some .star else if x = "+" then some .plus
  else if x = "?" then some .option else none

/-- The quantified pattern. -/
def apply : Quantifier → Pattern → Pattern
  | .star => .star
  | .plus => .plus
  | .option => .option

end Quantifier

/-- Applies the quantifier that follows an atom, if one does. -/
def readQuantifier (p : Pattern) : (s : List Symbol) → Reading Symbol Pattern s.length
  | [] => ⟨p, [], Nat.le_refl _⟩
  | x :: s =>
    match Quantifier.ofSymbol? x with
    | some q => ⟨q.apply p, s, by simp⟩
    | none => ⟨p, x :: s, Nat.le_refl _⟩

/-- Leaves out the closing parenthesis of a group, if it is there. -/
def readClosing : (s : List Symbol) → Reading Symbol Unit s.length
  | [] => ⟨(), [], Nat.le_refl _⟩
  | x :: s => if x = ")" then ⟨(), s, by simp⟩ else ⟨(), x :: s, Nat.le_refl _⟩

mutual

/-- Reads alternatives inside `depth` groups, up to the end of the innermost group. -/
def readAlternatives (depth : Int) (s : List Symbol) : Reading Symbol Pattern s.length :=
  let first := readFactors depth s
  match h : first.rest with
  | [] => ⟨concatAll first.value, [], by simp⟩
  | x :: rest =>
    have hrest : (x :: rest).length ≤ s.length := h ▸ first.rest_length
    if x = "|" then
      let others := readAlternatives depth rest
      ⟨.union (concatAll first.value) others.value, others.rest,
        Nat.le_trans others.rest_length (Nat.le_of_succ_le hrest)⟩
    else ⟨concatAll first.value, x :: rest, hrest⟩
termination_by 3 * s.length + 2
decreasing_by
  · omega
  · simp only [List.length_cons] at hrest; omega

/-- Reads the factors of a term inside `depth` groups. -/
def readFactors (depth : Int) : (s : List Symbol) → Reading Symbol (List Pattern) s.length
  | [] => ⟨[], [], Nat.le_refl _⟩
  | x :: s =>
    if x = "|" ∨ (x = ")" ∧ 0 < depth) then ⟨[], x :: s, Nat.le_refl _⟩
    else
      let first := readFactor depth x s
      let others := readFactors depth first.rest
      ⟨first.value :: others.value, others.rest,
        Nat.le_trans others.rest_length (Nat.le_succ_of_le first.rest_length)⟩
termination_by s => 3 * s.length + 1
decreasing_by
  · simp only [List.length_cons]; omega
  · refine Nat.lt_of_le_of_lt
      (Nat.add_le_add_right (Nat.mul_le_mul_left 3 first.rest_length) 1) ?_
    simp only [List.length_cons]; omega

/-- Reads one factor that begins with the symbol `x`, inside `depth` groups. -/
def readFactor (depth : Int) (x : Symbol) (s : List Symbol) : Reading Symbol Pattern s.length :=
  if x = "(" ∧ depth < maxGroupDepth then
    let group := readAlternatives (depth + 1) s
    let closed := readClosing group.rest
    (readQuantifier group.value closed.rest).weaken
      (Nat.le_trans closed.rest_length group.rest_length)
  else if x = "\\" then
    match s with
    | [] => ⟨.empty, [], Nat.le_refl _⟩
    | y :: s =>
      if y.isReserved then ⟨.empty, y :: s, Nat.le_refl _⟩
      else (readQuantifier (.literal y) s).weaken (by simp)
  else if x = "." then readQuantifier .wildcard s
  else if Symbol.isRegular x then readQuantifier (.literal x) s
  else ⟨.empty, s, Nat.le_refl _⟩
termination_by 3 * s.length + 3
decreasing_by omega

end

/-- The pattern that a list of symbols is read as. -/
def ofSymbols (s : List Symbol) : Pattern := (readAlternatives 0 s).value

/-- The pattern that a text is read as. -/
def ofText (s : String) : Pattern := ofSymbols (Symbol.ofText s)

end Pattern

/-- The automaton of the text of a pattern. -/
def Dfa.ofText (s : String) : Except MissingState Dfa := Dfa.ofNfa (Pattern.ofText s).toNfa

end PatternMachines
