import PatternMachines.Arena

/-!
# Patterns

A pattern describes a set of words. This module holds patterns as trees, the words that match one,
its text, and the automaton that is built from it.

## Main definitions

* `Pattern`: patterns as trees.
* `Pattern.Matches`: the words that match a pattern.
* `Pattern.symbols`: the symbols that a pattern names.
* `Pattern.render`: a text that is read back with the same meaning.
* `Pattern.build`, `Pattern.toNfa`: the automaton of a pattern.
-/

namespace PatternMachines

/-- A pattern over symbols. -/
inductive Pattern where
  /-- The empty word. -/
  | empty
  /-- One symbol. -/
  | literal (x : Symbol)
  /-- Any one symbol of the wildcard. -/
  | wildcard
  /-- A word of the first pattern followed by a word of the second. -/
  | concat (p q : Pattern)
  /-- A word of either pattern. -/
  | union (p q : Pattern)
  /-- Any number of words of the pattern, one after another. -/
  | star (p : Pattern)
  /-- One or more words of the pattern, one after another. -/
  | plus (p : Pattern)
  /-- A word of the pattern or the empty word. -/
  | option (p : Pattern)
  deriving DecidableEq, Repr

namespace Pattern

/-- The words that match a pattern. -/
inductive Matches : Pattern → List Symbol → Prop
  | empty : Matches .empty []
  | literal (x : Symbol) : Matches (.literal x) [x]
  | wildcard {x : Symbol} (hx : x ∈ Symbol.wildcard) : Matches .wildcard [x]
  | concat {p q : Pattern} {u v : List Symbol} (hu : Matches p u) (hv : Matches q v) :
      Matches (.concat p q) (u ++ v)
  | unionLeft {p q : Pattern} {u : List Symbol} (hu : Matches p u) : Matches (.union p q) u
  | unionRight {p q : Pattern} {u : List Symbol} (hu : Matches q u) : Matches (.union p q) u
  | starNil {p : Pattern} : Matches (.star p) []
  | starCons {p : Pattern} {u v : List Symbol} (hu : Matches p u) (hv : Matches (.star p) v) :
      Matches (.star p) (u ++ v)
  | plus {p : Pattern} {u v : List Symbol} (hu : Matches p u) (hv : Matches (.star p) v) :
      Matches (.plus p) (u ++ v)
  | optionNil {p : Pattern} : Matches (.option p) []
  | optionSome {p : Pattern} {u : List Symbol} (hu : Matches p u) : Matches (.option p) u

/-- The symbols that a pattern names, from the left. -/
def symbols : Pattern → List Symbol
  | .empty => []
  | .literal x => [x]
  | .wildcard => Symbol.wildcard
  | .concat p q | .union p q => p.symbols ++ q.symbols
  | .star p | .plus p | .option p => p.symbols

/-- Several patterns one after another, put together from the left. -/
def concatAll : List Pattern → Pattern
  | [] => .empty
  | p :: ps => ps.foldl .concat p

/-- A text of the pattern. Every literal is escaped and every part stands in a group of its own. -/
def render : Pattern → String
  | .empty => ""
  | .literal x => "\\" ++ x
  | .wildcard => "."
  | .concat p q => "(" ++ p.render ++ ")(" ++ q.render ++ ")"
  | .union p q => "(" ++ p.render ++ ")|(" ++ q.render ++ ")"
  | .star p => "(" ++ p.render ++ ")*"
  | .plus p => "(" ++ p.render ++ ")+"
  | .option p => "(" ++ p.render ++ ")?"

/-- Builds the fragment of a pattern in an arena, part by part from the left. -/
def build : Pattern → Arena → Fragment × Arena
  | .empty, a => a.epsilon
  | .literal x, a => a.literal x
  | .wildcard, a => a.wildcard
  | .concat p q, a =>
    let (f, a) := p.build a
    let (g, a) := q.build a
    a.concat f g
  | .union p q, a =>
    let (f, a) := p.build a
    let (g, a) := q.build a
    a.union f g
  | .star p, a =>
    let (f, a) := p.build a
    a.star f
  | .plus p, a =>
    let (f, a) := p.build a
    a.plus f
  | .option p, a =>
    let (f, a) := p.build a
    a.option f

/-- The automaton of a pattern. -/
def toNfa (p : Pattern) : Nfa :=
  let (f, a) := p.build {}
  a.toNfa f

end Pattern

end PatternMachines
