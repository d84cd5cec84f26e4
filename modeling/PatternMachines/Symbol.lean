import PatternMachines.Text.Loose
import PatternMachines.Unicode.DecimalDigit
import PatternMachines.Unicode.Letter

/-!
# Symbols

Automata and tapes work over symbols. A symbol is a text: almost always a single character, but a
machine given by hand may use longer texts, or the empty one, as symbols. A text that is read by a
machine is the list of its characters, each taken as a symbol. So is a text that may hold halves of
pairs, where a private character stands for each half.

## Main definitions

* `Symbol`, `Symbol.ofText`: symbols, and the symbols of a text.
* `Symbol.ofCode`, `Symbol.ofLooseText`: the symbols of texts that may hold halves of pairs.
* `Symbol.blank`, `Symbol.endMarker`: the two symbols that are reserved for tapes.
* `Symbol.wildcard`: the symbols that the pattern `.` stands for.
* `Symbol.isRegular`: the symbols that stand for themselves in a pattern.
-/

namespace PatternMachines

/-- A symbol of an alphabet. -/
abbrev Symbol := String

namespace Symbol

/-- The symbols of a text, one for each character. -/
def ofText (s : String) : List Symbol := s.toList.map String.singleton

/-- The symbol of a code. -/
def ofCode (n : Nat) : Symbol := String.singleton (Text.charOf n)

/-- The symbols of a text that may hold halves of pairs, one for each code. -/
def ofLooseText (t : LooseText) : List Symbol := ofText t.carried

/-- The content of a blank tape cell. -/
def blank : Symbol := "_"

/-- The symbol that marks the end of the input on a tape. -/
def endMarker : Symbol := "#"

/-- The characters that the wildcard stands for, in the order in which they are tried: small
letters, capitals, digits. -/
def wildcardText : String :=
  "abcdefghijklmnopqrstuvwxyzABCDEFGHIJKLMNOPQRSTUVWXYZ0123456789"

/-- The sixty-two symbols that the wildcard stands for. -/
def wildcard : List Symbol := ofText wildcardText

/-- The symbols reserved for tapes, which no pattern can name. -/
def isReserved (s : Symbol) : Bool := s == blank || s == endMarker

/-- The symbols that stand for themselves in a pattern: texts of letters, texts of decimal digits,
and the pieces of the text "space, tab". -/
def isRegular (s : Symbol) : Bool :=
  (s != "" && s.toList.all Unicode.isLetter) ||
  (s != "" && s.toList.all Unicode.isDecimalDigit) ||
  ["", " ", "\t", " \t"].contains s

end Symbol

end PatternMachines
