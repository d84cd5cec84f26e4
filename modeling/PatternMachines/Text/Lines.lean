import PatternMachines.Text.Part

/-!
# Lines

A text file may end its lines with a line feed, a carriage return or both. Besides these, a vertical
tab, a form feed, the three information separators, the next-line character and the two Unicode
separators end a line.

## Main definitions

* `Text.normaliseNewlines`: carriage returns and pairs become line feeds.
* `Text.splitLines`: the lines of a text.
-/

namespace PatternMachines.Text

/-- Each carriage return, alone or before a line feed, becomes a line feed. -/
def normaliseNewlines : List Char → List Char
  | [] => []
  | '\r' :: '\n' :: rest => '\n' :: normaliseNewlines rest
  | '\r' :: rest => '\n' :: normaliseNewlines rest
  | c :: rest => c :: normaliseNewlines rest

/-- The characters that end a line. -/
def endsLine (c : Char) : Bool :=
  (0x0a ≤ c.toNat && c.toNat ≤ 0x0d) || (0x1c ≤ c.toNat && c.toNat ≤ 0x1e) || c.toNat == 0x85 ||
    c.toNat == 0x2028 || c.toNat == 0x2029

/-- The lines of the characters, where the line that has begun with `soFar`, held in reverse, is
still open. -/
def splitLinesFrom (soFar : List Char) : List Char → List (List Char)
  | [] => if soFar.isEmpty then [] else [soFar.reverse]
  | '\r' :: '\n' :: rest => soFar.reverse :: splitLinesFrom [] rest
  | c :: rest =>
    if endsLine c then soFar.reverse :: splitLinesFrom [] rest else splitLinesFrom (c :: soFar) rest

/-- The lines of the characters. A line end at the very end begins no further line. -/
def splitLines (cs : List Char) : List (List Char) := splitLinesFrom [] cs

end PatternMachines.Text
