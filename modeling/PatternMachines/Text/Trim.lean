import PatternMachines.Unicode.Blank

/-!
# Trimming

## Main definitions

* `Text.trimList`: a list without the blank items at its ends.
* `Text.trim`: a text without the blanks at its ends.
-/

namespace PatternMachines.Text

/-- A list without the blank items at both ends. -/
def trimList {α : Type} (blank : α → Bool) (xs : List α) : List α :=
  ((xs.dropWhile blank).reverse.dropWhile blank).reverse

/-- The characters without the blanks at both ends. -/
def trimChars (cs : List Char) : List Char := trimList Unicode.isBlank cs

/-- A text without the blanks at its ends. -/
def trim (s : String) : String := String.ofList (trimChars s.toList)

end PatternMachines.Text
