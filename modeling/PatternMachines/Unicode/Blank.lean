import PatternMachines.Unicode.Range

/-!
# Blanks

The characters that separate words: the space separators, the line and paragraph separators, and
the control characters with a separating bidirectional class. There are twenty-nine of them.
-/

namespace PatternMachines.Unicode

/-- The ranges of the blanks. -/
def blankRanges : Ranges :=
  [(0x9, 0xD), (0x1C, 0x20), (0x85, 0x85), (0xA0, 0xA0), (0x1680, 0x1680), (0x2000, 0x200A),
   (0x2028, 0x2029), (0x202F, 0x202F), (0x205F, 0x205F), (0x3000, 0x3000)]

/-- A blank: a character that `trim` removes from the ends of a text. -/
def isBlank (c : Char) : Bool := blankRanges.has c

end PatternMachines.Unicode
