import Mathlib.Data.List.Range
import PatternMachines.Unicode.Alphanumeric
import PatternMachines.Unicode.Blank

/-!
# What is no word character

The letters of all scripts are word characters, so these cannot be looked at one by one. Blanks and
control characters are few, and each of their code points is looked up in the tables of letters and
numerals.

## Main definitions

* `Unicode.Ranges.points`: the code points of ranges, one by one.
* `Unicode.isControl`: control characters.

## Main results

* `Unicode.Ranges.has_eq_false`: a word character lies in no ranges of other code points.
* `Unicode.isBlank_eq_false`, `Unicode.isControl_eq_false`: word characters are neither blanks nor
  control characters.
-/

namespace PatternMachines.Unicode

variable {r : Ranges} {c : Char}

/-- Whether a code point is that of a word character. -/
def isWordCode (n : Nat) : Bool := letterRanges.covers n || numeralRanges.covers n || n == 0x5f

theorem isWordChar_eq : isWordChar c = isWordCode c.toNat := by
  have hunderscore : (c == '_') = (c.toNat == 0x5f) := by
    rw [Bool.eq_iff_iff, beq_iff_eq, beq_iff_eq]
    exact Char.toNat_inj.symm
  rw [isWordChar, hunderscore]
  rfl

namespace Ranges

/-- The code points of ranges, one by one. -/
def points (r : Ranges) : List Nat := r.flatMap fun p => List.range' p.1 (p.2 + 1 - p.1)

theorem mem_points_of_covers {n : Nat} (h : r.covers n = true) : n ∈ r.points := by
  induction r with
  | nil => cases h
  | cons p rest ih =>
    rw [covers] at h
    rw [points, List.flatMap_cons, List.mem_append]
    split at h
    · cases h
    · split at h
      · left
        rw [List.mem_range'_1]
        omega
      · exact .inr (ih h)

/-- A word character lies in no ranges of other code points. -/
theorem has_eq_false (hr : ∀ n ∈ r.points, isWordCode n = false) (hc : isWordChar c = true) :
    r.has c = false := by
  by_contra hhas
  rw [has, Bool.not_eq_false] at hhas
  rw [isWordChar_eq, hr _ (mem_points_of_covers hhas)] at hc
  cases hc

end Ranges

/-- No word character is a blank. -/
theorem isBlank_eq_false (hc : isWordChar c = true) : isBlank c = false :=
  Ranges.has_eq_false (by decide +kernel) hc

/-- The ranges of the control characters. -/
def controlRanges : Ranges := [(0x0, 0x1F), (0x7F, 0x9F)]

/-- A control character: general category Cc. -/
def isControl (c : Char) : Bool := controlRanges.has c

/-- No word character is a control character. -/
theorem isControl_eq_false (hc : isWordChar c = true) : isControl c = false :=
  Ranges.has_eq_false (by decide +kernel) hc

end PatternMachines.Unicode
