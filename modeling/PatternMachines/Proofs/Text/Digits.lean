import Mathlib.Algebra.Group.Nat.Defs
import Mathlib.Data.List.Basic
import PatternMachines.Text.Digits

/-!
# Hexadecimal digits that are read back

## Main results

* `Text.hexNumber_hexDigits`: the number that the last digits of a number write.
* `Text.isHexDigit_of_mem_hexDigits`: digits are digits.
-/

namespace PatternMachines.Text

theorem hexValue?_digitChar {k : Nat} (hk : k < 16) : hexValue? (Nat.digitChar k) = some k := by
  revert k
  decide

theorem isHexDigit_of_mem_hexDigits {count n : Nat} {c : Char} (hc : c ∈ hexDigits count n) :
    isHexDigit c = true := by
  induction count generalizing n with
  | zero => cases hc
  | succ count ih =>
    rw [hexDigits, List.mem_append, List.mem_singleton] at hc
    rcases hc with hc | rfl
    · exact ih hc
    · rw [isHexDigit, hexValue?_digitChar (Nat.mod_lt n (by decide))]
      rfl

theorem hexNumber_hexDigits (count n : Nat) : hexNumber (hexDigits count n) = n % 16 ^ count := by
  induction count generalizing n with
  | zero => rw [Nat.pow_zero, Nat.mod_one]; rfl
  | succ count ih =>
    rw [hexDigits, hexNumber, List.foldl_append, ← hexNumber, ih, List.foldl_cons, List.foldl_nil,
      hexValue?_digitChar (Nat.mod_lt n (by decide)), Option.getD_some, Nat.pow_succ',
      Nat.mod_mul, Nat.add_comm]

end PatternMachines.Text
