import Mathlib.Data.Set.List
import Mathlib.Data.String.Basic
import PatternMachines.Symbol
import Std.Data.ExtTreeSet

/-!
# The symbols of texts

The symbols of texts are those of codes, and every list of such symbols is the list of the symbols
of a text. Sets of symbols are listed in the order of the symbols.

## Main results

* `Symbol.pairwise_lt_toList`: the order of a set of symbols.
* `Symbol.ofLooseText_ofCodes`: the symbols of a text that is given by its codes.
* `Symbol.exists_ofLooseText_eq_iff`: the lists of symbols that texts have.
-/

namespace PatternMachines.Symbol

open Std Text

/-- The symbols of a set ascend. -/
theorem pairwise_lt_toList (symbols : ExtTreeSet Symbol) : symbols.toList.Pairwise (· < ·) :=
  symbols.ordered_toList.imp compareOfLessAndEq_eq_lt.1

theorem isHalf_toNat (c : Char) : isHalf c.toNat = false := by
  have hvalid : c.toNat < 0xd800 ∨ 0xdfff < c.toNat ∧ c.toNat < 0x110000 := c.valid
  simp only [isHalf, isHighHalf, isLowHalf, Bool.or_eq_false_iff, Bool.and_eq_false_iff,
    decide_eq_false_iff_not]
  omega

theorem charOf_of_isHalf_eq_false {n : Nat} (h : isHalf n = false) : charOf n = Char.ofNat n := by
  rw [charOf, h, if_neg Bool.false_ne_true]

theorem charOf_toNat (c : Char) : charOf c.toNat = c := by
  rw [charOf_of_isHalf_eq_false (isHalf_toNat c), Char.ofNat_toNat]

/-- The symbol of a character is that of its code. -/
theorem ofCode_toNat (c : Char) : ofCode c.toNat = String.singleton c := by
  rw [ofCode, charOf_toNat]

/-- The symbols of the text of codes are those of the codes. -/
theorem ofLooseText_ofCodes (codes : List Nat) :
    ofLooseText (LooseText.ofCodes codes) = codes.map ofCode := by
  have hcarried : (LooseText.ofCodes codes).carried = String.ofList (codes.map charOf) := by
    rw [LooseText.ofCodes]
    split
    · rfl
    · next hproper =>
      rw [LooseText.carried]
      refine congrArg _ (List.map_congr_left fun n hn => ?_)
      have hhalf : isHalf n = false :=
        Bool.eq_false_iff.2 fun h => hproper (List.any_eq_true.2 ⟨n, hn, h⟩)
      rw [charOf_of_isHalf_eq_false hhalf]
  rw [ofLooseText, hcarried, ofText, String.toList_ofList, List.map_map]
  rfl

/-- The lists of symbols that texts have. -/
theorem exists_ofLooseText_eq_iff {s : List Symbol} :
    (∃ t, ofLooseText t = s) ↔ ∀ x ∈ s, ∃ n, x = ofCode n := by
  constructor
  · rintro ⟨t, rfl⟩ x hx
    obtain ⟨c, -, rfl⟩ := List.mem_map.1 hx
    exact ⟨c.toNat, (ofCode_toNat c).symm⟩
  · intro h
    have hrange : s ∈ Set.range (List.map ofCode) := by
      rw [Set.range_list_map]
      exact fun x hx => (h x hx).imp fun _ hn => hn.symm
    obtain ⟨codes, rfl⟩ := hrange
    exact ⟨LooseText.ofCodes codes, ofLooseText_ofCodes codes⟩

theorem length_ofCode (n : Nat) : (ofCode n).length = 1 := String.length_singleton

theorem ofText_append (s t : String) : ofText (s ++ t) = ofText s ++ ofText t := by
  rw [ofText, String.toList_append, List.map_append]
  rfl

end PatternMachines.Symbol
