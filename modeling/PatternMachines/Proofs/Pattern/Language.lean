import Mathlib.Computability.Language
import PatternMachines.Pattern

/-!
# The language of a pattern

The words that match a pattern form a language, which is computed from the languages of the parts
of the pattern by the operations on languages.

## Main definitions

* `Pattern.language`: the language of a pattern.

## Main results

* `Pattern.mem_language_iff`: the language holds the words that match.
* `Pattern.language_concatAll`: the language of several patterns one after another.
-/

namespace PatternMachines.Pattern

open Computability

/-- The language of a pattern. -/
def language : Pattern → Language Symbol
  | .empty => 1
  | .literal x => {[x]}
  | .wildcard => {w | ∃ x ∈ Symbol.wildcard, w = [x]}
  | .concat p q => p.language * q.language
  | .union p q => p.language + q.language
  | .star p => p.language∗
  | .plus p => p.language * p.language∗
  | .option p => p.language + 1

theorem Matches.mem_language {p : Pattern} {w : List Symbol} (h : p.Matches w) :
    w ∈ p.language := by
  induction h with
  | empty => exact Language.nil_mem_one
  | literal x => exact Set.mem_singleton [x]
  | wildcard hx => exact ⟨_, hx, rfl⟩
  | concat _ _ ihu ihv => exact Language.append_mem_mul ihu ihv
  | unionLeft _ ih => exact .inl ih
  | unionRight _ ih => exact .inr ih
  | starNil => exact Language.nil_mem_kstar _
  | starCons _ _ ihu ihv =>
    rw [language, ← Language.one_add_self_mul_kstar_eq_kstar]
    exact .inr (Language.append_mem_mul ihu ihv)
  | plus _ _ ihu ihv => exact Language.append_mem_mul ihu ihv
  | optionNil => exact .inr Language.nil_mem_one
  | optionSome _ ih => exact .inl ih

theorem Matches.star_of_mem_kstar {p : Pattern} (hp : ∀ {w}, w ∈ p.language → p.Matches w)
    {w : List Symbol} (h : w ∈ p.language∗) : p.star.Matches w := by
  obtain ⟨words, rfl, hwords⟩ := Language.mem_kstar.1 h
  clear h
  induction words with
  | nil => exact .starNil
  | cons u words ih =>
    rw [List.forall_mem_cons] at hwords
    exact .starCons (hp hwords.1) (ih hwords.2)

/-- The language of a pattern holds the words that match. -/
theorem mem_language_iff {p : Pattern} {w : List Symbol} : w ∈ p.language ↔ p.Matches w := by
  refine ⟨fun h => ?_, Matches.mem_language⟩
  induction p generalizing w with
  | empty =>
    obtain rfl := (Language.mem_one w).1 h
    exact .empty
  | literal x =>
    obtain rfl := Set.mem_singleton_iff.1 h
    exact .literal x
  | wildcard =>
    obtain ⟨x, hx, rfl⟩ := h
    exact .wildcard hx
  | concat p q ihp ihq =>
    obtain ⟨u, hu, v, hv, rfl⟩ := Language.mem_mul.1 h
    exact .concat (ihp hu) (ihq hv)
  | union p q ihp ihq =>
    rcases h with h | h
    · exact .unionLeft (ihp h)
    · exact .unionRight (ihq h)
  | star p ih => exact .star_of_mem_kstar ih h
  | plus p ih =>
    obtain ⟨u, hu, v, hv, rfl⟩ := Language.mem_mul.1 h
    exact .plus (ih hu) (.star_of_mem_kstar ih hv)
  | option p ih =>
    rcases h with h | h
    · exact .optionSome (ih h)
    · obtain rfl := (Language.mem_one w).1 h
      exact .optionNil

/-- Several patterns one after another have the product of their languages. -/
theorem language_concatAll (ps : List Pattern) :
    (concatAll ps).language = (ps.map language).prod := by
  have hfoldl (p : Pattern) (ps : List Pattern) :
      (ps.foldl concat p).language = p.language * (ps.map language).prod := by
    induction ps generalizing p with
    | nil => exact (mul_one p.language).symm
    | cons q ps ih => rw [List.foldl_cons, ih, language, List.map_cons, List.prod_cons, mul_assoc]
  cases ps with
  | nil => rfl
  | cons p ps => rw [concatAll, hfoldl, List.map_cons, List.prod_cons]

end PatternMachines.Pattern
