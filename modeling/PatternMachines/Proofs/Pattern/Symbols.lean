import PatternMachines.Proofs.Pattern.Reader

/-!
# The symbols of a pattern

The fragment that is built from a pattern reads the symbols that the pattern names. A pattern that
has been read names no symbol that is reserved for tapes.

## Main results

* `Pattern.mem_alphabet_build`: the alphabet of the fragment of a pattern.
* `Pattern.not_isReserved_of_mem_symbols`: no reserved symbols come from texts.
-/

namespace PatternMachines.Pattern

open Std

variable {x : Symbol} {c : Category} {ts : List Token} {ps : List Pattern}

theorem mem_symbols_concatAll : x ∈ (concatAll ps).symbols ↔ ∃ p ∈ ps, x ∈ p.symbols := by
  have hfoldl (p : Pattern) (ps : List Pattern) :
      x ∈ (ps.foldl concat p).symbols ↔ x ∈ p.symbols ∨ ∃ q ∈ ps, x ∈ q.symbols := by
    induction ps generalizing p with
    | nil => simp
    | cons q ps ih =>
      rw [List.foldl_cons, ih, symbols, List.mem_append, List.exists_mem_cons_iff, or_assoc]
  cases ps with
  | nil => simp [concatAll, symbols]
  | cons p ps => rw [concatAll, hfoldl, List.exists_mem_cons_iff]

/-- The alphabet of the fragment of a pattern holds the symbols that the pattern names. -/
theorem mem_alphabet_build (p : Pattern) (a : Arena) :
    x ∈ (p.build a).1.alphabet ↔ x ∈ p.symbols := by
  induction p generalizing a with
  | empty => simp [build, Arena.epsilon, symbols]
  | literal y => simpa [build, Arena.literal, Arena.oneOf, symbols] using eq_comm
  | wildcard => simp [build, Arena.wildcard, Arena.oneOf, symbols]
  | concat p q ihp ihq => simp [build, Arena.concat, symbols, ExtTreeSet.mem_union_iff, ihp, ihq]
  | union p q ihp ihq =>
    simp [build, Arena.union, Fragment.merge, symbols, ExtTreeSet.mem_union_iff, ihp, ihq]
  | star p ih => simp [build, Arena.star, Fragment.merge, symbols, ExtTreeSet.mem_union_iff, ih]
  | plus p ih =>
    simp [build, Arena.plus, Arena.concat, Arena.star, Fragment.merge, symbols,
      ExtTreeSet.mem_union_iff, ih]
  | option p ih =>
    simp [build, Arena.option, Arena.epsilon, Arena.union, Fragment.merge, symbols,
      ExtTreeSet.mem_union_iff, ih]

/-- The symbols that a reading names are literals among the tokens, or symbols of the wildcard. -/
theorem Derives.mem_symbols (h : Derives c ts ps) {p : Pattern} (hp : p ∈ ps)
    (hx : x ∈ p.symbols) : .literal x ∈ ts ∨ x ∈ Symbol.wildcard := by
  induction h generalizing p with
  | literal y =>
    obtain rfl := List.mem_singleton.1 hp
    obtain rfl := List.mem_singleton.1 hx
    exact .inl (List.mem_singleton.2 rfl)
  | wildcard =>
    obtain rfl := List.mem_singleton.1 hp
    exact .inr hx
  | group _ ih =>
    refine (ih hp hx).imp_left fun hmem => ?_
    exact List.mem_append_left _ (List.mem_cons_of_mem _ hmem)
  | plain _ ih => exact ih hp hx
  | quantified _ q ih =>
    obtain rfl := List.mem_singleton.1 hp
    refine (ih (List.mem_singleton.2 rfl) ?_).imp_left (List.mem_append_left _)
    cases q with
    | star | plus | option => exact hx
  | void =>
    obtain rfl := List.mem_singleton.1 hp
    cases hx
  | nil => cases hp
  | cons _ _ ih ihs =>
    rcases List.mem_cons.1 hp with rfl | hp
    · exact (ih (List.mem_singleton.2 rfl) hx).imp_left (List.mem_append_left _)
    · exact (ihs hp hx).imp_left (List.mem_append_right _)
  | term _ ih =>
    obtain rfl := List.mem_singleton.1 hp
    obtain ⟨p, hp, hx⟩ := mem_symbols_concatAll.1 hx
    exact ih hp hx
  | last _ ih => exact ih hp hx
  | union _ _ ih ihs =>
    obtain rfl := List.mem_singleton.1 hp
    rcases List.mem_append.1 hx with hx | hx
    · exact (ih (List.mem_singleton.2 rfl) hx).imp_left (List.mem_append_left _)
    · refine (ihs (List.mem_singleton.2 rfl) hx).imp_left fun hmem => ?_
      exact List.mem_append_right _ (List.mem_cons_of_mem _ hmem)

theorem not_isReserved_of_isRegular (hx : Symbol.isRegular x = true) : ¬x.isReserved = true := by
  intro hreserved
  rcases isReserved_iff.1 hreserved with rfl | rfl
  · exact absurd hx (by decide)
  · exact absurd hx (by decide)

theorem not_isReserved_of_mem_wildcard (hx : x ∈ Symbol.wildcard) : ¬x.isReserved = true := by
  intro hreserved
  rcases isReserved_iff.1 hreserved with rfl | rfl
  · exact absurd hx (by decide)
  · exact absurd hx (by decide)

theorem not_isReserved_of_literal_mem_tokens {d : Nat} {b : Bool} {s : List Symbol}
    (h : .literal x ∈ tokens Symbol.isRegular d b s) : ¬x.isReserved = true := by
  fun_induction tokens Symbol.isRegular d b s
  case case1 => cases List.eq_of_mem_replicate h
  case case7 y s hy _ _ _ ih =>
    rcases List.mem_cons.1 h with heq | h
    · cases heq
      exact isReserved_iff.not.2 hy
    · exact ih h
  case case10 y s _ _ _ _ _ _ hy ih =>
    rcases List.mem_cons.1 h with heq | h
    · cases heq
      exact not_isReserved_of_isRegular hy
    · exact ih h
  -- The other tokens are no literals.
  all_goals simp_all

/-- No pattern that has been read names a reserved symbol. -/
theorem not_isReserved_of_mem_symbols {s : List Symbol} (hx : x ∈ (ofSymbols s).symbols) :
    ¬x.isReserved = true := by
  obtain ⟨-, ts, hts, hderives⟩ := derives_readAlternatives 0 s
  rcases hderives.mem_symbols (List.mem_singleton.2 rfl) hx with hliteral | hwildcard
  · exact not_isReserved_of_literal_mem_tokens (hts ▸ List.mem_append_left _ hliteral)
  · exact not_isReserved_of_mem_wildcard hwildcard

end PatternMachines.Pattern
