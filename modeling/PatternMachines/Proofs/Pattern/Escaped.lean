import PatternMachines.Proofs.Pattern.Symbols

/-!
# Escaped symbols

A backslash turns the symbol after it into a literal, whatever the symbol is, unless it is reserved
for tapes. A symbol that is no literal by itself can be named in no other way.

## Main definitions

* `Pattern.escaped`: the symbols that backslashes turn into literals.

## Main results

* `Pattern.mem_symbols_ofSymbols_iff`: the symbols that only an escape can name.
-/

namespace PatternMachines.Pattern

variable {regular : Symbol → Bool} {d : Nat} {b : Bool} {c : Category} {x : Symbol}
  {s : List Symbol} {ts : List Token} {ps : List Pattern}

/-- The symbols that backslashes turn into literals, from the left. -/
def escaped : List Symbol → List Symbol
  | [] => []
  | x :: s =>
    if x = "\\" then
      match s with
      | [] => []
      | y :: s => if y.isReserved then escaped (y :: s) else y :: escaped s
    else escaped s

theorem escaped_cons_of_ne (hx : x ≠ "\\") (s : List Symbol) : escaped (x :: s) = escaped s := by
  rw [escaped.eq_def]
  exact if_neg hx

theorem escaped_backslash_of_isReserved (hx : x.isReserved = true) (s : List Symbol) :
    escaped ("\\" :: x :: s) = escaped (x :: s) := by
  rw [escaped.eq_def]
  exact if_pos hx

theorem escaped_backslash (hx : x.isReserved = false) (s : List Symbol) :
    escaped ("\\" :: x :: s) = x :: escaped s := by
  rw [escaped.eq_def]
  exact if_neg (Bool.eq_false_iff.1 hx)

/-- Escaped symbols are symbols of the text. -/
theorem mem_of_mem_escaped (hx : x ∈ escaped s) : x ∈ s := by
  fun_induction escaped s with
  | case1 | case2 => cases hx
  | case3 y s _ ih => exact .tail _ (ih hx)
  | case4 y s _ ih =>
    rcases List.mem_cons.1 hx with rfl | hx
    · exact .tail _ (.head s)
    · exact .tail _ (.tail y (ih hx))
  | case5 y s _ ih => exact .tail y (ih hx)

/-- A symbol that is no literal by itself is one where it is escaped. -/
theorem literal_mem_tokens_iff (hx : regular x = false) :
    .literal x ∈ tokens regular d b s ↔ x ∈ escaped s := by
  fun_induction tokens regular d b s with
  | case1 => simp [escaped]
  | case2 _ _ s ih =>
    simp only [List.mem_cons, reduceCtorEq, false_or]
    rw [escaped_cons_of_ne (by decide)]
    exact ih
  | case3 _ _ y s _ hy ih | case4 _ _ y s _ _ hy ih =>
    simp only [List.mem_cons, reduceCtorEq, false_or]
    rw [hy.1, escaped_cons_of_ne (by decide)]
    exact ih
  | case5 _ _ _ _ _ ih =>
    simp only [List.mem_cons, reduceCtorEq, false_or]
    exact ih
  | case6 _ _ y s hy _ _ _ ih =>
    simp only [List.mem_cons, reduceCtorEq, false_or]
    rw [escaped_backslash_of_isReserved (isReserved_iff.2 hy)]
    exact ih
  | case7 _ _ y s hy _ _ _ ih =>
    have hreserved : y.isReserved = false := Bool.eq_false_iff.2 (mt isReserved_iff.1 hy)
    rw [escaped_backslash hreserved, List.mem_cons, List.mem_cons, Token.literal.injEq]
    exact or_congr_right ih
  | case8 _ _ y s _ _ _ hy _ _ ih | case9 _ _ s _ _ _ hy _ ih | case11 _ _ y s _ _ _ hy _ _ _ ih =>
    simp only [List.mem_cons, reduceCtorEq, false_or]
    rw [escaped_cons_of_ne hy]
    exact ih
  | case10 _ _ y s _ _ _ hy _ _ hregular ih =>
    have hxy : x ≠ y := by
      rintro rfl
      exact Bool.eq_false_iff.1 hx hregular
    rw [escaped_cons_of_ne hy, List.mem_cons, Token.literal.injEq, or_iff_right hxy]
    exact ih

/-- The literals among the tokens of a phrase are symbols of its reading. -/
theorem Derives.exists_mem_symbols (h : Derives c ts ps) (hx : .literal x ∈ ts) :
    ∃ p ∈ ps, x ∈ p.symbols := by
  induction h with
  | literal y =>
    obtain rfl : x = y := by simpa using hx
    exact ⟨_, List.mem_singleton.2 rfl, List.mem_singleton.2 rfl⟩
  | wildcard | void => simp at hx
  | nil => cases hx
  | group _ ih => exact ih (by simpa using hx)
  | plain _ ih | last _ ih => exact ih hx
  | @quantified _ p _ q ih =>
    obtain ⟨p', hp', hmem⟩ := ih (by simpa using hx)
    obtain rfl := List.mem_singleton.1 hp'
    refine ⟨_, List.mem_singleton.2 rfl, ?_⟩
    cases q with
    | star | plus | option => exact hmem
  | cons _ _ ih ihs =>
    rcases List.mem_append.1 hx with hx | hx
    · obtain ⟨p, hp, hmem⟩ := ih hx
      exact ⟨p, List.mem_singleton.1 hp ▸ List.mem_cons_self, hmem⟩
    · obtain ⟨p, hp, hmem⟩ := ihs hx
      exact ⟨p, List.mem_cons_of_mem _ hp, hmem⟩
  | term _ ih => exact ⟨_, List.mem_singleton.2 rfl, mem_symbols_concatAll.2 (ih hx)⟩
  | union _ _ ih ihs =>
    refine ⟨_, List.mem_singleton.2 rfl, ?_⟩
    rw [List.mem_append, List.mem_cons, or_iff_right (nofun : Token.literal x ≠ .bar)] at hx
    rcases hx with hx | hx
    · obtain ⟨p, hp, hmem⟩ := ih hx
      exact List.mem_append_left _ (List.mem_singleton.1 hp ▸ hmem)
    · obtain ⟨p, hp, hmem⟩ := ihs hx
      exact List.mem_append_right _ (List.mem_singleton.1 hp ▸ hmem)

/-- The symbols that only an escape can name. -/
theorem mem_symbols_ofSymbols_iff (hs : ∀ y ∈ s, Symbol.isRegular y = standsForItself y)
    (hx : standsForItself x = false) (hwildcard : x ∉ Symbol.wildcard) :
    x ∈ (ofSymbols s).symbols ↔ x ∈ escaped s := by
  have hreads : Derives .alternatives (tokens standsForItself 0 false s) [ofSymbols s] :=
    reads_ofSymbols hs
  rw [← literal_mem_tokens_iff hx (d := 0) (b := false)]
  constructor
  · intro hmem
    exact (hreads.mem_symbols (List.mem_singleton.2 rfl) hmem).resolve_right hwildcard
  · intro hliteral
    obtain ⟨p, hp, hmem⟩ := hreads.exists_mem_symbols hliteral
    exact List.mem_singleton.1 hp ▸ hmem

end PatternMachines.Pattern
