import PatternMachines.Proofs.Pattern.Automaton
import PatternMachines.Proofs.Symbol

/-!
# Writing patterns

Every pattern that names no reserved symbol can be written, so that it is read back as the same
pattern, if its groups are not nested too deeply. The text of a part counts as the same tokens
wherever it stands in a group, as the group is closed right after it.

## Main definitions

* `Pattern.written`, `Pattern.nesting`: the symbols of the text of a pattern, and how deeply the
  groups in it are nested.
* `Pattern.Spells`: what symbols count as, whatever follows them.

## Main results

* `Pattern.exists_spells`: the text of a pattern counts as a phrase that is read as the pattern.
* `Pattern.reads_written`: the pattern is the reading of its text.
* `Pattern.accepts_iff_of_written`: the automaton of the text accepts the language of the pattern.
-/

namespace PatternMachines.Pattern

/-! ### The text of a pattern -/

/-- Symbols in a group of their own. -/
def grouped (s : List Symbol) : List Symbol := "(" :: s ++ [")"]

/-- The symbols of the text of a pattern. -/
def written : Pattern → List Symbol
  | .empty => []
  | .literal x => ["\\", x]
  | .wildcard => ["."]
  | .concat p q => grouped p.written ++ grouped q.written
  | .union p q => grouped p.written ++ (["|"] ++ grouped q.written)
  | .star p => grouped p.written ++ ["*"]
  | .plus p => grouped p.written ++ ["+"]
  | .option p => grouped p.written ++ ["?"]

/-- How deeply the groups in the text of a pattern are nested. -/
def nesting : Pattern → Nat
  | .empty | .literal _ | .wildcard => 0
  | .concat p q | .union p q => max p.nesting q.nesting + 1
  | .star p | .plus p | .option p => p.nesting + 1

variable {p q : Pattern} {d : Nat} {b b' b'' : Bool} {s s' : List Symbol} {ts ts' : List Token}
  {x : Symbol} {quantifier : Quantifier}

/-- Where all symbols are characters, the text is a text of characters. -/
theorem ofText_render (h : ∀ x ∈ p.symbols, ∃ c, x = String.singleton c) :
    Symbol.ofText p.render = p.written := by
  induction p with
  | empty | wildcard => rfl
  | literal x =>
    obtain ⟨c, rfl⟩ := h x (List.mem_singleton.2 rfl)
    simp [render, written, Symbol.ofText]
  | concat p q ihp ihq | union p q ihp ihq =>
    rw [symbols, List.forall_mem_append] at h
    simp only [render, written, grouped, Symbol.ofText_append, ihp h.1, ihq h.2]
    simp [Symbol.ofText]
  | star p ih | plus p ih | option p ih =>
    simp only [render, written, grouped, Symbol.ofText_append, ih h]
    simp [Symbol.ofText]

/-- What holds of the symbols that a pattern names and of the characters of the grammar holds of the
symbols of its text. -/
theorem forall_mem_written {P : Symbol → Prop} (hsymbols : ∀ x ∈ p.symbols, P x)
    (hgrammar : ∀ x ∈ ["(", ")", "|", "*", "+", "?", "\\", "."], P x) : ∀ x ∈ p.written, P x := by
  simp only [List.forall_mem_cons] at hgrammar
  obtain ⟨hopening, hclosing, hbar, hstar, hplus, hoption, hescape, hwildcard, -⟩ := hgrammar
  have hgrouped {s : List Symbol} (hs : ∀ x ∈ s, P x) : ∀ x ∈ grouped s, P x := by
    rw [grouped, List.cons_append, List.forall_mem_cons, List.forall_mem_append,
      List.forall_mem_singleton]
    exact ⟨hopening, hs, hclosing⟩
  induction p with
  | empty => exact List.forall_mem_nil P
  | literal x => simpa [written, symbols, hescape] using hsymbols
  | wildcard => simpa [written] using hwildcard
  | concat p q ihp ihq =>
    rw [symbols, List.forall_mem_append] at hsymbols
    rw [written, List.forall_mem_append]
    exact ⟨hgrouped (ihp hsymbols.1), hgrouped (ihq hsymbols.2)⟩
  | union p q ihp ihq =>
    rw [symbols, List.forall_mem_append] at hsymbols
    rw [written, List.forall_mem_append, List.forall_mem_append, List.forall_mem_singleton]
    exact ⟨hgrouped (ihp hsymbols.1), hbar, hgrouped (ihq hsymbols.2)⟩
  | star p ih | plus p ih | option p ih =>
    rw [written, List.forall_mem_append, List.forall_mem_singleton]
    exact ⟨hgrouped (ih hsymbols), by assumption⟩

theorem exists_ofLooseText_eq_written (h : ∀ x ∈ p.symbols, ∃ n, x = Symbol.ofCode n) :
    ∃ t, Symbol.ofLooseText t = p.written := by
  have hgrammar : ["(", ")", "|", "*", "+", "?", "\\", "."] =
      [40, 41, 124, 42, 43, 63, 92, 46].map Symbol.ofCode := by decide
  refine Symbol.exists_ofLooseText_eq_iff.2 (forall_mem_written h ?_)
  rw [hgrammar, List.forall_mem_map]
  exact fun n _ => ⟨n, rfl⟩

/-! ### What the text counts as -/

/-- Whether the symbols `s` inside `d` groups count as the tokens `ts`, whatever follows them. That
they stand right after an atom is told by `b`, and that what follows them does by `b'`. -/
def Spells (d : Nat) (b : Bool) (s : List Symbol) (ts : List Token) (b' : Bool) : Prop :=
  ∀ rest, tokens standsForItself d b (s ++ rest) = ts ++ tokens standsForItself d b' rest

theorem Spells.append (h : Spells d b s ts b') (h' : Spells d b' s' ts' b'') :
    Spells d b (s ++ s') (ts ++ ts') b'' := by
  intro rest
  rw [List.append_assoc, h, h', List.append_assoc]

theorem Spells.group (h : Spells (d + 1) false s ts b') (hd : d < 100) (b : Bool) :
    Spells d b (grouped s) (.opening :: ts ++ [.closing]) true := by
  intro rest
  rw [grouped, List.cons_append, List.cons_append, tokens_opening hd, List.append_assoc, h,
    List.singleton_append, tokens_closing, List.append_cons]
  rfl

theorem spells_escaped (hx : x.isReserved = false) :
    Spells d b ["\\", x] [.literal x] true := fun _ => tokens_escaped hx

theorem spells_wildcard : Spells d false ["."] [.wildcard] true := by
  intro rest
  rw [List.singleton_append, tokens_of_ne (by simp) (by simp) (by decide), if_pos rfl]
  rfl

theorem spells_bar : Spells d b ["|"] [.bar] false := fun _ => tokens_bar

theorem spells_quantifier (hq : Quantifier.ofSymbol? x = some quantifier) :
    Spells d true [x] [.quantifier quantifier] false := fun _ => tokens_quantifier hq

theorem Derives.of_factor (h : Derives .factor ts [p]) : Derives .factors ts [p] := by
  rw [← List.append_nil ts]
  exact .cons h .nil

theorem Derives.of_factors {ps : List Pattern} (h : Derives .factors ts ps) :
    Derives .alternatives ts [concatAll ps] := .last (.term h)

/-- A phrase in a group is an atom. -/
theorem exists_spells_grouped (h : ∃ ts b', Spells (d + 1) false s ts b' ∧
      Derives .alternatives ts [p]) (hd : d < 100) :
    ∃ ts, (∀ b, Spells d b (grouped s) ts true) ∧ Derives .atom ts [p] := by
  obtain ⟨ts, b', hspells, hderives⟩ := h
  exact ⟨_, hspells.group hd, .group hderives⟩

/-- An atom with a quantifier is a phrase. -/
theorem exists_spells_quantified (h : ∃ ts, (∀ b, Spells d b s ts true) ∧ Derives .atom ts [p])
    (hq : Quantifier.ofSymbol? x = some quantifier) :
    ∃ ts b', Spells d false (s ++ [x]) ts b' ∧ Derives .alternatives ts [quantifier.apply p] := by
  obtain ⟨ts, hspells, hderives⟩ := h
  exact ⟨_, false, (hspells false).append (spells_quantifier hq),
    .of_factors (.of_factor (.quantified hderives quantifier))⟩

/-- The text of a pattern is a phrase that is read as the pattern, inside as many groups as leave
room for its own. -/
theorem exists_spells (hsymbols : ∀ x ∈ p.symbols, x.isReserved = false)
    (hnesting : d + p.nesting ≤ 100) :
    ∃ ts b, Spells d false p.written ts b ∧ Derives .alternatives ts [p] := by
  -- A part stands inside one group more than the whole, so the depth varies in the induction.
  induction p generalizing d with
  | empty => exact ⟨[], false, fun _ => rfl, .of_factors .nil⟩
  | literal x =>
    have hx := hsymbols x (List.mem_singleton.2 rfl)
    exact ⟨_, true, spells_escaped hx, .of_factors (.of_factor (.plain (.literal x)))⟩
  | wildcard => exact ⟨_, true, spells_wildcard, .of_factors (.of_factor (.plain .wildcard))⟩
  | concat p q ihp ihq =>
    rw [symbols, List.forall_mem_append] at hsymbols
    rw [nesting] at hnesting
    have hroom : d + 1 + p.nesting ≤ 100 ∧ d + 1 + q.nesting ≤ 100 := by omega
    obtain ⟨ts, hp, hderives⟩ := exists_spells_grouped (ihp hsymbols.1 hroom.1) (by omega)
    obtain ⟨us, hq, hderives'⟩ := exists_spells_grouped (ihq hsymbols.2 hroom.2) (by omega)
    exact ⟨ts ++ us, true, (hp false).append (hq true),
      .of_factors (.cons (.plain hderives) (.of_factor (.plain hderives')))⟩
  | union p q ihp ihq =>
    rw [symbols, List.forall_mem_append] at hsymbols
    rw [nesting] at hnesting
    have hroom : d + 1 + p.nesting ≤ 100 ∧ d + 1 + q.nesting ≤ 100 := by omega
    obtain ⟨ts, hp, hderives⟩ := exists_spells_grouped (ihp hsymbols.1 hroom.1) (by omega)
    obtain ⟨us, hq, hderives'⟩ := exists_spells_grouped (ihq hsymbols.2 hroom.2) (by omega)
    exact ⟨ts ++ .bar :: us, true, (hp false).append (spells_bar.append (hq false)),
      .union (.term (.of_factor (.plain hderives))) (.of_factors (.of_factor (.plain hderives')))⟩
  | star p ih =>
    rw [nesting] at hnesting
    have hroom : d + 1 + p.nesting ≤ 100 := by omega
    have hgroup := exists_spells_grouped (ih hsymbols hroom) (by omega)
    have hstar : Quantifier.ofSymbol? "*" = some .star := rfl
    exact exists_spells_quantified hgroup hstar
  | plus p ih =>
    rw [nesting] at hnesting
    have hroom : d + 1 + p.nesting ≤ 100 := by omega
    have hgroup := exists_spells_grouped (ih hsymbols hroom) (by omega)
    have hplus : Quantifier.ofSymbol? "+" = some .plus := rfl
    exact exists_spells_quantified hgroup hplus
  | option p ih =>
    rw [nesting] at hnesting
    have hroom : d + 1 + p.nesting ≤ 100 := by omega
    have hgroup := exists_spells_grouped (ih hsymbols hroom) (by omega)
    have hoption : Quantifier.ofSymbol? "?" = some .option := rfl
    exact exists_spells_quantified hgroup hoption

/-- A pattern is the reading of its text. -/
theorem reads_written (hsymbols : ∀ x ∈ p.symbols, x.isReserved = false)
    (hnesting : p.nesting ≤ 100) : Reads p.written p := by
  obtain ⟨ts, b, hspells, hderives⟩ :=
    exists_spells hsymbols (Nat.le_trans (Nat.le_of_eq (Nat.zero_add _)) hnesting)
  have htokens := hspells []
  rw [List.append_nil, tokens_nil, List.replicate_zero, List.append_nil] at htokens
  rw [Reads, htokens]
  exact hderives

/-- **Every pattern can be written.** Let a pattern name no reserved symbol, and let the groups in
its text be nested at most a hundred deep. There is a text with the symbols that the pattern is
written with, and it has a deterministic automaton, which accepts a word exactly if the word is in
the language of the pattern. Where all symbols are characters, this is the text of the pattern. -/
theorem accepts_iff_of_written
    (hsymbols : ∀ x ∈ p.symbols, (∃ n, x = Symbol.ofCode n) ∧ x.isReserved = false)
    (hnesting : p.nesting ≤ maxGroupDepth) :
    ∃ t d, Symbol.ofLooseText t = p.written ∧
      Dfa.ofNfa (ofSymbols (Symbol.ofLooseText t)).toNfa = .ok d ∧
      ((∀ x ∈ p.symbols, ∃ c, x = String.singleton c) → Dfa.ofText p.render = .ok d) ∧
      ∀ w, ∃ b, d.accepts w = .ok b ∧ (b = true ↔ w ∈ p.language) := by
  obtain ⟨t, ht⟩ := exists_ofLooseText_eq_written fun x hx => (hsymbols x hx).1
  have hreads := reads_written (fun x hx => (hsymbols x hx).2) (Int.ofNat_le.1 hnesting)
  have hread : p = ofSymbols (Symbol.ofLooseText t) := reads_iff.1 (ht ▸ hreads)
  obtain ⟨d, hd⟩ := exists_ofNfa_toNfa p
  refine ⟨t, d, ht, hread ▸ hd, fun hcharacters => ?_, accepts_eq hd⟩
  rw [Dfa.ofText, ofText, ofText_render hcharacters, ← ht, ← hread, hd]

/-- A backslash or a line break, once or more, with as many groups around it as can be. -/
def wrapped : Pattern := plus^[99] (.union (.literal "\\") (.literal "\n"))

theorem mem_language_iterate_plus {w : List Symbol} (hw : w ∈ p.language) (n : Nat) :
    w ∈ (plus^[n] p).language := by
  induction n generalizing p with
  | zero => exact hw
  | succ n ih =>
    rw [Function.iterate_succ_apply]
    refine ih ?_
    rw [← List.append_nil w]
    exact Language.append_mem_mul hw (Language.nil_mem_kstar _)

/-- The pattern whose groups are nested a hundred deep is read back from its text. -/
theorem accepts_wrapped :
    (∀ x ∈ wrapped.symbols, (∃ n, x = Symbol.ofCode n) ∧ x.isReserved = false) ∧
      (wrapped.nesting : Int) = maxGroupDepth ∧
      ∃ d, Dfa.ofText wrapped.render = .ok d ∧ d.accepts ["\n"] = .ok true := by
  have hsymbols : wrapped.symbols = ["\\", "\n"] := rfl
  have hnesting : (wrapped.nesting : Int) = maxGroupDepth := rfl
  have hallowed : ∀ x ∈ wrapped.symbols, (∃ n, x = Symbol.ofCode n) ∧ x.isReserved = false := by
    rw [hsymbols, List.forall_mem_cons, List.forall_mem_singleton]
    exact ⟨⟨⟨92, rfl⟩, rfl⟩, ⟨10, rfl⟩, rfl⟩
  have hcharacters : ∀ x ∈ wrapped.symbols, ∃ c, x = String.singleton c := by
    rw [hsymbols, List.forall_mem_cons, List.forall_mem_singleton]
    exact ⟨⟨'\\', rfl⟩, ⟨'\n', rfl⟩⟩
  have hword : ["\n"] ∈ wrapped.language :=
    mem_language_iterate_plus (mem_language_iff.2 (.unionRight (.literal "\n"))) 99
  obtain ⟨t, d, -, -, hd, haccepts⟩ := accepts_iff_of_written hallowed (Int.le_of_eq hnesting)
  obtain ⟨b, hb, hiff⟩ := haccepts ["\n"]
  exact ⟨hallowed, hnesting, d, hd hcharacters, by rw [hb, hiff.2 hword]⟩

end PatternMachines.Pattern
