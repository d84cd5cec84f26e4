import PatternMachines.Proofs.Pattern.Grammar

/-!
# The reader finds the reading

The readers of the grammar are run on symbols, and the grammar is over tokens. What each reader
takes from the front of the symbols is seen to be the tokens of a phrase, and the tokens of the rest
are those that follow.

## Main results

* `Pattern.derives_readAlternatives`, `Pattern.derives_readFactors`, `Pattern.derives_readFactor`:
  the readers.
* `Pattern.reads_iff`: a pattern has one reading, which is the one that is found.
-/

namespace PatternMachines.Pattern

variable {regular : Symbol → Bool} {d : Nat} {b b' : Bool} {x : Symbol} {s : List Symbol}
  {q : Quantifier}

theorem isReserved_iff : x.isReserved = true ↔ x = "_" ∨ x = "#" := by
  simp [Symbol.isReserved, Symbol.blank, Symbol.endMarker]

theorem ofSymbol?_eq_some_iff : Quantifier.ofSymbol? x = some q ↔
    (x = "*" ∧ q = .star) ∨ (x = "+" ∧ q = .plus) ∨ (x = "?" ∧ q = .option) := by
  rw [Quantifier.ofSymbol?]
  split_ifs with hstar hplus hoption
  · simp [hstar, eq_comm]
  · simp [hplus, eq_comm]
  · simp [hoption, eq_comm]
  · simp [hstar, hplus, hoption]

/-- Where alternatives inside `d` groups end: at the end of the pattern and before the end of the
innermost group. -/
def EndsGroup (d : Nat) (s : List Symbol) : Prop := s = [] ∨ (0 < d ∧ ∃ rest, s = ")" :: rest)

/-! ### The tokens of a symbol -/

theorem tokens_nil : tokens regular d b [] = List.replicate d .closing := rfl

theorem tokens_bar : tokens regular d b ("|" :: s) = .bar :: tokens regular d false s := by
  rw [tokens.eq_def]
  rfl

theorem tokens_opening (hd : d < 100) :
    tokens regular d b ("(" :: s) = .opening :: tokens regular (d + 1) false s := by
  rw [tokens.eq_def]
  simp [hd]

theorem tokens_closing :
    tokens regular (d + 1) b (")" :: s) = .closing :: tokens regular d true s := by
  rw [tokens.eq_def]
  simp

theorem tokens_escaped {y : Symbol} (hy : y.isReserved = false) :
    tokens regular d b ("\\" :: y :: s) = .literal y :: tokens regular d true s := by
  rw [Bool.eq_false_iff, ne_eq, isReserved_iff] at hy
  rw [tokens.eq_def]
  simp [hy]

/-- A backslash before a reserved symbol, or at the end, matches the empty word. -/
theorem tokens_escape_void (hs : ∀ y, s.head? = some y → y.isReserved = true) :
    tokens regular d b ("\\" :: s) = .void :: tokens regular d false s := by
  rw [tokens.eq_def]
  cases s with
  | nil => simp
  | cons y s =>
    have hy := isReserved_iff.1 (hs y rfl)
    simp [hy]

/-- The other symbols that begin a factor. -/
theorem tokens_of_ne (hx : ¬(x = "|" ∨ (x = ")" ∧ 0 < (d : Int))))
    (hopening : ¬(x = "(" ∧ (d : Int) < maxGroupDepth)) (hescape : x ≠ "\\") :
    tokens regular d false (x :: s) =
      if x = "." then .wildcard :: tokens regular d true s
      else if regular x then .literal x :: tokens regular d true s
      else .void :: tokens regular d false s := by
  have hclosing : ¬(x = ")" ∧ 0 < d) := fun h => hx (.inr ⟨h.1, Int.natCast_pos.2 h.2⟩)
  have hopening' : ¬(x = "(" ∧ d < 100) := fun h => hopening ⟨h.1, Int.ofNat_lt.2 h.2⟩
  rw [tokens.eq_def]
  simp only [if_neg (fun h => hx (.inl h) : ¬x = "|"), if_neg hclosing, if_neg hopening',
    if_neg hescape, Bool.false_eq_true, if_false]

theorem tokens_quantifier (hq : Quantifier.ofSymbol? x = some q) :
    tokens regular d true (x :: s) = .quantifier q :: tokens regular d false s := by
  rw [tokens.eq_def]
  rcases ofSymbol?_eq_some_iff.1 hq with ⟨rfl, rfl⟩ | ⟨rfl, rfl⟩ | ⟨rfl, rfl⟩
  · rfl
  · rfl
  · rfl

/-- Whether a symbol stands after an atom matters for quantifiers only. -/
theorem tokens_of_ofSymbol?_eq_none (hq : Quantifier.ofSymbol? x = none) :
    tokens regular d b (x :: s) = tokens regular d b' (x :: s) := by
  rw [tokens.eq_def, tokens.eq_def regular d b']
  simp [hq]

/-- Where a group ends, its end is a token, whether it is there or not. -/
theorem tokens_readClosing (hs : EndsGroup (d + 1) s) :
    tokens regular (d + 1) b s = .closing :: tokens regular d true (readClosing s).rest := by
  rcases hs with rfl | ⟨-, rest, rfl⟩
  · rfl
  · rw [tokens_closing]
    rfl

/-! ### The readers -/

/-- A quantifier is taken where it stands right after an atom. -/
theorem derives_readQuantifier (regular : Symbol → Bool) {ts : List Token} {p : Pattern}
    (h : Derives .atom ts [p]) (s : List Symbol) :
    ∃ us, ts ++ tokens regular d true s =
        us ++ tokens regular d false (readQuantifier p s).rest ∧
      Derives .factor us [(readQuantifier p s).value] := by
  cases s with
  | nil => exact ⟨ts, rfl, .plain h⟩
  | cons x s =>
    rw [readQuantifier]
    split
    · next q hq =>
      refine ⟨ts ++ [.quantifier q], ?_, .quantified h q⟩
      rw [tokens_quantifier hq, List.append_assoc]
      rfl
    · next hq => exact ⟨ts, by rw [tokens_of_ofSymbol?_eq_none hq], .plain h⟩

mutual

theorem derives_readAlternatives (d : Nat) (s : List Symbol) :
    EndsGroup d (readAlternatives d s).rest ∧
      ∃ ts, tokens Symbol.isRegular d false s =
          ts ++ tokens Symbol.isRegular d false (readAlternatives d s).rest ∧
        Derives .alternatives ts [(readAlternatives d s).value] := by
  obtain ⟨hend, ts, hts, hderives⟩ := derives_readFactors d s
  rw [readAlternatives]
  split
  · next hrest =>
    refine ⟨.inl rfl, ts, ?_, .last (.term hderives)⟩
    rw [hts, hrest]
  · next x rest hrest =>
    rw [hrest] at hts
    split
    · next hx =>
      subst hx
      obtain ⟨hend', us, hus, hderives'⟩ := derives_readAlternatives d rest
      refine ⟨hend', ts ++ .bar :: us, ?_, .union (.term hderives) hderives'⟩
      rw [hts, tokens_bar, hus, List.append_assoc]
      rfl
    · next hx =>
      rw [hrest] at hend
      refine ⟨?_, ts, hts, .last (.term hderives)⟩
      rcases hend with hend | ⟨rest', hrest'⟩
      · exact hend
      · exact absurd (List.cons_eq_cons.1 hrest').1 hx
termination_by 3 * s.length + 2
decreasing_by
  · omega
  · have hlength := (readFactors d s).rest_length
    rw [hrest, List.length_cons] at hlength
    omega

theorem derives_readFactors (d : Nat) (s : List Symbol) :
    (EndsGroup d (readFactors d s).rest ∨ ∃ rest, (readFactors d s).rest = "|" :: rest) ∧
      ∃ ts, tokens Symbol.isRegular d false s =
          ts ++ tokens Symbol.isRegular d false (readFactors d s).rest ∧
        Derives .factors ts (readFactors d s).value := by
  match s with
  | [] =>
    rw [readFactors]
    exact ⟨.inl (.inl rfl), [], rfl, .nil⟩
  | x :: s =>
    rw [readFactors]
    split
    · next h =>
      refine ⟨?_, [], rfl, .nil⟩
      rcases h with rfl | ⟨rfl, hd⟩
      · exact .inr ⟨s, rfl⟩
      · exact .inl (.inr ⟨Int.natCast_pos.1 hd, s, rfl⟩)
    · next h =>
      obtain ⟨ts, hts, hderives⟩ := derives_readFactor d x s h
      obtain ⟨hend, us, hus, hderives'⟩ := derives_readFactors d (readFactor d x s).rest
      refine ⟨hend, ts ++ us, ?_, .cons hderives hderives'⟩
      rw [hts, hus, List.append_assoc]
termination_by 3 * s.length + 1
decreasing_by
  · rw [List.length_cons]
    omega
  · have hlength := (readFactor d x s).rest_length
    rw [List.length_cons]
    omega

theorem derives_readFactor (d : Nat) (x : Symbol) (s : List Symbol)
    (hx : ¬(x = "|" ∨ (x = ")" ∧ 0 < (d : Int)))) :
    ∃ ts, tokens Symbol.isRegular d false (x :: s) =
        ts ++ tokens Symbol.isRegular d false (readFactor d x s).rest ∧
      Derives .factor ts [(readFactor d x s).value] := by
  rw [readFactor.eq_def]
  split
  · next h =>
    obtain ⟨rfl, hd⟩ := h
    obtain ⟨hend, us, hus, hderives⟩ := derives_readAlternatives (d + 1) s
    obtain ⟨ts, hts, hfactor⟩ := derives_readQuantifier (d := d) Symbol.isRegular (.group hderives)
      (readClosing (readAlternatives (d + 1 : Nat) s).rest).rest
    refine ⟨ts, ?_, hfactor⟩
    rw [tokens_opening (Int.ofNat_lt.1 hd), hus, tokens_readClosing hend]
    rw [List.append_assoc] at hts
    exact hts
  · next h =>
    split
    · next hescape =>
      subst hescape
      split
      · exact ⟨[.void], tokens_escape_void (by simp), .void⟩
      · next y s =>
        split
        · next hy =>
          refine ⟨[.void], tokens_escape_void fun z hz => ?_, .void⟩
          obtain rfl := Option.some_inj.1 hz
          exact hy
        · next hy =>
          rw [tokens_escaped (Bool.eq_false_iff.2 hy)]
          exact derives_readQuantifier Symbol.isRegular (.literal y) s
    · next hescape =>
      rw [tokens_of_ne hx h hescape]
      split
      · exact derives_readQuantifier Symbol.isRegular .wildcard s
      · split
        · exact derives_readQuantifier Symbol.isRegular (.literal x) s
        · exact ⟨[.void], rfl, .void⟩
termination_by 3 * s.length + 3
decreasing_by omega

end

/-! ### The symbols of texts -/

theorem tokens_congr {regular' : Symbol → Bool} (s : List Symbol) (d : Nat) (b : Bool)
    (h : ∀ x ∈ s, regular x = regular' x) : tokens regular d b s = tokens regular' d b s := by
  match s with
  | [] => rfl
  | [x] =>
    have hx := h x List.mem_cons_self
    rw [tokens.eq_def, tokens.eq_def regular']
    simp only [hx, tokens_nil]
  | x :: y :: s =>
    have hx := h x List.mem_cons_self
    have hlong (d : Nat) (b : Bool) := tokens_congr (y :: s) d b fun z hz => h z (.tail x hz)
    have hshort (d : Nat) (b : Bool) := tokens_congr s d b fun z hz => h z (.tail x (.tail y hz))
    rw [tokens.eq_def, tokens.eq_def regular']
    simp only [hx, hlong, hshort]

theorem isRegular_singleton (c : Char) :
    Symbol.isRegular (String.singleton c) = standsForItself (String.singleton c) := by
  have heq (t : String) : String.singleton c = t ↔ [c] = t.toList := by
    rw [← String.toList_inj, String.toList_singleton]
  have hne : (String.singleton c != "") = true := by
    rw [bne_iff_ne, ne_eq, heq]
    exact List.cons_ne_nil c []
  simp [Symbol.isRegular, standsForItself, hne, heq, Bool.or_assoc, Bool.beq_eq_decide_eq]

theorem isRegular_of_mem_ofLooseText {t : LooseText} {x : Symbol} (hx : x ∈ Symbol.ofLooseText t) :
    Symbol.isRegular x = standsForItself x := by
  obtain ⟨c, -, rfl⟩ := List.mem_map.1 hx
  exact isRegular_singleton c

/-! ### The reading -/

theorem reads_ofSymbols (hs : ∀ x ∈ s, Symbol.isRegular x = standsForItself x) :
    Reads s (ofSymbols s) := by
  obtain ⟨hend, ts, hts, hderives⟩ := derives_readAlternatives 0 s
  rcases hend with hrest | ⟨hpos, -⟩
  · rw [Int.ofNat_zero] at hrest hts hderives
    rw [hrest, tokens_nil, List.replicate_zero, List.append_nil, tokens_congr s 0 false hs] at hts
    rw [Reads, hts]
    exact hderives
  · exact absurd hpos (Nat.lt_irrefl 0)

/-- A text has one reading as a pattern, and the reader finds it. -/
theorem reads_iff {t : LooseText} {p : Pattern} :
    Reads (Symbol.ofLooseText t) p ↔ p = ofSymbols (Symbol.ofLooseText t) := by
  have hreads : Reads (Symbol.ofLooseText t) (ofSymbols (Symbol.ofLooseText t)) :=
    reads_ofSymbols fun x hx => isRegular_of_mem_ofLooseText hx
  constructor
  · intro h
    exact h.unique hreads
  · rintro rfl
    exact hreads

end PatternMachines.Pattern
