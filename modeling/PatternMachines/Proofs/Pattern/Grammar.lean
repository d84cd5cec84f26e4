import Mathlib.Data.List.Basic
import PatternMachines.Pattern.Reader

/-!
# The grammar of patterns

What a pattern means is said here without a reader. The symbols of a pattern are first turned into
tokens, from the left. What a symbol counts as depends on how many groups are open before it and on
whether it stands right after an atom, and on nothing else. Groups that are still open at the end of
the pattern are closed there. The tokens are then read by a grammar without context, which gives
each list of tokens at most one reading.

## Main definitions

* `Pattern.Token`, `Pattern.tokens`: the tokens of a pattern.
* `Pattern.Category`, `Pattern.Derives`: the grammar.
* `Pattern.standsForItself`: the symbols that are literals where they stand.
* `Pattern.Reads`: the reading of a pattern.
* `Pattern.Determined`: the phrases that can be told from what begins with them.

## Main results

* `Pattern.Derives.unique`: the grammar is unambiguous, also for the beginnings of lists of tokens.
-/

namespace PatternMachines.Pattern

/-- What the symbols of a pattern count as. -/
inductive Token where
  /-- A symbol that stands for itself. -/
  | literal (x : Symbol)
  /-- The wildcard. -/
  | wildcard
  /-- The beginning of a group. -/
  | opening
  /-- The end of a group. -/
  | closing
  /-- The sign between alternatives. -/
  | bar
  /-- A quantifier, for the atom before it. -/
  | quantifier (q : Quantifier)
  /-- A symbol that matches the empty word. -/
  | void
  deriving DecidableEq

/-- The tokens of the rest of a pattern, inside `depth` groups, and right after an atom or not. The
symbols that are literals without being escaped are given by `regular`. -/
def tokens (regular : Symbol → Bool) (depth : Nat) (afterAtom : Bool) : List Symbol → List Token
  | [] => List.replicate depth .closing
  | x :: s =>
    if x = "|" then .bar :: tokens regular depth false s
    else if x = "(" ∧ depth < 100 then .opening :: tokens regular (depth + 1) false s
    else if x = ")" ∧ 0 < depth then .closing :: tokens regular (depth - 1) true s
    else if x = "\\" then
      match s with
      | [] => .void :: tokens regular depth false []
      | y :: s =>
        if y = "_" ∨ y = "#" then .void :: tokens regular depth false (y :: s)
        else .literal y :: tokens regular depth true s
    else
      match if afterAtom then Quantifier.ofSymbol? x else none with
      | some q => .quantifier q :: tokens regular depth false s
      | none =>
        if x = "." then .wildcard :: tokens regular depth true s
        else if regular x then .literal x :: tokens regular depth true s
        else .void :: tokens regular depth false s

/-- The kinds of phrases of the grammar. -/
inductive Category where
  /-- What a quantifier may follow. -/
  | atom
  /-- An atom with at most one quantifier, or a symbol that matches the empty word. -/
  | factor
  /-- Any number of factors. -/
  | factors
  /-- The factors between two bars. -/
  | term
  /-- Terms with bars between them. -/
  | alternatives
  deriving DecidableEq

/-- The grammar: which tokens are a phrase of a category, and the patterns that they are read as,
which are several for factors and one for the other categories. -/
inductive Derives : Category → List Token → List Pattern → Prop
  | literal (x : Symbol) : Derives .atom [.literal x] [.literal x]
  | wildcard : Derives .atom [.wildcard] [.wildcard]
  | group {ts : List Token} {p : Pattern} (h : Derives .alternatives ts [p]) :
      Derives .atom (.opening :: ts ++ [.closing]) [p]
  | plain {ts : List Token} {p : Pattern} (h : Derives .atom ts [p]) : Derives .factor ts [p]
  | quantified {ts : List Token} {p : Pattern} (h : Derives .atom ts [p]) (q : Quantifier) :
      Derives .factor (ts ++ [.quantifier q]) [q.apply p]
  | void : Derives .factor [.void] [.empty]
  | nil : Derives .factors [] []
  | cons {ts us : List Token} {p : Pattern} {ps : List Pattern} (h : Derives .factor ts [p])
      (hs : Derives .factors us ps) : Derives .factors (ts ++ us) (p :: ps)
  | term {ts : List Token} {ps : List Pattern} (h : Derives .factors ts ps) :
      Derives .term ts [concatAll ps]
  | last {ts : List Token} {p : Pattern} (h : Derives .term ts [p]) :
      Derives .alternatives ts [p]
  | union {ts us : List Token} {p q : Pattern} (h : Derives .term ts [p])
      (hs : Derives .alternatives us [q]) : Derives .alternatives (ts ++ .bar :: us) [.union p q]

/-- The symbols that are literals where they stand: letters, decimal digits, the space and the
tab. -/
def standsForItself (x : Symbol) : Bool :=
  match x.toList with
  | [c] => Unicode.isLetter c || Unicode.isDecimalDigit c || c == ' ' || c == '\t'
  | _ => false

/-- Whether the symbols of a whole pattern are read as the pattern `p`. -/
def Reads (s : List Symbol) (p : Pattern) : Prop :=
  Derives .alternatives (tokens standsForItself 0 false s) [p]

/-! ### There is at most one reading -/

/-- Whether a phrase of the category ends where the tokens `k` follow it. -/
def Category.Ends : Category → List Token → Prop
  | .atom, _ => True
  | .factor, k => ∀ q, k.head? ≠ some (.quantifier q)
  | .factors, k | .term, k => k.head? = none ∨ k.head? = some .bar ∨ k.head? = some .closing
  | .alternatives, k => k.head? = none ∨ k.head? = some .closing

/-- The tokens with which a factor begins. -/
def Token.begins : Token → Bool
  | .literal _ | .wildcard | .opening | .void => true
  | .closing | .bar | .quantifier _ => false

variable {c : Category} {ts us k l : List Token} {ps qs : List Pattern} {p : Pattern}

theorem Derives.exists_begins (h : Derives c ts ps) (hc : c = .atom ∨ c = .factor) :
    ∃ t rest, ts = t :: rest ∧ t.begins = true := by
  induction h with
  | literal x => exact ⟨.literal x, [], rfl, rfl⟩
  | wildcard => exact ⟨.wildcard, [], rfl, rfl⟩
  | group _ _ => exact ⟨.opening, _, rfl, rfl⟩
  | plain _ ih => exact ih (.inl rfl)
  | quantified _ q ih =>
    obtain ⟨t, rest, rfl, ht⟩ := ih (.inl rfl)
    exact ⟨t, rest ++ [.quantifier q], rfl, ht⟩
  | void => exact ⟨.void, [], rfl, rfl⟩
  | nil | cons | term | last | union => simp at hc

theorem Category.Ends.not_begins (h : Category.factors.Ends k) {t : Token} {rest : List Token}
    (hk : k = t :: rest) : t.begins = false := by
  subst hk
  rcases h with h | h | h
  · cases h
  · obtain rfl := Option.some_inj.1 h
    rfl
  · obtain rfl := Option.some_inj.1 h
    rfl

/-- Where factors may end, a factor may end before them. -/
theorem Derives.ends_factor (h : Derives .factors ts ps) (hk : Category.factors.Ends k) :
    Category.factor.Ends (ts ++ k) := by
  intro q hq
  cases h with
  | nil =>
    rcases hk with hk | hk | hk
    · rw [List.nil_append, hk] at hq
      cases hq
    · rw [List.nil_append, hk] at hq
      cases hq
    · rw [List.nil_append, hk] at hq
      cases hq
  | cons h _ =>
    obtain ⟨t, rest, rfl, ht⟩ := h.exists_begins (.inr rfl)
    obtain rfl : t = .quantifier q := by simpa using hq
    cases ht

theorem Derives.append_ne_void (h : Derives .atom ts ps) : ts ++ k ≠ .void :: l := by
  intro heq
  cases h with
  | literal x => cases heq
  | wildcard => cases heq
  | group _ => cases heq

theorem Category.Ends.term_of_alternatives (h : Category.alternatives.Ends k) :
    Category.term.Ends k := h.imp_right .inr

theorem Category.not_ends_bar : ¬Category.alternatives.Ends (.bar :: k) := by
  rintro (h | h)
  · cases h
  · cases h

/-- Whether a phrase is determined by any list of tokens that begins with it and in which it may
end, and so is its reading. -/
def Determined (c : Category) (ts : List Token) (ps : List Pattern) : Prop :=
  ∀ {us k l : List Token} {qs : List Pattern}, Derives c us qs → ts ++ k = us ++ l → c.Ends k →
    c.Ends l → ts = us ∧ ps = qs

theorem determined_literal (x : Symbol) : Determined .atom [.literal x] [.literal x] := by
  intro us k l qs h' heq _ _
  cases h' with
  | literal y =>
    obtain ⟨hxy, -⟩ := List.cons_eq_cons.1 heq
    cases hxy
    exact ⟨rfl, rfl⟩
  | wildcard => cases heq
  | group _ => cases heq

theorem determined_wildcard : Determined .atom [.wildcard] [.wildcard] := by
  intro us k l qs h' heq _ _
  cases h' with
  | literal y => cases heq
  | wildcard => exact ⟨rfl, rfl⟩
  | group _ => cases heq

theorem determined_void : Determined .factor [.void] [.empty] := by
  intro us k l qs h' heq _ _
  cases h' with
  | plain h' => exact absurd heq.symm h'.append_ne_void
  | quantified h' q =>
    rw [List.append_assoc] at heq
    exact absurd heq.symm h'.append_ne_void
  | void => exact ⟨rfl, rfl⟩

theorem determined_nil : Determined .factors [] [] := by
  intro us k l qs h' heq hk _
  cases h' with
  | nil => exact ⟨rfl, rfl⟩
  | cons h' _ =>
    obtain ⟨t, rest, rfl, ht⟩ := h'.exists_begins (.inr rfl)
    rw [hk.not_begins heq] at ht
    cases ht

namespace Determined

/-- A group ends at its own end, as its alternatives are determined up to there. -/
theorem group (h : Determined .alternatives ts [p]) :
    Determined .atom (.opening :: ts ++ [.closing]) [p] := by
  intro us k l qs h' heq _ _
  cases h' with
  | literal y => cases heq
  | wildcard => cases heq
  | @group us p' h' =>
    rw [List.cons_append, List.cons_append, List.cons_append, List.cons_append, List.cons_eq_cons,
      List.append_assoc, List.append_assoc] at heq
    obtain ⟨rfl, hp⟩ := h h' heq.2 (.inr rfl) (.inr rfl)
    exact ⟨rfl, hp⟩

theorem plain (hatom : Derives .atom ts [p]) (h : Determined .atom ts [p]) :
    Determined .factor ts [p] := by
  intro us k l qs h' heq hk _
  cases h' with
  | plain h' => exact h h' heq trivial trivial
  | @quantified us p' h' q =>
    rw [List.append_assoc] at heq
    obtain ⟨rfl, -⟩ := h h' heq trivial trivial
    obtain rfl := List.append_cancel_left heq
    exact absurd rfl (hk q)
  | void => exact absurd heq hatom.append_ne_void

theorem quantified (hatom : Derives .atom ts [p]) (h : Determined .atom ts [p])
    (q : Quantifier) : Determined .factor (ts ++ [.quantifier q]) [q.apply p] := by
  intro us k l qs h' heq _ hl
  rw [List.append_assoc] at heq
  cases h' with
  | plain h' =>
    obtain ⟨rfl, -⟩ := h h' heq trivial trivial
    obtain rfl := List.append_cancel_left heq
    exact absurd rfl (hl q)
  | @quantified us p' h' q' =>
    rw [List.append_assoc] at heq
    obtain ⟨rfl, hp⟩ := h h' heq trivial trivial
    cases hp
    cases List.append_cancel_left heq
    exact ⟨rfl, rfl⟩
  | void => exact absurd heq hatom.append_ne_void

theorem cons (hfactor : Derives .factor ts [p]) (hfactors : Derives .factors us ps)
    (h : Determined .factor ts [p]) (hs : Determined .factors us ps) :
    Determined .factors (ts ++ us) (p :: ps) := by
  intro us' k l qs h' heq hk hl
  cases h' with
  | nil =>
    obtain ⟨t, rest, rfl, ht⟩ := hfactor.exists_begins (.inr rfl)
    rw [hl.not_begins heq.symm] at ht
    cases ht
  | cons h' hs' =>
    rw [List.append_assoc, List.append_assoc] at heq
    obtain ⟨rfl, hp⟩ := h h' heq (hfactors.ends_factor hk) (hs'.ends_factor hl)
    cases hp
    obtain ⟨rfl, rfl⟩ := hs hs' (List.append_cancel_left heq) hk hl
    exact ⟨rfl, rfl⟩

theorem term (h : Determined .factors ts ps) : Determined .term ts [concatAll ps] := by
  intro us k l qs h' heq hk hl
  cases h' with
  | term h' =>
    obtain ⟨rfl, rfl⟩ := h h' heq hk hl
    exact ⟨rfl, rfl⟩

theorem last (h : Determined .term ts [p]) : Determined .alternatives ts [p] := by
  intro us k l qs h' heq hk hl
  cases h' with
  | last h' => exact h h' heq hk.term_of_alternatives hl.term_of_alternatives
  | union h' hs' =>
    rw [List.append_assoc] at heq
    obtain ⟨rfl, -⟩ := h h' heq hk.term_of_alternatives (.inr (.inl rfl))
    rw [List.append_cancel_left heq] at hk
    exact absurd hk Category.not_ends_bar

theorem union {q : Pattern} (h : Determined .term ts [p])
    (hs : Determined .alternatives us [q]) :
    Determined .alternatives (ts ++ .bar :: us) [.union p q] := by
  intro us' k l qs h' heq hk hl
  rw [List.append_assoc] at heq
  cases h' with
  | last h' =>
    obtain ⟨rfl, -⟩ := h h' heq (.inr (.inl rfl)) hl.term_of_alternatives
    rw [← List.append_cancel_left heq] at hl
    exact absurd hl Category.not_ends_bar
  | union h' hs' =>
    rw [List.append_assoc] at heq
    obtain ⟨rfl, hp⟩ := h h' heq (.inr (.inl rfl)) (.inr (.inl rfl))
    cases hp
    have htail := (List.cons_eq_cons.1 (List.append_cancel_left heq)).2
    obtain ⟨rfl, hq⟩ := hs hs' htail hk hl
    cases hq
    exact ⟨rfl, rfl⟩

end Determined

/-- All phrases are determined, so that the grammar is unambiguous. -/
theorem Derives.unique (h : Derives c ts ps) : Determined c ts ps := by
  induction h with
  | literal x => exact determined_literal x
  | wildcard => exact determined_wildcard
  | group _ ih => exact Determined.group ih
  | plain h ih => exact Determined.plain h ih
  | quantified h q ih => exact Determined.quantified h ih q
  | void => exact determined_void
  | nil => exact determined_nil
  | cons h hs ih ihs => exact Determined.cons h hs ih ihs
  | term _ ih => exact Determined.term ih
  | last _ ih => exact Determined.last ih
  | union _ _ ih ihs => exact Determined.union ih ihs

/-- A pattern has at most one reading. -/
theorem Reads.unique {s : List Symbol} {p q : Pattern} (hp : Reads s p) (hq : Reads s q) :
    p = q := by
  obtain ⟨-, hpq⟩ := Derives.unique hp (k := []) (l := []) hq rfl (.inl rfl) (.inl rfl)
  exact List.singleton_inj.1 hpq

end PatternMachines.Pattern
