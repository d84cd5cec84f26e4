import PatternMachines.Batch.Run
import PatternMachines.Proofs.Batch.Columns

/-!
# The characters of rows

A row describes its pattern with names, numbers and signs that are all plain. So every other
character of a row is one of its pattern, and every character of the pattern stands in the row. The
same holds for the table of several patterns.

## Main definitions

* `Text.isPlain`: the characters that can be printed in one byte.
* `Text.MadeOf`: the texts that are made of plain characters and of given ones.

## Main results

* `Batch.Row.madeOf_fields`: what a row is made of.
* `Batch.exists_mem_recordsOf_iff`: the characters of a table that are not plain.
-/

namespace PatternMachines

open Std Text PatternMachines.Turing

/-! ### Texts made of plain characters and of given ones -/

namespace Text

variable {source : List Char} {s t separator : String} {ss : List String} {c : Char}

/-- The characters that can be printed in one byte. -/
def isPlain (c : Char) : Bool := 0x20 ≤ c.toNat && c.toNat < 0x7f

/-- Whether a text is made of plain characters and of given ones. -/
def MadeOf (source : List Char) (s : String) : Prop :=
  ∀ c ∈ s.toList, c ∈ source ∨ isPlain c = true

theorem madeOf_of_all (h : s.toList.all isPlain = true) : MadeOf source s :=
  fun c hc => .inr (List.all_eq_true.1 h c hc)

theorem madeOf_of_subset (h : s.toList ⊆ source) : MadeOf source s := fun _ hc => .inl (h hc)

theorem madeOf_append : MadeOf source (s ++ t) ↔ MadeOf source s ∧ MadeOf source t := by
  simp only [MadeOf, String.toList_append, List.forall_mem_append]

theorem MadeOf.join (hseparator : separator.toList.all isPlain = true)
    (hss : ∀ s ∈ ss, MadeOf source s) : MadeOf source (join separator ss) := by
  intro c hc
  by_cases hmem : c ∈ separator.toList
  · exact .inr (List.all_eq_true.1 hseparator c hmem)
  · obtain ⟨s, hs, hc⟩ := (mem_toList_join hmem).1 hc
    exact hss s hs c hc

theorem isPlain_of_isDigit (hc : c.isDigit = true) : isPlain c = true := by
  simp only [Char.isDigit, Bool.and_eq_true, decide_eq_true_eq, ge_iff_le,
    UInt32.le_iff_toNat_le] at hc
  have hzero : '0'.val.toNat = 0x30 := rfl
  have hnine : '9'.val.toNat = 0x39 := rfl
  have htoNat : c.toNat = c.val.toNat := rfl
  simp only [isPlain, Bool.and_eq_true, decide_eq_true_eq]
  omega

/-- Numbers are plain. -/
theorem madeOf_toString (id : StateId) : MadeOf source (toString id) := by
  intro c hc
  rcases isDigit_of_mem_toString hc with hdigit | rfl
  · exact .inr (isPlain_of_isDigit hdigit)
  · exact .inr rfl

end Text

variable {source : List Char} {d : Dfa}

theorem Dfa.madeOf_aliasName (k : Nat) : MadeOf source (Dfa.aliasName k) :=
  madeOf_append.2 ⟨madeOf_of_all (by decide), madeOf_toString k⟩

theorem Dfa.madeOf_display {k l : Nat} {x : Symbol} (hx : MadeOf source x) :
    MadeOf source (Dfa.aliasedEdge (k, x, l)).display := by
  simp +decide only [Dfa.aliasedEdge, Dfa.AliasedEdge.display, madeOf_append, madeOf_of_all,
    Dfa.madeOf_aliasName, hx]

/-- The transitions of the machine of an automaton are made of its symbols. -/
theorem Turing.madeOf_display {t : Transition}
    (hd : ∀ (id : StateId) (s : DfaState) (x : Symbol) (target : StateId),
      d.states[id]? = some s → s.edges[x]? = some target → MadeOf source x)
    (ht : t ∈ (Machine.ofDfa d).transitions) : MadeOf source t.display := by
  have hname (id : StateId) : MadeOf source (stateName id) :=
    madeOf_append.2 ⟨madeOf_of_all (by decide), madeOf_toString id⟩
  obtain ⟨id, s, hs, ⟨x, target, hx, rfl⟩ | rfl⟩ := Machine.mem_transitions_ofDfa_iff.1 ht
  · have hsymbol := hd id s x target hs hx
    simp +decide only [Transition.display, madeOf_append, madeOf_of_all, hname, hsymbol]
  · cases s.accepting <;>
      simp +decide only [Transition.display, madeOf_append, madeOf_of_all, hname]

/-! ### Rows and tables -/

namespace Pattern

variable {p : String} {x : Symbol}

/-- The symbols that the automaton of a text reads are made of its characters. -/
theorem madeOf_of_mem_alphabet (hd : Dfa.ofNfa (ofSymbols (Symbol.ofText p)).toNfa = .ok d)
    (hx : x ∈ d.alphabet) : MadeOf p.toList x := by
  rcases mem_of_mem_symbols (mem_symbols_of_mem_alphabet hd hx) with hmem | hwildcard
  · obtain ⟨c, hc, rfl⟩ := List.mem_map.1 hmem
    exact madeOf_of_subset (by simpa using hc)
  · have hplain : ∀ x ∈ Symbol.wildcard, x.toList.all isPlain = true := by decide
    exact madeOf_of_all (hplain x hwildcard)

end Pattern

namespace Batch

open Row

variable {p : String} {ps : List String} {c : Char}

/-- A row is made of plain characters and of those of its pattern. -/
theorem Row.madeOf_fields (line : Int) (p : String) :
    ∀ f ∈ (ofText line p).fields, MadeOf p.toList f := by
  obtain ⟨d, s, hd, -, hdescribes, hshows⟩ := exists_shows line p
  obtain ⟨ks, -, -, hks⟩ := hdescribes.accepting
  obtain ⟨es, -, hes, hees⟩ := hdescribes.edges
  have hsymbol (i : StateId) (st : DfaState) (x : Symbol) (j : StateId)
      (hst : d.states[i]? = some st) (hx : st.edges[x]? = some j) : MadeOf p.toList x :=
    Pattern.madeOf_of_mem_alphabet hd ((Dfa.mem_alphabet_iff_of_ofNfa hd).2 ⟨i, st, j, hst, hx⟩)
  have hrow : ofText line p = ofJson line (.text p) := rfl
  rw [hrow, fields, hshows.pattern_eq, hshows.alphabet_eq, hshows.states_eq, hshows.accepting_eq,
    hshows.edges_eq, hshows.transitions_eq, hshows.error_eq]
  simp only [List.forall_mem_cons]
  refine ⟨?pattern, ?alphabet, ?states, ?accepting, ?edges, ?transitions, ?agreement, ?error,
    List.forall_mem_nil _⟩
  case pattern => exact madeOf_of_subset (List.Subset.refl _)
  case alphabet =>
    rw [hdescribes.alphabet_eq]
    exact .join (by decide) fun x hx =>
      Pattern.madeOf_of_mem_alphabet hd (ExtTreeSet.mem_toList.1 hx)
  case states =>
    rw [hdescribes.states_eq]
    exact .join (by decide) (List.forall_mem_map.2 fun k _ => Dfa.madeOf_aliasName k)
  case accepting =>
    rw [hks]
    exact .join (by decide) (List.forall_mem_map.2 fun k _ => Dfa.madeOf_aliasName k)
  case edges =>
    rw [hees, List.map_map]
    refine .join (by decide) (List.forall_mem_map.2 fun ⟨k, x, l⟩ he => ?_)
    obtain ⟨i, st, j, hst, hx, -⟩ := (hes k x l).1 he
    exact Dfa.madeOf_display (hsymbol i st x j hst hx)
  case transitions =>
    exact .join (by decide) (List.forall_mem_map.2 fun t ht => madeOf_display hsymbol ht)
  case agreement =>
    have hplain : ∀ answer ∈ ["si", "no"], answer.toList.all isPlain = true := by decide
    exact madeOf_of_all (hplain _ hshows.agreement_mem)
  case error => exact madeOf_of_all (by decide)

/-- The characters of a row that are not plain are those of its pattern. -/
theorem Row.exists_mem_fields_iff (line : Int) (hplain : isPlain c = false) :
    (∃ f ∈ (ofText line p).fields, c ∈ f.toList) ↔ c ∈ p.toList := by
  constructor
  · rintro ⟨f, hf, hc⟩
    refine (madeOf_fields line p f hf c hc).resolve_right fun h => ?_
    rw [hplain] at h
    cases h
  · obtain ⟨d, s, -, -, -, hshows⟩ := exists_shows line p
    have hpattern : (ofText line p).pattern.display.shown = p :=
      congrArg (fun pattern => pattern.display.shown) hshows.pattern_eq
    exact fun hc => ⟨_, List.mem_cons_self, hpattern.symm ▸ hc⟩

/-- The table of patterns holds a character that is neither plain nor in the names of the columns
just if one of the patterns does. -/
theorem exists_mem_recordsOf_iff (hplain : isPlain c = false)
    (hnames : ∀ name ∈ columnNames, c ∉ name.toList) :
    (∃ record ∈ recordsOf (rowsOf ps), ∃ f ∈ record, c ∈ f.toList) ↔ ∃ p ∈ ps, c ∈ p.toList := by
  have hnone : ¬∃ name ∈ columnNames, c ∈ name.toList := fun ⟨name, hname, hc⟩ =>
    hnames name hname hc
  have hrows : (∃ fields ∈ (rowsOf ps).map Row.fields, ∃ f ∈ fields, c ∈ f.toList) ↔
      ∃ p ∈ ps.zipIdx.map Prod.fst, c ∈ p.toList := by
    simp only [rowsOf, List.map_map, List.mem_map, exists_exists_and_eq_and, Function.comp_apply,
      Row.exists_mem_fields_iff _ hplain]
  rw [recordsOf, List.exists_mem_cons_iff, or_iff_right hnone, hrows, List.zipIdx_map_fst]

end Batch

end PatternMachines
