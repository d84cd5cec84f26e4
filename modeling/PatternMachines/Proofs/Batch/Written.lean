import PatternMachines.Proofs.Dfa.Summary
import PatternMachines.Proofs.Symbol
import PatternMachines.Proofs.Text.Separated
import PatternMachines.Proofs.Turing.OfDfa

/-!
# Written states, edges and transitions

The written forms of aliases, of edges and of transitions are made from parts with fixed texts
between them. These texts may be symbols too, and so may a blank, a bar or a line end. Still the
forms can be told apart when they are joined. The symbols of texts are single characters. The
numbers in names end where no digit follows, and no name holds a comma.

## Main definitions

* `Turing.Transition.Legible`: transitions whose written form shows their parts.
* `Dfa.ReadsTexts`: automata over the symbols of texts.

## Main results

* `Symbol.delimited_ofCode`, `Dfa.delimited_aliasName`: symbols and aliases show where they end.
* `Dfa.eq_of_join_aliasName_eq`, `Dfa.eq_of_join_aliasedEdge_eq`,
  `Turing.eq_of_join_display_eq`: joined aliases, edges and transitions can be told apart.
* `Turing.Machine.legible_ofDfa`: the transitions of the machine of an automaton.
-/

namespace PatternMachines

open Std Text PatternMachines.Turing

/-! ### Forms that show where they end -/

/-- A symbol of a text shows where it ends. -/
theorem Symbol.delimited_ofCode : Delimited id (Set.range Symbol.ofCode) fun _ => True := by
  rintro _ ⟨m, rfl⟩ _ ⟨n, rfl⟩ r s - - heq
  rw [id_eq, id_eq, Symbol.ofCode, Symbol.ofCode, String.toList_singleton, String.toList_singleton,
    List.singleton_append, List.singleton_append, List.cons.injEq] at heq
  exact ⟨congrArg String.singleton heq.1, heq.2⟩

/-- An alias shows where it ends, unless another digit follows. -/
theorem Dfa.delimited_aliasName :
    Delimited Dfa.aliasName .univ fun rest => ∀ c ∈ rest.head?, c.isDigit = false := by
  rintro k - l - r s hr hs heq
  have hchars (k : Nat) : (Dfa.aliasName k).toList = 'S' :: (toString k).toList := by
    rw [Dfa.aliasName, String.toList_append]
    rfl
  have hdigits (k : Nat) (c : Char) (hc : c ∈ (toString k).toList) : c.isDigit = true :=
    Nat.isDigit_of_mem_toDigits (by decide) (by decide) (Nat.toList_repr ▸ hc)
  rw [hchars, hchars, List.cons_append, List.cons_append, List.cons.injEq] at heq
  obtain ⟨hnumber, rfl⟩ := eq_of_append_eq (hdigits k) (hdigits l) hr hs heq.2
  exact ⟨Nat.repr_injective (String.toList_inj.1 hnumber), rfl⟩

theorem Dfa.delimited_aliasedEdge :
    Delimited (fun e : Nat × Symbol × Nat => (Dfa.aliasedEdge e).display)
      {e | e.2.1 ∈ Set.range Symbol.ofCode} fun rest => ∀ c ∈ rest.head?, c.isDigit = false := by
  rintro ⟨k, x, l⟩ hx ⟨k', x', l'⟩ hx' r s hr hs heq
  have hchars (k l : Nat) (x : Symbol) (r : List Char) :
      (Dfa.aliasedEdge (k, x, l)).display.toList ++ r =
        (Dfa.aliasName k).toList ++ (" --".toList ++ ((id x).toList ++ ("--> ".toList ++
          ((Dfa.aliasName l).toList ++ r)))) := by
    simp [Dfa.aliasedEdge, Dfa.AliasedEdge.display]
  dsimp only at heq
  rw [hchars, hchars] at heq
  obtain ⟨rfl, hsymbol⟩ := Dfa.delimited_aliasName k trivial k' trivial _ _ (by simp) (by simp) heq
  obtain ⟨rfl, htarget⟩ := Symbol.delimited_ofCode x hx x' hx' _ _ trivial trivial
    (List.append_cancel_left hsymbol)
  obtain ⟨rfl, rfl⟩ := Dfa.delimited_aliasName l trivial l' trivial _ _ hr hs
    (List.append_cancel_left htarget)
  exact ⟨rfl, rfl⟩

/-- Whether the written form of a transition shows its parts. -/
structure Turing.Transition.Legible (t : Transition) : Prop where
  /-- The source can stand before a comma. -/
  comma_not_mem_source : ',' ∉ t.source.toList
  /-- What is read is a symbol of texts. -/
  read_mem : t.read ∈ Set.range Symbol.ofCode
  /-- The target can stand before a comma. -/
  comma_not_mem_target : ',' ∉ t.target.toList
  /-- What is written is a symbol of texts. -/
  write_mem : t.write ∈ Set.range Symbol.ofCode
  /-- The head moves to the right. -/
  move_eq : t.move = moveRight

/-- A text without a comma shows where it ends, in front of a comma. -/
theorem delimited_of_comma_not_mem :
    Delimited id {name : String | ',' ∉ name.toList} fun rest => rest.head? = some ',' := by
  intro u hu v hv r s hr hs heq
  have hkind {w : String} (hw : ',' ∉ w.toList) (c : Char) (hc : c ∈ w.toList) :
      (c != ',') = true := bne_iff_ne.2 fun h => hw (h ▸ hc)
  have hrest {r : List Char} (hr : r.head? = some ',') (c : Char) (hc : c ∈ r.head?) :
      (c != ',') = false := by
    rw [hr, Option.mem_some_iff] at hc
    simp [← hc]
  obtain ⟨huv, rfl⟩ := eq_of_append_eq (hkind hu) (hkind hv) (hrest hr) (hrest hs) heq
  exact ⟨String.toList_inj.1 huv, rfl⟩

theorem Turing.delimited_transition :
    Delimited Transition.display {t | t.Legible} fun _ => True := by
  rintro ⟨source, read, target, write, move⟩ ht ⟨source', read', target', write', move'⟩ ht' r s
    - - heq
  have hchars (source read target write : String) (r : List Char) :
      (Transition.mk source read target write moveRight).display.toList ++ r = '(' ::
        ((id source).toList ++ (", ".toList ++ ((id read).toList ++ (") -> (".toList ++
          ((id target).toList ++ (", ".toList ++ ((id write).toList ++
            (", R)".toList ++ r)))))))) := by
    simp [Transition.display, moveRight]
  obtain rfl : move = moveRight := ht.move_eq
  obtain rfl : move' = moveRight := ht'.move_eq
  rw [hchars, hchars, List.cons.injEq] at heq
  obtain ⟨rfl, hread⟩ := delimited_of_comma_not_mem source ht.comma_not_mem_source source'
    ht'.comma_not_mem_source _ _ rfl rfl heq.2
  obtain ⟨rfl, htarget⟩ := Symbol.delimited_ofCode read ht.read_mem read' ht'.read_mem _ _
    (by simp) (by simp) (List.append_cancel_left hread)
  obtain ⟨rfl, hwrite⟩ := delimited_of_comma_not_mem target ht.comma_not_mem_target target'
    ht'.comma_not_mem_target _ _ rfl rfl (List.append_cancel_left htarget)
  obtain ⟨rfl, hrest⟩ := Symbol.delimited_ofCode write ht.write_mem write' ht'.write_mem _ _
    (by simp) (by simp) (List.append_cancel_left hwrite)
  exact ⟨rfl, List.append_cancel_left hrest⟩

/-! ### Joined aliases, edges and transitions -/

/-- No digit stands behind a text that is joined with others, where the separator begins with a
blank. -/
theorem isDigit_of_follows {separator : String} (hblank : separator.toList.head? = some ' ')
    {rest : List Char} (h : Follows separator rest) : ∀ c ∈ rest.head?, c.isDigit = false := by
  rcases h with rfl | ⟨u, rfl⟩
  · rintro c ⟨⟩
  · intro c hc
    rw [List.head?_append, hblank, Option.some_or, Option.mem_some_iff] at hc
    rw [← hc]
    rfl

theorem Dfa.eq_of_join_aliasName_eq {ks ls : List Nat}
    (h : join " " (ks.map Dfa.aliasName) = join " " (ls.map Dfa.aliasName)) : ks = ls := by
  refine (Dfa.delimited_aliasName.mono fun _ => isDigit_of_follows rfl).eq_of_join_eq (by decide)
    (fun k _ => ?_) (fun _ _ => trivial) (fun _ _ => trivial) h
  simp [Dfa.aliasName]

theorem Dfa.eq_of_join_aliasedEdge_eq {es fs : List (Nat × Symbol × Nat)}
    (hes : ∀ e ∈ es, e.2.1 ∈ Set.range Symbol.ofCode)
    (hfs : ∀ e ∈ fs, e.2.1 ∈ Set.range Symbol.ofCode)
    (h : join " | " (es.map fun e => (Dfa.aliasedEdge e).display) =
      join " | " (fs.map fun e => (Dfa.aliasedEdge e).display)) : es = fs := by
  refine (Dfa.delimited_aliasedEdge.mono fun _ => isDigit_of_follows rfl).eq_of_join_eq (by decide)
    (fun e _ => ?_) hes hfs h
  simp [Dfa.AliasedEdge.display]

theorem Turing.eq_of_join_display_eq {ts us : List Transition} (hts : ∀ t ∈ ts, t.Legible)
    (hus : ∀ t ∈ us, t.Legible)
    (h : join " | " (ts.map Transition.display) = join " | " (us.map Transition.display)) :
    ts = us := by
  refine (delimited_transition.mono fun _ _ => trivial).eq_of_join_eq (by decide) (fun t _ => ?_)
    hts hus h
  simp [Transition.display]

/-! ### Automata over the symbols of texts -/

/-- Whether the edges of an automaton read symbols of texts. -/
def Dfa.ReadsTexts (d : Dfa) : Prop :=
  ∀ (id : StateId) (s : DfaState) (x : Symbol) (target : StateId),
    d.states[id]? = some s → s.edges[x]? = some target → x ∈ Set.range Symbol.ofCode

namespace Turing.Machine

variable {d : Dfa}

/-- The transitions of the machine of an automaton over the symbols of texts are legible. -/
theorem legible_ofDfa (hd : d.ReadsTexts) : ∀ t ∈ (ofDfa d).transitions, t.Legible := by
  have hname (id : StateId) : ',' ∉ (stateName id).toList := by
    rw [stateName, String.toList_append, List.mem_append, not_or]
    refine ⟨by decide, fun hmem => ?_⟩
    rcases isDigit_of_mem_toString hmem with h | h <;> cases h
  intro t ht
  obtain ⟨id, s, hs, ⟨x, target, hx, rfl⟩ | rfl⟩ := mem_transitions_ofDfa_iff.1 ht
  · have hmem := hd id s x target hs hx
    exact ⟨hname id, hmem, hname target, hmem, rfl⟩
  · have hmem : Symbol.endMarker ∈ Set.range Symbol.ofCode := ⟨'#'.toNat, Symbol.ofCode_toNat '#'⟩
    refine ⟨hname id, hmem, ?_, hmem, rfl⟩
    dsimp only
    split <;> decide

end Turing.Machine

end PatternMachines
