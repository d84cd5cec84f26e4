import PatternMachines.Proofs.Pattern.Calls
import PatternMachines.Proofs.Pattern.Reader

/-!
# Reading is total, bounded and balanced

From every position of a pattern, inside every allowed number of groups, the calls for alternatives
come to an end and no step of them fails. They end with what the reader of the grammar finds, where
it stops, and inside as many groups as before. The groups that can still be opened bound the calls
that are active at once.

## Main definitions

* `Pattern.Calls.Ahead`: the symbols that are still to be read.

## Main results

* `Pattern.Calls.leads_readAlternatives`, `Pattern.Calls.leads_readFactors`,
  `Pattern.Calls.leads_readFactor`: calls lead to what the readers find.
* `Pattern.Cursor.readWithin_eq_read`: the room that is needed.
* `Pattern.Cursor.read_alternatives_eq`: a cursor reads alternatives.
* `Pattern.Calls.balanced`: the calls for alternatives.
-/

namespace PatternMachines.Pattern

open Std

namespace Calls

variable {symbols s : List Symbol} {x : Symbol} {position : Nat} {N d : Int} {a : Arena}
  {c : Calls} {f : Fragment} {waiting : List Waiting} {before parts : List Fragment}

/-- Whether the symbols from a position on are the symbols `s`. -/
structure Ahead (symbols : List Symbol) (position : Nat) (s : List Symbol) : Prop where
  /-- The symbols. -/
  drop_eq : symbols.drop position = s
  /-- The position is not past the end. -/
  le : position ≤ symbols.length

namespace Ahead

theorem getElem?_eq (h : Ahead symbols position s) : symbols[position]? = s.head? := by
  rw [← h.drop_eq, List.head?_drop]

theorem tail (h : Ahead symbols position (x :: s)) : Ahead symbols (position + 1) s := by
  constructor
  · rw [← List.drop_drop, h.drop_eq, List.drop_one, List.tail_cons]
  · exact (List.getElem?_eq_some_iff.1 h.getElem?_eq).1

theorem length_eq (h : Ahead symbols position s) : position + s.length = symbols.length := by
  have hle := h.le
  rw [← h.drop_eq, List.length_drop]
  omega

end Ahead

/-! ### Putting fragments together -/

theorem compose_eq {c : Composition Fragment} (h : ∀ f ∈ c.parts, f.accept ∈ a.states) :
    compose a c = .ok (c.make a) := by
  have hnone : (c.parts.find? fun f => !a.states.contains f.accept) = none := by
    rw [List.find?_eq_none]
    intro f hf
    simpa using h f hf
  rw [compose, hnone]

/-- The last alternative is united with the one before it first. -/
theorem uniteAll_cons {g : Fragment} (hf : f.accept ∈ a.states) (hg : g.accept ∈ a.states) :
    uniteAll (g :: before) (f, a) = uniteAll before (a.union g f) := by
  have hunion : compose a (.union g f) = .ok (a.union g f) :=
    compose_eq (List.forall_mem_cons.2 ⟨hg, List.forall_mem_singleton.2 hf⟩)
  rw [uniteAll, hunion]
  rfl

/-- Alternatives whose last states are in the arena can be put together. -/
theorem exists_uniteAll (ha : a.Dense) (hf : f.accept ∈ a.states)
    (hbefore : ∀ g ∈ before, g.accept ∈ a.states) :
    ∃ made, uniteAll before (f, a) = .ok made := by
  induction before generalizing a f with
  | nil => exact ⟨_, rfl⟩
  | cons g before ih =>
    rw [List.forall_mem_cons] at hbefore
    have hgrows := Arena.grows_union (f := g) (g := f) ha
    rw [uniteAll_cons hf hbefore.1]
    exact ih hgrows.extends_of.dense hgrows.accept_mem fun k hk =>
      hgrows.extends_of.mem_states _ (hbefore.2 k hk)

/-- A factor ends with the quantifier that its reader finds. -/
theorem exists_endFactor (ha : a.Dense) (hs : Ahead symbols position s) (p : Pattern)
    (hc : c.position = position) : ∃ position', Ahead symbols position' (readQuantifier p s).rest ∧
      c.endFactor symbols (p.build a) = .ok { c with
        position := position', arena := ((readQuantifier p s).value.build a).2,
        task := .ended ((readQuantifier p s).value.build a).1 } := by
  subst hc
  rw [endFactor, hs.getElem?_eq]
  cases s with
  | nil => exact ⟨c.position, hs, rfl⟩
  | cons x s =>
    rw [List.head?_cons, Option.bind_some, readQuantifier]
    cases hq : Quantifier.ofSymbol? x with
    | none => exact ⟨c.position, hs, rfl⟩
    | some q =>
      have hparts : ∀ f ∈ (q.composition (p.build a).1).parts, f.accept ∈ (p.build a).2.states := by
        rw [Quantifier.parts_composition, List.forall_mem_singleton]
        exact (grows_build p ha).accept_mem
      have hmade := compose_eq hparts
      rw [Quantifier.make_composition] at hmade
      refine ⟨c.position + 1, hs.tail, ?_⟩
      simp only [hmade]
      rfl

theorem ahead_readClosing (hs : Ahead symbols position s) :
    Ahead symbols (if symbols[position]? = some ")" then position + 1 else position)
      (readClosing s).rest := by
  rw [hs.getElem?_eq]
  cases s with
  | nil => exact hs
  | cons x s =>
    simp only [List.head?_cons, Option.some.injEq, readClosing]
    split
    · exact hs.tail
    · exact hs

/-- A factor that opens no group ends at once with what its reader finds. -/
theorem exists_beginFactor (waiting : List Waiting) (ha : a.Dense)
    (hs : Ahead symbols position (x :: s)) (hx : ¬(x = "(" ∧ d < maxGroupDepth)) : ∃ position',
      Ahead symbols position' (readFactor d x s).rest ∧
      beginFactor symbols ⟨position, d, a, .call .factor, waiting⟩ x =
        .ok ⟨position', d, ((readFactor d x s).value.build a).2,
          .ended ((readFactor d x s).value.build a).1, waiting⟩ := by
  rw [beginFactor, if_neg hx, readFactor.eq_def, if_neg hx]
  by_cases hescape : x = "\\"
  · subst hescape
    rw [if_pos rfl, if_pos rfl, escaped?, hs.tail.getElem?_eq]
    cases s with
    | nil => exact ⟨position + 1, hs.tail, rfl⟩
    | cons y s =>
      by_cases hy : y.isReserved = true
      · simp only [List.head?_cons, Option.filter_some, hy, Bool.not_true, if_true]
        exact ⟨position + 1, hs.tail, rfl⟩
      · simp only [List.head?_cons, Option.filter_some, hy, Bool.not_false, if_true]
        exact exists_endFactor ha hs.tail.tail (.literal y) rfl
  · rw [if_neg hescape, if_neg hescape]
    by_cases hwildcard : x = "."
    · rw [if_pos hwildcard]
      simp only [if_pos hwildcard]
      exact exists_endFactor ha hs.tail .wildcard rfl
    · rw [if_neg hwildcard]
      simp only [if_neg hwildcard]
      by_cases hregular : Symbol.isRegular x = true
      · rw [if_pos hregular, if_pos hregular]
        exact exists_endFactor ha hs.tail (.literal x) rfl
      · rw [if_neg hregular, if_neg hregular]
        exact ⟨position + 1, hs.tail, rfl⟩

/-! ### The readers -/

/-- Alternatives end where there is no bar. -/
theorem exists_leads_last (ha : a.Dense) (hf : f.accept ∈ a.states)
    (hbefore : ∀ g ∈ before, g.accept ∈ a.states) (hbar : symbols[position]? ≠ some "|")
    (hroom : Room N d .alternatives waiting) : ∃ made, uniteAll before (f, a) = .ok made ∧
      Leads symbols (Within N) ⟨position, d, a, .ended f, .alternatives before :: waiting⟩
        ⟨position, d, made.2, .ended made.1, waiting⟩ := by
  obtain ⟨made, hmade⟩ := exists_uniteAll ha hf hbefore
  refine ⟨made, hmade, .step (hroom.term _).ended ?_ (.here hroom.ended)⟩
  simp only [Calls.step, if_neg hbar, hmade]
  rfl

/-- A term ends where there are no more factors. -/
theorem leads_collected (hparts : ∀ f ∈ parts, f.accept ∈ a.states)
    (hends : endsTerm symbols ⟨position, d, a, .collect parts, waiting⟩ = true)
    (hroom : Room N d .term waiting) :
    Leads symbols (Within N) ⟨position, d, a, .collect parts, waiting⟩
      ⟨position, d, (a.concatAll parts).2, .ended (a.concatAll parts).1, waiting⟩ := by
  have hmade : compose a (.concatAll parts) = .ok (a.concatAll parts) := compose_eq hparts
  refine .step hroom.collect ?_ (.here hroom.ended)
  simp only [Calls.step, if_pos hends, hmade]
  rfl

-- The induction follows the readers. It is over all calls that wait, as a call leads to the same
-- end whatever has called it.
mutual

/-- Alternatives that have some terms lead to what the reader finds for the others. -/
theorem leads_readAlternatives (d : Int) (s : List Symbol) {position : Nat} {a : Arena}
    {before : List Fragment} {waiting : List Waiting} (hs : Ahead symbols position s)
    (ha : a.Dense) (hbefore : ∀ f ∈ before, f.accept ∈ a.states)
    (hroom : Room N d .alternatives waiting) :
    ∃ position' made, Ahead symbols position' (readAlternatives d s).rest ∧
      uniteAll before ((readAlternatives d s).value.build a) = .ok made ∧
      Leads symbols (Within N) ⟨position, d, a, .call .term, .alternatives before :: waiting⟩
        ⟨position', d, made.2, .ended made.1, waiting⟩ := by
  obtain ⟨position', hs', hterm⟩ := leads_readFactors d s hs ha (List.forall_mem_nil _)
    (hroom.term before)
  rw [buildAfter, List.nil_append, ← build_concatAll _ ha] at hterm
  have hcall := Leads.step (hroom.term before).call rfl hterm
  have hgrows := grows_build (concatAll (readFactors d s).value) ha
  have hbefore' (f : Fragment) (hf : f ∈ before) :
      f.accept ∈ ((concatAll (readFactors d s).value).build a).2.states :=
    hgrows.extends_of.mem_states _ (hbefore f hf)
  rw [readAlternatives]
  split
  · next hrest =>
    rw [hrest] at hs'
    have hbar : symbols[position']? ≠ some "|" := by simp [hs'.getElem?_eq]
    obtain ⟨made, hmade, hlast⟩ :=
      exists_leads_last hgrows.extends_of.dense hgrows.accept_mem hbefore' hbar hroom
    exact ⟨position', made, hs', hmade, hcall.trans hlast⟩
  · next x rest hrest =>
    have hlength : rest.length + 1 ≤ s.length := by
      rw [← List.length_cons (a := x), ← hrest]
      exact (readFactors d s).rest_length
    rw [hrest] at hs'
    split
    · next hx =>
      subst hx
      obtain ⟨position'', made, hs'', hmade, hothers⟩ := leads_readAlternatives d rest hs'.tail
        hgrows.extends_of.dense (List.forall_mem_cons.2 ⟨hgrows.accept_mem, hbefore'⟩) hroom
      have hgrows' := grows_build (readAlternatives d rest).value hgrows.extends_of.dense
      rw [uniteAll_cons hgrows'.accept_mem
        (hgrows'.extends_of.mem_states _ hgrows.accept_mem)] at hmade
      refine ⟨position'', made, hs'', hmade, hcall.trans (.step (hroom.term _).ended ?_ hothers)⟩
      simp only [Calls.step, hs'.getElem?_eq, List.head?_cons, if_true]
    · next hx =>
      have hbar : symbols[position']? ≠ some "|" := by simpa [hs'.getElem?_eq] using hx
      obtain ⟨made, hmade, hlast⟩ :=
        exists_leads_last hgrows.extends_of.dense hgrows.accept_mem hbefore' hbar hroom
      exact ⟨position', made, hs', hmade, hcall.trans hlast⟩
termination_by 3 * s.length + 2
decreasing_by
  · omega
  · omega

/-- A term that has some factors leads to what the reader finds for the others. -/
theorem leads_readFactors (d : Int) (s : List Symbol) {position : Nat} {a : Arena}
    {parts : List Fragment} {waiting : List Waiting} (hs : Ahead symbols position s)
    (ha : a.Dense) (hparts : ∀ f ∈ parts, f.accept ∈ a.states) (hroom : Room N d .term waiting) :
    ∃ position', Ahead symbols position' (readFactors d s).rest ∧
      Leads symbols (Within N) ⟨position, d, a, .collect parts, waiting⟩
        ⟨position', d, (buildAfter parts (readFactors d s).value a).2,
          .ended (buildAfter parts (readFactors d s).value a).1, waiting⟩ := by
  match s with
  | [] =>
    rw [readFactors, buildAfter_nil]
    refine ⟨position, hs, leads_collected hparts ?_ hroom⟩
    rw [endsTerm, hs.getElem?_eq]
    rfl
  | x :: s =>
    rw [readFactors]
    split
    · next hx =>
      rw [buildAfter_nil]
      refine ⟨position, hs, leads_collected hparts ?_ hroom⟩
      rw [endsTerm, hs.getElem?_eq]
      simpa using hx
    · next hx =>
      have hends : endsTerm symbols ⟨position, d, a, .collect parts, waiting⟩ = false := by
        rw [endsTerm, hs.getElem?_eq]
        simpa using hx
      obtain ⟨position', hs', hfactor⟩ :=
        leads_readFactor d x s hs ha (hroom.factor parts)
      have hgrows := grows_build (readFactor d x s).value ha
      have hparts' : ∀ f ∈ parts ++ [((readFactor d x s).value.build a).1],
          f.accept ∈ ((readFactor d x s).value.build a).2.states := by
        rw [List.forall_mem_append, List.forall_mem_singleton]
        exact ⟨fun f hf => hgrows.extends_of.mem_states _ (hparts f hf), hgrows.accept_mem⟩
      obtain ⟨position'', hs'', hothers⟩ := leads_readFactors d (readFactor d x s).rest hs'
        hgrows.extends_of.dense hparts' hroom
      rw [buildAfter_cons]
      refine ⟨position'', hs'', .step hroom.collect ?_ (hfactor.trans (.step ?_ rfl hothers))⟩
      · simp only [Calls.step, hends]
        rfl
      · exact (hroom.factor _).ended
termination_by 3 * s.length + 1
decreasing_by
  · rw [List.length_cons]
    omega
  · have hlength := (readFactor d x s).rest_length
    rw [List.length_cons]
    omega

/-- A factor leads to what its reader finds. -/
theorem leads_readFactor (d : Int) (x : Symbol) (s : List Symbol) {position : Nat} {a : Arena}
    {waiting : List Waiting} (hs : Ahead symbols position (x :: s)) (ha : a.Dense)
    (hroom : Room N d .factor waiting) :
    ∃ position', Ahead symbols position' (readFactor d x s).rest ∧
      Leads symbols (Within N) ⟨position, d, a, .call .factor, waiting⟩
        ⟨position', d, ((readFactor d x s).value.build a).2,
          .ended ((readFactor d x s).value.build a).1, waiting⟩ := by
  by_cases h : x = "(" ∧ d < maxGroupDepth
  · obtain ⟨rfl, hd⟩ := h
    obtain ⟨position', made, hs', hmade, hgroup⟩ := leads_readAlternatives (d + 1) s hs.tail ha
      (List.forall_mem_nil _) (hroom.group hd)
    obtain rfl := Except.ok.inj hmade
    obtain ⟨position'', hs'', hfactor⟩ := exists_endFactor ha (ahead_readClosing hs')
      (readAlternatives (d + 1) s).value (c := ⟨_, d, a, .call .factor, waiting⟩) rfl
    rw [readFactor.eq_def, if_pos ⟨rfl, hd⟩]
    refine ⟨position'', hs'', .step hroom.call ?_ (.step (hroom.group hd).call rfl
      (hgroup.trans (.step (hroom.group hd).ended ?_ (.here hroom.ended))))⟩
    · simp only [Calls.step, hs.getElem?_eq, List.head?_cons]
      rw [beginFactor, if_pos ⟨rfl, hd⟩]
    · simp only [Calls.step, Int.add_sub_cancel]
      exact hfactor
  · obtain ⟨position', hs', hfactor⟩ := exists_beginFactor waiting ha hs h
    refine ⟨position', hs', .step hroom.call ?_ (.here hroom.ended)⟩
    simp only [Calls.step, hs.getElem?_eq, List.head?_cons]
    exact hfactor
termination_by 3 * s.length + 3
decreasing_by omega

end

end Calls

/-! ### Cursors -/

namespace Cursor

variable {symbols s : List Symbol} {d : Int} {a : Arena} {position : Nat}

/-- No more groups are opened than the depth allows. -/
theorem opensTooMany_eq_false {room : Nat} {u : Extent} {opened : Nat}
    (h : maxGroupDepth + opened ≤ room + d) : opensTooMany room u d opened s = false := by
  fun_induction opensTooMany room u d opened s
  case case2 depth opened y s hy ih =>
    have hroom : ¬room ≤ opened := by omega
    rw [decide_eq_false hroom, Bool.false_or]
    exact ih (by omega)
  case case6 depth y s _ _ _ opened _ ih => exact ih (by omega)
  case case8 ih | case9 ih | case10 ih => exact ih h
  -- Elsewhere nothing more can be opened.
  all_goals rfl

/-- Where there is room for the groups that the depth allows, everything is read. -/
theorem readWithin_eq_read {room : Nat} {c : Cursor} (h : maxGroupDepth ≤ room + c.depth)
    (u : Extent) : c.readWithin room u = c.read u := by
  rw [readWithin, read]
  cases c.remaining with
  | error e => rfl
  | ok s =>
    have hopened : opensTooMany room u c.depth 0 s = false := opensTooMany_eq_false (by omega)
    simp only [bind, Except.bind, hopened, if_neg Bool.false_ne_true]

/-- Alternatives are read to where their reader stops. -/
theorem read_alternatives_eq {position' : Nat} (hs : Calls.Ahead symbols position s)
    (hs' : Calls.Ahead symbols position' (readAlternatives d s).rest) :
    Cursor.read ⟨symbols, position, d, a⟩ .alternatives =
      .ok (((readAlternatives d s).value.build a).1,
        ⟨symbols, position', d, ((readAlternatives d s).value.build a).2⟩) := by
  have hremaining : remaining ⟨symbols, position, d, a⟩ = .ok s := by
    rw [remaining, if_pos (Int.natCast_nonneg position), Int.toNat_natCast, hs.drop_eq]
  have hposition : (position : Int) + (s.length - (readAlternatives d s).rest.length) =
      position' := by
    have hlength := hs.length_eq
    have hlength' := hs'.length_eq
    omega
  rw [read, hremaining]
  simp only [bind, Except.bind, readUnit, hposition]
  rfl

end Cursor

namespace Calls

variable {symbols s : List Symbol} {position : Nat} {d : Int} {a : Arena}

/-- There is room for a first call for alternatives. -/
theorem room_first (hd : d ≤ maxGroupDepth) : Room (maxGroupDepth - d + 1) d .alternatives [] := by
  refine ⟨hd, ?_, ?_⟩
  · rw [List.map_nil, nested, List.count_singleton_self]
    omega
  · rw [List.length_nil, height]
    omega

/-- A first call for alternatives leads to what the reader finds. -/
theorem leads_first (hs : Ahead symbols position s) (ha : a.Dense) (hd : d ≤ maxGroupDepth) :
    ∃ position', Ahead symbols position' (readAlternatives d s).rest ∧
      Leads symbols (Within (maxGroupDepth - d + 1)) ⟨position, d, a, .call .alternatives, []⟩
        ⟨position', d, ((readAlternatives d s).value.build a).2,
          .ended ((readAlternatives d s).value.build a).1, []⟩ := by
  obtain ⟨position', made, hs', hmade, hleads⟩ :=
    leads_readAlternatives d s hs ha (List.forall_mem_nil _) (room_first hd)
  obtain rfl := Except.ok.inj hmade
  exact ⟨position', hs', .step (room_first hd).call rfl hleads⟩

/-- Alternatives end with the pattern or before the end of their group. -/
theorem position_eq_or (hs : Ahead symbols position (readAlternatives d s).rest) (hd : 0 ≤ d) :
    position = symbols.length ∨ 0 < d ∧ symbols[position]? = some ")" := by
  obtain ⟨n, rfl⟩ := Int.eq_ofNat_of_zero_le hd
  rcases (derives_readAlternatives n s).1 with hrest | ⟨hn, rest, hrest⟩
  · have hlength := hs.length_eq
    rw [hrest] at hlength
    exact .inl hlength
  · rw [hs.getElem?_eq, hrest]
    exact .inr ⟨Int.natCast_pos.2 hn, rfl⟩

/-- **Reading is total, bounded and balanced.** The calls for alternatives are made at a position
inside `d` groups. None of their steps fails. All the time the number of open groups is within its
bound, one call for alternatives at most is active for each group that can still be opened, and one
more, and three times as many calls in all. They end, at the end of the pattern or before the end of
the group that they were called in, inside `d` groups as before, with what a cursor reads there. So
a whole pattern is read to its end, and the fragment that is made is that of its automaton. -/
theorem balanced :
    (∀ (symbols : List Symbol) (position : Nat) (d : Int) (a : Arena), position ≤ symbols.length →
      0 ≤ d → d ≤ maxGroupDepth → a.Dense →
      (∀ n, ∃ c, after symbols n ⟨position, d, a, .call .alternatives, []⟩ = .ok c ∧
        c.Within (maxGroupDepth - d + 1)) ∧
      ∃ n position' a' f, after symbols n ⟨position, d, a, .call .alternatives, []⟩ =
          .ok ⟨position', d, a', .ended f, []⟩ ∧
        position ≤ position' ∧ position' ≤ symbols.length ∧
        (position' = symbols.length ∨ 0 < d ∧ symbols[position']? = some ")") ∧
        Cursor.read ⟨symbols, position, d, a⟩ .alternatives =
          .ok (f, ⟨symbols, position', d, a'⟩)) ∧
    ∀ symbols : List Symbol, ∃ n a f, after symbols n {} =
        .ok ⟨symbols.length, 0, a, .ended f, []⟩ ∧ a.toNfa f = (ofSymbols symbols).toNfa := by
  constructor
  · intro symbols position d a hposition hd hdepth ha
    have hs : Ahead symbols position (symbols.drop position) := ⟨rfl, hposition⟩
    obtain ⟨position', hs', hleads⟩ := leads_first hs ha hdepth
    obtain ⟨n, hn⟩ := hleads.after_eq
    have hlength := hs.length_eq
    have hlength' := hs'.length_eq
    have hrest := (readAlternatives d (symbols.drop position)).rest_length
    exact ⟨hleads.exists_after rfl, n, position', _, _, hn, by omega, hs'.le,
      position_eq_or hs' hd, Cursor.read_alternatives_eq hs hs'⟩
  · intro symbols
    have hs : Ahead symbols 0 symbols := ⟨rfl, Nat.zero_le _⟩
    obtain ⟨position', hs', hleads⟩ := leads_first (d := 0) hs Arena.dense_empty (by decide)
    obtain ⟨n, hn⟩ := hleads.after_eq
    obtain rfl : position' = symbols.length :=
      (position_eq_or hs' (Int.le_refl 0)).resolve_right fun h => Int.lt_irrefl 0 h.1
    exact ⟨n, _, _, hn, rfl⟩

/-- At the greatest depth a parenthesis opens no group, and no calls for alternatives are nested. -/
theorem balanced_deepest :
    (∀ n, ∃ c, after ["(", "a"] n ⟨0, 100, {}, .call .alternatives, []⟩ = .ok c ∧
      nested c.active ≤ 1) ∧
    ∃ n a f, after ["(", "a"] n ⟨0, 100, {}, .call .alternatives, []⟩ =
      .ok ⟨2, 100, a, .ended f, []⟩ := by
  obtain ⟨hall, n, position', a, f, hn, -, hle, hend, -⟩ := balanced.1 ["(", "a"] 0 100 {}
    (Nat.zero_le 2) (by decide) (Int.le_refl 100) Arena.dense_empty
  constructor
  · intro n
    obtain ⟨c, hc, hwithin⟩ := hall n
    exact ⟨c, hc, Int.ofNat_le.1 hwithin.nested_le⟩
  · obtain rfl : position' = 2 := by
      rcases hend with hend | ⟨-, hend⟩
      · exact hend
      · have hmem : ")" ∈ ["(", "a"] := List.mem_of_getElem? hend
        exact absurd hmem (by decide)
    exact ⟨n, a, f, hn⟩

end Calls

end PatternMachines.Pattern
