import PatternMachines.Proofs.Exploration
import PatternMachines.Proofs.Nfa.Path

/-!
# Closures and walks as sets of paths

The closure of some ids holds the ends of the paths from them that read nothing. The closures met
on a walk hold the ends of the paths that read the beginnings of the word. They fail only at ids
that name no state.

## Main definitions

* `Nfa.LedTo`: the ids that a word leads to.
* `Nfa.Accepts`: the words that a walk accepts.

## Main results

* `Nfa.mem_closure`, `Nfa.closure_eq_ok_iff`: closures.
* `Nfa.mem_move`, `Nfa.move_eq_ok_iff`: the ids reached by reading a symbol.
* `Nfa.exists_walk`: walks.
* `Nfa.accepts_iff_path`: the words accepted are the words on paths to accepting states.
-/

namespace PatternMachines.Nfa

open Std

variable {n : Nfa} {ids : StateSet} {a : Symbol}

theorem state_eq_ok_iff {id : StateId} {s : NfaState} :
    n.state id = .ok s ↔ n.states[id]? = some s := by
  rw [state]
  cases n.states[id]? with
  | none => simp
  | some s' => simp

theorem mem_states_iff {id : StateId} : id ∈ n.states ↔ ∃ s, n.states[id]? = some s := by
  rw [ExtTreeMap.mem_iff_isSome_getElem?, Option.isSome_iff_exists]

theorem exists_state_iff {id : StateId} : (∃ s, n.state id = .ok s) ↔ id ∈ n.states := by
  simp only [state_eq_ok_iff, mem_states_iff]

/-! ### Closures -/

theorem reaches_silentEdges_iff {first : List StateId} {q : StateId} :
    n.silentEdges.Reaches first q ↔ ∃ p ∈ first, Path n.states p [] q := by
  constructor
  · intro h
    induction h with
    | first hp => exact ⟨_, hp, .nil _⟩
    | next _ hexpand hc ih =>
      obtain ⟨p, hp, hpath⟩ := ih
      have hedge : Edge n.states _ none _ :=
        ⟨_, state_eq_ok_iff.1 hexpand, ExtTreeSet.mem_toList.1 hc⟩
      exact ⟨p, hp, hpath.before_silent (.of_silent hedge)⟩
  · rintro ⟨p, hp, hpath⟩
    generalize hw : ([] : List Symbol) = w at hpath
    have hreaches : n.silentEdges.Reaches first p := .first hp
    clear hp
    induction hpath with
    | nil => exact hreaches
    | silent he _ ih =>
      obtain ⟨s, hs, hq⟩ := he
      exact ih hw (hreaches.next (state_eq_ok_iff.2 hs) (ExtTreeSet.mem_toList.2 hq))
    | read => cases hw

/-- The closure of some ids can be formed exactly if all paths from them that read nothing end in
states. -/
theorem closure_eq_ok_iff : (∃ c, n.closure ids = .ok c) ↔
    ∀ p ∈ ids, ∀ q, Path n.states p [] q → q ∈ n.states := by
  have hvisit : (∃ c, n.closure ids = .ok c) ↔ ∃ out, n.silentEdges.visit ids.toList = .ok out := by
    rw [closure]
    cases n.silentEdges.visit ids.toList with
    | error e => simp [Except.map]
    | ok out => simp [Except.map]
  rw [hvisit, Exploration.visit_eq_ok_iff]
  have hexpand (q : StateId) : (∃ s, n.silentEdges.expand q = .ok s) ↔ q ∈ n.states :=
    exists_state_iff
  constructor
  · intro h p hp q hpath
    exact (hexpand q).1 (h q (reaches_silentEdges_iff.2 ⟨p, ExtTreeSet.mem_toList.2 hp, hpath⟩))
  · intro h q hq
    obtain ⟨p, hp, hpath⟩ := reaches_silentEdges_iff.1 hq
    exact (hexpand q).2 (h p (ExtTreeSet.mem_toList.1 hp) q hpath)

/-- The closure of some ids holds the ends of the paths from them that read nothing. -/
theorem mem_closure {c : StateSet} (h : n.closure ids = .ok c) {q : StateId} :
    q ∈ c ↔ ∃ p ∈ ids, Path n.states p [] q := by
  rw [closure] at h
  cases hvisit : n.silentEdges.visit ids.toList with
  | error e => rw [hvisit] at h; cases h
  | ok out =>
    rw [hvisit] at h
    cases h
    rw [ExtTreeSet.mem_ofList, List.contains_iff_mem,
      ← Exploration.reaches_iff_mem_map_fst hvisit, reaches_silentEdges_iff]
    simp only [ExtTreeSet.mem_toList]

/-! ### Reading a symbol -/

theorem moveFrom_eq_ok_iff {l : List StateId} :
    (∃ t, n.moveFrom a l = .ok t) ↔ ∀ p ∈ l, p ∈ n.states := by
  induction l with
  | nil => simp [moveFrom]
  | cons id l ih =>
    rw [List.forall_mem_cons, ← ih, ← exists_state_iff, moveFrom]
    cases n.state id with
    | error e => simp [bind, Except.bind]
    | ok s =>
      cases n.moveFrom a l with
      | error e => simp [bind, Except.bind]
      | ok t => simp [bind, Except.bind, pure, Except.pure]

theorem mem_moveFrom {l : List StateId} {t : StateSet} (h : n.moveFrom a l = .ok t)
    {q : StateId} : q ∈ t ↔ ∃ p ∈ l, Edge n.states p (some a) q := by
  induction l generalizing t with
  | nil =>
    cases h
    simp
  | cons id l ih =>
    rw [moveFrom] at h
    cases hs : n.state id with
    | error e => rw [hs] at h; cases h
    | ok s =>
      cases ht : n.moveFrom a l with
      | error e => rw [hs, ht] at h; cases h
      | ok rest =>
        rw [hs, ht] at h
        cases h
        have hedge : Edge n.states id (some a) q ↔ q ∈ s.edges.getD a ∅ := by
          rw [Edge, state_eq_ok_iff.1 hs]
          simp [NfaState.Leads]
        rw [ExtTreeSet.mem_union_iff, List.exists_mem_cons_iff, ih ht, hedge]

/-- The ids reached from a set by reading a symbol can be found exactly if the set holds states
only. -/
theorem move_eq_ok_iff : (∃ t, n.move ids a = .ok t) ↔ ∀ p ∈ ids, p ∈ n.states := by
  rw [move, moveFrom_eq_ok_iff]
  simp only [ExtTreeSet.mem_toList]

/-- The ids reached from a set by reading a symbol are the ends of the edges that read it. -/
theorem mem_move {t : StateSet} (h : n.move ids a = .ok t) {q : StateId} :
    q ∈ t ↔ ∃ p ∈ ids, Edge n.states p (some a) q := by
  rw [mem_moveFrom h]
  simp only [ExtTreeSet.mem_toList]

/-! ### Walks -/

/-- Whether a set holds the ids that a word leads to from the start. -/
def LedTo (n : Nfa) (w : List Symbol) (ids : StateSet) : Prop :=
  ∀ q, q ∈ ids ↔ Path n.states n.start w q

/-- Whether a word leads to an id that names a state, wherever it leads. -/
def StaysInside (n : Nfa) (w : List Symbol) : Prop :=
  ∀ q, Path n.states n.start w q → q ∈ n.states

theorem LedTo.unique {w : List Symbol} {ids' : StateSet} (h : n.LedTo w ids)
    (h' : n.LedTo w ids') : ids = ids' :=
  ExtTreeSet.ext_mem fun {q} => (h q).trans (h' q).symm

theorem ledTo_closure_start {c : StateSet} (h : n.closure (.ofList [n.start]) = .ok c) :
    n.LedTo [] c := by
  intro q
  rw [mem_closure h]
  simp

theorem exists_closure_start (h : n.StaysInside []) :
    ∃ c, n.closure (.ofList [n.start]) = .ok c ∧ n.LedTo [] c := by
  have hinside : ∀ p ∈ (.ofList [n.start] : StateSet), ∀ q, Path n.states p [] q →
      q ∈ n.states := by
    intro p hp q hpath
    obtain rfl : n.start = p := by simpa using hp
    exact h q hpath
  obtain ⟨c, hc⟩ := closure_eq_ok_iff.2 hinside
  exact ⟨c, hc, ledTo_closure_start hc⟩

/-- The ends of the edges that read a symbol, from the set that a word leads to. -/
theorem LedTo.mem_move {u : List Symbol} (h : n.LedTo u ids) {t : StateSet}
    (ht : n.move ids a = .ok t) {q : StateId} :
    q ∈ t ↔ ∃ p, Path n.states n.start u p ∧ Edge n.states p (some a) q := by
  rw [Nfa.mem_move ht]
  simp only [h _]

/-- Reading one more symbol, a word leads to the closure of what is reached by reading it. -/
theorem LedTo.snoc {u : List Symbol} (h : n.LedTo u ids) {t c : StateSet}
    (ht : n.move ids a = .ok t) (hc : n.closure t = .ok c) : n.LedTo (u ++ [a]) c := by
  intro q
  rw [mem_closure hc, Path.snoc_iff]
  constructor
  · rintro ⟨q', hq', hq⟩
    obtain ⟨p, hp, hedge⟩ := (h.mem_move ht).1 hq'
    exact ⟨p, q', hp, hedge, hq⟩
  · rintro ⟨p, q', hp, hedge, hq⟩
    exact ⟨q', (h.mem_move ht).2 ⟨p, hp, hedge⟩, hq⟩

theorem LedTo.exists_move {u : List Symbol} (h : n.LedTo u ids) (hu : n.StaysInside u)
    (a : Symbol) : ∃ t, n.move ids a = .ok t :=
  move_eq_ok_iff.2 fun p hp => hu p ((h p).1 hp)

theorem LedTo.exists_closure {u : List Symbol} (h : n.LedTo u ids)
    (hua : n.StaysInside (u ++ [a])) {t : StateSet} (ht : n.move ids a = .ok t) :
    ∃ c, n.closure t = .ok c := by
  refine closure_eq_ok_iff.2 fun q' hq' q hq => hua q ?_
  obtain ⟨p, hp, hedge⟩ := (h.mem_move ht).1 hq'
  exact Path.snoc_iff.2 ⟨p, q', hp, hedge, hq⟩

theorem LedTo.exists_walkFrom {u : List Symbol} (h : n.LedTo u ids) (w : List Symbol)
    (hw : ∀ v, v <+: w → n.StaysInside (u ++ v)) :
    ∃ sets, n.walkFrom ids w = .ok sets ∧ sets.length = w.length + 1 ∧
      ∀ k s, sets[k]? = some s → n.LedTo (u ++ w.take k) s := by
  induction w generalizing u ids with
  | nil =>
    refine ⟨[ids], rfl, rfl, fun k s hs => ?_⟩
    obtain ⟨rfl, rfl⟩ : k = 0 ∧ ids = s := by
      cases k with
      | zero => exact ⟨rfl, by simpa using hs⟩
      | succ k => simp at hs
    simpa using h
  | cons a w ih =>
    have hu : n.StaysInside u := by simpa using hw [] List.nil_prefix
    have hua : n.StaysInside (u ++ [a]) := hw [a] (List.prefix_append [a] w)
    obtain ⟨t, ht⟩ := h.exists_move hu a
    obtain ⟨c, hc⟩ := h.exists_closure hua ht
    have hrest : ∀ v, v <+: w → n.StaysInside (u ++ [a] ++ v) := by
      intro v hv
      rw [List.append_assoc]
      exact hw (a :: v) (List.cons_prefix_cons.2 ⟨rfl, hv⟩)
    obtain ⟨sets, hsets, hlength, hled⟩ := ih (h.snoc ht hc) hrest
    refine ⟨ids :: sets, ?_, ?_, ?_⟩
    · rw [walkFrom, ht]
      simp only [bind, Except.bind, hc, hsets, pure, Except.pure]
    · rw [List.length_cons, hlength, List.length_cons]
    · intro k s hs
      cases k with
      | zero =>
        obtain rfl : ids = s := by simpa using hs
        simpa using h
      | succ k =>
        rw [List.getElem?_cons_succ] at hs
        simpa using hled k s hs

/-- Where a word and its beginnings lead to states only, there is a walk. The closures met on it
hold the ids that the beginnings of the word lead to, the last of them those that the word leads
to. -/
theorem exists_walk (w : List Symbol) (h : ∀ v, v <+: w → n.StaysInside v) :
    ∃ sets ids, n.walk w = .ok sets ∧ sets.getLast? = some ids ∧ n.LedTo w ids ∧
      sets.length = w.length + 1 ∧ ∀ k s, sets[k]? = some s → n.LedTo (w.take k) s := by
  obtain ⟨c, hc, hled⟩ := exists_closure_start (h [] List.nil_prefix)
  obtain ⟨sets, hsets, hlength, hall⟩ := hled.exists_walkFrom w (by simpa using h)
  simp only [List.nil_append] at hall
  obtain ⟨ids, hlast⟩ : ∃ ids, sets[w.length]? = some ids :=
    ⟨_, List.getElem?_eq_getElem (by omega)⟩
  refine ⟨sets, ids, ?_, ?_, ?_, hlength, hall⟩
  · rw [walk, hc]
    exact hsets
  · rw [List.getLast?_eq_getElem?, hlength, Nat.add_sub_cancel, hlast]
  · simpa using hall w.length _ hlast

/-- Whether a walk on the word ends in a closure that holds a state with the accepting flag. -/
def Accepts (n : Nfa) (w : List Symbol) : Prop :=
  ∃ sets ids, n.walk w = .ok sets ∧ sets.getLast? = some ids ∧
    ∃ q ∈ ids, ∃ s, n.states[q]? = some s ∧ s.accepting = true

/-- Where a word and its beginnings lead to states only, the word is accepted exactly if it is the
word on a path to an accepting state. -/
theorem accepts_iff_path (w : List Symbol) (h : ∀ v, v <+: w → n.StaysInside v) :
    n.Accepts w ↔
      ∃ q s, Path n.states n.start w q ∧ n.states[q]? = some s ∧ s.accepting = true := by
  obtain ⟨sets, ids, hsets, hids, hledTo, -⟩ := exists_walk w h
  constructor
  · rintro ⟨sets', ids', hsets', hids', q, hq, s, hs, haccepting⟩
    rw [hsets] at hsets'
    cases hsets'
    rw [hids] at hids'
    cases hids'
    exact ⟨q, s, (hledTo q).1 hq, hs, haccepting⟩
  · rintro ⟨q, s, hpath, hs, haccepting⟩
    exact ⟨sets, ids, hsets, hids, q, (hledTo q).2 hpath, s, hs, haccepting⟩

end PatternMachines.Nfa
