import Mathlib.Computability.Language
import PatternMachines.Nfa

/-!
# Paths through the states of an automaton

Paths are defined for tables of states, so that they serve automata and automata under construction
alike. A path reads the word on its edges. A table may hold edges to ids that name no state; a path
may end there.

## Main definitions

* `StateTable`, `Edge`, `Path`: tables of states, their edges and their paths.

## Main results

* `nodup_toList`: the list of a set.
* `getElem?_ofList_eq_some_iff`, `getElem?_ofList_zipIdx_eq_some_iff`: what a table made from a
  list holds.
* `Path.nil_iff_reflTransGen`: the paths that read nothing.
* `Path.append_iff`, `Path.snoc_iff`: how the word on a path splits the path.
* `Path.mem_of_residual`: a language for each state that is kept along edges bounds the words on
  the paths from that state.
-/

namespace PatternMachines

open Std

/-- A set lists no member twice. -/
theorem nodup_toList {α : Type} [Ord α] [TransOrd α] [LawfulEqOrd α] (s : ExtTreeSet α) :
    s.toList.Nodup :=
  s.distinct_toList.imp fun hne heq => hne (Std.compare_eq_iff_eq.2 heq)

/-- A table made from a list with different keys holds what the list holds. -/
theorem getElem?_ofList_eq_some_iff {α β : Type} [Ord α] [TransOrd α] [LawfulEqOrd α]
    {l : List (α × β)} (hl : (l.map Prod.fst).Nodup) {k : α} {v : β} :
    (ExtTreeMap.ofList l)[k]? = some v ↔ (k, v) ∈ l := by
  have hdistinct : l.Pairwise fun x y => ¬compare x.1 y.1 = .eq := by
    simpa only [Std.compare_eq_iff_eq] using List.pairwise_map.1 hl
  have hmem {v : β} (h : (k, v) ∈ l) : (ExtTreeMap.ofList l)[k]? = some v :=
    ExtTreeMap.getElem?_ofList_of_mem Std.compare_self hdistinct h
  constructor
  · intro h
    classical
    have hk : k ∈ ExtTreeMap.ofList l := by
      rw [ExtTreeMap.mem_iff_isSome_getElem?, h, Option.isSome_some]
    rw [ExtTreeMap.mem_ofList, List.contains_iff_mem, List.mem_map] at hk
    obtain ⟨⟨_, v'⟩, hv', rfl⟩ := hk
    rw [hmem hv', Option.some_inj] at h
    exact h ▸ hv'
  · exact hmem

/-- A table of the places in a list without repetitions. -/
theorem getElem?_ofList_zipIdx_eq_some_iff {α : Type} [Ord α] [TransOrd α] [LawfulEqOrd α]
    {l : List α} (hl : l.Nodup) {a : α} {k : Nat} :
    (ExtTreeMap.ofList l.zipIdx)[a]? = some k ↔ l[k]? = some a := by
  have hkeys : (l.zipIdx.map Prod.fst).Nodup := by
    rwa [List.zipIdx_map_fst]
  rw [getElem?_ofList_eq_some_iff hkeys, List.mem_zipIdx_iff_getElem?]

/-- States by name. -/
abbrev StateTable := ExtTreeMap StateId NfaState

/-- Whether an edge leads from the state to `q`: one that reads a symbol, or one that reads
nothing. -/
def NfaState.Leads (s : NfaState) : Option Symbol → StateId → Prop
  | none, q => q ∈ s.silent
  | some a, q => q ∈ s.edges.getD a ∅

namespace NfaState

variable {s : NfaState} {label : Option Symbol} {q : StateId}

@[simp]
theorem not_leads_empty {b : Bool} : ¬(NfaState.mk b ∅ ∅).Leads label q := by
  cases label with
  | none => exact ExtTreeSet.not_mem_empty
  | some a => simp [Leads]

@[simp]
theorem leads_addEdge {a : Symbol} {target : StateId} :
    (s.addEdge a target).Leads label q ↔ (label = some a ∧ q = target) ∨ s.Leads label q := by
  cases label with
  | none => simp [Leads, addEdge]
  | some b =>
    rw [Leads, addEdge, ExtTreeMap.getD_insert]
    by_cases hab : a = b
    · subst hab
      simp [Leads, @eq_comm _ q target]
    · have hba : ¬b = a := fun h => hab h.symm
      simp [Leads, hab, hba]

@[simp]
theorem leads_addSilent {target : StateId} :
    (s.addSilent target).Leads label q ↔ (label = none ∧ q = target) ∨ s.Leads label q := by
  cases label with
  | none => simp [Leads, addSilent, @eq_comm _ q target]
  | some a => simp [Leads, addSilent]

end NfaState

/-- The edges of a table of states. -/
def Edge (t : StateTable) (p : StateId) (label : Option Symbol) (q : StateId) : Prop :=
  ∃ s, t[p]? = some s ∧ s.Leads label q

/-- The paths through a table of states, with the words that they read. -/
inductive Path (t : StateTable) : StateId → List Symbol → StateId → Prop
  | nil (p : StateId) : Path t p [] p
  | silent {p q r : StateId} {w : List Symbol} (h : Edge t p none q) (hw : Path t q w r) :
      Path t p w r
  | read {p q r : StateId} {a : Symbol} {w : List Symbol} (h : Edge t p (some a) q)
      (hw : Path t q w r) : Path t p (a :: w) r

namespace Path

variable {t t' : StateTable} {p q r : StateId} {a : Symbol} {u v w : List Symbol}

theorem trans (h : Path t p u q) (h' : Path t q v r) : Path t p (u ++ v) r := by
  induction h with
  | nil => exact h'
  | silent he _ ih => exact .silent he (ih h')
  | read he _ ih => exact .read he (ih h')

/-- A path that reads nothing may be put in front of a path. -/
theorem after_silent (h : Path t p [] q) (h' : Path t q w r) : Path t p w r := h.trans h'

/-- A path that reads nothing may be put behind a path. -/
theorem before_silent (h : Path t p w q) (h' : Path t q [] r) : Path t p w r := by
  simpa only [List.append_nil] using h.trans h'

theorem of_silent (h : Edge t p none q) : Path t p [] q := .silent h (.nil q)

theorem of_read (h : Edge t p (some a) q) : Path t p [a] q := .read h (.nil q)

theorem of_edge {label : Option Symbol} (h : Edge t p label q) (hw : Path t q w r) :
    Path t p (label.toList ++ w) r := by
  cases label with
  | none => exact .silent h hw
  | some a => exact .read h hw

/-- Paths that read nothing follow any number of edges that read nothing. -/
theorem nil_iff_reflTransGen :
    Path t p [] q ↔ Relation.ReflTransGen (fun p q => Edge t p none q) p q := by
  constructor
  · intro h
    generalize hw : ([] : List Symbol) = w at h
    induction h with
    | nil => exact .refl
    | silent he _ ih => exact .head he (ih hw)
    | read => cases hw
  · intro h
    induction h with
    | refl => exact .nil p
    | tail _ he ih => exact ih.before_silent (.of_silent he)

/-- A path is split where a part of its word has been read. -/
theorem append_iff : Path t p (u ++ v) r ↔ ∃ q, Path t p u q ∧ Path t q v r := by
  constructor
  · intro h
    generalize huv : u ++ v = w at h
    induction h generalizing u with
    | nil p =>
      obtain ⟨rfl, rfl⟩ := List.append_eq_nil_iff.1 huv
      exact ⟨p, .nil p, .nil p⟩
    | silent he _ ih =>
      obtain ⟨q, hu, hv⟩ := ih huv
      exact ⟨q, .silent he hu, hv⟩
    | @read p q r a w he hw ih =>
      cases u with
      | nil =>
        subst huv
        exact ⟨p, .nil p, .read he hw⟩
      | cons b u =>
        obtain ⟨rfl, rfl⟩ := List.cons_eq_cons.1 huv
        obtain ⟨q, hu, hv⟩ := ih rfl
        exact ⟨q, .read he hu, hv⟩
  · rintro ⟨q, hu, hv⟩
    exact hu.trans hv

/-- A path that reads a symbol comes to an edge that reads it. -/
theorem singleton_iff :
    Path t p [a] r ↔ ∃ q q', Path t p [] q ∧ Edge t q (some a) q' ∧ Path t q' [] r := by
  constructor
  · intro h
    generalize hw : [a] = w at h
    induction h with
    | nil => cases hw
    | silent he _ ih =>
      obtain ⟨q, q', hq, hedge, hq'⟩ := ih hw
      exact ⟨q, q', .silent he hq, hedge, hq'⟩
    | @read p q r b w he hrest _ =>
      obtain ⟨rfl, rfl⟩ := List.cons_eq_cons.1 hw
      exact ⟨p, q, .nil p, he, hrest⟩
  · rintro ⟨q, q', hq, hedge, hq'⟩
    exact hq.after_silent (.read hedge hq')

/-- The last symbol of a path's word is read by an edge. -/
theorem snoc_iff :
    Path t p (u ++ [a]) r ↔ ∃ q q', Path t p u q ∧ Edge t q (some a) q' ∧ Path t q' [] r := by
  rw [append_iff]
  constructor
  · rintro ⟨q, hu, ha⟩
    obtain ⟨q₁, q₂, hq, hedge, hr⟩ := singleton_iff.1 ha
    exact ⟨q₁, q₂, hu.before_silent hq, hedge, hr⟩
  · rintro ⟨q₁, q₂, hu, hedge, hr⟩
    exact ⟨q₁, hu, .read hedge hr⟩

/-- A path is a path through more edges. -/
theorem mono (hsub : ∀ p label q, Edge t p label q → Edge t' p label q) (h : Path t p w q) :
    Path t' p w q := by
  induction h with
  | nil p => exact .nil p
  | silent he _ ih => exact .silent (hsub _ _ _ he) ih
  | read he _ ih => exact .read (hsub _ _ _ he) ih

/-- A path does not leave a set that no edge leaves. -/
theorem mem_of_closed {S : Set StateId} (hS : ∀ p ∈ S, ∀ label q, Edge t p label q → q ∈ S)
    (h : Path t p w q) (hp : p ∈ S) : q ∈ S := by
  induction h with
  | nil => exact hp
  | silent he _ ih => exact ih (hS _ hp _ _ he)
  | read he _ ih => exact ih (hS _ hp _ _ he)

/-- Where no edge leaves a set, and a second table has the same edges there, paths of the first
are paths of the second. -/
theorem mono_on {S : Set StateId} (hS : ∀ p ∈ S, ∀ label q, Edge t p label q → q ∈ S)
    (hsub : ∀ p ∈ S, ∀ label q, Edge t p label q → Edge t' p label q) (hp : p ∈ S)
    (h : Path t p w q) : Path t' p w q := by
  induction h with
  | nil p => exact .nil p
  | silent he _ ih => exact .silent (hsub _ hp _ _ he) (ih (hS _ hp _ _ he))
  | read he _ ih => exact .read (hsub _ hp _ _ he) (ih (hS _ hp _ _ he))

/-- Where no edge leaves a set, and a second table has just the same edges there, paths are the
same. -/
theorem congr_on {S : Set StateId} (hS : ∀ p ∈ S, ∀ label q, Edge t p label q → q ∈ S)
    (hedge : ∀ p ∈ S, ∀ label q, Edge t' p label q ↔ Edge t p label q) (hp : p ∈ S) :
    Path t' p w q ↔ Path t p w q := by
  constructor
  · exact mono_on (fun p hp label q h => hS p hp label q ((hedge p hp label q).1 h))
      (fun p hp label q h => (hedge p hp label q).1 h) hp
  · exact mono_on hS (fun p hp label q h => (hedge p hp label q).2 h) hp

/-- If each state is given a language, the languages are kept along edges, and the last state may
read nothing, then the word on a path is in the language of the first state. -/
theorem mem_of_residual (R : StateId → Language Symbol) (hend : [] ∈ R r)
    (hstep : ∀ p label q, Edge t p label q → ∀ w ∈ R q, label.toList ++ w ∈ R p)
    (h : Path t p w r) : w ∈ R p := by
  induction h with
  | nil => exact hend
  | silent he _ ih => exact hstep _ _ _ he _ (ih hend)
  | read he _ ih => exact hstep _ _ _ he _ (ih hend)

end Path

end PatternMachines
