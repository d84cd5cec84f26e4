import Mathlib.Data.List.Induction
import Mathlib.Data.List.Nodup
import Mathlib.Logic.Relation
import PatternMachines.Proofs.Turing.Trace

/-!
# Editing the list of transitions

Transitions may be added to a machine and removed from it by hand. A machine looks at its list only
for the first transition that fits. So a transition behind one for the same state and symbol can
come and go, and neighbours for different ones can be exchanged, without any run changing. These
edits lead from a list to just those lists that have the same first transitions.

## Main definitions

* `Turing.Transition.key`: the state and the symbol for which a transition is.
* `Turing.firstFor`: the first transition of a list for a state and a symbol.
* `Turing.Edit`, `Turing.Edits`: one edit, and any number of them.

## Main results

* `Turing.edits_iff`: the lists that edits lead to.
* `Turing.edit_addTransition`, `Turing.edit_insertTransition`, `Turing.edit_removeTransition`: the
  changes to a machine that are edits.
* `Turing.Machine.round_withTransitions`: a round looks for the first transition only.
* `Turing.Machine.edited_run`: edits change no run.
-/

namespace PatternMachines.Turing

variable {ts us vs : List Transition} {t u : Transition} {state : String} {x : Symbol}

/-- The state and the symbol for which a transition is. -/
def Transition.key (t : Transition) : String × Symbol := (t.source, t.read)

/-- The first transition of a list for a state and a symbol. -/
def firstFor (ts : List Transition) (state : String) (x : Symbol) : Option Transition :=
  ts.find? fun t => t.source == state && t.read == x

theorem Machine.findTransition_eq_firstFor (m : Machine) (state : String) (x : Symbol) :
    m.findTransition state x = firstFor m.transitions state x := rfl

/-- Whether a transition fits is a matter of its key. -/
theorem fits_iff : (t.source == state && t.read == x) = true ↔ t.key = (state, x) := by
  rw [Bool.and_eq_true, beq_iff_eq, beq_iff_eq, Transition.key, Prod.mk.injEq]

theorem firstFor_append (ts us : List Transition) (state : String) (x : Symbol) :
    firstFor (ts ++ us) state x = (firstFor ts state x).or (firstFor us state x) :=
  List.find?_append

theorem firstFor_cons_of_key_eq (h : t.key = (state, x)) :
    firstFor (t :: ts) state x = some t := List.find?_cons_of_pos (fits_iff.2 h)

theorem firstFor_cons_of_key_ne (h : t.key ≠ (state, x)) :
    firstFor (t :: ts) state x = firstFor ts state x :=
  List.find?_cons_of_neg fun hfits => h (fits_iff.1 hfits)

theorem isSome_firstFor_iff : (firstFor ts state x).isSome ↔ ∃ t ∈ ts, t.key = (state, x) := by
  rw [firstFor, List.find?_isSome]
  simp only [fits_iff]

theorem mem_of_firstFor (h : firstFor ts state x = some t) : t ∈ ts ∧ t.key = (state, x) := by
  rw [firstFor] at h
  have hfits := List.find?_some h
  exact ⟨List.mem_of_find?_eq_some h, fits_iff.1 hfits⟩

/-- In a list with one transition for each key, every transition is a first one. -/
theorem firstFor_eq_some_iff (hts : (ts.map Transition.key).Nodup) :
    firstFor ts state x = some t ↔ t ∈ ts ∧ t.key = (state, x) := by
  refine ⟨mem_of_firstFor, ?_⟩
  rintro ⟨ht, hkey⟩
  obtain ⟨u, hu⟩ := Option.isSome_iff_exists.1 (isSome_firstFor_iff.2 ⟨t, ht, hkey⟩)
  obtain ⟨hmem, hukey⟩ := mem_of_firstFor hu
  obtain rfl : u = t := List.inj_on_of_nodup_map hts hmem ht (hukey.trans hkey.symm)
  exact hu

/-! ### Edits -/

/-- One edit that leaves all first transitions where they are found. -/
inductive Edit : List Transition → List Transition → Prop
  | insert (before after : List Transition) {t : Transition} (h : ∃ u ∈ before, u.key = t.key) :
      Edit (before ++ after) (before ++ t :: after)
  | delete (before after : List Transition) {t : Transition} (h : ∃ u ∈ before, u.key = t.key) :
      Edit (before ++ t :: after) (before ++ after)
  | swap (before after : List Transition) {t u : Transition} (h : t.key ≠ u.key) :
      Edit (before ++ t :: u :: after) (before ++ u :: t :: after)

/-- Any number of edits. -/
abbrev Edits : List Transition → List Transition → Prop := Relation.ReflTransGen Edit

/-- A transition behind one for the same key is never the first one. -/
theorem firstFor_append_cons (h : ∃ u ∈ ts, u.key = t.key) (us : List Transition)
    (state : String) (x : Symbol) :
    firstFor (ts ++ t :: us) state x = firstFor (ts ++ us) state x := by
  rw [firstFor_append, firstFor_append]
  by_cases hkey : t.key = (state, x)
  · obtain ⟨u, hu, hukey⟩ := h
    obtain ⟨v, hv⟩ := Option.isSome_iff_exists.1
      (isSome_firstFor_iff.2 ⟨u, hu, hukey.trans hkey⟩)
    rw [hv, Option.some_or, Option.some_or]
  · rw [firstFor_cons_of_key_ne hkey]

theorem Edit.firstFor_eq (h : Edit ts us) (state : String) (x : Symbol) :
    firstFor us state x = firstFor ts state x := by
  cases h with
  | insert before after h => exact firstFor_append_cons h after state x
  | delete before after h => exact (firstFor_append_cons h after state x).symm
  | @swap before after t u h =>
    rw [firstFor_append, firstFor_append]
    by_cases ht : t.key = (state, x)
    · have hu : u.key ≠ (state, x) := fun hu => h (ht.trans hu.symm)
      rw [firstFor_cons_of_key_ne hu, firstFor_cons_of_key_eq ht, firstFor_cons_of_key_eq ht]
    · rw [firstFor_cons_of_key_ne ht]
      by_cases hu : u.key = (state, x)
      · rw [firstFor_cons_of_key_eq hu, firstFor_cons_of_key_eq hu]
      · rw [firstFor_cons_of_key_ne hu, firstFor_cons_of_key_ne hu, firstFor_cons_of_key_ne ht]

theorem Edits.firstFor_eq (h : Edits ts us) (state : String) (x : Symbol) :
    firstFor us state x = firstFor ts state x := by
  induction h with
  | refl => rfl
  | tail _ hedit ih => rw [hedit.firstFor_eq, ih]

theorem Edit.symm (h : Edit ts us) : Edit us ts := by
  cases h with
  | insert before after h => exact .delete before after h
  | delete before after h => exact .insert before after h
  | swap before after h => exact .swap before after h.symm

theorem Edits.symm (h : Edits ts us) : Edits us ts := by
  induction h with
  | refl => exact .refl
  | tail _ hedit ih => exact .head hedit.symm ih

/-- An edit can be made with a transition before the list. -/
theorem Edit.cons (t : Transition) (h : Edit ts us) : Edit (t :: ts) (t :: us) := by
  cases h with
  | insert before after h =>
    exact .insert (t :: before) after (h.imp fun _ hu => ⟨.tail t hu.1, hu.2⟩)
  | delete before after h =>
    exact .delete (t :: before) after (h.imp fun _ hu => ⟨.tail t hu.1, hu.2⟩)
  | swap before after h => exact .swap (t :: before) after h

/-- An edit can be made with a transition behind the list. -/
theorem Edit.concat (t : Transition) (h : Edit ts us) : Edit (ts ++ [t]) (us ++ [t]) := by
  cases h with
  | insert before after h =>
    simpa only [List.append_assoc, List.cons_append] using Edit.insert before (after ++ [t]) h
  | delete before after h =>
    simpa only [List.append_assoc, List.cons_append] using Edit.delete before (after ++ [t]) h
  | swap before after h =>
    simpa only [List.append_assoc, List.cons_append] using Edit.swap before (after ++ [t]) h

/-- All transitions but the first ones can be deleted. -/
theorem exists_edits_nodup (ts : List Transition) :
    ∃ us, Edits ts us ∧ (us.map Transition.key).Nodup := by
  induction ts using List.reverseRecOn with
  | nil => exact ⟨[], .refl, .nil⟩
  | append_singleton ts t ih =>
    obtain ⟨us, hedits, hnodup⟩ := ih
    have hconcat : Edits (ts ++ [t]) (us ++ [t]) :=
      hedits.lift (· ++ [t]) fun _ _ hedit => hedit.concat t
    by_cases hkey : ∃ u ∈ us, u.key = t.key
    · refine ⟨us, hconcat.tail ?_, hnodup⟩
      simpa only [List.append_nil] using Edit.delete us [] hkey
    · refine ⟨us ++ [t], hconcat, ?_⟩
      rw [List.map_append, List.map_singleton, ← List.concat_eq_append, List.nodup_concat]
      exact ⟨fun hmem => hkey (List.mem_map.1 hmem), hnodup⟩

/-- A list with one transition for each key can be put in any order. -/
theorem edits_of_perm (h : ts.Perm us) (hts : (ts.map Transition.key).Nodup) : Edits ts us := by
  induction h with
  | nil => exact .refl
  | cons t _ ih =>
    exact (ih (List.nodup_cons.1 hts).2).lift (t :: ·) fun _ _ hedit => hedit.cons t
  | swap t u ts =>
    refine .single (.swap [] ts fun hkey => ?_)
    rw [List.map_cons, List.map_cons, hkey] at hts
    exact (List.nodup_cons.1 hts).1 List.mem_cons_self
  | trans hfirst _ ihfirst ihsecond =>
    exact (ihfirst hts).trans (ihsecond ((hfirst.map Transition.key).nodup_iff.1 hts))

/-- Edits lead from a list to just those lists in which the same transitions are found. -/
theorem edits_iff : Edits ts us ↔ ∀ state x, firstFor us state x = firstFor ts state x := by
  refine ⟨Edits.firstFor_eq, fun h => ?_⟩
  obtain ⟨ts', hts, hts'⟩ := exists_edits_nodup ts
  obtain ⟨us', hus, hus'⟩ := exists_edits_nodup us
  -- What is left of both lists are the transitions that are found in them.
  have hperm : ts'.Perm us' := by
    refine (List.perm_ext_iff_of_nodup (.of_map _ hts') (.of_map _ hus')).2 fun t => ?_
    have hfirst : firstFor us' t.source t.read = firstFor ts' t.source t.read := by
      rw [hts.firstFor_eq, hus.firstFor_eq, h]
    have hkey : t.key = (t.source, t.read) := rfl
    have hmem : firstFor ts' t.source t.read = some t ↔ t ∈ ts' :=
      (firstFor_eq_some_iff hts').trans (and_iff_left hkey)
    have hmem' : firstFor us' t.source t.read = some t ↔ t ∈ us' :=
      (firstFor_eq_some_iff hus').trans (and_iff_left hkey)
    rw [← hmem, ← hmem', hfirst]
  exact hts.trans ((edits_of_perm hperm hts').trans hus.symm)

/-! ### Editing machines -/

/-- Adding a transition for a key that the machine has is an edit. -/
theorem edit_addTransition {m : Machine} (h : ∃ u ∈ m.transitions, u.key = t.key) :
    Edit m.transitions (m.addTransition t).transitions := by
  have hedit := Edit.insert m.transitions [] h
  rwa [List.append_nil] at hedit

/-- Inserting a transition behind one for its key is an edit. -/
theorem edit_insertTransition {m : Machine} {i : Int}
    (h : ∃ u ∈ m.transitions.take (m.position i).toNat, u.key = t.key) :
    Edit m.transitions (m.insertTransition i t).transitions := by
  rw [Machine.insertTransition, List.splitAt_eq]
  simpa only [List.take_append_drop] using
    Edit.insert _ (m.transitions.drop (m.position i).toNat) h

/-- Removing a transition behind one for its key is an edit. -/
theorem edit_removeTransition {m m' : Machine} {i : Int}
    (hremoved : m.removeTransition i = .ok (t, m'))
    (h : ∃ u ∈ m.transitions.take (m.position i).toNat, u.key = t.key) :
    Edit m.transitions m'.transitions := by
  rw [Machine.removeTransition] at hremoved
  split at hremoved
  · cases hremoved
  · split at hremoved
    · cases hremoved
    · split at hremoved
      · cases hremoved
      · next u hu =>
        cases hremoved
        obtain ⟨hlength, rfl⟩ := List.getElem?_eq_some_iff.1 hu
        have hedit := Edit.delete _ (m.transitions.drop ((m.position i).toNat + 1)) h
        rwa [← List.drop_eq_getElem_cons hlength, List.take_append_drop,
          ← List.eraseIdx_eq_take_drop_succ] at hedit

/-! ### Runs of edited machines -/

namespace Machine

variable {m : Machine}

theorem findTransition_insertTransition_zero (m : Machine) (t : Transition) :
    (m.insertTransition 0 t).findTransition t.source t.read = some t := by
  have hlist : (m.insertTransition 0 t).transitions = t :: m.transitions := by
    rw [insertTransition, List.splitAt_eq]
    rfl
  rw [findTransition_eq_firstFor, hlist, firstFor_cons_of_key_eq rfl]

section SameFirst

variable (h : ∀ state x, firstFor ts state x = firstFor m.transitions state x)

include h

/-- A round looks at the list for the first transition only. -/
theorem round_withTransitions (c : Configuration) :
    { m with transitions := ts }.round c = m.round c := by
  have happlicable (c : Configuration) :
      { m with transitions := ts }.applicable c = m.applicable c := by
    refine congrArg _ (funext fun x => congrArg _ (funext fun state => ?_))
    exact h state x
  rw [round, round, happlicable]
  rfl

theorem runFrom_withTransitions (taken left : Nat) (c : Configuration) :
    { m with transitions := ts }.runFrom taken left c = m.runFrom taken left c := by
  induction left generalizing taken c with
  | zero => rfl
  | succ left ih => simp only [runFrom_succ, round_withTransitions h, ih]

theorem watchFrom_withTransitions {M : Type → Type} [Monad M] (hook : Option (Step → M PUnit))
    (taken left : Nat) (c : Configuration) :
    { m with transitions := ts }.watchFrom hook taken left c = m.watchFrom hook taken left c := by
  induction left generalizing taken c with
  | zero => rfl
  | succ left ih => simp only [watchFrom, round_withTransitions h, ih]

end SameFirst

/-- **Only the first transitions count.** Edits lead from the transitions of a machine to just those
lists in which the same transition is found for every state and symbol. With such a list the machine
has the same run on every input, with the same trace, and who watches the run is told the same. A
transition that is inserted before all others is the one that is found for its state and symbol. -/
theorem edited_run (m : Machine) (ts : List Transition) :
    (Edits m.transitions ts ↔ ∀ state x,
      { m with transitions := ts }.findTransition state x = m.findTransition state x) ∧
    (Edits m.transitions ts →
      (∀ input, { m with transitions := ts }.run input = m.run input) ∧
      ∀ (M : Type → Type) [Monad M] (hook : Option (Step → M PUnit)) (input : String),
        { m with transitions := ts }.watch hook input = m.watch hook input) ∧
    ∀ t : Transition, (m.insertTransition 0 t).findTransition t.source t.read = some t := by
  refine ⟨edits_iff, fun h => ⟨fun input => ?run, fun M _ hook input => ?watch⟩,
    findTransition_insertTransition_zero m⟩
  case run =>
    rw [run, run, runFrom_withTransitions h.firstFor_eq]
    rfl
  case watch =>
    rw [watch, watch, watchFrom_withTransitions h.firstFor_eq]
    rfl

/-- A machine that accepts after the first `b`. -/
def seekingB : Machine where
  transitions := [⟨"q0", "a", "q0", "a", moveRight⟩, ⟨"q0", "b", "qa", "b", moveRight⟩]
  start := some "q0"
  accepting := .ofList ["qa"]
  reject := some "qr"

/-- The machine that accepts after the first `b` still does if a transition that would reject at an
`a` is added behind the others, and the two others are then exchanged. -/
theorem edited_run_seekingB :
    let ts : List Transition := [⟨"q0", "b", "qa", "b", moveRight⟩,
      ⟨"q0", "a", "q0", "a", moveRight⟩, ⟨"q0", "a", "qr", "a", moveRight⟩]
    Edits seekingB.transitions ts ∧
      { seekingB with transitions := ts }.run "aab" = seekingB.run "aab" ∧
      (seekingB.run "aab").accepted = true ∧ (seekingB.run "aab").steps = 3 := by
  intro ts
  have hadd : Edits seekingB.transitions
      (seekingB.addTransition ⟨"q0", "a", "qr", "a", moveRight⟩).transitions :=
    .single (edit_addTransition ⟨_, List.mem_cons_self, rfl⟩)
  have hedits : Edits seekingB.transitions ts := hadd.tail (.swap [] _ (by decide))
  exact ⟨hedits, ((edited_run seekingB ts).2.1 hedits).1 "aab", by decide, by decide⟩

end Machine

end PatternMachines.Turing
