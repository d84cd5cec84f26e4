import PatternMachines.Proofs.Pattern.Trim

/-!
# Building parts before they are put together

The fragment of a term is put together while its factors are built, two at a time. It can as well be
put together when all factors have been built: putting two fragments one after the other changes the
last state of the first one only, and what is built later takes no notice of the states that there
are.

## Main definitions

* `Pattern.buildEach`: the fragments of several patterns.
* `Pattern.buildAfter`: the fragment of some parts followed by several patterns.

## Main results

* `Pattern.build_modify`: building takes no notice of a change to a state.
* `Pattern.build_concatAll`: the parts of a term are built before they are put together.
-/

namespace PatternMachines

open Std

namespace Arena

variable {a : Arena} {f g : Fragment} {id last : StateId} {change other : NfaState → NfaState}

theorem modify_modify (hne : id ≠ last) :
    (a.modify id change).modify last other = (a.modify last other).modify id change := by
  refine congrArg Arena.mk (ExtTreeMap.ext_getElem? fun p => ?_)
  change ((a.modify id change).modify last other).states[p]? =
    ((a.modify last other).modify id change).states[p]?
  simp only [getElem?_modify, if_neg hne, if_neg hne.symm]
  by_cases hlast : p = last
  · rw [if_pos hlast, if_neg (hlast ▸ hne.symm), if_pos hlast]
  · rw [if_neg hlast, if_neg hlast]

theorem add_modify (hne : id ≠ a.nextId) (s : NfaState) :
    (a.modify id change).add s = (a.add s).modify id change := by
  refine congrArg Arena.mk (ExtTreeMap.ext_getElem? fun p => ?_)
  change ((a.modify id change).add s).states[p]? = ((a.add s).modify id change).states[p]?
  rw [getElem?_add, getElem?_modify, getElem?_modify, getElem?_add, getElem?_add, nextId_modify,
    if_neg hne]
  by_cases hnew : p = a.nextId
  · rw [if_pos hnew, if_neg (hnew ▸ hne.symm), if_pos hnew]
  · rw [if_neg hnew, if_neg hnew]

theorem leave_modify (hne : last ≠ id) (targets : List StateId) :
    (a.modify id change).leave last targets = (a.leave last targets).modify id change :=
  modify_modify hne.symm

/-! ### The rules take no notice of a change -/

variable (ha : a.Dense) (hid : id ∈ a.states)

include ha hid

/-- Two states can be added as well before another state is changed. -/
theorem add_add_modify (s t : NfaState) :
    ((a.modify id change).add s).add t = ((a.add s).add t).modify id change := by
  rw [add_modify (ha.ne_nextId hid), add_modify ((ha.add s).ne_nextId (mem_states_add.2 (.inr hid)))]

theorem oneOf_modify (symbols : List Symbol) : (a.modify id change).oneOf symbols =
    ((a.oneOf symbols).1, (a.oneOf symbols).2.modify id change) := by
  simp only [oneOf, nextId_modify, add_add_modify ha hid]

theorem epsilon_modify :
    (a.modify id change).epsilon = (a.epsilon.1, a.epsilon.2.modify id change) := by
  simp only [epsilon, nextId_modify, add_modify (ha.ne_nextId hid)]

omit ha hid in
theorem concat_modify (hf : f.accept ≠ id) : (a.modify id change).concat f g =
    ((a.concat f g).1, (a.concat f g).2.modify id change) := by
  simp only [concat, leave_modify hf]

theorem union_modify (hf : f.accept ≠ id) (hg : g.accept ≠ id) :
    (a.modify id change).union f g = ((a.union f g).1, (a.union f g).2.modify id change) := by
  simp only [union, nextId_modify, add_add_modify ha hid, leave_modify hf, leave_modify hg,
    modify_modify (ha.ne_succ_nextId hid)]

theorem star_modify (hf : f.accept ≠ id) :
    (a.modify id change).star f = ((a.star f).1, (a.star f).2.modify id change) := by
  simp only [star, nextId_modify, add_add_modify ha hid, leave_modify hf]

theorem plus_modify (hf : f.accept ≠ id) :
    (a.modify id change).plus f = ((a.plus f).1, (a.plus f).2.modify id change) := by
  rw [plus_eq, star_modify ha hid hf, concat_modify hf, plus_eq]

theorem option_modify (hf : f.accept ≠ id) :
    (a.modify id change).option f = ((a.option f).1, (a.option f).2.modify id change) := by
  have hnothing : a.epsilon.1.accept ≠ id := (ha.ne_nextId hid).symm
  have hepsilon : id ∈ a.epsilon.2.states := mem_states_add.2 (.inr hid)
  simp only [option, epsilon_modify ha hid]
  exact union_modify (ha.add _) hepsilon hf hnothing

end Arena

namespace Pattern

variable {a : Arena} {f g : Fragment} {id : StateId} {change : NfaState → NfaState}

/-- The last state of the fragment of a pattern is new. -/
theorem accept_build_ne (p : Pattern) (ha : a.Dense) (hid : id ∈ a.states) :
    (p.build a).1.accept ≠ id := by
  rcases (grows_build p ha).accept_from with hnew | ⟨g, hg, -⟩
  · exact fun heq => hnew (heq ▸ hid)
  · cases hg

/-- Building the fragment of a pattern takes no notice of a change to a state. -/
theorem build_modify (p : Pattern) (ha : a.Dense) (hid : id ∈ a.states) :
    p.build (a.modify id change) = ((p.build a).1, (p.build a).2.modify id change) := by
  induction p generalizing a with
  | empty => exact Arena.epsilon_modify ha hid
  | literal x => exact Arena.oneOf_modify ha hid [x]
  | wildcard => exact Arena.oneOf_modify ha hid Symbol.wildcard
  | concat p q ihp ihq =>
    have hp := (grows_build p ha).extends_of
    simp only [build, ihp ha hid, ihq hp.dense (hp.mem_states id hid)]
    exact Arena.concat_modify (accept_build_ne p ha hid)
  | union p q ihp ihq =>
    have hp := (grows_build p ha).extends_of
    have hidp := hp.mem_states id hid
    have hq := (grows_build q hp.dense).extends_of
    simp only [build, ihp ha hid, ihq hp.dense hidp]
    exact Arena.union_modify hq.dense (hq.mem_states id hidp) (accept_build_ne p ha hid)
      (accept_build_ne q hp.dense hidp)
  | star p ih =>
    have hp := (grows_build p ha).extends_of
    simp only [build, ih ha hid]
    exact Arena.star_modify hp.dense (hp.mem_states id hid) (accept_build_ne p ha hid)
  | plus p ih =>
    have hp := (grows_build p ha).extends_of
    simp only [build, ih ha hid]
    exact Arena.plus_modify hp.dense (hp.mem_states id hid) (accept_build_ne p ha hid)
  | option p ih =>
    have hp := (grows_build p ha).extends_of
    simp only [build, ih ha hid]
    exact Arena.option_modify hp.dense (hp.mem_states id hid) (accept_build_ne p ha hid)

/-! ### Several patterns -/

/-- Builds the fragments of several patterns, one after another. -/
def buildEach : List Pattern → Arena → List Fragment × Arena
  | [], a => ([], a)
  | p :: ps, a =>
    let (f, a) := p.build a
    let (fs, a) := buildEach ps a
    (f :: fs, a)

theorem buildEach_modify (ps : List Pattern) (ha : a.Dense) (hid : id ∈ a.states) :
    buildEach ps (a.modify id change) =
      ((buildEach ps a).1, (buildEach ps a).2.modify id change) := by
  induction ps generalizing a with
  | nil => rfl
  | cons p ps ih =>
    have hp := (grows_build p ha).extends_of
    simp only [buildEach, build_modify p ha hid, ih hp.dense (hp.mem_states id hid)]

/-- Several fragments can be built as well before two others are put together. -/
theorem buildEach_concat (ps : List Pattern) (ha : a.Dense) (hf : f.accept ∈ a.states) :
    buildEach ps (a.concat f g).2 =
      ((buildEach ps a).1, ((buildEach ps a).2.concat f g).2) := buildEach_modify ps ha hf

/-- The fragment of a term is that of the fragments of its factors, which are all built before. -/
theorem build_concatAll (ps : List Pattern) (ha : a.Dense) :
    (concatAll ps).build a = (buildEach ps a).2.concatAll (buildEach ps a).1 := by
  cases ps with
  | nil => rfl
  | cons p ps =>
    induction ps generalizing p with
    | nil => rfl
    | cons q ps ih =>
      have hp := grows_build p ha
      have hq := (grows_build q hp.extends_of.dense).extends_of
      have hlater := buildEach_concat (g := (q.build (p.build a).2).1) ps hq.dense
        (hq.mem_states _ hp.accept_mem)
      rw [concatAll, List.foldl_cons]
      refine (ih (p.concat q)).trans ?_
      simp only [buildEach, build, hlater, Arena.concatAll_cons_cons]
      rfl

/-- The fragment of some parts followed by several patterns. The patterns are built before they are
put together with the parts. -/
def buildAfter (parts : List Fragment) (ps : List Pattern) (a : Arena) : Fragment × Arena :=
  (buildEach ps a).2.concatAll (parts ++ (buildEach ps a).1)

theorem buildAfter_nil (parts : List Fragment) : buildAfter parts [] a = a.concatAll parts := by
  rw [buildAfter, buildEach, List.append_nil]

theorem buildAfter_cons (parts : List Fragment) (p : Pattern) (ps : List Pattern) :
    buildAfter parts (p :: ps) a =
      buildAfter (parts ++ [(p.build a).1]) ps (p.build a).2 := by
  rw [buildAfter, buildAfter, List.append_assoc]
  rfl

end Pattern

end PatternMachines
