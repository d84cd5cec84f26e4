import PatternMachines.Proofs.Arena.Rules

/-!
# Trim fragments

A fragment is trim if each of its members lies on a path from its first to its last state. Then no
state of it is wasted: whatever a word leads to can still be left by an accepted word. The rules of
composition make trim fragments from trim parts, as they lead into each part and out of it.

## Main definitions

* `Joined`: the pairs of states with a path from the one to the other.
* `Arena.Trim`: trim fragments.

## Main results

* `Arena.Assembled.trim`: what is put together from trim parts is trim, if the edges that have been
  added lead into each part, out of it, and to and from the new states.
* `Arena.trim_oneOf`, `Arena.trim_epsilon`, `Arena.Trim.concat`, `Arena.Trim.union`,
  `Arena.Trim.star`, `Arena.Trim.plus`, `Arena.Trim.option`: the rules.
-/

namespace PatternMachines

open Std

/-- Whether there is a path from one state to another. -/
def Joined (t : StateTable) (p q : StateId) : Prop := ∃ w, Path t p w q

namespace Joined

variable {t t' : StateTable} {p q r : StateId} {label : Option Symbol}

theorem refl (t : StateTable) (p : StateId) : Joined t p p := ⟨[], .nil p⟩

theorem trans (h : Joined t p q) (h' : Joined t q r) : Joined t p r := by
  obtain ⟨u, hu⟩ := h
  obtain ⟨v, hv⟩ := h'
  exact ⟨u ++ v, hu.trans hv⟩

theorem of_edge (h : Edge t p label q) : Joined t p q := ⟨_, .of_edge h (.nil q)⟩

theorem mono (hsub : ∀ p label q, Edge t p label q → Edge t' p label q) (h : Joined t p q) :
    Joined t' p q := h.imp fun _ hw => hw.mono hsub

end Joined

namespace Arena

variable {a a' : Arena} {f g : Fragment} {S : Set StateId} {p : StateId} {symbols : List Symbol}

/-- Whether each member of a fragment lies on a path from its first to its last state. -/
structure Trim (a : Arena) (f : Fragment) : Prop where
  /-- The first state leads to each member. -/
  reached : ∀ p ∈ f.members, Joined a.states f.start p
  /-- Each member leads to the last state. -/
  leaves : ∀ p ∈ f.members, Joined a.states p f.accept

/-- An isolated fragment stays trim while its states are kept. -/
theorem Trim.of_extends (h : a.Trim f) (hf : a.Isolated f) (hext : a.Extends a' S)
    (hS : ∀ p ∈ f.members, p ∉ S) : a'.Trim f where
  reached p hp :=
    (h.reached p hp).imp fun _ hw => (hf.path_iff_of_extends hext hS hf.start_mem).2 hw
  leaves p hp := (h.leaves p hp).imp fun _ hw => (hf.path_iff_of_extends hext hS hp).2 hw

/-- What is put together from trim parts is trim, if the first state leads into each part and to the
new states, and from these there is a way to the last state. -/
theorem Assembled.trim {parts : List Fragment} (h : Assembled a a' parts f)
    (hparts : ∀ g ∈ parts, a.Trim g) (hentry : ∀ g ∈ parts, Joined a'.states f.start g.start)
    (hexit : ∀ g ∈ parts, Joined a'.states g.accept f.accept)
    (hnew : ∀ p ∈ a'.states, p ∉ a.states →
      Joined a'.states f.start p ∧ Joined a'.states p f.accept) : a'.Trim f where
  reached p hp := by
    rcases (h.mem_iff p).1 hp with ⟨g, hg, hpg⟩ | ⟨hp, hpnew⟩
    · exact (hentry g hg).trans (((hparts g hg).reached p hpg).mono h.keeps)
    · exact (hnew p hp hpnew).1
  leaves p hp := by
    rcases (h.mem_iff p).1 hp with ⟨g, hg, hpg⟩ | ⟨hp, hpnew⟩
    · exact (((hparts g hg).leaves p hpg).mono h.keeps).trans (hexit g hg)
    · exact (hnew p hp hpnew).2

/-! ### The rules -/

/-- The fragment of some symbols is trim. -/
theorem trim_oneOf (ha : a.Dense) (hsymbols : symbols ≠ []) :
    (a.oneOf symbols).2.Trim (a.oneOf symbols).1 := by
  obtain ⟨x, hx⟩ := List.exists_mem_of_ne_nil symbols hsymbols
  have hread : Joined (a.oneOf symbols).2.states a.nextId (a.nextId + 1) :=
    .of_edge ((edge_oneOf_iff ha).2 (.inr ⟨rfl, x, hx, rfl, rfl⟩))
  constructor
  · intro p hp
    rcases mem_members_oneOf.1 hp with rfl | rfl
    · exact .refl _ _
    · exact hread
  · intro p hp
    rcases mem_members_oneOf.1 hp with rfl | rfl
    · exact hread
    · exact .refl _ _

/-- The fragment that reads nothing is trim. -/
theorem trim_epsilon : a.epsilon.2.Trim a.epsilon.1 := by
  constructor
  · intro p hp
    obtain rfl := mem_members_epsilon.1 hp
    exact .refl _ _
  · intro p hp
    obtain rfl := mem_members_epsilon.1 hp
    exact .refl _ _

namespace Trim

/-- A trim fragment can be passed. -/
theorem passes (h : a.Trim f) (hf : a.Isolated f) : Joined a.states f.start f.accept :=
  h.leaves _ hf.start_mem

theorem concat (hf : a.Isolated f) (hg : a.Isolated g) (hfg : f.Disjoint g) (hftrim : a.Trim f)
    (hgtrim : a.Trim g) : (a.concat f g).2.Trim (a.concat f g).1 := by
  have hassembled := assembled_concat hf hg hfg
  have hbetween : Joined (a.concat f g).2.states f.accept g.start :=
    .of_edge ((edge_concat_iff hf.accept_mem_states).2 (.inr ⟨rfl, rfl, rfl⟩))
  have hpassf := (hftrim.passes hf).mono hassembled.keeps
  have hpassg := (hgtrim.passes hg).mono hassembled.keeps
  refine hassembled.trim ?_ ?_ ?_ fun p hp hnew => absurd (mem_states_concat.1 hp) hnew
  · simp [hftrim, hgtrim]
  · rw [List.forall_mem_cons, List.forall_mem_singleton]
    exact ⟨.refl _ _, hpassf.trans hbetween⟩
  · rw [List.forall_mem_cons, List.forall_mem_singleton]
    exact ⟨hbetween.trans hpassg, .refl _ _⟩

theorem union (ha : a.Dense) (hf : a.Isolated f) (hg : a.Isolated g) (hftrim : a.Trim f)
    (hgtrim : a.Trim g) : (a.union f g).2.Trim (a.union f g).1 := by
  have hassembled := assembled_union ha hf hg
  have hedge {p q : StateId} {label : Option Symbol} :
      Edge (a.union f g).2.states p label q ↔ _ :=
    edge_union_iff ha hf.accept_mem_states hg.accept_mem_states
  have hentry {q : StateId} (hq : q = f.start ∨ q = g.start) :
      Joined (a.union f g).2.states a.nextId q := .of_edge (hedge.2 (.inr ⟨rfl, .inl ⟨rfl, hq⟩⟩))
  have hexit {p : StateId} (hp : p = f.accept ∨ p = g.accept) :
      Joined (a.union f g).2.states p (a.nextId + 1) :=
    .of_edge (hedge.2 (.inr ⟨rfl, .inr ⟨hp, rfl⟩⟩))
  have hpass : Joined (a.union f g).2.states a.nextId (a.nextId + 1) :=
    ((hentry (.inl rfl)).trans ((hftrim.passes hf).mono hassembled.keeps)).trans (hexit (.inl rfl))
  refine hassembled.trim ?_ ?_ ?_ fun p hp hnew => ?_
  · simp [hftrim, hgtrim]
  · rw [List.forall_mem_cons, List.forall_mem_singleton]
    exact ⟨hentry (.inl rfl), hentry (.inr rfl)⟩
  · rw [List.forall_mem_cons, List.forall_mem_singleton]
    exact ⟨hexit (.inl rfl), hexit (.inr rfl)⟩
  · rcases (mem_new_iff ha).1 ⟨(mem_states_union ha).1 hp, hnew⟩ with rfl | rfl
    · exact ⟨.refl _ _, hpass⟩
    · exact ⟨hpass, .refl _ _⟩

theorem star (ha : a.Dense) (hf : a.Isolated f) (hftrim : a.Trim f) :
    (a.star f).2.Trim (a.star f).1 := by
  have hloops := loops_star ha hf.accept_mem_states
  have hpass : Joined (a.star f).2.states a.nextId (a.nextId + 1) :=
    .of_edge (hloops.passes _ _ (.inl rfl) (.inr rfl))
  refine (assembled_star ha hf).trim ?_ ?_ ?_ fun p hp hnew => ?_
  · simp [hftrim]
  · rw [List.forall_mem_singleton]
    exact .of_edge (hloops.passes _ _ (.inl rfl) (.inl rfl))
  · rw [List.forall_mem_singleton]
    exact .of_edge (hloops.passes _ _ (.inr rfl) (.inr rfl))
  · rcases (mem_new_iff ha).1 ⟨(mem_states_star ha).1 hp, hnew⟩ with rfl | rfl
    · exact ⟨.refl _ _, hpass⟩
    · exact ⟨hpass, .refl _ _⟩

/-- The first state of the second part is reached through the states of the first one. -/
theorem plus (ha : a.Dense) (hf : a.Isolated f) (hftrim : a.Trim f) :
    (a.plus f).2.Trim (a.plus f).1 := by
  have hloops := loops_plus ha hf.accept_mem_states
  have hassembled := assembled_plus ha hf
  have hpass := (hftrim.passes hf).mono hassembled.keeps
  have hexit {p : StateId} (hp : p = a.nextId ∨ p = f.accept) :
      Joined (a.plus f).2.states p (a.nextId + 1) := .of_edge (hloops.passes _ _ hp (.inr rfl))
  have hagain : Joined (a.plus f).2.states f.accept a.nextId :=
    .of_edge ((edge_plus_iff ha hf.accept_mem_states).2 (.inr ⟨rfl, .inr ⟨rfl, rfl⟩⟩))
  refine hassembled.trim ?_ ?_ ?_ fun p hp hnew => ?_
  · simp [hftrim]
  · rw [List.forall_mem_singleton]
    exact .refl _ _
  · rw [List.forall_mem_singleton]
    exact hexit (.inr rfl)
  · rcases (mem_new_iff ha).1 ⟨(mem_states_plus ha).1 hp, hnew⟩ with rfl | rfl
    · exact ⟨hpass.trans hagain, hexit (.inl rfl)⟩
    · exact ⟨hpass.trans (hexit (.inr rfl)), .refl _ _⟩

theorem option (ha : a.Dense) (hf : a.Isolated f) (hftrim : a.Trim f) :
    (a.option f).2.Trim (a.option f).1 := by
  have hkept : ∀ p ∈ f.members, p ∉ (∅ : Set StateId) := fun _ _ => Set.notMem_empty _
  have hext : a.Extends a.epsilon.2 ∅ := .add ha _
  exact union (ha.add _) (hf.of_extends hext hkept) (recognizes_epsilon ha).toIsolated
    (hftrim.of_extends hf hext hkept) trim_epsilon

end Trim

end Arena

end PatternMachines
