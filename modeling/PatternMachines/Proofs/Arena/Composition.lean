import PatternMachines.Proofs.Arena.Rules
import PatternMachines.Proofs.Pattern.Language

/-!
# Steps of composition

A step of composition applies one of the rules to the parts that the rule takes. This module says
what a step does to the whole arena, whatever its parts are, and what its fragment recognizes if the
parts are isolated and share no state.

## Main definitions

* `Composition`: the rules with their parts, `Composition.make` the fragment, and
  `Composition.pattern` the pattern that a rule stands for.
* `Arena.Grows`: what a step does to the arena.

## Main results

* `Composition.grows_make`: a step changes the last states of its parts only.
* `Composition.recognizes_make`: the fragment recognizes the language of the pattern.
-/

namespace PatternMachines

open Std Computability

/-- A rule of composition with its parts. -/
inductive Composition (α : Type) where
  /-- One symbol. -/
  | literal (x : Symbol)
  /-- Any symbol of the wildcard. -/
  | wildcard
  /-- The empty word. -/
  | epsilon
  /-- One part after another. -/
  | concat (f g : α)
  /-- One of two parts. -/
  | union (f g : α)
  /-- A part any number of times. -/
  | star (f : α)
  /-- A part once or more. -/
  | plus (f : α)
  /-- A part or nothing. -/
  | option (f : α)
  /-- Several parts one after another. -/
  | concatAll (fs : List α)

namespace Composition

variable {α β : Type}

/-- The parts, from the left. -/
def parts : Composition α → List α
  | .literal _ | .wildcard | .epsilon => []
  | .concat f g | .union f g => [f, g]
  | .star f | .plus f | .option f => [f]
  | .concatAll fs => fs

/-- The rule with other parts. -/
def map (h : α → β) : Composition α → Composition β
  | .literal x => .literal x
  | .wildcard => .wildcard
  | .epsilon => .epsilon
  | .concat f g => .concat (h f) (h g)
  | .union f g => .union (h f) (h g)
  | .star f => .star (h f)
  | .plus f => .plus (h f)
  | .option f => .option (h f)
  | .concatAll fs => .concatAll (fs.map h)

/-- The fragment of the rule. -/
def make : Composition Fragment → Arena → Fragment × Arena
  | .literal x, a => a.literal x
  | .wildcard, a => a.wildcard
  | .epsilon, a => a.epsilon
  | .concat f g, a => a.concat f g
  | .union f g, a => a.union f g
  | .star f, a => a.star f
  | .plus f, a => a.plus f
  | .option f, a => a.option f
  | .concatAll fs, a => a.concatAll fs

/-- The pattern of the rule. -/
def pattern : Composition Pattern → Pattern
  | .literal x => .literal x
  | .wildcard => .wildcard
  | .epsilon => .empty
  | .concat p q => .concat p q
  | .union p q => .union p q
  | .star p => .star p
  | .plus p => .plus p
  | .option p => .option p
  | .concatAll ps => .concatAll ps

theorem parts_map (h : α → β) (c : Composition α) : (c.map h).parts = c.parts.map h := by
  cases c with
  | literal | wildcard | epsilon | concat | union | star | plus | option | concatAll => rfl

theorem map_map {γ : Type} (h : β → γ) (g : α → β) (c : Composition α) :
    (c.map g).map h = c.map fun x => h (g x) := by
  cases c with
  | literal | wildcard | epsilon | concat | union | star | plus | option => rfl
  | concatAll fs => exact congrArg Composition.concatAll List.map_map

end Composition

namespace Arena

variable {a a' a'' : Arena} {f g : Fragment} {parts parts' : List Fragment} {id : StateId}

/-- What a step of composition does to an arena: of the states that there were, the last states of
the parts alone change, and the fragment has the members of the parts and new states. -/
structure Grows (a a' : Arena) (parts : List Fragment) (f : Fragment) : Prop where
  /-- Other states are kept. -/
  extends_of : a.Extends a' {id | ∃ g ∈ parts, id = g.accept}
  /-- Members are members of the parts or new. -/
  members : ∀ id ∈ f.members, (∃ g ∈ parts, id ∈ g.members) ∨ id ∉ a.states
  /-- The last state is a state. -/
  accept_mem : f.accept ∈ a'.states
  /-- The last state is the last state of a part or new. -/
  accept_from : f.accept ∉ a.states ∨ ∃ g ∈ parts, f.accept = g.accept

theorem Grows.mono (h : a.Grows a' parts f) (hparts : ∀ g ∈ parts, g ∈ parts') :
    a.Grows a' parts' f where
  extends_of := h.extends_of.mono fun _ _ ⟨g, hg, heq⟩ => ⟨g, hparts g hg, heq⟩
  members id hid := (h.members id hid).imp_left fun ⟨g, hg, hidg⟩ => ⟨g, hparts g hg, hidg⟩
  accept_mem := h.accept_mem
  accept_from := h.accept_from.imp_right fun ⟨g, hg, heq⟩ => ⟨g, hparts g hg, heq⟩

/-- A step that takes the fragment of an earlier step does what both steps do. -/
theorem Grows.trans (h : a.Grows a' parts f) (h' : a'.Grows a'' (f :: parts') g) :
    a.Grows a'' (parts ++ parts') g := by
  refine ⟨(h.extends_of.trans h'.extends_of).mono ?_, fun id hid => ?_, h'.accept_mem, ?_⟩
  · rintro p hp (⟨k, hk, rfl⟩ | ⟨k, hk, rfl⟩)
    · exact ⟨k, List.mem_append_left _ hk, rfl⟩
    · rcases List.mem_cons.1 hk with rfl | hk
      · obtain ⟨k, hk, heq⟩ := h.accept_from.resolve_left (not_not_intro hp)
        exact ⟨k, List.mem_append_left _ hk, heq⟩
      · exact ⟨k, List.mem_append_right _ hk, rfl⟩
  · rcases h'.members id hid with ⟨k, hk, hidk⟩ | hnew
    · rcases List.mem_cons.1 hk with rfl | hk
      · exact (h.members id hidk).imp_left fun ⟨k, hk, hidk⟩ => ⟨k, List.mem_append_left _ hk, hidk⟩
      · exact .inl ⟨k, List.mem_append_right _ hk, hidk⟩
    · exact .inr fun hold => hnew (h.extends_of.mem_states id hold)
  · rcases h'.accept_from with hnew | ⟨k, hk, heq⟩
    · exact .inl fun hold => hnew (h.extends_of.mem_states _ hold)
    · rw [heq]
      rcases List.mem_cons.1 hk with rfl | hk
      · exact h.accept_from.imp_right fun ⟨k, hk, heq⟩ => ⟨k, List.mem_append_left _ hk, heq⟩
      · exact .inr ⟨k, List.mem_append_right _ hk, rfl⟩

/-- A fragment outlives a step that takes no part with a last state in it. -/
theorem Recognizes.of_grows {L : Language Symbol} (h : a.Recognizes f L)
    (hgrows : a.Grows a' parts g) (hparts : ∀ k ∈ parts, k.accept ∉ f.members) :
    a'.Recognizes f L :=
  h.of_extends hgrows.extends_of fun _ hp ⟨k, hk, heq⟩ => hparts k hk (heq ▸ hp)

/-- The fragment of a step shares states with no fragment that shared none with the parts. -/
theorem Grows.disjoint (h : a.Grows a' parts f) (hg : ∀ id ∈ g.members, id ∈ a.states)
    (hparts : ∀ k ∈ parts, k.Disjoint g) : f.Disjoint g := by
  intro id hid hidg
  rcases h.members id hid with ⟨k, hk, hidk⟩ | hnew
  · exact hparts k hk id hidk hidg
  · exact hnew (hg id hidg)

theorem Extends.leave (ha : a.Dense) (last : StateId) (targets : List StateId) :
    a.Extends (a.leave last targets) {last} := .modify ha _ _

theorem grows_oneOf (ha : a.Dense) (symbols : List Symbol) :
    a.Grows (a.oneOf symbols).2 [] (a.oneOf symbols).1 where
  extends_of := ((Extends.add ha _).trans (.add (ha.add _) _)).mono fun _ _ h => by simp at h
  members id hid := by
    rcases mem_ofList_pair.1 hid with rfl | rfl
    · exact .inr ha.nextId_not_mem
    · exact .inr ha.succ_nextId_not_mem
  accept_mem := (mem_states_oneOf ha).2 (.inl rfl)
  accept_from := .inl ha.succ_nextId_not_mem

theorem grows_epsilon (ha : a.Dense) : a.Grows a.epsilon.2 [] a.epsilon.1 where
  extends_of := (Extends.add ha _).mono fun _ _ h => by simp at h
  members id hid := .inr (mem_members_epsilon.1 hid ▸ ha.nextId_not_mem)
  accept_mem := mem_states_add.2 (.inl rfl)
  accept_from := .inl ha.nextId_not_mem

theorem grows_concat (ha : a.Dense) (hg : g.accept ∈ a.states) :
    a.Grows (a.concat f g).2 [f, g] (a.concat f g).1 where
  extends_of := (Extends.leave ha _ _).mono fun p _ hp => ⟨f, List.mem_cons_self, hp⟩
  members id hid := .inl (by
    rcases ExtTreeSet.mem_union_iff.1 hid with hid | hid
    · exact ⟨f, by simp, hid⟩
    · exact ⟨g, by simp, hid⟩)
  accept_mem := mem_states_concat.2 hg
  accept_from := .inr ⟨g, by simp, rfl⟩

theorem grows_union (ha : a.Dense) : a.Grows (a.union f g).2 [f, g] (a.union f g).1 where
  extends_of := by
    have hadded := (Extends.add ha { silent := .ofList [f.start, g.start] }).trans
      (.add (ha.add _) {})
    have hleft := hadded.trans (.leave hadded.dense f.accept [a.nextId + 1])
    have hright := hleft.trans (.leave hleft.dense g.accept [a.nextId + 1])
    refine (hright.trans (.modify hright.dense (a.nextId + 1) _)).mono fun p hp h => ?_
    rcases h with (((h | h) | rfl) | rfl) | rfl
    · exact absurd h (Set.notMem_empty _)
    · exact absurd h (Set.notMem_empty _)
    · exact ⟨f, by simp, rfl⟩
    · exact ⟨g, by simp, rfl⟩
    · exact absurd hp ha.succ_nextId_not_mem
  members id hid := by
    rcases mem_members_union.1 hid with rfl | rfl | hid | hid
    · exact .inr ha.nextId_not_mem
    · exact .inr ha.succ_nextId_not_mem
    · exact .inl ⟨f, by simp, hid⟩
    · exact .inl ⟨g, by simp, hid⟩
  accept_mem := (mem_states_union ha).2 (.inl rfl)
  accept_from := .inl ha.succ_nextId_not_mem

theorem grows_star (ha : a.Dense) : a.Grows (a.star f).2 [f] (a.star f).1 where
  extends_of := by
    have hadded := (Extends.add ha { silent := .ofList [f.start, a.nextId + 1] }).trans
      (.add (ha.add _) { accepting := true })
    refine (hadded.trans (.leave hadded.dense f.accept [f.start, a.nextId + 1])).mono ?_
    rintro p - ((h | h) | rfl)
    · exact absurd h (Set.notMem_empty _)
    · exact absurd h (Set.notMem_empty _)
    · exact ⟨f, by simp, rfl⟩
  members id hid := by
    rcases mem_members_star.1 hid with rfl | rfl | hid
    · exact .inr ha.nextId_not_mem
    · exact .inr ha.succ_nextId_not_mem
    · exact .inl ⟨f, by simp, hid⟩
  accept_mem := (mem_states_star ha).2 (.inl rfl)
  accept_from := .inl ha.succ_nextId_not_mem

theorem grows_plus (ha : a.Dense) : a.Grows (a.plus f).2 [f] (a.plus f).1 := by
  have hstar := grows_star (f := f) ha
  have hconcat := grows_concat (f := f) hstar.extends_of.dense hstar.accept_mem
  have hagain : (a.star f).2.Grows (a.plus f).2 [(a.star f).1, f] (a.plus f).1 :=
    hconcat.mono (by simp)
  exact (hstar.trans hagain).mono (by simp)

theorem grows_option (ha : a.Dense) : a.Grows (a.option f).2 [f] (a.option f).1 := by
  have hepsilon := grows_epsilon ha
  have hunion := grows_union (f := f) (g := a.epsilon.1) hepsilon.extends_of.dense
  exact hepsilon.trans (hunion.mono (by simp))

/-! ### Several fragments one after another -/

theorem concatAll_cons_cons (f g : Fragment) (fs : List Fragment) :
    a.concatAll (f :: g :: fs) = (a.concat f g).2.concatAll ((a.concat f g).1 :: fs) := rfl

theorem grows_concatAll (ha : a.Dense) {fs : List Fragment}
    (hfs : ∀ g ∈ fs, g.accept ∈ a.states) :
    a.Grows (a.concatAll fs).2 fs (a.concatAll fs).1 := by
  cases fs with
  | nil => exact grows_epsilon ha
  | cons f fs =>
    induction fs generalizing f a with
    | nil =>
      have hf : f.accept ∈ a.states := hfs f (by simp)
      exact ⟨.refl ha, fun id hid => .inl ⟨f, by simp, hid⟩, hf, .inr ⟨f, by simp, rfl⟩⟩
    | cons g fs ih =>
      have hconcat := grows_concat (f := f) ha (hfs g (by simp))
      rw [concatAll_cons_cons]
      refine hconcat.trans (ih hconcat.extends_of.dense _ fun h hh => ?_)
      rcases List.mem_cons.1 hh with rfl | hh
      · exact hconcat.accept_mem
      · exact hconcat.extends_of.mem_states _ (hfs h (by simp [hh]))

/-- Several fragments one after another recognize the product of their languages. -/
theorem recognizes_concatAll (ha : a.Dense) (es : List (Language Symbol × Fragment))
    (hes : ∀ e ∈ es, a.Recognizes e.2 e.1)
    (hdisjoint : es.Pairwise fun e e' => e.2.Disjoint e'.2) :
    (a.concatAll (es.map Prod.snd)).2.Recognizes (a.concatAll (es.map Prod.snd)).1
      (es.map Prod.fst).prod := by
  cases es with
  | nil => exact recognizes_epsilon ha
  | cons e es =>
    induction es generalizing e a with
    | nil => simpa [concatAll] using hes
    | cons e' es ih =>
      rw [List.pairwise_cons, List.pairwise_cons] at hdisjoint
      obtain ⟨he, he', hes'⟩ := hdisjoint
      rw [List.forall_mem_cons, List.forall_mem_cons] at hes
      obtain ⟨hre, hre', hres⟩ := hes
      have hgrows := grows_concat (f := e.2) (g := e'.2) ha hre'.accept_mem_states
      have houtside (k : Language Symbol × Fragment) (hk : k ∈ es) :
          ∀ g ∈ [e.2, e'.2], g.accept ∈ g.members ∧ g.Disjoint k.2 := by
        simp only [List.forall_mem_cons]
        exact ⟨⟨hre.accept_mem, he k (by simp [hk])⟩, ⟨hre'.accept_mem, he' k hk⟩, by simp⟩
      have hrest := ih (e := (e.1 * e'.1, (a.concat e.2 e'.2).1)) hgrows.extends_of.dense ?_ ?_
      · rw [List.map_cons, List.map_cons, concatAll_cons_cons]
        rw [List.map_cons, List.map_cons, List.prod_cons, List.prod_cons, ← mul_assoc]
        rwa [List.map_cons, List.map_cons, List.prod_cons] at hrest
      · rw [List.forall_mem_cons]
        refine ⟨hre.concat hre' (he e' (by simp)), fun k hk => ?_⟩
        refine (hres k hk).of_grows hgrows fun g hg => ?_
        exact (houtside k hk g hg).2 _ (houtside k hk g hg).1
      · rw [List.pairwise_cons]
        refine ⟨fun k hk => ?_, hes'⟩
        exact hgrows.disjoint (hres k hk).mem_states fun g hg => (houtside k hk g hg).2

end Arena

namespace Composition

open Arena

variable {a : Arena}

/-- A step changes the last states of its parts only, whatever the parts are. -/
theorem grows_make (c : Composition Fragment) (ha : a.Dense)
    (hparts : ∀ f ∈ c.parts, f.accept ∈ a.states) :
    a.Grows (c.make a).2 c.parts (c.make a).1 := by
  cases c with
  | literal x => exact grows_oneOf ha [x]
  | wildcard => exact grows_oneOf ha Symbol.wildcard
  | epsilon => exact grows_epsilon ha
  | concat f g => exact grows_concat ha (hparts g (by simp [parts]))
  | union f g => exact grows_union ha
  | star f => exact grows_star ha
  | plus f => exact grows_plus ha
  | option f => exact grows_option ha
  | concatAll fs => exact grows_concatAll ha hparts

/-- The fragment of a step recognizes the language of its pattern, if the parts recognize those of
their patterns and share no states. -/
theorem recognizes_make (c : Composition (Pattern × Fragment)) (ha : a.Dense)
    (hparts : ∀ e ∈ c.parts, a.Recognizes e.2 e.1.language)
    (hdisjoint : c.parts.Pairwise fun e e' => e.2.Disjoint e'.2) :
    ((c.map Prod.snd).make a).2.Recognizes ((c.map Prod.snd).make a).1
      (c.map Prod.fst).pattern.language := by
  cases c with
  | literal x =>
    have hlanguage : ({w | ∃ y ∈ [x], w = [y]} : Language Symbol) = {[x]} := by
      ext w
      simp
    have hone := recognizes_oneOf ha [x]
    rw [hlanguage] at hone
    exact hone
  | wildcard => exact recognizes_oneOf ha Symbol.wildcard
  | epsilon => exact recognizes_epsilon ha
  | concat e e' =>
    simp only [parts, List.forall_mem_cons] at hparts
    exact hparts.1.concat hparts.2.1 (List.rel_of_pairwise_cons hdisjoint (by simp))
  | union e e' =>
    simp only [parts, List.forall_mem_cons] at hparts
    exact hparts.1.union ha hparts.2.1 (List.rel_of_pairwise_cons hdisjoint (by simp))
  | star e => exact (hparts e (by simp [parts])).star ha
  | plus e => exact (hparts e (by simp [parts])).plus ha
  | option e => exact (hparts e (by simp [parts])).option ha
  | concatAll es =>
    have hall := recognizes_concatAll ha (es.map fun e => (e.1.language, e.2)) ?_ ?_
    · rw [List.map_map, List.map_map] at hall
      rw [map, map, pattern, Pattern.language_concatAll, List.map_map]
      exact hall
    · rw [List.forall_mem_map]
      exact hparts
    · rw [List.pairwise_map]
      exact hdisjoint

end Composition

end PatternMachines
