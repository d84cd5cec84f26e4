import PatternMachines.Proofs.Arena.Session

/-!
# Sessions cover their arenas

No state of an arena is lost. The fragment of a step has all members of its parts and all states
that the step has created, so that every state is a member of a fragment that is live or one of the
others. While there are no others, the states with the accepting flag are the last states of the
live fragments.

## Main definitions

* `Arena.Gathers`: steps whose fragment has all that it can have.

## Main results

* `Composition.gathers_make`: the fragments of the rules.
* `Session.covers`: every state belongs to a fragment.
* `Session.mem_acceptingStates_iff`: the states with the accepting flag.
-/

namespace PatternMachines

open Std

namespace Arena

variable {a a' a'' : Arena} {f g : Fragment} {parts parts' : List Fragment} {id : StateId}

theorem mem_acceptingStates : id ∈ a.acceptingStates ↔ a.AcceptsAt id := by
  simp [acceptingStates, AcceptsAt, ExtTreeSet.mem_ofList,
    ExtTreeMap.mem_toList_iff_getElem?_eq_some]

/-- Whether the fragment of a step has all members of its parts and all new states. -/
structure Gathers (a a' : Arena) (parts : List Fragment) (f : Fragment) : Prop where
  /-- The members of the parts are members. -/
  members : ∀ g ∈ parts, ∀ id ∈ g.members, id ∈ f.members
  /-- New states are members. -/
  mem_or : ∀ id ∈ a'.states, id ∈ a.states ∨ id ∈ f.members

namespace Gathers

theorem mono (h : a.Gathers a' parts f) (hparts : ∀ g ∈ parts', g ∈ parts) :
    a.Gathers a' parts' f := ⟨fun g hg => h.members g (hparts g hg), h.mem_or⟩

/-- A step that takes the fragment of an earlier step gathers what both steps do. -/
theorem trans (h : a.Gathers a' parts f) (h' : a'.Gathers a'' (f :: parts') g) :
    a.Gathers a'' (parts ++ parts') g := by
  have hf : ∀ id ∈ f.members, id ∈ g.members := h'.members f List.mem_cons_self
  constructor
  · intro k hk id hid
    rcases List.mem_append.1 hk with hk | hk
    · exact hf id (h.members k hk id hid)
    · exact h'.members k (List.mem_cons_of_mem f hk) id hid
  · intro id hid
    rcases h'.mem_or id hid with hid | hid
    · exact (h.mem_or id hid).imp_right (hf id)
    · exact .inr hid

end Gathers

/-! ### The rules -/

theorem gathers_oneOf (ha : a.Dense) (symbols : List Symbol) :
    a.Gathers (a.oneOf symbols).2 [] (a.oneOf symbols).1 := by
  refine ⟨List.forall_mem_nil _, fun id hid => ?_⟩
  rw [mem_members_oneOf]
  rcases (mem_states_oneOf ha).1 hid with hid | hid | hid
  · exact .inr (.inr hid)
  · exact .inr (.inl hid)
  · exact .inl hid

theorem gathers_epsilon : a.Gathers a.epsilon.2 [] a.epsilon.1 := by
  refine ⟨List.forall_mem_nil _, fun id hid => ?_⟩
  rw [mem_members_epsilon]
  exact (mem_states_add.1 hid).symm

theorem gathers_concat : a.Gathers (a.concat f g).2 [f, g] (a.concat f g).1 := by
  refine ⟨?_, fun id hid => .inl (mem_states_concat.1 hid)⟩
  rw [List.forall_mem_cons, List.forall_mem_singleton]
  exact ⟨fun id hid => ExtTreeSet.mem_union_iff.2 (.inl hid),
    fun id hid => ExtTreeSet.mem_union_iff.2 (.inr hid)⟩

theorem gathers_union (ha : a.Dense) : a.Gathers (a.union f g).2 [f, g] (a.union f g).1 := by
  constructor
  · rw [List.forall_mem_cons, List.forall_mem_singleton]
    exact ⟨fun id hid => mem_members_union.2 (.inr (.inr (.inl hid))),
      fun id hid => mem_members_union.2 (.inr (.inr (.inr hid)))⟩
  · intro id hid
    rw [mem_members_union]
    rcases (mem_states_union ha).1 hid with hid | hid | hid
    · exact .inr (.inr (.inl hid))
    · exact .inr (.inl hid)
    · exact .inl hid

theorem gathers_star (ha : a.Dense) : a.Gathers (a.star f).2 [f] (a.star f).1 := by
  constructor
  · rw [List.forall_mem_singleton]
    exact fun id hid => mem_members_star.2 (.inr (.inr hid))
  · intro id hid
    rw [mem_members_star]
    rcases (mem_states_star ha).1 hid with hid | hid | hid
    · exact .inr (.inr (.inl hid))
    · exact .inr (.inl hid)
    · exact .inl hid

theorem gathers_plus (ha : a.Dense) : a.Gathers (a.plus f).2 [f] (a.plus f).1 := by
  have hagain : (a.star f).2.Gathers (a.plus f).2 [(a.star f).1, f] (a.plus f).1 :=
    (gathers_concat (f := f) (g := (a.star f).1)).mono (by simp [or_comm])
  exact ((gathers_star ha).trans hagain).mono (by simp)

theorem gathers_option (ha : a.Dense) : a.Gathers (a.option f).2 [f] (a.option f).1 := by
  have hunion : a.epsilon.2.Gathers (a.option f).2 [f, a.epsilon.1] (a.option f).1 :=
    gathers_union (ha.add _)
  exact gathers_epsilon.trans (hunion.mono (by simp))

theorem gathers_concatAll (fs : List Fragment) :
    a.Gathers (a.concatAll fs).2 fs (a.concatAll fs).1 := by
  cases fs with
  | nil => exact gathers_epsilon
  | cons f fs =>
    induction fs generalizing f a with
    | nil =>
      refine ⟨?_, fun id hid => .inl hid⟩
      rw [List.forall_mem_singleton]
      exact fun id hid => hid
    | cons g fs ih =>
      rw [concatAll_cons_cons]
      exact gathers_concat.trans (ih _)

end Arena

/-- The fragment of a step has all members of its parts and all new states. -/
theorem Composition.gathers_make {a : Arena} (c : Composition Fragment) (ha : a.Dense) :
    a.Gathers (c.make a).2 c.parts (c.make a).1 := by
  cases c with
  | literal x => exact Arena.gathers_oneOf ha [x]
  | wildcard => exact Arena.gathers_oneOf ha Symbol.wildcard
  | epsilon => exact Arena.gathers_epsilon
  | concat f g => exact Arena.gathers_concat
  | union f g => exact Arena.gathers_union ha
  | star f => exact Arena.gathers_star ha
  | plus f => exact Arena.gathers_plus ha
  | option f => exact Arena.gathers_option ha
  | concatAll fs => exact Arena.gathers_concatAll fs

namespace Session

variable {a : Arena} {live : List (Pattern × Fragment)} {others : List Fragment} {id : StateId}

/-- No session loses a state. -/
theorem covers (h : Session a live others) :
    ∀ id ∈ a.states, (∃ e ∈ live, id ∈ e.2.members) ∨ ∃ g ∈ others, id ∈ g.members := by
  induction h with
  | new => simp
  | @make a live rest others c h hlive ih =>
    have hgathers := (c.map Prod.snd).gathers_make h.sound.dense
    intro id hid
    rcases hgathers.mem_or id hid with hid | hid
    · refine (ih id hid).imp_left ?_
      rintro ⟨e, he, hide⟩
      rcases List.mem_append.1 (hlive.mem_iff.1 he) with he | he
      · have hpart : e.2 ∈ (c.map Prod.snd).parts := by
          rw [Composition.parts_map]
          exact List.mem_map_of_mem he
        exact ⟨_, List.mem_cons_self, hgathers.members e.2 hpart id hide⟩
      · exact ⟨e, List.mem_cons_of_mem _ he, hide⟩
    · exact .inl ⟨_, List.mem_cons_self, hid⟩
  | @makeOther a live others c h hparts ih =>
    have hgathers := c.gathers_make h.sound.dense
    intro id hid
    rcases hgathers.mem_or id hid with hid | hid
    · refine (ih id hid).imp_right ?_
      rintro ⟨g, hg, hidg⟩
      exact ⟨g, List.mem_cons_of_mem _ hg, hidg⟩
    · exact .inr ⟨_, List.mem_cons_self, hid⟩
  | @release a live rest others e h hlive ih =>
    intro id hid
    rcases ih id hid with ⟨k, hk, hidk⟩ | ⟨g, hg, hidg⟩
    · rcases List.mem_cons.1 (hlive.mem_iff.1 hk) with rfl | hk
      · exact .inr ⟨k.2, List.mem_cons_self, hidk⟩
      · exact .inl ⟨k, hk, hidk⟩
    · exact .inr ⟨g, List.mem_cons_of_mem _ hg, hidg⟩

/-- Without other fragments, every state belongs to a live one. -/
theorem exists_mem_members (h : Session a live []) (hid : id ∈ a.states) :
    ∃ e ∈ live, id ∈ e.2.members := by
  rcases h.covers id hid with he | ⟨g, hg, -⟩
  · exact he
  · cases hg

/-- Without other fragments, the last states of the live ones have the accepting flag and no other
states have it. -/
theorem mem_acceptingStates_iff (h : Session a live []) :
    id ∈ a.acceptingStates ↔ ∃ e ∈ live, id = e.2.accept := by
  rw [Arena.mem_acceptingStates]
  constructor
  · intro hid
    obtain ⟨e, he, hide⟩ := h.exists_mem_members hid.mem_states
    exact ⟨e, he, ((h.sound.recognizes e he).acceptsAt_iff id hide).1 hid⟩
  · rintro ⟨e, he, rfl⟩
    have hisolated := (h.sound.recognizes e he).toIsolated
    exact (hisolated.acceptsAt_iff _ hisolated.accept_mem).2 rfl

/-- The automaton of the only fragment has all states of the arena. -/
theorem states_toNfa {e : Pattern × Fragment} (h : Session a [e] []) :
    (a.toNfa e.2).states = a.states := by
  refine ExtTreeMap.ext_getElem? fun id => Option.ext fun s => ?_
  rw [Arena.getElem?_toNfa_eq_some_iff]
  refine and_iff_right_of_imp fun hs => ?_
  have hid : id ∈ a.states := by
    rw [ExtTreeMap.mem_iff_isSome_getElem?, hs, Option.isSome_some]
  obtain ⟨k, hk, hidk⟩ := h.exists_mem_members hid
  rwa [List.mem_singleton.1 hk] at hidk

end Session

end PatternMachines
