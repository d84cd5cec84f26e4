import PatternMachines.Proofs.Arena.Isolation

/-!
# The rules of composition

Each rule of composition makes an isolated fragment from isolated parts that share no state, and the
fragment recognizes the language that the rule stands for. Nothing is asked of the edges at the
first and last states of the parts. A path that leaves the last state of a part by a new edge may
later come back, and the languages given to the states in the proofs say what it can read from
there on.

## Main results

* `Arena.recognizes_oneOf`, `Arena.recognizes_epsilon`: the rules without parts.
* `Arena.Recognizes.concat`, `Arena.Recognizes.union`, `Arena.Recognizes.star`,
  `Arena.Recognizes.plus`, `Arena.Recognizes.option`: the rules with parts.
-/

namespace PatternMachines.Arena

open Std Computability

variable {a : Arena} {f g : Fragment} {L M : Language Symbol} {p q id : StateId}
  {label : Option Symbol} {w : List Symbol} {symbols : List Symbol}

theorem nextId_ne_succ : a.nextId ≠ a.nextId + 1 := Int.ne_of_lt (Int.lt_succ _)

theorem Dense.succ_nextId_not_mem (ha : a.Dense) : a.nextId + 1 ∉ a.states := by
  intro h
  exact Int.lt_irrefl _ (Int.lt_trans ((ha _).1 h).2 (Int.lt_succ _))

theorem Dense.ne_nextId (ha : a.Dense) (hp : p ∈ a.states) : p ≠ a.nextId :=
  fun h => ha.nextId_not_mem (h ▸ hp)

theorem Dense.ne_succ_nextId (ha : a.Dense) (hp : p ∈ a.states) : p ≠ a.nextId + 1 :=
  fun h => ha.succ_nextId_not_mem (h ▸ hp)

theorem mem_new_iff (ha : a.Dense) :
    (id = a.nextId + 1 ∨ id = a.nextId ∨ id ∈ a.states) ∧ id ∉ a.states ↔
      id = a.nextId ∨ id = a.nextId + 1 := by
  constructor
  · rintro ⟨h | h | h, hid⟩
    · exact .inr h
    · exact .inl h
    · exact absurd h hid
  · rintro (rfl | rfl)
    · exact ⟨.inr (.inl rfl), ha.nextId_not_mem⟩
    · exact ⟨.inl rfl, ha.succ_nextId_not_mem⟩

@[simp]
theorem mem_ofList_pair {i j : StateId} :
    id ∈ (ExtTreeSet.ofList [i, j] : StateSet) ↔ id = i ∨ id = j := by
  simp [ExtTreeSet.mem_ofList]

/-! ### Fragments without parts -/

theorem mem_states_oneOf (ha : a.Dense) :
    id ∈ (a.oneOf symbols).2.states ↔ id = a.nextId + 1 ∨ id = a.nextId ∨ id ∈ a.states := by
  rw [oneOf, mem_states_add, mem_states_add, nextId_add ha]

theorem edge_oneOf_iff (ha : a.Dense) :
    Edge (a.oneOf symbols).2.states p label q ↔ Edge a.states p label q ∨
      (p = a.nextId ∧ ∃ x ∈ symbols, label = some x ∧ q = a.nextId + 1) := by
  rw [oneOf, edge_add_iff (ha.add _), edge_add_iff ha, NfaState.leads_foldl_addEdge]
  simp

theorem acceptsAt_oneOf_iff (ha : a.Dense) :
    (a.oneOf symbols).2.AcceptsAt id ↔ a.AcceptsAt id ∨ id = a.nextId + 1 := by
  have hfirst (s : NfaState) : (symbols.foldl (fun s x => NfaState.addEdge s x (a.nextId + 1))
      s).accepting = s.accepting := by
    induction symbols generalizing s with
    | nil => rfl
    | cons x symbols ih => exact ih _
  rw [oneOf, acceptsAt_add_iff (ha.add _), acceptsAt_add_iff ha, nextId_add ha, hfirst]
  simp

theorem mem_members_oneOf : id ∈ (a.oneOf symbols).1.members ↔
    id = a.nextId ∨ id = a.nextId + 1 := mem_ofList_pair

theorem not_mem_states_of_oneOf (ha : a.Dense) (hid : id ∈ (a.oneOf symbols).1.members) :
    id ∉ a.states := by
  rcases mem_members_oneOf.1 hid with rfl | rfl
  · exact ha.nextId_not_mem
  · exact ha.succ_nextId_not_mem

/-- The edges from the states of the fragment of some symbols. -/
theorem edge_oneOf_members_iff (ha : a.Dense) (hp : p ∈ (a.oneOf symbols).1.members) :
    Edge (a.oneOf symbols).2.states p label q ↔
      p = a.nextId ∧ ∃ x ∈ symbols, label = some x ∧ q = a.nextId + 1 := by
  have hold : ¬Edge a.states p label q := fun h =>
    not_mem_states_of_oneOf ha hp (mem_states_of_edge h)
  rw [edge_oneOf_iff ha, or_iff_right hold]

theorem isolated_oneOf (ha : a.Dense) (symbols : List Symbol) :
    (a.oneOf symbols).2.Isolated (a.oneOf symbols).1 where
  start_mem := mem_members_oneOf.2 (.inl rfl)
  accept_mem := mem_members_oneOf.2 (.inr rfl)
  mem_states p hp := by
    rcases mem_members_oneOf.1 hp with rfl | rfl
    · exact (mem_states_oneOf ha).2 (.inr (.inl rfl))
    · exact (mem_states_oneOf ha).2 (.inl rfl)
  closed p hp label q h := by
    obtain ⟨-, x, -, -, rfl⟩ := (edge_oneOf_members_iff ha hp).1 h
    exact mem_members_oneOf.2 (.inr rfl)
  acceptsAt_iff p hp := by
    have hold : ¬a.AcceptsAt p := fun h => not_mem_states_of_oneOf ha hp h.mem_states
    rw [acceptsAt_oneOf_iff ha, or_iff_right hold]
    exact Iff.rfl
  mem_alphabet_iff x := by
    have hx : x ∈ (a.oneOf symbols).1.alphabet ↔ x ∈ symbols := by
      simp [oneOf, ExtTreeSet.mem_ofList]
    rw [hx]
    constructor
    · intro hx
      have hp : a.nextId ∈ (a.oneOf symbols).1.members := mem_members_oneOf.2 (.inl rfl)
      exact ⟨a.nextId, hp, a.nextId + 1, (edge_oneOf_members_iff ha hp).2 ⟨rfl, x, hx, rfl, rfl⟩⟩
    · rintro ⟨p, hp, q, h⟩
      obtain ⟨-, y, hy, hxy, -⟩ := (edge_oneOf_members_iff ha hp).1 h
      obtain rfl := Option.some_inj.1 hxy
      exact hy

/-- The fragment of some symbols recognizes the words of one of them. -/
theorem recognizes_oneOf (ha : a.Dense) (symbols : List Symbol) :
    (a.oneOf symbols).2.Recognizes (a.oneOf symbols).1 {w | ∃ x ∈ symbols, w = [x]} := by
  have hfirst : a.nextId ∈ (a.oneOf symbols).1.members := mem_members_oneOf.2 (.inl rfl)
  have hlast : a.nextId + 1 ∈ (a.oneOf symbols).1.members := mem_members_oneOf.2 (.inr rfl)
  refine ⟨isolated_oneOf ha symbols, fun w => ⟨fun h => ?_, ?_⟩⟩
  · have hresidual := h.mem_of_residual (fun p => {w | (p = a.nextId → ∃ x ∈ symbols, w = [x]) ∧
      (p = a.nextId + 1 → w = [])}) ⟨fun h => absurd h.symm nextId_ne_succ, fun _ => rfl⟩ ?_
    · exact hresidual.1 rfl
    · rintro p label q h w ⟨-, hwlast⟩
      constructor
      · rintro rfl
        obtain ⟨-, x, hx, rfl, rfl⟩ := (edge_oneOf_members_iff ha hfirst).1 h
        exact ⟨x, hx, by rw [hwlast rfl]; rfl⟩
      · rintro rfl
        obtain ⟨hp, -⟩ := (edge_oneOf_members_iff ha hlast).1 h
        exact absurd hp.symm nextId_ne_succ
  · rintro ⟨x, hx, rfl⟩
    exact .of_read ((edge_oneOf_members_iff ha hfirst).2 ⟨rfl, x, hx, rfl, rfl⟩)

theorem mem_members_epsilon : id ∈ a.epsilon.1.members ↔ id = a.nextId := by
  simpa [epsilon] using eq_comm

/-- The fragment that reads nothing recognizes the empty word. -/
theorem recognizes_epsilon (ha : a.Dense) : a.epsilon.2.Recognizes a.epsilon.1 1 := by
  have hedge {q : StateId} {label : Option Symbol} :
      ¬Edge a.epsilon.2.states a.nextId label q := by
    rw [epsilon, edge_add_iff ha]
    rintro (h | ⟨-, h⟩)
    · exact ha.nextId_not_mem (mem_states_of_edge h)
    · exact NfaState.not_leads_empty h
  refine ⟨⟨mem_members_epsilon.2 rfl, mem_members_epsilon.2 rfl, ?_, ?_, ?_, ?_⟩, ?_⟩
  · intro p hp
    exact mem_states_add.2 (.inl (mem_members_epsilon.1 hp))
  · intro p hp label q h
    obtain rfl := mem_members_epsilon.1 hp
    exact absurd h hedge
  · intro p hp
    obtain rfl := mem_members_epsilon.1 hp
    rw [epsilon, acceptsAt_add_iff ha]
    simp
  · intro x
    refine iff_of_false ExtTreeSet.not_mem_empty ?_
    rintro ⟨p, hp, q, h⟩
    obtain rfl := mem_members_epsilon.1 hp
    exact hedge h
  · intro w
    rw [Language.mem_one]
    constructor
    · intro h
      cases h with
      | nil => rfl
      | silent h _ => exact absurd h hedge
      | read h _ => exact absurd h hedge
    · rintro rfl
      exact .nil _

/-! ### One fragment after another -/

theorem mem_states_concat : id ∈ (a.concat f g).2.states ↔ id ∈ a.states := mem_states_leave

theorem acceptsAt_concat_iff :
    (a.concat f g).2.AcceptsAt id ↔ a.AcceptsAt id ∧ id ≠ f.accept := acceptsAt_leave_iff

theorem edge_concat_iff (hf : f.accept ∈ a.states) : Edge (a.concat f g).2.states p label q ↔
    Edge a.states p label q ∨ (label = none ∧ p = f.accept ∧ q = g.start) := by
  rw [concat, edge_leave_iff, List.mem_singleton]
  simp only [hf, true_and]
  rw [and_left_comm]

theorem assembled_concat (hf : a.Isolated f) (hg : a.Isolated g) (hfg : f.Disjoint g) :
    Assembled a (a.concat f g).2 [f, g] (a.concat f g).1 where
  mem_iff id := by
    have hmem : id ∈ (a.concat f g).1.members ↔ id ∈ f.members ∨ id ∈ g.members :=
      ExtTreeSet.mem_union_iff
    rw [hmem, mem_states_concat]
    simp
  mem_alphabet_iff x := by
    rw [concat, ExtTreeSet.mem_union_iff]
    simp
  mem_states id hid := mem_states_concat.2 hid
  keeps p label q h := (edge_concat_iff hf.accept_mem_states).2 (.inl h)
  adds p label q h := by
    rcases (edge_concat_iff hf.accept_mem_states).1 h with h | ⟨hlabel, -, rfl⟩
    · exact .inl h
    · exact .inr ⟨hlabel, ExtTreeSet.mem_union_iff.2 (.inr hg.start_mem)⟩
  start_mem := ExtTreeSet.mem_union_iff.2 (.inl hf.start_mem)
  accept_mem := ExtTreeSet.mem_union_iff.2 (.inr hg.accept_mem)
  acceptsAt_iff p hp := by
    rw [acceptsAt_concat_iff]
    rcases ExtTreeSet.mem_union_iff.1 hp with hp | hp
    · have hne : p ≠ g.accept := fun h => hfg p hp (h ▸ hg.accept_mem)
      rw [hf.acceptsAt_iff p hp]
      exact iff_of_false (fun h => h.2 h.1) hne
    · have hne : p ≠ f.accept := fun h => hfg p (h ▸ hf.accept_mem) hp
      rw [hg.acceptsAt_iff p hp]
      exact and_iff_left hne

/-- Two fragments one after another recognize the product of their languages. -/
theorem Recognizes.concat (hf : a.Recognizes f L) (hg : a.Recognizes g M) (hfg : f.Disjoint g) :
    (a.concat f g).2.Recognizes (a.concat f g).1 (L * M) := by
  have hassembled := assembled_concat hf.toIsolated hg.toIsolated hfg
  have hedge {p q : StateId} {label : Option Symbol} :
      Edge (a.concat f g).2.states p label q ↔ _ := edge_concat_iff hf.accept_mem_states
  refine ⟨hassembled.isolated ?_, fun w => ⟨fun h => ?_, fun h => ?_⟩⟩
  · simp [hf.toIsolated, hg.toIsolated]
  -- From a state of `f` a path may still leave `f` and then reads a word of `g`. It cannot come
  -- back from `g`.
  · have hresidual := h.mem_of_residual (fun p => {w |
      (p ∈ f.members → ∃ u v, Path a.states p u f.accept ∧ v ∈ M ∧ u ++ v = w) ∧
      (p ∈ g.members → Path a.states p w g.accept)})
      ⟨fun h => absurd hg.accept_mem (hfg _ h), fun _ => .nil _⟩ ?_
    · obtain ⟨u, v, hu, hv, rfl⟩ := hresidual.1 hf.start_mem
      exact Language.append_mem_mul ((hf.path_iff u).1 hu) hv
    · rintro p label q h w ⟨hwf, hwg⟩
      rcases hedge.1 h with h | ⟨rfl, rfl, rfl⟩
      · constructor
        · intro hp
          obtain ⟨u, v, hu, hv, rfl⟩ := hwf (hf.closed p hp label q h)
          exact ⟨label.toList ++ u, v, .of_edge h hu, hv, List.append_assoc _ _ _⟩
        · intro hp
          exact .of_edge h (hwg (hg.closed p hp label q h))
      · constructor
        · intro _
          exact ⟨[], w, .nil _, (hg.path_iff w).1 (hwg hg.start_mem), rfl⟩
        · intro hp
          exact absurd hp (hfg _ hf.accept_mem)
  · obtain ⟨u, hu, v, hv, rfl⟩ := Language.mem_mul.1 h
    have hu := ((hf.path_iff u).2 hu).mono hassembled.keeps
    have hv := ((hg.path_iff v).2 hv).mono hassembled.keeps
    exact hu.trans (.silent (hedge.2 (.inr ⟨rfl, rfl, rfl⟩)) hv)

/-! ### One of two fragments -/

theorem mem_members_union : id ∈ (a.union f g).1.members ↔
    id = a.nextId ∨ id = a.nextId + 1 ∨ id ∈ f.members ∨ id ∈ g.members := by
  simp only [union, Fragment.merge, ExtTreeSet.mem_union_iff, mem_ofList_pair, or_assoc]

theorem mem_states_union (ha : a.Dense) : id ∈ (a.union f g).2.states ↔
    id = a.nextId + 1 ∨ id = a.nextId ∨ id ∈ a.states := by
  rw [union, mem_states_modify, mem_states_leave, mem_states_leave, mem_states_add, mem_states_add,
    nextId_add ha]

theorem edge_union_iff (ha : a.Dense) (hf : f.accept ∈ a.states) (hg : g.accept ∈ a.states) :
    Edge (a.union f g).2.states p label q ↔ Edge a.states p label q ∨ (label = none ∧
      ((p = a.nextId ∧ (q = f.start ∨ q = g.start)) ∨
        ((p = f.accept ∨ p = g.accept) ∧ q = a.nextId + 1))) := by
  rw [union, edge_accepting_iff, edge_leave_iff, edge_leave_iff, edge_add_iff (ha.add _),
    edge_add_iff ha, NfaState.leads_mk_silent, mem_ofList_pair]
  simp only [mem_states_leave, mem_states_add, hf, hg, or_true, true_and, List.mem_singleton,
    NfaState.not_leads_empty, and_false, or_false]
  tauto

theorem acceptsAt_union_iff (ha : a.Dense) : (a.union f g).2.AcceptsAt id ↔
    (a.AcceptsAt id ∧ id ≠ f.accept ∧ id ≠ g.accept) ∨ id = a.nextId + 1 := by
  rw [union, acceptsAt_accepting_iff, acceptsAt_leave_iff, acceptsAt_leave_iff,
    acceptsAt_add_iff (ha.add _), acceptsAt_add_iff ha]
  · simp [and_assoc]
  · simp [nextId_add ha]

theorem assembled_union (ha : a.Dense) (hf : a.Isolated f) (hg : a.Isolated g) :
    Assembled a (a.union f g).2 [f, g] (a.union f g).1 where
  mem_iff id := by
    rw [mem_members_union, mem_states_union ha]
    rw [mem_new_iff ha]
    simp only [List.exists_mem_cons_iff, List.not_mem_nil, false_and, exists_false, or_false]
    tauto
  mem_alphabet_iff x := by
    simp [union, Fragment.merge, ExtTreeSet.mem_union_iff]
  mem_states id hid := (mem_states_union ha).2 (.inr (.inr hid))
  keeps p label q h :=
    (edge_union_iff ha hf.accept_mem_states hg.accept_mem_states).2 (.inl h)
  adds p label q h := by
    rcases (edge_union_iff ha hf.accept_mem_states hg.accept_mem_states).1 h with
      h | ⟨hlabel, ⟨-, rfl | rfl⟩ | ⟨-, rfl⟩⟩
    · exact .inl h
    · exact .inr ⟨hlabel, mem_members_union.2 (.inr (.inr (.inl hf.start_mem)))⟩
    · exact .inr ⟨hlabel, mem_members_union.2 (.inr (.inr (.inr hg.start_mem)))⟩
    · exact .inr ⟨hlabel, mem_members_union.2 (.inr (.inl rfl))⟩
  start_mem := mem_members_union.2 (.inl rfl)
  accept_mem := mem_members_union.2 (.inr (.inl rfl))
  acceptsAt_iff p hp := by
    rw [acceptsAt_union_iff ha]
    refine or_iff_right ?_
    rintro ⟨h, hnf, hng⟩
    rcases mem_members_union.1 hp with rfl | rfl | hp | hp
    · exact ha.nextId_not_mem h.mem_states
    · exact ha.succ_nextId_not_mem h.mem_states
    · exact hnf ((hf.acceptsAt_iff p hp).1 h)
    · exact hng ((hg.acceptsAt_iff p hp).1 h)

/-- What can be read on the way to the last state: from the first state a word of either fragment,
and from a state of one of the fragments what is left of a word of it. -/
theorem residual_union (ha : a.Dense) (hf : a.Recognizes f L) (hg : a.Recognizes g M)
    (hfg : f.Disjoint g) (h : Path (a.union f g).2.states p w (a.nextId + 1)) :
    (p = a.nextId → w ∈ L + M) ∧ (p ∈ f.members → Path a.states p w f.accept) ∧
      (p ∈ g.members → Path a.states p w g.accept) ∧ (p = a.nextId + 1 → w = []) := by
  have hedge {p q : StateId} {label : Option Symbol} :
      Edge (a.union f g).2.states p label q ↔ _ :=
    edge_union_iff ha hf.accept_mem_states hg.accept_mem_states
  refine h.mem_of_residual (fun p => {w |
    (p = a.nextId → w ∈ L + M) ∧ (p ∈ f.members → Path a.states p w f.accept) ∧
    (p ∈ g.members → Path a.states p w g.accept) ∧ (p = a.nextId + 1 → w = [])}) ?_ ?_
  · exact ⟨fun h => absurd h.symm nextId_ne_succ,
      fun h => absurd rfl (ha.ne_succ_nextId (hf.mem_states _ h)),
      fun h => absurd rfl (ha.ne_succ_nextId (hg.mem_states _ h)), fun _ => rfl⟩
  · rintro p label q h w ⟨-, hwf, hwg, hwlast⟩
    rcases hedge.1 h with h | ⟨rfl, ⟨rfl, hq⟩ | ⟨hp, rfl⟩⟩
    · have hp := mem_states_of_edge h
      refine ⟨fun h => absurd h (ha.ne_nextId hp), fun hp => ?_, fun hp => ?_,
        fun h => absurd h (ha.ne_succ_nextId hp)⟩
      · exact .of_edge h (hwf (hf.closed p hp label q h))
      · exact .of_edge h (hwg (hg.closed p hp label q h))
    · refine ⟨fun _ => ?_, fun h => absurd rfl (ha.ne_nextId (hf.mem_states _ h)),
        fun h => absurd rfl (ha.ne_nextId (hg.mem_states _ h)), fun h => absurd h nextId_ne_succ⟩
      rcases hq with rfl | rfl
      · exact .inl ((hf.path_iff w).1 (hwf hf.start_mem))
      · exact .inr ((hg.path_iff w).1 (hwg hg.start_mem))
    · obtain rfl := hwlast rfl
      have hstate : p ∈ a.states := by
        rcases hp with rfl | rfl
        · exact hf.accept_mem_states
        · exact hg.accept_mem_states
      refine ⟨fun h => absurd h (ha.ne_nextId hstate), fun hpf => ?_, fun hpg => ?_, fun _ => rfl⟩
      · rcases hp with rfl | rfl
        · exact .nil _
        · exact absurd hg.accept_mem (hfg _ hpf)
      · rcases hp with rfl | rfl
        · exact absurd hpg (hfg _ hf.accept_mem)
        · exact .nil _

/-- One of two fragments recognizes the sum of their languages. -/
theorem Recognizes.union (ha : a.Dense) (hf : a.Recognizes f L) (hg : a.Recognizes g M)
    (hfg : f.Disjoint g) : (a.union f g).2.Recognizes (a.union f g).1 (L + M) := by
  have hassembled := assembled_union ha hf.toIsolated hg.toIsolated
  refine ⟨hassembled.isolated ?_, fun w => ⟨fun h => (residual_union ha hf hg hfg h).1 rfl, ?_⟩⟩
  · simp [hf.toIsolated, hg.toIsolated]
  · have hedge {p q : StateId} {label : Option Symbol} :
        Edge (a.union f g).2.states p label q ↔ _ :=
      edge_union_iff ha hf.accept_mem_states hg.accept_mem_states
    have hexit {p : StateId} (hp : p = f.accept ∨ p = g.accept) :
        Path (a.union f g).2.states p [] (a.nextId + 1) :=
      .of_silent (hedge.2 (.inr ⟨rfl, .inr ⟨hp, rfl⟩⟩))
    rintro (hw | hw)
    · have hpath := ((hf.path_iff w).2 hw).mono hassembled.keeps
      exact .silent (hedge.2 (.inr ⟨rfl, .inl ⟨rfl, .inl rfl⟩⟩))
        (hpath.before_silent (hexit (.inl rfl)))
    · have hpath := ((hg.path_iff w).2 hw).mono hassembled.keeps
      exact .silent (hedge.2 (.inr ⟨rfl, .inl ⟨rfl, .inr rfl⟩⟩))
        (hpath.before_silent (hexit (.inr rfl)))

/-! ### A fragment any number of times -/

theorem mem_members_star : id ∈ (a.star f).1.members ↔
    id = a.nextId ∨ id = a.nextId + 1 ∨ id ∈ f.members := by
  simp only [star, Fragment.merge, ExtTreeSet.mem_union_iff, mem_ofList_pair, or_assoc]

theorem mem_states_star (ha : a.Dense) : id ∈ (a.star f).2.states ↔
    id = a.nextId + 1 ∨ id = a.nextId ∨ id ∈ a.states := by
  rw [star, mem_states_leave, mem_states_add, mem_states_add, nextId_add ha]

theorem edge_star_iff (ha : a.Dense) (hf : f.accept ∈ a.states) :
    Edge (a.star f).2.states p label q ↔ Edge a.states p label q ∨ (label = none ∧
      (p = a.nextId ∨ p = f.accept) ∧ (q = f.start ∨ q = a.nextId + 1)) := by
  rw [star, edge_leave_iff, edge_add_iff (ha.add _), edge_add_iff ha, NfaState.leads_mk_silent,
    mem_ofList_pair]
  simp only [mem_states_add, hf, or_true, true_and, List.mem_cons, List.not_mem_nil,
    NfaState.not_leads_empty, and_false, or_false]
  tauto

theorem acceptsAt_star_iff (ha : a.Dense) : (a.star f).2.AcceptsAt id ↔
    (a.AcceptsAt id ∨ id = a.nextId + 1) ∧ id ≠ f.accept := by
  rw [star, acceptsAt_leave_iff, acceptsAt_add_iff (ha.add _), acceptsAt_add_iff ha, nextId_add ha]
  simp

/-- A table with the edges of an arena and, around a fragment, silent edges by which the fragment
may be passed any number of times on the way from a new first to a new last state. There may be
further silent edges, which only lead back to the new first state. -/
structure Loops (a : Arena) (f : Fragment) (first last : StateId) (t : StateTable) : Prop where
  /-- The first state is new. -/
  first_not_mem : first ∉ a.states
  /-- The last state is new. -/
  last_not_mem : last ∉ a.states
  /-- The first and the last state are different. -/
  first_ne_last : first ≠ last
  /-- Edges are kept. -/
  keeps : ∀ p label q, Edge a.states p label q → Edge t p label q
  /-- Edges lead into the fragment and past it. -/
  passes : ∀ p q, (p = first ∨ p = f.accept) → (q = f.start ∨ q = last) → Edge t p none q
  /-- No other edges are added, except back to the first state. -/
  adds : ∀ p label q, Edge t p label q → Edge a.states p label q ∨
    (label = none ∧ (p = first ∨ p = f.accept) ∧ (q = f.start ∨ q = last ∨ q = first))

namespace Loops

variable {t : StateTable} {first last : StateId}

/-- What can be read on the way to the last state: from the first state and from the last state of
the fragment any number of words of the fragment, and from any other state of it first the end of
one. -/
theorem residual (h : a.Loops f first last t) (hf : a.Recognizes f L) (hpath : Path t p w last) :
    (p = first → w ∈ L∗) ∧
      (p ∈ f.members → ∃ u v, Path a.states p u f.accept ∧ v ∈ L∗ ∧ u ++ v = w) := by
  have hfirst (p : StateId) (hp : p ∈ f.members) : p ≠ first :=
    fun heq => h.first_not_mem (heq ▸ hf.mem_states p hp)
  have hlast (p : StateId) (hp : p ∈ f.members) : p ≠ last :=
    fun heq => h.last_not_mem (heq ▸ hf.mem_states p hp)
  have hresidual := hpath.mem_of_residual (fun p => {w | (p = first → w ∈ L∗) ∧
    (p ∈ f.members → ∃ u v, Path a.states p u f.accept ∧ v ∈ L∗ ∧ u ++ v = w) ∧
    (p = last → w = [])})
    ⟨fun _ => Language.nil_mem_kstar L, fun hp => absurd rfl (hlast _ hp), fun _ => rfl⟩ ?_
  · exact ⟨hresidual.1, hresidual.2.1⟩
  · rintro p label q hedge w ⟨hwfirst, hwf, hwlast⟩
    rcases h.adds p label q hedge with hedge | ⟨rfl, hp, hq⟩
    · have hp := mem_states_of_edge hedge
      refine ⟨fun heq => absurd (heq ▸ hp) h.first_not_mem, fun hp => ?_,
        fun heq => absurd (heq ▸ hp) h.last_not_mem⟩
      obtain ⟨u, v, hu, hv, rfl⟩ := hwf (hf.closed p hp label q hedge)
      exact ⟨label.toList ++ u, v, .of_edge hedge hu, hv, List.append_assoc _ _ _⟩
    -- All targets of the new edges leave any number of words of the fragment to be read.
    · have hw : w ∈ L∗ := by
        rcases hq with rfl | rfl | rfl
        · obtain ⟨u, v, hu, hv, rfl⟩ := hwf hf.start_mem
          rw [← Language.one_add_self_mul_kstar_eq_kstar]
          exact .inr (Language.append_mem_mul ((hf.path_iff u).1 hu) hv)
        · rw [hwlast rfl]
          exact Language.nil_mem_kstar L
        · exact hwfirst rfl
      refine ⟨fun _ => hw, fun hpf => ?_, fun hplast => ?_⟩
      · obtain rfl := hp.resolve_left (hfirst p hpf)
        exact ⟨[], w, .nil _, hw, rfl⟩
      · rcases hp with rfl | rfl
        · exact absurd hplast h.first_ne_last
        · exact absurd hplast (hlast _ hf.accept_mem)

/-- Any number of words of the fragment can be read on the way to the last state. -/
theorem path_of_mem_kstar (h : a.Loops f first last t) (hf : a.Recognizes f L)
    (hp : p = first ∨ p = f.accept) (hw : w ∈ L∗) : Path t p w last := by
  obtain ⟨words, rfl, hwords⟩ := Language.mem_kstar.1 hw
  clear hw
  induction words generalizing p with
  | nil => exact .of_silent (h.passes p last hp (.inr rfl))
  | cons u words ih =>
    rw [List.forall_mem_cons] at hwords
    have hu := ((hf.path_iff u).2 hwords.1).mono h.keeps
    exact .silent (h.passes p f.start hp (.inl rfl)) (hu.trans (ih (.inr rfl) hwords.2))

theorem path_first_iff (h : a.Loops f first last t) (hf : a.Recognizes f L) :
    Path t first w last ↔ w ∈ L∗ :=
  ⟨fun hpath => (h.residual hf hpath).1 rfl, h.path_of_mem_kstar hf (.inl rfl)⟩

theorem path_start_iff (h : a.Loops f first last t) (hf : a.Recognizes f L) :
    Path t f.start w last ↔ w ∈ L * L∗ := by
  constructor
  · intro hpath
    obtain ⟨u, v, hu, hv, rfl⟩ := (h.residual hf hpath).2 hf.start_mem
    exact Language.append_mem_mul ((hf.path_iff u).1 hu) hv
  · intro hw
    obtain ⟨u, hu, v, hv, rfl⟩ := Language.mem_mul.1 hw
    exact (((hf.path_iff u).2 hu).mono h.keeps).trans (h.path_of_mem_kstar hf (.inr rfl) hv)

end Loops

theorem loops_star (ha : a.Dense) (hf : f.accept ∈ a.states) :
    a.Loops f a.nextId (a.nextId + 1) (a.star f).2.states where
  first_not_mem := ha.nextId_not_mem
  last_not_mem := ha.succ_nextId_not_mem
  first_ne_last := nextId_ne_succ
  keeps _ _ _ h := (edge_star_iff ha hf).2 (.inl h)
  passes _ _ hp hq := (edge_star_iff ha hf).2 (.inr ⟨rfl, hp, hq⟩)
  adds _ _ _ h := ((edge_star_iff ha hf).1 h).imp_right fun ⟨hlabel, hp, hq⟩ =>
    ⟨hlabel, hp, hq.imp_right .inl⟩

/-- Around an isolated fragment that has lost its accepting flag, a new last state alone has the
flag. -/
theorem Isolated.acceptsAt_around_iff (hf : a.Isolated f) (ha : a.Dense)
    (hp : p = a.nextId ∨ p = a.nextId + 1 ∨ p ∈ f.members) :
    (a.AcceptsAt p ∨ p = a.nextId + 1) ∧ p ≠ f.accept ↔ p = a.nextId + 1 := by
  constructor
  · rintro ⟨h | h, hne⟩
    · rcases hp with rfl | rfl | hp
      · exact absurd h.mem_states ha.nextId_not_mem
      · rfl
      · exact absurd ((hf.acceptsAt_iff p hp).1 h) hne
    · exact h
  · rintro rfl
    exact ⟨.inr rfl, (ha.ne_succ_nextId hf.accept_mem_states).symm⟩

theorem assembled_star (ha : a.Dense) (hf : a.Isolated f) :
    Assembled a (a.star f).2 [f] (a.star f).1 where
  mem_iff id := by
    rw [mem_members_star, mem_states_star ha, mem_new_iff ha]
    simp only [List.exists_mem_cons_iff, List.not_mem_nil, false_and, exists_false, or_false]
    tauto
  mem_alphabet_iff x := by
    simp [star, Fragment.merge, ExtTreeSet.mem_union_iff]
  mem_states id hid := (mem_states_star ha).2 (.inr (.inr hid))
  keeps := (loops_star ha hf.accept_mem_states).keeps
  adds p label q h := by
    rcases (edge_star_iff ha hf.accept_mem_states).1 h with h | ⟨hlabel, -, rfl | rfl⟩
    · exact .inl h
    · exact .inr ⟨hlabel, mem_members_star.2 (.inr (.inr hf.start_mem))⟩
    · exact .inr ⟨hlabel, mem_members_star.2 (.inr (.inl rfl))⟩
  start_mem := mem_members_star.2 (.inl rfl)
  accept_mem := mem_members_star.2 (.inr (.inl rfl))
  acceptsAt_iff p hp := by
    rw [acceptsAt_star_iff ha]
    exact hf.acceptsAt_around_iff ha (mem_members_star.1 hp)

/-- A fragment any number of times recognizes the powers of its language. -/
theorem Recognizes.star (ha : a.Dense) (hf : a.Recognizes f L) :
    (a.star f).2.Recognizes (a.star f).1 L∗ := by
  refine ⟨(assembled_star ha hf.toIsolated).isolated ?_, fun w => ?_⟩
  · simp [hf.toIsolated]
  · exact (loops_star ha hf.accept_mem_states).path_first_iff hf

/-! ### A fragment once or more -/

theorem plus_eq : a.plus f = (a.star f).2.concat f (a.star f).1 := rfl

theorem mem_members_plus : id ∈ (a.plus f).1.members ↔
    id = a.nextId ∨ id = a.nextId + 1 ∨ id ∈ f.members := by
  have hmem : id ∈ (a.plus f).1.members ↔ id ∈ f.members ∨ id ∈ (a.star f).1.members :=
    ExtTreeSet.mem_union_iff
  rw [hmem, mem_members_star]
  tauto

theorem mem_states_plus (ha : a.Dense) : id ∈ (a.plus f).2.states ↔
    id = a.nextId + 1 ∨ id = a.nextId ∨ id ∈ a.states := by
  rw [plus_eq, mem_states_concat, mem_states_star ha]

theorem edge_plus_iff (ha : a.Dense) (hf : f.accept ∈ a.states) :
    Edge (a.plus f).2.states p label q ↔ Edge a.states p label q ∨ (label = none ∧
      (((p = a.nextId ∨ p = f.accept) ∧ (q = f.start ∨ q = a.nextId + 1)) ∨
        (p = f.accept ∧ q = a.nextId))) := by
  rw [plus_eq, edge_concat_iff ((mem_states_star ha).2 (.inr (.inr hf))), edge_star_iff ha hf,
    or_assoc, ← and_or_left]
  rfl

theorem acceptsAt_plus_iff (ha : a.Dense) : (a.plus f).2.AcceptsAt id ↔
    (a.AcceptsAt id ∨ id = a.nextId + 1) ∧ id ≠ f.accept := by
  rw [plus_eq, acceptsAt_concat_iff, acceptsAt_star_iff ha, and_assoc, and_self]

theorem loops_plus (ha : a.Dense) (hf : f.accept ∈ a.states) :
    a.Loops f a.nextId (a.nextId + 1) (a.plus f).2.states where
  first_not_mem := ha.nextId_not_mem
  last_not_mem := ha.succ_nextId_not_mem
  first_ne_last := nextId_ne_succ
  keeps _ _ _ h := (edge_plus_iff ha hf).2 (.inl h)
  passes _ _ hp hq := (edge_plus_iff ha hf).2 (.inr ⟨rfl, .inl ⟨hp, hq⟩⟩)
  adds p label q h := by
    rcases (edge_plus_iff ha hf).1 h with h | ⟨hlabel, ⟨hp, hq⟩ | ⟨hp, hq⟩⟩
    · exact .inl h
    · exact .inr ⟨hlabel, hp, hq.imp_right .inl⟩
    · exact .inr ⟨hlabel, .inr hp, .inr (.inr hq)⟩

theorem assembled_plus (ha : a.Dense) (hf : a.Isolated f) :
    Assembled a (a.plus f).2 [f] (a.plus f).1 where
  mem_iff id := by
    rw [mem_members_plus, mem_states_plus ha, mem_new_iff ha]
    simp only [List.exists_mem_cons_iff, List.not_mem_nil, false_and, exists_false, or_false]
    tauto
  mem_alphabet_iff x := by
    simp [plus, concat, star, Fragment.merge, ExtTreeSet.mem_union_iff]
  mem_states id hid := (mem_states_plus ha).2 (.inr (.inr hid))
  keeps := (loops_plus ha hf.accept_mem_states).keeps
  adds p label q h := by
    rcases (loops_plus ha hf.accept_mem_states).adds p label q h with
      h | ⟨hlabel, -, rfl | rfl | rfl⟩
    · exact .inl h
    · exact .inr ⟨hlabel, mem_members_plus.2 (.inr (.inr hf.start_mem))⟩
    · exact .inr ⟨hlabel, mem_members_plus.2 (.inr (.inl rfl))⟩
    · exact .inr ⟨hlabel, mem_members_plus.2 (.inl rfl)⟩
  start_mem := mem_members_plus.2 (.inr (.inr hf.start_mem))
  accept_mem := mem_members_plus.2 (.inr (.inl rfl))
  acceptsAt_iff p hp := by
    rw [acceptsAt_plus_iff ha]
    exact hf.acceptsAt_around_iff ha (mem_members_plus.1 hp)

/-- A fragment once or more recognizes the positive powers of its language, although the second part
of it has the states of the first. -/
theorem Recognizes.plus (ha : a.Dense) (hf : a.Recognizes f L) :
    (a.plus f).2.Recognizes (a.plus f).1 (L * L∗) := by
  refine ⟨(assembled_plus ha hf.toIsolated).isolated ?_, fun w => ?_⟩
  · simp [hf.toIsolated]
  · exact (loops_plus ha hf.accept_mem_states).path_start_iff hf

/-! ### A fragment or nothing -/

/-- A fragment or nothing recognizes its language and the empty word. -/
theorem Recognizes.option (ha : a.Dense) (hf : a.Recognizes f L) :
    (a.option f).2.Recognizes (a.option f).1 (L + 1) := by
  have hf' : a.epsilon.2.Recognizes f L := hf.of_extends (.add ha _) fun _ _ => Set.notMem_empty _
  refine hf'.union (ha.add _) (recognizes_epsilon ha) fun id hid h => ?_
  exact ha.nextId_not_mem (mem_members_epsilon.1 h ▸ hf.mem_states id hid)

end PatternMachines.Arena
