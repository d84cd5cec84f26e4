import PatternMachines.Proofs.Arena.Edges
import PatternMachines.Proofs.Nfa.Walk

/-!
# Isolated fragments

A fragment is isolated in an arena if no edge leaves its members and its last state is the only
member with the accepting flag. No condition is put on the edges at its first and last states, nor
on the edges that come from outside. What an isolated fragment accepts is decided by its members, so
it does not change while the arena grows elsewhere.

## Main definitions

* `Arena.Isolated`: the condition.
* `Arena.Recognizes`: isolated fragments and the words on their paths.
* `Arena.Assembled`: fragments put together from parts by edges that read nothing.

## Main results

* `Arena.Isolated.of_extends`, `Arena.Recognizes.of_extends`: an arena may grow elsewhere.
* `Arena.Assembled.isolated`: what is put together from isolated parts is isolated.
* `Arena.Recognizes.accepts_iff`: the automaton of a fragment accepts the words on its paths.
-/

namespace PatternMachines

open Std

/-- Whether two fragments share no state. -/
def Fragment.Disjoint (f g : Fragment) : Prop := ∀ id ∈ f.members, id ∉ g.members

theorem Fragment.Disjoint.symm {f g : Fragment} (h : f.Disjoint g) : g.Disjoint f :=
  fun id hg hf => h id hf hg

namespace Arena

variable {a a' : Arena} {f g : Fragment} {L : Language Symbol} {S : Set StateId}
  {p q : StateId} {w : List Symbol}

/-- Whether no edge leaves the members of a fragment, and of these the last state alone has the
accepting flag. -/
structure Isolated (a : Arena) (f : Fragment) : Prop where
  /-- The first state is a member. -/
  start_mem : f.start ∈ f.members
  /-- The last state is a member. -/
  accept_mem : f.accept ∈ f.members
  /-- The members are states. -/
  mem_states : ∀ id ∈ f.members, id ∈ a.states
  /-- Edges from members lead to members. -/
  closed : ∀ p ∈ f.members, ∀ label q, Edge a.states p label q → q ∈ f.members
  /-- The last state is the member with the accepting flag. -/
  acceptsAt_iff : ∀ p ∈ f.members, (a.AcceptsAt p ↔ p = f.accept)
  /-- The alphabet holds the symbols on the edges from members. -/
  mem_alphabet_iff : ∀ x, x ∈ f.alphabet ↔ ∃ p ∈ f.members, ∃ q, Edge a.states p (some x) q

/-- Whether a fragment is isolated and the words on the paths from its first to its last state are
those of the language. -/
structure Recognizes (a : Arena) (f : Fragment) (L : Language Symbol) : Prop
    extends a.Isolated f where
  /-- The words on the paths. -/
  path_iff : ∀ w, Path a.states f.start w f.accept ↔ w ∈ L

/-- The last state is a state. -/
theorem Isolated.accept_mem_states (h : a.Isolated f) : f.accept ∈ a.states :=
  h.mem_states _ h.accept_mem

theorem Isolated.recognizes (h : a.Isolated f) :
    a.Recognizes f {w | Path a.states f.start w f.accept} := ⟨h, fun _ => Iff.rfl⟩

/-- The symbols on a path from a member are symbols of the fragment. -/
theorem Isolated.mem_alphabet (h : a.Isolated f) (hp : p ∈ f.members)
    (hpath : Path a.states p w q) : ∀ x ∈ w, x ∈ f.alphabet := by
  induction hpath with
  | nil => exact List.forall_mem_nil _
  | silent he _ ih => exact ih (h.closed _ hp _ _ he)
  | read he _ ih =>
    rw [List.forall_mem_cons]
    exact ⟨(h.mem_alphabet_iff _).2 ⟨_, hp, _, he⟩, ih (h.closed _ hp _ _ he)⟩

/-! ### Growth elsewhere -/

theorem Isolated.path_iff_of_extends (h : a.Isolated f) (hext : a.Extends a' S)
    (hS : ∀ p ∈ f.members, p ∉ S) (hp : p ∈ f.members) :
    Path a'.states p w q ↔ Path a.states p w q :=
  Path.congr_on (S := {p | p ∈ f.members}) h.closed
    (fun p hp => hext.edge_iff p (h.mem_states p hp) (hS p hp)) hp

/-- An isolated fragment stays isolated while its states are kept. -/
theorem Isolated.of_extends (h : a.Isolated f) (hext : a.Extends a' S)
    (hS : ∀ p ∈ f.members, p ∉ S) : a'.Isolated f where
  start_mem := h.start_mem
  accept_mem := h.accept_mem
  mem_states id hid := hext.mem_states id (h.mem_states id hid)
  closed p hp label q hedge :=
    h.closed p hp label q ((hext.edge_iff p (h.mem_states p hp) (hS p hp) label q).1 hedge)
  acceptsAt_iff p hp :=
    (hext.acceptsAt_iff p (h.mem_states p hp) (hS p hp)).trans (h.acceptsAt_iff p hp)
  mem_alphabet_iff x := by
    rw [h.mem_alphabet_iff x]
    refine exists_congr fun p => and_congr_right fun hp => exists_congr fun q => ?_
    exact (hext.edge_iff p (h.mem_states p hp) (hS p hp) (some x) q).symm

/-- A fragment recognizes the same language while its states are kept. -/
theorem Recognizes.of_extends (h : a.Recognizes f L) (hext : a.Extends a' S)
    (hS : ∀ p ∈ f.members, p ∉ S) : a'.Recognizes f L where
  toIsolated := h.toIsolated.of_extends hext hS
  path_iff w := (h.toIsolated.path_iff_of_extends hext hS h.start_mem).trans (h.path_iff w)

/-! ### Fragments from parts -/

/-- Whether a fragment holds the members of its parts and the new states, the edges that have been
added read nothing and lead to members, and the last state is the member with the accepting flag. -/
structure Assembled (a a' : Arena) (parts : List Fragment) (f : Fragment) : Prop where
  /-- The members. -/
  mem_iff : ∀ id, id ∈ f.members ↔
    (∃ g ∈ parts, id ∈ g.members) ∨ (id ∈ a'.states ∧ id ∉ a.states)
  /-- The symbols. -/
  mem_alphabet_iff : ∀ x, x ∈ f.alphabet ↔ ∃ g ∈ parts, x ∈ g.alphabet
  /-- States are kept. -/
  mem_states : ∀ id ∈ a.states, id ∈ a'.states
  /-- Edges are kept. -/
  keeps : ∀ p label q, Edge a.states p label q → Edge a'.states p label q
  /-- Edges are added inside. -/
  adds : ∀ p label q, Edge a'.states p label q →
    Edge a.states p label q ∨ (label = none ∧ q ∈ f.members)
  /-- The first state is a member. -/
  start_mem : f.start ∈ f.members
  /-- The last state is a member. -/
  accept_mem : f.accept ∈ f.members
  /-- The last state is the member with the accepting flag. -/
  acceptsAt_iff : ∀ p ∈ f.members, (a'.AcceptsAt p ↔ p = f.accept)

/-- What is put together from isolated parts is isolated. -/
theorem Assembled.isolated {parts : List Fragment} (h : Assembled a a' parts f)
    (hparts : ∀ g ∈ parts, a.Isolated g) : a'.Isolated f where
  start_mem := h.start_mem
  accept_mem := h.accept_mem
  mem_states id hid := by
    rcases (h.mem_iff id).1 hid with ⟨g, hg, hid⟩ | ⟨hid, -⟩
    · exact h.mem_states id ((hparts g hg).mem_states id hid)
    · exact hid
  closed p hp label q hedge := by
    rcases h.adds p label q hedge with hold | ⟨-, hq⟩
    · rcases (h.mem_iff p).1 hp with ⟨g, hg, hpg⟩ | ⟨-, hnew⟩
      · exact (h.mem_iff q).2 (.inl ⟨g, hg, (hparts g hg).closed p hpg label q hold⟩)
      · exact absurd (mem_states_of_edge hold) hnew
    · exact hq
  acceptsAt_iff := h.acceptsAt_iff
  mem_alphabet_iff x := by
    rw [h.mem_alphabet_iff x]
    constructor
    · rintro ⟨g, hg, hx⟩
      obtain ⟨p, hp, q, hedge⟩ := ((hparts g hg).mem_alphabet_iff x).1 hx
      exact ⟨p, (h.mem_iff p).2 (.inl ⟨g, hg, hp⟩), q, h.keeps p (some x) q hedge⟩
    · rintro ⟨p, hp, q, hedge⟩
      rcases h.adds p (some x) q hedge with hold | ⟨hlabel, -⟩
      · rcases (h.mem_iff p).1 hp with ⟨g, hg, hpg⟩ | ⟨-, hnew⟩
        · exact ⟨g, hg, ((hparts g hg).mem_alphabet_iff x).2 ⟨p, hpg, q, hold⟩⟩
        · exact absurd (mem_states_of_edge hold) hnew
      · cases hlabel

/-! ### The automaton of a fragment -/

theorem getElem?_toNfa_eq_some_iff {s : NfaState} :
    (a.toNfa f).states[p]? = some s ↔ p ∈ f.members ∧ a.states[p]? = some s := by
  rw [toNfa, getElem?_ofList_eq_some_iff]
  · simp [ExtTreeSet.mem_toList]
  · refine List.pairwise_map.2 (List.Pairwise.filterMap _ ?_ (ExtTreeSet.distinct_toList))
    intro id id' hne
    simp only [Option.map_eq_some_iff]
    rintro _ ⟨s, -, rfl⟩ _ ⟨s', -, rfl⟩ heq
    exact hne (Std.compare_eq_iff_eq.2 heq)

theorem edge_toNfa_iff {label : Option Symbol} :
    Edge (a.toNfa f).states p label q ↔ p ∈ f.members ∧ Edge a.states p label q := by
  simp only [Edge, getElem?_toNfa_eq_some_iff, and_assoc, exists_and_left]

theorem Isolated.path_toNfa_iff (h : a.Isolated f) (hp : p ∈ f.members) :
    Path (a.toNfa f).states p w q ↔ Path a.states p w q := by
  refine Path.congr_on (S := {p | p ∈ f.members}) h.closed (fun p hp label q => ?_) hp
  rw [edge_toNfa_iff]
  exact and_iff_right hp

/-- Words lead to members, which are states of the automaton. -/
theorem Isolated.mem_states_toNfa (h : a.Isolated f) (hpath : Path (a.toNfa f).states f.start w q) :
    q ∈ (a.toNfa f).states := by
  have hq : q ∈ f.members := Path.mem_of_closed (S := {p | p ∈ f.members}) h.closed
    ((h.path_toNfa_iff h.start_mem).1 hpath) h.start_mem
  obtain ⟨s, hs⟩ := Option.isSome_iff_exists.1
    (ExtTreeMap.mem_iff_isSome_getElem?.1 (h.mem_states q hq))
  exact Nfa.mem_states_iff.2 ⟨s, getElem?_toNfa_eq_some_iff.2 ⟨hq, hs⟩⟩

theorem Isolated.exists_accepting_iff (h : a.Isolated f) :
    (∃ q s, Path (a.toNfa f).states (a.toNfa f).start w q ∧ (a.toNfa f).states[q]? = some s ∧
      s.accepting = true) ↔ Path a.states f.start w f.accept := by
  constructor
  · rintro ⟨q, s, hpath, hs, haccepting⟩
    obtain ⟨hq, hs⟩ := getElem?_toNfa_eq_some_iff.1 hs
    obtain rfl := (h.acceptsAt_iff q hq).1 ⟨s, hs, haccepting⟩
    exact (h.path_toNfa_iff h.start_mem).1 hpath
  · intro hpath
    obtain ⟨s, hs, haccepting⟩ := (h.acceptsAt_iff f.accept h.accept_mem).2 rfl
    exact ⟨f.accept, s, (h.path_toNfa_iff h.start_mem).2 hpath,
      getElem?_toNfa_eq_some_iff.2 ⟨h.accept_mem, hs⟩, haccepting⟩

/-- Every word has a walk through the automaton of an isolated fragment. -/
theorem Isolated.exists_walk (h : a.Isolated f) (w : List Symbol) :
    ∃ sets, (a.toNfa f).walk w = .ok sets := by
  obtain ⟨sets, -, hsets, -⟩ := Nfa.exists_walk w fun v _ q => h.mem_states_toNfa
  exact ⟨sets, hsets⟩

/-- The automaton of a fragment accepts the words on its paths. -/
theorem Isolated.accepts_iff (h : a.Isolated f) (w : List Symbol) :
    (a.toNfa f).Accepts w ↔ Path a.states f.start w f.accept := by
  rw [Nfa.accepts_iff_path w fun v _ q => h.mem_states_toNfa, h.exists_accepting_iff]

/-- The automaton of a fragment accepts the language that the fragment recognizes. -/
theorem Recognizes.accepts_iff (h : a.Recognizes f L) (w : List Symbol) :
    (a.toNfa f).Accepts w ↔ w ∈ L :=
  (h.toIsolated.accepts_iff w).trans (h.path_iff w)

end Arena

end PatternMachines
