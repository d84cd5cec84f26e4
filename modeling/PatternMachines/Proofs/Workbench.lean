import Mathlib.Data.List.Pairwise
import Mathlib.Data.List.Perm.Subperm
import PatternMachines.Proofs.Fallible
import PatternMachines.Proofs.Pattern.Size
import PatternMachines.Workbench

/-!
# Using each fragment once

Commands on an empty workbench put fragments together. If no fragment is taken as a part twice, the
commands are a session of composition, in which the fragments that have not been taken are live. So
these fragments tile the arena: every state belongs to one of them, no edge leads from one of them
to another, and the last states are the states with the accepting flag.

## Main definitions

* `Workbench.carryOut`: steps of composition, carried out one after another.
* `Workbench.taken`: the fragments that steps take as parts.
* `Workbench.Tiled`: whether the fragments that have not been taken tile the arena.

## Main results

* `Workbench.exists_run`: what a command does.
* `Workbench.Live.step`, `Workbench.Live.carryOut`: what a command and a list of commands keep.
* `Workbench.tiled_of_linear`: after commands that take no fragment twice, the arena is tiled.
-/

namespace PatternMachines

open Std

namespace Workbench

variable {w w' : Workbench} {c : Composition Int} {cs : List (Composition Int)} {i : Int}
  {k n : Nat} {f : Fragment} {made : Fragment × Arena} {used : List Nat}

/-- The command of a step. -/
def Command.ofStep : Composition Int → Command
  | .literal x => .literal x
  | .wildcard => .wildcard
  | .epsilon => .epsilon
  | .concat i j => .concat i j
  | .union i j => .union i j
  | .star i => .star i
  | .plus i => .plus i
  | .option i => .option i
  | .concatAll is => .concatAll is

/-- Carries out steps one after another. -/
def carryOut (w : Workbench) : List (Composition Int) → Except NoSuchFragment Workbench
  | [] => .ok w
  | c :: cs => do carryOut (← w.run (.ofStep c)).2 cs

/-- The number of the fragment that a handle stands for, after `n` fragments have been made. They
are numbered in their order, and negative handles count from the last one. -/
def numberOf (n : Nat) (i : Int) : Except NoSuchFragment Nat :=
  let k := if i < 0 then i + n else i
  if 0 ≤ k ∧ k < n then .ok k.toNat else .error ⟨i⟩

/-- The numbers of the fragments that steps take as parts, after `n` fragments have been made. Each
step makes one more. -/
def taken (n : Nat) : List (Composition Int) → Except NoSuchFragment (List Nat)
  | [] => .ok []
  | c :: cs => do
    let first ← c.parts.mapM (numberOf n)
    let others ← taken (n + 1) cs
    return first ++ others

/-- The fragment of a number. -/
def numbered (w : Workbench) (k : Nat) : Option Fragment := w.handles[k]?.bind (w.fragments[·]?)

/-- Whether the fragments that have not been used tile the arena. -/
structure Tiled (w : Workbench) (used : List Nat) : Prop where
  /-- The ids are the numbers below the number of states. -/
  mem_states_iff : ∀ id, id ∈ w.arena.states ↔ 0 ≤ id ∧ id < w.arena.size
  /-- The fragments that have not been used are there, no edge leaves their members, and their
  alphabets hold the symbols on the edges. -/
  isolated : ∀ k < w.handles.length, k ∉ used → ∃ f, w.numbered k = some f ∧ w.arena.Isolated f
  /-- Every state is a member of one of them. -/
  exists_unique : ∀ id ∈ w.arena.states,
    ∃! k, k ∉ used ∧ ∃ f, w.numbered k = some f ∧ id ∈ f.members
  /-- Their last states are the states with the accepting flag. -/
  mem_acceptingStates_iff : ∀ id, id ∈ w.arena.acceptingStates ↔
    ∃ k f, k ∉ used ∧ w.numbered k = some f ∧ id = f.accept

/-! ### What a command does -/

/-- Whether a workbench comes from another one by one more fragment. -/
structure Adds (w w' : Workbench) (made : Fragment × Arena) : Prop where
  /-- The arena. -/
  arena_eq : w'.arena = made.2
  /-- There is one more fragment. -/
  length_eq : w'.handles.length = w.handles.length + 1
  /-- The new fragment has the next number. -/
  newest : w'.numbered w.handles.length = some made.1
  /-- The other fragments keep their numbers. -/
  keeps : ∀ k f, w.numbered k = some f → w'.numbered k = some f

theorem lt_of_numbered (h : w.numbered k = some f) : k < w.handles.length := by
  obtain ⟨m, hm, -⟩ := Option.bind_eq_some_iff.1 h
  exact (List.getElem?_eq_some_iff.1 hm).1

theorem adds_keep (w : Workbench) (made : Fragment × Arena) : w.Adds (w.keep made).2 made where
  arena_eq := rfl
  length_eq := List.length_append
  newest := by simp [keep, numbered]
  keeps k f h := by
    obtain ⟨m, hm, hf⟩ := Option.bind_eq_some_iff.1 h
    have hk := (List.getElem?_eq_some_iff.1 hm).1
    have hlt := (List.getElem?_eq_some_iff.1 hf).1
    rw [numbered, keep, List.getElem?_append_left hk, hm, Option.bind_some,
      List.getElem?_append_left hlt, hf]

/-- One more handle for a fragment that is there counts as one more fragment. -/
theorem adds_handle {m : Nat} (hf : w.fragments[m]? = some f) :
    w.Adds { w with handles := w.handles ++ [m] } (f, w.arena) where
  arena_eq := rfl
  length_eq := List.length_append
  newest := by simp [numbered, hf]
  keeps k g h := by
    obtain ⟨m', hm', hg⟩ := Option.bind_eq_some_iff.1 h
    have hk := (List.getElem?_eq_some_iff.1 hm').1
    rw [numbered, List.getElem?_append_left hk, hm', Option.bind_some, hg]

theorem of_numberOf (h : numberOf n i = .ok k) : k < n ∧ (if i < 0 then i + n else i) = k := by
  rw [numberOf] at h
  generalize (if i < 0 then i + (n : Int) else i) = j at h
  by_cases hj : 0 ≤ j ∧ j < n
  · rw [if_pos hj, Except.ok.injEq] at h
    omega
  · rw [if_neg hj] at h
    cases h

theorem place_of_numberOf (hi : numberOf w.handles.length i = .ok k)
    (hk : w.numbered k = some f) : ∃ m, w.place i = .ok m ∧ w.fragments[m]? = some f := by
  obtain ⟨m, hm, hf⟩ := Option.bind_eq_some_iff.1 hk
  refine ⟨m, ?_, hf⟩
  rw [place, (of_numberOf hi).2]
  simp only [Int.not_lt.2 (Int.natCast_nonneg k), if_false, Int.toNat_natCast, hm]

theorem fragment_of_numberOf (hi : numberOf w.handles.length i = .ok k)
    (hk : w.numbered k = some f) : w.fragment i = .ok f := by
  obtain ⟨m, hplace, hf⟩ := place_of_numberOf hi hk
  rw [fragment, hplace]
  simp only [bind, Except.bind, hf]
  rfl

/-- A command makes the fragment of its step from the fragments that the handles stand for, and the
fragment gets the next number. -/
theorem exists_run {number : Int → Nat} {part : Int → Fragment}
    (hnumber : ∀ i ∈ c.parts, numberOf w.handles.length i = .ok (number i))
    (hpart : ∀ i ∈ c.parts, w.numbered (number i) = some (part i)) :
    ∃ w', w.run (.ofStep c) = .ok (((c.map part).make w.arena).1, w') ∧
      w.Adds w' ((c.map part).make w.arena) := by
  have hfragment (i : Int) (hi : i ∈ c.parts) : w.fragment i = .ok (part i) :=
    fragment_of_numberOf (hnumber i hi) (hpart i hi)
  cases c with
  | literal | wildcard | epsilon => exact ⟨_, rfl, adds_keep w _⟩
  | concat i j | union i j =>
    refine ⟨_, ?_, adds_keep w _⟩
    rw [Command.ofStep, run, hfragment i (by simp [Composition.parts]),
      hfragment j (by simp [Composition.parts])]
    rfl
  | star i | plus i | option i =>
    refine ⟨_, ?_, adds_keep w _⟩
    rw [Command.ofStep, run, hfragment i (by simp [Composition.parts])]
    rfl
  | concatAll is =>
    rcases is with _ | ⟨i, _ | ⟨j, is⟩⟩
    · exact ⟨_, rfl, adds_keep w _⟩
    · have hi : i ∈ (Composition.concatAll [i]).parts := by simp [Composition.parts]
      obtain ⟨m, hplace, hf⟩ := place_of_numberOf (hnumber i hi) (hpart i hi)
      refine ⟨_, ?_, adds_handle hf⟩
      rw [Command.ofStep, run, hfragment i hi, hplace]
      rfl
    · have hfragments : (i :: j :: is).mapM w.fragment = .ok ((i :: j :: is).map part) :=
        mapM_eq_ok hfragment
      refine ⟨_, ?_, adds_keep w _⟩
      rw [Command.ofStep, run, hfragments]
      · rfl
      · simp

theorem of_taken_cons {ks : List Nat} (h : taken n (c :: cs) = .ok ks) : ∃ first others,
    c.parts.mapM (numberOf n) = .ok first ∧ taken (n + 1) cs = .ok others ∧ first ++ others = ks := by
  rw [taken] at h
  cases hfirst : c.parts.mapM (numberOf n) with
  | error e =>
    rw [hfirst] at h
    cases h
  | ok first =>
    cases hothers : taken (n + 1) cs with
    | error e =>
      rw [hfirst, hothers] at h
      cases h
    | ok others =>
      rw [hfirst, hothers] at h
      exact ⟨first, others, rfl, rfl, Except.ok.inj h⟩

/-! ### What commands keep -/

/-- Whether the fragments that have not been used are the live fragments of a session. -/
structure Live (w : Workbench) (used : List Nat) (live : List (Nat × Pattern × Fragment)) :
    Prop where
  /-- The session. -/
  session : Session w.arena (live.map Prod.snd) []
  /-- The live fragments have their numbers. -/
  numbered_eq : ∀ e ∈ live, w.numbered e.1 = some e.2.2
  /-- The numbers are those that have not been used. -/
  mem_iff : ∀ k, k ∈ live.map Prod.fst ↔ k < w.handles.length ∧ k ∉ used
  /-- No number is given twice. -/
  nodup : (live.map Prod.fst).Nodup
  /-- Numbers that have been used have been given. -/
  used_lt : ∀ k ∈ used, k < w.handles.length

namespace Live

variable {live rest : List (Nat × Pattern × Fragment)} {ks : List Nat}

theorem new : Live {} [] [] where
  session := .new
  numbered_eq := List.forall_mem_nil _
  mem_iff := by simp
  nodup := List.nodup_nil
  used_lt := List.forall_mem_nil _

/-- Live fragments of different numbers can be taken out. -/
theorem exists_rest {parts : List (Nat × Pattern × Fragment)} (hparts : ∀ e ∈ parts, e ∈ live)
    (hnodup : (parts.map Prod.fst).Nodup) : ∃ rest, live.Perm (parts ++ rest) := by
  obtain ⟨parts', hperm, hsublist⟩ := hnodup.of_map.subperm hparts
  obtain ⟨rest, hrest⟩ := hsublist.exists_perm_append
  exact ⟨rest, hrest.trans (hperm.append_right rest)⟩

/-- A command puts one fragment in the place of those that it takes. -/
theorem adds {pattern : Pattern} {parts : List (Nat × Pattern × Fragment)} (h : w.Live used live)
    (hadds : w.Adds w' made) (hlive : live.Perm (parts ++ rest))
    (hparts : parts.map Prod.fst = ks)
    (hsession : Session made.2 ((pattern, made.1) :: rest.map Prod.snd) []) :
    w'.Live (used ++ ks) ((w.handles.length, pattern, made.1) :: rest) := by
  have hnumbers : (live.map Prod.fst).Perm (ks ++ rest.map Prod.fst) := by
    rw [← hparts, ← List.map_append]
    exact hlive.map Prod.fst
  have hnodup : (ks ++ rest.map Prod.fst).Nodup := hnumbers.nodup_iff.1 h.nodup
  have hks (k : Nat) (hk : k ∈ ks) : k < w.handles.length :=
    ((h.mem_iff k).1 (hnumbers.mem_iff.2 (List.mem_append_left _ hk))).1
  have hmem (k : Nat) : k ∈ rest.map Prod.fst ↔ k < w.handles.length ∧ k ∉ used ++ ks := by
    rw [List.mem_append, not_or, ← and_assoc, ← h.mem_iff k, hnumbers.mem_iff, List.mem_append]
    constructor
    · intro hk
      exact ⟨.inr hk, fun hk' => (List.nodup_append.1 hnodup).2.2 k hk' k hk rfl⟩
    · rintro ⟨hk, hk'⟩
      exact hk.resolve_left hk'
  have hused (k : Nat) (hk : k ∈ used ++ ks) : k < w.handles.length := by
    rcases List.mem_append.1 hk with hk | hk
    · exact h.used_lt k hk
    · exact hks k hk
  refine ⟨?_, ?_, fun k => ?_, ?_, fun k hk => ?_⟩
  · rw [hadds.arena_eq]
    exact hsession
  · rw [List.forall_mem_cons]
    refine ⟨hadds.newest, fun e he => hadds.keeps _ _ (h.numbered_eq e ?_)⟩
    exact hlive.mem_iff.2 (List.mem_append_right _ he)
  · rw [List.map_cons, List.mem_cons, hmem, hadds.length_eq]
    constructor
    · rintro (rfl | ⟨hk, hunused⟩)
      · exact ⟨Nat.lt_succ_self _, fun hk => Nat.lt_irrefl _ (hused _ hk)⟩
      · exact ⟨Nat.lt_succ_of_lt hk, hunused⟩
    · rintro ⟨hk, hunused⟩
      exact (Nat.lt_succ_iff_lt_or_eq.1 hk).symm.imp_right fun hk => ⟨hk, hunused⟩
  · rw [List.map_cons, List.nodup_cons, hmem]
    exact ⟨fun hk => Nat.lt_irrefl _ hk.1, (List.nodup_append.1 hnodup).2.1⟩
  · rw [hadds.length_eq]
    exact Nat.lt_succ_of_lt (hused k hk)

/-- A command that takes fragments that have not been used. -/
theorem step (h : w.Live used live) (hks : c.parts.mapM (numberOf w.handles.length) = .ok ks)
    (hnodup : (used ++ ks).Nodup) : ∃ f w' live', w.run (.ofStep c) = .ok (f, w') ∧
      w'.handles.length = w.handles.length + 1 ∧ w'.Live (used ++ ks) live' := by
  choose! number hnumber using exists_of_mapM_eq_ok hks
  obtain rfl : c.parts.map number = ks := Except.ok.inj ((mapM_eq_ok hnumber).symm.trans hks)
  have hentry (i : Int) (hi : i ∈ c.parts) : ∃ e : Pattern × Fragment, (number i, e) ∈ live := by
    have hmem : number i ∈ live.map Prod.fst := by
      refine (h.mem_iff _).2 ⟨(of_numberOf (hnumber i hi)).1, fun hused => ?_⟩
      exact (List.nodup_append.1 hnodup).2.2 _ hused _ (List.mem_map_of_mem hi) rfl
    obtain ⟨⟨k, e⟩, he, rfl⟩ := List.mem_map.1 hmem
    exact ⟨e, he⟩
  have : Nonempty (Pattern × Fragment) := ⟨.empty, ({} : Arena).epsilon.1⟩
  choose! entry hentry using hentry
  have hpart (i : Int) (hi : i ∈ c.parts) : w.numbered (number i) = some (entry i).2 :=
    h.numbered_eq _ (hentry i hi)
  obtain ⟨w', hrun, hadds⟩ := exists_run hnumber hpart
  have hparts : (c.parts.map fun i => (number i, entry i)).map Prod.fst = c.parts.map number := by
    rw [List.map_map]
    rfl
  obtain ⟨rest, hrest⟩ := exists_rest (List.forall_mem_map.2 hentry)
    (hparts ▸ (List.nodup_append.1 hnodup).2.1)
  have hlive : (live.map Prod.snd).Perm ((c.map entry).parts ++ rest.map Prod.snd) := by
    have hperm := hrest.map Prod.snd
    rw [List.map_append, List.map_map] at hperm
    rwa [Composition.parts_map]
  have hsession := h.session.make (c.map entry) hlive
  rw [Composition.map_map Prod.snd] at hsession
  exact ⟨_, w', _, hrun, hadds.length_eq, h.adds hadds hrest hparts hsession⟩

/-- Commands that take no fragment twice. -/
theorem carryOut (h : w.Live used live) (hks : taken w.handles.length cs = .ok ks)
    (hnodup : (used ++ ks).Nodup) : ∃ w' live', w.carryOut cs = .ok w' ∧
      w'.handles.length = w.handles.length + cs.length ∧ w'.Live (used ++ ks) live' := by
  induction cs generalizing w used live ks with
  | nil =>
    obtain rfl : [] = ks := Except.ok.inj hks
    rw [List.append_nil]
    exact ⟨w, live, rfl, rfl, h⟩
  | cons c cs ih =>
    obtain ⟨first, others, hfirst, hothers, rfl⟩ := of_taken_cons hks
    rw [← List.append_assoc] at hnodup ⊢
    obtain ⟨f, w', live', hrun, hlength, h'⟩ := h.step hfirst (List.nodup_append.1 hnodup).1
    obtain ⟨w'', live'', hcarryOut, hlength', h''⟩ := ih h' (hlength ▸ hothers) hnodup
    refine ⟨w'', live'', ?_, ?_, h''⟩
    · rw [Workbench.carryOut, hrun]
      exact hcarryOut
    · rw [hlength', hlength, List.length_cons]
      omega

/-- The live fragments of a session tile the arena. -/
theorem tiled (h : w.Live used live) : w.Tiled used := by
  have hsound := h.session.sound
  have hlive (e : Nat × Pattern × Fragment) (he : e ∈ live) :
      e.1 ∉ used ∧ w.arena.Isolated e.2.2 :=
    ⟨((h.mem_iff e.1).1 (List.mem_map_of_mem he)).2,
      (hsound.recognizes e.2 (List.mem_map_of_mem he)).toIsolated⟩
  have hnumber {k : Nat} (hk : k < w.handles.length) (hunused : k ∉ used) :
      ∃ e ∈ live, e.1 = k := List.mem_map.1 ((h.mem_iff k).2 ⟨hk, hunused⟩)
  refine ⟨hsound.dense, fun k hk hunused => ?_, fun id hid => ?_, fun id => ?_⟩
  · obtain ⟨e, he, rfl⟩ := hnumber hk hunused
    exact ⟨e.2.2, h.numbered_eq e he, (hlive e he).2⟩
  · obtain ⟨_, hmem, hide⟩ := h.session.exists_mem_members hid
    obtain ⟨e, he, rfl⟩ := List.mem_map.1 hmem
    refine ⟨e.1, ⟨(hlive e he).1, e.2.2, h.numbered_eq e he, hide⟩, ?_⟩
    rintro k ⟨hunused, f, hf, hidf⟩
    obtain ⟨e', he', rfl⟩ := hnumber (lt_of_numbered hf) hunused
    obtain rfl := Option.some_inj.1 ((h.numbered_eq e' he').symm.trans hf)
    have : Std.Symm fun e e' : Nat × Pattern × Fragment => e.2.2.Disjoint e'.2.2 :=
      ⟨fun _ _ hdisjoint => hdisjoint.symm⟩
    by_contra hne
    have hdisjoint := (List.pairwise_map.1 hsound.disjoint).forall he' he
      fun heq => hne (congrArg Prod.fst heq)
    exact hdisjoint id hidf hide
  · rw [h.session.mem_acceptingStates_iff]
    constructor
    · rintro ⟨_, hmem, rfl⟩
      obtain ⟨e, he, rfl⟩ := List.mem_map.1 hmem
      exact ⟨e.1, e.2.2, (hlive e he).1, h.numbered_eq e he, rfl⟩
    · rintro ⟨k, f, hunused, hf, rfl⟩
      obtain ⟨e, he, rfl⟩ := hnumber (lt_of_numbered hf) hunused
      obtain rfl := Option.some_inj.1 ((h.numbered_eq e he).symm.trans hf)
      exact ⟨e.2, List.mem_map_of_mem he, rfl⟩

end Live

/-- The numbers that a beginning of a list of steps takes. -/
theorem exists_taken_of_append {ds : List (Composition Int)} {all : List Nat}
    (h : taken n (cs ++ ds) = .ok all) : ∃ ks rest, taken n cs = .ok ks ∧ ks ++ rest = all := by
  induction cs generalizing n all with
  | nil => exact ⟨[], all, rfl, rfl⟩
  | cons c cs ih =>
    obtain ⟨first, others, hfirst, hothers, rfl⟩ := of_taken_cons h
    obtain ⟨ks, rest, hks, rfl⟩ := ih hothers
    refine ⟨first ++ ks, rest, ?_, List.append_assoc _ _ _⟩
    rw [taken, hfirst, hks]
    rfl

/-- **Every state has its place.** On an empty workbench, steps that take no fragment twice can be
carried out. After each of them, the fragments that have not been taken so far tile the arena: their
members share no state and are all the states, no edge leads out of any of them, their alphabets
hold the symbols on their edges, and their last states alone have the accepting flag. So the
automaton of a pattern has all states that were made for it, and its last state alone has the flag;
for a pattern that has been read there are at most three states for each symbol, and one more. -/
theorem tiled_of_linear :
    (∀ (cs ds : List (Composition Int)) (all : List Nat), taken 0 (cs ++ ds) = .ok all → all.Nodup →
      ∃ w used, carryOut {} cs = .ok w ∧ w.handles.length = cs.length ∧ taken 0 cs = .ok used ∧
        w.Tiled used) ∧
    ∀ s : List Symbol,
      (Pattern.ofSymbols s).toNfa.states = ((Pattern.ofSymbols s).build {}).2.states ∧
      (∀ id, id ∈ (Pattern.ofSymbols s).toNfa.acceptingStates ↔
        id = (Pattern.ofSymbols s).toNfa.accept) ∧
      (Pattern.ofSymbols s).toNfa.states.size ≤ 3 * s.length + 1 := by
  constructor
  · intro cs ds all hall hnodup
    obtain ⟨used, rest, hused, rfl⟩ := exists_taken_of_append hall
    obtain ⟨w, live, hcarryOut, hlength, hlive⟩ :=
      Live.new.carryOut hused (List.nodup_append.1 hnodup).1
    exact ⟨w, used, hcarryOut, hlength.trans (Nat.zero_add _), hused, hlive.tiled⟩
  · intro s
    exact ⟨Pattern.states_toNfa_eq _, Pattern.mem_acceptingStates_toNfa _,
      Pattern.size_states_toNfa_le s⟩

/-- Seven steps that take five fragments, each of them once. What is put together from one fragment
is that fragment, under the next number. -/
theorem tiled_plus_concatAll :
    taken 0 [.literal "a", .plus 0, .concatAll [-1], .literal "b", .option (-1), .wildcard,
      .union 4 2] = .ok [0, 1, 3, 4, 2] ∧ [0, 1, 3, 4, 2].Nodup ∧
    ∃ w, carryOut {} [.literal "a", .plus 0, .concatAll [-1], .literal "b", .option (-1)] = .ok w ∧
      w.handles.length = 5 ∧ w.Tiled [0, 1, 3] := by
  have hnodup : [0, 1, 3, 4, 2].Nodup := by decide
  obtain ⟨w, used, hcarryOut, hlength, hused, htiled⟩ := tiled_of_linear.1
    [.literal "a", .plus 0, .concatAll [-1], .literal "b", .option (-1)] [.wildcard, .union 4 2]
    [0, 1, 3, 4, 2] rfl hnodup
  obtain rfl : [0, 1, 3] = used := Except.ok.inj hused
  exact ⟨rfl, hnodup, w, hcarryOut, hlength, htiled⟩

end Workbench

end PatternMachines
