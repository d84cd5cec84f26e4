import PatternMachines.Proofs.Arena.Composition

/-!
# Sessions of composition

A session is any sequence of steps of composition on one arena. Each step takes its parts from the
fragments that are live and puts its own fragment in their place, so that each fragment is a part at
most once. In between, other fragments may be made from one another in any way, and live fragments
may be given up to them. The words that the automaton of a live fragment accepts are those of the
pattern that it was made for.

## Main definitions

* `Session`: the arenas that sessions lead to, with the live fragments and the others.
* `Session.Sound`: what all sessions keep.

## Main results

* `Session.sound`: the invariant.
* `Session.build`: building the fragment of a pattern is part of a session.
* `Session.accepts_iff_mem_language`: the automaton of a live fragment accepts the language of the
  pattern, and the fragment that repeats the states of its part stands for one that repeats a copy.
-/

namespace PatternMachines

open Arena

/-- The arenas that steps of composition lead to, with the fragments that are live, each beside its
pattern, and with other fragments. -/
inductive Session : Arena → List (Pattern × Fragment) → List Fragment → Prop
  /-- A session begins with an arena without states. -/
  | new : Session {} [] []
  /-- A step takes its parts from the live fragments. -/
  | make {a : Arena} {live rest : List (Pattern × Fragment)} {others : List Fragment}
      (c : Composition (Pattern × Fragment)) (h : Session a live others)
      (hlive : live.Perm (c.parts ++ rest)) :
      Session ((c.map Prod.snd).make a).2
        (((c.map Prod.fst).pattern, ((c.map Prod.snd).make a).1) :: rest) others
  /-- A step takes its parts from the other fragments, any of them and as often as it likes. -/
  | makeOther {a : Arena} {live : List (Pattern × Fragment)} {others : List Fragment}
      (c : Composition Fragment) (h : Session a live others) (hparts : ∀ f ∈ c.parts, f ∈ others) :
      Session (c.make a).2 live ((c.make a).1 :: others)
  /-- A live fragment is given up to the others. -/
  | release {a : Arena} {live rest : List (Pattern × Fragment)} {others : List Fragment}
      {e : Pattern × Fragment} (h : Session a live others) (hlive : live.Perm (e :: rest)) :
      Session a rest (e.2 :: others)

namespace Session

variable {a : Arena} {live rest : List (Pattern × Fragment)} {others : List Fragment}

/-- What all sessions keep: the live fragments recognize the languages of their patterns and share
no states, and the last states of the others lie outside them. -/
structure Sound (a : Arena) (live : List (Pattern × Fragment)) (others : List Fragment) : Prop where
  /-- The ids are the numbers below the number of states. -/
  dense : a.Dense
  /-- Live fragments recognize the languages of their patterns. -/
  recognizes : ∀ e ∈ live, a.Recognizes e.2 e.1.language
  /-- Live fragments share no states. -/
  disjoint : live.Pairwise fun e e' => e.2.Disjoint e'.2
  /-- The last states of others are states. -/
  others_accept_mem : ∀ g ∈ others, g.accept ∈ a.states
  /-- The last states of others are not in live fragments. -/
  others_outside : ∀ g ∈ others, ∀ e ∈ live, g.accept ∉ e.2.members

namespace Sound

theorem perm (h : Sound a live others) (hlive : live.Perm rest) : Sound a rest others where
  dense := h.dense
  recognizes e he := h.recognizes e (hlive.mem_iff.2 he)
  disjoint := (hlive.pairwise_iff fun h => h.symm).1 h.disjoint
  others_accept_mem := h.others_accept_mem
  others_outside g hg e he := h.others_outside g hg e (hlive.mem_iff.2 he)

/-- A step that takes its parts from the live fragments keeps the invariant. -/
theorem make {c : Composition (Pattern × Fragment)} (h : Sound a (c.parts ++ rest) others) :
    Sound ((c.map Prod.snd).make a).2
      (((c.map Prod.fst).pattern, ((c.map Prod.snd).make a).1) :: rest) others := by
  have hparts (e : Pattern × Fragment) (he : e ∈ c.parts) : a.Recognizes e.2 e.1.language :=
    h.recognizes e (List.mem_append_left rest he)
  have hrest (e : Pattern × Fragment) (he : e ∈ rest) : a.Recognizes e.2 e.1.language :=
    h.recognizes e (List.mem_append_right c.parts he)
  obtain ⟨hdisjoint, hdisjoint', hbetween⟩ := List.pairwise_append.1 h.disjoint
  have hgrows : a.Grows ((c.map Prod.snd).make a).2 (c.parts.map Prod.snd)
      ((c.map Prod.snd).make a).1 := by
    rw [← Composition.parts_map]
    refine (c.map Prod.snd).grows_make h.dense ?_
    rw [Composition.parts_map, List.forall_mem_map]
    exact fun e he => (hparts e he).accept_mem_states
  refine { dense := hgrows.extends_of.dense, recognizes := ?recognizes, disjoint := ?disjoint,
           others_accept_mem := ?others_accept_mem, others_outside := ?others_outside }
  case recognizes =>
    rw [List.forall_mem_cons]
    refine ⟨c.recognizes_make h.dense hparts hdisjoint, fun e he => ?_⟩
    refine (hrest e he).of_grows hgrows ?_
    rw [List.forall_mem_map]
    exact fun k hk => hbetween k hk e he _ (hparts k hk).accept_mem
  case disjoint =>
    rw [List.pairwise_cons]
    refine ⟨fun e he => hgrows.disjoint (hrest e he).mem_states ?_, hdisjoint'⟩
    rw [List.forall_mem_map]
    exact fun k hk => hbetween k hk e he
  case others_accept_mem =>
    intro g hg
    exact hgrows.extends_of.mem_states _ (h.others_accept_mem g hg)
  -- The members of the new fragment are members of live fragments or new states.
  case others_outside =>
    intro g hg
    rw [List.forall_mem_cons]
    refine ⟨fun hmem => ?_, fun e he => h.others_outside g hg e (List.mem_append_right _ he)⟩
    rcases hgrows.members _ hmem with ⟨k, hk, hkg⟩ | hnew
    · obtain ⟨e, he, rfl⟩ := List.mem_map.1 hk
      exact h.others_outside g hg e (List.mem_append_left _ he) hkg
    · exact hnew (h.others_accept_mem g hg)

/-- A step that takes its parts from the other fragments keeps the invariant. -/
theorem makeOther {c : Composition Fragment} (h : Sound a live others)
    (hparts : ∀ f ∈ c.parts, f ∈ others) :
    Sound (c.make a).2 live ((c.make a).1 :: others) := by
  have hgrows := c.grows_make h.dense fun f hf => h.others_accept_mem f (hparts f hf)
  refine ⟨hgrows.extends_of.dense, fun e he => ?_, h.disjoint, ?_, ?_⟩
  · exact (h.recognizes e he).of_grows hgrows fun k hk => h.others_outside k (hparts k hk) e he
  · rw [List.forall_mem_cons]
    exact ⟨hgrows.accept_mem, fun g hg => hgrows.extends_of.mem_states _ (h.others_accept_mem g hg)⟩
  · rw [List.forall_mem_cons]
    refine ⟨fun e he hmem => ?_, h.others_outside⟩
    rcases hgrows.accept_from with hnew | ⟨k, hk, heq⟩
    · exact hnew ((h.recognizes e he).mem_states _ hmem)
    · exact h.others_outside k (hparts k hk) e he (heq ▸ hmem)

/-- Giving up a fragment keeps the invariant. -/
theorem release {e : Pattern × Fragment} (h : Sound a (e :: live) others) :
    Sound a live (e.2 :: others) := by
  have he := h.recognizes e List.mem_cons_self
  refine ⟨h.dense, fun k hk => h.recognizes k (List.mem_cons_of_mem e hk), h.disjoint.of_cons,
    ?_, ?_⟩
  · rw [List.forall_mem_cons]
    exact ⟨he.accept_mem_states, h.others_accept_mem⟩
  · rw [List.forall_mem_cons]
    have hrest : ∀ k ∈ live, e.2.accept ∉ k.2.members := fun k hk =>
      List.rel_of_pairwise_cons h.disjoint hk _ he.accept_mem
    exact ⟨hrest, fun g hg k hk => h.others_outside g hg k (List.mem_cons_of_mem e hk)⟩

end Sound

/-- All sessions keep the invariant. -/
theorem sound (h : Session a live others) : Sound a live others := by
  induction h with
  | new =>
    exact ⟨dense_empty, List.forall_mem_nil _, List.Pairwise.nil, List.forall_mem_nil _,
      List.forall_mem_nil _⟩
  | make c _ hlive ih => exact (ih.perm hlive).make
  | makeOther c _ hparts ih => exact ih.makeOther hparts
  | release _ hlive ih => exact (ih.perm hlive).release

/-- Building the fragment of a pattern is part of a session. -/
theorem build (h : Session a live others) (p : Pattern) :
    Session (p.build a).2 ((p, (p.build a).1) :: live) others := by
  induction p generalizing a live with
  | empty => exact h.make .epsilon (.refl live)
  | literal x => exact h.make (.literal x) (.refl live)
  | wildcard => exact h.make .wildcard (.refl live)
  | concat p q ihp ihq =>
    exact (ihq (ihp h)).make (.concat (p, (p.build a).1) (q, (q.build (p.build a).2).1))
      (.swap _ _ live)
  | union p q ihp ihq =>
    exact (ihq (ihp h)).make (.union (p, (p.build a).1) (q, (q.build (p.build a).2).1))
      (.swap _ _ live)
  | star p ih => exact (ih h).make (.star (p, (p.build a).1)) (.refl _)
  | plus p ih => exact (ih h).make (.plus (p, (p.build a).1)) (.refl _)
  | option p ih => exact (ih h).make (.option (p, (p.build a).1)) (.refl _)

/-- **Composition keeps the meaning.** After any session, the automaton of a live fragment has a
walk on every word and accepts the language of the pattern that the fragment was made for. The rule
for once or more, which repeats the states of its part, stands for the part followed by any number
of times a copy of it that shares no state with it. This is so for all isolated fragments, whatever
edges there are at their first and last states. -/
theorem accepts_iff_mem_language :
    (∀ {a : Arena} {live : List (Pattern × Fragment)} {others : List Fragment},
      Session a live others → ∀ {p : Pattern} {f : Fragment}, (p, f) ∈ live → ∀ w,
        (∃ sets, (a.toNfa f).walk w = .ok sets) ∧
          ((a.toNfa f).Accepts w ↔ w ∈ p.language)) ∧
    ∀ {a : Arena} {f g : Fragment}, a.Dense → a.Isolated f → a.Isolated g → f.Disjoint g →
      (∀ w, (a.toNfa f).Accepts w ↔ (a.toNfa g).Accepts w) → ∀ w,
        (((a.plus f).2.toNfa (a.plus f).1).Accepts w ↔
          (((a.star g).2.concat f (a.star g).1).2.toNfa
            ((a.star g).2.concat f (a.star g).1).1).Accepts w) := by
  constructor
  · intro a live others h p f hf w
    have hrecognizes := h.sound.recognizes (p, f) hf
    exact ⟨hrecognizes.exists_walk w, hrecognizes.accepts_iff w⟩
  · intro a f g ha hf hg hfg hcopy w
    have hgrows := grows_star (f := g) ha
    have hlanguage : a.Recognizes g {w | Path a.states f.start w f.accept} :=
      ⟨hg, fun w => by
        rw [← hg.accepts_iff, ← hcopy w, hf.accepts_iff]
        exact Iff.rfl⟩
    have hstar := hlanguage.star ha
    have hpart := hf.recognizes.of_grows hgrows fun k hk => by
      obtain rfl := List.mem_singleton.1 hk
      exact hfg.symm _ hg.accept_mem
    have hdisjoint : f.Disjoint (a.star g).1 := by
      refine (hgrows.disjoint hf.mem_states fun k hk => ?_).symm
      obtain rfl := List.mem_singleton.1 hk
      exact hfg.symm
    rw [(hf.recognizes.plus ha).accepts_iff, (hpart.concat hstar hdisjoint).accepts_iff]

/-- The fragment of a pattern can be made twice, with another fragment in between. -/
theorem exists_copies (p : Pattern) : ∃ (a : Arena) (f g h : Fragment),
    Session a [(p, g), (p, f)] [h] :=
  ⟨_, _, _, _, ((Session.new.build p).makeOther (.literal "b") (List.forall_mem_nil _)).build p⟩

/-- Once or more, twice over, with another fragment made in between, accepts a word of two letters.
Repeating it once more is repeating a copy of it. -/
theorem accepts_plus_plus :
    ∃ (p : Pattern) (a : Arena) (f g h : Fragment), p = .plus (.plus (.literal "a")) ∧
      Session a [(p, g), (p, f)] [h] ∧ (a.toNfa f).Accepts ["a", "a"] ∧
      (((a.plus f).2.toNfa (a.plus f).1).Accepts ["a", "a"] ↔
        (((a.star g).2.concat f (a.star g).1).2.toNfa
          ((a.star g).2.concat f (a.star g).1).1).Accepts ["a", "a"]) := by
  obtain ⟨p, hp⟩ : ∃ p : Pattern, p = .plus (.plus (.literal "a")) := ⟨_, rfl⟩
  obtain ⟨a, f, g, h, hsession⟩ := exists_copies p
  have hsound := hsession.sound
  have hf := accepts_iff_mem_language.1 hsession (p := p) (f := f) (by simp)
  have hg := accepts_iff_mem_language.1 hsession (p := p) (f := g) (by simp)
  have hword : ["a", "a"] ∈ p.language := by
    rw [Pattern.mem_language_iff, hp]
    have hletter : (Pattern.literal "a").star.Matches ["a"] := .starCons (.literal "a") .starNil
    exact .plus (.plus (.literal "a") hletter) .starNil
  refine ⟨p, a, f, g, h, hp, hsession, (hf _).2.2 hword, ?_⟩
  refine accepts_iff_mem_language.2 hsound.dense (hsound.recognizes (p, f) (by simp)).toIsolated
    (hsound.recognizes (p, g) (by simp)).toIsolated ?_ (fun w => (hf w).2.trans (hg w).2.symm) _
  exact (List.rel_of_pairwise_cons hsound.disjoint List.mem_cons_self).symm

end Session

end PatternMachines
