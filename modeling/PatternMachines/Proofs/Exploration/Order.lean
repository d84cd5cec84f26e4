import Mathlib.Data.List.Induction
import Mathlib.Data.List.Nodup
import Mathlib.Data.List.Shortlex
import PatternMachines.Proofs.Exploration

/-!
# The order of an exploration along labelled edges

Let the nodes of an exploration be expanded to rows of labelled edges that ascend by their labels.
Each word of labels leads from the first node to at most one node. The nodes are visited in the
order of their first words: the first word that leads to a node, shorter words before longer ones
and words of one length in the order of their labels.

The proof gives each node in the queue the word that put it there. These words ascend through the
queue, and leaving out the last label of one of them gives a word before all of them. So a word that
is put at the end of the queue comes after those that stand there.

## Main definitions

* `ShortlexLt`: the order of words.
* `Exploration.Leads`: the nodes to which words of labels lead.
* `Exploration.Spells`: what is known of the words that a visit spells.

## Main results

* `Exploration.Labelled.exists_first_words`: the visited nodes ascend by the first words that lead
  to them.
-/

namespace PatternMachines

open Std

variable {ε σ α : Type} [LinearOrder σ]

/-! ### Words -/

/-- Whether a word comes before another one: it is shorter, or it is of the same length and smaller
at the first place where they differ. -/
abbrev ShortlexLt (u v : List σ) : Prop := List.Shortlex (· < ·) u v

namespace ShortlexLt

variable {u v w : List σ} {s t : σ}

theorem iff_lt :
    ShortlexLt u v ↔ u.length < v.length ∨ u.length = v.length ∧ u < v := List.shortlex_def

theorem trans (h : ShortlexLt u v) (h' : ShortlexLt v w) : ShortlexLt u w := by
  rw [iff_lt] at h h' ⊢
  rcases h with h | ⟨hlength, h⟩
  · exact .inl (by omega)
  · rcases h' with h' | ⟨hlength', h'⟩
    · exact .inl (by omega)
    · exact .inr ⟨hlength.trans hlength', List.lt_trans h h'⟩

theorem not_lt (h : ShortlexLt u v) : ¬ShortlexLt v u := Std.Asymm.asymm u v h

theorem irrefl (u : List σ) : ¬ShortlexLt u u := fun h => h.not_lt h

/-- Of two different words one comes before the other. -/
theorem of_not_lt (h : ¬ShortlexLt v u) (hne : v ≠ u) : ShortlexLt u v := by
  by_contra hnot
  exact hne (Std.Trichotomous.trichotomous v u h hnot)

theorem append_singleton (u : List σ) (s : σ) : ShortlexLt u (u ++ [s]) :=
  List.Shortlex.of_length_lt (by simp)

theorem append_of_lt (u : List σ) (h : s < t) : ShortlexLt (u ++ [s]) (u ++ [t]) :=
  List.Shortlex.append_left ((List.shortlex_singleton_iff s t).2 h) u

theorem of_beginning {rest : List σ} (h : ShortlexLt u v) (hv : v <+: rest) :
    ShortlexLt u rest := by
  obtain ⟨later, rfl⟩ := hv
  exact List.Shortlex.append_right later h

theorem lex_append {x y : List σ} (h : List.Lex (· < ·) u v) (hlength : u.length = v.length) :
    List.Lex (· < ·) (u ++ x) (v ++ y) := by
  induction h with
  | nil => simp at hlength
  | rel h => exact .rel h
  | cons _ ih => exact .cons (ih (by simpa using hlength))

/-- One more label does not change the order of two words. -/
theorem append_append (h : ShortlexLt u v) (s t : σ) : ShortlexLt (u ++ [s]) (v ++ [t]) := by
  rw [iff_lt] at h ⊢
  simp only [List.length_append, List.length_singleton]
  rcases h with h | ⟨hlength, h⟩
  · exact .inl (by omega)
  · exact .inr ⟨by omega, lex_append h hlength⟩

theorem not_lt_append (h : ¬ShortlexLt v u) (hw : ¬ShortlexLt (u ++ [s]) w) :
    ¬ShortlexLt (v ++ [s]) w := by
  intro hlt
  by_cases hvu : v = u
  · exact hw (hvu ▸ hlt)
  · exact hw (((of_not_lt h hvu).append_append s s).trans hlt)

end ShortlexLt

namespace Exploration

/-! ### The words in a queue -/

/-- What is known of the words in a queue. -/
structure Queued (words : List (List σ)) : Prop where
  /-- They ascend. -/
  ascending : words.Pairwise ShortlexLt
  /-- Without its last label, each comes before all of them. -/
  beginning_lt : ∀ (u : List σ) (s : σ), u ++ [s] ∈ words → ∀ v ∈ words, ShortlexLt u v

namespace Queued

variable {u : List σ} {words : List (List σ)}

theorem first : Queued [([] : List σ)] := by
  refine ⟨List.pairwise_singleton _ _, fun u s hu => ?_⟩
  rw [List.mem_singleton] at hu
  exact absurd hu (by simp)

theorem tail (h : Queued (u :: words)) : Queued words :=
  ⟨(List.pairwise_cons.1 h.ascending).2, fun v s hv w hw =>
    h.beginning_lt v s (List.mem_cons_of_mem _ hv) w (List.mem_cons_of_mem _ hw)⟩

/-- The first word makes room for the words that continue it by one label. -/
theorem push (h : Queued (u :: words)) {labels : List σ} (hlabels : labels.Pairwise (· < ·)) :
    Queued (words ++ labels.map fun s => u ++ [s]) := by
  have hu := (List.pairwise_cons.1 h.ascending).1
  have hlater : ∀ v ∈ words ++ labels.map fun s => u ++ [s], ShortlexLt u v := by
    intro v hv
    rcases List.mem_append.1 hv with hv | hv
    · exact hu v hv
    · obtain ⟨s, -, rfl⟩ := List.mem_map.1 hv
      exact ShortlexLt.append_singleton u s
  have hbeginning (v : List σ) (s : σ) (hv : v ++ [s] ∈ words) : ShortlexLt v u :=
    h.beginning_lt v s (List.mem_cons_of_mem _ hv) u List.mem_cons_self
  constructor
  · refine List.pairwise_append.2 ⟨h.tail.ascending, ?_, fun v hv w hw => ?_⟩
    · exact List.pairwise_map.2 (hlabels.imp fun hlt => ShortlexLt.append_of_lt u hlt)
    · obtain ⟨t, -, rfl⟩ := List.mem_map.1 hw
      -- A word that is not empty continues a word before `u`.
      rcases List.eq_nil_or_concat v with rfl | ⟨v, s, rfl⟩
      · exact List.Shortlex.of_length_lt (by simp)
      · rw [List.concat_eq_append] at hv ⊢
        exact (hbeginning v s hv).append_append s t
  · intro v s hv w hw
    rcases List.mem_append.1 hv with hv | hv
    · rcases List.mem_append.1 hw with hw | hw
      · exact h.tail.beginning_lt v s hv w hw
      · exact (hbeginning v s hv).trans (hlater w (List.mem_append_right _ hw))
    · obtain ⟨t, -, heq⟩ := List.mem_map.1 hv
      obtain ⟨rfl, -⟩ := List.append_inj' heq rfl
      exact hlater w hw

end Queued

/-! ### The words of the visited nodes -/

variable [Ord α] [TransOrd α] {g : Exploration ε α (List (σ × α))}

/-- Whether nodes are expanded to rows of labelled edges to their successors, ascending by their
labels. -/
structure Labelled (g : Exploration ε α (List (σ × α))) : Prop where
  /-- The successors are the targets. -/
  successors_eq : ∀ row, g.successors row = row.map Prod.snd
  /-- The labels ascend. -/
  ascending : ∀ a row, g.expand a = .ok row → (row.map Prod.fst).Pairwise (· < ·)

/-- The nodes to which words of labels lead from the first node. -/
inductive Leads (g : Exploration ε α (List (σ × α))) (first : α) : List σ → α → Prop
  | nil : Leads g first [] first
  | snoc {w : List σ} {a : α} {row : List (σ × α)} {s : σ} {c : α} (h : Leads g first w a)
      (hexpand : g.expand a = .ok row) (hc : (s, c) ∈ row) : Leads g first (w ++ [s]) c

/-- What is known of the words of the nodes that a visit goes through, given the nodes visited
before it and the queue it begins with, also with words. -/
structure Spells (visited : ExtTreeSet α) (queue : List (List σ × α))
    (out : List (List σ × α × List (σ × α))) : Prop where
  /-- The words ascend. -/
  ascending : out.Pairwise fun x y => ShortlexLt x.1 y.1
  /-- Each continues a word in the queue. -/
  continues : ∀ x ∈ out, ∃ y ∈ queue, y.1 <+: x.1
  /-- Each node is in the queue with its word, or an edge leads to it that reads the last label. -/
  origin : ∀ x ∈ out, (x.1, x.2.1) ∈ queue ∨
    ∃ y ∈ out, ∃ s, (s, x.2.1) ∈ y.2.2 ∧ x.1 = y.1 ++ [s]
  /-- The nodes in the queue are visited, with no later words. -/
  queue_mem : ∀ y ∈ queue, visited.contains y.2 = true ∨
    ∃ x ∈ out, x.2.1 = y.2 ∧ ¬ShortlexLt y.1 x.1
  /-- The targets of edges are visited, with words that are no later than along the edges. -/
  target_mem : ∀ x ∈ out, ∀ e ∈ x.2.2, visited.contains e.2 = true ∨
    ∃ y ∈ out, y.2.1 = e.2 ∧ ¬ShortlexLt (x.1 ++ [e.1]) y.1

variable [LawfulEqOrd α]

/-- A node that is expanded comes with its word before what is spelled from the rest of the queue
and its successors. -/
theorem Spells.cons {visited : ExtTreeSet α} {u : List σ} {a : α} {queue : List (List σ × α)}
    {row : List (σ × α)} {out : List (List σ × α × List (σ × α))}
    (hqueue : Queued (u :: queue.map Prod.fst))
    (h : Spells (visited.insert a) (queue ++ row.map fun e => (u ++ [e.1], e.2)) out) :
    Spells visited ((u, a) :: queue) ((u, a, row) :: out) := by
  have hu : ∀ y ∈ queue, ShortlexLt u y.1 := fun y hy =>
    (List.pairwise_cons.1 hqueue.ascending).1 y.1 (List.mem_map_of_mem hy)
  have hlater : ∀ x ∈ out, ShortlexLt u x.1 := by
    intro x hx
    obtain ⟨y, hy, hbeginning⟩ := h.continues x hx
    rcases List.mem_append.1 hy with hy | hy
    · exact (hu y hy).of_beginning hbeginning
    · obtain ⟨e, -, rfl⟩ := List.mem_map.1 hy
      exact (ShortlexLt.append_singleton u e.1).of_beginning hbeginning
  -- A node that counts as visited because of this round has the word `u`, before all others.
  have hfound {c : α} {w : List σ} (hw : ShortlexLt u w)
      (hc : (visited.insert a).contains c = true ∨
        ∃ x ∈ out, x.2.1 = c ∧ ¬ShortlexLt w x.1) :
      visited.contains c = true ∨
        ∃ x ∈ (u, a, row) :: out, x.2.1 = c ∧ ¬ShortlexLt w x.1 := by
    rw [ExtTreeSet.contains_insert, Bool.or_eq_true, beq_iff_eq, Std.compare_eq_iff_eq] at hc
    rcases hc with (rfl | hc) | ⟨x, hx, hc⟩
    · exact .inr ⟨_, List.mem_cons_self, rfl, hw.not_lt⟩
    · exact .inl hc
    · exact .inr ⟨x, List.mem_cons_of_mem _ hx, hc⟩
  refine { ascending := ?ascending, continues := ?continues, origin := ?origin,
           queue_mem := ?queue_mem, target_mem := ?target_mem }
  case ascending => exact List.pairwise_cons.2 ⟨hlater, h.ascending⟩
  case continues =>
    rintro x (_ | ⟨_, hx⟩)
    · exact ⟨(u, a), List.mem_cons_self, List.prefix_refl u⟩
    · obtain ⟨y, hy, hbeginning⟩ := h.continues x hx
      rcases List.mem_append.1 hy with hy | hy
      · exact ⟨y, List.mem_cons_of_mem _ hy, hbeginning⟩
      · obtain ⟨e, -, rfl⟩ := List.mem_map.1 hy
        exact ⟨(u, a), List.mem_cons_self, (List.prefix_append u [e.1]).trans hbeginning⟩
  case origin =>
    rintro x (_ | ⟨_, hx⟩)
    · exact .inl List.mem_cons_self
    · rcases h.origin x hx with hmem | ⟨y, hy, hedge⟩
      · rcases List.mem_append.1 hmem with hmem | hmem
        · exact .inl (List.mem_cons_of_mem _ hmem)
        · obtain ⟨e, he, heq⟩ := List.mem_map.1 hmem
          obtain ⟨hword, hnode⟩ := Prod.mk.inj heq
          exact .inr ⟨_, List.mem_cons_self, e.1, hnode ▸ he, hword.symm⟩
      · exact .inr ⟨y, List.mem_cons_of_mem _ hy, hedge⟩
  case queue_mem =>
    rintro y (_ | ⟨_, hy⟩)
    · exact .inr ⟨_, List.mem_cons_self, rfl, ShortlexLt.irrefl u⟩
    · exact hfound (hu y hy) (h.queue_mem y (List.mem_append_left _ hy))
  case target_mem =>
    rintro x (_ | ⟨_, hx⟩) e he
    · refine hfound (ShortlexLt.append_singleton u e.1) (h.queue_mem (u ++ [e.1], e.2) ?_)
      exact List.mem_append_right _ (List.mem_map_of_mem he)
    · have hlt := (hlater x hx).trans (ShortlexLt.append_singleton x.1 e.1)
      exact hfound hlt (h.target_mem x hx e he)

/-- The visited nodes can be given words. -/
theorem Labelled.exists_spells (hg : g.Labelled) {visited : ExtTreeSet α}
    {queue : List (List σ × α)} (hqueue : Queued (queue.map Prod.fst))
    {out : List (α × List (σ × α))} (h : g.visitFrom visited (queue.map Prod.snd) = .ok out) :
    ∃ spelled : List (List σ × α × List (σ × α)),
      spelled.map Prod.snd = out ∧ Spells visited queue spelled := by
  generalize hnodes : queue.map Prod.snd = nodes at h
  fun_induction visitFrom g visited nodes generalizing queue out with
  | case1 visited =>
    cases h
    obtain rfl := List.map_eq_nil_iff.1 hnodes
    exact ⟨[], rfl, .nil, by simp, by simp, by simp, by simp⟩
  | case2 visited a nodes ha ih =>
    obtain ⟨⟨u, _⟩, queue, rfl, rfl, rfl⟩ := List.map_eq_cons_iff.1 hnodes
    rw [List.map_cons] at hqueue
    obtain ⟨spelled, hspelled, hspells⟩ := ih hqueue.tail rfl h
    refine ⟨spelled, hspelled, { hspells with continues := ?_, origin := ?_, queue_mem := ?_ }⟩
    · intro x hx
      obtain ⟨y, hy, hbeginning⟩ := hspells.continues x hx
      exact ⟨y, List.mem_cons_of_mem _ hy, hbeginning⟩
    · exact fun x hx => (hspells.origin x hx).imp_left (List.mem_cons_of_mem _)
    · rintro y (_ | ⟨_, hy⟩)
      · exact .inl ha
      · exact hspells.queue_mem y hy
  | case3 visited a nodes ha e he => cases h
  | case4 visited a nodes ha row hrow ih =>
    obtain ⟨⟨u, a⟩, queue, rfl, rfl, rfl⟩ := List.map_eq_cons_iff.1 hnodes
    rw [List.map_cons] at hqueue
    cases hrest : g.visitFrom (visited.insert a) (queue.map Prod.snd ++ g.successors row) with
    | error e => rw [hrest] at h; cases h
    | ok rest =>
      rw [hrest] at h
      cases h
      have hpushed : Queued ((queue ++ row.map fun e => (u ++ [e.1], e.2)).map Prod.fst) := by
        have := hqueue.push (hg.ascending a row hrow)
        rw [List.map_map] at this
        rw [List.map_append, List.map_map]
        exact this
      obtain ⟨spelled, rfl, hspells⟩ := ih hpushed (by simp [hg.successors_eq]) hrest
      exact ⟨(u, a, row) :: spelled, rfl, hspells.cons hqueue⟩

/-! ### Visits from a first node -/

section First

variable {first : α} {spelled : List (List σ × α × List (σ × α))}

omit [LawfulEqOrd α] in
/-- The word of a node leads to it. -/
theorem Spells.leads (h : Spells ∅ [([], first)] spelled)
    (hexpand : ∀ x ∈ spelled, g.expand x.2.1 = .ok x.2.2) {w : List σ} :
    ∀ x ∈ spelled, x.1 = w → g.Leads first w x.2.1 := by
  induction w using List.reverseRecOn with
  | nil =>
    intro x hx hw
    rcases h.origin x hx with hmem | ⟨y, -, s, -, hword⟩
    · rw [List.mem_singleton] at hmem
      rw [(Prod.mk.inj hmem).2]
      exact .nil
    · rw [hw] at hword
      exact absurd hword (by simp)
  | append_singleton w t ih =>
    intro x hx hw
    rcases h.origin x hx with hmem | ⟨y, hy, s, hedge, hword⟩
    · rw [List.mem_singleton] at hmem
      rw [hw] at hmem
      exact absurd (Prod.mk.inj hmem).1 (by simp)
    · rw [hw] at hword
      obtain ⟨rfl, hlabel⟩ := List.append_inj' hword rfl
      obtain rfl := List.singleton_injective hlabel
      exact .snoc (ih y hy rfl) (hexpand y hy) hedge

omit [LawfulEqOrd α] in
/-- No word that leads to a node comes before the word of the node. -/
theorem Spells.exists_not_lt (h : Spells ∅ [([], first)] spelled)
    (hexpand : ∀ x ∈ spelled, g.expand x.2.1 = .ok x.2.2) {v : List σ} {c : α}
    (hv : g.Leads first v c) : ∃ x ∈ spelled, x.2.1 = c ∧ ¬ShortlexLt v x.1 := by
  induction hv with
  | nil => simpa using h.queue_mem ([], first) List.mem_cons_self
  | @snoc v a row s c _ hrow hc ih =>
    obtain ⟨x, hx, rfl, hnot⟩ := ih
    rw [hexpand x hx] at hrow
    cases hrow
    obtain ⟨y, hy, hyc, hnot'⟩ : ∃ y ∈ spelled, y.2.1 = c ∧ ¬ShortlexLt (x.1 ++ [s]) y.1 := by
      simpa using h.target_mem x hx (s, c) hc
    exact ⟨y, hy, hyc, ShortlexLt.not_lt_append hnot hnot'⟩

/-- The nodes that are visited from a first node can be given words that ascend. Each word is the
first one that leads to its node. -/
theorem Labelled.exists_first_words (hg : g.Labelled) {out : List (α × List (σ × α))}
    (h : g.visit [first] = .ok out) : ∃ words : List (List σ),
      words.Pairwise ShortlexLt ∧ ∀ (k : Nat) (a : α) (row : List (σ × α)),
        out[k]? = some (a, row) → ∃ w, words[k]? = some w ∧ g.Leads first w a ∧
          ∀ v, g.Leads first v a → v ≠ w → ShortlexLt w v := by
  have hqueue : Queued ([(([] : List σ), first)].map Prod.fst) := Queued.first
  obtain ⟨spelled, rfl, hspells⟩ := hg.exists_spells hqueue h
  have hcovers := covers_of_visit h
  have hexpand : ∀ x ∈ spelled, g.expand x.2.1 = .ok x.2.2 := fun x hx =>
    hcovers.expand_eq x.2 (List.mem_map_of_mem hx)
  -- No node is visited twice, so a node has one word.
  have hnodup := hcovers.nodup
  rw [List.map_map] at hnodup
  refine ⟨spelled.map Prod.fst, List.pairwise_map.2 hspells.ascending, fun k a row hk => ?_⟩
  rw [List.getElem?_map, Option.map_eq_some_iff] at hk
  obtain ⟨⟨w, _, _⟩, hk, heq⟩ := hk
  cases heq
  have hmem := List.mem_of_getElem? hk
  refine ⟨w, by rw [List.getElem?_map, hk]; rfl, hspells.leads hexpand _ hmem rfl,
    fun v hv hne => ?_⟩
  obtain ⟨x, hx, hnode, hnot⟩ := hspells.exists_not_lt hexpand hv
  obtain rfl := List.inj_on_of_nodup_map hnodup hx hmem hnode
  exact ShortlexLt.of_not_lt hnot hne

end First

end Exploration

end PatternMachines
