import Std.Data.ExtTreeSet

/-!
# Breadth-first exploration

The nodes that can be reached from some first nodes are visited in breadth-first order. A node is
expanded to a description, from which its successors are read. The expansion may fail, and the
exploration then fails with it. Only finitely many nodes can be expanded, so every exploration ends:
each visit takes a node that was not visited before.

## Main definitions

* `Exploration`: how nodes are expanded.
* `Exploration.visit`: the nodes reached, in the order of their first visit, with what they were
  expanded to.
-/

namespace PatternMachines

open Std

/-- A way to expand nodes of type `α` to descriptions of type `β`, or to fail with an error. -/
structure Exploration (ε α β : Type) where
  /-- The description of a node. -/
  expand : α → Except ε β
  /-- The successors of a node, read from its description. -/
  successors : β → List α
  /-- Only finitely many nodes are expanded without an error. -/
  finite : ∃ domain : List α, ∀ a b, expand a = .ok b → a ∈ domain

namespace Exploration

variable {ε α β : Type} [Ord α] [TransOrd α]

omit [Ord α] [TransOrd α] in
/-- Nodes among which are all that can be expanded. -/
noncomputable def domain (g : Exploration ε α β) : List α := g.finite.choose

omit [Ord α] [TransOrd α] in
theorem mem_domain (g : Exploration ε α β) {a : α} {b : β} (h : g.expand a = .ok b) :
    a ∈ g.domain :=
  g.finite.choose_spec a b h

/-- How many nodes of the domain have not been visited. -/
noncomputable def unvisited (g : Exploration ε α β) (visited : ExtTreeSet α) : Nat :=
  (g.domain.filter fun a => !visited.contains a).length

omit [Ord α] [TransOrd α] in
theorem length_filter_lt_of_imp {p q : α → Bool} {l : List α} {a : α} (ha : a ∈ l)
    (hpq : ∀ x, q x = true → p x = true) (hp : p a = true) (hq : q a = false) :
    (l.filter q).length < (l.filter p).length := by
  induction l with
  | nil => simp at ha
  | cons x l ih =>
    have hle : (l.filter q).length ≤ (l.filter p).length := by
      rw [← List.countP_eq_length_filter, ← List.countP_eq_length_filter]
      exact List.countP_mono_left fun y _ hy => hpq y hy
    rcases List.mem_cons.1 ha with rfl | ha
    · simp only [List.filter_cons, hp, hq, if_true, Bool.false_eq_true, if_false,
        List.length_cons]
      omega
    · have hlt := ih ha
      simp only [List.filter_cons]
      cases hqx : q x with
      | true => simp only [hpq x hqx, if_true, List.length_cons]; omega
      | false =>
        cases p x with
        | true => simp only [Bool.false_eq_true, if_false, if_true, List.length_cons]; omega
        | false => simpa using hlt

/-- A visit uses up a node of the domain. -/
theorem unvisited_insert_lt (g : Exploration ε α β) {visited : ExtTreeSet α} {a : α} {b : β}
    (hexpand : g.expand a = .ok b) (ha : visited.contains a = false) :
    g.unvisited (visited.insert a) < g.unvisited visited := by
  refine length_filter_lt_of_imp (g.mem_domain hexpand) ?_ (by simpa using ha) ?_
  · intro x hx
    simp only [Bool.not_eq_true', ExtTreeSet.contains_insert] at hx ⊢
    exact (Bool.or_eq_false_iff.1 hx).2
  · simp [ExtTreeSet.contains_insert]

/-- The nodes of the queue and all that follow from them, in the order of their first visit and
without those that were visited before, each with its description. -/
def visitFrom (g : Exploration ε α β) (visited : ExtTreeSet α) (queue : List α) :
    Except ε (List (α × β)) :=
  match queue with
  | [] => .ok []
  | a :: queue =>
    if _hvisited : visited.contains a = true then
      g.visitFrom visited queue
    else
      match _hexpand : g.expand a with
      | .error e => .error e
      | .ok b =>
        (g.visitFrom (visited.insert a) (queue ++ g.successors b)).map ((a, b) :: ·)
termination_by (g.unvisited visited, queue.length)
decreasing_by
  · exact Prod.Lex.right _ (by simp)
  · exact Prod.Lex.left _ _
      (g.unvisited_insert_lt _hexpand (by simpa only [Bool.not_eq_true] using _hvisited))

/-- The nodes reached from the first ones, in the order of their first visit, each with its
description. -/
def visit (g : Exploration ε α β) (first : List α) : Except ε (List (α × β)) :=
  g.visitFrom ∅ first

end Exploration

end PatternMachines
