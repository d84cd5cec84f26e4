import PatternMachines.Exploration

/-!
# The rounds of an exploration

Each round of an exploration takes one node from the front of the queue, and the round in which a
node is visited puts its successors at the end. Every round takes a node that was put into the queue
once, so the rounds are no more than the nodes in the queue and the successors of all nodes that can
be expanded.

## Main definitions

* `Exploration.visitWithin`: an exploration that is given up after a number of rounds.
* `Exploration.outstanding`: the successors that are still to be put into the queue.

## Main results

* `Exploration.visitWithin_eq_visit`: how many rounds are enough.
-/

namespace PatternMachines.Exploration

open Std

variable {ε α β : Type} [Ord α] [TransOrd α]

/-- The exploration of the queue, given up after a number of rounds. -/
def visitWithin (g : Exploration ε α β) :
    Nat → ExtTreeSet α → List α → Option (Except ε (List (α × β)))
  | _, _, [] => some (.ok [])
  | 0, _, _ :: _ => none
  | rounds + 1, visited, a :: queue =>
    if visited.contains a then
      g.visitWithin rounds visited queue
    else
      match g.expand a with
      | .error e => some (.error e)
      | .ok b =>
        (g.visitWithin rounds (visited.insert a) (queue ++ g.successors b)).map
          (·.map ((a, b) :: ·))

/-! ### Successors that are still to come -/

section Outstanding

variable {γ : Type} {next : α → List γ} {visited : ExtTreeSet α} {domain : List α} {a x : α}

/-- The successors that a node may still put into the queue, if `next` lists them. -/
def outstandingOf (next : α → List γ) (visited : ExtTreeSet α) (x : α) : List γ :=
  if visited.contains x then [] else next x

/-- The successors that the nodes of a list may still put into the queue. -/
def outstanding (next : α → List γ) (visited : ExtTreeSet α) (domain : List α) : List γ :=
  domain.flatMap (outstandingOf next visited)

theorem length_outstandingOf_insert_le :
    (outstandingOf next (visited.insert a) x).length ≤ (outstandingOf next visited x).length := by
  rw [outstandingOf, outstandingOf, ExtTreeSet.contains_insert]
  by_cases hx : visited.contains x = true
  · simp [hx]
  · rw [if_neg hx]
    split
    · exact Nat.zero_le _
    · exact Nat.le_refl _

theorem length_outstanding_cons : (outstanding next visited (x :: domain)).length =
    (outstandingOf next visited x).length + (outstanding next visited domain).length := by
  rw [outstanding, List.flatMap_cons, List.length_append, outstanding]

theorem length_outstanding_insert_le :
    (outstanding next (visited.insert a) domain).length ≤
      (outstanding next visited domain).length := by
  induction domain with
  | nil => exact Nat.le_refl _
  | cons x domain ih =>
    rw [length_outstanding_cons, length_outstanding_cons]
    exact Nat.add_le_add length_outstandingOf_insert_le ih

/-- The visit to a node settles its successors. -/
theorem length_outstanding_insert_add_le (ha : a ∈ domain) (hvisited : ¬visited.contains a = true) :
    (outstanding next (visited.insert a) domain).length + (next a).length ≤
      (outstanding next visited domain).length := by
  induction domain with
  | nil => cases ha
  | cons x domain ih =>
    rw [length_outstanding_cons, length_outstanding_cons]
    rcases List.mem_cons.1 ha with rfl | ha
    · have hbefore : outstandingOf next visited a = next a := if_neg hvisited
      have hafter : outstandingOf next (visited.insert a) a = [] :=
        if_pos ExtTreeSet.contains_insert_self
      have hle : (outstanding next (visited.insert a) domain).length ≤
          (outstanding next visited domain).length := length_outstanding_insert_le
      rw [hbefore, hafter, List.length_nil]
      omega
    · have hhead : (outstandingOf next (visited.insert a) x).length ≤
          (outstandingOf next visited x).length := length_outstandingOf_insert_le
      have htail := ih ha
      omega

theorem outstanding_empty : outstanding next ∅ domain = domain.flatMap next := by
  have hnext : outstandingOf next (∅ : ExtTreeSet α) = next := funext fun x => if_neg (by simp)
  rw [outstanding, hnext]

end Outstanding

/-! ### Enough rounds -/

section Rounds

variable {γ : Type} {g : Exploration ε α β} {next : α → List γ} {domain : List α} {rounds : Nat}
  {visited : ExtTreeSet α} {queue : List α}
  (hdomain : ∀ a b, g.expand a = .ok b → a ∈ domain ∧ (g.successors b).length ≤ (next a).length)

include hdomain

/-- As many rounds are enough as there are nodes in the queue and successors that are still to
come. -/
theorem visitWithin_eq_visitFrom
    (hrounds : queue.length + (outstanding next visited domain).length ≤ rounds) :
    g.visitWithin rounds visited queue = some (g.visitFrom visited queue) := by
  fun_induction visitFrom g visited queue generalizing rounds with
  | case1 visited => cases rounds <;> rfl
  | case2 visited a queue ha ih =>
    rw [List.length_cons] at hrounds
    obtain ⟨rounds, rfl⟩ : ∃ r, rounds = r + 1 := Nat.exists_eq_succ_of_ne_zero (by omega)
    rw [visitWithin, if_pos ha]
    exact ih (by omega)
  | case3 visited a queue ha e he =>
    rw [List.length_cons] at hrounds
    obtain ⟨rounds, rfl⟩ : ∃ r, rounds = r + 1 := Nat.exists_eq_succ_of_ne_zero (by omega)
    rw [visitWithin, if_neg ha, he]
  | case4 visited a queue ha b hb ih =>
    obtain ⟨hmem, hcount⟩ := hdomain a b hb
    have hle : (outstanding next (visited.insert a) domain).length + (next a).length ≤
        (outstanding next visited domain).length := length_outstanding_insert_add_le hmem ha
    rw [List.length_cons] at hrounds
    obtain ⟨rounds, rfl⟩ : ∃ r, rounds = r + 1 := Nat.exists_eq_succ_of_ne_zero (by omega)
    rw [visitWithin, if_neg ha, hb]
    dsimp only
    rw [ih (by rw [List.length_append]; omega), Option.map_some]

/-- As many rounds are enough as there are first nodes and successors of nodes that can be
expanded. -/
theorem visitWithin_eq_visit (hrounds : queue.length + (domain.flatMap next).length ≤ rounds) :
    g.visitWithin rounds ∅ queue = some (g.visit queue) :=
  visitWithin_eq_visitFrom hdomain (by rwa [outstanding_empty])

end Rounds

end PatternMachines.Exploration
