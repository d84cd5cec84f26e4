import PatternMachines.Exploration

/-!
# What an exploration visits

A node is reached if it is one of the first nodes or a successor of an expanded node that is
reached. An exploration ends without an error exactly if every node that is reached can be
expanded, and then it visits each of them once.

## Main definitions

* `Exploration.Reaches`: the nodes that are reached from the first ones.

## Main results

* `Exploration.visit_eq_ok_iff`: when an exploration ends without an error.
* `Exploration.mem_visit_iff`: what is visited.
* `Exploration.nodup_visit`: nothing is visited twice.
-/

namespace PatternMachines.Exploration

open Std

variable {ε α β : Type} [Ord α] [TransOrd α]

/-- The nodes that are reached from the first ones. -/
inductive Reaches (g : Exploration ε α β) (first : List α) : α → Prop
  | first {a : α} (h : a ∈ first) : Reaches g first a
  | next {a c : α} {b : β} (h : Reaches g first a) (hexpand : g.expand a = .ok b)
      (hc : c ∈ g.successors b) : Reaches g first c

omit [Ord α] [TransOrd α] in
/-- What is reached from nodes that are reached is reached. -/
theorem Reaches.trans {g : Exploration ε α β} {first queue : List α} {a : α}
    (h : g.Reaches queue a) (hqueue : ∀ x ∈ queue, g.Reaches first x) : g.Reaches first a := by
  induction h with
  | first ha => exact hqueue _ ha
  | next _ hexpand hc ih => exact ih.next hexpand hc

variable (g : Exploration ε α β)

/-- The equation of a visit to a node that can be expanded. -/
theorem visitFrom_cons_of_ok {visited : ExtTreeSet α} {a : α} (queue : List α) {b : β}
    (ha : ¬visited.contains a = true) (hb : g.expand a = .ok b) :
    g.visitFrom visited (a :: queue) =
      (g.visitFrom (visited.insert a) (queue ++ g.successors b)).map ((a, b) :: ·) := by
  rw [visitFrom, dif_neg ha]
  split
  · next e he => rw [hb] at he; cases he
  · next b' hb' => rw [hb] at hb'; cases hb'; rfl

/-! ### Visits that end without an error -/

variable {g}

/-- What is known of the nodes that a visit goes through, given the nodes visited before it and the
queue it begins with. -/
structure Covers (g : Exploration ε α β) (visited : ExtTreeSet α) (queue : List α)
    (out : List (α × β)) : Prop where
  /-- Each node comes with its description. -/
  expand_eq : ∀ x ∈ out, g.expand x.1 = .ok x.2
  /-- Each node is reached from the queue. -/
  reaches : ∀ x ∈ out, g.Reaches queue x.1
  /-- No node was visited before. -/
  fresh : ∀ x ∈ out, visited.contains x.1 = false
  /-- No node is visited twice. -/
  nodup : (out.map Prod.fst).Nodup
  /-- The whole queue has been visited. -/
  queue_mem : ∀ a ∈ queue, visited.contains a = true ∨ a ∈ out.map Prod.fst
  /-- All successors have been visited. -/
  successors_mem : ∀ x ∈ out, ∀ c ∈ g.successors x.2,
    visited.contains c = true ∨ c ∈ out.map Prod.fst

variable [LawfulEqOrd α]

/-- A node that is expanded comes before what is covered from the rest of the queue and its
successors. -/
theorem Covers.cons {visited : ExtTreeSet α} {a : α} {queue : List α} {b : β}
    {out : List (α × β)} (ha : ¬visited.contains a = true) (hb : g.expand a = .ok b)
    (h : g.Covers (visited.insert a) (queue ++ g.successors b) out) :
    g.Covers visited (a :: queue) ((a, b) :: out) := by
  have hinsert (c : α) (hc : (visited.insert a).contains c = true ∨ c ∈ out.map Prod.fst) :
      visited.contains c = true ∨ c ∈ ((a, b) :: out).map Prod.fst := by
    rw [ExtTreeSet.contains_insert, Bool.or_eq_true, beq_iff_eq, Std.compare_eq_iff_eq] at hc
    rcases hc with (rfl | hc) | hc
    · exact .inr List.mem_cons_self
    · exact .inl hc
    · exact .inr (List.mem_cons_of_mem _ hc)
  have hfirst : g.Reaches (a :: queue) a := .first List.mem_cons_self
  have hqueue (c : α) (hc : c ∈ queue ++ g.successors b) : g.Reaches (a :: queue) c := by
    rcases List.mem_append.1 hc with hc | hc
    · exact .first (List.mem_cons_of_mem _ hc)
    · exact hfirst.next hb hc
  have hfresh (x : α × β) (hx : x ∈ out) : x.1 ≠ a ∧ visited.contains x.1 = false := by
    have hx := h.fresh x hx
    rw [ExtTreeSet.contains_insert, Bool.or_eq_false_iff, beq_eq_false_iff_ne, ne_eq,
      Std.compare_eq_iff_eq] at hx
    exact ⟨Ne.symm hx.1, hx.2⟩
  refine { expand_eq := ?expand_eq, reaches := ?reaches, fresh := ?fresh, nodup := ?nodup,
           queue_mem := ?queue_mem, successors_mem := ?successors_mem }
  case expand_eq =>
    rintro x (_ | ⟨_, hx⟩)
    · exact hb
    · exact h.expand_eq x hx
  case reaches =>
    rintro x (_ | ⟨_, hx⟩)
    · exact hfirst
    · exact (h.reaches x hx).trans hqueue
  case fresh =>
    rintro x (_ | ⟨_, hx⟩)
    · rwa [Bool.not_eq_true] at ha
    · exact (hfresh x hx).2
  case nodup =>
    rw [List.map_cons, List.nodup_cons]
    refine ⟨fun hmem => ?_, h.nodup⟩
    obtain ⟨x, hx, heq⟩ := List.mem_map.1 hmem
    exact (hfresh x hx).1 heq
  case queue_mem =>
    rintro c (_ | ⟨_, hc⟩)
    · exact .inr List.mem_cons_self
    · exact hinsert c (h.queue_mem c (List.mem_append_left _ hc))
  case successors_mem =>
    rintro x (_ | ⟨_, hx⟩) c hc
    · exact hinsert c (h.queue_mem c (List.mem_append_right _ hc))
    · exact hinsert c (h.successors_mem x hx c hc)

theorem covers_of_visitFrom {visited : ExtTreeSet α} {queue : List α} {out : List (α × β)}
    (h : g.visitFrom visited queue = .ok out) : g.Covers visited queue out := by
  fun_induction visitFrom g visited queue generalizing out with
  | case1 visited =>
    cases h
    exact ⟨by simp, by simp, by simp, by simp, by simp, by simp⟩
  | case2 visited a queue ha ih =>
    obtain ⟨hexpand, hreaches, hfresh, hnodup, hqueue, hsuccessors⟩ := ih h
    refine ⟨hexpand, fun x hx => (hreaches x hx).trans fun c hc => ?_, hfresh, hnodup, ?_,
      hsuccessors⟩
    · exact .first (List.mem_cons_of_mem _ hc)
    · rintro c (_ | ⟨_, hc⟩)
      · exact .inl ha
      · exact hqueue c hc
  | case3 visited a queue ha e he => cases h
  | case4 visited a queue ha b hb ih =>
    cases hrest : g.visitFrom (visited.insert a) (queue ++ g.successors b) with
    | error e => rw [hrest] at h; cases h
    | ok rest =>
      rw [hrest] at h
      cases h
      exact (ih hrest).cons ha hb

omit [LawfulEqOrd α] in
/-- An error of a visit is the error of a node that is reached. -/
theorem reaches_of_visitFrom_eq_error {visited : ExtTreeSet α} {queue : List α} {e : ε}
    (h : g.visitFrom visited queue = .error e) :
    ∃ a, g.Reaches queue a ∧ g.expand a = .error e := by
  fun_induction visitFrom g visited queue with
  | case1 visited => cases h
  | case2 visited a queue ha ih =>
    obtain ⟨c, hc, he⟩ := ih h
    exact ⟨c, hc.trans fun x hx => .first (List.mem_cons_of_mem _ hx), he⟩
  | case3 visited a queue ha e' he' =>
    cases h
    exact ⟨a, .first List.mem_cons_self, he'⟩
  | case4 visited a queue ha b hb ih =>
    cases hrest : g.visitFrom (visited.insert a) (queue ++ g.successors b) with
    | ok rest => rw [hrest] at h; cases h
    | error e' =>
      rw [hrest] at h
      cases h
      obtain ⟨c, hc, he⟩ := ih hrest
      refine ⟨c, hc.trans fun x hx => ?_, he⟩
      rcases List.mem_append.1 hx with hx | hx
      · exact .first (List.mem_cons_of_mem _ hx)
      · exact (Reaches.first List.mem_cons_self).next hb hx

/-! ### Visits from the first nodes -/

variable {first : List α} {out : List (α × β)}

theorem covers_of_visit (h : g.visit first = .ok out) : g.Covers ∅ first out :=
  covers_of_visitFrom h

theorem reaches_iff_mem_map_fst (h : g.visit first = .ok out) {a : α} :
    g.Reaches first a ↔ a ∈ out.map Prod.fst := by
  have hcovers := covers_of_visit h
  constructor
  · intro ha
    induction ha with
    | first ha => simpa using hcovers.queue_mem _ ha
    | next _ hexpand hc ih =>
      obtain ⟨x, hx, rfl⟩ := List.mem_map.1 ih
      rw [hcovers.expand_eq x hx] at hexpand
      cases hexpand
      simpa using hcovers.successors_mem x hx _ hc
  · intro ha
    obtain ⟨x, hx, rfl⟩ := List.mem_map.1 ha
    exact hcovers.reaches x hx

/-- The nodes that are reached are visited, each with its description, and no others. -/
theorem mem_visit_iff (h : g.visit first = .ok out) {a : α} {b : β} :
    (a, b) ∈ out ↔ g.Reaches first a ∧ g.expand a = .ok b := by
  have hcovers := covers_of_visit h
  constructor
  · intro hab
    exact ⟨hcovers.reaches _ hab, hcovers.expand_eq _ hab⟩
  · rintro ⟨hreaches, hexpand⟩
    obtain ⟨x, hx, rfl⟩ := List.mem_map.1 ((reaches_iff_mem_map_fst h).1 hreaches)
    rw [hcovers.expand_eq x hx] at hexpand
    cases hexpand
    exact hx

/-- No node is visited twice. -/
theorem nodup_visit (h : g.visit first = .ok out) : (out.map Prod.fst).Nodup :=
  (covers_of_visit h).nodup

/-- An exploration ends without an error exactly if all nodes that are reached can be expanded. -/
theorem visit_eq_ok_iff :
    (∃ out, g.visit first = .ok out) ↔ ∀ a, g.Reaches first a → ∃ b, g.expand a = .ok b := by
  constructor
  · rintro ⟨out, h⟩ a ha
    obtain ⟨x, hx, rfl⟩ := List.mem_map.1 ((reaches_iff_mem_map_fst h).1 ha)
    exact ⟨x.2, (covers_of_visit h).expand_eq x hx⟩
  · intro hall
    cases h : g.visit first with
    | ok out => exact ⟨out, rfl⟩
    | error e =>
      obtain ⟨a, ha, he⟩ := reaches_of_visitFrom_eq_error h
      obtain ⟨b, hb⟩ := hall a ha
      rw [he] at hb
      cases hb

omit [LawfulEqOrd α] in
/-- An exploration from a single node visits it first. -/
theorem head?_visit_singleton {a : α} {b : β} (hb : g.expand a = .ok b)
    (h : g.visit [a] = .ok out) : out.head? = some (a, b) := by
  rw [visit, visitFrom_cons_of_ok g [] (by simp) hb] at h
  cases hrest : g.visitFrom ((∅ : ExtTreeSet α).insert a) ([] ++ g.successors b) with
  | error e => rw [hrest] at h; cases h
  | ok rest => rw [hrest] at h; cases h; rfl

end PatternMachines.Exploration
