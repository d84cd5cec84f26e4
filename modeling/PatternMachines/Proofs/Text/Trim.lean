import Mathlib.Data.List.DropRight
import PatternMachines.Text.Trim

/-!
# Trimmed lists

Trimming a list gives one without blank items at its ends, and it changes no such list. Blank items
that are put to the ends of a list do not matter.

## Main definitions

* `Text.IsTrimmed`: a list without blank items at its ends.

## Main results

* `Text.isTrimmed_trimList`, `Text.trimList_of_isTrimmed`: the lists that trimming gives, and those
  that it leaves as they are.
* `Text.trimList_append`, `Text.trimList_of_blank`: blank items at the ends.
* `Text.trimList_map`, `Text.isTrimmed_map_iff`: lists whose items are replaced.
-/

namespace PatternMachines.Text

variable {α β : Type} {blank : α → Bool} {xs before after : List α}

/-- A list without blank items at its ends. -/
structure IsTrimmed (blank : α → Bool) (xs : List α) : Prop where
  /-- The first item is not blank. -/
  head : ∀ x ∈ xs.head?, blank x = false
  /-- The last item is not blank. -/
  last : ∀ x ∈ xs.getLast?, blank x = false

theorem trimList_eq_rdropWhile : trimList blank xs = (xs.dropWhile blank).rdropWhile blank := rfl

theorem mem_of_mem_trimList {x : α} (hx : x ∈ trimList blank xs) : x ∈ xs :=
  (List.dropWhile_suffix blank).mem ((List.rdropWhile_prefix blank _).mem hx)

theorem isTrimmed_trimList : IsTrimmed blank (trimList blank xs) where
  head x hx := by
    -- What is dropped at the end leaves the first item as it is.
    obtain ⟨rest, hrest⟩ : trimList blank xs <+: xs.dropWhile blank :=
      List.rdropWhile_prefix blank _
    have hhead := List.head?_dropWhile_not blank xs
    rwa [← hrest, List.head?_append, hx] at hhead
  last x hx := by
    obtain ⟨hne, rfl⟩ := List.mem_getLast?_eq_getLast hx
    exact Bool.not_eq_true _ ▸ List.rdropWhile_last_not blank _ hne

theorem trimList_of_isTrimmed (h : IsTrimmed blank xs) : trimList blank xs = xs := by
  have hfirst : xs.dropWhile blank = xs := by
    cases xs with
    | nil => rfl
    | cons x xs => exact List.dropWhile_cons_of_neg (Bool.not_eq_true _ ▸ h.head x rfl)
  rw [trimList_eq_rdropWhile, hfirst, List.rdropWhile_eq_self_iff]
  intro hne
  rw [h.last _ (List.getLast?_eq_some_getLast hne)]
  exact Bool.false_ne_true

theorem trimList_of_blank (h : ∀ x ∈ xs, blank x = true) : trimList blank xs = [] := by
  rw [trimList_eq_rdropWhile, List.dropWhile_eq_nil_iff.2 h, List.rdropWhile_nil]

theorem rdropWhile_append_of_blank (hafter : ∀ x ∈ after, blank x = true) (xs : List α) :
    (xs ++ after).rdropWhile blank = xs.rdropWhile blank := by
  have hreverse : ∀ x ∈ after.reverse, blank x = true := fun x hx =>
    hafter x (List.mem_reverse.1 hx)
  rw [List.rdropWhile, List.reverse_append, List.dropWhile_append_of_pos hreverse, List.rdropWhile]

/-- Blank items at the ends of a list are dropped. -/
theorem trimList_append (hbefore : ∀ x ∈ before, blank x = true)
    (hafter : ∀ x ∈ after, blank x = true) :
    trimList blank (before ++ xs ++ after) = trimList blank xs := by
  rw [trimList_eq_rdropWhile, List.append_assoc, List.dropWhile_append_of_pos hbefore,
    List.dropWhile_append, trimList_eq_rdropWhile]
  split
  · next hempty =>
    rw [List.isEmpty_iff] at hempty
    rw [hempty, List.dropWhile_eq_nil_iff.2 hafter]
  · exact rdropWhile_append_of_blank hafter _

theorem trimList_map (f : β → α) (xs : List β) :
    trimList blank (xs.map f) = (trimList (blank ∘ f) xs).map f := by
  simp only [trimList, List.dropWhile_map, ← List.map_reverse]

theorem isTrimmed_map_iff (f : β → α) {xs : List β} :
    IsTrimmed blank (xs.map f) ↔ IsTrimmed (blank ∘ f) xs := by
  constructor
  · intro h
    exact ⟨fun x hx => h.head _ (by simpa using ⟨x, hx, rfl⟩),
      fun x hx => h.last _ (by simpa using ⟨x, hx, rfl⟩)⟩
  · intro h
    refine ⟨fun y hy => ?_, fun y hy => ?_⟩
    · obtain ⟨x, hx, rfl⟩ : ∃ x, xs.head? = some x ∧ f x = y := by simpa using hy
      exact h.head x hx
    · obtain ⟨x, hx, rfl⟩ : ∃ x, xs.getLast? = some x ∧ f x = y := by simpa using hy
      exact h.last x hx

end PatternMachines.Text
