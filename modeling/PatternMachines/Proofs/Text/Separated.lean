import Mathlib.Data.Set.Basic
import PatternMachines.Proofs.Text.Part

/-!
# Texts that can be told apart again

Values may be written one after another, with a separator between them that can also occur within
what is written. They can be told apart again if what is written of a value shows where it ends, in
front of everything that may follow it there.

## Main definitions

* `Text.Follows`: what may stand behind a text that is joined with others.
* `Text.Delimited`: values that show where they end.

## Main results

* `Text.eq_of_append_eq`, `Text.eq_of_append_eq_right`: characters of a kind before and behind
  others.
* `Text.Delimited.eq_of_join_eq`: joined texts can be told apart.
-/

namespace PatternMachines.Text

variable {α : Type} {write : α → String} {values : Set α} {separator : String}

/-- Characters of a kind are told apart from what begins with a character of another kind. -/
theorem eq_of_append_eq {kind : Char → Bool} {u v r s : List Char} (hu : ∀ c ∈ u, kind c = true)
    (hv : ∀ c ∈ v, kind c = true) (hr : ∀ c ∈ r.head?, kind c = false)
    (hs : ∀ c ∈ s.head?, kind c = false) (h : u ++ r = v ++ s) : u = v ∧ r = s := by
  have htake {u r : List Char} (hu : ∀ c ∈ u, kind c = true)
      (hr : ∀ c ∈ r.head?, kind c = false) : (u ++ r).takeWhile kind = u := by
    rw [List.takeWhile_append_of_pos hu]
    cases r with
    | nil => rw [List.takeWhile_nil, List.append_nil]
    | cons c r =>
      have hc : ¬kind c = true := Bool.not_eq_true _ ▸ hr c rfl
      rw [List.takeWhile_cons_of_neg hc, List.append_nil]
  obtain rfl : u = v := by rw [← htake hu hr, h, htake hv hs]
  exact ⟨rfl, List.append_cancel_left h⟩

/-- Characters of a kind are told apart from what ends with a character of another kind. -/
theorem eq_of_append_eq_right {kind : Char → Bool} {u v r s : List Char}
    (hu : ∀ c ∈ u.getLast?, kind c = false) (hv : ∀ c ∈ v.getLast?, kind c = false)
    (hr : ∀ c ∈ r, kind c = true) (hs : ∀ c ∈ s, kind c = true) (h : u ++ r = v ++ s) :
    u = v ∧ r = s := by
  have hreverse := congrArg List.reverse h
  rw [List.reverse_append, List.reverse_append] at hreverse
  obtain ⟨hrs, huv⟩ := eq_of_append_eq (fun c hc => hr c (List.mem_reverse.1 hc))
    (fun c hc => hs c (List.mem_reverse.1 hc)) (List.head?_reverse ▸ hu) (List.head?_reverse ▸ hv)
    hreverse
  exact ⟨List.reverse_inj.1 huv, List.reverse_inj.1 hrs⟩

/-- What may stand behind a text that is joined with others: nothing, or the separator first. -/
def Follows (separator : String) (rest : List Char) : Prop :=
  rest = [] ∨ separator.toList <+: rest

/-- Whether what is written of the values shows where it ends, in front of certain rests. -/
def Delimited (write : α → String) (values : Set α) (before : List Char → Prop) : Prop :=
  ∀ a ∈ values, ∀ b ∈ values, ∀ r s : List Char, before r → before s →
    (write a).toList ++ r = (write b).toList ++ s → a = b ∧ r = s

theorem Delimited.mono {before before' : List Char → Prop} (h : Delimited write values before)
    (hbefore : ∀ r, before' r → before r) : Delimited write values before' :=
  fun a ha b hb r s hr hs => h a ha b hb r s (hbefore r hr) (hbefore s hs)

theorem follows_flatMap (xs : List α) :
    Follows separator (xs.flatMap fun a => separator.toList ++ (write a).toList) := by
  cases xs with
  | nil => exact .inl rfl
  | cons a xs =>
    rw [List.flatMap_cons, List.append_assoc]
    exact .inr (List.prefix_append _ _)

/-- Values that are each written behind a separator can be told apart. -/
theorem Delimited.eq_of_flatMap_eq (h : Delimited write values (Follows separator))
    (hseparator : separator ≠ "") {xs ys : List α} (hxs : ∀ a ∈ xs, a ∈ values)
    (hys : ∀ a ∈ ys, a ∈ values)
    (heq : (xs.flatMap fun a => separator.toList ++ (write a).toList) =
      ys.flatMap fun a => separator.toList ++ (write a).toList) : xs = ys := by
  have hne : separator.toList ≠ [] := fun hnil => hseparator (String.toList_eq_nil_iff.1 hnil)
  induction xs generalizing ys with
  | nil =>
    cases ys with
    | nil => rfl
    | cons b ys => simp [hne] at heq
  | cons a xs ih =>
    cases ys with
    | nil => simp [hne] at heq
    | cons b ys =>
      rw [List.forall_mem_cons] at hxs hys
      rw [List.flatMap_cons, List.flatMap_cons, List.append_assoc, List.append_assoc,
        List.append_cancel_left_eq] at heq
      obtain ⟨rfl, hrest⟩ := h a hxs.1 b hys.1 _ _ (follows_flatMap xs) (follows_flatMap ys) heq
      rw [ih hxs.2 hys.2 hrest]

/-- Values that are joined with a separator can be told apart. -/
theorem Delimited.eq_of_join_eq (h : Delimited write values (Follows separator))
    (hseparator : separator ≠ "") (hwrite : ∀ a ∈ values, write a ≠ "") {xs ys : List α}
    (hxs : ∀ a ∈ xs, a ∈ values) (hys : ∀ a ∈ ys, a ∈ values)
    (heq : join separator (xs.map write) = join separator (ys.map write)) : xs = ys := by
  have hchars (a : α) (xs : List α) : (join separator ((a :: xs).map write)).toList =
      (write a).toList ++ xs.flatMap fun a => separator.toList ++ (write a).toList := by
    rw [List.map_cons, toList_join_cons, List.flatMap_map]
  have hne (a : α) (ha : a ∈ values) (xs : List α) : join separator ((a :: xs).map write) ≠ "" := by
    rw [← String.toList_inj.ne, hchars]
    simp [hwrite a ha]
  cases xs with
  | nil =>
    cases ys with
    | nil => rfl
    | cons b ys => exact absurd heq.symm (hne b (hys b List.mem_cons_self) ys)
  | cons a xs =>
    cases ys with
    | nil => exact absurd heq (hne a (hxs a List.mem_cons_self) xs)
    | cons b ys =>
      refine h.eq_of_flatMap_eq hseparator hxs hys ?_
      rw [List.flatMap_cons, List.flatMap_cons, List.append_assoc, List.append_assoc, ← hchars,
        ← hchars, heq]

end PatternMachines.Text
