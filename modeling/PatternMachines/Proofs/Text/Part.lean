import PatternMachines.Text.Part

/-!
# Texts put together and taken apart

## Main results

* `Text.pieces_append_cons`, `Text.pieces_of_not_mem`, `Text.mem_of_mem_pieces`,
  `Text.pieces_map`: the pieces between separators.
* `Text.toList_join_cons`, `Text.toList_join_empty`, `Text.mem_toList_join`: the characters of texts
  that are put together.
* `Text.join_empty_cons`: texts put together without a separator.
* `Text.toList_ofLines`, `Text.ofLines_cons`, `Text.ofLines_append`: texts that are each followed by
  a line end.
* `Text.length_join_empty_le`: how long a text is that is made of short ones.
-/

namespace PatternMachines.Text

section Pieces

variable {α : Type} [BEq α] [LawfulBEq α] {separator : α}

omit [LawfulBEq α] in
theorem pieces_ne_nil (xs : List α) : pieces separator xs ≠ [] := by
  cases xs with
  | nil => exact List.cons_ne_nil _ _
  | cons x xs =>
    rw [pieces]
    split
    · exact List.cons_ne_nil _ _
    · split <;> exact List.cons_ne_nil _ _

/-- A separator ends the pieces before it. -/
theorem pieces_append_cons (xs ys : List α) :
    pieces separator (xs ++ separator :: ys) = pieces separator xs ++ pieces separator ys := by
  induction xs with
  | nil => simp [pieces]
  | cons x xs ih =>
    rw [List.cons_append, pieces, pieces, ih]
    split
    · rfl
    · cases hxs : pieces separator xs with
      | nil => exact absurd hxs (pieces_ne_nil xs)
      | cons piece rest => rfl

theorem pieces_of_not_mem {xs : List α} (h : separator ∉ xs) : pieces separator xs = [xs] := by
  induction xs with
  | nil => rfl
  | cons x xs ih =>
    rw [List.mem_cons, not_or] at h
    have hx : ¬(x == separator) = true := fun heq => h.1 (beq_iff_eq.1 heq).symm
    rw [pieces, if_neg hx, ih h.2]

/-- The pieces of a list hold its items, but not the separator. -/
theorem mem_of_mem_pieces {xs piece : List α} {x : α} (hpiece : piece ∈ pieces separator xs)
    (hx : x ∈ piece) : x ∈ xs ∧ x ≠ separator := by
  induction xs generalizing piece with
  | nil =>
    rw [pieces, List.mem_singleton] at hpiece
    rw [hpiece] at hx
    cases hx
  | cons y xs ih =>
    have hlater {piece : List α} (hpiece : piece ∈ pieces separator xs) (hx : x ∈ piece) :
        x ∈ y :: xs ∧ x ≠ separator :=
      (ih hpiece hx).imp_left (List.mem_cons_of_mem y)
    rw [pieces] at hpiece
    split at hpiece
    · rcases List.mem_cons.1 hpiece with rfl | hpiece
      · cases hx
      · exact hlater hpiece hx
    · next hy =>
      cases hxs : pieces separator xs with
      | nil => exact absurd hxs (pieces_ne_nil xs)
      | cons first rest =>
        rw [hxs] at hpiece
        rcases List.mem_cons.1 hpiece with rfl | hpiece
        · rcases List.mem_cons.1 hx with rfl | hx
          · exact ⟨List.mem_cons_self, fun heq => hy (beq_iff_eq.2 heq)⟩
          · exact hlater (hxs ▸ List.mem_cons_self) hx
        · exact hlater (hxs ▸ List.mem_cons_of_mem _ hpiece) hx

/-- If just the separator is replaced by a separator, the items of the pieces are replaced. -/
theorem pieces_map {β : Type} [BEq β] [LawfulBEq β] {f : β → α} {other : β}
    (hf : ∀ y, f y = separator ↔ y = other) (ys : List β) :
    pieces separator (ys.map f) = (pieces other ys).map (List.map f) := by
  induction ys with
  | nil => rfl
  | cons y ys ih =>
    rw [List.map_cons, pieces, pieces, ih]
    by_cases hy : y = other
    · rw [if_pos (beq_iff_eq.2 ((hf y).2 hy)), if_pos (beq_iff_eq.2 hy)]
      rfl
    · rw [if_neg fun h => hy ((hf y).1 (beq_iff_eq.1 h)), if_neg fun h => hy (beq_iff_eq.1 h)]
      cases hys : pieces other ys with
      | nil => exact absurd hys (pieces_ne_nil ys)
      | cons piece rest => rfl

end Pieces

theorem toList_join_cons (separator s : String) (rest : List String) :
    (join separator (s :: rest)).toList =
      s.toList ++ rest.flatMap fun t => separator.toList ++ t.toList := by
  rw [join]
  induction rest generalizing s with
  | nil => simp
  | cons t rest ih => rw [List.foldl_cons, ih]; simp

theorem toList_join_empty (ss : List String) : (join "" ss).toList = ss.flatMap String.toList := by
  cases ss with
  | nil => rfl
  | cons s rest => rw [toList_join_cons]; rfl

theorem join_empty_cons (s : String) (rest : List String) :
    join "" (s :: rest) = s ++ join "" rest := by
  rw [← String.toList_inj, String.toList_append, toList_join_empty, toList_join_empty,
    List.flatMap_cons]

/-- The characters of texts that are put together, but for those of the separator. -/
theorem mem_toList_join {separator : String} {ss : List String} {c : Char}
    (hc : c ∉ separator.toList) : c ∈ (join separator ss).toList ↔ ∃ s ∈ ss, c ∈ s.toList := by
  cases ss with
  | nil => simp [join]
  | cons s rest =>
    rw [toList_join_cons, List.mem_append, List.mem_flatMap]
    simp only [List.mem_append, List.mem_cons, exists_eq_or_imp, hc, false_or]

theorem toList_ofLines (ls : List String) :
    (ofLines ls).toList = ls.flatMap fun l => l.toList ++ ['\n'] := by
  have hfold (text : String) : (ls.foldl (fun text l => text ++ l ++ "\n") text).toList =
      text.toList ++ ls.flatMap fun l => l.toList ++ ['\n'] := by
    induction ls generalizing text with
    | nil => simp
    | cons l ls ih => rw [List.foldl_cons, ih]; simp
  exact hfold ""

theorem ofLines_append (ks ls : List String) : ofLines (ks ++ ls) = ofLines ks ++ ofLines ls := by
  rw [← String.toList_inj, String.toList_append, toList_ofLines, toList_ofLines, toList_ofLines,
    List.flatMap_append]

/-- Lines are texts with line ends between them and one more at the end. -/
theorem ofLines_cons (s : String) (rest : List String) :
    (ofLines (s :: rest)).toList = (join "\n" (s :: rest)).toList ++ ['\n'] := by
  rw [toList_ofLines, toList_join_cons]
  induction rest generalizing s with
  | nil => simp
  | cons t rest ih =>
    rw [List.flatMap_cons, ih]
    simp

theorem length_join_empty_le {ss : List String} {n : Nat} (h : ∀ s ∈ ss, s.length ≤ n) :
    (join "" ss).length ≤ ss.length * n := by
  rw [← String.length_toList, toList_join_empty]
  induction ss with
  | nil => simp
  | cons s ss ih =>
    rw [List.forall_mem_cons] at h
    have hrest := ih h.2
    have hs : s.toList.length ≤ n := String.length_toList ▸ h.1
    rw [List.flatMap_cons, List.length_append, List.length_cons, Nat.succ_mul]
    omega

end PatternMachines.Text
