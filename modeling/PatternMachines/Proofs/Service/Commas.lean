import PatternMachines.Proofs.Symbol
import PatternMachines.Proofs.Text.Part
import PatternMachines.Proofs.Text.Trim
import PatternMachines.Service.Request

/-!
# Texts between commas

A request may give several texts in one, with commas between them. Blanks around a text do not
belong to it, and where nothing but blanks stands there is no text. So the lists of texts that can
be given are those of trimmed texts that are not empty and hold no comma, and each of them can be
written in many ways.

## Main definitions

* `Service.IsItem`: the texts that can be given between commas.
* `Service.Slot`, `Service.Writes`: the ways to write texts with commas between them.
* `Service.joinCommas`: texts with commas between them and nothing else.

## Main results

* `Service.commaSeparated_eq`, `Service.commaSeparated_ofCodes`: what is read from codes.
* `Service.Writes.read`: texts that were written are read.
* `Service.testsOf_between_commas`: the texts that are read between commas.
-/

namespace PatternMachines

open Text

/-! ### Texts given by their codes -/

namespace LooseText

theorem any_isHalf_codes (s : String) : (LooseText.proper s).codes.any isHalf = false := by
  rw [codes, List.any_map, List.any_eq_false]
  exact fun c _ => Bool.eq_false_iff.1 (Symbol.isHalf_toNat c)

theorem ofCodes_codes (s : String) : ofCodes (LooseText.proper s).codes = .proper s := by
  rw [ofCodes, any_isHalf_codes, if_neg Bool.false_ne_true, codes, List.map_map]
  simp [Function.comp_def]

theorem codes_ofCodes_of_any_isHalf {cs : List Nat} (h : cs.any isHalf = true) :
    (ofCodes cs).codes = cs := by
  rw [ofCodes, if_pos h]
  rfl

end LooseText

theorem charOfNat_eq_iff {c : Char} (hc : c ≠ Char.ofNat 0) {n : Nat} :
    Char.ofNat n = c ↔ n = c.toNat := by
  constructor
  · rintro rfl
    -- A code of no character would give the null character.
    have hvalid : n.isValidChar := by
      by_contra hn
      exact hc ((dif_neg hn).trans rfl)
    have hchar : Char.ofNat n = Char.ofNatAux n hvalid := dif_pos hvalid
    rw [hchar]
    rfl
  · rintro rfl
    exact Char.ofNat_toNat c

namespace Service

variable {ts : List LooseText} {t u : LooseText} {cs : List Nat}

/-! ### Trimmed pieces -/

section TrimmedPieces

variable {α : Type} [BEq α] [LawfulBEq α] {separator : α} {blank : α → Bool} {xs piece : List α}

/-- A separator ends the pieces before it. -/
theorem trimmedPieces_append_cons (xs ys : List α) :
    trimmedPieces separator blank (xs ++ separator :: ys) =
      trimmedPieces separator blank xs ++ trimmedPieces separator blank ys := by
  simp only [trimmedPieces, pieces_append_cons, List.map_append, List.filter_append]

theorem trimmedPieces_of_not_mem (h : separator ∉ xs) :
    trimmedPieces separator blank xs = [trimList blank xs].filter (!·.isEmpty) := by
  rw [trimmedPieces, pieces_of_not_mem h, List.map_singleton]

/-- The trimmed pieces of a list are trimmed, not empty, and hold its items without separators. -/
theorem mem_trimmedPieces (h : piece ∈ trimmedPieces separator blank xs) :
    piece ≠ [] ∧ IsTrimmed blank piece ∧ ∀ x ∈ piece, x ∈ xs ∧ x ≠ separator := by
  obtain ⟨hpiece, hne⟩ := List.mem_filter.1 h
  obtain ⟨whole, hwhole, rfl⟩ := List.mem_map.1 hpiece
  refine ⟨by simpa using hne, isTrimmed_trimList, fun x hx => ?_⟩
  exact mem_of_mem_pieces hwhole (mem_of_mem_trimList hx)

theorem trimmedPieces_map {β : Type} [BEq β] [LawfulBEq β] {f : β → α} {other : β}
    (hf : ∀ y, f y = separator ↔ y = other) (ys : List β) :
    trimmedPieces separator blank (ys.map f) =
      (trimmedPieces other (blank ∘ f) ys).map (List.map f) := by
  simp [trimmedPieces, pieces_map hf, trimList_map, List.filter_map, Function.comp_def]

end TrimmedPieces

/-! ### What is read from codes -/

/-- Whether a code is that of a blank. -/
def isBlankCode (n : Nat) : Bool := Unicode.isBlank (Char.ofNat n)

theorem commaSeparated_ofCodes (cs : List Nat) : commaSeparated (.ofCodes cs) =
    (trimmedPieces ','.toNat isBlankCode cs).map .ofCodes := by
  rw [LooseText.ofCodes]
  split
  · rfl
  · next hproper =>
    have hcomma (n : Nat) : Char.ofNat n = ',' ↔ n = ','.toNat := charOfNat_eq_iff (by decide)
    rw [commaSeparated, String.toList_ofList, trimmedPieces_map hcomma, List.map_map]
    refine List.map_congr_left fun piece hpiece => ?_
    -- No piece holds half a pair, since the whole text holds none.
    have hpiece : ¬piece.any isHalf = true := fun h => by
      obtain ⟨n, hn, hhalf⟩ := List.any_eq_true.1 h
      exact hproper (List.any_eq_true.2 ⟨n, ((mem_trimmedPieces hpiece).2.2 n hn).1, hhalf⟩)
    rw [LooseText.ofCodes, if_neg hpiece]
    rfl

/-- The texts between commas are read from the codes of the whole text. -/
theorem commaSeparated_eq (t : LooseText) : commaSeparated t =
    (trimmedPieces ','.toNat isBlankCode t.codes).map .ofCodes := by
  cases t with
  | proper s => rw [← commaSeparated_ofCodes, LooseText.ofCodes_codes]
  | broken codes => rfl

/-! ### Items -/

/-- A text that can be given between commas: it is not empty, holds no comma and has no blanks at
its ends. -/
structure IsItem (t : LooseText) : Prop where
  ne_nil : t.codes ≠ []
  comma_not_mem : ','.toNat ∉ t.codes
  trimmed : IsTrimmed isBlankCode t.codes
  /-- It is given by its codes only if it holds half a pair. -/
  ofCodes_codes : .ofCodes t.codes = t

theorem isItem_proper_iff {s : String} :
    IsItem s ↔ s ≠ "" ∧ ',' ∉ s.toList ∧ IsTrimmed Unicode.isBlank s.toList := by
  have hblank : isBlankCode ∘ Char.toNat = Unicode.isBlank := by
    funext c
    rw [Function.comp_apply, isBlankCode, Char.ofNat_toNat]
  have hnil : (LooseText.proper s).codes ≠ [] ↔ s ≠ "" := by
    rw [LooseText.codes, ne_eq, List.map_eq_nil_iff, String.toList_eq_nil_iff]
  have hcomma : ','.toNat ∉ (LooseText.proper s).codes ↔ ',' ∉ s.toList := by
    rw [LooseText.codes, List.mem_map_of_injective fun c d => Char.toNat_inj.1]
  have htrimmed : IsTrimmed isBlankCode (LooseText.proper s).codes ↔
      IsTrimmed Unicode.isBlank s.toList := by
    rw [LooseText.codes, isTrimmed_map_iff, hblank]
  rw [← hnil, ← hcomma, ← htrimmed]
  constructor
  · intro h
    exact ⟨h.ne_nil, h.comma_not_mem, h.trimmed⟩
  · rintro ⟨hne, hcomma, htrimmed⟩
    exact ⟨hne, hcomma, htrimmed, LooseText.ofCodes_codes s⟩

theorem isItem_ofCodes (hne : cs ≠ []) (hcomma : ','.toNat ∉ cs)
    (htrimmed : IsTrimmed isBlankCode cs) : IsItem (.ofCodes cs) := by
  by_cases h : cs.any isHalf = true
  · have hcodes := LooseText.codes_ofCodes_of_any_isHalf h
    exact ⟨by rwa [hcodes], by rwa [hcodes], by rwa [hcodes], by rw [hcodes]⟩
  · rw [LooseText.ofCodes, if_neg h, isItem_proper_iff, String.toList_ofList, isTrimmed_map_iff]
    refine ⟨fun hempty => hne ?_, fun hmem => hcomma ?_, htrimmed⟩
    · rwa [← String.toList_eq_nil_iff, String.toList_ofList, List.map_eq_nil_iff] at hempty
    · obtain ⟨n, hn, hn'⟩ := List.mem_map.1 hmem
      rwa [(charOfNat_eq_iff (by decide)).1 hn'] at hn

theorem isItem_of_mem_commaSeparated (h : u ∈ commaSeparated t) : IsItem u := by
  rw [commaSeparated_eq] at h
  obtain ⟨piece, hpiece, rfl⟩ := List.mem_map.1 h
  obtain ⟨hne, htrimmed, hmem⟩ := mem_trimmedPieces hpiece
  exact isItem_ofCodes hne (fun hcomma => (hmem _ hcomma).2 rfl) htrimmed

/-! ### Ways to write texts -/

/-- What may stand between two commas, and the texts that are given so: blanks alone, which give
none, or a text with blanks around it. -/
inductive Slot : List LooseText → List Nat → Prop
  | blank {cs : List Nat} (hblank : ∀ n ∈ cs, isBlankCode n = true) : Slot [] cs
  | item {before after : List Nat} (t : LooseText) (hbefore : ∀ n ∈ before, isBlankCode n = true)
      (hafter : ∀ n ∈ after, isBlankCode n = true) : Slot [t] (before ++ t.codes ++ after)

/-- Whether codes write texts with commas between them, where blanks may stand around the commas,
and nothing but blanks between two of them. -/
inductive Writes : List LooseText → List Nat → Prop
  | last {ts : List LooseText} {cs : List Nat} (h : Slot ts cs) : Writes ts cs
  | comma {ts us : List LooseText} {cs ds : List Nat} (h : Slot ts cs) (hrest : Writes us ds) :
      Writes (ts ++ us) (cs ++ ','.toNat :: ds)

theorem Slot.read (h : Slot ts cs) (hts : ∀ t ∈ ts, IsItem t) :
    (trimmedPieces ','.toNat isBlankCode cs).map .ofCodes = ts := by
  have hcomma {cs : List Nat} (hblank : ∀ n ∈ cs, isBlankCode n = true) : ','.toNat ∉ cs :=
    fun hmem => absurd (hblank _ hmem) (by decide)
  cases h with
  | blank hblank =>
    rw [trimmedPieces_of_not_mem (hcomma hblank), trimList_of_blank hblank]
    rfl
  | @item before after t hbefore hafter =>
    have ht := hts t List.mem_cons_self
    have hmem : ','.toNat ∉ before ++ t.codes ++ after := by
      simp only [List.mem_append, not_or]
      exact ⟨⟨hcomma hbefore, ht.comma_not_mem⟩, hcomma hafter⟩
    have hkept : [t.codes].filter (!·.isEmpty) = [t.codes] :=
      List.filter_eq_self.2 (List.forall_mem_singleton.2 (by simpa using ht.ne_nil))
    rw [trimmedPieces_of_not_mem hmem, trimList_append hbefore hafter,
      trimList_of_isTrimmed ht.trimmed, hkept, List.map_singleton, ht.ofCodes_codes]

/-- Texts that were written with commas between them are read. -/
theorem Writes.read (h : Writes ts cs) (hts : ∀ t ∈ ts, IsItem t) :
    (trimmedPieces ','.toNat isBlankCode cs).map .ofCodes = ts := by
  induction h with
  | last h => exact h.read hts
  | comma h _ ih =>
    rw [List.forall_mem_append] at hts
    rw [trimmedPieces_append_cons, List.map_append, h.read hts.1, ih hts.2]

/-- The codes of texts with commas between them. -/
def codesWithCommas (ts : List LooseText) : List Nat :=
  [','.toNat].intercalate (ts.map LooseText.codes)

/-- Texts with commas between them and nothing else. -/
def joinCommas (ts : List LooseText) : LooseText := .ofCodes (codesWithCommas ts)

theorem codesWithCommas_cons_cons (t u : LooseText) (ts : List LooseText) :
    codesWithCommas (t :: u :: ts) = t.codes ++ ','.toNat :: codesWithCommas (u :: ts) := by
  simp [codesWithCommas, List.intercalate_cons_cons]

theorem codesWithCommas_map_proper (ss : List String) :
    codesWithCommas (ss.map .proper) = (LooseText.proper (join "," ss)).codes := by
  cases ss with
  | nil => rfl
  | cons s ss =>
    rw [LooseText.codes, toList_join_cons]
    induction ss generalizing s with
    | nil => simp [codesWithCommas, LooseText.codes]
    | cons s' ss ih =>
      rw [List.map_cons, List.map_cons, codesWithCommas_cons_cons, ← List.map_cons, ih s']
      simp [LooseText.codes]

/-- Ordinary texts are joined as such. -/
theorem joinCommas_map_proper (ss : List String) : joinCommas (ss.map .proper) = join "," ss := by
  rw [joinCommas, codesWithCommas_map_proper, LooseText.ofCodes_codes]

theorem Slot.item_codes (t : LooseText) : Slot [t] t.codes := by
  have hnone : ∀ n ∈ ([] : List Nat), isBlankCode n = true := List.forall_mem_nil _
  simpa using Slot.item t hnone hnone

theorem writes_codesWithCommas (ts : List LooseText) : Writes ts (codesWithCommas ts) := by
  induction ts with
  | nil => exact .last (.blank (by simp [codesWithCommas]))
  | cons t ts ih =>
    cases ts with
    | nil => exact .last (by simpa [codesWithCommas] using Slot.item_codes t)
    | cons u ts =>
      rw [codesWithCommas_cons_cons]
      exact .comma (Slot.item_codes t) ih

/-! ### Reading texts between commas -/

theorem commaSeparated_joinCommas (hts : ∀ t ∈ ts, IsItem t) :
    commaSeparated (joinCommas ts) = ts := by
  rw [joinCommas, commaSeparated_ofCodes, (writes_codesWithCommas ts).read hts]

/-- **Reading texts between commas.** Texts that are not empty, hold no comma and have no blanks at
their ends are read back from all that writes them with commas between them, whatever blanks stand
around the commas and however many places between commas are left blank; one way to write them is to
join them. All texts that are read are such texts, and when they are joined, they are read back. -/
theorem testsOf_between_commas :
    (∀ s : String, IsItem s ↔ s ≠ "" ∧ ',' ∉ s.toList ∧ IsTrimmed Unicode.isBlank s.toList) ∧
    (∀ ss : List String, joinCommas (ss.map .proper) = join "," ss) ∧
    (∀ ts, (∀ u ∈ ts, IsItem u) → (∀ t, Writes ts t.codes → testsOf (.text t) = ts) ∧
      testsOf (.text (joinCommas ts)) = ts) ∧
    ∀ t, (∀ u ∈ testsOf (.text t), IsItem u) ∧
      testsOf (.text (joinCommas (testsOf (.text t)))) = testsOf (.text t) := by
  simp only [testsOf]
  refine ⟨fun s => isItem_proper_iff, joinCommas_map_proper,
    fun ts hts => ⟨fun t hwrites => ?_, ?_⟩,
    fun t => ⟨fun u => isItem_of_mem_commaSeparated, ?_⟩⟩
  · rw [commaSeparated_eq, hwrites.read hts]
  · exact commaSeparated_joinCommas hts
  · exact commaSeparated_joinCommas fun u => isItem_of_mem_commaSeparated

/-- Blanks of all kinds stand around the commas, and between some of them nothing else. -/
example : testsOf (.ofText " a,\u3000,b c\t,\n,,") = [.proper "a", .proper "b c"] := by
  decide +kernel

end Service

end PatternMachines
