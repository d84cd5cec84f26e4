import Mathlib.Data.List.Nodup
import PatternMachines.Json.Reader
import PatternMachines.Proofs.Symbol
import PatternMachines.Proofs.Text.Digits
import PatternMachines.Proofs.Text.Part

/-!
# Documents that are read back

A document without numbers is read back from its text: characters from their escapes, beyond the
first plane from the two halves of a pair, and values in any surroundings, inside any number of
brackets that leaves room for their own.

## Main definitions

* `Json.Plain`: the documents without numbers, with a bound on their nesting.
* `Json.ReadBack`: whether a value is read back in any surroundings.

## Main results

* `Json.readCodes_escapeChar`, `Json.joinPairs_flatMap_unitsOf`, `Json.exists_readText`: texts.
* `Json.readBack_array`, `Json.readBack_object`, `Json.Plain.readBack`: values.
* `Json.parse_render`: documents.
-/

namespace PatternMachines.Json

open Text

/-! ### Escaped characters -/

/-- The units of sixteen bits that stand for a character: one, or the two halves of a pair. -/
def unitsOf (c : Char) : List Nat :=
  if c.toNat < 0x10000 then [c.toNat]
  else [0xd800 + (c.toNat - 0x10000) / 0x400, 0xdc00 + (c.toNat - 0x10000) % 0x400]

theorem escapeCode_toNat (c : Char) : escapeCode c.toNat = escapeChar c := by
  rw [escapeCode, Symbol.isHalf_toNat, Char.ofNat_toNat]
  rfl

variable {n : Nat} {soFar : List Nat} {rest : List Char}

/-- A unit of sixteen bits is read from its escape. -/
theorem readCodes_escapeUnit {m : Nat} (hm : m < 0x10000)
    (h : (escapeUnit m ++ rest).length ≤ n) :
    readCodes soFar (escapeUnit m ++ rest) h =
      readCodes (m :: soFar) rest ((List.suffix_append _ _).length_le.trans h) := by
  have hnumber : hexNumber (hexDigits 4 m) = m := by
    rw [hexNumber_hexDigits]
    omega
  have hall : (hexDigits 4 m).all isHexDigit = true :=
    List.all_eq_true.2 fun c hc => isHexDigit_of_mem_hexDigits hc
  obtain ⟨a, b, c, d, habcd⟩ : ∃ a b c d, hexDigits 4 m = [a, b, c, d] := ⟨_, _, _, _, rfl⟩
  have hunit : unit? a b c d = some m := by
    rw [unit?, ← habcd, if_pos hall, hnumber]
  simp only [escapeUnit, habcd, List.cons_append, List.nil_append, readCodes, hunit]

/-- A letter after a backslash is read as the character that it denotes. -/
theorem readCodes_escaped {c c' : Char} (hc : escaped? c = some c')
    (h : ('\\' :: c :: rest).length ≤ n) :
    readCodes soFar ('\\' :: c :: rest) h =
      readCodes (c'.toNat :: soFar) rest (Nat.le_of_succ_le (Nat.le_of_succ_le h)) := by
  unfold escaped? at hc
  split at hc <;> cases hc <;> simp [readCodes, escaped?]

theorem readCodes_plain {c : Char} (hquote : c ≠ '"') (hslash : c ≠ '\\') (hc : ¬c.toNat < 0x20)
    (h : (c :: rest).length ≤ n) :
    readCodes soFar (c :: rest) h =
      readCodes (c.toNat :: soFar) rest (Nat.le_of_succ_le h) := by
  rw [readCodes.eq_def]
  split <;> simp_all

/-- An escaped character is read as its units. -/
theorem readCodes_escapeChar (c : Char) (h : (escapeChar c ++ rest).length ≤ n) :
    readCodes soFar (escapeChar c ++ rest) h =
      readCodes ((unitsOf c).reverse ++ soFar) rest
        ((List.suffix_append _ _).length_le.trans h) := by
  unfold escapeChar at h
  simp only [escapeChar, unitsOf]
  split_ifs at h ⊢ with hquote hslash hline hreturn htab hplain hplane
  · subst hquote
    exact readCodes_escaped rfl h
  · subst hslash
    exact readCodes_escaped rfl h
  · subst hline
    exact readCodes_escaped rfl h
  · subst hreturn
    exact readCodes_escaped rfl h
  · subst htab
    exact readCodes_escaped rfl h
  · have hplane : c.toNat < 0x10000 := by omega
    simp only [if_pos hplane]
    exact readCodes_plain hquote hslash (by omega) h
  · exact readCodes_escapeUnit hplane h
  · have hvalid : c.toNat < 0xd800 ∨ 0xdfff < c.toNat ∧ c.toNat < 0x110000 := c.valid
    simp only [List.append_assoc] at h ⊢
    rw [readCodes_escapeUnit (by omega), readCodes_escapeUnit (by omega)]
    rfl

/-! ### Texts -/

/-- Escaped characters are read as their units, up to the closing quote. -/
theorem readCodes_flatMap_escapeChar (cs : List Char) (soFar : List Nat)
    (h : (cs.flatMap escapeChar ++ '"' :: rest).length ≤ n) :
    ∃ r, readCodes soFar (cs.flatMap escapeChar ++ '"' :: rest) h = some r ∧
      r.value = soFar.reverse ++ cs.flatMap unitsOf ∧ r.rest = rest := by
  induction cs generalizing soFar with
  | nil =>
    have hrest : rest.length ≤ n := Nat.le_of_succ_le h
    refine ⟨⟨soFar.reverse, rest, hrest⟩, ?_, by simp, rfl⟩
    simp only [List.flatMap_nil, List.nil_append, readCodes]
  | cons c cs ih =>
    simp only [List.flatMap_cons, List.append_assoc] at h ⊢
    rw [readCodes_escapeChar c h]
    obtain ⟨r, hr, hvalue, hrest⟩ := ih ((unitsOf c).reverse ++ soFar) (by
      rw [List.length_append] at h
      omega)
    exact ⟨r, hr, by rw [hvalue]; simp, hrest⟩

theorem joinPairs_cons {m : Nat} (hm : isHighHalf m = false) (codes : List Nat) :
    LooseText.joinPairs (m :: codes) = m :: LooseText.joinPairs codes := by
  cases codes with
  | nil => rfl
  | cons k codes => rw [LooseText.joinPairs, hm]; rfl

/-- The code of a character beyond the first plane is divided into a first and a second half. -/
theorem isHalf_of_lt {k : Nat} (hk : k < 0x110000) :
    isHighHalf (0xd800 + (k - 0x10000) / 0x400) = true ∧
      isLowHalf (0xdc00 + (k - 0x10000) % 0x400) = true := by
  simp only [isHighHalf, isLowHalf, Bool.and_eq_true, decide_eq_true_eq]
  omega

theorem pairCode_halves {k : Nat} (hk : 0x10000 ≤ k) :
    pairCode (0xd800 + (k - 0x10000) / 0x400) (0xdc00 + (k - 0x10000) % 0x400) = k := by
  unfold pairCode
  omega

/-- The halves of pairs are put together again. -/
theorem joinPairs_flatMap_unitsOf (cs : List Char) :
    LooseText.joinPairs (cs.flatMap unitsOf) = cs.map Char.toNat := by
  induction cs with
  | nil => rfl
  | cons c cs ih =>
    have hvalid : c.toNat < 0xd800 ∨ 0xdfff < c.toNat ∧ c.toNat < 0x110000 := c.valid
    rw [List.flatMap_cons, unitsOf, List.map_cons]
    split
    · have hhigh : isHighHalf c.toNat = false := by
        have hhalf := Symbol.isHalf_toNat c
        rw [isHalf, Bool.or_eq_false_iff] at hhalf
        exact hhalf.1
      rw [List.singleton_append, joinPairs_cons hhigh, ih]
    · have hcode : c.toNat < 0x110000 := by omega
      obtain ⟨hhigh, hlow⟩ := isHalf_of_lt hcode
      rw [List.cons_append, List.singleton_append, LooseText.joinPairs, hhigh, hlow,
        Bool.and_true, if_pos rfl, pairCode_halves (by omega), ih]

theorem ofCodes_map_toNat (cs : List Char) :
    LooseText.ofCodes (cs.map Char.toNat) = .proper (String.ofList cs) := by
  have hproper : (cs.map Char.toNat).any isHalf = false := by
    rw [List.any_map, List.any_eq_false]
    intro c _
    rw [Function.comp_apply, Symbol.isHalf_toNat]
    decide
  rw [LooseText.ofCodes, hproper, List.map_map]
  simp only [Function.comp_def, Char.ofNat_toNat, List.map_id_fun', id]
  rfl

theorem toList_renderText (s : String) :
    (renderText (.proper s)).toList = '"' :: s.toList.flatMap escapeChar ++ ['"'] := by
  have hcodes : (LooseText.proper s).codes.flatMap escapeCode = s.toList.flatMap escapeChar := by
    rw [LooseText.codes, List.flatMap_map]
    exact List.flatMap_congr fun c _ => escapeCode_toNat c
  rw [renderText, hcodes]
  simp

/-- A text that was written is read back. -/
theorem exists_readText (s : String) (rest : List Char) :
    ∃ r, readText (s.toList.flatMap escapeChar ++ '"' :: rest) = some r ∧
      r.value = .proper s ∧ r.rest = rest := by
  obtain ⟨r, hr, hvalue, hrest⟩ :=
    readCodes_flatMap_escapeChar s.toList [] (Nat.le_refl (_ ++ '"' :: rest).length)
  refine ⟨_, by rw [readText, hr, Option.map_some], ?_, hrest⟩
  rw [Reading.map, hvalue]
  dsimp only
  rw [List.reverse_nil, List.nil_append, joinPairs_flatMap_unitsOf, ofCodes_map_toNat,
    String.ofList_toList]

/-! ### Values -/

/-- A member whose name is a text of characters. -/
def properMember (m : String × Json) : LooseText × Json := (.proper m.1, m.2)

/-- Whether a document holds no numbers, no halves of pairs and no name twice within an object, and
its brackets are nested at most `n` deep. -/
inductive Plain : (n : Nat) → Json → Prop
  /-- The absent value. -/
  | null {n : Nat} : Plain n .null
  /-- A truth value. -/
  | bool {n : Nat} (b : Bool) : Plain n (.bool b)
  /-- A text of characters. -/
  | text {n : Nat} (s : String) : Plain n (.ofText s)
  /-- A list of values. -/
  | array {n : Nat} {items : List Json} (h : ∀ v ∈ items, Plain n v) : Plain (n + 1) (.array items)
  /-- Named values. -/
  | object {n : Nat} {members : List (String × Json)} (hnames : (members.map Prod.fst).Nodup)
    (h : ∀ m ∈ members, Plain n m.2) :
    Plain (n + 1) (.object (members.map properMember))

theorem renderItems_eq_map (items : List Json) : renderItems items = items.map render := by
  induction items with
  | nil => rfl
  | cons v items ih => rw [renderItems, ih, List.map_cons]

theorem renderMembers_eq_map (members : List (LooseText × Json)) :
    renderMembers members = members.map fun m => renderText m.1 ++ ":" ++ render m.2 := by
  induction members with
  | nil => rfl
  | cons m members ih => rw [renderMembers, ih, List.map_cons]

/-- Whether a value is read back in any surroundings, inside `depth` brackets. -/
def ReadBack (depth : Nat) (v : Json) : Prop :=
  ∀ s rest, s = (render v).toList ++ rest →
    ∃ r, readValue depth s = .ok r ∧ r.value = v ∧ r.rest = rest

variable {depth : Nat}

theorem readBack_null : ReadBack depth .null := by
  rintro _ rest rfl
  rw [render]
  simp [readValue, readScalar, readWord, words]

theorem readBack_bool (b : Bool) : ReadBack depth (.bool b) := by
  rintro _ rest rfl
  rw [render]
  cases b <;> simp [readValue, readScalar, readWord, words]

theorem readBack_text (s : String) : ReadBack depth (.ofText s) := by
  rintro _ rest rfl
  obtain ⟨r, hr, hvalue, hrest⟩ := exists_readText s rest
  have htext : (render (.ofText s)).toList ++ rest =
      '"' :: (s.toList.flatMap escapeChar ++ '"' :: rest) := by
    rw [ofText, render, toList_renderText]
    simp
  rw [htext]
  simp [readValue, readScalar, hr]
  exact ⟨congrArg text hvalue, hrest⟩

/-- A document begins with a character that is neither a blank nor a bracket that closes. -/
theorem exists_toList_render {n : Nat} {v : Json} (h : Plain n v) :
    ∃ c cs, (render v).toList = c :: cs ∧ isSpace c = false ∧ c ≠ ']' := by
  cases h with
  | null => exact ⟨'n', "ull".toList, rfl, by decide, by decide⟩
  | bool b =>
    cases b
    · exact ⟨'f', "alse".toList, rfl, by decide, by decide⟩
    · exact ⟨'t', "rue".toList, rfl, by decide, by decide⟩
  | text s => exact ⟨'"', _, by rw [ofText, render, toList_renderText]; rfl, by decide, by decide⟩
  | array => exact ⟨'[', _, by rw [render]; simp; rfl, by decide, by decide⟩
  | object => exact ⟨'\x7b', _, by rw [render]; simp; rfl, by decide, by decide⟩

/-- Blanks are only left out where there are any. -/
theorem skipSpace_render {n : Nat} {v : Json} (h : Plain n v) (rest : List Char) :
    skipSpace ((render v).toList ++ rest) = (render v).toList ++ rest := by
  obtain ⟨c, cs, htext, hc, -⟩ := exists_toList_render h
  rw [htext, List.cons_append, skipSpace, List.dropWhile_cons_of_neg (by rw [hc]; decide)]

/-- Values between commas are read back, after the values read so far. -/
theorem exists_readItems {m : Nat} {v : Json} {vs : List Json}
    (hplain : ∀ w ∈ v :: vs, Plain m w) (h : ∀ w ∈ v :: vs, ReadBack depth w) (soFar : List Json)
    {s : List Char} (hs : s.length ≤ n)
    (htext : s =
      (render v).toList ++ ((vs.flatMap fun w => ',' :: (render w).toList) ++ ']' :: rest)) :
    ∃ r, readItems depth soFar s hs = .ok r ∧ r.value = soFar.reverse ++ v :: vs ∧
      r.rest = rest := by
  induction vs generalizing v soFar s with
  | nil =>
    rw [List.flatMap_nil, List.nil_append] at htext
    obtain ⟨item, hitem, hvalue, hrest⟩ := h v List.mem_cons_self s (']' :: rest) htext
    have hspace : skipSpace item.rest = ']' :: rest := by rw [hrest]; rfl
    rw [readItems, hitem]
    dsimp only
    split
    next heq =>
      rw [hspace, List.cons.injEq] at heq
      exact ⟨_, rfl, by rw [hvalue, List.reverse_cons], heq.2.symm⟩
    next heq =>
      rw [hspace] at heq
      cases heq
    next hne _ =>
      exact absurd hspace (hne _)
  | cons w vs ih =>
    rw [List.flatMap_cons, List.cons_append, List.cons_append, List.append_assoc] at htext
    obtain ⟨item, hitem, hvalue, hrest⟩ := h v List.mem_cons_self s (',' ::
      ((render w).toList ++ ((vs.flatMap fun w => ',' :: (render w).toList) ++ ']' :: rest))) htext
    rw [List.forall_mem_cons] at h hplain
    have hspace : skipSpace item.rest = ',' :: ((render w).toList ++
        ((vs.flatMap fun w => ',' :: (render w).toList) ++ ']' :: rest)) := by rw [hrest]; rfl
    rw [readItems, hitem]
    dsimp only
    split
    next heq =>
      rw [hspace] at heq
      cases heq
    next heq =>
      rw [hspace, List.cons.injEq] at heq
      obtain ⟨-, rfl⟩ := heq
      obtain ⟨r, hr, hitems, hend⟩ := ih hplain.2 h.2 (item.value :: soFar) _
        (skipSpace_render (hplain.2 w List.mem_cons_self) _)
      exact ⟨r, hr, by rw [hitems, hvalue]; simp, hend⟩
    next _ hne =>
      exact absurd hspace (hne _)

theorem readBack_array {m : Nat} {items : List Json} (hplain : ∀ v ∈ items, Plain m v)
    (h : ∀ v ∈ items, ReadBack (depth + 1) v) (hdepth : depth < maxDepth) :
    ReadBack depth (.array items) := by
  rintro _ rest rfl
  have hdeep : ¬maxDepth ≤ depth := Nat.not_le.2 hdepth
  cases items with
  | nil =>
    have htext : (render (.array [])).toList ++ rest = '[' :: ']' :: rest := by
      rw [render]
      simp [renderItems, join]
    have hspace : skipSpace (']' :: rest) = ']' :: rest := rfl
    rw [htext, readValue, if_neg hdeep]
    split
    next heq =>
      rw [hspace, List.cons.injEq] at heq
      exact ⟨_, rfl, rfl, heq.2.symm⟩
    next hne =>
      exact absurd hspace (hne _)
  | cons v vs =>
    have htext : (render (.array (v :: vs))).toList ++ rest = '[' :: ((render v).toList ++
        ((vs.flatMap fun w => ',' :: (render w).toList) ++ ']' :: rest)) := by
      rw [render, renderItems_eq_map, List.map_cons, String.toList_append, String.toList_append,
        toList_join_cons]
      simp [List.flatMap_map]
    obtain ⟨c, cs, hhead, -, hc⟩ := exists_toList_render (hplain v List.mem_cons_self)
    have hspace := skipSpace_render (hplain v List.mem_cons_self)
      ((vs.flatMap fun w => ',' :: (render w).toList) ++ ']' :: rest)
    rw [htext, readValue, if_neg hdeep]
    split
    next heq =>
      rw [hspace, hhead, List.cons_append, List.cons.injEq] at heq
      exact absurd heq.1 hc
    next _ =>
      obtain ⟨r, hr, hvalue, hrest⟩ := exists_readItems hplain h [] (length_skipSpace_le _) hspace
      rw [hr]
      exact ⟨_, rfl, congrArg array hvalue, hrest⟩

/-! ### Members -/

/-- The characters of a member. -/
def memberChars (m : String × Json) : List Char :=
  (renderText (.proper m.1)).toList ++ ':' :: (render m.2).toList

/-- The name of a member is read back, up to its value. -/
theorem exists_readName {v : Json} {m : Nat} (hplain : Plain m v) (name : String)
    (rest : List Char) :
    ∃ r, readName (memberChars (name, v) ++ rest) = some r ∧ r.value = .proper name ∧
      r.rest = (render v).toList ++ rest := by
  obtain ⟨r, hr, hvalue, hrest⟩ := exists_readText name (':' :: ((render v).toList ++ rest))
  have htext : memberChars (name, v) ++ rest = '"' :: (name.toList.flatMap escapeChar ++
      '"' :: ':' :: ((render v).toList ++ rest)) := by
    rw [memberChars, toList_renderText]
    simp
  have hspace : skipSpace r.rest = ':' :: ((render v).toList ++ rest) := by rw [hrest]; rfl
  rw [htext, readName, hr]
  dsimp only
  split
  next heq =>
    rw [hspace, List.cons.injEq] at heq
    obtain ⟨-, rfl⟩ := heq
    exact ⟨_, rfl, hvalue, skipSpace_render hplain rest⟩
  next hne =>
    exact absurd hspace (hne _)

theorem setMember_of_not_mem {name : LooseText} {v : Json} {members : List (LooseText × Json)}
    (h : name ∉ members.map Prod.fst) : setMember name v members = members ++ [(name, v)] := by
  induction members with
  | nil => rfl
  | cons m members ih =>
    rw [List.map_cons, List.mem_cons, not_or] at h
    rw [setMember, if_neg (Ne.symm h.1), ih h.2, List.cons_append]

/-- A member of a new name is put after the others. -/
theorem setMember_properMember {a : String × Json} {done as : List (String × Json)}
    (hnames : ((done ++ a :: as).map Prod.fst).Nodup) :
    setMember (.proper a.1) a.2 (done.map properMember) = (done ++ [a]).map properMember := by
  have hname : LooseText.proper a.1 ∉ (done.map properMember).map Prod.fst := by
    rw [List.map_append, List.map_cons, List.nodup_append'] at hnames
    rw [List.map_map, List.mem_map]
    rintro ⟨b, hb, heq⟩
    have hmem : a.1 ∈ done.map Prod.fst :=
      List.mem_map.2 ⟨b, hb, LooseText.proper.inj heq⟩
    exact hnames.2.2 hmem List.mem_cons_self
  rw [setMember_of_not_mem hname, List.map_append]
  rfl

theorem skipSpace_memberChars (a : String × Json) (rest : List Char) :
    skipSpace (memberChars a ++ rest) = memberChars a ++ rest := by
  rw [memberChars, toList_renderText]
  rfl

/-- Members between commas are read back, after the members read so far. -/
theorem exists_readMembers {m : Nat} {a : String × Json} {as : List (String × Json)}
    (hplain : ∀ b ∈ a :: as, Plain m b.2) (h : ∀ b ∈ a :: as, ReadBack depth b.2)
    (done : List (String × Json)) (hnames : ((done ++ a :: as).map Prod.fst).Nodup)
    {s : List Char} (hs : s.length ≤ n)
    (htext : s = memberChars a ++ ((as.flatMap fun b => ',' :: memberChars b) ++ '\x7d' :: rest)) :
    ∃ r, readMembers depth (done.map properMember) s hs = .ok r ∧
      r.value = (done ++ a :: as).map properMember ∧ r.rest = rest := by
  induction as generalizing a done s with
  | nil =>
    rw [List.flatMap_nil, List.nil_append] at htext
    obtain ⟨name, hname, hvalue, hafter⟩ :=
      exists_readName (hplain a List.mem_cons_self) a.1 ('\x7d' :: rest)
    obtain ⟨item, hitem, hv, hrest⟩ := h a List.mem_cons_self _ ('\x7d' :: rest) hafter
    have hspace : skipSpace item.rest = '\x7d' :: rest := by rw [hrest]; rfl
    subst htext
    rw [readMembers, hname]
    dsimp only
    rw [hitem]
    dsimp only
    split
    next heq =>
      rw [hspace, List.cons.injEq] at heq
      refine ⟨_, rfl, ?_, heq.2.symm⟩
      rw [hvalue, hv, setMember_properMember hnames]
    next heq =>
      rw [hspace] at heq
      cases heq
    next hne _ =>
      exact absurd hspace (hne _)
  | cons b as ih =>
    rw [List.flatMap_cons, List.cons_append, List.cons_append, List.append_assoc] at htext
    obtain ⟨name, hname, hvalue, hafter⟩ := exists_readName (hplain a List.mem_cons_self) a.1
      (',' :: (memberChars b ++ ((as.flatMap fun b => ',' :: memberChars b) ++ '\x7d' :: rest)))
    obtain ⟨item, hitem, hv, hrest⟩ := h a List.mem_cons_self _ _ hafter
    have hspace : skipSpace item.rest = ',' :: (memberChars b ++
        ((as.flatMap fun b => ',' :: memberChars b) ++ '\x7d' :: rest)) := by rw [hrest]; rfl
    rw [List.forall_mem_cons] at h hplain
    subst htext
    rw [readMembers, hname]
    dsimp only
    rw [hitem]
    dsimp only
    split
    next heq =>
      rw [hspace] at heq
      cases heq
    next heq =>
      rw [hspace, List.cons.injEq] at heq
      obtain ⟨-, rfl⟩ := heq
      rw [hvalue, hv, setMember_properMember hnames]
      obtain ⟨r, hr, hmembers, hend⟩ := ih hplain.2 h.2 (done ++ [a])
        (List.append_cons done a (b :: as) ▸ hnames) _ (skipSpace_memberChars b _)
      exact ⟨r, hr, by rw [hmembers, ← List.append_cons], hend⟩
    next _ hne =>
      exact absurd hspace (hne _)

theorem readBack_object {m : Nat} {members : List (String × Json)}
    (hnames : (members.map Prod.fst).Nodup) (hplain : ∀ b ∈ members, Plain m b.2)
    (h : ∀ b ∈ members, ReadBack (depth + 1) b.2) (hdepth : depth < maxDepth) :
    ReadBack depth (.object (members.map properMember)) := by
  rintro _ rest rfl
  have hdeep : ¬maxDepth ≤ depth := Nat.not_le.2 hdepth
  cases members with
  | nil =>
    have htext : (render (.object [])).toList ++ rest = '\x7b' :: '\x7d' :: rest := by
      rw [render]
      simp [renderMembers, join]
    have hspace : skipSpace ('\x7d' :: rest) = '\x7d' :: rest := rfl
    rw [List.map_nil, htext, readValue, if_neg hdeep]
    split
    next heq =>
      rw [hspace, List.cons.injEq] at heq
      exact ⟨_, rfl, rfl, heq.2.symm⟩
    next hne =>
      exact absurd hspace (hne _)
  | cons a as =>
    have htext : (render (.object ((a :: as).map properMember))).toList ++ rest =
        '\x7b' :: (memberChars a ++ ((as.flatMap fun b => ',' :: memberChars b) ++
          '\x7d' :: rest)) := by
      rw [render, renderMembers_eq_map, List.map_map, List.map_cons, String.toList_append,
        String.toList_append, toList_join_cons]
      simp [List.flatMap_map, memberChars, properMember]
    have hspace := skipSpace_memberChars a
      ((as.flatMap fun b => ',' :: memberChars b) ++ '\x7d' :: rest)
    rw [htext, readValue, if_neg hdeep]
    split
    next heq =>
      rw [hspace, memberChars, toList_renderText] at heq
      cases heq
    next _ =>
      obtain ⟨r, hr, hvalue, hrest⟩ := exists_readMembers hplain h [] hnames
        (length_skipSpace_le _) hspace
      rw [List.map_nil] at hr
      rw [hr]
      exact ⟨_, rfl, congrArg object hvalue, hrest⟩

/-! ### Documents -/

/-- A document without numbers is read back in any surroundings. -/
theorem Plain.readBack {m : Nat} {v : Json} (h : Plain m v) (depth : Nat)
    (hdepth : depth + m ≤ maxDepth) :
    ReadBack depth v := by
  induction h generalizing depth with
  | null => exact readBack_null
  | bool b => exact readBack_bool b
  | text s => exact readBack_text s
  | array hplain ih => exact readBack_array hplain (fun v hv => ih v hv _ (by omega)) (by omega)
  | object hnames hplain ih =>
    exact readBack_object hnames hplain (fun b hb => ih b hb _ (by omega)) (by omega)

/-- **Documents are read back.** A document without numbers that is not nested too deeply is the
value of its text. -/
theorem parse_render {v : Json} (h : Plain maxDepth v) : parse (render v) = .ok v := by
  have hspace := skipSpace_render h []
  rw [List.append_nil] at hspace
  obtain ⟨r, hr, hvalue, hrest⟩ := h.readBack 0 (Nat.zero_add _).le _ []
    (List.append_nil _).symm
  rw [parse, hspace, hr]
  dsimp only [bind, Except.bind]
  rw [hrest, hvalue]
  rfl

end PatternMachines.Json
