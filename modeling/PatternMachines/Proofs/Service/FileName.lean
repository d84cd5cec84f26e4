import PatternMachines.Proofs.Fallible
import PatternMachines.Proofs.Text.Part
import PatternMachines.Proofs.Text.Percent
import PatternMachines.Proofs.Unicode.WordChar
import PatternMachines.Service.Respond

/-!
# The names of served documents

The part of a file name that comes from a pattern is made of word characters, whatever characters
the pattern has. So the name stays between its quotes in the header, and the header stays on one
line. The encoded name stands for the same name.

## Main definitions

* `Service.isNameChar`, `Service.isInline`: characters of file names, and those that end no line.

## Main results

* `Service.isWordChar_of_mem_safeName`, `Service.safeName_eq_empty_iff`,
  `Service.length_safeName_le`, `Service.safeName_idem`: patterns as parts of file names.
* `Service.splitAt_attachment`: the header is made of three pieces, with the name in the middle.
* `Service.attachment_holds_name`: names keep to their headers, and are read back from them.
* `Service.exists_attachment_of_respond`: every document is served under such a name.
-/

namespace PatternMachines.Service

open Unicode

variable {c : Char} {cs : List Char} {inGap : Bool} {s pattern : String}

/-! ### The part that comes from a pattern -/

/-- Hyphens and blanks are no word characters. -/
theorem isGap_eq_false (hc : isWordChar c = true) : isGap c = false := by
  have hhyphen : isWordChar '-' = false := by decide
  have hne : c ≠ '-' := by
    rintro rfl
    exact Bool.false_ne_true (hhyphen.symm.trans hc)
  rw [isGap, isBlank_eq_false hc, Bool.or_false]
  exact beq_eq_false_iff_ne.2 hne

theorem isWordChar_or_isGap_of_mem_maskChars (hc : c ∈ maskChars cs) :
    isWordChar c = true ∨ isGap c = true := by
  obtain ⟨c', -, rfl⟩ := List.mem_map.1 hc
  split
  case isTrue h => rwa [Bool.or_eq_true] at h
  case isFalse => exact .inl (by decide)

/-- No gap is left. -/
theorem isWordChar_of_mem_closeGaps (hcs : ∀ c ∈ cs, isWordChar c = true ∨ isGap c = true)
    (hc : c ∈ closeGaps inGap cs) : isWordChar c = true := by
  induction cs generalizing inGap with
  | nil => cases hc
  | cons c' rest ih =>
    rw [List.forall_mem_cons] at hcs
    rw [closeGaps] at hc
    split at hc
    case isTrue =>
      split at hc
      · exact ih hcs.2 hc
      · rcases List.mem_cons.1 hc with rfl | hc
        · decide
        · exact ih hcs.2 hc
    case isFalse hgap =>
      rcases List.mem_cons.1 hc with rfl | hc
      · exact hcs.1.resolve_right hgap
      · exact ih hcs.2 hc

theorem maskChars_of_isWordChar (h : ∀ c ∈ cs, isWordChar c = true) : maskChars cs = cs := by
  have hkeep : ∀ c ∈ cs, (if isWordChar c || isGap c then c else '_') = c := by
    intro c hc
    rw [h c hc]
    rfl
  rw [maskChars, List.map_congr_left hkeep, List.map_id']

theorem closeGaps_of_isWordChar (h : ∀ c ∈ cs, isWordChar c = true) : closeGaps inGap cs = cs := by
  induction cs generalizing inGap with
  | nil => rfl
  | cons c rest ih =>
    rw [List.forall_mem_cons] at h
    rw [closeGaps, isGap_eq_false h.1, if_neg Bool.false_ne_true, ih h.2]

theorem closeGaps_false_eq_nil_iff : closeGaps false cs = [] ↔ cs = [] := by
  cases cs with
  | nil => exact Iff.rfl
  | cons c rest =>
    rw [closeGaps]
    split <;> simp

/-- Whatever a pattern is made of, its part of a file name is made of word characters. -/
theorem isWordChar_of_mem_safeName (hc : c ∈ (safeName pattern).toList) : isWordChar c = true := by
  rw [safeName, String.toList_ofList] at hc
  exact isWordChar_of_mem_closeGaps (fun _ => isWordChar_or_isGap_of_mem_maskChars)
    (List.mem_of_mem_take hc)

theorem length_safeName_le (pattern : String) : (safeName pattern).length ≤ maxNameLength := by
  rw [safeName, String.length_ofList]
  exact List.length_take_le _ _

theorem safeName_eq_empty_iff : safeName pattern = "" ↔ pattern = "" := by
  rw [← String.toList_eq_nil_iff, safeName, String.toList_ofList, List.take_eq_nil_iff,
    closeGaps_false_eq_nil_iff, maskChars, List.map_eq_nil_iff, String.toList_eq_nil_iff]
  exact or_iff_right (by decide)

/-- A text of which nothing is shown has no codes. -/
theorem shown_eq_empty_iff {t : LooseText} : t.shown = "" ↔ t.codes = [] := by
  cases t with
  | proper s => rw [LooseText.shown, LooseText.codes, List.map_eq_nil_iff, String.toList_eq_nil_iff]
  | broken codes =>
    rw [LooseText.shown, LooseText.codes, ← String.toList_eq_nil_iff, String.toList_ofList,
      List.map_eq_nil_iff]

/-- A short text of word characters is safe as it is. -/
theorem safeName_of_isWordChar (h : ∀ c ∈ s.toList, isWordChar c = true)
    (hlength : s.length ≤ maxNameLength) : safeName s = s := by
  rw [safeName, maskChars_of_isWordChar h, closeGaps_of_isWordChar h,
    List.take_of_length_le hlength, String.ofList_toList]

theorem safeName_idem (pattern : String) : safeName (safeName pattern) = safeName pattern :=
  safeName_of_isWordChar (fun _ => isWordChar_of_mem_safeName) (length_safeName_le pattern)

/-! ### The header -/

/-- Whether a character may stand in the name of a file that is served. -/
def isNameChar (c : Char) : Bool := isWordChar c || c == '.'

theorem isNameChar_of_mem_fileName (hc : c ∈ (fileName pattern).toList) : isNameChar c = true := by
  have hwithout : "tm.jff".toList.all isNameChar = true := by decide
  have hstart : "tm_".toList.all isNameChar = true := by decide
  have hend : ".jff".toList.all isNameChar = true := by decide
  rw [fileName] at hc
  split at hc
  · exact List.all_eq_true.1 hwithout c hc
  · rw [String.toList_append, String.toList_append, List.mem_append, List.mem_append] at hc
    rcases hc with (hc | hc) | hc
    · exact List.all_eq_true.1 hstart c hc
    · rw [isNameChar, isWordChar_of_mem_safeName hc, Bool.true_or]
    · exact List.all_eq_true.1 hend c hc

/-- The header around its quotes. -/
theorem toList_attachment (pattern : String) : (attachment pattern).toList =
    "attachment; filename=".toList ++ '"' :: ((fileName pattern).toList ++
      '"' :: ("; filename*=UTF-8''" ++ Text.percentEncode (fileName pattern)).toList) := by
  have hopen : "attachment; filename=\"".toList = "attachment; filename=".toList ++ ['"'] := by
    decide
  have hclose : "\"; filename*=UTF-8''".toList = '"' :: "; filename*=UTF-8''".toList := by
    decide
  unfold attachment
  rw [String.toList_append, String.toList_append, String.toList_append, hopen, hclose,
    String.toList_append]
  simp only [List.append_assoc, List.cons_append, List.nil_append]

/-- Cut at its quotes, the header has three pieces. -/
theorem splitAt_attachment (pattern : String) :
    Text.splitAt '"' (attachment pattern) = ["attachment; filename=", fileName pattern,
      "; filename*=UTF-8''" ++ Text.percentEncode (fileName pattern)] := by
  have hstart : '"' ∉ "attachment; filename=".toList := by decide
  have hname : '"' ∉ (fileName pattern).toList := by
    intro hc
    exact absurd (isNameChar_of_mem_fileName hc) (by decide)
  have hvalue : '"' ∉ ("; filename*=UTF-8''" ++ Text.percentEncode (fileName pattern)).toList := by
    rw [String.toList_append, List.mem_append, not_or]
    refine ⟨by decide, fun hc => ?_⟩
    exact absurd (Text.mem_percentEncode hc) (by decide)
  rw [Text.splitAt, toList_attachment, Text.pieces_append_cons, Text.pieces_append_cons,
    Text.pieces_of_not_mem hstart, Text.pieces_of_not_mem hname, Text.pieces_of_not_mem hvalue]
  simp only [List.map_cons, List.map_nil, String.ofList_toList, List.singleton_append]

/-- Whether a character may stand in a header: it is no control character, and no blank other than
the space, so that it ends no line. -/
def isInline (c : Char) : Bool := c == ' ' || !isBlank c && !isControl c

theorem isInline_of_isNameChar (hc : isNameChar c = true) : isInline c = true := by
  rw [isNameChar, Bool.or_eq_true, beq_iff_eq] at hc
  rcases hc with hc | rfl
  · rw [isInline, isBlank_eq_false hc, isControl_eq_false hc]
    exact Bool.or_true _
  · decide

theorem isInline_of_isUnreserved (hc : Text.isUnreserved c = true) : isInline c = true := by
  have hpoints : ∀ n < 0x80, Text.isUnreserved (Char.ofNat n) = true →
      isInline (Char.ofNat n) = true := by
    decide +kernel
  have hread := hpoints c.toNat (Text.toNat_lt_of_isUnreserved hc)
  rw [Char.ofNat_toNat] at hread
  exact hread hc

/-- The header stays on one line. -/
theorem isInline_of_mem_attachment (hc : c ∈ (attachment pattern).toList) : isInline c = true := by
  have hstart : "attachment; filename=".toList.all isInline = true := by decide
  have hmiddle : "; filename*=UTF-8''".toList.all isInline = true := by decide
  rw [toList_attachment, List.mem_append, List.mem_cons, List.mem_append, List.mem_cons,
    String.toList_append, List.mem_append] at hc
  rcases hc with hc | rfl | hc | rfl | hc | hc
  · exact List.all_eq_true.1 hstart c hc
  · decide
  · exact isInline_of_isNameChar (isNameChar_of_mem_fileName hc)
  · decide
  · exact List.all_eq_true.1 hmiddle c hc
  · rcases Text.mem_percentEncode hc with hc | rfl
    · exact isInline_of_isUnreserved hc
    · decide

/-- **A document keeps to its name.** The part of the name that comes from a pattern is not empty
if the pattern is not, it is not too long, and it is made of word characters, none of which means
anything in a header; making it safe again changes nothing. So the header is on one line, its two
quotes are those around the name, and its encoded part is read back as the name. -/
theorem attachment_holds_name (pattern : LooseText) :
    (safeName pattern.shown = "" ↔ pattern.codes = []) ∧
    (safeName pattern.shown).length ≤ 50 ∧
    (∀ c ∈ (safeName pattern.shown).toList, isWordChar c = true ∧
      c ∉ ['"', '\'', '\\', '/', ';', '-'] ∧ isBlank c = false ∧ isControl c = false) ∧
    safeName (safeName pattern.shown) = safeName pattern.shown ∧
    (∀ c ∈ (attachment pattern.shown).toList, isInline c = true) ∧
    ∃ value,
      Text.splitAt '"' (attachment pattern.shown) =
        ["attachment; filename=", fileName pattern.shown, "; filename*=UTF-8''" ++ value] ∧
      Text.decode (Text.percentBytes value.toList) = .ok (fileName pattern.shown).toList ∧
      Text.percentDecode value.toList = (fileName pattern.shown).toList := by
  have hmarks : ['"', '\'', '\\', '/', ';', '-'].all (fun c => !isWordChar c) = true := by decide
  refine ⟨safeName_eq_empty_iff.trans shown_eq_empty_iff, length_safeName_le _, fun c hc => ?_,
    safeName_idem _, fun c => isInline_of_mem_attachment, _, splitAt_attachment _,
    Text.decode_percentEncode _, Text.percentDecode_percentEncode _⟩
  have hword := isWordChar_of_mem_safeName hc
  refine ⟨hword, fun hmark => ?_, isBlank_eq_false hword, isControl_eq_false hword⟩
  have hno := List.all_eq_true.1 hmarks c hmark
  rw [hword] at hno
  cases hno

/-! ### The service -/

/-- Where the answer is a document, the pattern is a text, and the document is named after it. -/
theorem exists_attachment_of_jflapResponse {p : Parameters} {response : Response}
    (h : jflapResponse p = .ok response) : ∃ pattern document, p.pattern = .text pattern ∧
      response.content = .file document (attachment pattern.shown) := by
  rw [jflapResponse] at h
  obtain ⟨source, -, h⟩ := bind_eq_ok_iff.1 h
  obtain ⟨d, -, h⟩ := bind_eq_ok_iff.1 h
  dsimp only at h
  split at h
  · cases h
  · obtain ⟨document, -, h⟩ := bind_eq_ok_iff.1 h
    split at h
    · next pattern hpattern =>
      split at h
      · cases h
      · cases h
        exact ⟨pattern, document, hpattern, rfl⟩
    · cases h

theorem sent_eq_ok {response sent : Response} (h : response.sent = .ok sent) : sent = response := by
  rw [Response.sent] at h
  split at h
  · next v _ =>
    cases hv : v.encodingError? with
    | none =>
      rw [hv] at h
      cases h
      rfl
    | some e =>
      rw [hv] at h
      cases h
  · cases h
    rfl

/-- Where a file is sent, the request was met. -/
theorem exists_of_convert_eq_file {r : Request} {nulls : List String}
    {meet : Parameters → Except ConversionError Response} {response : Response}
    {document header : String} (h : convert r nulls meet = .ok response)
    (hcontent : response.content = .file document header) :
    ∃ p, r.parameters = .ok p ∧ p.pattern.isTruthy = true ∧ meet p = .ok response := by
  rw [convert] at h
  split at h
  · cases h
    cases hcontent
  · cases h
  · next p hp =>
    split at h
    case isFalse =>
      cases h
      cases hcontent
    case isTrue htruthy =>
      dsimp only at h
      split at h
      · next sent hsent =>
        cases h
        obtain ⟨met, hmet, hsent⟩ := bind_eq_ok_iff.1 hsent
        rw [mapError_eq_ok_iff] at hmet hsent
        exact ⟨p, hp, htruthy, sent_eq_ok hsent ▸ hmet⟩
      · rw [mapError_eq_ok_iff] at h
        rw [sent_eq_ok h] at hcontent
        cases hcontent

/-- Every document that is served has the name of its pattern. -/
theorem exists_attachment_of_respond {server : Server} {r : Request} {response : Response}
    {document header : String} (hpath : r.path = "/api/regex-to-tm/jff/")
    (h : respond? server r = some (.ok response))
    (hcontent : response.content = .file document header) :
    ∃ p pattern, r.parameters = .ok p ∧ p.pattern = .text pattern ∧ p.pattern.isTruthy = true ∧
      header = attachment pattern.shown := by
  have hendpoint : Endpoint.ofPath? r.path = some .jflap := by rw [hpath]; decide
  rw [respond?, hendpoint, Option.map_some, Option.some.injEq] at h
  split at h
  case isFalse =>
    cases h
    cases hcontent
  case isTrue =>
    obtain ⟨p, hp, htruthy, hmet⟩ := exists_of_convert_eq_file h hcontent
    obtain ⟨pattern, document', hpattern, hfile⟩ := exists_attachment_of_jflapResponse hmet
    rw [hcontent, Content.file.injEq] at hfile
    exact ⟨p, pattern, hp, hpattern, htruthy, hfile.2⟩

end PatternMachines.Service
