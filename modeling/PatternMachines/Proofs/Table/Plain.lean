import Mathlib.Data.List.Basic
import PatternMachines.Proofs.Text.Utf8
import PatternMachines.Table.Plain

/-!
# What the plain library keeps

The plain library reads back what it writes: a field is read up to the comma or the line feed after
it, which stands in a field only between quotes. Besides the characters of its fields a table holds
commas, quotes and line feeds only.

## Main results

* `Table.Plain.readLines_writeLine`: a line is read back.
* `Table.Plain.mem_writeLine`: the characters of a line.
* `Table.plain_readsBack`, `Table.plain_keepsCharacters`, `Table.plain_completesAt`: the plain
  library can be relied on at every path.
-/

namespace PatternMachines.Table

namespace Plain

variable {c : Char} {cs field rest : List Char} {s : String} {fields : List String} {mode : Mode}

/-! ### Fields -/

/-- A comma outside quotes ends a field. -/
theorem readLines_comma (hmode : mode ≠ .inQuotes) : readLines mode field fields (',' :: rest) =
    readLines .bare [] (String.ofList field.reverse :: fields) rest := by
  simp [readLines, hmode]

/-- A line feed outside quotes ends a field and a line. -/
theorem readLines_lineFeed (hmode : mode ≠ .inQuotes) :
    readLines mode field fields ('\n' :: rest) =
      (String.ofList field.reverse :: fields).reverse :: readLines .bare [] [] rest := by
  simp [readLines, hmode]

/-- Characters that are written as they are. -/
theorem readLines_bare (h : needsQuotes cs = false) :
    readLines .bare field fields (cs ++ rest) =
      readLines .bare (cs.reverse ++ field) fields rest := by
  induction cs generalizing field with
  | nil => rfl
  | cons c cs ih =>
    rw [needsQuotes, List.any_cons, Bool.or_eq_false_iff] at h
    obtain ⟨hc, hcs⟩ := h
    have hsigns : c ≠ ',' ∧ c ≠ '"' ∧ c ≠ '\n' := by simpa [and_assoc] using hc
    rw [List.cons_append, readLines]
    simp [hsigns, ih hcs]

/-- Characters within quotes. -/
theorem readLines_doubleQuotes :
    readLines .inQuotes field fields (doubleQuotes cs ++ rest) =
      readLines .inQuotes (cs.reverse ++ field) fields rest := by
  induction cs generalizing field with
  | nil => rfl
  | cons c cs ih =>
    have hcs : doubleQuotes (c :: cs) = (if c = '"' then ['"', '"'] else [c]) ++ doubleQuotes cs :=
      rfl
    rw [hcs, List.reverse_cons, List.append_assoc, List.append_assoc, List.singleton_append, ← ih]
    -- Of two quotes, the first ends the quotes until the second takes them up again.
    split
    case isTrue hc => simp [readLines, hc]
    case isFalse hc => simp [readLines, hc]

/-- A written field is read up to what follows it. -/
theorem exists_readLines_writeField (cs : List Char) (fields : List String) :
    ∃ mode ≠ Mode.inQuotes, ∀ rest, readLines .bare [] fields (writeField cs ++ rest) =
      readLines mode cs.reverse fields rest := by
  rw [writeField]
  split
  case isTrue =>
    refine ⟨.afterQuote, by decide, fun rest => ?_⟩
    have hopen : readLines .bare [] fields ('"' :: (doubleQuotes cs ++ '"' :: rest)) =
        readLines .inQuotes [] fields (doubleQuotes cs ++ '"' :: rest) := by
      rw [readLines]
      simp
    rw [List.cons_append, List.append_assoc, List.singleton_append, hopen, readLines_doubleQuotes,
      List.append_nil, readLines]
    simp
  case isFalse h =>
    refine ⟨.bare, by decide, fun rest => ?_⟩
    rw [readLines_bare (eq_false_of_ne_true h), List.append_nil]

theorem readLines_field_comma : readLines .bare [] fields (writeField s.toList ++ ',' :: rest) =
    readLines .bare [] (s :: fields) rest := by
  obtain ⟨mode, hmode, hread⟩ := exists_readLines_writeField s.toList fields
  rw [hread, readLines_comma hmode, List.reverse_reverse, String.ofList_toList]

theorem readLines_field_lineFeed :
    readLines .bare [] fields (writeField s.toList ++ '\n' :: rest) =
      (s :: fields).reverse :: readLines .bare [] [] rest := by
  obtain ⟨mode, hmode, hread⟩ := exists_readLines_writeField s.toList fields
  rw [hread, readLines_lineFeed hmode, List.reverse_reverse, String.ofList_toList]

/-! ### Lines -/

/-- A written line is read back, after the fields that have been read before. -/
theorem readLines_writeLine {row : List String} (hrow : row ≠ []) :
    readLines .bare [] fields (writeLine row ++ rest) =
      (fields.reverse ++ row) :: readLines .bare [] [] rest := by
  induction row generalizing fields with
  | nil => exact absurd rfl hrow
  | cons s row ih =>
    cases row with
    | nil =>
      rw [writeLine, List.append_assoc, List.singleton_append, readLines_field_lineFeed,
        List.reverse_cons]
    | cons t row =>
      rw [writeLine, List.append_assoc, List.cons_append, readLines_field_comma,
        ih (List.cons_ne_nil t row), List.reverse_cons, List.append_assoc, List.singleton_append]
      exact List.cons_ne_nil t row

theorem readLines_flatMap_writeLine {rows : List (List String)} (hrows : ∀ row ∈ rows, row ≠ []) :
    readLines .bare [] [] (rows.flatMap writeLine) = rows := by
  induction rows with
  | nil => rfl
  | cons row rows ih =>
    rw [List.forall_mem_cons] at hrows
    rw [List.flatMap_cons, readLines_writeLine hrows.1, ih hrows.2, List.reverse_nil,
      List.nil_append]

/-! ### Characters -/

theorem mem_doubleQuotes : c ∈ doubleQuotes cs ↔ c ∈ cs := by
  rw [doubleQuotes, List.mem_flatMap]
  constructor
  · rintro ⟨d, hd, hc⟩
    have hcd : c = d := by
      split at hc
      · next hquote => simpa [hquote] using hc
      · exact List.mem_singleton.1 hc
    exact hcd ▸ hd
  · intro hc
    refine ⟨c, hc, ?_⟩
    split
    · next hquote => exact hquote ▸ List.mem_cons_self
    · exact List.mem_singleton.2 rfl

theorem mem_writeField (hquote : c ≠ '"') : c ∈ writeField cs ↔ c ∈ cs := by
  rw [writeField]
  split
  · simp [mem_doubleQuotes, hquote]
  · rfl

/-- The characters of a written line, but for those that set its fields apart. -/
theorem mem_writeLine {row : List String} (hquote : c ≠ '"') (hcomma : c ≠ ',')
    (hline : c ≠ '\n') : c ∈ writeLine row ↔ ∃ field ∈ row, c ∈ field.toList := by
  induction row with
  | nil => simp [writeLine, hline]
  | cons s row ih =>
    cases row with
    | nil => simp [writeLine, mem_writeField hquote, hline]
    | cons t row =>
      rw [writeLine, List.mem_append, List.mem_cons, mem_writeField hquote, ih,
        or_iff_right hcomma, List.exists_mem_cons_iff (l := t :: row)]
      exact List.cons_ne_nil t row

end Plain

open Plain

theorem bytes_plain (path : String) (rows : List (List String)) :
    plain.bytes path rows = Text.encode (rows.flatMap writeLine) := by
  rw [Text.encode, List.flatMap_assoc]
  rfl

/-- The plain library reads back what it has written. -/
theorem plain_readsBack (path : String) : plain.ReadsBack path records := by
  intro names rows hnames hwidth
  have hrows : ∀ row ∈ names :: rows, row ≠ [] := by
    refine List.forall_mem_cons.2 ⟨hnames, fun row hrow => ?_⟩
    rw [← List.length_pos_iff, hwidth row hrow]
    exact List.length_pos_iff.2 hnames
  rw [bytes_plain, records, Text.decode_encode]
  exact congrArg some (readLines_flatMap_writeLine hrows)

theorem plain_keepsCharacters (path : String) : plain.KeepsCharacters path := by
  intro rows
  refine ⟨_, bytes_plain path rows, ?_⟩
  simp only [List.mem_flatMap, mem_writeLine (c := '\r') (by decide) (by decide) (by decide)]

theorem plain_completesAt (path : String) : plain.CompletesAt path := fun _ _ => rfl

end PatternMachines.Table
