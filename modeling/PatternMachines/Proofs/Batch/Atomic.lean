import PatternMachines.Console.Command
import PatternMachines.Proofs.Batch.Row
import PatternMachines.Proofs.Batch.Run
import PatternMachines.Proofs.Table.Plain

/-!
# Batches are atomic

A batch reads its file, opens the file of the table, which empties it, and adds the table to it
piece by piece. All that can fail before the pieces are added comes before the first change. So a
batch that fails leaves the directory as it was, unless a piece cannot be added to the open file;
and one that succeeds changes only the table. The row of a pattern tells neither of its line nor of
the other patterns.

## Main results

* `Batch.rowsOf_eq_map`: the rows of patterns, each by itself.
* `Batch.fields_rowsOf`: the texts of rows.
* `Batch.Ends.eq_of_error`: the directory after a batch that fails.
* `Batch.exists_run_iff`: the batches that succeed.
* `Batch.run_atomic`: batches are atomic and local to rows.
-/

namespace PatternMachines.Batch

open Directory

variable {lib : Table.Library} {d d' : Directory} {input output : String} {ps qs : List String}
  {rows : List Row} {e : Error}

/-! ### Rows -/

/-- The row of a text does not tell of its line. -/
theorem Row.ofText_line_eq (line line' : Int) (p : String) : ofText line p = ofText line' p :=
  ofJson_line_eq line line' p

/-- The row of a pattern depends on nothing else. -/
theorem rowsOf_eq_map (line : Int) (ps : List String) : rowsOf ps = ps.map (Row.ofText line) := by
  have hlines : (fun x : String × Nat => Row.ofText ((x.2 + 1 : Nat) : Int) x.1) =
      Row.ofText line ∘ Prod.fst := funext fun x => Row.ofText_line_eq _ _ _
  rw [rowsOf, hlines, ← List.map_map, List.zipIdx_map_fst]

theorem getElem?_rowsOf (ps : List String) (i : Nat) :
    (rowsOf ps)[i]? = ps[i]?.map (Row.ofText (i + 1 : Nat)) := by
  rw [rowsOf_eq_map (i + 1 : Nat), List.getElem?_map]

/-- The rows of patterns that are picked from others, in whatever order, are the rows picked. -/
theorem rowsOf_filterMap (ps : List String) (picks : List Nat) :
    rowsOf (picks.filterMap (ps[·]?)) = picks.filterMap ((rowsOf ps)[·]?) := by
  rw [rowsOf_eq_map 0, rowsOf_eq_map 0, List.map_filterMap]
  simp only [List.getElem?_map]

theorem rowsOf_append (ps qs : List String) : rowsOf (ps ++ qs) = rowsOf ps ++ rowsOf qs := by
  simp only [rowsOf_eq_map 0, List.map_append]

/-- A pattern that is added to others adds its row to theirs. -/
theorem rowsOf_append_cons (line : Int) (ps : List String) (p : String) (qs : List String) :
    rowsOf (ps ++ p :: qs) = rowsOf ps ++ Row.ofText line p :: rowsOf qs := by
  rw [rowsOf_append, rowsOf_eq_map line (p :: qs), List.map_cons, ← rowsOf_eq_map]

/-- The texts of rows, of which the first one is the pattern. -/
theorem fields_rowsOf (ps : List String) : (rowsOf ps).map Row.fields =
    (ps.zip (rowsOf ps)).map fun (p, r) =>
      [p, r.alphabet, r.states, r.accepting, r.edges, r.transitions, r.agreement, r.error] := by
  have hzip : ps.zip (ps.map (Row.ofText 0)) = ps.map fun p => (p, Row.ofText 0 p) := by
    simpa using List.zip_map' (l := ps) (f := id) (g := Row.ofText 0)
  rw [rowsOf_eq_map 0, hzip, List.map_map, List.map_map]
  refine List.map_congr_left fun p _ => ?_
  have hpattern : (Row.ofText 0 p).pattern = .text p := Row.pattern_ofJson 0 (.text p)
  rw [Function.comp_apply, Row.fields, hpattern]
  rfl

/-- The records of patterns are read back from the table. -/
theorem readRecords_recordsOf {readRecords : List UInt8 → Option (List (List String))}
    (hback : lib.ReadsBack output readRecords) (rows : List Row) :
    readRecords (lib.bytes output (recordsOf rows)) = some (recordsOf rows) :=
  hback columnNames (rows.map Row.fields) (List.cons_ne_nil _ _)
    (List.forall_mem_map.2 fun _ _ => rfl)

/-! ### How batches end -/

/-- A batch that fails before its table is opened leaves the directory as it was. -/
theorem Ends.eq_of_error (h : Ends lib input output d (.error e, d'))
    (hcompletes : lib.CompletesAt output) : d' = d := by
  cases h with
  | unread => rfl
  | unreadable => rfl
  | unwritten _ _ htable =>
    cases htable with
    | refused => rfl
    | unopened => rfl
    | brokenOff _ _ hfailure =>
      rw [hcompletes] at hfailure
      cases hfailure

/-- What keeps a batch from writing its table. -/
theorem Ends.cause (h : Ends lib input output d (.error e, d')) :
    d' = d ∧ ((∃ e', d.read input = .error e' ∧ e = .file e') ∨
      (∃ bytes e', d.read input = .ok bytes ∧
        patternsOf lib.read (fileName input) bytes = .error e' ∧ e = .input e') ∨
      (∃ fault, lib.refusal? d output = some fault ∧ e = .output fault) ∨
      ∃ e', d.placeFor (lib.target output) = .error e' ∧ e = .file e') ∨
    ∃ place opened piece fault, d.placeFor (lib.target output) = .ok place ∧
      lib.failure? opened output piece = some fault ∧ e = .output fault ∧ d.SameBut place d' := by
  cases h with
  | unread hread => exact .inl ⟨rfl, .inl ⟨_, hread, rfl⟩⟩
  | unreadable hread hps => exact .inl ⟨rfl, .inr (.inl ⟨_, _, hread, hps, rfl⟩)⟩
  | unwritten _ _ htable =>
    cases htable with
    | refused hrefusal => exact .inl ⟨rfl, .inr (.inr (.inl ⟨_, hrefusal, rfl⟩))⟩
    | unopened _ hplace => exact .inl ⟨rfl, .inr (.inr (.inr ⟨_, hplace, rfl⟩))⟩
    | brokenOff _ hplace hfailure =>
      exact .inr ⟨_, _, _, _, hplace, hfailure, rfl, sameBut_put _ _ _⟩

/-- The batches that succeed, if a table is written as a whole once its file is open. -/
theorem exists_run_iff (hcompletes : lib.CompletesAt output) :
    (∃ rows d', perform (run lib input output) d = (.ok rows, d')) ↔ ∃ bytes ps place,
      d.read input = .ok bytes ∧ patternsOf lib.read (fileName input) bytes = .ok ps ∧
      lib.refusal? d output = none ∧ d.placeFor (lib.target output) = .ok place := by
  constructor
  · rintro ⟨rows, d', h⟩
    have hends := ends lib input output d
    rw [h] at hends
    cases hends with
    | complete hread hps htable =>
      cases htable with
      | complete hrefusal hplace => exact ⟨_, _, _, hread, hps, hrefusal, hplace⟩
  · rintro ⟨bytes, ps, place, hread, hps, hrefusal, hplace⟩
    exact ⟨_, _, perform_run hread hps hcompletes hrefusal hplace⟩

/-- A call that runs a batch reports how the batch ends, and it changes nothing besides. -/
theorem perform_runBatch (lib : Table.Library) (input output : String) (d : Directory) :
    ∃ result, perform (Console.runBatch lib input output) d =
        (result, (perform (run lib input output) d).2) ∧
      ((∃ rows o, (perform (run lib input output) d).1 = .ok rows ∧ result = .ok o ∧
        o.exitCode = 0) ∨
      ∃ e, (perform (run lib input output) d).1 = .error e ∧
        (result = .error (.batch e) ∨ ∃ o, result = .ok o ∧ o.exitCode = 1)) := by
  rw [Console.runBatch, perform_bind, perform_liftM_run, continueWith_ok]
  cases (perform (run lib input output) d).1 with
  | ok rows => exact ⟨_, rfl, .inl ⟨rows, _, rfl, rfl, rfl⟩⟩
  | error e =>
    dsimp only
    split
    · exact ⟨_, rfl, .inr ⟨e, rfl, .inr ⟨_, rfl, rfl⟩⟩⟩
    · exact ⟨_, rfl, .inr ⟨e, rfl, .inl rfl⟩⟩

/-- **Batches are atomic.** A batch fails if its file cannot be read, if it is not a list of
patterns, or if the file of the table cannot be opened, and then the directory stays as it was. Only
if a piece of the table cannot be added to the open file, that file has changed, and no other one.
So if a table is written as a whole once its file is open, a batch that fails changes nothing, and
neither does a call of the program that reports the failure. A batch that succeeds changes only the
file of the table. The names of the columns are read back from it, and then one record for each
pattern that was read, in the same order: the pattern and the texts of its row. The row depends on
the pattern only, so rows are picked, put into another order, added and left out together with their
patterns. -/
theorem run_atomic (lib : Table.Library) (d : Directory) (input output : String)
    {readRecords : List UInt8 → Option (List (List String))}
    (hback : lib.ReadsBack output readRecords) :
    (∀ e d', perform (run lib input output) d = (.error e, d') →
      d' = d ∧ ((∃ e', d.read input = .error e' ∧ e = .file e') ∨
        (∃ bytes e', d.read input = .ok bytes ∧
          patternsOf lib.read (fileName input) bytes = .error e' ∧ e = .input e') ∨
        (∃ fault, lib.refusal? d output = some fault ∧ e = .output fault) ∨
        ∃ e', d.placeFor (lib.target output) = .error e' ∧ e = .file e') ∨
      ∃ place opened piece fault, d.placeFor (lib.target output) = .ok place ∧
        lib.failure? opened output piece = some fault ∧ e = .output fault ∧
        d.SameBut place d') ∧
    (lib.CompletesAt output →
      ((∃ rows d', perform (run lib input output) d = (.ok rows, d')) ↔ ∃ bytes ps place,
        d.read input = .ok bytes ∧ patternsOf lib.read (fileName input) bytes = .ok ps ∧
        lib.refusal? d output = none ∧ d.placeFor (lib.target output) = .ok place) ∧
      (∀ e d', perform (run lib input output) d = (.error e, d') → d' = d) ∧
      ∀ result d', perform (Console.runBatch lib input output) d = (result, d') →
        (∃ rows o, perform (run lib input output) d = (.ok rows, d') ∧ result = .ok o ∧
          o.exitCode = 0) ∨
        ∃ e, perform (run lib input output) d = (.error e, d') ∧ d' = d ∧
          (result = .error (.batch e) ∨ ∃ o, result = .ok o ∧ o.exitCode = 1)) ∧
    (∀ rows d', perform (run lib input output) d = (.ok rows, d') →
      ∃ bytes ps place content, d.read input = .ok bytes ∧
        patternsOf lib.read (fileName input) bytes = .ok ps ∧ rows = rowsOf ps ∧
        d.placeFor (lib.target output) = .ok place ∧ d.SameBut place d' ∧
        d'.files[place]? = some content ∧
        readRecords content = some (columnNames :: (ps.zip rows).map fun (p, r) =>
          [p, r.alphabet, r.states, r.accepting, r.edges, r.transitions, r.agreement, r.error])) ∧
    (∀ ps i, (rowsOf ps)[i]? = ps[i]?.map (Row.ofText (i + 1 : Nat))) ∧
    (∀ ps (picks : List Nat),
      rowsOf (picks.filterMap (ps[·]?)) = picks.filterMap ((rowsOf ps)[·]?)) ∧
    ∀ line ps p qs, rowsOf (ps ++ qs) = rowsOf ps ++ rowsOf qs ∧
      rowsOf (ps ++ p :: qs) = rowsOf ps ++ Row.ofText line p :: rowsOf qs := by
  have hends {result : Except Error (List Row)} {d' : Directory}
      (h : perform (run lib input output) d = (result, d')) :
      Ends lib input output d (result, d') := h ▸ ends lib input output d
  refine ⟨fun e d' h => (hends h).cause, fun hcompletes => ⟨exists_run_iff hcompletes,
    fun e d' h => (hends h).eq_of_error hcompletes, fun result d' h => ?call⟩,
    fun rows d' h => ?succeeds, getElem?_rowsOf, rowsOf_filterMap,
    fun line ps p qs => ⟨rowsOf_append ps qs, rowsOf_append_cons line ps p qs⟩⟩
  case call =>
    obtain ⟨result', hcall, hresult⟩ := perform_runBatch lib input output d
    rw [h, Prod.mk.injEq] at hcall
    obtain ⟨rfl, rfl⟩ := hcall
    obtain ⟨rows, o, hrun, hresult, hcode⟩ | ⟨e, hrun, hresult⟩ := hresult
    · exact .inl ⟨rows, o, Prod.ext hrun rfl, hresult, hcode⟩
    · have hfail : perform (run lib input output) d = (.error e, _) := Prod.ext hrun rfl
      exact .inr ⟨e, hfail, (hends hfail).eq_of_error hcompletes, hresult⟩
  case succeeds =>
    obtain ⟨bytes, ps, place, hread, hps, rfl, hplace, hsame, hcontent⟩ := (hends h).table
    refine ⟨bytes, ps, place, _, hread, hps, rfl, hplace, hsame, hcontent, ?_⟩
    rw [readRecords_recordsOf hback, recordsOf, fields_rowsOf]

/-- A directory with a text file in a folder, which is also reached through another folder. -/
def foldersWithText : Directory where
  files := .ofList [("lists/in.txt", Text.encode "a,b\n# c\n\nd*".toList), ("out", [])]
  folders := .ofList ["lists", "tables"]

/-- A batch with two patterns, of which the first one is written between quotes. -/
theorem run_atomic_folders : Table.plain.ReadsBack "tables/../lists/out.csv" Table.Plain.records ∧
    ∃ rows d' content, perform (run Table.plain "tables/../lists/in.txt" "tables/../lists/out.csv")
        foldersWithText = (.ok rows, d') ∧
      d'.files["lists/out.csv"]? = some content ∧ d'.files["out"]? = some [] ∧
      (Table.Plain.records content).map (List.map List.head?) =
        some [some "Regex", some "a,b", some "d*"] := by
  have hback := Table.plain_readsBack "tables/../lists/out.csv"
  have hread : foldersWithText.read "tables/../lists/in.txt" =
      .ok (Text.encode "a,b\n# c\n\nd*".toList) := eq_ok_of_toOption (by decide +kernel)
  have hplace : foldersWithText.placeFor "tables/../lists/out.csv" = .ok "lists/out.csv" :=
    eq_ok_of_toOption (by decide +kernel)
  have hps : patternsOf Table.plain.read (fileName "tables/../lists/in.txt")
      (Text.encode "a,b\n# c\n\nd*".toList) = .ok ["a,b", "d*"] :=
    eq_ok_of_toOption (by decide +kernel)
  obtain ⟨-, hcomplete, hsucceeds, -⟩ := run_atomic Table.plain foldersWithText
    "tables/../lists/in.txt" "tables/../lists/out.csv" hback
  obtain ⟨rows, d', hrun⟩ := (hcomplete (Table.plain_completesAt _)).1.2
    ⟨_, _, _, hread, hps, rfl, hplace⟩
  obtain ⟨bytes, ps, place, content, hread', hps', rfl, hplace', hsame, hcontent, hrecords⟩ :=
    hsucceeds rows d' hrun
  obtain rfl := Except.ok.inj (hread.symm.trans hread')
  obtain rfl := Except.ok.inj (hps.symm.trans hps')
  obtain rfl := Except.ok.inj (hplace.symm.trans hplace')
  refine ⟨hback, _, d', content, hrun, hcontent, ?_, ?_⟩
  · rw [hsame.files_eq "out" (by decide)]
    decide +kernel
  · rw [hrecords]
    rfl

end PatternMachines.Batch
