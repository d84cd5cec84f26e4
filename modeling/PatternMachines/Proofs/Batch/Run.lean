import Mathlib.Logic.Basic
import PatternMachines.Batch.Run
import PatternMachines.Proofs.Directory.Files
import PatternMachines.Proofs.Directory.Steps
import PatternMachines.Proofs.Fallible
import PatternMachines.Proofs.Text.Lines
import PatternMachines.Proofs.Text.Trim

/-!
# Runs of batches

All that can keep a batch from opening the file of its table comes before the first change. Once
this file is open, pieces are added to it until one of them fails or the table is complete. What a
batch reads depends on the name of its file only as far as the name is that of a table. The patterns
of a text file hold no carriage returns, as these end lines.

## Main definitions

* `Batch.TableEnds`, `Batch.Ends`: the ways in which a table is written, and those in which a batch
  ends.

## Main results

* `Batch.carriageReturn_not_mem_of_patternsOf`, `Batch.patternsOf_congr`: patterns of a file.
* `Batch.perform_addPieces`: pieces that are added to a file.
* `Batch.tableEnds`, `Batch.ends`: tables are written and batches end in these ways.
* `Batch.perform_run`, `Batch.perform_writeTable`: the course of a batch and of a table in which
  nothing fails.
-/

namespace PatternMachines.Batch

open Directory

variable {lib : Table.Library} {d : Directory} {name name' input output place : String}
  {bytes : List UInt8} {p : String} {cs : List Char} {patterns : List String}
  {records : List (List String)} {readTable : List UInt8 → Except Table.Fault Table}

/-! ### Patterns of a file -/

theorem carriageReturn_not_mem_of_mem_patternsOfText (hp : p ∈ patternsOfText cs) :
    '\r' ∉ p.toList := by
  obtain ⟨kept, hkept, rfl⟩ := List.mem_map.1 hp
  obtain ⟨line, hline, rfl⟩ := List.mem_map.1 (List.mem_filter.1 hkept).1
  rw [String.toList_ofList]
  exact fun hmem => Text.carriageReturn_not_mem_normaliseNewlines cs
    (Text.mem_of_mem_splitLines hline (Text.mem_of_mem_trimList hmem))

/-- The patterns of a text file hold no carriage returns. -/
theorem carriageReturn_not_mem_of_patternsOf (hname : isTableName name = false)
    (h : patternsOf readTable name bytes = .ok patterns) (hp : p ∈ patterns) : '\r' ∉ p.toList := by
  rw [patternsOf, hname, if_neg Bool.false_ne_true] at h
  split at h <;> cases h
  exact carriageReturn_not_mem_of_mem_patternsOfText hp

/-- The name of a file matters only as that of a table or of a text. -/
theorem patternsOf_congr (h : isTableName name = isTableName name') :
    patternsOf readTable name bytes = patternsOf readTable name' bytes := by
  rw [patternsOf, patternsOf, h]

/-! ### Tables -/

/-- The ways in which a table is written. -/
inductive TableEnds (lib : Table.Library) (output : String) (records : List (List String))
    (d : Directory) : Except Error Unit × Directory → Prop
  /-- The library refuses to open a file. -/
  | refused {fault : Table.Fault} (h : lib.refusal? d output = some fault) :
    TableEnds lib output records d (.error (.output fault), d)
  /-- The file cannot be opened. -/
  | unopened {e : FileError} (hrefusal : lib.refusal? d output = none)
      (h : d.placeFor (lib.target output) = .error e) :
    TableEnds lib output records d (.error (.file e), d)
  /-- A piece cannot be added to the file. -/
  | brokenOff {place : String} {opened : Directory} {piece written : List UInt8}
      {fault : Table.Fault} (hrefusal : lib.refusal? d output = none)
      (hplace : d.placeFor (lib.target output) = .ok place)
      (h : lib.failure? opened output piece = some fault) :
    TableEnds lib output records d (.error (.output fault), d.put place written)
  /-- The table is complete. -/
  | complete {place : String} (hrefusal : lib.refusal? d output = none)
      (hplace : d.placeFor (lib.target output) = .ok place) :
    TableEnds lib output records d (.ok ⟨⟩, d.put place (lib.bytes output records))

theorem perform_addPiece (piece : List UInt8) (d : Directory) :
    perform (addPiece lib output place piece) d =
      match lib.failure? d output piece with
      | some fault => (.error (.output fault), d)
      | none => (.ok ⟨⟩, d.append place piece) := by
  rw [addPiece, perform_bind, perform_get, continueWith_ok]
  cases lib.failure? d output piece <;> rfl

/-- Pieces are added to a file until one of them fails. -/
theorem perform_addPieces (lib : Table.Library) (d : Directory) (output place : String)
    (pieces : List (List UInt8)) (written : List UInt8) :
    perform (pieces.forM (addPiece lib output place)) (d.put place written) =
        (.ok ⟨⟩, d.put place (written ++ pieces.flatten)) ∨
      ∃ opened piece fault written', lib.failure? opened output piece = some fault ∧
        perform (pieces.forM (addPiece lib output place)) (d.put place written) =
          (.error (.output fault), d.put place written') := by
  induction pieces generalizing written with
  | nil =>
    rw [List.flatten_nil, List.append_nil]
    exact .inl rfl
  | cons piece pieces ih =>
    rw [List.forM, perform_bind, perform_addPiece, List.flatten_cons, ← List.append_assoc]
    cases hfailure : lib.failure? (d.put place written) output piece with
    | some fault => exact .inr ⟨_, piece, fault, written, hfailure, rfl⟩
    | none =>
      dsimp only
      rw [put_append]
      exact ih (written ++ piece)

/-- A table is written in one of these ways. -/
theorem tableEnds (lib : Table.Library) (output : String) (records : List (List String))
    (d : Directory) :
    TableEnds lib output records d (perform (writeTable lib output records) d) := by
  rw [writeTable, perform_bind, perform_get, continueWith_ok]
  cases hrefusal : lib.refusal? d output with
  | some fault => exact .refused hrefusal
  | none =>
    dsimp only
    rw [perform_bind, perform_adapt, perform_openFile]
    cases hplace : d.placeFor (lib.target output) with
    | error e => exact .unopened hrefusal hplace
    | ok place =>
      dsimp only [Except.mapError, continueWith_ok]
      obtain hcomplete | ⟨_, _, _, _, hfailure, hbroken⟩ :=
        perform_addPieces lib d output place (lib.pieces output records) []
      · rw [hcomplete]
        exact .complete hrefusal hplace
      · rw [hbroken]
        exact .brokenOff hrefusal hplace hfailure

/-- A table in which nothing fails is written as a whole. -/
theorem perform_writeTable (hcompletes : lib.CompletesAt output)
    (hrefusal : lib.refusal? d output = none) (hplace : d.placeFor (lib.target output) = .ok place)
    (records : List (List String)) : perform (writeTable lib output records) d =
      (.ok ⟨⟩, d.put place (lib.bytes output records)) := by
  have hends := tableEnds lib output records d
  generalize perform (writeTable lib output records) d = result at hends
  cases hends with
  | refused h =>
    rw [hrefusal] at h
    cases h
  | unopened _ h =>
    rw [hplace] at h
    cases h
  | brokenOff _ _ h =>
    rw [hcompletes] at h
    cases h
  | complete _ hplace' =>
    obtain rfl := Except.ok.inj (hplace.symm.trans hplace')
    rfl

/-! ### Batches -/

/-- The ways in which a batch ends. -/
inductive Ends (lib : Table.Library) (input output : String) (d : Directory) :
    Except Error (List Row) × Directory → Prop
  /-- The batch file cannot be found or opened. -/
  | unread {e : FileError} (h : d.read input = .error e) :
    Ends lib input output d (.error (.file e), d)
  /-- The batch file is no list of patterns. -/
  | unreadable {bytes : List UInt8} {e : InputError} (hread : d.read input = .ok bytes)
      (h : patternsOf lib.read (fileName input) bytes = .error e) :
    Ends lib input output d (.error (.input e), d)
  /-- The table cannot be written. -/
  | unwritten {bytes : List UInt8} {ps : List String} {e : Error} {d' : Directory}
      (hread : d.read input = .ok bytes)
      (hps : patternsOf lib.read (fileName input) bytes = .ok ps)
      (h : TableEnds lib output (recordsOf (rowsOf ps)) d (.error e, d')) :
    Ends lib input output d (.error e, d')
  /-- The table is written. -/
  | complete {bytes : List UInt8} {ps : List String} {d' : Directory}
      (hread : d.read input = .ok bytes)
      (hps : patternsOf lib.read (fileName input) bytes = .ok ps)
      (h : TableEnds lib output (recordsOf (rowsOf ps)) d (.ok ⟨⟩, d')) :
    Ends lib input output d (.ok (rowsOf ps), d')

/-- A batch that can read its file writes a table. -/
theorem perform_run_of_read (hread : d.read input = .ok bytes)
    (hps : patternsOf lib.read (fileName input) bytes = .ok patterns) :
    perform (run lib input output) d =
      continueWith (fun _ => pure (rowsOf patterns))
        (perform (writeTable lib output (recordsOf (rowsOf patterns))) d) := by
  rw [run, perform_bind, perform_get, continueWith_ok, perform_bind, perform_attempt, hread,
    Except.mapError, continueWith_ok, perform_bind, perform_attempt, hps, Except.mapError,
    continueWith_ok, perform_bind]

/-- A batch that cannot read its file as a list of patterns fails. -/
theorem perform_run_of_unreadable {e : InputError} (hread : d.read input = .ok bytes)
    (hps : patternsOf lib.read (fileName input) bytes = .error e) :
    perform (run lib input output) d = (.error (.input e), d) := by
  rw [run, perform_bind, perform_get, continueWith_ok, perform_bind, perform_attempt, hread,
    Except.mapError, continueWith_ok, perform_bind, perform_attempt, hps, Except.mapError,
    continueWith_error]

/-- A batch ends in one of these ways. -/
theorem ends (lib : Table.Library) (input output : String) (d : Directory) :
    Ends lib input output d (perform (run lib input output) d) := by
  cases hread : d.read input with
  | error e =>
    rw [run, perform_bind, perform_get, continueWith_ok, perform_bind, perform_attempt, hread]
    exact .unread hread
  | ok bytes =>
    cases hps : patternsOf lib.read (fileName input) bytes with
    | error e =>
      rw [perform_run_of_unreadable hread hps]
      exact .unreadable hread hps
    | ok ps =>
      rw [perform_run_of_read hread hps]
      have htable := tableEnds lib output (recordsOf (rowsOf ps)) d
      generalize perform (writeTable lib output (recordsOf (rowsOf ps))) d = result at htable
      obtain ⟨_ | _, d'⟩ := result
      · exact .unwritten hread hps htable
      · exact .complete hread hps htable

/-- What a batch that succeeds leaves behind. -/
theorem Ends.table {rows : List Row} {d' : Directory}
    (h : Ends lib input output d (.ok rows, d')) :
    ∃ bytes ps place, d.read input = .ok bytes ∧
    patternsOf lib.read (fileName input) bytes = .ok ps ∧
    rows = rowsOf ps ∧ d.placeFor (lib.target output) = .ok place ∧ d.SameBut place d' ∧
    d'.files[place]? = some (lib.bytes output (recordsOf rows)) := by
  cases h with
  | complete hread hps htable =>
    cases htable with
    | complete _ hplace =>
      exact ⟨_, _, _, hread, hps, rfl, hplace, sameBut_put _ _ _, getElem?_put_self⟩

/-- A batch in which nothing fails. -/
theorem perform_run (hread : d.read input = .ok bytes)
    (hps : patternsOf lib.read (fileName input) bytes = .ok patterns)
    (hcompletes : lib.CompletesAt output) (hrefusal : lib.refusal? d output = none)
    (hplace : d.placeFor (lib.target output) = .ok place) :
    perform (run lib input output) d = (.ok (rowsOf patterns),
      d.put place (lib.bytes output (recordsOf (rowsOf patterns)))) := by
  rw [perform_run_of_read hread hps, perform_writeTable hcompletes hrefusal hplace]
  rfl

end PatternMachines.Batch
