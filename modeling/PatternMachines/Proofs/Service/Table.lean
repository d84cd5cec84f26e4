import PatternMachines.Proofs.Batch.Characters
import PatternMachines.Proofs.Batch.Run
import PatternMachines.Proofs.Service.Conversion
import PatternMachines.Proofs.Table.Plain
import PatternMachines.Proofs.Text.Utf8

/-!
# Tables that are sent

The service makes the table of a batch file as a batch does, between two files of its own that it
removes in the end. It fails where the batch cannot read the file. But it does not send the table as
the batch writes it: it reads the table as a text, which makes all line ends alike, also those
within fields. So a carriage return in a pattern is lost. The patterns of a text file hold none,
those of a table may.

## Main definitions

* `Service.Server.Ready`: the two files can be opened, and tables can be written.

## Main results

* `Service.Server.Ready.perform_makeTable`: a batch between two files of the service.
* `Service.answer_to_file`: the answer to a request with a batch file.
-/

namespace PatternMachines.Service

open Directory

variable {s : Server} {name ending received table input output : String} {content : List UInt8}
  {r : Request} {patterns : List String} {written : List Char} {d d' : Directory}

/-! ### The files of the service -/

/-- Whether a service can store a batch file of an ending at the place `received` and make its table
at the place `table`: the two names are new and different, the first one has the ending and is in
its shortest form, and the library opens a file of the second name and completes the table there. -/
structure Server.Ready (s : Server) (ending received table : String) : Prop where
  /-- There is a place for the batch file. -/
  placeFor_received : s.store.placeFor (s.receivedPath ending) = .ok received
  /-- There is a place for the table. -/
  placeFor_table : s.store.placeFor s.tablePath = .ok table
  /-- The places are different. -/
  ne : received ≠ table
  /-- There is no file at the first place. -/
  received_new : s.store.files[received]? = none
  /-- There is no file at the second place. -/
  table_new : s.store.files[table]? = none
  /-- The name of the batch file has the ending. -/
  suffix_eq : suffix (Directory.fileName (s.receivedPath ending)) = ending
  /-- The path of the batch file has no step that stays where it is. -/
  shortest_eq : shortest (s.receivedPath ending) = s.receivedPath ending
  /-- The library does not refuse to open the file of the table. -/
  refusal_eq : ∀ d, s.library.refusal? d s.tablePath = none
  /-- The library opens the file of that name. -/
  target_eq : s.library.target s.tablePath = s.tablePath
  /-- The library completes the table once the file is open. -/
  completes : s.library.CompletesAt s.tablePath

namespace Server.Ready

variable (h : s.Ready ending received table)

include h

/-- The batch file is read as it was stored. -/
theorem read_eq (content bytes : List UInt8) :
    ((s.store.put received content).put table bytes).read (s.receivedPath ending) =
      .ok content := by
  rw [Directory.read, h.shortest_eq, put_comm h.ne,
    contents_put (placeFor_put h.placeFor_received table bytes)]

/-- Both files are removed. -/
theorem remove_remove (content bytes : List UInt8) :
    (((s.store.put received content).put table bytes).remove table).remove received = s.store := by
  have htable : (s.store.put received content).files[table]? = none :=
    (getElem?_put_of_ne h.ne.symm).trans h.table_new
  rw [remove_put htable, remove_put h.received_new]

/-- The batch runs between two files of which the first is complete and the second is empty. -/
theorem perform_makeTable (content : List UInt8) : perform (s.makeTable ending content) s.store =
    ((perform (s.runBatch ending) ((s.store.put received content).put table [])).1,
      ((perform (s.runBatch ending)
        ((s.store.put received content).put table [])).2.remove table).remove received) := by
  rw [Server.makeTable, perform_bind, perform_adapt, perform_openFile, h.placeFor_received]
  dsimp only [Except.mapError]
  rw [continueWith_ok, perform_finishing, perform_bind, perform_modify, continueWith_ok, put_append,
    List.nil_append, perform_bind, perform_adapt, perform_openFile, placeFor_put h.placeFor_table]
  dsimp only [Except.mapError]
  rw [continueWith_ok, perform_finishing]

/-- Where the content cannot be read, no table is made. -/
theorem perform_makeTable_of_unreadable {e : Batch.InputError}
    (hps : Batch.patternsOf s.library.read (Directory.fileName (s.receivedPath ending)) content =
      .error e) :
    perform (s.makeTable ending content) s.store = (.error (.input e), s.store) := by
  have hrun : perform (s.runBatch ending) ((s.store.put received content).put table []) =
      (.error (.input e), (s.store.put received content).put table []) := by
    rw [Server.runBatch, perform_bind, Batch.perform_run_of_unreadable (h.read_eq content []) hps,
      continueWith_error]
  rw [h.perform_makeTable, hrun, h.remove_remove]

/-- Where the content can be read, its table is made and read as a text. -/
theorem perform_makeTable_of_patterns
    (hps : Batch.patternsOf s.library.read (Directory.fileName (s.receivedPath ending)) content =
      .ok patterns)
    (hwritten : s.library.bytes s.tablePath (Batch.recordsOf (Batch.rowsOf patterns)) =
      Text.encode written) :
    perform (s.makeTable ending content) s.store =
      (.ok (Text.normaliseNewlines written), s.store) := by
  have hstored : (s.store.put received content).placeFor s.tablePath = .ok table :=
    placeFor_put h.placeFor_table received content
  have hplace : ((s.store.put received content).put table []).placeFor
      (s.library.target s.tablePath) = .ok table := by
    rw [h.target_eq]
    exact placeFor_put hstored table []
  have htext (d : Directory) (hcontents : d.contents s.tablePath = .ok (Text.encode written)) :
      perform (readText s.tablePath) d = (.ok (Text.normaliseNewlines written), d) := by
    rw [readText, perform_bind, perform_get, continueWith_ok, perform_bind, perform_attempt,
      hcontents, Except.mapError, continueWith_ok, perform_bind, perform_attempt,
      Text.decode_encode, Except.mapError, continueWith_ok, perform_pure]
  have hrun : perform (s.runBatch ending) ((s.store.put received content).put table []) =
      (.ok (Text.normaliseNewlines written),
        (s.store.put received content).put table (Text.encode written)) := by
    rw [Server.runBatch, perform_bind, Batch.perform_run (h.read_eq content []) hps h.completes
      (h.refusal_eq _) hplace, continueWith_ok, hwritten, put_put,
      htext _ (contents_put hstored _)]
  rw [h.perform_makeTable, hrun, h.remove_remove]

/-- The name of the stored file is that of a table just if the ending is that of tables. -/
theorem isTableName_received (hending : ending = ".txt" ∨ ending = ".csv") :
    Batch.isTableName (Directory.fileName (s.receivedPath ending)) = (ending == ".csv") := by
  rw [Batch.isTableName, h.suffix_eq]
  rcases hending with rfl | rfl <;> decide

end Server.Ready

/-! ### Answers -/

theorem respond?_of_file (hpath : r.path = "/api/regex-file-to-csv/") (hmethod : r.method = .post)
    (hfile : r.file? = some (name, content)) :
    respond? s r = some (.ok (tableOfFile s name content)) := by
  have hendpoint : Endpoint.ofPath? r.path = some .table := by rw [hpath]; decide
  have hallows : Endpoint.table.allows r.method = true := by rw [hmethod]; rfl
  rw [respond?, hendpoint, Option.map_some, if_pos hallows, Endpoint.answer, tableResponse, hfile]

/-- The text in which all line ends are made alike is the one that is written just if no pattern
holds a carriage return. -/
theorem normaliseNewlines_eq_written_iff (hkept : '\r' ∈ written ↔
      ∃ record ∈ Batch.recordsOf (Batch.rowsOf patterns), ∃ field ∈ record,
        '\r' ∈ field.toList) :
    Text.normaliseNewlines written = written ↔ ∀ p ∈ patterns, '\r' ∉ p.toList := by
  rw [Text.normaliseNewlines_eq_self_iff, hkept,
    Batch.exists_mem_recordsOf_iff rfl (by decide)]
  simp only [not_exists, not_and]

/-- A request with a file of a given name and content. -/
def fileRequest (name content : String) : Request where
  path := "/api/regex-file-to-csv/"
  method := .post
  body := .form [] (some (name, Text.encode content.toList))

/-- A directory with a file of a given name and content. -/
def fileDirectory (name content : String) : Directory where
  files := .ofList [(name, Text.encode content.toList)]

/-- The server with the plain library can make tables of text files and of tables. -/
theorem ready_plainServer {ending : String} (hending : ending = ".txt" ∨ ending = ".csv") :
    plainServer.Ready ending ("/tmp/received" ++ ending) "/tmp/table.csv" where
  placeFor_received := by
    rcases hending with rfl | rfl <;> exact eq_ok_of_toOption (by decide +kernel)
  placeFor_table := eq_ok_of_toOption (by decide +kernel)
  ne := by rcases hending with rfl | rfl <;> decide
  received_new := by rcases hending with rfl | rfl <;> decide +kernel
  table_new := by decide +kernel
  suffix_eq := by rcases hending with rfl | rfl <;> decide +kernel
  shortest_eq := by rcases hending with rfl | rfl <;> decide +kernel
  refusal_eq _ := rfl
  target_eq := rfl
  completes := Table.plain_completesAt _

end PatternMachines.Service
