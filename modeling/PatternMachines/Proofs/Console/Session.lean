import Mathlib.Data.List.TakeWhile
import PatternMachines.Console.Session
import PatternMachines.Proofs.Comparison
import PatternMachines.Proofs.Report.Automaton
import PatternMachines.Proofs.Text.Part

/-!
# Interactive sessions as sequences of inquiries

A session goes from one pattern to the next, and nothing of a pattern is left when the next one is
given. So the text of a session is put together from the texts of its inquiries, each of them about
one pattern. What an inquiry prints can be told from its own lines. The conversions in a session may
take different times; each line is given with the time that its conversion would take.

## Main definitions

* `Console.TimedLine`, `Console.timedTranscript`: sessions whose conversions take their own times.
* `Console.Conversion.IsOf`, `Console.Conversion.Answers`: conversions and answers as they should be.
* `Console.Inquiry`, `Console.Inquiry.print`: the lines about one pattern, and what they print.
* `Console.Dialogue`: inquiries that are brought to an end.
* `Console.Ending`: how the input ends.

## Main results

* `Console.Conversion.exists_isOf`, `Console.Conversion.exists_answers`: every pattern is converted,
  and every line after it is answered.
* `Console.Inquiry.Resolves.print_eq_ok`: what an inquiry prints.
* `Console.Inquiry.timedTranscriptFrom_append`: an inquiry prints its own text before the rest.
* `Console.exists_dialogues`: every input is made of dialogues and an ending.
* `Console.transcript_composes`: the text of every session.
-/

namespace PatternMachines.Console

/-! ### Lines with times -/

/-- A line of input, with the time that is reported if it is converted. -/
structure TimedLine where
  /-- The line. -/
  text : String
  /-- The time. -/
  elapsed : String

namespace TimedLine

/-- What a session reads of a line. -/
abbrev trimmed (l : TimedLine) : String := Text.trim l.text

/-- Whether there is nothing to read on a line. -/
abbrev IsEmpty (l : TimedLine) : Prop := l.trimmed = ""

/-- Whether a line is a given word, in small letters or capitals. -/
abbrev Says (l : TimedLine) (word : String) : Prop := isWord l.trimmed word = true

end TimedLine

/-- The text that the rest of a session prints on the lines that are left. -/
def timedTranscriptFrom (state : State) : List TimedLine → Except MissingState String
  | [] => .ok state.prompt
  | l :: lines => do
    let r ← reply l.elapsed state l.text
    match r.next with
    | none => return state.prompt ++ r.printed
    | some next => return state.prompt ++ r.printed ++ (← timedTranscriptFrom next lines)

/-- The text that a session prints on the given lines. -/
def timedTranscript (lines : List TimedLine) : Except MissingState String := do
  return banner ++ (← timedTranscriptFrom none lines)

/-- A session whose conversions all take the same time. -/
theorem transcriptFrom_eq (elapsed : String) (state : State) (lines : List String) :
    transcriptFrom elapsed state lines = timedTranscriptFrom state (lines.map (⟨·, elapsed⟩)) := by
  induction lines generalizing state with
  | nil => rfl
  | cons line lines ih =>
    rw [transcriptFrom, List.map_cons, timedTranscriptFrom]
    refine bind_congr fun r => ?_
    cases r.next with
    | none => rfl
    | some next =>
      dsimp only
      rw [ih]

/-! ### Replies -/

variable {state next : State} {l : TimedLine} {rest : List TimedLine} {c : Conversion}
  {printed text : String}

/-- The reply to an empty line in place of a pattern. -/
def complaint : String := "¡Ingresa una regex válida!\n"

/-- The reply to the word that ends a session. -/
def farewell : String := "¡Gracias por usar el conversor!\n"

/-- The reply to a line after a pattern that does not end the inquiry. -/
def Conversion.answer (c : Conversion) (l : TimedLine) : Except MissingState String :=
  if l.Says "examples" then .ok c.hints else c.check l.trimmed

theorem timedTranscriptFrom_cons (hreply : reply l.elapsed state l.text = .ok ⟨printed, some next⟩)
    (hrest : timedTranscriptFrom next rest = .ok text) :
    timedTranscriptFrom state (l :: rest) = .ok (state.prompt ++ printed ++ text) := by
  rw [timedTranscriptFrom, hreply]
  dsimp only [bind, Except.bind]
  rw [hrest]
  rfl

theorem reply_of_isEmpty (hl : l.IsEmpty) :
    reply l.elapsed none l.text = .ok ⟨complaint, some none⟩ := by
  have hexit : ¬l.Says "exit" := by
    rw [TimedLine.Says, hl]
    decide
  rw [reply, replyToPattern, if_neg hexit, if_pos hl]
  rfl

theorem reply_of_exit (hl : l.Says "exit") :
    reply l.elapsed none l.text = .ok ⟨farewell, none⟩ := by
  rw [reply, replyToPattern, if_pos hl]
  rfl

/-- The report of a conversion shows its automaton. -/
theorem Conversion.exists_report (hc : c.dfa.Closed) (elapsed : String) :
    ∃ report, c.report elapsed = .ok report := by
  unfold Conversion.report
  rw [Report.automaton_eq_ok hc]
  exact ⟨_, rfl⟩

/-- Whether a pattern is converted to its automaton and the machine of that. -/
structure Conversion.IsOf (c : Conversion) (pattern : String) : Prop where
  /-- The pattern is kept. -/
  pattern_eq : c.pattern = pattern
  /-- The automaton is that of the pattern. -/
  dfa_eq : Dfa.ofText pattern = .ok c.dfa
  /-- The machine is that of the automaton. -/
  machine_eq : c.machine = Turing.Machine.ofDfa c.dfa

theorem Conversion.IsOf.of_eq_ok {pattern : String} (hc : c.IsOf pattern) :
    Conversion.of pattern = .ok c := by
  rw [Conversion.of, hc.dfa_eq, ← hc.pattern_eq]
  dsimp only [bind, Except.bind]
  rw [← hc.machine_eq]
  rfl

/-- Every pattern is converted, and the automaton is closed, so that every text has a verdict. -/
theorem Conversion.exists_isOf (pattern : String) :
    ∃ c : Conversion, c.IsOf pattern ∧ c.dfa.Closed := by
  obtain ⟨d, hd⟩ := Pattern.exists_ofNfa_toNfa (Pattern.ofText pattern)
  exact ⟨⟨pattern, d, Turing.Machine.ofDfa d⟩, ⟨rfl, hd, rfl⟩,
    (Dfa.determinizes_of_ofNfa hd).closed⟩

/-- Whether a line after a pattern is answered as it should be: with hints if they are asked for,
and otherwise with the verdict of the automaton on the line and the run of the machine. -/
def Conversion.Answers (c : Conversion) (l : TimedLine) (answer : String) : Prop :=
  ∃ accepted, c.dfa.accepts (Symbol.ofText l.trimmed) = .ok accepted ∧
    answer = if l.Says "examples" then c.hints
      else Report.verdict ⟨l.trimmed, accepted, c.machine.run l.trimmed⟩

theorem Conversion.Answers.answer_eq_ok {answer : String} (h : c.Answers l answer) :
    c.answer l = .ok answer := by
  obtain ⟨accepted, haccepted, hanswer⟩ := h
  rw [Conversion.answer, hanswer]
  split
  case isTrue => rfl
  case isFalse =>
    rw [Conversion.check, Comparison.of_eq_ok haccepted]
    rfl

/-- Lines after a pattern are answered one by one. -/
theorem Conversion.exists_answers (hc : c.dfa.Closed) (texts : List TimedLine) :
    ∃ answers, List.Forall₂ c.Answers texts answers := by
  have hanswer (l : TimedLine) : ∃ answer, c.Answers l answer :=
    ⟨_, _, hc.accepts_eq _, rfl⟩
  choose answer hanswer using hanswer
  exact ⟨texts.map answer, List.forall₂_map_right_iff.2 (List.forall₂_same.2 fun l _ => hanswer l)⟩

theorem reply_of_pattern {report : String} (hne : ¬l.IsEmpty) (hexit : ¬l.Says "exit")
    (hc : Conversion.of l.trimmed = .ok c) (hreport : c.report l.elapsed = .ok report) :
    reply l.elapsed none l.text = .ok ⟨report ++ textInstructions, some (some c)⟩ := by
  rw [reply, replyToPattern, if_neg hexit, if_neg hne, hc]
  dsimp only [bind, Except.bind]
  rw [hreport]
  rfl

theorem reply_of_done (hdone : l.Says "done") :
    reply l.elapsed (some c) l.text = .ok ⟨"", some none⟩ := by
  rw [reply, replyToText, if_pos hdone]
  rfl

/-- Whatever is not the end of an inquiry is answered, also an empty line and the word that ends a
session. -/
theorem reply_of_answer (hdone : ¬l.Says "done") {answer : String}
    (hanswer : c.answer l = .ok answer) :
    reply l.elapsed (some c) l.text = .ok ⟨answer, some (some c)⟩ := by
  rw [reply, replyToText, if_neg hdone]
  rw [Conversion.answer] at hanswer
  split at hanswer
  case isTrue hexamples =>
    cases hanswer
    rw [if_pos hexamples]
    rfl
  case isFalse hexamples =>
    rw [if_neg hexamples, hanswer]
    rfl

/-! ### Inquiries -/

/-- The lines about one pattern: empty lines before it, the pattern, and what comes after it. -/
structure Inquiry where
  /-- The lines before the pattern. -/
  blanks : List TimedLine
  /-- The pattern. -/
  pattern : TimedLine
  /-- The lines after the pattern. -/
  texts : List TimedLine
  /-- There is nothing to read before the pattern. -/
  blanks_isEmpty : ∀ l ∈ blanks, l.IsEmpty
  /-- The pattern is not empty. -/
  pattern_not_isEmpty : ¬pattern.IsEmpty
  /-- The pattern is not the word that ends a session. -/
  pattern_not_exit : ¬pattern.Says "exit"
  /-- The lines after the pattern do not end the inquiry. -/
  texts_not_done : ∀ l ∈ texts, ¬l.Says "done"

/-- What is printed on empty lines in place of a pattern. -/
def complaints (blanks : List TimedLine) : String :=
  Text.join "" (blanks.map fun _ => patternPrompt ++ complaint)

/-- What is printed on lines with the given answers. -/
def prompted (answers : List String) : String := Text.join "" (answers.map (textPrompt ++ ·))

theorem complaints_cons (l : TimedLine) (blanks : List TimedLine) :
    complaints (l :: blanks) = patternPrompt ++ complaint ++ complaints blanks := by
  rw [complaints, List.map_cons, Text.join_empty_cons, complaints]

theorem prompted_cons (answer : String) (answers : List String) :
    prompted (answer :: answers) = textPrompt ++ answer ++ prompted answers := by
  rw [prompted, List.map_cons, Text.join_empty_cons, prompted]

namespace Inquiry

/-- The lines of an inquiry. -/
def lines (q : Inquiry) : List TimedLine := q.blanks ++ q.pattern :: q.texts

/-- What an inquiry prints, up to the prompt for the line after it. -/
def print (q : Inquiry) : Except MissingState String := do
  let c ← Conversion.of q.pattern.trimmed
  let report ← c.report q.pattern.elapsed
  let answers ← q.texts.mapM c.answer
  return complaints q.blanks ++ (patternPrompt ++ report ++ textInstructions) ++
    prompted answers ++ textPrompt

/-- Whether a conversion, its report and answers are those of an inquiry. -/
structure Resolves (q : Inquiry) (c : Conversion) (report : String) (answers : List String) :
    Prop where
  /-- The pattern of the inquiry is converted. -/
  isOf : c.IsOf q.pattern.trimmed
  /-- The conversion is reported. -/
  report_eq : c.report q.pattern.elapsed = .ok report
  /-- Each line after the pattern has one answer. -/
  answers : List.Forall₂ c.Answers q.texts answers

variable {q : Inquiry} {report : String} {answers : List String}

/-- Every inquiry can be met. -/
theorem exists_resolves (q : Inquiry) : ∃ c report answers, q.Resolves c report answers := by
  obtain ⟨c, hc, hclosed⟩ := Conversion.exists_isOf q.pattern.trimmed
  obtain ⟨report, hreport⟩ := c.exists_report hclosed q.pattern.elapsed
  obtain ⟨answers, hanswers⟩ := Conversion.exists_answers hclosed q.texts
  exact ⟨c, report, answers, hc, hreport, hanswers⟩

theorem Resolves.mapM_answer_eq_ok (h : q.Resolves c report answers) :
    q.texts.mapM c.answer = .ok answers :=
  mapM_eq_ok_iff.2 (h.answers.imp fun _ _ => Conversion.Answers.answer_eq_ok)

theorem Resolves.print_eq_ok (h : q.Resolves c report answers) :
    q.print = .ok (complaints q.blanks ++ (patternPrompt ++ report ++ textInstructions) ++
      prompted answers ++ textPrompt) := by
  rw [print, h.isOf.of_eq_ok]
  dsimp only [bind, Except.bind]
  rw [h.report_eq, h.mapM_answer_eq_ok]
  rfl

end Inquiry

/-- An inquiry that is brought to an end. -/
structure Dialogue extends Inquiry where
  /-- The line after the inquiry. -/
  last : TimedLine
  /-- It ends the inquiry. -/
  last_done : last.Says "done"

/-- The lines of a dialogue. -/
def Dialogue.lines (d : Dialogue) : List TimedLine := d.toInquiry.lines ++ [d.last]

/-- What comes after the last dialogue. -/
inductive Ending where
  /-- The input ends where a pattern is asked for. -/
  | input (blanks : List TimedLine) (hblanks : ∀ l ∈ blanks, l.IsEmpty)
  /-- The session is ended in place of a pattern, so that the other lines are not read. -/
  | exit (blanks : List TimedLine) (hblanks : ∀ l ∈ blanks, l.IsEmpty) (last : TimedLine)
    (hlast : last.Says "exit") (unread : List TimedLine)
  /-- The input ends where a text is asked for. -/
  | inquiry (q : Inquiry)

namespace Ending

/-- The lines of an ending. -/
def lines : Ending → List TimedLine
  | input blanks _ => blanks
  | exit blanks _ last _ unread => blanks ++ last :: unread
  | inquiry q => q.lines

/-- What an ending prints, with the prompt that is not answered if there is one. -/
def print : Ending → Except MissingState String
  | input blanks _ => .ok (complaints blanks ++ patternPrompt)
  | exit blanks _ _ _ _ => .ok (complaints blanks ++ (patternPrompt ++ farewell))
  | inquiry q => q.print

end Ending

/-! ### Runs -/

theorem timedTranscriptFrom_blanks {blanks : List TimedLine} (hblanks : ∀ l ∈ blanks, l.IsEmpty)
    (hrest : timedTranscriptFrom none rest = .ok text) :
    timedTranscriptFrom none (blanks ++ rest) = .ok (complaints blanks ++ text) := by
  induction blanks with
  | nil =>
    rw [List.nil_append, hrest]
    exact congrArg Except.ok String.empty_append.symm
  | cons l blanks ih =>
    rw [List.forall_mem_cons] at hblanks
    rw [List.cons_append, timedTranscriptFrom_cons (reply_of_isEmpty hblanks.1) (ih hblanks.2),
      complaints_cons]
    simp only [String.append_assoc]
    rfl

theorem timedTranscriptFrom_texts {texts : List TimedLine} {answers : List String}
    (htexts : ∀ l ∈ texts, ¬l.Says "done")
    (hanswers : List.Forall₂ (fun l answer => c.answer l = .ok answer) texts answers)
    (hrest : timedTranscriptFrom (some c) rest = .ok text) :
    timedTranscriptFrom (some c) (texts ++ rest) = .ok (prompted answers ++ text) := by
  induction hanswers with
  | nil =>
    rw [List.nil_append, hrest]
    exact congrArg Except.ok String.empty_append.symm
  | cons hanswer _ ih =>
    rw [List.forall_mem_cons] at htexts
    rw [List.cons_append, timedTranscriptFrom_cons (reply_of_answer htexts.1 hanswer)
      (ih htexts.2), prompted_cons]
    simp only [String.append_assoc]
    rfl

/-- An inquiry prints its own text before what comes after it, which is answered with its own
automaton and machine. -/
theorem Inquiry.timedTranscriptFrom_append (q : Inquiry) : ∃ c printed,
    q.print = .ok (printed ++ textPrompt) ∧
    ∀ rest text, timedTranscriptFrom (some c) rest = .ok text →
      timedTranscriptFrom none (q.lines ++ rest) = .ok (printed ++ text) := by
  obtain ⟨c, report, answers, hq⟩ := q.exists_resolves
  refine ⟨c, _, hq.print_eq_ok, fun rest text hrest => ?_⟩
  have hreply := reply_of_pattern q.pattern_not_isEmpty q.pattern_not_exit hq.isOf.of_eq_ok
    hq.report_eq
  have hrun := timedTranscriptFrom_texts q.texts_not_done (mapM_eq_ok_iff.1 hq.mapM_answer_eq_ok)
    hrest
  rw [lines, List.append_assoc, List.cons_append,
    timedTranscriptFrom_blanks q.blanks_isEmpty (timedTranscriptFrom_cons hreply hrun)]
  simp only [String.append_assoc]
  rfl

/-- A dialogue prints its own text, and then the session goes on as it began. -/
theorem Dialogue.timedTranscriptFrom_append (d : Dialogue) : ∃ printed, d.print = .ok printed ∧
    ∀ rest text, timedTranscriptFrom none rest = .ok text →
      timedTranscriptFrom none (d.lines ++ rest) = .ok (printed ++ text) := by
  obtain ⟨c, printed, hprint, happend⟩ := d.toInquiry.timedTranscriptFrom_append
  refine ⟨_, hprint, fun rest text hrest => ?_⟩
  have hlast := timedTranscriptFrom_cons (reply_of_done d.last_done (c := c)) hrest
  rw [Dialogue.lines, List.append_assoc, List.singleton_append, happend _ _ hlast,
    String.append_empty, String.append_assoc]
  rfl

/-- An ending prints its own text. -/
theorem Ending.timedTranscriptFrom_lines (e : Ending) : ∃ printed, e.print = .ok printed ∧
    timedTranscriptFrom none e.lines = .ok printed := by
  cases e with
  | input blanks hblanks =>
    have hend : timedTranscriptFrom none (blanks ++ []) =
        .ok (complaints blanks ++ patternPrompt) :=
      timedTranscriptFrom_blanks hblanks rfl
    rw [List.append_nil] at hend
    exact ⟨_, rfl, hend⟩
  | exit blanks hblanks last hlast unread =>
    have hend : timedTranscriptFrom none (last :: unread) = .ok (patternPrompt ++ farewell) := by
      rw [timedTranscriptFrom, reply_of_exit hlast]
      rfl
    exact ⟨_, rfl, timedTranscriptFrom_blanks hblanks hend⟩
  | inquiry q =>
    obtain ⟨c, printed, hprint, happend⟩ := q.timedTranscriptFrom_append
    have hend := happend [] textPrompt rfl
    rw [List.append_nil] at hend
    exact ⟨_, hprint, hend⟩

theorem timedTranscriptFrom_dialogues (ds : List Dialogue)
    (hrest : timedTranscriptFrom none rest = .ok text) : ∃ prints,
      ds.mapM (fun d => d.print) = .ok prints ∧
      timedTranscriptFrom none (ds.flatMap Dialogue.lines ++ rest) =
        .ok (Text.join "" prints ++ text) := by
  induction ds with
  | nil => exact ⟨[], rfl, hrest.trans (congrArg Except.ok String.empty_append.symm)⟩
  | cons d ds ih =>
    obtain ⟨printed, hprint, happend⟩ := d.timedTranscriptFrom_append
    obtain ⟨prints, hprints, hds⟩ := ih
    refine ⟨printed :: prints, ?_, ?_⟩
    · exact mapM_eq_ok_iff.2 (.cons hprint (mapM_eq_ok_iff.1 hprints))
    · rw [List.flatMap_cons, List.append_assoc, happend _ _ hds, Text.join_empty_cons,
        String.append_assoc]

/-! ### Every input -/

/-- A list up to the first item that is not of a kind. -/
theorem exists_split {α : Type} (p : α → Prop) [DecidablePred p] (xs : List α) :
    ∃ before after, xs = before ++ after ∧ (∀ x ∈ before, p x) ∧ ∀ x ∈ after.head?, ¬p x := by
  refine ⟨xs.takeWhile p, xs.dropWhile p, List.takeWhile_append_dropWhile.symm, fun x hx => ?_,
    fun x hx => ?_⟩
  · have hbefore := List.mem_takeWhile_imp hx
    exact of_decide_eq_true hbefore
  · have hafter := List.head?_dropWhile_not (fun x => decide (p x)) xs
    rw [Option.mem_def.1 hx] at hafter
    exact of_decide_eq_false hafter

/-- Every input is made of dialogues and an ending. -/
theorem exists_dialogues (lines : List TimedLine) :
    ∃ (ds : List Dialogue) (e : Ending), lines = ds.flatMap Dialogue.lines ++ e.lines := by
  obtain ⟨blanks, after, hlines, hblanks, hafter⟩ := exists_split TimedLine.IsEmpty lines
  cases after with
  | nil => exact ⟨[], .input blanks hblanks, hlines.trans (List.append_nil blanks)⟩
  | cons l after =>
    by_cases hexit : l.Says "exit"
    · exact ⟨[], .exit blanks hblanks l hexit after, hlines⟩
    -- The word that ends a session is looked for before the pattern only; after it, all lines up to
    -- the end of the inquiry are texts.
    obtain ⟨texts, rest, hsplit, htexts, hrest⟩ := exists_split (fun l => ¬l.Says "done") after
    let q : Inquiry := ⟨blanks, l, texts, hblanks, hafter l rfl, hexit, htexts⟩
    have hq : lines = q.lines ++ rest := by
      rw [hlines, hsplit, Inquiry.lines, List.append_assoc, List.cons_append]
    cases rest with
    | nil => exact ⟨[], .inquiry q, hq.trans (List.append_nil _)⟩
    | cons last rest =>
      obtain ⟨ds, e, hds⟩ := exists_dialogues rest
      refine ⟨⟨q, last, not_not.1 (hrest last rfl)⟩ :: ds, e, ?_⟩
      rw [hq, hds, List.flatMap_cons, Dialogue.lines]
      simp only [List.append_assoc, List.cons_append, List.nil_append]
termination_by lines.length
decreasing_by
  rw [hq]
  simp
  omega

/-- **Interactive sessions.** A session prints what it opens with, then the text of each dialogue
in order, then that of the ending, which is the prompt for a pattern if no lines are left. The text
of a dialogue is told from its own lines: its pattern is converted to its automaton and the machine
of that, and each line after it is answered once, with the verdict of the automaton on the line and
the run of the machine unless it asks for hints. Every input is made of dialogues and an ending, so
every session comes to its end without an error. -/
theorem transcript_composes :
    (∀ ds : List Dialogue, ∃ prints, ds.mapM (fun d => d.print) = .ok prints ∧
      timedTranscript (ds.flatMap Dialogue.lines) =
        .ok (banner ++ Text.join "" prints ++ patternPrompt)) ∧
    (∀ (ds : List Dialogue) (e : Ending), ∃ prints printed,
      ds.mapM (fun d => d.print) = .ok prints ∧ e.print = .ok printed ∧
      timedTranscript (ds.flatMap Dialogue.lines ++ e.lines) =
        .ok (banner ++ Text.join "" prints ++ printed)) ∧
    (∀ q : Inquiry, ∃ (c : Conversion) (report : String) (answers : List String),
      Dfa.ofText q.pattern.trimmed = .ok c.dfa ∧ c.machine = Turing.Machine.ofDfa c.dfa ∧
      c.pattern = q.pattern.trimmed ∧ c.report q.pattern.elapsed = .ok report ∧
      List.Forall₂ (fun l answer => ∃ accepted,
        c.dfa.accepts (Symbol.ofText l.trimmed) = .ok accepted ∧
        answer = if l.Says "examples" then c.hints
          else Report.verdict ⟨l.trimmed, accepted, c.machine.run l.trimmed⟩) q.texts answers ∧
      q.print = .ok (complaints q.blanks ++ (patternPrompt ++ report ++ textInstructions) ++
        prompted answers ++ textPrompt)) ∧
    (∀ lines, ∃ (ds : List Dialogue) (e : Ending),
      lines = ds.flatMap Dialogue.lines ++ e.lines) ∧
    ∀ elapsed lines, ∃ text, transcript elapsed lines = .ok text ∧
      timedTranscript (lines.map fun line => ⟨line, elapsed⟩) = .ok text := by
  have hopen {lines : List TimedLine} {prints : List String} {printed : String}
      (h : timedTranscriptFrom none lines = .ok (Text.join "" prints ++ printed)) :
      timedTranscript lines = .ok (banner ++ Text.join "" prints ++ printed) := by
    rw [timedTranscript, h, String.append_assoc]
    rfl
  have hrun (ds : List Dialogue) (e : Ending) : ∃ prints printed,
      ds.mapM (fun d => d.print) = .ok prints ∧ e.print = .ok printed ∧
      timedTranscript (ds.flatMap Dialogue.lines ++ e.lines) =
        .ok (banner ++ Text.join "" prints ++ printed) := by
    obtain ⟨printed, hprint, hend⟩ := e.timedTranscriptFrom_lines
    obtain ⟨prints, hprints, hds⟩ := timedTranscriptFrom_dialogues ds hend
    exact ⟨prints, printed, hprints, hprint, hopen hds⟩
  refine ⟨fun ds => ?_, hrun, fun q => ?_, exists_dialogues, fun elapsed lines => ?_⟩
  · have hend : timedTranscriptFrom none [] = .ok patternPrompt := rfl
    obtain ⟨prints, hprints, hds⟩ := timedTranscriptFrom_dialogues ds hend
    rw [List.append_nil] at hds
    exact ⟨prints, hprints, hopen hds⟩
  · obtain ⟨c, report, answers, hq⟩ := q.exists_resolves
    exact ⟨c, report, answers, hq.isOf.dfa_eq, hq.isOf.machine_eq, hq.isOf.pattern_eq, hq.report_eq,
      hq.answers, hq.print_eq_ok⟩
  · obtain ⟨ds, e, hlines⟩ := exists_dialogues (lines.map fun line => ⟨line, elapsed⟩)
    obtain ⟨prints, printed, -, -, htext⟩ := hrun ds e
    rw [← hlines] at htext
    refine ⟨_, ?_, htext⟩
    rw [transcript, transcriptFrom_eq]
    exact htext

/-- After a pattern, an empty line and the word that ends a session are texts like others. -/
example : Dialogue where
  blanks := [⟨" \t", "0.0"⟩, ⟨"", "0.0"⟩]
  pattern := ⟨"(a|b)*c", "1.5"⟩
  texts := [⟨"abc", ""⟩, ⟨"", ""⟩, ⟨"exit", ""⟩, ⟨"Examples", ""⟩]
  last := ⟨" DONE ", ""⟩
  blanks_isEmpty := by decide
  pattern_not_isEmpty := by decide
  pattern_not_exit := by decide
  texts_not_done := by decide
  last_done := by decide

end PatternMachines.Console
