import PatternMachines.Batch.Patterns
import PatternMachines.Proofs.Text.Lines
import PatternMachines.Proofs.Text.Part
import PatternMachines.Proofs.Text.Trim
import PatternMachines.Proofs.Text.Utf8
import PatternMachines.Table.Plain

/-!
# The patterns of text files

The patterns of a text stand between its line ends, whichever they are and however many stand side
by side. So a text that is put together from others by line ends has their patterns, one after the
other. A list of patterns can be written with one of them on each line, and it is read back.

## Main definitions

* `Batch.IsEntry`: the texts that are read as patterns.

## Main results

* `Batch.patternsOfText_eq`, `Batch.patternsOfText_append`: the patterns of a text.
* `Batch.keep_eq_self_iff`: the lists of texts that are all kept.
* `Batch.patternsOf_text`: reading text files.
-/

namespace PatternMachines.Batch

open Text

variable {c : Char} {cs t u ends : List Char} {ls : List (List Char)} {ps : List String}

/-! ### Entries -/

/-- A text that is read as a pattern: it is not empty, has no blanks at its ends, holds no line end
and begins no comment. -/
structure IsEntry (cs : List Char) : Prop where
  ne_nil : cs ≠ []
  trimmed : IsTrimmed Unicode.isBlank cs
  unbroken : ∀ c ∈ cs, endsLine c = false
  not_comment : cs.head? ≠ some '#'

theorem keep_append (ls ls' : List (List Char)) : keep (ls ++ ls') = keep ls ++ keep ls' := by
  rw [keep, List.map_append, List.filter_append, ← keep, ← keep]

theorem keep_cons (cs : List Char) (ls : List (List Char)) :
    keep (cs :: ls) = keep [cs] ++ keep ls :=
  keep_append [cs] ls

/-- Empty lines hold no patterns. -/
theorem keep_nil_cons : keep ([] :: ls) = keep ls := rfl

theorem mem_keep_iff : cs ∈ keep ls ↔
    (∃ line ∈ ls, trimChars line = cs) ∧ cs ≠ [] ∧ cs.head? ≠ some '#' := by
  simp [keep]

theorem isTrimmed_of_mem_keep (h : cs ∈ keep ls) : IsTrimmed Unicode.isBlank cs := by
  obtain ⟨⟨line, -, rfl⟩, -⟩ := mem_keep_iff.1 h
  exact isTrimmed_trimList

/-- The lists of texts of which all are kept as they are. -/
theorem keep_eq_self_iff : keep ls = ls ↔
    ∀ cs ∈ ls, cs ≠ [] ∧ IsTrimmed Unicode.isBlank cs ∧ cs.head? ≠ some '#' := by
  constructor
  · intro h cs hcs
    rw [← h] at hcs
    obtain ⟨-, hne, hcomment⟩ := mem_keep_iff.1 hcs
    exact ⟨hne, isTrimmed_of_mem_keep hcs, hcomment⟩
  · intro h
    have hmap : ls.map trimChars = ls.map id :=
      List.map_congr_left fun cs hcs => trimList_of_isTrimmed (h cs hcs).2.1
    rw [keep, hmap, List.map_id, List.filter_eq_self]
    intro cs hcs
    simp [(h cs hcs).1, (h cs hcs).2.2]

/-! ### Line ends -/

theorem splitLinesFrom_cons (hc : c ≠ '\r') (soFar cs : List Char) :
    splitLinesFrom soFar (c :: cs) =
      if endsLine c then soFar.reverse :: splitLinesFrom [] cs
      else splitLinesFrom (c :: soFar) cs := by
  rw [splitLinesFrom]
  exact fun _ h => absurd h hc

/-- The lines that hold patterns are those between any two line ends. A carriage return before a
line feed only adds an empty line. -/
theorem keep_splitLinesFrom (soFar cs : List Char) :
    keep (splitLinesFrom soFar (normaliseNewlines cs)) =
      keep (List.splitOnPPrepend endsLine cs soFar) := by
  -- Both split the text at the same characters, with the same open piece.
  fun_induction normaliseNewlines cs generalizing soFar with
  | case1 =>
    rw [splitLinesFrom, List.splitOnPPrepend_nil]
    cases soFar <;> rfl
  | case2 rest ih =>
    rw [splitLinesFrom_cons (by decide), if_pos (by decide),
      List.splitOnPPrepend_cons_pos (by decide), List.splitOnP_eq_splitOnPPrepend,
      List.splitOnPPrepend_cons_pos (by decide), List.splitOnP_eq_splitOnPPrepend,
      keep_cons, ih, keep_cons soFar.reverse (_ :: _)]
    -- Between the carriage return and the line feed stands an empty piece.
    exact congrArg (keep [soFar.reverse] ++ ·) keep_nil_cons.symm
  | case3 rest _ ih =>
    rw [splitLinesFrom_cons (by decide), if_pos (by decide),
      List.splitOnPPrepend_cons_pos (by decide), List.splitOnP_eq_splitOnPPrepend,
      keep_cons, ih, ← keep_cons]
  | case4 c rest _ hc ih =>
    rw [splitLinesFrom_cons (fun h => hc h), List.splitOnPPrepend_cons_eq_if,
      List.splitOnP_eq_splitOnPPrepend]
    split
    · rw [keep_cons, ih, ← keep_cons]
    · exact ih _

/-- The patterns of a text stand between its line ends. -/
theorem patternsOfText_eq (cs : List Char) :
    patternsOfText cs = (keep (cs.splitOnP endsLine)).map String.ofList := by
  rw [patternsOfText, splitLines, keep_splitLinesFrom, List.splitOnP_eq_splitOnPPrepend]

/-- Line ends alone hold no patterns. -/
theorem keep_splitOnP_append (hends : ∀ c ∈ ends, endsLine c = true) (u : List Char) :
    keep ((ends ++ u).splitOnP endsLine) = keep (u.splitOnP endsLine) := by
  induction ends with
  | nil => rfl
  | cons c ends ih =>
    rw [List.forall_mem_cons] at hends
    rw [List.cons_append, List.splitOnP_cons_eq_if_modifyHead, if_pos hends.1, keep_nil_cons,
      ih hends.2]

/-- The patterns of a text that is put together from two by line ends. -/
theorem patternsOfText_append (hne : ends ≠ []) (hends : ∀ c ∈ ends, endsLine c = true)
    (t u : List Char) :
    patternsOfText (t ++ ends ++ u) = patternsOfText t ++ patternsOfText u := by
  obtain ⟨c, ends, rfl⟩ := List.exists_cons_of_ne_nil hne
  rw [List.forall_mem_cons] at hends
  rw [patternsOfText_eq, patternsOfText_eq, patternsOfText_eq, List.append_assoc, List.cons_append,
    List.splitOnP_append_cons _ _ hends.1, keep_append, keep_splitOnP_append hends.2,
    List.map_append]

/-- A line feed is one line end. -/
theorem patternsOfText_append_line (t u : List Char) :
    patternsOfText (t ++ ['\n'] ++ u) = patternsOfText t ++ patternsOfText u :=
  patternsOfText_append (List.cons_ne_nil _ _) (List.forall_mem_singleton.2 rfl) t u

/-! ### What is read and written back -/

/-- No line ends stand between the line ends. -/
theorem endsLine_of_mem_piece {piece soFar : List Char}
    (hpiece : piece ∈ List.splitOnPPrepend endsLine cs soFar)
    (hsoFar : ∀ c ∈ soFar, endsLine c = false) : ∀ c ∈ piece, endsLine c = false := by
  induction cs generalizing soFar with
  | nil =>
    rw [List.splitOnPPrepend_nil, List.mem_singleton] at hpiece
    simpa [hpiece] using hsoFar
  | cons c cs ih =>
    rw [List.splitOnPPrepend_cons_eq_if, List.splitOnP_eq_splitOnPPrepend] at hpiece
    split at hpiece
    · rcases List.mem_cons.1 hpiece with rfl | hpiece
      · simpa using hsoFar
      · exact ih hpiece (by simp)
    case isFalse hc =>
      exact ih hpiece (List.forall_mem_cons.2 ⟨Bool.not_eq_true _ ▸ hc, hsoFar⟩)

theorem isEntry_of_mem_patternsOfText {p : String} (hp : p ∈ patternsOfText cs) :
    IsEntry p.toList := by
  rw [patternsOfText_eq] at hp
  obtain ⟨entry, hentry, rfl⟩ := List.mem_map.1 hp
  rw [String.toList_ofList]
  obtain ⟨⟨line, hline, rfl⟩, hne, hcomment⟩ := mem_keep_iff.1 hentry
  rw [List.splitOnP_eq_splitOnPPrepend] at hline
  exact ⟨hne, isTrimmed_of_mem_keep hentry,
    fun c hc => endsLine_of_mem_piece hline (by simp) c (mem_of_mem_trimList hc), hcomment⟩

theorem patternsOfText_of_isEntry {p : String} (h : IsEntry p.toList) :
    patternsOfText p.toList = [p] := by
  have hkeep : keep [p.toList] = [p.toList] :=
    keep_eq_self_iff.2 (List.forall_mem_singleton.2 ⟨h.ne_nil, h.trimmed, h.not_comment⟩)
  rw [patternsOfText_eq, List.splitOnP_eq_singleton h.unbroken, hkeep, List.map_singleton,
    String.ofList_toList]

/-- Patterns that are written one on each line are read back. -/
theorem patternsOfText_ofLines (h : ∀ p ∈ ps, IsEntry p.toList) :
    patternsOfText (ofLines ps).toList = ps := by
  rw [toList_ofLines]
  induction ps with
  | nil => rfl
  | cons p ps ih =>
    rw [List.forall_mem_cons] at h
    rw [List.flatMap_cons, patternsOfText_append_line, patternsOfText_of_isEntry h.1, ih h.2,
      List.singleton_append]

/-- The line end after the last pattern may be missing. -/
theorem patternsOfText_join (h : ∀ p ∈ ps, IsEntry p.toList) :
    patternsOfText (join "\n" ps).toList = ps := by
  cases ps with
  | nil => rfl
  | cons p ps =>
    have hlines := patternsOfText_ofLines h
    rw [ofLines_cons, ← List.append_nil (_ ++ ['\n']), patternsOfText_append_line] at hlines
    exact (List.append_nil _).symm.trans hlines

/-! ### Text files -/

variable {readTable : List UInt8 → Except Table.Fault Table}

theorem patternsOf_encode {name : String} (hname : isTableName name = false) (t : List Char) :
    patternsOf readTable name (encode t) = .ok (patternsOfText t) := by
  simp [patternsOf, hname, decode_encode]

theorem exists_text_of_patternsOf {name : String} {bytes : List UInt8}
    (hname : isTableName name = false) (h : patternsOf readTable name bytes = .ok ps) :
    ∃ t, decode bytes = .ok t ∧ patternsOfText t = ps := by
  rw [patternsOf, hname] at h
  cases hdecode : decode bytes with
  | error e => simp [hdecode] at h
  | ok t => exact ⟨t, rfl, by simpa [hdecode] using h⟩

/-- **Reading text files.** The patterns of a text are what is kept of the pieces between its line
ends. A text that is put together from two by line ends, whichever they are, has the patterns of the
first and then those of the second. The lists that can be read are those of trimmed texts that are
not empty, hold no line end and begin no comment. If what is read from a file is written again, one
pattern on each line, it is read back. -/
theorem patternsOf_text (readTable : List UInt8 → Except Table.Fault Table) (name : String)
    (hname : isTableName name = false) :
    (∀ t, patternsOf readTable name (encode t) =
      .ok ((keep (t.splitOnP endsLine)).map String.ofList)) ∧
    (∀ t u, ∃ ps qs, patternsOf readTable name (encode t) = .ok ps ∧
      patternsOf readTable name (encode u) = .ok qs ∧
      ∀ ends, ends ≠ [] → (∀ c ∈ ends, endsLine c = true) →
        patternsOf readTable name (encode (t ++ ends ++ u)) = .ok (ps ++ qs)) ∧
    (∀ ps, (∃ bytes, patternsOf readTable name bytes = .ok ps) ↔ ∀ p ∈ ps, IsEntry p.toList) ∧
    ∀ bytes ps, patternsOf readTable name bytes = .ok ps →
      patternsOf readTable name (encode (ofLines ps).toList) = .ok ps ∧
      patternsOf readTable name (encode (join "\n" ps).toList) = .ok ps := by
  have hentries {bytes ps} (h : patternsOf readTable name bytes = .ok ps) :
      ∀ p ∈ ps, IsEntry p.toList := by
    obtain ⟨t, -, rfl⟩ := exists_text_of_patternsOf hname h
    exact fun p => isEntry_of_mem_patternsOfText
  simp only [patternsOf_encode hname]
  refine ⟨fun t => by rw [patternsOfText_eq], fun t u => ⟨_, _, rfl, rfl, ?append⟩,
    fun ps => ⟨fun ⟨bytes, h⟩ => hentries h, fun h => ⟨encode (ofLines ps).toList, ?read⟩⟩,
    fun bytes ps h => ⟨?lines, ?joined⟩⟩
  case append => exact fun ends hne hends => by rw [patternsOfText_append hne hends]
  case read => rw [patternsOf_encode hname, patternsOfText_ofLines h]
  case lines => rw [patternsOfText_ofLines (hentries h)]
  case joined => rw [patternsOfText_join (hentries h)]

/-- The first text ends in a carriage return, which the line feed between the two follows. The
second one has a line separator, and a comment after it. -/
theorem patternsOf_text_returns : isTableName "in.txt" = false ∧
    patternsOf Table.plain.read "in.txt" (encode "a|b \r".toList) = .ok ["a|b"] ∧
    patternsOf Table.plain.read "in.txt" (encode "\tc*\u2028# d".toList) = .ok ["c*"] ∧
    patternsOf Table.plain.read "in.txt"
      (encode ("a|b \r".toList ++ ['\n'] ++ "\tc*\u2028# d".toList)) = .ok ["a|b", "c*"] ∧
    patternsOf Table.plain.read "in.txt" (encode (ofLines ["a|b", "c*"]).toList) =
      .ok ["a|b", "c*"] := by
  have hname : isTableName "in.txt" = false := by decide
  obtain ⟨hpieces, happend, -, hwritten⟩ := patternsOf_text Table.plain.read "in.txt" hname
  obtain ⟨ps, qs, hps, hqs, hjoint⟩ := happend "a|b \r".toList "\tc*\u2028# d".toList
  have hfirst := hpieces "a|b \r".toList
  have hsecond := hpieces "\tc*\u2028# d".toList
  obtain rfl : ps = ["a|b"] := Except.ok.inj (hps.symm.trans (hfirst.trans (by decide)))
  obtain rfl : qs = ["c*"] := Except.ok.inj (hqs.symm.trans (hsecond.trans (by decide)))
  have hboth := hjoint ['\n'] (List.cons_ne_nil _ _) (List.forall_mem_singleton.2 rfl)
  exact ⟨hname, hps, hqs, hboth, (hwritten _ _ hboth).1⟩

end PatternMachines.Batch
