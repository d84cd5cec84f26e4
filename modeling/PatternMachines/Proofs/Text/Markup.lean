import Mathlib.Data.List.TakeWhile
import PatternMachines.Proofs.Text.Part

/-!
# A reader of markup

Markup is text with marks between angle brackets. The reader knows marks that open and close an
element, marks of empty elements, attributes between double quotes, and the three references for the
characters that cannot stand in a text. It keeps every character of a text, blank ones too.

## Main definitions

* `Text.Markup.unescape`: a text with its references resolved.
* `Text.Markup.Mark`, `Text.Markup.marks`: the marks of a document.
* `Text.Markup.Element`, `Text.Markup.elements`: the elements of a name.
* `Text.Markup.Mark.attribute?`, `Text.Markup.Element.has`, `Text.Markup.Element.text?`: what an
  element holds.

## Main results

* `Text.Markup.marks_flatMap_written`: the marks that a document was written from.
* `Text.Markup.elements_block`, `Text.Markup.elements_flatMap_blocks`: elements that were written.
-/

namespace PatternMachines.Text.Markup

/-! ### References -/

/-- A text with its references resolved. Any other ampersand stands for itself. -/
def unescape : List Char → List Char
  | '&' :: 'a' :: 'm' :: 'p' :: ';' :: rest => '&' :: unescape rest
  | '&' :: 'l' :: 't' :: ';' :: rest => '<' :: unescape rest
  | '&' :: 'g' :: 't' :: ';' :: rest => '>' :: unescape rest
  | c :: rest => c :: unescape rest
  | [] => []

theorem unescape_cons {c : Char} (hc : c ≠ '&') (rest : List Char) :
    unescape (c :: rest) = c :: unescape rest := by
  rw [unescape.eq_def]
  split <;> simp_all

theorem unescape_of_not_mem {cs : List Char} (h : '&' ∉ cs) : unescape cs = cs := by
  induction cs with
  | nil => rfl
  | cons c cs ih =>
    rw [List.mem_cons, not_or] at h
    rw [unescape_cons (Ne.symm h.1), ih h.2]

/-! ### Marks -/

/-- A mark of a document. -/
@[ext]
structure Mark where
  /-- The text that stands before the mark. -/
  before : String
  /-- What stands between the angle brackets. -/
  tag : String
  deriving DecidableEq, Repr

/-- The mark at the end of a piece of a document. -/
def Mark.ofPiece (piece : List Char) : Mark where
  before := .ofList (piece.takeWhile (· != '<'))
  tag := .ofList ((piece.dropWhile (· != '<')).drop 1)

/-- The marks of a document. -/
def marks (document : List Char) : List Mark :=
  (pieces '>' document).dropLast.map .ofPiece

/-- The characters of a mark and of the text before it. -/
def Mark.written (m : Mark) : List Char :=
  m.before.toList ++ '<' :: m.tag.toList ++ ['>']

/-- Whether a mark and the text before it can be told apart. -/
structure Mark.Proper (m : Mark) : Prop where
  /-- No mark begins within the text. -/
  opens : '<' ∉ m.before.toList
  /-- No mark ends within the text. -/
  closes : '>' ∉ m.before.toList
  /-- The mark does not end before its end. -/
  ends : '>' ∉ m.tag.toList

instance (m : Mark) : Decidable m.Proper :=
  decidable_of_iff ('<' ∉ m.before.toList ∧ '>' ∉ m.before.toList ∧ '>' ∉ m.tag.toList)
    ⟨fun ⟨h₁, h₂, h₃⟩ => ⟨h₁, h₂, h₃⟩, fun h => ⟨h.opens, h.closes, h.ends⟩⟩

theorem Mark.ofPiece_of_proper {m : Mark} (h : m.Proper) :
    ofPiece (m.before.toList ++ '<' :: m.tag.toList) = m := by
  have hbefore : ∀ c ∈ m.before.toList, (c != '<') = true := fun c hc =>
    bne_iff_ne.2 (ne_of_mem_of_not_mem hc h.opens)
  have htake : (m.before.toList ++ '<' :: m.tag.toList).takeWhile (· != '<') =
      m.before.toList := by
    rw [List.takeWhile_append_of_pos hbefore, List.takeWhile_cons_of_neg (by decide),
      List.append_nil]
  have hdrop : (m.before.toList ++ '<' :: m.tag.toList).dropWhile (· != '<') =
      '<' :: m.tag.toList := by
    rw [List.dropWhile_append_of_pos hbefore, List.dropWhile_cons_of_neg (by decide)]
  ext1
  · rw [ofPiece, htake, String.ofList_toList]
  · rw [ofPiece, hdrop, List.drop_one, List.tail_cons, String.ofList_toList]

/-- The reader finds the marks that a document was written from. -/
theorem marks_flatMap_written {ms : List Mark} (h : ∀ m ∈ ms, m.Proper) :
    marks (ms.flatMap Mark.written) = ms := by
  induction ms with
  | nil => rfl
  | cons m ms ih =>
    rw [List.forall_mem_cons] at h
    have hpiece : '>' ∉ m.before.toList ++ '<' :: m.tag.toList := by
      simp [h.1.closes, h.1.ends]
    rw [List.flatMap_cons, Mark.written, List.append_assoc, List.singleton_append, marks,
      pieces_append_cons, pieces_of_not_mem hpiece, List.singleton_append,
      List.dropLast_cons_of_ne_nil (pieces_ne_nil _), List.map_cons,
      Mark.ofPiece_of_proper h.1]
    exact congrArg (m :: ·) (ih h.2)

/-! ### Attributes -/

/-- The name of the element that a mark opens. -/
def Mark.name (m : Mark) : String := .ofList (m.tag.toList.takeWhile (· != ' '))

/-- Keys and values, from the pieces of a mark between its quotation marks. -/
def attributesOf : List (List Char) → List (List Char × List Char)
  | key :: value :: rest => (key, value) :: attributesOf rest
  | _ => []

/-- The attributes of a mark. Keys have a blank before them and an equals sign after them. -/
def Mark.attributes (m : Mark) : List (List Char × List Char) :=
  attributesOf (pieces '"' (m.tag.toList.dropWhile (· != ' ')))

/-- The value of an attribute of a mark. -/
def Mark.attribute? (key : String) (m : Mark) : Option String :=
  (m.attributes.lookup (' ' :: key.toList ++ ['='])).map (String.ofList ∘ unescape)

/-! ### Elements -/

/-- An element of a document. -/
structure Element where
  /-- The mark that opens the element. -/
  mark : Mark
  /-- The marks up to the one that closes the element. -/
  content : List Mark

/-- The elements of a name. -/
def elements (name : String) : List Mark → List Element
  | [] => []
  | m :: rest =>
    if m.name = name then
      ⟨m, rest.takeWhile (·.tag != "/" ++ name)⟩ :: elements name rest
    else elements name rest

/-- Whether an element holds an empty element of a name. -/
def Element.has (name : String) (e : Element) : Bool := e.content.any (·.tag == name ++ "/")

/-- The text of the first element of a name within an element. -/
def Element.text? (name : String) (e : Element) : Option String :=
  e.content.findSome? fun m =>
    if m.tag = "/" ++ name then some (.ofList (unescape m.before.toList))
    else if m.tag = name ++ "/" then some ""
    else none

variable {name : String} {ms rest : List Mark}

theorem elements_append (h : ∀ m ∈ ms, m.name ≠ name) :
    elements name (ms ++ rest) = elements name rest := by
  induction ms with
  | nil => rfl
  | cons m ms ih =>
    rw [List.forall_mem_cons] at h
    rw [List.cons_append, elements, if_neg h.1, ih h.2]

/-- An element that was written is found, with its content. -/
theorem elements_block {m close : Mark} (hname : m.name = name) (hclose : close.tag = "/" ++ name)
    (hcontent : ∀ m ∈ ms, m.name ≠ name ∧ m.tag ≠ "/" ++ name) (hother : close.name ≠ name) :
    elements name (m :: ms ++ close :: rest) = ⟨m, ms⟩ :: elements name rest := by
  have htake : (ms ++ close :: rest).takeWhile (·.tag != "/" ++ name) = ms := by
    rw [List.takeWhile_append_of_pos fun m hm => bne_iff_ne.2 (hcontent m hm).2,
      List.takeWhile_cons_of_neg (by simp [hclose]), List.append_nil]
  rw [List.cons_append, elements, if_pos hname, htake,
    elements_append fun m hm => (hcontent m hm).1, elements, if_neg hother]

theorem elements_eq_nil (h : ∀ m ∈ ms, m.name ≠ name) : elements name ms = [] := by
  rw [← List.append_nil ms, elements_append h, elements]

/-- The elements that were written one after the other are found in order. -/
theorem elements_flatMap_blocks {α : Type} {xs : List α} (mark : α → Mark)
    (content : α → List Mark) {close : Mark} (hname : ∀ x ∈ xs, (mark x).name = name)
    (hcontent : ∀ x ∈ xs, ∀ m ∈ content x, m.name ≠ name ∧ m.tag ≠ "/" ++ name)
    (hclose : close.tag = "/" ++ name) (hother : close.name ≠ name) :
    elements name ((xs.flatMap fun x => mark x :: content x ++ [close]) ++ rest) =
      xs.map (fun x => ⟨mark x, content x⟩) ++ elements name rest := by
  induction xs with
  | nil => rfl
  | cons x xs ih =>
    rw [List.forall_mem_cons] at hname hcontent
    rw [List.flatMap_cons, List.append_assoc, List.append_assoc, List.singleton_append,
      elements_block hname.1 hclose hcontent.1 hother, ih hname.2 hcontent.2, List.map_cons,
      List.cons_append]

end PatternMachines.Text.Markup
