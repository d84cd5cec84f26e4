import PatternMachines.Proofs.Turing.Jflap.Marks
import PatternMachines.Turing.Machine
import Std.Data.String.ToNat

/-!
# A reader of JFLAP documents

The reader looks for the elements of states and of transitions, resolves the references in their
texts and takes an empty element for the blank. What it finds in the document of a machine are the
states with their numbers and the transitions in their order.

## Main definitions

* `Turing.Jflap.Document`, `Turing.Jflap.Document.read?`: what a document says.
* `Turing.Jflap.Document.machine`: the machine that a document describes.
* `Turing.Jflap.document`: what the document of a machine says.

## Main results

* `Turing.Jflap.elements_state`, `Turing.Jflap.elements_transition`: the elements.
* `Turing.Jflap.Portable.exists_read?_eq_some`: the document of a machine is read back.
-/

namespace PatternMachines.Turing.Jflap

open Std Text.Markup

/-! ### The reader -/

/-- What a document says about a state. -/
structure StateElement where
  /-- The number by which transitions refer to the state. -/
  number : Nat
  /-- The name of the state. -/
  name : String
  /-- Whether runs begin in the state. -/
  initial : Bool
  /-- Whether the state accepts. -/
  final : Bool
  deriving DecidableEq, Repr

/-- What a document says about a machine. -/
structure Document where
  /-- The states, in the order of the document. -/
  states : List StateElement
  /-- The transitions, in the order of the document. -/
  transitions : List Transition
  deriving DecidableEq, Repr

/-- The state that an element describes. -/
def StateElement.ofElement? (e : Element) : Option StateElement := do
  let number ← (← e.mark.attribute? "id").toNat?
  let name ← e.mark.attribute? "name"
  return ⟨number, name, e.has "initial", e.has "final"⟩

/-- The name of the state with a given number. -/
def nameOf? (states : List StateElement) (number : String) : Option String := do
  let number ← number.toNat?
  let state ← states.find? (·.number == number)
  return state.name

/-- The symbol of an element, which is the blank if the element is empty. -/
def symbolOf (blank : Symbol) (text : String) : Symbol := if text = "" then blank else text

/-- The transition that an element describes. -/
def transitionOf? (blank : Symbol) (states : List StateElement) (e : Element) :
    Option Transition := do
  let source ← nameOf? states (← e.text? "from")
  let read ← e.text? "read"
  let target ← nameOf? states (← e.text? "to")
  let write ← e.text? "write"
  let move ← e.text? "move"
  return ⟨source, symbolOf blank read, target, symbolOf blank write, move⟩

/-- What a document says, read with a given blank. -/
def Document.read? (blank : Symbol) (text : String) : Option Document := do
  let states ← (elements "state" (marks text.toList)).mapM StateElement.ofElement?
  let transitions ← (elements "transition" (marks text.toList)).mapM (transitionOf? blank states)
  return ⟨states, transitions⟩

/-- The machine that a document describes, with what the document leaves open. -/
def Document.machine (doc : Document) (blank : Symbol) (endMarker : Option Symbol)
    (reject : Option String) : Machine where
  states := .ofList (doc.states.map (·.name))
  transitions := doc.transitions
  start := (doc.states.find? (·.initial)).map (·.name)
  accepting := .ofList ((doc.states.filter (·.final)).map (·.name))
  reject := reject
  blank := blank
  endMarker := endMarker

variable {m : Machine} {start name : String}

/-! ### Attributes -/

theorem attributes_stateMark (hname : '"' ∉ name.toList) (number : Nat) :
    (stateMark name number).attributes =
      [(" id=".toList, (toString number).toList), (" name=".toList, (escape name).toList)] := by
  have hescape : '"' ∉ (escape name).toList := fun h => by
    rcases mem_escape h with h | h
    · exact hname h.1
    · simp at h
  have hnumber : '"' ∉ (toString number).toList := not_mem_toString_nat (by decide)
  have hdrop : (stateMark name number).tag.toList.dropWhile (· != ' ') =
      " id=".toList ++ '"' :: ((toString number).toList ++ '"' ::
        (" name=".toList ++ '"' :: ((escape name).toList ++ '"' :: []))) := by
    simp only [stateMark, String.toList_append, List.append_assoc]
    rfl
  rw [Mark.attributes, hdrop, Text.pieces_append_cons, Text.pieces_append_cons,
    Text.pieces_append_cons, Text.pieces_append_cons, Text.pieces_of_not_mem hnumber,
    Text.pieces_of_not_mem hescape]
  rfl

theorem ofList_unescape_toString (n : Nat) :
    String.ofList (unescape (toString n).toList) = toString n := by
  have hamp : '&' ∉ (toString n).toList := not_mem_toString_nat (by decide)
  rw [unescape_of_not_mem hamp, String.ofList_toList]

theorem ofList_unescape_escape (s : String) : String.ofList (unescape (escape s).toList) = s := by
  rw [unescape_escape, String.ofList_toList]

theorem attribute?_id (hname : '"' ∉ name.toList) (number : Nat) :
    (stateMark name number).attribute? "id" = some (toString number) := by
  rw [Mark.attribute?, attributes_stateMark hname]
  exact congrArg some (ofList_unescape_toString number)

theorem attribute?_name (hname : '"' ∉ name.toList) (number : Nat) :
    (stateMark name number).attribute? "name" = some name := by
  rw [Mark.attribute?, attributes_stateMark hname]
  exact congrArg some (ofList_unescape_escape name)

/-! ### Elements -/

/-- What stands in the marks within transitions. -/
def fieldTags : List String :=
  ["from", "/from", "to", "/to", "read", "/read", "read/", "write", "/write", "write/", "move",
    "/move"]

theorem tag_eq_of_mem_fieldMarks {element text : String} {k : Mark}
    (hk : k ∈ fieldMarks element text) : k.tag = element ∨ k.tag = "/" ++ element := by
  rw [fieldMarks, List.mem_cons, List.mem_singleton] at hk
  rcases hk with rfl | rfl
  · exact .inl rfl
  · exact .inr rfl

theorem tag_eq_of_mem_symbolMarks {element : String} {x : Symbol} {k : Mark}
    (hk : k ∈ symbolMarks m element x) :
    k.tag = element ++ "/" ∨ k.tag = element ∨ k.tag = "/" ++ element := by
  rw [symbolMarks] at hk
  split at hk
  · rw [List.mem_singleton.1 hk]
    exact .inl rfl
  · exact .inr (tag_eq_of_mem_fieldMarks hk)

theorem tag_mem_of_mem_transitionContent {number : String → Nat} {t : Transition} {k : Mark}
    (hk : k ∈ transitionContent m number t) : k.tag ∈ fieldTags := by
  simp only [transitionContent, List.mem_append] at hk
  rcases hk with (((hk | hk) | hk) | hk) | hk
  · rcases tag_eq_of_mem_fieldMarks hk with h | h <;> rw [h] <;> decide
  · rcases tag_eq_of_mem_fieldMarks hk with h | h <;> rw [h] <;> decide
  · rcases tag_eq_of_mem_symbolMarks hk with h | h | h <;> rw [h] <;> decide
  · rcases tag_eq_of_mem_symbolMarks hk with h | h | h <;> rw [h] <;> decide
  · rcases tag_eq_of_mem_fieldMarks hk with h | h <;> rw [h] <;> decide

theorem name_stateMark (name : String) (number : Nat) : (stateMark name number).name = "state" := by
  rw [Mark.name, stateMark]
  simp only [String.toList_append, List.append_assoc]
  rfl

theorem name_ne_of_mem_fieldTags {k : Mark} (hk : k.tag ∈ fieldTags) :
    k.name ≠ "state" ∧ k.name ≠ "transition" ∧ k.tag ≠ "/transition" := by
  rw [Mark.name]
  revert hk
  generalize k.tag = tag
  revert tag
  decide

theorem name_ne_of_mem_stateContent {k : Mark} (hk : k ∈ stateContent m start name) :
    k.name ≠ "state" ∧ k.name ≠ "transition" ∧ k.tag ≠ "/state" := by
  rcases eq_of_mem_stateContent hk with rfl | rfl <;> decide

/-- The elements of states are those that were written. -/
theorem elements_state : elements "state" (documentMarks m start) =
    (stateOrder m start).zipIdx.map fun s => ⟨stateMark s.1 s.2, stateContent m start s.1⟩ := by
  have hopening : ∀ k ∈ openingMarks, k.name ≠ "state" := by decide
  have hrest : ∀ k ∈ (m.transitions.flatMap fun t =>
      transitionMark :: transitionContent m (numberIn m start) t ++ [transitionClose]) ++
        closingMarks, k.name ≠ "state" := by
    intro k hk
    simp only [List.mem_append, List.mem_flatMap, List.mem_cons, List.not_mem_nil, or_false] at hk
    rcases hk with ⟨t, -, (rfl | hk) | rfl⟩ | hk
    · decide
    · exact (name_ne_of_mem_fieldTags (tag_mem_of_mem_transitionContent hk)).1
    · decide
    · revert k
      decide
  rw [documentMarks, List.append_assoc, List.append_assoc, elements_append hopening,
    elements_flatMap_blocks (fun s : String × Nat => stateMark s.1 s.2) _
      (fun s _ => name_stateMark s.1 s.2)
      (fun s _ k hk => ⟨(name_ne_of_mem_stateContent hk).1, (name_ne_of_mem_stateContent hk).2.2⟩)
      (by decide) (by decide),
    elements_eq_nil hrest, List.append_nil]

/-- The elements of transitions are those that were written. -/
theorem elements_transition : elements "transition" (documentMarks m start) =
    m.transitions.map fun t => ⟨transitionMark, transitionContent m (numberIn m start) t⟩ := by
  have hbefore : ∀ k ∈ openingMarks ++ (stateOrder m start).zipIdx.flatMap fun s =>
      stateMark s.1 s.2 :: stateContent m start s.1 ++ [stateClose], k.name ≠ "transition" := by
    intro k hk
    simp only [List.mem_append, List.mem_flatMap, List.mem_cons, List.not_mem_nil, or_false] at hk
    rcases hk with hk | ⟨s, -, (rfl | hk) | rfl⟩
    · revert k
      decide
    · rw [name_stateMark]
      decide
    · exact (name_ne_of_mem_stateContent hk).2.1
    · decide
  have hclosing : ∀ k ∈ closingMarks, k.name ≠ "transition" := by decide
  rw [documentMarks, List.append_assoc, elements_append hbefore,
    elements_flatMap_blocks (fun _ => transitionMark) _ (fun _ _ => by decide)
      (fun t _ k hk => (name_ne_of_mem_fieldTags (tag_mem_of_mem_transitionContent hk)).2)
      (by decide) (by decide),
    elements_eq_nil hclosing, List.append_nil]

/-! ### What a document says -/

/-- What the document of a machine says about a state with its number. -/
def stateElement (m : Machine) (start : String) (s : String × Nat) : StateElement :=
  ⟨s.2, s.1, s.1 == start, m.accepting.contains s.1⟩

/-- What the document of a machine says. -/
def document (m : Machine) (start : String) : Document where
  states := (stateOrder m start).zipIdx.map (stateElement m start)
  transitions := m.transitions

theorem has_stateContent (k : Mark) :
    Element.has "initial" ⟨k, stateContent m start name⟩ = (name == start) ∧
      Element.has "final" ⟨k, stateContent m start name⟩ = m.accepting.contains name := by
  simp only [Element.has, stateContent]
  constructor
  · split <;> split <;> simp_all
  · cases m.accepting.contains name <;> split <;> simp

/-- A state that was written is read back. -/
theorem ofElement?_state {s : String × Nat} (hname : '"' ∉ s.1.toList) :
    StateElement.ofElement? ⟨stateMark s.1 s.2, stateContent m start s.1⟩ =
      some (stateElement m start s) := by
  have hnumber : (toString s.2).toNat? = some s.2 := Nat.toNat?_repr s.2
  rw [StateElement.ofElement?, (has_stateContent _).1, (has_stateContent _).2,
    attribute?_name hname, attribute?_id hname, Option.bind_eq_bind, Option.bind_some, hnumber]
  rfl

/-- No two states have the same number. -/
theorem find?_states {i : Nat} (hi : (stateOrder m start)[i]? = some name) :
    (document m start).states.find? (·.number == i) = some (stateElement m start (name, i)) := by
  have hmem : (name, i) ∈ (stateOrder m start).zipIdx := List.mem_zipIdx_iff_getElem?.2 hi
  have hsome : ((document m start).states.find? (·.number == i)).isSome :=
    List.find?_isSome.2 ⟨_, List.mem_map_of_mem hmem, beq_self_eq_true i⟩
  obtain ⟨e, he⟩ := Option.isSome_iff_exists.1 hsome
  obtain ⟨⟨other, j⟩, hs, rfl⟩ := List.mem_map.1 (List.mem_of_find?_eq_some he)
  have hj := List.find?_some he
  obtain rfl : j = i := beq_iff_eq.1 hj
  have hother : (stateOrder m start)[j]? = some other := List.mem_zipIdx_iff_getElem?.1 hs
  rw [hi, Option.some_inj] at hother
  rw [he, hother]

theorem nameOf?_document (hname : name ∈ stateOrder m start) :
    nameOf? (document m start).states (toString (numberIn m start name)) = some name := by
  have hnumber : (toString (numberIn m start name)).toNat? = some (numberIn m start name) :=
    Nat.toNat?_repr _
  have hstate := @find?_states m start name _ (List.getElem?_idxOf hname)
  rw [nameOf?, hnumber, Option.bind_eq_bind, Option.bind_some, numberIn, hstate]
  rfl

section Fields

variable {k : Mark} {number : String → Nat} {t : Transition}

theorem text?_from : Element.text? "from" ⟨k, transitionContent m number t⟩ =
    some (toString (number t.source)) := by
  rw [← ofList_unescape_toString (number t.source)]
  simp [Element.text?, transitionContent, fieldMarks]

theorem text?_to : Element.text? "to" ⟨k, transitionContent m number t⟩ =
    some (toString (number t.target)) := by
  rw [← ofList_unescape_toString (number t.target)]
  simp [Element.text?, transitionContent, fieldMarks]

theorem text?_read : Element.text? "read" ⟨k, transitionContent m number t⟩ =
    some (if t.read = m.blank then "" else t.read) := by
  simp only [Element.text?, transitionContent, symbolMarks]
  split <;> simp [fieldMarks, unescape_escape]

theorem text?_write : Element.text? "write" ⟨k, transitionContent m number t⟩ =
    some (if t.write = m.blank then "" else t.write) := by
  simp only [Element.text?, transitionContent, symbolMarks]
  split <;> split <;> simp [fieldMarks, unescape_escape]

theorem text?_move (hmove : escape t.move = t.move) :
    Element.text? "move" ⟨k, transitionContent m number t⟩ = some t.move := by
  have hvalue : String.ofList (unescape t.move.toList) = t.move := by
    conv_lhs => rw [← hmove, ofList_unescape_escape]
  simp only [Element.text?, transitionContent, symbolMarks]
  split <;> split <;> simp [fieldMarks, hvalue]

end Fields

/-- The symbol that was written is read, be it the blank or another one. -/
theorem symbolOf_eq {blank x : Symbol} (hx : x ≠ "") :
    symbolOf blank (if x = blank then "" else x) = x := by
  rw [symbolOf]
  split <;> simp_all

/-- A transition that was written is read back. -/
theorem transitionOf?_content (h : Portable m start) {t : Transition} (ht : t ∈ m.transitions) :
    transitionOf? m.blank (document m start).states
      ⟨transitionMark, transitionContent m (numberIn m start) t⟩ = some t := by
  have hsource : t.source ∈ stateOrder m start :=
    (mem_stateOrder h.start_mem).2 (h.states_mem t ht).1
  have htarget : t.target ∈ stateOrder m start :=
    (mem_stateOrder h.start_mem).2 (h.states_mem t ht).2
  obtain ⟨hread, hwrite⟩ := h.symbols_ne t ht
  simp only [transitionOf?, text?_from, text?_read, text?_to, text?_write,
    text?_move (h.escape_move t ht), Option.bind_eq_bind, Option.bind_some,
    nameOf?_document hsource, nameOf?_document htarget, symbolOf_eq hread, symbolOf_eq hwrite]
  rfl

theorem Portable.mapM_ofElement? (h : Portable m start) :
    ((stateOrder m start).zipIdx.map fun s =>
        (⟨stateMark s.1 s.2, stateContent m start s.1⟩ : Element)).mapM StateElement.ofElement? =
      some (document m start).states := by
  have hread : ∀ s ∈ (stateOrder m start).zipIdx,
      StateElement.ofElement? ⟨stateMark s.1 s.2, stateContent m start s.1⟩ =
        some (stateElement m start s) := fun s hs =>
    have hmem : s.1 ∈ stateOrder m start := List.mem_of_getElem? (List.mem_zipIdx_iff_getElem?.1 hs)
    ofElement?_state (h.quote_not_mem s.1 ((mem_stateOrder h.start_mem).1 hmem))
  rw [List.mapM_map]
  exact mapM_eq_pure hread

theorem Portable.mapM_transitionOf? (h : Portable m start) :
    (m.transitions.map fun t =>
        (⟨transitionMark, transitionContent m (numberIn m start) t⟩ : Element)).mapM
          (transitionOf? m.blank (document m start).states) = some m.transitions := by
  have hread : ∀ t ∈ m.transitions, transitionOf? m.blank (document m start).states
      ⟨transitionMark, transitionContent m (numberIn m start) t⟩ = some (id t) := fun t ht =>
    transitionOf?_content h ht
  rw [List.mapM_map]
  exact (mapM_eq_pure hread).trans (congrArg some (List.map_id _))

/-- The document of a portable machine exists and is read back. -/
theorem Portable.exists_read?_eq_some (h : Portable m start) :
    ∃ text, m.toJflap = .ok text ∧ Document.read? m.blank text = some (document m start) := by
  obtain ⟨text, htext, hmarks⟩ := h.exists_marks_eq
  refine ⟨text, htext, ?_⟩
  rw [Document.read?, hmarks, elements_state, elements_transition, h.mapM_ofElement?,
    Option.bind_eq_bind, Option.bind_some, h.mapM_transitionOf?]
  rfl

end PatternMachines.Turing.Jflap
