import PatternMachines.Comparison
import PatternMachines.Dfa.Summary
import PatternMachines.Json.Sent
import PatternMachines.Turing.Document

/-!
# Documents that can be sent

A document without halves of surrogate pairs can be sent. The documents of automata, of machines and
of comparisons hold texts of characters only.

## Main results

* `Json.encodingError?_eq_none`: a document without halves of pairs can be sent.
* `Json.holdsHalf_array`, `Json.holdsHalf_object`: where halves of pairs may stand.
* `Json.holdsHalf_summary`, `Json.holdsHalf_machine`, `Json.holdsHalf_comparison`: the documents
  without halves.
-/

namespace PatternMachines.Json

theorem encodingError?_eq_none {v : Json} (h : v.holdsHalf = false) : v.encodingError? = none := by
  rw [encodingError?, h]
  rfl

theorem holdsHalf_array {items : List Json} :
    (array items).holdsHalf = false ↔ ∀ v ∈ items, v.holdsHalf = false := by
  rw [holdsHalf]
  induction items with
  | nil => simp [itemsHoldHalf]
  | cons v items ih => rw [itemsHoldHalf, Bool.or_eq_false_iff, ih, List.forall_mem_cons]

theorem holdsHalf_object {members : List (LooseText × Json)} :
    (object members).holdsHalf = false ↔
      ∀ m ∈ members, m.1.isBroken = false ∧ m.2.holdsHalf = false := by
  rw [holdsHalf]
  induction members with
  | nil => simp [membersHoldHalf]
  | cons m members ih =>
    rw [membersHoldHalf, Bool.or_eq_false_iff, Bool.or_eq_false_iff, ih, List.forall_mem_cons]

@[simp]
theorem isBroken_proper (s : String) : (LooseText.proper s).isBroken = false := rfl

@[simp]
theorem holdsHalf_text (t : LooseText) : (text t).holdsHalf = t.isBroken := rfl

@[simp]
theorem holdsHalf_null : null.holdsHalf = false := rfl

@[simp]
theorem holdsHalf_bool (b : Bool) : (bool b).holdsHalf = false := rfl

@[simp]
theorem holdsHalf_int (n : Int) : (int n).holdsHalf = false := rfl

@[simp]
theorem holdsHalf_ofText? (s : Option String) : (ofText? s).holdsHalf = false := by
  cases s <;> rfl

@[simp]
theorem holdsHalf_texts (ss : List String) : (texts ss).holdsHalf = false :=
  holdsHalf_array.2 (List.forall_mem_map.2 fun _ _ => rfl)

/-! ### The documents of answers -/

theorem holdsHalf_summary (s : Dfa.Summary) : s.toJson.holdsHalf = false := by
  have halphabet : (array (s.alphabet.map ofText)).holdsHalf = false := holdsHalf_texts s.alphabet
  have hedges : (array (s.edges.map (Dfa.Summary.edgeJson ofText))).holdsHalf = false :=
    holdsHalf_array.2 (List.forall_mem_map.2 fun _ _ => rfl)
  rw [Dfa.Summary.toJson, holdsHalf_object]
  simp [halphabet, hedges]

theorem holdsHalf_machine (m : Turing.Machine) : m.toJson.holdsHalf = false := by
  have htransitions : (array (m.transitions.map Turing.Transition.toJson)).holdsHalf = false :=
    holdsHalf_array.2 (List.forall_mem_map.2 fun _ _ => rfl)
  rw [Turing.Machine.toJson, holdsHalf_object]
  simp [htransitions]

theorem holdsHalf_step (s : Turing.Step) : (Comparison.stepJson s).holdsHalf = false := by
  rw [Comparison.stepJson, holdsHalf_object]
  simp

theorem holdsHalf_comparison (withTrace : Bool) (text : String) (c : Comparison) :
    (object (("string", .text text) :: c.members withTrace)).holdsHalf = false := by
  have htrace : (array (c.run.trace.map Comparison.stepJson)).holdsHalf = false :=
    holdsHalf_array.2 (List.forall_mem_map.2 fun s _ => holdsHalf_step s)
  rw [holdsHalf_object]
  cases withTrace <;> simp [Comparison.members, htrace]

end PatternMachines.Json
