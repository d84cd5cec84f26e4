/-!
# Parts of a text

Whether a text occurs within another one, and the pieces of a text between separators.

## Main definitions

* `Text.hasPart`: whether a text occurs within another one.
* `Text.splitAt`: the pieces between the occurrences of a separator.
* `Text.join`, `Text.ofLines`: texts put together.
-/

namespace PatternMachines.Text

/-- Whether `part` stands somewhere in the characters `whole`. -/
def occursIn (part : List Char) : List Char → Bool
  | [] => part.isEmpty
  | c :: whole => part.isPrefixOf (c :: whole) || occursIn part whole

/-- Whether the text `part` occurs within the text `whole`. -/
def hasPart (whole part : String) : Bool := occursIn part.toList whole.toList

/-- The pieces of a list between the occurrences of a separator. There is one more piece than there
are separators. -/
def pieces {α : Type} [BEq α] (separator : α) : List α → List (List α)
  | [] => [[]]
  | x :: xs =>
    if x == separator then [] :: pieces separator xs
    else
      match pieces separator xs with
      | [] => [[x]]
      | piece :: rest => (x :: piece) :: rest

/-- The pieces of a text between the occurrences of a separator. -/
def splitAt (separator : Char) (s : String) : List String :=
  (pieces separator s.toList).map String.ofList

/-- Texts put together with a separator between them. -/
def join (separator : String) : List String → String
  | [] => ""
  | s :: rest => rest.foldl (fun joined t => joined ++ separator ++ t) s

/-- Texts put together, each followed by a line end. -/
def ofLines (ls : List String) : String := ls.foldl (fun text l => text ++ l ++ "\n") ""

end PatternMachines.Text
