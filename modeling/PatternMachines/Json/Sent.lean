import PatternMachines.Json.Value

/-!
# Documents as they are sent

A document is sent with a blank after each comma and each colon. Of its characters only quotes,
backslashes and controls are escaped. Half a surrogate pair is neither escaped nor sent: a document
that holds one has no bytes.

## Main definitions

* `Json.sentCodes`: the codes of a document as it is sent.
* `Json.encodingError?`: why a document cannot be sent.
-/

namespace PatternMachines.Json

/-- A character within the quotes of a document that is sent. -/
def sentChar (c : Char) : List Char :=
  if c = '"' then ['\\', '"']
  else if c = '\\' then ['\\', '\\']
  else if c = '\n' then ['\\', 'n']
  else if c = '\r' then ['\\', 'r']
  else if c = '\t' then ['\\', 't']
  else if c = '\x08' then ['\\', 'b']
  else if c = '\x0c' then ['\\', 'f']
  else if c.toNat < 0x20 then escapeUnit c.toNat
  else [c]

/-- The codes of a text without halves of pairs. -/
def codesOf (s : String) : List Nat := (LooseText.proper s).codes

/-- The codes of a text in the quotes of a document that is sent. -/
def sentText (t : LooseText) : List Nat :=
  let sentCode (n : Nat) : List Nat :=
    if Text.isHalf n then [n] else (sentChar (Char.ofNat n)).map Char.toNat
  codesOf "\"" ++ t.codes.flatMap sentCode ++ codesOf "\""

mutual

/-- The codes of a document as it is sent. -/
def sentCodes : Json → List Nat
  | .text t => sentText t
  | .array items => codesOf "[" ++ (codesOf ", ").intercalate (sentItems items) ++ codesOf "]"
  | .object members =>
    codesOf "\x7b" ++ (codesOf ", ").intercalate (sentMembers members) ++ codesOf "\x7d"
  | .null => codesOf "null"
  | .bool b => codesOf (if b then "true" else "false")
  | .int n => codesOf (toString n)
  | .float x => codesOf (numberFormat.write x)

/-- The codes of the values of an array. -/
def sentItems : List Json → List (List Nat)
  | [] => []
  | v :: rest => sentCodes v :: sentItems rest

/-- The codes of the members of an object. -/
def sentMembers : List (LooseText × Json) → List (List Nat)
  | [] => []
  | (name, v) :: rest => (sentText name ++ codesOf ": " ++ sentCodes v) :: sentMembers rest

end

mutual

/-- Whether a value holds half a pair in one of its texts or names. -/
def holdsHalf : Json → Bool
  | .text t => t.isBroken
  | .array items => itemsHoldHalf items
  | .object members => membersHoldHalf members
  | _ => false

/-- Whether one of the values of an array holds half a pair. -/
def itemsHoldHalf : List Json → Bool
  | [] => false
  | v :: rest => v.holdsHalf || itemsHoldHalf rest

/-- Whether one of the members of an object holds half a pair. -/
def membersHoldHalf : List (LooseText × Json) → Bool
  | [] => false
  | (name, v) :: rest => name.isBroken || v.holdsHalf || membersHoldHalf rest

end

/-- Why a document cannot be sent, if it cannot. -/
def encodingError? (v : Json) : Option Text.EncodingError :=
  if v.holdsHalf then Text.encodingError? v.sentCodes else none

end PatternMachines.Json
