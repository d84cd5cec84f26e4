import PatternMachines.Json.Value
import PatternMachines.Reading
import PatternMachines.Text.Digits

/-!
# Reading data documents

A document is one value between blanks. Besides the usual numbers, `NaN`, `Infinity` and
`-Infinity` are read. Texts hold no raw control characters. Where an object names a member twice,
the last value counts, in the place of the first. A whole number has at most 4300 digits, and
brackets are nested at most 975 deep.

## Main definitions

* `Json.ReadError`: why a document cannot be read.
* `Json.readValue`: reads a value from the front of a text.
* `Json.parse`: the value of a document.
-/

namespace PatternMachines.Json

/-- The two kinds of values that hold others. -/
inductive Compound where
  /-- An array. -/
  | array
  /-- An object. -/
  | object
  deriving DecidableEq, Repr

/-- Why a document cannot be read. -/
inductive ReadError where
  /-- The text is no document. -/
  | malformed
  /-- The brackets of a value are nested too deeply. -/
  | tooDeep (compound : Compound)
  deriving DecidableEq, Repr

/-- The text of the error. -/
def ReadError.message : ReadError → String
  | .malformed => "not a document"
  | .tooDeep compound =>
    "maximum recursion depth exceeded while decoding a JSON " ++
      (match compound with | .array => "array" | .object => "object") ++ " from a unicode string"

/-- How deeply brackets may be nested. -/
def maxDepth : Nat := 975

/-- The blanks between the parts of a document. -/
def isSpace (c : Char) : Bool := c == ' ' || c == '\t' || c == '\n' || c == '\r'

/-- Leaves out blanks. -/
def skipSpace (s : List Char) : List Char := s.dropWhile isSpace

theorem length_skipSpace_le (s : List Char) : (skipSpace s).length ≤ s.length :=
  (List.dropWhile_suffix _).length_le

/-! ### Texts -/

/-- The number that four hexadecimal digits write. -/
def unit? (a b c d : Char) : Option Nat :=
  if [a, b, c, d].all Text.isHexDigit then some (Text.hexNumber [a, b, c, d]) else none

/-- The character that a letter denotes after a backslash. -/
def escaped? (c : Char) : Option Char :=
  match c with
  | '"' => some '"'
  | '\\' => some '\\'
  | '/' => some '/'
  | 'b' => some '\x08'
  | 'f' => some '\x0c'
  | 'n' => some '\n'
  | 'r' => some '\r'
  | 't' => some '\t'
  | _ => none

/-- Reads the rest of a text after its opening quote, as codes. The codes read so far are held in
reverse. -/
def readCodes {n : Nat} (soFar : List Nat) :
    (s : List Char) → s.length ≤ n → Option (Reading Char (List Nat) n)
  | [], _ => none
  | '"' :: s, h => some ⟨soFar.reverse, s, by simp only [List.length_cons] at h; omega⟩
  | '\\' :: 'u' :: a :: b :: c :: d :: s, h =>
    match unit? a b c d with
    | none => none
    | some m => readCodes (m :: soFar) s (by simp only [List.length_cons] at h; omega)
  | '\\' :: c :: s, h =>
    match escaped? c with
    | none => none
    | some c => readCodes (c.toNat :: soFar) s (by simp only [List.length_cons] at h; omega)
  | c :: s, h =>
    if c = '\\' ∨ c.toNat < 0x20 then none
    else readCodes (c.toNat :: soFar) s (by simp only [List.length_cons] at h; omega)

/-- Reads the rest of a text after its opening quote. Two halves that form a pair become one
character. -/
def readText (s : List Char) : Option (Reading Char LooseText s.length) :=
  (readCodes [] s (Nat.le_refl _)).map
    (·.map fun codes => LooseText.ofCodes (LooseText.joinPairs codes))

/-! ### Numbers -/

/-- The longest whole number that is read, in digits. -/
def maxDigits : Nat := 4300

/-- The decimal digits at the front of a text. -/
def digitsOf (s : List Char) : List Char := s.takeWhile Char.isDigit

/-- The text after the decimal digits at its front. -/
def afterDigits (s : List Char) : List Char := s.dropWhile Char.isDigit

theorem length_afterDigits_le (s : List Char) : (afterDigits s).length ≤ s.length :=
  (List.dropWhile_suffix _).length_le

/-- Reads a fraction, if there is one: its digits. -/
def readFraction : (s : List Char) → Reading Char (List Char) s.length
  | '.' :: s =>
    if digitsOf s = [] then ⟨[], '.' :: s, Nat.le_refl _⟩
    else ⟨digitsOf s, afterDigits s, Nat.le_succ_of_le (length_afterDigits_le s)⟩
  | s => ⟨[], s, Nat.le_refl _⟩

/-- Reads the sign and the digits of an exponent. -/
def readSigned : (s : List Char) → Reading Char (Option Int) s.length
  | '-' :: s =>
    ⟨if digitsOf s = [] then none else some (-(Text.decimalNumber (digitsOf s) : Int)),
      afterDigits s, Nat.le_succ_of_le (length_afterDigits_le s)⟩
  | '+' :: s =>
    ⟨if digitsOf s = [] then none else some (Text.decimalNumber (digitsOf s)), afterDigits s,
      Nat.le_succ_of_le (length_afterDigits_le s)⟩
  | s =>
    ⟨if digitsOf s = [] then none else some (Text.decimalNumber (digitsOf s)), afterDigits s,
      length_afterDigits_le s⟩

/-- Reads an exponent, if there is one. -/
def readExponent (s : List Char) : Reading Char (Option Int) s.length :=
  match s with
  | [] => ⟨none, [], Nat.le_refl _⟩
  | c :: rest =>
    if c = 'e' ∨ c = 'E' then
      let r := readSigned rest
      if r.value.isSome then r.weaken (by simp) else ⟨none, c :: rest, Nat.le_refl _⟩
    else ⟨none, c :: rest, Nat.le_refl _⟩

/-- The whole part at the front of a text: a zero, or digits that do not begin with one. -/
def wholeDigits : List Char → List Char
  | '0' :: _ => ['0']
  | s => digitsOf s

/-- Reads a number after its sign. A fraction or an exponent makes it a floating-point number. -/
def readNumber (negative : Bool) (s : List Char) : Option (Reading Char Json s.length) :=
  let whole := wholeDigits s
  if whole = [] then none
  else
    let rest := s.drop whole.length
    have hrest : rest.length ≤ s.length := by simp [rest]
    let fraction := readFraction rest
    let exponent := readExponent fraction.rest
    let value : Option Json :=
      match fraction.value, exponent.value with
      | [], none =>
        if maxDigits < whole.length then none
        else
          let n : Int := Text.decimalNumber whole
          some (.int (if negative then -n else n))
      | digits, e =>
        some (.float (.ofDecimal negative (Text.decimalNumber (whole ++ digits))
          (e.getD 0 - digits.length)))
    value.map fun v => ⟨v, exponent.rest,
      Nat.le_trans exponent.rest_length (Nat.le_trans fraction.rest_length hrest)⟩

/-! ### Values -/

/-- The words that are values, with the values. -/
def words : List (List Char × Json) :=
  [("null".toList, .null), ("true".toList, .bool true), ("false".toList, .bool false),
    ("NaN".toList, .float .nan), ("Infinity".toList, .float (.infinity false)),
    ("-Infinity".toList, .float (.infinity true))]

/-- Reads one of the words that are values. -/
def readWord (s : List Char) : Option (Reading Char Json s.length) :=
  words.findSome? fun (word, v) =>
    if word.isPrefixOf s then some ⟨v, s.drop word.length, by simp⟩ else none

/-- Reads a value that is neither an array nor an object. -/
def readScalar : (s : List Char) → Option (Reading Char Json s.length)
  | [] => none
  | '"' :: s => (readText s).map fun r => (r.map Json.text).weaken (by simp)
  | '-' :: s =>
    match readWord ('-' :: s) with
    | some r => some r
    | none => (readNumber true s).map (·.weaken (by simp))
  | c :: s => if c.isDigit then readNumber false (c :: s) else readWord (c :: s)

/-- Reads the name of a member, up to the value after its colon. -/
def readName : (s : List Char) → Option (Reading Char LooseText s.length)
  | '"' :: s =>
    match readText s with
    | none => none
    | some name =>
      match h : skipSpace name.rest with
      | ':' :: rest => some ⟨name.value, skipSpace rest, by
          have h1 := length_skipSpace_le name.rest; have h2 := name.rest_length
          have h3 := length_skipSpace_le rest
          simp only [h, List.length_cons] at *; omega⟩
      | _ => none
  | _ => none

mutual

/-- Reads a value from the front of a text, inside `depth` brackets. -/
def readValue (depth : Nat) (s : List Char) : Except ReadError (Reading Char Json s.length) :=
  match s with
  | '[' :: s =>
    if maxDepth ≤ depth then .error (.tooDeep .array)
    else
      match h : skipSpace s with
      | ']' :: rest => .ok ⟨.array [], rest, by
          have := length_skipSpace_le s; simp only [h, List.length_cons] at *; omega⟩
      | _ => (readItems (depth + 1) [] (skipSpace s) (length_skipSpace_le s)).map fun r =>
          (r.map Json.array).weaken (by simp)
  | '{' :: s =>
    if maxDepth ≤ depth then .error (.tooDeep .object)
    else
      match h : skipSpace s with
      | '}' :: rest => .ok ⟨.object [], rest, by
          have := length_skipSpace_le s; simp only [h, List.length_cons] at *; omega⟩
      | _ => (readMembers (depth + 1) [] (skipSpace s) (length_skipSpace_le s)).map fun r =>
          (r.map Json.object).weaken (by simp)
  | s =>
    match readScalar s with
    | some r => .ok r
    | none => .error .malformed
termination_by 2 * s.length
decreasing_by
  all_goals
    have := length_skipSpace_le s; simp only [List.length_cons]; omega

/-- Reads the values of an array after its opening bracket. The values read so far are held in
reverse. -/
def readItems {n : Nat} (depth : Nat) (soFar : List Json) (s : List Char) (hs : s.length ≤ n) :
    Except ReadError (Reading Char (List Json) n) :=
  match readValue depth s with
  | .error e => .error e
  | .ok item =>
    match h : skipSpace item.rest with
    | ']' :: rest => .ok ⟨(item.value :: soFar).reverse, rest, by
        have h1 := length_skipSpace_le item.rest; have h2 := item.rest_length
        simp only [h, List.length_cons] at *; omega⟩
    | ',' :: rest =>
      readItems depth (item.value :: soFar) (skipSpace rest) (by
        have h1 := length_skipSpace_le item.rest; have h2 := item.rest_length
        have h3 := length_skipSpace_le rest
        simp only [h, List.length_cons] at *; omega)
    | _ => .error .malformed
termination_by 2 * s.length + 1
decreasing_by
  · omega
  · have h1 := length_skipSpace_le item.rest; have h2 := item.rest_length
    have h3 := length_skipSpace_le rest
    simp only [h, List.length_cons] at *; omega

/-- Reads the members of an object after its opening brace. -/
def readMembers {n : Nat} (depth : Nat) (soFar : List (LooseText × Json)) (s : List Char)
    (hs : s.length ≤ n) : Except ReadError (Reading Char (List (LooseText × Json)) n) :=
  match readName s with
  | none => .error .malformed
  | some name =>
    match readValue depth name.rest with
    | .error e => .error e
    | .ok item =>
      match h : skipSpace item.rest with
      | '}' :: rest => .ok ⟨setMember name.value item.value soFar, rest, by
          have h1 := length_skipSpace_le item.rest; have h2 := item.rest_length
          have h3 := name.rest_length
          simp only [h, List.length_cons] at *; omega⟩
      | ',' :: rest =>
        readMembers depth (setMember name.value item.value soFar) (skipSpace rest) (by
          have h1 := length_skipSpace_le item.rest; have h2 := item.rest_length
          have h3 := name.rest_length; have h4 := length_skipSpace_le rest
          simp only [h, List.length_cons] at *; omega)
      | _ => .error .malformed
termination_by 2 * s.length + 1
decreasing_by
  · have h3 := name.rest_length
    omega
  · have h1 := length_skipSpace_le item.rest; have h2 := item.rest_length
    have h3 := name.rest_length; have h4 := length_skipSpace_le rest
    simp only [h, List.length_cons] at *; omega

end

/-- The value of a document. -/
def parse (s : String) : Except ReadError Json := do
  let r ← readValue 0 (skipSpace s.toList)
  if skipSpace r.rest = [] then return r.value else throw .malformed

end PatternMachines.Json
