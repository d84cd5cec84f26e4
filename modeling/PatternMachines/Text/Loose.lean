import PatternMachines.Text.Digits

/-!
# Texts with halves of pairs

Data documents may write a character beyond the first plane as a pair of codes, and nothing keeps
half a pair from standing alone. Half a pair is no character, so a text that holds one is given by
its codes. It can be compared, split and shown, but it has no bytes. Where a text is read character
by character, a private character stands for half a pair.

## Main definitions

* `LooseText`: texts that may hold halves of pairs.
* `LooseText.codes`, `LooseText.ofCodes`: the codes of a text, and the text of codes.
* `LooseText.carried`, `LooseText.shown`: texts with a character in the place of each half.
* `LooseText.joinPairs`: codes with each pair among them made one.
* `Text.EncodingError`, `Text.encodingError?`: why and where codes have no bytes.
-/

namespace PatternMachines

namespace Text

/-- Whether a code is the first half of a pair. -/
def isHighHalf (n : Nat) : Bool := 0xd800 ≤ n && n < 0xdc00

/-- Whether a code is the second half of a pair. -/
def isLowHalf (n : Nat) : Bool := 0xdc00 ≤ n && n < 0xe000

/-- Whether a code is half a pair. -/
def isHalf (n : Nat) : Bool := isHighHalf n || isLowHalf n

/-- The character that stands for a code: its own, or for half a pair, which has none, the private
character 0x800 places after it. Only private characters lie between the two, so that a half keeps
its place among all others. -/
def charOf (n : Nat) : Char := Char.ofNat (if isHalf n then n + 0x800 else n)

/-- The code that the two halves of a pair stand for. -/
def pairCode (high low : Nat) : Nat := 0x10000 + (high - 0xd800) * 0x400 + (low - 0xdc00)

end Text

open Text

/-- A text that may hold halves of pairs. -/
inductive LooseText where
  /-- A text of characters. -/
  | proper (s : String)
  /-- The codes of a text that holds half a pair. -/
  | broken (codes : List Nat)
  deriving DecidableEq, Repr

namespace LooseText

instance : Coe String LooseText := ⟨.proper⟩

/-- The codes of a text. -/
def codes : LooseText → List Nat
  | .proper s => s.toList.map Char.toNat
  | .broken codes => codes

/-- The text of codes. -/
def ofCodes (codes : List Nat) : LooseText :=
  if codes.any isHalf then .broken codes else .proper (String.ofList (codes.map Char.ofNat))

/-- Whether a text holds half a pair. -/
def isBroken : LooseText → Bool
  | .proper _ => false
  | .broken _ => true

/-- A text with one character for each code. -/
def carried : LooseText → String
  | .proper s => s
  | .broken codes => String.ofList (codes.map charOf)

/-- A text with the replacement character in the place of each half of a pair. -/
def shown : LooseText → String
  | .proper s => s
  | .broken codes =>
    String.ofList (codes.map fun n => Char.ofNat (if isHalf n then 0xfffd else n))

/-- The codes with each first half that a second half follows made one code with it. -/
def joinPairs : List Nat → List Nat
  | [] => []
  | [n] => [n]
  | m :: n :: rest =>
    if isHighHalf m && isLowHalf n then pairCode m n :: joinPairs rest
    else m :: joinPairs (n :: rest)

end LooseText

namespace Text

/-- The first codes among others that have no bytes: halves of pairs, one after another. -/
structure EncodingError where
  /-- The position of the first of them. -/
  position : Nat
  /-- The first of them. -/
  code : Nat
  /-- How many they are. -/
  count : Nat
  deriving DecidableEq, Repr

/-- The text of the error. -/
def EncodingError.message (e : EncodingError) : String :=
  if e.count = 1 then
    "'utf-8' codec can't encode character '\\u" ++ String.ofList (hexDigits 4 e.code) ++
      "' in position " ++ toString e.position ++ ": surrogates not allowed"
  else
    "'utf-8' codec can't encode characters in position " ++ toString e.position ++ "-" ++
      toString (e.position + e.count - 1) ++ ": surrogates not allowed"

/-- The first codes that have no bytes, if there are any. -/
def encodingError? (codes : List Nat) : Option EncodingError :=
  let before := codes.takeWhile (!isHalf ·)
  match codes.drop before.length with
  | [] => none
  | n :: rest => some ⟨before.length, n, (rest.takeWhile isHalf).length + 1⟩

end Text

end PatternMachines
