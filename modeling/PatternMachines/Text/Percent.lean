import PatternMachines.Text.Utf8

/-!
# Percent encoding

The bytes of a text are written by themselves where they are unreserved characters of addresses, and
otherwise as a percent sign with two hexadecimal digits. What is not so written is read as it is.

## Main definitions

* `Text.percentEncode`: the encoded text.
* `Text.percentDecode`: the text that is read back.
-/

namespace PatternMachines.Text

/-- The characters that stand for themselves: ASCII letters and digits and `_.-~`. -/
def isUnreserved (c : Char) : Bool := c.isAlphanum || ['_', '.', '-', '~'].contains c

/-- A byte in encoded form, with capitals as digits. -/
def percentByte (b : UInt8) : List Char :=
  let c := Char.ofNat b.toNat
  if isUnreserved c then [c] else '%' :: (hexDigits 2 b.toNat).map Char.toUpper

/-- The encoded text. -/
def percentEncode (s : String) : String :=
  String.ofList ((s.toList.flatMap String.utf8EncodeChar).flatMap percentByte)

/-- The bytes of characters in encoded form. -/
def percentBytes : List Char → List UInt8
  | [] => []
  | '%' :: a :: b :: rest =>
    if isHexDigit a && isHexDigit b then UInt8.ofNat (hexNumber [a, b]) :: percentBytes rest
    else '%'.toUInt8 :: percentBytes (a :: b :: rest)
  | c :: rest => String.utf8EncodeChar c ++ percentBytes rest

/-- The text that characters in encoded form stand for. -/
def percentDecode (cs : List Char) : List Char := decodeLeniently (percentBytes cs)

end PatternMachines.Text
