import PatternMachines.Text.Loose
import PatternMachines.Unicode.Printable

/-!
# Quoted texts

A text is shown between quotes. Single quotes are used unless the text holds single quotes and no
double ones. The quote and the backslash are escaped by a backslash, and so is every character that
is not printable, with a letter or with its code in hexadecimal digits. So is half a surrogate pair.

## Main definitions

* `Text.quoted`: the quoted form of a text.
* `Text.quotedLoose`: the quoted form of a text that may hold halves of pairs.
-/

namespace PatternMachines.Text

/-- The quote that stands around a text. -/
def quoteFor (s : List Char) : Char :=
  if s.contains '\'' && !s.contains '"' then '"' else '\''

/-- A character within quotes. -/
def quotedChar (quote c : Char) : List Char :=
  if c = quote ∨ c = '\\' then ['\\', c]
  else if c = '\n' then ['\\', 'n']
  else if c = '\r' then ['\\', 'r']
  else if c = '\t' then ['\\', 't']
  else if Unicode.isPrintable c then [c]
  else if c.toNat < 0x100 then '\\' :: 'x' :: hexDigits 2 c.toNat
  else if c.toNat < 0x10000 then '\\' :: 'u' :: hexDigits 4 c.toNat
  else '\\' :: 'U' :: hexDigits 8 c.toNat

/-- The quoted form of a text. -/
def quoted (s : String) : String :=
  let quote := quoteFor s.toList
  String.ofList (quote :: s.toList.flatMap (quotedChar quote) ++ [quote])

/-- A code within quotes. -/
def quotedCode (quote : Char) (n : Nat) : List Char :=
  if isHalf n then '\\' :: 'u' :: hexDigits 4 n else quotedChar quote (Char.ofNat n)

/-- The quoted form of a text that may hold halves of pairs. -/
def quotedLoose : LooseText → String
  | .proper s => quoted s
  | .broken codes =>
    let quote := quoteFor (LooseText.broken codes).shown.toList
    String.ofList (quote :: codes.flatMap (quotedCode quote) ++ [quote])

end PatternMachines.Text
