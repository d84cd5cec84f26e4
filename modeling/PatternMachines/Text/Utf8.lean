import PatternMachines.Text.Digits

/-!
# UTF-8

Bytes are read as characters strictly. An ill-formed sequence is reported with the bytes of its
longest well-formed beginning, or with its first byte alone where that can begin no sequence. They
may also be read leniently, with the replacement character in the place of those bytes.

## Main definitions

* `Text.encode`, `Text.byteLength`: the bytes of characters, and how many a text has.
* `Text.DecodingError`: where and why bytes cannot be read.
* `Text.decode`, `Text.decodeLeniently`: the characters of bytes.
-/

namespace PatternMachines.Text

/-- The bytes of characters. -/
def encode (cs : List Char) : List UInt8 := cs.flatMap String.utf8EncodeChar

/-- The length of a text in bytes. -/
def byteLength (s : String) : Nat := (encode s.toList).length

/-- Why bytes cannot be read. -/
inductive DecodingFault where
  /-- The byte can begin no sequence. -/
  | invalidStart
  /-- The sequence is broken off by a byte that cannot continue it. -/
  | invalidContinuation
  /-- The bytes end within the sequence. -/
  | unexpectedEnd
  deriving DecidableEq, Repr

/-- The wording of a fault. -/
def DecodingFault.message : DecodingFault → String
  | .invalidStart => "invalid start byte"
  | .invalidContinuation => "invalid continuation byte"
  | .unexpectedEnd => "unexpected end of data"

/-- Where and why bytes cannot be read. -/
structure DecodingError where
  /-- The position of the first byte that cannot be read. -/
  position : Nat
  /-- The first byte that cannot be read. -/
  byte : UInt8
  /-- How many bytes cannot be read. -/
  count : Nat
  /-- Why they cannot be read. -/
  fault : DecodingFault
  deriving DecidableEq, Repr

/-- The text of the error. -/
def DecodingError.message (e : DecodingError) : String :=
  if e.count = 1 then
    "'utf-8' codec can't decode byte 0x" ++ String.ofList (hexDigits 2 e.byte.toNat) ++
      " in position " ++ toString e.position ++ ": " ++ e.fault.message
  else
    "'utf-8' codec can't decode bytes in position " ++ toString e.position ++ "-" ++
      toString (e.position + e.count - 1) ++ ": " ++ e.fault.message

/-- Whether a byte continues a sequence. -/
def isTail (b : UInt8) : Bool := 0x80 ≤ b && b ≤ 0xbf

/-- How many bytes follow a first byte, if it can begin a sequence. -/
def tailCount? (b : UInt8) : Option Nat :=
  if b < 0x80 then some 0
  else if b < 0xc2 then none
  else if b < 0xe0 then some 1
  else if b < 0xf0 then some 2
  else if b < 0xf5 then some 3
  else none

/-- Whether the second byte of a sequence may follow the first one. Overlong forms, surrogates and
codes beyond the last plane are excluded here. -/
def mayFollow (first second : UInt8) : Bool :=
  isTail second &&
    (first != 0xe0 || 0xa0 ≤ second) && (first != 0xed || second < 0xa0) &&
    (first != 0xf0 || 0x90 ≤ second) && (first != 0xf4 || second < 0x90)

/-- The tail bytes at the front, at most `count` of them. -/
def leadingTails : (count : Nat) → List UInt8 → List UInt8
  | 0, _ => []
  | _, [] => []
  | count + 1, b :: rest => if isTail b then b :: leadingTails count rest else []

/-- The tail bytes that a first byte is followed by, up to the number that it calls for. -/
def sequenceTail (first : UInt8) (count : Nat) (rest : List UInt8) : List UInt8 :=
  match count, rest with
  | 0, _ => []
  | _, [] => []
  | count + 1, b :: rest => if mayFollow first b then b :: leadingTails count rest else []

/-- The character of a sequence that is complete. -/
def sequenceChar (first : UInt8) (tail : List UInt8) : Char :=
  let lead :=
    match tail.length with
    | 0 => first.toNat
    | 1 => first.toNat - 0xc0
    | 2 => first.toNat - 0xe0
    | _ => first.toNat - 0xf0
  Char.ofNat (tail.foldl (fun n b => n * 64 + (b.toNat - 0x80)) lead)

/-- Reads bytes from a position on, where `soFar` holds the characters before it in reverse and
`skip` bytes belong to the last of them. -/
def decodeFrom (soFar : List Char) (position : Nat) : (skip : Nat) → List UInt8 →
    Except DecodingError (List Char)
  | _, [] => .ok soFar.reverse
  | skip + 1, _ :: rest => decodeFrom soFar (position + 1) skip rest
  | 0, b :: rest =>
    match tailCount? b with
    | none => .error ⟨position, b, 1, .invalidStart⟩
    | some count =>
      let tail := sequenceTail b count rest
      if tail.length = count then
        decodeFrom (sequenceChar b tail :: soFar) (position + 1) count rest
      else
        .error ⟨position, b, tail.length + 1,
          if tail.length = rest.length then .unexpectedEnd else .invalidContinuation⟩

/-- The characters of bytes. -/
def decode (bytes : List UInt8) : Except DecodingError (List Char) := decodeFrom [] 0 0 bytes

/-- The characters of bytes with the replacement character in the place of ill-formed sequences,
where `skip` bytes belong to the character before. -/
def decodeLenientlyFrom : (skip : Nat) → List UInt8 → List Char
  | _, [] => []
  | skip + 1, _ :: rest => decodeLenientlyFrom skip rest
  | 0, b :: rest =>
    match tailCount? b with
    | none => Char.ofNat 0xfffd :: decodeLenientlyFrom 0 rest
    | some count =>
      let tail := sequenceTail b count rest
      (if tail.length = count then sequenceChar b tail else Char.ofNat 0xfffd) ::
        decodeLenientlyFrom tail.length rest

/-- The characters of bytes with the replacement character in the place of ill-formed sequences. -/
def decodeLeniently (bytes : List UInt8) : List Char := decodeLenientlyFrom 0 bytes

end PatternMachines.Text
