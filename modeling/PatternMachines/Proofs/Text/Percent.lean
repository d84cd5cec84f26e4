import PatternMachines.Proofs.Text.Digits
import PatternMachines.Proofs.Text.Utf8
import PatternMachines.Text.Percent

/-!
# Percent encoding that is read back

## Main results

* `Text.decodeLeniently_of_decode`: bytes that can be read strictly are read alike leniently.
* `Text.percentBytes_percentEncode`: the bytes of a text are read back from its encoded form.
* `Text.decode_percentEncode`, `Text.percentDecode_percentEncode`: the text is read back from its
  encoded form.
* `Text.mem_percentEncode`: the characters of an encoded text.
-/

namespace PatternMachines.Text

/-! ### Lenient reading -/

/-- Where strict reading goes through, nothing is replaced. -/
theorem decodeLenientlyFrom_of_decodeFrom {soFar cs : List Char} {position skip : Nat}
    {bytes : List UInt8} (h : decodeFrom soFar position skip bytes = .ok cs) :
    cs = soFar.reverse ++ decodeLenientlyFrom skip bytes := by
  induction bytes generalizing soFar position skip with
  | nil =>
    cases skip with
    | zero | succ =>
      cases h
      exact (List.append_nil _).symm
  | cons b rest ih =>
    cases skip with
    | succ skip => exact ih h
    | zero =>
      rw [decodeFrom] at h
      rw [decodeLenientlyFrom]
      split at h
      case h_1 => cases h
      case h_2 count _ =>
        dsimp only at h
        split at h
        case isTrue htail =>
          dsimp only
          rw [if_pos htail, htail, ih h, List.reverse_cons, List.append_assoc,
            List.singleton_append]
        case isFalse => cases h

/-- Bytes that can be read strictly are read alike leniently. -/
theorem decodeLeniently_of_decode {bytes : List UInt8} {cs : List Char}
    (h : decode bytes = .ok cs) : decodeLeniently bytes = cs :=
  (decodeLenientlyFrom_of_decodeFrom h).symm

/-! ### Encoded bytes -/

theorem percentBytes_cons {c : Char} (hc : c ≠ '%') (rest : List Char) :
    percentBytes (c :: rest) = String.utf8EncodeChar c ++ percentBytes rest := by
  rw [percentBytes]
  rintro a b tail rfl -
  exact hc rfl

/-- An unreserved character is its own byte. -/
theorem utf8EncodeChar_of_isUnreserved : ∀ n < 256, isUnreserved (Char.ofNat n) = true →
    Char.ofNat n ≠ '%' ∧ String.utf8EncodeChar (Char.ofNat n) = [UInt8.ofNat n] := by
  decide +kernel

/-- Unreserved characters are ASCII. -/
theorem toNat_lt_of_isUnreserved {c : Char} (hc : isUnreserved c = true) : c.toNat < 0x80 := by
  have hmarks : ['_', '.', '-', '~'].all (fun c => c.toNat < 0x80) = true := by decide
  rw [isUnreserved, Bool.or_eq_true, List.contains_iff_mem] at hc
  rcases hc with hc | hc
  · delta Char.isAlphanum Char.isAlpha Char.isUpper Char.isLower Char.isDigit at hc
    simp only [Bool.or_eq_true, Bool.and_eq_true, decide_eq_true_eq, ge_iff_le,
      UInt32.le_iff_toNat_le] at hc
    have htoNat : c.toNat = c.val.toNat := rfl
    have hZ : 'Z'.val.toNat = 90 := rfl
    have hz : 'z'.val.toNat = 122 := rfl
    have hnine : '9'.val.toNat = 57 := rfl
    omega
  · exact of_decide_eq_true (List.all_eq_true.1 hmarks c hc)

theorem hexValue?_toUpper {k : Nat} (hk : k < 16) :
    hexValue? (Nat.digitChar k).toUpper = some k := by
  revert k
  decide

/-- A byte stands for itself or is written with two digits. -/
theorem percentByte_eq (b : UInt8) :
    isUnreserved (Char.ofNat b.toNat) = true ∧ percentByte b = [Char.ofNat b.toNat] ∨
      percentByte b = ['%', (Nat.digitChar (b.toNat / 16 % 16)).toUpper,
        (Nat.digitChar (b.toNat % 16)).toUpper] := by
  rw [percentByte]
  split
  case isTrue h => exact .inl ⟨h, rfl⟩
  case isFalse => exact .inr rfl

/-- A byte is read back from its encoded form, whatever comes after it. -/
theorem percentBytes_percentByte (b : UInt8) (rest : List Char) :
    percentBytes (percentByte b ++ rest) = b :: percentBytes rest := by
  have hlt := b.toNat_lt
  obtain ⟨h, hbyte⟩ | hbyte := percentByte_eq b
  · obtain ⟨hne, hbytes⟩ := utf8EncodeChar_of_isUnreserved _ hlt h
    rw [hbyte, List.singleton_append, percentBytes_cons hne, hbytes, UInt8.ofNat_toNat,
      List.singleton_append]
  · have hhigh := hexValue?_toUpper (k := b.toNat / 16 % 16) (by omega)
    have hlow := hexValue?_toUpper (k := b.toNat % 16) (by omega)
    rw [hbyte]
    generalize (Nat.digitChar (b.toNat / 16 % 16)).toUpper = high at hhigh
    generalize (Nat.digitChar (b.toNat % 16)).toUpper = low at hlow
    have hdigits : (isHexDigit high && isHexDigit low) = true := by
      rw [isHexDigit, isHexDigit, hhigh, hlow]
      rfl
    have hnumber : hexNumber [high, low] = b.toNat := by
      simp only [hexNumber, List.foldl_cons, List.foldl_nil, hhigh, hlow, Option.getD_some]
      omega
    rw [List.cons_append, List.cons_append, List.singleton_append, percentBytes, if_pos hdigits,
      hnumber, UInt8.ofNat_toNat]

theorem percentBytes_flatMap (bytes : List UInt8) :
    percentBytes (bytes.flatMap percentByte) = bytes := by
  induction bytes with
  | nil => rfl
  | cons b rest ih => rw [List.flatMap_cons, percentBytes_percentByte, ih]

/-! ### Encoded texts -/

/-- The bytes of a text are read back from its encoded form. -/
theorem percentBytes_percentEncode (s : String) :
    percentBytes (percentEncode s).toList = encode s.toList := by
  rw [percentEncode, String.toList_ofList, percentBytes_flatMap, encode]

/-- The text is read back from its encoded form. -/
theorem decode_percentEncode (s : String) :
    decode (percentBytes (percentEncode s).toList) = .ok s.toList := by
  rw [percentBytes_percentEncode, decode_encode]

/-- Reading leniently, too, gives the text back. -/
theorem percentDecode_percentEncode (s : String) :
    percentDecode (percentEncode s).toList = s.toList :=
  decodeLeniently_of_decode (decode_percentEncode s)

/-- An encoded text has unreserved characters and percent signs only. -/
theorem mem_percentEncode {s : String} {c : Char} (hc : c ∈ (percentEncode s).toList) :
    isUnreserved c = true ∨ c = '%' := by
  have hdigit : ∀ k < 16, isUnreserved (Nat.digitChar k).toUpper = true := by decide
  rw [percentEncode, String.toList_ofList, List.mem_flatMap] at hc
  obtain ⟨b, -, hc⟩ := hc
  obtain ⟨h, hbyte⟩ | hbyte := percentByte_eq b
  · rw [hbyte, List.mem_singleton] at hc
    exact .inl (hc ▸ h)
  · rw [hbyte, List.mem_cons, List.mem_cons, List.mem_singleton] at hc
    rcases hc with rfl | rfl | rfl
    · exact .inr rfl
    · exact .inl (hdigit _ (by omega))
    · exact .inl (hdigit _ (by omega))

end PatternMachines.Text
