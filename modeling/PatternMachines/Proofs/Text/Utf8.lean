import Mathlib.Data.List.Basic
import PatternMachines.Text.Utf8

/-!
# Bytes that are read back

## Main results

* `Text.decodeFrom_utf8EncodeChar`: the bytes of a character are read as the character.
* `Text.decode_encode`: the bytes of characters are read as the characters.
-/

namespace PatternMachines.Text

variable {k n : Nat} {soFar : List Char} {position : Nat} {rest tail : List UInt8} {first b : UInt8}

theorem decodeFrom_skip (hk : tail.length = k) :
    decodeFrom soFar position k (tail ++ rest) = decodeFrom soFar (position + k) 0 rest := by
  induction tail generalizing position k with
  | nil =>
    subst hk
    rfl
  | cons b tail ih =>
    subst hk
    rw [List.length_cons, List.cons_append, decodeFrom, ih rfl]
    congr 1
    omega

theorem toNat_ofNat (hn : n < 256) : (UInt8.ofNat n).toNat = n := by
  rw [UInt8.toNat_ofNat', Nat.mod_eq_of_lt hn]

theorem isTail_ofNat (hn : n < 64) : isTail (UInt8.ofNat (n + 0x80)) = true := by
  have hb := toNat_ofNat (n := n + 0x80) (by omega)
  simp only [isTail, Bool.and_eq_true, decide_eq_true_eq, UInt8.le_iff_toNat_le, hb]
  constructor
  · exact Nat.le_add_left _ _
  · change n + 0x80 ≤ 0xbf
    omega

theorem ofNat_ne (hn : n < 256) (hk : k < 256) (hne : n ≠ k) : UInt8.ofNat n ≠ UInt8.ofNat k := by
  intro heq
  have htoNat := congrArg UInt8.toNat heq
  rw [toNat_ofNat hn, toNat_ofNat hk] at htoNat
  exact hne htoNat

/-- Which second bytes a first byte allows. -/
theorem mayFollow_ofNat (hk : k < 256) (hn : n < 64) (h₁ : k = 0xe0 → 0x20 ≤ n)
    (h₂ : k = 0xed → n < 0x20) (h₃ : k = 0xf0 → 0x10 ≤ n) (h₄ : k = 0xf4 → n < 0x10) :
    mayFollow (UInt8.ofNat k) (UInt8.ofNat (n + 0x80)) = true := by
  have hfirst {l : Nat} (hl : l < 256) (hkl : k ≠ l) : (UInt8.ofNat k != UInt8.ofNat l) = true :=
    bne_iff_ne.2 (ofNat_ne hk hl hkl)
  have hsecond := toNat_ofNat (n := n + 0x80) (by omega)
  have ha0 : (0xa0 : UInt8).toNat = 0xa0 := rfl
  have h90 : (0x90 : UInt8).toNat = 0x90 := rfl
  simp only [mayFollow, isTail_ofNat hn, Bool.and_eq_true, Bool.or_eq_true, decide_eq_true_eq,
    UInt8.le_iff_toNat_le, UInt8.lt_iff_toNat_lt, hsecond, ha0, h90]
  refine ⟨⟨⟨⟨trivial, ?_⟩, ?_⟩, ?_⟩, ?_⟩
  · by_cases h : k = 0xe0
    · exact .inr (by have := h₁ h; omega)
    · exact .inl (hfirst (by decide) h)
  · by_cases h : k = 0xed
    · exact .inr (by have := h₂ h; omega)
    · exact .inl (hfirst (by decide) h)
  · by_cases h : k = 0xf0
    · exact .inr (by have := h₃ h; omega)
    · exact .inl (hfirst (by decide) h)
  · by_cases h : k = 0xf4
    · exact .inr (by have := h₄ h; omega)
    · exact .inl (hfirst (by decide) h)

/-- How many bytes a first byte calls for. -/
theorem tailCount?_ofNat (hn : n < 256) : tailCount? (UInt8.ofNat n) =
    if n < 0x80 then some 0 else if n < 0xc2 then none else if n < 0xe0 then some 1
    else if n < 0xf0 then some 2 else if n < 0xf5 then some 3 else none := by
  simp only [tailCount?, UInt8.lt_iff_toNat_lt, toNat_ofNat hn]
  rfl

/-- A sequence with all the bytes that its first byte calls for is read as its character. -/
theorem decodeFrom_cons (tail : List UInt8) (hcount : tailCount? first = some tail.length)
    (htail : sequenceTail first tail.length (tail ++ rest) = tail) :
    decodeFrom soFar position 0 (first :: (tail ++ rest)) =
      decodeFrom (sequenceChar first tail :: soFar) (position + 1 + tail.length) 0 rest := by
  rw [decodeFrom, hcount]
  dsimp only
  rw [htail, if_pos rfl, decodeFrom_skip rfl]

theorem leadingTails_append (h : ∀ b ∈ tail, isTail b = true) :
    leadingTails tail.length (tail ++ rest) = tail := by
  induction tail with
  | nil => cases rest <;> rfl
  | cons b tail ih =>
    rw [List.forall_mem_cons] at h
    rw [List.length_cons, List.cons_append, leadingTails, if_pos h.1, ih h.2]

theorem sequenceTail_cons (rest : List UInt8) (hb : mayFollow first b = true)
    (h : ∀ b ∈ tail, isTail b = true) :
    sequenceTail first (b :: tail).length (b :: tail ++ rest) = b :: tail := by
  rw [List.length_cons, List.cons_append, sequenceTail, if_pos hb, leadingTails_append h]

/-- Several bytes are read as their character, if each of them may follow those before it. -/
theorem decodeFrom_sequence {c : Char} (hcount : tailCount? first = some (b :: tail).length)
    (hfollow : mayFollow first b = true) (htail : ∀ b ∈ tail, isTail b = true)
    (hread : sequenceChar first (b :: tail) = c) :
    decodeFrom soFar position 0 (first :: b :: tail ++ rest) =
      decodeFrom (c :: soFar) (position + (first :: b :: tail).length) 0 rest := by
  have hsequence := sequenceTail_cons rest hfollow htail
  have hposition : position + (first :: b :: tail).length = position + 1 + (b :: tail).length := by
    rw [Nat.add_assoc, Nat.add_comm 1]
    rfl
  rw [List.cons_append, decodeFrom_cons _ hcount hsequence, hread, hposition]

/-- The bytes of a character are read as the character. -/
theorem decodeFrom_utf8EncodeChar (c : Char) :
    decodeFrom soFar position 0 (String.utf8EncodeChar c ++ rest) =
      decodeFrom (c :: soFar) (position + (String.utf8EncodeChar c).length) 0 rest := by
  have hvalid : c.val.toNat < 0xd800 ∨ 0xdfff < c.val.toNat ∧ c.val.toNat < 0x110000 := c.valid
  have hchar {k : Nat} (hk : k = c.val.toNat) : Char.ofNat k = c := hk ▸ Char.ofNat_toNat c
  unfold String.utf8EncodeChar
  dsimp only
  generalize c.val.toNat = v at hvalid hchar
  split_ifs with h₁ h₂ h₃
  · have hcount : tailCount? (UInt8.ofNat v) = some 0 := by
      rw [tailCount?_ofNat (by omega), if_pos (by omega)]
    have hread : sequenceChar (UInt8.ofNat v) [] = c := by
      rw [sequenceChar, toNat_ofNat (by omega)]
      exact hchar rfl
    exact (decodeFrom_cons [] hcount rfl).trans (by rw [hread]; rfl)
  · have hcount : tailCount? (UInt8.ofNat (v / 64 % 0x20 + 0xc0)) = some 1 := by
      rw [tailCount?_ofNat (by omega)]
      split_ifs <;> first | rfl | omega
    have hfollow := mayFollow_ofNat (k := v / 64 % 0x20 + 0xc0) (n := v % 64) (by omega) (by omega)
      (by omega) (by omega) (by omega) (by omega)
    have hread : sequenceChar (UInt8.ofNat (v / 64 % 0x20 + 0xc0))
        [UInt8.ofNat (v % 64 + 0x80)] = c := by
      simp only [sequenceChar, List.length_singleton, List.foldl_cons, List.foldl_nil]
      rw [toNat_ofNat (by omega), toNat_ofNat (by omega)]
      exact hchar (by omega)
    exact decodeFrom_sequence hcount hfollow (List.forall_mem_nil _) hread
  · have hcount : tailCount? (UInt8.ofNat (v / 4096 % 0x10 + 0xe0)) = some 2 := by
      rw [tailCount?_ofNat (by omega)]
      split_ifs <;> first | rfl | omega
    have hfollow := mayFollow_ofNat (k := v / 4096 % 0x10 + 0xe0) (n := v / 64 % 64) (by omega)
      (by omega) (by omega) (by omega) (by omega) (by omega)
    have hread : sequenceChar (UInt8.ofNat (v / 4096 % 0x10 + 0xe0))
        [UInt8.ofNat (v / 64 % 64 + 0x80), UInt8.ofNat (v % 64 + 0x80)] = c := by
      simp only [sequenceChar, List.length_cons, List.length_nil, List.foldl_cons, List.foldl_nil]
      rw [toNat_ofNat (by omega), toNat_ofNat (by omega), toNat_ofNat (by omega)]
      exact hchar (by omega)
    have htails : ∀ b ∈ [UInt8.ofNat (v % 64 + 0x80)], isTail b = true := by
      rw [List.forall_mem_singleton]
      exact isTail_ofNat (by omega)
    exact decodeFrom_sequence hcount hfollow htails hread
  · have hcount : tailCount? (UInt8.ofNat (v / 262144 % 0x08 + 0xf0)) = some 3 := by
      rw [tailCount?_ofNat (by omega)]
      split_ifs <;> first | rfl | omega
    have hfollow := mayFollow_ofNat (k := v / 262144 % 0x08 + 0xf0) (n := v / 4096 % 64) (by omega)
      (by omega) (by omega) (by omega) (by omega) (by omega)
    have hread : sequenceChar (UInt8.ofNat (v / 262144 % 0x08 + 0xf0))
        [UInt8.ofNat (v / 4096 % 64 + 0x80), UInt8.ofNat (v / 64 % 64 + 0x80),
          UInt8.ofNat (v % 64 + 0x80)] = c := by
      simp only [sequenceChar, List.length_cons, List.length_nil, List.foldl_cons, List.foldl_nil]
      rw [toNat_ofNat (by omega), toNat_ofNat (by omega), toNat_ofNat (by omega),
        toNat_ofNat (by omega)]
      exact hchar (by omega)
    have htails : ∀ b ∈ [UInt8.ofNat (v / 64 % 64 + 0x80), UInt8.ofNat (v % 64 + 0x80)],
        isTail b = true := by
      rw [List.forall_mem_cons, List.forall_mem_singleton]
      exact ⟨isTail_ofNat (by omega), isTail_ofNat (by omega)⟩
    exact decodeFrom_sequence hcount hfollow htails hread

/-- The bytes of characters are read as the characters. -/
theorem decode_encode (cs : List Char) : decode (encode cs) = .ok cs := by
  suffices h : ∀ soFar position, decodeFrom soFar position 0 (encode cs) =
      .ok (soFar.reverse ++ cs) from h [] 0
  induction cs with
  | nil =>
    intro soFar position
    rw [List.append_nil]
    rfl
  | cons c cs ih =>
    intro soFar position
    rw [encode, List.flatMap_cons, decodeFrom_utf8EncodeChar, ← encode, ih, List.reverse_cons,
      List.append_assoc, List.singleton_append]

end PatternMachines.Text
