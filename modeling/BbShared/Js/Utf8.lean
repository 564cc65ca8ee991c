import BbShared.Js.Text

/-!
# UTF-8

`TextEncoder` and the standard's UTF-8 decoder with replacement: a byte that does not continue the
sequence begun before it ends that sequence in one U+FFFD and is read again as a lead byte.
`utf8Decode_encode` says that the decoder undoes the encoder.
-/

namespace Js

/-- A `Uint8Array` or a `Buffer`. -/
abbrev Bytes := List UInt8

/-- `TextEncoder.encode`. -/
def utf8Encode (s : Text) : Bytes := s.flatMap String.utf8EncodeChar

/-- U+FFFD. -/
def replacement : Char := Char.ofNat 0xFFFD

/-- The range a second byte must be in after the lead byte `a`. -/
def secondOk (a b : ℕ) : Bool :=
  if a = 0xE0 then 0xA0 ≤ b && b ≤ 0xBF
  else if a = 0xED then 0x80 ≤ b && b ≤ 0x9F
  else if a = 0xF0 then 0x90 ≤ b && b ≤ 0xBF
  else if a = 0xF4 then 0x80 ≤ b && b ≤ 0x8F
  else 0x80 ≤ b && b ≤ 0xBF

/-- The range of the other continuation bytes. -/
def tailOk (b : ℕ) : Bool := 0x80 ≤ b && b ≤ 0xBF

/-- UTF-8 decode with replacement. -/
def utf8Decode : Bytes → Text
  | [] => []
  | a :: rest =>
    let x := a.toNat
    if x ≤ 0x7F then Char.ofNat x :: utf8Decode rest
    else if x < 0xC2 ∨ 0xF4 < x then replacement :: utf8Decode rest
    else
      match rest with
      | [] => [replacement]
      | b :: rest₂ =>
        if secondOk x b.toNat = false then replacement :: utf8Decode (b :: rest₂)
        else if x ≤ 0xDF then Char.ofNat ((x - 0xC0) * 64 + (b.toNat - 0x80)) :: utf8Decode rest₂
        else
          match rest₂ with
          | [] => [replacement]
          | c :: rest₃ =>
            if tailOk c.toNat = false then replacement :: utf8Decode (c :: rest₃)
            else if x ≤ 0xEF then
              Char.ofNat ((x - 0xE0) * 4096 + (b.toNat - 0x80) * 64 + (c.toNat - 0x80)) ::
                utf8Decode rest₃
            else
              match rest₃ with
              | [] => [replacement]
              | d :: rest₄ =>
                if tailOk d.toNat = false then replacement :: utf8Decode (d :: rest₄)
                else
                  Char.ofNat ((x - 0xF0) * 262144 + (b.toNat - 0x80) * 4096 +
                    (c.toNat - 0x80) * 64 + (d.toNat - 0x80)) :: utf8Decode rest₄

@[simp] theorem utf8Encode_nil : utf8Encode [] = [] := rfl

@[simp] theorem utf8Encode_cons (c : Char) (s : Text) :
    utf8Encode (c :: s) = String.utf8EncodeChar c ++ utf8Encode s := by
  simp [utf8Encode]

@[simp] theorem utf8Encode_append (s t : Text) :
    utf8Encode (s ++ t) = utf8Encode s ++ utf8Encode t := by
  simp [utf8Encode]

/-- The encoded forms, over the code point. -/
theorem utf8EncodeChar_eq (c : Char) :
    String.utf8EncodeChar c =
      if c.toNat ≤ 0x7F then [UInt8.ofNat c.toNat]
      else if c.toNat ≤ 0x7FF then
        [UInt8.ofNat (c.toNat / 64 % 0x20 + 0xC0), UInt8.ofNat (c.toNat % 0x40 + 0x80)]
      else if c.toNat ≤ 0xFFFF then
        [UInt8.ofNat (c.toNat / 4096 % 0x10 + 0xE0), UInt8.ofNat (c.toNat / 64 % 0x40 + 0x80),
          UInt8.ofNat (c.toNat % 0x40 + 0x80)]
      else
        [UInt8.ofNat (c.toNat / 262144 % 0x08 + 0xF0), UInt8.ofNat (c.toNat / 4096 % 0x40 + 0x80),
          UInt8.ofNat (c.toNat / 64 % 0x40 + 0x80), UInt8.ofNat (c.toNat % 0x40 + 0x80)] := rfl

theorem toNat_ofNat_of_lt {n : ℕ} (h : n < 256) : (UInt8.ofNat n).toNat = n := by
  rw [UInt8.toNat_ofNat']; exact Nat.mod_eq_of_lt h

theorem tailOk_of {b : ℕ} (h : 0x80 ≤ b) (h' : b ≤ 0xBF) : tailOk b = true := by
  unfold tailOk; simp [h, h']

/-- Each of the four encoded forms decodes to its character. -/
theorem utf8Decode_encodeChar (c : Char) (rest : Bytes) :
    utf8Decode (String.utf8EncodeChar c ++ rest) = c :: utf8Decode rest := by
  have hv : c.toNat < 0xD800 ∨ 0xDFFF < c.toNat ∧ c.toNat < 0x110000 := c.valid
  have hc : Char.ofNat c.toNat = c := Char.ofNat_toNat c
  rw [utf8EncodeChar_eq]
  generalize c.toNat = n at hv hc
  split_ifs with h1 h2 h3
  · rw [List.cons_append, List.nil_append, utf8Decode.eq_def]
    simp only [toNat_ofNat_of_lt (show n < 256 by omega)]
    rw [if_pos h1, hc]
  · have hs : secondOk (n / 64 % 0x20 + 0xC0) (n % 0x40 + 0x80) = true := by
      unfold secondOk
      split_ifs <;> simp only [Bool.and_eq_true, decide_eq_true_eq] <;> omega
    rw [List.cons_append, List.cons_append, List.nil_append, utf8Decode.eq_def]
    simp only [toNat_ofNat_of_lt (show n / 64 % 0x20 + 0xC0 < 256 by omega),
      toNat_ofNat_of_lt (show n % 0x40 + 0x80 < 256 by omega), hs, Bool.true_eq_false, if_false]
    rw [if_neg (by omega), if_neg (by omega), if_pos (by omega),
      show (n / 64 % 0x20 + 0xC0 - 0xC0) * 64 + (n % 0x40 + 0x80 - 0x80) = n by omega, hc]
  · have hs : secondOk (n / 4096 % 0x10 + 0xE0) (n / 64 % 0x40 + 0x80) = true := by
      unfold secondOk
      split_ifs <;> simp only [Bool.and_eq_true, decide_eq_true_eq] <;> omega
    rw [List.cons_append, List.cons_append, List.cons_append, List.nil_append, utf8Decode.eq_def]
    simp only [toNat_ofNat_of_lt (show n / 4096 % 0x10 + 0xE0 < 256 by omega),
      toNat_ofNat_of_lt (show n / 64 % 0x40 + 0x80 < 256 by omega),
      toNat_ofNat_of_lt (show n % 0x40 + 0x80 < 256 by omega), hs,
      tailOk_of (show 0x80 ≤ n % 0x40 + 0x80 by omega) (by omega), Bool.true_eq_false, if_false]
    rw [if_neg (by omega), if_neg (by omega), if_neg (by omega), if_pos (by omega),
      show (n / 4096 % 0x10 + 0xE0 - 0xE0) * 4096 + (n / 64 % 0x40 + 0x80 - 0x80) * 64 +
        (n % 0x40 + 0x80 - 0x80) = n by omega, hc]
  · have hs : secondOk (n / 262144 % 0x08 + 0xF0) (n / 4096 % 0x40 + 0x80) = true := by
      unfold secondOk
      split_ifs <;> simp only [Bool.and_eq_true, decide_eq_true_eq] <;> omega
    rw [List.cons_append, List.cons_append, List.cons_append, List.cons_append, List.nil_append,
      utf8Decode.eq_def]
    simp only [toNat_ofNat_of_lt (show n / 262144 % 0x08 + 0xF0 < 256 by omega),
      toNat_ofNat_of_lt (show n / 4096 % 0x40 + 0x80 < 256 by omega),
      toNat_ofNat_of_lt (show n / 64 % 0x40 + 0x80 < 256 by omega),
      toNat_ofNat_of_lt (show n % 0x40 + 0x80 < 256 by omega), hs,
      tailOk_of (show 0x80 ≤ n / 64 % 0x40 + 0x80 by omega) (by omega),
      tailOk_of (show 0x80 ≤ n % 0x40 + 0x80 by omega) (by omega), Bool.true_eq_false, if_false]
    rw [if_neg (by omega), if_neg (by omega), if_neg (by omega), if_neg (by omega),
      show (n / 262144 % 0x08 + 0xF0 - 0xF0) * 262144 + (n / 4096 % 0x40 + 0x80 - 0x80) * 4096 +
        (n / 64 % 0x40 + 0x80 - 0x80) * 64 + (n % 0x40 + 0x80 - 0x80) = n by omega, hc]

/-- The decoder undoes the encoder. -/
@[simp] theorem utf8Decode_encode (s : Text) : utf8Decode (utf8Encode s) = s := by
  induction s with
  | nil => rfl
  | cons c s ih => rw [utf8Encode_cons, utf8Decode_encodeChar, ih]

/-- A character takes at most three bytes for each UTF-16 unit. -/
theorem length_utf8EncodeChar_le (c : Char) :
    (String.utf8EncodeChar c).length ≤ 3 * charUnits c := by
  rw [utf8EncodeChar_eq]
  unfold charUnits
  split_ifs <;> simp only [List.length_cons, List.length_nil] <;> omega

/-- An ASCII character takes one byte. -/
theorem length_utf8EncodeChar_ascii {c : Char} (h : c.toNat ≤ 0x7F) :
    (String.utf8EncodeChar c).length = 1 := by
  rw [utf8EncodeChar_eq, if_pos h]; rfl

/-! ## UTF-16 -/

/-- The code units of a character. -/
def toUtf16 (c : Char) : List ℕ :=
  if c.toNat < 0x10000 then [c.toNat]
  else [0xD800 + (c.toNat - 0x10000) / 1024, 0xDC00 + (c.toNat - 0x10000) % 1024]

/-- The characters of a sequence of code units.  A lone surrogate reads as U+FFFD. -/
def ofUtf16 : List ℕ → Text
  | [] => []
  | [u] => [if 0xD800 ≤ u ∧ u ≤ 0xDFFF then replacement else Char.ofNat u]
  | u :: v :: r =>
    if 0xD800 ≤ u ∧ u ≤ 0xDBFF ∧ 0xDC00 ≤ v ∧ v ≤ 0xDFFF then
      Char.ofNat (0x10000 + (u - 0xD800) * 1024 + (v - 0xDC00)) :: ofUtf16 r
    else
      (if 0xD800 ≤ u ∧ u ≤ 0xDFFF then replacement else Char.ofNat u) :: ofUtf16 (v :: r)

theorem ofUtf16_append (c : Char) (r : List ℕ) : ofUtf16 (toUtf16 c ++ r) = c :: ofUtf16 r := by
  have hv : c.toNat < 0xD800 ∨ 0xDFFF < c.toNat ∧ c.toNat < 0x110000 := c.valid
  have hc : Char.ofNat c.toNat = c := Char.ofNat_toNat c
  unfold toUtf16
  generalize c.toNat = n at hv hc
  split_ifs with h
  · rw [List.cons_append, List.nil_append]
    rcases r with _ | ⟨v, r⟩
    · rw [ofUtf16, ofUtf16, if_neg (by omega), hc]
    · rw [ofUtf16, if_neg (by omega), if_neg (by omega), hc]
  · rw [List.cons_append, List.cons_append, List.nil_append, ofUtf16, if_pos (by omega),
      show 0x10000 + (0xD800 + (n - 0x10000) / 1024 - 0xD800) * 1024 +
        (0xDC00 + (n - 0x10000) % 1024 - 0xDC00) = n by omega, hc]

/-! ## Text decoding -/

/-- `TextDecoder.decode`, which drops a leading byte-order mark. -/
def textDecode (b : Bytes) : Text :=
  match utf8Decode b with
  | c :: s => if c.toNat = 0xFEFF then s else c :: s
  | [] => []

theorem textDecode_encode {c : Char} {s : Text} (h : c.toNat ≠ 0xFEFF) :
    textDecode (utf8Encode (c :: s)) = c :: s := by
  unfold textDecode
  rw [utf8Decode_encode]
  simp [h]

end Js
