import BbShared.Js.Utf8

/-!
# Base64

`Buffer.toString("base64")` and `Buffer.from(text, "base64")`.  The decoder takes both alphabets
and skips every character outside them, the padding included.
-/

namespace Js

def base64Alphabet : Text :=
  "ABCDEFGHIJKLMNOPQRSTUVWXYZabcdefghijklmnopqrstuvwxyz0123456789+/".toList

/-- The character of a six-bit value. -/
def base64Char (n : ℕ) : Char := base64Alphabet.getD n 'A'

/-- The six bits of a character, in either alphabet. -/
def base64Value (c : Char) : Option ℕ :=
  if c.isUpper then some (c.toNat - 65)
  else if c.isLower then some (c.toNat - 71)
  else if c.isDigit then some (c.toNat + 4)
  else if c = '+' ∨ c = '-' then some 62
  else if c = '/' ∨ c = '_' then some 63
  else none

/-- Three bytes to four characters, the last group padded. -/
def base64 : Bytes → Text
  | a :: b :: c :: rest =>
    let n := (a.toNat * 256 + b.toNat) * 256 + c.toNat
    base64Char (n / 262144) :: base64Char (n / 4096 % 64) :: base64Char (n / 64 % 64) ::
      base64Char (n % 64) :: base64 rest
  | [a, b] =>
    let n := (a.toNat * 256 + b.toNat) * 4
    [base64Char (n / 4096), base64Char (n / 64 % 64), base64Char (n % 64), '=']
  | [a] =>
    let n := a.toNat * 16
    [base64Char (n / 64), base64Char (n % 64), '=', '=']
  | [] => []

/-- Four six-bit values to three bytes; a single one left over is dropped. -/
def ofSextets : List ℕ → Bytes
  | a :: b :: c :: d :: rest =>
    let n := ((a * 64 + b) * 64 + c) * 64 + d
    UInt8.ofNat (n / 65536) :: UInt8.ofNat (n / 256 % 256) :: UInt8.ofNat (n % 256) ::
      ofSextets rest
  | [a, b, c] =>
    let n := (a * 64 + b) * 64 + c
    [UInt8.ofNat (n / 1024), UInt8.ofNat (n / 4 % 256)]
  | [a, b] => [UInt8.ofNat ((a * 64 + b) / 16)]
  | _ => []

/-- `Buffer.from(text, "base64")`. -/
def ofBase64 (s : Text) : Bytes := ofSextets (s.filterMap base64Value)

theorem base64Value_base64Char : ∀ n < 64, base64Value (base64Char n) = some n := by
  decide +kernel

theorem isSpace_base64Char : ∀ n < 64, isSpace (base64Char n) = false := by decide +kernel

theorem ofNat_eq {n : ℕ} {b : UInt8} (h : n = b.toNat) : UInt8.ofNat n = b := by
  rw [h]; exact UInt8.ofNat_toNat

/-- **Round trip.** Decoding undoes encoding. -/
theorem ofBase64_base64 (bytes : Bytes) : ofBase64 (base64 bytes) = bytes := by
  unfold ofBase64
  induction bytes using base64.induct with
  | case1 a b c rest ih =>
    have ha := a.toNat_lt; have hb := b.toNat_lt; have hc := c.toNat_lt
    rw [base64]
    simp only [List.filterMap_cons, base64Value_base64Char _ (show
        ((a.toNat * 256 + b.toNat) * 256 + c.toNat) / 262144 < 64 by omega),
      base64Value_base64Char _ (Nat.mod_lt _ (show 0 < 64 by omega)), ofSextets, ih]
    rw [ofNat_eq (b := a) (by omega), ofNat_eq (b := b) (by omega), ofNat_eq (b := c) (by omega)]
  | case2 a b =>
    have ha := a.toNat_lt; have hb := b.toNat_lt
    rw [base64]
    simp only [List.filterMap_cons, base64Value_base64Char _ (show
        (a.toNat * 256 + b.toNat) * 4 / 4096 < 64 by omega),
      base64Value_base64Char _ (Nat.mod_lt _ (show 0 < 64 by omega)), List.filterMap_nil,
      show base64Value '=' = none from by decide, ofSextets]
    rw [ofNat_eq (b := a) (by omega), ofNat_eq (b := b) (by omega)]
  | case3 a =>
    have ha := a.toNat_lt
    rw [base64]
    simp only [List.filterMap_cons, base64Value_base64Char _ (show
        a.toNat * 16 / 64 < 64 by omega),
      base64Value_base64Char _ (Nat.mod_lt _ (show 0 < 64 by omega)), List.filterMap_nil,
      show base64Value '=' = none from by decide, ofSextets]
    rw [ofNat_eq (b := a) (by omega)]
  | case4 => rfl

/-- An encoding holds no white space. -/
theorem isSpace_of_mem_base64 {bytes : Bytes} {ch : Char} (h : ch ∈ base64 bytes) :
    isSpace ch = false := by
  have hmod : ∀ m, isSpace (base64Char (m % 64)) = false := fun m =>
    isSpace_base64Char _ (Nat.mod_lt _ (by omega))
  induction bytes using base64.induct with
  | case1 a b c rest ih =>
    have ha := a.toNat_lt; have hb := b.toNat_lt; have hc := c.toNat_lt
    rw [base64] at h
    simp only [List.mem_cons] at h
    rcases h with rfl | rfl | rfl | rfl | h
    · exact isSpace_base64Char _ (by omega)
    · exact hmod _
    · exact hmod _
    · exact hmod _
    · exact ih h
  | case2 a b =>
    have ha := a.toNat_lt; have hb := b.toNat_lt
    rw [base64] at h
    simp only [List.mem_cons, List.not_mem_nil, or_false] at h
    rcases h with rfl | rfl | rfl | rfl
    · exact isSpace_base64Char _ (by omega)
    · exact hmod _
    · exact hmod _
    · rfl
  | case3 a =>
    have ha := a.toNat_lt
    rw [base64] at h
    simp only [List.mem_cons, List.not_mem_nil, or_false] at h
    rcases h with rfl | rfl | rfl | rfl
    · exact isSpace_base64Char _ (by omega)
    · exact hmod _
    · rfl
    · rfl
  | case4 => rw [base64] at h; simp at h

theorem base64_ne_nil {bytes : Bytes} (h : bytes ≠ []) : base64 bytes ≠ [] := by
  cases bytes using base64.induct with
  | case4 => exact absurd rfl h
  | _ => rw [base64]; simp

end Js
