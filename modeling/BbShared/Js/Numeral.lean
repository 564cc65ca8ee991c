import BbShared.Js.Json

/-!
# Numbers as `JSON.stringify` writes them

`JSON.parse` reads a literal as the nearest double, and `JSON.stringify` writes a double in its
shortest decimal digits, or as `null` if it is not finite.  Doubles are counted in units of the
smallest one, `2 ^ -1074`.

`double_print`: what is written for a finite number reads as the same double.
-/

namespace Js

namespace Number

/-! ## Reading -/

/-- The fraction of decimal digits and a power of ten. -/
def decimalFraction (d : ℕ × ℤ) : ℕ × ℕ :=
  if 0 ≤ d.2 then (d.1 * 10 ^ d.2.toNat, 1) else (d.1, 10 ^ (-d.2).toNat)

/-- The double nearest to a fraction, if it is finite. -/
def nearest (f : ℕ × ℕ) : Option ℕ :=
  let k := lastBit f.1 f.2
  if f.1 < (2 ^ 1024 - 2 ^ 970) * f.2 then
    some (roundHalfEven (f.1 * 2 ^ (-k).toNat) (f.2 * 2 ^ k.toNat) * 2 ^ (k + 1074).toNat)
  else none

/-- The value of a literal, if it is finite.  The two zeros are one value. -/
def double (n : Number) : Option ℤ :=
  (nearest n.fraction).map fun u : ℕ => if n.lit.head? = some '-' then -(u : ℤ) else (u : ℤ)

theorem fraction_eq (n : Number) : n.fraction = decimalFraction (magnitude (unsigned n.lit)) := rfl

/-! ## Shortest digits -/

/-- The number `n` with `10 ^ (n - 1) ≤ x < 10 ^ n`. -/
def decimalExponent (u : ℕ) : ℤ :=
  if 2 ^ 1074 ≤ u then (Nat.toDigits 10 (u / 2 ^ 1074)).length
  else 1 - (Nat.toDigits 10 (2 ^ 1074 / u)).length

/-- The decimals of `k` digits next to a double, the nearer one first. -/
def candidates (u k : ℕ) : List (ℕ × ℤ) :=
  let t := decimalExponent u - k
  let p := u * 10 ^ (-t).toNat
  let q := 2 ^ 1074 * 10 ^ t.toNat
  let digits (s : ℕ) : ℕ × ℤ := if s < 10 ^ k then (s, t) else (s / 10, t + 1)
  if 2 * (p % q) ≤ q then [digits (p / q), digits (p / q + 1)]
  else [digits (p / q + 1), digits (p / q)]

/-- The digits of a literal's double: as few as read back, at most 17; failing that, its own. -/
def shortest (n : Number) (u : ℕ) : ℕ × ℤ :=
  (((List.range 17).flatMap fun k => candidates u (k + 1)).find? fun d =>
    decide (0 < d.1) && decide (nearest (decimalFraction d) = some u)).getD
      (magnitude (unsigned n.lit))

theorem nearest_shortest {n : Number} {u : ℕ} (h : nearest n.fraction = some u) :
    nearest (decimalFraction (shortest n u)) = some u := by
  unfold shortest
  cases hf : ((List.range 17).flatMap fun k => candidates u (k + 1)).find? fun d =>
      decide (0 < d.1) && decide (nearest (decimalFraction d) = some u) with
  | none => exact h
  | some d =>
    have := List.find?_some hf
    simp only [Bool.and_eq_true, decide_eq_true_eq] at this
    exact this.2

theorem roundHalfEven_zero (q : ℕ) : roundHalfEven 0 q = 0 := by
  unfold roundHalfEven
  rw [Nat.zero_mod, Nat.zero_div]
  exact if_pos (by omega)

theorem nearest_zero {q u : ℕ} (h : nearest (0, q) = some u) : u = 0 := by
  unfold nearest at h
  simp only [Nat.zero_mul, roundHalfEven_zero] at h
  split_ifs at h
  exact (Option.some.inj h).symm

theorem shortest_pos {n : Number} {u : ℕ} (h : nearest n.fraction = some u) (hu : u ≠ 0) :
    0 < (shortest n u).1 := by
  refine Nat.pos_of_ne_zero fun h0 => hu ?_
  have hs := nearest_shortest h
  generalize shortest n u = d at h0 hs
  obtain ⟨s, t⟩ := d
  obtain rfl : s = 0 := h0
  unfold decimalFraction at hs
  simp only [Nat.zero_mul] at hs
  split_ifs at hs
  · exact nearest_zero hs
  · exact nearest_zero hs

/-! ## Layout -/

/-- The exponent part of a numeral. -/
def exponentText : Option ℤ → Text
  | none => []
  | some e => 'e' :: (if e < 0 then '-' else '+') :: Nat.toDigits 10 e.natAbs

/-- A numeral of an integer part, a fraction and an exponent. -/
def numeral (int frac : Text) (e : Option ℤ) : Text :=
  int ++ ((if frac = [] then [] else '.' :: frac) ++ exponentText e)

/-- `Number::toString` of the number with these decimal digits. -/
def decimal (d : ℕ × ℤ) : Text :=
  let ds := Nat.toDigits 10 d.1
  let n := ds.length + d.2
  if -6 < n ∧ n ≤ 21 then
    if 0 ≤ d.2 then numeral (ds ++ List.replicate d.2.toNat '0') [] none
    else if 0 < n then numeral (ds.take n.toNat) (ds.drop n.toNat) none
    else numeral ['0'] (List.replicate (-n).toNat '0' ++ ds) none
  else numeral (ds.take 1) (ds.drop 1) (some (n - 1))

/-- What a numeral has after its integer part. -/
def numeralTail (frac : Text) (e : Option ℤ) : Text :=
  (if frac = [] then [] else '.' :: frac) ++ exponentText e

section Layout

variable {int frac : Text} {e : Option ℤ}

theorem takeWhile_digits {ds rest : Text} (h : ∀ c ∈ ds, c.isDigit = true)
    (hr : rest.takeWhile Char.isDigit = []) : (ds ++ rest).takeWhile Char.isDigit = ds := by
  rw [List.takeWhile_append_of_pos h, hr, List.append_nil]

theorem dropWhile_digits {ds rest : Text} (h : ∀ c ∈ ds, c.isDigit = true)
    (hr : rest.takeWhile Char.isDigit = []) : (ds ++ rest).dropWhile Char.isDigit = rest := by
  have hall := List.takeWhile_append_dropWhile (p := Char.isDigit) (l := ds ++ rest)
  rw [takeWhile_digits h hr] at hall
  exact List.append_cancel_left hall

theorem takeWhile_exponentText (e : Option ℤ) : (exponentText e).takeWhile Char.isDigit = [] := by
  cases e <;> rfl

theorem takeWhile_numeralTail (frac : Text) (e : Option ℤ) :
    (numeralTail frac e).takeWhile Char.isDigit = [] := by
  unfold numeralTail
  split_ifs
  · exact takeWhile_exponentText e
  · rfl

theorem exponentOk_exponentText (e : Option ℤ) : exponentOk (exponentText e) = true := by
  cases e with
  | none => rfl
  | some e =>
    have hd : (Nat.toDigits 10 e.natAbs).all Char.isDigit = true :=
      List.all_eq_true.mpr fun _ hc => mem_toDigits hc
    have hne : (Nat.toDigits 10 e.natAbs != []) = true := bne_iff_ne.mpr Nat.toDigits_ne_nil
    unfold exponentText exponentOk
    by_cases he : e < 0
    · simp [if_pos he, hd, hne]
    · simp [if_neg he, hd, hne]

theorem exponentValue_exponentText (e : Option ℤ) : exponentValue (exponentText e) = e.getD 0 := by
  have hd : ∀ n : ℕ, digitsValue (Nat.toDigits 10 n) = n := fun n => Nat.ofDigitChars_ten_toDigits
  cases e with
  | none => rfl
  | some e =>
    unfold exponentText
    simp only
    by_cases he : e < 0
    · rw [if_pos he]
      show -(digitsValue (Nat.toDigits 10 e.natAbs) : ℤ) = e
      rw [hd]
      omega
    · rw [if_neg he]
      show (digitsValue (Nat.toDigits 10 e.natAbs) : ℤ) = e
      rw [hd]
      omega

theorem fractionOk_numeralTail (hfrac : ∀ c ∈ frac, c.isDigit = true) (e : Option ℤ) :
    fractionOk (numeralTail frac e) = true := by
  have hexp := exponentOk_exponentText e
  unfold numeralTail
  by_cases hf : frac = []
  · rw [if_pos hf]
    cases e with
    | none => rfl
    | some e => exact hexp
  · rw [if_neg hf]
    show ((frac ++ exponentText e).takeWhile Char.isDigit != [] &&
      exponentOk ((frac ++ exponentText e).dropWhile Char.isDigit)) = true
    rw [takeWhile_digits hfrac (takeWhile_exponentText e),
      dropWhile_digits hfrac (takeWhile_exponentText e), hexp, bne_iff_ne.mpr hf]
    rfl

theorem unsigned_digits {ds rest : Text} (h : ∀ c ∈ ds, c.isDigit = true) (hne : ds ≠ []) :
    unsigned (ds ++ rest) = ds ++ rest := by
  cases ds with
  | nil => exact absurd rfl hne
  | cons c ds =>
    unfold unsigned
    split
    · rename_i hc
      obtain rfl : c = '-' := (List.cons.inj hc).1
      exact absurd (h '-' List.mem_cons_self) (by decide)
    · rfl

/-- The characters of a numeral. -/
theorem all_numeral (hint : ∀ c ∈ int, c.isDigit = true) (hfrac : ∀ c ∈ frac, c.isDigit = true)
    (e : Option ℤ) : ∀ c ∈ numeral int frac e, isNumberChar c = true := by
  have hexp : ∀ c ∈ exponentText e, isNumberChar c = true := by
    intro c hc
    cases e with
    | none => cases hc
    | some e =>
      rcases List.mem_cons.mp hc with rfl | hc
      · decide
      rcases List.mem_cons.mp hc with rfl | hc
      · split_ifs <;> decide
      · exact isNumberChar_of_isDigit (mem_toDigits hc)
  intro c hc
  rcases List.mem_append.mp hc with hc | hc
  · exact isNumberChar_of_isDigit (hint c hc)
  rcases List.mem_append.mp hc with hc | hc
  · split_ifs at hc
    · cases hc
    · rcases List.mem_cons.mp hc with rfl | hc
      · decide
      · exact isNumberChar_of_isDigit (hfrac c hc)
  · exact hexp c hc

theorem isJsonNumber_numeral (hint : ∀ c ∈ int, c.isDigit = true) (hne : int ≠ [])
    (hhead : int = ['0'] ∨ int.head? ≠ some '0') (hfrac : ∀ c ∈ frac, c.isDigit = true)
    (e : Option ℤ) : isJsonNumber (numeral int frac e) = true := by
  have htail := takeWhile_numeralTail frac e
  unfold isJsonNumber
  rw [show numeral int frac e = int ++ numeralTail frac e from rfl, unsigned_digits hint hne]
  simp only [takeWhile_digits hint htail, dropWhile_digits hint htail, Bool.and_eq_true,
    List.all_eq_true, bne_iff_ne, ne_eq, Bool.or_eq_true, beq_iff_eq]
  exact ⟨⟨⟨all_numeral hint hfrac e, hne⟩, hhead⟩, fractionOk_numeralTail hfrac e⟩

theorem magnitude_numeral (hint : ∀ c ∈ int, c.isDigit = true) (hne : int ≠ [])
    (hfrac : ∀ c ∈ frac, c.isDigit = true) (e : Option ℤ) :
    magnitude (unsigned (numeral int frac e)) =
      (digitsValue (int ++ frac), e.getD 0 - frac.length) := by
  have htail := takeWhile_numeralTail frac e
  unfold magnitude
  rw [show numeral int frac e = int ++ numeralTail frac e from rfl, unsigned_digits hint hne,
    takeWhile_digits hint htail, dropWhile_digits hint htail]
  unfold numeralTail
  by_cases hf : frac = []
  · rw [if_pos hf, hf, List.append_nil, List.length_nil, Nat.cast_zero, sub_zero,
      ← exponentValue_exponentText]
    cases e <;> rfl
  · rw [if_neg hf]
    show (digitsValue (int ++ (frac ++ exponentText e).takeWhile Char.isDigit),
      exponentValue ((frac ++ exponentText e).dropWhile Char.isDigit) -
        ((frac ++ exponentText e).takeWhile Char.isDigit).length) = _
    rw [takeWhile_digits hfrac (takeWhile_exponentText e),
      dropWhile_digits hfrac (takeWhile_exponentText e), exponentValue_exponentText]

end Layout

/-! ## Writing -/

theorem isDigit_zeros {n : ℕ} {c : Char} (h : c ∈ List.replicate n '0') : c.isDigit = true := by
  rw [List.eq_of_mem_replicate h]
  decide

/-- A decimal is a number, and reads as its digits. -/
theorem decimal_spec {d : ℕ × ℤ} (hd : 0 < d.1) :
    isJsonNumber (decimal d) = true ∧ unsigned (decimal d) = decimal d ∧
      decimalFraction (magnitude (unsigned (decimal d))) = decimalFraction d := by
  obtain ⟨s, t⟩ := d
  have hdigits : ∀ c ∈ Nat.toDigits 10 s, c.isDigit = true := fun _ hc => mem_toDigits hc
  have hvalue : digitsValue (Nat.toDigits 10 s) = s := Nat.ofDigitChars_ten_toDigits
  have hhead := head_toDigits hd
  have hlen : 0 < (Nat.toDigits 10 s).length := List.length_pos_iff.mpr Nat.toDigits_ne_nil
  unfold decimal
  simp only
  generalize hds : Nat.toDigits 10 s = ds at hdigits hvalue hhead hlen
  have htake : ∀ {n : ℕ}, 0 < n → ds.take n ≠ [] ∧ (ds.take n).head? = ds.head? := by
    intro n hn
    cases ds with
    | nil => exact absurd hlen (lt_irrefl 0)
    | cons c ds =>
      obtain ⟨m, rfl⟩ := Nat.exists_eq_succ_of_ne_zero hn.ne'
      exact ⟨by simp, by simp⟩
  have htakeDigits : ∀ n, ∀ c ∈ ds.take n, c.isDigit = true := fun n c hc =>
    hdigits c (List.mem_of_mem_take hc)
  have hdropDigits : ∀ n, ∀ c ∈ ds.drop n, c.isDigit = true := fun n c hc =>
    hdigits c (List.mem_of_mem_drop hc)
  split_ifs with hn ht hpos
  · -- Digits and zeros after them.
    have hall : ∀ c ∈ ds ++ List.replicate t.toNat '0', c.isDigit = true := by
      intro c hc
      rcases List.mem_append.mp hc with hc | hc
      · exact hdigits c hc
      · exact isDigit_zeros hc
    have hne : ds ++ List.replicate t.toNat '0' ≠ [] := by
      intro h0
      rw [(List.append_eq_nil_iff.mp h0).1] at hlen
      exact absurd hlen (lt_irrefl 0)
    refine ⟨isJsonNumber_numeral hall hne (.inr ?_) (by simp) none, unsigned_digits hall hne, ?_⟩
    · rwa [List.head?_append_of_ne_nil _ (List.length_pos_iff.mp hlen)]
    · rw [magnitude_numeral hall hne (by simp) none, List.append_nil]
      have hzeros : digitsValue (ds ++ List.replicate t.toNat '0') = s * 10 ^ t.toNat := by
        unfold digitsValue at hvalue ⊢
        rw [Nat.ofDigitChars_append, hvalue, Nat.ofDigitChars_replicate_zero, Nat.mul_comm]
      rw [hzeros]
      unfold decimalFraction
      simp [ht]
  · -- A point among the digits.
    have hn' : 0 < ((ds.length : ℤ) + t).toNat := by omega
    obtain ⟨hne, hh⟩ := htake hn'
    refine ⟨isJsonNumber_numeral (htakeDigits _) hne (.inr (hh ▸ hhead)) (hdropDigits _) none,
      unsigned_digits (htakeDigits _) hne, ?_⟩
    rw [magnitude_numeral (htakeDigits _) hne (hdropDigits _) none, List.take_append_drop, hvalue,
      List.length_drop]
    congr 2
    simp only [Option.getD_none]
    omega
  · -- Zeros before the digits.
    have hall : ∀ c ∈ List.replicate (-((ds.length : ℤ) + t)).toNat '0' ++ ds,
        c.isDigit = true := by
      intro c hc
      rcases List.mem_append.mp hc with hc | hc
      · exact isDigit_zeros hc
      · exact hdigits c hc
    have hzero : ∀ c ∈ ['0'], c.isDigit = true := by decide
    refine ⟨isJsonNumber_numeral hzero (by simp) (.inl rfl) hall none,
      unsigned_digits hzero (by simp), ?_⟩
    rw [magnitude_numeral hzero (by simp) hall none, List.length_append, List.length_replicate]
    have hzeros : digitsValue (['0'] ++ (List.replicate (-((ds.length : ℤ) + t)).toNat '0' ++ ds))
        = s := by
      unfold digitsValue at hvalue ⊢
      rw [← List.append_assoc, ← List.replicate_one, List.replicate_append_replicate,
        Nat.ofDigitChars_append, Nat.ofDigitChars_replicate_zero, Nat.mul_zero, hvalue]
    rw [hzeros]
    congr 2
    simp only [Option.getD_none]
    omega
  · -- One digit before the point, and an exponent.
    obtain ⟨hne, hh⟩ := htake Nat.one_pos
    refine ⟨isJsonNumber_numeral (htakeDigits _) hne (.inr (hh ▸ hhead)) (hdropDigits _) _,
      unsigned_digits (htakeDigits _) hne, ?_⟩
    rw [magnitude_numeral (htakeDigits _) hne (hdropDigits _) _, List.take_append_drop, hvalue,
      List.length_drop]
    congr 2
    simp only [Option.getD_some]
    omega

/-- A number of its text, or `null`. -/
def ofText (s : Text) : Json := if h : isJsonNumber s = true then .num ⟨s, h⟩ else .null

/-- `JSON.stringify` of the double of a literal. -/
def print (n : Number) : Json :=
  match nearest n.fraction with
  | none => .null
  | some u =>
    if u = 0 then .num (ofNat 0)
    else ofText ((if n.lit.head? = some '-' then ['-'] else []) ++ decimal (shortest n u))

theorem nearest_ofNat_zero : nearest (ofNat 0).fraction = some 0 := by
  rw [fraction_ofNat]
  unfold nearest
  simp only [Nat.zero_mul, roundHalfEven_zero, Nat.mul_one]
  exact if_pos (by decide +kernel)

theorem isJsonNumber_neg {s : Text} (h : isJsonNumber s = true) (hs : unsigned s = s) :
    isJsonNumber ('-' :: s) = true := by
  unfold isJsonNumber at h ⊢
  rw [show unsigned ('-' :: s) = s from rfl, List.all_cons, show isNumberChar '-' = true from rfl,
    Bool.true_and]
  rwa [hs] at h

theorem head_ne_minus {s : Text} (hs : unsigned s = s) : s.head? ≠ some '-' := by
  intro hhead
  cases s with
  | nil => cases hhead
  | cons c s =>
    obtain rfl : c = '-' := Option.some.inj hhead
    exact absurd (congrArg List.length hs) (Nat.ne_of_lt (Nat.lt_succ_self s.length))

/-- What is written for a finite number reads as the same double; any other is written as `null`. -/
theorem double_print (n : Number) :
    n.double = none ∧ n.print = .null ∨
      n.double ≠ none ∧ ∃ m : Number, n.print = .num m ∧ m.double = n.double := by
  cases hf : nearest n.fraction with
  | none =>
    refine .inl ⟨?_, ?_⟩
    · unfold double
      rw [hf]
      rfl
    · unfold print
      rw [hf]
  | some u =>
    refine .inr ⟨by unfold double; rw [hf]; simp, ?_⟩
    unfold print
    rw [hf]
    by_cases hu : u = 0
    · refine ⟨ofNat 0, if_pos hu, ?_⟩
      unfold double
      rw [nearest_ofNat_zero, hf, hu]
      simp
    · obtain ⟨hjson, hunsigned, hfraction⟩ := decimal_spec (shortest_pos hf hu)
      have hread := nearest_shortest hf
      simp only [if_neg hu]
      generalize decimal (shortest n u) = s at hjson hunsigned hfraction
      by_cases hneg : n.lit.head? = some '-'
      · have hj := isJsonNumber_neg hjson hunsigned
        refine ⟨⟨'-' :: s, hj⟩, ?_, ?_⟩
        · rw [if_pos hneg]
          exact dif_pos hj
        · rw [hunsigned] at hfraction
          have hm : nearest (Number.mk ('-' :: s) hj).fraction = some u := by
            rw [fraction_eq]
            show nearest (decimalFraction (magnitude s)) = some u
            rw [hfraction, hread]
          unfold double
          rw [hm, hf, Option.map_some, Option.map_some, if_pos hneg]
          rfl
      · refine ⟨⟨s, hjson⟩, ?_, ?_⟩
        · rw [if_neg hneg]
          exact dif_pos hjson
        · have hm : nearest (Number.mk s hjson).fraction = some u := by
            rw [fraction_eq]
            exact (congrArg nearest hfraction).trans hread
          unfold double
          rw [hm, hf, Option.map_some, Option.map_some, if_neg hneg,
            if_neg (head_ne_minus hunsigned)]

/-- The number 1 is printed as it is. -/
theorem print_one : (ofNat 1).print = .num (ofNat 1) := by
  obtain ⟨u, hnearest, hne, hdecimal⟩ : ∃ u, nearest (ofNat 1).fraction = some u ∧ u ≠ 0 ∧
      decimal (shortest (ofNat 1) u) = ['1'] :=
    ⟨2 ^ 1074, by decide +kernel, by positivity, by decide +kernel⟩
  unfold print
  rw [hnearest]
  simp only
  rw [if_neg hne, if_neg (head_ofNat 1), List.nil_append, hdecimal]
  rfl

end Number

end Js
