import BbShared.Js.Utf8

/-!
# JSON

JSON values, `JSON.stringify` and `JSON.parse`.  A number is kept as its literal, with the value
functions a program needs (`toInt?`, `isFinite`).  An object is its member list in source order,
and a repeated name reads as its last member.

`parse_stringify`: parsing the text of a value gives the value back.
-/

namespace Js

/-! ## Numbers -/

/-- The characters of a JSON number. -/
def isNumberChar (c : Char) : Bool :=
  c.isDigit || c == '-' || c == '+' || c == '.' || c == 'e' || c == 'E'

/-- The rest of a number from its exponent. -/
def exponentOk : Text → Bool
  | [] => true
  | c :: r =>
    let d := match r with
      | '+' :: d => d
      | '-' :: d => d
      | d => d
    (c == 'e' || c == 'E') && d != [] && d.all Char.isDigit

/-- The rest of a number from its fraction. -/
def fractionOk : Text → Bool
  | '.' :: r => r.takeWhile Char.isDigit != [] && exponentOk (r.dropWhile Char.isDigit)
  | r => exponentOk r

/-- A number without its sign. -/
def unsigned (s : Text) : Text :=
  match s with
  | '-' :: r => r
  | r => r

/-- The grammar of a JSON number. -/
def isJsonNumber (s : Text) : Bool :=
  let u := unsigned s
  let int := u.takeWhile Char.isDigit
  s.all isNumberChar && int != [] && (int == ['0'] || int.head? != some '0') &&
    fractionOk (u.dropWhile Char.isDigit)

/-- A JSON number, as its literal. -/
structure Number where
  lit : Text
  valid : isJsonNumber lit = true
  deriving DecidableEq

/-- The value of a digit string. -/
def digitsValue (ds : Text) : ℕ := Nat.ofDigitChars 10 ds 0

/-- The value of an exponent part. -/
def exponentValue : Text → ℤ
  | _ :: '-' :: d => -(digitsValue d : ℤ)
  | _ :: '+' :: d => digitsValue d
  | _ :: d => digitsValue d
  | [] => 0

/-- The mantissa and the power of ten of an unsigned number. -/
def magnitude (u : Text) : ℕ × ℤ :=
  let int := u.takeWhile Char.isDigit
  match u.dropWhile Char.isDigit with
  | '.' :: r =>
    let frac := r.takeWhile Char.isDigit
    (digitsValue (int ++ frac), exponentValue (r.dropWhile Char.isDigit) - frac.length)
  | r => (digitsValue int, exponentValue r)

namespace Number

/-- The magnitude as a fraction. -/
def fraction (n : Number) : ℕ × ℕ :=
  let (m, e) := magnitude (unsigned n.lit)
  if 0 ≤ e then (m * 10 ^ e.toNat, 1) else (m, 10 ^ (-e).toNat)

/-- The value rounds to a finite double. -/
def isFinite (n : Number) : Bool :=
  let (p, q) := n.fraction
  p < (2 ^ 1024 - 2 ^ 970) * q

/-- The nearest integer to a fraction, the even one of two. -/
def roundHalfEven (p q : ℕ) : ℕ :=
  if 2 * (p % q) < q ∨ 2 * (p % q) = q ∧ p / q % 2 = 0 then p / q else p / q + 1

/-- The exponent of the last bit of the double nearest to a fraction. -/
def lastBit (p q : ℕ) : ℤ :=
  let k : ℤ := Nat.log2 p - Nat.log2 q
  let k := if p * 2 ^ (-k).toNat < q * 2 ^ k.toNat then k - 1 else k
  max (k - 52) (-1074)

/-- The double nearest to a fraction, where it is an integer. -/
def roundToInt? (p q : ℕ) : Option ℕ :=
  if p % q = 0 ∧ p / q ≤ 2 ^ 53 then some (p / q) else
    let k := lastBit p q
    let m := roundHalfEven (p * 2 ^ (-k).toNat) (q * 2 ^ k.toNat)
    if 0 ≤ k then some (m * 2 ^ k.toNat)
    else if m % 2 ^ (-k).toNat = 0 then some (m / 2 ^ (-k).toNat) else none

/-- The value of the literal as a double, where it is an integer. -/
def toInt? (n : Number) : Option ℤ :=
  let (p, q) := n.fraction
  if n.isFinite then
    (roundToInt? p q).map fun m : ℕ => if n.lit.head? = some '-' then -(m : ℤ) else (m : ℤ)
  else none

theorem isNumberChar_of_isDigit {c : Char} (h : c.isDigit = true) : isNumberChar c = true := by
  unfold isNumberChar; simp [h]

theorem mem_toDigits {n : ℕ} {c : Char} (h : c ∈ Nat.toDigits 10 n) : c.isDigit = true :=
  Nat.isDigit_of_mem_toDigits (by decide) (by decide) h

theorem takeWhile_toDigits (n : ℕ) :
    (Nat.toDigits 10 n).takeWhile Char.isDigit = Nat.toDigits 10 n :=
  List.takeWhile_eq_self_iff.mpr fun _ h => mem_toDigits h

theorem dropWhile_toDigits (n : ℕ) : (Nat.toDigits 10 n).dropWhile Char.isDigit = [] :=
  List.dropWhile_eq_nil_iff.mpr fun _ h => mem_toDigits h

theorem head_toDigits {n : ℕ} (h : 0 < n) : (Nat.toDigits 10 n).head? ≠ some '0' := by
  induction n using Nat.strongRecOn with
  | ind n ih =>
    rcases Nat.lt_or_ge n 10 with hn | hn
    · rw [Nat.toDigits_of_lt_base hn]
      interval_cases n <;> simp [Nat.digitChar]
    · rw [Nat.toDigits_of_base_le (by decide) hn]
      have hne := @Nat.toDigits_ne_nil (n / 10) 10
      rw [List.head?_append_of_ne_nil _ hne]
      exact ih (n / 10) (Nat.div_lt_self h (by decide)) (by omega)

theorem unsigned_toDigits (n : ℕ) : unsigned (Nat.toDigits 10 n) = Nat.toDigits 10 n := by
  unfold unsigned
  split
  · rename_i r hr
    have := mem_toDigits (n := n) (c := '-') (by rw [hr]; simp)
    simp at this
  · rfl

theorem isJsonNumber_toDigits (n : ℕ) : isJsonNumber (Nat.toDigits 10 n) = true := by
  unfold isJsonNumber
  simp only [unsigned_toDigits, takeWhile_toDigits, dropWhile_toDigits, Bool.and_eq_true,
    List.all_eq_true, bne_iff_ne, ne_eq, Bool.or_eq_true, beq_iff_eq]
  refine ⟨⟨⟨fun c h => isNumberChar_of_isDigit (mem_toDigits h), Nat.toDigits_ne_nil⟩, ?_⟩, rfl⟩
  rcases Nat.eq_zero_or_pos n with rfl | hn
  · exact Or.inl (Nat.toDigits_zero 10)
  · exact Or.inr (head_toDigits hn)

/-- A natural number, in decimal. -/
def ofNat (n : ℕ) : Number := ⟨Nat.toDigits 10 n, isJsonNumber_toDigits n⟩

theorem fraction_ofNat (n : ℕ) : (ofNat n).fraction = (n, 1) := by
  have hm : magnitude (unsigned (Nat.toDigits 10 n)) = (n, 0) := by
    unfold magnitude
    rw [unsigned_toDigits, takeWhile_toDigits, dropWhile_toDigits]
    simp [digitsValue, exponentValue]
  unfold fraction ofNat
  simp only [hm]
  simp

theorem head_ofNat (n : ℕ) : (ofNat n).lit.head? ≠ some '-' := by
  intro hh
  have := mem_toDigits (List.mem_of_head? hh)
  simp at this

theorem isFinite_ofNat {n : ℕ} (h : n ≤ 2 ^ 53) : (ofNat n).isFinite = true := by
  unfold isFinite
  rw [fraction_ofNat]
  simp only [mul_one, decide_eq_true_eq]
  calc n ≤ 2 ^ 53 := h
    _ < 2 ^ 1024 - 2 ^ 970 := by decide +kernel

/-- A decimal literal denotes its number, while the number has a double. -/
theorem toInt?_ofNat {n : ℕ} (h : n ≤ 2 ^ 53) : (ofNat n).toInt? = some (n : ℤ) := by
  have hh := head_ofNat n
  have hfin := isFinite_ofNat h
  have hround : roundToInt? n 1 = some n := by
    unfold roundToInt?
    rw [if_pos ⟨Nat.mod_one n, by rwa [Nat.div_one]⟩, Nat.div_one]
  unfold toInt?
  rw [fraction_ofNat]
  simp only [hfin, if_true, hround, Option.map_some, if_neg hh]

theorem lit_ne_nil (n : Number) : n.lit ≠ [] := by
  intro h
  have := n.valid
  rw [h] at this
  exact absurd this (by decide)

theorem all_isNumberChar (n : Number) : ∀ c ∈ n.lit, isNumberChar c = true := by
  have := n.valid
  unfold isJsonNumber at this
  simp only [Bool.and_eq_true, List.all_eq_true] at this
  exact this.1.1.1

end Number

/-! ## Values -/

/-- A JSON value. -/
inductive Json where
  | null
  | bool (b : Bool)
  | num (n : Number)
  | str (s : Text)
  | arr (l : List Json)
  | obj (l : List (Text × Json))

namespace Json

/-- The member of an object under a name. -/
def member (k : Text) : Json → Option Json
  | obj l => (l.reverse.find? fun e => e.1 = k).map Prod.snd
  | _ => none

/-- The text of a string value. -/
def str? : Json → Option Text
  | str s => some s
  | _ => none

/-- The elements of an array value. -/
def arr? : Json → Option (List Json)
  | arr l => some l
  | _ => none

/-! ## Printing -/

/-- A lower-case hexadecimal digit. -/
def hexDigit (n : ℕ) : Char := Nat.digitChar n

/-- One character of a quoted string. -/
def escape (c : Char) : Text :=
  if c = '"' then ['\\', '"']
  else if c = '\\' then ['\\', '\\']
  else if c.toNat = 8 then ['\\', 'b']
  else if c.toNat = 9 then ['\\', 't']
  else if c.toNat = 10 then ['\\', 'n']
  else if c.toNat = 12 then ['\\', 'f']
  else if c.toNat = 13 then ['\\', 'r']
  else if c.toNat < 0x20 then
    ['\\', 'u', '0', '0', hexDigit (c.toNat / 16), hexDigit (c.toNat % 16)]
  else [c]

/-- A quoted string. -/
def quote (s : Text) : Text := '"' :: (s.flatMap escape ++ ['"'])

mutual

/-- `JSON.stringify`. -/
def stringify : Json → Text
  | null => ['n', 'u', 'l', 'l']
  | bool true => ['t', 'r', 'u', 'e']
  | bool false => ['f', 'a', 'l', 's', 'e']
  | num n => n.lit
  | str s => quote s
  | arr l => '[' :: (stringifyElems l ++ [']'])
  | obj l => '\x7b' :: (stringifyMembers l ++ ['\x7d'])

def stringifyElems : List Json → Text
  | [] => []
  | j :: l => stringify j ++ stringifyElemsTail l

def stringifyElemsTail : List Json → Text
  | [] => []
  | j :: l => ',' :: (stringify j ++ stringifyElemsTail l)

def stringifyMembers : List (Text × Json) → Text
  | [] => []
  | (k, j) :: l => quote k ++ ':' :: (stringify j ++ stringifyMembersTail l)

def stringifyMembersTail : List (Text × Json) → Text
  | [] => []
  | (k, j) :: l => ',' :: (quote k ++ ':' :: (stringify j ++ stringifyMembersTail l))

end

/-! ## Parsing -/

/-- JSON white space. -/
def isWs (c : Char) : Bool := c == ' ' || c == '\t' || c == '\n' || c == '\r'

def skipWs (s : Text) : Text := s.dropWhile isWs

/-- The code unit of four hexadecimal digits. -/
def hexUnit (a b c d : Char) : Option ℕ := do
  let a ← hexValue a
  let b ← hexValue b
  let c ← hexValue c
  let d ← hexValue d
  return ((a * 16 + b) * 16 + c) * 16 + d

/-- The character of a two-letter escape. -/
def unescape (c : Char) : Option Char :=
  match c with
  | '"' => some '"'
  | '\\' => some '\\'
  | '/' => some '/'
  | 'b' => some (Char.ofNat 8)
  | 'f' => some (Char.ofNat 12)
  | 'n' => some '\n'
  | 'r' => some '\r'
  | 't' => some '\t'
  | _ => none

/-- The code units of a quoted string's body, and what follows its closing quote. -/
def stringUnits : Text → Option (List ℕ × Text)
  | '"' :: r => some ([], r)
  | '\\' :: 'u' :: a :: b :: c :: d :: r =>
    match hexUnit a b c d with
    | some u => (stringUnits r).map fun p => (u :: p.1, p.2)
    | none => none
  | '\\' :: c :: r =>
    match unescape c with
    | some x => (stringUnits r).map fun p => (x.toNat :: p.1, p.2)
    | none => none
  | c :: r =>
    if c.toNat < 0x20 then none else (stringUnits r).map fun p => (toUtf16 c ++ p.1, p.2)
  | [] => none

/-- The body of a quoted string and what follows its closing quote. -/
def stringBody (s : Text) : Option (Text × Text) :=
  (stringUnits s).map fun p => (ofUtf16 p.1, p.2)

/-- A number and what follows it. -/
def number? (s : Text) : Option (Json × Text) :=
  if h : isJsonNumber (s.takeWhile isNumberChar) = true then
    some (num ⟨_, h⟩, s.dropWhile isNumberChar)
  else none

mutual

/-- A value at the head of the text, and what follows it. -/
def value : ℕ → Text → Option (Json × Text)
  | 0, _ => none
  | n + 1, s =>
    match skipWs s with
    | 'n' :: 'u' :: 'l' :: 'l' :: r => some (null, r)
    | 't' :: 'r' :: 'u' :: 'e' :: r => some (bool true, r)
    | 'f' :: 'a' :: 'l' :: 's' :: 'e' :: r => some (bool false, r)
    | '"' :: r => (stringBody r).map fun p => (str p.1, p.2)
    | '[' :: r =>
      match skipWs r with
      | ']' :: r' => some (arr [], r')
      | r' => (elems n r').map fun p => (arr p.1, p.2)
    | '\x7b' :: r =>
      match skipWs r with
      | '\x7d' :: r' => some (obj [], r')
      | r' => (members n r').map fun p => (obj p.1, p.2)
    | r => number? r

/-- The elements of an array after its opening bracket, through its closing one. -/
def elems : ℕ → Text → Option (List Json × Text)
  | 0, _ => none
  | n + 1, s =>
    match value n s with
    | none => none
    | some (j, r) =>
      match skipWs r with
      | ',' :: r' => (elems n r').map fun p => (j :: p.1, p.2)
      | ']' :: r' => some ([j], r')
      | _ => none

/-- The members of an object after its opening brace, through its closing one. -/
def members : ℕ → Text → Option (List (Text × Json) × Text)
  | 0, _ => none
  | n + 1, s =>
    match skipWs s with
    | '"' :: r =>
      match stringBody r with
      | none => none
      | some (k, r) =>
        match skipWs r with
        | ':' :: r =>
          match value n r with
          | none => none
          | some (j, r) =>
            match skipWs r with
            | ',' :: r' => (members n r').map fun p => ((k, j) :: p.1, p.2)
            | '\x7d' :: r' => some ([(k, j)], r')
            | _ => none
        | _ => none
    | _ => none

end

/-- `JSON.parse`. -/
def parse (s : Text) : Option Json :=
  match value (2 * s.length + 2) s with
  | some (j, r) => if skipWs r = [] then some j else none
  | none => none

/-! ## Round trip -/

mutual

/-- The fuel a value needs. -/
def fuel : Json → ℕ
  | null => 1
  | bool _ => 1
  | num _ => 1
  | str _ => 1
  | arr l => fuelElems l + 1
  | obj l => fuelMembers l + 1

def fuelElems : List Json → ℕ
  | [] => 0
  | j :: l => fuel j + fuelElems l + 1

def fuelMembers : List (Text × Json) → ℕ
  | [] => 0
  | (_, j) :: l => fuel j + fuelMembers l + 1

end

theorem stringUnits_escape (c : Char) (r : Text) :
    stringUnits (escape c ++ r) = (stringUnits r).map fun p => (toUtf16 c ++ p.1, p.2) := by
  unfold escape
  split_ifs with h1 h2 h3 h4 h5 h6 h7 h8
  · subst h1; rfl
  · subst h2; rfl
  · have : c = Char.ofNat 8 := by rw [← h3, Char.ofNat_toNat]
    subst this; rfl
  · have : c = Char.ofNat 9 := by rw [← h4, Char.ofNat_toNat]
    subst this; rfl
  · have : c = Char.ofNat 10 := by rw [← h5, Char.ofNat_toNat]
    subst this; rfl
  · have : c = Char.ofNat 12 := by rw [← h6, Char.ofNat_toNat]
    subst this; rfl
  · have : c = Char.ofNat 13 := by rw [← h7, Char.ofNat_toNat]
    subst this; rfl
  · have key : ∀ n < 32, hexUnit '0' '0' (hexDigit (n / 16)) (hexDigit (n % 16)) = some n := by
      decide
    change stringUnits ('\\' :: 'u' :: '0' :: '0' :: hexDigit (c.toNat / 16) ::
      hexDigit (c.toNat % 16) :: r) = _
    rw [stringUnits, key _ h8]
    have : toUtf16 c = [c.toNat] := by unfold toUtf16; rw [if_pos (by omega)]
    rw [this]; rfl
  · rw [List.cons_append, List.nil_append, stringUnits.eq_def]
    split <;> simp_all

theorem stringUnits_flatMap (s r : Text) :
    stringUnits (s.flatMap escape ++ '"' :: r) = some (s.flatMap toUtf16, r) := by
  induction s with
  | nil => rfl
  | cons c s ih =>
    rw [List.flatMap_cons, List.append_assoc, stringUnits_escape, ih]
    rfl

theorem ofUtf16_flatMap (s : Text) : ofUtf16 (s.flatMap toUtf16) = s := by
  induction s with
  | nil => rfl
  | cons c s ih => rw [List.flatMap_cons, ofUtf16_append, ih]

/-- A quoted string reads back. -/
theorem stringBody_quote (s r : Text) : stringBody (s.flatMap escape ++ '"' :: r) = some (s, r) := by
  unfold stringBody
  rw [stringUnits_flatMap, Option.map_some, ofUtf16_flatMap]

/-- What follows a value does not go on as a number. -/
def Follows (r : Text) : Prop := r.takeWhile isNumberChar = []

theorem follows_nil : Follows [] := rfl

theorem follows_cons {c : Char} (h : isNumberChar c = false) (r : Text) : Follows (c :: r) := by
  unfold Follows
  rw [List.takeWhile_cons, h]
  rfl

theorem number?_lit (n : Number) {r : Text} (hr : Follows r) :
    number? (n.lit ++ r) = some (num n, r) := by
  have hall := n.all_isNumberChar
  have ht : (n.lit ++ r).takeWhile isNumberChar = n.lit := by
    rw [List.takeWhile_append_of_pos hall, hr, List.append_nil]
  have hd : (n.lit ++ r).dropWhile isNumberChar = r := by
    rw [List.dropWhile_append_of_pos hall]
    have := List.takeWhile_append_dropWhile (p := isNumberChar) (l := r)
    rwa [hr, List.nil_append] at this
  have hv : isJsonNumber ((n.lit ++ r).takeWhile isNumberChar) = true := by rw [ht]; exact n.valid
  unfold number?
  rw [dif_pos hv, hd]
  simp only [ht]

theorem skipWs_cons {c : Char} (h : isWs c = false) (r : Text) : skipWs (c :: r) = c :: r := by
  unfold skipWs; rw [List.dropWhile_cons, h]; rfl

theorem isWs_of_isNumberChar {c : Char} (h : isNumberChar c = true) : isWs c = false := by
  by_contra hw
  simp only [isWs, Bool.not_eq_false, Bool.or_eq_true, beq_iff_eq] at hw
  rcases hw with ((rfl | rfl) | rfl) | rfl <;> exact absurd h (by decide)

/-- The first character of a printed value. -/
theorem stringify_head (j : Json) : ∃ c r, stringify j = c :: r ∧ isWs c = false ∧ c ≠ ']' := by
  cases j with
  | null => exact ⟨_, _, rfl, by decide, by decide⟩
  | bool b => cases b <;> exact ⟨_, _, rfl, by decide, by decide⟩
  | num n =>
    rcases hl : n.lit with _ | ⟨c, r⟩
    · exact absurd hl n.lit_ne_nil
    · have hc := n.all_isNumberChar c (by rw [hl]; simp)
      refine ⟨c, r, by rw [stringify, hl], isWs_of_isNumberChar hc, ?_⟩
      rintro rfl
      exact absurd hc (by decide)
  | str s => exact ⟨_, _, rfl, by decide, by decide⟩
  | arr l => exact ⟨_, _, rfl, by decide, by decide⟩
  | obj l => exact ⟨_, _, rfl, by decide, by decide⟩

theorem value_num (n : Number) (k : ℕ) {r : Text} (hr : Follows r) :
    value (k + 1) (n.lit ++ r) = some (num n, r) := by
  obtain ⟨c, t, hl, hw, _⟩ := stringify_head (num n)
  rw [stringify] at hl
  have hc := n.all_isNumberChar c (by rw [hl]; simp)
  have hs : skipWs (n.lit ++ r) = n.lit ++ r := by
    rw [hl, List.cons_append, skipWs_cons hw]
  rw [value, hs]
  have hn := number?_lit n hr
  rw [hl, List.cons_append] at hn ⊢
  split <;> rename_i he <;> first
    | exact hn
    | (simp only [List.cons.injEq] at he
       obtain ⟨rfl, _⟩ := he
       exact absurd hc (by decide))

theorem fuel_pos (j : Json) : 1 ≤ fuel j := by
  cases j <;> rw [fuel] <;> omega

mutual

/-- A printed value reads back, with what follows it. -/
theorem value_stringify : ∀ (j : Json) (n : ℕ) (r : Text), fuel j ≤ n → Follows r →
    value n (stringify j ++ r) = some (j, r)
  | j, 0, _, hn, _ => absurd hn (by have := fuel_pos j; omega)
  | null, n + 1, r, _, _ => rfl
  | bool true, n + 1, r, _, _ => rfl
  | bool false, n + 1, r, _, _ => rfl
  | num m, n + 1, r, _, hr => value_num m n hr
  | str s, n + 1, r, _, _ => by
    change value (n + 1) ('"' :: (s.flatMap escape ++ ['"'] ++ r)) = _
    rw [List.append_assoc, List.singleton_append, value, skipWs_cons (by decide)]
    simp only [stringBody_quote, Option.map_some]
  | arr [], n + 1, r, _, _ => rfl
  | arr (j :: l), n + 1, r, hn, _ => by
    have hl := elems_stringify (j :: l) (by simp) n r (by rw [fuel] at hn; omega)
    obtain ⟨c, t, hc, hw, hne⟩ := stringify_head j
    change value (n + 1) ('[' :: (stringifyElems (j :: l) ++ [']'] ++ r)) = _
    rw [List.append_assoc, List.singleton_append, value, skipWs_cons (by decide)]
    rw [stringifyElems, hc, List.cons_append, List.cons_append] at hl ⊢
    simp only [skipWs_cons hw]
    split
    · rename_i he
      simp only [List.cons.injEq] at he
      exact absurd he.1 hne
    · rw [hl]; rfl
  | obj [], n + 1, r, _, _ => rfl
  | obj ((k, j) :: l), n + 1, r, hn, _ => by
    have hl := members_stringify ((k, j) :: l) (by simp) n r (by rw [fuel] at hn; omega)
    change value (n + 1) ('\x7b' :: (stringifyMembers ((k, j) :: l) ++ ['\x7d'] ++ r)) = _
    rw [List.append_assoc, List.singleton_append, value, skipWs_cons (by decide)]
    rw [stringifyMembers, quote, List.cons_append, List.cons_append] at hl ⊢
    simp only [skipWs_cons (show isWs '"' = false by decide)]
    split
    · rename_i he
      simp only [List.cons.injEq] at he
      exact absurd he.1 (by decide)
    · rw [hl]; rfl

theorem elems_stringify : ∀ (l : List Json), l ≠ [] → ∀ (n : ℕ) (r : Text),
    fuelElems l ≤ n → elems n (stringifyElems l ++ ']' :: r) = some (l, r)
  | [], h, _, _, _ => absurd rfl h
  | j :: l, _, 0, _, hn => by rw [fuelElems] at hn; omega
  | [j], _, n + 1, r, hn => by
    rw [fuelElems] at hn
    rw [stringifyElems, stringifyElemsTail, List.append_nil, elems,
      value_stringify j n _ (by omega) (follows_cons (by decide) r)]
    rfl
  | j :: j' :: l, _, n + 1, r, hn => by
    rw [fuelElems] at hn
    have hl := elems_stringify (j' :: l) (by simp) n r (by omega)
    change elems (n + 1) (stringify j ++ (',' :: stringifyElems (j' :: l)) ++ ']' :: r) = _
    rw [List.append_assoc, List.cons_append, elems,
      value_stringify j n _ (by omega) (follows_cons (by decide) _)]
    simp only [skipWs_cons (show isWs ',' = false by decide), hl, Option.map_some]

theorem members_stringify : ∀ (l : List (Text × Json)), l ≠ [] → ∀ (n : ℕ) (r : Text),
    fuelMembers l ≤ n → members n (stringifyMembers l ++ '\x7d' :: r) = some (l, r)
  | [], h, _, _, _ => absurd rfl h
  | (k, j) :: l, _, 0, _, hn => by rw [fuelMembers] at hn; omega
  | [(k, j)], _, n + 1, r, hn => by
    rw [fuelMembers] at hn
    change members (n + 1) ('"' :: (k.flatMap escape ++ ['"'] ++ ':' :: (stringify j ++ []) ++
      '\x7d' :: r)) = _
    rw [List.append_assoc, List.append_assoc, List.singleton_append, List.append_nil,
      List.cons_append, members, skipWs_cons (by decide)]
    simp only [stringBody_quote, skipWs_cons (show isWs ':' = false by decide),
      value_stringify j n _ (show fuel j ≤ n by omega)
        (follows_cons (show isNumberChar '}' = false by decide) r)]
    rfl
  | (k, j) :: e :: l, _, n + 1, r, hn => by
    rw [fuelMembers] at hn
    have hl := members_stringify (e :: l) (by simp) n r (by omega)
    change members (n + 1) ('"' :: (k.flatMap escape ++ ['"'] ++ ':' :: (stringify j ++
      (',' :: stringifyMembers (e :: l))) ++ '\x7d' :: r)) = _
    rw [List.append_assoc, List.append_assoc, List.singleton_append, List.cons_append,
      List.append_assoc, List.cons_append, members, skipWs_cons (by decide)]
    simp only [stringBody_quote, skipWs_cons (show isWs ':' = false by decide),
      value_stringify j n _ (show fuel j ≤ n by omega)
        (follows_cons (show isNumberChar ',' = false by decide) _),
      skipWs_cons (show isWs ',' = false by decide), hl, Option.map_some]

end

mutual

/-- The text of a value pays for its fuel. -/
theorem fuel_le : ∀ j : Json, fuel j ≤ 2 * (stringify j).length
  | null => by decide
  | bool true => by decide
  | bool false => by decide
  | num n => by
    have := List.length_pos_of_ne_nil n.lit_ne_nil
    rw [fuel, stringify]; omega
  | str s => by rw [fuel, stringify, quote, List.length_cons]; omega
  | arr l => by
    have := fuelElems_le l
    rw [fuel, stringify, List.length_cons, List.length_append, List.length_singleton]; omega
  | obj l => by
    have := fuelMembers_le l
    rw [fuel, stringify, List.length_cons, List.length_append, List.length_singleton]; omega

theorem fuelElems_le : ∀ l : List Json, fuelElems l ≤ 2 * (stringifyElems l).length + 1
  | [] => by decide
  | j :: l => by
    have h := fuel_le j
    have ht := fuelElemsTail_le l
    rw [fuelElems, stringifyElems, List.length_append]; omega

theorem fuelElemsTail_le : ∀ l : List Json, fuelElems l ≤ 2 * (stringifyElemsTail l).length
  | [] => by decide
  | j :: l => by
    have h := fuel_le j
    have ht := fuelElemsTail_le l
    rw [fuelElems, stringifyElemsTail, List.length_cons, List.length_append]; omega

theorem fuelMembers_le : ∀ l : List (Text × Json),
    fuelMembers l ≤ 2 * (stringifyMembers l).length + 1
  | [] => by decide
  | (k, j) :: l => by
    have h := fuel_le j
    have ht := fuelMembersTail_le l
    rw [fuelMembers, stringifyMembers, List.length_append, List.length_cons, List.length_append]
    omega

theorem fuelMembersTail_le : ∀ l : List (Text × Json),
    fuelMembers l ≤ 2 * (stringifyMembersTail l).length
  | [] => by decide
  | (k, j) :: l => by
    have h := fuel_le j
    have ht := fuelMembersTail_le l
    rw [fuelMembers, stringifyMembersTail, List.length_cons, List.length_append, List.length_cons,
      List.length_append]
    omega

end

/-- **Round trip.** Parsing the text of a value gives the value back. -/
theorem parse_stringify (j : Json) : parse (stringify j) = some j := by
  have hf := fuel_le j
  have hv := value_stringify j (2 * (stringify j).length + 2) [] (by omega) follows_nil
  rw [List.append_nil] at hv
  unfold parse
  rw [hv]
  rfl

/-! ## Size -/

/-- The bytes of a printed value. -/
def size (j : Json) : ℕ := (utf8Encode (stringify j)).length

theorem utf8Length_append (s t : Text) :
    (utf8Encode (s ++ t)).length = (utf8Encode s).length + (utf8Encode t).length := by
  unfold utf8Encode
  rw [List.flatMap_append, List.length_append]

theorem utf8Length_cons (c : Char) (s : Text) :
    (utf8Encode (c :: s)).length = (String.utf8EncodeChar c).length + (utf8Encode s).length := by
  unfold utf8Encode
  rw [List.flatMap_cons, List.length_append]

theorem utf8Length_ascii {s : Text} (h : ∀ c ∈ s, c.toNat ≤ 0x7F) :
    (utf8Encode s).length = s.length := by
  induction s with
  | nil => rfl
  | cons c s ih =>
    rw [utf8Length_cons, length_utf8EncodeChar_ascii (h c (by simp)),
      ih fun d hd => h d (List.mem_cons_of_mem c hd), List.length_cons]
    omega

theorem utf8Length_escape (c : Char) : (utf8Encode (escape c)).length ≤ 6 * charUnits c := by
  have hc := charUnits_pos c
  have hhex : ∀ n < 16, (hexDigit n).toNat ≤ 0x7F := by decide
  unfold escape
  split_ifs with h1 h2 h3 h4 h5 h6 h7 h8
  · exact le_trans (b := 2) (by decide) (by omega)
  · exact le_trans (b := 2) (by decide) (by omega)
  · exact le_trans (b := 2) (by decide) (by omega)
  · exact le_trans (b := 2) (by decide) (by omega)
  · exact le_trans (b := 2) (by decide) (by omega)
  · exact le_trans (b := 2) (by decide) (by omega)
  · exact le_trans (b := 2) (by decide) (by omega)
  · rw [utf8Length_ascii]
    · simp only [List.length_cons, List.length_nil]
      omega
    · intro d hd
      simp only [List.mem_cons, List.not_mem_nil, or_false] at hd
      rcases hd with rfl | rfl | rfl | rfl | rfl | rfl
      · decide
      · decide
      · decide
      · decide
      · exact hhex _ (by omega)
      · exact hhex _ (by omega)
  · have := length_utf8EncodeChar_le c
    rw [utf8Length_cons]
    show _ + 0 ≤ _
    omega

theorem utf8Length_quote (s : Text) : (utf8Encode (quote s)).length ≤ 6 * units s + 2 := by
  have key : (utf8Encode (s.flatMap escape)).length ≤ 6 * units s := by
    induction s with
    | nil => exact Nat.zero_le _
    | cons c s ih =>
      have := utf8Length_escape c
      rw [List.flatMap_cons, utf8Length_append, units_cons]
      omega
  unfold quote
  rw [utf8Length_cons, utf8Length_append]
  have h1 : (String.utf8EncodeChar '"').length = 1 := rfl
  have h2 : (utf8Encode ['"']).length = 1 := rfl
  omega

theorem size_str_le (s : Text) : size (str s) ≤ 6 * units s + 2 := utf8Length_quote s

theorem size_bool_le (b : Bool) : size (bool b) ≤ 5 := by cases b <;> decide

theorem utf8Length_elemsTail (l : List Json) :
    (utf8Encode (stringifyElemsTail l)).length = (l.map fun j => size j + 1).sum := by
  induction l with
  | nil => rfl
  | cons j l ih =>
    rw [stringifyElemsTail, utf8Length_cons, utf8Length_append, ih, List.map_cons, List.sum_cons]
    have h : (String.utf8EncodeChar ',').length = 1 := rfl
    unfold size
    omega

theorem size_arr_le (l : List Json) : size (arr l) ≤ (l.map fun j => size j + 1).sum + 2 := by
  have h1 : (String.utf8EncodeChar '[').length = 1 := rfl
  have h2 : (utf8Encode [']']).length = 1 := rfl
  have h3 : (utf8Encode (stringifyElems l)).length ≤ (l.map fun j => size j + 1).sum := by
    cases l with
    | nil => exact Nat.zero_le _
    | cons j l =>
      rw [stringifyElems, utf8Length_append, utf8Length_elemsTail, List.map_cons, List.sum_cons]
      unfold size
      omega
  unfold size
  rw [stringify, utf8Length_cons, utf8Length_append]
  unfold size at h3
  omega

/-- The bytes of a member and its punctuation. -/
def memberSize (e : Text × Json) : ℕ := (utf8Encode (quote e.1)).length + size e.2 + 2

theorem utf8Length_membersTail (l : List (Text × Json)) :
    (utf8Encode (stringifyMembersTail l)).length = (l.map memberSize).sum := by
  have h1 : (String.utf8EncodeChar ',').length = 1 := rfl
  have h2 : (String.utf8EncodeChar ':').length = 1 := rfl
  induction l with
  | nil => rfl
  | cons e l ih =>
    rw [stringifyMembersTail, utf8Length_cons, utf8Length_append, utf8Length_cons,
      utf8Length_append, ih, List.map_cons, List.sum_cons]
    unfold memberSize size
    omega

theorem size_obj_le (l : List (Text × Json)) : size (obj l) ≤ (l.map memberSize).sum + 2 := by
  have h1 : (String.utf8EncodeChar '\x7b').length = 1 := rfl
  have h2 : (utf8Encode ['\x7d']).length = 1 := rfl
  have h3 : (String.utf8EncodeChar ':').length = 1 := rfl
  have h4 : (utf8Encode (stringifyMembers l)).length ≤ (l.map memberSize).sum := by
    cases l with
    | nil => exact Nat.zero_le _
    | cons e l =>
      rw [stringifyMembers, utf8Length_append, utf8Length_cons, utf8Length_append,
        utf8Length_membersTail, List.map_cons, List.sum_cons]
      unfold memberSize size
      omega
  unfold size
  rw [stringify, utf8Length_cons, utf8Length_append]
  omega

end Json

end Js
