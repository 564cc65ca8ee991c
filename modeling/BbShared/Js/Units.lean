import BbShared.Js.Json

/-!
# Strings by their code units

A JavaScript string is a list of UTF-16 code units, and a surrogate without its other half stands
for no character.  `JSON.stringify` escapes such a half, so that what it writes is a text.

`parseStrings_stringify`: an array of strings reads back, unit by unit.  `parse_of_parseStrings`:
what is read so is what `Json.parse` reads.
-/

namespace Js

/-- A string, by its code units. -/
abbrev Units := List UInt16

namespace Units

def isHigh (u : UInt16) : Bool := 0xD800 ≤ u.toNat && u.toNat ≤ 0xDBFF

def isLow (u : UInt16) : Bool := 0xDC00 ≤ u.toNat && u.toNat ≤ 0xDFFF

/-- The string of a text. -/
def ofText (s : Text) : Units := (s.flatMap toUtf16).map UInt16.ofNat

/-- The text of a string, with U+FFFD for a lone surrogate. -/
def text (s : Units) : Text := ofUtf16 (s.map UInt16.toNat)

/-! ## Writing -/

/-- The character of two surrogates. -/
def pair (u v : UInt16) : Char :=
  Char.ofNat (0x10000 + (u.toNat - 0xD800) * 1024 + (v.toNat - 0xDC00))

/-- `UnicodeEscape`. -/
def unicodeEscape (u : UInt16) : Text :=
  ['\\', 'u', Json.hexDigit (u.toNat / 4096), Json.hexDigit (u.toNat / 256 % 16),
    Json.hexDigit (u.toNat / 16 % 16), Json.hexDigit (u.toNat % 16)]

/-- A unit that is not half of a pair. -/
def quoteUnit (u : UInt16) : Text :=
  if isHigh u || isLow u then unicodeEscape u else Json.escape (Char.ofNat u.toNat)

def quoteBody : Units → Text
  | [] => []
  | [u] => quoteUnit u
  | u :: v :: r =>
    if isHigh u && isLow v then pair u v :: quoteBody r else quoteUnit u ++ quoteBody (v :: r)

def quotedTail : List Text → Text
  | [] => []
  | b :: l => ',' :: '"' :: (b ++ '"' :: quotedTail l)

/-- An array of strings, from their quoted bodies. -/
def quotedArray : List Text → Text
  | [] => ['[', ']']
  | b :: l => '[' :: '"' :: (b ++ '"' :: (quotedTail l ++ [']']))

/-- `JSON.stringify` of an array of strings. -/
def stringify (l : List Units) : Text := quotedArray (l.map quoteBody)

/-! ## Reading -/

/-- The strings of an array after its opening bracket, through its closing one. -/
def strings : ℕ → Text → Option (List Units × Text)
  | 0, _ => none
  | n + 1, s =>
    match Json.skipWs s with
    | '"' :: r =>
      match Json.stringUnits r with
      | none => none
      | some (u, r) =>
        match Json.skipWs r with
        | ',' :: r' => (strings n r').map fun p => (u.map UInt16.ofNat :: p.1, p.2)
        | ']' :: r' => some ([u.map UInt16.ofNat], r')
        | _ => none
    | _ => none

/-- An array of strings at the head of a text, and what follows it. -/
def stringArray (s : Text) : Option (List Units × Text) :=
  match Json.skipWs s with
  | '[' :: r =>
    match Json.skipWs r with
    | ']' :: r' => some ([], r')
    | r' => strings r'.length r'
  | _ => none

/-- `JSON.parse` of a text that is an array of strings. -/
def parseStrings (s : Text) : Option (List Units) :=
  (stringArray s).bind fun p => if Json.skipWs p.2 = [] then some p.1 else none

/-! ## Pieces of a quoted string -/

/-- The text stands for these units, whatever follows it. -/
def Reads (t : Text) (us : Units) : Prop :=
  ∀ r, Json.stringUnits (t ++ r) =
    (Json.stringUnits r).map fun p => (us.map UInt16.toNat ++ p.1, p.2)

theorem reads_nil : Reads [] [] := by
  intro r
  cases h : Json.stringUnits r <;> simp [h]

theorem Reads.append {t t' : Text} {us us' : Units} (h : Reads t us) (h' : Reads t' us') :
    Reads (t ++ t') (us ++ us') := by
  intro r
  rw [List.append_assoc, h, h', Option.map_map]
  simp [Function.comp_def]

theorem Reads.closed {t : Text} {us : Units} (h : Reads t us) (r : Text) :
    Json.stringUnits (t ++ '"' :: r) = some (us.map UInt16.toNat, r) := by
  rw [h]
  simp [Json.stringUnits]

theorem toNat_ofNat_unit {n : ℕ} (h : n < 65536) : (UInt16.ofNat n).toNat = n := by
  rw [UInt16.toNat_ofNat']
  exact Nat.mod_eq_of_lt h

theorem toUtf16_lt {c : Char} : ∀ n ∈ toUtf16 c, n < 65536 := by
  have hv : c.toNat < 0xD800 ∨ 0xDFFF < c.toNat ∧ c.toNat < 0x110000 := c.valid
  unfold toUtf16
  split_ifs with h <;> intro n hn <;> simp at hn <;> omega

/-- Units that fit come back from their numbers. -/
theorem map_toNat_ofNat {us : List ℕ} (h : ∀ n ∈ us, n < 65536) :
    (us.map UInt16.ofNat).map UInt16.toNat = us := by
  rw [List.map_map]
  conv_rhs => rw [← List.map_id us]
  exact List.map_congr_left fun n hn => toNat_ofNat_unit (h n hn)

theorem reads_escape (c : Char) : Reads (Json.escape c) ((toUtf16 c).map UInt16.ofNat) := by
  intro r
  rw [Json.stringUnits_escape, map_toNat_ofNat toUtf16_lt]

theorem hexValue_hexDigit {n : ℕ} (h : n < 16) : hexValue (Json.hexDigit n) = some n := by
  have hall : ∀ n < 16, hexValue (Json.hexDigit n) = some n := by decide
  exact hall n h

theorem reads_unicodeEscape (u : UInt16) : Reads (unicodeEscape u) [u] := by
  intro r
  have hu : u.toNat < 65536 := u.toNat_lt
  have hunit : Json.hexUnit (Json.hexDigit (u.toNat / 4096)) (Json.hexDigit (u.toNat / 256 % 16))
      (Json.hexDigit (u.toNat / 16 % 16)) (Json.hexDigit (u.toNat % 16)) = some u.toNat := by
    unfold Json.hexUnit
    rw [hexValue_hexDigit (by omega), hexValue_hexDigit (by omega), hexValue_hexDigit (by omega),
      hexValue_hexDigit (by omega)]
    show some _ = some _
    congr 1
    omega
  show Json.stringUnits ('\\' :: 'u' :: _ :: _ :: _ :: _ :: r) = _
  rw [Json.stringUnits, hunit]
  rfl

theorem toNat_ofNat_char {n : ℕ} (h : n.isValidChar) : (Char.ofNat n).toNat = n := by
  unfold Char.ofNat
  rw [dif_pos h]
  rfl

theorem toUtf16_bmp {u : UInt16} (h : (isHigh u || isLow u) = false) :
    toUtf16 (Char.ofNat u.toNat) = [u.toNat] := by
  have hu : u.toNat < 65536 := u.toNat_lt
  have hvalid : u.toNat.isValidChar := by
    simp only [isHigh, isLow, Bool.or_eq_false_iff, Bool.and_eq_false_iff, decide_eq_false_iff_not]
      at h
    unfold Nat.isValidChar
    omega
  unfold toUtf16
  rw [toNat_ofNat_char hvalid, if_pos (by omega)]

theorem reads_quoteUnit (u : UInt16) : Reads (quoteUnit u) [u] := by
  unfold quoteUnit
  cases h : isHigh u || isLow u with
  | true => exact reads_unicodeEscape u
  | false =>
    have hc := reads_escape (Char.ofNat u.toNat)
    rw [toUtf16_bmp h, List.map_singleton, UInt16.ofNat_toNat] at hc
    exact hc

theorem toNat_pair {u v : UInt16} (h : (isHigh u && isLow v) = true) :
    (pair u v).toNat = 0x10000 + (u.toNat - 0xD800) * 1024 + (v.toNat - 0xDC00) := by
  simp only [isHigh, isLow, Bool.and_eq_true, decide_eq_true_eq] at h
  apply toNat_ofNat_char
  unfold Nat.isValidChar
  omega

theorem toUtf16_pair {u v : UInt16} (h : (isHigh u && isLow v) = true) :
    toUtf16 (pair u v) = [u.toNat, v.toNat] := by
  have hn := toNat_pair h
  simp only [isHigh, isLow, Bool.and_eq_true, decide_eq_true_eq] at h
  generalize u.toNat = a at h hn ⊢
  generalize v.toNat = b at h hn ⊢
  have hhigh : 0xD800 + ((pair u v).toNat - 0x10000) / 1024 = a := by omega
  have hlow : 0xDC00 + ((pair u v).toNat - 0x10000) % 1024 = b := by omega
  unfold toUtf16
  rw [if_neg (by omega), hhigh, hlow]

theorem escape_astral {c : Char} (h : 0x10000 ≤ c.toNat) : Json.escape c = [c] := by
  have hne : ∀ d : Char, d.toNat < 0x10000 → c ≠ d := by
    rintro d hd rfl
    omega
  have hquote := hne '"' (by simp)
  have hback := hne '\\' (by simp)
  unfold Json.escape
  split_ifs <;> first | omega | contradiction | rfl

theorem reads_pair {u v : UInt16} (h : (isHigh u && isLow v) = true) : Reads [pair u v] [u, v] := by
  have hn := toNat_pair h
  have hc := reads_escape (pair u v)
  rw [escape_astral (by omega), toUtf16_pair h] at hc
  simpa using hc

/-- **Strings read back.** -/
theorem reads_quoteBody (s : Units) : Reads (quoteBody s) s := by
  fun_induction quoteBody s with
  | case1 => exact reads_nil
  | case2 u => exact reads_quoteUnit u
  | case3 u v r h ih => exact (reads_pair h).append ih
  | case4 u v r h ih => exact (reads_quoteUnit u).append ih

/-! ## Arrays -/

theorem strings_quoted {bodies : List Text} {l : List Units} (h : List.Forall₂ Reads bodies l)
    {b : Text} {u : Units} (hb : Reads b u) (r : Text) {n : ℕ} (hn : bodies.length < n) :
    strings n ('"' :: (b ++ '"' :: (quotedTail bodies ++ ']' :: r))) = some (u :: l, r) := by
  have hunits : ∀ u : Units, (u.map UInt16.toNat).map UInt16.ofNat = u := by
    intro u
    rw [List.map_map]
    conv_rhs => rw [← List.map_id u]
    exact List.map_congr_left fun x _ => UInt16.ofNat_toNat
  induction h generalizing b u n with
  | nil =>
    obtain ⟨n, rfl⟩ := Nat.exists_eq_succ_of_ne_zero (Nat.ne_zero_of_lt hn)
    rw [strings, Json.skipWs_cons (by decide)]
    simp only [hb.closed]
    rw [quotedTail, List.nil_append, Json.skipWs_cons (by decide)]
    simp only [hunits]
  | @cons b' u' bodies l hb' _ ih =>
    obtain ⟨n, rfl⟩ := Nat.exists_eq_succ_of_ne_zero (Nat.ne_zero_of_lt hn)
    rw [List.length_cons] at hn
    have htail := ih hb' (n := n) (by omega)
    rw [strings, Json.skipWs_cons (by decide)]
    simp only [hb.closed]
    rw [quotedTail, List.cons_append, List.cons_append, List.append_assoc, List.cons_append,
      Json.skipWs_cons (by decide)]
    simp only [hunits, htail, Option.map_some]

theorem length_quotedTail (l : List Text) : l.length ≤ (quotedTail l).length := by
  induction l with
  | nil => exact le_rfl
  | cons b l ih =>
    rw [quotedTail]
    simp only [List.length_cons, List.length_append]
    omega

theorem stringArray_quotedArray {bodies : List Text} {l : List Units}
    (h : List.Forall₂ Reads bodies l) (r : Text) :
    stringArray (quotedArray bodies ++ r) = some (l, r) := by
  cases h with
  | nil => rfl
  | @cons b u bodies l hb h =>
    have hlen := length_quotedTail bodies
    have hread := strings_quoted h hb r
      (n := ('"' :: (b ++ '"' :: (quotedTail bodies ++ ']' :: r))).length)
      (by simp only [List.length_cons, List.length_append]; omega)
    rw [quotedArray, List.cons_append, List.cons_append, List.append_assoc, List.cons_append,
      List.append_assoc, List.singleton_append]
    unfold stringArray
    rw [Json.skipWs_cons (by decide)]
    simp only [Json.skipWs_cons (show Json.isWs '"' = false by decide)]
    exact hread

/-- **Arrays read back.** -/
theorem parseStrings_quotedArray {bodies : List Text} {l : List Units}
    (h : List.Forall₂ Reads bodies l) : parseStrings (quotedArray bodies) = some l := by
  have harray := stringArray_quotedArray h []
  rw [List.append_nil] at harray
  unfold parseStrings
  rw [harray]
  rfl

theorem parseStrings_stringify (l : List Units) : parseStrings (stringify l) = some l := by
  apply parseStrings_quotedArray
  rw [List.forall₂_map_left_iff, List.forall₂_same]
  exact fun u _ => reads_quoteBody u

/-! ## The texts of the strings -/

theorem unescape_lt {c d : Char} (h : Json.unescape c = some d) : d.toNat < 65536 := by
  unfold Json.unescape at h
  split at h <;> cases h <;> decide

theorem hexValue_lt {c : Char} {n : ℕ} (h : hexValue c = some n) : n < 16 := by
  have hle : ∀ d : Char, d ≤ c ↔ d.toNat ≤ c.toNat := fun d => UInt32.le_iff_toNat_le
  have hge : ∀ d : Char, c ≤ d ↔ c.toNat ≤ d.toNat := fun d => UInt32.le_iff_toNat_le
  unfold hexValue at h
  split_ifs at h with hd ha hA
  · have hc := (Char.isDigit_iff_toNat).mp hd
    cases h
    simp at hc
    omega
  · rw [hle, hge] at ha
    cases h
    simp at ha
    omega
  · rw [hle, hge] at hA
    cases h
    simp at hA
    omega

theorem hexUnit_lt {a b c d : Char} {u : ℕ} (h : Json.hexUnit a b c d = some u) : u < 65536 := by
  unfold Json.hexUnit at h
  obtain ⟨x, hx, h⟩ := Option.bind_eq_some_iff.mp h
  obtain ⟨y, hy, h⟩ := Option.bind_eq_some_iff.mp h
  obtain ⟨z, hz, h⟩ := Option.bind_eq_some_iff.mp h
  obtain ⟨w, hw, h⟩ := Option.bind_eq_some_iff.mp h
  have hx := hexValue_lt hx
  have hy := hexValue_lt hy
  have hz := hexValue_lt hz
  have hw := hexValue_lt hw
  cases h
  omega

theorem stringUnits_lt {s r : Text} {us : List ℕ} (h : Json.stringUnits s = some (us, r)) :
    ∀ n ∈ us, n < 65536 := by
  fun_induction Json.stringUnits s generalizing us with
  | case1 r' =>
    cases h
    intro n hn
    cases hn
  | case2 a b c d s u hu ih =>
    obtain ⟨p, hp, heq⟩ := Option.map_eq_some_iff.mp h
    cases heq
    intro n hn
    rcases List.mem_cons.mp hn with rfl | hn
    · exact hexUnit_lt hu
    · exact ih hp n hn
  | case3 a b c d s hu => cases h
  | case4 c s hne x hx ih =>
    obtain ⟨p, hp, heq⟩ := Option.map_eq_some_iff.mp h
    cases heq
    intro n hn
    rcases List.mem_cons.mp hn with rfl | hn
    · exact unescape_lt hx
    · exact ih hp n hn
  | case5 c s hne hx => cases h
  | case6 c s hq hu hb hlt => cases h
  | case7 c s hq hu hb hlt ih =>
    obtain ⟨p, hp, heq⟩ := Option.map_eq_some_iff.mp h
    cases heq
    intro n hn
    rcases List.mem_append.mp hn with hn | hn
    · exact toUtf16_lt n hn
    · exact ih hp n hn
  | case8 => cases h

/-- The value of a string. -/
def json (s : Units) : Json := .str s.text

theorem stringBody_of_stringUnits {s r : Text} {us : List ℕ}
    (h : Json.stringUnits s = some (us, r)) :
    Json.stringBody s = some (text (us.map UInt16.ofNat), r) := by
  unfold Json.stringBody text
  rw [h, map_toNat_ofNat (stringUnits_lt h)]
  rfl

theorem elems_of_strings {n : ℕ} {s r : Text} {l : List Units} (h : strings n s = some (l, r)) :
    ∀ m, n < m → Json.elems m s = some (l.map json, r) := by
  induction n generalizing s l with
  | zero => cases h
  | succ n ih =>
    intro m hm
    obtain ⟨m, rfl⟩ := Nat.exists_eq_succ_of_ne_zero (Nat.ne_zero_of_lt hm)
    obtain ⟨k, rfl⟩ := Nat.exists_eq_succ_of_ne_zero (show m ≠ 0 by omega)
    unfold strings at h
    split at h
    · rename_i t hs
      split at h
      · cases h
      · rename_i us t' hu
        have hvalue : Json.value (k + 1) s = some (json (us.map UInt16.ofNat), t') := by
          rw [Json.value, hs]
          simp only [stringBody_of_stringUnits hu, Option.map_some]
          rfl
        split at h
        · rename_i t'' hw
          obtain ⟨p, hp, heq⟩ := Option.map_eq_some_iff.mp h
          cases heq
          rw [Json.elems, hvalue]
          dsimp only
          rw [hw]
          simp only [ih hp (k + 1) (by omega), Option.map_some]
          rfl
        · rename_i t'' hw
          cases h
          rw [Json.elems, hvalue]
          dsimp only
          rw [hw]
          rfl
        · cases h
    · cases h

/-- **One reader.** An array of strings that is read by its units is what `JSON.parse` reads. -/
theorem parse_of_parseStrings {s : Text} {l : List Units} (h : parseStrings s = some l) :
    Json.parse s = some (.arr (l.map json)) := by
  unfold parseStrings at h
  obtain ⟨⟨l', r⟩, harray, h⟩ := Option.bind_eq_some_iff.mp h
  dsimp only at h
  split_ifs at h with hr
  cases h
  have hvalue : Json.value (2 * s.length + 2) s = some (.arr (l.map json), r) := by
    unfold stringArray at harray
    split at harray
    · rename_i t hs
      have hlen : t.length ≤ s.length := by
        have hsub := (List.dropWhile_sublist Json.isWs (l := s)).length_le
        unfold Json.skipWs at hs
        rw [hs, List.length_cons] at hsub
        omega
      rw [Json.value, hs]
      split at harray
      · rename_i t' hw
        cases harray
        simp only [hw, List.map_nil]
      · rename_i t' hne
        have hlen' : (Json.skipWs t).length ≤ t.length :=
          (List.dropWhile_sublist Json.isWs (l := t)).length_le
        have helems := elems_of_strings harray (2 * s.length + 1) (by omega)
        simp only [helems, Option.map_some]
    · cases harray
  unfold Json.parse
  rw [hvalue]
  dsimp only
  rw [if_pos hr]

theorem text_ofText (s : Text) : text (ofText s) = s := by
  unfold text ofText
  rw [map_toNat_ofNat, Json.ofUtf16_flatMap]
  intro n hn
  obtain ⟨c, -, hc⟩ := List.mem_flatMap.mp hn
  exact toUtf16_lt n hc

theorem ofText_cons (c : Char) (s : Text) :
    ofText (c :: s) = (toUtf16 c).map UInt16.ofNat ++ ofText s := by
  unfold ofText
  rw [List.flatMap_cons, List.map_append]

theorem quoteBody_cons {u : UInt16} (h : isHigh u = false) (s : Units) :
    quoteBody (u :: s) = quoteUnit u ++ quoteBody s := by
  cases s with
  | nil => rw [quoteBody, quoteBody, List.append_nil]
  | cons v r => rw [quoteBody, h, Bool.false_and, if_neg Bool.false_ne_true]

/-- A text is quoted character by character. -/
theorem quoteBody_ofText (s : Text) : quoteBody (ofText s) = s.flatMap Json.escape := by
  induction s with
  | nil => rfl
  | cons c s ih =>
    have hv : c.toNat < 0xD800 ∨ 0xDFFF < c.toNat ∧ c.toNat < 0x110000 := c.valid
    rw [ofText_cons, List.flatMap_cons, ← ih]
    by_cases hc : c.toNat < 0x10000
    · have hu : (UInt16.ofNat c.toNat).toNat = c.toNat := toNat_ofNat_unit hc
      have hhigh : isHigh (UInt16.ofNat c.toNat) = false := by
        simp only [isHigh, hu, Bool.and_eq_false_iff, decide_eq_false_iff_not]
        omega
      have hlow : isLow (UInt16.ofNat c.toNat) = false := by
        simp only [isLow, hu, Bool.and_eq_false_iff, decide_eq_false_iff_not]
        omega
      unfold toUtf16
      rw [if_pos hc, List.map_singleton, List.singleton_append, quoteBody_cons hhigh]
      unfold quoteUnit
      rw [hhigh, hlow, Bool.or_false, if_neg Bool.false_ne_true, hu, Char.ofNat_toNat]
    · have hu : (UInt16.ofNat (0xD800 + (c.toNat - 0x10000) / 1024)).toNat =
          0xD800 + (c.toNat - 0x10000) / 1024 := toNat_ofNat_unit (by omega)
      have hw : (UInt16.ofNat (0xDC00 + (c.toNat - 0x10000) % 1024)).toNat =
          0xDC00 + (c.toNat - 0x10000) % 1024 := toNat_ofNat_unit (by omega)
      have hpair : (isHigh (UInt16.ofNat (0xD800 + (c.toNat - 0x10000) / 1024)) &&
          isLow (UInt16.ofNat (0xDC00 + (c.toNat - 0x10000) % 1024))) = true := by
        simp only [isHigh, isLow, hu, hw, Bool.and_eq_true, decide_eq_true_eq]
        omega
      have hchar : pair (UInt16.ofNat (0xD800 + (c.toNat - 0x10000) / 1024))
          (UInt16.ofNat (0xDC00 + (c.toNat - 0x10000) % 1024)) = c := by
        have hcode : 0x10000 +
            ((UInt16.ofNat (0xD800 + (c.toNat - 0x10000) / 1024)).toNat - 0xD800) * 1024 +
            ((UInt16.ofNat (0xDC00 + (c.toNat - 0x10000) % 1024)).toNat - 0xDC00) = c.toNat := by
          omega
        exact (congrArg Char.ofNat hcode).trans (Char.ofNat_toNat c)
      unfold toUtf16
      rw [if_neg hc, escape_astral (by omega)]
      simp only [List.map_cons, List.map_nil, List.cons_append, List.nil_append]
      rw [quoteBody, if_pos hpair, hchar]

theorem quotedTail_append (l : List Text) :
    quotedTail (l.map fun s => s.flatMap Json.escape) = Json.stringifyElemsTail (l.map .str) := by
  induction l with
  | nil => rfl
  | cons s l ih =>
    rw [List.map_cons, List.map_cons, quotedTail, Json.stringifyElemsTail, Json.stringify,
      Json.quote, ih]
    simp only [List.cons_append, List.append_assoc, List.nil_append]

/-- **One writer.** On texts, `stringify` is `JSON.stringify` of the array. -/
theorem stringify_ofText (l : List Text) :
    stringify (l.map ofText) = Json.stringify (.arr (l.map .str)) := by
  have hbodies : (l.map ofText).map quoteBody = l.map fun s => s.flatMap Json.escape := by
    rw [List.map_map]
    exact List.map_congr_left fun s _ => quoteBody_ofText s
  unfold stringify
  rw [hbodies]
  cases l with
  | nil => rfl
  | cons s l =>
    rw [List.map_cons, List.map_cons, quotedArray, Json.stringify, Json.stringifyElems,
      Json.stringify, Json.quote, quotedTail_append]
    simp only [List.cons_append, List.append_assoc, List.nil_append]

end Units

end Js
