import BbShared.Js.Utf8

/-!
# URLs

The part of the URL parser that a request target goes through: percent-encoding, dot segments, the
split into path and query, and the form encoding of the query parameters.

A `Url` carries what the parser guarantees of its pathname and query.
-/

namespace Js

/-! ## Percent-encoding -/

def hexUpper (n : ℕ) : Char := (Nat.digitChar n).toUpper

/-- What `%XX` is made of. -/
def percentChars : Text := '%' :: (List.range 16).map hexUpper

/-- `%XX`. -/
def percentByte (b : UInt8) : Text := ['%', hexUpper (b.toNat / 16), hexUpper (b.toNat % 16)]

/-- The text with the characters of a set encoded. -/
def percentEncode (encoded : Char → Bool) (s : Text) : Text :=
  s.flatMap fun c => if encoded c then (String.utf8EncodeChar c).flatMap percentByte else [c]

/-- The bytes with `%XX` decoded. -/
def percentDecode : Bytes → Bytes
  | [] => []
  | [b] => [b]
  | [b, x] => [b, x]
  | b :: x :: y :: r =>
    if b = 0x25 then
      match hexValue (Char.ofNat x.toNat), hexValue (Char.ofNat y.toNat) with
      | some m, some n => UInt8.ofNat (m * 16 + n) :: percentDecode r
      | _, _ => b :: percentDecode (x :: y :: r)
    else b :: percentDecode (x :: y :: r)

def c0ControlSet (c : Char) : Bool := c.toNat ≤ 0x1F || 0x7E < c.toNat

def querySet (c : Char) : Bool :=
  c0ControlSet c || c == ' ' || c == '"' || c == '#' || c == '<' || c == '>'

/-- The query set of the schemes `http` and `https`: the apostrophe too. -/
def specialQuerySet (c : Char) : Bool := querySet c || c == Char.ofNat 0x27

/-- The path set: `?`, `^`, the grave accent and the braces too. -/
def pathSet (c : Char) : Bool :=
  querySet c || c == '?' || c == '^' || c == Char.ofNat 0x60 || c == '\x7b' || c == '\x7d'

theorem hexUpper_mem {n : ℕ} (h : n < 16) : hexUpper n ∈ percentChars :=
  List.mem_cons_of_mem _ (List.mem_map_of_mem (List.mem_range.mpr h))

theorem mem_percentByte {b : UInt8} {c : Char} (h : c ∈ percentByte b) :
    c ∈ percentChars := by
  have hb := b.toNat_lt
  unfold percentByte at h
  rcases List.mem_cons.mp h with rfl | h
  · exact List.mem_cons_self
  · rcases List.mem_cons.mp h with rfl | h
    · exact hexUpper_mem (by omega)
    · rw [List.mem_singleton.mp h]
      exact hexUpper_mem (by omega)

/-- Encoded text has no character of the set. -/
theorem percentEncode_clean {encoded : Char → Bool}
    (hset : ∀ c ∈ percentChars, encoded c = false) (s : Text) :
    ∀ c ∈ percentEncode encoded s, encoded c = false := by
  intro c hc
  obtain ⟨d, _, hc⟩ := List.mem_flatMap.mp hc
  by_cases hd : encoded d = true
  · rw [if_pos hd] at hc
    obtain ⟨b, _, hc⟩ := List.mem_flatMap.mp hc
    exact hset c (mem_percentByte hc)
  · rw [if_neg hd, List.mem_singleton] at hc
    rw [hc]; simpa using hd

/-- Encoding keeps out a character that is neither in the text nor made by the encoding. -/
theorem not_mem_percentEncode {encoded : Char → Bool} {c : Char}
    (hc : c ∉ percentChars) {s : Text} (hs : c ∉ s) :
    c ∉ percentEncode encoded s := by
  intro h
  obtain ⟨d, hd, h⟩ := List.mem_flatMap.mp h
  by_cases he : encoded d = true
  · rw [if_pos he] at h
    obtain ⟨b, _, h⟩ := List.mem_flatMap.mp h
    exact hc (mem_percentByte h)
  · rw [if_neg he, List.mem_singleton] at h
    exact hs (h ▸ hd)

/-! ## Dot segments -/

def isSingleDot (seg : Text) : Bool := lower seg ∈ [".", "%2e"].map String.toList

def isDoubleDot (seg : Text) : Bool :=
  lower seg ∈ ["..", ".%2e", "%2e.", "%2e%2e"].map String.toList

/-- The path state: `path` holds the segments so far, the last one first. -/
def resolveDots : List Text → List Text → List Text
  | path, [] => path.reverse
  | path, [seg] =>
    (if isDoubleDot seg then [] :: path.tail
      else if isSingleDot seg then [] :: path else seg :: path).reverse
  | path, seg :: seg' :: segs =>
    resolveDots (if isDoubleDot seg then path.tail
      else if isSingleDot seg then path else seg :: path) (seg' :: segs)

theorem mem_resolveDots (path segs : List Text) :
    ∀ seg ∈ resolveDots path segs, seg = [] ∨ seg ∈ path ∨ seg ∈ segs := by
  induction path, segs using resolveDots.induct with
  | case1 path => intro x hx; simpa [resolveDots] using Or.inr hx
  | case2 path seg =>
    intro x hx
    unfold resolveDots at hx
    rw [List.mem_reverse] at hx
    split_ifs at hx
    · rcases List.mem_cons.mp hx with h | h
      · exact Or.inl h
      · exact Or.inr (Or.inl (List.mem_of_mem_tail h))
    · rcases List.mem_cons.mp hx with h | h
      · exact Or.inl h
      · exact Or.inr (Or.inl h)
    · rcases List.mem_cons.mp hx with h | h
      · exact Or.inr (Or.inr (by simp [h]))
      · exact Or.inr (Or.inl h)
  | case3 path seg seg' segs ih =>
    intro x hx
    unfold resolveDots at hx
    rcases ih x hx with h | h | h
    · exact Or.inl h
    · split_ifs at h
      · exact Or.inr (Or.inl (List.mem_of_mem_tail h))
      · exact Or.inr (Or.inl h)
      · rcases List.mem_cons.mp h with h | h
        · exact Or.inr (Or.inr (by simp [h]))
        · exact Or.inr (Or.inl h)
    · exact Or.inr (Or.inr (List.mem_cons_of_mem _ h))

theorem resolveDots_ne_nil (path : List Text) {segs : List Text} (h : segs ≠ []) :
    resolveDots path segs ≠ [] := by
  induction path, segs using resolveDots.induct with
  | case1 path => exact absurd rfl h
  | case2 path seg => unfold resolveDots; split_ifs <;> simp
  | case3 path seg seg' segs ih => unfold resolveDots; exact ih (by simp)

/-! ## Form encoding -/

/-- The bytes that form encoding keeps. -/
def formSafe (c : Char) : Bool := c.isAlphanum || c == '*' || c == '-' || c == '.' || c == '_'

def formByte (b : UInt8) : Text :=
  if b = 0x20 then ['+']
  else if formSafe (Char.ofNat b.toNat) then [Char.ofNat b.toNat]
  else percentByte b

def formEncode (s : Text) : Text := (utf8Encode s).flatMap formByte

def plusToSpace (c : Char) : Char := if c = '+' then ' ' else c

def formDecode (s : Text) : Text := utf8Decode (percentDecode (utf8Encode (s.map plusToSpace)))

/-- The `application/x-www-form-urlencoded` serializer. -/
def serializeForm (l : List (Text × Text)) : Text :=
  List.intercalate ['&'] (l.map fun p => formEncode p.1 ++ '=' :: formEncode p.2)

/-- One `name=value` part. -/
def parsePair (s : Text) : Text × Text :=
  (formDecode (s.takeWhile (· != '=')), formDecode (s.dropWhile (· != '=')).tail)

/-- The `application/x-www-form-urlencoded` parser. -/
def parseForm (s : Text) : List (Text × Text) :=
  ((s.splitOn '&').filter (· ≠ [])).map parsePair

/-- The characters of form-encoded text. -/
def formChar (c : Char) : Bool := formSafe c || c == '+' || c == '%'

theorem formChar_of_mem_percentByte {b : UInt8} {c : Char} (h : c ∈ percentByte b) :
    formChar c = true := by
  have hall : ∀ c ∈ percentChars, formChar c = true := by decide
  exact hall c (mem_percentByte h)

theorem formChar_of_mem {s : Text} {c : Char} (h : c ∈ formEncode s) : formChar c = true := by
  obtain ⟨b, _, h⟩ := List.mem_flatMap.mp h
  unfold formByte at h
  split_ifs at h with h1 h2
  · rw [List.mem_singleton.mp h]; decide
  · rw [List.mem_singleton.mp h]; unfold formChar; rw [h2]; rfl
  · exact formChar_of_mem_percentByte h

theorem percentDecode_cons {b : UInt8} (h : b ≠ 0x25) (r : Bytes) :
    percentDecode (b :: r) = b :: percentDecode r := by
  match r with
  | [] => rfl
  | [_] => rfl
  | _ :: _ :: _ => rw [percentDecode, if_neg h]

theorem toNat_ofNat_byte (b : UInt8) : (Char.ofNat b.toNat).toNat = b.toNat := by
  have hb := b.toNat_lt
  have hv : b.toNat.isValidChar := Or.inl (by omega)
  unfold Char.ofNat
  rw [dif_pos hv]
  rfl

theorem lt_of_formSafe {c : Char} (h : formSafe c = true) : c.toNat < 128 := by
  unfold formSafe Char.isAlphanum Char.isAlpha Char.isUpper Char.isLower Char.isDigit at h
  simp only [Bool.or_eq_true, Bool.and_eq_true, decide_eq_true_eq, beq_iff_eq] at h
  rcases h with (((((h | h) | h) | rfl) | rfl) | rfl) | rfl
  · have := UInt32.le_iff_toNat_le.mp h.2; exact Nat.lt_of_le_of_lt this (by decide)
  · have := UInt32.le_iff_toNat_le.mp h.2; exact Nat.lt_of_le_of_lt this (by decide)
  · have := UInt32.le_iff_toNat_le.mp h.2; exact Nat.lt_of_le_of_lt this (by decide)
  all_goals decide

theorem utf8EncodeChar_ascii {c : Char} (h : c.toNat < 128) :
    String.utf8EncodeChar c = [UInt8.ofNat c.toNat] := by
  rw [utf8EncodeChar_eq, if_pos (by omega)]

theorem percentDecode_percentByte (b : UInt8) (r : Bytes) :
    percentDecode (utf8Encode ((percentByte b).map plusToSpace) ++ r) = b :: percentDecode r := by
  have hb := b.toNat_lt
  have hx : b.toNat / 16 < 16 := by omega
  have hy : b.toNat % 16 < 16 := by omega
  have hplus : ∀ n < 16, plusToSpace (hexUpper n) = hexUpper n := by decide
  have hlt : ∀ n < 16, (hexUpper n).toNat < 128 := by decide
  have hback : ∀ n < 16, hexValue (Char.ofNat (UInt8.ofNat (hexUpper n).toNat).toNat) = some n := by
    decide
  unfold percentByte
  simp only [List.map_cons, List.map_nil, hplus _ hx, hplus _ hy, utf8Encode_cons, utf8Encode_nil,
    utf8EncodeChar_ascii (hlt _ hx), utf8EncodeChar_ascii (hlt _ hy),
    show String.utf8EncodeChar (plusToSpace '%') = [0x25] from by decide, List.cons_append,
    List.nil_append]
  rw [percentDecode, if_pos rfl, hback _ hx, hback _ hy]
  simp only
  rw [show b.toNat / 16 * 16 + b.toNat % 16 = b.toNat by omega, UInt8.ofNat_toNat]

theorem percentDecode_formByte (b : UInt8) (r : Bytes) :
    percentDecode (utf8Encode ((formByte b).map plusToSpace) ++ r) = b :: percentDecode r := by
  unfold formByte
  split_ifs with h1 h2
  · rw [show utf8Encode (['+'].map plusToSpace) = [0x20] from by decide, List.cons_append,
      List.nil_append, percentDecode_cons (by decide), h1]
  · have hlt := lt_of_formSafe h2
    have hplus : plusToSpace (Char.ofNat b.toNat) = Char.ofNat b.toNat := by
      unfold plusToSpace
      rw [if_neg]
      intro h; rw [h] at h2; exact absurd h2 (by decide)
    have hne : b ≠ 0x25 := by
      rintro rfl; exact absurd h2 (by decide)
    rw [List.map_singleton, hplus, utf8Encode_cons, utf8Encode_nil, utf8EncodeChar_ascii hlt,
      toNat_ofNat_byte, UInt8.ofNat_toNat]
    exact percentDecode_cons hne r
  · exact percentDecode_percentByte b r

@[simp] theorem formDecode_encode (s : Text) : formDecode (formEncode s) = s := by
  have key : ∀ bs : Bytes,
      percentDecode (utf8Encode ((bs.flatMap formByte).map plusToSpace)) = bs := by
    intro bs
    induction bs with
    | nil => rfl
    | cons b bs ih =>
      rw [List.flatMap_cons, List.map_append, utf8Encode_append, percentDecode_formByte, ih]
  unfold formDecode formEncode
  rw [key, utf8Decode_encode]

theorem parsePair_encode (p : Text × Text) :
    parsePair (formEncode p.1 ++ '=' :: formEncode p.2) = p := by
  have hall : ∀ c ∈ formEncode p.1, (c != '=') = true := by
    intro c hc
    have := formChar_of_mem hc
    simp only [bne_iff_ne]
    rintro rfl
    exact absurd this (by decide)
  unfold parsePair
  rw [List.takeWhile_append_of_pos hall, List.dropWhile_append_of_pos hall]
  simp

/-- **Form round trip.** -/
theorem parseForm_serialize (l : List (Text × Text)) : parseForm (serializeForm l) = l := by
  unfold parseForm serializeForm
  rcases List.eq_nil_or_concat l with rfl | ⟨l', p, rfl⟩
  · rfl
  · have hsep : ∀ s ∈ ((l'.concat p).map fun p => formEncode p.1 ++ '=' :: formEncode p.2),
        '&' ∉ s := by
      intro s hs hm
      obtain ⟨q, _, rfl⟩ := List.mem_map.mp hs
      rcases List.mem_append.mp hm with h | h
      · exact absurd (formChar_of_mem h) (by decide)
      · rcases List.mem_cons.mp h with h | h
        · cases h
        · exact absurd (formChar_of_mem h) (by decide)
    have hne : ((l'.concat p).map fun p => formEncode p.1 ++ '=' :: formEncode p.2) ≠ [] := by simp
    rw [List.splitOn_intercalate '&' hsep hne, List.filter_eq_self.mpr, List.map_map]
    · conv_rhs => rw [← List.map_id (l'.concat p)]
      refine List.map_congr_left fun q _ => ?_
      exact parsePair_encode q
    · intro s hs
      obtain ⟨q, _, rfl⟩ := List.mem_map.mp hs
      simp

/-! ## Parsed URLs -/

/-- What a pathname is made of. -/
def pathChar (c : Char) : Bool := !pathSet c && c != '\\'

/-- What a query is made of. -/
def queryChar (c : Char) : Bool := !specialQuerySet c

/-- The path and the query of an `http` URL, as its parser leaves them. -/
structure Url where
  pathname : Text
  query : Option Text
  rooted : ∃ r, pathname = '/' :: r
  path_clean : ∀ c ∈ pathname, pathChar c = true
  query_clean : ∀ q ∈ query, ∀ c ∈ q, queryChar c = true

theorem noQuery_clean : ∀ q ∈ (none : Option Text), ∀ c ∈ q, queryChar c = true := by simp

/-- The URL `/` of an origin. -/
def Url.root : Url := ⟨['/'], none, ⟨[], rfl⟩, by decide, noQuery_clean⟩

/-- The path of a path-absolute reference. -/
def parsePath (s : Text) : Text :=
  (resolveDots [] ((s.tail.splitOnP fun c => c == '/' || c == '\\').map
    (percentEncode pathSet))).flatMap ('/' :: ·)

/-- A part of a split has no separator. -/
theorem not_sep_of_mem_splitOnP (sep : Char → Bool) (s : Text) :
    ∀ seg ∈ s.splitOnP sep, ∀ c ∈ seg, sep c = false := by
  induction s with
  | nil => simp
  | cons d s ih =>
    intro seg hseg c hc
    rw [List.splitOnP_cons_eq_if_modifyHead] at hseg
    split_ifs at hseg with hd
    · rcases List.mem_cons.mp hseg with rfl | h
      · cases hc
      · exact ih seg h c hc
    · rcases hs : s.splitOnP sep with _ | ⟨t, l⟩
      · exact absurd hs (List.splitOnP_ne_nil sep s)
      · rw [hs] at hseg ih
        rcases List.mem_cons.mp hseg with rfl | h
        · rcases List.mem_cons.mp hc with rfl | hc
          · simpa using hd
          · exact ih t (by simp) c hc
        · exact ih seg (List.mem_cons_of_mem _ h) c hc

theorem parsePath_rooted (s : Text) : ∃ r, parsePath s = '/' :: r := by
  unfold parsePath
  generalize hsegs : (s.tail.splitOnP fun c => c == '/' || c == '\\').map
    (percentEncode pathSet) = segs
  have hne : segs ≠ [] := by
    rw [← hsegs]; simp [List.splitOnP_ne_nil]
  rcases hr : resolveDots [] segs with _ | ⟨seg, l⟩
  · exact absurd hr (resolveDots_ne_nil [] hne)
  · exact ⟨_, by rw [List.flatMap_cons]; rfl⟩

theorem parsePath_clean (s : Text) : ∀ c ∈ parsePath s, pathChar c = true := by
  intro c hc
  obtain ⟨seg, hseg, hc⟩ := List.mem_flatMap.mp hc
  rcases List.mem_cons.mp hc with rfl | hc
  · decide
  rcases mem_resolveDots _ _ seg hseg with rfl | h | h
  · cases hc
  · cases h
  · obtain ⟨t, ht, rfl⟩ := List.mem_map.mp h
    have hset := @percentEncode_clean pathSet (by decide) t c hc
    have hback : '\\' ∉ t := by
      intro hm
      exact absurd (not_sep_of_mem_splitOnP _ _ t ht _ hm) (by decide)
    have hne : c ≠ '\\' := by
      rintro rfl
      exact not_mem_percentEncode (by decide) hback hc
    unfold pathChar
    rw [hset]; simpa using hne

namespace Url

/-- The query of a reference: encoded text after the first `?`. -/
def parseQuery (s : Text) : Option Text :=
  if '?' ∈ s then some (percentEncode specialQuerySet (s.dropWhile (· != '?')).tail) else none

theorem parseQuery_clean (s : Text) : ∀ q ∈ parseQuery s, ∀ c ∈ q, queryChar c = true := by
  intro q hq c hc
  unfold parseQuery at hq
  split_ifs at hq
  · cases hq
    unfold queryChar
    rw [percentEncode_clean (by decide) _ c hc]
    rfl
  · cases hq

/-- A path-absolute reference, resolved against an `http` origin. -/
def ofTarget (raw : Text) : Url :=
  let s := raw.takeWhile (· != '#')
  { pathname := parsePath (s.takeWhile (· != '?'))
    query := parseQuery s
    rooted := parsePath_rooted _
    path_clean := parsePath_clean _
    query_clean := parseQuery_clean s }

def search (u : Url) : Text :=
  match u.query with
  | some (c :: q) => '?' :: c :: q
  | _ => []

def searchParams (u : Url) : List (Text × Text) := parseForm (u.query.getD [])

def hasParam (u : Url) (name : Text) : Bool := u.searchParams.any fun p => p.1 = name

/-- `searchParams.getAll`. -/
def paramValues (u : Url) (name : Text) : List Text :=
  (u.searchParams.filter fun p => p.1 = name).map Prod.snd

theorem queryChar_of_formChar {c : Char} (h : formChar c = true) : queryChar c = true := by
  have hlt : c.toNat < 128 := by
    unfold formChar at h
    simp only [Bool.or_eq_true, beq_iff_eq] at h
    rcases h with (h | rfl) | rfl
    · exact lt_of_formSafe h
    · decide
    · decide
  exact forall_char_lt (P := fun c => formChar c = true → queryChar c = true) (by decide) hlt h

theorem serializeForm_clean (l : List (Text × Text)) :
    ∀ c ∈ serializeForm l, queryChar c = true := by
  unfold serializeForm
  induction l with
  | nil => intro c hc; simp at hc
  | cons p l ih =>
    have hp : ∀ c ∈ formEncode p.1 ++ '=' :: formEncode p.2, queryChar c = true := by
      intro c hc
      rcases List.mem_append.mp hc with h | h
      · exact queryChar_of_formChar (formChar_of_mem h)
      · rcases List.mem_cons.mp h with rfl | h
        · decide
        · exact queryChar_of_formChar (formChar_of_mem h)
    intro c hc
    cases l with
    | nil => exact hp c (by simpa using hc)
    | cons q l =>
      rw [List.map_cons, List.map_cons, List.intercalate_cons_cons, List.append_assoc] at hc
      rcases List.mem_append.mp hc with h | h
      · exact hp c h
      rcases List.mem_append.mp h with h | h
      · rw [List.mem_singleton.mp h]; decide
      · exact ih c (by simpa using h)

/-- `searchParams.delete`, which rewrites the query. -/
def deleteParam (u : Url) (name : Text) : Url :=
  let q := serializeForm (u.searchParams.filter fun p => p.1 ≠ name)
  { u with
    query := if q = [] then none else some q
    query_clean := by
      intro q' hq'
      split_ifs at hq'
      · cases hq'
      · cases hq'
        exact serializeForm_clean _ }

/-- `searchParams.set`: the first parameter of the name gets the value, and the others go. -/
def setParam (u : Url) (name value : Text) : Url :=
  { u with
    query := some (serializeForm ((u.searchParams.takeWhile fun p => p.1 ≠ name) ++ (name, value) ::
      (u.searchParams.dropWhile fun p => p.1 ≠ name).tail.filter fun p => p.1 ≠ name))
    query_clean := by
      intro q hq
      obtain rfl := Option.some.inj hq
      exact serializeForm_clean _ }

@[simp] theorem pathname_deleteParam (u : Url) (name : Text) :
    (u.deleteParam name).pathname = u.pathname := rfl

theorem searchParams_deleteParam (u : Url) (name : Text) :
    (u.deleteParam name).searchParams = u.searchParams.filter fun p => p.1 ≠ name := by
  unfold searchParams deleteParam
  simp only
  rw [← parseForm_serialize ((parseForm (u.query.getD [])).filter fun p => p.1 ≠ name)]
  split_ifs with h
  · rw [show serializeForm ((parseForm (u.query.getD [])).filter fun p => p.1 ≠ name) = [] from h]
    rfl
  · rfl

theorem hasParam_deleteParam (u : Url) (name name' : Text) :
    (u.deleteParam name).hasParam name' = (u.hasParam name' && name' ≠ name) := by
  unfold hasParam
  rw [searchParams_deleteParam, List.any_filter]
  induction u.searchParams with
  | nil => rfl
  | cons p l ih =>
    rw [List.any_cons, List.any_cons, ih]
    by_cases h : p.1 = name'
    · rw [h]; cases decide (name' ≠ name) <;> simp
    · rw [decide_eq_false h, Bool.and_false, Bool.false_or, Bool.false_or]

end Url

end Js
