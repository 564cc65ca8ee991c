import Mathlib.Data.List.DropRight
import Mathlib.Tactic

/-!
# Text

JavaScript strings as lists of characters, with the string methods and the regular-expression
pieces that path handling is made of: prefix tests, trailing-slash removal, and the group
`([^/]+)`.

A character is a Unicode scalar value; `units` is the length that JavaScript reports, in UTF-16
code units.  Lone surrogates have no counterpart here.
-/

namespace Js

/-- A string. -/
abbrev Text := List Char

instance instLawfulBEqText : LawfulBEq Text := inferInstance

/-- A quantifier over the characters of a text runs through the text, not through all of them. -/
instance (priority := 2000) decidableForallMem (p : Char → Prop) [DecidablePred p] (s : Text) :
    Decidable (∀ c ∈ s, p c) :=
  List.decidableBAll p s

/-- The number of UTF-16 code units of a character. -/
def charUnits (c : Char) : ℕ := if c.toNat < 0x10000 then 1 else 2

/-- The JavaScript `length`: UTF-16 code units. -/
def units (s : Text) : ℕ := (s.map charUnits).sum

@[simp] theorem units_nil : units [] = 0 := rfl

@[simp] theorem units_cons (c : Char) (s : Text) : units (c :: s) = charUnits c + units s := by
  simp [units]

@[simp] theorem units_append (s t : Text) : units (s ++ t) = units s + units t := by
  simp [units]

theorem charUnits_pos (c : Char) : 1 ≤ charUnits c := by
  unfold charUnits; split_ifs <;> omega

theorem units_le (s : Text) : units s ≤ 2 * s.length := by
  induction s with
  | nil => simp
  | cons c s ih =>
    have : charUnits c ≤ 2 := by unfold charUnits; split_ifs <;> omega
    rw [List.length_cons, units_cons]; omega

/-! ## Character classes -/

/-- What the characters of all codes below a bound have is had by each character below it. -/
theorem forall_char_lt {P : Char → Prop} {k : ℕ} (h : ∀ n < k, P (Char.ofNat n)) {c : Char}
    (hc : c.toNat < k) : P c := by
  have hn := h c.toNat hc
  rwa [Char.ofNat_toNat] at hn

/-- Only ASCII letters have another case. -/
theorem toLower_eq_self {c : Char} (h : ¬ c.toNat < 128) : c.toLower = c := by
  unfold Char.toLower
  rw [dif_neg]
  intro hu
  exact h (Nat.lt_of_le_of_lt (UInt32.le_iff_toNat_le.mp hu.2) (by decide))

/-- `toUpperCase` on ASCII text. -/
def upper (s : Text) : Text := s.map Char.toUpper

/-- `toLowerCase` on ASCII text. -/
def lower (s : Text) : Text := s.map Char.toLower

/-- The value of a hexadecimal digit. -/
def hexValue (c : Char) : Option ℕ :=
  if c.isDigit then some (c.toNat - 48)
  else if 'a' ≤ c ∧ c ≤ 'f' then some (c.toNat - 87)
  else if 'A' ≤ c ∧ c ≤ 'F' then some (c.toNat - 55)
  else none

/-- A carriage return, a line feed or a NUL. -/
def isLineBreak (c : Char) : Bool := c = '\r' || c = '\n' || c.toNat = 0

/-- The characters `trim` removes: `WhiteSpace` and `LineTerminator`. -/
def isSpace (c : Char) : Bool :=
  let n := c.toNat
  (9 ≤ n && n ≤ 13) || n == 0x20 || n == 0xA0 || n == 0x1680 || (0x2000 ≤ n && n ≤ 0x200A) ||
    n == 0x2028 || n == 0x2029 || n == 0x202F || n == 0x205F || n == 0x3000 || n == 0xFEFF

/-- `trim`. -/
def trim (s : Text) : Text := (s.dropWhile isSpace).rdropWhile isSpace

theorem trim_eq_self {s : Text} (h : ∀ c ∈ s, isSpace c = false) : trim s = s := by
  have hd : s.dropWhile isSpace = s := by
    rw [List.dropWhile_eq_self_iff]
    intro hl
    simp [h _ (List.getElem_mem hl)]
  unfold trim
  rw [hd, List.rdropWhile_eq_self_iff]
  intro hl
  simp [h _ (List.getLast_mem hl)]

/-- Trimming from the right stops at a character that stays. -/
theorem rdropWhile_append_cons (p : Char → Bool) {c : Char} (hc : p c = false) (s t : Text) :
    (s ++ c :: t).rdropWhile p = s ++ c :: t.rdropWhile p := by
  induction t using List.reverseRecOn with
  | nil => rw [List.rdropWhile_concat_neg _ _ _ (by simp [hc])]; simp
  | append_singleton t d ih =>
    have happ : s ++ c :: (t ++ [d]) = s ++ c :: t ++ [d] := by simp
    rw [happ]
    by_cases hd : p d
    · rw [List.rdropWhile_concat_pos _ _ _ hd, List.rdropWhile_concat_pos _ _ _ hd, ih]
    · rw [List.rdropWhile_concat_neg _ _ _ hd, List.rdropWhile_concat_neg _ _ _ hd, happ]

/-- A string that begins with visible text keeps it. -/
theorem trim_append_cons {c : Char} (hc : isSpace c = false) {s : Text}
    (hs : ∀ d ∈ s.head?, isSpace d = false) (t : Text) :
    trim (s ++ c :: t) = s ++ c :: t.rdropWhile isSpace := by
  have hd : (s ++ c :: t).dropWhile isSpace = s ++ c :: t := by
    cases s with
    | nil => simp [hc]
    | cons d s => simp [hs d (by simp)]
  unfold trim
  rw [hd, rdropWhile_append_cons _ hc]

/-! ## Trailing slashes -/

/-- `replace(/\/+$/, "")`. -/
def trimSlashes (s : Text) : Text := s.rdropWhile (· == '/')

/-- `n` slashes. -/
def slashes (n : ℕ) : Text := List.replicate n '/'

theorem trimSlashes_append_slashes (s : Text) (n : ℕ) :
    trimSlashes (s ++ slashes n) = trimSlashes s := by
  induction n with
  | zero => simp [slashes]
  | succ n ih =>
    rw [slashes, List.replicate_succ', ← List.append_assoc, trimSlashes,
      List.rdropWhile_concat_pos _ _ _ (by simp)]
    exact ih

/-- A string is its trimmed part followed by slashes. -/
theorem exists_trimSlashes_append (s : Text) : ∃ n, s = trimSlashes s ++ slashes n := by
  induction s using List.reverseRecOn with
  | nil => exact ⟨0, rfl⟩
  | append_singleton s c ih =>
    by_cases hc : c = '/'
    · obtain ⟨n, hn⟩ := ih
      refine ⟨n + 1, ?_⟩
      have ht : trimSlashes (s ++ [c]) = trimSlashes s :=
        List.rdropWhile_concat_pos _ _ _ (by simp [hc])
      rw [ht, slashes, List.replicate_succ', ← List.append_assoc, hc]
      exact congrArg (· ++ ['/']) hn
    · refine ⟨0, ?_⟩
      have ht : trimSlashes (s ++ [c]) = s ++ [c] :=
        List.rdropWhile_concat_neg _ _ _ (by simp [hc])
      rw [ht]; simp [slashes]

theorem trimSlashes_eq_self {s : Text} {c : Char} (hc : c ≠ '/') :
    trimSlashes (s ++ [c]) = s ++ [c] :=
  List.rdropWhile_concat_neg _ _ _ (by simp [hc])

theorem trimSlashes_idem (s : Text) : trimSlashes (trimSlashes s) = trimSlashes s :=
  List.rdropWhile_idempotent _ _

/-- A trimmed string is empty or ends in a character other than a slash. -/
theorem trimSlashes_cases (s : Text) :
    trimSlashes s = [] ∨ ∃ t c, c ≠ '/' ∧ trimSlashes s = t ++ [c] := by
  rcases List.eq_nil_or_concat (trimSlashes s) with h | ⟨t, c, h⟩
  · exact Or.inl h
  · rw [List.concat_eq_append] at h
    refine Or.inr ⟨t, c, ?_, h⟩
    rintro rfl
    have hi := trimSlashes_idem s
    rw [h] at hi
    have hp : trimSlashes (t ++ ['/']) = trimSlashes t :=
      List.rdropWhile_concat_pos _ _ _ (by simp)
    have hle := (List.rdropWhile_prefix (· == '/') t).length_le
    rw [hp] at hi
    have := congrArg List.length hi
    simp only [List.length_append, List.length_singleton] at this
    unfold trimSlashes at this
    omega

/-! ## Path segments -/

/-- The group `([^/]+)` at the head of a string, and what follows it. -/
def segment? (s : Text) : Option (Text × Text) :=
  let t := s.takeWhile (· != '/')
  if t = [] then none else some (t, s.dropWhile (· != '/'))

/-- A non-empty string without a slash. -/
def IsSegment (t : Text) : Prop := t ≠ [] ∧ '/' ∉ t

instance : DecidablePred IsSegment := fun t => by unfold IsSegment; infer_instance

/-- The empty string, or a string that begins with a slash. -/
def AtBoundary (r : Text) : Prop := r = [] ∨ ∃ r', r = '/' :: r'

/-- Trailing slashes after a segment do not reach it. -/
theorem trimSlashes_append_segment {t : Text} (ht : IsSegment t) (s r : Text) :
    trimSlashes (s ++ (t ++ r)) = s ++ (t ++ trimSlashes r) := by
  rcases List.eq_nil_or_concat t with h | ⟨t', c, rfl⟩
  · exact absurd h ht.1
  · have hc : (c == '/') = false := by
      simp only [beq_eq_false_iff_ne]
      rintro rfl
      exact ht.2 (by simp)
    have h := rdropWhile_append_cons (· == '/') hc (s ++ t') r
    simpa [trimSlashes] using h

theorem atBoundary_trimSlashes {r : Text} (h : AtBoundary r) : AtBoundary (trimSlashes r) := by
  obtain ⟨n, hn⟩ := exists_trimSlashes_append r
  rcases hr : trimSlashes r with _ | ⟨c, t⟩
  · exact Or.inl rfl
  · rw [hr] at hn
    rcases h with rfl | ⟨r', rfl⟩
    · cases hn
    · rw [List.cons_append] at hn
      exact Or.inr ⟨t, by rw [(List.cons.inj hn).1]⟩

theorem segment?_append {t r : Text} (ht : IsSegment t) (hr : AtBoundary r) :
    segment? (t ++ r) = some (t, r) := by
  have hall : ∀ c ∈ t, (c != '/') = true := by
    intro c hc
    simp only [bne_iff_ne]
    rintro rfl
    exact ht.2 hc
  have htake : (t ++ r).takeWhile (· != '/') = t := by
    rw [List.takeWhile_append_of_pos hall]
    rcases hr with rfl | ⟨r', rfl⟩ <;> simp
  have hdrop : (t ++ r).dropWhile (· != '/') = r := by
    rw [List.dropWhile_append_of_pos hall]
    rcases hr with rfl | ⟨r', rfl⟩ <;> simp
  unfold segment?
  simp only [htake, hdrop, if_neg ht.1]

theorem segment?_eq_some {s t r : Text} (h : segment? s = some (t, r)) :
    s = t ++ r ∧ IsSegment t ∧ AtBoundary r := by
  unfold segment? at h
  simp only [Option.ite_none_left_eq_some, Option.some.injEq, Prod.mk.injEq] at h
  obtain ⟨hne, rfl, rfl⟩ := h
  refine ⟨List.takeWhile_append_dropWhile.symm, ⟨hne, ?_⟩, ?_⟩
  · intro hm
    simpa using List.mem_takeWhile_imp hm
  · unfold AtBoundary
    rcases hd : s.dropWhile (· != '/') with _ | ⟨c, r'⟩
    · exact Or.inl rfl
    · have hc := List.head_dropWhile_not (· != '/') (l := s) (by simp [hd])
      simp only [hd, List.head_cons, bne_eq_false_iff_eq] at hc
      exact Or.inr ⟨r', by rw [hc]⟩

theorem dropPrefix?_eq_some {s p r : Text} : s.dropPrefix? p = some r ↔ s = p ++ r := by
  rw [List.dropPrefix?_eq_some_iff]
  simp

theorem dropPrefix?_append (p r : Text) : (p ++ r).dropPrefix? p = some r :=
  dropPrefix?_eq_some.mpr rfl

/-- The regular expression `^pre[^/]+suf$`, for a suffix at a segment boundary. -/
def oneSegment (pre suf s : Text) : Bool :=
  match s.dropPrefix? pre with
  | some r => match segment? r with
    | some (_, rest) => rest = suf
    | none => false
  | none => false

theorem oneSegment_iff {pre suf s : Text} (hsuf : AtBoundary suf) :
    oneSegment pre suf s = true ↔ ∃ seg, IsSegment seg ∧ s = pre ++ (seg ++ suf) := by
  unfold oneSegment
  constructor
  · intro h
    cases hd : s.dropPrefix? pre with
    | none => rw [hd] at h; simp at h
    | some r =>
      rw [hd] at h
      simp only at h
      cases hs : segment? r with
      | none => rw [hs] at h; simp at h
      | some e =>
        obtain ⟨seg, rest⟩ := e
        rw [hs] at h
        obtain ⟨rfl, hseg, _⟩ := segment?_eq_some hs
        have hrest : rest = suf := by simpa using h
        exact ⟨seg, hseg, by rw [dropPrefix?_eq_some.mp hd, hrest]⟩
  · rintro ⟨seg, hseg, rfl⟩
    rw [dropPrefix?_append]
    simp only
    rw [segment?_append hseg hsuf]
    simp

end Js
