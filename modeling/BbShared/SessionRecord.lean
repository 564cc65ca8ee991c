import BbShared.SecretRecord
import BbShared.Sessions

/-!
# The session record

`guest-gateway/sessions.ts`: what is persisted of the guest sessions, the schema that it is loaded
under, and the limits that both keep to.

`parseSessions_payload` is the round trip of the sessions that the program writes, and
`size_session_le` says that a single one of them always fits.
-/

namespace BbShared

open Js

/-! ## Formats -/

/-- `^bbsh_[A-Za-z0-9_-]{12}$`. -/
def isTokenId (s : Text) : Bool :=
  match s.dropPrefix? tokenIdPrefix with
  | some r => r.length = 12 && r.all isUrlSafe
  | none => false

theorem length_of_isTokenId {s : Text} (h : isTokenId s = true) : s.length = 17 := by
  unfold isTokenId at h
  cases hd : s.dropPrefix? tokenIdPrefix with
  | none => rw [hd] at h; cases h
  | some r =>
    rw [hd] at h
    simp only [Bool.and_eq_true, decide_eq_true_eq] at h
    rw [dropPrefix?_eq_some.mp hd, List.length_append, h.1]
    rfl

theorem isUrlSafe_base64urlChar (n : ℕ) : isUrlSafe (base64urlChar n) = true := by
  have hall : ∀ c ∈ base64urlAlphabet, isUrlSafe c = true := by decide
  unfold base64urlChar
  rw [List.getD_eq_getElem?_getD]
  cases hc : base64urlAlphabet[n]? with
  | none => decide
  | some c => exact hall c (List.mem_of_getElem? hc)

theorem isUrlSafe_of_mem_base64url {bytes : Bytes} {c : Char} (h : c ∈ base64url bytes) :
    isUrlSafe c = true := by
  induction bytes using base64url.induct with
  | case1 x y z rest ih =>
    unfold base64url at h
    simp only [List.mem_cons] at h
    rcases h with rfl | rfl | rfl | rfl | h
    · exact isUrlSafe_base64urlChar _
    · exact isUrlSafe_base64urlChar _
    · exact isUrlSafe_base64urlChar _
    · exact isUrlSafe_base64urlChar _
    · exact ih h
  | case2 x y =>
    unfold base64url at h
    simp only [List.mem_cons, List.not_mem_nil, or_false] at h
    rcases h with rfl | rfl | rfl <;> exact isUrlSafe_base64urlChar _
  | case3 x =>
    unfold base64url at h
    simp only [List.mem_cons, List.not_mem_nil, or_false] at h
    rcases h with rfl | rfl <;> exact isUrlSafe_base64urlChar _
  | case4 => cases h

theorem length_base64url (bytes : Bytes) : (base64url bytes).length = (4 * bytes.length + 2) / 3 := by
  induction bytes using base64url.induct with
  | case1 x y z rest ih =>
    unfold base64url
    simp only [List.length_cons, ih]
    omega
  | case2 x y => simp [base64url]
  | case3 x => simp [base64url]
  | case4 => rfl

/-- What a new session id is drawn from. -/
abbrev RandomId := { bytes : Bytes // bytes.length = 32 }

theorem isSessionId_base64url (random : RandomId) : isSessionId (base64url random.1) = true := by
  unfold isSessionId
  rw [length_base64url, random.2]
  simp only [Bool.and_eq_true, decide_eq_true_eq, List.all_eq_true]
  exact ⟨by decide, fun c hc => isUrlSafe_of_mem_base64url hc⟩

/-! ## The schema -/

/-- The first millisecond that is not before a number of milliseconds. -/
def endOf (n : Number) : ℕ :=
  if n.lit.head? = some '-' then 0 else
    let (p, q) := n.fraction
    (p + q - 1) / q

def readRow (row : Json) : Option Session :=
  match row.member "id".toList, row.member "grants".toList, row.member "expires".toList with
  | some (.str id), some (.arr grants), some (.num expires) =>
    if isSessionId id ∧ grants.length ≤ 128 ∧ expires.isFinite then
      (grants.mapM Json.str?).map fun grants => ⟨id, grants, endOf expires⟩
    else none
  | _, _, _ => none

/-- `schema`. -/
def readRows : Json → Option (List Session)
  | .arr rows => if rows.length ≤ 2048 then rows.mapM readRow else none
  | _ => none

def parseSessions (payload : Text) : Option (List Session) := (Json.parse payload).bind readRows

/-- `Date.now()`: the range of time values. -/
def MAX_TIME : ℕ := 8640000000000000

/-- A session as the program writes it. -/
structure Session.Ok (s : Session) : Prop where
  id : isSessionId s.id = true
  size : s.grants.length ≤ 128
  nodup : s.grants.Nodup
  expires : s.expires ≤ MAX_TIME + sessionTtl

theorem mapM_str (l : List Text) : (l.map Json.str).mapM Json.str? = some l := by
  induction l with
  | nil => rfl
  | cons t l ih => rw [List.map_cons, List.mapM_cons, ih]; rfl

theorem endOf_ofNat (n : ℕ) : endOf (.ofNat n) = n := by
  unfold endOf
  rw [if_neg (Number.head_ofNat n), Number.fraction_ofNat]
  simp

theorem readRow_json {s : Session} (h : s.Ok) : readRow s.json = some s := by
  have hfin : (Number.ofNat s.expires).isFinite = true := by
    refine Number.isFinite_ofNat (h.expires.trans ?_)
    decide
  have hid : s.json.member "id".toList = some (.str s.id) := rfl
  have hgrants : s.json.member "grants".toList = some (.arr (s.grants.map .str)) := rfl
  have hexpires : s.json.member "expires".toList = some (.num (.ofNat s.expires)) := rfl
  unfold readRow
  simp only [hid, hgrants, hexpires]
  rw [if_pos ⟨h.id, by rw [List.length_map]; exact h.size, hfin⟩, mapM_str, endOf_ofNat]
  rfl

/-- **Round trip.** The sessions that the program writes load as they are. -/
theorem parseSessions_payload {rows : List Session} (hok : ∀ s ∈ rows, s.Ok)
    (hsize : rows.length ≤ 2048) : parseSessions (sessionsPayload rows) = some rows := by
  have hrows : ∀ l : List Session, (∀ s ∈ l, s.Ok) → (l.map Session.json).mapM readRow = some l := by
    intro l
    induction l with
    | nil => exact fun _ => rfl
    | cons s l ih =>
      intro hl
      rw [List.map_cons, List.mapM_cons, readRow_json (hl s (by simp)),
        ih fun t ht => hl t (List.mem_cons_of_mem s ht)]
      rfl
  unfold parseSessions sessionsPayload
  rw [Json.parse_stringify, Option.bind_some, readRows, List.length_map, if_pos hsize, hrows rows hok]

/-! ## Sizes -/

/-- A single session fits in the record. -/
theorem size_session_le {s : Session} (h : s.Ok) (hgrants : ∀ g ∈ s.grants, g.length ≤ 17) :
    (utf8Encode (sessionsPayload [s])).length ≤ 160 * 1024 := by
  have hgrant : ∀ g ∈ s.grants, (Json.str g).size + 1 ≤ 207 := by
    intro g hg
    have h1 := Json.size_str_le g
    have h2 := units_le g
    have h3 := hgrants g hg
    omega
  have hsum : ∀ l : List Text, (∀ g ∈ l, (Json.str g).size + 1 ≤ 207) →
      ((l.map Json.str).map fun j => j.size + 1).sum ≤ 207 * l.length := by
    intro l
    induction l with
    | nil => intro _; simp
    | cons g l ih =>
      intro hl
      have h1 := hl g (by simp)
      have h2 := ih fun g hg => hl g (List.mem_cons_of_mem _ hg)
      simp only [List.map_cons, List.sum_cons, List.length_cons]
      omega
  have harr := Json.size_arr_le (s.grants.map .str)
  have hg := hsum s.grants hgrant
  have hid : (Json.str s.id).size ≤ 518 := by
    have h1 := Json.size_str_le s.id
    have h2 := units_le s.id
    have h3 : s.id.length = 43 := by
      have := h.id
      unfold isSessionId at this
      simp only [Bool.and_eq_true, decide_eq_true_eq] at this
      exact this.1
    omega
  have hexpires : (Json.num (.ofNat s.expires)).size ≤ 17 := by
    have hlen : (Nat.toDigits 10 s.expires).length ≤ 17 := by
      rw [Nat.length_toDigits_le_iff (by decide) (by decide)]
      refine Nat.lt_of_le_of_lt h.expires ?_
      decide
    have hascii : ∀ c ∈ Nat.toDigits 10 s.expires, c.toNat ≤ 0x7F := by
      intro c hc
      have hd := Number.mem_toDigits hc
      unfold Char.isDigit at hd
      simp only [Bool.and_eq_true, decide_eq_true_eq] at hd
      exact (UInt32.le_iff_toNat_le.mp hd.2).trans (by decide)
    have hs : (Json.num (.ofNat s.expires)).size = (Nat.toDigits 10 s.expires).length :=
      Json.utf8Length_ascii hascii
    omega
  have hobj := Json.size_obj_le [("id".toList, .str s.id),
    ("grants".toList, .arr (s.grants.map .str)), ("expires".toList, .num (.ofNat s.expires))]
  have hnames : (utf8Encode (Json.quote "id".toList)).length = 4 ∧
      (utf8Encode (Json.quote "grants".toList)).length = 8 ∧
      (utf8Encode (Json.quote "expires".toList)).length = 9 := by decide
  simp only [List.map_cons, List.map_nil, List.sum_cons, List.sum_nil, Json.memberSize,
    hnames.1, hnames.2.1, hnames.2.2] at hobj
  have hpayload := Json.size_arr_le [s.json]
  simp only [List.map_cons, List.map_nil, List.sum_cons, List.sum_nil] at hpayload
  have hlen := h.size
  show (Json.arr [s.json]).size ≤ _
  unfold Session.json at hpayload ⊢
  omega

end BbShared
