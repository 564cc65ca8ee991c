import BbShared.Js.Numeral
import BbShared.ConnectionRecord
import BbShared.ShareRecord

/-!
# The connection store

`worker-lifecycle/worker-record.ts`: the snapshot of the connections as one sealed payload.  A record
that cannot be opened makes the store refuse every later save.

`print` writes a double as `JSON.stringify` does.
-/

namespace BbShared

open Js

/-! ## The schema -/

/-- The double of a literal, if it is finite. -/
def numberValue (n : Number) : Option ℚ := n.double.map fun u => (u : ℚ) / 2 ^ 1074

/-- A value or `null`. -/
def readNullable {α : Type*} (read : Json → Option α) : Json → Option (Option α)
  | .null => some none
  | j => (read j).map some

def readNumber : Json → Option ℚ
  | .num n => numberValue n
  | _ => none

def readClaim (j : Json) : Option Claim :=
  match j.member "url".toList, (j.member "expiresAt".toList).bind (readNullable readNumber) with
  | some (.str url), some expiresAt => some ⟨url, expiresAt⟩
  | _, _ => none

/-- `connectionRecordSchema`, but for the checks of the values. -/
def readConnection (j : Json) : Option ConnectionRecord :=
  match j.member "id".toList, j.member "relayId".toList, j.member "url".toList,
    j.member "tunnelSecret".toList, (j.member "claim".toList).bind (readNullable readClaim),
    (j.member "createdAt".toList).bind readNumber with
  | some (.str id), some (.str relayId), some (.str url), some (.str tunnelSecret), some claim,
    some createdAt =>
    if hasOnly (["id", "relayId", "url", "tunnelSecret", "claim", "createdAt"].map String.toList) j
    then some ⟨id, relayId, url, tunnelSecret, claim, createdAt⟩
    else none
  | _, _, _, _, _, _ => none

section Parser

variable (parser : UrlParser)

/-- `snapshotSchema`. -/
def readSnapshotSchema (j : Json) : Option ConnectionSnapshot :=
  match (j.member "defaultId".toList).bind (readNullable Json.str?),
    j.member "connections".toList with
  | some defaultId, some (.arr connections) =>
    if hasOnly (["version", "defaultId", "connections"].map String.toList) j ∧
        isVersionOne (j.member "version".toList) then
      ((connections.mapM readConnection).map (ConnectionSnapshot.mk defaultId)).filter fun s =>
        decide (s.Valid parser)
    else none
  | _, _ => none

end Parser

def writeNullable {α : Type*} (write : α → Json) : Option α → Json
  | none => .null
  | some a => write a

def Claim.json (print : ℚ → Number) (c : Claim) : Json :=
  .obj [("url".toList, .str c.url),
    ("expiresAt".toList, writeNullable (fun q => .num (print q)) c.expiresAt)]

def ConnectionRecord.json (print : ℚ → Number) (r : ConnectionRecord) : Json :=
  .obj [("id".toList, .str r.id), ("relayId".toList, .str r.relayId), ("url".toList, .str r.url),
    ("tunnelSecret".toList, .str r.tunnelSecret),
    ("claim".toList, writeNullable (Claim.json print) r.claim),
    ("createdAt".toList, .num (print r.createdAt))]

def ConnectionSnapshot.json (print : ℚ → Number) (s : ConnectionSnapshot) : Json :=
  .obj [("version".toList, .num (.ofNat 1)), ("defaultId".toList, writeNullable Json.str s.defaultId),
    ("connections".toList, .arr (s.connections.map (ConnectionRecord.json print)))]

/-! ## The store -/

/-- How the reads of a load end: `kv.get` may be rejected, and the provider may give no key. -/
structure RecordRead where
  fault : Option Text
  key : Option RandomKey

/-- A read that goes wrong: it is rejected, or no key that it gets opens the record. -/
def RecordRead.Fails (read : RecordRead) (opens : RandomKey → Bool) : Prop :=
  read.fault ≠ none ∨ ∀ key ∈ read.key, opens key = false

/-- `ConnectionRecordStore`, over its value in the store. -/
structure ConnectionStore where
  kv : Option Json
  unreadable : Bool

namespace ConnectionStore

def couldNotBeDecrypted : Text :=
  ("Saved connections could not be decrypted. Restore the device key or connection storage before " ++
    "making changes.").toList

variable (parser : UrlParser) (aes : Aes)

/-- The snapshot of a record; `none` where the `try` of `load` throws. -/
def read (key : Bytes) (raw : Json) : Option ConnectionSnapshot := do
  let decoded ← decryptRecord aes key PAYLOAD raw
  let payload ← decoded.payload
  let snapshot ← Json.parse payload
  readSnapshotSchema parser snapshot

/-- `load`. -/
def load (s : ConnectionStore) (r : RecordRead) :
    ConnectionStore × Except Text ConnectionSnapshot :=
  match r.fault with
  | some message => (s, .error message)
  | none =>
    match s.kv with
    | none => (s, .ok ⟨none, []⟩)
    | some .null => (s, .ok ⟨none, []⟩)
    | some raw =>
      match r.key.bind fun key => read parser aes key.1 raw with
      | some snapshot => (s, .ok snapshot)
      | none => ({ s with unreadable := true }, .error couldNotBeDecrypted)

/-- `save`, where the schema's error says `invalid`, and the key or the write may fail. -/
def save (print : ℚ → Number) (s : ConnectionStore) (snapshot : ConnectionSnapshot) (invalid : Text)
    (written : Except Text (RandomKey × Nonce)) : Except Text ConnectionStore :=
  if s.unreadable then
    .error "Saved connections need recovery before they can be changed.".toList
  else if ¬ snapshot.Valid parser then .error invalid
  else
    written.map fun w =>
      { s with
        kv := encryptRecord aes w.1.1 w.2 PAYLOAD
          (payloadRecord [] (Json.stringify (snapshot.json print))) }

variable {parser aes}

theorem kv_load (s : ConnectionStore) (r : RecordRead) : (s.load parser aes r).1.kv = s.kv := by
  unfold load
  split
  · rfl
  · split
    · rfl
    · rfl
    · split <;> rfl

/-- **Loads.** A record that does not open makes the load fail. -/
theorem load_of_fails {s : ConnectionStore} {r : RecordRead} {raw : Json} (hkv : s.kv = some raw)
    (hne : raw ≠ .null) (h : r.Fails fun key => (read parser aes key.1 raw).isSome) :
    ∃ message, (s.load parser aes r).2 = .error message := by
  unfold load
  cases hf : r.fault with
  | some message => exact ⟨message, rfl⟩
  | none =>
    have hopens : r.key.bind (fun key => read parser aes key.1 raw) = none := by
      cases hk : r.key with
      | none => rfl
      | some key =>
        have hno := (h.resolve_left fun h0 => h0 hf) key hk
        exact Option.not_isSome_iff_eq_none.mp (Bool.eq_false_iff.mp hno)
    rw [hkv]
    cases raw with
    | null => exact absurd rfl hne
    | _ =>
      simp only [hopens]
      exact ⟨_, rfl⟩

end ConnectionStore

end BbShared
