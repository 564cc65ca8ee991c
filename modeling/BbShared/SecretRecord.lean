import BbShared.DeviceKey
import BbShared.Js.Property

/-!
# Secret records

`lib/device-key/envelope.ts` and `record-crypto.ts`: a record whose secret fields are sealed with
the device key.  AES-256-GCM is a pair of functions of which one undoes the other; what it does to
texts that were not sealed with it is left open.

The secret fields in use are members of the record itself.
-/

namespace BbShared

open Js

/-- AES-256-GCM: a ciphertext and a tag, and what they open to under the same key and nonce. -/
structure Aes where
  encrypt : Bytes → Bytes → Bytes → Bytes × Bytes
  decrypt : Bytes → Bytes → Bytes → Bytes → Option Bytes
  tag_length : ∀ key nonce plaintext, (encrypt key nonce plaintext).2.length = 16
  decrypt_encrypt : ∀ key nonce plaintext,
    decrypt key nonce (encrypt key nonce plaintext).1 (encrypt key nonce plaintext).2 =
      some plaintext

/-- The cipher that writes the key before the plaintext, and opens nothing under another one. -/
def Aes.plain : Aes where
  encrypt key _ plaintext := (key ++ plaintext, List.replicate 16 0)
  decrypt key _ ciphertext _ :=
    if key.isPrefixOf ciphertext then some (ciphertext.drop key.length) else none
  tag_length _ _ _ := List.length_replicate
  decrypt_encrypt key _ plaintext := by
    simp [List.isPrefixOf_iff_prefix]

def NONCE_BYTES : ℕ := 12

def TAG_BYTES : ℕ := 16

/-- What 12 random bytes are drawn from. -/
abbrev Nonce := { nonce : Bytes // nonce.length = NONCE_BYTES }

def repeatedNonce (b : UInt8) : Nonce := ⟨List.replicate 12 b, by simp [NONCE_BYTES]⟩

/-! ## Envelopes -/

def SECRET_ENVELOPE_ALG : Text := "AES-256-GCM".toList

structure SecretEnvelope where
  nonce : Text
  ct : Text
  tag : Text

def SecretEnvelope.json (e : SecretEnvelope) : Json :=
  .obj [("v".toList, .num (.ofNat 1)), ("alg".toList, .str SECRET_ENVELOPE_ALG),
    ("nonce".toList, .str e.nonce), ("ct".toList, .str e.ct), ("tag".toList, .str e.tag)]

/-- The value of a numeric member is 1. -/
def isVersionOne : Option Json → Bool
  | some (.num n) => n.toInt? = some 1
  | _ => false

/-- `isSecretEnvelope`, with the envelope that it finds. -/
def secretEnvelope? (value : Json) : Option SecretEnvelope :=
  match value.member "nonce".toList, value.member "ct".toList, value.member "tag".toList with
  | some (.str nonce), some (.str ct), some (.str tag) =>
    if isVersionOne (value.member "v".toList) ∧
        (value.member "alg".toList).bind Json.str? = some SECRET_ENVELOPE_ALG then
      some ⟨nonce, ct, tag⟩
    else none
  | _, _, _ => none

variable (aes : Aes)

/-- `sealSecret`; `none` where it throws. -/
def sealSecret (key : Bytes) (nonce : Nonce) (plaintext : Text) : Option SecretEnvelope :=
  if key.length = SECRET_KEY_BYTES then
    let sealed := aes.encrypt key nonce.1 (utf8Encode plaintext)
    some ⟨base64 nonce.1, base64 sealed.1, base64 sealed.2⟩
  else none

/-- `openSecret`; `none` where it throws. -/
def openSecret (key : Bytes) (e : SecretEnvelope) : Option Text :=
  if key.length = SECRET_KEY_BYTES ∧ (ofBase64 e.nonce).length = NONCE_BYTES ∧
      (ofBase64 e.tag).length = TAG_BYTES then
    (aes.decrypt key (ofBase64 e.nonce) (ofBase64 e.ct) (ofBase64 e.tag)).map utf8Decode
  else none

theorem secretEnvelope?_json (e : SecretEnvelope) : secretEnvelope? e.json = some e := by
  have hone : isVersionOne (some (.num (.ofNat 1))) = true := by
    have h := Number.toInt?_ofNat (n := 1) (by decide)
    simp [isVersionOne, h]
  have hv : isVersionOne (e.json.member "v".toList) = true := hone
  have ha : (e.json.member "alg".toList).bind Json.str? = some SECRET_ENVELOPE_ALG := rfl
  have hnonce : e.json.member "nonce".toList = some (.str e.nonce) := rfl
  have hct : e.json.member "ct".toList = some (.str e.ct) := rfl
  have htag : e.json.member "tag".toList = some (.str e.tag) := rfl
  unfold secretEnvelope?
  simp only [hnonce, hct, htag]
  rw [hv, ha, if_pos ⟨rfl, rfl⟩]

/-- What is sealed opens to itself. -/
theorem openSecret_sealSecret {key : Bytes} {nonce : Nonce} {plaintext : Text} {e : SecretEnvelope}
    (h : sealSecret aes key nonce plaintext = some e) : openSecret aes key e = some plaintext := by
  unfold sealSecret at h
  split_ifs at h with hk
  obtain rfl := Option.some.inj h
  unfold openSecret
  simp only [ofBase64_base64, nonce.2, aes.tag_length, hk, TAG_BYTES, and_self, if_true,
    aes.decrypt_encrypt, Option.map_some, utf8Decode_encode]

/-! ## Records -/

/-- `encryptRecord`; `none` where it throws. -/
def encryptRecord (key : Bytes) (nonce : Nonce) (name : Text) (record : Json) : Option Json :=
  match record.member name with
  | some (.str plaintext) =>
    (sealSecret aes key nonce plaintext).map fun e => setMember name e.json record
  | _ => some record

/-- A record with its secret field opened; `migrated` where the field was not sealed. -/
structure DecryptRecordResult where
  record : Json
  migrated : Bool

/-- `decryptRecord`; `none` where it throws. -/
def decryptRecord (key : Bytes) (name : Text) (atRest : Json) : Option DecryptRecordResult :=
  match atRest.member name with
  | none => some ⟨atRest, false⟩
  | some .null => some ⟨atRest, false⟩
  | some value =>
    match secretEnvelope? value with
    | some e => (openSecret aes key e).map fun text => ⟨setMember name (.str text) atRest, false⟩
    | none =>
      match value with
      | .str _ => some ⟨atRest, true⟩
      | _ => none

def PAYLOAD : Text := "payload".toList

/-- The payload of a decrypted record, where it has one. -/
def DecryptRecordResult.payload (r : DecryptRecordResult) : Option Text :=
  (r.record.member PAYLOAD).bind Json.str?

/-- A record of a payload and other members. -/
def payloadRecord (others : List (Text × Json)) (payload : Text) : Json :=
  .obj (others ++ [(PAYLOAD, .str payload)])

theorem member_payload (others : List (Text × Json)) (value : Json) :
    Json.member PAYLOAD (.obj (others ++ [(PAYLOAD, value)])) = some value := by
  simp [Json.member]

theorem setMember_payload (others : List (Text × Json)) (v w : Json) :
    setMember PAYLOAD w (.obj (others ++ [(PAYLOAD, v)])) =
      .obj (others.map (fun e => if e.1 = PAYLOAD then (PAYLOAD, w) else e) ++ [(PAYLOAD, w)]) := by
  simp [setMember]

/-- **Record round trip.** A sealed record opens to its payload. -/
theorem decryptRecord_encryptRecord {key : Bytes} {nonce : Nonce} {others : List (Text × Json)}
    {payload : Text} {atRest : Json}
    (h : encryptRecord aes key nonce PAYLOAD (payloadRecord others payload) = some atRest) :
    ∃ r, decryptRecord aes key PAYLOAD atRest = some r ∧ r.migrated = false ∧
      r.payload = some payload := by
  unfold encryptRecord payloadRecord at h
  rw [member_payload] at h
  obtain ⟨e, he, rfl⟩ := Option.map_eq_some_iff.mp h
  rw [setMember_payload]
  unfold decryptRecord
  rw [member_payload]
  obtain ⟨l, hl⟩ : ∃ l, e.json = .obj l := ⟨_, rfl⟩
  have henv := secretEnvelope?_json e
  rw [hl] at henv ⊢
  simp only [henv, openSecret_sealSecret aes he, Option.map_some]
  refine ⟨_, rfl, rfl, ?_⟩
  unfold DecryptRecordResult.payload
  simp only
  rw [setMember_payload, member_payload]
  rfl

theorem encryptRecord_isSome (key : RandomKey) (nonce : Nonce) (others : List (Text × Json))
    (payload : Text) :
    ∃ atRest, encryptRecord aes key.1 nonce PAYLOAD (payloadRecord others payload) = some atRest ∧
      atRest ≠ .null := by
  unfold encryptRecord payloadRecord
  rw [member_payload]
  unfold sealSecret
  simp only [key.2, if_true, Option.map_some]
  exact ⟨_, rfl, by simp [setMember]⟩

end BbShared
