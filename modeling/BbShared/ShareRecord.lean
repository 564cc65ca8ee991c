import BbShared.Gateway
import BbShared.SessionRecord

/-!
# The share state record

`lib/share-state-record.ts`: the invitations with their bearers, as the owner's record holds them.
The schema is strict, and ids and the threads of an invitation are distinct; what the program writes
loads as it is.

A number keeps the literal that it was read from, where the program writes the same double anew.
-/

namespace BbShared

open Js

/-! ## What is written -/

def Perm.text : Perm → Text
  | .read => "read".toList
  | .write => "write".toList

def permOf (s : Text) : Option Perm :=
  if s = "read".toList then some .read else if s = "write".toList then some .write else none

theorem permOf_text (p : Perm) : permOf p.text = some p := by
  cases p <;> decide

def Share.json (s : Share) : Json :=
  .obj [("thread_id".toList, .str s.threadId), ("project_id".toList, .str s.projectId),
    ("perm".toList, .str s.perm.text), ("added_at".toList, .num s.addedAt)]

def TokenSnapshot.json (t : TokenSnapshot) : Json :=
  .obj [("id".toList, .str t.id), ("label".toList, .str t.label),
    ("shares".toList, .arr (t.shares.map Share.json)), ("created_at".toList, .num t.createdAt),
    ("rawToken".toList, .str t.rawToken)]

/-- `STATE_VERSION`. -/
def stateVersion : Json := .num (.ofNat 1)

def stateJson (tokens : List TokenSnapshot) : Json :=
  .obj [("version".toList, stateVersion), ("tokens".toList, .arr (tokens.map TokenSnapshot.json))]

/-! ## What is accepted -/

/-- An object with no other members than these. -/
def hasOnly (names : List Text) : Json → Bool
  | .obj l => l.all fun e => e.1 ∈ names
  | _ => false

/-- What `shareSchema` asks of the values. -/
def Share.Ok (s : Share) : Prop := s.threadId ≠ [] ∧ s.projectId ≠ [] ∧ s.addedAt.isFinite = true

instance decidableShareOk (s : Share) : Decidable s.Ok := inferInstanceAs (Decidable (_ ∧ _))

/-- What `stateSchema` asks of the values of an invitation. -/
def TokenSnapshot.Ok (t : TokenSnapshot) : Prop :=
  isTokenId t.id = true ∧ 1 ≤ units t.label ∧ units t.label ≤ 64 ∧ (∀ s ∈ t.shares, s.Ok) ∧
    t.createdAt.isFinite = true ∧ isBearer t.rawToken = true

instance decidableSnapshotOk (t : TokenSnapshot) : Decidable t.Ok :=
  inferInstanceAs (Decidable (_ ∧ _))

/-- `shareSchema`. -/
def readShare (j : Json) : Option Share :=
  match j.member "thread_id".toList, j.member "project_id".toList, j.member "perm".toList,
    j.member "added_at".toList with
  | some (.str threadId), some (.str projectId), some (.str perm), some (.num addedAt) =>
    match permOf perm with
    | some perm =>
      let share : Share := ⟨threadId, projectId, perm, addedAt⟩
      if hasOnly (["thread_id", "project_id", "perm", "added_at"].map String.toList) j ∧
          share.Ok then
        some share
      else none
    | none => none
  | _, _, _, _ => none

/-- An element of `tokens` in `stateSchema`, with distinct threads. -/
def readSnapshot (j : Json) : Option TokenSnapshot :=
  match j.member "id".toList, j.member "label".toList, j.member "shares".toList,
    j.member "created_at".toList, j.member "rawToken".toList with
  | some (.str id), some (.str label), some (.arr shares), some (.num createdAt),
    some (.str rawToken) =>
    match shares.mapM readShare with
    | some shares =>
      if h : (shares.map Share.threadId).Nodup then
        let token : TokenSnapshot := ⟨id, label, shares, createdAt, rawToken, h⟩
        if hasOnly (["id", "label", "shares", "created_at", "rawToken"].map String.toList) j ∧
            token.Ok then
          some token
        else none
      else none
    | none => none
  | _, _, _, _, _ => none

/-- `validState`. -/
def validState (j : Json) : Option (List TokenSnapshot) :=
  match j.member "tokens".toList with
  | some (.arr tokens) =>
    if hasOnly (["version", "tokens"].map String.toList) j ∧
        isVersionOne (j.member "version".toList) then
      match tokens.mapM readSnapshot with
      | some tokens => if (tokens.map TokenSnapshot.id).Nodup then some tokens else none
      | none => none
    else none
  | _ => none

/-! ## Round trip -/

theorem readShare_json (s : Share) : readShare s.json = if s.Ok then some s else none := by
  have ht : s.json.member "thread_id".toList = some (.str s.threadId) := rfl
  have hp : s.json.member "project_id".toList = some (.str s.projectId) := rfl
  have hperm : s.json.member "perm".toList = some (.str s.perm.text) := rfl
  have ha : s.json.member "added_at".toList = some (.num s.addedAt) := rfl
  have hkeys : hasOnly (["thread_id", "project_id", "perm", "added_at"].map String.toList) s.json =
      true := rfl
  unfold readShare
  simp only [ht, hp, hperm, ha, permOf_text, hkeys, true_and]

/-- A reader that takes each element of a list or fails. -/
theorem mapM_of_ite {α : Type*} {P : α → Prop} [DecidablePred P] {write : α → Json}
    {read : Json → Option α} (h : ∀ a, read (write a) = if P a then some a else none) (l : List α) :
    (l.map write).mapM read = if ∀ a ∈ l, P a then some l else none := by
  induction l with
  | nil => rfl
  | cons a l ih =>
    rw [List.map_cons, List.mapM_cons, h a, ih]
    by_cases ha : P a
    · by_cases hl : ∀ b ∈ l, P b
      · have hall : ∀ b ∈ a :: l, P b := List.forall_mem_cons.mpr ⟨ha, hl⟩
        rw [if_pos ha, if_pos hl, if_pos hall]
        rfl
      · have hall : ¬ ∀ b ∈ a :: l, P b := fun h => hl (List.forall_mem_cons.mp h).2
        rw [if_pos ha, if_neg hl, if_neg hall]
        rfl
    · have hall : ¬ ∀ b ∈ a :: l, P b := fun h => ha (List.forall_mem_cons.mp h).1
      rw [if_neg ha, if_neg hall]
      rfl

theorem readSnapshot_json (t : TokenSnapshot) :
    readSnapshot t.json = if t.Ok then some t else none := by
  have hid : t.json.member "id".toList = some (.str t.id) := rfl
  have hlabel : t.json.member "label".toList = some (.str t.label) := rfl
  have hshares : t.json.member "shares".toList = some (.arr (t.shares.map Share.json)) := rfl
  have hcreated : t.json.member "created_at".toList = some (.num t.createdAt) := rfl
  have hraw : t.json.member "rawToken".toList = some (.str t.rawToken) := rfl
  have hkeys : hasOnly (["id", "label", "shares", "created_at", "rawToken"].map String.toList)
      t.json = true := rfl
  unfold readSnapshot
  simp only [hid, hlabel, hshares, hcreated, hraw, mapM_of_ite readShare_json]
  by_cases hok : ∀ s ∈ t.shares, s.Ok
  · simp only [if_pos hok, dif_pos t.nodup, hkeys, true_and]
  · rw [if_neg hok]
    exact (if_neg fun h => hok h.2.2.2.1).symm

/-- **The writer checks.** A list of invitations is accepted as it is, or not at all. -/
theorem validState_stateJson (tokens : List TokenSnapshot) :
    validState (stateJson tokens) =
      if (∀ t ∈ tokens, t.Ok) ∧ (tokens.map TokenSnapshot.id).Nodup then some tokens else none := by
  have htokens : (stateJson tokens).member "tokens".toList =
      some (.arr (tokens.map TokenSnapshot.json)) := rfl
  have hkeys : hasOnly (["version", "tokens"].map String.toList) (stateJson tokens) = true := rfl
  have hversion : isVersionOne ((stateJson tokens).member "version".toList) = true := by
    have h := Number.toInt?_ofNat (n := 1) (by decide)
    show isVersionOne (some (.num (.ofNat 1))) = true
    simp [isVersionOne, h]
  unfold validState
  simp only [htokens, hkeys, hversion, mapM_of_ite readSnapshot_json, and_self, if_true]
  by_cases hok : ∀ t ∈ tokens, t.Ok
  · by_cases hids : (tokens.map TokenSnapshot.id).Nodup
    · rw [if_pos hok, if_pos ⟨hok, hids⟩]
      exact if_pos hids
    · rw [if_pos hok, if_neg fun h => hids h.2]
      exact if_neg hids
  · rw [if_neg hok, if_neg fun h => hok h.1]

theorem validState_eq_some {tokens validated : List TokenSnapshot}
    (h : validState (stateJson tokens) = some validated) : validated = tokens := by
  rw [validState_stateJson] at h
  split_ifs at h
  exact (Option.some.inj h).symm

theorem nodup_of_validState {j : Json} {tokens : List TokenSnapshot}
    (h : validState j = some tokens) : (tokens.map TokenSnapshot.id).Nodup := by
  unfold validState at h
  split at h
  · split_ifs at h
    split at h
    · split_ifs at h with hids
      obtain rfl := Option.some.inj h
      exact hids
    · cases h
  · cases h

/-! ## The record -/

variable (aes : Aes)

/-- What `save` puts in the store for validated invitations. -/
def sharesRecord (key : RandomKey) (nonce : Nonce) (tokens : List TokenSnapshot) : Option Json :=
  encryptRecord aes key.1 nonce PAYLOAD
    (payloadRecord [("version".toList, stateVersion)] (Json.stringify (stateJson tokens)))

/-- The invitations of a record that opens, and whether its payload was not sealed; `none` where the
`try` of `load` throws. -/
def readShares (key : Bytes) (raw : Json) : Option (List TokenSnapshot × Bool) := do
  let decoded ← decryptRecord aes key PAYLOAD raw
  let payload ← decoded.payload
  let state ← Json.parse payload
  let tokens ← validState state
  pure (tokens, decoded.migrated)

/-- What `load` leaves. -/
structure LoadedShares where
  tokens : List TokenSnapshot
  recoveryRequired : Bool
  kv : Option Json

/-- `load`: the key that the provider gives, if it gives one, and the nonce with which a migrated
record is saved again, if that write succeeds. -/
def loadShares (key : Option RandomKey) (written : Option Nonce) (kv : Option Json) :
    LoadedShares :=
  match kv with
  | none => ⟨[], false, kv⟩
  | some .null => ⟨[], false, kv⟩
  | some raw =>
    match key with
    | none => ⟨[], true, kv⟩
    | some key =>
      match readShares aes key.1 raw with
      | none => ⟨[], true, kv⟩
      | some (tokens, false) => ⟨tokens, false, kv⟩
      | some (tokens, true) =>
        match validState (stateJson tokens), written with
        | some validated, some nonce => ⟨tokens, false, sharesRecord aes key nonce validated⟩
        | _, _ => ⟨[], true, kv⟩

/-- A value that a load takes for a record. -/
def Recorded (kv : Option Json) : Prop := kv ≠ none ∧ kv ≠ some .null

variable {aes}

/-- **Record round trip.** What `save` writes is read back, sealed. -/
theorem readShares_sharesRecord (aes : Aes) (key : RandomKey) (nonce : Nonce)
    {tokens : List TokenSnapshot} (h : validState (stateJson tokens) = some tokens) :
    ∃ raw, sharesRecord aes key nonce tokens = some raw ∧ raw ≠ .null ∧
      readShares aes key.1 raw = some (tokens, false) := by
  obtain ⟨raw, hraw, hne⟩ := encryptRecord_isSome aes key nonce
    [("version".toList, stateVersion)] (Json.stringify (stateJson tokens))
  obtain ⟨r, hr, hm, hp⟩ := decryptRecord_encryptRecord aes hraw
  refine ⟨raw, hraw, hne, ?_⟩
  unfold readShares
  simp only [hr, hp, hm, Json.parse_stringify, h, Option.bind_eq_bind, Option.bind_some,
    Option.pure_def]

theorem loadShares_of_readShares {key : RandomKey} {raw : Json} {tokens : List TokenSnapshot}
    (hne : raw ≠ .null) (h : readShares aes key.1 raw = some (tokens, false))
    (written : Option Nonce) :
    loadShares aes (some key) written (some raw) = ⟨tokens, false, some raw⟩ := by
  unfold loadShares
  cases raw with
  | null => exact absurd rfl hne
  | _ => simp only [h]

/-- **A load that needs no recovery.** There was no record, or there is one now that reads as what
was loaded. -/
theorem loadShares_spec {key : RandomKey} {written : Option Nonce} {kv : Option Json}
    (h : (loadShares aes (some key) written kv).recoveryRequired = false) :
    ¬ Recorded kv ∧ loadShares aes (some key) written kv = ⟨[], false, kv⟩ ∨
      Recorded kv ∧ ∃ raw tokens, loadShares aes (some key) written kv = ⟨tokens, false, some raw⟩ ∧
        raw ≠ .null ∧ readShares aes key.1 raw = some (tokens, false) := by
  unfold loadShares at h ⊢
  split at h
  · exact .inl ⟨fun hr => hr.1 rfl, rfl⟩
  · exact .inl ⟨fun hr => hr.2 rfl, rfl⟩
  · rename_i raw hne
    have hraw : raw ≠ .null := hne
    simp only at h ⊢
    have hrec : Recorded (some raw) := ⟨by simp, fun h0 => hraw (Option.some.inj h0)⟩
    refine .inr ⟨hrec, ?_⟩
    cases hr : readShares aes key.1 raw with
    | none => rw [hr] at h; cases h
    | some r =>
      obtain ⟨tokens, migrated⟩ := r
      rw [hr] at h
      cases migrated with
      | false => exact ⟨raw, tokens, rfl, hraw, hr⟩
      | true =>
        simp only at h ⊢
        cases hv : validState (stateJson tokens) with
        | none => rw [hv] at h; cases h
        | some validated =>
          cases written with
          | none => rw [hv] at h; cases h
          | some nonce =>
            obtain rfl := validState_eq_some hv
            obtain ⟨saved, hsaved, hne', hread⟩ :=
              readShares_sharesRecord aes key nonce hv
            exact ⟨saved, validated, by simp only [hsaved], hne', hread⟩

end BbShared
