import BbShared.Js.OrderedMap
import BbShared.Js.Json
import Mathlib.Data.Rat.Floor
import Mathlib.Data.Set.Finite.Lemmas

/-!
# The token store

`lib/token-store.ts`: invitations (tokens) with their thread shares, and the in-memory store of
them.  A `Token` carries the proof that it has at most one share per thread, and a store that its
tokens are filed under their own ids.

Randomness and the clock are arguments: a mint is given the bytes it draws, the label source and
the time.  HMAC-SHA256 is a keyed injection.
-/

namespace BbShared

open Js

/-! ## Data model -/

inductive Perm where
  | read
  | write
  deriving DecidableEq, Repr

structure Share where
  threadId : Text
  projectId : Text
  perm : Perm
  addedAt : Number
  deriving DecidableEq

/-- An invitation.  `addShare` refuses a second share of a thread. -/
structure Token where
  id : Text
  hash : Text
  label : Text
  shares : List Share
  createdAt : Number
  nodup : (shares.map Share.threadId).Nodup
  deriving DecidableEq

/-- The durable form of an invitation: its bearer in place of its hash. -/
structure TokenSnapshot where
  id : Text
  label : Text
  shares : List Share
  createdAt : Number
  rawToken : Text
  nodup : (shares.map Share.threadId).Nodup
  deriving DecidableEq

inductive StoreError where
  | tokenNotFound (tokenId : Text)
  | shareNotFound (tokenId threadId : Text)
  | duplicateShare (tokenId threadId : Text)
  deriving DecidableEq

/-! ## Token ids and bearers -/

/-- HMAC-SHA256 followed by `base64url`. -/
structure Hmac where
  digest : Bytes → Text → Text

/-- The digest that is the bearer itself. -/
def Hmac.plain : Hmac := ⟨fun _ rawToken => rawToken⟩

def base64urlAlphabet : Text :=
  "ABCDEFGHIJKLMNOPQRSTUVWXYZabcdefghijklmnopqrstuvwxyz0123456789-_".toList

/-- The character of a six-bit value. -/
def base64urlChar (n : ℕ) : Char := base64urlAlphabet.getD n 'A'

/-- Base64 with `-` and `_`, without padding. -/
def base64url : Bytes → Text
  | a :: b :: c :: rest =>
    let n := (a.toNat * 256 + b.toNat) * 256 + c.toNat
    base64urlChar (n / 262144) :: base64urlChar (n / 4096 % 64) :: base64urlChar (n / 64 % 64) ::
      base64urlChar (n % 64) :: base64url rest
  | [a, b] =>
    let n := (a.toNat * 256 + b.toNat) * 4
    [base64urlChar (n / 4096), base64urlChar (n / 64 % 64), base64urlChar (n % 64)]
  | [a] =>
    let n := a.toNat * 16
    [base64urlChar (n / 64), base64urlChar (n % 64)]
  | [] => []

def rawTokenPrefix : Text := "bbsh_".toList

def tokenIdPrefix : Text := "bbsh_".toList

/-- The bearer made of 32 random bytes. -/
def generateRawToken (random : Bytes) : Text := rawTokenPrefix ++ base64url random

/-- The handle made of 9 random bytes. -/
def generateTokenId (random : Bytes) : Text := tokenIdPrefix ++ base64url random

/-! ## Labels -/

def adjectives : List Text :=
  ["brave", "silver", "gentle", "swift", "curious", "clever", "bright", "quiet",
    "sunny", "amber", "hazel", "cosy", "sturdy", "nimble", "eager", "merry",
    "keen", "warm", "olive", "azure", "ruby", "coral", "misty", "sleepy"].map String.toList

def animals : List Text :=
  ["otter", "fox", "badger", "heron", "wren", "hare", "lynx", "owl",
    "seal", "mole", "stoat", "raven", "finch", "moth", "toad", "newt",
    "shrew", "sparrow", "beetle", "crow", "magpie", "gull", "kite", "vole"].map String.toList

/-- The values of `rng()`: at least 0 and below 1. -/
structure Draw where
  val : ℚ
  nonneg : 0 ≤ val
  lt_one : val < 1

def Draw.lowest : Draw := ⟨0, le_rfl, one_pos⟩

/-- The index `Math.floor(rng() * n)`. -/
def Draw.index (r : Draw) (n : ℕ) : ℕ := ⌊r.val * n⌋.toNat

def randomLabel (r r' : Draw) : Text :=
  adjectives.getD (r.index adjectives.length) [] ++ '-' ::
    animals.getD (r'.index animals.length) []

/-- The candidate `base-i`. -/
def suffixed (base : Text) (i : ℕ) : Text := base ++ '-' :: Nat.toDigits 10 i

theorem suffixed_injective (base : Text) : Function.Injective (suffixed base) := by
  intro i j h
  have hd : Nat.toDigits 10 i = Nat.toDigits 10 j := by
    simpa [suffixed] using h
  have := congrArg (Nat.ofDigitChars 10 · 0) hd
  simpa using this

/-- Some suffix from 2 on is not taken. -/
theorem exists_free_suffix (taken : List Text) (base : Text) :
    ∃ i, suffixed base (i + 2) ∉ taken := by
  by_contra h
  push Not at h
  have hinj : Function.Injective fun i => suffixed base (i + 2) := fun i j hij =>
    Nat.add_right_cancel (suffixed_injective base hij)
  exact Set.infinite_range_of_injective hinj
    (taken.finite_toSet.subset (by rintro _ ⟨i, rfl⟩; exact h i))

/-- The label search: `maxAttempts` random labels, then numbered ones. -/
def pickUniqueLabel (taken : List Text) (rng : ℕ → Draw) (maxAttempts : ℕ) : Text :=
  match ((List.range maxAttempts).map fun i => randomLabel (rng (2 * i)) (rng (2 * i + 1))).find?
      fun label => label ∉ taken with
  | some label => label
  | none =>
    let base := randomLabel (rng (2 * maxAttempts)) (rng (2 * maxAttempts + 1))
    suffixed base (Nat.find (exists_free_suffix taken base) + 2)

/-! ## The store -/

structure InMemoryStore where
  hmacKey : Bytes
  tokens : OrderedMap Text Token
  ids : ∀ e ∈ tokens.entries, e.2.id = e.1

namespace InMemoryStore

variable (hmac : Hmac)

/-- A store over the same key. -/
def withTokens (s : InMemoryStore) (tokens : OrderedMap Text Token)
    (ids : ∀ e ∈ tokens.entries, e.2.id = e.1) : InMemoryStore :=
  ⟨s.hmacKey, tokens, ids⟩

@[ext] theorem ext {s t : InMemoryStore} (hk : s.hmacKey = t.hmacKey) (ht : s.tokens = t.tokens) :
    s = t := by
  cases s; cases t; cases hk; cases ht; rfl

/-- File a token under its id. -/
def put (s : InMemoryStore) (t : Token) : InMemoryStore :=
  s.withTokens (s.tokens.set t.id t) fun e he => by
    rcases OrderedMap.mem_entries_set.mp he with rfl | ⟨he, _⟩
    · rfl
    · exact s.ids e he

/-- The store without tokens. -/
def new (hmacKey : Bytes) : InMemoryStore := ⟨hmacKey, OrderedMap.empty, by simp⟩

/-- A saved invitation under the process key. -/
def ofSnapshot (hmacKey : Bytes) (saved : TokenSnapshot) : Token :=
  { id := saved.id, hash := hmac.digest hmacKey saved.rawToken, label := saved.label,
    shares := saved.shares, createdAt := saved.createdAt, nodup := saved.nodup }

/-- The constructor: the saved invitations, in their order. -/
def ofSnapshots (hmacKey : Bytes) (saved : List TokenSnapshot) : InMemoryStore :=
  (saved.map (ofSnapshot hmac hmacKey)).foldl put (new hmacKey)

def listTokens (s : InMemoryStore) : List Token := s.tokens.values

def getToken (s : InMemoryStore) (id : Text) : Option Token := s.tokens.get id

/-- The first token whose hash is the bearer's. -/
def findByRawToken (s : InMemoryStore) (rawToken : Text) : Option Token :=
  s.tokens.values.find? fun t => t.hash = hmac.digest s.hmacKey rawToken

/-- What a mint draws: the bearer bytes, the id bytes of each attempt, and the label source. -/
structure MintDraws where
  raw : Bytes
  ids : List Bytes
  rng : ℕ → Draw

/-- `mintToken`; `none` while every id drawn so far is in use. -/
def mintToken (s : InMemoryStore) (label : Option Text) (now : ℕ) (draws : MintDraws) :
    Option (InMemoryStore × Token × Text) :=
  let label := match label with
    | some label => label
    | none => pickUniqueLabel (s.listTokens.map Token.label) draws.rng 32
  let rawToken := generateRawToken draws.raw
  match (draws.ids.map generateTokenId).find? fun id => !s.tokens.has id with
  | none => none
  | some id =>
    let token : Token :=
      { id, hash := hmac.digest s.hmacKey rawToken, label, shares := [],
        createdAt := Number.ofNat now, nodup := List.nodup_nil }
    some (s.put token, token, rawToken)

def renameToken (s : InMemoryStore) (id label : Text) : Except StoreError InMemoryStore :=
  match s.getToken id with
  | none => .error (.tokenNotFound id)
  | some t => .ok (s.put { t with label })

def deleteToken (s : InMemoryStore) (id : Text) : Except StoreError InMemoryStore :=
  match s.getToken id with
  | none => .error (.tokenNotFound id)
  | some _ =>
    .ok (s.withTokens (s.tokens.erase id) fun e he => s.ids e (OrderedMap.mem_entries_erase.mp he).1)

end InMemoryStore

/-! ## Shares of a token -/

namespace Token

/-- `shares.push`, where the thread has no share yet. -/
def pushShare (t : Token) (s : Share) (h : s.threadId ∉ t.shares.map Share.threadId) : Token :=
  { t with
    shares := t.shares ++ [s]
    nodup := by
      rw [List.map_append, List.nodup_append]
      refine ⟨t.nodup, by simp, ?_⟩
      intro a ha b hb
      simp only [List.map_cons, List.map_nil, List.mem_singleton] at hb
      rw [hb]
      rintro rfl
      exact h ha }

/-- `shares.splice` at the thread's share. -/
def dropShare (t : Token) (threadId : Text) : Token :=
  { t with
    shares := t.shares.eraseP fun s => s.threadId = threadId
    nodup := t.nodup.sublist (List.eraseP_sublist.map _) }

/-- `share.perm = perm` on the thread's share. -/
def setPerm (t : Token) (threadId : Text) (perm : Perm) : Token :=
  { t with
    shares := t.shares.map fun s => if s.threadId = threadId then { s with perm } else s
    nodup := by
      have h : (t.shares.map fun s => if s.threadId = threadId then { s with perm } else s).map
          Share.threadId = t.shares.map Share.threadId := by
        rw [List.map_map]
        refine List.map_congr_left fun s _ => ?_
        by_cases hs : s.threadId = threadId <;> simp [hs]
      rw [h]; exact t.nodup }

end Token

namespace InMemoryStore

structure AddShareInput where
  threadId : Text
  projectId : Text
  perm : Perm

def addShare (s : InMemoryStore) (tokenId : Text) (share : AddShareInput) (now : ℕ) :
    Except StoreError InMemoryStore :=
  match s.getToken tokenId with
  | none => .error (.tokenNotFound tokenId)
  | some t =>
    if h : share.threadId ∈ t.shares.map Share.threadId then
      .error (.duplicateShare tokenId share.threadId)
    else
      .ok (s.put (t.pushShare
        { threadId := share.threadId, projectId := share.projectId, perm := share.perm,
          addedAt := Number.ofNat now } h))

def removeShare (s : InMemoryStore) (tokenId threadId : Text) : Except StoreError InMemoryStore :=
  match s.getToken tokenId with
  | none => .error (.tokenNotFound tokenId)
  | some t =>
    if threadId ∈ t.shares.map Share.threadId then .ok (s.put (t.dropShare threadId))
    else .error (.shareNotFound tokenId threadId)

def updateShare (s : InMemoryStore) (tokenId threadId : Text) (perm : Perm) :
    Except StoreError InMemoryStore :=
  match s.getToken tokenId with
  | none => .error (.tokenNotFound tokenId)
  | some t =>
    if threadId ∈ t.shares.map Share.threadId then .ok (s.put (t.setPerm threadId perm))
    else .error (.shareNotFound tokenId threadId)

/-- `restoreTokens`: the listed tokens and no others. -/
def restoreTokens (s : InMemoryStore) (tokens : List Token) : InMemoryStore :=
  tokens.foldl put (s.withTokens OrderedMap.empty (by simp))

/-! ## The store as a map -/

theorem id_of_getToken {s : InMemoryStore} {id : Text} {t : Token} (h : s.getToken id = some t) :
    t.id = id :=
  s.ids _ (OrderedMap.get_eq_some.mp h)

@[simp] theorem put_hmacKey (s : InMemoryStore) (t : Token) : (s.put t).hmacKey = s.hmacKey := rfl

@[simp] theorem put_tokens (s : InMemoryStore) (t : Token) :
    (s.put t).tokens = s.tokens.set t.id t := rfl

theorem getToken_put (s : InMemoryStore) (t : Token) (id : Text) :
    (s.put t).getToken id = if id = t.id then some t else s.getToken id :=
  OrderedMap.get_set _ _ _ _

theorem foldl_put_hmacKey (l : List Token) (s : InMemoryStore) :
    (l.foldl put s).hmacKey = s.hmacKey := by
  induction l generalizing s with
  | nil => rfl
  | cons t l ih => rw [List.foldl_cons, ih, put_hmacKey]

theorem foldl_put_tokens (l : List Token) (s : InMemoryStore) :
    (l.foldl put s).tokens =
      (l.map fun t => (t.id, t)).foldl (fun m e => m.set e.1 e.2) s.tokens := by
  induction l generalizing s with
  | nil => rfl
  | cons t l ih => rw [List.foldl_cons, ih, put_tokens, List.map_cons, List.foldl_cons]

/-- The entries of a store are its listed tokens under their ids. -/
theorem entries_eq_map (s : InMemoryStore) :
    s.tokens.entries = s.listTokens.map fun t => (t.id, t) := by
  unfold listTokens OrderedMap.values
  rw [List.map_map]
  conv_lhs => rw [← List.map_id s.tokens.entries]
  refine List.map_congr_left fun e he => ?_
  simp [s.ids e he]

theorem nodup_listTokens (s : InMemoryStore) : (s.listTokens.map Token.id).Nodup := by
  have h := s.tokens.nodup
  rw [entries_eq_map, List.map_map] at h
  exact h

/-- Restoring what a store lists gives the store back. -/
theorem restoreTokens_listTokens (s t : InMemoryStore) (hk : t.hmacKey = s.hmacKey) :
    t.restoreTokens s.listTokens = s := by
  apply ext
  · unfold restoreTokens
    rw [foldl_put_hmacKey]; exact hk
  · unfold restoreTokens
    rw [foldl_put_tokens, ← entries_eq_map]
    exact OrderedMap.ofEntries_entries s.tokens

end InMemoryStore

end BbShared
