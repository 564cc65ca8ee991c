import BbShared.ShareQueue

/-!
# The record and the live invitations agree

Between the calls the record opens to the snapshot of the live store, and a call that is rejected
leaves both as it found them.  `Synced` is the invariant; `durable_and_live_agree` is the result,
with what it means for the next process, which hashes the bearers under a key of its own.
-/

namespace BbShared

open Js

variable {hmac : Hmac} {aes : Aes} {key : RandomKey}

/-! ## Bearers and hashes -/

namespace LiveShares

/-- Every token has its bearer, and is hashed from it. -/
def Hashed (hmac : Hmac) (live : LiveShares) : Prop :=
  ∀ id t, live.store.getToken id = some t → ∃ rawToken,
    live.rawTokenById.get id = some rawToken ∧ t.hash = hmac.digest live.store.hmacKey rawToken

variable {live : LiveShares}

/-- A token is replaced by one of the same id and hash. -/
structure Replaces (live : LiveShares) (store : InMemoryStore) (id : Text) : Prop where
  replaced : ∃ t t' : Token, live.store.getToken id = some t ∧ t'.id = id ∧ t'.hash = t.hash ∧
    store = live.store.put t'

theorem Replaces.hashed {store : InMemoryStore} {id : Text} (h : live.Replaces store id)
    (hlive : live.Hashed hmac) : Hashed hmac { live with store } := by
  obtain ⟨t, t', ht, hid, hhash, rfl⟩ := h.replaced
  intro id' u hu
  rw [InMemoryStore.getToken_put] at hu
  split_ifs at hu with hid'
  · obtain rfl := Option.some.inj hu
    obtain ⟨rawToken, hraw, heq⟩ := hlive id t ht
    exact ⟨rawToken, by rw [hid', hid]; exact hraw, hhash.trans heq⟩
  · exact hlive id' u hu

theorem replaces_rename {store : InMemoryStore} {id label : Text}
    (h : live.store.renameToken id label = .ok store) : live.Replaces store id := by
  unfold InMemoryStore.renameToken at h
  cases ht : live.store.getToken id with
  | none => rw [ht] at h; cases h
  | some t =>
    rw [ht] at h
    refine ⟨t, _, ht, ?_, ?_, (Except.ok.inj h).symm⟩
    · exact (InMemoryStore.id_of_getToken ht : t.id = id)
    · rfl

theorem replaces_addShare {store : InMemoryStore} {id : Text} {share : InMemoryStore.AddShareInput}
    {now : ℕ} (h : live.store.addShare id share now = .ok store) : live.Replaces store id := by
  unfold InMemoryStore.addShare at h
  cases ht : live.store.getToken id with
  | none => rw [ht] at h; cases h
  | some t =>
    rw [ht] at h
    simp only at h
    split_ifs at h
    refine ⟨t, _, ht, ?_, ?_, (Except.ok.inj h).symm⟩
    · exact (InMemoryStore.id_of_getToken ht : t.id = id)
    · rfl

theorem replaces_removeShare {store : InMemoryStore} {id threadId : Text}
    (h : live.store.removeShare id threadId = .ok store) : live.Replaces store id := by
  unfold InMemoryStore.removeShare at h
  cases ht : live.store.getToken id with
  | none => rw [ht] at h; cases h
  | some t =>
    rw [ht] at h
    simp only at h
    split_ifs at h
    refine ⟨t, _, ht, ?_, ?_, (Except.ok.inj h).symm⟩
    · exact (InMemoryStore.id_of_getToken ht : t.id = id)
    · rfl

theorem replaces_updateShare {store : InMemoryStore} {id threadId : Text} {perm : Perm}
    (h : live.store.updateShare id threadId perm = .ok store) : live.Replaces store id := by
  unfold InMemoryStore.updateShare at h
  cases ht : live.store.getToken id with
  | none => rw [ht] at h; cases h
  | some t =>
    rw [ht] at h
    simp only at h
    split_ifs at h
    refine ⟨t, _, ht, ?_, ?_, (Except.ok.inj h).symm⟩
    · exact (InMemoryStore.id_of_getToken ht : t.id = id)
    · rfl

theorem Replaces.hmacKey {store : InMemoryStore} {id : Text} (h : live.Replaces store id) :
    store.hmacKey = live.store.hmacKey := by
  obtain ⟨t, t', -, -, -, rfl⟩ := h.replaced
  rfl

/-- What is known after a change: the token that takes its first thread has none. -/
structure Changed (hmac : Hmac) (live live' : LiveShares) (attachment : Attachment) : Prop where
  hmacKey : live'.store.hmacKey = live.store.hmacKey
  hashed : live'.Hashed hmac
  fresh : ∀ a ∈ attachment, ∃ t, live'.store.getToken a.1 = some t ∧ t.shares = []

theorem Replaces.changed {store : InMemoryStore} {id : Text} (h : live.Replaces store id)
    (hlive : live.Hashed hmac) : Changed hmac live { live with store } none :=
  ⟨h.hmacKey, h.hashed hlive, fun a ha => by cases ha⟩

/-- The change of a call that replaces one token. -/
theorem changed_of_map {result : Except StoreError InMemoryStore} {id : Text} {live' : LiveShares}
    {attachment : Attachment} (hlive : live.Hashed hmac)
    (hreplaces : ∀ store, result = .ok store → live.Replaces store id)
    (h : (result.map fun store => (({ live with store } : LiveShares), (none : Attachment))) =
      .ok (live', attachment)) : Changed hmac live live' attachment := by
  cases result with
  | error e => cases h
  | ok store =>
    obtain ⟨rfl, rfl⟩ := Prod.mk.inj (Except.ok.inj h)
    exact (hreplaces store rfl).changed hlive

theorem changed_mint {now : ℕ} {draws : InMemoryStore.MintDraws} {label : Option Text}
    {store : InMemoryStore} {token : Token} {rawToken : Text}
    {firstThread : Option InMemoryStore.AddShareInput} (hlive : live.Hashed hmac)
    (h : live.store.mintToken hmac label now draws = some (store, token, rawToken)) :
    Changed hmac live ⟨store, live.rawTokenById.set token.id rawToken⟩
      (firstThread.map fun f => (token.id, f)) := by
  unfold InMemoryStore.mintToken at h
  simp only at h
  split at h
  · cases h
  · rename_i id _
    obtain ⟨rfl, rfl, rfl⟩ := by simpa only [Option.some.injEq, Prod.mk.injEq] using h
    refine ⟨rfl, ?_, ?_⟩
    · intro id' u hu
      simp only at hu ⊢
      rw [InMemoryStore.getToken_put] at hu
      rw [OrderedMap.get_set]
      split_ifs at hu ⊢ with hid
      · obtain rfl := Option.some.inj hu
        exact ⟨_, rfl, rfl⟩
      · exact hlive id' u hu
    · intro a ha
      obtain ⟨f, -, rfl⟩ := Option.mem_map.mp ha
      exact ⟨_, by rw [InMemoryStore.getToken_put, if_pos rfl], rfl⟩

theorem changed_delete {id : Text} {store : InMemoryStore} (hlive : live.Hashed hmac)
    (h : live.store.deleteToken id = .ok store) :
    Changed hmac live ⟨store, live.rawTokenById.erase id⟩ none := by
  unfold InMemoryStore.deleteToken at h
  cases ht : live.store.getToken id with
  | none => rw [ht] at h; cases h
  | some t =>
    rw [ht] at h
    obtain rfl := Except.ok.inj h
    refine ⟨rfl, ?_, fun a ha => by cases ha⟩
    intro id' u hu
    have hget : (live.store.tokens.erase id).get id' = some u := hu
    rw [OrderedMap.get_erase] at hget
    simp only
    rw [OrderedMap.get_erase]
    split_ifs at hget ⊢
    exact hlive id' u hget

/-- **Changes.** What a call leaves in memory, when it goes through. -/
theorem change_spec {now : ℕ} {draws : InMemoryStore.MintDraws} {call : ShareCall}
    {live' : LiveShares} {attachment : Attachment} (hlive : live.Hashed hmac)
    (h : live.change hmac now draws call = some (.ok (live', attachment))) :
    Changed hmac live live' attachment := by
  cases call with
  | mintToken label firstThread =>
    obtain ⟨⟨store, token, rawToken⟩, hmint, heq⟩ := Option.map_eq_some_iff.mp h
    obtain ⟨rfl, rfl⟩ := Prod.mk.inj (Except.ok.inj heq)
    exact changed_mint hlive hmint
  | renameToken id label =>
    exact changed_of_map hlive (fun _ => replaces_rename) (Option.some.inj h)
  | deleteToken id =>
    have h := Option.some.inj h
    cases hd : live.store.deleteToken id with
    | error e => rw [hd] at h; cases h
    | ok store =>
      rw [hd] at h
      obtain ⟨rfl, rfl⟩ := Prod.mk.inj (Except.ok.inj h)
      exact changed_delete hlive hd
  | addShare tokenId share =>
    exact changed_of_map hlive (fun _ => replaces_addShare) (Option.some.inj h)
  | removeShare tokenId threadId =>
    exact changed_of_map hlive (fun _ => replaces_removeShare) (Option.some.inj h)
  | updateShare tokenId threadId perm =>
    exact changed_of_map hlive (fun _ => replaces_updateShare) (Option.some.inj h)

/-- A call leaves the bearers that were there, and may mint one. -/
theorem within_change {bearers : Set Text} {now : ℕ} {draws : InMemoryStore.MintDraws}
    {call : ShareCall} {live' : LiveShares} {attachment : Attachment}
    (hheld : live.rawTokenById.Within bearers) (hraw : generateRawToken draws.raw ∈ bearers)
    (h : live.change hmac now draws call = some (.ok (live', attachment))) :
    live'.rawTokenById.Within bearers := by
  have hmap : ∀ {result : Except StoreError InMemoryStore} {m : OrderedMap Text Text},
      m.Within bearers → (result.map fun store => ((⟨store, m⟩ : LiveShares), (none : Attachment))) =
        .ok (live', attachment) → live'.rawTokenById.Within bearers := by
    intro result m hm heq
    cases result with
    | error e => cases heq
    | ok store =>
      obtain ⟨rfl, rfl⟩ := Prod.mk.inj (Except.ok.inj heq)
      exact hm
  cases call with
  | mintToken label firstThread =>
    obtain ⟨⟨store, token, rawToken⟩, hmint, heq⟩ := Option.map_eq_some_iff.mp h
    obtain ⟨rfl, rfl⟩ := Prod.mk.inj (Except.ok.inj heq)
    obtain rfl : generateRawToken draws.raw = rawToken := by
      unfold InMemoryStore.mintToken at hmint
      dsimp only at hmint
      split at hmint
      · cases hmint
      · exact congrArg (fun r => r.2.2) (Option.some.inj hmint)
    exact hheld.set token.id hraw
  | deleteToken id => exact hmap (hheld.erase id) (Option.some.inj h)
  | renameToken id label => exact hmap hheld (Option.some.inj h)
  | addShare tokenId share => exact hmap hheld (Option.some.inj h)
  | removeShare tokenId threadId => exact hmap hheld (Option.some.inj h)
  | updateShare tokenId threadId perm => exact hmap hheld (Option.some.inj h)

/-- A token without shares takes its first thread. -/
theorem addShare_fresh (share : InMemoryStore.AddShareInput) (now : ℕ) {id : Text} {t : Token}
    (ht : live.store.getToken id = some t) (hshares : t.shares = []) :
    ∃ store, live.store.addShare id share now = .ok store := by
  unfold InMemoryStore.addShare
  rw [ht]
  have hnot : share.threadId ∉ t.shares.map Share.threadId := by rw [hshares]; simp
  simp only [dif_neg hnot]
  exact ⟨_, rfl⟩

theorem restore_eq {prior : LiveShares} (h : live.store.hmacKey = prior.store.hmacKey) :
    live.restore prior.store.listTokens prior.rawTokenById = prior := by
  unfold restore
  rw [InMemoryStore.restoreTokens_listTokens _ _ h, OrderedMap.ofEntries_entries]

/-! ## Snapshots -/

/-- The bearer of a token; empty where it is missing. -/
def rawTokenOf (live : LiveShares) (t : Token) : Text := (live.rawTokenById.get t.id).getD []

theorem mapM_eq_ok {α β ε : Type*} {f : α → Except ε β} {g : α → β}
    (hfg : ∀ a b, f a = .ok b → b = g a) {l : List α} {r : List β} (h : l.mapM f = .ok r) :
    r = l.map g := by
  induction l generalizing r with
  | nil => exact (Except.ok.inj h).symm
  | cons a l ih =>
    rw [List.mapM_cons] at h
    cases ha : f a with
    | error e => rw [ha] at h; cases h
    | ok b =>
      rw [ha] at h
      cases hl : l.mapM f with
      | error e => rw [hl] at h; cases h
      | ok bs =>
        rw [hl] at h
        obtain rfl := Except.ok.inj h
        rw [List.map_cons, ← hfg a b ha, ← ih hl]

/-- A snapshot has every token, in order, with its bearer. -/
theorem snapshot_eq_ok {tokens : List TokenSnapshot} (h : live.snapshot = .ok tokens) :
    tokens = live.store.listTokens.map fun t => t.snapshot (live.rawTokenOf t) := by
  refine mapM_eq_ok (fun t saved ht => ?_) h
  unfold snapshotOf at ht
  unfold rawTokenOf
  cases hraw : live.rawTokenById.get t.id with
  | none => rw [hraw] at ht; cases ht
  | some rawToken =>
    rw [hraw] at ht
    exact (Except.ok.inj ht).symm

end LiveShares

/-! ## The next process -/

def Token.withoutHash (t : Token) : Token := { t with hash := [] }

/-- A store that answers as the live one does, but for the hashes. -/
structure Answers (hmac : Hmac) (bearers : Set Text) (live store : InMemoryStore) : Prop where
  getToken : ∀ id, (store.getToken id).map Token.withoutHash =
    (live.getToken id).map Token.withoutHash
  findByRawToken : ∀ rawToken ∈ bearers,
    (store.findByRawToken hmac rawToken).map Token.withoutHash =
      (live.findByRawToken hmac rawToken).map Token.withoutHash

theorem InMemoryStore.getToken_eq_find? (s : InMemoryStore) (id : Text) :
    s.getToken id = s.listTokens.find? fun t => t.id = id := by
  unfold getToken OrderedMap.get
  rw [entries_eq_map, List.find?_map, Option.map_map]
  exact congrFun Option.map_id _

/-- The tokens of a restored store. -/
theorem InMemoryStore.listTokens_ofSnapshots (hmacKey : Bytes) {tokens : List TokenSnapshot}
    (h : (tokens.map TokenSnapshot.id).Nodup) :
    (ofSnapshots hmac hmacKey tokens).listTokens = tokens.map (ofSnapshot hmac hmacKey) := by
  have hids :
      (((tokens.map (ofSnapshot hmac hmacKey)).map fun t => (t.id, t)).map Prod.fst).Nodup := by
    rw [List.map_map, List.map_map]
    exact h
  unfold listTokens OrderedMap.values ofSnapshots
  rw [foldl_put_tokens]
  exact (congrArg (List.map Prod.snd) (OrderedMap.entries_ofEntries hids)).trans
    (by rw [List.map_map]; exact List.map_id _)

namespace LiveShares

variable {live : LiveShares}

theorem Hashed.hash_eq (h : live.Hashed hmac) {t : Token} (ht : t ∈ live.store.listTokens) :
    live.rawTokenById.get t.id = some (live.rawTokenOf t) ∧
      t.hash = hmac.digest live.store.hmacKey (live.rawTokenOf t) := by
  have hget : live.store.getToken t.id = some t := by
    refine OrderedMap.get_eq_some.mpr ?_
    rw [InMemoryStore.entries_eq_map]
    exact List.mem_map_of_mem ht
  obtain ⟨rawToken, hraw, hhash⟩ := h t.id t hget
  have hof : live.rawTokenOf t = rawToken := by
    unfold rawTokenOf
    rw [hraw]
    rfl
  exact ⟨hof ▸ hraw, hof ▸ hhash⟩

/-- **Restart.** A store made of the snapshot under another key answers as the live one. -/
theorem answers_of_snapshot {bearers : Set Text} {tokens : List TokenSnapshot}
    (hinj : ∀ key, Set.InjOn (hmac.digest key) bearers) (hlive : live.Hashed hmac)
    (hwithin : live.rawTokenById.Within bearers) (hsnapshot : live.snapshot = .ok tokens)
    (hids : (tokens.map TokenSnapshot.id).Nodup) (hmacKey : Bytes) :
    Answers hmac bearers live.store (.ofSnapshots hmac hmacKey tokens) := by
  let again (t : Token) : Token :=
    InMemoryStore.ofSnapshot hmac hmacKey (t.snapshot (live.rawTokenOf t))
  have hlist : (InMemoryStore.ofSnapshots hmac hmacKey tokens).listTokens =
      live.store.listTokens.map again := by
    rw [InMemoryStore.listTokens_ofSnapshots hmacKey hids, snapshot_eq_ok hsnapshot, List.map_map]
    rfl
  have hkey : (InMemoryStore.ofSnapshots hmac hmacKey tokens).hmacKey = hmacKey := by
    unfold InMemoryStore.ofSnapshots
    exact InMemoryStore.foldl_put_hmacKey _ _
  have hsame : Token.withoutHash ∘ again = Token.withoutHash := rfl
  refine ⟨fun id => ?_, fun rawToken hbearer => ?_⟩
  · rw [InMemoryStore.getToken_eq_find?, InMemoryStore.getToken_eq_find?, hlist, List.find?_map,
      Option.map_map, hsame]
    rfl
  · have hfind : ∀ t ∈ live.store.listTokens,
        ((fun u : Token => decide (u.hash = hmac.digest hmacKey rawToken)) ∘ again) t =
          decide (t.hash = hmac.digest live.store.hmacKey rawToken) := by
      intro t ht
      obtain ⟨hraw, hhash⟩ := hlive.hash_eq ht
      have hmem := hwithin _ (OrderedMap.mem_values_of_get hraw)
      rw [hhash]
      refine decide_eq_decide.mpr ?_
      show hmac.digest hmacKey (live.rawTokenOf t) = hmac.digest hmacKey rawToken ↔ _
      rw [(hinj hmacKey).eq_iff hmem hbearer, (hinj live.store.hmacKey).eq_iff hmem hbearer]
    unfold InMemoryStore.findByRawToken
    rw [hkey]
    show ((InMemoryStore.ofSnapshots hmac hmacKey tokens).listTokens.find? _).map _ =
      (live.store.listTokens.find? _).map _
    rw [hlist, List.find?_map, Option.map_map, hsame, List.find?_congr hfind]

theorem get_rawToken {tokens : List TokenSnapshot} (h : (tokens.map TokenSnapshot.id).Nodup)
    {saved : TokenSnapshot} (hsaved : saved ∈ tokens) (hmacKey : Bytes) :
    (ofLoaded hmac hmacKey tokens).rawTokenById.get saved.id = some saved.rawToken := by
  have hids : ((tokens.map fun t => (t.id, t.rawToken)).map Prod.fst).Nodup := by
    rw [List.map_map]
    exact h
  refine OrderedMap.get_eq_some.mpr ?_
  unfold ofLoaded
  rw [OrderedMap.entries_ofEntries hids]
  exact List.mem_map_of_mem hsaved

/-- The live invitations of a process that has just loaded. -/
theorem hashed_ofLoaded (hmac : Hmac) (hmacKey : Bytes) {tokens : List TokenSnapshot}
    (h : (tokens.map TokenSnapshot.id).Nodup) : (ofLoaded hmac hmacKey tokens).Hashed hmac := by
  intro id t ht
  have hmem := OrderedMap.mem_values_of_get ht
  have hlist : t ∈ (InMemoryStore.ofSnapshots hmac hmacKey tokens).listTokens := hmem
  rw [InMemoryStore.listTokens_ofSnapshots hmacKey h] at hlist
  obtain ⟨saved, hsaved, rfl⟩ := List.mem_map.mp hlist
  obtain rfl : saved.id = id := InMemoryStore.id_of_getToken ht
  have hkey : (ofLoaded hmac hmacKey tokens).store.hmacKey = hmacKey :=
    InMemoryStore.foldl_put_hmacKey _ _
  refine ⟨saved.rawToken, ?_, ?_⟩
  · exact get_rawToken h hsaved hmacKey
  · rw [hkey]
    rfl

/-- What was loaded is the snapshot of what was made of it. -/
theorem snapshot_ofLoaded (hmacKey : Bytes) {tokens : List TokenSnapshot}
    (h : (tokens.map TokenSnapshot.id).Nodup) :
    (ofLoaded hmac hmacKey tokens).snapshot = .ok tokens := by
  have hall : ∀ l : List TokenSnapshot, (∀ t ∈ l, t ∈ tokens) →
      (l.map (InMemoryStore.ofSnapshot hmac hmacKey)).mapM
        (ofLoaded hmac hmacKey tokens).snapshotOf = .ok l := by
    intro l
    induction l with
    | nil => exact fun _ => rfl
    | cons saved l ih =>
      intro hl
      have hone : (ofLoaded hmac hmacKey tokens).snapshotOf
          (InMemoryStore.ofSnapshot hmac hmacKey saved) = .ok saved := by
        unfold snapshotOf
        rw [show (InMemoryStore.ofSnapshot hmac hmacKey saved).id = saved.id from rfl,
          get_rawToken h (hl saved List.mem_cons_self) hmacKey]
        rfl
      rw [List.map_cons, List.mapM_cons, hone, ih fun t ht => hl t (List.mem_cons_of_mem saved ht)]
      rfl
  unfold snapshot
  rw [show (ofLoaded hmac hmacKey tokens).store.listTokens = _ from
    InMemoryStore.listTokens_ofSnapshots hmacKey h]
  exact hall tokens fun t ht => ht

end LiveShares

/-! ## The invariant -/

/-- The record opens to the snapshot of the live invitations. -/
def Durable (aes : Aes) (key : RandomKey) (live : LiveShares) (kv : Option Json) : Prop :=
  ∃ raw tokens, kv = some raw ∧ raw ≠ .null ∧ readShares aes key.1 raw = some (tokens, false) ∧
    live.snapshot = .ok tokens

theorem Durable.recorded {live : LiveShares} {kv : Option Json} (h : Durable aes key live kv) :
    Recorded kv := by
  obtain ⟨raw, tokens, rfl, hne, -, -⟩ := h
  exact ⟨by simp, fun h0 => hne (Option.some.inj h0)⟩

theorem nodup_of_readShares {raw : Json} {tokens : List TokenSnapshot} {migrated : Bool}
    (h : readShares aes key.1 raw = some (tokens, migrated)) :
    (tokens.map TokenSnapshot.id).Nodup := by
  unfold readShares at h
  simp only [Option.bind_eq_bind, Option.bind_eq_some_iff, Option.pure_def, Option.some.injEq,
    Prod.mk.injEq] at h
  obtain ⟨decoded, -, payload, -, state, -, validated, hv, rfl, -⟩ := h
  exact nodup_of_validState hv

variable (aes) in
/-- Whatever is loaded, its ids are distinct. -/
theorem nodup_loadShares (key : Option RandomKey) (written : Option Nonce) (kv : Option Json) :
    ((loadShares aes key written kv).tokens.map TokenSnapshot.id).Nodup := by
  unfold loadShares
  cases kv with
  | none => exact List.nodup_nil
  | some raw =>
    cases key with
    | none => cases raw <;> exact List.nodup_nil
    | some key =>
      cases raw with
      | null => exact List.nodup_nil
      | _ =>
        simp only
        cases hread : readShares aes key.1 _ with
        | none => exact List.nodup_nil
        | some r =>
          obtain ⟨tokens, migrated⟩ := r
          cases migrated with
          | false => exact nodup_of_readShares hread
          | true =>
            simp only
            split
            · exact nodup_of_readShares hread
            · exact List.nodup_nil

namespace ShareQueue

variable {s t : ShareQueue}

def Fulfilled (c : SettledShareCall) : Prop := c.result = .ok ()

/-- The invitations as the last settled call left them. -/
def baseline (s : ShareQueue) : LiveShares :=
  match s.running with
  | none => s.live
  | some op => op.began.1

/-- What is known of the call that runs. -/
def PhaseOk (s : ShareQueue) (op : ShareOperation) : Prop :=
  match op.phase with
  | .operating => s.live = op.began.1
  | .attaching tokenId _ => ∃ t, s.live.store.getToken tokenId = some t ∧ t.shares = []
  | .persisting => True
  | .writing tokens => s.live.snapshot = .ok tokens ∧ validState (stateJson tokens) = some tokens

/-- The call can put back what it found. -/
structure RunningOk (hmac : Hmac) (s : ShareQueue) (op : ShareOperation) : Prop where
  tokens : op.priorTokens = op.began.1.store.listTokens
  raws : op.priorRawTokens = op.began.1.rawTokenById
  hmacKey : s.live.store.hmacKey = op.began.1.store.hmacKey
  kv : op.began.2 = s.kv
  hashed : op.began.1.Hashed hmac
  phase : PhaseOk s op

/-- What a call found is put back. -/
theorem RunningOk.restored {op : ShareOperation} (h : RunningOk hmac s op) :
    s.live.restore op.priorTokens op.priorRawTokens = op.began.1 := by
  rw [h.tokens, h.raws]
  exact LiveShares.restore_eq h.hmacKey

/-- Every call can put back what it found. -/
structure Restorable (hmac : Hmac) (s : ShareQueue) : Prop where
  hashed : s.live.Hashed hmac
  running : ∀ op ∈ s.running, RunningOk hmac s op

structure Synced (hmac : Hmac) (aes : Aes) (key : RandomKey) (s : ShareQueue) : Prop where
  hashed : s.live.Hashed hmac
  recovery : s.recoveryRequired = false
  record : (¬ Recorded s.kv ∧ ∀ c ∈ s.settled, ¬ Fulfilled c) ∨ Durable aes key s.baseline s.kv
  running : ∀ op ∈ s.running, RunningOk hmac s op
  settled : ∀ c ∈ s.settled, ¬ Fulfilled c → c.ended = c.began

theorem baseline_of_idle (h : s.running = none) : s.baseline = s.live := by
  unfold baseline
  rw [h]

theorem baseline_of_running {op : ShareOperation} (h : s.running = some op) :
    s.baseline = op.began.1 := by
  unfold baseline
  rw [h]

/-- What a load leaves agrees with the record. -/
theorem synced_start (hmac : Hmac) (hmacKey : Bytes) {written : Option Nonce} {kv : Option Json}
    (hload : (loadShares aes (some key) written kv).recoveryRequired = false) :
    Synced hmac aes key (start hmac hmacKey (loadShares aes (some key) written kv)) ∧
      (Recorded kv → Recorded (loadShares aes (some key) written kv).kv) := by
  rcases loadShares_spec hload with ⟨hnone, heq⟩ | ⟨-, raw, tokens, heq, hne, hread⟩
  · rw [heq]
    have hids : (([] : List TokenSnapshot).map TokenSnapshot.id).Nodup := List.nodup_nil
    have hhashed := LiveShares.hashed_ofLoaded hmac hmacKey hids
    exact ⟨⟨hhashed, rfl, .inl ⟨hnone, nofun⟩, nofun, nofun⟩, id⟩
  · rw [heq]
    have hids := nodup_of_readShares hread
    have hdurable : Durable aes key (LiveShares.ofLoaded hmac hmacKey tokens) (some raw) :=
      ⟨raw, tokens, rfl, hne, hread, LiveShares.snapshot_ofLoaded hmacKey hids⟩
    exact ⟨⟨LiveShares.hashed_ofLoaded hmac hmacKey hids, rfl, .inr hdurable, nofun, nofun⟩,
      fun _ => hdurable.recorded⟩

/-- The record is written under the key of the process. -/
def KeyIs (key : RandomKey) (_ : ShareQueue) : ShareEvent → Prop
  | .write (.ok w) => w.1 = key
  | _ => True

instance decidableKeyIs (key : RandomKey) (s : ShareQueue) (e : ShareEvent) :
    Decidable (KeyIs key s e) := by
  unfold KeyIs
  split <;> infer_instance

namespace Restorable

theorem rollback_eq (h : Restorable hmac s) {op : ShareOperation} (hr : s.running = some op)
    (message : Text) :
    s.rollback op message = { s with live := op.began.1 }.settle op (.error message) := by
  unfold ShareQueue.rollback
  rw [(h.running op hr).restored]

theorem settle {live : LiveShares} (hlive : live.Hashed hmac) (op : ShareOperation)
    (result : Except Text Unit) : Restorable hmac ({ s with live }.settle op result) :=
  ⟨hlive, fun op' hop' => by cases hop'⟩

theorem rollback (h : Restorable hmac s) {op : ShareOperation} (hr : s.running = some op)
    (message : Text) : Restorable hmac (s.rollback op message) := by
  rw [h.rollback_eq hr]
  exact settle (h.running op hr).hashed op _

/-- The call goes on, with what it changed in memory. -/
theorem proceed (h : Restorable hmac s) {op : ShareOperation} (hr : s.running = some op)
    {live : LiveShares} {phase : SharePhase} (hkey : live.store.hmacKey = s.live.store.hmacKey)
    (hlive : live.Hashed hmac) (hphase : PhaseOk { s with live } { op with phase }) :
    Restorable hmac ({ s with live }.run op phase) := by
  have hop := h.running op hr
  refine ⟨hlive, fun op' hop' => ?_⟩
  obtain rfl := Option.some.inj hop'
  exact ⟨hop.tokens, hop.raws, hkey.trans hop.hmacKey, hop.kv, hop.hashed, hphase⟩

theorem operated (h : Restorable hmac s) {op : ShareOperation} (hr : s.running = some op)
    {changed : Except StoreError (LiveShares × Attachment)}
    (hok : ∀ live attachment, changed = .ok (live, attachment) →
      LiveShares.Changed hmac s.live live attachment) :
    Restorable hmac (s.operated op changed) := by
  cases changed with
  | error e => exact settle h.hashed op _
  | ok result =>
    obtain ⟨live, attachment⟩ := result
    have hchanged := hok live attachment rfl
    cases attachment with
    | none => exact h.proceed hr hchanged.hmacKey hchanged.hashed trivial
    | some a => exact h.proceed hr hchanged.hmacKey hchanged.hashed (hchanged.fresh a rfl)

theorem persist (h : Restorable hmac s) {op : ShareOperation} (hr : s.running = some op) :
    Restorable hmac (s.persist op) := by
  unfold ShareQueue.persist
  cases hsnapshot : s.live.snapshot with
  | error message => exact h.rollback hr message
  | ok tokens =>
    dsimp only [Except.bind]
    unfold prepareShares
    by_cases hrecovery : s.recoveryRequired = true
    · rw [if_pos hrecovery]
      exact h.rollback hr _
    · rw [if_neg hrecovery]
      cases hvalid : validState (stateJson tokens) with
      | none => exact h.rollback hr _
      | some validated =>
        obtain rfl := validState_eq_some hvalid
        exact h.proceed hr rfl h.hashed ⟨hsnapshot, hvalid⟩

theorem write (h : Restorable hmac s) {op : ShareOperation} (hr : s.running = some op)
    (tokens : List TokenSnapshot) (written : Except Text (RandomKey × Nonce)) :
    Restorable hmac (s.write aes op tokens written) := by
  cases written with
  | error message => exact h.rollback hr message
  | ok w => exact ⟨h.hashed, fun op' hop' => by cases hop'⟩

/-- The change of the call that runs. -/
theorem changed (h : Restorable hmac s) {op : ShareOperation} {now : ℕ}
    {draws : InMemoryStore.MintDraws} {result : Except StoreError (LiveShares × Attachment)}
    (hchange : s.live.change hmac now draws op.call = some result) :
    ∀ live attachment, result = .ok (live, attachment) →
      LiveShares.Changed hmac s.live live attachment := by
  rintro live attachment rfl
  exact LiveShares.change_spec h.hashed hchange

/-- The first thread of a mint is always added. -/
theorem attached (h : Restorable hmac s) {op : ShareOperation} (hr : s.running = some op)
    {tokenId : Text} {share : InMemoryStore.AddShareInput} (hp : op.phase = .attaching tokenId share)
    (now : ℕ) : ∃ store, s.live.store.addShare tokenId share now = .ok store ∧
      LiveShares.Changed hmac s.live { s.live with store } none := by
  have hphase := (h.running op hr).phase
  unfold PhaseOk at hphase
  rw [hp] at hphase
  obtain ⟨token, htoken, hshares⟩ := hphase
  obtain ⟨store, hstore⟩ := LiveShares.addShare_fresh share now htoken hshares
  exact ⟨store, hstore, (LiveShares.replaces_addShare hstore).changed h.hashed⟩

/-- **Step lemma.** -/
theorem step (h : Restorable hmac s) {e : ShareEvent} (hstep : s.step hmac aes e = some t) :
    Restorable hmac t := by
  cases Step.of_step hstep with
  | call call =>
    refine ⟨h.hashed, fun op hop => ?_⟩
    have hok := h.running op hop
    exact ⟨hok.tokens, hok.raws, hok.hmacKey, hok.kv, hok.hashed, hok.phase⟩
  | begin hr hw =>
    refine ⟨h.hashed, fun op hop => ?_⟩
    obtain rfl := Option.some.inj hop
    exact ⟨rfl, rfl, rfl, rfl, h.hashed, rfl⟩
  | operate hr hp hchange => exact h.operated hr (h.changed hchange)
  | @attach now op tokenId share hr hp =>
    obtain ⟨store, hstore, hchanged⟩ := h.attached hr hp now
    refine h.operated hr fun live attachment hok => ?_
    rw [hstore] at hok
    obtain ⟨rfl, rfl⟩ := Prod.mk.inj (Except.ok.inj hok)
    exact hchanged
  | persist hr hp => exact h.persist hr
  | write hr hp => exact h.write hr _ _

end Restorable

namespace Synced

theorem restorable (h : Synced hmac aes key s) : Restorable hmac s := ⟨h.hashed, h.running⟩

/-- The part of a step that the record and the settled calls see. -/
theorem of_restorable (ht : Restorable hmac t) (hrecovery : t.recoveryRequired = false)
    (hrecord : (¬ Recorded t.kv ∧ ∀ c ∈ t.settled, ¬ Fulfilled c) ∨ Durable aes key t.baseline t.kv)
    (hsettled : ∀ c ∈ t.settled, ¬ Fulfilled c → c.ended = c.began) : Synced hmac aes key t :=
  ⟨ht.hashed, hrecovery, hrecord, ht.running, hsettled⟩

/-- A call is rejected, and what it found is there again. -/
theorem reject (h : Synced hmac aes key s) {op : ShareOperation} (hr : s.running = some op)
    (message : Text) :
    Synced hmac aes key ({ s with live := op.began.1 }.settle op (.error message)) := by
  have hop := h.running op hr
  have hbase : s.baseline = op.began.1 := baseline_of_running hr
  refine of_restorable (.settle hop.hashed op _) h.recovery ?_ ?_
  · refine h.record.imp (fun hn => ⟨hn.1, fun c hc => ?_⟩) fun hd => hbase ▸ hd
    rcases List.mem_append.mp hc with hc | hc
    · exact hn.2 c hc
    · rw [List.mem_singleton.mp hc]
      exact nofun
  · intro c hc hf
    rcases List.mem_append.mp hc with hc | hc
    · exact h.settled c hc hf
    · rw [List.mem_singleton.mp hc]
      exact Prod.ext rfl hop.kv.symm

theorem rollback (h : Synced hmac aes key s) {op : ShareOperation} (hr : s.running = some op)
    (message : Text) : Synced hmac aes key (s.rollback op message) := by
  rw [h.restorable.rollback_eq hr]
  exact h.reject hr message

/-- The call goes on, with what it changed in memory. -/
theorem proceed (h : Synced hmac aes key s) {op : ShareOperation} (hr : s.running = some op)
    {live : LiveShares} {phase : SharePhase}
    (hrun : Restorable hmac ({ s with live }.run op phase)) :
    Synced hmac aes key ({ s with live }.run op phase) := by
  have hbase : s.baseline = op.began.1 := baseline_of_running hr
  refine of_restorable hrun h.recovery (h.record.imp id fun hd => ?_) h.settled
  rw [hbase] at hd
  exact hd

theorem operated (h : Synced hmac aes key s) {op : ShareOperation} (hr : s.running = some op)
    {changed : Except StoreError (LiveShares × Attachment)}
    (herror : ∀ e, changed = .error e → s.live = op.began.1)
    (hok : ∀ live attachment, changed = .ok (live, attachment) →
      LiveShares.Changed hmac s.live live attachment) :
    Synced hmac aes key (s.operated op changed) := by
  have hrun := h.restorable.operated hr hok
  cases changed with
  | error e =>
    have hreject := h.reject hr (mapStoreError e)
    rw [← herror e rfl] at hreject
    exact hreject
  | ok result =>
    obtain ⟨live, attachment⟩ := result
    cases attachment with
    | none => exact h.proceed hr hrun
    | some a => exact h.proceed hr hrun

theorem persist (h : Synced hmac aes key s) {op : ShareOperation} (hr : s.running = some op) :
    Synced hmac aes key (s.persist op) := by
  have hrun := h.restorable.persist hr
  unfold ShareQueue.persist at hrun ⊢
  cases hprepared : s.live.snapshot.bind (prepareShares s.recoveryRequired) with
  | error message => exact h.rollback hr message
  | ok tokens =>
    rw [hprepared] at hrun
    exact h.proceed hr hrun

theorem write (h : Synced hmac aes key s) {op : ShareOperation} (hr : s.running = some op)
    {tokens : List TokenSnapshot} (hp : op.phase = .writing tokens)
    {written : Except Text (RandomKey × Nonce)} (hkey : ∀ w, written = .ok w → w.1 = key) :
    Synced hmac aes key (s.write aes op tokens written) := by
  cases written with
  | error message => exact h.rollback hr message
  | ok w =>
    obtain ⟨key', nonce⟩ := w
    have hk : key' = key := hkey _ rfl
    subst hk
    have hphase := (h.running op hr).phase
    unfold PhaseOk at hphase
    rw [hp] at hphase
    obtain ⟨raw, hraw, hne, hread⟩ :=
      readShares_sharesRecord aes key' nonce hphase.2
    refine of_restorable (h.restorable.write hr tokens (.ok (key', nonce))) h.recovery
      (.inr ⟨raw, tokens, hraw, hne, hread, hphase.1⟩) ?_
    intro c hc hf
    rcases List.mem_append.mp hc with hc | hc
    · exact h.settled c hc hf
    · rw [List.mem_singleton.mp hc] at hf
      exact absurd rfl hf

/-- **Step lemma.** -/
theorem step (h : Synced hmac aes key s) {e : ShareEvent} (hkey : KeyIs key s e)
    (hstep : s.step hmac aes e = some t) : Synced hmac aes key t := by
  have hrun := h.restorable.step hstep
  cases Step.of_step hstep with
  | call call => exact of_restorable hrun h.recovery h.record h.settled
  | begin hr hw =>
    have hbase := baseline_of_idle hr
    exact of_restorable hrun h.recovery (h.record.imp id fun hd => hbase ▸ hd) h.settled
  | operate hr hp hchange =>
    have hphase := (h.running _ hr).phase
    unfold PhaseOk at hphase
    rw [hp] at hphase
    exact h.operated hr (fun _ _ => hphase) (h.restorable.changed hchange)
  | @attach now op tokenId share hr hp =>
    obtain ⟨store, hstore, hchanged⟩ := h.restorable.attached hr hp now
    rw [hstore]
    refine h.operated hr nofun fun live attachment hok => ?_
    obtain ⟨rfl, rfl⟩ := Prod.mk.inj (Except.ok.inj hok)
    exact hchanged
  | persist hr hp => exact h.persist hr
  | @write op tokens written hr hp =>
    refine h.write hr hp fun w hw => ?_
    rw [hw] at hkey
    exact hkey

end Synced

/-- A step leaves the record, or writes one. -/
theorem recorded_step {e : ShareEvent} (hr : Recorded s.kv) (hstep : s.step hmac aes e = some t) :
    Recorded t.kv := by
  rcases kv_step hstep with hkv | ⟨op, tokens, key, nonce, -, -, -, hkv⟩
  · rwa [hkv]
  · obtain ⟨raw, hraw, hne⟩ := encryptRecord_isSome aes key nonce
      [("version".toList, stateVersion)] (Json.stringify (stateJson tokens))
    have hkv : t.kv = some raw := hkv.trans hraw
    rw [hkv]
    exact ⟨by simp, fun h0 => hne (Option.some.inj h0)⟩

/-! ## The bearers of a run -/

/-- The bearers that are minted are among these. -/
def Draws (bearers : Set Text) : ShareEvent → Prop
  | .operate _ draws => generateRawToken draws.raw ∈ bearers
  | _ => True

instance decidableDraws (rawToken : Text) (e : ShareEvent) : Decidable (Draws {rawToken} e) := by
  unfold Draws
  split <;> infer_instance

/-- The bearers of the live invitations, and those that a call may put back. -/
structure BearersWithin (bearers : Set Text) (s : ShareQueue) : Prop where
  live : s.live.rawTokenById.Within bearers
  prior : ∀ op ∈ s.running, op.priorRawTokens.Within bearers

namespace BearersWithin

variable {bearers : Set Text}

theorem start (hmac : Hmac) (hmacKey : Bytes) {loaded : LoadedShares}
    (hids : (loaded.tokens.map TokenSnapshot.id).Nodup)
    (h : ∀ saved ∈ loaded.tokens, saved.rawToken ∈ bearers) :
    (start hmac hmacKey loaded).BearersWithin bearers := by
  refine ⟨fun rawToken hmem => ?_, nofun⟩
  obtain ⟨e, he, rfl⟩ := List.mem_map.mp hmem
  have hraws : ((loaded.tokens.map fun t => (t.id, t.rawToken)).map Prod.fst).Nodup := by
    rw [List.map_map]
    exact hids
  obtain ⟨saved, hsaved, rfl⟩ := List.mem_map.mp (OrderedMap.entries_ofEntries hraws ▸ he)
  exact h saved hsaved

theorem run (h : s.BearersWithin bearers) {op : ShareOperation} (hr : s.running = some op)
    {live : LiveShares} (hlive : live.rawTokenById.Within bearers) (phase : SharePhase) :
    ({ s with live }.run op phase).BearersWithin bearers := by
  refine ⟨hlive, fun op' hop' => ?_⟩
  obtain rfl := Option.some.inj hop'
  exact h.prior op hr

theorem rollback (h : s.BearersWithin bearers) {op : ShareOperation} (hr : s.running = some op)
    (message : Text) : (s.rollback op message).BearersWithin bearers := by
  have hprior : (s.live.restore op.priorTokens op.priorRawTokens).rawTokenById.Within bearers := by
    unfold LiveShares.restore
    rw [OrderedMap.ofEntries_entries]
    exact h.prior op hr
  exact ⟨hprior, nofun⟩

theorem operated (h : s.BearersWithin bearers) {op : ShareOperation} (hr : s.running = some op)
    {changed : Except StoreError (LiveShares × Attachment)}
    (hok : ∀ live attachment, changed = .ok (live, attachment) →
      live.rawTokenById.Within bearers) : (s.operated op changed).BearersWithin bearers := by
  cases changed with
  | error e => exact ⟨h.live, nofun⟩
  | ok result =>
    obtain ⟨live, attachment⟩ := result
    cases attachment <;> exact h.run hr (hok live _ rfl) _

theorem persist (h : s.BearersWithin bearers) {op : ShareOperation} (hr : s.running = some op) :
    (s.persist op).BearersWithin bearers := by
  unfold ShareQueue.persist
  cases s.live.snapshot.bind (prepareShares s.recoveryRequired) with
  | error message => exact h.rollback hr message
  | ok tokens => exact h.run hr h.live _

theorem step (h : s.BearersWithin bearers) {e : ShareEvent} (hdraws : Draws bearers e)
    (hstep : s.step hmac aes e = some t) : t.BearersWithin bearers := by
  cases Step.of_step hstep with
  | call call => exact ⟨h.live, h.prior⟩
  | begin hr hw =>
    refine ⟨h.live, fun op hop => ?_⟩
    obtain rfl := Option.some.inj hop
    exact h.live
  | operate hr hp hchange =>
    refine h.operated hr fun live attachment hok => ?_
    subst hok
    exact LiveShares.within_change h.live hdraws hchange
  | @attach now op tokenId share hr hp =>
    refine h.operated hr fun live attachment hok => ?_
    cases hstore : s.live.store.addShare tokenId share now with
    | error e => rw [hstore] at hok; cases hok
    | ok store =>
      rw [hstore] at hok
      obtain ⟨rfl, rfl⟩ := Prod.mk.inj (Except.ok.inj hok)
      exact h.live
  | persist hr hp => exact h.persist hr
  | @write op tokens written hr hp =>
    cases written with
    | error message => exact h.rollback hr message
    | ok w => exact ⟨h.live, nofun⟩

end BearersWithin

/-! ## The result -/

/-- What the record and the live invitations have in common. -/
structure Agreed (hmac : Hmac) (aes : Aes) (key : RandomKey) (bearers : Set Text)
    (live : LiveShares) (kv : Option Json) (tokens : List TokenSnapshot) : Prop where
  reads : ∃ raw, kv = some raw ∧ readShares aes key.1 raw = some (tokens, false)
  snapshot : live.snapshot = .ok tokens
  ids : (live.store.listTokens.map Token.id).Nodup ∧ (tokens.map TokenSnapshot.id).Nodup
  threads : ∀ t ∈ live.store.listTokens, (t.shares.map Share.threadId).Nodup
  loads : ∀ written, loadShares aes (some key) written kv = ⟨tokens, false, kv⟩
  restart : ∀ hmacKey,
    Answers hmac bearers live.store (LiveShares.ofLoaded hmac hmacKey tokens).store

theorem agreed_of_durable {bearers : Set Text} {live : LiveShares} {kv : Option Json}
    (hinj : ∀ key, Set.InjOn (hmac.digest key) bearers) (hlive : live.Hashed hmac)
    (hwithin : live.rawTokenById.Within bearers) (h : Durable aes key live kv) :
    ∃ tokens, Agreed hmac aes key bearers live kv tokens := by
  obtain ⟨raw, tokens, rfl, hne, hread, hsnapshot⟩ := h
  have hids := nodup_of_readShares hread
  exact ⟨tokens, {
    reads := ⟨raw, rfl, hread⟩
    snapshot := hsnapshot
    ids := ⟨live.store.nodup_listTokens, hids⟩
    threads := fun t _ => t.nodup
    loads := loadShares_of_readShares hne hread
    restart := LiveShares.answers_of_snapshot hinj hlive hwithin hsnapshot hids }⟩

/-- **Durable and live shares agree.** Whatever the owner calls, in any order, and whichever writes
fail: a rejected call leaves the invitations and the record as it found them, and once there is a
record, it opens between the calls to the live invitations, under any key of the next process.  The
digest is taken to be injective on the bearers that are loaded, minted and asked for. -/
theorem durable_and_live_agree (hmac : Hmac) (aes : Aes) (key : RandomKey) (hmacKey : Bytes)
    {bearers : Set Text} (hinj : ∀ hmacKey, Set.InjOn (hmac.digest hmacKey) bearers)
    {written : Option Nonce} {kv : Option Json} {t : ShareQueue}
    (hload : (loadShares aes (some key) written kv).recoveryRequired = false)
    (hbearers : ∀ saved ∈ (loadShares aes (some key) written kv).tokens, saved.rawToken ∈ bearers)
    (hrun : Machine.Reaches (step hmac aes) (fun s e => KeyIs key s e ∧ Draws bearers e)
      (start hmac hmacKey (loadShares aes (some key) written kv)) t) :
    (∀ c ∈ t.settled, ¬ Fulfilled c → c.ended = c.began) ∧
      (t.running = none → (Recorded kv ∨ ∃ c ∈ t.settled, Fulfilled c) →
        ∃ tokens, Agreed hmac aes key bearers t.live t.kv tokens) := by
  obtain ⟨hsynced, hrecorded⟩ := synced_start hmac hmacKey hload
  have hids := nodup_loadShares aes (some key) written kv
  have hwithin := BearersWithin.start hmac hmacKey hids hbearers
  -- A record that is there stays there, and goes on being the one of the live invitations.
  have hinv := hrun.invariant
    (I := fun u => (Synced hmac aes key u ∧ u.BearersWithin bearers) ∧
      (Recorded kv → Recorded u.kv))
    ⟨⟨hsynced, hwithin⟩, hrecorded⟩ fun u e v hu he hstep =>
      ⟨⟨hu.1.1.step he.1 hstep, hu.1.2.step he.2 hstep⟩, fun hr => recorded_step (hu.2 hr) hstep⟩
  obtain ⟨⟨hsync, hwithin⟩, hkept⟩ := hinv
  refine ⟨hsync.settled, fun hidle hsome => agreed_of_durable hinj hsync.hashed hwithin.live ?_⟩
  rcases hsync.record with ⟨hnone, hfail⟩ | hdurable
  · rcases hsome with hr | ⟨c, hc, hf⟩
    · exact absurd (hkept hr) hnone
    · exact absurd hf (hfail c hc)
  · exact baseline_of_idle hidle ▸ hdurable

/-! ## Two calls -/

def firstDraws : InMemoryStore.MintDraws where
  raw := List.replicate 32 0
  ids := [List.replicate 9 0]
  rng _ := .lowest

def mintedId : Text := generateTokenId (List.replicate 9 0)

def mintedBearer : Text := generateRawToken firstDraws.raw

def firstWrite : RandomKey × Nonce := (repeatedKey 7, repeatedNonce 0)

/-- An invitation is made, with its first thread; its new label cannot be written. -/
def twoCalls : List ShareEvent :=
  [.call (.mintToken none (some ⟨['u'], ['p'], .read⟩)), .call (.renameToken mintedId ['x']), .begin,
    .operate 0 firstDraws, .attach 0, .persist, .write (.ok firstWrite), .begin,
    .operate 0 firstDraws, .persist, .write (.error "disk full".toList)]

def afterTwoCalls : Option ShareQueue :=
  Machine.exec (step .plain .plain)
    (fun s e => KeyIs (repeatedKey 7) s e ∧ Draws {mintedBearer} e)
    (start .plain [] (loadShares .plain (some (repeatedKey 7)) none none)) twoCalls

theorem durable_and_live_agree_twice :
    ∃ (t : ShareQueue) (tokens : List TokenSnapshot),
      Agreed .plain .plain (repeatedKey 7) {mintedBearer} t.live t.kv tokens ∧
      t.settled.map (fun c => c.result.toBool) = [true, false] ∧
      ∀ c ∈ t.settled, ¬ Fulfilled c → c.ended = c.began := by
  have hlast : afterTwoCalls.map (fun t => (t.settled.map fun c => c.result.toBool,
      t.running.isNone)) = some ([true, false], true) := by decide +kernel
  obtain ⟨t, ht, heq⟩ := Option.map_eq_some_iff.mp hlast
  obtain ⟨hresults, hidle⟩ := Prod.mk.inj heq
  obtain ⟨hrejected, hagreed⟩ := durable_and_live_agree .plain .plain (repeatedKey 7) []
    (fun _ => Set.injOn_singleton _ _) rfl (fun _ hsaved => absurd hsaved List.not_mem_nil)
    (Machine.reaches_of_exec ht)
  have hsome : ∃ c ∈ t.settled, Fulfilled c := by
    obtain ⟨c, hc, htrue⟩ := List.mem_map.mp (hresults ▸ List.mem_cons_self : true ∈ _)
    refine ⟨c, hc, ?_⟩
    unfold Fulfilled
    cases hr : c.result with
    | error message => rw [hr] at htrue; cases htrue
    | ok u => rfl
  obtain ⟨tokens, htokens⟩ := hagreed (Option.isNone_iff_eq_none.mp hidle) (.inr hsome)
  exact ⟨t, tokens, htokens, hresults, hrejected⟩

end ShareQueue

end BbShared
