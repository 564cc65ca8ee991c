import BbShared.ShareDurability

/-!
# What the owner's calls do

The invitations as the owner knows them are a list of snapshots, and a call does one thing to the
list, at once.  The live store and the bearers stand for such a list, and what `change` makes of
them stands for what the call does.
-/

namespace BbShared

open Js

/-! ## The calls on the list -/

/-- The share that is added. -/
def InMemoryStore.AddShareInput.share (s : InMemoryStore.AddShareInput) (now : ℕ) : Share :=
  ⟨s.threadId, s.projectId, s.perm, Number.ofNat now⟩

/-- What a call does to the invitation that it names. -/
inductive Edits : ShareCall → TokenSnapshot → TokenSnapshot → Prop
  | rename (t : TokenSnapshot) (label : Text) : Edits (.renameToken t.id label) t { t with label }
  | addShare (t : TokenSnapshot) (share : InMemoryStore.AddShareInput) (now : ℕ)
      (nodup : ((t.shares ++ [share.share now]).map Share.threadId).Nodup) :
      Edits (.addShare t.id share) t { t with shares := t.shares ++ [share.share now], nodup }
  | removeShare (t : TokenSnapshot) {threadId : Text}
      (shared : threadId ∈ t.shares.map Share.threadId)
      (nodup : ((t.shares.filter fun s => s.threadId ≠ threadId).map Share.threadId).Nodup) :
      Edits (.removeShare t.id threadId) t
        { t with shares := t.shares.filter fun s => s.threadId ≠ threadId, nodup }
  | updateShare (t : TokenSnapshot) {threadId : Text} (perm : Perm)
      (shared : threadId ∈ t.shares.map Share.threadId)
      (nodup : ((t.shares.map fun s => if s.threadId = threadId then { s with perm } else s).map
        Share.threadId).Nodup) :
      Edits (.updateShare t.id threadId perm) t
        { t with
          shares := t.shares.map fun s => if s.threadId = threadId then { s with perm } else s
          nodup }

/-- What a call does to the invitations. -/
inductive Does : ShareCall → List TokenSnapshot → List TokenSnapshot → Prop
  | mint {l : List TokenSnapshot} {t : TokenSnapshot} {label : Option Text}
      {firstThread : Option InMemoryStore.AddShareInput} (fresh : t.id ∉ l.map TokenSnapshot.id)
      (named : ∀ x ∈ label, t.label = x)
      (shares : ∃ now, t.shares = firstThread.toList.map (·.share now)) :
      Does (.mintToken label firstThread) l (l ++ [t])
  | edit {call : ShareCall} {l : List TokenSnapshot} {t t' : TokenSnapshot} (mem : t ∈ l)
      (edits : Edits call t t') : Does call l (l.map fun u => if u.id = t.id then t' else u)
  | delete {l : List TokenSnapshot} {id : Text} (mem : id ∈ l.map TokenSnapshot.id) :
      Does (.deleteToken id) l (l.filter fun u => u.id ≠ id)

/-! ## The live invitations -/

/-- The share of a thread is dropped wherever it stands. -/
theorem eraseP_eq_filter {l : List Share} (h : (l.map Share.threadId).Nodup) (threadId : Text) :
    l.eraseP (fun s => s.threadId = threadId) = l.filter fun s => s.threadId ≠ threadId := by
  induction l with
  | nil => rfl
  | cons s l ih =>
    rw [List.map_cons, List.nodup_cons] at h
    by_cases hs : s.threadId = threadId
    · have hrest : ∀ u ∈ l, u.threadId ≠ threadId := by
        rintro u hu rfl
        exact h.1 (hs ▸ List.mem_map_of_mem hu)
      rw [List.eraseP_cons_of_pos (by simpa using hs), List.filter_cons_of_neg (by simpa using hs)]
      exact (List.filter_eq_self.mpr fun u hu => by simpa using hrest u hu).symm
    · rw [List.eraseP_cons_of_neg (by simpa using hs), List.filter_cons_of_pos (by simpa using hs),
        ih h.2]

namespace InMemoryStore

variable {s : InMemoryStore}

theorem listTokens_put {t t' : Token} (h : s.getToken t'.id = some t) :
    (s.put t').listTokens = s.listTokens.map fun u => if u.id = t'.id then t' else u := by
  have hk : t'.id ∈ s.tokens.keys := OrderedMap.mem_keys_of_get h
  unfold listTokens OrderedMap.values
  rw [put_tokens, OrderedMap.entries_set_of_mem hk, List.map_map, List.map_map]
  refine List.map_congr_left fun e he => ?_
  simp only [Function.comp_apply]
  rw [s.ids e he]
  split_ifs <;> rfl

theorem listTokens_put_new {t : Token} (h : s.getToken t.id = none) :
    (s.put t).listTokens = s.listTokens ++ [t] := by
  unfold listTokens OrderedMap.values
  rw [put_tokens, OrderedMap.entries_set_of_not_mem (OrderedMap.get_eq_none.mp h), List.map_append]
  rfl

theorem listTokens_deleteToken {t : InMemoryStore} {id : Text} (h : s.deleteToken id = .ok t) :
    t.listTokens = s.listTokens.filter (fun u => u.id ≠ id) ∧ (s.getToken id).isSome = true := by
  unfold deleteToken at h
  cases ht : s.getToken id with
  | none => rw [ht] at h; cases h
  | some u =>
    rw [ht] at h
    obtain rfl := Except.ok.inj h
    refine ⟨?_, rfl⟩
    unfold listTokens OrderedMap.values withTokens OrderedMap.erase
    simp only
    rw [List.filter_map]
    congr 1
    refine List.filter_congr fun e he => ?_
    simp only [Function.comp_apply, s.ids e he]

end InMemoryStore

namespace LiveShares

variable {hmac : Hmac} {live live' : LiveShares}

/-- The invitations that the store and the bearers stand for. -/
def invitations (live : LiveShares) : List TokenSnapshot :=
  live.store.listTokens.map fun t => t.snapshot (live.rawTokenOf t)

/-- Where every token has its bearer, they are the snapshot. -/
theorem Hashed.snapshot (h : live.Hashed hmac) : live.snapshot = .ok live.invitations := by
  have hall : ∀ l : List Token, (∀ t ∈ l, t ∈ live.store.listTokens) →
      l.mapM live.snapshotOf = .ok (l.map fun t => t.snapshot (live.rawTokenOf t)) := by
    intro l
    induction l with
    | nil => exact fun _ => rfl
    | cons t l ih =>
      intro hl
      have hone : live.snapshotOf t = .ok (t.snapshot (live.rawTokenOf t)) := by
        unfold snapshotOf
        rw [(h.hash_eq (hl t List.mem_cons_self)).1]
      rw [List.mapM_cons, hone, ih fun u hu => hl u (List.mem_cons_of_mem t hu)]
      rfl
  exact hall _ fun t ht => ht

theorem ids_invitations (live : LiveShares) :
    live.invitations.map TokenSnapshot.id = live.store.listTokens.map Token.id := by
  unfold invitations
  rw [List.map_map]
  rfl

theorem mem_invitations {id : Text} {t : Token} (h : live.store.getToken id = some t) :
    t.snapshot (live.rawTokenOf t) ∈ live.invitations := by
  have ht : t ∈ live.store.listTokens := OrderedMap.mem_values_of_get h
  exact List.mem_map_of_mem ht

/-- One token is replaced by another of its id. -/
theorem invitations_put {t t' : Token} (h : live.store.getToken t'.id = some t) :
    invitations { live with store := live.store.put t' } =
      live.invitations.map fun u =>
        if u.id = t'.id then t'.snapshot (live.rawTokenOf t') else u := by
  unfold invitations
  simp only
  rw [InMemoryStore.listTokens_put h, List.map_map, List.map_map]
  refine List.map_congr_left fun u _ => ?_
  simp only [Function.comp_apply]
  by_cases hu : u.id = t'.id
  · rw [if_pos hu]
    exact (if_pos hu).symm
  · rw [if_neg hu]
    exact (if_neg hu).symm

/-- An edit of a token does what the call does. -/
theorem does_put {call : ShareCall} {t t' : Token} {id : Text}
    (h : live.store.getToken id = some t) (hid : t'.id = t.id)
    (hedits : Edits call (t.snapshot (live.rawTokenOf t)) (t'.snapshot (live.rawTokenOf t))) :
    Does call live.invitations (invitations { live with store := live.store.put t' }) := by
  have hget : live.store.getToken t'.id = some t := by
    rw [hid, InMemoryStore.id_of_getToken h]
    exact h
  have hraw : live.rawTokenOf t' = live.rawTokenOf t := by
    unfold rawTokenOf
    rw [hid]
  rw [invitations_put hget, hid, hraw]
  exact .edit (mem_invitations h) hedits

theorem does_rename {id label : Text} {store : InMemoryStore}
    (h : live.store.renameToken id label = .ok store) :
    Does (.renameToken id label) live.invitations (invitations { live with store }) := by
  unfold InMemoryStore.renameToken at h
  cases ht : live.store.getToken id with
  | none => rw [ht] at h; cases h
  | some t =>
    rw [ht] at h
    obtain rfl := Except.ok.inj h
    obtain rfl : t.id = id := InMemoryStore.id_of_getToken ht
    exact does_put ht rfl (.rename (t.snapshot (live.rawTokenOf t)) label)

theorem addShare_ok {tokenId : Text} {share : InMemoryStore.AddShareInput} {now : ℕ}
    {store : InMemoryStore} (h : live.store.addShare tokenId share now = .ok store) :
    ∃ t hnew, live.store.getToken tokenId = some t ∧
      store = live.store.put (t.pushShare (share.share now) hnew) := by
  unfold InMemoryStore.addShare at h
  cases ht : live.store.getToken tokenId with
  | none => rw [ht] at h; cases h
  | some t =>
    rw [ht] at h
    simp only at h
    split_ifs at h with hshared
    exact ⟨t, hshared, rfl, (Except.ok.inj h).symm⟩

theorem does_addShare {tokenId : Text} {share : InMemoryStore.AddShareInput} {now : ℕ}
    {store : InMemoryStore} (h : live.store.addShare tokenId share now = .ok store) :
    Does (.addShare tokenId share) live.invitations (invitations { live with store }) := by
  obtain ⟨t, hnew, ht, rfl⟩ := addShare_ok h
  obtain rfl : t.id = tokenId := InMemoryStore.id_of_getToken ht
  exact does_put ht rfl (.addShare (t.snapshot (live.rawTokenOf t)) share now
    (t.pushShare (share.share now) hnew).nodup)

/-- The first thread of the newest invitation. -/
theorem invitations_attach {share : InMemoryStore.AddShareInput} {now : ℕ} {store : InMemoryStore}
    {l : List TokenSnapshot} {t : TokenSnapshot} (hlive : live.invitations = l ++ [t])
    (hshares : t.shares = []) (h : live.store.addShare t.id share now = .ok store) :
    ∃ t', invitations { live with store } = l ++ [t'] ∧ t'.id = t.id ∧ t'.label = t.label ∧
      t'.shares = [share.share now] := by
  obtain ⟨u, hnew, hu, rfl⟩ := addShare_ok h
  have hid : u.id = t.id := InMemoryStore.id_of_getToken hu
  have hnodup : (l ++ [t]).map TokenSnapshot.id |>.Nodup := by
    rw [← hlive, ids_invitations]
    exact live.store.nodup_listTokens
  have hfresh : ∀ v ∈ l, v.id ≠ t.id := by
    rw [List.map_append, List.nodup_append] at hnodup
    exact fun v hv => hnodup.2.2 _ (List.mem_map_of_mem hv) _ (by simp)
  -- the token that is found is the newest
  have hut : u.snapshot (live.rawTokenOf u) = t := by
    have hm := mem_invitations hu
    rw [hlive] at hm
    rcases List.mem_append.mp hm with hm | hm
    · exact absurd hid (hfresh _ hm)
    · exact List.mem_singleton.mp hm
  refine ⟨(u.pushShare (share.share now) hnew).snapshot (live.rawTokenOf u), ?_, hid, ?_, ?_⟩
  · have hget : live.store.getToken (u.pushShare (share.share now) hnew).id = some u :=
      (congrArg live.store.getToken hid).trans hu
    rw [invitations_put hget, hlive, List.map_append, List.map_singleton]
    congr 1
    · refine (List.map_congr_left fun v hv => if_neg ?_).trans (List.map_id _)
      exact fun hv' => hfresh v hv (hv'.trans hid)
    · exact congrArg (fun v => [v]) (if_pos hid.symm)
  · rw [← hut]
    rfl
  · have hnil : u.shares = [] := by
      rw [← hut] at hshares
      exact hshares
    show u.shares ++ [share.share now] = _
    rw [hnil]
    rfl

theorem does_removeShare {tokenId threadId : Text} {store : InMemoryStore}
    (h : live.store.removeShare tokenId threadId = .ok store) :
    Does (.removeShare tokenId threadId) live.invitations (invitations { live with store }) := by
  unfold InMemoryStore.removeShare at h
  cases ht : live.store.getToken tokenId with
  | none => rw [ht] at h; cases h
  | some t =>
    rw [ht] at h
    simp only at h
    split_ifs at h with hshared
    obtain rfl := Except.ok.inj h
    obtain rfl : t.id = tokenId := InMemoryStore.id_of_getToken ht
    have hdrop : (t.dropShare threadId).shares = t.shares.filter fun s => s.threadId ≠ threadId :=
      eraseP_eq_filter t.nodup threadId
    refine does_put ht rfl ?_
    have hnodup : ((t.shares.filter fun s => s.threadId ≠ threadId).map Share.threadId).Nodup :=
      hdrop ▸ (t.dropShare threadId).nodup
    have heq : (t.dropShare threadId).snapshot (live.rawTokenOf t) =
        { t.snapshot (live.rawTokenOf t) with
          shares := t.shares.filter fun s => s.threadId ≠ threadId, nodup := hnodup } := by
      unfold Token.snapshot
      simp only [hdrop]
      rfl
    rw [heq]
    exact .removeShare (t.snapshot (live.rawTokenOf t)) hshared hnodup

theorem does_updateShare {tokenId threadId : Text} {perm : Perm} {store : InMemoryStore}
    (h : live.store.updateShare tokenId threadId perm = .ok store) :
    Does (.updateShare tokenId threadId perm) live.invitations
      (invitations { live with store }) := by
  unfold InMemoryStore.updateShare at h
  cases ht : live.store.getToken tokenId with
  | none => rw [ht] at h; cases h
  | some t =>
    rw [ht] at h
    simp only at h
    split_ifs at h with hshared
    obtain rfl := Except.ok.inj h
    obtain rfl : t.id = tokenId := InMemoryStore.id_of_getToken ht
    exact does_put ht rfl (.updateShare (t.snapshot (live.rawTokenOf t)) perm hshared
      (t.setPerm threadId perm).nodup)

theorem does_delete {id : Text} {store : InMemoryStore}
    (h : live.store.deleteToken id = .ok store) :
    Does (.deleteToken id) live.invitations
      (invitations ⟨store, live.rawTokenById.erase id⟩) := by
  obtain ⟨hlist, hsome⟩ := InMemoryStore.listTokens_deleteToken h
  obtain ⟨t, ht⟩ := Option.isSome_iff_exists.mp hsome
  have hmem : id ∈ live.invitations.map TokenSnapshot.id :=
    List.mem_map.mpr ⟨_, mem_invitations ht, InMemoryStore.id_of_getToken ht⟩
  have heq : invitations ⟨store, live.rawTokenById.erase id⟩ =
      live.invitations.filter fun u => u.id ≠ id := by
    unfold invitations
    simp only
    rw [hlist, List.filter_map]
    refine List.map_congr_left fun t ht => ?_
    have hne : t.id ≠ id := by simpa using (List.mem_filter.mp ht).2
    unfold rawTokenOf
    simp only
    rw [OrderedMap.get_erase_of_ne _ hne]
  rw [heq]
  exact .delete hmem

/-- A new invitation comes last. -/
theorem invitations_mint {label : Option Text} {now : ℕ} {draws : InMemoryStore.MintDraws}
    {store : InMemoryStore} {token : Token} {rawToken : Text}
    (h : live.store.mintToken hmac label now draws = some (store, token, rawToken)) :
    invitations ⟨store, live.rawTokenById.set token.id rawToken⟩ =
        live.invitations ++ [token.snapshot rawToken] ∧
      token.id ∉ live.invitations.map TokenSnapshot.id ∧ token.shares = [] ∧
      ∀ x ∈ label, token.label = x := by
  unfold InMemoryStore.mintToken at h
  simp only at h
  split at h
  · cases h
  · rename_i id hfind
    have hfree : live.store.getToken id = none := by
      have := List.find?_some hfind
      unfold InMemoryStore.getToken
      unfold OrderedMap.has at this
      simpa using this
    obtain ⟨rfl, rfl, rfl⟩ := by simpa only [Option.some.injEq, Prod.mk.injEq] using h
    have hnew : id ∉ live.store.listTokens.map Token.id := by
      have hkeys := OrderedMap.get_eq_none.mp hfree
      unfold OrderedMap.keys at hkeys
      rw [InMemoryStore.entries_eq_map, List.map_map] at hkeys
      exact hkeys
    refine ⟨?_, ?_, rfl, ?_⟩
    · unfold invitations
      simp only
      rw [InMemoryStore.listTokens_put_new hfree, List.map_append]
      congr 1
      · refine List.map_congr_left fun t ht => ?_
        have hne : t.id ≠ id := fun he => hnew (he ▸ List.mem_map_of_mem ht)
        unfold rawTokenOf
        simp only
        rw [OrderedMap.get_set_of_ne _ hne]
      · simp [rawTokenOf]
    · rw [ids_invitations]
      exact hnew
    · intro x hx
      obtain rfl := Option.mem_def.mp hx
      rfl

/-- **Changes.** A change that is complete does what the call does; else an invitation was made and
waits for its first thread. -/
theorem change_does {now : ℕ} {draws : InMemoryStore.MintDraws} {call : ShareCall}
    {attachment : Attachment}
    (h : live.change hmac now draws call = some (.ok (live', attachment))) :
    match attachment with
    | none => Does call live.invitations live'.invitations
    | some (id, share) => ∃ label t, call = .mintToken label (some share) ∧ t.id = id ∧
        t.shares = [] ∧ id ∉ live.invitations.map TokenSnapshot.id ∧ (∀ x ∈ label, t.label = x) ∧
        live'.invitations = live.invitations ++ [t] := by
  -- all calls but a mint change one token of the store
  have hmap : ∀ {result : Except StoreError InMemoryStore} {r : LiveShares × Attachment},
      (result.map fun store => (({ live with store } : LiveShares), (none : Attachment))) = .ok r →
      ∃ store, result = .ok store ∧ r = ({ live with store }, none) := by
    intro result r hr
    cases result with
    | error e => cases hr
    | ok store => exact ⟨store, rfl, (Except.ok.inj hr).symm⟩
  cases call with
  | mintToken label firstThread =>
    obtain ⟨⟨store, token, rawToken⟩, hmint, heq⟩ := Option.map_eq_some_iff.mp h
    obtain ⟨rfl, rfl⟩ := Prod.mk.inj (Except.ok.inj heq)
    obtain ⟨hlist, hfresh, hshares, hlabel⟩ := invitations_mint hmint
    cases firstThread with
    | none =>
      simp only [Option.map_none]
      rw [hlist]
      exact .mint hfresh hlabel ⟨0, hshares⟩
    | some share => exact ⟨label, token.snapshot rawToken, rfl, rfl, hshares, hfresh, hlabel, hlist⟩
  | renameToken id label =>
    obtain ⟨store, hstore, heq⟩ := hmap (Option.some.inj h)
    obtain ⟨rfl, rfl⟩ := Prod.mk.inj heq
    exact does_rename hstore
  | deleteToken id =>
    have h := Option.some.inj h
    cases hd : live.store.deleteToken id with
    | error e => rw [hd] at h; cases h
    | ok store =>
      rw [hd] at h
      obtain ⟨rfl, rfl⟩ := Prod.mk.inj (Except.ok.inj h)
      exact does_delete hd
  | addShare tokenId share =>
    obtain ⟨store, hstore, heq⟩ := hmap (Option.some.inj h)
    obtain ⟨rfl, rfl⟩ := Prod.mk.inj heq
    exact does_addShare hstore
  | removeShare tokenId threadId =>
    obtain ⟨store, hstore, heq⟩ := hmap (Option.some.inj h)
    obtain ⟨rfl, rfl⟩ := Prod.mk.inj heq
    exact does_removeShare hstore
  | updateShare tokenId threadId perm =>
    obtain ⟨store, hstore, heq⟩ := hmap (Option.some.inj h)
    obtain ⟨rfl, rfl⟩ := Prod.mk.inj heq
    exact does_updateShare hstore

end LiveShares

end BbShared
