import BbShared.Machine
import BbShared.Store

/-!
# Automatic labels

`lib/token-store.ts`: the label of an invitation that is made without one.  `pickUniqueLabel` tries
random labels, and then numbers one of them from 2 on until a number is free.  That loop has no
bound in the source.  Here it runs on fuel, and one turn more than there are labels is enough: the
candidates are pairwise distinct.
-/

namespace BbShared

open Js

/-! ## The search -/

/-- `for (let i = …; ; i++)`: the first free candidate from `i` on, in at most `fuel` turns. -/
def numbered (taken : List Text) (base : Text) : ℕ → ℕ → Option Text
  | 0, _ => none
  | fuel + 1, i =>
    if suffixed base i ∉ taken then some (suffixed base i) else numbered taken base fuel (i + 1)

/-- The labels of the first `maxAttempts` draws. -/
def attempts (rng : ℕ → Draw) (maxAttempts : ℕ) : List Text :=
  (List.range maxAttempts).map fun i => randomLabel (rng (2 * i)) (rng (2 * i + 1))

/-- `pickUniqueLabel`, with so many turns of its second loop. -/
def searchLabel (taken : List Text) (rng : ℕ → Draw) (maxAttempts fuel : ℕ) : Option Text :=
  match (attempts rng maxAttempts).find? fun label => label ∉ taken with
  | some label => some label
  | none =>
    numbered taken (randomLabel (rng (2 * maxAttempts)) (rng (2 * maxAttempts + 1))) fuel 2

variable {taken : List Text} {base : Text} {fuel i : ℕ}

/-- What is found is the first free candidate. -/
theorem numbered_eq_some {label : Text} (h : numbered taken base fuel i = some label) :
    ∃ k, i ≤ k ∧ label = suffixed base k ∧ suffixed base k ∉ taken ∧
      ∀ m, i ≤ m → m < k → suffixed base m ∈ taken := by
  induction fuel generalizing i with
  | zero => cases h
  | succ fuel ih =>
    unfold numbered at h
    split_ifs at h with hfree
    · obtain ⟨k, hle, hlabel, hk, hbefore⟩ := ih h
      refine ⟨k, by omega, hlabel, hk, fun m hm hmk => ?_⟩
      rcases Nat.eq_or_lt_of_le hm with rfl | hlt
      · exact hfree
      · exact hbefore m hlt hmk
    · refine ⟨i, le_rfl, (Option.some.inj h).symm, hfree, fun m hm hmk => ?_⟩
      omega

/-- Nothing is found where every candidate is taken. -/
theorem numbered_eq_none (h : numbered taken base fuel i = none) :
    ∀ k < fuel, suffixed base (i + k) ∈ taken := by
  induction fuel generalizing i with
  | zero =>
    intro k hk
    omega
  | succ fuel ih =>
    unfold numbered at h
    split_ifs at h with hfree
    intro k hk
    cases k with
    | zero => exact hfree
    | succ k =>
      have hnext := ih h k (by omega)
      rwa [Nat.add_assoc, Nat.add_comm 1 k] at hnext

/-- **Pigeonhole.** Only as many candidates are taken as there are labels. -/
theorem le_length_of_taken (h : ∀ k < fuel, suffixed base (i + k) ∈ taken) :
    fuel ≤ taken.length := by
  have hnodup : ((List.range fuel).map fun k => suffixed base (i + k)).Nodup := by
    apply List.Nodup.map _ List.nodup_range
    intro k m hkm
    exact Nat.add_left_cancel (suffixed_injective base hkm)
  have hsub : ((List.range fuel).map fun k => suffixed base (i + k)) ⊆ taken := by
    intro label hl
    obtain ⟨k, hk, rfl⟩ := List.mem_map.mp hl
    exact h k (List.mem_range.mp hk)
  have hlen := (hnodup.subperm hsub).length_le
  rwa [List.length_map, List.length_range] at hlen

theorem numbered_isSome (h : taken.length < fuel) : (numbered taken base fuel i).isSome = true := by
  rw [Option.isSome_iff_ne_none]
  intro hnone
  have hle := le_length_of_taken (numbered_eq_none hnone)
  omega

/-- The loop ends at the least free number. -/
theorem numbered_eq_find (h : taken.length < fuel) :
    numbered taken base fuel 2 =
      some (suffixed base (Nat.find (exists_free_suffix taken base) + 2)) := by
  have hsome : (numbered taken base fuel 2).isSome = true := numbered_isSome h
  obtain ⟨label, hl⟩ := Option.isSome_iff_exists.mp hsome
  obtain ⟨k, hle, rfl, hfree, hbefore⟩ := numbered_eq_some hl
  have hfind : Nat.find (exists_free_suffix taken base) = k - 2 := by
    rw [Nat.find_eq_iff]
    constructor
    · rwa [Nat.sub_add_cancel hle]
    · intro m hm
      rw [not_not]
      exact hbefore (m + 2) (by omega) (by omega)
  rw [hl, hfind, Nat.sub_add_cancel hle]

/-- **Termination.** With one turn more than there are labels the search ends. -/
theorem searchLabel_eq (rng : ℕ → Draw) (maxAttempts : ℕ) (h : taken.length < fuel) :
    searchLabel taken rng maxAttempts fuel = some (pickUniqueLabel taken rng maxAttempts) := by
  unfold searchLabel pickUniqueLabel attempts
  cases ((List.range maxAttempts).map fun i => randomLabel (rng (2 * i)) (rng (2 * i + 1))).find?
      fun label => label ∉ taken with
  | some label => rfl
  | none => exact numbered_eq_find h

/-- **Freshness.** The label that is picked is not taken. -/
theorem pickUniqueLabel_free (taken : List Text) (rng : ℕ → Draw) (maxAttempts : ℕ) :
    pickUniqueLabel taken rng maxAttempts ∉ taken := by
  unfold pickUniqueLabel
  cases hf : ((List.range maxAttempts).map
      fun i => randomLabel (rng (2 * i)) (rng (2 * i + 1))).find? fun label => label ∉ taken with
  | some label => simpa using List.find?_some hf
  | none => exact Nat.find_spec (exists_free_suffix taken _)

/-! ## Runs of the store -/

/-- The calls of a store. -/
inductive StoreEvent where
  | mintToken (label : Option Text) (now : ℕ) (draws : InMemoryStore.MintDraws)
  | renameToken (id label : Text)
  | deleteToken (id : Text)
  | addShare (tokenId : Text) (share : InMemoryStore.AddShareInput) (now : ℕ)
  | removeShare (tokenId threadId : Text)
  | updateShare (tokenId threadId : Text) (perm : Perm)
  | restoreTokens (tokens : List Token)

/-- A mint: the label asked for, the labels then in the store, and the token. -/
structure Mint where
  label : Option Text
  labels : List Text
  token : Token

namespace InMemoryStore

variable (hmac : Hmac)

/-- The store after a call that may throw. -/
def after (s : InMemoryStore) (result : Except StoreError InMemoryStore) : InMemoryStore :=
  result.toOption.getD s

/-- `none` while every id drawn so far is in use. -/
def step (s : InMemoryStore) : StoreEvent → Option InMemoryStore
  | .mintToken label now draws => (s.mintToken hmac label now draws).map fun r => r.1
  | .renameToken id label => some (s.after (s.renameToken id label))
  | .deleteToken id => some (s.after (s.deleteToken id))
  | .addShare tokenId share now => some (s.after (s.addShare tokenId share now))
  | .removeShare tokenId threadId => some (s.after (s.removeShare tokenId threadId))
  | .updateShare tokenId threadId perm => some (s.after (s.updateShare tokenId threadId perm))
  | .restoreTokens tokens => some (s.restoreTokens tokens)

/-- The mints of a run. -/
def noteMint (s : InMemoryStore) (e : StoreEvent) (_ : InMemoryStore) (mints : List Mint) :
    List Mint :=
  match e with
  | .mintToken label now draws =>
    mints ++ ((s.mintToken hmac label now draws).map fun r =>
      ⟨label, s.listTokens.map Token.label, r.2.1⟩).toList
  | _ => mints

variable {hmac}

/-- A mint without a label takes a free one. -/
theorem label_of_mintToken {s t : InMemoryStore} {now : ℕ} {draws : MintDraws} {token : Token}
    {rawToken : Text} (h : s.mintToken hmac none now draws = some (t, token, rawToken)) :
    token.label ∉ s.listTokens.map Token.label := by
  unfold mintToken at h
  dsimp only at h
  split at h
  · cases h
  · cases h
    exact pickUniqueLabel_free _ _ _

/-- What is known of the mints of a run. -/
def MintsFresh (mints : List Mint) : Prop :=
  ∀ m ∈ mints, m.label = none → m.token.label ∉ m.labels

theorem mintsFresh_noteMint {s : InMemoryStore} {e : StoreEvent} {t : InMemoryStore}
    {mints : List Mint} (h : MintsFresh mints) : MintsFresh (noteMint hmac s e t mints) := by
  cases e with
  | mintToken label now draws =>
    intro m hm hnone
    rcases List.mem_append.mp hm with hm | hm
    · exact h m hm hnone
    · rw [Option.mem_toList, Option.map_eq_some_iff] at hm
      obtain ⟨⟨t, token, rawToken⟩, hmint, rfl⟩ := hm
      obtain rfl : label = none := hnone
      exact label_of_mintToken hmint
  | _ => exact h

end InMemoryStore

/-- **Automatic labels are fresh, and the search ends.** In every run of a store, an invitation that
is made without a label gets one that no invitation then in the store has. -/
theorem automatic_labels_fresh (hmac : Hmac) :
    (∀ (taken : List Text) (rng : ℕ → Draw) (maxAttempts : ℕ),
      pickUniqueLabel taken rng maxAttempts ∉ taken ∧
        ∀ fuel, taken.length < fuel →
          searchLabel taken rng maxAttempts fuel = some (pickUniqueLabel taken rng maxAttempts)) ∧
    ∀ (hmacKey : Bytes) (saved : List TokenSnapshot) (s : InMemoryStore) (mints : List Mint),
      Machine.Reaches
        (Machine.observed (InMemoryStore.step hmac) (InMemoryStore.noteMint hmac))
        (fun _ _ => True) (InMemoryStore.ofSnapshots hmac hmacKey saved, []) (s, mints) →
        ∀ m ∈ mints, m.label = none → m.token.label ∉ m.labels := by
  constructor
  · intro taken rng maxAttempts
    exact ⟨pickUniqueLabel_free taken rng maxAttempts,
      fun fuel h => searchLabel_eq rng maxAttempts h⟩
  · intro hmacKey saved s mints hrun
    have hfresh : InMemoryStore.MintsFresh (s, mints).2 := by
      apply hrun.invariant (I := fun p => InMemoryStore.MintsFresh p.2)
      · intro m hm
        cases hm
      · intro p e q hp _ hstep
        rw [(Machine.observed_eq_some.mp hstep).2]
        exact InMemoryStore.mintsFresh_noteMint hp
    exact hfresh

/-! ## A taken label -/

def lowestDraws (id : UInt8) : InMemoryStore.MintDraws where
  raw := List.replicate 32 id
  ids := [List.replicate 9 id]
  rng _ := .lowest

/-- The label that every attempt of the next mint draws. -/
def drawnLabel : Text := "brave-otter".toList

def nextLabel : Text := "brave-otter-2".toList

theorem pickUniqueLabel_lowest :
    pickUniqueLabel [drawnLabel] (lowestDraws 1).rng 32 = nextLabel := by
  have hsearch : searchLabel [drawnLabel] (lowestDraws 1).rng 32 2 = some nextLabel := by
    decide +kernel
  exact Option.some.inj ((searchLabel_eq _ 32 Nat.one_lt_two).symm.trans hsearch)

/-- A caller chooses the label that every attempt of the next mint draws. -/
theorem automatic_labels_fresh_taken :
    ∃ (s : InMemoryStore) (mints : List Mint) (m : Mint),
      Machine.Reaches
        (Machine.observed (InMemoryStore.step .plain) (InMemoryStore.noteMint .plain))
        (fun _ _ => True) (InMemoryStore.ofSnapshots .plain [] [], []) (s, mints) ∧
      m ∈ mints ∧ m.label = none ∧ m.labels = [drawnLabel] ∧ m.token.label = nextLabel ∧
      m.token.label ∉ m.labels := by
  have h₀ : Machine.Reaches
      (Machine.observed (InMemoryStore.step .plain) (InMemoryStore.noteMint .plain))
      (fun _ _ => True) (InMemoryStore.ofSnapshots .plain [] [], [])
      (InMemoryStore.ofSnapshots .plain [] [], []) := .refl
  have h₁ := h₀.next (.mintToken (some drawnLabel) 1 (lowestDraws 0)) trivial rfl
  have h₂ := h₁.next (.mintToken none 2 (lowestDraws 1)) trivial rfl
  have hfresh := (automatic_labels_fresh .plain).2 [] [] _ _ h₂
  refine ⟨_, _, _, h₂, List.mem_append_right _ (List.mem_singleton_self _), rfl, rfl,
    pickUniqueLabel_lowest, ?_⟩
  exact hfresh _ (List.mem_append_right _ (List.mem_singleton_self _)) rfl

end BbShared
