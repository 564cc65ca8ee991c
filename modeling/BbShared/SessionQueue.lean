import BbShared.Machine
import BbShared.SessionRecord

/-!
# Redemptions, one after another

`guest-gateway/sessions.ts` as it runs: calls of `redeem` wait for the one before them, whatever
becomes of it, and each goes through the store and the record with waits in between.  The invitations
may change at every wait and the clock goes on; the key and the write may fail.

1. `begin`: the bearer is looked up, and the grants of the live session are taken.
2. `check`: one grant is looked up.
3. `build`: the session map without what has expired, with the new row at its end, cut to size.
4. `persist`: the record is written and the map published, or nothing is.

`redeem` of `Sessions.lean` is a call without waits.
-/

namespace BbShared

open Js

/-- The readings of the clock in one go: they do not go backwards. -/
structure Clock where
  reading : ℕ → ℕ
  monotone : Monotone reading
  bounded : ∀ i, reading i ≤ MAX_TIME

/-- The clock at one time. -/
def Clock.still (now : ℕ) (h : now ≤ MAX_TIME) : Clock := ⟨fun _ => now, monotone_const, fun _ => h⟩

@[simp] theorem Clock.reading_still {now : ℕ} (h : now ≤ MAX_TIME) (i : ℕ) :
    (Clock.still now h).reading i = now := rfl

/-- The invitations, under ids as they are made and restored. -/
abbrev Invitations := { store : InMemoryStore // ∀ t ∈ store.listTokens, isTokenId t.id = true }

/-! ## State -/

structure RedeemCall where
  number : ℕ
  raw : Text
  priorId : Option Text

inductive Outcome where
  | refused
  | failed
  | redeemed (id : Text)
  deriving DecidableEq

inductive RedeemPhase where
  /-- The grants to look up still, and those that were found. -/
  | checking (prior : Option Session) (token : Token) (grants valid : List Text)
  | persisting (token : Token) (id : Text) (next : Sessions)

/-- A call that runs.  `missing` are the grants that it looked up in vain; the program drops them. -/
structure Operation where
  call : RedeemCall
  phase : RedeemPhase
  missing : List Text

structure SettledCall where
  call : RedeemCall
  outcome : Outcome
  token : Option Text
  missing : List Text

/-- The session store.  `calls` and `settled` record the calls; the program does not read them. -/
structure SessionQueue where
  sessions : Sessions
  kv : Option Json
  store : Invitations
  now : ℕ
  calls : ℕ
  waiting : List RedeemCall
  running : Option Operation
  settled : List SettledCall

/-! ## Steps -/

/-- The rows that have not expired, each at its own reading of the clock. -/
def unexpired (clock : Clock) : ℕ → List (Text × Session) → List (Text × Session)
  | _, [] => []
  | i, e :: l =>
    if clock.reading i < e.2.expires then e :: unexpired clock (i + 1) l
    else unexpired clock (i + 1) l

/-- The record of a session map. -/
def sessionsRecord (aes : Aes) (key : RandomKey) (nonce : Nonce) (rows : List Session) :
    Option Json :=
  encryptRecord aes key.1 nonce PAYLOAD (payloadRecord [] (sessionsPayload rows))

/-- `Sessions.load`; `none` where it throws. -/
def loadSessions (aes : Aes) (key : Bytes) (clock : Clock) : Option Json → Option Sessions
  | none => some .empty
  | some .null => some .empty
  | some saved => do
    let r ← decryptRecord aes key PAYLOAD saved
    if r.migrated then none else
      let payload ← r.payload
      let rows ← parseSessions payload
      pure (OrderedMap.ofEntries (unexpired clock 0 (rows.map fun row => (row.id, row))))

/-- The session under an id that is not empty. -/
def priorSession (sessions : Sessions) : Option Text → Option Session
  | none => none
  | some id => if id = [] then none else sessions.get id

/-- The session as long as it has not expired. -/
def livePrior (clock : Clock) (prior : Option Session) : Option Session :=
  prior.filter fun p => clock.reading 0 < p.expires

/-- The grants to look up. -/
def priorGrants (clock : Clock) (prior : Option Session) : List Text :=
  match livePrior clock prior with
  | some p => p.grants
  | none => []

/-- The id that the call returns: that of the live session, or a new one. -/
def sessionIdFor (clock : Clock) (prior : Option Session) (random : RandomId) : Text :=
  match livePrior clock prior with
  | some p => p.id
  | none => base64url random.1

/-- The grants with the redeemed invitation among them. -/
def withToken (valid : List Text) (id : Text) : List Text :=
  if id ∈ valid then valid else valid ++ [id]

/-- The map to publish. -/
def nextSessions (clock : Clock) (sessions : Sessions) (id : Text) (valid : List Text) : Sessions :=
  OrderedMap.ofEntries (evict
    (((unexpired clock 1 sessions.entries).filter fun e => e.1 ≠ id) ++
      [(id, ⟨id, valid, clock.reading (1 + sessions.size) + sessionTtl⟩)]))

inductive SessionEvent where
  | call (raw : Text) (priorId : Option Text)
  /-- The invitations change in any way. -/
  | invitations (store : Invitations)
  | begin (clock : Clock)
  | check
  | build (clock : Clock) (random : RandomId)
  /-- The record is written, or the key or the write fails. -/
  | persist (written : Option Nonce)
  /-- The process ends and another one loads the record; a write under way may have been done. -/
  | restart (written : Option Nonce) (clock : Clock)

namespace SessionQueue

variable (hmac : Hmac) (aes : Aes) (key : RandomKey)

/-- The call settles, and the next one may begin. -/
def settle (s : SessionQueue) (call : RedeemCall) (outcome : Outcome) (token : Option Text)
    (missing : List Text) : SessionQueue :=
  { s with running := none, settled := s.settled ++ [⟨call, outcome, token, missing⟩] }

def run (s : SessionQueue) (op : Operation) : SessionQueue := { s with running := some op }

/-- The call up to its first look at a grant. -/
def begin (s : SessionQueue) (clock : Clock) (call : RedeemCall) : SessionQueue :=
  match s.store.1.findByRawToken hmac call.raw with
  | none => s.settle call .refused none []
  | some token =>
    if token.shares = [] then s.settle call .refused none [] else
      let prior := priorSession s.sessions call.priorId
      s.run ⟨call, .checking prior token (priorGrants clock prior) [], []⟩

/-- A look at one grant. -/
def check (s : SessionQueue) (call : RedeemCall) (prior : Option Session) (token : Token)
    (grant : Text) (grants valid missing : List Text) : SessionQueue :=
  if (s.store.1.getToken grant).isSome then
    s.run ⟨call, .checking prior token grants (valid ++ [grant]), missing⟩
  else s.run ⟨call, .checking prior token grants valid, missing ++ [grant]⟩

/-- The call from its last look at a grant to the write. -/
def build (s : SessionQueue) (clock : Clock) (random : RandomId) (call : RedeemCall)
    (prior : Option Session) (token : Token) (valid missing : List Text) : SessionQueue :=
  let valid := withToken valid token.id
  if 128 < valid.length then s.settle call .failed (some token.id) missing else
    let id := sessionIdFor clock prior random
    s.run ⟨call, .persisting token id (nextSessions clock s.sessions id valid), missing⟩

/-- The end of a call, once its write is done or has failed. -/
def persist (s : SessionQueue) (written : Option Nonce) (call : RedeemCall) (token : Token)
    (id : Text) (next : Sessions) (missing : List Text) : SessionQueue :=
  match written with
  | none => s.settle call .failed (some token.id) missing
  | some nonce =>
    { s with sessions := next, kv := sessionsRecord aes key nonce next.values }.settle call
      (.redeemed id) (some token.id) missing

/-- The record when the process ends. -/
def recordAtEnd (s : SessionQueue) (written : Option Nonce) : Option Json :=
  match s.running, written with
  | some ⟨_, .persisting _ _ next, _⟩, some nonce => sessionsRecord aes key nonce next.values
  | _, _ => s.kv

/-- `none` where the event cannot happen. -/
def step (s : SessionQueue) : SessionEvent → Option SessionQueue
  | .call raw priorId =>
    some { s with calls := s.calls + 1, waiting := s.waiting ++ [⟨s.calls, raw, priorId⟩] }
  | .invitations store => some { s with store }
  | .begin clock =>
    match s.running, s.waiting with
    | none, call :: waiting =>
      if s.now ≤ clock.reading 0 then
        some ({ s with waiting, now := clock.reading 0 }.begin hmac clock call)
      else none
    | _, _ => none
  | .check =>
    match s.running with
    | some ⟨call, .checking prior token (grant :: grants) valid, missing⟩ =>
      some (s.check call prior token grant grants valid missing)
    | _ => none
  | .build clock random =>
    match s.running with
    | some ⟨call, .checking prior token [] valid, missing⟩ =>
      if s.now ≤ clock.reading 0 then
        some ({ s with now := clock.reading (1 + s.sessions.size) }.build clock random call prior
          token valid missing)
      else none
    | _ => none
  | .persist written =>
    match s.running with
    | some ⟨call, .persisting token id next, missing⟩ =>
      some (s.persist aes key written call token id next missing)
    | _ => none
  | .restart written clock =>
    if s.now ≤ clock.reading 0 then
      (loadSessions aes key.1 clock (s.recordAtEnd aes key written)).map fun sessions =>
        { s with sessions, kv := s.recordAtEnd aes key written, now := clock.reading 2048,
                 waiting := [], running := none }
    else none

/-- The steps, one constructor for each event. -/
inductive Step : SessionQueue → SessionEvent → SessionQueue → Prop
  | call (s : SessionQueue) (raw : Text) (priorId : Option Text) :
    Step s (.call raw priorId)
      { s with calls := s.calls + 1, waiting := s.waiting ++ [⟨s.calls, raw, priorId⟩] }
  | invitations (s : SessionQueue) (store : Invitations) :
      Step s (.invitations store) { s with store }
  | begin {s : SessionQueue} {clock : Clock} {call : RedeemCall} {waiting : List RedeemCall} :
    s.running = none → s.waiting = call :: waiting → s.now ≤ clock.reading 0 →
      Step s (.begin clock) ({ s with waiting, now := clock.reading 0 }.begin hmac clock call)
  | check {s : SessionQueue} {call : RedeemCall} {prior : Option Session} {token : Token}
    {grant : Text} {grants valid missing : List Text} :
    s.running = some ⟨call, .checking prior token (grant :: grants) valid, missing⟩ →
      Step s .check (s.check call prior token grant grants valid missing)
  | build {s : SessionQueue} {clock : Clock} {random : RandomId} {call : RedeemCall}
    {prior : Option Session} {token : Token} {valid missing : List Text} :
    s.running = some ⟨call, .checking prior token [] valid, missing⟩ → s.now ≤ clock.reading 0 →
      Step s (.build clock random) ({ s with now := clock.reading (1 + s.sessions.size) }.build clock
        random call prior token valid missing)
  | persist {s : SessionQueue} {written : Option Nonce} {call : RedeemCall} {token : Token}
    {id : Text} {next : Sessions} {missing : List Text} :
    s.running = some ⟨call, .persisting token id next, missing⟩ →
      Step s (.persist written) (s.persist aes key written call token id next missing)
  | restart {s : SessionQueue} {written : Option Nonce} {clock : Clock} {sessions : Sessions} :
    s.now ≤ clock.reading 0 →
      loadSessions aes key.1 clock (s.recordAtEnd aes key written) = some sessions →
      Step s (.restart written clock)
        { s with sessions, kv := s.recordAtEnd aes key written, now := clock.reading 2048,
                 waiting := [], running := none }

variable {hmac aes key}

theorem Step.of_step {s t : SessionQueue} {e : SessionEvent} (h : s.step hmac aes key e = some t) :
    Step hmac aes key s e t := by
  unfold step at h
  cases e with
  | call raw priorId =>
    obtain rfl := Option.some.inj h
    exact .call s raw priorId
  | invitations store =>
    obtain rfl := Option.some.inj h
    exact .invitations s store
  | begin clock =>
    simp only at h
    split at h
    · rename_i hr hw
      split_ifs at h with hclock
      obtain rfl := Option.some.inj h
      exact .begin hr hw hclock
    · cases h
  | check =>
    simp only at h
    split at h
    · rename_i hr
      obtain rfl := Option.some.inj h
      exact .check hr
    · cases h
  | build clock random =>
    simp only at h
    split at h
    · rename_i hr
      split_ifs at h with hclock
      obtain rfl := Option.some.inj h
      exact .build hr hclock
    · cases h
  | persist written =>
    simp only at h
    split at h
    · rename_i hr
      obtain rfl := Option.some.inj h
      exact .persist hr
    · cases h
  | restart written clock =>
    simp only at h
    split_ifs at h with hclock
    obtain ⟨sessions, hload, rfl⟩ := Option.map_eq_some_iff.mp h
    exact .restart hclock hload

end SessionQueue

/-! ## Rows -/

/-- The rows of a session map: within the limits, and the last redeemed at the end. -/
structure RowsOk (now : ℕ) (l : List Session) : Prop where
  ok : ∀ s ∈ l, s.Ok
  size : l.length ≤ 2048
  ids : (l.map Session.id).Nodup
  sorted : l.Pairwise fun s t => s.expires ≤ t.expires
  recent : ∀ s ∈ l, s.expires ≤ now + sessionTtl

namespace RowsOk

variable {now now' : ℕ} {l l' : List Session}

theorem nil : RowsOk now [] := ⟨by simp, by simp, by simp, by simp, by simp⟩

theorem sublist (h : RowsOk now l) (hl : l'.Sublist l) : RowsOk now l' where
  ok s hs := h.ok s (hl.subset hs)
  size := hl.length_le.trans h.size
  ids := h.ids.sublist (hl.map _)
  sorted := h.sorted.sublist hl
  recent s hs := h.recent s (hl.subset hs)

theorem mono (h : RowsOk now l) (hn : now ≤ now') : RowsOk now' l :=
  { h with recent := fun s hs => (h.recent s hs).trans (Nat.add_le_add_right hn _) }

/-- A new row goes to the end. -/
theorem concat (h : RowsOk now l) {s : Session} (hs : s.Ok) (hid : s.id ∉ l.map Session.id)
    (hend : s.expires = now + sessionTtl) (hsize : l.length < 2048) : RowsOk now (l ++ [s]) where
  ok t ht := by
    rcases List.mem_append.mp ht with ht | ht
    · exact h.ok t ht
    · rw [List.mem_singleton.mp ht]; exact hs
  size := by rw [List.length_append]; exact hsize
  ids := by
    rw [List.map_append]
    exact h.ids.append (List.nodup_singleton _) (by simpa using hid)
  sorted := by
    rw [List.pairwise_append]
    refine ⟨h.sorted, List.pairwise_singleton _ _, fun t ht u hu => ?_⟩
    rw [List.mem_singleton.mp hu, hend]
    exact h.recent t ht
  recent t ht := by
    rcases List.mem_append.mp ht with ht | ht
    · exact h.recent t ht
    · rw [List.mem_singleton.mp ht, hend]

end RowsOk

theorem unexpired_sublist (clock : Clock) (i : ℕ) (l : List (Text × Session)) :
    (unexpired clock i l).Sublist l := by
  induction l generalizing i with
  | nil => exact List.Sublist.refl _
  | cons e l ih =>
    unfold unexpired
    split_ifs
    · exact (ih (i + 1)).cons_cons e
    · exact (ih (i + 1)).cons e

/-- What is left out has expired. -/
theorem mem_unexpired (clock : Clock) (i : ℕ) {l : List (Text × Session)} {e : Text × Session}
    (h : e ∈ l) : e ∈ unexpired clock i l ∨ e.2.expires ≤ clock.reading (i + l.length) := by
  induction l generalizing i with
  | nil => cases h
  | cons e' l ih =>
    unfold unexpired
    rcases List.mem_cons.mp h with rfl | h
    · by_cases he : clock.reading i < e.2.expires
      · rw [if_pos he]
        exact .inl List.mem_cons_self
      · exact .inr ((not_lt.mp he).trans (clock.monotone (Nat.le_add_right _ _)))
    · rcases ih (i + 1) h with hm | hm
      · refine .inl ?_
        split_ifs
        · exact List.mem_cons_of_mem _ hm
        · exact hm
      · refine .inr (hm.trans (clock.monotone ?_))
        rw [List.length_cons]
        omega

theorem lt_expires_of_mem_unexpired {clock : Clock} {i : ℕ} {l : List (Text × Session)}
    {e : Text × Session} (h : e ∈ unexpired clock i l) : clock.reading i < e.2.expires := by
  induction l generalizing i with
  | nil => cases h
  | cons e' l ih =>
    unfold unexpired at h
    split_ifs at h with he
    · rcases List.mem_cons.mp h with rfl | h
      · exact he
      · exact Nat.lt_of_le_of_lt (clock.monotone (Nat.le_succ i)) (ih h)
    · exact Nat.lt_of_le_of_lt (clock.monotone (Nat.le_succ i)) (ih h)

/-! ## Eviction -/

theorem oversized_nil : oversized [] = false := by decide

/-- What is left fits. -/
theorem not_oversized_evict (l : List (Text × Session)) :
    oversized ((evict l).map Prod.snd) = false := by
  induction l with
  | nil => exact oversized_nil
  | cons e l ih =>
    unfold evict
    split_ifs with h
    · exact ih
    · simpa using h

/-- The loop ends before the last row, and drops a row only while the rows are too many. -/
theorem evict_concat {e : Text × Session} (h : oversized [e.2] = false) (l : List (Text × Session)) :
    ∃ k ≤ l.length, evict (l ++ [e]) = l.drop k ++ [e] ∧
      ∀ j < k, oversized ((l.drop j ++ [e]).map Prod.snd) = true := by
  induction l with
  | nil =>
    refine ⟨0, le_rfl, ?_, by simp⟩
    show evict [e] = [e]
    unfold evict
    rw [if_neg (by simpa using h)]
  | cons e' l ih =>
    by_cases ho : oversized ((e' :: (l ++ [e])).map Prod.snd) = true
    · obtain ⟨k, hk, hevict, hbefore⟩ := ih
      refine ⟨k + 1, Nat.succ_le_succ hk, ?_, fun j hj => ?_⟩
      · rw [List.cons_append, evict, if_pos ho, hevict, List.drop_succ_cons]
      · cases j with
        | zero => exact ho
        | succ j => exact hbefore j (by omega)
    · refine ⟨0, Nat.zero_le _, ?_, by simp⟩
      rw [List.cons_append, evict, if_neg ho]
      rfl

theorem oversized_eq_false {rows : List Session} (h : oversized rows = false) :
    rows.length ≤ 2048 ∧ (utf8Encode (sessionsPayload rows)).length ≤ 160 * 1024 := by
  unfold oversized at h
  simp only [Bool.or_eq_false_iff, decide_eq_false_iff_not, not_lt] at h
  exact h

/-- A session map whose rows are filed under their own ids. -/
def Keyed (m : Sessions) : Prop := ∀ e ∈ m.entries, e.2.id = e.1

/-- What `nextSessions` makes of the rows: the oldest are dropped, and the new row is the last. -/
structure NextRows (now : ℕ) (sessions : Sessions) (id : Text) (session : Session)
    (next : Sessions) : Prop where
  rows : ∃ dropped kept, (dropped ++ kept).Sublist sessions.entries ∧
    (∀ e ∈ sessions.entries, e ∈ dropped ++ kept ∨ e.1 = id ∨ e.2.expires ≤ now) ∧
    (∀ e ∈ dropped ++ kept, e.1 ≠ id) ∧
    next.entries = kept ++ [(id, session)] ∧
    ∀ early late, dropped = early ++ late → late ≠ [] →
      oversized ((late ++ kept ++ [(id, session)]).map Prod.snd) = true
  fits : oversized next.values = false

theorem nextSessions_rows (clock : Clock) {sessions : Sessions} {id : Text} {valid : List Text}
    (hfits : oversized [⟨id, valid, clock.reading (1 + sessions.size) + sessionTtl⟩] = false) :
    NextRows (clock.reading (1 + sessions.size)) sessions id
      ⟨id, valid, clock.reading (1 + sessions.size) + sessionTtl⟩
      (nextSessions clock sessions id valid) := by
  generalize hs : (⟨id, valid, clock.reading (1 + sessions.size) + sessionTtl⟩ : Session) = session
    at hfits
  generalize hl : (unexpired clock 1 sessions.entries).filter (fun e => e.1 ≠ id) = l
  have hsub : l.Sublist sessions.entries :=
    hl ▸ List.filter_sublist.trans (unexpired_sublist clock 1 _)
  have hid : ∀ e ∈ l, e.1 ≠ id := by
    intro e he
    rw [← hl] at he
    simpa using (List.mem_filter.mp he).2
  obtain ⟨k, hk, hevict, hbefore⟩ := evict_concat (e := (id, session)) hfits l
  have hnodup : ((l.drop k ++ [(id, session)]).map Prod.fst).Nodup := by
    rw [List.map_append, List.nodup_append]
    refine ⟨sessions.nodup.sublist (((List.drop_sublist k l).trans hsub).map _), by simp, ?_⟩
    intro a ha b hb
    obtain ⟨e, he, rfl⟩ := List.mem_map.mp ha
    rw [List.mem_singleton.mp hb]
    exact hid e (List.mem_of_mem_drop he)
  have hentries : (nextSessions clock sessions id valid).entries = l.drop k ++ [(id, session)] := by
    unfold nextSessions
    rw [hs, hl, hevict, OrderedMap.entries_ofEntries hnodup]
  refine ⟨⟨l.take k, l.drop k, ?_, ?_, ?_, hentries, ?_⟩, ?_⟩
  · rwa [List.take_append_drop]
  · rw [List.take_append_drop]
    intro e he
    rcases mem_unexpired clock 1 he with hm | hm
    · by_cases hei : e.1 = id
      · exact .inr (.inl hei)
      · refine .inl ?_
        rw [← hl]
        exact List.mem_filter.mpr ⟨hm, decide_eq_true hei⟩
    · exact .inr (.inr hm)
  · rwa [List.take_append_drop]
  · intro early late hsplit hlate
    have hlen : early.length < k := by
      have h1 : (l.take k).length = k := List.length_take_of_le hk
      rw [hsplit, List.length_append] at h1
      have := List.length_pos_iff.mpr hlate
      omega
    have hdrop : l.drop early.length = late ++ l.drop k := by
      conv_lhs => rw [← List.take_append_drop k l, hsplit, List.append_assoc]
      exact List.drop_left
    rw [← hdrop]
    exact hbefore early.length hlen
  · have h := not_oversized_evict (l ++ [(id, session)])
    rw [hevict] at h
    unfold OrderedMap.values
    rw [hentries]
    exact h

/-- The new map keeps to the limits. -/
theorem NextRows.ok {now : ℕ} {sessions next : Sessions} {id : Text} {session : Session}
    (h : NextRows now sessions id session next) (hrows : RowsOk now sessions.values)
    (hkeyed : Keyed sessions) (hsession : session.Ok) (hid : session.id = id)
    (hend : session.expires = now + sessionTtl) : RowsOk now next.values ∧ Keyed next := by
  obtain ⟨dropped, kept, hsub, _, hne, hentries, _⟩ := h.rows
  have hkept : kept.Sublist sessions.entries := (List.sublist_append_right dropped kept).trans hsub
  have hvalues : next.values = kept.map Prod.snd ++ [session] := by
    unfold OrderedMap.values
    rw [hentries, List.map_append]
    rfl
  constructor
  · have hsize := (oversized_eq_false h.fits).1
    rw [hvalues] at hsize ⊢
    rw [List.length_append, List.length_singleton] at hsize
    refine (hrows.sublist (hkept.map _)).concat hsession ?_ hend (by omega)
    intro hm
    obtain ⟨s, hs, hsid⟩ := List.mem_map.mp hm
    obtain ⟨e, he, rfl⟩ := List.mem_map.mp hs
    have hkey := hkeyed e (hkept.subset he)
    rw [hid, hkey] at hsid
    exact hne e (List.mem_append_right _ he) hsid
  · intro e he
    rw [hentries] at he
    rcases List.mem_append.mp he with he | he
    · exact hkeyed e (hkept.subset he)
    · rw [List.mem_singleton.mp he]
      exact hid

/-! ## A call without waits -/

theorem unexpired_still {now : ℕ} (h : now ≤ MAX_TIME) (i : ℕ) (l : List (Text × Session)) :
    unexpired (.still now h) i l = l.filter fun e => !(e.2.expires ≤ now) := by
  induction l generalizing i with
  | nil => rfl
  | cons e l ih =>
    unfold unexpired
    rw [ih, List.filter_cons, Clock.reading_still]
    by_cases he : e.2.expires ≤ now
    · rw [if_neg (not_lt.mpr he), if_neg (by simpa using he)]
    · rw [if_pos (not_le.mp he), if_pos (by simpa using he)]

theorem livePrior_still {now : ℕ} (h : now ≤ MAX_TIME) (sessions : Sessions) (id : Option Text) :
    livePrior (.still now h) (priorSession sessions id) = liveSession sessions now id := by
  unfold livePrior priorSession liveSession
  cases id with
  | none => rfl
  | some id =>
    by_cases hid : id = []
    · simp only [if_pos hid]
      rfl
    · simp only [if_neg hid]
      cases sessions.get id with
      | none => rfl
      | some session =>
        rw [Option.filter_some]
        by_cases he : session.expires ≤ now
        · simp only [if_pos he]
          exact if_neg fun hd => absurd (of_decide_eq_true hd) (not_lt.mpr he)
        · simp only [if_neg he]
          exact if_pos (decide_eq_true (not_le.mp he))

/-- `redeem` is a call that finds the invitations and the clock as they are. -/
theorem redeem_still {now : ℕ} (h : now ≤ MAX_TIME) {hmac : Hmac} {sessions : Sessions}
    {store : InMemoryStore} {raw : Text} {priorId : Option Text} {random : RandomId} {token : Token}
    (hfind : store.findByRawToken hmac raw = some token) (hshares : token.shares ≠ []) :
    let prior := priorSession sessions priorId
    let valid := withToken ((priorGrants (.still now h) prior).filter fun g =>
      (store.getToken g).isSome) token.id
    let id := sessionIdFor (.still now h) prior random
    redeem hmac sessions store now raw priorId random.1 =
      if 128 < valid.length then .limitReached
      else .redeemed id (nextSessions (.still now h) sessions id valid) := by
  unfold redeem nextSessions priorGrants sessionIdFor withToken
  simp only [hfind, if_neg hshares, livePrior_still, unexpired_still]
  rfl

end BbShared
