import BbShared.SessionQueue

/-!
# The session store keeps to its limits

What holds of the session map and of its record after any calls, with any failures, any changes of
the invitations and any restarts.  `Sound` is the invariant; it goes through the calls step by step,
with `PhaseSound` for the one that runs.  `session_store_sound` is the result.
-/

namespace BbShared

open Js

variable {hmac : Hmac} {aes : Aes} {key : RandomKey}

/-! ## Loading -/

theorem filter_unexpired (clock : Clock) (i : ℕ) {l : List (Text × Session)} {now : ℕ}
    (h : clock.reading (i + l.length) ≤ now) :
    (unexpired clock i l).filter (fun e => now < e.2.expires) =
      l.filter fun e => now < e.2.expires := by
  induction l generalizing i with
  | nil => rfl
  | cons e l ih =>
    have hrest : clock.reading (i + 1 + l.length) ≤ now := by
      rw [List.length_cons] at h
      rwa [show i + 1 + l.length = i + (l.length + 1) by omega]
    unfold unexpired
    split_ifs with he
    · rw [List.filter_cons, List.filter_cons, ih (i + 1) hrest]
    · have hout : ¬ now < e.2.expires :=
        not_lt.mpr ((not_lt.mp he).trans ((clock.monotone (Nat.le_add_right _ _)).trans h))
      rw [ih (i + 1) hrest, List.filter_cons, if_neg (by simpa using hout)]

/-- The rows of a map under their ids. -/
def pairs (rows : List Session) : List (Text × Session) := rows.map fun row => (row.id, row)

theorem map_snd_pairs (rows : List Session) : (pairs rows).map Prod.snd = rows := by
  unfold pairs
  rw [List.map_map]
  exact List.map_id _

variable (aes key) in
/-- A record of the program loads. -/
theorem loadSessions_record {rows : List Session} {now : ℕ} (h : RowsOk now rows) (clock : Clock)
    (nonce : Nonce) :
    ∃ m, loadSessions aes key.1 clock (sessionsRecord aes key nonce rows) = some m ∧
      m.entries = unexpired clock 0 (pairs rows) := by
  obtain ⟨atRest, hrec, hne⟩ := encryptRecord_isSome aes key nonce [] (sessionsPayload rows)
  obtain ⟨r, hr, hm, hp⟩ := decryptRecord_encryptRecord aes hrec
  have hnodup : ((unexpired clock 0 (pairs rows)).map Prod.fst).Nodup := by
    have hids : ((pairs rows).map Prod.fst) = rows.map Session.id := by
      unfold pairs
      rw [List.map_map]
      rfl
    exact (hids ▸ h.ids).sublist ((unexpired_sublist clock 0 _).map _)
  refine ⟨OrderedMap.ofEntries (unexpired clock 0 (pairs rows)), ?_,
    OrderedMap.entries_ofEntries hnodup⟩
  unfold sessionsRecord
  rw [hrec]
  cases atRest with
  | null => exact absurd rfl hne
  | _ =>
    unfold loadSessions
    simp only [hr, hm, hp, parseSessions_payload h.ok h.size, Option.bind_eq_bind,
      Option.bind_some, Bool.false_eq_true, if_false, Option.pure_def]
    rfl

/-! ## The invariant -/

/-- The record is one of the program's, and has every session that has not expired. -/
def Persisted (aes : Aes) (key : RandomKey) (s : SessionQueue) : Prop :=
  s.kv = none ∧ s.sessions = .empty ∨
    ∃ rows nonce, s.kv = sessionsRecord aes key nonce rows ∧ RowsOk s.now rows ∧
      (utf8Encode (sessionsPayload rows)).length ≤ 160 * 1024 ∧
      rows.filter (fun r => s.now < r.expires) =
        s.sessions.values.filter fun r => s.now < r.expires

/-- What is known of the call that runs. -/
def PhaseSound (s : SessionQueue) : RedeemPhase → Prop
  | .checking prior token grants valid =>
    (∀ p ∈ prior, s.sessions.get p.id = some p) ∧ isTokenId token.id = true ∧
      (valid ++ grants).Nodup ∧ (valid ++ grants).length ≤ 128 ∧ ∀ g ∈ valid, isTokenId g = true
  | .persisting token id next =>
    ∃ session : Session, NextRows s.now s.sessions id session next ∧ session.Ok ∧
      session.id = id ∧ session.expires = s.now + sessionTtl ∧ token.id ∈ session.grants

structure Sound (aes : Aes) (key : RandomKey) (s : SessionQueue) : Prop where
  rows : RowsOk s.now s.sessions.values
  keyed : Keyed s.sessions
  now : s.now ≤ MAX_TIME
  persisted : Persisted aes key s
  running : ∀ op ∈ s.running, PhaseSound s op.phase

/-- A store that has just loaded its record: none, or one that an earlier process wrote.  Nothing
else opens under the device key; `loaded_of_restart` says that a restart leaves such a store. -/
structure Loaded (aes : Aes) (key : RandomKey) (s : SessionQueue) : Prop where
  idle : s.waiting = [] ∧ s.running = none
  record : s.kv = none ∨ ∃ rows nonce, s.kv = sessionsRecord aes key nonce rows ∧
    RowsOk s.now rows ∧ (utf8Encode (sessionsPayload rows)).length ≤ 160 * 1024
  load : ∃ clock : Clock, clock.reading 2048 ≤ s.now ∧
    loadSessions aes key.1 clock s.kv = some s.sessions
  now : s.now ≤ MAX_TIME

/-- The map that is loaded from a record. -/
theorem sound_of_load {s : SessionQueue} {clock : Clock} (hnow : s.now ≤ MAX_TIME)
    (hclock : clock.reading 2048 ≤ s.now) (hrunning : s.running = none)
    (hrecord : s.kv = none ∨ ∃ rows nonce, s.kv = sessionsRecord aes key nonce rows ∧
      RowsOk s.now rows ∧ (utf8Encode (sessionsPayload rows)).length ≤ 160 * 1024)
    (hload : loadSessions aes key.1 clock s.kv = some s.sessions) : Sound aes key s := by
  have hidle : ∀ op ∈ s.running, PhaseSound s op.phase := by
    intro op hop
    rw [hrunning] at hop
    cases hop
  rcases hrecord with hnone | ⟨rows, nonce, hkv, hrows, hfits⟩
  · rw [hnone] at hload
    obtain hempty := (Option.some.inj hload).symm
    refine ⟨?_, ?_, hnow, .inl ⟨hnone, hempty⟩, hidle⟩
    · rw [hempty]; exact RowsOk.nil
    · rw [hempty]; intro e he; cases he
  · obtain ⟨m, hm, hentries⟩ := loadSessions_record aes key hrows clock nonce
    rw [hkv, hm] at hload
    obtain rfl := Option.some.inj hload
    have hsub : s.sessions.values.Sublist rows := by
      have hmap := (unexpired_sublist clock 0 (pairs rows)).map Prod.snd
      rw [map_snd_pairs] at hmap
      unfold OrderedMap.values
      rwa [hentries]
    refine ⟨hrows.sublist hsub, ?_, hnow, .inr ⟨rows, nonce, hkv, hrows, hfits, ?_⟩, hidle⟩
    · intro e he
      rw [hentries] at he
      obtain ⟨row, _, rfl⟩ := List.mem_map.mp ((unexpired_sublist clock 0 _).subset he)
      rfl
    · have hlen : clock.reading (0 + (pairs rows).length) ≤ s.now := by
        refine (clock.monotone ?_).trans hclock
        have := hrows.size
        simp only [pairs, List.length_map]
        omega
      unfold OrderedMap.values
      rw [hentries, List.filter_map]
      conv_lhs => rw [← map_snd_pairs rows, List.filter_map]
      exact (congrArg (List.map Prod.snd) (filter_unexpired clock 0 hlen)).symm

theorem Loaded.sound {s : SessionQueue} (h : Loaded aes key s) : Sound aes key s := by
  obtain ⟨clock, hclock, hload⟩ := h.load
  exact sound_of_load h.now hclock h.idle.2 h.record hload

/-! ## Steps -/

/-- What agrees up to expired rows goes on to. -/
theorem filter_expires_mono {l l' : List Session} {now now' : ℕ}
    (h : l.filter (fun r => now < r.expires) = l'.filter fun r => now < r.expires)
    (hle : now ≤ now') :
    l.filter (fun r => now' < r.expires) = l'.filter fun r => now' < r.expires := by
  have hsub : ∀ l : List Session, l.filter (fun r => now' < r.expires) =
      (l.filter fun r => now < r.expires).filter fun r => now' < r.expires := by
    intro l
    rw [List.filter_filter]
    refine List.filter_congr fun r _ => ?_
    by_cases ht : now' < r.expires
    · have hs : now < r.expires := Nat.lt_of_le_of_lt hle ht
      simp [ht, hs]
    · simp [ht]
  rw [hsub l, h, ← hsub]

theorem Persisted.mono {s t : SessionQueue} (h : Persisted aes key s) (hkv : t.kv = s.kv)
    (hsessions : t.sessions = s.sessions) (hnow : s.now ≤ t.now) : Persisted aes key t := by
  rcases h with ⟨hn, he⟩ | ⟨rows, nonce, hr, hrows, hfits, hfilter⟩
  · exact .inl ⟨hkv.trans hn, hsessions.trans he⟩
  · refine .inr ⟨rows, nonce, hkv.trans hr, hrows.mono hnow, hfits, ?_⟩
    rw [hsessions]
    exact filter_expires_mono hfilter hnow

namespace Sound

variable {s t : SessionQueue}

/-- A step that keeps the map and the record. -/
theorem frame (h : Sound aes key s) (hsessions : t.sessions = s.sessions) (hkv : t.kv = s.kv)
    (hle : s.now ≤ t.now) (hnow : t.now ≤ MAX_TIME)
    (hrun : ∀ op ∈ t.running, PhaseSound t op.phase) : Sound aes key t where
  rows := by rw [hsessions]; exact h.rows.mono hle
  keyed := by rw [hsessions]; exact h.keyed
  now := hnow
  persisted := h.persisted.mono hkv hsessions hle
  running := hrun

/-- The running call does not notice a step elsewhere. -/
theorem frame_running (h : Sound aes key s) (hsessions : t.sessions = s.sessions)
    (hkv : t.kv = s.kv) (hnow : t.now = s.now) (hrunning : t.running = s.running) :
    Sound aes key t := by
  refine h.frame hsessions hkv hnow.ge (hnow ▸ h.now) fun op hop => ?_
  rw [hrunning] at hop
  have hphase := h.running op hop
  cases hp : op.phase with
  | checking prior token grants valid =>
    rw [hp] at hphase
    simpa only [PhaseSound, hsessions] using hphase
  | persisting token id next =>
    rw [hp] at hphase
    simpa only [PhaseSound, hsessions, hnow] using hphase

theorem settle (h : Sound aes key s) (call : RedeemCall) (outcome : Outcome) (token : Option Text)
    (missing : List Text) : Sound aes key (s.settle call outcome token missing) :=
  h.frame rfl rfl le_rfl h.now fun op hop => by cases hop

theorem run (h : Sound aes key s) {op : Operation} (hop : PhaseSound s op.phase) :
    Sound aes key (s.run op) := by
  refine h.frame rfl rfl le_rfl h.now fun op' hop' => ?_
  obtain rfl := Option.some.inj hop'
  cases hp : op.phase with
  | checking prior token grants valid =>
    rw [hp] at hop
    exact hop
  | persisting token id next =>
    rw [hp] at hop
    exact hop

theorem get_id {p : Session} (h : Sound aes key s) {id : Text} (hp : s.sessions.get id = some p) :
    p.id = id :=
  h.keyed (id, p) (OrderedMap.get_eq_some.mp hp)

theorem ok_of_get {p : Session} (h : Sound aes key s) {id : Text}
    (hp : s.sessions.get id = some p) : p.Ok :=
  h.rows.ok p (OrderedMap.mem_values_of_get hp)

/-- The prior session is one of the map, under its id. -/
theorem get_prior {p : Session} (h : Sound aes key s) {id : Option Text}
    (hp : priorSession s.sessions id = some p) : s.sessions.get p.id = some p := by
  unfold priorSession at hp
  cases id with
  | none => cases hp
  | some id =>
    simp only at hp
    split_ifs at hp
    rw [h.get_id hp, hp]

theorem priorGrants_ok (h : Sound aes key s) (clock : Clock) (id : Option Text) :
    (priorGrants clock (priorSession s.sessions id)).Nodup ∧
      (priorGrants clock (priorSession s.sessions id)).length ≤ 128 := by
  unfold priorGrants
  cases hp : livePrior clock (priorSession s.sessions id) with
  | none => exact ⟨List.nodup_nil, Nat.zero_le _⟩
  | some p =>
    have hok := h.ok_of_get (h.get_prior (Option.mem_filter_iff.mp hp).1)
    exact ⟨hok.nodup, hok.size⟩

theorem isTokenId_of_find {store : Invitations} {raw : Text} {token : Token}
    (h : store.1.findByRawToken hmac raw = some token) : isTokenId token.id = true :=
  store.2 token (List.mem_of_find?_eq_some h)

theorem isTokenId_of_get {store : Invitations} {id : Text} (h : (store.1.getToken id).isSome) :
    isTokenId id = true := by
  obtain ⟨token, ht⟩ := Option.isSome_iff_exists.mp h
  have hid := store.2 token (OrderedMap.mem_values_of_get ht)
  rwa [InMemoryStore.id_of_getToken ht] at hid

theorem begin (h : Sound aes key s) (clock : Clock) (call : RedeemCall) :
    Sound aes key (s.begin hmac clock call) := by
  unfold SessionQueue.begin
  cases hf : s.store.1.findByRawToken hmac call.raw with
  | none => exact h.settle _ _ _ _
  | some token =>
    simp only
    split_ifs
    · exact h.settle _ _ _ _
    · obtain ⟨hnodup, hsize⟩ := h.priorGrants_ok clock call.priorId
      exact h.run ⟨fun p hp => h.get_prior hp, isTokenId_of_find hf, hnodup, hsize, by simp⟩

theorem check (h : Sound aes key s) {call : RedeemCall} {prior : Option Session} {token : Token}
    {grant : Text} {grants valid missing : List Text}
    (hop : PhaseSound s (.checking prior token (grant :: grants) valid)) :
    Sound aes key (s.check call prior token grant grants valid missing) := by
  obtain ⟨hprior, htoken, hnodup, hsize, hvalid⟩ := hop
  unfold SessionQueue.check
  split_ifs with hg
  · have hmove : valid ++ [grant] ++ grants = valid ++ grant :: grants := by
      rw [List.append_assoc, List.singleton_append]
    refine h.run ⟨hprior, htoken, hmove ▸ hnodup, hmove ▸ hsize, fun g hm => ?_⟩
    rcases List.mem_append.mp hm with hm | hm
    · exact hvalid g hm
    · rw [List.mem_singleton.mp hm]
      exact isTokenId_of_get hg
  · have hsub : (valid ++ grants).Sublist (valid ++ grant :: grants) :=
      (List.Sublist.refl valid).append (List.sublist_cons_self grant grants)
    exact h.run ⟨hprior, htoken, hnodup.sublist hsub, hsub.length_le.trans hsize, hvalid⟩

theorem mem_withToken {valid : List Text} {id g : Text} (h : g ∈ withToken valid id) :
    g ∈ valid ∨ g = id := by
  unfold withToken at h
  split_ifs at h
  · exact .inl h
  · simpa using h

theorem token_mem_withToken (valid : List Text) (id : Text) : id ∈ withToken valid id := by
  unfold withToken
  split_ifs with h
  · exact h
  · simp

theorem nodup_withToken {valid : List Text} (h : valid.Nodup) (id : Text) :
    (withToken valid id).Nodup := by
  unfold withToken
  split_ifs with hm
  · exact h
  · rw [List.nodup_append]
    refine ⟨h, by simp, fun a ha b hb => ?_⟩
    rw [List.mem_singleton.mp hb]
    rintro rfl
    exact hm ha

/-- The new row fits by itself. -/
theorem not_oversized_single {session : Session} (h : session.Ok)
    (hgrants : ∀ g ∈ session.grants, isTokenId g = true) : oversized [session] = false := by
  have hsize := size_session_le h fun g hg => (length_of_isTokenId (hgrants g hg)).le
  unfold oversized
  simp only [Bool.or_eq_false_iff, decide_eq_false_iff_not, not_lt]
  exact ⟨by simp, hsize⟩

/-- The row that a call makes, and the map with it. -/
theorem build_rows (h : Sound aes key s) (clock : Clock) (random : RandomId)
    {prior : Option Session} {token : Token} {valid : List Text}
    (hop : PhaseSound s (.checking prior token [] valid))
    (hsize : (withToken valid token.id).length ≤ 128) :
    let id := sessionIdFor clock prior random
    let now := clock.reading (1 + s.sessions.size)
    let session : Session := ⟨id, withToken valid token.id, now + sessionTtl⟩
    session.Ok ∧ NextRows now s.sessions id session
      (nextSessions clock s.sessions id (withToken valid token.id)) := by
  obtain ⟨hprior, htoken, hnodup, -, hvalid⟩ := hop
  rw [List.append_nil] at hnodup
  intro id now session
  have hidok : isSessionId id = true := by
    show isSessionId (sessionIdFor clock prior random) = true
    unfold sessionIdFor
    cases hp : livePrior clock prior with
    | none => exact isSessionId_base64url random
    | some p => exact (h.ok_of_get (hprior p (Option.mem_filter_iff.mp hp).1)).id
  have hok : session.Ok := ⟨hidok, hsize, nodup_withToken hnodup _,
    Nat.add_le_add_right (clock.bounded _) _⟩
  refine ⟨hok, nextSessions_rows clock (not_oversized_single hok fun g hg => ?_)⟩
  rcases mem_withToken hg with hg | rfl
  · exact hvalid g hg
  · exact htoken

theorem build (h : Sound aes key s) {clock : Clock} {random : RandomId} {call : RedeemCall}
    {prior : Option Session} {token : Token} {valid missing : List Text}
    (hnow : s.now = clock.reading (1 + s.sessions.size))
    (hop : PhaseSound s (.checking prior token [] valid)) :
    Sound aes key (s.build clock random call prior token valid missing) := by
  unfold SessionQueue.build
  simp only
  split_ifs with hsize
  · exact h.settle _ _ _ _
  · obtain ⟨hok, hnext⟩ := h.build_rows clock random hop (not_lt.mp hsize)
    exact h.run ⟨_, hnow ▸ hnext, hok, rfl, by rw [hnow], token_mem_withToken _ _⟩

/-- The map that a call publishes keeps to the limits. -/
theorem persisting_ok (h : Sound aes key s) {token : Token} {id : Text} {next : Sessions}
    (hop : PhaseSound s (.persisting token id next)) : RowsOk s.now next.values ∧ Keyed next := by
  obtain ⟨session, hnext, hok, hid, hend, _⟩ := hop
  exact hnext.ok h.rows h.keyed hok hid hend

theorem persisting_fits {token : Token} {id : Text} {next : Sessions}
    (hop : PhaseSound s (.persisting token id next)) :
    (utf8Encode (sessionsPayload next.values)).length ≤ 160 * 1024 := by
  obtain ⟨session, hnext, _⟩ := hop
  exact (oversized_eq_false hnext.fits).2

theorem persist (h : Sound aes key s) {written : Option Nonce} {call : RedeemCall} {token : Token}
    {id : Text} {next : Sessions} {missing : List Text}
    (hop : PhaseSound s (.persisting token id next)) :
    Sound aes key (s.persist aes key written call token id next missing) := by
  unfold SessionQueue.persist
  cases written with
  | none => exact h.settle _ _ _ _
  | some nonce =>
    obtain ⟨hrows, hkeyed⟩ := h.persisting_ok hop
    refine ⟨hrows, hkeyed, h.now, .inr ⟨next.values, nonce, rfl, hrows, persisting_fits hop, rfl⟩, ?_⟩
    intro op hop'
    cases hop'

/-- What a restart finds is a record of the program, or none. -/
theorem recordAtEnd (h : Sound aes key s) (written : Option Nonce) :
    s.recordAtEnd aes key written = none ∨ ∃ rows nonce,
      s.recordAtEnd aes key written = sessionsRecord aes key nonce rows ∧ RowsOk s.now rows ∧
        (utf8Encode (sessionsPayload rows)).length ≤ 160 * 1024 := by
  have hkv : s.kv = none ∨ ∃ rows nonce, s.kv = sessionsRecord aes key nonce rows ∧
      RowsOk s.now rows ∧ (utf8Encode (sessionsPayload rows)).length ≤ 160 * 1024 := by
    rcases h.persisted with ⟨hn, _⟩ | ⟨rows, nonce, hr, hrows, hfits, _⟩
    · exact .inl hn
    · exact .inr ⟨rows, nonce, hr, hrows, hfits⟩
  unfold SessionQueue.recordAtEnd
  cases hr : s.running with
  | none => exact hkv
  | some op =>
    have hop := h.running op hr
    obtain ⟨call, phase, missing⟩ := op
    cases phase with
    | checking prior token grants valid => exact hkv
    | persisting token id next =>
      cases written with
      | none => exact hkv
      | some nonce =>
        exact .inr ⟨next.values, nonce, rfl, (h.persisting_ok hop).1, persisting_fits hop⟩

/-- A restart leaves a store that has just loaded a record of the program. -/
theorem loaded_of_restart (h : Sound aes key s) {written : Option Nonce} {clock : Clock}
    {m : Sessions} (hclock : s.now ≤ clock.reading 0)
    (hm : loadSessions aes key.1 clock (s.recordAtEnd aes key written) = some m) :
    Loaded aes key { s with sessions := m, kv := s.recordAtEnd aes key written,
                            now := clock.reading 2048, waiting := [], running := none } := by
  have hle : s.now ≤ clock.reading 2048 := hclock.trans (clock.monotone (Nat.zero_le _))
  refine ⟨⟨rfl, rfl⟩, ?_, ⟨clock, le_rfl, hm⟩, clock.bounded _⟩
  rcases h.recordAtEnd written with hn | ⟨rows, nonce, hr, hrows, hfits⟩
  · exact .inl hn
  · exact .inr ⟨rows, nonce, hr, hrows.mono hle, hfits⟩

/-- **Step lemma.** Every event keeps the invariant. -/
theorem step (h : Sound aes key s) {e : SessionEvent} (ht : s.step hmac aes key e = some t) :
    Sound aes key t := by
  cases SessionQueue.Step.of_step ht with
  | call => exact h.frame_running rfl rfl rfl rfl
  | invitations => exact h.frame_running rfl rfl rfl rfl
  | @begin clock call waiting hr hw hclock =>
    have hs : Sound aes key { s with waiting, now := clock.reading 0 } := by
      refine h.frame rfl rfl hclock (clock.bounded 0) fun op hop => ?_
      simp only [hr] at hop
      cases hop
    exact hs.begin clock call
  | check hr => exact h.check (h.running _ hr)
  | @build clock _ _ _ _ _ _ hr hclock =>
    have hle : s.now ≤ clock.reading (1 + s.sessions.size) :=
      hclock.trans (clock.monotone (Nat.zero_le _))
    have hs : Sound aes key { s with now := clock.reading (1 + s.sessions.size) } := by
      refine h.frame rfl rfl hle (clock.bounded _) fun op hop => ?_
      rw [show op = _ from (Option.some.inj (hr.symm.trans hop)).symm]
      exact h.running _ hr
    exact hs.build rfl (h.running _ hr)
  | persist hr => exact h.persist (h.running _ hr)
  | restart hclock hload => exact (h.loaded_of_restart hclock hload).sound

end Sound

/-! ## The result -/

/-- What a payload is of: a text within the limit that loads as rows, which are the sessions up to
expired ones. -/
structure PayloadOf (s : SessionQueue) (payload : Text) : Prop where
  size : (utf8Encode payload).length ≤ 160 * 1024
  rows : ∃ rows, parseSessions payload = some rows ∧
    ∀ now ≥ s.now, rows.filter (fun r => now < r.expires) =
      s.sessions.values.filter fun r => now < r.expires

/-- The limits of the session map and of its record. -/
structure StoreSound (aes : Aes) (key : RandomKey) (s : SessionQueue) : Prop where
  size : s.sessions.size ≤ 2048
  rows : ∀ e ∈ s.sessions.entries, e.2.id = e.1 ∧ isSessionId e.1 = true ∧
    e.2.grants.length ≤ 128 ∧ e.2.grants.Nodup
  /-- The map lists the sessions by the time of their last redemption. -/
  recency : s.sessions.values.Pairwise fun s t => s.expires ≤ t.expires
  record : s.kv = none ∧ s.sessions = .empty ∨ ∃ atRest r payload, s.kv = some atRest ∧
    decryptRecord aes key.1 PAYLOAD atRest = some r ∧ r.migrated = false ∧
      r.payload = some payload ∧ PayloadOf s payload
  /-- A restart recovers the sessions that have not expired, and no others. -/
  restart : ∀ clock : Clock, s.now ≤ clock.reading 0 →
    ∃ m, loadSessions aes key.1 clock s.kv = some m ∧
      (∀ e ∈ s.sessions.entries, clock.reading 2048 < e.2.expires → e ∈ m.entries) ∧
        ∀ e ∈ m.entries, e ∈ s.sessions.entries

/-- What one step does: a call publishes a map with the redeemed invitation in its session, or the
process restarts, or the map and the record stay and no call succeeds. -/
def StepSound (aes : Aes) (key : RandomKey) (s : SessionQueue) (e : SessionEvent)
    (t : SessionQueue) : Prop :=
  (∃ call id token missing session,
      t.settled = s.settled ++ [⟨call, .redeemed id, some token, missing⟩] ∧
      t.sessions.get id = some session ∧ token ∈ session.grants ∧
      NextRows s.now s.sessions id session t.sessions) ∨
    (∃ written clock, e = .restart written clock ∧ Loaded aes key t) ∨
    t.sessions = s.sessions ∧ t.kv = s.kv ∧
      ∀ c ∈ t.settled, c ∈ s.settled ∨ ∀ id, c.outcome ≠ .redeemed id

theorem NextRows.get {now : ℕ} {sessions next : Sessions} {id : Text} {session : Session}
    (h : NextRows now sessions id session next) : next.get id = some session := by
  obtain ⟨_, kept, _, _, _, hentries, _⟩ := h.rows
  rw [OrderedMap.get_eq_some, hentries]
  simp

theorem Sound.restart {s : SessionQueue} (h : Sound aes key s) (clock : Clock)
    (hclock : s.now ≤ clock.reading 0) :
    ∃ m, loadSessions aes key.1 clock s.kv = some m ∧
      (∀ e ∈ s.sessions.entries, clock.reading 2048 < e.2.expires → e ∈ m.entries) ∧
        ∀ e ∈ m.entries, e ∈ s.sessions.entries := by
  rcases h.persisted with ⟨hn, he⟩ | ⟨rows, nonce, hkv, hrows, -, hfilter⟩
  · rw [hn, he]
    exact ⟨.empty, rfl, fun e hm _ => hm, fun e hm => hm⟩
  · obtain ⟨m, hm, hentries⟩ := loadSessions_record aes key hrows clock nonce
    rw [hkv]
    have hmem : ∀ r : Session, s.now < r.expires → (r ∈ rows ↔ r ∈ s.sessions.values) := by
      intro r hr
      have := congrArg (r ∈ ·) hfilter
      simpa [hr] using this
    have hlen : clock.reading (0 + (pairs rows).length) ≤ clock.reading 2048 := by
      refine clock.monotone ?_
      have := hrows.size
      simp only [pairs, List.length_map]
      omega
    refine ⟨m, hm, fun e he hlive => ?_, fun e he => ?_⟩
    · have hnow : s.now < e.2.expires :=
        Nat.lt_of_le_of_lt (hclock.trans (clock.monotone (Nat.zero_le 2048))) hlive
      have hrow : e.2 ∈ rows := (hmem e.2 hnow).mpr (List.mem_map_of_mem he)
      have hpair : e ∈ pairs rows :=
        List.mem_map.mpr ⟨e.2, hrow, Prod.ext (h.keyed e he) rfl⟩
      rw [hentries]
      rcases mem_unexpired clock 0 hpair with hu | hu
      · exact hu
      · exact absurd (hu.trans hlen) (not_le.mpr hlive)
    · rw [hentries] at he
      have hlive := lt_expires_of_mem_unexpired he
      obtain ⟨row, hrow, rfl⟩ := List.mem_map.mp ((unexpired_sublist clock 0 _).subset he)
      have hvalue := (hmem row (Nat.lt_of_le_of_lt hclock hlive)).mp hrow
      obtain ⟨e, he', rfl⟩ := List.mem_map.mp hvalue
      rwa [h.keyed e he']

theorem Sound.storeSound {s : SessionQueue} (h : Sound aes key s) : StoreSound aes key s where
  size := by
    have := h.rows.size
    unfold OrderedMap.values at this
    rwa [List.length_map] at this
  rows e he := by
    have hok := h.rows.ok e.2 (List.mem_map_of_mem he)
    have hid := h.keyed e he
    exact ⟨hid, hid ▸ hok.id, hok.size, hok.nodup⟩
  recency := h.rows.sorted
  record := by
    rcases h.persisted with hn | ⟨rows, nonce, hkv, hrows, hfits, hfilter⟩
    · exact .inl hn
    · obtain ⟨atRest, hrec, -⟩ := encryptRecord_isSome aes key nonce []
        (sessionsPayload rows)
      obtain ⟨r, hr, hm, hp⟩ := decryptRecord_encryptRecord aes hrec
      refine .inr ⟨atRest, r, _, hkv.trans hrec, hr, hm, hp, hfits, rows,
        parseSessions_payload hrows.ok hrows.size,
        fun now hnow => filter_expires_mono hfilter hnow⟩
  restart := h.restart

/-- A step that publishes nothing. -/
theorem StepSound.frame {s t : SessionQueue} {e : SessionEvent} (hsessions : t.sessions = s.sessions)
    (hkv : t.kv = s.kv)
    (hsettled : t.settled = s.settled ∨ ∃ c : SettledCall, t.settled = s.settled ++ [c] ∧
      ∀ id, c.outcome ≠ .redeemed id) : StepSound aes key s e t := by
  refine .inr (.inr ⟨hsessions, hkv, fun c hc => ?_⟩)
  rcases hsettled with hs | ⟨c', hs, hne⟩
  · exact .inl (hs ▸ hc)
  · rw [hs] at hc
    rcases List.mem_append.mp hc with hc | hc
    · exact .inl hc
    · rw [List.mem_singleton.mp hc]
      exact .inr hne

theorem Sound.stepSound {s t : SessionQueue} (h : Sound aes key s) {e : SessionEvent}
    (ht : s.step hmac aes key e = some t) : StepSound aes key s e t := by
  cases SessionQueue.Step.of_step ht with
  | call => exact .frame rfl rfl (.inl rfl)
  | invitations => exact .frame rfl rfl (.inl rfl)
  | begin =>
    unfold SessionQueue.begin
    simp only
    split
    · exact .frame rfl rfl (.inr ⟨_, rfl, by simp⟩)
    · split_ifs
      · exact .frame rfl rfl (.inr ⟨_, rfl, by simp⟩)
      · exact .frame rfl rfl (.inl rfl)
  | check =>
    unfold SessionQueue.check
    split_ifs <;> exact .frame rfl rfl (.inl rfl)
  | build =>
    unfold SessionQueue.build
    simp only
    split_ifs
    · exact .frame rfl rfl (.inr ⟨_, rfl, by simp⟩)
    · exact .frame rfl rfl (.inl rfl)
  | @persist written _ _ _ _ _ hr =>
    unfold SessionQueue.persist
    cases written with
    | none => exact .frame rfl rfl (.inr ⟨_, rfl, by simp⟩)
    | some nonce =>
      obtain ⟨session, hnext, -, -, -, htoken⟩ := h.running _ hr
      exact .inl ⟨_, _, _, _, session, rfl, hnext.get, htoken, hnext⟩
  | @restart written clock _ hclock hload =>
    exact .inr (.inl ⟨written, clock, rfl, h.loaded_of_restart hclock hload⟩)

/-- **Session store.** After any calls the map and its record keep to the limits, and every step
publishes a whole map or changes nothing. -/
theorem session_store_sound (hmac : Hmac) (aes : Aes) (key : RandomKey) {s₀ s : SessionQueue}
    (h₀ : Loaded aes key s₀)
    (h : Machine.Reaches (SessionQueue.step hmac aes key) (fun _ _ => True) s₀ s) :
    StoreSound aes key s ∧
      ∀ e t, s.step hmac aes key e = some t → StepSound aes key s e t := by
  have hs : Sound aes key s := h.invariant h₀.sound fun _ _ _ ht _ hstep => ht.step hstep
  exact ⟨hs.storeSound, fun e t ht => hs.stepSound ht⟩

/-! ## One redemption -/

def inviteId : Text := "bbsh_aaaaaaaaaaaa".toList

/-- An invitation to thread `t`, under the digest that is the bearer itself. -/
def inviteToken : Token :=
  { id := inviteId, hash := ['r'], label := [], createdAt := Number.ofNat 0,
    shares := [⟨"t".toList, "p".toList, .read, Number.ofNat 0⟩], nodup := List.nodup_singleton _ }

def oneInvitation : Invitations := ⟨(InMemoryStore.new []).put inviteToken, by decide⟩

/-- A store without a record. -/
def SessionQueue.blank (store : Invitations) : SessionQueue :=
  { sessions := .empty, kv := none, store, now := 0, calls := 0, waiting := [], running := none,
    settled := [] }

def zeroClock : Clock := .still 0 (Nat.zero_le _)

theorem loaded_blank (store : Invitations) : Loaded aes key (.blank store) :=
  ⟨⟨rfl, rfl⟩, .inl rfl, ⟨zeroClock, le_rfl, rfl⟩, Nat.zero_le _⟩

def zeroKey : RandomKey := ⟨List.replicate 32 0, rfl⟩

def zeroNonce : Nonce := ⟨List.replicate 12 0, rfl⟩

def zeroId : RandomId := ⟨List.replicate 32 0, rfl⟩

/-- One call, from its start to its end. -/
def oneRedemption : List SessionEvent :=
  [.call ['r'] none, .begin zeroClock, .build zeroClock zeroId, .persist (some zeroNonce)]

theorem session_store_sound_once :
    ∃ s, Machine.Reaches (SessionQueue.step .plain .plain zeroKey) (fun _ _ => True)
        (.blank oneInvitation) s ∧
      s.settled.map (fun c => c.outcome) = [.redeemed (base64url zeroId.1)] ∧
      StoreSound .plain zeroKey s := by
  obtain ⟨s, hs⟩ : ∃ s, Machine.exec (SessionQueue.step .plain .plain zeroKey) (fun _ _ => True)
      (.blank oneInvitation) oneRedemption = some s := ⟨_, rfl⟩
  have hreach := Machine.reaches_of_exec hs
  have houtcome : (Machine.exec (SessionQueue.step .plain .plain zeroKey) (fun _ _ => True)
      (.blank oneInvitation) oneRedemption).map (fun s => s.settled.map fun c => c.outcome) =
        some [.redeemed (base64url zeroId.1)] := by decide +kernel
  rw [hs] at houtcome
  exact ⟨s, hreach, Option.some.inj houtcome,
    (session_store_sound .plain .plain zeroKey (loaded_blank oneInvitation) hreach).1⟩

end BbShared
