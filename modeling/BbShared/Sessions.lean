import BbShared.Authz

/-!
# Guest sessions

`guest-gateway/sessions.ts`: a browser session names the invitations redeemed in it, and is
resolved at every request into one token whose shares are merged from the invitations that are
still live.  The merge keeps one share per thread: the last write share, or without one the first
share met.

`resolve_union` says for which requests the merged token stands for the union.
-/

namespace BbShared

open Js

/-! ## State -/

/-- A browser session: its opaque id, the ids of its invitations, and its end in milliseconds. -/
structure Session where
  id : Text
  grants : List Text
  expires : ℕ
  deriving DecidableEq

abbrev Sessions := OrderedMap Text Session

def sessionCookie : Text := "__Host-bb-shared-session".toList

/-- Thirty days. -/
def sessionTtl : ℕ := 30 * 24 * 60 * 60 * 1000

/-- The class `[A-Za-z0-9_-]`. -/
def isUrlSafe (c : Char) : Bool := c.isAlphanum || c == '_' || c == '-'

/-- `^[A-Za-z0-9_-]{43}$`. -/
def isSessionId (s : Text) : Bool := s.length = 43 && s.all isUrlSafe

/-- The session id of a `cookie` header with exactly one session cookie. -/
def cookieId (cookie : Option Text) : Option Text :=
  match (((cookie.getD []).splitOn ';').map trim).filterMap fun v =>
      v.dropPrefix? (sessionCookie ++ ['=']) with
  | [id] => if isSessionId id then some id else none
  | _ => none

/-! ## Resolving -/

/-- The shares of the invitations that still exist, in the order of redemption. -/
def liveShares (store : InMemoryStore) (grants : List Text) : List Share :=
  grants.flatMap fun g => match store.getToken g with
    | some t => t.shares
    | none => []

/-- A merge step: a share is kept unless a write share of its thread follows. -/
def mergeShare (shares : OrderedMap Text Share) (share : Share) : OrderedMap Text Share :=
  OrderedMap.insertPreferred Share.threadId (fun s => s.perm = .write) shares share

/-- The merge of a grant list. -/
def mergeShares (store : InMemoryStore) (grants : List Text) : OrderedMap Text Share :=
  grants.foldl (fun shares g =>
    match store.getToken g with
    | some t => t.shares.foldl mergeShare shares
    | none => shares) OrderedMap.empty

/-- The session under an id, when it has not expired. -/
def liveSession (sessions : Sessions) (now : ℕ) (id : Option Text) : Option Session :=
  match id with
  | none => none
  | some id => if id = [] then none else
    match sessions.get id with
    | none => none
    | some session => if session.expires ≤ now then none else some session

theorem mergeShares_eq_foldl (store : InMemoryStore) (grants : List Text) :
    mergeShares store grants = (liveShares store grants).foldl mergeShare OrderedMap.empty := by
  unfold mergeShares liveShares
  rw [List.foldl_flatMap]
  congr 1
  funext shares g
  cases store.getToken g <;> rfl

theorem nodup_mergeShares (store : InMemoryStore) (grants : List Text) :
    ((mergeShares store grants).values.map Share.threadId).Nodup := by
  rw [mergeShares_eq_foldl]
  have h := OrderedMap.map_values_insertPreferred Share.threadId (fun s => s.perm = .write)
    (liveShares store grants)
  exact h ▸ OrderedMap.nodup _

/-- `resolve`: the token of a session, unless nothing of it is live. -/
def resolve (sessions : Sessions) (store : InMemoryStore) (now : ℕ) (id : Option Text) :
    Option Token :=
  match liveSession sessions now id with
  | none => none
  | some session =>
    if (mergeShares store session.grants).size = 0 then none
    else some
      { id := session.id, hash := [], label := "Guest session".toList,
        createdAt := Number.ofNat 0, shares := (mergeShares store session.grants).values,
        nodup := nodup_mergeShares store session.grants }

/-! ## Redeeming -/

def Session.json (s : Session) : Json :=
  .obj [("id".toList, .str s.id), ("grants".toList, .arr (s.grants.map .str)),
    ("expires".toList, .num (.ofNat s.expires))]

/-- The payload of the durable session record. -/
def sessionsPayload (rows : List Session) : Text :=
  Json.stringify (.arr (rows.map Session.json))

/-- More sessions, or more bytes, than the record may hold. -/
def oversized (rows : List Session) : Bool :=
  2048 < rows.length || 160 * 1024 < (utf8Encode (sessionsPayload rows)).length

/-- Drop the oldest sessions until the record fits. -/
def evict : List (Text × Session) → List (Text × Session)
  | [] => []
  | e :: l => if oversized ((e :: l).map Prod.snd) then evict l else e :: l

/-- The outcome of a redemption. -/
inductive Redemption where
  | refused
  | limitReached
  | redeemed (id : Text) (next : Sessions)

/-- `redeem`: the sessions to persist and publish, with `random` for a new id. -/
def redeem (hmac : Hmac) (sessions : Sessions) (store : InMemoryStore) (now : ℕ) (raw : Text)
    (priorId : Option Text) (random : Bytes) : Redemption :=
  match store.findByRawToken hmac raw with
  | none => .refused
  | some token =>
    if token.shares = [] then .refused else
      let prior := liveSession sessions now priorId
      let grants := match prior with
        | some p => p.grants
        | none => []
      let valid := grants.filter fun id => (store.getToken id).isSome
      let valid := if token.id ∈ valid then valid else valid ++ [token.id]
      if 128 < valid.length then .limitReached else
        let id := match prior with
          | some p => p.id
          | none => base64url random
        let unexpired := sessions.entries.filter fun e => !(e.2.expires ≤ now)
        let next := unexpired.filter (fun e => e.1 ≠ id) ++ [(id, ⟨id, valid, now + sessionTtl⟩)]
        .redeemed id (OrderedMap.ofEntries (evict next))

/-! ## The union -/

/-- The share that decides a thread: its last live write share, or else its first live share. -/
def decidingShare (store : InMemoryStore) (grants : List Text) (threadId : Text) : Option Share :=
  OrderedMap.preferred Share.threadId (fun s => s.perm = .write) (liveShares store grants) threadId

theorem mem_mergeShares {store : InMemoryStore} {grants : List Text} {s : Share} :
    s ∈ (mergeShares store grants).values ↔ decidingShare store grants s.threadId = some s := by
  rw [mergeShares_eq_foldl]
  exact OrderedMap.mem_values_insertPreferred _ _ _ _

theorem mem_liveShares {store : InMemoryStore} {grants : List Text} {s : Share} :
    s ∈ liveShares store grants ↔ ∃ g ∈ grants, ∃ t, store.getToken g = some t ∧ s ∈ t.shares := by
  unfold liveShares
  rw [List.mem_flatMap]
  refine exists_congr fun g => and_congr_right fun _ => ?_
  cases store.getToken g <;> simp

theorem mergeShares_subset {store : InMemoryStore} {grants : List Text} {s : Share}
    (h : s ∈ (mergeShares store grants).values) : s ∈ liveShares store grants :=
  (OrderedMap.preferred_eq_some _ _ (mem_mergeShares.mp h)).1

/-- A thread of the union keeps a share. -/
theorem exists_mem_mergeShares {store : InMemoryStore} {grants : List Text} {s : Share}
    (h : s ∈ liveShares store grants) :
    ∃ s' ∈ (mergeShares store grants).values, s'.threadId = s.threadId := by
  obtain ⟨s', hs'⟩ := Option.isSome_iff_exists.mp
    (OrderedMap.preferred_isSome Share.threadId (fun s => s.perm = .write) h)
  have hid := (OrderedMap.preferred_eq_some _ _ hs').2
  exact ⟨s', mem_mergeShares.mpr (by rw [hid]; exact hs'), hid⟩

/-- **The strongest live permission wins**, whatever the order of redemption. -/
theorem exists_write_mem_mergeShares {store : InMemoryStore} {grants : List Text} {s : Share}
    (h : s ∈ liveShares store grants) (hw : s.perm = .write) :
    ∃ s' ∈ (mergeShares store grants).values, s'.threadId = s.threadId ∧ s'.perm = .write := by
  obtain ⟨s', hs', hw'⟩ :=
    OrderedMap.preferred_of_pref Share.threadId (fun s => s.perm = .write) h (by simp [hw])
  have hid := (OrderedMap.preferred_eq_some _ _ hs').2
  exact ⟨s', mem_mergeShares.mpr (by rw [hid]; exact hs'), hid, by simpa using hw'⟩

theorem size_mergeShares_eq_zero {store : InMemoryStore} {grants : List Text} :
    (mergeShares store grants).size = 0 ↔ liveShares store grants = [] := by
  have hsize : (mergeShares store grants).size = (mergeShares store grants).values.length := by
    unfold OrderedMap.size OrderedMap.values; rw [List.length_map]
  rw [hsize, List.length_eq_zero_iff, List.eq_nil_iff_forall_not_mem,
    List.eq_nil_iff_forall_not_mem]
  constructor
  · intro h s hs
    obtain ⟨s', hs', _⟩ := exists_mem_mergeShares hs
    exact h s' hs'
  · intro h s hs
    exact h s (mergeShares_subset hs)

/-! ## What a session allows -/

/-- A request that some live invitation of the session allows by itself. -/
def UnionAllows (store : InMemoryStore) (grants : List Text) (path : Text) (method : Method) :
    Prop :=
  ∃ g ∈ grants, ∃ t, store.getToken g = some t ∧ t.shares ≠ [] ∧
    (computeAuthz (some t) path method).allowed = true

/-- The union is what its shares permit, and the open routes while it has one. -/
theorem unionAllows_iff {store : InMemoryStore} {grants : List Text} {path : Text}
    {method : Method} :
    UnionAllows store grants path method ↔
      (classifyPath path).Open method ∧ liveShares store grants ≠ [] ∨
        ∃ s ∈ liveShares store grants, s.Permits method (classifyPath path) := by
  unfold UnionAllows
  constructor
  · rintro ⟨g, hg, t, ht, hne, hallow⟩
    rcases (computeAuthz_allowed t path method).mp hallow with ho | ⟨s, hs, hp⟩
    · obtain ⟨s, hs⟩ := List.exists_mem_of_ne_nil _ hne
      have hmem := mem_liveShares.mpr ⟨g, hg, t, ht, hs⟩
      exact Or.inl ⟨ho, List.ne_nil_of_mem hmem⟩
    · exact Or.inr ⟨s, mem_liveShares.mpr ⟨g, hg, t, ht, hs⟩, hp⟩
  · rintro (⟨ho, hne⟩ | ⟨s, hs, hp⟩)
    · obtain ⟨s, hs⟩ := List.exists_mem_of_ne_nil _ hne
      obtain ⟨g, hg, t, ht, hs⟩ := mem_liveShares.mp hs
      exact ⟨g, hg, t, ht, List.ne_nil_of_mem hs, (computeAuthz_allowed t path method).mpr (.inl ho)⟩
    · obtain ⟨g, hg, t, ht, hs⟩ := mem_liveShares.mp hs
      exact ⟨g, hg, t, ht, List.ne_nil_of_mem hs,
        (computeAuthz_allowed t path method).mpr (.inr ⟨s, hs, hp⟩)⟩

/-- What the resolved token allows, in terms of the merged shares. -/
theorem computeAuthz_resolve {sessions : Sessions} {store : InMemoryStore} {now : ℕ}
    {id : Option Text} {session : Session} (hs : liveSession sessions now id = some session)
    (path : Text) (method : Method) :
    (computeAuthz (resolve sessions store now id) path method).allowed = true ↔
      (classifyPath path).Open method ∧ liveShares store session.grants ≠ [] ∨
        ∃ s ∈ (mergeShares store session.grants).values, s.Permits method (classifyPath path) := by
  unfold resolve
  rw [hs]
  simp only
  by_cases h0 : (mergeShares store session.grants).size = 0
  · rw [if_pos h0]
    have hnil := size_mergeShares_eq_zero.mp h0
    constructor
    · intro h; cases h
    · rintro (⟨_, hne⟩ | ⟨s, hs, _⟩)
      · exact absurd hnil hne
      · have := mergeShares_subset hs
        rw [hnil] at this; cases this
  · rw [if_neg h0, computeAuthz_allowed]
    have hne : liveShares store session.grants ≠ [] := fun h => h0 (size_mergeShares_eq_zero.mpr h)
    simp [hne]

theorem resolve_eq_none {sessions : Sessions} {store : InMemoryStore} {now : ℕ}
    {id : Option Text} {session : Session} (hs : liveSession sessions now id = some session) :
    resolve sessions store now id = none ↔
      ¬ ∃ g ∈ session.grants, ∃ t, store.getToken g = some t ∧ t.shares ≠ [] := by
  unfold resolve
  rw [hs]
  simp only [ite_eq_left_iff, reduceCtorEq, imp_false, not_not]
  rw [size_mergeShares_eq_zero, List.eq_nil_iff_forall_not_mem]
  constructor
  · rintro h ⟨g, hg, t, ht, hne⟩
    obtain ⟨s, hs⟩ := List.exists_mem_of_ne_nil _ hne
    exact h s (mem_liveShares.mpr ⟨g, hg, t, ht, hs⟩)
  · intro h s hs
    obtain ⟨g, hg, t, ht, hs⟩ := mem_liveShares.mp hs
    exact h ⟨g, hg, t, ht, List.ne_nil_of_mem hs⟩

/-- A read of a project that live invitations share, on threads that other projects decide. -/
def ProjectLost (store : InMemoryStore) (grants : List Text) (path : Text) (method : Method) :
    Prop :=
  method.Reads ∧ ∃ p, classifyPath path = .project p ∧
    (∃ s ∈ liveShares store grants, s.projectId = p) ∧
      ∀ s ∈ liveShares store grants, s.projectId = p →
        decidingShare store grants s.threadId ≠ some s

theorem permits_merged {store : InMemoryStore} {grants : List Text} {path : Text}
    {method : Method} (hn : ¬ ProjectLost store grants path method) {s : Share}
    (hs : s ∈ liveShares store grants) (hp : s.Permits method (classifyPath path)) :
    ∃ s ∈ (mergeShares store grants).values, s.Permits method (classifyPath path) := by
  rcases hc : classifyPath path with _ | ⟨t, rest⟩ | p | _
  · rw [hc] at hp; exact hp.elim
  · rw [hc] at hp
    obtain ⟨rfl, hread | ⟨hpost, hrest, hw⟩⟩ := hp
    · obtain ⟨s', hs', hid⟩ := exists_mem_mergeShares hs
      exact ⟨s', hs', hid, Or.inl hread⟩
    · obtain ⟨s', hs', hid, hw'⟩ := exists_write_mem_mergeShares hs hw
      exact ⟨s', hs', hid, Or.inr ⟨hpost, hrest, hw'⟩⟩
  · rw [hc] at hp
    obtain ⟨hproj, hread⟩ := hp
    by_contra hno
    refine hn ⟨hread, p, hc, ⟨s, hs, hproj⟩, ?_⟩
    intro s' _ hproj' hdec
    exact hno ⟨s', mem_mergeShares.mpr hdec, hproj', hread⟩
  · rw [hc] at hp; exact hp.elim

/-- **Union of the live invitations.**  The resolved token stands for the union on a request,
exactly when the request does not read a project that every merged thread has lost. -/
theorem resolve_union (sessions : Sessions) (store : InMemoryStore) (now : ℕ) (id : Option Text)
    (session : Session) (hs : liveSession sessions now id = some session) (path : Text)
    (method : Method) :
    (((computeAuthz (resolve sessions store now id) path method).allowed = true ↔
        UnionAllows store session.grants path method) ∧
      (resolve sessions store now id = none ↔
        ¬ ∃ g ∈ session.grants, ∃ t, store.getToken g = some t ∧ t.shares ≠ [])) ↔
      ¬ ProjectLost store session.grants path method := by
  rw [computeAuthz_resolve hs, unionAllows_iff]
  refine ⟨?_, fun hn => ⟨?_, resolve_eq_none hs⟩⟩
  · rintro ⟨h, _⟩ ⟨hread, p, hc, ⟨s, hs', hp⟩, hdec⟩
    have hpermits : s.Permits method (classifyPath path) := by rw [hc]; exact ⟨hp, hread⟩
    rcases h.mpr (Or.inr ⟨s, hs', hpermits⟩) with ⟨ho, _⟩ | ⟨s', hm, hp'⟩
    · rw [hc] at ho; cases ho.1
    · rw [hc] at hp'
      exact hdec s' (mergeShares_subset hm) hp'.1 (mem_mergeShares.mp hm)
  · constructor
    · rintro (ho | ⟨s, hm, hp⟩)
      · exact Or.inl ho
      · exact Or.inr ⟨s, mergeShares_subset hm, hp⟩
    · rintro (ho | ⟨s, hs', hp⟩)
      · exact Or.inl ho
      · exact Or.inr (permits_merged hn hs' hp)

/-! ## Two projects over one thread -/

/-- An invitation to write on thread `t` as a thread of the given project. -/
def writerToken (id project : Text) : Token :=
  { id, hash := [], label := [], createdAt := Number.ofNat 0,
    shares := [⟨"t".toList, project, .write, Number.ofNat 0⟩],
    nodup := List.nodup_singleton _ }

def writerStore : InMemoryStore :=
  ((InMemoryStore.new []).put (writerToken ['a'] ['p'])).put (writerToken ['b'] ['q'])

def writerSession : Session := ⟨['s'], [['a'], ['b']], 1⟩

def writerSessions : Sessions := OrderedMap.ofEntries [(['s'], writerSession)]

theorem resolve_union_timeline :
    ((computeAuthz (resolve writerSessions writerStore 0 (some ['s']))
          "/threads/t/timeline".toList .get).allowed = true ↔
        UnionAllows writerStore writerSession.grants "/threads/t/timeline".toList .get) ∧
      (resolve writerSessions writerStore 0 (some ['s']) = none ↔
        ¬ ∃ g ∈ writerSession.grants, ∃ t, writerStore.getToken g = some t ∧ t.shares ≠ []) := by
  refine (resolve_union writerSessions writerStore 0 (some ['s']) writerSession (by decide) _
    .get).mpr ?_
  rintro ⟨_, p, hc, _⟩
  have : classifyPath "/threads/t/timeline".toList = .thread ['t'] "/timeline".toList := by decide
  rw [this] at hc
  cases hc

/-- Opening the invitation of `q` takes project `p` from the session. -/
theorem not_resolve_union :
    ¬ ∀ (sessions : Sessions) (store : InMemoryStore) (now : ℕ) (id : Option Text)
      (session : Session), liveSession sessions now id = some session →
      ∀ (path : Text) (method : Method),
        (computeAuthz (resolve sessions store now id) path method).allowed = true ↔
          UnionAllows store session.grants path method := by
  intro h
  have hdenied : (computeAuthz (resolve writerSessions writerStore 0 (some ['s']))
      "/projects/p".toList .get).allowed = false := by decide
  have hunion : UnionAllows writerStore writerSession.grants "/projects/p".toList .get :=
    ⟨['a'], by decide, writerToken ['a'] ['p'], by decide, by decide, by decide⟩
  have := (h writerSessions writerStore 0 (some ['s']) writerSession (by decide) _ .get).mpr hunion
  rw [hdenied] at this
  cases this

end BbShared
