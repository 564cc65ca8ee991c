import BbShared.Gateway

/-!
# The guest boundary

What the gateway can be made to fetch.  `handle_withinGrant`: a relayed request stays within the
live shares of its session.
-/

namespace BbShared

open Js

/-! ## Spellings of a path -/

theorem pathChar_lt {c : Char} (h : pathChar c = true) : c.toNat < 127 := by
  by_contra hc
  have : c0ControlSet c = true := by
    unfold c0ControlSet
    simp only [Bool.or_eq_true, decide_eq_true_eq]
    omega
  unfold pathChar pathSet querySet at h
  simp [this] at h

/-- A character of a URL pathname is visible and delimits nothing but segments. -/
theorem pathChar_spec {c : Char} (h : pathChar c = true) :
    isSpace c = false ∧ (c ≠ '?' && c ≠ '#') = true ∧ lineTerminator c = false := by
  exact forall_char_lt (P := fun c => pathChar c = true → isSpace c = false ∧
    (c ≠ '?' && c ≠ '#') = true ∧ lineTerminator c = false) (by decide) (pathChar_lt h) h

/-- Of a URL pathname nothing is cut or trimmed. -/
theorem pathPart_of_clean {path : Text} (h : ∀ c ∈ path, pathChar c = true) :
    pathPart path = path := by
  have htake : (path.takeWhile fun c => c ≠ '?' && c ≠ '#') = path :=
    List.takeWhile_eq_self_iff.mpr fun c hc => (pathChar_spec (h c hc)).2.1
  unfold pathPart
  rw [htake]
  exact trim_eq_self fun c hc => (pathChar_spec (h c hc)).1

/-- The optional prefix of a path. -/
def ApiOrNot (api : Text) : Prop := api = [] ∨ api = apiPrefix

theorem normalizePath_append {api q : Text} (hapi : ApiOrNot api)
    (hclean : pathPart (api ++ q) = api ++ q) (hq : ∃ c r, q = '/' :: c :: r)
    (hn : apiPrefix.isPrefixOf q = false) : normalizePath (api ++ q) = trimSlashes q := by
  obtain ⟨c, r, rfl⟩ := hq
  unfold normalizePath
  rw [hclean]
  rcases hapi with rfl | rfl
  · have hne : '/' :: c :: r ≠ apiPrefix := by
      intro h
      rw [h] at hn
      exact absurd hn (by decide)
    have hd : ('/' :: c :: r).dropPrefix? (apiPrefix ++ ['/']) = none := by
      rcases hd : ('/' :: c :: r).dropPrefix? (apiPrefix ++ ['/']) with _ | r'
      · rfl
      · have := dropPrefix?_eq_some.mp hd
        rw [this, List.append_assoc] at hn
        have hp := List.isPrefixOf_iff_prefix.mpr (List.prefix_append apiPrefix (['/'] ++ r'))
        rw [hn] at hp
        cases hp
    simp only [List.nil_append, List.head?_cons, if_true, if_neg hne, hd]
    simp
  · have hne : apiPrefix ++ '/' :: c :: r ≠ apiPrefix := by simp
    have hsplit : apiPrefix ++ '/' :: c :: r = apiPrefix ++ ['/'] ++ (c :: r) := by simp
    have hhead : (apiPrefix ++ '/' :: c :: r).head? = some '/' := rfl
    simp only [hhead, if_true, if_neg hne]
    rw [if_neg (by simp), hsplit, dropPrefix?_append]
    simp

/-- A pathname is its normalized path, with or without the prefix, followed by slashes. -/
theorem exists_spelling (u : Url) (h : normalizePath u.pathname ≠ ['/']) :
    ∃ api k, ApiOrNot api ∧ u.pathname = api ++ normalizePath u.pathname ++ slashes k := by
  obtain ⟨r, hr⟩ := u.rooted
  have hpart := pathPart_of_clean u.path_clean
  unfold normalizePath at h ⊢
  rw [hpart] at h ⊢
  have hne : u.pathname ≠ [] := by rw [hr]; simp
  have hhead : u.pathname.head? = some '/' := by rw [hr]; rfl
  simp only [if_neg hne, hhead, if_true] at h ⊢
  by_cases hexact : u.pathname = apiPrefix
  · rw [if_pos hexact] at h; simp at h
  rw [if_neg hexact] at h ⊢
  cases hd : u.pathname.dropPrefix? (apiPrefix ++ ['/']) with
  | none =>
    rw [hd] at h
    simp only at h ⊢
    split_ifs with hlen
    · obtain ⟨k, hk⟩ := exists_trimSlashes_append u.pathname
      exact ⟨[], k, Or.inl rfl, hk⟩
    · exact ⟨[], 0, Or.inl rfl, by simp [slashes]⟩
  | some r' =>
    rw [hd] at h
    simp only at h ⊢
    have hp : u.pathname = apiPrefix ++ '/' :: r' := by
      rw [dropPrefix?_eq_some.mp hd]; simp
    cases r' with
    | nil => simp at h
    | cons c r' =>
      rw [if_pos (by simp)]
      obtain ⟨k, hk⟩ := exists_trimSlashes_append ('/' :: c :: r')
      refine ⟨apiPrefix, k, Or.inr rfl, ?_⟩
      rw [List.append_assoc, ← hk]
      exact hp

theorem threadMatch_projects {p : Text} (hp : IsSegment p) :
    threadMatch (projectsPrefix ++ p) = none := by
  rcases hm : threadMatch (projectsPrefix ++ p) with _ | ⟨t, rest⟩
  · rfl
  · obtain ⟨⟨n, hn, h⟩, -, -, -⟩ := threadMatch_eq_some.mp hm
    rcases hn with rfl | ⟨q, _, rfl⟩
    · have : ['/', 'p'] = ['/', 't'] := congrArg (List.take 2) h
      exact absurd this (by decide)
    · rw [List.append_assoc, List.append_assoc] at h
      have := List.append_cancel_left h
      refine absurd ?_ hp.2
      rw [this]
      exact List.mem_append_right _ List.mem_cons_self

theorem not_static_thread {n : Text} (hn : Nesting n) (r : Text) :
    n ++ threadsPrefix ++ r ≠ ['/'] ∧ isStaticAssetPath (n ++ threadsPrefix ++ r) = false := by
  have hprojects : ∀ r, isStaticAssetPath (projectsPrefix ++ r) = false := fun r =>
    not_static_append (s := "projects/".toList) (by decide) rfl rfl
  rcases hn with rfl | ⟨p, _, rfl⟩
  · refine ⟨fun h => ?_, not_static_append (s := "threads/".toList) (by decide) rfl rfl⟩
    have : ['/', 't'] = ['/'] := congrArg (List.take 2) h
    exact absurd this (by decide)
  · rw [List.append_assoc, List.append_assoc]
    refine ⟨fun h => ?_, hprojects _⟩
    have : ['/', 'p'] = ['/'] := congrArg (List.take 2) h
    exact absurd this (by decide)

/-- A path that names a thread is refused or classified as that thread. -/
theorem classifyPath_thread {path n t rest : Text} (hn : Nesting n) (ht : IsSegment t)
    (hr : AtBoundary rest) (hl : rest.any lineTerminator = false)
    (hnorm : normalizePath path = n ++ threadsPrefix ++ (t ++ rest)) :
    classifyPath path = .invalid ∨ classifyPath path = .thread t rest := by
  have hm := threadMatch_eq_some.mpr ⟨⟨n, hn, rfl⟩, ht, hr, hl⟩
  obtain ⟨hroot, hstatic⟩ := not_static_thread hn (t ++ rest)
  unfold classifyPath
  simp only [hnorm, hm, hroot, hstatic, Bool.false_eq_true, or_self, if_false]
  split_ifs with h
  · exact Or.inl rfl
  · exact Or.inr rfl

theorem classifyPath_project {path p : Text} (hp : IsSegment p)
    (hnorm : normalizePath path = projectsPrefix ++ p) :
    classifyPath path = .invalid ∨ classifyPath path = .project p := by
  have hm := projectMatch_eq_some.mpr ⟨rfl, hp⟩
  have hstatic : isStaticAssetPath (projectsPrefix ++ p) = false :=
    not_static_append (s := "projects/".toList) (by decide) rfl rfl
  have hroot : projectsPrefix ++ p ≠ ['/'] := by
    intro h
    have : ['/', 'p'] = ['/'] := congrArg (List.take 2) h
    exact absurd this (by decide)
  unfold classifyPath
  simp only [hnorm, hm, hroot, hstatic, threadMatch_projects hp, Bool.false_eq_true, or_self,
    if_false]
  split_ifs with h
  · exact Or.inl rfl
  · exact Or.inr rfl

theorem normalizePath_thread {u : Url} {api n t rest : Text} (hapi : ApiOrNot api)
    (hn : Nesting n) (ht : IsSegment t)
    (h : u.pathname = api ++ (n ++ threadsPrefix ++ (t ++ rest))) :
    normalizePath u.pathname = n ++ threadsPrefix ++ (t ++ trimSlashes rest) := by
  have hclean := pathPart_of_clean u.path_clean
  rw [h] at hclean ⊢
  rw [normalizePath_append hapi hclean]
  · exact trimSlashes_append_segment ht _ _
  · rcases hn with rfl | ⟨p, _, rfl⟩ <;> exact ⟨_, _, rfl⟩
  · rcases hn with rfl | ⟨p, _, rfl⟩ <;> rfl

theorem normalizePath_project {u : Url} {api p : Text} {k : ℕ} (hapi : ApiOrNot api)
    (hp : IsSegment p) (h : u.pathname = api ++ (projectsPrefix ++ (p ++ slashes k))) :
    normalizePath u.pathname = projectsPrefix ++ p := by
  have hclean := pathPart_of_clean u.path_clean
  rw [h] at hclean ⊢
  rw [normalizePath_append hapi hclean ⟨_, _, rfl⟩ rfl, trimSlashes_append_segment hp]
  have hk : trimSlashes (slashes k) = [] := trimSlashes_append_slashes [] k
  rw [hk, List.append_nil]

/-! ## Authorized pathnames -/

/-- A pathname `[/api/v1][/projects/<p>]/threads/<t>...`. -/
def NamesThread (pathname t : Text) : Prop :=
  ∃ api n rest, ApiOrNot api ∧ Nesting n ∧ IsSegment t ∧ AtBoundary rest ∧
    pathname = api ++ (n ++ threadsPrefix ++ (t ++ rest))

/-- A pathname `[/api/v1]/projects/<p>`, with any number of slashes behind. -/
def NamesProject (pathname p : Text) : Prop :=
  ∃ api k, ApiOrNot api ∧ IsSegment p ∧ pathname = api ++ (projectsPrefix ++ (p ++ slashes k))

/-- A pathname `[/api/v1][/projects/<p>]/threads/<t>/send` followed by `k` slashes. -/
def NamesSend (pathname t : Text) (k : ℕ) : Prop :=
  ∃ api n, ApiOrNot api ∧ Nesting n ∧ IsSegment t ∧
    pathname = api ++ (n ++ threadsPrefix ++ (t ++ sendSuffix)) ++ slashes k

variable {token : Token} {u : Url} {method : Method}

theorem not_allowed_invalid (h : classifyPath u.pathname = .invalid) :
    (computeAuthz (some token) u.pathname method).allowed ≠ true := by
  rw [ne_eq, computeAuthz_allowed, h]
  rintro (ho | ⟨s, _, hp⟩)
  · cases ho.1
  · exact hp

theorem no_terminator_of_suffix {path pre rest : Text} (hc : ∀ c ∈ path, pathChar c = true)
    (h : path = pre ++ rest) : (trimSlashes rest).any lineTerminator = false := by
  rw [List.any_eq_false]
  intro c hmem
  have hc' : c ∈ path := by
    rw [h]
    exact List.mem_append_right _ ((List.rdropWhile_prefix _ rest).subset hmem)
  simp [(pathChar_spec (hc c hc')).2.2]

/-- An allowed pathname that names a thread is classified as that thread. -/
theorem classify_of_names_thread {api n t rest : Text} (hapi : ApiOrNot api) (hn : Nesting n)
    (ht : IsSegment t) (hr : AtBoundary rest)
    (h : u.pathname = api ++ (n ++ threadsPrefix ++ (t ++ rest)))
    (hallow : (computeAuthz (some token) u.pathname method).allowed = true) :
    classifyPath u.pathname = .thread t (trimSlashes rest) := by
  have hsplit : u.pathname = (api ++ (n ++ threadsPrefix ++ t)) ++ rest := by
    rw [h]; simp
  rcases classifyPath_thread hn ht (atBoundary_trimSlashes hr)
    (no_terminator_of_suffix u.path_clean hsplit) (normalizePath_thread hapi hn ht h) with hc | hc
  · exact absurd hallow (not_allowed_invalid hc)
  · exact hc

theorem thread_in_scope {t : Text} (h : NamesThread u.pathname t)
    (hallow : (computeAuthz (some token) u.pathname method).allowed = true) :
    ∃ s ∈ token.shares, s.threadId = t := by
  obtain ⟨api, n, rest, hapi, hn, ht, hr, h⟩ := h
  have hc := classify_of_names_thread hapi hn ht hr h hallow
  rcases (computeAuthz_allowed _ _ _).mp hallow with ho | ⟨s, hs, hp⟩
  · rw [hc] at ho; cases ho.1
  · rw [hc] at hp
    exact ⟨s, hs, hp.1⟩

theorem project_in_scope {p : Text} (h : NamesProject u.pathname p)
    (hallow : (computeAuthz (some token) u.pathname method).allowed = true) :
    ∃ s ∈ token.shares, s.projectId = p := by
  obtain ⟨api, k, hapi, hp, h⟩ := h
  rcases classifyPath_project hp (normalizePath_project hapi hp h) with hc | hc
  · exact absurd hallow (not_allowed_invalid hc)
  rcases (computeAuthz_allowed _ _ _).mp hallow with ho | ⟨s, hs, hperm⟩
  · rw [hc] at ho; cases ho.1
  · rw [hc] at hperm
    exact ⟨s, hs, hperm.1⟩

/-- What is allowed beyond reads: a post to the send path of a thread with a write share. -/
theorem send_of_not_reads (hread : ¬ method.Reads)
    (hallow : (computeAuthz (some token) u.pathname method).allowed = true) :
    method.Posts ∧ ∃ t k, NamesSend u.pathname t k ∧
      ∃ s ∈ token.shares, s.threadId = t ∧ s.perm = .write := by
  rcases (computeAuthz_allowed _ _ _).mp hallow with ho | ⟨s, hs, hp⟩
  · exact absurd ho.2 hread
  rcases hc : classifyPath u.pathname with _ | ⟨t, rest⟩ | p | _
  · rw [hc] at hp; exact hp.elim
  · rw [hc] at hp
    obtain ⟨hid, ⟨hr, _⟩ | ⟨hpost, rfl, hw⟩⟩ := hp
    · exact absurd hr hread
    refine ⟨hpost, t, ?_⟩
    rcases classifyPath_spec u.pathname with hinv | ⟨_, hspec⟩
    · rw [hc] at hinv; cases hinv
    rw [hc] at hspec
    obtain ⟨⟨n, hn, hnorm⟩, ht, -, -⟩ := threadMatch_eq_some.mp hspec
    have hroot : normalizePath u.pathname ≠ ['/'] := by
      rw [hnorm]; exact (not_static_thread hn _).1
    obtain ⟨api, k, hapi, hspell⟩ := exists_spelling u hroot
    rw [hnorm] at hspell
    exact ⟨k, ⟨api, n, hapi, hn, ht, hspell⟩, s, hs, hid, hw⟩
  · rw [hc] at hp; exact absurd hp.2 hread
  · rw [hc] at hp; exact hp.elim

/-! ## The boundary -/

@[simp] theorem pathname_stripQuery (url : Url) : (stripQuery url).pathname = url.pathname := by
  unfold stripQuery
  simp only
  split_ifs <;> simp only [Url.pathname_deleteParam]

/-- A relayed request, relative to a list of live shares. -/
structure WithinGrant (shares : List Share) (r : Relay) : Prop where
  thread : ∀ t, NamesThread r.url.pathname t → ∃ s ∈ shares, s.threadId = t
  project : ∀ p, NamesProject r.url.pathname p → ∃ s ∈ shares, s.projectId = p
  method : (r.method = "GET".toList ∨ r.method = "HEAD".toList) ∧ r.body = none ∨
    r.method = "POST".toList ∧
      (∃ t k, NamesSend r.url.pathname t k ∧ ∃ s ∈ shares, s.threadId = t ∧ s.perm = .write) ∧
      ∃ body, r.body = some body ∧ IsSendBody body

theorem fetchMethod_of_reads {method : Method} (h : method.Reads) {body : Option Text} {name : Text}
    (hf : fetchMethod method body = some name) :
    (name = "GET".toList ∨ name = "HEAD".toList) ∧ body = none := by
  have hmem : upper method.name ∈ normalizedMethods := by
    rcases h with h | h <;> rw [h] <;> decide
  unfold fetchMethod at hf
  simp only [if_pos hmem] at hf
  have hname : upper method.name = "GET".toList ∨ upper method.name = "HEAD".toList := h
  split_ifs at hf with h1 h2
  cases hf
  refine ⟨hname, ?_⟩
  cases body with
  | none => rfl
  | some b =>
    refine absurd ?_ h2
    rcases hname with h | h <;> rw [h] <;> rfl

theorem fetchMethod_of_posts {method : Method} (h : method.Posts) {body : Option Text} {name : Text}
    (hf : fetchMethod method body = some name) : name = "POST".toList := by
  have hname : upper method.name = "POST".toList := h
  have hmem : upper method.name ∈ normalizedMethods := by rw [hname]; decide
  unfold fetchMethod at hf
  simp only [if_pos hmem] at hf
  split_ifs at hf with h1 h2
  cases hf
  exact hname

theorem isGetOrHead_reads {method : Method} (h : method.isGetOrHead = true) : method.Reads := by
  unfold Method.isGetOrHead at h
  simp only [List.mem_cons, List.not_mem_nil, or_false, decide_eq_true_eq] at h
  rcases h with h | h
  · left; rw [h]; decide
  · right; rw [h]; decide

theorem Admitted.withinGrant {req : Request} {url : Url} {token : Token} {r : Relay}
    (h : Admitted req url token r) : WithinGrant token.shares r := by
  have hpath : r.url.pathname = url.pathname := by rw [h.url_eq, pathname_stripQuery]
  refine ⟨fun t ht => ?_, fun p hp => ?_, ?_⟩
  · rw [hpath] at ht; exact thread_in_scope ht h.allowed
  · rw [hpath] at hp; exact project_in_scope hp h.allowed
  · by_cases hread : req.method.Reads
    · exact Or.inl (fetchMethod_of_reads hread h.fetched)
    · obtain ⟨hpost, hsend⟩ := send_of_not_reads hread h.allowed
      right
      rw [hpath]
      refine ⟨fetchMethod_of_posts hpost h.fetched, hsend, ?_⟩
      rcases h.body with ⟨hget, _⟩ | ⟨_, hbody⟩
      · exact absurd (isGetOrHead_reads hget) hread
      · exact hbody

/-- The shares of a resolved token are live shares of its session. -/
theorem resolve_shares {sessions : Sessions} {store : InMemoryStore} {now : ℕ} {id : Option Text}
    {token : Token} (h : resolve sessions store now id = some token) :
    ∃ session, liveSession sessions now id = some session ∧
      token.shares = (mergeShares store session.grants).values := by
  unfold resolve at h
  cases hs : liveSession sessions now id with
  | none => rw [hs] at h; cases h
  | some session =>
    rw [hs] at h
    simp only at h
    split_ifs at h
    cases h
    exact ⟨session, rfl, rfl⟩

theorem WithinGrant.mono {shares shares' : List Share} {r : Relay} (h : WithinGrant shares r)
    (hsub : ∀ s ∈ shares, s ∈ shares') : WithinGrant shares' r := by
  refine ⟨fun t ht => ?_, fun p hp => ?_, ?_⟩
  · obtain ⟨s, hs, hid⟩ := h.thread t ht
    exact ⟨s, hsub s hs, hid⟩
  · obtain ⟨s, hs, hid⟩ := h.project p hp
    exact ⟨s, hsub s hs, hid⟩
  · rcases h.method with hm | ⟨hm, ⟨t, k, hsend, s, hs, hw⟩, hb⟩
    · exact Or.inl hm
    · exact Or.inr ⟨hm, ⟨t, k, hsend, s, hsub s hs, hw⟩, hb⟩

/-- **Guest boundary.**  What the gateway fetches for a guest lies within the live shares of the
session it resolved, and no request with a `token` parameter is relayed. -/
theorem handle_withinGrant (hmac : Hmac) (g : Gateway) (now : ℕ) (random : Bytes)
    (persisted : Bool) (req : Request) (r : Relay)
    (h : handle hmac g now random persisted req = .relay r) :
    (∃ session, liveSession g.sessions now (cookieId (req.header "cookie".toList)) = some session ∧
      WithinGrant (liveShares g.store session.grants) r) ∧
    ∀ url, requestUrl req.target = some url → url.hasParam "token".toList = false := by
  obtain ⟨url, token, hurl, htoken, hresolve, hadm⟩ := handle_spec h
  obtain ⟨session, hs, hshares⟩ := resolve_shares hresolve
  refine ⟨⟨session, hs, hadm.withinGrant.mono fun s hmem => ?_⟩, fun url' hurl' => ?_⟩
  · rw [hshares] at hmem
    exact mergeShares_subset hmem
  · rw [hurl] at hurl'
    cases hurl'
    exact htoken

/-! ## A post behind a slash -/

def guestId : Text := List.replicate 43 'a'

/-- A gateway with one session, over the invitation of project `p`. -/
def writerGateway : Gateway :=
  { origin := "http://127.0.0.1:38886".toList
    sessions := OrderedMap.ofEntries [(guestId, ⟨guestId, [['a']], 1⟩)]
    store := writerStore }

def guestCookie : Text × Text := ("cookie".toList, sessionCookie ++ '=' :: guestId)

/-- A message of one text to the given target. -/
def postRequest (target : Text) : Request :=
  { method := .post
    target
    headers := [guestCookie, ("content-type".toList, "application/json".toList)]
    body := [utf8Encode (sendBody ["hi".toList] "auto".toList)]
    ended := true }

theorem handle_postRequest_slash :
    ((handle .plain writerGateway 0 [] true (postRequest "/api/v1/threads/t/send/".toList)).relay?.map
      fun r => (r.method, r.url.pathname)) =
        some ("POST".toList, "/api/v1/threads/t/send/".toList) := by
  decide +kernel

theorem handle_withinGrant_post :
    ∃ r, handle .plain writerGateway 0 [] true (postRequest "/api/v1/threads/t/send/".toList) =
        .relay r ∧
      (∃ session, liveSession writerGateway.sessions 0 (cookieId (some guestCookie.2)) =
          some session ∧
        WithinGrant (liveShares writerGateway.store session.grants) r) ∧
      ∀ url, requestUrl "/api/v1/threads/t/send/".toList = some url →
        url.hasParam "token".toList = false := by
  obtain ⟨r, hr, -⟩ := Option.map_eq_some_iff.mp handle_postRequest_slash
  have h := Handled.relay?_eq_some.mp hr
  exact ⟨r, h, handle_withinGrant .plain writerGateway 0 [] true _ r h⟩

/-- A post is relayed to a send path that ends in a slash. -/
theorem not_handle_exactSend :
    ¬ ∀ (hmac : Hmac) (g : Gateway) (now : ℕ) (random : Bytes) (persisted : Bool) (req : Request)
      (r : Relay), handle hmac g now random persisted req = .relay r →
        r.method = "GET".toList ∨ r.method = "HEAD".toList ∨
          r.method = "POST".toList ∧ ∃ t, NamesSend r.url.pathname t 0 := by
  intro h
  obtain ⟨r, hr, hval⟩ := Option.map_eq_some_iff.mp handle_postRequest_slash
  obtain ⟨hmethod, hpath⟩ := Prod.mk.inj hval
  rcases h _ _ _ _ _ _ r (Handled.relay?_eq_some.mp hr) with hm | hm | ⟨_, t, api, n, _, _, _, hs⟩
  · rw [hmethod] at hm; exact absurd hm (by decide)
  · rw [hmethod] at hm; exact absurd hm (by decide)
  · rw [hpath] at hs
    have hsuf : sendSuffix <:+ "/api/v1/threads/t/send/".toList := by
      refine ⟨api ++ (n ++ threadsPrefix ++ t), ?_⟩
      rw [hs]; simp [slashes]
    exact absurd (List.isSuffixOf_iff_suffix.mpr hsuf) (by decide)

end BbShared
