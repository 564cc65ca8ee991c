import BbShared.Boundary

/-!
# Sanitising

Authorization, the response filters and the query edits read the pathname with three matchers.
`handle_sanitised_iff` says for which reads of an API route they agree: all but the spellings of a
thread that only authorization understands.
-/

namespace BbShared

open Js

/-! ## Spellings under the prefix -/

/-- An API pathname is the prefix, its normalized path and slashes. -/
theorem exists_api_spelling (u : Url) (hapi : ∃ r, u.pathname = apiPrefix ++ '/' :: r)
    (h : normalizePath u.pathname ≠ ['/']) :
    trimSlashes (normalizePath u.pathname) = normalizePath u.pathname ∧
      ∃ k, u.pathname = apiPrefix ++ (normalizePath u.pathname ++ slashes k) := by
  obtain ⟨r, hr⟩ := hapi
  have hpart := pathPart_of_clean u.path_clean
  have hunder : UnderApi u.pathname := Or.inr ⟨r, hr⟩
  have hn := normalizePath_underApi hunder
  have hroute : normalizePath u.pathname = apiRoute u.pathname := hn.resolve_right fun h' => h h'.1
  rw [hroute]
  unfold apiRoute
  rw [hpart, hr, List.drop_left]
  obtain ⟨k, hk⟩ := exists_trimSlashes_append ('/' :: r)
  exact ⟨trimSlashes_idem _, k, by rw [← hk]⟩

/-- The filters see an API path without its trailing slashes. -/
theorem trimSlashes_api {q : Text} {k : ℕ} (hq : trimSlashes q = q) (hne : q ≠ []) :
    trimSlashes (apiPrefix ++ (q ++ slashes k)) = apiPrefix ++ q := by
  rw [← List.append_assoc, trimSlashes_append_slashes]
  rcases trimSlashes_cases q with h | ⟨t, c, hc, h⟩
  · rw [hq] at h; exact absurd h hne
  · rw [hq] at h
    rw [h, ← List.append_assoc]
    exact trimSlashes_eq_self hc

theorem matchResponseFilter_api {q : Text} {k : ℕ} (hq : trimSlashes q = q) (hne : q ≠ []) :
    matchResponseFilter "GET".toList (apiPrefix ++ (q ++ slashes k)) = filterAt (apiPrefix ++ q) := by
  have hlen : 1 < (apiPrefix ++ (q ++ slashes k)).length := by
    rw [List.length_append, show apiPrefix.length = 7 from rfl]; omega
  unfold matchResponseFilter
  rw [if_neg (by simp), if_pos hlen, trimSlashes_api hq hne]

theorem isProjectDetail_iff {q : Text} :
    isProjectDetail (apiPrefix ++ q) = true ↔ ∃ p, IsSegment p ∧ q = projectsPrefix ++ p := by
  unfold isProjectDetail
  rw [oneSegment_iff (Or.inl rfl)]
  simp only [List.append_assoc, List.append_nil, List.append_cancel_left_eq]

theorem isThreadTabs_iff {q : Text} :
    isThreadTabs (apiPrefix ++ q) = true ↔
      ∃ t, IsSegment t ∧ q = threadsPrefix ++ (t ++ tabsSuffix) := by
  have htabs : AtBoundary tabsSuffix := Or.inr ⟨_, rfl⟩
  unfold isThreadTabs
  rw [oneSegment_iff htabs]
  simp only [List.append_assoc, List.append_cancel_left_eq]

theorem threads_ne_projects {r r' : Text} : threadsPrefix ++ r ≠ projectsPrefix ++ r' := by
  intro h
  have : ['/', 't'] = ['/', 'p'] := congrArg (List.take 2) h
  exact absurd this (by decide)

theorem filterAt_threads (r : Text) :
    filterAt (apiPrefix ++ (threadsPrefix ++ r)) =
      if isThreadTabs (apiPrefix ++ (threadsPrefix ++ r)) then some (.constant emptyTabs)
      else none := by
  have hne : ∀ p : Text, p.take 9 ≠ "/api/v1/t".toList → apiPrefix ++ (threadsPrefix ++ r) ≠ p := by
    intro p hp h
    exact hp (congrArg (List.take 9) h).symm
  have hsettings : pluginSettingsPrefix.isPrefixOf (apiPrefix ++ (threadsPrefix ++ r)) = false := rfl
  have hdetail : isProjectDetail (apiPrefix ++ (threadsPrefix ++ r)) = false := by
    by_contra h
    obtain ⟨p, _, he⟩ := isProjectDetail_iff.mp (by simpa using h)
    exact threads_ne_projects he
  unfold filterAt
  rw [if_neg (hne _ (by decide)), if_neg (hne _ (by decide)), if_neg (hne _ (by decide)),
    if_neg (hne _ (by decide)), if_neg (hne _ (by decide)), hsettings, hdetail]
  rfl

theorem filterAt_projects (r : Text) :
    filterAt (apiPrefix ++ (projectsPrefix ++ r)) =
      if isProjectDetail (apiPrefix ++ (projectsPrefix ++ r)) then some (.reshape .projectDetail)
      else none := by
  have hne : ∀ p : Text, p.take 10 ≠ "/api/v1/pr".toList →
      apiPrefix ++ (projectsPrefix ++ r) ≠ p := by
    intro p hp h
    exact hp (congrArg (List.take 10) h).symm
  have hsettings : pluginSettingsPrefix.isPrefixOf (apiPrefix ++ (projectsPrefix ++ r)) = false :=
    rfl
  have htabs : isThreadTabs (apiPrefix ++ (projectsPrefix ++ r)) = false := by
    by_contra h
    obtain ⟨t, _, he⟩ := isThreadTabs_iff.mp (by simpa using h)
    exact threads_ne_projects he.symm
  unfold filterAt
  rw [if_neg (hne _ (by decide)), if_neg (hne _ (by decide)), if_neg (hne _ (by decide)),
    if_neg (hne _ (by decide)), if_neg (hne _ (by decide)), htabs, hsettings]
  rfl

/-! ## Query edits -/

theorem isThreadRoot_iff {q : Text} :
    isThreadRoot (apiPrefix ++ q) = true ↔
      ∃ t, IsSegment t ∧ (q = threadsPrefix ++ t ∨ q = threadsPrefix ++ (t ++ ['/'])) := by
  have hslash : AtBoundary ['/'] := Or.inr ⟨[], rfl⟩
  unfold isThreadRoot
  rw [Bool.or_eq_true, oneSegment_iff (Or.inl rfl), oneSegment_iff hslash]
  simp only [List.append_assoc, List.append_nil, List.append_cancel_left_eq]
  constructor
  · rintro (⟨t, ht, h⟩ | ⟨t, ht, h⟩)
    · exact ⟨t, ht, Or.inl h⟩
    · exact ⟨t, ht, Or.inr h⟩
  · rintro ⟨t, ht, h | h⟩
    · exact Or.inl ⟨t, ht, h⟩
    · exact Or.inr ⟨t, ht, h⟩

/-- Of a thread path without nesting only two spellings are the root: with one slash or none. -/
theorem isThreadRoot_threads {t : Text} (ht : IsSegment t) (k : ℕ) :
    isThreadRoot (apiPrefix ++ (threadsPrefix ++ (t ++ slashes k))) = true ↔ k ≤ 1 := by
  have hk : AtBoundary (slashes k) := by
    cases k with
    | zero => exact Or.inl rfl
    | succ k => exact Or.inr ⟨_, rfl⟩
  have hseg := segment?_append ht hk
  rw [isThreadRoot_iff]
  constructor
  · rintro ⟨t', ht', h | h⟩
    · have he := List.append_cancel_left h
      rw [he, ← List.append_nil t', segment?_append ht' (Or.inl rfl)] at hseg
      have hlen := congrArg (fun o => o.map fun e => e.2.length) hseg
      simp [slashes] at hlen
      omega
    · have he := List.append_cancel_left h
      rw [he, segment?_append ht' (Or.inr ⟨[], rfl⟩)] at hseg
      have hlen := congrArg (fun o => o.map fun e => e.2.length) hseg
      simp [slashes] at hlen
      omega
  · intro hle
    refine ⟨t, ht, ?_⟩
    rcases Nat.le_one_iff_eq_zero_or_eq_one.mp hle with rfl | rfl
    · left; simp [slashes]
    · right; rfl

theorem hasParam_include_stripQuery (url : Url) :
    (stripQuery url).hasParam "include".toList =
      (url.hasParam "include".toList && !isThreadRoot url.pathname) := by
  have h1 : decide ("include".toList ≠ "hostId".toList) = true := by decide
  have h2 : decide ("include".toList ≠ "environmentId".toList) = true := by decide
  have h3 : decide ("include".toList ≠ "include".toList) = false := by decide
  unfold stripQuery
  simp only
  split_ifs with hr hs hs <;>
    simp only [Url.hasParam_deleteParam, h1, h2, h3, hr, Bool.and_true, Bool.and_false,
      Bool.not_true, Bool.not_false]

theorem hasParam_host_stripQuery {url : Url} (h : trimSlashes url.pathname ∈ hostScopedPaths) :
    (stripQuery url).hasParam "hostId".toList = false ∧
      (stripQuery url).hasParam "environmentId".toList = false := by
  have h1 : decide ("hostId".toList ≠ "hostId".toList) = false := by decide
  have h2 : decide ("environmentId".toList ≠ "environmentId".toList) = false := by decide
  unfold stripQuery
  simp only
  rw [if_pos (by split_ifs <;> exact h)]
  simp only [Url.hasParam_deleteParam, h1, h2, Bool.and_false, Bool.false_and, and_self]

/-! ## Reads -/

/-- The fetch of a read. -/
def readRelay (g : Gateway) (req : Request) (url : Url) (token : Token) (filter : Option Reshape) :
    Relay :=
  { url := stripQuery url, method := "GET".toList, headers := relayHeaders g.origin req,
    body := none, filter, token,
    decision := computeAuthz (some token) (stripQuery url).pathname .get }

theorem admit_get {g : Gateway} {req : Request} {url : Url} {token : Token}
    (hget : req.method = .get)
    (hallow : (computeAuthz (some token) url.pathname .get).allowed = true) :
    admitRequest g req url token =
      match matchResponseFilter "GET".toList url.pathname with
      | some (.constant value) => .reply 200 value
      | some (.reshape filter) => .relay (readRelay g req url token (some filter))
      | none => .relay (readRelay g req url token none) := by
  have hread : req.method.isGetOrHead = true := by rw [hget]; decide
  have hfetch : fetchMethod req.method none = some "GET".toList := by rw [hget]; decide
  have hsend : ∀ filter, admitRequest.send g req url token filter =
      .relay (readRelay g req url token filter) := by
    intro filter
    unfold admitRequest.send forward readRelay
    rw [if_pos hread, hfetch, hget]
  have hdenied : ¬ (computeAuthz (some token) url.pathname req.method).allowed = false := by
    rw [hget, hallow]; simp
  rcases hfilter : matchResponseFilter "GET".toList url.pathname with _ | f | v <;>
    simp only [admitRequest, if_pos hread, if_neg hdenied, hfilter, hsend]

/-! ## Sanitised answers -/

/-- A fetch with the given projection. -/
def Handled.Reshaped (o : Handled) (f : Reshape) : Prop := ∃ r, o = .relay r ∧ r.filter = some f

/-- What a route of the fixed list is owed. -/
structure FixedSanitised (path : Text) (o : Handled) : Prop where
  config : path = "/system/config".toList → o.Reshaped .systemConfig
  sidebar : path = "/sidebar-bootstrap".toList → o.Reshaped .sidebarBootstrap
  plugins : path = "/plugins".toList → o = .reply 200 emptyPluginsResponse
  contributions : path = "/plugins/contributions".toList → o = .reply 200 emptyContributions
  hosts : path = "/hosts".toList → o = .reply 200 emptyHostsResponse
  hostScoped : path = systemProviders ∨ path = "/system/execution-options".toList →
    ∃ r, o = .relay r ∧ r.url.hasParam "hostId".toList = false ∧
      r.url.hasParam "environmentId".toList = false

/-- What the route that authorization recognized is owed. -/
def Sanitised (url : Url) (o : Handled) : Prop :=
  match classifyPath url.pathname with
  | .thread _ rest =>
    (rest = [] → ∃ r, o = .relay r ∧ r.url.hasParam "include".toList = false) ∧
      (rest = tabsSuffix → o = .reply 200 emptyTabs)
  | .project _ => o.Reshaped .projectDetail
  | .nonThread => FixedSanitised (normalizePath url.pathname) o
  | .invalid => True

/-- The spellings of a thread that authorization understands and the sanitisers do not. -/
inductive Unsanitised (url : Url) : Prop where
  | nestedRoot {p t : Text} {k : ℕ} (hp : IsSegment p) (ht : IsSegment t)
    (h : url.pathname = apiPrefix ++ (projectsPrefix ++ p ++ threadsPrefix ++ (t ++ slashes k)))
    (hi : url.hasParam "include".toList = true)
  | slashedRoot {t : Text} {k : ℕ} (ht : IsSegment t) (hk : 2 ≤ k)
    (h : url.pathname = apiPrefix ++ (threadsPrefix ++ (t ++ slashes k)))
    (hi : url.hasParam "include".toList = true)
  | nestedTabs {p t : Text} {k : ℕ} (hp : IsSegment p) (ht : IsSegment t)
    (h : url.pathname =
      apiPrefix ++ (projectsPrefix ++ p ++ threadsPrefix ++ (t ++ (tabsSuffix ++ slashes k))))

/-- A path under `/projects/<p>/threads/` meets no filter. -/
theorem filterAt_nested (p r : Text) :
    filterAt (apiPrefix ++ (projectsPrefix ++ p ++ threadsPrefix ++ r)) = none := by
  have hdetail :
      isProjectDetail (apiPrefix ++ (projectsPrefix ++ (p ++ (threadsPrefix ++ r)))) = false := by
    by_contra hd
    obtain ⟨q, hq, he⟩ := isProjectDetail_iff.mp (by simpa using hd)
    refine hq.2 ?_
    rw [← List.append_cancel_left he]
    exact List.mem_append_right _ List.mem_cons_self
  rw [List.append_assoc, List.append_assoc, filterAt_projects, hdetail]
  rfl

section Read

variable {g : Gateway} {req : Request} {url : Url} {token : Token}
  (hallow : (computeAuthz (some token) url.pathname .get).allowed = true)

include hallow

theorem refused_of_allowed : refusedPath (normalizePath url.pathname) = false := by
  rcases classifyPath_spec url.pathname with hc | ⟨hr, _⟩
  · exact absurd hallow (not_allowed_invalid hc)
  · exact hr

theorem route_ne_nil : normalizePath url.pathname ≠ [] := by
  intro h
  have := refused_of_allowed hallow
  rw [h] at this
  exact absurd this (by decide)

variable (hapi : ∃ r, url.pathname = apiPrefix ++ '/' :: r)

include hapi

theorem trimSlashes_pathname (hroot : normalizePath url.pathname ≠ ['/']) :
    trimSlashes url.pathname = apiPrefix ++ normalizePath url.pathname := by
  obtain ⟨htrim, k, hk⟩ := exists_api_spelling url hapi hroot
  conv_lhs => rw [hk]
  exact trimSlashes_api htrim (route_ne_nil hallow)

variable (hget : req.method = .get)

include hget

/-- A read of an API path gets the filter of its normalized path. -/
theorem admit_get_api (hroot : normalizePath url.pathname ≠ ['/']) :
    admitRequest g req url token =
      match filterAt (apiPrefix ++ normalizePath url.pathname) with
      | some (.constant value) => .reply 200 value
      | some (.reshape filter) => .relay (readRelay g req url token (some filter))
      | none => .relay (readRelay g req url token none) := by
  obtain ⟨htrim, k, hk⟩ := exists_api_spelling url hapi hroot
  have hfilter := matchResponseFilter_api (k := k) htrim (route_ne_nil hallow)
  rw [← hk] at hfilter
  rw [admit_get hget hallow, hfilter]

/-- The routes of the fixed list are sanitised, whatever the number of slashes behind. -/
theorem fixed_sanitised :
    FixedSanitised (normalizePath url.pathname) (admitRequest g req url token) := by
  have key : ∀ {p : Text} {f : Option FilterMatch}, p ≠ ['/'] → filterAt (apiPrefix ++ p) = f →
      normalizePath url.pathname = p → admitRequest g req url token =
        match f with
        | some (.constant value) => .reply 200 value
        | some (.reshape filter) => .relay (readRelay g req url token (some filter))
        | none => .relay (readRelay g req url token none) := by
    rintro p f hp rfl rfl
    exact admit_get_api hallow hapi hget hp
  refine ⟨fun h => ?_, fun h => ?_, fun h => ?_, fun h => ?_, fun h => ?_, fun h => ?_⟩
  · exact ⟨_, key (f := some (.reshape .systemConfig)) (by decide) (by rfl) h, rfl⟩
  · exact ⟨_, key (f := some (.reshape .sidebarBootstrap)) (by decide) (by rfl) h, rfl⟩
  · exact key (f := some (.constant emptyPluginsResponse)) (by decide) (by rfl) h
  · exact key (f := some (.constant emptyContributions)) (by decide) (by rfl) h
  · exact key (f := some (.constant emptyHostsResponse)) (by decide) (by rfl) h
  · have hne : normalizePath url.pathname ≠ ['/'] := by
      rcases h with h | h <;> rw [h] <;> decide
    have hmem : trimSlashes url.pathname ∈ hostScopedPaths := by
      rw [trimSlashes_pathname hallow hapi hne]
      rcases h with h | h <;> rw [h] <;> decide
    refine ⟨readRelay g req url token none, ?_, hasParam_host_stripQuery hmem⟩
    rcases h with h | h
    · exact key (f := none) (by decide) (by rfl) h
    · exact key (f := none) (by decide) (by rfl) h

theorem project_sanitised {p : Text} (hp : IsSegment p)
    (hnorm : normalizePath url.pathname = projectsPrefix ++ p) :
    (admitRequest g req url token).Reshaped .projectDetail := by
  have hroot : normalizePath url.pathname ≠ ['/'] := by
    rw [hnorm]
    intro h
    have : ['/', 'p'] = ['/'] := congrArg (List.take 2) h
    exact absurd this (by decide)
  have hd : isProjectDetail (apiPrefix ++ (projectsPrefix ++ p)) = true :=
    isProjectDetail_iff.mpr ⟨p, hp, rfl⟩
  refine ⟨readRelay g req url token (some .projectDetail), ?_, rfl⟩
  rw [admit_get_api hallow hapi hget hroot, hnorm, filterAt_projects, hd]
  rfl

/-- A thread root meets no filter and is fetched. -/
theorem admit_threadRoot {n t : Text} (hn : Nesting n) (ht : IsSegment t)
    (hnorm : normalizePath url.pathname = n ++ threadsPrefix ++ (t ++ [])) :
    admitRequest g req url token = .relay (readRelay g req url token none) := by
  have hroot : normalizePath url.pathname ≠ ['/'] := by rw [hnorm]; exact (not_static_thread hn _).1
  have hfilter : filterAt (apiPrefix ++ (n ++ threadsPrefix ++ (t ++ []))) = none := by
    rcases hn with rfl | ⟨p, _, rfl⟩
    · have htabs : isThreadTabs (apiPrefix ++ (threadsPrefix ++ (t ++ []))) = false := by
        by_contra h
        obtain ⟨t', _, he⟩ := isThreadTabs_iff.mp (by simpa using h)
        have he := List.append_cancel_left he
        refine ht.2 ?_
        rw [he]
        exact List.mem_append_right _ List.mem_cons_self
      rw [List.nil_append, filterAt_threads, htabs]
      rfl
    · exact filterAt_nested p _
  rw [admit_get_api hallow hapi hget hroot, hnorm, hfilter]

theorem thread_sanitised {n t rest : Text} (hn : Nesting n) (ht : IsSegment t)
    (hnorm : normalizePath url.pathname = n ++ threadsPrefix ++ (t ++ rest))
    (hu : ¬ Unsanitised url) :
    (rest = [] → ∃ r, admitRequest g req url token = .relay r ∧
        r.url.hasParam "include".toList = false) ∧
      (rest = tabsSuffix → admitRequest g req url token = .reply 200 emptyTabs) := by
  have hroot : normalizePath url.pathname ≠ ['/'] := by rw [hnorm]; exact (not_static_thread hn _).1
  obtain ⟨_, k, hk⟩ := exists_api_spelling url hapi hroot
  rw [hnorm, List.append_assoc, List.append_assoc] at hk
  constructor
  · rintro rfl
    refine ⟨_, admit_threadRoot hallow hapi hget hn ht hnorm, ?_⟩
    show (stripQuery url).hasParam "include".toList = false
    rw [hasParam_include_stripQuery, Bool.and_eq_false_iff]
    by_contra hc
    simp only [not_or, Bool.not_eq_false, Bool.not_eq_true'] at hc
    rcases hn with rfl | ⟨p, hp, rfl⟩
    · have hk' : url.pathname = apiPrefix ++ (threadsPrefix ++ (t ++ slashes k)) := by
        rw [hk]; simp
      have hkle : ¬ k ≤ 1 := by
        rw [← isThreadRoot_threads ht k, ← hk', hc.2]; simp
      exact hu (.slashedRoot ht (by omega) hk' hc.1)
    · exact hu (.nestedRoot hp ht (k := k) (by rw [hk]; simp) hc.1)
  · rintro rfl
    rcases hn with rfl | ⟨p, hp, rfl⟩
    · have htabs : isThreadTabs (apiPrefix ++ (threadsPrefix ++ (t ++ tabsSuffix))) = true :=
        isThreadTabs_iff.mpr ⟨t, ht, rfl⟩
      rw [admit_get_api hallow hapi hget hroot, hnorm, List.nil_append, filterAt_threads, htabs]
      rfl
    · exact absurd (.nestedTabs hp ht (k := k) (by rw [hk]; simp)) hu

/-- An unsanitised spelling is one: its route is recognized and its sanitiser not applied. -/
theorem not_sanitised (hu : Unsanitised url) : ¬ Sanitised url (admitRequest g req url token) := by
  have htrim : ∀ k, trimSlashes (slashes k) = [] := fun k => trimSlashes_append_slashes [] k
  have hbound : ∀ k, AtBoundary (slashes k) := by
    intro k
    cases k with
    | zero => exact Or.inl rfl
    | succ k => exact Or.inr ⟨_, rfl⟩
  have hroot : ∀ {n t : Text} {k : ℕ}, Nesting n → IsSegment t →
      url.pathname = apiPrefix ++ (n ++ threadsPrefix ++ (t ++ slashes k)) →
        isThreadRoot url.pathname = false → url.hasParam "include".toList = true →
          ¬ Sanitised url (admitRequest g req url token) := by
    intro n t k hn ht h hfalse hi hs
    have hc := classify_of_names_thread (Or.inr rfl) hn ht (hbound k) h hallow
    unfold Sanitised at hs
    rw [hc] at hs
    obtain ⟨r, hr, hparam⟩ := hs.1 (htrim k)
    rw [(admit_spec hr).url_eq, hasParam_include_stripQuery, hi, hfalse] at hparam
    cases hparam
  cases hu with
  | @nestedRoot p t k hp ht h hi =>
    refine hroot (Or.inr ⟨p, hp, rfl⟩) ht h ?_ hi
    rw [h]
    by_contra hc
    rw [List.append_assoc, List.append_assoc] at hc
    obtain ⟨t', _, he | he⟩ := isThreadRoot_iff.mp (by simpa using hc)
    · exact threads_ne_projects he.symm
    · exact threads_ne_projects he.symm
  | @slashedRoot t k ht hk h hi =>
    refine hroot (Or.inl rfl) ht h ?_ hi
    rw [h]
    by_contra hc
    have := (isThreadRoot_threads ht k).mp (by simpa using hc)
    omega
  | @nestedTabs p t k hp ht h =>
    intro hs
    have hn : Nesting (projectsPrefix ++ p) := Or.inr ⟨p, hp, rfl⟩
    have hrest : trimSlashes (tabsSuffix ++ slashes k) = tabsSuffix := by
      rw [trimSlashes_append_slashes]; rfl
    have hb : AtBoundary (tabsSuffix ++ slashes k) := Or.inr ⟨_, rfl⟩
    have hc := classify_of_names_thread (Or.inr rfl) hn ht hb h hallow
    have hnorm := normalizePath_thread (Or.inr rfl) hn ht h
    have hne : normalizePath url.pathname ≠ ['/'] := by
      rw [hnorm]; exact (not_static_thread hn _).1
    unfold Sanitised at hs
    rw [hc, hrest] at hs
    have htabs := hs.2 rfl
    rw [admit_get_api hallow hapi hget hne, hnorm, filterAt_nested] at htabs
    cases htabs

theorem admit_sanitised_iff : Sanitised url (admitRequest g req url token) ↔ ¬ Unsanitised url := by
  refine ⟨fun hs hu => not_sanitised hallow hapi hget hu hs, fun hu => ?_⟩
  unfold Sanitised
  rcases classifyPath_spec url.pathname with hinv | ⟨_, hspec⟩
  · exact absurd hallow (not_allowed_invalid hinv)
  · cases hc : classifyPath url.pathname with
    | nonThread => exact fixed_sanitised hallow hapi hget
    | invalid => trivial
    | project p =>
      rw [hc] at hspec
      obtain ⟨hnorm, hp⟩ := projectMatch_eq_some.mp hspec
      exact project_sanitised hallow hapi hget hp hnorm
    | thread t rest =>
      rw [hc] at hspec
      obtain ⟨⟨n, hn, hnorm⟩, ht, -, -⟩ := threadMatch_eq_some.mp hspec
      exact thread_sanitised hallow hapi hget hn ht hnorm hu

end Read

/-- Past the session, an API request is admitted. -/
theorem handle_of_resolve {hmac : Hmac} {g : Gateway} {now : ℕ} {random : Bytes} {persisted : Bool}
    {req : Request} {url : Url} {token : Token} (hurl : requestUrl req.target = some url)
    (hapi : ∃ r, url.pathname = apiPrefix ++ '/' :: r)
    (htoken : url.hasParam "token".toList = false)
    (hresolve : resolve g.sessions g.store now (cookieId (req.header "cookie".toList)) =
      some token) :
    handle hmac g now random persisted req = admitRequest g req url token := by
  have hready : ¬ (url.pathname = readyPath ∧ req.method.name = "GET".toList) := by
    rintro ⟨h, _⟩
    obtain ⟨r, hr⟩ := hapi
    rw [hr] at h
    have : ['/', 'a'] = ['/', '_'] := congrArg (List.take 2) h
    exact absurd this (by decide)
  unfold handle
  simp only [hurl, if_neg hready, htoken, hresolve, Bool.false_eq_true, if_false]

/-- **Sanitising.**  A read of an API pathname that authorization allows gets the sanitiser of the
route it was recognized as, exactly when it is not one of the unsanitised spellings. -/
theorem handle_sanitised_iff (hmac : Hmac) (g : Gateway) (now : ℕ) (random : Bytes)
    (persisted : Bool) (req : Request) (url : Url) (token : Token) (hget : req.method = .get)
    (hurl : requestUrl req.target = some url)
    (hapi : ∃ r, url.pathname = apiPrefix ++ '/' :: r)
    (htoken : url.hasParam "token".toList = false)
    (hresolve : resolve g.sessions g.store now (cookieId (req.header "cookie".toList)) = some token)
    (hallow : (computeAuthz (some token) url.pathname .get).allowed = true) :
    Sanitised url (handle hmac g now random persisted req) ↔ ¬ Unsanitised url := by
  rw [handle_of_resolve hurl hapi htoken hresolve]
  exact admit_sanitised_iff hallow hapi hget

/-! ## A nested root -/

def getRequest (target : Text) : Request := ⟨.get, target, [guestCookie], [], true⟩

/-- A target, the pathname it parses to, and the session's answer to a read of it. -/
structure ReadOf (target pathname : Text) : Prop where
  url : requestUrl target = some (Url.ofTarget target)
  path : (Url.ofTarget target).pathname = pathname
  token : (Url.ofTarget target).hasParam "token".toList = false
  allowed : (computeAuthz (resolve writerGateway.sessions writerGateway.store 0
    (cookieId (some guestCookie.2))) pathname .get).allowed = true

theorem ReadOf.exists_token {target pathname : Text} (h : ReadOf target pathname) :
    ∃ token, resolve writerGateway.sessions writerGateway.store 0
        (cookieId ((getRequest target).header "cookie".toList)) = some token ∧
      (computeAuthz (some token) (Url.ofTarget target).pathname .get).allowed = true := by
  have hallow := h.allowed
  rw [← h.path] at hallow
  cases ht : resolve writerGateway.sessions writerGateway.store 0
      (cookieId (some guestCookie.2)) with
  | none => rw [ht] at hallow; cases hallow
  | some token => rw [ht] at hallow; exact ⟨token, ht, hallow⟩

theorem readOf_hosts : ReadOf "/api/v1/hosts/".toList "/api/v1/hosts/".toList :=
  ⟨if_neg (by decide +kernel), by decide +kernel, by decide +kernel, by decide +kernel⟩

def nestedTarget : Text := "/api/v1/projects/p/threads/t?include=host".toList

def nestedPath : Text := "/api/v1/projects/p/threads/t".toList

theorem readOf_nested : ReadOf nestedTarget nestedPath :=
  ⟨if_neg (by decide +kernel), by decide +kernel, by decide +kernel, by decide +kernel⟩

theorem nested_unsanitised : Unsanitised (Url.ofTarget nestedTarget) := by
  have hp : IsSegment ['p'] := by decide
  have ht : IsSegment ['t'] := by decide
  refine .nestedRoot hp ht (k := 0) ?_ (by decide +kernel)
  rw [readOf_nested.path]
  decide

theorem handle_sanitised_hosts :
    Sanitised (Url.ofTarget "/api/v1/hosts/".toList)
      (handle .plain writerGateway 0 [] true (getRequest "/api/v1/hosts/".toList)) := by
  have h := readOf_hosts
  obtain ⟨token, ht, hallow⟩ := h.exists_token
  refine (handle_sanitised_iff .plain writerGateway 0 [] true _ _ token rfl h.url
    ⟨"hosts/".toList, h.path⟩ h.token ht hallow).mpr ?_
  have hne : ∀ c r, c ≠ 'h' →
      (Url.ofTarget "/api/v1/hosts/".toList).pathname ≠ apiPrefix ++ ('/' :: c :: r) := by
    intro c r hc he
    rw [h.path] at he
    have : some 'h' = some c := congrArg (fun s : Text => s[8]?) he
    exact hc (Option.some.inj this).symm
  rintro (⟨_, _, h, _⟩ | ⟨_, _, h, _⟩ | ⟨_, _, h⟩)
  · exact hne 'p' _ (by decide) h
  · exact hne 't' _ (by decide) h
  · exact hne 'p' _ (by decide) h

/-- The nested spelling of a thread root keeps its `include`. -/
theorem not_handle_sanitised :
    ¬ ∀ (hmac : Hmac) (g : Gateway) (now : ℕ) (random : Bytes) (persisted : Bool) (req : Request)
      (url : Url) (token : Token), req.method = .get → requestUrl req.target = some url →
        (∃ r, url.pathname = apiPrefix ++ '/' :: r) → url.hasParam "token".toList = false →
        resolve g.sessions g.store now (cookieId (req.header "cookie".toList)) = some token →
        (computeAuthz (some token) url.pathname .get).allowed = true →
          Sanitised url (handle hmac g now random persisted req) := by
  intro hall
  have h := readOf_nested
  obtain ⟨token, ht, hallow⟩ := h.exists_token
  have hapi : ∃ r, (Url.ofTarget nestedTarget).pathname = apiPrefix ++ '/' :: r := by
    rw [h.path]; exact ⟨"projects/p/threads/t".toList, rfl⟩
  have hs := hall .plain writerGateway 0 [] true (getRequest nestedTarget) _ token rfl h.url hapi
    h.token ht hallow
  rw [handle_of_resolve h.url hapi h.token ht] at hs
  exact not_sanitised hallow hapi rfl nested_unsanitised hs

end BbShared
