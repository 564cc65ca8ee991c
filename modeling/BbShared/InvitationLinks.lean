import BbShared.Boundary
import BbShared.Redirects
import BbShared.SessionStore

/-!
# Invitation links

`buildShareUrl` of `lib/token-store.ts`, and what becomes of its link at the gateway: the target is
accepted, its bearer redeemed, and the session may read the thread that the redirect leads to.

`invitation_opens`: this holds in every state of the session store.
-/

namespace BbShared

open Js

/-! ## Links -/

/-- The characters that `encodeURIComponent` keeps. -/
def uriUnreserved (c : Char) : Bool := c.isAlphanum || "-_.!~*'()".toList.contains c

def encodeURIComponent (s : Text) : Text := percentEncode (fun c => !uriUnreserved c) s

/-- The path of a link, to a thread of a project or to the root. -/
def sharePath (firstThread : Option (Text × Text)) : Text :=
  match firstThread with
  | some (projectId, threadId) =>
    projectsPrefix ++ encodeURIComponent projectId ++ threadsPrefix ++ encodeURIComponent threadId
  | none => ['/']

def shareUrl (rawToken : Text) (firstThread : Option (Text × Text)) : Url :=
  (Url.ofTarget (sharePath firstThread)).setParam "token".toList rawToken

/-- What a browser asks for at the origin of a URL. -/
def targetOf (u : Url) : Text := u.pathname ++ u.search

/-- `buildShareUrl`, over the origin of a connection. -/
def buildShareUrl (rawToken : Text) (firstThread : Option (Text × Text))
    (workerOrigin : Option Text) : Option Text :=
  (workerOrigin.filter (· ≠ [])).map fun origin =>
    origin ++ targetOf (shareUrl rawToken firstThread)

/-- The ids of BB: `^[A-Za-z0-9_-]+$`. -/
structure IsBbId (s : Text) : Prop where
  ne : s ≠ []
  chars : ∀ c ∈ s, isUrlSafe c = true

/-! ## Characters -/

/-- What the characters of ids and bearers are not. -/
structure SafeChar (c : Char) : Prop where
  path : pathChar c = true
  slash : c ≠ '/'
  form : formSafe c = true
  uri : uriUnreserved c = true
  lower : c.toLower ≠ '.' ∧ c.toLower ≠ '%'
  percent : c ≠ '%'
  backslash : c ≠ '\\'
  visible : 0x20 < c.toNat

theorem safeChar_of_isUrlSafe {c : Char} (h : isUrlSafe c = true) : SafeChar c := by
  have hform : formSafe c = true := by
    unfold isUrlSafe at h
    unfold formSafe
    simp only [Bool.or_eq_true] at h ⊢
    tauto
  obtain ⟨hpath, hslash, huri, hlower, hpercent, hback, hvisible⟩ :=
    forall_char_lt (P := fun c => isUrlSafe c = true → pathChar c = true ∧ c ≠ '/' ∧
      uriUnreserved c = true ∧ (c.toLower ≠ '.' ∧ c.toLower ≠ '%') ∧ c ≠ '%' ∧ c ≠ '\\' ∧
        0x20 < c.toNat) (by decide) (lt_of_formSafe hform) h
  exact ⟨hpath, hslash, hform, huri, hlower, hpercent, hback, hvisible⟩

theorem encodeURIComponent_eq_self {s : Text} (h : ∀ c ∈ s, isUrlSafe c = true) :
    encodeURIComponent s = s :=
  percentEncode_eq_self fun c hc => by simp [(safeChar_of_isUrlSafe (h c hc)).uri]

theorem formEncode_eq_self {s : Text} (h : ∀ c ∈ s, formSafe c = true) : formEncode s = s := by
  unfold formEncode
  induction s with
  | nil => rfl
  | cons c s ih =>
    have hc := h c List.mem_cons_self
    have hlt := lt_of_formSafe hc
    have hbyte : (UInt8.ofNat c.toNat).toNat = c.toNat := by
      simp
      omega
    have hne : UInt8.ofNat c.toNat ≠ 0x20 := by
      intro heq
      have hspace : c = ' ' := Char.ext (UInt32.toNat_inj.mp (hbyte.symm.trans (by rw [heq]; rfl)))
      rw [hspace] at hc
      exact absurd hc (by decide)
    rw [utf8Encode_cons, List.flatMap_append, ih fun d hd => h d (List.mem_cons_of_mem _ hd),
      utf8EncodeChar_ascii hlt]
    unfold formByte
    simp [hne, hbyte, hc]

theorem plainSegment_of_urlSafe {s : Text} (h : IsBbId s) : PlainSegment s := by
  obtain ⟨hne, hchars⟩ := h
  obtain ⟨c, s, rfl⟩ := List.exists_cons_of_ne_nil hne
  obtain ⟨hdot, hpercent⟩ := (safeChar_of_isUrlSafe (hchars c List.mem_cons_self)).lower
  refine ⟨fun d hd => ?_, ?_, ?_⟩
  · have hd := safeChar_of_isUrlSafe (hchars d hd)
    exact ⟨hd.path, hd.slash⟩
  · unfold isDoubleDot lower
    simp [hdot, hpercent]
  · unfold isSingleDot lower
    simp [hdot, hpercent]

/-! ## The path of a link -/

/-- The path of a thread of a project, both of them named as BB does. -/
def threadPath (projectId threadId : Text) : Text :=
  projectsPrefix ++ projectId ++ threadsPrefix ++ threadId

section ThreadPath

variable {p t : Text}

theorem mem_threadPath (hp : IsBbId p) (ht : IsBbId t) {c : Char} (hc : c ∈ threadPath p t) :
    c = '/' ∨ isUrlSafe c = true := by
  have hprojects : ∀ c ∈ projectsPrefix, c = '/' ∨ isUrlSafe c = true := by decide
  have hthreads : ∀ c ∈ threadsPrefix, c = '/' ∨ isUrlSafe c = true := by decide
  unfold threadPath at hc
  simp only [List.mem_append] at hc
  rcases hc with ((hc | hc) | hc) | hc
  · exact hprojects c hc
  · exact .inr (hp.chars c hc)
  · exact hthreads c hc
  · exact .inr (ht.chars c hc)

/-- The segments of `threadPath`. -/
def threadSegments (projectId threadId : Text) : List Text :=
  ["projects".toList, projectId, "threads".toList, threadId]

theorem threadPath_eq (p t : Text) : threadPath p t = (threadSegments p t).flatMap ('/' :: ·) := by
  have hprojects : projectsPrefix = '/' :: ("projects".toList ++ ['/']) := by decide
  have hthreads : threadsPrefix = '/' :: ("threads".toList ++ ['/']) := by decide
  unfold threadPath threadSegments
  rw [hprojects, hthreads]
  generalize "projects".toList = a
  generalize "threads".toList = b
  simp

theorem isBbId_of_mem_segments (hp : IsBbId p) (ht : IsBbId t) {seg : Text}
    (h : seg ∈ threadSegments p t) : IsBbId seg := by
  unfold threadSegments at h
  rcases List.mem_cons.mp h with h | h
  · exact h ▸ ⟨by decide, by decide⟩
  rcases List.mem_cons.mp h with h | h
  · exact h ▸ hp
  rcases List.mem_cons.mp h with h | h
  · exact h ▸ ⟨by decide, by decide⟩
  · exact List.mem_singleton.mp h ▸ ht

theorem exists_threadPath (p t : Text) : ∃ r, threadPath p t = '/' :: 'p' :: r := by
  have hhead : projectsPrefix = '/' :: 'p' :: "rojects/".toList := by decide
  refine ⟨"rojects/".toList ++ p ++ threadsPrefix ++ t, ?_⟩
  unfold threadPath
  rw [hhead]
  rfl

theorem sharePath_eq (hp : IsBbId p) (ht : IsBbId t) : sharePath (some (p, t)) = threadPath p t := by
  unfold sharePath threadPath
  simp only [encodeURIComponent_eq_self hp.chars, encodeURIComponent_eq_self ht.chars]

theorem isSegment_of_isBbId (h : IsBbId t) : IsSegment t :=
  ⟨h.ne, fun hm => absurd (h.chars '/' hm) (by decide)⟩

theorem parsePath_threadPath (hp : IsBbId p) (ht : IsBbId t) :
    parsePath (threadPath p t) = threadPath p t := by
  rw [threadPath_eq]
  exact parsePath_plain (List.cons_ne_nil _ _) fun seg hseg =>
    plainSegment_of_urlSafe (isBbId_of_mem_segments hp ht hseg)

theorem normalizePath_threadPath (hp : IsBbId p) (ht : IsBbId t) :
    normalizePath (threadPath p t) = threadPath p t := by
  have hclean : pathPart (threadPath p t) = threadPath p t := by
    refine pathPart_of_clean fun c hc => ?_
    rcases mem_threadPath hp ht hc with rfl | hc
    · decide
    · exact (safeChar_of_isUrlSafe hc).path
  obtain ⟨r, hr⟩ := exists_threadPath p t
  have hapi : apiPrefix.isPrefixOf (threadPath p t) = false := by
    rw [hr]
    rfl
  have hnormal : normalizePath (threadPath p t) = trimSlashes (threadPath p t) :=
    normalizePath_append (.inl rfl) hclean ⟨'p', r, hr⟩ hapi
  have htrim : trimSlashes (threadPath p t ++ []) = threadPath p t ++ [] := by
    have h := trimSlashes_append_segment (isSegment_of_isBbId ht)
      (projectsPrefix ++ p ++ threadsPrefix) []
    rwa [← List.append_assoc, ← List.append_assoc] at h
  rw [hnormal, ← List.append_nil (threadPath p t), htrim]

theorem not_refused_threadPath (hp : IsBbId p) (ht : IsBbId t) :
    refusedPath (threadPath p t) = false := by
  have hchars : (threadPath p t).any forbiddenChar = false := by
    rw [List.any_eq_false]
    intro c hc
    rcases mem_threadPath hp ht hc with rfl | hc
    · decide
    · have hc := safeChar_of_isUrlSafe hc
      unfold forbiddenChar
      simp [hc.percent, hc.backslash, hc.visible]
  have hsplit : ∀ seg ∈ (threadPath p t).splitOn '/', seg = [] ∨ IsBbId seg := by
    have heq : threadPath p t = List.intercalate ['/'] ([] :: threadSegments p t) := by
      rw [threadPath_eq]
      simp [threadSegments]
    have hslash : ∀ seg ∈ [] :: threadSegments p t, '/' ∉ seg := by
      intro seg hseg
      rcases List.mem_cons.mp hseg with rfl | hseg
      · exact List.not_mem_nil
      · exact (isSegment_of_isBbId (isBbId_of_mem_segments hp ht hseg)).2
    rw [heq, List.splitOn_intercalate '/' hslash (List.cons_ne_nil _ _)]
    intro seg hseg
    rcases List.mem_cons.mp hseg with rfl | hseg
    · exact .inl rfl
    · exact .inr (isBbId_of_mem_segments hp ht hseg)
  have hdots : ((threadPath p t).splitOn '/').any
      (fun part => part == ['.'] || part == ['.', '.']) = false := by
    rw [List.any_eq_false]
    intro seg hseg hdot
    simp only [Bool.or_eq_true, beq_iff_eq] at hdot
    rcases hsplit seg hseg with rfl | hid
    · rcases hdot with h | h <;> cases h
    · rcases hdot with rfl | rfl <;> exact absurd (hid.chars '.' List.mem_cons_self) (by decide)
  obtain ⟨r, hr⟩ := exists_threadPath p t
  have hempty : (threadPath p t).isEmpty = false := by
    rw [hr]
    rfl
  unfold refusedPath
  rw [hempty, hchars, hdots]
  rfl

/-- The path of a link leads to its thread. -/
theorem classifyPath_threadPath (hp : IsBbId p) (ht : IsBbId t) :
    classifyPath (threadPath p t) = .thread t [] := by
  have hmatch : threadMatch (threadPath p t) = some (t, []) := by
    refine threadMatch_eq_some.mpr ⟨⟨projectsPrefix ++ p, .inr ⟨p, isSegment_of_isBbId hp, rfl⟩, ?_⟩,
      isSegment_of_isBbId ht, .inl rfl, rfl⟩
    rw [List.append_nil]
    rfl
  have hroute : threadPath p t = projectsPrefix ++ p ++ threadsPrefix ++ t := rfl
  obtain ⟨hroot, hstatic⟩ := not_static_thread (.inr ⟨p, isSegment_of_isBbId hp, rfl⟩) t
  rw [← hroute] at hroot hstatic
  unfold classifyPath
  simp only [normalizePath_threadPath hp ht, not_refused_threadPath hp ht, hroot, hstatic, hmatch,
    Bool.false_eq_true, or_self, if_false]

end ThreadPath

/-! ## The target of a link -/

/-- A character of a link, past its origin. -/
def LinkChar (c : Char) : Prop := c ∈ "/?=".toList ∨ isUrlSafe c = true

theorem LinkChar.spec {c : Char} (h : LinkChar c) :
    c ≠ '#' ∧ c ≠ '%' ∧ (c == '\\' || c.toNat ≤ 0x20) = false := by
  rcases h with h | h
  · revert h
    revert c
    decide
  · have hc := safeChar_of_isUrlSafe h
    have hhash : c ≠ '#' := by
      rintro rfl
      exact absurd h (by decide)
    refine ⟨hhash, hc.percent, ?_⟩
    simpa [hc.backslash] using hc.visible

theorem hasEncodedSeparator_eq_false {s : Text} (h : '%' ∉ s) : hasEncodedSeparator s = false := by
  unfold hasEncodedSeparator
  rw [List.any_eq_false]
  intro tail htail hsep
  split at hsep
  · exact h ((List.mem_tails _ _).mp htail |>.subset List.mem_cons_self)
  · cases hsep

theorem requestUrl_link {raw : Text} (hroot : ∃ r, raw = '/' :: 'p' :: r)
    (h : ∀ c ∈ raw, LinkChar c) : requestUrl raw = some (Url.ofTarget raw) := by
  have hsep := hasEncodedSeparator_eq_false fun hm => (h '%' hm).spec.2.1 rfl
  have hany : raw.any (fun c => c == '\\' || c.toNat ≤ 0x20) = false := by
    rw [List.any_eq_false]
    intro c hc
    rw [(h c hc).spec.2.2]
    exact Bool.false_ne_true
  obtain ⟨r, rfl⟩ := hroot
  unfold requestUrl
  rw [hany, hsep]
  simp

section Link

variable {p t : Text}

theorem linkChar_of_mem_threadPath (hp : IsBbId p) (ht : IsBbId t) {c : Char}
    (hc : c ∈ threadPath p t) : LinkChar c :=
  (mem_threadPath hp ht hc).imp_left fun h => by
    rw [h]
    decide

theorem not_mark_of_mem_threadPath (hp : IsBbId p) (ht : IsBbId t) {c : Char}
    (hc : c ∈ threadPath p t) : c ≠ '#' ∧ c ≠ '?' := by
  rcases mem_threadPath hp ht hc with rfl | hc
  · decide
  · constructor
    · rintro rfl
      exact absurd hc (by decide)
    · rintro rfl
      exact absurd hc (by decide)

/-- The path of a link, as a target. -/
theorem ofTarget_threadPath (hp : IsBbId p) (ht : IsBbId t) :
    (Url.ofTarget (threadPath p t)).pathname = threadPath p t ∧
      (Url.ofTarget (threadPath p t)).query = none := by
  have hmark := fun c hc => not_mark_of_mem_threadPath hp ht (c := c) hc
  have hhash : (threadPath p t).takeWhile (· != '#') = threadPath p t :=
    List.takeWhile_eq_self_iff.mpr fun c hc => by simpa using (hmark c hc).1
  have hquery : (threadPath p t).takeWhile (· != '?') = threadPath p t :=
    List.takeWhile_eq_self_iff.mpr fun c hc => by simpa using (hmark c hc).2
  have hnone : Url.parseQuery (threadPath p t) = none := if_neg fun hm => (hmark '?' hm).2 rfl
  unfold Url.ofTarget
  simp only [hhash, hquery, hnone, parsePath_threadPath hp ht, and_self]

theorem isUrlSafe_of_mem_rawToken {random : Bytes} {c : Char} (h : c ∈ generateRawToken random) :
    isUrlSafe c = true := by
  have hhead : ∀ c ∈ rawTokenPrefix, isUrlSafe c = true := by decide
  exact (List.mem_append.mp h).elim (hhead c) isUrlSafe_of_mem_base64url

/-- A generated bearer has the format of one. -/
theorem isBearer_rawToken (random : RandomId) : isBearer (generateRawToken random.1) = true := by
  have hid := isSessionId_base64url random
  unfold isBearer generateRawToken
  rw [dropPrefix?_append]
  exact hid

/-- A parameter that is set on a URL without a query. -/
theorem query_setParam {u : Url} (h : u.query = none) (name value : Text) :
    (u.setParam name value).query = some (serializeForm [(name, value)]) := by
  have hparams : u.searchParams = [] := by
    unfold Url.searchParams
    rw [h]
    rfl
  unfold Url.setParam
  simp only [hparams]
  rfl

variable (hp : IsBbId p) (ht : IsBbId t)
include hp ht

theorem shareUrl_spec (raw : Text) :
    (shareUrl raw (some (p, t))).pathname = threadPath p t ∧
      (shareUrl raw (some (p, t))).query = some (serializeForm [("token".toList, raw)]) := by
  obtain ⟨hpath, hquery⟩ := ofTarget_threadPath hp ht
  unfold shareUrl
  rw [sharePath_eq hp ht]
  exact ⟨hpath, query_setParam hquery _ _⟩

/-- What a link asks the gateway for. -/
theorem targetOf_shareUrl {raw : Text} (hraw : ∀ c ∈ raw, isUrlSafe c = true) :
    targetOf (shareUrl raw (some (p, t))) = threadPath p t ++ ("?token=".toList ++ raw) := by
  obtain ⟨hpath, hquery⟩ := shareUrl_spec hp ht raw
  have hform : serializeForm [("token".toList, raw)] = "token=".toList ++ raw := by
    have hname : formEncode "token".toList = "token".toList := formEncode_eq_self (by decide)
    have hvalue := formEncode_eq_self fun c hc => (safeChar_of_isUrlSafe (hraw c hc)).form
    unfold serializeForm
    rw [List.map_singleton, hname, hvalue, List.intercalate_singleton]
    have hassign : "token=".toList = "token".toList ++ ['='] := by decide
    rw [hassign, List.append_assoc]
    rfl
  unfold targetOf
  rw [search_eq, hpath, hquery, hform]
  rfl

/-- The gateway finds the path and the bearer in what a link asks for. -/
theorem requestUrl_shareUrl {raw : Text} (hraw : ∀ c ∈ raw, isUrlSafe c = true) :
    ∃ url, requestUrl (targetOf (shareUrl raw (some (p, t)))) = some url ∧
      url.pathname = threadPath p t ∧ url.searchParams = [("token".toList, raw)] := by
  obtain ⟨hpath, hquery⟩ := shareUrl_spec hp ht raw
  refine ⟨_, requestUrl_link ?_ ?_, ?_, ?_⟩
  · obtain ⟨r, hr⟩ := exists_threadPath p t
    rw [targetOf_shareUrl hp ht hraw, hr]
    exact ⟨_, rfl⟩
  · rw [targetOf_shareUrl hp ht hraw]
    intro c hc
    have hmark : ∀ c ∈ "?token=".toList, LinkChar c := by
      unfold LinkChar
      decide
    rcases List.mem_append.mp hc with hc | hc
    · exact linkChar_of_mem_threadPath hp ht hc
    · exact (List.mem_append.mp hc).elim (hmark c) fun hc => .inr (hraw c hc)
  · unfold targetOf
    rw [pathname_reprint, hpath, parsePath_threadPath hp ht]
  · unfold targetOf
    rw [searchParams_reprint]
    unfold Url.searchParams
    rw [hquery]
    exact parseForm_serialize _

end Link

/-! ## The session that a link makes -/

/-- The live invitations of a session besides one. -/
def otherGrants (g : Gateway) (now : ℕ) (cookie : Option Text) (tokenId : Text) : List Text :=
  match liveSession g.sessions now (cookieId cookie) with
  | some session => session.grants.filter fun i => i ≠ tokenId && (g.store.getToken i).isSome
  | none => []

theorem length_withToken_le {valid : List Text} (hnodup : valid.Nodup) (id : Text) :
    (withToken valid id).length ≤ (valid.filter (· ≠ id)).length + 1 := by
  unfold withToken
  split_ifs with h
  · have herase : valid.erase id = valid.filter (· ≠ id) := by
      rw [hnodup.erase_eq_filter]
      exact List.filter_congr fun i _ => by by_cases hi : i = id <;> simp [hi]
    rw [← herase, List.length_erase_of_mem h]
    omega
  · have hself : valid.filter (· ≠ id) = valid := by
      refine List.filter_eq_self.mpr fun i hi => decide_eq_true ?_
      rintro rfl
      exact h hi
    rw [hself, List.length_append]
    rfl

/-- The session of a redemption. -/
structure Opened (now : ℕ) (tokenId id : Text) (next : Sessions) : Prop where
  isId : isSessionId id = true
  session : ∃ session, next.get id = some session ∧ session.expires = now + sessionTtl ∧
    tokenId ∈ session.grants

section Redeem

variable {hmac : Hmac} {aes : Aes} {key : RandomKey} {s : SessionQueue} {g : Gateway} {now : ℕ}
  {raw : Text} {token : Token} {cookie : Option Text}

theorem redeem_opens (hs : Sound aes key s) (origin : Text) (hnow : now ≤ MAX_TIME)
    (random : RandomId) (hfind : s.store.1.findByRawToken hmac raw = some token)
    (hshares : token.shares ≠ [])
    (hother : (otherGrants ⟨origin, s.sessions, s.store.1⟩ now cookie token.id).length < 128) :
    ∃ id next, redeem hmac s.sessions s.store.1 now raw (cookieId cookie) random.1 =
      .redeemed id next ∧ Opened now token.id id next := by
  set prior := priorSession s.sessions (cookieId cookie) with hprior
  set valid := (priorGrants (.still now hnow) prior).filter fun i => (s.store.1.getToken i).isSome
    with hvalid
  have hgrants := hs.priorGrants_ok (.still now hnow) (cookieId cookie)
  have hnodup : valid.Nodup := hgrants.1.filter _
  have hsize : (withToken valid token.id).length ≤ 128 := by
    refine (length_withToken_le hnodup token.id).trans ?_
    have heq : valid.filter (· ≠ token.id) =
        otherGrants ⟨origin, s.sessions, s.store.1⟩ now cookie token.id := by
      rw [hvalid]
      unfold otherGrants priorGrants
      rw [hprior, livePrior_still]
      cases liveSession s.sessions now (cookieId cookie) with
      | none => rfl
      | some session => exact List.filter_filter
    rw [heq]
    exact hother
  have hphase : PhaseSound s (.checking prior token [] valid) := by
    refine ⟨fun p hp => hs.get_prior hp, Sound.isTokenId_of_find hfind, ?_, ?_, ?_⟩
    · rwa [List.append_nil]
    · rw [List.append_nil]
      exact (List.length_filter_le _ _).trans hgrants.2
    · intro i hi
      exact Sound.isTokenId_of_get (List.mem_filter.mp hi).2
  obtain ⟨hok, hnext⟩ := hs.build_rows (.still now hnow) random hphase hsize
  exact ⟨_, _, (redeem_still hnow hfind hshares).trans (if_neg (not_lt.mpr hsize)), hok.id, _,
    hnext.get, rfl, Sound.token_mem_withToken valid token.id⟩

/-- The cookie of a session names it. -/
theorem cookieId_setCookie {id : Text} (h : isSessionId id = true) (attributes : Text) :
    cookieId (some ((sessionCookie ++ '=' :: id ++ ';' :: attributes).takeWhile (· ≠ ';'))) =
      some id := by
  have hall : ∀ c ∈ id, isUrlSafe c = true := by
    unfold isSessionId at h
    simp only [Bool.and_eq_true, List.all_eq_true] at h
    exact h.2
  have hname : ∀ c ∈ sessionCookie ++ ['='], c ≠ ';' ∧ isSpace c = false := by decide
  have hchars : ∀ c ∈ sessionCookie ++ ['='] ++ id, c ≠ ';' ∧ isSpace c = false := by
    intro c hc
    rcases List.mem_append.mp hc with hc | hc
    · exact hname c hc
    · refine ⟨?_, (pathChar_spec (safeChar_of_isUrlSafe (hall c hc)).path).1⟩
      rintro rfl
      exact absurd (hall _ hc) (by decide)
  have hcut : (sessionCookie ++ '=' :: id ++ ';' :: attributes).takeWhile (· ≠ ';') =
      sessionCookie ++ ['='] ++ id := by
    have hsplit : sessionCookie ++ '=' :: id ++ ';' :: attributes =
        sessionCookie ++ ['='] ++ id ++ ';' :: attributes := by simp
    rw [hsplit, List.takeWhile_append_of_pos fun c hc => decide_eq_true (hchars c hc).1]
    simp
  have hone : (sessionCookie ++ ['='] ++ id).splitOn ';' = [sessionCookie ++ ['='] ++ id] :=
    List.splitOnP_eq_singleton fun c hc => by simpa using (hchars c hc).1
  rw [hcut]
  unfold cookieId
  rw [Option.getD_some, hone, List.map_singleton, trim_eq_self fun c hc => (hchars c hc).2,
    List.filterMap_cons, dropPrefix?_append]
  exact if_pos h

/-- A session with an invitation may read the threads that are shared in it. -/
theorem Opened.allows {tokenId id : Text} {next : Sessions} (h : Opened now tokenId id next)
    {store : InMemoryStore} (htoken : store.getToken tokenId = some token) {share : Share}
    (hshare : share ∈ token.shares) {path : Text}
    (hpath : classifyPath path = .thread share.threadId []) {later : ℕ}
    (hlater : later < now + sessionTtl) :
    (computeAuthz (resolve next store later (some id)) path .get).allowed = true := by
  obtain ⟨session, hget, hexpires, hgrant⟩ := h.session
  have hne : id ≠ [] := by
    rintro rfl
    exact absurd h.isId (by decide)
  have hlive : liveSession next later (some id) = some session := by
    unfold liveSession
    simp only [if_neg hne, hget]
    exact if_neg (by omega)
  refine (computeAuthz_resolve hlive path .get).mpr (.inr ?_)
  have hmem : share ∈ liveShares store session.grants :=
    mem_liveShares.mpr ⟨tokenId, hgrant, token, htoken, hshare⟩
  obtain ⟨share', hshare', hthread⟩ := exists_mem_mergeShares hmem
  refine ⟨share', hshare', ?_⟩
  rw [hpath]
  exact ⟨hthread, .inl ⟨by decide, by decide⟩⟩

theorem getToken_of_find {store : InMemoryStore} (h : store.findByRawToken hmac raw = some token) :
    store.getToken token.id = some token := by
  obtain ⟨e, he, rfl⟩ := List.mem_map.mp (List.mem_of_find?_eq_some h)
  exact OrderedMap.get_eq_some.mpr (by rw [store.ids e he]; exact he)

/-- The answer to a link is a redirect to its path, and a cookie that names the session. -/
theorem handle_link {req : Request} {url : Url} (hurl : requestUrl req.target = some url)
    (hget : req.method = .get) (hparams : url.searchParams = [("token".toList, raw)])
    (hbearer : isBearer raw = true) (hready : url.pathname ≠ readyPath) {newId : RandomId}
    {id : Text} {next : Sessions} (hid : isSessionId id = true)
    (hredeem : redeem hmac g.sessions g.store now raw (cookieId (req.header "cookie".toList))
      newId.1 = .redeemed id next) :
    ∃ cookie, handle hmac g now newId.1 true req = .redirect url.pathname cookie next ∧
      cookieId (some (cookie.takeWhile (· ≠ ';'))) = some id := by
  have hhas : url.hasParam "token".toList = true := by
    unfold Url.hasParam
    rw [hparams]
    simp
  have hvalues : url.paramValues "token".toList = [raw] := by
    unfold Url.paramValues
    rw [hparams]
    simp
  have hsearch : (url.deleteParam "token".toList).search = [] := by
    have hnone : (url.deleteParam "token".toList).query = none := by
      have hform : serializeForm (url.searchParams.filter fun p => p.1 ≠ "token".toList) = [] := by
        rw [hparams, List.filter_cons_of_neg (by simp), List.filter_nil]
        rfl
      exact if_pos hform
    unfold Url.search
    rw [hnone]
  have hname : ¬ req.method.name ≠ "GET".toList := by
    rw [hget]
    exact not_not.mpr rfl
  have hattributes : "; Path=/; HttpOnly; Secure; SameSite=Lax; Max-Age=2592000".toList =
      ';' :: " Path=/; HttpOnly; Secure; SameSite=Lax; Max-Age=2592000".toList := by decide
  refine ⟨_, ?_, cookieId_setCookie hid
    " Path=/; HttpOnly; Secure; SameSite=Lax; Max-Age=2592000".toList⟩
  unfold handle redeemRequest
  rw [hurl]
  simp only [hready, false_and, if_false, hhas, if_true, if_neg hname, hvalues, hbearer, hredeem,
    Bool.not_true, Bool.false_eq_true, Url.pathname_deleteParam, hsearch, List.append_nil]
  exact congrArg (fun a => Handled.redirect url.pathname (sessionCookie ++ '=' :: id ++ a) next)
    hattributes

end Redeem

/-! ## The result -/

/-- **Invitation links.** In every state of the session store, the link to a thread of a live
invitation is accepted and redeemed, and leads to the thread, which the session may read as long as
it lives. -/
theorem invitation_opens (hmac : Hmac) (aes : Aes) (key : RandomKey) {s₀ s : SessionQueue}
    (h₀ : Loaded aes key s₀)
    (hreach : Machine.Reaches (SessionQueue.step hmac aes key) (fun _ _ => True) s₀ s)
    (random newId : RandomId) {token : Token} {share : Share}
    (hfind : s.store.1.findByRawToken hmac (generateRawToken random.1) = some token)
    (hshare : share ∈ token.shares) (hproject : IsBbId share.projectId)
    (hthread : IsBbId share.threadId) {workerOrigin : Text} (hworker : workerOrigin ≠ [])
    (origin : Text) {now : ℕ} (hnow : now ≤ MAX_TIME) :
    ∃ target, buildShareUrl (generateRawToken random.1)
        (some (share.projectId, share.threadId)) (some workerOrigin) =
          some (workerOrigin ++ target) ∧
      (∃ url, requestUrl target = some url ∧
        url.paramValues "token".toList = [generateRawToken random.1]) ∧
      isBearer (generateRawToken random.1) = true ∧
      ∀ req : Request, req.method = .get → req.target = target →
        (otherGrants ⟨origin, s.sessions, s.store.1⟩ now (req.header "cookie".toList)
          token.id).length < 128 →
        ∃ location cookie next page,
          handle hmac ⟨origin, s.sessions, s.store.1⟩ now newId.1 true req =
            .redirect location cookie next ∧
          requestUrl location = some page ∧
          classifyPath page.pathname = .thread share.threadId [] ∧
          ∀ later < now + sessionTtl,
            (computeAuthz (resolve next s.store.1 later
              (cookieId (some (cookie.takeWhile (· ≠ ';'))))) page.pathname .get).allowed = true := by
  have hs : Sound aes key s := hreach.invariant h₀.sound fun _ _ _ hs _ ht => hs.step ht
  have hraw : ∀ c ∈ generateRawToken random.1, isUrlSafe c = true := fun _ hc =>
    isUrlSafe_of_mem_rawToken hc
  obtain ⟨url, hurl, hpath, hparams⟩ := requestUrl_shareUrl hproject hthread hraw
  have hvalues : url.paramValues "token".toList = [generateRawToken random.1] := by
    unfold Url.paramValues
    rw [hparams]
    simp
  refine ⟨_, ?_, ⟨url, hurl, hvalues⟩, isBearer_rawToken random, fun req hget htarget hother => ?_⟩
  · unfold buildShareUrl
    rw [Option.filter_some, if_pos (decide_eq_true hworker)]
    rfl
  · have hready : url.pathname ≠ readyPath := by
      obtain ⟨r, hr⟩ := exists_threadPath share.projectId share.threadId
      rw [hpath, hr]
      intro h
      have htwo : ['/', 'p'] = ['/', '_'] := congrArg (List.take 2) h
      exact absurd htwo (by decide)
    obtain ⟨id, next, hredeem, hopened⟩ := redeem_opens hs origin hnow newId hfind
      (List.ne_nil_of_mem hshare) hother
    set g : Gateway := ⟨origin, s.sessions, s.store.1⟩ with hg
    obtain ⟨cookie, hhandle, hcookie⟩ := handle_link (g := g) (htarget ▸ hurl) hget hparams
      (isBearer_rawToken random) hready hopened.isId hredeem
    have hpage : requestUrl url.pathname = some (Url.ofTarget (threadPath share.projectId
        share.threadId)) := by
      rw [hpath]
      exact requestUrl_link (exists_threadPath _ _) fun c hc =>
        linkChar_of_mem_threadPath hproject hthread hc
    have hclass : classifyPath (Url.ofTarget (threadPath share.projectId
        share.threadId)).pathname = .thread share.threadId [] := by
      rw [(ofTarget_threadPath hproject hthread).1]
      exact classifyPath_threadPath hproject hthread
    refine ⟨_, cookie, next, _, hhandle, hpage, hclass, fun later hlater => ?_⟩
    rw [hcookie]
    exact hopened.allows (getToken_of_find hfind) hshare hclass hlater

def linkId : Text := "bbsh_bbbbbbbbbbbb".toList

/-- An invitation to thread `u`. -/
def linkToken : Token :=
  { id := linkId, hash := generateRawToken zeroId.1, label := [], createdAt := Number.ofNat 0,
    shares := [⟨"u".toList, "p".toList, .read, Number.ofNat 0⟩], nodup := List.nodup_singleton _ }

def linkInvitations : Invitations :=
  ⟨((InMemoryStore.new []).put inviteToken).put linkToken, by decide⟩

/-- The session of the guest who has redeemed the first invitation. -/
def linkCookie : Text := sessionCookie ++ '=' :: base64url zeroId.1

/-- A link that is opened by a guest whose session has another invitation. -/
theorem invitation_opens_next :
    ∃ s target location cookie next,
      Machine.Reaches (SessionQueue.step .plain .plain zeroKey) (fun _ _ => True)
        (.blank linkInvitations) s ∧
      otherGrants ⟨[], s.sessions, s.store.1⟩ 0 (some linkCookie) linkId = [inviteId] ∧
      buildShareUrl (generateRawToken zeroId.1) (some ("p".toList, "u".toList))
          (some "https://bb.example".toList) = some ("https://bb.example".toList ++ target) ∧
      handle .plain ⟨[], s.sessions, s.store.1⟩ 0 zeroId.1 true
          ⟨.get, target, [("cookie".toList, linkCookie)], [], true⟩ =
        .redirect location cookie next := by
  obtain ⟨s, hs⟩ : ∃ s, Machine.exec (SessionQueue.step .plain .plain zeroKey) (fun _ _ => True)
      (.blank linkInvitations) oneRedemption = some s := ⟨_, rfl⟩
  have hreach := Machine.reaches_of_exec hs
  have hfacts : (Machine.exec (SessionQueue.step .plain .plain zeroKey) (fun _ _ => True)
      (.blank linkInvitations) oneRedemption).map (fun s =>
        (otherGrants ⟨[], s.sessions, s.store.1⟩ 0 (some linkCookie) linkId,
          s.store.1.findByRawToken .plain (generateRawToken zeroId.1))) =
      some ([inviteId], some linkToken) := by
    decide +kernel
  rw [hs, Option.map_some, Option.some_inj, Prod.mk.injEq] at hfacts
  obtain ⟨hother, hfind⟩ := hfacts
  have hworker : "https://bb.example".toList ≠ [] := by decide
  obtain ⟨target, hbuild, -, -, hopens⟩ := invitation_opens .plain .plain zeroKey
    (loaded_blank linkInvitations) hreach zeroId zeroId hfind (List.mem_singleton.mpr rfl)
    ⟨by decide, by decide⟩ ⟨by decide, by decide⟩ hworker [] (Nat.zero_le _)
  have hcookie : Request.header ⟨.get, target, [("cookie".toList, linkCookie)], [], true⟩
      "cookie".toList = some linkCookie := List.lookup_cons_self
  have hcount :
      (otherGrants ⟨[], s.sessions, s.store.1⟩ 0 (some linkCookie) linkId).length < 128 := by
    rw [hother]
    decide
  obtain ⟨location, cookie, next, -, hhandle, -⟩ :=
    hopens ⟨.get, target, [("cookie".toList, linkCookie)], [], true⟩ rfl rfl (hcookie ▸ hcount)
  exact ⟨s, target, location, cookie, next, hreach, hother, hbuild, hhandle⟩

end BbShared
