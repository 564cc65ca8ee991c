import BbShared.Store

/-!
# Guest authorization

`authz/authz.ts`: the local guest policy.  A raw path is normalized, classified into one of four
kinds of route, and a grant list then decides whether a method may be used on it.

`computeAuthz_allowed` states what the decision is: a route open to every invitation, or a share
that permits the request by itself.
-/

namespace BbShared

open Js

/-! ## Methods -/

/-- An HTTP method.  Request parsers admit ASCII tokens only. -/
structure Method where
  name : Text
  ascii : ∀ c ∈ name, c.toNat < 128
  deriving DecidableEq

def mutatingMethods : List Text := ["POST", "PUT", "PATCH", "DELETE"].map String.toList

def isMutatingMethod (method : Method) : Bool := upper method.name ∈ mutatingMethods

def supportedMethods : List Text :=
  ["GET", "HEAD", "POST", "PUT", "PATCH", "DELETE"].map String.toList

/-- A read: `GET` or `HEAD`, in any case. -/
def Method.Reads (method : Method) : Prop :=
  upper method.name = "GET".toList ∨ upper method.name = "HEAD".toList

/-- A post, in any case. -/
def Method.Posts (method : Method) : Prop := upper method.name = "POST".toList

def Method.get : Method := ⟨"GET".toList, by decide⟩

def Method.post : Method := ⟨"POST".toList, by decide⟩

instance : DecidablePred Method.Reads := fun m => by unfold Method.Reads; infer_instance

instance : DecidablePred Method.Posts := fun m => by unfold Method.Posts; infer_instance

/-- The reads are the supported methods that do not mutate. -/
theorem reads_iff (method : Method) :
    method.Reads ↔ upper method.name ∈ supportedMethods ∧ isMutatingMethod method = false := by
  unfold Method.Reads isMutatingMethod
  rw [decide_eq_false_iff_not]
  constructor
  · rintro (h | h) <;> rw [h] <;> decide
  · rintro ⟨hs, hm⟩
    simp only [supportedMethods, mutatingMethods, List.map_cons, List.map_nil, List.mem_cons,
      List.not_mem_nil, or_false] at hs hm
    tauto

/-! ## Paths -/

def nonThreadExact : List Text :=
  ["/system/config", "/sidebar-bootstrap", "/plugins", "/plugins/contributions", "/hosts",
    "/system/execution-options", "/system/version", "/ws"].map String.toList

def staticAssetPrefix : Text := "/assets/".toList

/-- The extensions of `ROOT_STATIC_FILE_RE`. -/
def rootStaticExtensions : List Text :=
  ["js", "mjs", "css", "map", "woff", "woff2", "ttf", "otf", "png", "jpg", "jpeg", "gif", "svg",
    "ico", "webp", "avif", "webmanifest"].map String.toList

/-- `ROOT_STATIC_FILE_RE`: one segment with a stem and a listed extension. -/
def isRootStaticFile : Text → Bool
  | '/' :: s => '/' ∉ s ∧ rootStaticExtensions.any fun ext =>
      match (lower s).dropSuffix? ('.' :: ext) with
      | some stem => !stem.isEmpty
      | none => false
  | _ => false

def isStaticAssetPath (path : Text) : Bool :=
  staticAssetPrefix.isPrefixOf path || isRootStaticFile path

def apiPrefix : Text := "/api/v1".toList

/-- What `split(/[?#]/, 1)[0].trim()` leaves: all of a URL pathname. -/
def pathPart (rawPath : Text) : Text :=
  trim (rawPath.takeWhile fun c => c ≠ '?' && c ≠ '#')

def normalizePath (rawPath : Text) : Text :=
  let p := pathPart rawPath
  if p = [] then [] else
    let p := if p.head? = some '/' then p else '/' :: p
    let p := if p = apiPrefix then ['/'] else
      match p.dropPrefix? (apiPrefix ++ ['/']) with
      | some r => '/' :: r
      | none => p
    if 1 < p.length then trimSlashes p else p

inductive PathClass where
  | nonThread
  | thread (threadId rest : Text)
  | project (projectId : Text)
  | invalid
  deriving DecidableEq

/-- The characters of `[%\\\x00-\x20]`. -/
def forbiddenChar (c : Char) : Bool := c == '%' || c == '\\' || c.toNat ≤ 0x20

/-- A path that no rule looks at: an encoded or control character, or a dot segment. -/
def refusedPath (path : Text) : Bool :=
  path.isEmpty || path.any forbiddenChar ||
    (path.splitOn '/').any fun part => part == ['.'] || part == ['.', '.']

/-- What the wildcard `.` does not match. -/
def lineTerminator (c : Char) : Bool :=
  c == '\n' || c == '\r' || c.toNat == 0x2028 || c.toNat == 0x2029

def projectsPrefix : Text := "/projects/".toList

def threadsPrefix : Text := "/threads/".toList

/-- Past the group `(?:\/projects\/[^/]+)?`. -/
def unnest (path : Text) : Text :=
  match path.dropPrefix? projectsPrefix with
  | some r => match segment? r with
    | some (_, r) => r
    | none => path
  | none => path

/-- `^(?:\/projects\/[^/]+)?\/threads\/([^/]+)(\/.*)?$`. -/
def threadMatch (path : Text) : Option (Text × Text) :=
  match (unnest path).dropPrefix? threadsPrefix with
  | some r => match segment? r with
    | some (t, rest) => if rest.any lineTerminator then none else some (t, rest)
    | none => none
  | none => none

/-- `^\/projects\/([^/]+)$`. -/
def projectMatch (path : Text) : Option Text :=
  match path.dropPrefix? projectsPrefix with
  | some r => if IsSegment r then some r else none
  | none => none

def systemProviders : Text := "/system/providers".toList

def logoSuffix : Text := "/logo".toList

/-- `^\/system\/providers\/[^/]+\/logo$`. -/
def isProviderLogo (path : Text) : Bool :=
  oneSegment (systemProviders ++ ['/']) logoSuffix path

def classifyPath (rawPath : Text) : PathClass :=
  let path := normalizePath rawPath
  if refusedPath path then .invalid
  else if path = ['/'] ∨ isStaticAssetPath path then .nonThread
  else match threadMatch path with
    | some (threadId, rest) => .thread threadId rest
    | none => match projectMatch path with
      | some projectId => .project projectId
      | none =>
        if path ∈ nonThreadExact then .nonThread
        else if path = systemProviders ∨ isProviderLogo path then .nonThread
        else .invalid

/-! ## The decision -/

structure AuthzPerm where
  threadId : Text
  mode : Perm
  deriving DecidableEq

structure AuthzResult where
  allowed : Bool
  threadScope : List Text
  projectScope : List Text
  perms : List AuthzPerm
  reason : Option Text
  deriving DecidableEq

/-- The thread endpoints a guest may read. -/
def threadReads : List Text :=
  ["", "/timeline", "/timeline/turn-summary-details", "/conversation-outline", "/events",
    "/events/wait", "/output", "/default-execution-options", "/interactions", "/queued-messages",
    "/prompt-history", "/tabs"].map String.toList

def sendSuffix : Text := "/send".toList

def Token.threadScope (t : Token) : List Text := t.shares.map Share.threadId

/-- `[...new Set(..)]`. -/
def Token.projectScope (t : Token) : List Text := (t.shares.map Share.projectId).eraseDups

theorem Token.mem_projectScope {t : Token} {p : Text} :
    p ∈ t.projectScope ↔ ∃ s ∈ t.shares, s.projectId = p := by
  unfold Token.projectScope
  rw [List.mem_eraseDups, List.mem_map]

def Token.perms (t : Token) : List AuthzPerm := t.shares.map fun s => ⟨s.threadId, s.perm⟩

/-- A decision that carries the token's scope. -/
def Token.decide (t : Token) (reason : Option Text) : AuthzResult :=
  ⟨reason.isNone, t.threadScope, t.projectScope, t.perms, reason⟩

def guestMayNot (method : Method) (path : Text) : Text :=
  "guest may not ".toList ++ method.name ++ ' ' :: path

def projectNotInScope (projectId : Text) : Text :=
  "project ".toList ++ projectId ++ " not in token scope".toList

def unrecognizedPath (path : Text) : Text :=
  "unrecognized path: ".toList ++ if path = [] then "(empty)".toList else path

/-- The reason for which a request on a thread path is denied. -/
def threadDenial (token : Token) (threadId rest : Text) (method : Method) : Option Text :=
  match token.shares.find? fun s => s.threadId = threadId with
  | none => some ("thread ".toList ++ threadId ++ " not in token scope".toList)
  | some share =>
    if !isMutatingMethod method && rest ∉ threadReads then
      some "thread endpoint not available to guests".toList
    else if isMutatingMethod method then
      if ¬ (method.Posts ∧ rest = sendSuffix) then
        some ("guest may only POST /threads/".toList ++ threadId ++ "/send".toList)
      else if share.perm ≠ .write then
        some ("write permission required on thread ".toList ++ threadId)
      else none
    else none

def computeAuthz (token : Option Token) (path : Text) (method : Method) : AuthzResult :=
  match token with
  | none => ⟨false, [], [], [], some "unknown token".toList⟩
  | some token =>
    if upper method.name ∉ supportedMethods then token.decide (some "unsupported method".toList)
    else match classifyPath path with
      | .invalid => token.decide (some (unrecognizedPath path))
      | .nonThread =>
        token.decide (if isMutatingMethod method then some (guestMayNot method path) else none)
      | .project projectId =>
        token.decide (if isMutatingMethod method then some (guestMayNot method path)
          else if projectId ∉ token.projectScope then some (projectNotInScope projectId)
          else none)
      | .thread threadId rest => token.decide (threadDenial token threadId rest method)

/-! ## What a share permits -/

/-- A route that needs no share. -/
def PathClass.Open (method : Method) (cls : PathClass) : Prop := cls = .nonThread ∧ method.Reads

/-- What one share permits by itself. -/
def Share.Permits (s : Share) (method : Method) : PathClass → Prop
  | .nonThread => False
  | .invalid => False
  | .project projectId => s.projectId = projectId ∧ method.Reads
  | .thread threadId rest => s.threadId = threadId ∧
      (method.Reads ∧ rest ∈ threadReads ∨
        method.Posts ∧ rest = sendSuffix ∧ s.perm = .write)

instance (method : Method) (cls : PathClass) : Decidable (cls.Open method) := by
  unfold PathClass.Open; infer_instance

instance (s : Share) (method : Method) (cls : PathClass) : Decidable (s.Permits method cls) := by
  cases cls <;> unfold Share.Permits <;> infer_instance

/-- The share of a thread is the one that `find` meets, as a thread has one share. -/
theorem Token.find_share (t : Token) {s : Share} (h : s ∈ t.shares) :
    t.shares.find? (fun s' => s'.threadId = s.threadId) = some s := by
  have hs : (t.shares.find? fun s' => s'.threadId = s.threadId).isSome :=
    List.find?_isSome.mpr ⟨s, h, by simp⟩
  obtain ⟨s', hs'⟩ := Option.isSome_iff_exists.mp hs
  have hid : s'.threadId = s.threadId := by simpa using List.find?_some hs'
  rw [hs', List.inj_on_of_nodup_map t.nodup (List.mem_of_find?_eq_some hs') h hid]

theorem posts_isMutating {method : Method} (h : method.Posts) : isMutatingMethod method = true := by
  unfold isMutatingMethod
  rw [show upper method.name = "POST".toList from h]
  decide

theorem posts_supported {method : Method} (h : method.Posts) :
    upper method.name ∈ supportedMethods := by
  rw [show upper method.name = "POST".toList from h]
  decide

theorem threadDenial_eq_none {token : Token} {threadId rest : Text} {method : Method}
    (hm : upper method.name ∈ supportedMethods) :
    threadDenial token threadId rest method = none ↔
      ∃ s ∈ token.shares, s.Permits method (.thread threadId rest) := by
  unfold threadDenial Share.Permits
  constructor
  · intro h
    rcases hf : token.shares.find? fun s => s.threadId = threadId with _ | s
    · rw [hf] at h; simp at h
    · rw [hf] at h
      have hid : s.threadId = threadId := by simpa using List.find?_some hf
      refine ⟨s, List.mem_of_find?_eq_some hf, hid, ?_⟩
      by_cases hmut : isMutatingMethod method
      · simp only [hmut, Bool.not_true, Bool.false_and, Bool.false_eq_true, if_false, if_true] at h
        split_ifs at h with hp hw
        exact Or.inr ⟨hp.1, hp.2, by simpa using hw⟩
      · have hr : method.Reads := (reads_iff method).mpr ⟨hm, by simpa using hmut⟩
        refine Or.inl ⟨hr, ?_⟩
        by_contra hrest
        simp [hmut, hrest] at h
  · rintro ⟨s, hs, rfl, hp⟩
    rw [token.find_share hs]
    rcases hp with ⟨hr, hrest⟩ | ⟨hpost, hrest, hw⟩
    · simp [((reads_iff method).mp hr).2, hrest]
    · simp [posts_isMutating hpost, hpost, hrest, hw]

theorem Token.decide_allowed (t : Token) (reason : Option Text) :
    (t.decide reason).allowed = true ↔ reason = none := by
  unfold Token.decide; exact Option.isNone_iff_eq_none

theorem supported_of_permits {s : Share} {method : Method} {cls : PathClass}
    (h : s.Permits method cls) : upper method.name ∈ supportedMethods := by
  cases cls with
  | nonThread => exact h.elim
  | invalid => exact h.elim
  | project p => exact ((reads_iff method).mp h.2).1
  | thread t rest =>
    rcases h.2 with h | h
    · exact ((reads_iff method).mp h.1).1
    · exact posts_supported h.1

/-- **The decision.**  A request is allowed on an open route, or where a share permits it. -/
theorem computeAuthz_allowed (token : Token) (path : Text) (method : Method) :
    (computeAuthz (some token) path method).allowed = true ↔
      (classifyPath path).Open method ∨ ∃ s ∈ token.shares, s.Permits method (classifyPath path) := by
  unfold computeAuthz
  simp only
  by_cases hm : upper method.name ∈ supportedMethods
  · rw [if_neg (not_not.mpr hm)]
    have hmut : isMutatingMethod method = true ↔ ¬ method.Reads := by
      rw [reads_iff]; simp [hm]
    unfold PathClass.Open
    cases classifyPath path with
    | nonThread =>
      show (token.decide _).allowed = true ↔ _
      rw [Token.decide_allowed]
      by_cases hr : method.Reads
      · rw [if_neg (by rw [hmut]; exact not_not.mpr hr)]
        simp [hr]
      · rw [if_pos (hmut.mpr hr)]
        simp [hr, Share.Permits]
    | thread t rest =>
      show (token.decide _).allowed = true ↔ _
      rw [Token.decide_allowed, threadDenial_eq_none hm]
      simp
    | project p =>
      show (token.decide _).allowed = true ↔ _
      rw [Token.decide_allowed]
      by_cases hr : method.Reads
      · rw [if_neg (by rw [hmut]; exact not_not.mpr hr)]
        simp [hr, Share.Permits, Token.mem_projectScope]
      · rw [if_pos (hmut.mpr hr)]
        simp [hr, Share.Permits]
    | invalid =>
      show (token.decide _).allowed = true ↔ _
      rw [Token.decide_allowed]
      simp [Share.Permits]
  · rw [if_pos hm, Token.decide_allowed]
    constructor
    · intro h; simp at h
    · rintro (h | ⟨s, _, h⟩)
      · exact (hm ((reads_iff method).mp h.2).1).elim
      · exact (hm (supported_of_permits h)).elim

/-! ## Matched paths -/

/-- The prefix `(?:\/projects\/[^/]+)?` of a thread path. -/
def Nesting (n : Text) : Prop := n = [] ∨ ∃ p, IsSegment p ∧ n = projectsPrefix ++ p

theorem unnest_append {n : Text} (hn : Nesting n) (r : Text) :
    unnest (n ++ threadsPrefix ++ r) = threadsPrefix ++ r := by
  unfold unnest
  rcases hn with rfl | ⟨p, hp, rfl⟩
  · rfl
  · have hr : AtBoundary (threadsPrefix ++ r) := Or.inr ⟨_, rfl⟩
    rw [List.append_assoc, List.append_assoc, dropPrefix?_append]
    simp only
    rw [segment?_append hp hr]

theorem exists_nesting (path : Text) : ∃ n, Nesting n ∧ path = n ++ unnest path := by
  unfold unnest
  cases hd : path.dropPrefix? projectsPrefix with
  | none => exact ⟨[], Or.inl rfl, rfl⟩
  | some r =>
    cases hs : segment? r with
    | none => exact ⟨[], Or.inl rfl, by simp [hs]⟩
    | some e =>
      obtain ⟨p, r'⟩ := e
      obtain ⟨rfl, hp, _⟩ := segment?_eq_some hs
      refine ⟨projectsPrefix ++ p, Or.inr ⟨p, hp, rfl⟩, ?_⟩
      simp only [hs]
      rw [dropPrefix?_eq_some.mp hd, List.append_assoc]

/-- A thread path: nesting, the thread, and a rest the wildcard can match. -/
theorem threadMatch_eq_some {path t rest : Text} :
    threadMatch path = some (t, rest) ↔
      (∃ n, Nesting n ∧ path = n ++ threadsPrefix ++ (t ++ rest)) ∧ IsSegment t ∧
        AtBoundary rest ∧ rest.any lineTerminator = false := by
  unfold threadMatch
  constructor
  · intro h
    cases hd : (unnest path).dropPrefix? threadsPrefix with
    | none => rw [hd] at h; simp at h
    | some r =>
      rw [hd] at h
      simp only at h
      cases hs : segment? r with
      | none => rw [hs] at h; simp at h
      | some e =>
        obtain ⟨t', rest'⟩ := e
        rw [hs] at h
        simp only [Option.ite_none_left_eq_some, Option.some.injEq, Prod.mk.injEq] at h
        obtain ⟨hl, rfl, rfl⟩ := h
        obtain ⟨rfl, ht, hr⟩ := segment?_eq_some hs
        obtain ⟨n, hn, hp⟩ := exists_nesting path
        refine ⟨⟨n, hn, ?_⟩, ht, hr, by simpa using hl⟩
        rw [List.append_assoc, ← dropPrefix?_eq_some.mp hd]
        exact hp
  · rintro ⟨⟨n, hn, rfl⟩, ht, hr, hl⟩
    rw [unnest_append hn, dropPrefix?_append]
    simp only
    rw [segment?_append ht hr]
    simp [hl]

theorem projectMatch_eq_some {path p : Text} :
    projectMatch path = some p ↔ path = projectsPrefix ++ p ∧ IsSegment p := by
  unfold projectMatch
  constructor
  · intro h
    cases hd : path.dropPrefix? projectsPrefix with
    | none => rw [hd] at h; simp at h
    | some r =>
      rw [hd] at h
      simp only [Option.ite_none_right_eq_some, Option.some.injEq] at h
      obtain ⟨hs, rfl⟩ := h
      exact ⟨dropPrefix?_eq_some.mp hd, hs⟩
  · rintro ⟨rfl, hs⟩
    rw [dropPrefix?_append]
    simp [hs]

theorem isProviderLogo_iff {path : Text} :
    isProviderLogo path = true ↔
      ∃ seg, IsSegment seg ∧ path = systemProviders ++ '/' :: (seg ++ logoSuffix) := by
  have hlogo : AtBoundary logoSuffix := Or.inr ⟨_, rfl⟩
  unfold isProviderLogo
  rw [oneSegment_iff hlogo]
  simp only [List.append_assoc, List.singleton_append]

/-! ## Classified paths -/

/-- The routes of kind `non-thread`. -/
def NonThreadRoute (path : Text) : Prop :=
  path = ['/'] ∨ isStaticAssetPath path = true ∨ path ∈ nonThreadExact ∨
    path = systemProviders ∨ isProviderLogo path = true

/-- What each kind says of the normalized path. -/
theorem classifyPath_spec (rawPath : Text) :
    classifyPath rawPath = .invalid ∨ refusedPath (normalizePath rawPath) = false ∧
      match classifyPath rawPath with
      | .nonThread => NonThreadRoute (normalizePath rawPath)
      | .thread t rest => threadMatch (normalizePath rawPath) = some (t, rest)
      | .project p => projectMatch (normalizePath rawPath) = some p
      | .invalid => False := by
  unfold classifyPath NonThreadRoute
  simp only
  generalize normalizePath rawPath = path
  by_cases href : refusedPath path = true
  · left; rw [if_pos href]
  rw [if_neg href]
  have href' : refusedPath path = false := by simpa using href
  by_cases hstatic : path = ['/'] ∨ isStaticAssetPath path = true
  · rw [if_pos hstatic]
    refine Or.inr ⟨href', ?_⟩
    tauto
  rw [if_neg hstatic]
  rcases ht : threadMatch path with _ | ⟨t, rest⟩
  · rcases hp : projectMatch path with _ | p
    · by_cases hex : path ∈ nonThreadExact
      · simp [hex, href']
      · by_cases hsys : path = systemProviders ∨ isProviderLogo path = true
        · simp only [hex, hsys, if_true, if_false]
          refine Or.inr ⟨href', ?_⟩
          tauto
        · left; simp [hex, hsys]
    · exact Or.inr ⟨href', rfl⟩
  · exact Or.inr ⟨href', rfl⟩

theorem classifyPath_static {rawPath : Text} (hr : refusedPath (normalizePath rawPath) = false)
    (hs : isStaticAssetPath (normalizePath rawPath) = true) :
    classifyPath rawPath = .nonThread := by
  unfold classifyPath
  simp [hr, hs]

/-! ## Under the API prefix -/

/-- The pathnames of the API. -/
def UnderApi (path : Text) : Prop := path = apiPrefix ∨ ∃ r, path = apiPrefix ++ '/' :: r

/-- A path of the API without its prefix and its trailing slashes. -/
def apiRoute (path : Text) : Text := trimSlashes ((pathPart path).drop apiPrefix.length)

/-- The API routes meant for a guest with this token. -/
inductive GuestRoute (token : Token) (method : Method) : Text → Prop where
  | root : GuestRoute token method []
  | exact {path : Text} (h : path ∈ nonThreadExact) : GuestRoute token method path
  | providers : GuestRoute token method systemProviders
  | logo {seg : Text} (h : IsSegment seg) :
    GuestRoute token method (systemProviders ++ '/' :: (seg ++ logoSuffix))
  | project {p : Text} (h : p ∈ token.projectScope) : GuestRoute token method (projectsPrefix ++ p)
  | threadRead {n t suffix : Text} (hn : Nesting n) (ht : t ∈ token.threadScope)
    (hs : suffix ∈ threadReads) : GuestRoute token method (n ++ threadsPrefix ++ (t ++ suffix))
  | threadSend {n t : Text} (hn : Nesting n) (ht : t ∈ token.threadScope) (hp : method.Posts) :
    GuestRoute token method (n ++ threadsPrefix ++ (t ++ sendSuffix))

theorem pathPart_underApi {path : Text} (h : UnderApi path) : UnderApi (pathPart path) := by
  rcases h with rfl | ⟨r, rfl⟩
  · exact Or.inl (by decide)
  · right
    unfold pathPart
    have hall : ∀ c ∈ apiPrefix, (c ≠ '?' && c ≠ '#') = true := by decide
    have hhead : ∀ d ∈ apiPrefix.head?, isSpace d = false := by
      intro d hd
      obtain rfl : '/' = d := Option.some.inj hd
      decide
    rw [List.takeWhile_append_of_pos hall, List.takeWhile_cons_of_pos (by decide),
      trim_append_cons (by decide) hhead]
    exact ⟨_, rfl⟩

/-- Under the prefix, normalizing leaves the route, or `/` for the root. -/
theorem normalizePath_underApi {path : Text} (h : UnderApi path) :
    normalizePath path = apiRoute path ∨ normalizePath path = ['/'] ∧ apiRoute path = [] := by
  unfold normalizePath apiRoute
  rcases pathPart_underApi h with hp | ⟨r, hp⟩
  · rw [hp]; exact Or.inr (by decide)
  · have hne : apiPrefix ++ '/' :: r ≠ apiPrefix := by simp
    have hsplit : apiPrefix ++ '/' :: r = apiPrefix ++ ['/'] ++ r := by simp
    have hhead : (apiPrefix ++ '/' :: r).head? = some '/' := rfl
    rw [hp]
    simp only [hhead, if_true, if_neg hne, List.drop_left]
    rw [if_neg (by simp), hsplit, dropPrefix?_append]
    cases r with
    | nil => exact Or.inr (by decide)
    | cons c r => left; simp

theorem not_static_append {h s r : Text} (hs : '/' ∈ s)
    (ha : staticAssetPrefix.isPrefixOf ('/' :: s ++ r) = false) (he : h = '/' :: s) :
    isStaticAssetPath (h ++ r) = false := by
  have hroot : isRootStaticFile ('/' :: s ++ r) = false := by simp [isRootStaticFile, hs]
  unfold isStaticAssetPath
  rw [he, ha, hroot]
  rfl

/-- A route of the list is no static asset. -/
theorem GuestRoute.not_static {token : Token} {method : Method} {route : Text}
    (h : GuestRoute token method route) : isStaticAssetPath route = false := by
  have hprojects : ∀ r, isStaticAssetPath (projectsPrefix ++ r) = false := fun r =>
    not_static_append (s := "projects/".toList) (by decide) rfl rfl
  have hthreads : ∀ r, isStaticAssetPath (threadsPrefix ++ r) = false := fun r =>
    not_static_append (s := "threads/".toList) (by decide) rfl rfl
  have hnested : ∀ n r, Nesting n → isStaticAssetPath (n ++ threadsPrefix ++ r) = false := by
    rintro n r (rfl | ⟨p, _, rfl⟩)
    · exact hthreads r
    · rw [List.append_assoc, List.append_assoc]; exact hprojects _
  cases h with
  | root => rfl
  | exact h => revert h; revert route; decide
  | providers => rfl
  | logo h => exact not_static_append (s := "system/providers".toList) (by decide) rfl rfl
  | project h => exact hprojects _
  | threadRead hn ht hs => exact hnested _ _ hn
  | threadSend hn ht hp => exact hnested _ _ hn

theorem guestRoute_of_permits {token : Token} {method : Method} {path t rest : Text} {s : Share}
    (hm : threadMatch path = some (t, rest)) (hs : s ∈ token.shares)
    (hp : s.Permits method (.thread t rest)) : GuestRoute token method path := by
  obtain ⟨⟨n, hn, rfl⟩, -, -, -⟩ := threadMatch_eq_some.mp hm
  obtain ⟨rfl, hp⟩ := hp
  have ht : s.threadId ∈ token.threadScope := List.mem_map_of_mem hs
  rcases hp with ⟨_, hrest⟩ | ⟨hpost, rfl, _⟩
  · exact .threadRead hn ht hrest
  · exact .threadSend hn ht hpost

/-- **Deny by default.**  Under the API prefix an allowed request is on a listed route, exactly
when it is not a read of a path that passes for a static asset once the prefix is gone. -/
theorem underApi_denied_by_default (token : Token) (method : Method) (path : Text)
    (hapi : UnderApi path) :
    ((computeAuthz (some token) path method).allowed = true →
        GuestRoute token method (apiRoute path)) ↔
      ¬ (method.Reads ∧ isStaticAssetPath (apiRoute path) = true ∧
        refusedPath (apiRoute path) = false) := by
  rw [computeAuthz_allowed]
  constructor
  · rintro h ⟨hread, hstatic, href⟩
    have hn : normalizePath path = apiRoute path := by
      rcases normalizePath_underApi hapi with hn | ⟨_, hnil⟩
      · exact hn
      · rw [hnil] at hstatic; exact absurd hstatic (by decide)
    have hc : classifyPath path = .nonThread := classifyPath_static (by rwa [hn]) (by rwa [hn])
    have := (h (Or.inl ⟨hc, hread⟩)).not_static
    rw [hstatic] at this
    cases this
  · intro h hallow
    rcases classifyPath_spec path with hc | ⟨href, hspec⟩
    · rw [hc] at hallow
      rcases hallow with ⟨hc', _⟩ | ⟨s, _, hp⟩
      · cases hc'
      · exact hp.elim
    rcases normalizePath_underApi hapi with hn | ⟨_, hnil⟩
    swap
    · rw [hnil]; exact .root
    rw [hn] at href hspec
    rcases hallow with ⟨hc, hread⟩ | ⟨s, hs, hp⟩
    · rw [hc] at hspec
      rcases hspec with hroot | hstatic | hex | hprov | hlogo
      · unfold apiRoute at hroot
        rcases trimSlashes_cases ((pathPart path).drop apiPrefix.length) with h0 | ⟨t, c, hc', h0⟩
        · rw [h0] at hroot; cases hroot
        · rw [h0] at hroot
          have := List.append_eq_singleton_iff.mp hroot
          simp [hc'] at this
      · exact absurd ⟨hread, hstatic, href⟩ h
      · exact .exact hex
      · rw [hprov]; exact .providers
      · obtain ⟨seg, hseg, he⟩ := isProviderLogo_iff.mp hlogo
        rw [he]; exact .logo hseg
    · rcases hc : classifyPath path with _ | ⟨t, rest⟩ | p | _
      · rw [hc] at hp; exact hp.elim
      · rw [hc] at hp hspec
        exact guestRoute_of_permits hspec hs hp
      · rw [hc] at hp hspec
        rw [(projectMatch_eq_some.mp hspec).1]
        exact .project (Token.mem_projectScope.mpr ⟨s, hs, hp.1⟩)
      · rw [hc] at hp; exact hp.elim

/-- An invitation without shares. -/
def Token.bare : Token := ⟨[], [], [], [], Number.ofNat 0, List.nodup_nil⟩

theorem underApi_denied_by_default_timeline :
    UnderApi "/api/v1/threads/t/timeline".toList ∧
    (((computeAuthz (some .bare) "/api/v1/threads/t/timeline".toList .get).allowed = true →
        GuestRoute .bare .get (apiRoute "/api/v1/threads/t/timeline".toList)) ↔
      ¬ (Method.get.Reads ∧ isStaticAssetPath (apiRoute "/api/v1/threads/t/timeline".toList) = true ∧
        refusedPath (apiRoute "/api/v1/threads/t/timeline".toList) = false)) :=
  ⟨Or.inr ⟨_, rfl⟩, underApi_denied_by_default .bare .get _ (Or.inr ⟨_, rfl⟩)⟩

/-- An API route below `/assets/` is open to every invitation. -/
theorem not_underApi_denied_by_default :
    ¬ ∀ (token : Token) (method : Method) (path : Text), UnderApi path →
      (computeAuthz (some token) path method).allowed = true →
        GuestRoute token method (apiRoute path) := by
  intro h
  have hallow : (computeAuthz (some .bare) "/api/v1/assets/x".toList .get).allowed = true := by
    decide
  have hroute := h .bare .get "/api/v1/assets/x".toList (Or.inr ⟨_, rfl⟩) hallow
  have hstatic : isStaticAssetPath (apiRoute "/api/v1/assets/x".toList) = true := by decide
  rw [hroute.not_static] at hstatic
  cases hstatic

end BbShared
