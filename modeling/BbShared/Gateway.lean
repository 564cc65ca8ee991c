import BbShared.Js.Url
import BbShared.Sessions

/-!
# The guest gateway

`guest-gateway/index.ts` and the route matching of `responses.ts`: what the gateway does with one
HTTP request, up to the fetch it issues to BB.

1. `requestUrl` checks and parses the target.
2. A `token` parameter redeems an invitation and goes no further.
3. The session is resolved, writes are checked, and `computeAuthz` decides.
4. `matchResponseFilter` answers with a constant or names a projection; the query loses what a
   guest may not ask for; a message body is rebuilt from its text and mode.
-/

namespace BbShared

open Js

/-! ## Response filters -/

/-- The projections of BB responses. -/
inductive Reshape where
  | systemConfig
  | sidebarBootstrap
  | projectDetail
  deriving DecidableEq

inductive FilterMatch where
  | reshape (filter : Reshape)
  | constant (value : Json)

def systemConfigPath : Text := apiPrefix ++ "/system/config".toList

def sidebarBootstrapPath : Text := apiPrefix ++ "/sidebar-bootstrap".toList

def pluginsPath : Text := apiPrefix ++ "/plugins".toList

def contributionsPath : Text := apiPrefix ++ "/plugins/contributions".toList

def hostsPath : Text := apiPrefix ++ "/hosts".toList

def pluginSettingsPrefix : Text := apiPrefix ++ "/plugin-settings/".toList

def tabsSuffix : Text := "/tabs".toList

def emptyContributions : Json := .obj [("cliCommands".toList, .arr []),
  ("mentionProviders".toList, .arr [])]

def emptyPluginsResponse : Json := .obj [("plugins".toList, .arr [])]

def emptyHostsResponse : Json := .arr []

def emptyTabs : Json := .obj [("revision".toList, .num (.ofNat 0)), ("tabs".toList, .arr [])]

def emptyPluginSettingsResponse : Json := .obj []

/-- `^\/api\/v1\/threads\/[^/]+\/tabs$`. -/
def isThreadTabs (pathname : Text) : Bool :=
  oneSegment (apiPrefix ++ threadsPrefix) tabsSuffix pathname

/-- `PROJECT_DETAIL_RE`. -/
def isProjectDetail (pathname : Text) : Bool := oneSegment (apiPrefix ++ projectsPrefix) [] pathname

/-- The filter of a pathname without trailing slashes. -/
def filterAt (pathname : Text) : Option FilterMatch :=
  if pathname = systemConfigPath then some (.reshape .systemConfig)
  else if pathname = sidebarBootstrapPath then some (.reshape .sidebarBootstrap)
  else if pathname = contributionsPath then some (.constant emptyContributions)
  else if pathname = pluginsPath then some (.constant emptyPluginsResponse)
  else if pathname = hostsPath then some (.constant emptyHostsResponse)
  else if isThreadTabs pathname then some (.constant emptyTabs)
  else if pluginSettingsPrefix.isPrefixOf pathname then
    some (.constant emptyPluginSettingsResponse)
  else if isProjectDetail pathname then some (.reshape .projectDetail)
  else none

def matchResponseFilter (method : Text) (rawPathname : Text) : Option FilterMatch :=
  if method ≠ "GET".toList then none
  else filterAt (if 1 < rawPathname.length then trimSlashes rawPathname else rawPathname)

/-! ## Requests -/

/-- A request, with its header names in lower case.  `ended` is false when the connection is lost
after the chunks of `body`. -/
structure Request where
  method : Method
  target : Text
  headers : List (Text × Text)
  body : List Bytes
  ended : Bool

def Request.header (req : Request) (name : Text) : Option Text := req.headers.lookup name

/-- A header that is present and not empty. -/
def Request.nonEmpty (req : Request) (name : Text) : Option Text :=
  (req.header name).filter (· ≠ [])

/-- `/%(?:2f|5c|2e|00)/i`. -/
def hasEncodedSeparator (raw : Text) : Bool :=
  raw.tails.any fun s => match s with
    | '%' :: a :: b :: _ => lower [a, b] ∈ ["2f", "5c", "2e", "00"].map String.toList
    | _ => false

def requestUrl (raw : Text) : Option Url :=
  if raw.head? ≠ some '/' ∨ ['/', '/'].isPrefixOf raw ∨
      raw.any (fun c => c == '\\' || c.toNat ≤ 0x20) ∨ hasEncodedSeparator raw then none
  else some (Url.ofTarget raw)

/-! ## Outcomes -/

/-- What the gateway asks of BB on behalf of a guest, and what it will do with the answer. -/
structure Relay where
  url : Url
  method : Text
  headers : List (Text × Text)
  body : Option Text
  filter : Option Reshape
  token : Token
  decision : AuthzResult

/-- How the handling of a request ends, or the fetch it goes on to. -/
inductive Handled where
  | reply (status : ℕ) (body : Json)
  | probe (challenge : Text)
  | redirect (location cookie : Text) (next : Sessions)
  | unavailable
  | relay (r : Relay)

/-- The relayed request, if it came to one. -/
def Handled.relay? : Handled → Option Relay
  | .relay r => some r
  | _ => none

theorem Handled.relay?_eq_some {o : Handled} {r : Relay} : o.relay? = some r ↔ o = .relay r := by
  cases o <;> simp [Handled.relay?]

/-- `json(res, status, { error })`. -/
def Handled.error (status : ℕ) (message : String) : Handled :=
  .reply status (.obj [("error".toList, .str message.toList)])

/-- What the gateway holds: the origin it relays to, its sessions and the invitations. -/
structure Gateway where
  origin : Text
  sessions : Sessions
  store : InMemoryStore

/-! ## Writes -/

/-- `^application\/json(?:;|$)`, in any case. -/
def isJsonType (contentType : Text) : Bool :=
  match (lower contentType).dropPrefix? "application/json".toList with
  | some [] => true
  | some (c :: _) => c == ';'
  | none => false

def Method.isGetOrHead (method : Method) : Bool :=
  method.name ∈ ["GET".toList, "HEAD".toList]

/-- The checks on a write: a browser's cross-site request, then the content type. -/
def writeRefusal (req : Request) : Option Handled :=
  let crossOrigin : Bool :=
    match req.nonEmpty "origin".toList, req.nonEmpty "x-bb-shared-public-origin".toList with
    | some origin, some publicOrigin => origin ≠ publicOrigin
    | _, _ => false
  if req.header "sec-fetch-site".toList = some "cross-site".toList ∨ crossOrigin then
    some (.error 403 "Cross-origin writes are not permitted")
  else if !isJsonType ((req.header "content-type".toList).getD []) then
    some (.error 415 "Guest messages require JSON")
  else none

/-! ## Messages -/

inductive Body where
  | tooLarge
  | lost
  | read (bytes : Bytes)

/-- The body, chunk by chunk, up to 1 MiB. -/
def readBody (ended : Bool) : Bytes → List Bytes → Body
  | bytes, [] => if ended then .read bytes else .lost
  | bytes, chunk :: chunks =>
    if 1024 * 1024 < bytes.length + chunk.length then .tooLarge
    else readBody ended (bytes ++ chunk) chunks

def messageModes : List Text :=
  ["queue-if-active", "steer-if-active", "auto", "start", "steer"].map String.toList

/-- The text of an input item of type `text`. -/
def itemText (item : Json) : Option Text :=
  match item.member "type".toList, item.member "text".toList with
  | some (.str type), some (.str text) => if type = "text".toList then some text else none
  | _, _ => none

/-- The texts of a message, when its input is text only. -/
def messageTexts (body : Json) : Option (List Text) :=
  match body.member "input".toList with
  | some (.arr items) =>
    if items.length = 0 ∨ 128 < items.length then none else items.mapM itemText
  | _ => none

/-- The mode of a message, when it is an accepted one. -/
def messageMode (body : Json) : Option Text :=
  match body.member "mode".toList with
  | some (.str mode) => if mode ∈ messageModes then some mode else none
  | _ => none

def textItem (text : Text) : Json :=
  .obj [("type".toList, .str "text".toList), ("text".toList, .str text), ("mentions".toList, .arr [])]

/-- The body sent to BB. -/
def sendBody (texts : List Text) (mode : Text) : Text :=
  Json.stringify (.obj [("input".toList, .arr (texts.map textItem)), ("mode".toList, .str mode)])

/-! ## The fetch -/

def normalizedMethods : List Text :=
  ["DELETE", "GET", "HEAD", "OPTIONS", "POST", "PUT"].map String.toList

/-- The method `fetch` sends; it refuses a body on a read, and three methods altogether. -/
def fetchMethod (method : Method) (body : Option Text) : Option Text :=
  let name := if upper method.name ∈ normalizedMethods then upper method.name else method.name
  if upper name ∈ ["CONNECT", "TRACE", "TRACK"].map String.toList then none
  else if body.isSome && (name = "GET".toList || name = "HEAD".toList) then none
  else some name

/-- The allowlisted request headers. -/
def relayHeaders (origin : Text) (req : Request) : List (Text × Text) :=
  (["accept", "content-type", "accept-language", "range"].map String.toList).filterMap
      (fun name => (req.header name).map fun value => (name, value)) ++
    [("origin".toList, origin), ("accept-encoding".toList, "identity".toList)]

/-- `^\/api\/v1\/threads\/[^/]+\/?$`. -/
def isThreadRoot (pathname : Text) : Bool :=
  oneSegment (apiPrefix ++ threadsPrefix) [] pathname ||
    oneSegment (apiPrefix ++ threadsPrefix) ['/'] pathname

def hostScopedPaths : List Text :=
  [apiPrefix ++ systemProviders, apiPrefix ++ "/system/execution-options".toList]

/-- The query of a thread root loses `include`; that of a host-scoped path its host. -/
def stripQuery (url : Url) : Url :=
  let url := if isThreadRoot url.pathname then url.deleteParam "include".toList else url
  if trimSlashes url.pathname ∈ hostScopedPaths then
    (url.deleteParam "hostId".toList).deleteParam "environmentId".toList
  else url

/-- Send the request on with the given body. -/
def forward (g : Gateway) (req : Request) (url : Url) (filter : Option Reshape) (token : Token)
    (body : Option Text) : Handled :=
  match fetchMethod req.method body with
  | none => .unavailable
  | some method =>
    .relay
      { url, method, headers := relayHeaders g.origin req, body, filter, token,
        decision := computeAuthz (some token) url.pathname req.method }

/-- Read, check and rebuild the message of a write, then send it on. -/
def forwardMessage (g : Gateway) (req : Request) (url : Url) (filter : Option Reshape)
    (token : Token) : Handled :=
  match readBody req.ended [] req.body with
  | .tooLarge => .error 413 "Guest message is too large"
  | .lost => .unavailable
  | .read bytes =>
    match Json.parse (utf8Decode bytes) with
    | none => .error 400 "Invalid message JSON"
    | some body =>
      match messageTexts body with
      | none => .error 400 "Guest messages support text input only"
      | some texts =>
        match messageMode body with
        | none => .error 400 "Invalid message mode"
        | some mode => forward g req url filter token (some (sendBody texts mode))

/-! ## Handling -/

def readyPath : Text := "/__bb_shared/ready".toList

/-- `^bbsh_[A-Za-z0-9_-]{43}$`. -/
def isBearer (raw : Text) : Bool :=
  match raw.dropPrefix? rawTokenPrefix with
  | some r => r.length = 43 && r.all isUrlSafe
  | none => false

/-- A request with a `token` parameter: an invitation is redeemed, or the request refused. -/
def redeemRequest (hmac : Hmac) (g : Gateway) (now : ℕ) (random : Bytes) (persisted : Bool)
    (req : Request) (url : Url) : Handled :=
  if req.method.name ≠ "GET".toList then .error 400 "Invalid invitation redemption" else
    match url.paramValues "token".toList with
    | [raw] =>
      if !isBearer raw then .error 401 "Invalid invitation" else
        let priorId := cookieId (req.header "cookie".toList)
        match redeem hmac g.sessions g.store now raw priorId random with
        | .refused => .error 401 "Invalid or revoked invitation"
        | .limitReached => .unavailable
        | .redeemed id next =>
          if !persisted then .unavailable else
            let url := url.deleteParam "token".toList
            .redirect (url.pathname ++ url.search)
              (sessionCookie ++ '=' :: id ++
                "; Path=/; HttpOnly; Secure; SameSite=Lax; Max-Age=2592000".toList) next
    | _ => .error 400 "Invalid invitation redemption"

/-- A request of a resolved session. -/
def admitRequest (g : Gateway) (req : Request) (url : Url) (token : Token) : Handled :=
  match if req.method.isGetOrHead then none else writeRefusal req with
  | some refusal => refusal
  | none =>
    if (computeAuthz (some token) url.pathname req.method).allowed = false then
      .error 403 "This invitation does not permit that request"
    else
      match matchResponseFilter "GET".toList url.pathname with
      | some (.constant value) => .reply 200 value
      | some (.reshape filter) => send (some filter)
      | none => send none
where
  /-- Past the filters: a read goes on at once, a write after its message is rebuilt. -/
  send (filter : Option Reshape) : Handled :=
    if req.method.isGetOrHead then forward g req (stripQuery url) filter token none
    else forwardMessage g req (stripQuery url) filter token

/-- `handle`, up to the fetch.  `random` makes a new session id and `persisted` says whether the
session record was written. -/
def handle (hmac : Hmac) (g : Gateway) (now : ℕ) (random : Bytes) (persisted : Bool)
    (req : Request) : Handled :=
  match requestUrl req.target with
  | none => .error 400 "Invalid request target"
  | some url =>
    if url.pathname = readyPath ∧ req.method.name = "GET".toList then
      let challenge := ((url.paramValues "challenge".toList).head?).getD []
      if 256 < units challenge then .error 400 "Invalid challenge" else .probe challenge
    else if url.hasParam "token".toList then redeemRequest hmac g now random persisted req url
    else
      match resolve g.sessions g.store now (cookieId (req.header "cookie".toList)) with
      | none => .error 401 "Open a valid invitation to view shared threads"
      | some token => admitRequest g req url token

/-! ## What reaches BB -/

theorem length_of_mapM {α β : Type*} {f : α → Option β} {l : List α} {r : List β}
    (h : l.mapM f = some r) : r.length = l.length := by
  induction l generalizing r with
  | nil => cases h; rfl
  | cons a l ih =>
    rw [List.mapM_cons] at h
    cases hf : f a with
    | none => rw [hf] at h; cases h
    | some b =>
      cases hl : l.mapM f with
      | none => rw [hf, hl] at h; cases h
      | some bs =>
        rw [hf, hl] at h
        cases h
        rw [List.length_cons, List.length_cons, ih hl]

theorem messageTexts_length {body : Json} {texts : List Text} (h : messageTexts body = some texts) :
    1 ≤ texts.length ∧ texts.length ≤ 128 := by
  unfold messageTexts at h
  split at h
  · split_ifs at h with hlen
    rw [length_of_mapM h]
    omega
  · cases h

theorem messageMode_mem {body : Json} {mode : Text} (h : messageMode body = some mode) :
    mode ∈ messageModes := by
  unfold messageMode at h
  split at h
  · split_ifs at h with hm
    cases h; exact hm
  · cases h

/-- A body that the gateway sends: text items and a mode, and nothing else of the guest's. -/
def IsSendBody (body : Text) : Prop :=
  ∃ texts mode, 1 ≤ texts.length ∧ texts.length ≤ 128 ∧ mode ∈ messageModes ∧
    body = sendBody texts mode

/-- What an admitted request comes to. -/
structure Admitted (req : Request) (url : Url) (token : Token) (r : Relay) : Prop where
  allowed : (computeAuthz (some token) url.pathname req.method).allowed = true
  url_eq : r.url = stripQuery url
  filter_eq : matchResponseFilter "GET".toList url.pathname = r.filter.map .reshape
  fetched : fetchMethod req.method r.body = some r.method
  body : req.method.isGetOrHead = true ∧ r.body = none ∨
    req.method.isGetOrHead = false ∧ ∃ body, r.body = some body ∧ IsSendBody body

theorem forward_spec {g : Gateway} {req : Request} {url : Url} {filter : Option Reshape}
    {token : Token} {body : Option Text} {r : Relay}
    (h : forward g req url filter token body = .relay r) :
    r.url = url ∧ r.filter = filter ∧ r.body = body ∧
      fetchMethod req.method body = some r.method := by
  unfold forward at h
  cases hm : fetchMethod req.method body with
  | none => rw [hm] at h; cases h
  | some m => rw [hm] at h; cases h; exact ⟨rfl, rfl, rfl, rfl⟩

theorem forwardMessage_spec {g : Gateway} {req : Request} {url : Url} {filter : Option Reshape}
    {token : Token} {r : Relay} (h : forwardMessage g req url filter token = .relay r) :
    ∃ body, IsSendBody body ∧ forward g req url filter token (some body) = .relay r := by
  unfold forwardMessage at h
  cases hb : readBody req.ended [] req.body with
  | tooLarge => rw [hb] at h; cases h
  | lost => rw [hb] at h; cases h
  | read bytes =>
    rw [hb] at h
    simp only at h
    cases hj : Json.parse (utf8Decode bytes) with
    | none => rw [hj] at h; cases h
    | some j =>
      rw [hj] at h
      simp only at h
      cases ht : messageTexts j with
      | none => rw [ht] at h; cases h
      | some texts =>
        rw [ht] at h
        simp only at h
        cases hm : messageMode j with
        | none => rw [hm] at h; cases h
        | some mode =>
          rw [hm] at h
          obtain ⟨h1, h2⟩ := messageTexts_length ht
          exact ⟨_, ⟨texts, mode, h1, h2, messageMode_mem hm, rfl⟩, h⟩

theorem admit_send_spec {g : Gateway} {req : Request} {url : Url} {token : Token}
    {filter : Option Reshape} {r : Relay}
    (hallow : (computeAuthz (some token) url.pathname req.method).allowed = true)
    (hfilter : matchResponseFilter "GET".toList url.pathname = filter.map .reshape)
    (h : admitRequest.send g req url token filter = .relay r) : Admitted req url token r := by
  unfold admitRequest.send at h
  split_ifs at h with hget
  · obtain ⟨hu, rfl, hb, hm⟩ := forward_spec h
    exact ⟨hallow, hu, hfilter, by rw [hb]; exact hm, Or.inl ⟨hget, hb⟩⟩
  · obtain ⟨body, hsend, h⟩ := forwardMessage_spec h
    obtain ⟨hu, rfl, hb, hm⟩ := forward_spec h
    exact ⟨hallow, hu, hfilter, by rw [hb]; exact hm,
      Or.inr ⟨by simpa using hget, body, hb, hsend⟩⟩

theorem writeRefusal_ne_relay {req : Request} {r : Relay} : writeRefusal req ≠ some (.relay r) := by
  unfold writeRefusal
  intro h
  simp only at h
  split_ifs at h
  · cases h
  · cases h

theorem admit_spec {g : Gateway} {req : Request} {url : Url} {token : Token} {r : Relay}
    (h : admitRequest g req url token = .relay r) : Admitted req url token r := by
  unfold admitRequest at h
  cases hw : (if req.method.isGetOrHead = true then none else writeRefusal req) with
  | some refusal =>
    rw [hw] at h
    simp only at h
    split_ifs at hw
    rw [h] at hw
    exact absurd hw writeRefusal_ne_relay
  | none =>
    rw [hw] at h
    simp only at h
    by_cases hallow : (computeAuthz (some token) url.pathname req.method).allowed = false
    · rw [if_pos hallow] at h; cases h
    rw [if_neg hallow] at h
    have hallow' : (computeAuthz (some token) url.pathname req.method).allowed = true := by
      simpa using hallow
    cases hf : matchResponseFilter "GET".toList url.pathname with
    | none => rw [hf] at h; exact @admit_send_spec g req url token none r hallow' hf h
    | some f =>
      cases f with
      | constant value => rw [hf] at h; cases h
      | reshape f => rw [hf] at h; exact @admit_send_spec g req url token (some f) r hallow' hf h

theorem redeemRequest_ne_relay {hmac : Hmac} {g : Gateway} {now : ℕ} {random : Bytes}
    {persisted : Bool} {req : Request} {url : Url} {r : Relay} :
    redeemRequest hmac g now random persisted req url ≠ .relay r := by
  unfold redeemRequest
  intro h
  by_cases hget : req.method.name ≠ "GET".toList
  · rw [if_pos hget] at h; cases h
  rw [if_neg hget] at h
  split at h
  · rename_i raw _
    by_cases hb : (!isBearer raw) = true
    · rw [if_pos hb] at h; cases h
    rw [if_neg hb] at h
    simp only at h
    split at h
    · cases h
    · cases h
    · split_ifs at h
  · cases h

/-- A relayed request: its target parsed and without a `token`, its session live, and admitted. -/
theorem handle_spec {hmac : Hmac} {g : Gateway} {now : ℕ} {random : Bytes} {persisted : Bool}
    {req : Request} {r : Relay} (h : handle hmac g now random persisted req = .relay r) :
    ∃ url token, requestUrl req.target = some url ∧ url.hasParam "token".toList = false ∧
      resolve g.sessions g.store now (cookieId (req.header "cookie".toList)) = some token ∧
        Admitted req url token r := by
  unfold handle at h
  cases hu : requestUrl req.target with
  | none => rw [hu] at h; cases h
  | some url =>
    rw [hu] at h
    simp only at h
    split_ifs at h with h1 h2 h3
    · cases h
    · exact absurd h redeemRequest_ne_relay
    · cases ht : resolve g.sessions g.store now (cookieId (req.header "cookie".toList)) with
      | none => rw [ht] at h; cases h
      | some token =>
        rw [ht] at h
        exact ⟨url, token, rfl, by simpa using h3, rfl, admit_spec h⟩

end BbShared
