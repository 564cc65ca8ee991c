import BbShared.Bridge
import BbShared.ChromeShim
import BbShared.Redirects
import BbShared.Responses

/-!
# Guest relays

The second half of `handle` in `guest-gateway/index.ts`: from the entry in `controllers` to the last
byte.  An admitted read is fetched at once, an admitted write when its body has been read; then the
response is collected or passed on chunk by chunk.  An abort may come at any time, and nothing is
fetched or passed on after it.

1. `admission` is what stands before; `handle_eq_of_admission` ties it to the whole of `handle`.
2. `GuestRelay.advance` is the rest, one wait for I/O at a time.
3. `Over.reaches`: a relay that is aborted or finished does nothing more.
-/

namespace BbShared

open Js

/-! ## Admission -/

/-- The token of a list of grants, unless nothing of them is live. -/
def mergedToken (store : InMemoryStore) (id : Text) (grants : List Text) : Option Token :=
  if (mergeShares store grants).size = 0 then none
  else some
    { id, hash := [], label := "Guest session".toList, createdAt := Number.ofNat 0,
      shares := (mergeShares store grants).values, nodup := nodup_mergeShares store grants }

def grantToken (store : InMemoryStore) (session : Session) : Option Token :=
  mergedToken store session.id session.grants

theorem resolve_eq_grantToken (sessions : Sessions) (store : InMemoryStore) (now : ℕ)
    (id : Option Text) :
    resolve sessions store now id = (liveSession sessions now id).bind (grantToken store) := by
  unfold resolve
  cases liveSession sessions now id <;> rfl

/-- Only the named tokens matter. -/
theorem grantToken_congr {store store' : InMemoryStore} {session : Session}
    (h : ∀ g ∈ session.grants, store.getToken g = store'.getToken g) :
    grantToken store session = grantToken store' session := by
  have hmerge : mergeShares store session.grants = mergeShares store' session.grants := by
    have hlive : liveShares store session.grants = liveShares store' session.grants := by
      unfold liveShares
      exact List.flatMap_congr fun g hg => by rw [h g hg]
    rw [mergeShares_eq_foldl, mergeShares_eq_foldl, hlive]
  unfold grantToken mergedToken
  simp only [hmerge]

/-- What a request is let through with. -/
structure Admission where
  session : Session
  url : Url
  token : Token
  filter : Option Reshape

/-- The tokens that an admission stands on permit its request. -/
def Admission.PermittedBy (a : Admission) (method : Method) (store : InMemoryStore) : Prop :=
  (computeAuthz (grantToken store a.session) a.url.pathname method).allowed = true

instance (a : Admission) (method : Method) (store : InMemoryStore) :
    Decidable (a.PermittedBy method store) :=
  inferInstanceAs (Decidable (_ = _))

/-- The end of the checks, with a token that is live. -/
def admitted (session : Session) (url : Url) (token : Token) (req : Request) : Option Admission :=
  match if req.method.isGetOrHead then none else writeRefusal req with
  | some _ => none
  | none =>
    if (computeAuthz (some token) url.pathname req.method).allowed = false then none
    else
      match matchResponseFilter "GET".toList url.pathname with
      | some (.constant _) => none
      | some (.reshape filter) => some ⟨session, url, token, some filter⟩
      | none => some ⟨session, url, token, none⟩

/-- `handle` up to the entry in `controllers`; `none` where it has answered before. -/
def admission (g : Gateway) (now : ℕ) (req : Request) : Option Admission :=
  match requestUrl req.target with
  | none => none
  | some url =>
    if url.pathname = readyPath ∧ req.method.name = "GET".toList then none
    else if url.hasParam "token".toList then none
    else
      match liveSession g.sessions now (cookieId (req.header "cookie".toList)) with
      | none => none
      | some session =>
        match grantToken g.store session with
        | none => none
        | some token => admitted session url token req

theorem admitted_spec {session : Session} {url : Url} {token : Token} {req : Request}
    {a : Admission} (h : admitted session url token req = some a) :
    a.session = session ∧ a.url = url ∧ a.token = token ∧
      (computeAuthz (some token) url.pathname req.method).allowed = true ∧
      ∀ g, admitRequest g req url token = admitRequest.send g req url token a.filter := by
  unfold admitted at h
  unfold admitRequest
  cases hw : if req.method.isGetOrHead = true then none else writeRefusal req with
  | some refusal => rw [hw] at h; cases h
  | none =>
    rw [hw] at h
    simp only at h
    split_ifs at h with hallow
    have hallowed := Bool.eq_true_of_not_eq_false hallow
    cases hf : matchResponseFilter "GET".toList url.pathname with
    | none =>
      rw [hf] at h
      obtain rfl := Option.some.inj h
      exact ⟨rfl, rfl, rfl, hallowed, fun g => by simp only [if_neg hallow]⟩
    | some f =>
      rw [hf] at h
      cases f with
      | constant value => cases h
      | reshape f =>
        obtain rfl := Option.some.inj h
        exact ⟨rfl, rfl, rfl, hallowed, fun g => by simp only [if_neg hallow]⟩

theorem admission_spec {g : Gateway} {now : ℕ} {req : Request} {a : Admission}
    (h : admission g now req = some a) :
    requestUrl req.target = some a.url ∧
      ¬ (a.url.pathname = readyPath ∧ req.method.name = "GET".toList) ∧
      a.url.hasParam "token".toList = false ∧
      liveSession g.sessions now (cookieId (req.header "cookie".toList)) = some a.session ∧
      grantToken g.store a.session = some a.token ∧
      admitted a.session a.url a.token req = some a := by
  unfold admission at h
  cases hu : requestUrl req.target with
  | none => rw [hu] at h; cases h
  | some url =>
    rw [hu] at h
    simp only at h
    split_ifs at h with hready htoken
    cases hs : liveSession g.sessions now (cookieId (req.header "cookie".toList)) with
    | none => rw [hs] at h; cases h
    | some session =>
      rw [hs] at h
      simp only at h
      cases ht : grantToken g.store session with
      | none => rw [ht] at h; cases h
      | some token =>
        rw [ht] at h
        simp only at h
        obtain ⟨rfl, rfl, rfl, -, -⟩ := admitted_spec h
        exact ⟨rfl, hready, Bool.eq_false_of_not_eq_true htoken, rfl, ht, h⟩

theorem admission_permitted {g : Gateway} {now : ℕ} {req : Request} {a : Admission}
    (h : admission g now req = some a) : a.PermittedBy req.method g.store := by
  obtain ⟨-, -, -, -, htoken, hadmitted⟩ := admission_spec h
  unfold Admission.PermittedBy
  rw [htoken]
  exact (admitted_spec hadmitted).2.2.2.1

/-- **Admission.** What `handle` comes to, once a request is let through. -/
theorem handle_eq_of_admission (hmac : Hmac) {g : Gateway} {now : ℕ} (random : Bytes)
    (persisted : Bool) {req : Request} {a : Admission} (h : admission g now req = some a) :
    handle hmac g now random persisted req = admitRequest.send g req a.url a.token a.filter := by
  obtain ⟨hu, hready, htoken, hs, hgrant, hadmitted⟩ := admission_spec h
  unfold handle
  rw [hu]
  simp only
  rw [if_neg hready, if_neg (by rw [htoken]; exact Bool.false_ne_true), resolve_eq_grantToken, hs]
  simp only [Option.bind_some, hgrant]
  exact (admitted_spec hadmitted).2.2.2.2 g

/-- Every request that is relayed was let through. -/
theorem admission_of_relay {hmac : Hmac} {g : Gateway} {now : ℕ} {random : Bytes}
    {persisted : Bool} {req : Request} {r : Relay}
    (h : handle hmac g now random persisted req = .relay r) : ∃ a, admission g now req = some a := by
  unfold handle at h
  unfold admission
  cases hu : requestUrl req.target with
  | none => rw [hu] at h; cases h
  | some url =>
    rw [hu] at h
    simp only at h ⊢
    split_ifs at h ⊢ with hready hlong htoken
    · cases h
    · exact absurd h redeemRequest_ne_relay
    · rw [resolve_eq_grantToken] at h
      cases hs : liveSession g.sessions now (cookieId (req.header "cookie".toList)) with
      | none => rw [hs] at h; cases h
      | some session =>
        rw [hs] at h
        simp only [Option.bind_some] at h ⊢
        cases ht : grantToken g.store session with
        | none => rw [ht] at h; cases h
        | some token =>
          rw [ht] at h
          simp only at h ⊢
          have hrelay := admit_spec h
          unfold admitRequest at h
          unfold admitted
          cases hw : if req.method.isGetOrHead = true then none else writeRefusal req with
          | some refusal =>
            rw [hw] at h
            simp only at h
            split_ifs at hw
            rw [h] at hw
            exact absurd hw writeRefusal_ne_relay
          | none =>
            simp only [hrelay.allowed, Bool.true_eq_false, if_false]
            rw [hrelay.filter_eq]
            cases r.filter with
            | none => exact ⟨_, rfl⟩
            | some f => exact ⟨_, rfl⟩

/-! ## Relays -/

/-- The head of a response of BB. -/
structure UpstreamHead where
  status : ℕ
  contentType : Option Text
  location : Option Text
  hasBody : Bool

def UpstreamHead.ok (head : UpstreamHead) : Bool := 200 ≤ head.status && head.status ≤ 299

/-- `upstream.headers.get("content-type")?.includes("application/json")`. -/
def UpstreamHead.isJson (head : UpstreamHead) : Bool :=
  ((head.contentType.getD []).tails).any fun s => "application/json".toList.isPrefixOf s

/-- `/^text\/html\b/i`. -/
def UpstreamHead.isHtml (head : UpstreamHead) : Bool :=
  let contentType := head.contentType.getD []
  lower (contentType.take 9) = "text/html".toList && !((contentType.drop 9).head?).any isWordChar

inductive RelayPhase where
  /-- The body of the message is read. -/
  | reading
  | fetching (relay : Relay)
  /-- The response is read as a whole. -/
  | collecting (relay : Relay)
  | streaming
  | finished

/-- An entry of `controllers`, with the call of `handle` that made it.  `fetches` and `forwarded`
record what was asked of BB and what the guest was sent of its answer; `duringChange` is the number
of settled calls, when the request was let through while a change was in memory only. -/
structure GuestRelay where
  req : Request
  admission : Admission
  phase : RelayPhase
  aborted : Bool
  fetches : List Relay
  forwarded : List Bytes
  duringChange : Option ℕ

inductive FetchEvent where
  /-- The body has come, in these chunks, or the connection is lost after them. -/
  | body (chunks : List Bytes) (ended : Bool)
  | head (head : UpstreamHead)
  /-- The whole response has been read. -/
  | collected (text : Text)
  | chunk (bytes : Bytes)
  | ended
  /-- The guest goes away, or the timer fires. -/
  | abort
  /-- The fetch, a read or a write fails. -/
  | fail

namespace GuestRelay

/-- `controller.abort()`. -/
def abort (r : GuestRelay) : GuestRelay := { r with aborted := true }

def finish (r : GuestRelay) : GuestRelay := { r with phase := .finished }

/-- The fetch, with the controller's signal: it rejects at once when that is aborted. -/
def fetch (r : GuestRelay) (handled : Handled) : GuestRelay :=
  match handled with
  | .relay relay =>
    if r.aborted then r.finish
    else { r with phase := .fetching relay, fetches := r.fetches ++ [relay] }
  | _ => r.finish

/-- A request that is let through: a read is fetched, a write is read first. -/
def begin (g : Gateway) (req : Request) (a : Admission) (duringChange : Option ℕ) : GuestRelay :=
  let r : GuestRelay := ⟨req, a, .reading, false, [], [], duringChange⟩
  if req.method.isGetOrHead then r.fetch (admitRequest.send g req a.url a.token a.filter) else r

/-- What is to be done with a response of this head. -/
def phaseAfter (authority : Text → Text → Option Text) (base : BaseUrl) (method : Method)
    (relay : Relay) (head : UpstreamHead) : RelayPhase :=
  let location := head.location.getD []
  if location ≠ [] ∧ upstreamLocation authority base location = none then .finished
  else if method.name = "HEAD".toList ∨ head.hasBody = false then .finished
  else if head.ok ∧ relay.filter.isSome then
    if head.isJson then .collecting relay else .finished
  else if head.ok ∧ head.isHtml then .collecting relay
  else .streaming

/-- What a guest is sent for a whole response; `none` where it is not JSON. -/
def reply (relay : Relay) (text : Text) : Option Text :=
  match relay.filter with
  | some filter => (Json.parse text).map fun upstream =>
      Json.stringify (filter.apply upstream (scopeOf relay.token.shares))
  | none => some (insertShimIntoHtml text (shimForPerms relay.decision.threadPerms))

/-- `none` where the event cannot happen: nothing comes of an aborted fetch. -/
def advance (authority : Text → Text → Option Text) (base : BaseUrl) (g : Gateway) (r : GuestRelay) :
    FetchEvent → Option GuestRelay
  | .body chunks ended =>
    match r.phase with
    | .reading =>
      some (r.fetch (admitRequest.send g { r.req with body := chunks, ended } r.admission.url
        r.admission.token r.admission.filter))
    | _ => none
  | .head head =>
    match r.phase with
    | .fetching relay =>
      if r.aborted then none
      else some { r with phase := phaseAfter authority base r.req.method relay head }
    | _ => none
  | .collected text =>
    match r.phase with
    | .collecting relay =>
      if r.aborted then none
      else
        match reply relay text with
        | some page => some { r.finish with forwarded := r.forwarded ++ [utf8Encode page] }
        | none => some r.finish
    | _ => none
  | .chunk bytes =>
    match r.phase with
    | .streaming =>
      if r.aborted then none else some { r with forwarded := r.forwarded ++ [bytes] }
    | _ => none
  | .ended =>
    match r.phase with
    | .streaming => if r.aborted then none else some r.finish
    | _ => none
  | .abort => some r.abort
  | .fail => some r.finish

/-- The relay may still fetch or pass something on. -/
def InFlight (r : GuestRelay) : Prop := r.aborted = false ∧ r.phase ≠ .finished

instance decidableFinished : ∀ phase : RelayPhase, Decidable (phase = .finished)
  | .finished => .isTrue rfl
  | .reading => .isFalse nofun
  | .fetching _ => .isFalse nofun
  | .collecting _ => .isFalse nofun
  | .streaming => .isFalse nofun

instance (r : GuestRelay) : Decidable r.InFlight := inferInstanceAs (Decidable (_ ∧ _))

/-- What an advance leaves as it is. -/
structure Goes (r r' : GuestRelay) : Prop where
  req : r'.req = r.req
  admission : r'.admission = r.admission
  duringChange : r'.duringChange = r.duringChange
  inFlight : r'.InFlight → r.InFlight
  quiet : ¬ r.InFlight → r'.fetches = r.fetches ∧ r'.forwarded = r.forwarded

theorem Goes.refl (r : GuestRelay) : Goes r r := ⟨rfl, rfl, rfl, id, fun _ => ⟨rfl, rfl⟩⟩

theorem goes_abort (r : GuestRelay) : Goes r r.abort :=
  ⟨rfl, rfl, rfl, (fun h => absurd h.1 (by simp [abort])), fun _ => ⟨rfl, rfl⟩⟩

theorem goes_finish (r : GuestRelay) : Goes r r.finish :=
  ⟨rfl, rfl, rfl, (fun h => absurd rfl h.2), fun _ => ⟨rfl, rfl⟩⟩

theorem not_inFlight_abort (r : GuestRelay) : ¬ r.abort.InFlight := fun h => by
  simp [InFlight, abort] at h

/-- A relay in flight moves on. -/
theorem goes_of_inFlight {r r' : GuestRelay} (h : r.InFlight) (hreq : r'.req = r.req)
    (hadmission : r'.admission = r.admission) (hduring : r'.duringChange = r.duringChange) :
    Goes r r' :=
  ⟨hreq, hadmission, hduring, fun _ => h, fun hn => absurd h hn⟩

theorem goes_fetch {r : GuestRelay} (hphase : r.phase ≠ .finished) (handled : Handled) :
    Goes r (r.fetch handled) := by
  unfold fetch
  cases handled with
  | relay relay =>
    by_cases haborted : r.aborted = true
    · simp only [if_pos haborted]
      exact goes_finish r
    · simp only [if_neg haborted]
      exact goes_of_inFlight ⟨Bool.eq_false_of_not_eq_true haborted, hphase⟩ rfl rfl rfl
  | _ => exact goes_finish r

variable {authority : Text → Text → Option Text} {base : BaseUrl} {g : Gateway}

/-- **Step lemma.** -/
theorem advance_goes {r r' : GuestRelay} {e : FetchEvent}
    (h : r.advance authority base g e = some r') : Goes r r' := by
  -- An event of the fetch or of the response comes to a relay in flight.
  have flying {phase : RelayPhase} (hp : r.phase = phase) (hne : phase ≠ .finished)
      (haborted : ¬ r.aborted = true) : r.InFlight :=
    ⟨Bool.eq_false_of_not_eq_true haborted, by rw [hp]; exact hne⟩
  unfold advance at h
  cases e with
  | body chunks ended =>
    simp only at h
    split at h
    · rename_i hp
      obtain rfl := Option.some.inj h
      exact goes_fetch (by rw [hp]; simp) _
    · cases h
  | head head =>
    simp only at h
    split at h
    · rename_i hp
      split_ifs at h with ha
      obtain rfl := Option.some.inj h
      exact goes_of_inFlight (flying hp (by simp) ha) rfl rfl rfl
    · cases h
  | collected text =>
    simp only at h
    split at h
    · rename_i hp
      split_ifs at h with ha
      split at h
      · obtain rfl := Option.some.inj h
        exact goes_of_inFlight (flying hp (by simp) ha) rfl rfl rfl
      · obtain rfl := Option.some.inj h
        exact goes_finish r
    · cases h
  | chunk bytes =>
    simp only at h
    split at h
    · rename_i hp
      split_ifs at h with ha
      obtain rfl := Option.some.inj h
      exact goes_of_inFlight (flying hp (by simp) ha) rfl rfl rfl
    · cases h
  | ended =>
    simp only at h
    split at h
    · split_ifs at h
      obtain rfl := Option.some.inj h
      exact goes_finish r
    · cases h
  | abort =>
    obtain rfl := Option.some.inj h
    exact goes_abort r
  | fail =>
    obtain rfl := Option.some.inj h
    exact goes_finish r

theorem begin_frame (g : Gateway) (req : Request) (a : Admission) (duringChange : Option ℕ) :
    (begin g req a duringChange).req = req ∧ (begin g req a duringChange).admission = a ∧
      (begin g req a duringChange).duringChange = duringChange := by
  unfold begin
  simp only
  split_ifs
  · obtain ⟨hreq, hadmission, hduring, -, -⟩ :=
      goes_fetch (r := ⟨req, a, .reading, false, [], [], duringChange⟩) (by simp)
        (admitRequest.send g req a.url a.token a.filter)
    exact ⟨hreq, hadmission, hduring⟩
  · exact ⟨rfl, rfl, rfl⟩

end GuestRelay

end BbShared
