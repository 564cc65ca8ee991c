import BbShared.Boundary
import BbShared.Js.Headers
import BbShared.Naming
import BbShared.Visitor

/-!
# Cross-origin writes

The headers of a visitor's request on their way to the gateway: made into a `Headers` object and
given the public origin by the Worker, cut by the Durable Object, framed, rebuilt by
`tunnel-client/src/headers.ts` into an object keyed by name, and sent by Node.

`cross_origin_write_refused` says what the gateway sees of them, and that it refuses a write from
another origin.
-/

namespace BbShared

open Js

/-! ## The edge -/

/-- A request at the edge: the origin of its URL and its headers as they were sent. -/
structure Arrival where
  method : Text
  url : Url
  origin : Text
  raw : List HeaderPair
  body : Option (List Bytes × Bool)
  origin_ne : origin ≠ []
  origin_clean : HeaderText origin
  raw_clean : ∀ p ∈ raw, HeaderText p.1 ∧ HeaderText p.2

theorem isLineBreak_toLower {c : Char} (h : isLineBreak c = false) :
    isLineBreak c.toLower = false := by
  by_cases hc : c.toNat < 128
  · exact forall_char_lt (P := fun c => isLineBreak c = false → isLineBreak c.toLower = false)
      (by decide) hc h
  · rwa [toLower_eq_self hc]

namespace Arrival

/-- The request that the Worker is given. -/
def request (a : Arrival) : VisitorRequest where
  method := a.method
  url := a.url
  origin := a.origin
  headers := headersForEach a.raw
  body := a.body
  origin_clean := a.origin_clean
  headers_clean _ hp :=
    forall_mem_headersForEach (P := fun c => isLineBreak c = false)
      (fun _ => isLineBreak_toLower) (by decide) a.raw_clean hp

def header (a : Arrival) (name : Text) : Option Text := headersGet a.raw name

/-- A browser's write from another origin, as far as its headers tell. -/
def CrossOrigin (a : Arrival) : Prop :=
  a.header "sec-fetch-site".toList = some "cross-site".toList ∨
    ∃ origin, a.header "origin".toList = some origin ∧ origin ≠ [] ∧ origin ≠ a.origin

end Arrival

/-! ## The loopback request -/

def SKIP_REQUEST_HEADERS : List Text := ["host", "content-length", "connection"].map String.toList

structure LoopbackHeaderRewrite where
  publicOrigin : Text
  preserveOrigin : Bool
  loopbackOrigin : Text
  host : Option Text

/-- The value under which a header is forwarded. -/
def LoopbackHeaderRewrite.value (rewrite : LoopbackHeaderRewrite) (p : HeaderPair) : Text :=
  if !rewrite.preserveOrigin ∧ lower p.1 = "origin".toList ∧ p.2 = rewrite.publicOrigin then
    rewrite.loopbackOrigin
  else p.2

/-- The headers that become properties of the object: a string under `__proto__` does not. -/
def isForwarded (p : HeaderPair) : Bool :=
  lower p.1 ∉ SKIP_REQUEST_HEADERS ∧ p.1 ≠ "__proto__".toList

def headersForLoopbackRequest (headers : List HeaderPair) (rewrite : LoopbackHeaderRewrite) :
    OrderedMap Text Text :=
  let forwarded := ((headers.filter isForwarded).map fun p => (p.1, rewrite.value p)).foldl
    (fun m p => m.set p.1 p.2) .empty
  match rewrite.host with
  | some host => forwarded.set "Host".toList host
  | none => forwarded

/-- `frameBodyHeaders`. -/
def frameBodyHeaders (headers : OrderedMap Text Text) : Option Bytes → OrderedMap Text Text
  | some body => headers.set "Content-Length".toList (Nat.toDigits 10 body.length)
  | none => headers

/-- The rewrite of `SharedTunnel`'s origin. -/
def guestRewrite (publicOrigin loopbackOrigin : Text) : LoopbackHeaderRewrite :=
  { publicOrigin, preserveOrigin := true, loopbackOrigin, host := none }

def ownHeaders (host : Text) : List HeaderPair :=
  [("host".toList, host), ("connection".toList, "keep-alive".toList)]

/-- The headers of a request that Node makes with an object of headers, as the server reads them:
names in lower case, the last of those that differ in case only, and Node's own after them. -/
def nodeHeaders (host : Text) (headers : OrderedMap Text Text) : List HeaderPair :=
  let sent : OrderedMap Text Text :=
    (headers.entries.map fun p => (lower p.1, p.2)).foldl (fun m p => m.set p.1 p.2) .empty
  sent.entries ++ ownHeaders host

/-- Where the session sends requests. -/
structure Loopback where
  host : Text
  publicOrigin : Text
  origin : Text

def Loopback.headers (l : Loopback) (headers : List HeaderPair) : OrderedMap Text Text :=
  headersForLoopbackRequest headers (guestRewrite l.publicOrigin l.origin)

/-- The request that the gateway is given for a call of the session, in any chunks and whole or
cut off. -/
structure OriginRequest (l : Loopback) (r : Running) (req : Request) : Prop where
  method : req.method.name = r.info.method
  target : req.target = (Url.ofTarget r.info.path).pathname ++ (Url.ofTarget r.info.path).search
  headers : req.headers = nodeHeaders l.host (frameBodyHeaders (l.headers r.info.headers) r.body)
  body : req.body.flatten <+: r.body.getD []
  ended : req.ended = true → req.body.flatten = r.body.getD []

/-- The headers that the gateway is given for a WebSocket, without those of its handshake. -/
def upgradeHeaders (l : Loopback) (info : OpenWs) : List HeaderPair :=
  nodeHeaders l.host (l.headers info.headers)

/-- The opening in a message, where it passes the session's check. -/
def openingOf (message : Bytes) (type : FrameType) : Option Opening :=
  (decodeFrame message).bind (validateOpenFrame type)

/-- A visitor's request, all the way to the gateway: the message that the Worker and the Durable
Object send for it, a session that has received this message among others, and the call that it
opened there. -/
structure Delivery (co : Coercion) (l : Loopback) where
  arrival : Arrival
  relay : TunnelDO
  link : TunnelLink
  message : Posted
  posted : (relay.workerFetch link arrival.request).outbox = relay.outbox ++ [message]
  received : List Bytes
  session : TunnelSession
  run : TunnelSession.Run co received session
  call : Running
  running : call ∈ session.running
  opened : received[call.uid]? = some message.bytes
  request : Request
  made : OriginRequest l call request

/-- The gateway fetches from BB. -/
def Handled.fetches : Handled → Bool
  | .relay _ => true
  | .probe _ => true
  | _ => false

/-! ## Hops -/

theorem mem_append_singleton_inj {α : Type*} {l : List α} {a b : α} (h : l ++ [a] = l ++ [b]) :
    a = b := by
  simpa using h

/-- Overwriting a header replaces its values and no others. -/
theorem bindings_setHeader (headers : List HeaderPair) (name value k : Text) :
    bindings (setHeader headers name value) k =
      if k = name then [value] else bindings headers k := by
  unfold setHeader
  simp only
  generalize hl : headers.filter (fun p => p.1 ≠ name) = others
  rw [bindings_append, bindings_cons]
  by_cases h : k = name
  · subst h
    have hnone : bindings others k = [] := by
      unfold bindings
      rw [List.map_eq_nil_iff, List.filter_eq_nil_iff, ← hl]
      intro p hp hk
      have hne : p.1 ≠ k := of_decide_eq_true (List.mem_filter.mp hp).2
      exact hne (of_decide_eq_true hk)
    have hsplit : bindings (others.takeWhile (fun p => p.1 < k)) k ++
        bindings (others.dropWhile fun p => p.1 < k) k = [] := by
      rw [← bindings_append, List.takeWhile_append_dropWhile, hnone]
    rw [if_pos rfl, if_pos rfl, (List.append_eq_nil_iff.mp hsplit).1,
      (List.append_eq_nil_iff.mp hsplit).2]
    rfl
  · rw [if_neg fun hn => h hn.symm, if_neg h, ← bindings_append, List.takeWhile_append_dropWhile,
      ← hl, bindings_filter fun v => decide_eq_true h]

/-- The names of the headers that the Worker hands on are in lower case. -/
theorem lower_withOrigin (a : Arrival) {p : HeaderPair} (h : p ∈ a.request.withOrigin.headers) :
    lower p.1 = p.1 := by
  rcases mem_setHeader h with rfl | h
  · exact show lower PUBLIC_ORIGIN_HEADER = PUBLIC_ORIGIN_HEADER by decide
  · exact lower_of_mem_headersForEach h

theorem bindings_entries (m : OrderedMap Text Text) (k : Text) :
    bindings m.entries k = (m.get k).toList := by
  unfold bindings
  cases hg : m.get k with
  | none =>
    rw [Option.toList_none, List.map_eq_nil_iff, List.filter_eq_nil_iff]
    intro p hp hk
    exact (OrderedMap.get_eq_none.mp hg) (List.mem_map.mpr ⟨p, hp, of_decide_eq_true hk⟩)
  | some v =>
    have hmem := OrderedMap.get_eq_some.mp hg
    have hnodup := m.nodup
    generalize m.entries = l at hmem hnodup
    induction l with
    | nil => cases hmem
    | cons p l ih =>
      have hn := List.nodup_cons.mp hnodup
      rw [List.filter_cons]
      rcases List.mem_cons.mp hmem with rfl | hmem
      · have hrest : l.filter (fun p => decide (p.1 = k)) = [] := by
          rw [List.filter_eq_nil_iff]
          intro q hq hk
          exact hn.1 (List.mem_map.mpr ⟨q, hq, of_decide_eq_true hk⟩)
        rw [if_pos (by simp), hrest]
        rfl
      · have hne : p.1 ≠ k := by
          rintro rfl
          exact hn.1 (List.mem_map.mpr ⟨_, hmem, rfl⟩)
        rw [if_neg (by simpa using hne)]
        exact ih hmem hn.2

/-- What the server reads under a name that no other name of the object collides with. -/
theorem lookup_nodeHeaders {host : Text} {headers : OrderedMap Text Text} {k : Text}
    (hk : ∀ n ∈ headers.keys, lower n = k ↔ n = k) (hhost : k ≠ "host".toList)
    (hconn : k ≠ "connection".toList) :
    (nodeHeaders host headers).lookup k = headers.get k := by
  have hmap : bindings (headers.entries.map fun p => (lower p.1, p.2)) k =
      bindings headers.entries k := by
    unfold bindings
    rw [List.filter_map, List.map_map]
    congr 1
    refine List.filter_congr fun p hp => ?_
    exact decide_eq_decide.mpr (hk p.1 (List.mem_map_of_mem hp))
  have hown : bindings (ownHeaders host) k = [] := by
    unfold bindings ownHeaders
    rw [List.map_eq_nil_iff, List.filter_eq_nil_iff]
    intro p hp hn
    rcases List.mem_cons.mp hp with rfl | hp
    · exact hhost (of_decide_eq_true hn).symm
    · rw [List.mem_singleton.mp hp] at hn
      exact hconn (of_decide_eq_true hn).symm
  unfold nodeHeaders
  rw [lookup_eq_head, bindings_append, hown, List.append_nil, bindings_entries, get_foldl_set,
    hmap, bindings_entries, OrderedMap.get_empty]
  cases headers.get k <;> rfl

theorem guestRewrite_value (publicOrigin origin : Text) (p : HeaderPair) :
    (guestRewrite publicOrigin origin).value p = p.2 :=
  if_neg fun h => absurd h.1 (by simp [guestRewrite])

/-- The headers become properties as they are. -/
theorem Loopback.headers_eq (l : Loopback) (headers : List HeaderPair) :
    l.headers headers =
      (headers.filter isForwarded).foldl (fun m p => m.set p.1 p.2) .empty := by
  have hmap : (headers.filter isForwarded).map
      (fun p => (p.1, (guestRewrite l.publicOrigin l.origin).value p)) =
        headers.filter isForwarded := by
    simp only [guestRewrite_value]
    exact List.map_id'' (fun _ => rfl) _
  unfold Loopback.headers headersForLoopbackRequest
  rw [hmap]
  rfl

/-- The object of headers keeps the last value of every forwarded name. -/
theorem get_loopback (l : Loopback) (headers : List HeaderPair) {k : Text}
    (hk : ∀ v, isForwarded (k, v) = true) :
    (l.headers headers).get k = (bindings headers k).getLast? := by
  rw [l.headers_eq, get_foldl_set, OrderedMap.get_empty, Option.or_none, bindings_filter hk]

theorem mem_keys_loopback {l : Loopback} {headers : List HeaderPair} {n : Text}
    (h : n ∈ (l.headers headers).keys) : ∃ p ∈ headers, p.1 = n := by
  have key : ∀ (ps : List HeaderPair) (m : OrderedMap Text Text),
      n ∈ (ps.foldl (fun m p => m.set p.1 p.2) m).keys → n ∈ m.keys ∨ ∃ p ∈ ps, p.1 = n := by
    intro ps
    induction ps with
    | nil => exact fun m hm => .inl hm
    | cons p ps ih =>
      intro m hm
      rcases ih _ hm with hm | ⟨q, hq, hn⟩
      · rcases OrderedMap.mem_keys_set.mp hm with hm | hm
        · exact .inr ⟨p, List.mem_cons_self, hm.symm⟩
        · exact .inl hm
      · exact .inr ⟨q, List.mem_cons_of_mem p hq, hn⟩
  rw [l.headers_eq] at h
  rcases key _ _ h with h | ⟨p, hp, hn⟩
  · cases h
  · exact ⟨p, List.mem_of_mem_filter hp, hn⟩

/-- A header that reaches the gateway as it is: neither a hop header, nor one that the session
drops, nor one that Node sets. -/
structure Passes (k : Text) : Prop where
  hop : ∀ v, isHopHeader (k, v) = false
  forwarded : ∀ v, isForwarded (k, v) = true
  host : k ≠ "host".toList
  connection : k ≠ "connection".toList
  length : lower "Content-Length".toList ≠ k
  cookie : k ≠ SET_COOKIE
  lower : Js.lower k = k

theorem passes_publicOrigin : Passes PUBLIC_ORIGIN_HEADER := by
  constructor <;> first | decide | exact fun _ => rfl

theorem passes_origin : Passes "origin".toList := by
  constructor <;> first | decide | exact fun _ => rfl

theorem passes_fetchSite : Passes "sec-fetch-site".toList := by
  constructor <;> first | decide | exact fun _ => rfl

/-- The values of a header that the Durable Object sends. -/
theorem bindings_forwardable (a : Arrival) {k : Text} (hk : Passes k) :
    bindings (forwardableHeaders a.request.withOrigin.headers) k =
      if k = PUBLIC_ORIGIN_HEADER then [a.origin] else (a.header k).toList := by
  unfold forwardableHeaders
  rw [bindings_filter fun v => by rw [hk.hop v]; rfl]
  show bindings (setHeader (headersForEach a.raw) PUBLIC_ORIGIN_HEADER a.origin) k = _
  rw [bindings_setHeader, bindings_headersForEach a.raw hk.cookie]
  rfl

/-- **Headers end to end.** What the gateway reads under a name that passes. -/
theorem lookup_delivered (l : Loopback) (a : Arrival) (body : Option Bytes) {k : Text}
    (hk : Passes k) :
    (nodeHeaders l.host (frameBodyHeaders
      (l.headers (forwardableHeaders a.request.withOrigin.headers)) body)).lookup k =
      if k = PUBLIC_ORIGIN_HEADER then some a.origin else a.header k := by
  have hget : (l.headers (forwardableHeaders a.request.withOrigin.headers)).get k =
      if k = PUBLIC_ORIGIN_HEADER then some a.origin else a.header k := by
    rw [get_loopback l _ hk.forwarded, bindings_forwardable a hk]
    split_ifs
    · rfl
    · cases a.header k <;> rfl
  have hkeys : ∀ n ∈ (l.headers (forwardableHeaders a.request.withOrigin.headers)).keys,
      lower n = k ↔ n = k := by
    intro n hn
    obtain ⟨p, hp, rfl⟩ := mem_keys_loopback hn
    rw [lower_withOrigin a (List.mem_of_mem_filter hp)]
  cases body with
  | none => rw [frameBodyHeaders, lookup_nodeHeaders hkeys hk.host hk.connection, hget]
  | some body =>
    have hne : k ≠ "Content-Length".toList := by
      rintro rfl
      exact hk.length hk.lower
    rw [frameBodyHeaders, lookup_nodeHeaders ?_ hk.host hk.connection, OrderedMap.get_set_of_ne _ hne,
      hget]
    intro n hn
    rcases OrderedMap.mem_keys_set.mp hn with rfl | hn
    · exact ⟨fun h => absurd h hk.length, fun h => absurd h.symm hne⟩
    · exact hkeys n hn

/-! ## The session -/

theorem validPath_eq {p q : Text} (h : validPath (.json (.str p)) = some q) : q = p := by
  unfold validPath at h
  simp only at h
  split_ifs at h
  exact (Option.some.inj h).symm

theorem validHeaders_eq {headers headers' : List HeaderPair} (hc : HeadersClean headers)
    (h : validHeaders (.json (headersJson headers)) = some headers') : headers' = headers := by
  unfold validHeaders headersJson at h
  simp only [mapM_validHeaderPair hc] at h
  split_ifs at h
  exact (Option.some.inj h).symm

theorem validMethod_eq {m m' : Text} (h : validMethod (.json (.str m)) = some m') : m' = m := by
  unfold validMethod at h
  simp only at h
  split_ifs at h
  exact (Option.some.inj h).symm

theorem targetText_raw_openHttp (i : ℕ) (m : OpenHttp) :
    (Frame.openHttp i m).raw.targetText = m.target := by
  obtain ⟨_, _, _, _, _ | _⟩ := m <;> rfl

/-- An HTTP opening that the session accepts says what the relay sent. -/
theorem validateOpenFrame_openHttp {i : ℕ} {m info : OpenHttp} (hc : HeadersClean m.headers)
    (h : validateOpenFrame .openHttp (Frame.openHttp i m).raw = some (.http info)) : info = m := by
  have h' : validOpenHttp (Frame.openHttp i m).raw = some (.http info) := h
  unfold validOpenHttp at h'
  obtain ⟨path, hpath, h'⟩ := Option.bind_eq_some_iff.mp h'
  obtain ⟨headers, hheaders, h'⟩ := Option.bind_eq_some_iff.mp h'
  obtain ⟨method, hmethod, h'⟩ := Option.bind_eq_some_iff.mp h'
  obtain ⟨hasBody, hflag, h'⟩ := Option.bind_eq_some_iff.mp h'
  rw [targetText_raw_openHttp] at h'
  obtain rfl := validPath_eq hpath
  obtain rfl := validHeaders_eq hc hheaders
  obtain rfl := validMethod_eq hmethod
  have hb : hasBody = m.hasBody := (Option.some.inj hflag).symm
  rw [hb] at h'
  injection Option.some.inj h' with h'
  exact h'.symm

/-- A WebSocket opening that the session accepts has the headers that the relay sent. -/
theorem validateOpenFrame_openWs {i : ℕ} {m info : OpenWs} (hc : HeadersClean m.headers)
    (h : validateOpenFrame .openWs (Frame.openWs i m).raw = some (.ws info)) :
    info.headers = m.headers := by
  have h' : validOpenWs (Frame.openWs i m).raw = some (.ws info) := h
  unfold validOpenWs at h'
  obtain ⟨path, _, h'⟩ := Option.bind_eq_some_iff.mp h'
  obtain ⟨headers, hheaders, h'⟩ := Option.bind_eq_some_iff.mp h'
  obtain ⟨protocols, _, h'⟩ := Option.bind_eq_some_iff.mp h'
  obtain rfl := validHeaders_eq hc hheaders
  injection Option.some.inj h' with h'
  rw [← h']

/-- A WebSocket opening has no method, and no HTTP opening has protocols. -/
theorem validateOpenFrame_other {i : ℕ} {m : OpenWs} {n : OpenHttp} :
    validateOpenFrame .openHttp (Frame.openWs i m).raw = none ∧
      validateOpenFrame .openWs (Frame.openHttp i n).raw = none := by
  have hm : validMethod (Frame.openWs i m).raw.method = none := rfl
  have hp : validProtocols (Frame.openHttp i n).raw.protocols = none := rfl
  constructor
  · show validOpenHttp (Frame.openWs i m).raw = none
    unfold validOpenHttp
    rw [hm]
    cases validPath (Frame.openWs i m).raw.path <;>
      cases validHeaders (Frame.openWs i m).raw.headers <;> rfl
  · show validOpenWs (Frame.openHttp i n).raw = none
    unfold validOpenWs
    rw [hp]
    cases validPath (Frame.openHttp i n).raw.path <;>
      cases validHeaders (Frame.openHttp i n).raw.headers <;> rfl

/-- The frame that a request is opened with. -/
theorem frame_of_posted {d : TunnelDO} {link : TunnelLink} {r : VisitorRequest} {m : Posted}
    (h : (d.workerFetch link r).outbox = d.outbox ++ [m]) :
    m.frame = d.opening r.withOrigin := by
  have hnot : d.outbox ≠ d.outbox ++ [m] := by simp
  unfold TunnelDO.workerFetch at h
  split_ifs at h
  · exact absurd h hnot
  · exact absurd h hnot
  unfold TunnelDO.proxyGuestRequest at h
  split_ifs at h with ha hu
  · unfold TunnelDO.openVisitorWebSocket at h
    unfold TunnelDO.opening
    rw [if_pos hu]
    simp only at h
    rcases TunnelDO.trySend_cases { d with nextStreamId := d.nextStreamId + 1 } link
      (.openWs d.nextStreamId r.withOrigin.openWs) with hs | hs | ⟨m', hm', hs⟩
    · rw [hs] at h; exact absurd h hnot
    · rw [hs] at h; exact absurd h hnot
    · rw [hs] at h
      rw [← hm', ← mem_append_singleton_inj h]
  · unfold TunnelDO.proxyHttp at h
    unfold TunnelDO.opening
    rw [if_neg hu]
    simp only at h
    rcases TunnelDO.trySend_cases { d with
        nextStreamId := d.nextStreamId + 1
        pendingHttp := d.pendingHttp.set d.nextStreamId ⟨none, false, true⟩ } link
      (.openHttp d.nextStreamId r.withOrigin.openHttp) with hs | hs | ⟨m', hm', hs⟩
    · rw [hs] at h; exact absurd h hnot
    · rw [hs] at h; exact absurd h hnot
    · rw [hs] at h
      have ho : d.outbox ++ [{ m' with number := d.sent }] = d.outbox ++ [m] := by
        rw [← h]
        simp only
        split_ifs <;> rfl
      rw [← hm', ← mem_append_singleton_inj ho]
  · exact absurd h hnot

/-- The call carries the request as the Worker handed it on. -/
theorem Delivery.info_eq {co : Coercion} {l : Loopback} (D : Delivery co l) :
    D.call.info = D.arrival.request.withOrigin.openHttp := by
  obtain ⟨b, f, hb, hf, hv⟩ := (D.run.named.running D.call D.running).2
  obtain rfl := Option.some.inj (D.opened.symm.trans hb)
  rw [decodeFrame_encodeFrame D.message.encoded, frame_of_posted D.posted] at hf
  obtain rfl := Option.some.inj hf
  unfold TunnelDO.opening at hv
  split_ifs at hv
  · rw [validateOpenFrame_other (n := D.call.info).1] at hv
    cases hv
  · exact validateOpenFrame_openHttp (VisitorRequest.headersClean_forwardable _) hv

/-! ## The gateway -/

/-- A write that its headers show to come from another origin is refused. -/
theorem handle_crossOrigin {hmac : Hmac} {g : Gateway} {now : ℕ} {random : Bytes} {persisted : Bool}
    {req : Request} {publicOrigin : Text} (hmethod : req.method.isGetOrHead = false)
    (hpublic : req.header PUBLIC_ORIGIN_HEADER = some publicOrigin) (hne : publicOrigin ≠ [])
    (hcross : req.header "sec-fetch-site".toList = some "cross-site".toList ∨
      ∃ origin, req.header "origin".toList = some origin ∧ origin ≠ [] ∧ origin ≠ publicOrigin) :
    (handle hmac g now random persisted req).fetches = false := by
  have hget : req.method.name ≠ "GET".toList := by
    intro h
    unfold Method.isGetOrHead at hmethod
    rw [h] at hmethod
    exact absurd hmethod (by decide)
  have hrefusal : writeRefusal req =
      some (.error 403 "Cross-origin writes are not permitted") := by
    unfold writeRefusal
    rcases hcross with hsite | ⟨origin, horigin, ho, hdiffer⟩
    · simp only [hsite, true_or, if_true]
    · have h1 : req.nonEmpty "origin".toList = some origin := by
        unfold Request.nonEmpty
        rw [horigin, Option.filter_some, if_pos (decide_eq_true ho)]
      have h2 : req.nonEmpty "x-bb-shared-public-origin".toList = some publicOrigin := by
        unfold Request.nonEmpty
        rw [show req.header "x-bb-shared-public-origin".toList = some publicOrigin from hpublic,
          Option.filter_some, if_pos (decide_eq_true hne)]
      simp only [h1, h2, decide_eq_true hdiffer, or_true, if_true]
  unfold handle
  cases requestUrl req.target with
  | none => rfl
  | some url =>
    simp only [hget, and_false, if_false]
    by_cases htoken : url.hasParam "token".toList = true
    · rw [if_pos htoken]
      unfold redeemRequest
      rw [if_pos hget]
      rfl
    · rw [if_neg htoken]
      cases resolve g.sessions g.store now (cookieId (req.header "cookie".toList)) with
      | none => rfl
      | some token =>
        simp only
        unfold admitRequest
        rw [hmethod, hrefusal]
        rfl

/-- **Cross-origin writes.** The gateway reads the public origin and the headers of the visitor, of
a request and of an upgrade; a write from another origin makes it fetch nothing. -/
theorem cross_origin_write_refused (co : Coercion) (l : Loopback) :
    (∀ D : Delivery co l,
      D.request.method.name = D.arrival.method ∧
      D.request.header PUBLIC_ORIGIN_HEADER = some D.arrival.origin ∧
      D.request.header "origin".toList = D.arrival.header "origin".toList ∧
      (D.request.method.isGetOrHead = false → D.arrival.CrossOrigin →
        ∀ (hmac : Hmac) (g : Gateway) (now : ℕ) (random : Bytes) (persisted : Bool),
          (handle hmac g now random persisted D.request).fetches = false)) ∧
    ∀ (a : Arrival) (d : TunnelDO) (link : TunnelLink) (m : Posted) (info : OpenWs),
      (d.workerFetch link a.request).outbox = d.outbox ++ [m] →
      openingOf m.bytes .openWs = some (.ws info) →
        (upgradeHeaders l info).lookup PUBLIC_ORIGIN_HEADER = some a.origin ∧
        (upgradeHeaders l info).lookup "origin".toList = a.header "origin".toList := by
  refine ⟨fun D => ?_, fun a d link m info hposted hopening => ?_⟩
  · have hseen : ∀ {k : Text}, Passes k → D.request.header k =
        if k = PUBLIC_ORIGIN_HEADER then some D.arrival.origin else D.arrival.header k := by
      intro k hk
      unfold Request.header
      rw [D.made.headers, D.info_eq]
      exact lookup_delivered l D.arrival D.call.body hk
    have hpublic := hseen passes_publicOrigin
    have horigin := hseen passes_origin
    have hsite := hseen passes_fetchSite
    rw [if_pos rfl] at hpublic
    rw [if_neg (by decide)] at horigin hsite
    refine ⟨by rw [D.made.method, D.info_eq]; rfl, hpublic, horigin,
      fun hmethod hcross hmac g now random persisted => ?_⟩
    refine handle_crossOrigin hmethod hpublic D.arrival.origin_ne ?_
    rw [hsite, horigin]
    exact hcross
  · unfold openingOf at hopening
    rw [decodeFrame_encodeFrame m.encoded, frame_of_posted hposted] at hopening
    unfold TunnelDO.opening at hopening
    rw [Option.bind_some] at hopening
    split_ifs at hopening
    · have hheaders := validateOpenFrame_openWs
        (VisitorRequest.headersClean_forwardable a.request.withOrigin) hopening
      have hlookup : ∀ {k : Text}, Passes k → (upgradeHeaders l info).lookup k =
          if k = PUBLIC_ORIGIN_HEADER then some a.origin else a.header k := by
        intro k hk
        unfold upgradeHeaders
        rw [hheaders]
        exact lookup_delivered l a none hk
      have hpublic := hlookup passes_publicOrigin
      have horigin := hlookup passes_origin
      rw [if_pos rfl] at hpublic
      rw [if_neg (by decide)] at horigin
      exact ⟨hpublic, horigin⟩
    · rw [validateOpenFrame_other (m := info).2] at hopening
      cases hopening

/-! ## A message to a thread -/

theorem onMessage_encoded {co : Coercion} {io : Io} {s t : TunnelSession} {f : Frame} {b : Bytes}
    (hb : encodeFrame f = some b) (hlen : b.length ≤ MAX_CHUNK_BYTES + 6)
    (ht : TunnelSession.onFrame co io { s with received := s.received + 1 } s.received f.raw =
      some t) : s.onMessage co io b = t := by
  unfold TunnelSession.onMessage TunnelSession.process
  rw [if_neg (not_lt.mpr hlen), decodeFrame_encodeFrame hb]
  simp only [ht]

/-- An opening within the limits passes the session's check. -/
theorem validateOpenFrame_eq {i : ℕ} {info : OpenHttp} (hc : HeadersClean info.headers)
    (hok : info.Ok) :
    validateOpenFrame .openHttp (Frame.openHttp i info).raw = some (.http info) := by
  obtain ⟨o, ho⟩ := Option.isSome_iff_exists.mp ((validOpenHttp_iff i hc).mpr hok)
  have ho' : validOpenHttp (Frame.openHttp i info).raw = some o := ho
  unfold validOpenHttp at ho'
  obtain ⟨path, _, ho'⟩ := Option.bind_eq_some_iff.mp ho'
  obtain ⟨headers, _, ho'⟩ := Option.bind_eq_some_iff.mp ho'
  obtain ⟨method, _, ho'⟩ := Option.bind_eq_some_iff.mp ho'
  obtain ⟨hasBody, _, ho'⟩ := Option.bind_eq_some_iff.mp ho'
  obtain rfl := Option.some.inj ho'
  rw [ho, validateOpenFrame_openHttp hc ho]

/-- What a session does with a frame of the relay. -/
theorem onFrame_raw {co : Coercion} {io : Io} {s : TunnelSession} {uid : ℕ} {f : Frame}
    (hs : s.disposed = false) (hi : f.streamId ≤ 0xffffffff) :
    TunnelSession.onFrame co io s uid f.raw =
      match f.frameType with
      | .openHttp => TunnelSession.onOpen co io s f.streamId uid .openHttp f.raw
      | .openWs => TunnelSession.onOpen co io s f.streamId uid .openWs f.raw
      | .bodyChunk => TunnelSession.onBodyChunk co io s f.streamId f.raw.data
      | .bodyEnd => TunnelSession.onBodyEnd co io s f.streamId
      | .wsData => TunnelSession.onWsData co io s f.streamId f.raw
      | .closeStream => some (TunnelSession.onCloseStream co s f.streamId f.raw)
      | .respHead => some s
      | .wsOpenAck => some s := by
  unfold TunnelSession.onFrame
  rw [hs, Frame.id_raw hi, Frame.frameType_raw]
  cases f.frameType <;> rfl

/-- The first message of a write. -/
theorem onMessage_opening (co : Coercion) (io : Io) {info : OpenHttp} {m : Bytes}
    (hc : HeadersClean info.headers) (hok : info.Ok) (hbody : info.hasBody = true)
    (htarget : info.target = none) (hm : encodeFrame (.openHttp 1 info) = some m) :
    TunnelSession.new.onMessage co io m = { TunnelSession.new with
      received := 1
      httpStreams := OrderedMap.set .empty 1 ⟨0, info, [], .int 0, false, true⟩ } := by
  refine onMessage_encoded hm (length_openHttp_le hok htarget hm) ?_
  rw [onFrame_raw (f := .openHttp 1 info) rfl (show 1 ≤ 0xffffffff by decide)]
  have hvalid := validateOpenFrame_eq (i := 1) hc hok
  obtain ⟨method, path, headers, hasBody, target⟩ := info
  obtain rfl : hasBody = true := hbody
  obtain rfl : target = none := htarget
  show TunnelSession.onOpen co io _ 1 0 .openHttp _ = _
  unfold TunnelSession.onOpen
  rw [hvalid]
  rfl

/-- A chunk for the one stream of a session. -/
theorem onMessage_chunk (co : Coercion) (io : Io) {info : OpenHttp} {data chunk : Bytes}
    (hsize : data.length ≤ MAX_CHUNK_BYTES)
    (hchunk : encodeFrame (.bodyChunk 1 data) = some chunk) :
    TunnelSession.onMessage co io { TunnelSession.new with
      received := 1
      httpStreams := OrderedMap.set .empty 1 ⟨0, info, [], .int 0, false, true⟩ } chunk =
    { TunnelSession.new with
      received := 2
      bufferedBytes := .int (0 + data.length)
      httpStreams :=
        OrderedMap.set .empty 1 ⟨0, info, [data], .int (0 + data.length), false, true⟩ } := by
  have hlen : chunk.length ≤ MAX_CHUNK_BYTES + 6 := by
    rw [encodeFrame, if_neg (by omega)] at hchunk
    rw [length_withHeader hchunk]
    omega
  refine onMessage_encoded hchunk hlen ?_
  rw [onFrame_raw (f := .bodyChunk 1 data) rfl (show 1 ≤ 0xffffffff by decide)]
  have h1 : ¬ MAX_CHUNK_BYTES < data.length := by omega
  have h2 : ¬ MAX_REQUEST_BYTES < data.length := by
    unfold MAX_REQUEST_BYTES
    unfold MAX_CHUNK_BYTES at hsize
    omega
  have h3 : ¬ MAX_BUFFERED_BYTES < data.length := by
    unfold MAX_BUFFERED_BYTES
    unfold MAX_CHUNK_BYTES at hsize
    omega
  show TunnelSession.onBodyChunk co io _ 1 (.bytes data) = _
  unfold TunnelSession.onBodyChunk TunnelSession.bodyOverLimit
  simp only [OrderedMap.get_set_self]
  simp [Coercion.byteLength, Coercion.gt, Coercion.add, Coercion.bufferFrom, h1, h2, h3,
    MAX_BODY_CHUNKS, OrderedMap.set_set, TunnelSession.new]

/-- The session on the three messages of a write: its opening, its body and the end of it. -/
theorem run_write (co : Coercion) (io : Io) {info : OpenHttp} {m data chunk last : Bytes}
    (hc : HeadersClean info.headers) (hok : info.Ok) (hbody : info.hasBody = true)
    (htarget : info.target = none) (hm : encodeFrame (.openHttp 1 info) = some m)
    (hsize : data.length ≤ MAX_CHUNK_BYTES)
    (hchunk : encodeFrame (.bodyChunk 1 data) = some chunk)
    (hlast : encodeFrame (.bodyEnd 1) = some last) :
    ∃ s, TunnelSession.Run co [m, chunk, last] s ∧
      (⟨0, 1, info, some data, false, false⟩ : Running) ∈ s.running := by
  have hnew : TunnelSession.Run co [] .new := .new
  have hrun := ((hnew.message io m).message io chunk).message io last
  rw [onMessage_opening co io hc hok hbody htarget hm, onMessage_chunk co io hsize hchunk] at hrun
  refine ⟨_, hrun, ?_⟩
  have hlen : last.length ≤ MAX_CHUNK_BYTES + 6 := by
    rw [length_withHeader hlast]
    unfold MAX_CHUNK_BYTES
    decide
  obtain ⟨method, path, headers, hasBody, target⟩ := info
  obtain rfl : hasBody = true := hbody
  obtain rfl : target = none := htarget
  rw [onMessage_encoded hlast hlen
    (by rw [onFrame_raw (f := .bodyEnd 1) rfl (show 1 ≤ 0xffffffff by decide)]; rfl)]
  show _ ∈ ([_] : List Running)
  rw [List.mem_singleton, Running.mk.injEq]
  exact ⟨rfl, rfl, rfl, by simp, rfl, rfl⟩

def siteOrigin : Text := "https://bb.example".toList

def messageBody : Bytes := utf8Encode (sendBody ["hi".toList] "auto".toList)

def writeUrl : Url where
  pathname := "/api/v1/threads/t/send".toList
  query := none
  rooted := ⟨_, rfl⟩
  path_clean := by decide
  query_clean := noQuery_clean

/-- A message to a thread, with these headers. -/
def writeArrival (raw : List HeaderPair) (h : ∀ p ∈ raw, HeaderText p.1 ∧ HeaderText p.2) :
    Arrival where
  method := "POST".toList
  url := writeUrl
  origin := siteOrigin
  raw := raw
  body := some ([messageBody], true)
  origin_ne := by decide
  origin_clean := by unfold HeaderText; decide
  raw_clean := h

def guestLoopback : Loopback :=
  { host := "127.0.0.1:4100".toList, publicOrigin := siteOrigin,
    origin := "http://127.0.0.1:4100".toList }

/-- What the gateway is given for a message with these forwarded headers. -/
def writeRequest (headers : List HeaderPair) : Request :=
  { method := .post
    target := "/api/v1/threads/t/send".toList
    headers := nodeHeaders guestLoopback.host
      (frameBodyHeaders (guestLoopback.headers headers) (some messageBody))
    body := [messageBody]
    ended := true }

/-- A message to a thread goes all the way. -/
theorem exists_delivery (co : Coercion) (io : Io) {a : Arrival} {raw : List HeaderPair}
    {h : ∀ p ∈ raw, HeaderText p.1 ∧ HeaderText p.2} (ha : a = writeArrival raw h)
    (hok : a.request.withOrigin.openHttp.Ok) (hupgrade : a.request.withOrigin.isUpgrade = false) :
    ∃ D : Delivery co guestLoopback, D.arrival = a ∧
      D.request = writeRequest (forwardableHeaders a.request.withOrigin.headers) := by
  have hmessage : ∃ m : Posted, m.frame = .openHttp 1 a.request.withOrigin.openHttp ∧
      (TunnelDO.new.workerFetch connected a.request).outbox = [m] := by
    have hpath : a.request.url.pathname = "/api/v1/threads/t/send".toList := by rw [ha]; rfl
    unfold TunnelDO.workerFetch
    rw [hpath, if_neg (by decide), if_neg (by decide)]
    rcases TunnelDO.outbox_proxyGuestRequest .new a.request.withOrigin with ⟨hn, _⟩ | ⟨m, hm, ho⟩
    · exact absurd (TunnelDO.encode_opening_eq_none.mp hn) (by decide)
    · refine ⟨m, ?_, ho⟩
      rw [hm, TunnelDO.opening, hupgrade]
      rfl
  obtain ⟨m, hm, ho⟩ := hmessage
  have hsize : messageBody.length ≤ MAX_CHUNK_BYTES := by decide +kernel
  have hchunk : ∃ b, encodeFrame (.bodyChunk 1 messageBody) = some b := by
    rw [encodeFrame, if_neg (not_lt.mpr hsize)]
    exact ⟨_, rfl⟩
  obtain ⟨chunk, hchunk⟩ := hchunk
  obtain ⟨s, hrun, hcall⟩ := run_write co io
    (VisitorRequest.headersClean_forwardable a.request.withOrigin) hok (by rw [ha]; rfl) rfl
    (by rw [← hm]; exact m.encoded) hsize hchunk rfl
  let D : Delivery co guestLoopback :=
    { arrival := a
      relay := .new
      link := connected
      message := m
      posted := ho
      received := _
      session := s
      run := hrun
      call := _
      running := hcall
      opened := rfl
      request := writeRequest (forwardableHeaders a.request.withOrigin.headers)
      made :=
        { method := by rw [ha]; rfl
          target := by
            rw [ha]
            show "/api/v1/threads/t/send".toList =
              (Url.ofTarget (writeUrl.pathname ++ writeUrl.search)).pathname ++
                (Url.ofTarget (writeUrl.pathname ++ writeUrl.search)).search
            decide +kernel
          headers := rfl
          body := by simp [writeRequest]
          ended := fun _ => by simp [writeRequest] } }
  exact ⟨D, rfl, rfl⟩

/-- A session cookie, a content type and a forged public origin in capitals, with more. -/
def forgedHeaders (more : List HeaderPair) : List HeaderPair :=
  more ++ [("X-BB-SHARED-PUBLIC-ORIGIN".toList, "https://x".toList),
    ("Content-Type".toList, "application/json".toList), ("Cookie".toList, guestCookie.2)]

instance : DecidablePred HeaderText := fun t => by unfold HeaderText; infer_instance

def crossSiteHeaders : List HeaderPair :=
  forgedHeaders
    [("Origin".toList, "https://x".toList), ("Sec-Fetch-Site".toList, "cross-site".toList)]

def emptyOriginHeaders : List HeaderPair := forgedHeaders [("Origin".toList, [])]

def upgradeHeadersOf : List HeaderPair := forgedHeaders [("Upgrade".toList, "websocket".toList)]

def crossSiteWrite : Arrival := writeArrival crossSiteHeaders (by decide +kernel)

def emptyOriginWrite : Arrival := writeArrival emptyOriginHeaders (by decide +kernel)

def forgedUpgrade : Arrival := writeArrival upgradeHeadersOf (by decide +kernel)

instance (m : OpenHttp) : Decidable m.Ok := by unfold OpenHttp.Ok; infer_instance

instance (m : OpenWs) : Decidable m.Ok := by unfold OpenWs.Ok; infer_instance

theorem cross_origin_write_refused_forged :
    (∃ D : Delivery TunnelSession.emptyArrays guestLoopback, D.arrival = crossSiteWrite ∧
      D.request.header PUBLIC_ORIGIN_HEADER = some siteOrigin ∧
      (handle .plain writerGateway 0 [] true D.request).fetches = false) ∧
    ∃ (m : Posted) (info : OpenWs),
      (TunnelDO.new.workerFetch connected forgedUpgrade.request).outbox = [] ++ [m] ∧
      openingOf m.bytes .openWs = some (.ws info) ∧
      (upgradeHeaders guestLoopback info).lookup PUBLIC_ORIGIN_HEADER = some siteOrigin := by
  have hmain := cross_origin_write_refused TunnelSession.emptyArrays guestLoopback
  constructor
  · obtain ⟨D, ha, hr⟩ := exists_delivery TunnelSession.emptyArrays TunnelSession.calm
      (show crossSiteWrite = writeArrival crossSiteHeaders _ from rfl) (by decide +kernel)
      (by decide +kernel)
    obtain ⟨-, hpublic, -, hrefused⟩ := hmain.1 D
    rw [ha] at hpublic hrefused
    exact ⟨D, ha, hpublic, hrefused (by rw [hr]; decide) (.inl (by decide +kernel))
      .plain writerGateway 0 [] true⟩
  · rcases TunnelDO.outbox_proxyGuestRequest .new forgedUpgrade.request.withOrigin with
      ⟨hn, _⟩ | ⟨m, hm, ho⟩
    · exact absurd (TunnelDO.encode_opening_eq_none.mp hn) (by decide)
    have hup : forgedUpgrade.request.withOrigin.isUpgrade = true := by decide +kernel
    rw [TunnelDO.opening, if_pos hup] at hm
    have hvalid := (validOpenWs_iff 1 (m := forgedUpgrade.request.withOrigin.openWs)
      (VisitorRequest.headersClean_forwardable _)).mpr (by decide +kernel)
    obtain ⟨o, hopen⟩ := Option.isSome_iff_exists.mp hvalid
    have hopening : openingOf m.bytes .openWs = some o := by
      unfold openingOf
      rw [decodeFrame_encodeFrame m.encoded, hm]
      exact hopen
    obtain ⟨info, rfl⟩ := ws_of_validateOpenFrame hopen
    exact ⟨m, info, ho, hopening, (hmain.2 forgedUpgrade .new connected m info ho hopening).1⟩

/-- A write whose `Origin` is there but empty passes for one without an `Origin`. -/
theorem not_cross_origin_write_refused :
    ¬ ∀ (co : Coercion) (l : Loopback) (D : Delivery co l),
      D.request.method.isGetOrHead = false →
      (∃ origin, D.arrival.header "origin".toList = some origin ∧ origin ≠ D.arrival.origin) →
        ∀ (hmac : Hmac) (g : Gateway) (now : ℕ) (random : Bytes) (persisted : Bool),
          (handle hmac g now random persisted D.request).fetches = false := by
  intro h
  obtain ⟨D, ha, hr⟩ := exists_delivery TunnelSession.emptyArrays TunnelSession.calm
    (show emptyOriginWrite = writeArrival emptyOriginHeaders _ from rfl) (by decide +kernel)
    (by decide +kernel)
  have hfetch : (handle .plain writerGateway 0 [] true
      (writeRequest (forwardableHeaders emptyOriginWrite.request.withOrigin.headers))).fetches =
        true := by decide +kernel
  rw [← hr,
    h _ _ D (by rw [hr]; decide) ⟨[], by rw [ha]; decide +kernel, by rw [ha]; decide⟩] at hfetch
  cases hfetch

end BbShared
