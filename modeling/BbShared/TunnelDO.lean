import BbShared.Frame
import BbShared.Js.OrderedMap
import BbShared.Js.Url

/-!
# The relay

`worker/src/worker.ts` and `worker/src/tunnel/tunnel-do.ts`: the Worker's routes and the Durable
Object that carries visitor requests and WebSockets over the one tunnel socket.

The object's instance memory is `pendingHttp`, `nextStreamId` and the request bodies being pumped;
the visitor sockets and their attachments outlive it.  `sent` counts the messages given to the
tunnel: it numbers the opening that a visitor's stream began with, and the program does not read it.
What reaches visitors is kept in `effects`.
-/

namespace BbShared

open Js

/-! ## Requests -/

/-- A text that a header can hold. -/
def HeaderText (t : Text) : Prop := ∀ c ∈ t, isLineBreak c = false

/-- A request of a visitor.  Its headers are in the order `forEach` visits them, and free of line
breaks, as in every `Headers` object. -/
structure VisitorRequest where
  method : Text
  url : Url
  origin : Text
  headers : List HeaderPair
  /-- The chunks of the body and whether it ends without an error, for a request that has one. -/
  body : Option (List Bytes × Bool)
  origin_clean : HeaderText origin
  headers_clean : ∀ p ∈ headers, HeaderText p.1 ∧ HeaderText p.2

theorem noHeaders_clean :
    ∀ p ∈ ([] : List HeaderPair), HeaderText p.1 ∧ HeaderText p.2 := by simp

def RELAY_IDENTITY_PATH : Text := "/__bb_shared/relay".toList

def TUNNEL_PATH : Text := "/__tunnel".toList

def PUBLIC_ORIGIN_HEADER : Text := "x-bb-shared-public-origin".toList

def HOP_HEADERS : List Text :=
  ["connection", "keep-alive", "transfer-encoding", "upgrade", "expect", "host",
    "sec-websocket-key", "sec-websocket-version", "sec-websocket-extensions"].map String.toList

/-- `headers.set`: names stay in order. -/
def setHeader (headers : List HeaderPair) (name value : Text) : List HeaderPair :=
  let others := headers.filter fun p => p.1 ≠ name
  others.takeWhile (fun p => p.1 < name) ++ (name, value) ::
    others.dropWhile fun p => p.1 < name

theorem mem_setHeader {headers : List HeaderPair} {name value : Text} {p : HeaderPair}
    (h : p ∈ setHeader headers name value) : p = (name, value) ∨ p ∈ headers := by
  unfold setHeader at h
  rcases List.mem_append.mp h with h | h
  · exact .inr (List.mem_of_mem_filter (List.takeWhile_subset _ h))
  · rcases List.mem_cons.mp h with h | h
    · exact .inl h
    · exact .inr (List.mem_of_mem_filter (List.dropWhile_subset _ h))

theorem headerText_publicOrigin : HeaderText PUBLIC_ORIGIN_HEADER := by
  unfold HeaderText PUBLIC_ORIGIN_HEADER
  decide

def isHopHeader (p : HeaderPair) : Bool := lower p.1 ∈ HOP_HEADERS

def forwardableHeaders (headers : List HeaderPair) : List HeaderPair :=
  headers.filter fun p => !isHopHeader p

namespace VisitorRequest

def header (r : VisitorRequest) (name : Text) : Option Text := r.headers.lookup name

/-- The request that the Worker hands to the Durable Object. -/
def withOrigin (r : VisitorRequest) : VisitorRequest :=
  { r with
    headers := setHeader r.headers PUBLIC_ORIGIN_HEADER r.origin
    headers_clean := fun p hp => by
      rcases mem_setHeader hp with rfl | hp
      · exact ⟨headerText_publicOrigin, r.origin_clean⟩
      · exact r.headers_clean p hp }

def isUpgrade (r : VisitorRequest) : Bool :=
  (r.header "upgrade".toList).map lower = some "websocket".toList

def path (r : VisitorRequest) : Text := r.url.pathname ++ r.url.search

/-- The offered subprotocols. -/
def protocols (r : VisitorRequest) : List Text :=
  match r.header "sec-websocket-protocol".toList with
  | some v => ((v.splitOnP fun c => c == ',').map trim).filter fun p => p ≠ []
  | none => []

def openHttp (r : VisitorRequest) : OpenHttp :=
  { method := r.method, path := r.path, headers := forwardableHeaders r.headers,
    hasBody := r.body.isSome, target := none }

def openWs (r : VisitorRequest) : OpenWs :=
  { path := r.path, headers := forwardableHeaders r.headers, protocols := r.protocols,
    target := none }

end VisitorRequest

/-! ## State -/

/-- An encoded frame. -/
structure Message where
  frame : Frame
  bytes : Bytes
  encoded : encodeFrame frame = some bytes

/-- A message to the session, with its number. -/
structure Posted extends Message where
  number : ℕ

/-- A request without its answer; `opening` is there once the opening is sent. -/
structure PendingHttp where
  opening : Option ℕ
  writer : Bool
  /-- The timer of the response head is set. -/
  timeout : Bool

/-- A visitor's WebSocket, with the stream id of its attachment. -/
structure VisitorSocket where
  opening : ℕ
  streamId : ℕ
  closing : Bool

/-- What a visitor gets. -/
inductive VisitorAction where
  | respond (status : ℕ) (headers : List HeaderPair) (hasBody : Bool)
  | write (data : Bytes)
  | finish
  | fail (status : ℕ) (message : Text)
  | abort (message : Text)
  | message (isBinary : Bool) (data : Bytes)
  | close (code : ℕ) (reason : Text)

/-- An action on the visitor whose stream began with `opening`; `source` is the opening that the
frame behind it answers. -/
structure VisitorEffect where
  opening : Option ℕ
  source : Option ℕ
  action : VisitorAction

structure TunnelDO where
  pendingHttp : OrderedMap ℕ PendingHttp
  nextStreamId : ℕ
  visitors : List VisitorSocket
  /-- The streams whose request body is being pumped. -/
  pumps : List ℕ
  sent : ℕ
  /-- The messages on their way to the session, oldest first. -/
  outbox : List Posted
  effects : List VisitorEffect

/-- The tunnel socket during a step: there is an open one, and `send` does not throw. -/
structure TunnelLink where
  active : Bool
  sends : Bool

/-- What a visitor is answered at once. -/
inductive Answer where
  | offline
  | threw
  | switching (protocol : Option Text)
  | waiting
  deriving DecidableEq

namespace TunnelDO

def new : TunnelDO :=
  { pendingHttp := .empty, nextStreamId := 1, visitors := [], pumps := [], sent := 0, outbox := [],
    effects := [] }

/-- The largest stream id of the surviving sockets. -/
def maxSeen (visitors : List VisitorSocket) : ℕ := visitors.foldl (fun m v => max m v.streamId) 0

/-- The constructor, on the sockets that survive. -/
def wake (d : TunnelDO) : TunnelDO :=
  { d with pendingHttp := .empty, nextStreamId := maxSeen d.visitors + 1, pumps := [] }

/-- `trySend` of an encoded frame. -/
def post (d : TunnelDO) (m : Message) : TunnelDO :=
  { d with sent := d.sent + 1, outbox := d.outbox ++ [{ m with number := d.sent }] }

/-- `trySend(tunnel, encodeFrame(frame))`: whether it was sent, or nothing where encoding throws. -/
def trySend (d : TunnelDO) (link : TunnelLink) (frame : Frame) : Option (Bool × TunnelDO) :=
  match h : encodeFrame frame with
  | some bytes => some (if link.sends then (true, d.post ⟨frame, bytes, h⟩) else (false, d))
  | none => none

/-- Encoding throws, the tunnel does, or the frame is sent. -/
theorem trySend_cases (d : TunnelDO) (link : TunnelLink) (frame : Frame) :
    d.trySend link frame = none ∨ d.trySend link frame = some (false, d) ∨
      ∃ m : Message, m.frame = frame ∧ d.trySend link frame = some (true, d.post m) := by
  unfold trySend
  split
  · rename_i bytes hb
    by_cases hl : link.sends = true
    · rw [if_pos hl]
      exact .inr (.inr ⟨⟨frame, bytes, hb⟩, rfl, rfl⟩)
    · rw [if_neg hl]
      exact .inr (.inl rfl)
  · exact .inl rfl

def setEntry (d : TunnelDO) (streamId : ℕ) (entry : PendingHttp) : TunnelDO :=
  { d with pendingHttp := d.pendingHttp.set streamId entry }

def effect (d : TunnelDO) (opening : Option ℕ) (source : Option ℕ) (action : VisitorAction) :
    TunnelDO :=
  { d with effects := d.effects ++ [⟨opening, source, action⟩] }

/-! ## Visitors -/

def openVisitorWebSocket (d : TunnelDO) (link : TunnelLink) (r : VisitorRequest) :
    TunnelDO × Answer :=
  let streamId := d.nextStreamId
  let d := { d with nextStreamId := d.nextStreamId + 1 }
  match d.trySend link (.openWs streamId r.openWs) with
  | none => (d, .threw)
  | some (false, d) => (d, .offline)
  | some (true, t) =>
    ({ t with visitors := t.visitors ++ [{ opening := d.sent, streamId, closing := false }] },
      .switching r.protocols.head?)

def proxyHttp (d : TunnelDO) (link : TunnelLink) (r : VisitorRequest) : TunnelDO × Answer :=
  let streamId := d.nextStreamId
  let entry : PendingHttp := { opening := none, writer := false, timeout := true }
  let d := { d with
    nextStreamId := d.nextStreamId + 1
    pendingHttp := d.pendingHttp.set streamId entry }
  match d.trySend link (.openHttp streamId r.openHttp) with
  | none => (d, .threw)
  | some (false, d) => ({ d with pendingHttp := d.pendingHttp.erase streamId }, .offline)
  | some (true, t) =>
    let t := t.setEntry streamId { entry with opening := some d.sent }
    (if r.body.isSome then { t with pumps := t.pumps ++ [streamId] } else t, .waiting)

/-- `proxyGuestRequest`. -/
def proxyGuestRequest (d : TunnelDO) (link : TunnelLink) (r : VisitorRequest) : TunnelDO × Answer :=
  if link.active then
    if r.isUpgrade then openVisitorWebSocket d link r else proxyHttp d link r
  else (d, .offline)

/-- The Worker's `fetch`, for a visitor without the tunnel's secret. -/
def workerFetch (d : TunnelDO) (link : TunnelLink) (r : VisitorRequest) : TunnelDO :=
  if r.url.pathname = RELAY_IDENTITY_PATH then d
  else if r.url.pathname = TUNNEL_PATH then d
  else (proxyGuestRequest d link r.withOrigin).1

/-- A frame whose result is not looked at. -/
def sendOnly (d : TunnelDO) (link : TunnelLink) (frame : Frame) : TunnelDO :=
  match d.trySend link frame with
  | some (_, t) => t
  | none => d

/-- The frames of one chunk of a request body, until one is not sent. -/
def pumpChunk (d : TunnelDO) (link : TunnelLink) (streamId : ℕ) (value : Bytes) : TunnelDO :=
  if link.sends then (chunkBody streamId value).foldl (fun d frame => d.sendOnly link frame) d
  else if value = [] then d
  else { d with pumps := d.pumps.erase streamId }

/-- The end of a request body. -/
def pumpEnd (d : TunnelDO) (link : TunnelLink) (streamId : ℕ) : TunnelDO :=
  { d.sendOnly link (.bodyEnd streamId) with pumps := d.pumps.erase streamId }

/-- A request body that fails. -/
def pumpError (d : TunnelDO) (link : TunnelLink) (streamId : ℕ) : TunnelDO :=
  { d.sendOnly link (.closeStream streamId 1011 "request body error".toList) with
    pumps := d.pumps.erase streamId }

def markClosing (d : TunnelDO) (opening : ℕ) : TunnelDO :=
  { d with visitors := d.visitors.map fun v =>
    if v.opening = opening then { v with closing := true } else v }

/-- `ws.close(code, reason)`, which does nothing on a socket that is closing. -/
def closeVisitor (d : TunnelDO) (v : VisitorSocket) (source : Option ℕ) (code : ℕ)
    (reason : Text) : TunnelDO :=
  if v.closing then d
  else (d.markClosing v.opening).effect (some v.opening) source (.close code reason)

@[simp] theorem outbox_closeVisitor (d : TunnelDO) (v : VisitorSocket) (source : Option ℕ)
    (code : ℕ) (reason : Text) : (d.closeVisitor v source code reason).outbox = d.outbox := by
  unfold closeVisitor
  split_ifs <;> rfl

/-- The visitor's part of `webSocketMessage`: text is sent as UTF-8. -/
def visitorMessage (d : TunnelDO) (link : TunnelLink) (v : VisitorSocket) (isBinary : Bool)
    (data : Bytes) : TunnelDO :=
  if link.active then
    match d.trySend link (.wsData v.streamId isBinary data) with
    | some (true, t) => t
    | some (false, t) => t.closeVisitor v none 1011 "tunnel disconnected".toList
    | none => d
  else d.closeVisitor v none 1011 "tunnel disconnected".toList

/-- `safeCloseCode`. -/
def safeCloseCode (code : ℕ) : ℕ := if code = 1000 ∨ 3000 ≤ code ∧ code ≤ 4999 then code else 1000

/-- The visitor's part of `webSocketClose`. -/
def visitorClose (d : TunnelDO) (link : TunnelLink) (v : VisitorSocket) (code : ℕ) (reason : Text) :
    TunnelDO :=
  let d := if link.active then d.sendOnly link (.closeStream v.streamId (safeCloseCode code) reason)
    else d
  d.closeVisitor v none (safeCloseCode code) reason

/-! ## Streams that fail -/

/-- `failHttpStream`, on account of a frame or of nothing. -/
def failHttpStream (d : TunnelDO) (streamId status : ℕ) (message : Text) (source : Option ℕ) :
    TunnelDO :=
  match d.pendingHttp.get streamId with
  | none => d
  | some entry =>
    { d with pendingHttp := d.pendingHttp.erase streamId }.effect entry.opening source
      (if entry.writer then .abort message else .fail status message)

/-- The timer of a response head fires. -/
def headTimeout (d : TunnelDO) (streamId : ℕ) : Option TunnelDO :=
  match d.pendingHttp.get streamId with
  | some entry =>
    if entry.timeout then
      some (d.failHttpStream streamId 504 "timed out waiting for the tunnel client".toList none)
    else none
  | none => none

/-- `cancelHttpStream`, once the writer of a response body has failed. -/
def cancelHttpStream (d : TunnelDO) (link : TunnelLink) (streamId : ℕ) : TunnelDO :=
  match d.pendingHttp.get streamId with
  | none => d
  | some _ =>
    let d := { d with pendingHttp := d.pendingHttp.erase streamId }
    if link.active then
      d.sendOnly link (.closeStream streamId 1000 "visitor canceled response body".toList)
    else d

/-- `abandonStreams`. -/
def abandonStreams (d : TunnelDO) (httpReason wsReason : Text) : TunnelDO :=
  let d := d.pendingHttp.keys.foldl (fun d id => d.failHttpStream id 502 httpReason none) d
  d.visitors.foldl (fun d v => d.closeVisitor v none 1001 wsReason) d

/-- The tunnel's part of `webSocketClose`, when no tunnel is left. -/
def tunnelClosed (d : TunnelDO) : TunnelDO :=
  d.abandonStreams "tunnel disconnected mid-request".toList "tunnel disconnected".toList

/-! ## Frames of the session -/

/-- `visitorSocket`. -/
def visitorSocket (d : TunnelDO) (streamId : ℕ) : Option VisitorSocket :=
  d.visitors.find? fun v => v.streamId = streamId

/-- Whether a `Response` can be made of a status and headers. -/
abbrev Relayable := ℕ → List HeaderPair → Bool

variable (relayable : Relayable)

def onRespHead (d : TunnelDO) (source streamId status : ℕ) (headers : List HeaderPair) :
    TunnelDO :=
  match d.pendingHttp.get streamId with
  | none => d
  | some entry =>
    let headers := headers.filter fun p => !isHopHeader p
    let answered := { entry with timeout := false }
    if status = 204 ∨ status = 205 ∨ status = 304 then
      (d.setEntry streamId answered).effect entry.opening (some source)
        (.respond status headers false)
    else if relayable status headers then
      (d.setEntry streamId { answered with writer := true }).effect entry.opening (some source)
        (.respond status headers true)
    else
      { d with pendingHttp := d.pendingHttp.erase streamId }.effect entry.opening (some source)
        (.fail 502 ("unrelayable bb response (status ".toList ++
          Nat.toDigits 10 status ++ ")".toList))

def onBodyChunk (d : TunnelDO) (source streamId : ℕ) (data : Bytes) : TunnelDO :=
  match d.pendingHttp.get streamId with
  | some entry => if entry.writer then d.effect entry.opening (some source) (.write data) else d
  | none => d

def onBodyEnd (d : TunnelDO) (source streamId : ℕ) : TunnelDO :=
  match d.pendingHttp.get streamId with
  | some entry =>
    let d := { d with pendingHttp := d.pendingHttp.erase streamId }
    if entry.writer then d.effect entry.opening (some source) .finish else d
  | none => d

def onCloseStream (d : TunnelDO) (source streamId code : ℕ) (reason : Text) : TunnelDO :=
  if d.pendingHttp.has streamId then
    d.failHttpStream streamId 502 ("tunnel client aborted: ".toList ++ reason) (some source)
  else
    match d.visitorSocket streamId with
    | some v => d.closeVisitor v (some source) (safeCloseCode code) reason
    | none => d

def onWsData (d : TunnelDO) (source streamId : ℕ) (isBinary : Bool) (data : Bytes) : TunnelDO :=
  match d.visitorSocket streamId with
  | some v =>
    if v.closing then d else d.effect (some v.opening) (some source) (.message isBinary data)
  | none => d

/-- `onTunnelFrame`, for a frame that answers the opening `source`. -/
def onTunnelFrame (d : TunnelDO) (source : ℕ) : Frame → TunnelDO
  | .respHead streamId status headers => onRespHead relayable d source streamId status headers
  | .bodyChunk streamId data => d.onBodyChunk source streamId data
  | .bodyEnd streamId => d.onBodyEnd source streamId
  | .closeStream streamId code reason => d.onCloseStream source streamId code reason
  | .wsData streamId isBinary data => d.onWsData source streamId isBinary data
  | .wsOpenAck _ _ => d
  | .openHttp _ _ => d
  | .openWs _ _ => d

end TunnelDO

end BbShared
