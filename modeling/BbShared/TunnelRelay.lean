import BbShared.Machine
import BbShared.TunnelDO

/-!
# The relay and its tunnels

`worker/src/tunnel/tunnel-do.ts` with the tunnel sockets that it has accepted: dials that replace one
another, sockets that die, and the frames and close events of any of them.  There is no hibernation.

`tunnels` are the accepted sockets, oldest first, and whether they are OPEN.  Once a socket is closed
or its close event is delivered, it is not.  A client names streams only that were opened over its
own tunnel.  `openedOver`, `requests` and `canceled` record what the runs are judged by; the program
does not read them.
-/

namespace BbShared

open Js

/-! ## Dials -/

/-- What `acceptTunnel` reads of a request. -/
structure DialRequest where
  upgrade : Option Text
  authorization : Option Text
  version : Option Text

def bearerFrom : Option Text → Option Text
  | none => none
  | some header =>
    match header.dropPrefix? "Bearer ".toList with
    | none => none
    | some rest => if trim rest = [] then none else some (trim rest)

/-- `timingSafeEqual`: an empty secret is never equal. -/
def timingSafeEqual (a b : Text) : Bool := a ≠ [] && a = b

/-- The status of a dial that is refused. -/
def dialRefusal (secret : Text) (r : DialRequest) : Option ℕ :=
  if r.upgrade.map lower ≠ some "websocket".toList then some 426 else
    match bearerFrom r.authorization with
    | none => some 401
    | some presented =>
      if timingSafeEqual secret presented = false then some 401
      else if r.version ≠ some ['1'] then some 426
      else none

/-! ## What a visitor sees of its request -/

/-- A response body that is `detached` has lost its writer and is not ended any more. -/
inductive RequestView where
  | waiting
  | bodiless
  | failed
  | streaming
  | finished
  | aborted
  | detached
  deriving DecidableEq

/-- A request is answered once, and a body is ended by the writer it was made with. -/
def RequestView.next : RequestView → VisitorAction → RequestView
  | .waiting, .respond _ _ hasBody => if hasBody then .streaming else .bodiless
  | .waiting, .fail _ _ => .failed
  | .streaming, .respond _ _ hasBody => if hasBody then .detached else .streaming
  | .streaming, .fail _ _ => .detached
  | .streaming, .finish => .finished
  | .streaming, .abort _ => .aborted
  | v, _ => v

/-- The request that the opening `n` began, after these effects. -/
def view (effects : List VisitorEffect) (n : ℕ) : RequestView :=
  effects.foldl (fun v e => if e.opening = some n then v.next e.action else v) .waiting

theorem view_concat (effects : List VisitorEffect) (e : VisitorEffect) (n : ℕ) :
    view (effects ++ [e]) n =
      if e.opening = some n then (view effects n).next e.action else view effects n := by
  unfold view
  rw [List.foldl_append]
  rfl

/-! ## State -/

structure TunnelRelay where
  relay : TunnelDO
  tunnels : List Bool
  openedOver : ℕ → Option ℕ
  /-- The openings of the requests that wait or have waited for their answer. -/
  requests : List ℕ
  /-- The openings of the requests whose visitor has left the response body. -/
  canceled : List ℕ

inductive RelayEvent where
  | dial (r : DialRequest)
  /-- A socket dies; its close event may come later. -/
  | lose (tunnel : ℕ)
  | tunnelFrame (tunnel source : ℕ) (frame : Frame)
  | tunnelClose (tunnel : ℕ)
  | fetch (r : VisitorRequest) (sends : Bool)
  | pumpChunk (streamId : ℕ) (value : Bytes) (sends : Bool)
  | pumpEnd (streamId : ℕ) (sends : Bool)
  | pumpError (streamId : ℕ) (sends : Bool)
  /-- A visitor's socket is named by its opening. -/
  | visitorMessage (opening : ℕ) (isBinary : Bool) (data : Bytes) (sends : Bool)
  | visitorClose (opening : ℕ) (code : ℕ) (reason : Text) (sends : Bool)
  /-- A closed socket is listed no more. -/
  | visitorGone (opening : ℕ)
  | headTimeout (streamId : ℕ)
  /-- The visitor leaves the response body. -/
  | cancel (streamId : ℕ) (sends : Bool)

/-- A closed socket leaves the list of the runtime. -/
def TunnelDO.forgetVisitor (d : TunnelDO) (opening : ℕ) : TunnelDO :=
  { d with visitors := d.visitors.filter fun v => !(decide (v.opening = opening) && v.closing) }

namespace TunnelRelay

/-- Before the first dial. -/
def new : TunnelRelay := ⟨.new, [], fun _ => none, [], []⟩

/-- `activeTunnelSocket`: the loop starts at the last socket. -/
def activeTunnelSocket (tunnels : List Bool) : Option ℕ :=
  (List.range tunnels.length).reverse.find? fun i => tunnels.getD i false

def link (s : TunnelRelay) (sends : Bool) : TunnelLink :=
  ⟨(activeTunnelSocket s.tunnels).isSome, sends⟩

/-- A visitor's socket. -/
def visitor (s : TunnelRelay) (opening : ℕ) : Option VisitorSocket :=
  s.relay.visitors.find? fun v => v.opening = opening

/-- `acceptTunnel`, for a dial that is not refused. -/
def acceptTunnel (s : TunnelRelay) : TunnelRelay :=
  { s with
    relay := s.relay.abandonStreams "tunnel reconnected mid-request".toList
      "tunnel reconnected".toList
    tunnels := s.tunnels.map (fun _ => false) ++ [true] }

/-- A visitor's request, through the Worker. -/
def fetch (s : TunnelRelay) (r : VisitorRequest) (sends : Bool) : TunnelRelay :=
  let result := s.relay.proxyGuestRequest (s.link sends) r.withOrigin
  { s with
    relay := result.1
    openedOver := fun id => if id = s.relay.nextStreamId then activeTunnelSocket s.tunnels
      else s.openedOver id
    requests := if result.2 = .waiting then s.requests ++ [s.relay.sent] else s.requests }

/-- The tunnel's part of `webSocketClose`. -/
def tunnelClose (s : TunnelRelay) (tunnel : ℕ) : TunnelRelay :=
  let tunnels := s.tunnels.set tunnel false
  { s with
    tunnels
    relay := if (activeTunnelSocket tunnels).isSome then s.relay else s.relay.tunnelClosed }

variable (secret : Text) (relayable : TunnelDO.Relayable)

/-- `none` where the event cannot happen. -/
def step (s : TunnelRelay) : RelayEvent → Option TunnelRelay
  | .dial r => some (if (dialRefusal secret r).isSome then s else s.acceptTunnel)
  | .lose tunnel => some { s with tunnels := s.tunnels.set tunnel false }
  | .tunnelFrame tunnel source frame =>
    if s.openedOver frame.streamId = some tunnel then
      some { s with relay := s.relay.onTunnelFrame relayable source frame }
    else none
  | .tunnelClose tunnel => if tunnel < s.tunnels.length then some (s.tunnelClose tunnel) else none
  | .fetch r sends =>
    some (if r.url.pathname = RELAY_IDENTITY_PATH ∨ r.url.pathname = TUNNEL_PATH then s
      else s.fetch r sends)
  | .pumpChunk streamId value sends =>
    some { s with relay := s.relay.pumpChunk (s.link sends) streamId value }
  | .pumpEnd streamId sends => some { s with relay := s.relay.pumpEnd (s.link sends) streamId }
  | .pumpError streamId sends => some { s with relay := s.relay.pumpError (s.link sends) streamId }
  | .visitorMessage opening isBinary data sends =>
    (s.visitor opening).map fun v =>
      { s with relay := s.relay.visitorMessage (s.link sends) v isBinary data }
  | .visitorClose opening code reason sends =>
    (s.visitor opening).map fun v =>
      { s with relay := s.relay.visitorClose (s.link sends) v code reason }
  | .visitorGone opening => some { s with relay := s.relay.forgetVisitor opening }
  | .headTimeout streamId =>
    (s.relay.headTimeout streamId).map fun relay => { s with relay }
  | .cancel streamId sends =>
    match s.relay.pendingHttp.get streamId with
    | some entry =>
      if entry.writer then
        some { s with
          relay := s.relay.cancelHttpStream (s.link sends) streamId
          canceled := s.canceled ++ entry.opening.toList }
      else none
    | none => none

end TunnelRelay

end BbShared
