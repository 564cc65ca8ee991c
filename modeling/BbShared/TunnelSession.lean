import BbShared.Frame
import BbShared.Js.OrderedMap
import BbShared.Js.Url

/-!
# The tunnel session

`tunnel-client/src/session.ts`: the local end of the tunnel.  It takes the relay's frames, runs the
requests they carry against the loopback origin and sends the answers back.

Every function takes the session and gives the next one, or nothing where the source throws.  What
a step reads from its surroundings (the state of the tunnel socket, the amounts buffered in the
origin sockets) is its `Io`.  A stream's identity as an object is its `uid`: the number of the
tunnel message that opened it.  A sent frame carries the `uid` of the opening it answers, which
the program does not read.
-/

namespace BbShared

open Js

def MAX_STREAMS : ℕ := 128

def MAX_REQUEST_BYTES : ℕ := 8 * 1024 * 1024

def MAX_BUFFERED_BYTES : ℕ := 32 * 1024 * 1024

def MAX_WS_BUFFER_BYTES : ℕ := 1024 * 1024

def MAX_BODY_CHUNKS : ℕ := 8192

def MAX_WS_MESSAGES : ℕ := 4096

/-! ## Frame types and stream ids -/

inductive FrameType where
  | openHttp
  | bodyChunk
  | bodyEnd
  | respHead
  | openWs
  | wsOpenAck
  | wsData
  | closeStream
  deriving DecidableEq

def FrameType.all : List FrameType :=
  [openHttp, bodyChunk, bodyEnd, respHead, openWs, wsOpenAck, wsData, closeStream]

def FrameType.name : FrameType → Text
  | openHttp => "open-http".toList
  | bodyChunk => "body-chunk".toList
  | bodyEnd => "body-end".toList
  | respHead => "resp-head".toList
  | openWs => "open-ws".toList
  | wsOpenAck => "ws-open-ack".toList
  | wsData => "ws-data".toList
  | closeStream => "close-stream".toList

/-- The case that `switch (frame.type)` takes, if any. -/
def RawFrame.frameType (f : RawFrame) : Option FrameType :=
  match f.type with
  | .json (.str t) => FrameType.all.find? fun ty => ty.name = t
  | _ => none

/-- The integer value of a field. -/
def Val.integer : Val → Option ℤ
  | .json (.num n) => n.toInt?
  | _ => none

/-- The stream id, where it is an integer of 32 bits. -/
def RawFrame.id (f : RawFrame) : Option ℕ :=
  match f.streamId.integer with
  | some i => if 0 ≤ i ∧ i ≤ 0xffffffff then some i.toNat else none
  | none => none

def Frame.frameType : Frame → FrameType
  | openHttp _ _ => .openHttp
  | bodyChunk _ _ => .bodyChunk
  | bodyEnd _ => .bodyEnd
  | respHead _ _ _ => .respHead
  | openWs _ _ => .openWs
  | wsOpenAck _ _ => .wsOpenAck
  | wsData _ _ _ => .wsData
  | closeStream _ _ _ => .closeStream

@[simp] theorem Frame.frameType_raw (f : Frame) : f.raw.frameType = some f.frameType := by
  cases f <;> rfl

theorem Frame.streamId_raw (f : Frame) : f.raw.streamId = .nat f.streamId := by
  cases f <;> rfl

theorem Frame.id_raw {f : Frame} (h : f.streamId ≤ 0xffffffff) : f.raw.id = some f.streamId := by
  unfold RawFrame.id
  rw [f.streamId_raw, Val.nat, Val.integer, Number.toInt?_ofNat (by omega)]
  simp only
  rw [if_pos ⟨Int.natCast_nonneg _, by omega⟩, Int.toNat_natCast]

/-! ## Metadata of an opening -/

def validPath : Val → Option Text
  | .json (.str p) =>
    if p.head? = some '/' ∧ ¬['/', '/'] <+: p ∧ units p ≤ 16384 ∧
        (p.all fun c => c ≠ '\\' ∧ !isLineBreak c) then some p else none
  | _ => none

/-- A pair of two strings without line breaks. -/
def validHeaderPair : Json → Option HeaderPair
  | .arr [.str name, .str value] =>
    if (name ++ value).all fun c => !isLineBreak c then some (name, value) else none
  | _ => none

/-- The length that the limit on headers counts. -/
def headerUnits (headers : List HeaderPair) : ℕ :=
  (headers.map fun p => units p.1 + units p.2).sum

def validHeaders : Val → Option (List HeaderPair)
  | .json (.arr l) =>
    if l.length ≤ 128 then
      match l.mapM validHeaderPair with
      | some headers => if headerUnits headers ≤ 32768 then some headers else none
      | none => none
    else none
  | _ => none

/-- `/^[A-Z]{1,20}$/`. -/
def isMethodName (m : Text) : Bool := 1 ≤ m.length ∧ m.length ≤ 20 ∧ m.all Char.isUpper

def validMethod : Val → Option Text
  | .json (.str m) => if isMethodName m then some m else none
  | _ => none

def validFlag : Val → Option Bool
  | .json (.bool b) => some b
  | _ => none

def validProtocol : Json → Option Text
  | .str p => if units p ≤ 256 then some p else none
  | _ => none

def validProtocols : Val → Option (List Text)
  | .json (.arr l) => if l.length ≤ 16 then l.mapM validProtocol else none
  | _ => none

/-- The target, where it is a string. -/
def RawFrame.targetText (f : RawFrame) : Option Text :=
  match f.target with
  | .json (.str t) => some t
  | _ => none

/-- The checked metadata of an opening frame. -/
inductive Opening where
  | http (info : OpenHttp)
  | ws (info : OpenWs)

def validOpenHttp (f : RawFrame) : Option Opening := do
  let path ← validPath f.path
  let headers ← validHeaders f.headers
  let method ← validMethod f.method
  let hasBody ← validFlag f.hasBody
  pure (.http { method, path, headers, hasBody, target := f.targetText })

def validOpenWs (f : RawFrame) : Option Opening := do
  let path ← validPath f.path
  let headers ← validHeaders f.headers
  let protocols ← validProtocols f.protocols
  pure (.ws { path, headers, protocols, target := f.targetText })

/-- `validateOpenFrame`; `none` where it throws. -/
def validateOpenFrame (type : FrameType) (f : RawFrame) : Option Opening :=
  if type = .openHttp then validOpenHttp f else validOpenWs f

/-- `resolveOrigin(target)` has an origin: there are no targets here, only the loopback origin. -/
def isRegistered : Val → Bool
  | .undefined => true
  | _ => false

/-- `isBareBbRealtimeWs`: the realtime socket without a target. -/
def isBareBbRealtimeWs (path : Text) (target : Option Text) : Bool :=
  target = none ∧
    (path = "/ws".toList ∨ "/ws?".toList <+: path ∨ "/ws/".toList <+: path)

/-- The pattern of a thread's first load, without `afterSequence`. -/
def isInitialThreadLoad (path : Text) : Bool :=
  (match path.dropPrefix? "/api/v1/threads/".toList with
    | some r =>
      match segment? r with
      | some (_, rest) =>
        ["/timeline".toList, "/conversation-outline".toList].any fun p =>
          rest = p ∨ (p ++ ['?']) <+: rest
      | none => false
    | none => false) && !(Url.ofTarget path).hasParam "afterSequence".toList

/-! ## Byte counters -/

/-- What a byte counter can hold: a number, or what JavaScript makes of a value that metadata
put in the place of a byte length. -/
inductive Num where
  | int (n : ℤ)
  | nan
  | other (v : Json)

/-- JavaScript's operations on values that are neither integers nor `NaN`, and what `Buffer.from`
and a socket make of a value that is not bytes.  `none` is a throw. -/
structure Coercion where
  plus : Num → Num → Option Num
  minus : Num → Num → Num
  exceeds : Json → ℕ → Bool
  buffer : Json → Option Bytes
  payload : Val → Json → Option (Bool × Bytes)

namespace Coercion

variable (co : Coercion)

def add : Num → Num → Option Num
  | .int m, .int n => some (.int (m + n))
  | .int _, .nan => some .nan
  | .nan, .int _ => some .nan
  | .nan, .nan => some .nan
  | a, b => co.plus a b

def sub : Num → Num → Num
  | .int m, .int n => .int (m - n)
  | .int _, .nan => .nan
  | .nan, .int _ => .nan
  | .nan, .nan => .nan
  | a, b => co.minus a b

/-- `a > limit`. -/
def gt : Num → ℕ → Bool
  | .int m, limit => (limit : ℤ) < m
  | .nan, _ => false
  | .other v, limit => co.exceeds v limit

/-- `data.byteLength`, which throws on `undefined` and `null`. -/
def byteLength : Val → Option Num
  | .undefined => none
  | .json .null => none
  | .json j => some (match j.member "byteLength".toList with
    | some v => .other v
    | none => .nan)
  | .bytes b => some (.int b.length)

/-- `Buffer.from(data)`. -/
def bufferFrom : Val → Option Bytes
  | .undefined => none
  | .json j => co.buffer j
  | .bytes b => some b

/-- What `socket.send` is given for a message: whether it is binary, and its bytes. -/
def messageData (isBinary : Val) : Val → Option (Bool × Bytes)
  | .undefined => none
  | .json j => co.payload isBinary j
  | .bytes b =>
    match isBinary with
    | .json (.bool true) => some (true, b)
    | _ => some (false, utf8Encode (utf8Decode b))

end Coercion

/-! ## State -/

structure HttpStream where
  uid : ℕ
  info : OpenHttp
  chunks : List Bytes
  bytes : Num
  executing : Bool
  /-- The body timer is set. -/
  bodyTimer : Bool

structure WsStream where
  uid : ℕ
  buffered : List RawFrame
  bufferedBytes : Num
  isOpen : Bool
  countsAsRemoteClient : Bool

/-- A call of `executeHttp` that waits for the origin. -/
structure Running where
  uid : ℕ
  streamId : ℕ
  info : OpenHttp
  body : Option Bytes
  aborted : Bool
  responded : Bool

/-- A WebSocket to the origin, with its event handlers. -/
structure OriginSocket where
  uid : ℕ
  streamId : ℕ
  opened : Bool

/-- What the session does to its origin sockets. -/
inductive OriginEffect where
  | send (uid : ℕ) (isBinary : Bool) (data : Bytes)
  | close (uid : ℕ) (code : ℤ) (reason : Text)
  | terminate (uid : ℕ)

/-- A frame given to the tunnel, for the opening that it answers. -/
structure Sent where
  uid : ℕ
  frame : Frame

structure TunnelSession where
  received : ℕ
  httpStreams : OrderedMap ℕ HttpStream
  wsStreams : OrderedMap ℕ WsStream
  bufferedBytes : Num
  disposed : Bool
  remoteClientCount : ℕ
  running : List Running
  sockets : List OriginSocket
  effects : List OriginEffect
  /-- The frames on their way to the relay, oldest first. -/
  outbox : List Sent

/-- The tunnel socket when a frame is sent. -/
inductive Link where
  | isOpen
  | congested
  | closed

/-- What a step reads: the tunnel socket at each frame, the amount buffered in the origin socket at
each message, and whether the origin socket can be constructed. -/
structure Io where
  link : ℕ → Link
  bufferedAmount : ℕ → ℕ
  constructs : Bool

namespace TunnelSession

variable (co : Coercion) (io : Io)

def new : TunnelSession :=
  { received := 0, httpStreams := .empty, wsStreams := .empty, bufferedBytes := .int 0,
    disposed := false, remoteClientCount := 0, running := [], sockets := [], effects := [],
    outbox := [] }

/-- `this.httpStreams.get(streamId) === stream`. -/
def isCurrentHttp (s : TunnelSession) (streamId uid : ℕ) : Bool :=
  match s.httpStreams.get streamId with
  | some h => h.uid = uid
  | none => false

/-- `this.wsStreams.get(streamId) === stream`. -/
def isCurrentWs (s : TunnelSession) (streamId uid : ℕ) : Bool :=
  match s.wsStreams.get streamId with
  | some w => w.uid = uid
  | none => false

/-- `stream.abort.abort()`. -/
def abort (s : TunnelSession) (uid : ℕ) : TunnelSession :=
  { s with running := s.running.map fun r => if r.uid = uid then { r with aborted := true } else r }

def dispose (s : TunnelSession) : TunnelSession :=
  if s.disposed then s else
    { s with
      disposed := true
      bufferedBytes := .int 0
      httpStreams := .empty
      wsStreams := .empty
      remoteClientCount := 0
      running := s.running.map fun r =>
        if s.isCurrentHttp r.streamId r.uid then { r with aborted := true } else r
      effects := s.effects ++ s.wsStreams.values.map fun w => .terminate w.uid }

def send (s : TunnelSession) (uid : ℕ) (frame : Frame) : TunnelSession :=
  if s.disposed then s else
    match io.link s.outbox.length with
    | .isOpen => { s with outbox := s.outbox ++ [⟨uid, frame⟩] }
    | .congested => s.dispose
    | .closed => s

def forgetHttpStream (s : TunnelSession) (streamId uid : ℕ) : TunnelSession :=
  match s.httpStreams.get streamId with
  | some h =>
    if h.uid = uid then
      { s with
        bufferedBytes := co.sub s.bufferedBytes h.bytes
        httpStreams := s.httpStreams.erase streamId }
    else s
  | none => s

def rejectHttpStream (s : TunnelSession) (streamId uid : ℕ) (reason : Text) : TunnelSession :=
  send io (forgetHttpStream co (s.abort uid) streamId uid) uid (.closeStream streamId 1009 reason)

def forgetWsStream (s : TunnelSession) (streamId uid : ℕ) : TunnelSession :=
  match s.wsStreams.get streamId with
  | some w =>
    if w.uid = uid then
      { s with
        wsStreams := s.wsStreams.erase streamId
        bufferedBytes := co.sub s.bufferedBytes w.bufferedBytes
        remoteClientCount :=
          if w.countsAsRemoteClient then s.remoteClientCount - 1 else s.remoteClientCount }
    else s
  | none => s

/-- Send the frames in turn. -/
def sendAll (s : TunnelSession) (uid : ℕ) (frames : List Frame) : TunnelSession :=
  frames.foldl (fun s frame => send io s uid frame) s

def unregisteredPortBody : Text := "this port is not shared".toList

def rejectUnregisteredHttp (s : TunnelSession) (streamId uid : ℕ) : TunnelSession :=
  sendAll io s uid
    ([.respHead streamId 404 [("content-type".toList, "text/plain; charset=utf-8".toList)]] ++
      chunkBody streamId (utf8Encode unregisteredPortBody) ++ [.bodyEnd streamId])

/-- `executeHttp` up to its first wait, on a stream that is not yet executing. -/
def executeHttp (s : TunnelSession) (streamId : ℕ) (stream : HttpStream) : TunnelSession :=
  let started := { stream with executing := true, bodyTimer := false }
  if isRegistered (optionalText stream.info.target) then
    { s with
      httpStreams := s.httpStreams.set streamId { started with chunks := [] }
      running := s.running ++
        [{ uid := stream.uid, streamId, info := stream.info,
           body := if stream.info.hasBody then some stream.chunks.flatten else none,
           aborted := false, responded := false }] }
  else
    let s := { s with httpStreams := s.httpStreams.set streamId started }
    forgetHttpStream co (rejectUnregisteredHttp io s streamId stream.uid) streamId stream.uid

def requestFailed : Text := "Guest gateway request failed".toList

def openOriginWs (s : TunnelSession) (streamId uid : ℕ) (info : OpenWs) : TunnelSession :=
  if isRegistered (optionalText info.target) then
    if io.constructs then
      let counts := isBareBbRealtimeWs info.path info.target
      { s with
        wsStreams := s.wsStreams.set streamId
          { uid, buffered := [], bufferedBytes := .int 0, isOpen := false,
            countsAsRemoteClient := counts }
        remoteClientCount := if counts then s.remoteClientCount + 1 else s.remoteClientCount
        sockets := s.sockets ++ [{ uid, streamId, opened := false }] }
    else send io s uid (.closeStream streamId 1011 requestFailed)
  else send io s uid (.closeStream streamId 1008 unregisteredPortBody)

/-! ## Frames -/

/-- A stream as it is opened: the body timer is set where a body follows. -/
def newHttpStream (uid : ℕ) (info : OpenHttp) : HttpStream :=
  { uid, info, chunks := [], bytes := .int 0, executing := false, bodyTimer := info.hasBody }

def openHttp (s : TunnelSession) (streamId uid : ℕ) (info : OpenHttp) : TunnelSession :=
  let stream := newHttpStream uid info
  let s := { s with httpStreams := s.httpStreams.set streamId stream }
  if info.hasBody then s else executeHttp co io s streamId stream

def onOpen (s : TunnelSession) (streamId uid : ℕ) (type : FrameType) (f : RawFrame) :
    Option TunnelSession :=
  match validateOpenFrame type f with
  | none => none
  | some opening =>
    if s.httpStreams.has streamId || s.wsStreams.has streamId then none
    else if MAX_STREAMS ≤ s.httpStreams.size + s.wsStreams.size then
      some (send io s uid (.closeStream streamId 1013 "Tunnel capacity reached".toList))
    else if isRegistered f.target then
      match opening with
      | .http info => some (openHttp co io s streamId uid info)
      | .ws info => some (openOriginWs io s streamId uid info)
    else
      match opening with
      | .http _ => some (rejectUnregisteredHttp io s streamId uid)
      | .ws _ => some (send io s uid (.closeStream streamId 1008 unregisteredPortBody))

/-- A body chunk is over a limit of its stream or of the session. -/
def bodyOverLimit (s : TunnelSession) (stream : HttpStream) (data : Val) : Option Bool :=
  if MAX_BODY_CHUNKS ≤ stream.chunks.length then some true else do
    let size ← Coercion.byteLength data
    if co.gt size MAX_CHUNK_BYTES then pure true else
      let bytes ← co.add stream.bytes size
      if co.gt bytes MAX_REQUEST_BYTES then pure true else
        let total ← co.add s.bufferedBytes size
        pure (co.gt total MAX_BUFFERED_BYTES)

def onBodyChunk (s : TunnelSession) (streamId : ℕ) (data : Val) : Option TunnelSession :=
  match s.httpStreams.get streamId with
  | none => some s
  | some stream =>
    if stream.executing then none else do
      let isOver ← bodyOverLimit co s stream data
      if isOver then
        pure (rejectHttpStream co io s streamId stream.uid
          "Request body exceeds tunnel limit".toList)
      else
        let chunk ← co.bufferFrom data
        let size ← Coercion.byteLength data
        let bytes ← co.add stream.bytes size
        let total ← co.add s.bufferedBytes size
        pure { s with
          httpStreams := s.httpStreams.set streamId
            { stream with chunks := stream.chunks ++ [chunk], bytes }
          bufferedBytes := total }

def onBodyEnd (s : TunnelSession) (streamId : ℕ) : Option TunnelSession :=
  match s.httpStreams.get streamId with
  | none => some s
  | some stream => if stream.executing then none else some (executeHttp co io s streamId stream)

/-- A message is over a limit of its stream or of the session. -/
def messageOverLimit (s : TunnelSession) (stream : WsStream) (data : Val) : Option Bool :=
  if MAX_WS_MESSAGES ≤ stream.buffered.length then some true else do
    let size ← Coercion.byteLength data
    let held ← co.add stream.bufferedBytes (.int (io.bufferedAmount s.effects.length))
    let bytes ← co.add held size
    if co.gt bytes MAX_WS_BUFFER_BYTES then pure true else
      let total ← co.add s.bufferedBytes size
      pure (co.gt total MAX_BUFFERED_BYTES)

def onWsData (s : TunnelSession) (streamId : ℕ) (f : RawFrame) : Option TunnelSession :=
  match s.wsStreams.get streamId with
  | none => some s
  | some stream => do
    let isOver ← messageOverLimit co io s stream f.data
    if isOver then
      let s := { s with effects := s.effects ++ [.terminate stream.uid] }
      pure (send io (forgetWsStream co s streamId stream.uid) stream.uid
        (.closeStream streamId 1013 "WebSocket buffer limit reached".toList))
    else if stream.isOpen then
      let (isBinary, data) ← co.messageData f.isBinary f.data
      pure { s with effects := s.effects ++ [.send stream.uid isBinary data] }
    else
      let size ← Coercion.byteLength f.data
      let bytes ← co.add stream.bufferedBytes size
      let total ← co.add s.bufferedBytes size
      pure { s with
        wsStreams := s.wsStreams.set streamId
          { stream with buffered := stream.buffered ++ [f], bufferedBytes := bytes }
        bufferedBytes := total }

/-- A close code that may be sent, or else 1000. -/
def closeCode (code : Option ℤ) : ℤ :=
  match code with
  | some c => if c = 1000 ∨ 3000 ≤ c ∧ c ≤ 4999 then c else 1000
  | none => 1000

/-- The reason of a close: the first 120 bytes of a string. -/
def closeReason : Val → Text
  | .json (.str t) => utf8Decode ((utf8Encode t).take 120)
  | _ => []

def onCloseStream (s : TunnelSession) (streamId : ℕ) (f : RawFrame) : TunnelSession :=
  match s.httpStreams.get streamId with
  | some h => forgetHttpStream co (s.abort h.uid) streamId h.uid
  | none =>
    match s.wsStreams.get streamId with
    | some w =>
      forgetWsStream co
        { s with effects := s.effects ++
            [.close w.uid (closeCode f.code.integer) (closeReason f.reason)] }
        streamId w.uid
    | none => s

/-- `onFrame`, where `uid` is the number of the message; `none` where it throws. -/
def onFrame (s : TunnelSession) (uid : ℕ) (f : RawFrame) : Option TunnelSession :=
  if s.disposed then some s else
    match f.id with
    | none => none
    | some streamId =>
      match f.frameType with
      | some .openHttp => onOpen co io s streamId uid .openHttp f
      | some .openWs => onOpen co io s streamId uid .openWs f
      | some .bodyChunk => onBodyChunk co io s streamId f.data
      | some .bodyEnd => onBodyEnd co io s streamId
      | some .wsData => onWsData co io s streamId f
      | some .closeStream => some (onCloseStream co s streamId f)
      | some .respHead => some s
      | some .wsOpenAck => some s
      | none => some s

/-- The body of the message handler's `try`. -/
def process (s : TunnelSession) (message : Bytes) : Option TunnelSession :=
  if MAX_CHUNK_BYTES + 6 < message.length then none else
    match decodeFrame message with
    | some f => onFrame co io { s with received := s.received + 1 } s.received f
    | none => none

/-- The handler of a binary tunnel message. -/
def onMessage (s : TunnelSession) (message : Bytes) : TunnelSession :=
  match process co io s message with
  | some t => t
  | none => { s with received := s.received + 1 }.dispose

/-! ## Local events -/

/-- The body timer of a stream fires. -/
def bodyTimeout (s : TunnelSession) (streamId : ℕ) : Option TunnelSession :=
  match s.httpStreams.get streamId with
  | some h =>
    if h.bodyTimer then
      some (rejectHttpStream co io s streamId h.uid "Request body timed out".toList)
    else none
  | none => none

/-- Whether a call of `executeHttp` has its response. -/
def findRunning (s : TunnelSession) (uid : ℕ) (responded : Bool) : Option Running :=
  s.running.find? fun r => r.uid = uid ∧ r.responded = responded

/-- The call returns. -/
def finish (s : TunnelSession) (uid : ℕ) : TunnelSession :=
  { s with running := s.running.filter fun r => r.uid ≠ uid }

def timingHeader (duration : Text) : HeaderPair :=
  ("server-timing".toList, "bb_connect_origin;dur=".toList ++ duration)

/-- The origin answers a request. -/
def originResponse (s : TunnelSession) (uid : ℕ) (status : Option ℕ) (headers : List HeaderPair)
    (duration : Text) : Option TunnelSession := do
  let r ← s.findRunning uid false
  if s.isCurrentHttp r.streamId uid then
    let headers := if isInitialThreadLoad r.info.path then headers ++ [timingHeader duration]
      else headers
    let s := send io s uid (.respHead r.streamId (status.getD 502) headers)
    pure { s with running := s.running.map fun r =>
      if r.uid = uid then { r with responded := true } else r }
  else pure (s.finish uid)

/-- A piece of the origin's response body. -/
def originChunk (s : TunnelSession) (uid : ℕ) (data : Bytes) : Option TunnelSession := do
  let r ← s.findRunning uid true
  if s.isCurrentHttp r.streamId uid then
    pure (sendAll io s uid (chunkBody r.streamId data))
  else pure (s.finish uid)

/-- The origin's response is complete. -/
def originEnd (s : TunnelSession) (uid : ℕ) : Option TunnelSession := do
  let r ← s.findRunning uid true
  let s := send io s uid (.bodyEnd r.streamId)
  pure ((forgetHttpStream co s r.streamId uid).finish uid)

/-- The request or its response fails. -/
def originError (s : TunnelSession) (uid : ℕ) : Option TunnelSession := do
  let r ← s.running.find? fun r => r.uid = uid
  let s := if r.aborted then s else send io s uid (.closeStream r.streamId 1011 requestFailed)
  pure ((forgetHttpStream co s r.streamId uid).finish uid)

/-- The buffered messages go through `onFrame` again. -/
def replay (s : TunnelSession) (uid : ℕ) (frames : List RawFrame) : Option TunnelSession :=
  frames.foldlM (fun s f => onFrame co io s uid f) s

/-- The stream gives up what it buffered; after a disposal it is no longer among the streams. -/
def drain (s : TunnelSession) (streamId : ℕ) (stream : WsStream) : TunnelSession :=
  let total := co.sub s.bufferedBytes stream.bufferedBytes
  if s.disposed then { s with bufferedBytes := total }
  else { s with
    bufferedBytes := total
    wsStreams := s.wsStreams.set streamId
      { stream with isOpen := true, buffered := [], bufferedBytes := .int 0 } }

/-- The handler of a socket's `open` event on its own stream.  The acknowledgement may dispose of
the session; the handler goes on with the stream it had. -/
def flush (s : TunnelSession) (streamId : ℕ) (stream : WsStream) (protocol : Option Text) :
    Option TunnelSession :=
  let s := { s with wsStreams := s.wsStreams.set streamId { stream with isOpen := true } }
  let s := send io s stream.uid (.wsOpenAck streamId protocol)
  replay co io (drain co s streamId stream) stream.uid stream.buffered

def markOpened (s : TunnelSession) (uid : ℕ) : TunnelSession :=
  { s with sockets := s.sockets.map fun k => if k.uid = uid then { k with opened := true } else k }

/-- The origin socket opens. -/
def socketOpen (s : TunnelSession) (uid : ℕ) (protocol : Option Text) : Option TunnelSession :=
  match s.sockets.find? fun k => k.uid = uid ∧ k.opened = false with
  | none => none
  | some k =>
    let s := s.markOpened uid
    match s.wsStreams.get k.streamId with
    | none => some { s with effects := s.effects ++ [.terminate uid] }
    | some w =>
      if w.uid = uid then flush co io s k.streamId w protocol
      else some { s with effects := s.effects ++ [.terminate uid] }

/-- A message from the origin socket. -/
def socketMessage (s : TunnelSession) (uid : ℕ) (isBinary : Bool) (data : Bytes) :
    Option TunnelSession := do
  let k ← s.sockets.find? fun k => k.uid = uid ∧ k.opened = true
  pure (send io s uid (.wsData k.streamId isBinary
    (if isBinary then data else utf8Encode (utf8Decode data))))

/-- The origin socket closes. -/
def socketClose (s : TunnelSession) (uid code : ℕ) (reason : Bytes) : Option TunnelSession := do
  let k ← s.sockets.find? fun k => k.uid = uid
  let s := { s with sockets := s.sockets.filter fun k => k.uid ≠ uid }
  if s.isCurrentWs k.streamId uid then
    pure (send io (forgetWsStream co s k.streamId uid) uid
      (.closeStream k.streamId (closeCode (some code)).toNat (utf8Decode reason)))
  else pure s

/-- What happens to a session on its own side of the tunnel. -/
inductive LocalEvent where
  | bodyTimeout (streamId : ℕ)
  | originResponse (uid : ℕ) (status : Option ℕ) (headers : List HeaderPair) (duration : Text)
  | originChunk (uid : ℕ) (data : Bytes)
  | originEnd (uid : ℕ)
  | originError (uid : ℕ)
  | socketOpen (uid : ℕ) (protocol : Option Text)
  | socketMessage (uid : ℕ) (isBinary : Bool) (data : Bytes)
  | socketClose (uid code : ℕ) (reason : Bytes)
  | tunnelClose

/-- `none` where the event cannot happen, or throws out of its handler. -/
def onLocal (s : TunnelSession) : LocalEvent → Option TunnelSession
  | .bodyTimeout streamId => bodyTimeout co io s streamId
  | .originResponse uid status headers duration => originResponse io s uid status headers duration
  | .originChunk uid data => originChunk io s uid data
  | .originEnd uid => originEnd co io s uid
  | .originError uid => originError co io s uid
  | .socketOpen uid protocol => socketOpen co io s uid protocol
  | .socketMessage uid isBinary data => socketMessage io s uid isBinary data
  | .socketClose uid code reason => socketClose co io s uid code reason
  | .tunnelClose => some s.dispose

end TunnelSession

end BbShared
