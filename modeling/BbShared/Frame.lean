import BbShared.Js.Json

/-!
# Tunnel frames

`tunnel-contract/src/index.ts`: one byte of type, four bytes of stream id, and a payload that is
JSON metadata, raw bytes or empty.

`encodeFrame` takes the frames that the two halves of the program build.  `decodeFrame` gives what
arbitrary bytes decode to: a `RawFrame`, whose fields are unchecked values.  For the types
`resp-head` and `close-stream` the metadata is spread over the frame, type and stream id included.
-/

namespace BbShared

open Js

def MAX_CHUNK_BYTES : ℕ := 1024 * 1024

abbrev HeaderPair := Text × Text

structure OpenHttp where
  method : Text
  path : Text
  headers : List HeaderPair
  hasBody : Bool
  target : Option Text
  deriving DecidableEq

structure OpenWs where
  path : Text
  headers : List HeaderPair
  protocols : List Text
  target : Option Text
  deriving DecidableEq

inductive Frame where
  | openHttp (streamId : ℕ) (info : OpenHttp)
  | bodyChunk (streamId : ℕ) (data : Bytes)
  | bodyEnd (streamId : ℕ)
  | respHead (streamId status : ℕ) (headers : List HeaderPair)
  | openWs (streamId : ℕ) (info : OpenWs)
  | wsOpenAck (streamId : ℕ) (protocol : Option Text)
  | wsData (streamId : ℕ) (isBinary : Bool) (data : Bytes)
  | closeStream (streamId code : ℕ) (reason : Text)
  deriving DecidableEq

def Frame.streamId : Frame → ℕ
  | openHttp i _ => i
  | bodyChunk i _ => i
  | bodyEnd i => i
  | respHead i _ _ => i
  | openWs i _ => i
  | wsOpenAck i _ => i
  | wsData i _ _ => i
  | closeStream i _ _ => i

/-! ## Encoding -/

/-- Four bytes, the high one first. -/
def uint32 (n : ℕ) : Bytes :=
  [UInt8.ofNat (n / 16777216), UInt8.ofNat (n / 65536), UInt8.ofNat (n / 256), UInt8.ofNat n]

/-- A frame of a type, for the stream ids that fit in four bytes. -/
def withHeader (type streamId : ℕ) (payload : Bytes) : Option Bytes :=
  if streamId ≤ 0xffffffff then some (UInt8.ofNat type :: (uint32 streamId ++ payload)) else none

def jsonPayload (value : Json) : Bytes := utf8Encode value.stringify

def headersJson (headers : List HeaderPair) : Json :=
  .arr (headers.map fun p => .arr [.str p.1, .str p.2])

def targetMember : Option Text → List (Text × Json)
  | some t => [("target".toList, .str t)]
  | none => []

def OpenHttp.json (m : OpenHttp) : Json :=
  .obj ([("method".toList, .str m.method), ("path".toList, .str m.path),
    ("headers".toList, headersJson m.headers), ("hasBody".toList, .bool m.hasBody)] ++
      targetMember m.target)

def OpenWs.json (m : OpenWs) : Json :=
  .obj ([("path".toList, .str m.path), ("headers".toList, headersJson m.headers),
    ("protocols".toList, .arr (m.protocols.map .str))] ++ targetMember m.target)

/-- `null` when nothing was negotiated. -/
def protocolJson : Option Text → Json
  | some p => .str p
  | none => .null

/-- `encodeFrame`; `none` where it throws. -/
def encodeFrame : Frame → Option Bytes
  | .openHttp i m => withHeader 1 i (jsonPayload m.json)
  | .bodyChunk i data => if MAX_CHUNK_BYTES < data.length then none else withHeader 2 i data
  | .bodyEnd i => withHeader 3 i []
  | .respHead i status headers =>
    withHeader 4 i (jsonPayload (.obj [("status".toList, .num (.ofNat status)),
      ("headers".toList, headersJson headers)]))
  | .openWs i m => withHeader 5 i (jsonPayload m.json)
  | .wsOpenAck i protocol =>
    withHeader 6 i (jsonPayload (.obj [("protocol".toList, protocolJson protocol)]))
  | .wsData i isBinary data => withHeader 7 i ((if isBinary then 1 else 0) :: data)
  | .closeStream i code reason =>
    withHeader 8 i (jsonPayload (.obj [("code".toList, .num (.ofNat code)),
      ("reason".toList, .str reason)]))

/-- `chunkBody`: the pieces of a buffer, none of them over the limit. -/
def chunks (data : Bytes) : List Bytes :=
  if data = [] then [] else data.take MAX_CHUNK_BYTES :: chunks (data.drop MAX_CHUNK_BYTES)
termination_by data.length
decreasing_by
  have : data.length ≠ 0 := by simpa using ‹data ≠ []›
  rw [List.length_drop]
  unfold MAX_CHUNK_BYTES
  omega

def chunkBody (streamId : ℕ) (data : Bytes) : List Frame := (chunks data).map (.bodyChunk streamId)

theorem length_le_of_mem_chunks {data c : Bytes} (h : c ∈ chunks data) :
    c.length ≤ MAX_CHUNK_BYTES := by
  induction data using chunks.induct with
  | case1 =>
    unfold chunks at h
    cases h
  | case2 data hne ih =>
    unfold chunks at h
    rw [if_neg hne] at h
    rcases List.mem_cons.mp h with rfl | h
    · exact List.length_take_le _ _
    · exact ih h

/-! ## Decoding -/

/-- The value of a field: absent, parsed from JSON, or bytes of the message. -/
inductive Val where
  | undefined
  | json (j : Json)
  | bytes (b : Bytes)

/-- What bytes decode to, before any field is checked. -/
structure RawFrame where
  type : Val
  streamId : Val
  method : Val := .undefined
  path : Val := .undefined
  headers : Val := .undefined
  hasBody : Val := .undefined
  target : Val := .undefined
  protocols : Val := .undefined
  protocol : Val := .undefined
  isBinary : Val := .undefined
  data : Val := .undefined
  status : Val := .undefined
  code : Val := .undefined
  reason : Val := .undefined

/-- A string, where there is one. -/
def optionalText : Option Text → Val
  | some t => .json (.str t)
  | none => .undefined

def Val.text (s : String) : Val := .json (.str s.toList)

def Val.nat (n : ℕ) : Val := .json (.num (.ofNat n))

/-- A property of parsed metadata. -/
def property (info : Json) (name : String) : Val :=
  match info.member name.toList with
  | some j => .json j
  | none => .undefined

/-- A property that the metadata may override. -/
def override (info : Json) (name : String) (default : Val) : Val :=
  match info.member name.toList with
  | some j => .json j
  | none => default

/-- `typeof target === "string"`, or else no target. -/
def stringOnly : Val → Val
  | .json (.str t) => .json (.str t)
  | _ => .undefined

/-- `{ type, streamId, ...info }`. -/
def spread (type : String) (streamId : ℕ) (info : Json) : RawFrame :=
  { type := override info "type" (.text type)
    streamId := override info "streamId" (.nat streamId)
    method := property info "method"
    path := property info "path"
    headers := property info "headers"
    hasBody := property info "hasBody"
    target := property info "target"
    protocols := property info "protocols"
    protocol := property info "protocol"
    isBinary := property info "isBinary"
    data := property info "data"
    status := property info "status"
    code := property info "code"
    reason := property info "reason" }

def parseJson (payload : Bytes) : Option Json := Json.parse (textDecode payload)

/-- Metadata whose properties are read: reading one of `null` throws. -/
def parseObject (payload : Bytes) : Option Json :=
  match parseJson payload with
  | some .null => none
  | j => j

def decodePayload (type streamId : ℕ) (payload : Bytes) : Option RawFrame :=
  match type with
  | 1 => (parseObject payload).map fun info =>
    { type := .text "open-http", streamId := .nat streamId, method := property info "method",
      path := property info "path", headers := property info "headers",
      hasBody := property info "hasBody", target := stringOnly (property info "target") }
  | 2 => some { type := .text "body-chunk", streamId := .nat streamId, data := .bytes payload }
  | 3 => some { type := .text "body-end", streamId := .nat streamId }
  | 4 => (parseJson payload).map (spread "resp-head" streamId)
  | 5 => (parseObject payload).map fun info =>
    { type := .text "open-ws", streamId := .nat streamId, path := property info "path",
      headers := property info "headers", protocols := property info "protocols",
      target := stringOnly (property info "target") }
  | 6 => (parseObject payload).map fun info =>
    { type := .text "ws-open-ack", streamId := .nat streamId, protocol := property info "protocol" }
  | 7 => match payload with
    | [] => none
    | flag :: data =>
      some { type := .text "ws-data", streamId := .nat streamId,
             isBinary := .json (.bool (flag == 1)), data := .bytes data }
  | 8 => (parseJson payload).map (spread "close-stream" streamId)
  | _ => none

/-- `decodeFrame`; `none` where it throws. -/
def decodeFrame : Bytes → Option RawFrame
  | type :: a :: b :: c :: d :: payload =>
    decodePayload type.toNat
      (((a.toNat * 256 + b.toNat) * 256 + c.toNat) * 256 + d.toNat) payload
  | _ => none

/-! ## Round trip -/

/-- The fields that a frame decodes to. -/
def Frame.raw : Frame → RawFrame
  | openHttp i m =>
    { type := .text "open-http", streamId := .nat i, method := .json (.str m.method),
      path := .json (.str m.path), headers := .json (headersJson m.headers),
      hasBody := .json (.bool m.hasBody), target := optionalText m.target }
  | bodyChunk i data => { type := .text "body-chunk", streamId := .nat i, data := .bytes data }
  | bodyEnd i => { type := .text "body-end", streamId := .nat i }
  | respHead i status headers =>
    { type := .text "resp-head", streamId := .nat i, status := .nat status,
      headers := .json (headersJson headers) }
  | openWs i m =>
    { type := .text "open-ws", streamId := .nat i, path := .json (.str m.path),
      headers := .json (headersJson m.headers),
      protocols := .json (.arr (m.protocols.map .str)), target := optionalText m.target }
  | wsOpenAck i protocol =>
    { type := .text "ws-open-ack", streamId := .nat i, protocol := .json (protocolJson protocol) }
  | wsData i isBinary data =>
    { type := .text "ws-data", streamId := .nat i, isBinary := .json (.bool isBinary),
      data := .bytes data }
  | closeStream i code reason =>
    { type := .text "close-stream", streamId := .nat i, code := .nat code,
      reason := .json (.str reason) }

theorem parseJson_jsonPayload (l : List (Text × Json)) :
    parseJson (jsonPayload (.obj l)) = some (.obj l) := by
  unfold parseJson jsonPayload
  rw [show Json.stringify (.obj l) = '\x7b' :: (Json.stringifyMembers l ++ ['\x7d']) from rfl,
    textDecode_encode (by decide)]
  exact Json.parse_stringify (.obj l)

theorem parseObject_jsonPayload (l : List (Text × Json)) :
    parseObject (jsonPayload (.obj l)) = some (.obj l) := by
  unfold parseObject
  rw [parseJson_jsonPayload]

/-- Decoding undoes the header. -/
theorem decodeFrame_withHeader {type i : ℕ} {payload m : Bytes} (ht : type < 256)
    (h : withHeader type i payload = some m) : decodeFrame m = decodePayload type i payload := by
  unfold withHeader at h
  split_ifs at h with hi
  obtain rfl := Option.some.inj h
  have hid : (((i / 16777216 % 256) * 256 + i / 65536 % 256) * 256 + i / 256 % 256) * 256 +
      i % 256 = i := by omega
  unfold uint32
  simp only [List.cons_append, List.nil_append, decodeFrame, UInt8.toNat_ofNat',
    Nat.mod_eq_of_lt ht]
  rw [show 2 ^ 8 = 256 from rfl, hid]

/-- **Round trip.** What is encoded decodes to the frame's fields. -/
theorem decodeFrame_encodeFrame {f : Frame} {m : Bytes} (h : encodeFrame f = some m) :
    decodeFrame m = some f.raw := by
  cases f with
  | openHttp i info =>
    rw [decodeFrame_withHeader (by decide) h, OpenHttp.json, decodePayload,
      parseObject_jsonPayload]
    obtain ⟨_, _, _, _, _ | _⟩ := info <;> rfl
  | bodyChunk i data =>
    rw [encodeFrame] at h
    split_ifs at h
    exact decodeFrame_withHeader (by decide) h
  | bodyEnd i => exact decodeFrame_withHeader (by decide) h
  | respHead i status headers =>
    rw [decodeFrame_withHeader (by decide) h, decodePayload, parseJson_jsonPayload]
    rfl
  | openWs i info =>
    rw [decodeFrame_withHeader (by decide) h, OpenWs.json, decodePayload,
      parseObject_jsonPayload]
    obtain ⟨_, _, _, _ | _⟩ := info <;> rfl
  | wsOpenAck i protocol =>
    rw [decodeFrame_withHeader (by decide) h, decodePayload, parseObject_jsonPayload]
    rfl
  | wsData i isBinary data =>
    rw [decodeFrame_withHeader (by decide) h, decodePayload]
    cases isBinary <;> rfl
  | closeStream i code reason =>
    rw [decodeFrame_withHeader (by decide) h, decodePayload, parseJson_jsonPayload]
    rfl

end BbShared
