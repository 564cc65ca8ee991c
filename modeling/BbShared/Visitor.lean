import BbShared.Bounds
import BbShared.TunnelDO

/-!
# What a visitor can send through the tunnel

The relay forwards what the edge accepts, and the session refuses an opening outside its limits by
ending the whole tunnel.  `sentBy_accepted_iff` says for which visitor inputs every message that the
relay sends is one that the session processes.
-/

namespace BbShared

open Js

/-! ## Openings within the limits -/

/-- A path that an opening may have. -/
def PathOk (p : Text) : Prop :=
  p.head? = some '/' ∧ ¬['/', '/'] <+: p ∧ units p ≤ 16384 ∧
    (p.all fun c => c ≠ '\\' ∧ !isLineBreak c) = true

instance : DecidablePred PathOk := fun p => by unfold PathOk; infer_instance

def HeadersOk (headers : List HeaderPair) : Prop :=
  headers.length ≤ 128 ∧ headerUnits headers ≤ 32768

instance : DecidablePred HeadersOk := fun h => by unfold HeadersOk; infer_instance

def ProtocolsOk (protocols : List Text) : Prop :=
  protocols.length ≤ 16 ∧ ∀ p ∈ protocols, units p ≤ 256

instance : DecidablePred ProtocolsOk := fun p => by unfold ProtocolsOk; infer_instance

def OpenHttp.Ok (m : OpenHttp) : Prop :=
  PathOk m.path ∧ HeadersOk m.headers ∧ isMethodName m.method = true

def OpenWs.Ok (m : OpenWs) : Prop := PathOk m.path ∧ HeadersOk m.headers ∧ ProtocolsOk m.protocols

/-- The headers come from a `Headers` object. -/
def HeadersClean (headers : List HeaderPair) : Prop :=
  ∀ p ∈ headers, HeaderText p.1 ∧ HeaderText p.2

theorem validPath_iff (p : Text) : (validPath (.json (.str p))).isSome ↔ PathOk p := by
  unfold validPath PathOk
  simp only
  split_ifs with h
  · exact ⟨fun _ => h, fun _ => rfl⟩
  · exact ⟨fun hs => absurd hs (by simp), fun hp => absurd hp h⟩

theorem mapM_validHeaderPair {headers : List HeaderPair} (h : HeadersClean headers) :
    (headers.map fun p => Json.arr [.str p.1, .str p.2]).mapM validHeaderPair = some headers := by
  induction headers with
  | nil => rfl
  | cons p headers ih =>
    obtain ⟨h1, h2⟩ := h p (by simp)
    have hp : validHeaderPair (.arr [.str p.1, .str p.2]) = some p := by
      have hall : ((p.1 ++ p.2).all fun c => !isLineBreak c) = true := by
        rw [List.all_eq_true]
        intro c hc
        rcases List.mem_append.mp hc with hc | hc
        · rw [h1 c hc]; rfl
        · rw [h2 c hc]; rfl
      unfold validHeaderPair
      simp only [hall, if_true]
    rw [List.map_cons, List.mapM_cons, hp, ih fun q hq => h q (List.mem_cons_of_mem p hq)]
    rfl

theorem validHeaders_iff {headers : List HeaderPair} (h : HeadersClean headers) :
    (validHeaders (.json (headersJson headers))).isSome ↔ HeadersOk headers := by
  unfold validHeaders headersJson HeadersOk
  simp only [mapM_validHeaderPair h, List.length_map]
  split_ifs with h1 h2
  · exact ⟨fun _ => ⟨h1, h2⟩, fun _ => rfl⟩
  · exact ⟨fun hs => absurd hs (by simp), fun hk => absurd hk.2 h2⟩
  · exact ⟨fun hs => absurd hs (by simp), fun hk => absurd hk.1 h1⟩

theorem validProtocols_iff (protocols : List Text) :
    (validProtocols (.json (.arr (protocols.map .str)))).isSome ↔ ProtocolsOk protocols := by
  have key : ((protocols.map Json.str).mapM validProtocol).isSome ↔
      ∀ p ∈ protocols, units p ≤ 256 := by
    induction protocols with
    | nil => simp
    | cons p protocols ih =>
      rw [List.map_cons, List.mapM_cons, List.forall_mem_cons, ← ih]
      by_cases hp : units p ≤ 256
      · have hv : validProtocol (.str p) = some p := by
          unfold validProtocol
          simp only [if_pos hp]
        rw [hv]
        cases (protocols.map Json.str).mapM validProtocol <;> simp [hp]
      · have hv : validProtocol (.str p) = none := by
          unfold validProtocol
          simp only [if_neg hp]
        rw [hv]
        simp [hp]
  unfold validProtocols ProtocolsOk
  simp only [List.length_map]
  split_ifs with h
  · rw [key]
    exact ⟨fun hp => ⟨h, hp⟩, fun hp => hp.2⟩
  · exact ⟨fun hs => absurd hs (by simp), fun hp => absurd hp.1 h⟩

theorem validMethod_iff (m : Text) : (validMethod (.json (.str m))).isSome ↔ isMethodName m := by
  unfold validMethod
  simp only
  split_ifs with h
  · exact ⟨fun _ => h, fun _ => rfl⟩
  · exact ⟨fun hs => absurd hs (by simp), fun hp => absurd hp h⟩

/-- The session's check of an HTTP opening. -/
theorem validOpenHttp_iff (i : ℕ) {m : OpenHttp} (h : HeadersClean m.headers) :
    (validateOpenFrame .openHttp (Frame.openHttp i m).raw).isSome ↔ m.Ok := by
  unfold OpenHttp.Ok
  rw [← validPath_iff, ← validHeaders_iff h, ← validMethod_iff]
  show (validOpenHttp (Frame.openHttp i m).raw).isSome ↔ _
  unfold validOpenHttp Frame.raw
  simp only [validFlag]
  cases validPath (.json (.str m.path)) <;> cases validHeaders (.json (headersJson m.headers)) <;>
    cases validMethod (.json (.str m.method)) <;> simp

/-- The session's check of a WebSocket opening. -/
theorem validOpenWs_iff (i : ℕ) {m : OpenWs} (h : HeadersClean m.headers) :
    (validateOpenFrame .openWs (Frame.openWs i m).raw).isSome ↔ m.Ok := by
  unfold OpenWs.Ok
  rw [← validPath_iff, ← validHeaders_iff h, ← validProtocols_iff]
  show (validOpenWs (Frame.openWs i m).raw).isSome ↔ _
  unfold validOpenWs Frame.raw
  simp only
  cases validPath (.json (.str m.path)) <;> cases validHeaders (.json (headersJson m.headers)) <;>
    cases validProtocols (.json (.arr (m.protocols.map .str))) <;> simp

/-! ## Sizes -/

theorem length_withHeader {type i : ℕ} {payload b : Bytes} (h : withHeader type i payload = some b) :
    b.length = payload.length + 5 := by
  unfold withHeader at h
  split_ifs at h
  rw [← Option.some.inj h]
  simp [uint32]

theorem size_headersJson_le {headers : List HeaderPair} (h : HeadersOk headers) :
    (headersJson headers).size ≤ 200000 := by
  have hpair : ∀ p : HeaderPair,
      (Json.arr [.str p.1, .str p.2]).size + 1 ≤ 6 * (units p.1 + units p.2) + 9 := by
    intro p
    have h1 := Json.size_str_le p.1
    have h2 := Json.size_str_le p.2
    have h3 := Json.size_arr_le [.str p.1, .str p.2]
    simp only [List.map_cons, List.map_nil, List.sum_cons, List.sum_nil] at h3
    omega
  have hsum : ∀ l : List HeaderPair,
      ((l.map fun p => Json.arr [.str p.1, .str p.2]).map fun j => j.size + 1).sum ≤
        6 * headerUnits l + 9 * l.length := by
    intro l
    induction l with
    | nil => simp [headerUnits]
    | cons p l ih =>
      have := hpair p
      unfold headerUnits at ih ⊢
      simp only [List.map_cons, List.sum_cons, List.length_cons]
      omega
  have harr := Json.size_arr_le (headers.map fun p => Json.arr [.str p.1, .str p.2])
  have := hsum headers
  obtain ⟨h1, h2⟩ := h
  unfold headersJson
  omega

theorem size_protocolsJson_le {protocols : List Text} (h : ProtocolsOk protocols) :
    (Json.arr (protocols.map .str)).size ≤ 25000 := by
  have hsum : ∀ l : List Text, (∀ p ∈ l, units p ≤ 256) →
      ((l.map Json.str).map fun j => j.size + 1).sum ≤ 1539 * l.length := by
    intro l
    induction l with
    | nil => simp
    | cons p l ih =>
      intro hl
      have h1 := Json.size_str_le p
      have h2 := hl p (by simp)
      have h3 := ih fun q hq => hl q (List.mem_cons_of_mem p hq)
      simp only [List.map_cons, List.sum_cons, List.length_cons]
      omega
  have harr := Json.size_arr_le (protocols.map .str)
  have := hsum protocols h.2
  have := h.1
  omega

/-- An HTTP opening within the limits fits in a message. -/
theorem length_openHttp_le {i : ℕ} {m : OpenHttp} {b : Bytes} (hm : m.Ok) (ht : m.target = none)
    (h : encodeFrame (.openHttp i m) = some b) : b.length ≤ MAX_CHUNK_BYTES + 6 := by
  obtain ⟨⟨-, -, hpath, -⟩, hheaders, hmethod⟩ := hm
  have hlen := length_withHeader h
  have hobj := Json.size_obj_le [("method".toList, .str m.method), ("path".toList, .str m.path),
    ("headers".toList, headersJson m.headers), ("hasBody".toList, .bool m.hasBody)]
  have h1 := Json.size_str_le m.method
  have h2 := Json.size_str_le m.path
  have h3 := size_headersJson_le hheaders
  have h4 := Json.size_bool_le m.hasBody
  have h5 : units m.method ≤ 40 := by
    have := units_le m.method
    unfold isMethodName at hmethod
    simp only [Bool.decide_and, Bool.and_eq_true, decide_eq_true_eq] at hmethod
    omega
  have hnames : (utf8Encode (Json.quote "method".toList)).length = 8 ∧
      (utf8Encode (Json.quote "path".toList)).length = 6 ∧
      (utf8Encode (Json.quote "headers".toList)).length = 9 ∧
      (utf8Encode (Json.quote "hasBody".toList)).length = 9 := by decide +kernel
  simp only [List.map_cons, List.map_nil, List.sum_cons, List.sum_nil, Json.memberSize] at hobj
  have hjson : (jsonPayload m.json).length = Json.size (.obj [("method".toList, .str m.method),
      ("path".toList, .str m.path), ("headers".toList, headersJson m.headers),
      ("hasBody".toList, .bool m.hasBody)]) := by
    unfold OpenHttp.json targetMember
    rw [ht, List.append_nil]
    rfl
  unfold MAX_CHUNK_BYTES
  omega

/-- A WebSocket opening within the limits fits in a message. -/
theorem length_openWs_le {i : ℕ} {m : OpenWs} {b : Bytes} (hm : m.Ok) (ht : m.target = none)
    (h : encodeFrame (.openWs i m) = some b) : b.length ≤ MAX_CHUNK_BYTES + 6 := by
  obtain ⟨⟨-, -, hpath, -⟩, hheaders, hprotocols⟩ := hm
  have hlen := length_withHeader h
  have hobj := Json.size_obj_le [("path".toList, .str m.path),
    ("headers".toList, headersJson m.headers), ("protocols".toList, .arr (m.protocols.map .str))]
  have h1 := Json.size_str_le m.path
  have h2 := size_headersJson_le hheaders
  have h3 := size_protocolsJson_le hprotocols
  have hnames : (utf8Encode (Json.quote "path".toList)).length = 6 ∧
      (utf8Encode (Json.quote "headers".toList)).length = 9 ∧
      (utf8Encode (Json.quote "protocols".toList)).length = 11 := by decide +kernel
  simp only [List.map_cons, List.map_nil, List.sum_cons, List.sum_nil, Json.memberSize] at hobj
  have hjson : (jsonPayload m.json).length = Json.size (.obj [("path".toList, .str m.path),
      ("headers".toList, headersJson m.headers),
      ("protocols".toList, .arr (m.protocols.map .str))]) := by
    unfold OpenWs.json targetMember
    rw [ht, List.append_nil]
    rfl
  unfold MAX_CHUNK_BYTES
  omega

/-! ## Frames that the session processes -/

/-- What an opening has to pass. -/
def Frame.OpeningOk : Frame → Prop
  | openHttp _ m => m.Ok ∧ m.target = none ∧ HeadersClean m.headers
  | openWs _ m => m.Ok ∧ m.target = none ∧ HeadersClean m.headers
  | _ => True

/-- The session has room for the frame: the id of an opening is free, and the stream of a body
still takes it. -/
def Ready (s : TunnelSession) : Frame → Prop
  | .openHttp i _ => i ∉ s.httpStreams.keys ∧ i ∉ s.wsStreams.keys
  | .openWs i _ => i ∉ s.httpStreams.keys ∧ i ∉ s.wsStreams.keys
  | .bodyChunk i _ => ∀ h, s.httpStreams.get i = some h → h.executing = false
  | .bodyEnd i => ∀ h, s.httpStreams.get i = some h → h.executing = false
  | _ => True

namespace TunnelSession

variable {co : Coercion} {io : Io} {s : TunnelSession}

theorem onOpen_isSome {i uid : ℕ} {type : FrameType} {f : RawFrame}
    (hv : (validateOpenFrame type f).isSome) (hi : i ∉ s.httpStreams.keys)
    (hi' : i ∉ s.wsStreams.keys) : (onOpen co io s i uid type f).isSome := by
  obtain ⟨opening, ho⟩ := Option.isSome_iff_exists.mp hv
  have hdup : ¬(s.httpStreams.has i || s.wsStreams.has i) = true := by
    rw [Bool.or_eq_true, not_or, OrderedMap.has_iff, OrderedMap.has_iff]
    exact ⟨hi, hi'⟩
  unfold onOpen
  simp only [ho, if_neg hdup]
  split_ifs <;> cases opening <;> rfl

variable (co) in
theorem bodyOverLimit_isSome (h : s.Bounded) {stream : HttpStream} (hs : stream.Bounded)
    (b : Bytes) : ∃ isOver, bodyOverLimit co s stream (.bytes b) = some isOver := by
  obtain ⟨n, hn, -⟩ := hs.counted
  unfold bodyOverLimit
  simp only [Coercion.byteLength, hn, h.total, Coercion.add, Option.bind_eq_bind,
    Option.bind_some, Option.pure_def]
  split_ifs <;> exact ⟨_, rfl⟩

theorem onBodyChunk_isSome (h : s.Bounded) {i : ℕ} (b : Bytes)
    (hi : ∀ h, s.httpStreams.get i = some h → h.executing = false) :
    (onBodyChunk co io s i (.bytes b)).isSome := by
  unfold onBodyChunk
  split
  · rfl
  rename_i stream hg
  have hs := h.http _ (OrderedMap.mem_values_of_get hg)
  obtain ⟨n, hn, -⟩ := hs.counted
  obtain ⟨isOver, ho⟩ := bodyOverLimit_isSome co h hs b
  simp only [hi stream hg, ho, Coercion.byteLength, Coercion.bufferFrom, hn, h.total,
    Coercion.add, Option.bind_eq_bind, Option.bind_some, Option.pure_def]
  cases isOver <;> rfl

theorem onBodyEnd_isSome {i : ℕ} (hi : ∀ h, s.httpStreams.get i = some h → h.executing = false) :
    (onBodyEnd co io s i).isSome := by
  unfold onBodyEnd
  split
  · rfl
  · rename_i stream hg
    rw [hi stream hg]
    rfl

variable (co io) in
theorem messageOverLimit_isSome (h : s.Bounded) {stream : WsStream} (hs : stream.Bounded)
    (b : Bytes) : ∃ isOver, messageOverLimit co io s stream (.bytes b) = some isOver := by
  unfold messageOverLimit
  simp only [Coercion.byteLength, hs.counted, h.total, Coercion.add, Option.bind_eq_bind,
    Option.bind_some, Option.pure_def]
  split_ifs <;> exact ⟨_, rfl⟩

theorem onWsData_isSome (h : s.Bounded) {i : ℕ} {f : RawFrame} {b : Bytes} {isBinary : Bool}
    (hb : f.data = .bytes b) (hf : f.isBinary = .json (.bool isBinary)) :
    (onWsData co io s i f).isSome := by
  unfold onWsData
  split
  · rfl
  rename_i stream hg
  have hs := h.ws _ (OrderedMap.mem_values_of_get hg)
  obtain ⟨isOver, ho⟩ := messageOverLimit_isSome co io h hs b
  have hdata : ∃ data, co.messageData (.json (.bool isBinary)) (.bytes b) = some data := by
    cases isBinary <;> exact ⟨_, rfl⟩
  obtain ⟨data, hdata⟩ := hdata
  simp only [hb, hf, ho, hdata, Coercion.byteLength, hs.counted, h.total, Coercion.add,
    Option.bind_eq_bind, Option.bind_some, Option.pure_def]
  cases isOver
  · cases stream.isOpen <;> rfl
  · rfl

/-- A session within its bounds processes the frames it is ready for. -/
theorem onFrame_isSome (h : s.Bounded) {f : Frame} (hid : f.streamId ≤ 0xffffffff)
    (hr : Ready s f) (hok : f.OpeningOk) (uid : ℕ) : (onFrame co io s uid f.raw).isSome := by
  unfold onFrame
  rw [Frame.id_raw hid, Frame.frameType_raw]
  split_ifs
  · rfl
  cases f with
  | openHttp i m => exact onOpen_isSome ((validOpenHttp_iff i hok.2.2).mpr hok.1) hr.1 hr.2
  | openWs i m => exact onOpen_isSome ((validOpenWs_iff i hok.2.2).mpr hok.1) hr.1 hr.2
  | bodyChunk i b => exact onBodyChunk_isSome h b hr
  | bodyEnd i => exact onBodyEnd_isSome hr
  | wsData i isBinary b => exact onWsData_isSome h rfl rfl
  | respHead i status headers => rfl
  | wsOpenAck i protocol => rfl
  | closeStream i code reason => rfl

end TunnelSession

/-- A session within its bounds that is ready for the message processes it without throwing. -/
def Accepted (m : Message) : Prop :=
  ∀ (co : Coercion) (io : Io) (s : TunnelSession), s.Bounded → Ready s m.frame →
    (s.process co io m.bytes).isSome

theorem streamId_le_of_encoded {f : Frame} {b : Bytes} (h : encodeFrame f = some b) :
    f.streamId ≤ 0xffffffff := by
  have key : ∀ {type i : ℕ} {payload : Bytes}, withHeader type i payload = some b →
      i ≤ 0xffffffff := by
    intro type i payload hw
    unfold withHeader at hw
    split_ifs at hw with hi
    exact hi
  cases f with
  | bodyChunk i data =>
    rw [encodeFrame] at h
    split_ifs at h
    exact key h
  | _ => exact key h

theorem Ready.of_eq {s t : TunnelSession} {f : Frame} (h : Ready s f)
    (hh : t.httpStreams = s.httpStreams) (hw : t.wsStreams = s.wsStreams) : Ready t f := by
  cases f <;> simp only [Ready, hh, hw] at h ⊢ <;> exact h

/-- An encoded frame within the limits is accepted. -/
theorem accepted_of_ok {m : Message} (hsize : m.bytes.length ≤ MAX_CHUNK_BYTES + 6)
    (hok : m.frame.OpeningOk) : Accepted m := by
  intro co io s hs hr
  have hs' : TunnelSession.Bounded { s with received := s.received + 1 } :=
    hs.of_eq rfl rfl rfl rfl
  have hr' : Ready { s with received := s.received + 1 } m.frame := hr.of_eq rfl rfl
  unfold TunnelSession.process
  rw [if_neg (not_lt.mpr hsize), decodeFrame_encodeFrame m.encoded]
  exact TunnelSession.onFrame_isSome hs' (streamId_le_of_encoded m.encoded) hr' hok _

/-! ## Visitor inputs -/

/-- What a visitor can do: a request or an upgrade through the Worker, and a message or a close on
an accepted WebSocket, whose reason has at most 123 bytes. -/
inductive VisitorInput where
  | fetch (r : VisitorRequest)
  | message (v : VisitorSocket) (isBinary : Bool) (data : Bytes)
  | close (v : VisitorSocket) (code : ℕ) (reason : Text) (short : (utf8Encode reason).length ≤ 123)

/-- A tunnel that is connected and takes every frame. -/
def connected : TunnelLink := ⟨true, true⟩

namespace TunnelDO

/-- `pumpRequestBody` on a whole body. -/
def pumpRequestBody (d : TunnelDO) (streamId : ℕ) (values : List Bytes) (ended : Bool) : TunnelDO :=
  let d := values.foldl (fun d value => d.pumpChunk connected streamId value) d
  if ended then d.pumpEnd connected streamId else d.pumpError connected streamId

/-- The relay after a visitor's input, with all of its body. -/
def afterInput (d : TunnelDO) : VisitorInput → TunnelDO
  | .fetch r =>
    let t := d.workerFetch connected r
    match r.body with
    | some (values, ended) =>
      if d.nextStreamId ∈ t.pumps then t.pumpRequestBody d.nextStreamId values ended else t
    | none => t
  | .message v isBinary data => d.visitorMessage connected v isBinary data
  | .close v code reason _ => d.visitorClose connected v code reason

/-- The messages that a visitor's input makes the relay send. -/
def sentBy (d : TunnelDO) (input : VisitorInput) : List Posted :=
  (d.afterInput input).outbox.drop d.outbox.length

/-- The outbox grows by messages whose frames have a property. -/
def Grows (P : Frame → Prop) (d t : TunnelDO) : Prop :=
  ∃ new, t.outbox = d.outbox ++ new ∧ ∀ m ∈ new, P m.frame

variable {P : Frame → Prop} {d t u : TunnelDO}

theorem Grows.of_eq (h : t.outbox = d.outbox) : Grows P d t := ⟨[], by simp [h], by simp⟩

theorem Grows.trans (h : Grows P d t) (h' : Grows P t u) : Grows P d u := by
  obtain ⟨l, hl, hP⟩ := h
  obtain ⟨l', hl', hP'⟩ := h'
  refine ⟨l ++ l', by rw [hl', hl, List.append_assoc], fun m hm => ?_⟩
  rcases List.mem_append.mp hm with hm | hm
  · exact hP m hm
  · exact hP' m hm

/-- The first frame's sending, while connected. -/
theorem trySend_connected (d : TunnelDO) (frame : Frame) :
    (encodeFrame frame = none ∧ d.trySend connected frame = none) ∨
      ∃ m : Message, m.frame = frame ∧ d.trySend connected frame = some (true, d.post m) := by
  unfold trySend
  split
  · rename_i bytes hb
    exact .inr ⟨⟨frame, bytes, hb⟩, rfl, rfl⟩
  · rename_i hb
    exact .inl ⟨hb, rfl⟩

theorem grows_post {m : Message} (h : P m.frame) : Grows P d (d.post m) :=
  ⟨[_], rfl, by simpa using h⟩

theorem grows_sendOnly {frame : Frame} (h : P frame) : Grows P d (d.sendOnly connected frame) := by
  unfold sendOnly
  rcases d.trySend_connected frame with ⟨-, hs⟩ | ⟨m, rfl, hs⟩
  · rw [hs]
    exact Grows.of_eq rfl
  · rw [hs]
    exact grows_post h

theorem grows_foldl {α : Type*} {f : TunnelDO → α → TunnelDO} {l : List α}
    (h : ∀ a ∈ l, ∀ d, Grows P d (f d a)) (d : TunnelDO) : Grows P d (l.foldl f d) := by
  induction l generalizing d with
  | nil => exact Grows.of_eq rfl
  | cons a l ih =>
    exact (h a (by simp) d).trans (ih (fun b hb => h b (List.mem_cons_of_mem a hb)) _)

end TunnelDO

/-! ## Frames that follow an opening -/

/-- Every encoding of the frame is accepted. -/
def AlwaysAccepted (f : Frame) : Prop := ∀ m : Message, m.frame = f → Accepted m

theorem alwaysAccepted_bodyChunk (i : ℕ) (data : Bytes) : AlwaysAccepted (.bodyChunk i data) := by
  rintro ⟨_, b, he⟩ rfl
  refine accepted_of_ok ?_ trivial
  rw [encodeFrame] at he
  split_ifs at he with hd
  have := length_withHeader he
  show b.length ≤ _
  omega

theorem alwaysAccepted_bodyEnd (i : ℕ) : AlwaysAccepted (.bodyEnd i) := by
  rintro ⟨_, b, he⟩ rfl
  refine accepted_of_ok ?_ trivial
  have hlen := length_withHeader he
  show b.length ≤ _
  rw [hlen]
  decide

theorem units_le_utf8Length (s : Text) : units s ≤ (utf8Encode s).length := by
  induction s with
  | nil => exact Nat.zero_le _
  | cons c s ih =>
    have hc : charUnits c ≤ (String.utf8EncodeChar c).length := by
      rw [utf8EncodeChar_eq]
      unfold charUnits
      split_ifs <;> simp only [List.length_cons, List.length_nil] <;> omega
    rw [units_cons, Json.utf8Length_cons]
    omega

theorem alwaysAccepted_closeStream (i : ℕ) {code : ℕ} (hcode : code < 10000) {reason : Text}
    (hreason : (utf8Encode reason).length ≤ 123) : AlwaysAccepted (.closeStream i code reason) := by
  rintro ⟨_, b, he⟩ rfl
  refine accepted_of_ok ?_ trivial
  have hlen := length_withHeader he
  have hobj := Json.size_obj_le [("code".toList, .num (.ofNat code)), ("reason".toList, .str reason)]
  have h1 := Json.size_str_le reason
  have h2 := units_le_utf8Length reason
  have h3 : Json.size (.num (.ofNat code)) ≤ 4 := by
    have hd : (Nat.toDigits 10 code).length ≤ 4 :=
      (Nat.length_toDigits_le_iff (by decide) (by decide)).mpr hcode
    unfold Json.size
    rw [Json.stringify, Json.utf8Length_ascii]
    · exact hd
    · intro c hc
      have := Number.mem_toDigits hc
      simp only [Char.isDigit, Bool.and_eq_true, decide_eq_true_eq] at this
      exact le_trans (UInt32.le_iff_toNat_le.mp this.2) (by decide)
  have hnames : (utf8Encode (Json.quote "code".toList)).length = 6 ∧
      (utf8Encode (Json.quote "reason".toList)).length = 8 := by decide +kernel
  simp only [List.map_cons, List.map_nil, List.sum_cons, List.sum_nil, Json.memberSize] at hobj
  have hjson : (jsonPayload (.obj [("code".toList, .num (.ofNat code)),
      ("reason".toList, .str reason)])).length = Json.size (.obj [("code".toList,
      .num (.ofNat code)), ("reason".toList, .str reason)]) := rfl
  show b.length ≤ _
  unfold MAX_CHUNK_BYTES
  omega

/-- A WebSocket message is accepted exactly when its data fits. -/
theorem accepted_wsData_iff {m : Message} {i : ℕ} {isBinary : Bool} {data : Bytes}
    (hm : m.frame = .wsData i isBinary data) : Accepted m ↔ data.length ≤ MAX_CHUNK_BYTES := by
  obtain ⟨_, b, he⟩ := m
  obtain rfl : _ = Frame.wsData i isBinary data := hm
  have hlen : b.length = data.length + 6 := by
    have := length_withHeader he
    simpa using this
  constructor
  · intro h
    have := h TunnelSession.emptyArrays TunnelSession.calm .new TunnelSession.bounded_new trivial
    unfold TunnelSession.process at this
    by_contra hlt
    rw [if_pos (show MAX_CHUNK_BYTES + 6 < b.length by omega)] at this
    exact absurd this (by simp)
  · intro h
    exact accepted_of_ok (show b.length ≤ _ by omega) trivial

/-- An accepted opening passes the session's check: a new session refuses it otherwise. -/
theorem validateOpenFrame_of_accepted {m : Message} (h : Accepted m) (hr : Ready .new m.frame)
    (ht : m.frame.frameType = .openHttp ∨ m.frame.frameType = .openWs) :
    (validateOpenFrame m.frame.frameType m.frame.raw).isSome := by
  have hp := h TunnelSession.emptyArrays TunnelSession.calm .new TunnelSession.bounded_new hr
  unfold TunnelSession.process at hp
  split_ifs at hp
  · exact absurd hp (by simp)
  rw [decodeFrame_encodeFrame m.encoded] at hp
  simp only [TunnelSession.onFrame, Frame.id_raw (streamId_le_of_encoded m.encoded),
    Frame.frameType_raw] at hp
  cases hv : validateOpenFrame m.frame.frameType m.frame.raw with
  | some opening => rfl
  | none =>
    rcases ht with ht | ht <;>
      simp [ht, TunnelSession.onOpen, show validateOpenFrame _ m.frame.raw = none from ht ▸ hv,
        TunnelSession.new] at hp

/-- An HTTP opening is accepted exactly when it is within the limits. -/
theorem accepted_openHttp_iff {m : Message} {i : ℕ} {info : OpenHttp}
    (hm : m.frame = .openHttp i info) (ht : info.target = none) (hc : HeadersClean info.headers) :
    Accepted m ↔ info.Ok := by
  obtain ⟨_, b, he⟩ := m
  obtain rfl : _ = Frame.openHttp i info := hm
  constructor
  · intro h
    exact (validOpenHttp_iff i hc).mp
      (validateOpenFrame_of_accepted h ⟨List.not_mem_nil, List.not_mem_nil⟩ (.inl rfl))
  · intro h
    exact accepted_of_ok (length_openHttp_le h ht he) ⟨h, ht, hc⟩

/-- A WebSocket opening is accepted exactly when it is within the limits. -/
theorem accepted_openWs_iff {m : Message} {i : ℕ} {info : OpenWs}
    (hm : m.frame = .openWs i info) (ht : info.target = none) (hc : HeadersClean info.headers) :
    Accepted m ↔ info.Ok := by
  obtain ⟨_, b, he⟩ := m
  obtain rfl : _ = Frame.openWs i info := hm
  constructor
  · intro h
    exact (validOpenWs_iff i hc).mp
      (validateOpenFrame_of_accepted h ⟨List.not_mem_nil, List.not_mem_nil⟩ (.inr rfl))
  · intro h
    exact accepted_of_ok (length_openWs_le h ht he) ⟨h, ht, hc⟩

/-! ## The limits of a request -/

namespace VisitorRequest

/-- A request that the session's check lets pass. -/
def WithinLimits (r : VisitorRequest) : Prop :=
  ¬['/', '/'] <+: r.url.pathname ∧ (∀ q ∈ r.url.query, '\\' ∉ q) ∧ units r.path ≤ 16384 ∧
    HeadersOk (forwardableHeaders r.headers) ∧
    if r.isUpgrade then ProtocolsOk r.protocols else isMethodName r.method = true

theorem headersClean_forwardable (r : VisitorRequest) :
    HeadersClean (forwardableHeaders r.headers) :=
  fun p hp => r.headers_clean p (List.mem_of_mem_filter hp)

end VisitorRequest

theorem not_isLineBreak_of_lt {c : Char} (h : 0x1F < c.toNat) : isLineBreak c = false := by
  unfold isLineBreak
  simp only [Bool.or_eq_false_iff, decide_eq_false_iff_not]
  refine ⟨⟨?_, ?_⟩, by omega⟩ <;> rintro rfl <;> exact absurd h (by decide)

theorem lt_of_not_c0 {c : Char} (h : c0ControlSet c = false) : 0x1F < c.toNat := by
  unfold c0ControlSet at h
  simp only [Bool.or_eq_false_iff, decide_eq_false_iff_not, not_le] at h
  exact h.1

theorem pathChar_ok {c : Char} (h : pathChar c = true) : c ≠ '\\' ∧ isLineBreak c = false := by
  unfold pathChar pathSet querySet at h
  simp only [Bool.and_eq_true, Bool.not_eq_true', Bool.or_eq_false_iff, bne_iff_ne] at h
  exact ⟨h.2, not_isLineBreak_of_lt (lt_of_not_c0 h.1.1.1.1.1.1.1.1.1.1.1)⟩

theorem queryChar_ok {c : Char} (h : queryChar c = true) : isLineBreak c = false := by
  unfold queryChar specialQuerySet querySet at h
  simp only [Bool.not_eq_true', Bool.or_eq_false_iff] at h
  exact not_isLineBreak_of_lt (lt_of_not_c0 h.1.1.1.1.1.1)

/-- The path of a request passes exactly without a leading `//`, without a backslash in the query
and with at most 16384 units. -/
theorem pathOk_iff (r : VisitorRequest) :
    PathOk r.path ↔ ¬['/', '/'] <+: r.url.pathname ∧ (∀ q ∈ r.url.query, '\\' ∉ q) ∧
      units r.path ≤ 16384 := by
  obtain ⟨p, hp⟩ := r.url.rooted
  have hpath := r.url.path_clean
  have hhead : r.path.head? = some '/' := by
    unfold VisitorRequest.path
    rw [hp]
    rfl
  have hslash : ['/', '/'] <+: r.path ↔ ['/', '/'] <+: r.url.pathname := by
    unfold VisitorRequest.path
    rw [hp]
    cases p with
    | cons c p => simp [List.cons_prefix_cons]
    | nil =>
      unfold Url.search
      split <;> simp [List.cons_prefix_cons]
  have hall : (r.path.all fun c => c ≠ '\\' ∧ !isLineBreak c) = true ↔
      ∀ q ∈ r.url.query, '\\' ∉ q := by
    unfold VisitorRequest.path
    have h1 : (r.url.pathname.all fun c => c ≠ '\\' ∧ !isLineBreak c) = true := by
      rw [List.all_eq_true]
      intro c hc
      have := pathChar_ok (hpath c hc)
      simp [this.1, this.2]
    rw [List.all_append, h1, Bool.true_and]
    unfold Url.search
    cases hq : r.url.query with
    | none => simp
    | some q =>
      have hclean := r.url.query_clean q hq
      cases q with
      | nil => simp
      | cons c q =>
        rw [List.all_cons, show (decide ('?' ≠ '\\' ∧ (!isLineBreak '?') = true)) = true by decide,
          Bool.true_and, List.all_eq_true]
        constructor
        · rintro h _ ⟨⟩ hmem
          exact absurd (h _ hmem) (by simp)
        · intro h d hd
          have hne : d ≠ '\\' := by
            rintro rfl
            exact h _ rfl hd
          simp [hne, queryChar_ok (hclean d hd)]
  unfold PathOk
  rw [hslash, hall]
  exact ⟨fun ⟨_, h2, h3, h4⟩ => ⟨h2, h4, h3⟩, fun ⟨h1, h2, h3⟩ => ⟨hhead, h1, h3, h2⟩⟩

namespace TunnelDO

variable {d t : TunnelDO}

/-- The opening of a request. -/
def opening (d : TunnelDO) (r : VisitorRequest) : Frame :=
  if r.isUpgrade then .openWs d.nextStreamId r.openWs else .openHttp d.nextStreamId r.openHttp

/-- A connected relay sends the opening of a request, if it can be encoded. -/
theorem outbox_proxyGuestRequest (d : TunnelDO) (r : VisitorRequest) :
    (encodeFrame (d.opening r) = none ∧ (d.proxyGuestRequest connected r).1.outbox = d.outbox) ∨
      ∃ m : Posted, m.frame = d.opening r ∧
        (d.proxyGuestRequest connected r).1.outbox = d.outbox ++ [m] := by
  unfold proxyGuestRequest opening
  rw [if_pos (show connected.active = true from rfl)]
  by_cases hu : r.isUpgrade = true
  · rw [if_pos hu, if_pos hu]
    unfold openVisitorWebSocket
    rcases trySend_connected { d with nextStreamId := d.nextStreamId + 1 }
      (.openWs d.nextStreamId r.openWs) with ⟨hn, hs⟩ | ⟨m, hm, hs⟩
    · simp only [hs]
      exact .inl ⟨hn, trivial⟩
    · simp only [hs]
      exact .inr ⟨{ m with number := d.sent }, hm, rfl⟩
  · rw [if_neg hu, if_neg hu]
    unfold proxyHttp
    rcases trySend_connected { d with
      nextStreamId := d.nextStreamId + 1
      pendingHttp := d.pendingHttp.set d.nextStreamId ⟨none, false, true⟩ }
      (.openHttp d.nextStreamId r.openHttp) with ⟨hn, hs⟩ | ⟨m, hm, hs⟩
    · simp only [hs]
      exact .inl ⟨hn, trivial⟩
    · simp only [hs]
      refine .inr ⟨{ m with number := d.sent }, hm, ?_⟩
      split_ifs <;> rfl

theorem grows_pumpRequestBody (d : TunnelDO) (i : ℕ) (values : List Bytes) (ended : Bool) :
    Grows AlwaysAccepted d (d.pumpRequestBody i values ended) := by
  have hpump : Grows AlwaysAccepted d
      (values.foldl (fun d value => d.pumpChunk connected i value) d) := by
    refine grows_foldl (fun value _ e => ?_) d
    refine grows_foldl (fun frame hf e => grows_sendOnly ?_) e
    obtain ⟨data, -, rfl⟩ := List.mem_map.mp hf
    exact alwaysAccepted_bodyChunk i data
  have hfail : (utf8Encode "request body error".toList).length ≤ 123 := by decide +kernel
  unfold pumpRequestBody
  cases ended with
  | true => exact hpump.trans (grows_sendOnly (alwaysAccepted_bodyEnd i))
  | false =>
    exact hpump.trans (grows_sendOnly (alwaysAccepted_closeStream i (by decide) hfail))

theorem encode_opening_eq_none {r : VisitorRequest} :
    encodeFrame (d.opening r) = none ↔ 0xffffffff < d.nextStreamId := by
  have key : ∀ (type : ℕ) (payload : Bytes), withHeader type d.nextStreamId payload = none ↔
      0xffffffff < d.nextStreamId := by
    intro type payload
    unfold withHeader
    split_ifs with h
    · exact ⟨fun hn => absurd hn (by simp), fun hlt => absurd h (by omega)⟩
    · exact ⟨fun _ => by omega, fun _ => rfl⟩
  unfold opening
  split_ifs
  · exact key 5 _
  · exact key 1 _

/-- The opening of a request is accepted exactly when the request is within the limits. -/
theorem accepted_opening_iff {m : Message} {r : VisitorRequest} (hm : m.frame = d.opening r) :
    Accepted m ↔ r.WithinLimits := by
  unfold opening at hm
  unfold VisitorRequest.WithinLimits
  by_cases hu : r.isUpgrade = true
  · rw [if_pos hu] at hm
    rw [if_pos hu, accepted_openWs_iff hm rfl r.headersClean_forwardable]
    unfold OpenWs.Ok
    show PathOk r.path ∧ HeadersOk (forwardableHeaders r.headers) ∧ ProtocolsOk r.protocols ↔ _
    rw [pathOk_iff]
    tauto
  · rw [if_neg hu] at hm
    rw [if_neg hu, accepted_openHttp_iff hm rfl r.headersClean_forwardable]
    unfold OpenHttp.Ok
    show PathOk r.path ∧ HeadersOk (forwardableHeaders r.headers) ∧ isMethodName r.method = true ↔ _
    rw [pathOk_iff]
    tauto

/-- What follows a fetch is always accepted. -/
theorem grows_afterFetch (d : TunnelDO) (r : VisitorRequest) :
    Grows AlwaysAccepted (d.workerFetch connected r) (d.afterInput (.fetch r)) := by
  unfold afterInput
  simp only
  split
  · split_ifs
    · exact grows_pumpRequestBody _ _ _ _
    · exact Grows.of_eq rfl
  · exact Grows.of_eq rfl

end TunnelDO

/-- The inputs that leave the tunnel up. -/
def VisitorInput.Harmless (d : TunnelDO) : VisitorInput → Prop
  | fetch r => r.url.pathname = RELAY_IDENTITY_PATH ∨ r.url.pathname = TUNNEL_PATH ∨
    0xffffffff < d.nextStreamId ∨ r.withOrigin.WithinLimits
  | message v _ data => 0xffffffff < v.streamId ∨ data.length ≤ MAX_CHUNK_BYTES
  | close _ _ _ _ => True

namespace TunnelDO

variable {d : TunnelDO}

theorem sentBy_of_outbox {input : VisitorInput} {new : List Posted}
    (h : (d.afterInput input).outbox = d.outbox ++ new) : d.sentBy input = new := by
  unfold sentBy
  rw [h, List.drop_left]

theorem sentBy_fetch_iff (d : TunnelDO) (r : VisitorRequest) :
    (∀ m ∈ d.sentBy (.fetch r), Accepted m.toMessage) ↔ VisitorInput.Harmless d (.fetch r) := by
  obtain ⟨new, hnew, hall⟩ := d.grows_afterFetch r
  have hafter : ∀ m ∈ new, Accepted m.toMessage := fun m hm => hall m hm m.toMessage rfl
  have none_sent : (d.workerFetch connected r).outbox = d.outbox →
      ∀ m ∈ d.sentBy (.fetch r), Accepted m.toMessage := by
    intro h
    rw [sentBy_of_outbox (h ▸ hnew)]
    exact hafter
  unfold VisitorInput.Harmless
  by_cases h1 : r.url.pathname = RELAY_IDENTITY_PATH
  · exact ⟨fun _ => .inl h1, fun _ => none_sent (by unfold workerFetch; rw [if_pos h1])⟩
  by_cases h2 : r.url.pathname = TUNNEL_PATH
  · exact ⟨fun _ => .inr (.inl h2),
      fun _ => none_sent (by unfold workerFetch; rw [if_neg h1, if_pos h2])⟩
  have hfetch : d.workerFetch connected r = (d.proxyGuestRequest connected r.withOrigin).1 := by
    unfold workerFetch
    rw [if_neg h1, if_neg h2]
  rcases d.outbox_proxyGuestRequest r.withOrigin with ⟨hn, ho⟩ | ⟨m, hm, ho⟩
  · exact ⟨fun _ => .inr (.inr (.inl (encode_opening_eq_none.mp hn))),
      fun _ => none_sent (by rw [hfetch, ho])⟩
  have hid : ¬0xffffffff < d.nextStreamId := by
    intro hlt
    have := m.encoded
    rw [hm, encode_opening_eq_none.mpr hlt] at this
    exact absurd this (by simp)
  rw [hfetch, ho, List.append_assoc] at hnew
  rw [sentBy_of_outbox hnew, List.forall_mem_append, List.forall_mem_singleton,
    accepted_opening_iff hm]
  exact ⟨fun h => .inr (.inr (.inr h.1)), fun h => ⟨by tauto, hafter⟩⟩

theorem sentBy_message_iff (d : TunnelDO) (v : VisitorSocket) (isBinary : Bool) (data : Bytes) :
    (∀ m ∈ d.sentBy (.message v isBinary data), Accepted m.toMessage) ↔
      VisitorInput.Harmless d (.message v isBinary data) := by
  rcases d.trySend_connected (.wsData v.streamId isBinary data) with ⟨hn, hs⟩ | ⟨m, hm, hs⟩
  · have hstep : d.afterInput (.message v isBinary data) = d := by
      show d.visitorMessage connected v isBinary data = d
      unfold visitorMessage
      rw [if_pos (show connected.active = true from rfl), hs]
    have hid : 0xffffffff < v.streamId := by
      rw [encodeFrame] at hn
      unfold withHeader at hn
      split_ifs at hn with h
      omega
    have hnone : d.sentBy (.message v isBinary data) = [] :=
      sentBy_of_outbox (by rw [hstep, List.append_nil])
    rw [hnone]
    exact ⟨fun _ => .inl hid, fun _ => by simp⟩
  · have hstep : d.afterInput (.message v isBinary data) = d.post m := by
      show d.visitorMessage connected v isBinary data = d.post m
      unfold visitorMessage
      rw [if_pos (show connected.active = true from rfl), hs]
    have hid : v.streamId ≤ 0xffffffff := by
      have := streamId_le_of_encoded (hm ▸ m.encoded)
      exact this
    rw [sentBy_of_outbox (by rw [hstep]; rfl), List.forall_mem_singleton, accepted_wsData_iff hm]
    exact ⟨fun h => .inr h, fun h => h.resolve_left (by omega)⟩

theorem sentBy_close (d : TunnelDO) (v : VisitorSocket) (code : ℕ) {reason : Text}
    (short : (utf8Encode reason).length ≤ 123) :
    ∀ m ∈ d.sentBy (.close v code reason short), Accepted m.toMessage := by
  have hcode : safeCloseCode code < 10000 := by
    unfold safeCloseCode
    split_ifs <;> omega
  have hgrows : Grows AlwaysAccepted d (d.afterInput (.close v code reason short)) := by
    refine (grows_sendOnly (alwaysAccepted_closeStream v.streamId hcode short)).trans (.of_eq ?_)
    exact outbox_closeVisitor _ _ _ _ _
  obtain ⟨new, hnew, hall⟩ := hgrows
  rw [sentBy_of_outbox hnew]
  exact fun m hm => hall m hm m.toMessage rfl

/-- **Visitor safety.** A connected relay sends only messages that the session
processes exactly when the visitor's input is within the session's limits. -/
theorem sentBy_accepted_iff (d : TunnelDO) (input : VisitorInput) :
    (∀ m ∈ d.sentBy input, Accepted m.toMessage) ↔ input.Harmless d := by
  cases input with
  | fetch r => exact d.sentBy_fetch_iff r
  | message v isBinary data => exact d.sentBy_message_iff v isBinary data
  | close v code reason short => exact ⟨fun _ => trivial, fun _ => d.sentBy_close v code short⟩

/-- A visitor's GET of `//a`. -/
def doubleSlash : VisitorRequest where
  method := "GET".toList
  url := { pathname := "//a".toList, query := none, rooted := ⟨_, rfl⟩,
           path_clean := by decide, query_clean := noQuery_clean }
  origin := "https://x".toList
  headers := []
  body := none
  origin_clean := by unfold HeaderText; decide
  headers_clean := noHeaders_clean

theorem not_sentBy_accepted :
    ¬ ∀ (d : TunnelDO) (input : VisitorInput), ∀ m ∈ d.sentBy input, Accepted m.toMessage := by
  intro h
  rcases (sentBy_accepted_iff .new (.fetch doubleSlash)).mp (h .new (.fetch doubleSlash)) with
    hp | hp | hp | hp
  · exact absurd hp (by decide)
  · exact absurd hp (by decide)
  · exact absurd hp (by decide)
  · exact hp.1 (by decide)

end TunnelDO

end BbShared
