import BbShared.Bounds
import BbShared.Naming

/-!
# What a session sends

`tunnel-client/src/session.ts`: the frames that a session gives to its tunnel, whatever it is sent.
But for the messages of its origin sockets they are answers, and every one of them has an encoding:
`send` does not throw, and the relay decodes the frame that was meant.
-/

namespace BbShared

open Js

/-- A frame that neither opens a stream nor carries a message, with a chunk that fits in it. -/
def Frame.Answers : Frame → Prop
  | .respHead _ _ _ => True
  | .bodyChunk _ data => data.length ≤ MAX_CHUNK_BYTES
  | .bodyEnd _ => True
  | .wsOpenAck _ _ => True
  | .closeStream _ _ _ => True
  | .openHttp _ _ => False
  | .openWs _ _ => False
  | .wsData _ _ _ => False

/-- A message of an origin socket. -/
def Frame.IsMessage : Frame → Prop
  | .wsData _ _ _ => True
  | _ => False

theorem answers_of_mem_chunkBody {id : ℕ} {data : Bytes} {f : Frame} (h : f ∈ chunkBody id data) :
    f.Answers := by
  obtain ⟨b, hb, rfl⟩ := List.mem_map.mp h
  exact length_le_of_mem_chunks hb

/-- A frame of a stream id that fits has an encoding, if its chunk does. -/
theorem exists_encodeFrame {f : Frame} (hf : f.Answers ∨ f.IsMessage)
    (hid : f.streamId ≤ 0xffffffff) : ∃ b, encodeFrame f = some b := by
  have hheader : ∀ (type : ℕ) (payload : Bytes), ∃ b, withHeader type f.streamId payload = some b :=
    fun _ _ => ⟨_, if_pos hid⟩
  cases f with
  | bodyChunk i data =>
    have hlen : ¬ MAX_CHUNK_BYTES < data.length := Nat.not_lt.mpr (hf.resolve_right fun h => h)
    obtain ⟨b, hb⟩ := hheader 2 data
    exact ⟨b, (if_neg hlen).trans hb⟩
  | openHttp i info => exact absurd (or_self_iff.mp hf) fun h => h
  | openWs i info => exact absurd (or_self_iff.mp hf) fun h => h
  | _ => exact hheader _ _

namespace TunnelSession

variable {co : Coercion} {io : Io} {s t u : TunnelSession}

/-! ## Steps that send answers -/

/-- What is sent are answers, and a session that is disposed of stays so. -/
structure Emits (s t : TunnelSession) : Prop where
  outbox : ∃ l, t.outbox = s.outbox ++ l ∧ ∀ m ∈ l, m.frame.Answers
  disposed : s.disposed = true → t.disposed = true

theorem emits_of_eq (ho : t.outbox = s.outbox) (hd : t.disposed = s.disposed) : Emits s t where
  outbox := ⟨[], by rw [ho, List.append_nil], by simp⟩
  disposed hs := hd.trans hs

theorem emits_refl (s : TunnelSession) : Emits s s := emits_of_eq rfl rfl

theorem Emits.trans (h : Emits s t) (h' : Emits t u) : Emits s u where
  outbox := by
    obtain ⟨l, hl, ha⟩ := h.outbox
    obtain ⟨l', hl', ha'⟩ := h'.outbox
    refine ⟨l ++ l', by rw [hl', hl, List.append_assoc], fun m hm => ?_⟩
    exact (List.mem_append.mp hm).elim (ha m) (ha' m)
  disposed hs := h'.disposed (h.disposed hs)

theorem emits_dispose (s : TunnelSession) : Emits s s.dispose := by
  unfold dispose
  split_ifs
  · exact emits_refl s
  · exact ⟨⟨[], (List.append_nil _).symm, by simp⟩, fun _ => rfl⟩

theorem emits_send (s : TunnelSession) (uid : ℕ) {f : Frame} (h : f.Answers) :
    Emits s (send io s uid f) := by
  unfold send
  split_ifs
  · exact emits_refl s
  · split
    · exact ⟨⟨_, rfl, by simpa using h⟩, fun hs => hs⟩
    · exact emits_dispose s
    · exact emits_refl s

theorem emits_sendAll (s : TunnelSession) (uid : ℕ) {frames : List Frame}
    (h : ∀ f ∈ frames, f.Answers) : Emits s (sendAll io s uid frames) := by
  unfold sendAll
  induction frames generalizing s with
  | nil => exact emits_refl s
  | cons f frames ih =>
    exact (emits_send s uid (h f List.mem_cons_self)).trans
      (ih _ fun g hg => h g (List.mem_cons_of_mem _ hg))

theorem emits_abort (s : TunnelSession) (uid : ℕ) : Emits s (s.abort uid) := emits_of_eq rfl rfl

theorem emits_finish (s : TunnelSession) (uid : ℕ) : Emits s (s.finish uid) := emits_of_eq rfl rfl

theorem emits_setHttp (s : TunnelSession) (id : ℕ) (h : HttpStream) :
    Emits s { s with httpStreams := s.httpStreams.set id h } := emits_of_eq rfl rfl

theorem emits_forgetHttpStream (s : TunnelSession) (id uid : ℕ) :
    Emits s (forgetHttpStream co s id uid) := by
  unfold forgetHttpStream
  split
  · split_ifs
    · exact emits_of_eq rfl rfl
    · exact emits_refl s
  · exact emits_refl s

theorem emits_rejectHttpStream (s : TunnelSession) (id uid : ℕ) (reason : Text) :
    Emits s (rejectHttpStream co io s id uid reason) :=
  ((emits_abort s uid).trans (emits_forgetHttpStream _ _ _)).trans (emits_send _ _ trivial)

theorem emits_forgetWsStream (s : TunnelSession) (id uid : ℕ) :
    Emits s (forgetWsStream co s id uid) := by
  unfold forgetWsStream
  split
  · split_ifs
    · exact emits_of_eq rfl rfl
    · exact emits_of_eq rfl rfl
    · exact emits_refl s
  · exact emits_refl s

theorem emits_rejectUnregisteredHttp (s : TunnelSession) (id uid : ℕ) :
    Emits s (rejectUnregisteredHttp io s id uid) := by
  refine emits_sendAll s uid fun f hf => ?_
  rcases List.mem_append.mp hf with hf | hf
  · rcases List.mem_append.mp hf with hf | hf
    · rw [List.mem_singleton.mp hf]
      trivial
    · exact answers_of_mem_chunkBody hf
  · rw [List.mem_singleton.mp hf]
    trivial

theorem emits_executeHttp (s : TunnelSession) (id : ℕ) (stream : HttpStream) :
    Emits s (executeHttp co io s id stream) := by
  unfold executeHttp
  dsimp only
  split
  · exact emits_of_eq rfl rfl
  · exact ((emits_setHttp s id _).trans (emits_rejectUnregisteredHttp _ _ _)).trans
      (emits_forgetHttpStream _ _ _)

theorem emits_openOriginWs (s : TunnelSession) (id uid : ℕ) (info : OpenWs) :
    Emits s (openOriginWs io s id uid info) := by
  unfold openOriginWs
  split
  · split
    · exact emits_of_eq rfl rfl
    · exact emits_send s uid trivial
  · exact emits_send s uid trivial

theorem emits_openHttp (s : TunnelSession) (id uid : ℕ) (info : OpenHttp) :
    Emits s (openHttp co io s id uid info) := by
  unfold openHttp
  dsimp only
  split_ifs
  · exact emits_setHttp s id _
  · exact (emits_setHttp s id _).trans (emits_executeHttp _ _ _)

/-! ## Frames of the relay -/

theorem emits_onOpen {id uid : ℕ} {type : FrameType} {f : RawFrame}
    (h : onOpen co io s id uid type f = some t) : Emits s t := by
  unfold onOpen at h
  cases hv : validateOpenFrame type f with
  | none => rw [hv] at h; cases h
  | some opening =>
    rw [hv] at h
    dsimp only at h
    split_ifs at h
    · obtain rfl := Option.some.inj h
      exact emits_send s uid trivial
    · cases opening with
      | http info =>
        obtain rfl := Option.some.inj h
        exact emits_openHttp s id uid info
      | ws info =>
        obtain rfl := Option.some.inj h
        exact emits_openOriginWs s id uid info
    · cases opening with
      | http info =>
        obtain rfl := Option.some.inj h
        exact emits_rejectUnregisteredHttp s id uid
      | ws info =>
        obtain rfl := Option.some.inj h
        exact emits_send s uid trivial

theorem emits_onBodyChunk {id : ℕ} {data : Val} (h : onBodyChunk co io s id data = some t) :
    Emits s t := by
  unfold onBodyChunk at h
  cases hg : s.httpStreams.get id with
  | none =>
    rw [hg] at h
    obtain rfl := Option.some.inj h
    exact emits_refl s
  | some stream =>
    rw [hg] at h
    dsimp only at h
    split_ifs at h
    obtain ⟨isOver, -, h⟩ := Option.bind_eq_some_iff.mp h
    split_ifs at h
    · obtain rfl := Option.some.inj h
      exact emits_rejectHttpStream s id _ _
    · obtain ⟨_, -, h⟩ := Option.bind_eq_some_iff.mp h
      obtain ⟨_, -, h⟩ := Option.bind_eq_some_iff.mp h
      obtain ⟨_, -, h⟩ := Option.bind_eq_some_iff.mp h
      obtain ⟨_, -, h⟩ := Option.bind_eq_some_iff.mp h
      obtain rfl := Option.some.inj h
      exact emits_of_eq rfl rfl

theorem emits_onBodyEnd {id : ℕ} (h : onBodyEnd co io s id = some t) : Emits s t := by
  unfold onBodyEnd at h
  cases hg : s.httpStreams.get id with
  | none =>
    rw [hg] at h
    obtain rfl := Option.some.inj h
    exact emits_refl s
  | some stream =>
    rw [hg] at h
    dsimp only at h
    split_ifs at h
    obtain rfl := Option.some.inj h
    exact emits_executeHttp s id stream

theorem emits_onWsData {id : ℕ} {f : RawFrame} (h : onWsData co io s id f = some t) :
    Emits s t := by
  unfold onWsData at h
  cases hg : s.wsStreams.get id with
  | none =>
    rw [hg] at h
    obtain rfl := Option.some.inj h
    exact emits_refl s
  | some stream =>
    rw [hg] at h
    obtain ⟨isOver, -, h⟩ := Option.bind_eq_some_iff.mp h
    split_ifs at h
    · obtain rfl := Option.some.inj h
      have heffects : Emits s { s with effects := s.effects ++ [.terminate stream.uid] } :=
        emits_of_eq rfl rfl
      exact (heffects.trans (emits_forgetWsStream _ _ _)).trans (emits_send _ _ trivial)
    · obtain ⟨_, -, h⟩ := Option.bind_eq_some_iff.mp h
      obtain rfl := Option.some.inj h
      exact emits_of_eq rfl rfl
    · obtain ⟨_, -, h⟩ := Option.bind_eq_some_iff.mp h
      obtain ⟨_, -, h⟩ := Option.bind_eq_some_iff.mp h
      obtain ⟨_, -, h⟩ := Option.bind_eq_some_iff.mp h
      obtain rfl := Option.some.inj h
      exact emits_of_eq rfl rfl

theorem emits_onCloseStream (s : TunnelSession) (id : ℕ) (f : RawFrame) :
    Emits s (onCloseStream co s id f) := by
  unfold onCloseStream
  split
  · exact (emits_abort s _).trans (emits_forgetHttpStream _ _ _)
  · split
    · rename_i w _
      have heffects : Emits s { s with effects := s.effects ++
          [.close w.uid (closeCode f.code.integer) (closeReason f.reason)] } := emits_of_eq rfl rfl
      exact heffects.trans (emits_forgetWsStream _ _ _)
    · exact emits_refl s

/-- **Frames.** Whatever a frame says, it is answered at most. -/
theorem emits_onFrame {uid : ℕ} {f : RawFrame} (h : onFrame co io s uid f = some t) :
    Emits s t := by
  unfold onFrame at h
  split_ifs at h
  · obtain rfl := Option.some.inj h
    exact emits_refl s
  · cases hid : f.id with
    | none => rw [hid] at h; cases h
    | some id =>
      rw [hid] at h
      dsimp only at h
      cases hty : f.frameType with
      | none =>
        rw [hty] at h
        obtain rfl := Option.some.inj h
        exact emits_refl s
      | some type =>
        rw [hty] at h
        cases type with
        | openHttp => exact emits_onOpen h
        | openWs => exact emits_onOpen h
        | bodyChunk => exact emits_onBodyChunk h
        | bodyEnd => exact emits_onBodyEnd h
        | wsData => exact emits_onWsData h
        | closeStream =>
          obtain rfl := Option.some.inj h
          exact emits_onCloseStream s id f
        | respHead =>
          obtain rfl := Option.some.inj h
          exact emits_refl s
        | wsOpenAck =>
          obtain rfl := Option.some.inj h
          exact emits_refl s

/-- **Messages.** Whatever the relay sends, it is answered at most. -/
theorem emits_onMessage (s : TunnelSession) (message : Bytes) :
    Emits s (onMessage co io s message) := by
  have hcount : Emits s { s with received := s.received + 1 } := emits_of_eq rfl rfl
  unfold onMessage
  cases hp : process co io s message with
  | none => exact hcount.trans (emits_dispose _)
  | some t =>
    unfold process at hp
    split_ifs at hp
    cases hd : decodeFrame message with
    | none => rw [hd] at hp; cases hp
    | some f =>
      rw [hd] at hp
      exact hcount.trans (emits_onFrame hp)

/-! ## Events of the origin -/

theorem emits_replay {uid : ℕ} {frames : List RawFrame} (h : replay co io s uid frames = some t) :
    Emits s t := by
  unfold replay at h
  induction frames generalizing s with
  | nil =>
    obtain rfl := Option.some.inj h
    exact emits_refl s
  | cons f frames ih =>
    rw [List.foldlM_cons] at h
    obtain ⟨u, hu, h⟩ := Option.bind_eq_some_iff.mp h
    exact (emits_onFrame hu).trans (ih h)

theorem emits_drain (s : TunnelSession) (id : ℕ) (w : WsStream) : Emits s (drain co s id w) := by
  unfold drain
  dsimp only
  split_ifs <;> exact emits_of_eq rfl rfl

theorem emits_flush {id : ℕ} {w : WsStream} {protocol : Option Text}
    (h : flush co io s id w protocol = some t) : Emits s t := by
  have hset : Emits s { s with wsStreams := s.wsStreams.set id { w with isOpen := true } } :=
    emits_of_eq rfl rfl
  have hack : (Frame.wsOpenAck id protocol).Answers := trivial
  exact ((hset.trans (emits_send _ _ hack)).trans (emits_drain _ _ _)).trans (emits_replay h)

theorem emits_socketOpen {uid : ℕ} {protocol : Option Text}
    (h : socketOpen co io s uid protocol = some t) : Emits s t := by
  have hmark : Emits s (s.markOpened uid) := emits_of_eq rfl rfl
  have hend : Emits s { s.markOpened uid with
      effects := (s.markOpened uid).effects ++ [.terminate uid] } := emits_of_eq rfl rfl
  unfold socketOpen at h
  cases hk : s.sockets.find? fun k => k.uid = uid ∧ k.opened = false with
  | none => rw [hk] at h; cases h
  | some k =>
    rw [hk] at h
    dsimp only at h
    cases hg : (s.markOpened uid).wsStreams.get k.streamId with
    | none =>
      rw [hg] at h
      obtain rfl := Option.some.inj h
      exact hend
    | some w =>
      rw [hg] at h
      dsimp only at h
      split_ifs at h
      · exact hmark.trans (emits_flush h)
      · obtain rfl := Option.some.inj h
        exact hend

theorem emits_socketClose {uid code : ℕ} {reason : Bytes}
    (h : socketClose co io s uid code reason = some t) : Emits s t := by
  unfold socketClose at h
  obtain ⟨k, -, h⟩ := Option.bind_eq_some_iff.mp h
  have hgone : Emits s { s with sockets := s.sockets.filter fun k => k.uid ≠ uid } :=
    emits_of_eq rfl rfl
  dsimp only at h
  split_ifs at h
  · obtain rfl := Option.some.inj h
    exact (hgone.trans (emits_forgetWsStream _ _ _)).trans (emits_send _ _ trivial)
  · obtain rfl := Option.some.inj h
    exact hgone

theorem emits_originResponse {uid : ℕ} {status : Option ℕ} {headers : List HeaderPair}
    {duration : Text} (h : originResponse io s uid status headers duration = some t) :
    Emits s t := by
  unfold originResponse at h
  obtain ⟨r, -, h⟩ := Option.bind_eq_some_iff.mp h
  split at h
  · obtain rfl := Option.some.inj h
    exact (emits_send s uid (f := .respHead _ _ _) trivial).trans (emits_of_eq rfl rfl)
  · obtain rfl := Option.some.inj h
    exact emits_finish s uid

theorem emits_originChunk {uid : ℕ} {data : Bytes} (h : originChunk io s uid data = some t) :
    Emits s t := by
  unfold originChunk at h
  obtain ⟨r, -, h⟩ := Option.bind_eq_some_iff.mp h
  split_ifs at h
  · obtain rfl := Option.some.inj h
    exact emits_sendAll s uid fun f hf => answers_of_mem_chunkBody hf
  · obtain rfl := Option.some.inj h
    exact emits_finish s uid

theorem emits_originEnd {uid : ℕ} (h : originEnd co io s uid = some t) : Emits s t := by
  unfold originEnd at h
  obtain ⟨r, -, h⟩ := Option.bind_eq_some_iff.mp h
  obtain rfl := Option.some.inj h
  have hend : (Frame.bodyEnd r.streamId).Answers := trivial
  exact ((emits_send s uid hend).trans (emits_forgetHttpStream _ _ _)).trans (emits_finish _ _)

theorem emits_originError {uid : ℕ} (h : originError co io s uid = some t) : Emits s t := by
  unfold originError at h
  obtain ⟨r, -, h⟩ := Option.bind_eq_some_iff.mp h
  obtain rfl := Option.some.inj h
  refine Emits.trans ?_ ((emits_forgetHttpStream _ _ _).trans (emits_finish _ _))
  split_ifs
  · exact emits_refl s
  · exact emits_send s uid trivial

theorem emits_bodyTimeout {id : ℕ} (h : bodyTimeout co io s id = some t) : Emits s t := by
  unfold bodyTimeout at h
  split at h
  · split_ifs at h
    obtain rfl := Option.some.inj h
    exact emits_rejectHttpStream s id _ _
  · cases h

/-- **Local events.** But for the messages of the origin, only answers are sent. -/
theorem emits_onLocal {e : LocalEvent} (he : ∀ uid b data, e ≠ .socketMessage uid b data)
    (h : onLocal co io s e = some t) : Emits s t := by
  cases e with
  | bodyTimeout id => exact emits_bodyTimeout h
  | originResponse uid status headers duration => exact emits_originResponse h
  | originChunk uid data => exact emits_originChunk h
  | originEnd uid => exact emits_originEnd h
  | originError uid => exact emits_originError h
  | socketOpen uid protocol => exact emits_socketOpen h
  | socketMessage uid b data => exact absurd rfl (he uid b data)
  | socketClose uid code reason => exact emits_socketClose h
  | tunnelClose =>
    obtain rfl := Option.some.inj h
    exact emits_dispose s

/-- What a visitor is to get of a message of the origin: a text is read as UTF-8. -/
def originMessage (m : Bool × Bytes) : Bool × Bytes :=
  (m.1, if m.1 then m.2 else utf8Encode (utf8Decode m.2))

/-- A message of the origin is sent, on the stream of its socket, while the session and its tunnel
are live; a congested tunnel ends the session. -/
inductive Forwards (io : Io) (s : TunnelSession) (uid : ℕ) (m : Bool × Bytes) :
    TunnelSession → Prop
  | sent {k : OriginSocket} (hk : k ∈ s.sockets) (hu : k.uid = uid) (hd : s.disposed = false)
      (hl : io.link s.outbox.length = .isOpen) :
      Forwards io s uid m { s with outbox := s.outbox ++
        [⟨uid, .wsData k.streamId (originMessage m).1 (originMessage m).2⟩] }
  | disposed : Forwards io s uid m s.dispose
  | closed (h : s.disposed = true ∨ io.link s.outbox.length = .closed) : Forwards io s uid m s

theorem forwards_socketMessage {uid : ℕ} {b : Bool} {data : Bytes}
    (h : socketMessage io s uid b data = some t) : Forwards io s uid (b, data) t := by
  unfold socketMessage at h
  obtain ⟨k, hk, h⟩ := Option.bind_eq_some_iff.mp h
  have hu : k.uid = uid ∧ k.opened = true := by simpa using List.find?_some hk
  obtain rfl := Option.some.inj h
  unfold send
  by_cases hd : s.disposed = true
  · rw [if_pos hd]
    exact .closed (.inl hd)
  · rw [if_neg hd]
    cases hl : io.link s.outbox.length with
    | isOpen =>
      exact .sent (List.mem_of_find?_eq_some hk) hu.1 (Bool.eq_false_of_not_eq_true hd) hl
    | congested => exact .disposed
    | closed => exact .closed (.inr hl)

/-! ## Runs -/

/-- What has been sent are answers and messages. -/
theorem Run.frames {ms : List Bytes} (h : Run co ms s) :
    ∀ m ∈ s.outbox, m.frame.Answers ∨ m.frame.IsMessage := by
  have hstep : ∀ {s t : TunnelSession}, (∀ m ∈ s.outbox, m.frame.Answers ∨ m.frame.IsMessage) →
      Emits s t → ∀ m ∈ t.outbox, m.frame.Answers ∨ m.frame.IsMessage := by
    intro s t hs he m hm
    obtain ⟨l, hl, ha⟩ := he.outbox
    rw [hl] at hm
    exact (List.mem_append.mp hm).elim (hs m) fun hm => .inl (ha m hm)
  induction h with
  | new => nofun
  | message io message _ ih => exact hstep ih (emits_onMessage _ message)
  | @event ms s t io e _ ht ih =>
    by_cases he : ∀ uid b data, e ≠ .socketMessage uid b data
    · exact hstep ih (emits_onLocal he ht)
    · push Not at he
      obtain ⟨uid, b, data, rfl⟩ := he
      cases forwards_socketMessage ht with
      | sent hk hu hd hl =>
        intro m hm
        rcases List.mem_append.mp hm with hm | hm
        · exact ih m hm
        · rw [List.mem_singleton.mp hm]
          exact .inr trivial
      | disposed => exact hstep ih (emits_dispose s)
      | closed => exact ih

/-- The stream ids of a run fit in a frame. -/
theorem Run.smallIds {ms : List Bytes} (h : Run co ms s) :
    ∃ k, s.Named (fun _ id => id ≤ 0xffffffff) (fun _ _ => True) k := by
  induction h with
  | new => exact ⟨0, named_new⟩
  | message io message _ ih =>
    obtain ⟨k, hk⟩ := ih
    refine ⟨k + 1, hk.onMessage fun f hf => ⟨fun _ id hid => ?_, fun _ _ _ => trivial⟩⟩
    unfold RawFrame.id at hid
    split at hid
    · split_ifs at hid with hrange
      obtain rfl := Option.some.inj hid
      omega
    · cases hid
  | event io e _ ht ih =>
    obtain ⟨k, hk⟩ := ih
    exact ⟨k, hk.onLocal ht⟩

/-- **Encoding.** Whatever a relay sends and whatever the origin does, each frame that a session
gives to its tunnel has an encoding, the relay decodes it to the frame's own fields, and it opens no
stream. -/
theorem sent_frames_decode {ms : List Bytes} (h : Run co ms s) :
    ∀ m ∈ s.outbox, (m.frame.Answers ∨ m.frame.IsMessage) ∧
      ∃ b, encodeFrame m.frame = some b ∧ decodeFrame b = some m.frame.raw := by
  intro m hm
  obtain ⟨k, hk⟩ := h.smallIds
  obtain ⟨b, hb⟩ := exists_encodeFrame (h.frames m hm) (hk.outbox m hm)
  exact ⟨h.frames m hm, b, hb, decodeFrame_encodeFrame hb⟩

/-- A request for a port that is not shared. -/
def foreignMessage : Bytes :=
  (encodeFrame (.openHttp 1 ⟨"GET".toList, "/".toList, [], false, some "1".toList⟩)).getD []

theorem sent_frames_decode_foreign :
    (onMessage emptyArrays calm new foreignMessage).outbox.length = 3 ∧
      ∀ m ∈ (onMessage emptyArrays calm new foreignMessage).outbox,
        (m.frame.Answers ∨ m.frame.IsMessage) ∧
          ∃ b, encodeFrame m.frame = some b ∧ decodeFrame b = some m.frame.raw :=
  ⟨by decide +kernel, sent_frames_decode (.message calm foreignMessage .new)⟩

end TunnelSession

end BbShared
