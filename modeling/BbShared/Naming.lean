import BbShared.TunnelSession
import BbShared.Machine

/-!
# Names in a session

Whatever a session holds or sends under a stream id goes back to the message that opened the
stream.  `Named H I k s` says so for a relation `H` between the numbers of messages and the stream
ids they open, and `I` between the numbers and the requests they carry, in a session that has
received `k` messages.  Every operation of the session keeps it.
-/

namespace BbShared

open Js

theorem ws_of_validateOpenFrame {f : RawFrame} {o : Opening}
    (h : validateOpenFrame .openWs f = some o) : ∃ info, o = .ws info := by
  unfold validateOpenFrame validOpenWs at h
  simp only [reduceCtorEq, if_false] at h
  obtain ⟨_, _, h⟩ := Option.bind_eq_some_iff.mp h
  obtain ⟨_, _, h⟩ := Option.bind_eq_some_iff.mp h
  obtain ⟨_, _, h⟩ := Option.bind_eq_some_iff.mp h
  exact ⟨_, (Option.some.inj h).symm⟩

namespace TunnelSession

variable {co : Coercion} {io : Io} {s t : TunnelSession}

structure Named (H : ℕ → ℕ → Prop) (I : ℕ → OpenHttp → Prop) (k : ℕ) (s : TunnelSession) :
    Prop where
  received : s.received = k
  http : ∀ e ∈ s.httpStreams.entries, H e.2.uid e.1 ∧ I e.2.uid e.2.info
  ws : ∀ e ∈ s.wsStreams.entries, H e.2.uid e.1 ∧ ∀ f ∈ e.2.buffered, f.frameType = some .wsData
  running : ∀ r ∈ s.running, H r.uid r.streamId ∧ I r.uid r.info
  sockets : ∀ k ∈ s.sockets, H k.uid k.streamId
  outbox : ∀ m ∈ s.outbox, H m.uid m.frame.streamId

variable {H : ℕ → ℕ → Prop} {I : ℕ → OpenHttp → Prop} {k : ℕ}

theorem named_new : new.Named H I 0 where
  received := rfl
  http := by intro e he; cases he
  ws := by intro e he; cases he
  running := by intro r hr; cases hr
  sockets := by intro k hk; cases hk
  outbox := by intro m hm; cases hm

namespace Named

theorem mono (h : s.Named H I k) {H' : ℕ → ℕ → Prop} {I' : ℕ → OpenHttp → Prop}
    (hH : ∀ u i, H u i → H' u i) (hI : ∀ u m, I u m → I' u m) : s.Named H' I' k where
  received := h.received
  http e he := ⟨hH _ _ (h.http e he).1, hI _ _ (h.http e he).2⟩
  ws e he := ⟨hH _ _ (h.ws e he).1, (h.ws e he).2⟩
  running r hr := ⟨hH _ _ (h.running r hr).1, hI _ _ (h.running r hr).2⟩
  sockets k hk := hH _ _ (h.sockets k hk)
  outbox m hm := hH _ _ (h.outbox m hm)

theorem get_http (h : s.Named H I k) {i : ℕ} {w : HttpStream} (hw : s.httpStreams.get i = some w) :
    H w.uid i ∧ I w.uid w.info :=
  h.http (i, w) (OrderedMap.get_eq_some.mp hw)

theorem get_ws (h : s.Named H I k) {i : ℕ} {w : WsStream} (hw : s.wsStreams.get i = some w) :
    H w.uid i ∧ ∀ f ∈ w.buffered, f.frameType = some .wsData :=
  h.ws (i, w) (OrderedMap.get_eq_some.mp hw)

theorem setEffects (h : s.Named H I k) (effects : List OriginEffect) :
    Named H I k { s with effects := effects } :=
  ⟨h.received, h.http, h.ws, h.running, h.sockets, h.outbox⟩

theorem setBufferedBytes (h : s.Named H I k) (n : Num) :
    Named H I k { s with bufferedBytes := n } :=
  ⟨h.received, h.http, h.ws, h.running, h.sockets, h.outbox⟩

/-- Running calls change, but not what they run. -/
theorem setRunning (h : s.Named H I k) {running : List Running}
    (hr : ∀ r ∈ running, ∃ r' ∈ s.running, r'.uid = r.uid ∧ r'.streamId = r.streamId ∧
      r'.info = r.info) : Named H I k { s with running := running } where
  received := h.received
  http := h.http
  ws := h.ws
  running r hm := by
    obtain ⟨r', hr', hu, hi, hm⟩ := hr r hm
    rw [← hu, ← hi, ← hm]
    exact h.running r' hr'
  sockets := h.sockets
  outbox := h.outbox

theorem abort (h : s.Named H I k) (uid : ℕ) : (s.abort uid).Named H I k := by
  refine h.setRunning fun r hr => ?_
  obtain ⟨r', hr', rfl⟩ := List.mem_map.mp hr
  refine ⟨r', hr', ?_⟩
  split_ifs <;> exact ⟨rfl, rfl, rfl⟩

theorem finish (h : s.Named H I k) (uid : ℕ) : (s.finish uid).Named H I k :=
  h.setRunning fun r hr => ⟨r, List.mem_of_mem_filter hr, rfl, rfl, rfl⟩

theorem dispose (h : s.Named H I k) : s.dispose.Named H I k := by
  unfold TunnelSession.dispose
  split_ifs
  · exact h
  · refine ⟨h.received, ?_, ?_, ?_, h.sockets, h.outbox⟩
    · intro e he; cases he
    · intro e he; cases he
    · intro r hr
      obtain ⟨r', hr', rfl⟩ := List.mem_map.mp hr
      have := h.running r' hr'
      split_ifs <;> exact this

theorem send (h : s.Named H I k) {uid : ℕ} {frame : Frame} (hn : H uid frame.streamId) :
    (TunnelSession.send io s uid frame).Named H I k := by
  unfold TunnelSession.send
  split_ifs
  · exact h
  · cases io.link s.outbox.length with
    | isOpen =>
      refine ⟨h.received, h.http, h.ws, h.running, h.sockets, ?_⟩
      intro m hm
      rcases List.mem_append.mp hm with hm | hm
      · exact h.outbox m hm
      · rw [List.mem_singleton.mp hm]
        exact hn
    | congested => exact h.dispose
    | closed => exact h

theorem sendAll {uid : ℕ} {frames : List Frame} (h : s.Named H I k)
    (hn : ∀ f ∈ frames, H uid f.streamId) : (TunnelSession.sendAll io s uid frames).Named H I k := by
  unfold TunnelSession.sendAll
  induction frames generalizing s with
  | nil => exact h
  | cons f frames ih =>
    exact ih (h.send (hn f (by simp))) fun g hg => hn g (List.mem_cons_of_mem f hg)

theorem eraseHttp (h : s.Named H I k) (i : ℕ) :
    Named H I k { s with httpStreams := s.httpStreams.erase i } :=
  ⟨h.received, fun e he => h.http e (OrderedMap.mem_entries_erase.mp he).1, h.ws, h.running,
    h.sockets, h.outbox⟩

theorem setHttp (h : s.Named H I k) {i : ℕ} {w : HttpStream} (hw : H w.uid i ∧ I w.uid w.info) :
    Named H I k { s with httpStreams := s.httpStreams.set i w } := by
  refine ⟨h.received, ?_, h.ws, h.running, h.sockets, h.outbox⟩
  intro e he
  rcases OrderedMap.mem_entries_set.mp he with rfl | ⟨he, _⟩
  · exact hw
  · exact h.http e he

theorem setWs (h : s.Named H I k) {i : ℕ} {w : WsStream} (hw : H w.uid i)
    (hb : ∀ f ∈ w.buffered, f.frameType = some .wsData) :
    Named H I k { s with wsStreams := s.wsStreams.set i w } := by
  refine ⟨h.received, h.http, ?_, h.running, h.sockets, h.outbox⟩
  intro e he
  rcases OrderedMap.mem_entries_set.mp he with rfl | ⟨he, _⟩
  · exact ⟨hw, hb⟩
  · exact h.ws e he

theorem forgetHttpStream (h : s.Named H I k) (i uid : ℕ) :
    (TunnelSession.forgetHttpStream co s i uid).Named H I k := by
  unfold TunnelSession.forgetHttpStream
  cases s.httpStreams.get i with
  | none => exact h
  | some w =>
    simp only
    split_ifs
    · exact (h.eraseHttp i).setBufferedBytes _
    · exact h

theorem rejectHttpStream (h : s.Named H I k) {i uid : ℕ} (hn : H uid i) (reason : Text) :
    (TunnelSession.rejectHttpStream co io s i uid reason).Named H I k :=
  ((h.abort uid).forgetHttpStream i uid).send hn

theorem forgetWsStream (h : s.Named H I k) (i uid : ℕ) :
    (TunnelSession.forgetWsStream co s i uid).Named H I k := by
  unfold TunnelSession.forgetWsStream
  cases s.wsStreams.get i with
  | none => exact h
  | some w =>
    simp only
    split_ifs
    · exact ⟨h.received, h.http, fun e he => h.ws e (OrderedMap.mem_entries_erase.mp he).1,
        h.running, h.sockets, h.outbox⟩
    · exact ⟨h.received, h.http, fun e he => h.ws e (OrderedMap.mem_entries_erase.mp he).1,
        h.running, h.sockets, h.outbox⟩
    · exact h

/-! ## Messages -/

theorem streamId_of_mem_chunkBody {i : ℕ} {value : Bytes} {f : Frame} (h : f ∈ chunkBody i value) :
    f.streamId = i := by
  unfold chunkBody at h
  obtain ⟨c, _, rfl⟩ := List.mem_map.mp h
  rfl

theorem rejectUnregisteredHttp (h : s.Named H I k) {i uid : ℕ} (hn : H uid i) :
    (TunnelSession.rejectUnregisteredHttp io s i uid).Named H I k := by
  refine h.sendAll fun f hf => ?_
  simp only [List.mem_append, List.mem_singleton] at hf
  rcases hf with (rfl | hf) | rfl
  · exact hn
  · rw [streamId_of_mem_chunkBody hf]; exact hn
  · exact hn

theorem addRunning (h : s.Named H I k) {r : Running} (hr : H r.uid r.streamId ∧ I r.uid r.info) :
    Named H I k { s with running := s.running ++ [r] } := by
  refine ⟨h.received, h.http, h.ws, ?_, h.sockets, h.outbox⟩
  intro r' hr'
  rcases List.mem_append.mp hr' with hr' | hr'
  · exact h.running r' hr'
  · rw [List.mem_singleton.mp hr']
    exact hr

theorem executeHttp (h : s.Named H I k) {i : ℕ} {w : HttpStream} (hw : H w.uid i ∧ I w.uid w.info) :
    (TunnelSession.executeHttp co io s i w).Named H I k := by
  unfold TunnelSession.executeHttp
  by_cases hr : isRegistered (optionalText w.info.target) = true
  · rw [if_pos hr]
    exact (h.setHttp (i := i) (w := ⟨w.uid, w.info, [], w.bytes, true, false⟩) hw).addRunning hw
  · rw [if_neg hr]
    have hs := h.setHttp (i := i) (w := ⟨w.uid, w.info, w.chunks, w.bytes, true, false⟩) hw
    exact (hs.rejectUnregisteredHttp hw.1).forgetHttpStream i w.uid

theorem openOriginWs (h : s.Named H I k) {i uid : ℕ} (hn : H uid i) (info : OpenWs) :
    (TunnelSession.openOriginWs io s i uid info).Named H I k := by
  unfold TunnelSession.openOriginWs
  split_ifs
  · have hs := h.setWs (i := i) (w := ⟨uid, [], .int 0, false,
      isBareBbRealtimeWs info.path info.target⟩) hn (by simp)
    refine ⟨hs.received, hs.http, hs.ws, hs.running, ?_, hs.outbox⟩
    intro k hk
    rcases List.mem_append.mp hk with hk | hk
    · exact h.sockets k hk
    · rw [List.mem_singleton.mp hk]
      exact hn
  · exact h.send hn
  · exact h.send hn

theorem openHttp (h : s.Named H I k) {i uid : ℕ} (hn : H uid i) {info : OpenHttp}
    (hi : I uid info) : (TunnelSession.openHttp co io s i uid info).Named H I k := by
  have hs := h.setHttp (i := i) (w := newHttpStream uid info) ⟨hn, hi⟩
  unfold TunnelSession.openHttp
  simp only
  split_ifs
  · exact hs
  · exact hs.executeHttp ⟨hn, hi⟩

theorem onOpen (h : s.Named H I k) {i uid : ℕ} (hn : H uid i) {type : FrameType} {f : RawFrame}
    (hi : ∀ info, validateOpenFrame type f = some (.http info) → I uid info)
    (ht : TunnelSession.onOpen co io s i uid type f = some t) : t.Named H I k := by
  unfold TunnelSession.onOpen at ht
  cases hv : validateOpenFrame type f with
  | none => rw [hv] at ht; cases ht
  | some opening =>
    rw [hv] at ht
    simp only at ht
    split_ifs at ht
    · obtain rfl := Option.some.inj ht
      exact h.send hn
    · cases opening with
      | http info =>
        obtain rfl := Option.some.inj ht
        exact h.openHttp hn (hi info hv)
      | ws info =>
        obtain rfl := Option.some.inj ht
        exact h.openOriginWs hn info
    · cases opening with
      | http info =>
        obtain rfl := Option.some.inj ht
        exact h.rejectUnregisteredHttp hn
      | ws info =>
        obtain rfl := Option.some.inj ht
        exact h.send hn

theorem onBodyChunk (h : s.Named H I k) {i : ℕ} {data : Val}
    (ht : TunnelSession.onBodyChunk co io s i data = some t) : t.Named H I k := by
  unfold TunnelSession.onBodyChunk at ht
  cases hg : s.httpStreams.get i with
  | none =>
    rw [hg] at ht
    obtain rfl := Option.some.inj ht
    exact h
  | some w =>
    rw [hg] at ht
    simp only at ht
    split_ifs at ht
    obtain ⟨isOver, _, ht⟩ := Option.bind_eq_some_iff.mp ht
    split_ifs at ht
    · obtain rfl := Option.some.inj ht
      exact h.rejectHttpStream (h.get_http hg).1 _
    · obtain ⟨chunk, _, ht⟩ := Option.bind_eq_some_iff.mp ht
      obtain ⟨size, _, ht⟩ := Option.bind_eq_some_iff.mp ht
      obtain ⟨bytes, _, ht⟩ := Option.bind_eq_some_iff.mp ht
      obtain ⟨total, _, ht⟩ := Option.bind_eq_some_iff.mp ht
      obtain rfl := Option.some.inj ht
      have hw : H w.uid i ∧ I w.uid w.info := h.get_http hg
      exact (h.setHttp (i := i) (w := { w with chunks := w.chunks ++ [chunk], bytes })
        hw).setBufferedBytes total

theorem onBodyEnd (h : s.Named H I k) {i : ℕ} (ht : TunnelSession.onBodyEnd co io s i = some t) :
    t.Named H I k := by
  unfold TunnelSession.onBodyEnd at ht
  cases hg : s.httpStreams.get i with
  | none =>
    rw [hg] at ht
    obtain rfl := Option.some.inj ht
    exact h
  | some w =>
    rw [hg] at ht
    simp only at ht
    split_ifs at ht
    obtain rfl := Option.some.inj ht
    exact h.executeHttp (h.get_http hg)

theorem onWsData (h : s.Named H I k) {i : ℕ} {f : RawFrame} (hf : f.frameType = some .wsData)
    (ht : TunnelSession.onWsData co io s i f = some t) : t.Named H I k := by
  unfold TunnelSession.onWsData at ht
  cases hg : s.wsStreams.get i with
  | none =>
    rw [hg] at ht
    obtain rfl := Option.some.inj ht
    exact h
  | some w =>
    rw [hg] at ht
    obtain ⟨isOver, _, ht⟩ := Option.bind_eq_some_iff.mp ht
    split_ifs at ht
    · obtain rfl := Option.some.inj ht
      exact ((h.setEffects _).forgetWsStream i w.uid).send (h.get_ws hg).1
    · obtain ⟨data, _, ht⟩ := Option.bind_eq_some_iff.mp ht
      obtain rfl := Option.some.inj ht
      exact h.setEffects _
    · obtain ⟨size, _, ht⟩ := Option.bind_eq_some_iff.mp ht
      obtain ⟨bytes, _, ht⟩ := Option.bind_eq_some_iff.mp ht
      obtain ⟨total, _, ht⟩ := Option.bind_eq_some_iff.mp ht
      obtain rfl := Option.some.inj ht
      refine (h.setWs (i := i) (w := { w with buffered := w.buffered ++ [f], bufferedBytes := bytes })
        (h.get_ws hg).1 fun g hg' => ?_).setBufferedBytes total
      rcases List.mem_append.mp hg' with hg' | hg'
      · exact (h.get_ws hg).2 g hg'
      · rw [List.mem_singleton.mp hg']
        exact hf

theorem onCloseStream (h : s.Named H I k) (i : ℕ) (f : RawFrame) :
    (TunnelSession.onCloseStream co s i f).Named H I k := by
  unfold TunnelSession.onCloseStream
  cases s.httpStreams.get i with
  | some w => exact (h.abort w.uid).forgetHttpStream i w.uid
  | none =>
    cases s.wsStreams.get i with
    | some w => exact (h.setEffects _).forgetWsStream i w.uid
    | none => exact h

/-- What a frame needs to be named: where it opens a stream, its number and what it carries. -/
structure Opens (H : ℕ → ℕ → Prop) (I : ℕ → OpenHttp → Prop) (uid : ℕ) (f : RawFrame) : Prop where
  id : f.frameType = some .openHttp ∨ f.frameType = some .openWs → ∀ i, f.id = some i → H uid i
  info : f.frameType = some .openHttp →
    ∀ info, validateOpenFrame .openHttp f = some (.http info) → I uid info

theorem onFrame (h : s.Named H I k) {uid : ℕ} {f : RawFrame} (hf : Opens H I uid f)
    (ht : TunnelSession.onFrame co io s uid f = some t) : t.Named H I k := by
  unfold TunnelSession.onFrame at ht
  split_ifs at ht
  · obtain rfl := Option.some.inj ht
    exact h
  cases hid : f.id with
  | none => rw [hid] at ht; cases ht
  | some i =>
    rw [hid] at ht
    simp only at ht
    cases hty : f.frameType with
    | none =>
      rw [hty] at ht
      obtain rfl := Option.some.inj ht
      exact h
    | some type =>
      rw [hty] at ht
      cases type with
      | openHttp => exact h.onOpen (hf.id (Or.inl hty) i hid) (hf.info hty) ht
      | openWs =>
        refine h.onOpen (hf.id (Or.inr hty) i hid) (fun info hv => ?_) ht
        obtain ⟨_, ho⟩ := ws_of_validateOpenFrame hv
        cases ho
      | bodyChunk => exact h.onBodyChunk ht
      | bodyEnd => exact h.onBodyEnd ht
      | wsData => exact h.onWsData hty ht
      | closeStream =>
        obtain rfl := Option.some.inj ht
        exact h.onCloseStream i f
      | respHead =>
        obtain rfl := Option.some.inj ht
        exact h
      | wsOpenAck =>
        obtain rfl := Option.some.inj ht
        exact h

/-- A message: the session has received one more. -/
theorem onMessage (h : s.Named H I k) {message : Bytes}
    (hf : ∀ f, decodeFrame message = some f → Opens H I k f) :
    (TunnelSession.onMessage co io s message).Named H I (k + 1) := by
  have hr : Named H I (k + 1) { s with received := s.received + 1 } :=
    ⟨by rw [h.received], h.http, h.ws, h.running, h.sockets, h.outbox⟩
  unfold TunnelSession.onMessage
  cases hp : process co io s message with
  | none => exact hr.dispose
  | some t =>
    unfold process at hp
    split_ifs at hp
    cases hd : decodeFrame message with
    | none => rw [hd] at hp; cases hp
    | some f =>
      rw [hd, h.received] at hp
      exact hr.onFrame (hf f hd) (by rw [h.received]; exact hp)

/-! ## Local events -/

theorem bodyTimeout (h : s.Named H I k) {i : ℕ}
    (ht : TunnelSession.bodyTimeout co io s i = some t) : t.Named H I k := by
  unfold TunnelSession.bodyTimeout at ht
  cases hg : s.httpStreams.get i with
  | none => rw [hg] at ht; cases ht
  | some w =>
    rw [hg] at ht
    simp only at ht
    split_ifs at ht
    obtain rfl := Option.some.inj ht
    exact h.rejectHttpStream (h.get_http hg).1 _

theorem of_findRunning (h : s.Named H I k) {uid : ℕ} {b : Bool} {r : Running}
    (hr : s.findRunning uid b = some r) : r.uid = uid ∧ H uid r.streamId := by
  unfold findRunning at hr
  have hp : r.uid = uid ∧ r.responded = b := by simpa using List.find?_some hr
  have hu := hp.1
  exact ⟨hu, hu ▸ (h.running r (List.mem_of_find?_eq_some hr)).1⟩

theorem originResponse (h : s.Named H I k) {uid : ℕ} {status : Option ℕ} {headers : List HeaderPair}
    {duration : Text} (ht : TunnelSession.originResponse io s uid status headers duration = some t) :
    t.Named H I k := by
  unfold TunnelSession.originResponse at ht
  obtain ⟨r, hr, ht⟩ := Option.bind_eq_some_iff.mp ht
  by_cases hc : s.isCurrentHttp r.streamId uid = true
  · rw [if_pos hc] at ht
    obtain rfl := Option.some.inj ht
    refine (h.send (h.of_findRunning hr).2).setRunning fun r hr => ?_
    obtain ⟨r', hr', rfl⟩ := List.mem_map.mp hr
    refine ⟨r', hr', ?_⟩
    split_ifs <;> exact ⟨rfl, rfl, rfl⟩
  · rw [if_neg hc] at ht
    obtain rfl := Option.some.inj ht
    exact h.finish uid

theorem originChunk (h : s.Named H I k) {uid : ℕ} {data : Bytes}
    (ht : TunnelSession.originChunk io s uid data = some t) : t.Named H I k := by
  unfold TunnelSession.originChunk at ht
  obtain ⟨r, hr, ht⟩ := Option.bind_eq_some_iff.mp ht
  split_ifs at ht
  · obtain rfl := Option.some.inj ht
    refine h.sendAll fun f hf => ?_
    rw [streamId_of_mem_chunkBody hf]
    exact (h.of_findRunning hr).2
  · obtain rfl := Option.some.inj ht
    exact h.finish uid

theorem originEnd (h : s.Named H I k) {uid : ℕ} (ht : TunnelSession.originEnd co io s uid = some t) :
    t.Named H I k := by
  unfold TunnelSession.originEnd at ht
  obtain ⟨r, hr, ht⟩ := Option.bind_eq_some_iff.mp ht
  obtain rfl := Option.some.inj ht
  exact ((h.send (h.of_findRunning hr).2).forgetHttpStream r.streamId uid).finish uid

theorem originError (h : s.Named H I k) {uid : ℕ}
    (ht : TunnelSession.originError co io s uid = some t) : t.Named H I k := by
  unfold TunnelSession.originError at ht
  obtain ⟨r, hr, ht⟩ := Option.bind_eq_some_iff.mp ht
  obtain rfl := Option.some.inj ht
  have hu : r.uid = uid := by simpa using List.find?_some hr
  have hn : H uid r.streamId := hu ▸ (h.running r (List.mem_of_find?_eq_some hr)).1
  refine (forgetHttpStream ?_ r.streamId uid).finish uid
  split_ifs
  · exact h
  · exact h.send hn

/-- What the buffer of a stream holds opens nothing. -/
theorem replay (h : s.Named H I k) {uid : ℕ} {frames : List RawFrame}
    (hf : ∀ f ∈ frames, f.frameType = some .wsData)
    (ht : TunnelSession.replay co io s uid frames = some t) : t.Named H I k := by
  unfold TunnelSession.replay at ht
  induction frames generalizing s with
  | nil =>
    obtain rfl := Option.some.inj ht
    exact h
  | cons f frames ih =>
    rw [List.foldlM_cons] at ht
    obtain ⟨u, hu, ht⟩ := Option.bind_eq_some_iff.mp ht
    have hty := hf f (by simp)
    refine ih (h.onFrame ⟨fun ho => ?_, fun ho => ?_⟩ hu) (fun g hg => hf g (by simp [hg])) ht
    · rw [hty] at ho
      rcases ho with ho | ho <;> cases ho
    · rw [hty] at ho
      cases ho

theorem drain (h : s.Named H I k) {i : ℕ} {w : WsStream} (hw : H w.uid i) :
    (TunnelSession.drain co s i w).Named H I k := by
  unfold TunnelSession.drain
  simp only
  split_ifs
  · exact h.setBufferedBytes _
  · exact (h.setWs (i := i) (w := ⟨w.uid, [], .int 0, true, w.countsAsRemoteClient⟩) hw
      (by simp)).setBufferedBytes _

theorem flush (h : s.Named H I k) {i : ℕ} {w : WsStream} {protocol : Option Text} (hw : H w.uid i)
    (hb : ∀ f ∈ w.buffered, f.frameType = some .wsData)
    (ht : TunnelSession.flush co io s i w protocol = some t) : t.Named H I k :=
  (((h.setWs (w := { w with isOpen := true }) hw hb).send hw).drain hw).replay hb ht

theorem markOpened (h : s.Named H I k) (uid : ℕ) : (s.markOpened uid).Named H I k := by
  refine ⟨h.received, h.http, h.ws, h.running, ?_, h.outbox⟩
  intro k hk
  obtain ⟨k', hk', rfl⟩ := List.mem_map.mp hk
  have := h.sockets k' hk'
  split_ifs <;> exact this

theorem socketOpen (h : s.Named H I k) {uid : ℕ} {protocol : Option Text}
    (ht : TunnelSession.socketOpen co io s uid protocol = some t) : t.Named H I k := by
  unfold TunnelSession.socketOpen at ht
  cases hk : s.sockets.find? fun k => k.uid = uid ∧ k.opened = false with
  | none => rw [hk] at ht; cases ht
  | some socket =>
    rw [hk] at ht
    have ho := h.markOpened uid
    simp only at ht
    cases hg : (s.markOpened uid).wsStreams.get socket.streamId with
    | none =>
      rw [hg] at ht
      obtain rfl := Option.some.inj ht
      exact ho.setEffects _
    | some w =>
      rw [hg] at ht
      simp only at ht
      split_ifs at ht
      · exact ho.flush (ho.get_ws hg).1 (ho.get_ws hg).2 ht
      · obtain rfl := Option.some.inj ht
        exact ho.setEffects _

theorem socketMessage (h : s.Named H I k) {uid : ℕ} {isBinary : Bool} {data : Bytes}
    (ht : TunnelSession.socketMessage io s uid isBinary data = some t) : t.Named H I k := by
  unfold TunnelSession.socketMessage at ht
  obtain ⟨socket, hk, ht⟩ := Option.bind_eq_some_iff.mp ht
  obtain rfl := Option.some.inj ht
  have hu : socket.uid = uid ∧ socket.opened = true := by simpa using List.find?_some hk
  exact h.send (hu.1 ▸ h.sockets socket (List.mem_of_find?_eq_some hk))

theorem socketClose (h : s.Named H I k) {uid code : ℕ} {reason : Bytes}
    (ht : TunnelSession.socketClose co io s uid code reason = some t) : t.Named H I k := by
  unfold TunnelSession.socketClose at ht
  obtain ⟨socket, hk, ht⟩ := Option.bind_eq_some_iff.mp ht
  have hu : socket.uid = uid := by simpa using List.find?_some hk
  have hn : H uid socket.streamId := hu ▸ h.sockets socket (List.mem_of_find?_eq_some hk)
  have hs : Named H I k { s with sockets := s.sockets.filter fun k => k.uid ≠ uid } :=
    ⟨h.received, h.http, h.ws, h.running,
      fun k hk => h.sockets k (List.mem_of_mem_filter hk), h.outbox⟩
  simp only at ht
  split_ifs at ht
  · obtain rfl := Option.some.inj ht
    exact (hs.forgetWsStream socket.streamId uid).send hn
  · obtain rfl := Option.some.inj ht
    exact hs

/-- A local event keeps the names. -/
theorem onLocal (h : s.Named H I k) {e : LocalEvent}
    (ht : TunnelSession.onLocal co io s e = some t) : t.Named H I k := by
  cases e with
  | bodyTimeout i => exact h.bodyTimeout ht
  | originResponse uid status headers duration => exact h.originResponse ht
  | originChunk uid data => exact h.originChunk ht
  | originEnd uid => exact h.originEnd ht
  | originError uid => exact h.originError ht
  | socketOpen uid protocol => exact h.socketOpen ht
  | socketMessage uid isBinary data => exact h.socketMessage ht
  | socketClose uid code reason => exact h.socketClose ht
  | tunnelClose =>
    obtain rfl := Option.some.inj ht
    exact h.dispose

end Named

/-! ## Runs -/

/-- The sessions that runs reach from a new one, with the messages they have received. -/
inductive Run (co : Coercion) : List Bytes → TunnelSession → Prop
  | new : Run co [] .new
  | message {ms : List Bytes} {s : TunnelSession} (io : Io) (message : Bytes) :
      Run co ms s → Run co (ms ++ [message]) (TunnelSession.onMessage co io s message)
  | event {ms : List Bytes} {s t : TunnelSession} (io : Io) (e : LocalEvent) :
      Run co ms s → TunnelSession.onLocal co io s e = some t → Run co ms t

/-- The message of this number opens an HTTP stream with this request. -/
def Carries (ms : List Bytes) (uid : ℕ) (info : OpenHttp) : Prop :=
  ∃ b f, ms[uid]? = some b ∧ decodeFrame b = some f ∧
    validateOpenFrame .openHttp f = some (.http info)

theorem Carries.append {ms : List Bytes} {uid : ℕ} {info : OpenHttp} (h : Carries ms uid info)
    (b : Bytes) : Carries (ms ++ [b]) uid info := by
  obtain ⟨c, f, hc, hf⟩ := h
  exact ⟨c, f, by rw [List.getElem?_append_left (List.getElem?_eq_some_iff.mp hc).1, hc], hf⟩

/-- Every call of a run carries what its opening message said. -/
theorem Run.named {ms : List Bytes} (h : Run co ms s) :
    s.Named (fun _ _ => True) (Carries ms) ms.length := by
  induction h with
  | new => exact named_new
  | message io message _ ih =>
    rw [List.length_append, List.length_singleton]
    refine (ih.mono (fun _ _ => id) fun _ _ hc => hc.append message).onMessage fun f hf => ?_
    exact ⟨fun _ _ _ => trivial, fun _ info hv =>
      ⟨message, f, List.getElem?_concat_length, hf, hv⟩⟩
  | event io e _ ht ih => exact ih.onLocal ht

end TunnelSession

end BbShared
