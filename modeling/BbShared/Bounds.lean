import BbShared.TunnelSession
import BbShared.Machine

/-!
# The bounds of a tunnel session

Whatever a relay sends, a session's buffers stay within their limits and its counters agree with
its streams, as long as the data of a body chunk or WebSocket message is bytes of the message.

A message of type `resp-head` or `close-stream` can be neither: its JSON metadata may override the
frame's type, and then `data` is any JSON value, whose byte length is not a number.
-/

namespace BbShared

open Js

/-- The integer that a counter holds. -/
def Num.val : Num → ℤ
  | int n => n
  | _ => 0

def Num.isNaN : Num → Bool
  | nan => true
  | _ => false

/-- The bytes of a frame's data. -/
def RawFrame.dataLength (f : RawFrame) : ℕ :=
  match f.data with
  | .bytes b => b.length
  | _ => 0

/-! ## The bounds -/

/-- An HTTP stream within its limits. -/
structure HttpStream.Bounded (h : HttpStream) : Prop where
  counted : ∃ n : ℕ, h.bytes = .int n ∧ (h.chunks.map List.length).sum ≤ n ∧ n ≤ MAX_REQUEST_BYTES
  chunks : h.chunks.length ≤ MAX_BODY_CHUNKS

/-- A WebSocket stream within its limits.  An open one holds nothing. -/
structure WsStream.Bounded (w : WsStream) : Prop where
  counted : w.bufferedBytes = .int ((w.buffered.map RawFrame.dataLength).sum : ℕ)
  bytes : (w.buffered.map RawFrame.dataLength).sum ≤ MAX_WS_BUFFER_BYTES
  messages : w.buffered.length ≤ MAX_WS_MESSAGES
  ofBytes : ∀ f ∈ w.buffered, ∃ b, f.data = .bytes b
  flushed : w.isOpen = true → w.buffered = []

namespace TunnelSession

/-- The bytes that the streams hold. -/
def held (s : TunnelSession) : ℤ :=
  s.httpStreams.total (fun h => h.bytes.val) + s.wsStreams.total fun w => w.bufferedBytes.val

/-- A session within its limits. -/
structure Bounded (s : TunnelSession) : Prop where
  http : ∀ h ∈ s.httpStreams.values, h.Bounded
  ws : ∀ w ∈ s.wsStreams.values, w.Bounded
  total : s.bufferedBytes = .int s.held
  limit : s.held ≤ MAX_BUFFERED_BYTES
  disjoint : ∀ id ∈ s.httpStreams.keys, id ∉ s.wsStreams.keys
  streams : s.httpStreams.size + s.wsStreams.size ≤ MAX_STREAMS
  clients : s.remoteClientCount =
    s.wsStreams.total fun w => if w.countsAsRemoteClient then 1 else 0

/-- While a session lives it is within its limits. -/
def LiveBounded (s : TunnelSession) : Prop := s.disposed = false → s.Bounded

end TunnelSession

theorem HttpStream.Bounded.val_nonneg {h : HttpStream} (hb : h.Bounded) : 0 ≤ h.bytes.val := by
  obtain ⟨n, hn, _⟩ := hb.counted
  rw [hn]
  exact Int.natCast_nonneg n

theorem WsStream.Bounded.val_nonneg {w : WsStream} (hb : w.Bounded) : 0 ≤ w.bufferedBytes.val := by
  rw [hb.counted]
  exact Int.natCast_nonneg _

theorem HttpStream.Bounded.bytes_eq {h : HttpStream} (hb : h.Bounded) :
    h.bytes = .int h.bytes.val := by
  obtain ⟨n, hn, _⟩ := hb.counted
  rw [hn]
  rfl

theorem WsStream.Bounded.bytes_eq {w : WsStream} (hb : w.Bounded) :
    w.bufferedBytes = .int w.bufferedBytes.val := by
  rw [hb.counted]
  rfl

/-- A stream that gives up its chunks stays within its limits. -/
theorem HttpStream.Bounded.started {stream : HttpStream} (hs : stream.Bounded)
    {chunks : List Bytes} (hc : chunks = stream.chunks ∨ chunks = []) :
    HttpStream.Bounded { stream with executing := true, bodyTimer := false, chunks } := by
  obtain ⟨n, hn, hsum, hmax⟩ := hs.counted
  rcases hc with rfl | rfl
  · exact ⟨⟨n, hn, hsum, hmax⟩, hs.chunks⟩
  · exact ⟨⟨n, hn, Nat.zero_le n, hmax⟩, Nat.zero_le _⟩

namespace TunnelSession

variable {co : Coercion} {io : Io} {s t : TunnelSession}

theorem Bounded.held_nonneg (h : s.Bounded) : 0 ≤ s.held :=
  add_nonneg (OrderedMap.total_nonneg fun v hv => (h.http v hv).val_nonneg)
    (OrderedMap.total_nonneg fun v hv => (h.ws v hv).val_nonneg)

/-! ## Changes of the books -/

theorem bounded_new : new.Bounded where
  http h hm := by cases hm
  ws w hm := by cases hm
  total := rfl
  limit := by decide
  disjoint id hm := by cases hm
  streams := by decide
  clients := rfl

/-- Only the streams and the counters matter. -/
theorem Bounded.of_eq (h : s.Bounded) (hh : t.httpStreams = s.httpStreams)
    (hw : t.wsStreams = s.wsStreams) (hb : t.bufferedBytes = s.bufferedBytes)
    (hc : t.remoteClientCount = s.remoteClientCount) : t.Bounded := by
  have hheld : t.held = s.held := by
    unfold held
    rw [hh, hw]
  exact ⟨hh ▸ h.http, hw ▸ h.ws, by rw [hb, h.total, hheld], hheld ▸ h.limit,
    by rw [hh, hw]; exact h.disjoint, by rw [hh, hw]; exact h.streams,
    by rw [hc, hw]; exact h.clients⟩

theorem LiveBounded.of_eq (h : s.LiveBounded) (hd : t.disposed = s.disposed)
    (hh : t.httpStreams = s.httpStreams) (hw : t.wsStreams = s.wsStreams)
    (hb : t.bufferedBytes = s.bufferedBytes) (hc : t.remoteClientCount = s.remoteClientCount) :
    t.LiveBounded :=
  fun hl => (h (hd ▸ hl)).of_eq hh hw hb hc

/-- An HTTP stream is forgotten. -/
theorem Bounded.eraseHttp (h : s.Bounded) {id : ℕ} {stream : HttpStream}
    (hg : s.httpStreams.get id = some stream) (hh : t.httpStreams = s.httpStreams.erase id)
    (hw : t.wsStreams = s.wsStreams) (hb : t.bufferedBytes = co.sub s.bufferedBytes stream.bytes)
    (hc : t.remoteClientCount = s.remoteClientCount) : t.Bounded := by
  have hs := h.http _ (OrderedMap.mem_values_of_get hg)
  have hheld : t.held = s.held - stream.bytes.val := by
    unfold held
    rw [hh, hw, ← OrderedMap.total_erase hg fun h => h.bytes.val]
    omega
  have hnn := hs.val_nonneg
  have hl := h.limit
  refine ⟨?_, hw ▸ h.ws, ?_, by omega, ?_, ?_, by rw [hc, hw]; exact h.clients⟩
  · rw [hh]
    exact fun v hv => h.http v (OrderedMap.mem_values_erase hv)
  · rw [hb, h.total, hs.bytes_eq, hheld]
    rfl
  · rw [hh, hw]
    exact fun k hk => h.disjoint k (OrderedMap.mem_keys_erase.mp hk).2
  · have := OrderedMap.size_erase_le s.httpStreams id
    have := h.streams
    rw [hh, hw]
    omega

/-- An HTTP stream is replaced by one within its limits. -/
theorem Bounded.setHttp (h : s.Bounded) {id : ℕ} {stream stream' : HttpStream}
    (hg : s.httpStreams.get id = some stream) (hs : stream'.Bounded)
    (hh : t.httpStreams = s.httpStreams.set id stream') (hw : t.wsStreams = s.wsStreams)
    (hb : t.bufferedBytes = .int (s.held + stream'.bytes.val - stream.bytes.val))
    (hl : s.held + stream'.bytes.val - stream.bytes.val ≤ MAX_BUFFERED_BYTES)
    (hc : t.remoteClientCount = s.remoteClientCount) : t.Bounded := by
  have hk := OrderedMap.mem_keys_of_get hg
  have hheld : t.held = s.held + stream'.bytes.val - stream.bytes.val := by
    have := OrderedMap.total_set_of_get hg stream' fun h => h.bytes.val
    unfold held
    rw [hh, hw]
    omega
  refine ⟨?_, hw ▸ h.ws, by rw [hb, hheld], by rw [hheld]; exact hl, ?_, ?_,
    by rw [hc, hw]; exact h.clients⟩
  · rw [hh]
    intro v hv
    rcases OrderedMap.mem_values_set hv with rfl | hv
    · exact hs
    · exact h.http v hv
  · rw [hh, hw, OrderedMap.keys_set_of_mem hk]
    exact h.disjoint
  · rw [hh, hw, OrderedMap.size_set_of_mem hk]
    exact h.streams

/-- An HTTP stream is opened under an unused id. -/
theorem Bounded.addHttp (h : s.Bounded) {id : ℕ} {stream : HttpStream}
    (hid : id ∉ s.httpStreams.keys) (hid' : id ∉ s.wsStreams.keys)
    (hroom : s.httpStreams.size + s.wsStreams.size < MAX_STREAMS) (hs : stream.Bounded)
    (hzero : stream.bytes = .int 0) (hh : t.httpStreams = s.httpStreams.set id stream)
    (hw : t.wsStreams = s.wsStreams) (hb : t.bufferedBytes = s.bufferedBytes)
    (hc : t.remoteClientCount = s.remoteClientCount) : t.Bounded := by
  have hheld : t.held = s.held := by
    unfold held
    rw [hh, hw, OrderedMap.total_set_of_not_mem hid, hzero]
    simp [Num.val]
  refine ⟨?_, hw ▸ h.ws, by rw [hb, h.total, hheld], by rw [hheld]; exact h.limit, ?_, ?_,
    by rw [hc, hw]; exact h.clients⟩
  · rw [hh]
    intro v hv
    rcases OrderedMap.mem_values_set hv with rfl | hv
    · exact hs
    · exact h.http v hv
  · rw [hh, hw]
    intro k hk
    rcases OrderedMap.mem_keys_set.mp hk with rfl | hk
    · exact hid'
    · exact h.disjoint k hk
  · rw [hh, hw, OrderedMap.size_set_of_not_mem hid]
    omega

/-- A WebSocket stream is forgotten. -/
theorem Bounded.eraseWs (h : s.Bounded) {id : ℕ} {stream : WsStream}
    (hg : s.wsStreams.get id = some stream) (hh : t.httpStreams = s.httpStreams)
    (hw : t.wsStreams = s.wsStreams.erase id)
    (hb : t.bufferedBytes = co.sub s.bufferedBytes stream.bufferedBytes)
    (hc : t.remoteClientCount =
      if stream.countsAsRemoteClient then s.remoteClientCount - 1 else s.remoteClientCount) :
    t.Bounded := by
  have hs := h.ws _ (OrderedMap.mem_values_of_get hg)
  have hheld : t.held = s.held - stream.bufferedBytes.val := by
    unfold held
    rw [hh, hw, ← OrderedMap.total_erase hg fun w => w.bufferedBytes.val]
    omega
  have hnn := hs.val_nonneg
  have hl := h.limit
  refine ⟨hh ▸ h.http, ?_, ?_, by omega, ?_, ?_, ?_⟩
  · rw [hw]
    exact fun v hv => h.ws v (OrderedMap.mem_values_erase hv)
  · rw [hb, h.total, hs.bytes_eq, hheld]
    rfl
  · rw [hh, hw]
    exact fun k hk hk' => h.disjoint k hk (OrderedMap.mem_keys_erase.mp hk').2
  · have := OrderedMap.size_erase_le s.wsStreams id
    have := h.streams
    rw [hh, hw]
    omega
  · have := OrderedMap.total_erase hg fun w => if w.countsAsRemoteClient then 1 else 0
    rw [hc, hw, h.clients]
    cases hcl : stream.countsAsRemoteClient <;> simp only [hcl] at this ⊢ <;> grind

/-- A WebSocket stream is replaced by one within its limits. -/
theorem Bounded.setWs (h : s.Bounded) {id : ℕ} {stream stream' : WsStream}
    (hg : s.wsStreams.get id = some stream) (hs : stream'.Bounded)
    (hh : t.httpStreams = s.httpStreams) (hw : t.wsStreams = s.wsStreams.set id stream')
    (hcl : stream'.countsAsRemoteClient = stream.countsAsRemoteClient)
    (hb : t.bufferedBytes = .int (s.held + stream'.bufferedBytes.val - stream.bufferedBytes.val))
    (hl : s.held + stream'.bufferedBytes.val - stream.bufferedBytes.val ≤ MAX_BUFFERED_BYTES)
    (hc : t.remoteClientCount = s.remoteClientCount) : t.Bounded := by
  have hk := OrderedMap.mem_keys_of_get hg
  have hheld : t.held = s.held + stream'.bufferedBytes.val - stream.bufferedBytes.val := by
    have := OrderedMap.total_set_of_get hg stream' fun w => w.bufferedBytes.val
    unfold held
    rw [hh, hw]
    omega
  refine ⟨hh ▸ h.http, ?_, by rw [hb, hheld], by rw [hheld]; exact hl, ?_, ?_, ?_⟩
  · rw [hw]
    intro v hv
    rcases OrderedMap.mem_values_set hv with rfl | hv
    · exact hs
    · exact h.ws v hv
  · rw [hh, hw, OrderedMap.keys_set_of_mem hk]
    exact h.disjoint
  · rw [hh, hw, OrderedMap.size_set_of_mem hk]
    exact h.streams
  · have := OrderedMap.total_set_of_get hg stream' fun w => if w.countsAsRemoteClient then 1 else 0
    rw [hcl] at this
    rw [hc, hw, h.clients]
    omega

/-- A WebSocket stream is opened under an unused id. -/
theorem Bounded.addWs (h : s.Bounded) {id : ℕ} {stream : WsStream}
    (hid : id ∉ s.httpStreams.keys) (hid' : id ∉ s.wsStreams.keys)
    (hroom : s.httpStreams.size + s.wsStreams.size < MAX_STREAMS) (hs : stream.Bounded)
    (hzero : stream.bufferedBytes = .int 0) (hh : t.httpStreams = s.httpStreams)
    (hw : t.wsStreams = s.wsStreams.set id stream) (hb : t.bufferedBytes = s.bufferedBytes)
    (hc : t.remoteClientCount =
      if stream.countsAsRemoteClient then s.remoteClientCount + 1 else s.remoteClientCount) :
    t.Bounded := by
  have hheld : t.held = s.held := by
    unfold held
    rw [hh, hw, OrderedMap.total_set_of_not_mem hid', hzero]
    simp [Num.val]
  refine ⟨hh ▸ h.http, ?_, by rw [hb, h.total, hheld], by rw [hheld]; exact h.limit, ?_, ?_, ?_⟩
  · rw [hw]
    intro v hv
    rcases OrderedMap.mem_values_set hv with rfl | hv
    · exact hs
    · exact h.ws v hv
  · rw [hh, hw]
    intro k hk hk'
    rcases OrderedMap.mem_keys_set.mp hk' with rfl | hk'
    · exact hid hk
    · exact h.disjoint k hk hk'
  · rw [hh, hw, OrderedMap.size_set_of_not_mem hid']
    omega
  · rw [hc, hw, OrderedMap.total_set_of_not_mem hid', h.clients]
    cases stream.countsAsRemoteClient <;> rfl

/-! ## Operations -/

theorem disposed_dispose (s : TunnelSession) : s.dispose.disposed = true := by
  unfold dispose
  by_cases h : s.disposed = true
  · rw [if_pos h, h]
  · rw [if_neg h]

theorem liveBounded_of_disposed (h : s.disposed = true) : s.LiveBounded :=
  fun hl => absurd hl (by rw [h]; decide)

theorem liveBounded_dispose (s : TunnelSession) : s.dispose.LiveBounded :=
  liveBounded_of_disposed (disposed_dispose s)

theorem LiveBounded.send (h : s.LiveBounded) (uid : ℕ) (frame : Frame) :
    (send io s uid frame).LiveBounded := by
  unfold TunnelSession.send
  by_cases hd : s.disposed = true
  · rw [if_pos hd]
    exact h
  · rw [if_neg hd]
    split
    · exact h.of_eq rfl rfl rfl rfl rfl
    · exact liveBounded_dispose s
    · exact h

theorem LiveBounded.sendAll (h : s.LiveBounded) (uid : ℕ) (frames : List Frame) :
    (sendAll io s uid frames).LiveBounded := by
  unfold TunnelSession.sendAll
  induction frames generalizing s with
  | nil => exact h
  | cons f frames ih => exact ih (h.send uid f)

theorem LiveBounded.abort (h : s.LiveBounded) (uid : ℕ) : (s.abort uid).LiveBounded :=
  h.of_eq rfl rfl rfl rfl rfl

theorem LiveBounded.forgetHttpStream (h : s.LiveBounded) (id uid : ℕ) :
    (forgetHttpStream co s id uid).LiveBounded := by
  unfold TunnelSession.forgetHttpStream
  split
  · rename_i stream hg
    split_ifs
    · exact fun hl => (h hl).eraseHttp hg rfl rfl rfl rfl
    · exact h
  · exact h

theorem LiveBounded.rejectHttpStream (h : s.LiveBounded) (id uid : ℕ) (reason : Text) :
    (rejectHttpStream co io s id uid reason).LiveBounded :=
  ((h.abort uid).forgetHttpStream id uid).send _ _

theorem LiveBounded.forgetWsStream (h : s.LiveBounded) (id uid : ℕ) :
    (forgetWsStream co s id uid).LiveBounded := by
  unfold TunnelSession.forgetWsStream
  split
  · rename_i stream hg
    split_ifs with hu
    · exact fun hl => (h hl).eraseWs hg rfl rfl rfl (by simp_all)
    · exact fun hl => (h hl).eraseWs hg rfl rfl rfl (by simp_all)
    · exact h
  · exact h

theorem LiveBounded.rejectUnregisteredHttp (h : s.LiveBounded) (id uid : ℕ) :
    (rejectUnregisteredHttp io s id uid).LiveBounded :=
  h.sendAll _ _

theorem LiveBounded.executeHttp (h : s.LiveBounded) {id : ℕ} {stream : HttpStream}
    (hg : s.disposed = false → s.httpStreams.get id = some stream) :
    (executeHttp co io s id stream).LiveBounded := by
  have key : ∀ chunks : List Bytes, chunks = stream.chunks ∨ chunks = [] → ∀ t : TunnelSession,
      t.disposed = s.disposed → t.httpStreams = s.httpStreams.set id
        { stream with executing := true, bodyTimer := false, chunks } →
      t.wsStreams = s.wsStreams → t.bufferedBytes = s.bufferedBytes →
      t.remoteClientCount = s.remoteClientCount → t.LiveBounded := by
    intro chunks hc t hd hh hw hb hcl hl
    rw [hd] at hl
    have hs := (h hl).http _ (OrderedMap.mem_values_of_get (hg hl))
    have htotal := (h hl).total
    refine (h hl).setHttp (hg hl) (hs.started hc) hh hw ?_ ?_ hcl
    · rw [hb, htotal]
      simp
    · have := (h hl).limit
      simpa using this
  unfold TunnelSession.executeHttp
  by_cases hr : isRegistered (optionalText stream.info.target) = true
  · rw [if_pos hr]
    exact key [] (.inr rfl) _ rfl rfl rfl rfl rfl
  · rw [if_neg hr]
    refine LiveBounded.forgetHttpStream (LiveBounded.rejectUnregisteredHttp ?_ _ _) _ _
    exact key stream.chunks (.inl rfl) _ rfl rfl rfl rfl rfl

theorem not_mem_keys {id : ℕ} (h : ¬(s.httpStreams.has id || s.wsStreams.has id) = true) :
    id ∉ s.httpStreams.keys ∧ id ∉ s.wsStreams.keys := by
  rw [Bool.or_eq_true, not_or, OrderedMap.has_iff, OrderedMap.has_iff] at h
  exact h

theorem LiveBounded.openOriginWs (h : s.LiveBounded) {id : ℕ} (hid : id ∉ s.httpStreams.keys)
    (hid' : id ∉ s.wsStreams.keys) (hroom : s.httpStreams.size + s.wsStreams.size < MAX_STREAMS)
    (uid : ℕ) (info : OpenWs) : (openOriginWs io s id uid info).LiveBounded := by
  unfold TunnelSession.openOriginWs
  split_ifs
  · refine fun hl => (h hl).addWs hid hid' hroom ?_ rfl rfl rfl rfl rfl
    exact ⟨rfl, Nat.zero_le _, Nat.zero_le _, by simp, fun _ => rfl⟩
  · exact h.send _ _
  · exact h.send _ _

theorem LiveBounded.openHttp (h : s.LiveBounded) {id : ℕ} (hid : id ∉ s.httpStreams.keys)
    (hid' : id ∉ s.wsStreams.keys) (hroom : s.httpStreams.size + s.wsStreams.size < MAX_STREAMS)
    (uid : ℕ) (info : OpenHttp) : (openHttp co io s id uid info).LiveBounded := by
  have hadd : LiveBounded
      { s with httpStreams := s.httpStreams.set id (newHttpStream uid info) } := by
    refine fun hl => (h hl).addHttp hid hid' hroom ?_ rfl rfl rfl rfl rfl
    exact ⟨⟨0, rfl, le_refl _, Nat.zero_le _⟩, Nat.zero_le _⟩
  unfold TunnelSession.openHttp
  by_cases hb : info.hasBody = true
  · rw [if_pos hb]
    exact hadd
  · rw [if_neg hb]
    exact hadd.executeHttp fun _ => OrderedMap.get_set_self _ _ _

theorem LiveBounded.onOpen (h : s.LiveBounded) {id uid : ℕ} {type : FrameType} {f : RawFrame}
    (ht : onOpen co io s id uid type f = some t) : t.LiveBounded := by
  unfold TunnelSession.onOpen at ht
  split at ht
  · exact absurd ht (by simp)
  · rename_i opening _
    by_cases hdup : (s.httpStreams.has id || s.wsStreams.has id) = true
    · rw [if_pos hdup] at ht
      exact absurd ht (by simp)
    rw [if_neg hdup] at ht
    obtain ⟨hid, hid'⟩ := not_mem_keys hdup
    by_cases hroom : MAX_STREAMS ≤ s.httpStreams.size + s.wsStreams.size
    · rw [if_pos hroom] at ht
      obtain rfl := Option.some.inj ht
      exact h.send _ _
    rw [if_neg hroom] at ht
    rw [not_le] at hroom
    by_cases hreg : isRegistered f.target = true
    · rw [if_pos hreg] at ht
      cases opening with
      | http info => exact Option.some.inj ht ▸ h.openHttp hid hid' hroom uid info
      | ws info => exact Option.some.inj ht ▸ h.openOriginWs hid hid' hroom uid info
    · rw [if_neg hreg] at ht
      cases opening with
      | http info => exact Option.some.inj ht ▸ h.rejectUnregisteredHttp id uid
      | ws info => exact Option.some.inj ht ▸ h.send _ _

/-- The frame's data would be added to what a stream of the session holds. -/
def Adds (s : TunnelSession) (f : RawFrame) : Prop :=
  ∃ id, f.id = some id ∧
    (f.frameType = some .bodyChunk ∧ (∃ h, s.httpStreams.get id = some h ∧ h.executing = false ∧
        h.chunks.length < MAX_BODY_CHUNKS) ∨
      f.frameType = some .wsData ∧ ∃ w, s.wsStreams.get id = some w ∧ w.isOpen = false ∧
        w.buffered.length < MAX_WS_MESSAGES)

/-- Data that would be added to a stream is bytes of the message. -/
def Untampered (s : TunnelSession) (f : RawFrame) : Prop := s.Adds f → ∃ b, f.data = .bytes b

theorem LiveBounded.onBodyChunk (h : s.LiveBounded) (hd : s.disposed = false) {id : ℕ}
    {data : Val} (hdata : (∃ h, s.httpStreams.get id = some h ∧ h.executing = false ∧
      h.chunks.length < MAX_BODY_CHUNKS) → ∃ b, data = .bytes b)
    (ht : onBodyChunk co io s id data = some t) : t.LiveBounded := by
  unfold TunnelSession.onBodyChunk at ht
  split at ht
  · exact Option.some.inj ht ▸ h
  rename_i stream hg
  have hs := (h hd).http _ (OrderedMap.mem_values_of_get hg)
  obtain ⟨n, hn, hsum, -⟩ := hs.counted
  by_cases hex : stream.executing = true
  · rw [if_pos hex] at ht
    exact absurd ht (by simp)
  rw [if_neg hex] at ht
  obtain ⟨isOver, hover, ht⟩ := Option.bind_eq_some_iff.mp ht
  cases isOver with
  | true =>
    rw [if_pos rfl] at ht
    exact Option.some.inj ht ▸ h.rejectHttpStream _ _ _
  | false =>
    -- the chunk passed each limit
    rw [if_neg (by decide)] at ht
    unfold bodyOverLimit at hover
    by_cases hcount : MAX_BODY_CHUNKS ≤ stream.chunks.length
    · rw [if_pos hcount] at hover
      exact absurd hover (by simp)
    obtain ⟨b, rfl⟩ := hdata ⟨stream, hg, Bool.eq_false_iff.mpr hex, not_le.mp hcount⟩
    rw [if_neg hcount] at hover
    simp only [Coercion.byteLength, hn, (h hd).total, Coercion.add, Coercion.gt,
      Option.bind_eq_bind, Option.bind_some, Option.pure_def] at hover
    split_ifs at hover with h1 h2
    · exact absurd hover (by simp)
    · exact absurd hover (by simp)
    simp only [decide_eq_true_eq, not_lt] at h1 h2
    have h3 := Option.some.inj hover
    rw [decide_eq_false_iff_not, not_lt] at h3
    simp only [Coercion.bufferFrom, Coercion.byteLength, hn, (h hd).total, Coercion.add,
      Option.bind_eq_bind, Option.bind_some, Option.pure_def, Option.some.injEq] at ht
    subst ht
    refine fun _ => (h hd).setHttp hg ?_ rfl rfl ?_ ?_ rfl
    · refine ⟨⟨n + b.length, by simp, ?_, by omega⟩, ?_⟩
      · simp only [List.map_append, List.sum_append, List.map_cons, List.map_nil, List.sum_cons,
          List.sum_nil]
        omega
      · rw [List.length_append, List.length_singleton]
        omega
    · simp only [hn, Num.val, Num.int.injEq]
      omega
    · simp only [hn, Num.val]
      omega

theorem LiveBounded.onBodyEnd (h : s.LiveBounded) {id : ℕ}
    (ht : onBodyEnd co io s id = some t) : t.LiveBounded := by
  unfold TunnelSession.onBodyEnd at ht
  split at ht
  · exact Option.some.inj ht ▸ h
  · rename_i stream hg
    split_ifs at ht
    exact Option.some.inj ht ▸ h.executeHttp fun _ => hg

theorem LiveBounded.onWsData (h : s.LiveBounded) (hd : s.disposed = false) {id : ℕ}
    {f : RawFrame} (hdata : (∃ w, s.wsStreams.get id = some w ∧ w.isOpen = false ∧
      w.buffered.length < MAX_WS_MESSAGES) → ∃ b, f.data = .bytes b)
    (ht : onWsData co io s id f = some t) : t.LiveBounded := by
  unfold TunnelSession.onWsData at ht
  split at ht
  · exact Option.some.inj ht ▸ h
  rename_i stream hg
  have hs := (h hd).ws _ (OrderedMap.mem_values_of_get hg)
  obtain ⟨isOver, hover, ht⟩ := Option.bind_eq_some_iff.mp ht
  cases isOver with
  | true =>
    rw [if_pos rfl] at ht
    refine Option.some.inj ht ▸ LiveBounded.send (LiveBounded.forgetWsStream ?_ _ _) _ _
    exact h.of_eq rfl rfl rfl rfl rfl
  | false =>
    rw [if_neg (by decide)] at ht
    by_cases hopen : stream.isOpen = true
    · rw [if_pos hopen] at ht
      obtain ⟨data, -, ht⟩ := Option.bind_eq_some_iff.mp ht
      exact Option.some.inj ht ▸ h.of_eq rfl rfl rfl rfl rfl
    rw [if_neg hopen] at ht
    -- the message passed each limit
    unfold messageOverLimit at hover
    by_cases hcount : MAX_WS_MESSAGES ≤ stream.buffered.length
    · rw [if_pos hcount] at hover
      exact absurd hover (by simp)
    obtain ⟨b, hb⟩ := hdata ⟨stream, hg, Bool.eq_false_iff.mpr hopen, not_le.mp hcount⟩
    rw [if_neg hcount] at hover
    simp only [hb, Coercion.byteLength, hs.counted, (h hd).total, Coercion.add, Coercion.gt,
      Option.bind_eq_bind, Option.bind_some, Option.pure_def] at hover
    split_ifs at hover with h1
    · exact absurd hover (by simp)
    simp only [decide_eq_true_eq, not_lt] at h1
    have h2 := Option.some.inj hover
    rw [decide_eq_false_iff_not, not_lt] at h2
    have hlen : f.dataLength = b.length := by
      unfold RawFrame.dataLength
      rw [hb]
    simp only [hb, Coercion.byteLength, hs.counted, (h hd).total, Coercion.add,
      Option.bind_eq_bind, Option.bind_some, Option.pure_def, Option.some.injEq] at ht
    subst ht
    refine fun _ => (h hd).setWs hg ?_ rfl rfl rfl ?_ ?_ rfl
    · refine ⟨?_, ?_, ?_, ?_, fun ho => absurd ho hopen⟩
      · simp [hlen]
      · simp only [List.map_append, List.sum_append, List.map_cons, List.map_nil, List.sum_cons,
          List.sum_nil, hlen]
        omega
      · rw [List.length_append, List.length_singleton]
        omega
      · intro g hg'
        rcases List.mem_append.mp hg' with hg' | hg'
        · exact hs.ofBytes g hg'
        · exact List.mem_singleton.mp hg' ▸ ⟨b, hb⟩
    · simp only [hs.counted, Num.val, Num.int.injEq]
      omega
    · simp only [hs.counted, Num.val]
      omega

theorem LiveBounded.onCloseStream (h : s.LiveBounded) (id : ℕ) (f : RawFrame) :
    (onCloseStream co s id f).LiveBounded := by
  unfold TunnelSession.onCloseStream
  split
  · exact (h.abort _).forgetHttpStream _ _
  · split
    · refine LiveBounded.forgetWsStream ?_ _ _
      exact h.of_eq rfl rfl rfl rfl rfl
    · exact h

/-- **Step lemma.** A frame whose data is bytes of the message keeps the bounds. -/
theorem LiveBounded.onFrame (h : s.LiveBounded) {uid : ℕ} {f : RawFrame}
    (hf : s.disposed = false → s.Untampered f) (ht : onFrame co io s uid f = some t) :
    t.LiveBounded := by
  unfold TunnelSession.onFrame at ht
  by_cases hd : s.disposed = true
  · rw [if_pos hd] at ht
    exact Option.some.inj ht ▸ h
  rw [if_neg hd] at ht
  rw [Bool.not_eq_true] at hd
  cases hid : f.id with
  | none => simp [hid] at ht
  | some id =>
    rw [hid] at ht
    cases hty : f.frameType with
    | none => simp only [hty] at ht; exact Option.some.inj ht ▸ h
    | some type =>
      cases type <;> simp only [hty] at ht
      case openHttp => exact h.onOpen ht
      case openWs => exact h.onOpen ht
      case bodyChunk =>
        exact h.onBodyChunk hd (fun hk => hf hd ⟨id, hid, .inl ⟨hty, hk⟩⟩) ht
      case bodyEnd => exact h.onBodyEnd ht
      case wsData => exact h.onWsData hd (fun hk => hf hd ⟨id, hid, .inr ⟨hty, hk⟩⟩) ht
      case closeStream => exact Option.some.inj ht ▸ h.onCloseStream id f
      case respHead => exact Option.some.inj ht ▸ h
      case wsOpenAck => exact Option.some.inj ht ▸ h

/-! ## Events -/

theorem untampered_of_bytes {f : RawFrame} (h : ∃ b, f.data = .bytes b) : s.Untampered f :=
  fun _ => h

theorem onFrame_of_disposed (h : s.disposed = true) (uid : ℕ) (f : RawFrame) :
    onFrame co io s uid f = some s := by
  unfold TunnelSession.onFrame
  rw [if_pos h]

theorem LiveBounded.replay (h : s.LiveBounded) {uid : ℕ} {frames : List RawFrame}
    (hf : s.disposed = false → ∀ f ∈ frames, ∃ b, f.data = .bytes b)
    (ht : replay co io s uid frames = some t) : t.LiveBounded := by
  unfold TunnelSession.replay at ht
  induction frames generalizing s with
  | nil => exact Option.some.inj ht ▸ h
  | cons f frames ih =>
    rw [List.foldlM_cons] at ht
    obtain ⟨u, hu, ht⟩ := Option.bind_eq_some_iff.mp ht
    refine ih (h.onFrame (fun hl => untampered_of_bytes (hf hl f (by simp))) hu) ?_ ht
    intro hl g hg
    refine hf ?_ g (List.mem_cons_of_mem f hg)
    by_contra hd
    rw [Bool.not_eq_false] at hd
    rw [onFrame_of_disposed hd] at hu
    rw [← Option.some.inj hu, hd] at hl
    exact absurd hl (by decide)

/-- A frame that leaves the session alive only goes to the outbox. -/
theorem send_alive {uid : ℕ} {frame : Frame} (hd : (send io s uid frame).disposed = false) :
    ∃ outbox, send io s uid frame = { s with outbox } := by
  unfold TunnelSession.send at hd ⊢
  by_cases h : s.disposed = true
  · rw [if_pos h] at hd ⊢
    exact ⟨_, rfl⟩
  · rw [if_neg h] at hd ⊢
    split at hd
    · exact ⟨_, rfl⟩
    · rw [disposed_dispose] at hd
      exact absurd hd (by decide)
    · exact ⟨_, rfl⟩

/-- An opened stream gives back what it held. -/
theorem LiveBounded.flush (h : s.LiveBounded) {id : ℕ} {stream : WsStream}
    (hg : s.wsStreams.get id = some stream) {protocol : Option Text}
    (ht : flush co io s id stream protocol = some t) : t.LiveBounded := by
  have key : ∀ u : TunnelSession, (u.disposed = false → ∃ outbox, u = { s with
      wsStreams := s.wsStreams.set id { stream with isOpen := true }, outbox }) →
      (drain co u id stream).LiveBounded ∧
        ((drain co u id stream).disposed = false → s.disposed = false) := by
    intro u hu
    unfold drain
    by_cases hd : u.disposed = true
    · simp only [if_pos hd]
      exact ⟨liveBounded_of_disposed hd, fun hl => absurd hl (by simp [hd])⟩
    simp only [if_neg hd]
    rw [Bool.not_eq_true] at hd
    obtain ⟨outbox, rfl⟩ := hu hd
    have hs := (h hd).ws _ (OrderedMap.mem_values_of_get hg)
    have hlimit := (h hd).limit
    have hnn := hs.val_nonneg
    refine ⟨fun _ => (h hd).setWs hg ?_ rfl (OrderedMap.set_set _ _ _ _) rfl ?_ ?_ rfl, fun _ => hd⟩
    · exact ⟨rfl, Nat.zero_le _, Nat.zero_le _, by simp, fun _ => rfl⟩
    · show co.sub s.bufferedBytes stream.bufferedBytes = _
      rw [(h hd).total, hs.bytes_eq]
      simp [Coercion.sub, Num.val]
    · show s.held + 0 - stream.bufferedBytes.val ≤ MAX_BUFFERED_BYTES
      omega
  obtain ⟨hb, hlive⟩ := key (TunnelSession.send io
    { s with wsStreams := s.wsStreams.set id { stream with isOpen := true } }
    stream.uid (.wsOpenAck id protocol)) send_alive
  exact hb.replay (fun hl => ((h (hlive hl)).ws _ (OrderedMap.mem_values_of_get hg)).ofBytes) ht

theorem LiveBounded.onLocal (h : s.LiveBounded) {e : LocalEvent} (ht : onLocal co io s e = some t) :
    t.LiveBounded := by
  cases e with
  | bodyTimeout id =>
    simp only [TunnelSession.onLocal, TunnelSession.bodyTimeout] at ht
    split at ht
    · split_ifs at ht
      exact Option.some.inj ht ▸ h.rejectHttpStream _ _ _
    · exact absurd ht (by simp)
  | originResponse uid status headers duration =>
    obtain ⟨r, -, ht⟩ := Option.bind_eq_some_iff.mp ht
    split_ifs at ht <;> refine Option.some.inj ht ▸ ?_
    · exact (h.send _ _).of_eq rfl rfl rfl rfl rfl
    · exact (h.send _ _).of_eq rfl rfl rfl rfl rfl
    · exact h.of_eq rfl rfl rfl rfl rfl
  | originChunk uid data =>
    obtain ⟨r, -, ht⟩ := Option.bind_eq_some_iff.mp ht
    split_ifs at ht <;> refine Option.some.inj ht ▸ ?_
    · exact h.sendAll _ _
    · exact h.of_eq rfl rfl rfl rfl rfl
  | originEnd uid =>
    obtain ⟨r, -, ht⟩ := Option.bind_eq_some_iff.mp ht
    exact Option.some.inj ht ▸ ((h.send _ _).forgetHttpStream _ _).of_eq rfl rfl rfl rfl rfl
  | originError uid =>
    obtain ⟨r, -, ht⟩ := Option.bind_eq_some_iff.mp ht
    refine Option.some.inj ht ▸ LiveBounded.of_eq (LiveBounded.forgetHttpStream ?_ _ _)
      rfl rfl rfl rfl rfl
    split_ifs
    · exact h
    · exact h.send _ _
  | socketOpen uid protocol =>
    simp only [TunnelSession.onLocal, TunnelSession.socketOpen] at ht
    split at ht
    · exact absurd ht (by simp)
    rename_i k _
    have hm : (s.markOpened uid).LiveBounded := h.of_eq rfl rfl rfl rfl rfl
    split at ht
    · exact Option.some.inj ht ▸ hm.of_eq rfl rfl rfl rfl rfl
    · rename_i w hg
      split_ifs at ht
      · exact hm.flush hg ht
      · exact Option.some.inj ht ▸ hm.of_eq rfl rfl rfl rfl rfl
  | socketMessage uid isBinary data =>
    obtain ⟨k, -, ht⟩ := Option.bind_eq_some_iff.mp ht
    exact Option.some.inj ht ▸ h.send _ _
  | socketClose uid code reason =>
    obtain ⟨k, -, ht⟩ := Option.bind_eq_some_iff.mp ht
    have hm : LiveBounded { s with sockets := s.sockets.filter fun k => k.uid ≠ uid } :=
      h.of_eq rfl rfl rfl rfl rfl
    simp only at ht
    split_ifs at ht
    · exact Option.some.inj ht ▸ (hm.forgetWsStream _ _).send _ _
    · exact Option.some.inj ht ▸ hm
  | tunnelClose => exact Option.some.inj ht ▸ liveBounded_dispose s

/-! ## Runs -/

/-- A message of the relay, or an event on the session's own side. -/
inductive Event where
  | message (io : Io) (data : Bytes)
  | onSide (io : Io) (e : LocalEvent)

def step (co : Coercion) (s : TunnelSession) : Event → Option TunnelSession
  | .message io data => some (onMessage co io s data)
  | .onSide io e => onLocal co io s e

/-- No message puts anything but bytes in the place of a stream's data. -/
def UntamperedEvent (s : TunnelSession) : Event → Prop
  | .message _ data => data.length ≤ MAX_CHUNK_BYTES + 6 →
    ∀ f, decodeFrame data = some f → s.Untampered f
  | .onSide _ _ => True

theorem LiveBounded.onMessage (h : s.LiveBounded) {data : Bytes}
    (hf : data.length ≤ MAX_CHUNK_BYTES + 6 → ∀ f, decodeFrame data = some f → s.Untampered f) :
    (onMessage co io s data).LiveBounded := by
  unfold TunnelSession.onMessage
  split
  · rename_i t ht
    unfold TunnelSession.process at ht
    split_ifs at ht with hsize
    split at ht
    · rename_i f hdec
      have hr : LiveBounded { s with received := s.received + 1 } := h.of_eq rfl rfl rfl rfl rfl
      exact hr.onFrame (fun _ => hf (not_lt.mp hsize) f hdec) ht
    · exact absurd ht (by simp)
  · exact liveBounded_dispose _

/-- **Transport bounds.** In every run in which no message puts anything but bytes in the place of
a stream's data, every state of the live session is within its limits. -/
theorem bounded_of_untampered (co : Coercion) (s : TunnelSession)
    (hr : Machine.Reaches (step co) UntamperedEvent new s) (hl : s.disposed = false) :
    s.Bounded ∧ 0 ≤ s.held := by
  have h : s.LiveBounded := by
    refine hr.invariant (fun _ => bounded_new) ?_
    intro t e u ht hok hstep
    cases e with
    | message io data => exact Option.some.inj hstep ▸ ht.onMessage hok
    | onSide io e => exact ht.onLocal hstep
  exact ⟨h hl, (h hl).held_nonneg⟩

/-- The frames that the relay encodes put only bytes there. -/
theorem untamperedEvent_of_encodeFrame {frame : Frame} {data : Bytes}
    (h : encodeFrame frame = some data) (s : TunnelSession) (io : Io) :
    UntamperedEvent s (.message io data) := by
  rintro - f hf ⟨id, -, hadds⟩
  rw [decodeFrame_encodeFrame h] at hf
  obtain rfl := Option.some.inj hf
  rw [Frame.frameType_raw, Option.some.injEq, Option.some.injEq] at hadds
  cases frame with
  | bodyChunk i b => exact ⟨b, rfl⟩
  | wsData i isBinary b => exact ⟨b, rfl⟩
  | _ => simp [Frame.frameType] at hadds

/-- JavaScript's operations, as far as an empty array needs them. -/
def emptyArrays : Coercion where
  plus _ _ := none
  minus _ _ := .nan
  exceeds _ _ := false
  buffer
    | .arr [] => some []
    | _ => none
  payload _ _ := none

def calm : Io := ⟨fun _ => .isOpen, fun _ => 0, true⟩

def uploadInfo : OpenHttp := ⟨"POST".toList, "/".toList, [], true, none⟩

def uploadMessage : Bytes := (encodeFrame (.openHttp 1 uploadInfo)).getD []

def chunkMessage : Bytes := (encodeFrame (.bodyChunk 1 [104, 105])).getD []

/-- A `resp-head` message whose metadata makes it a body chunk of an empty array. -/
def tamperedMessage : Bytes :=
  4 :: (uint32 1 ++ jsonPayload (.obj [("type".toList, .str "body-chunk".toList),
    ("data".toList, .arr [])]))

theorem bounded_of_untampered_upload :
    (onMessage emptyArrays calm (onMessage emptyArrays calm new uploadMessage)
      chunkMessage).Bounded ∧
    0 ≤ (onMessage emptyArrays calm (onMessage emptyArrays calm new uploadMessage)
      chunkMessage).held := by
  have h1 : encodeFrame (.openHttp 1 uploadInfo) = some uploadMessage := by decide +kernel
  have h2 : encodeFrame (.bodyChunk 1 [104, 105]) = some chunkMessage := by decide +kernel
  exact bounded_of_untampered emptyArrays _
    (.tail (.tail .refl (untamperedEvent_of_encodeFrame h1 _ calm) rfl)
      (untamperedEvent_of_encodeFrame h2 _ calm) rfl) (by decide +kernel)

theorem not_bounded :
    ¬ ∀ (co : Coercion) (s : TunnelSession), Machine.Reaches (step co) (fun _ _ => True) new s →
      s.disposed = false → s.Bounded ∧ 0 ≤ s.held := by
  intro h
  let s := onMessage emptyArrays calm new uploadMessage
  let t := onMessage emptyArrays calm s tamperedMessage
  have hs : step emptyArrays new (.message calm uploadMessage) = some s := rfl
  have ht : step emptyArrays s (.message calm tamperedMessage) = some t := rfl
  have hlive : t.disposed = false := by decide +kernel
  have hnan : t.bufferedBytes.isNaN = true := by decide +kernel
  have htotal := (h emptyArrays t (.tail (.tail .refl trivial hs) trivial ht) hlive).1.total
  rw [htotal] at hnan
  exact absurd hnan (by decide)

end TunnelSession

end BbShared
