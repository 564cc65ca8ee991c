import BbShared.RelayReplies
import BbShared.SessionAnswers

/-!
# Request bodies at the relay

`proxyHttp` and `pumpRequestBody` of `tunnel-do.ts`: what a relay sends of its visitors' requests.
The opening of a stream says what the visitor asked for, chunks follow it in the order they are read,
and the end of a body is sent once all of it is.
-/

namespace BbShared

open Js

/-- A frame that neither opens a request nor carries any of its body. -/
def Frame.Aside : Frame → Prop
  | .openHttp _ _ => False
  | .bodyChunk _ _ => False
  | .bodyEnd _ => False
  | _ => True

theorem bodyOf_append (l l' : List Frame) (id : ℕ) :
    bodyOf (l ++ l') id = bodyOf l id ++ bodyOf l' id := List.flatMap_append

theorem bodyOf_take_succ {frames : List Frame} {n : ℕ} {f : Frame} (hf : frames[n]? = some f) :
    bodyOf (frames.take (n + 1)) = fun id => bodyOf (frames.take n) id ++ f.bytesFor id := by
  funext id
  rw [List.take_add_one, hf, bodyOf_append]
  exact congrArg _ (List.flatMap_singleton _ f)

theorem bodyOf_eq_nil {l : List Frame} {id : ℕ} (h : ∀ data, .bodyChunk id data ∉ l) :
    bodyOf l id = [] := by
  refine List.flatMap_eq_nil_iff.mpr fun f hf => TunnelSession.bytesFor_of_ne ?_
  rintro i data rfl rfl
  exact h data hf

theorem bodyOf_aside {l : List Frame} (h : ∀ f ∈ l, f.Aside) (id : ℕ) : bodyOf l id = [] :=
  bodyOf_eq_nil fun _ hf => h _ hf

theorem bodyOf_chunks (id : ℕ) (data : Bytes) :
    bodyOf ((chunks data).map (.bodyChunk id)) id = data := by
  unfold bodyOf
  rw [List.flatMap_map, List.flatMap_congr fun c _ => show Frame.bytesFor id (.bodyChunk id c) = c
    from if_pos rfl]
  exact List.flatMap_id'.trans (flatten_chunks data)

namespace TunnelDO

variable {d t : TunnelDO}

/-! ## Pumps -/

section Pumps

variable (d) (link : TunnelLink)

@[simp] theorem pumps_closeVisitor (v : VisitorSocket) (source : Option ℕ) (code : ℕ)
    (reason : Text) : (d.closeVisitor v source code reason).pumps = d.pumps := by
  unfold closeVisitor
  split_ifs <;> rfl

@[simp] theorem pumps_failHttpStream (id status : ℕ) (message : Text) (source : Option ℕ) :
    (d.failHttpStream id status message source).pumps = d.pumps := by
  unfold failHttpStream
  split <;> rfl

theorem pumps_foldl {α : Type*} {f : TunnelDO → α → TunnelDO}
    (h : ∀ a d, (f d a).pumps = d.pumps) (as : List α) : (as.foldl f d).pumps = d.pumps := by
  induction as generalizing d with
  | nil => rfl
  | cons a as ih => exact (ih _).trans (h a d)

@[simp] theorem pumps_abandonStreams (httpReason wsReason : Text) :
    (d.abandonStreams httpReason wsReason).pumps = d.pumps :=
  (pumps_foldl _ (fun v d => pumps_closeVisitor d v _ _ _) _).trans
    (pumps_foldl d (fun _ d => pumps_failHttpStream d _ _ _ _) _)

@[simp] theorem pumps_sendOnly (f : Frame) : (d.sendOnly link f).pumps = d.pumps := by
  unfold sendOnly
  rcases trySend_cases d link f with h | h | ⟨m, -, h⟩ <;> rw [h]
  rfl

@[simp] theorem pumps_visitorMessage (v : VisitorSocket) (isBinary : Bool) (data : Bytes) :
    (d.visitorMessage link v isBinary data).pumps = d.pumps := by
  unfold visitorMessage
  split_ifs
  · rcases trySend_cases d link (.wsData v.streamId isBinary data) with h | h | ⟨m, -, h⟩ <;> rw [h]
    · exact pumps_closeVisitor d v _ _ _
    · rfl
  · exact pumps_closeVisitor d v _ _ _

@[simp] theorem pumps_visitorClose (v : VisitorSocket) (code : ℕ) (reason : Text) :
    (d.visitorClose link v code reason).pumps = d.pumps := by
  unfold visitorClose
  split_ifs <;> simp

@[simp] theorem pumps_cancelHttpStream (id : ℕ) :
    (d.cancelHttpStream link id).pumps = d.pumps := by
  unfold cancelHttpStream
  split
  · rfl
  · split_ifs <;> simp

theorem pumps_onTunnelFrame (relayable : Relayable) (source : ℕ) (f : Frame) :
    (d.onTunnelFrame relayable source f).pumps = d.pumps := by
  cases f with
  | respHead id status headers =>
    unfold onTunnelFrame onRespHead
    dsimp only
    split
    · rfl
    · split_ifs <;> rfl
  | bodyChunk id data =>
    unfold onTunnelFrame onBodyChunk
    dsimp only
    split
    · split_ifs <;> rfl
    · rfl
  | bodyEnd id =>
    unfold onTunnelFrame onBodyEnd
    dsimp only
    split
    · split_ifs <;> rfl
    · rfl
  | closeStream id code reason =>
    unfold onTunnelFrame onCloseStream
    dsimp only
    split_ifs
    · exact pumps_failHttpStream d _ _ _ _
    · split
      · exact pumps_closeVisitor d _ _ _ _
      · rfl
  | wsData id isBinary data =>
    unfold onTunnelFrame onWsData
    dsimp only
    split
    · split_ifs <;> rfl
    · rfl
  | wsOpenAck id protocol => rfl
  | openHttp id info => rfl
  | openWs id info => rfl

end Pumps

/-! ## What a step sends of a body -/

theorem encodeFrame_bodyChunk {id : ℕ} (hid : id ≤ 0xffffffff) {data : Bytes}
    (hd : data.length ≤ MAX_CHUNK_BYTES) : encodeFrame (.bodyChunk id data) ≠ none := by
  rw [encodeFrame, if_neg (not_lt.mpr hd), withHeader, if_pos hid]
  exact Option.some_ne_none _

theorem trySend_eq_none {link : TunnelLink} {f : Frame} (h : d.trySend link f = none) :
    encodeFrame f = none := by
  unfold trySend at h
  split at h
  · cases h
  · assumption

/-- A frame that can be encoded is sent where `send` does not throw. -/
theorem frames_sendOnly {link : TunnelLink} (hl : link.sends = true) {f : Frame}
    (hf : encodeFrame f ≠ none) (d : TunnelDO) : (d.sendOnly link f).frames = d.frames ++ [f] := by
  unfold sendOnly
  split
  · rename_i sent t h
    obtain ⟨hs, hp⟩ := posts_trySend h
    obtain rfl := hs.trans hl
    exact hp.frames
  · rename_i h
    exact absurd (trySend_eq_none h) hf

theorem frames_foldl_sendOnly {link : TunnelLink} (hl : link.sends = true) {frames : List Frame}
    (hf : ∀ f ∈ frames, encodeFrame f ≠ none) (d : TunnelDO) :
    (frames.foldl (fun d f => d.sendOnly link f) d).frames = d.frames ++ frames := by
  induction frames generalizing d with
  | nil => exact (List.append_nil _).symm
  | cons f frames ih =>
    rw [List.foldl_cons, ih (fun g hg => hf g (List.mem_cons_of_mem _ hg)),
      frames_sendOnly hl (hf f List.mem_cons_self), List.append_assoc, List.singleton_append]

/-- What a step that takes no request sends of the bodies, and which bodies it leaves. -/
inductive Feeds (d t : TunnelDO) : RelayEvent → Prop
  | aside {e : RelayEvent} {l : List Frame} (hf : t.frames = d.frames ++ l) (hl : ∀ f ∈ l, f.Aside)
      (hp : t.pumps = d.pumps) (he : ∀ id v sends, e ≠ .pumpChunk id v sends) : Feeds d t e
  | chunk {id : ℕ} {value : Bytes} {sends : Bool}
      (hf : t.frames = d.frames ++ chunkBody id value) (hp : t.pumps = d.pumps) :
      Feeds d t (.pumpChunk id value sends)
  | leave {id : ℕ} {value : Bytes} {sends : Bool} (hf : t.frames = d.frames)
      (hp : t.pumps = d.pumps.erase id) : Feeds d t (.pumpChunk id value sends)
  | finish {id : ℕ} {sends : Bool} {l : List Frame} (hf : t.frames = d.frames ++ l)
      (hl : l = [] ∨ l = [.bodyEnd id]) (hp : t.pumps = d.pumps.erase id) :
      Feeds d t (.pumpEnd id sends)
  | fail {id : ℕ} {sends : Bool} {l : List Frame} (hf : t.frames = d.frames ++ l)
      (hl : ∀ f ∈ l, f.Aside) (hp : t.pumps = d.pumps.erase id) : Feeds d t (.pumpError id sends)

theorem feeds_quiet {e : RelayEvent} (h : Posts [] d t) (hp : t.pumps = d.pumps)
    (he : ∀ id v sends, e ≠ .pumpChunk id v sends) : Feeds d t e :=
  .aside h.frames (by simp) hp he

theorem feeds_pumpChunk {link : TunnelLink} {id : ℕ} (hid : id ≤ 0xffffffff) (value : Bytes)
    (d : TunnelDO) (sends : Bool) :
    Feeds d (d.pumpChunk link id value) (.pumpChunk id value sends) := by
  unfold pumpChunk
  split_ifs with hl hv
  · refine .chunk (frames_foldl_sendOnly hl (fun f hf => ?_) d)
      (pumps_foldl d (fun f d => pumps_sendOnly d link f) _)
    obtain ⟨c, hc, rfl⟩ := List.mem_map.mp hf
    exact encodeFrame_bodyChunk hid (length_le_of_mem_chunks hc)
  · subst hv
    refine .chunk ?_ rfl
    unfold chunkBody chunks
    exact (List.append_nil _).symm
  · exact .leave rfl rfl

theorem feeds_pumpEnd (d : TunnelDO) (link : TunnelLink) (id : ℕ) (sends : Bool) :
    Feeds d (d.pumpEnd link id) (.pumpEnd id sends) := by
  have hsend : ∃ l, (d.sendOnly link (.bodyEnd id)).frames = d.frames ++ l ∧
      (l = [] ∨ l = [.bodyEnd id]) := by
    unfold sendOnly
    rcases trySend_cases d link (.bodyEnd id) with h | h | ⟨m, hm, h⟩ <;> rw [h]
    · exact ⟨[], (List.append_nil _).symm, .inl rfl⟩
    · exact ⟨[], (List.append_nil _).symm, .inl rfl⟩
    · exact ⟨[m.frame], (posts_post d m).frames, .inr (by rw [hm])⟩
  obtain ⟨l, hf, hl⟩ := hsend
  exact .finish hf hl rfl

theorem feeds_pumpError (d : TunnelDO) (link : TunnelLink) (id : ℕ) (sends : Bool) :
    Feeds d (d.pumpError link id) (.pumpError id sends) := by
  obtain ⟨l, hp, hl, -⟩ := posts_sendOnly d link
    (.closeStream id 1011 "request body error".toList)
  exact .fail hp.frames (fun f hf => hl f hf ▸ trivial) rfl

/-- A frame that is no part of a request may be sent, and then only visitors are told something. -/
theorem feeds_sendOnly (d : TunnelDO) (link : TunnelLink) {f : Frame} (hf : f.Aside)
    {e : RelayEvent} (he : ∀ id v sends, e ≠ .pumpChunk id v sends)
    (h : Posts [] (d.sendOnly link f) t)
    (hp : t.pumps = (d.sendOnly link f).pumps) : Feeds d t e := by
  obtain ⟨l, hl, hsame, -⟩ := posts_sendOnly d link f
  exact .aside (hl.then_nil h).frames (fun g hg => hsame g hg ▸ hf)
    (hp.trans (pumps_sendOnly d link f)) he

theorem feeds_visitorMessage (d : TunnelDO) (link : TunnelLink) (v : VisitorSocket) (n : ℕ)
    (isBinary : Bool) (data : Bytes) (sends : Bool) :
    Feeds d (d.visitorMessage link v isBinary data) (.visitorMessage n isBinary data sends) := by
  have hp := pumps_visitorMessage d link v isBinary data
  rcases visitorMessage_cases d link v isBinary data with ⟨-, -, h⟩ | ⟨-, h⟩
  · refine .aside h.frames (fun f hf => ?_) hp nofun
    obtain rfl := List.mem_singleton.mp hf
    trivial
  · exact feeds_quiet h hp nofun

theorem feeds_visitorClose (d : TunnelDO) (link : TunnelLink) (v : VisitorSocket) (n code : ℕ)
    (reason : Text) (sends : Bool) :
    Feeds d (d.visitorClose link v code reason) (.visitorClose n code reason sends) := by
  unfold visitorClose
  split_ifs
  · exact feeds_sendOnly d link (f := .closeStream v.streamId (safeCloseCode code) reason) trivial
      nofun (posts_closeVisitor _ _ _ _ _) (pumps_closeVisitor _ _ _ _ _)
  · exact feeds_quiet (posts_closeVisitor _ _ _ _ _) (pumps_closeVisitor _ _ _ _ _) nofun

theorem feeds_cancelHttpStream (d : TunnelDO) (link : TunnelLink) (id : ℕ) (sends : Bool) :
    Feeds d (d.cancelHttpStream link id) (.cancel id sends) := by
  have herase : Posts [] d { d with pendingHttp := d.pendingHttp.erase id } :=
    posts_nil rfl rfl rfl fun v hv => ⟨v, hv, rfl, rfl⟩
  unfold cancelHttpStream
  split
  · exact feeds_quiet (posts_refl d) rfl nofun
  · split_ifs
    · obtain ⟨l, hl, hsame, -⟩ := posts_sendOnly
        { d with pendingHttp := d.pendingHttp.erase id } link
        (.closeStream id 1000 "visitor canceled response body".toList)
      refine .aside (l := l) ((herase.trans hl).frames) (fun f hf => hsame f hf ▸ trivial)
        (pumps_sendOnly _ link _) nofun
    · exact feeds_quiet herase rfl nofun

end TunnelDO

/-- What a step of the relay does that takes no request and no frame. -/
theorem TunnelRelay.feeds_of_step {secret : Text} {relayable : TunnelDO.Relayable}
    {s t : TunnelRelay} {e : RelayEvent} (hfetch : ∀ r sends, e ≠ .fetch r sends)
    (hf : ∀ tunnel source f, e ≠ .tunnelFrame tunnel source f)
    (hid : ∀ id v sends, e = .pumpChunk id v sends → id ≤ 0xffffffff)
    (h : step secret relayable s e = some t) :
    TunnelDO.Feeds s.relay t.relay e ∧ TunnelDO.Releases s.relay t.relay := by
  have hsame : (∀ id v sends, e ≠ .pumpChunk id v sends) →
      TunnelDO.Feeds s.relay s.relay e ∧ TunnelDO.Releases s.relay s.relay := fun he =>
    ⟨TunnelDO.feeds_quiet (TunnelDO.posts_refl _) rfl he, TunnelDO.releases_refl _⟩
  cases e with
  | dial r =>
    unfold step at h
    obtain rfl := Option.some.inj h
    split_ifs
    · exact hsame nofun
    · exact ⟨TunnelDO.feeds_quiet (TunnelDO.posts_abandonStreams _ _ _)
        (TunnelDO.pumps_abandonStreams _ _ _) nofun, TunnelDO.releases_abandonStreams _ _ _⟩
  | lose tunnel =>
    obtain rfl := Option.some.inj h
    exact hsame nofun
  | tunnelFrame tunnel source f => exact absurd rfl (hf tunnel source f)
  | tunnelClose tunnel =>
    unfold step at h
    dsimp only at h
    split_ifs at h
    obtain rfl := Option.some.inj h
    unfold tunnelClose
    dsimp only
    split_ifs
    · exact hsame nofun
    · exact ⟨TunnelDO.feeds_quiet (TunnelDO.posts_abandonStreams _ _ _)
        (TunnelDO.pumps_abandonStreams _ _ _) nofun, TunnelDO.releases_abandonStreams _ _ _⟩
  | fetch r sends => exact absurd rfl (hfetch r sends)
  | pumpChunk id value sends =>
    obtain rfl := Option.some.inj h
    exact ⟨TunnelDO.feeds_pumpChunk (hid id value sends rfl) _ _ _,
      TunnelDO.releases_pumpChunk _ _ _ _⟩
  | pumpEnd id sends =>
    obtain rfl := Option.some.inj h
    exact ⟨TunnelDO.feeds_pumpEnd _ _ _ _, TunnelDO.releases_pumpEnd _ _ _⟩
  | pumpError id sends =>
    obtain rfl := Option.some.inj h
    exact ⟨TunnelDO.feeds_pumpError _ _ _ _, TunnelDO.releases_pumpError _ _ _⟩
  | visitorMessage n isBinary data sends =>
    obtain ⟨v, -, rfl⟩ := Option.map_eq_some_iff.mp h
    exact ⟨TunnelDO.feeds_visitorMessage _ _ _ _ _ _ _,
      TunnelDO.releases_visitorMessage _ _ _ _ _⟩
  | visitorClose n code reason sends =>
    obtain ⟨v, -, rfl⟩ := Option.map_eq_some_iff.mp h
    exact ⟨TunnelDO.feeds_visitorClose _ _ _ _ _ _ _, TunnelDO.releases_visitorClose _ _ _ _ _⟩
  | visitorGone n =>
    obtain rfl := Option.some.inj h
    exact ⟨TunnelDO.feeds_quiet (TunnelDO.posts_forgetVisitor _ _) rfl nofun,
      TunnelDO.releases_of_eq rfl rfl⟩
  | headTimeout id =>
    obtain ⟨d, hd, rfl⟩ := Option.map_eq_some_iff.mp h
    unfold TunnelDO.headTimeout at hd
    split at hd
    · split_ifs at hd
      obtain rfl := Option.some.inj hd
      exact ⟨TunnelDO.feeds_quiet (TunnelDO.posts_failHttpStream _ _ _ _ _)
        (TunnelDO.pumps_failHttpStream _ _ _ _ _) nofun, TunnelDO.releases_failHttpStream _ _ _ _ _⟩
    · cases hd
  | cancel id sends =>
    unfold step at h
    dsimp only at h
    split at h
    · split_ifs at h
      obtain rfl := Option.some.inj h
      exact ⟨TunnelDO.feeds_cancelHttpStream _ _ _ _, TunnelDO.releases_cancelHttpStream _ _ _⟩
    · cases h

namespace TunnelDO

variable {d t : TunnelDO}

/-! ## Requests that come -/

/-- A visitor is turned away or gets a socket, or its request is sent and waits for an answer. -/
inductive Admits (r : VisitorRequest) (d t : TunnelDO) : Answer → Prop
  | aside {a : Answer} {l : List Frame} (ha : a ≠ .waiting) (he : t.effects = d.effects)
      (hf : t.frames = d.frames ++ l) (hl : ∀ f ∈ l, f.Aside) (hp : t.pumps = d.pumps)
      (hg : ∀ i e, t.pendingHttp.get i = some e → d.pendingHttp.get i = some e ∨ e.opening = none) :
      Admits r d t a
  | request (he : t.effects = d.effects)
      (hf : t.frames = d.frames ++ [.openHttp d.nextStreamId r.openHttp])
      (hp : t.pumps = d.pumps ++ if r.body.isSome then [d.nextStreamId] else [])
      (hg : ∀ i e, t.pendingHttp.get i = some e → d.pendingHttp.get i = some e ∨
        i = d.nextStreamId ∧ e = { opening := some d.sent, writer := false, timeout := true }) :
      Admits r d t .waiting

theorem admits_openVisitorWebSocket (d : TunnelDO) (link : TunnelLink) (r : VisitorRequest) :
    Admits r d (d.openVisitorWebSocket link r).1 (d.openVisitorWebSocket link r).2 := by
  unfold openVisitorWebSocket
  dsimp only
  rcases trySend_cases { d with nextStreamId := d.nextStreamId + 1 } link
    (.openWs d.nextStreamId r.openWs) with h | h | ⟨m, hm, h⟩ <;> rw [h]
  · exact .aside (l := []) nofun rfl (List.append_nil _).symm (by simp) rfl fun _ _ => .inl
  · exact .aside (l := []) nofun rfl (List.append_nil _).symm (by simp) rfl fun _ _ => .inl
  · refine .aside nofun rfl (posts_post _ m).frames (fun f hf => ?_) rfl fun _ _ => .inl
    obtain rfl := List.mem_singleton.mp hf
    rw [hm]
    trivial

theorem admits_proxyHttp (d : TunnelDO) (link : TunnelLink) (r : VisitorRequest) :
    Admits r d (d.proxyHttp link r).1 (d.proxyHttp link r).2 := by
  unfold proxyHttp
  dsimp only
  rcases trySend_cases { d with
      nextStreamId := d.nextStreamId + 1
      pendingHttp := d.pendingHttp.set d.nextStreamId ⟨none, false, true⟩ } link
    (.openHttp d.nextStreamId r.openHttp) with h | h | ⟨m, hm, h⟩ <;> rw [h]
  · refine .aside (l := []) nofun rfl (List.append_nil _).symm (by simp) rfl fun i e hi => ?_
    rcases get_of_get_set hi with ⟨-, hi⟩ | ⟨-, rfl⟩
    · exact .inl hi
    · exact .inr rfl
  · refine .aside (l := []) nofun rfl (List.append_nil _).symm (by simp) rfl fun i e hi => ?_
    obtain ⟨hne, hi⟩ := get_of_get_erase
      (d := { d with pendingHttp := d.pendingHttp.set d.nextStreamId ⟨none, false, true⟩ }) hi
    rcases get_of_get_set hi with ⟨-, hi⟩ | ⟨rfl, -⟩
    · exact .inl hi
    · exact absurd rfl hne
  · have hframes := (posts_post { d with
      nextStreamId := d.nextStreamId + 1
      pendingHttp := d.pendingHttp.set d.nextStreamId ⟨none, false, true⟩ } m).frames
    rw [hm] at hframes
    have hget : ∀ i e, ((d.pendingHttp.set d.nextStreamId ⟨none, false, true⟩).set d.nextStreamId
        ⟨some d.sent, false, true⟩).get i = some e → d.pendingHttp.get i = some e ∨
          i = d.nextStreamId ∧ e = ⟨some d.sent, false, true⟩ := by
      intro i e hi
      rw [OrderedMap.set_set] at hi
      exact (get_of_get_set hi).imp And.right id
    dsimp only
    split_ifs with hb
    · exact .request rfl hframes (by rw [if_pos hb]; rfl) hget
    · exact .request rfl hframes (by rw [if_neg hb, List.append_nil]; rfl) hget

theorem admits_proxyGuestRequest (d : TunnelDO) (link : TunnelLink) (r : VisitorRequest) :
    Admits r d (d.proxyGuestRequest link r).1 (d.proxyGuestRequest link r).2 := by
  unfold proxyGuestRequest
  split_ifs
  · exact admits_openVisitorWebSocket d link r
  · exact admits_proxyHttp d link r
  · exact .aside (l := []) nofun rfl (List.append_nil _).symm (by simp) rfl fun _ _ => .inl

/-! ## Bodies that are read -/

/-- What is left to read of a body, and whether it ends without an error. -/
abbrev Rest := ℕ → Option (List Bytes × Bool)

/-- The opening `n` asks for what the visitor asked for. -/
def AskedBy (asked : ℕ → Option VisitorRequest) (frames : List Frame) (n id : ℕ)
    (r : VisitorRequest) : Prop :=
  frames[n]? = some (.openHttp id r.withOrigin.openHttp) ∧ asked n = some r

/-- Openings are asked for, chunks and ends come after them, what is sent of a body and what is left
to read of it are the body, and at its end all of it is sent. -/
structure Reads (asked : ℕ → Option VisitorRequest) (rest : Rest) (d : TunnelDO) : Prop where
  opened : ∀ n id info, d.frames[n]? = some (.openHttp id info) → ∃ r, AskedBy asked d.frames n id r
  pumps : d.pumps.Nodup
  reading : ∀ id ∈ d.pumps, ∃ n r cs rs b, AskedBy asked d.frames n id r ∧ r.body = some (cs, b) ∧
    rest id = some (rs, b) ∧ cs.flatten = bodyOf d.frames id ++ rs.flatten
  chunk : ∀ k id data, d.frames[k]? = some (.bodyChunk id data) →
    ∃ n < k, ∃ r, AskedBy asked d.frames n id r
  ended : ∀ k id, d.frames[k]? = some (.bodyEnd id) → ∃ n < k, ∃ r cs,
    AskedBy asked d.frames n id r ∧ r.body = some (cs, true) ∧
      bodyOf (d.frames.take k) id = cs.flatten

variable {asked : ℕ → Option VisitorRequest} {rest rest' : Rest}

theorem reads_new (asked : ℕ → Option VisitorRequest) (rest : Rest) : new.Reads asked rest where
  opened _ _ _ h := by cases h
  pumps := .nil
  reading _ h := by cases h
  chunk _ _ _ h := by cases h
  ended _ _ h := by cases h

theorem AskedBy.append {frames : List Frame} {n id : ℕ} {r : VisitorRequest}
    (h : AskedBy asked frames n id r) (l : List Frame) : AskedBy asked (frames ++ l) n id r :=
  ⟨getElem?_append_of_eq_some h.1 l, h.2⟩

/-- **Frame rule.** What is sent is about bodies that are being read. -/
theorem Reads.append (h : d.Reads asked rest) {l : List Frame} (hf : t.frames = d.frames ++ l)
    (hopens : ∀ id info, .openHttp id info ∉ l) (hp : t.pumps.Nodup)
    (hchunk : ∀ id data, .bodyChunk id data ∈ l → id ∈ d.pumps)
    (hended : ∀ id, .bodyEnd id ∈ l → l = [.bodyEnd id] ∧ id ∈ d.pumps ∧ rest id = some ([], true))
    (hreading : ∀ id ∈ t.pumps, id ∈ d.pumps ∧ ∀ rs b, rest id = some (rs, b) →
      ∃ rs', rest' id = some (rs', b) ∧ rs.flatten = bodyOf l id ++ rs'.flatten) :
    t.Reads asked rest' where
  opened n id info hn := by
    rw [hf] at hn ⊢
    rcases getElem?_append_eq_some hn with hn | ⟨-, hn⟩
    · obtain ⟨r, hr⟩ := h.opened n id info hn
      exact ⟨r, hr.append l⟩
    · exact absurd hn (hopens id info)
  pumps := hp
  reading id hid := by
    obtain ⟨hid, hrest⟩ := hreading id hid
    obtain ⟨n, r, cs, rs, b, hr, hbody, hrs, hcs⟩ := h.reading id hid
    obtain ⟨rs', hrs', hsplit⟩ := hrest rs b hrs
    refine ⟨n, r, cs, rs', b, hf ▸ hr.append l, hbody, hrs', ?_⟩
    rw [hf, bodyOf_append, List.append_assoc, ← hsplit]
    exact hcs
  chunk k id data hk := by
    rw [hf] at hk ⊢
    rcases getElem?_append_eq_some hk with hk | ⟨hlen, hk⟩
    · obtain ⟨n, hn, r, hr⟩ := h.chunk k id data hk
      exact ⟨n, hn, r, hr.append l⟩
    · obtain ⟨n, r, cs, rs, b, hr, -⟩ := h.reading id (hchunk id data hk)
      exact ⟨n, (List.getElem?_eq_some_iff.mp hr.1).1.trans_le hlen, r, hr.append l⟩
  ended k id hk := by
    rw [hf] at hk ⊢
    rcases getElem?_append_eq_some hk with hold | ⟨hlen, hnew⟩
    · obtain ⟨n, hn, r, cs, hr, hbody, hall⟩ := h.ended k id hold
      refine ⟨n, hn, r, cs, hr.append l, hbody, ?_⟩
      rw [List.take_append_of_le_length (List.getElem?_eq_some_iff.mp hold).1.le]
      exact hall
    · obtain ⟨rfl, hid, hrest⟩ := hended id hnew
      obtain ⟨n, r, cs, rs, b, hr, hbody, hrs, hcs⟩ := h.reading id hid
      obtain ⟨rfl, rfl⟩ := Prod.mk.inj (Option.some.inj (hrest.symm.trans hrs))
      have hk' : k = d.frames.length := by
        have := (List.getElem?_eq_some_iff.mp hk).1
        rw [List.length_append, List.length_singleton] at this
        omega
      refine ⟨n, (List.getElem?_eq_some_iff.mp hr.1).1.trans_le hlen, r, cs, hr.append _, hbody, ?_⟩
      rw [hk', List.take_left, hcs]
      exact (List.append_nil _).symm

/-- What is sent is about no body. -/
theorem Reads.aside (h : d.Reads asked rest) {l : List Frame} (hf : t.frames = d.frames ++ l)
    (hl : ∀ f ∈ l, f.Aside) (hp : t.pumps = d.pumps) : t.Reads asked rest :=
  h.append hf (fun _ _ hm => hl _ hm) (hp ▸ h.pumps) (fun _ _ hm => absurd (hl _ hm) id)
    (fun _ hm => absurd (hl _ hm) id) fun id hid => ⟨hp ▸ hid, fun rs b hrs => ⟨rs, hrs, by
      rw [bodyOf_aside hl, List.nil_append]⟩⟩

/-- What is left to read after an event. -/
def Rest.after (rest : Rest) : RelayEvent → Rest
  | .pumpChunk id _ _ => Function.update rest id ((rest id).map fun b => (b.1.tail, b.2))
  | _ => rest

/-- A body is read from its beginning to its end. -/
def Rest.Ok (rest : Rest) : RelayEvent → Prop
  | .pumpChunk id value _ => ∃ rs b, rest id = some (value :: rs, b)
  | .pumpEnd id _ => rest id = some ([], true)
  | .pumpError id _ => rest id = some ([], false)
  | _ => True

theorem Rest.after_of_ne {e : RelayEvent} (he : ∀ id v sends, e ≠ .pumpChunk id v sends)
    (rest : Rest) : rest.after e = rest := by
  cases e with
  | pumpChunk id v sends => exact absurd rfl (he id v sends)
  | _ => rfl

/-- The pumps of this body are over. -/
theorem Reads.erase (h : d.Reads asked rest) {id : ℕ} (hp : t.pumps = d.pumps.erase id)
    {l : List Frame} (hf : t.frames = d.frames ++ l) (hopens : ∀ i info, .openHttp i info ∉ l)
    (hchunk : ∀ i data, .bodyChunk i data ∉ l)
    (hended : ∀ i, .bodyEnd i ∈ l → l = [.bodyEnd i] ∧ i ∈ d.pumps ∧ rest i = some ([], true))
    (hrest : ∀ j, j ≠ id → rest' j = rest j) : t.Reads asked rest' := by
  refine h.append hf hopens (hp ▸ h.pumps.erase id) (fun i data hm => absurd hm (hchunk i data))
    hended fun j hj => ?_
  rw [hp] at hj
  obtain ⟨hne, hj⟩ := h.pumps.mem_erase_iff.mp hj
  refine ⟨hj, fun rs b hrs => ⟨rs, (hrest j hne).trans hrs, ?_⟩⟩
  rw [bodyOf_eq_nil (hchunk j), List.nil_append]

/-- **Step rule.** -/
theorem Reads.feeds (h : d.Reads asked rest) {e : RelayEvent} (hf : Feeds d t e)
    (hpump : match e with
      | .pumpChunk id _ _ => id ∈ d.pumps
      | .pumpEnd id _ => id ∈ d.pumps
      | .pumpError id _ => id ∈ d.pumps
      | _ => True)
    (hok : rest.Ok e) : t.Reads asked (rest.after e) := by
  cases hf with
  | aside hf hl hp he =>
    rw [Rest.after_of_ne he]
    exact h.aside hf hl hp
  | @chunk id value sends hf hp =>
    have hmem : ∀ f ∈ chunkBody id value, ∃ c, f = .bodyChunk id c := fun f hm => by
      obtain ⟨c, -, rfl⟩ := List.mem_map.mp hm
      exact ⟨c, rfl⟩
    refine h.append hf (fun i info hm => ?_) (hp ▸ h.pumps) (fun i data hm => ?_) (fun i hm => ?_)
      fun j hj => ⟨hp ▸ hj, fun rs b hrs => ?_⟩
    · obtain ⟨c, hc⟩ := hmem _ hm
      cases hc
    · obtain ⟨c, hc⟩ := hmem _ hm
      obtain ⟨rfl, -⟩ := Frame.bodyChunk.inj hc
      exact hpump
    · obtain ⟨c, hc⟩ := hmem _ hm
      cases hc
    · rcases eq_or_ne j id with rfl | hne
      · obtain ⟨rs', b', hvalue⟩ := hok
        obtain ⟨rfl, rfl⟩ := Prod.mk.inj (Option.some.inj (hvalue.symm.trans hrs))
        refine ⟨rs', ?_, ?_⟩
        · unfold Rest.after
          dsimp only
          rw [Function.update_self, hvalue]
          rfl
        · rw [List.flatten_cons]
          exact congrArg (· ++ _) (bodyOf_chunks j value).symm
      · refine ⟨rs, (Function.update_of_ne hne _ _).trans hrs, ?_⟩
        rw [bodyOf_eq_nil fun data hm => ?_, List.nil_append]
        obtain ⟨c, hc⟩ := hmem _ hm
        exact hne (Frame.bodyChunk.inj hc).1
  | leave hf hp =>
    exact h.erase hp (l := []) (hf.trans (List.append_nil _).symm) (by simp) (by simp) (by simp)
      fun j hj => Function.update_of_ne hj _ _
  | @finish id sends l hf hl hp =>
    refine h.erase hp hf (fun i info hm => ?_) (fun i data hm => ?_) (fun i hm => ?_)
      fun _ _ => rfl
    · rcases hl with rfl | rfl
      · cases hm
      · cases List.mem_singleton.mp hm
    · rcases hl with rfl | rfl
      · cases hm
      · cases List.mem_singleton.mp hm
    · rcases hl with rfl | rfl
      · cases hm
      · obtain rfl := Frame.bodyEnd.inj (List.mem_singleton.mp hm)
        exact ⟨rfl, hpump, hok⟩
  | fail hf hl hp =>
    exact h.erase hp hf (fun _ _ hm => hl _ hm) (fun _ _ hm => hl _ hm)
      (fun _ hm => absurd (hl _ hm) id) fun _ _ => rfl

theorem AskedBy.lt {frames : List Frame} {n id : ℕ} {r : VisitorRequest}
    (h : AskedBy asked frames n id r) : n < frames.length := (List.getElem?_eq_some_iff.mp h.1).1

/-- The id of an opening is one of those given out. -/
theorem Wired.lt_next (h : d.Wired) {n id : ℕ} {r : VisitorRequest}
    (ha : AskedBy asked d.frames n id r) : id < d.nextStreamId :=
  h.fresh _ (List.mem_of_getElem? ha.1) trivial

/-- **Opening rule.** A request is sent, and its body is to be read. -/
theorem Reads.request (h : d.Reads asked rest) (hw : d.Wired) {r : VisitorRequest}
    (hf : t.frames = d.frames ++ [.openHttp d.nextStreamId r.withOrigin.openHttp])
    (hp : t.pumps = d.pumps ++ if r.body.isSome then [d.nextStreamId] else []) :
    t.Reads (Function.update asked d.sent (some r)) (Function.update rest d.nextStreamId r.body) := by
  have hold : ∀ {n id r'}, AskedBy asked d.frames n id r' →
      AskedBy (Function.update asked d.sent (some r)) t.frames n id r' := fun {n id r'} ha => by
    refine ⟨hf ▸ (ha.append _).1, ?_⟩
    rw [Function.update_of_ne (hw.sent ▸ ha.lt.ne)]
    exact ha.2
  have hnew : AskedBy (Function.update asked d.sent (some r)) t.frames d.sent d.nextStreamId r := by
    refine ⟨?_, Function.update_self _ _ _⟩
    rw [hf, ← hw.sent, List.getElem?_concat_length]
  have hcases : ∀ {k : ℕ} {f : Frame}, t.frames[k]? = some f → d.frames[k]? = some f ∨
      k = d.sent ∧ f = .openHttp d.nextStreamId r.withOrigin.openHttp := fun {k f} hk => by
    rw [hf] at hk
    rcases getElem?_append_eq_some hk with hold | ⟨hlen, hmem⟩
    · exact .inl hold
    · have hlt := (List.getElem?_eq_some_iff.mp hk).1
      rw [List.length_append, List.length_singleton] at hlt
      exact .inr ⟨by have := hw.sent; omega, List.mem_singleton.mp hmem⟩
  have hnone : bodyOf d.frames d.nextStreamId = [] := bodyOf_eq_nil fun data hm => by
    obtain ⟨k, hk⟩ := List.mem_iff_getElem?.mp hm
    obtain ⟨n, -, r', ha⟩ := h.chunk k _ data hk
    exact (hw.lt_next ha).false
  have hbody : ∀ id, bodyOf t.frames id = bodyOf d.frames id := fun id => by
    rw [hf, bodyOf_append, bodyOf_eq_nil (l := [_]) (by simp), List.append_nil]
  have hlt : ∀ id ∈ d.pumps, id < d.nextStreamId := fun id hid => by
    obtain ⟨n, r', cs, rs, b, ha, -⟩ := h.reading id hid
    exact hw.lt_next ha
  refine ⟨fun n id info hn => ?_, ?_, fun id hid => ?_, fun k id data hk => ?_, fun k id hk => ?_⟩
  · rcases hcases hn with hn | ⟨rfl, he⟩
    · obtain ⟨r', ha⟩ := h.opened n id info hn
      exact ⟨r', hold ha⟩
    · obtain ⟨rfl, -⟩ := Frame.openHttp.inj he
      exact ⟨r, hnew⟩
  · rw [hp]
    split_ifs
    · refine List.nodup_append.mpr ⟨h.pumps, List.nodup_singleton _, ?_⟩
      rintro i hi j hj rfl
      exact ((hlt i hi).trans_eq (List.mem_singleton.mp hj).symm).false
    · exact (List.append_nil d.pumps).symm ▸ h.pumps
  · rw [hp] at hid
    rw [hbody]
    rcases List.mem_append.mp hid with hid | hid
    · obtain ⟨n, r', cs, rs, b, ha, hb, hrs, hcs⟩ := h.reading id hid
      exact ⟨n, r', cs, rs, b, hold ha, hb, (Function.update_of_ne (hlt id hid).ne _ _).trans hrs,
        hcs⟩
    · split_ifs at hid with hsome
      · obtain rfl := List.mem_singleton.mp hid
        obtain ⟨⟨cs, b⟩, hb⟩ := Option.isSome_iff_exists.mp hsome
        refine ⟨d.sent, r, cs, cs, b, hnew, hb, (Function.update_self _ _ _).trans hb, ?_⟩
        rw [hnone, List.nil_append]
      · cases hid
  · rcases hcases hk with hk | ⟨-, he⟩
    · obtain ⟨n, hn, r', ha⟩ := h.chunk k id data hk
      exact ⟨n, hn, r', hold ha⟩
    · cases he
  · rcases hcases hk with hk | ⟨-, he⟩
    · obtain ⟨n, hn, r', cs, ha, hb, hall⟩ := h.ended k id hk
      refine ⟨n, hn, r', cs, hold ha, hb, ?_⟩
      rw [hf, List.take_append_of_le_length (List.getElem?_eq_some_iff.mp hk).1.le]
      exact hall
    · cases he


end TunnelDO

end BbShared
