import BbShared.Replacement
import BbShared.SessionMessages
import BbShared.Visitor

/-!
# The relay and its clients

The relay of `tunnel-do.ts` joined to the sessions of `session.ts`: one session for each tunnel, two
channels for each session.  There is no hibernation.

A session takes the relay's messages in the order they were sent, from the first one after its own
dial to the last one before the next.  The relay takes a session's frames in the order they were
sent.  Neither channel need ever be emptied: a tunnel can die with messages in it, and what is
delivered late is delivered all the same.
-/

namespace BbShared

open Js

/-- The session's end of a tunnel. -/
structure Client where
  /-- The number of the first message over this tunnel. -/
  start : ℕ
  session : TunnelSession
  /-- How many of the session's frames have reached the relay. -/
  arrived : ℕ
  /-- The session's socket is no longer OPEN. -/
  down : Bool

structure TunnelSystem where
  relay : TunnelRelay
  /-- `send` has thrown on the tunnel accepted last. -/
  broken : Bool
  clients : List Client

inductive SystemEvent where
  | relay (e : RelayEvent)
  /-- The session takes the next message. -/
  | deliver (tunnel : ℕ) (io : Io)
  | origin (tunnel : ℕ) (io : Io) (e : TunnelSession.LocalEvent)
  /-- The relay takes the session's next frame. -/
  | arrive (tunnel : ℕ)
  /-- The session's socket dies; its close event may come later. -/
  | drop (tunnel : ℕ)

/-- Whether `send` throws in the step, which matters where it is called. -/
def RelayEvent.sends : RelayEvent → Option Bool
  | .fetch _ sends => some sends
  | .pumpChunk _ _ sends => some sends
  | .pumpEnd _ sends => some sends
  | .pumpError _ sends => some sends
  | .visitorMessage _ _ _ sends => some sends
  | .visitorClose _ _ _ sends => some sends
  | .cancel _ sends => some sends
  | _ => none

namespace TunnelRelay

/-- The tunnel whose `send` the step calls: a request body stays with the tunnel it began on. -/
def target (s : TunnelRelay) : RelayEvent → Option ℕ
  | .pumpChunk id _ _ => s.openedOver id
  | .pumpEnd id _ => s.openedOver id
  | .pumpError id _ => s.openedOver id
  | _ => activeTunnelSocket s.tunnels

end TunnelRelay

/-- The frames that were sent, oldest first. -/
def TunnelDO.frames (d : TunnelDO) : List Frame := d.outbox.map fun m => m.frame

namespace TunnelSystem

def new : TunnelSystem := ⟨.new, false, []⟩

/-- A tunnel whose `send` does not throw. -/
def Usable (s : TunnelSystem) (tunnel : ℕ) : Prop :=
  s.broken = false ∧ s.relay.tunnels.getD tunnel false = true

/-- The frames that were sent, oldest first. -/
def frames (s : TunnelSystem) : List Frame := s.relay.relay.frames

/-- How many messages were sent until the tunnel was replaced. -/
def limit (s : TunnelSystem) (tunnel : ℕ) : ℕ :=
  match s.clients[tunnel + 1]? with
  | some next => next.start
  | none => s.relay.relay.sent

/-- `send` throws on an OPEN tunnel. -/
def fails (s : TunnelSystem) (e : RelayEvent) : Bool :=
  e.sends = some false && (s.relay.target e).any fun t => s.relay.tunnels.getD t false

/-- A client whose dial is accepted. -/
def newClient (s : TunnelSystem) : Client :=
  { start := s.relay.relay.sent
    session := { TunnelSession.new with received := s.relay.relay.sent }
    arrived := 0
    down := false }

/-- After a step of the relay: an accepted dial has its client. -/
def setRelay (s : TunnelSystem) (e : RelayEvent) (relay : TunnelRelay) : TunnelSystem :=
  if s.relay.tunnels.length < relay.tunnels.length then
    { relay, broken := false, clients := s.clients ++ [s.newClient] }
  else { s with relay, broken := s.broken || s.fails e }

def setClient (s : TunnelSystem) (tunnel : ℕ) (c : Client) : TunnelSystem :=
  { s with clients := s.clients.set tunnel c }

/-- The relay takes a frame of a session. -/
def arriveFrame (relayable : TunnelDO.Relayable) (s : TunnelSystem) (sent : Sent) : TunnelSystem :=
  { s with relay :=
      { s.relay with relay := s.relay.relay.onTunnelFrame relayable sent.uid sent.frame } }

variable (secret : Text) (relayable : TunnelDO.Relayable) (co : Coercion)

/-- `none` where the event cannot happen.  A frame of a tunnel comes from its session. -/
def step (s : TunnelSystem) : SystemEvent → Option TunnelSystem
  | .relay (.tunnelFrame _ _ _) => none
  | .relay e => (TunnelRelay.step secret relayable s.relay e).map (s.setRelay e)
  | .deliver tunnel io => do
    let c ← s.clients[tunnel]?
    if c.session.received < s.limit tunnel then
      let m ← s.relay.relay.outbox[c.session.received]?
      pure (s.setClient tunnel { c with session := c.session.onMessage co io m.bytes })
    else none
  | .origin tunnel io e => do
    let c ← s.clients[tunnel]?
    let session ← TunnelSession.onLocal co io c.session e
    pure (s.setClient tunnel { c with session })
  | .arrive tunnel => do
    let c ← s.clients[tunnel]?
    let sent ← c.session.outbox[c.arrived]?
    pure ((s.arriveFrame relayable sent).setClient tunnel { c with arrived := c.arrived + 1 })
  | .drop tunnel => do
    let c ← s.clients[tunnel]?
    pure (s.setClient tunnel { c with down := true })

/-- The session's socket is not OPEN exactly once it is down. -/
def LinkOk (s : TunnelSystem) (tunnel : ℕ) (io : Io) : Prop :=
  ∀ c, s.clients[tunnel]? = some c → ∀ n, io.link n = .closed ↔ c.down = true

/-- Nothing is sent on a tunnel that is not usable, a pump has its body, and the text of a message is
its UTF-8. -/
def RelayOk (s : TunnelSystem) (e : RelayEvent) : Prop :=
  (e.sends = some true → ∃ tunnel, s.relay.target e = some tunnel ∧ s.Usable tunnel) ∧
    match e with
    | .pumpChunk id _ _ => id ∈ s.relay.relay.pumps
    | .pumpEnd id _ => id ∈ s.relay.relay.pumps
    | .pumpError id _ => id ∈ s.relay.relay.pumps
    | .visitorMessage _ false data _ => ∃ text, data = utf8Encode text
    | _ => True

def Ok (s : TunnelSystem) : SystemEvent → Prop
  | .relay e => s.RelayOk e
  | .deliver tunnel io => s.LinkOk tunnel io
  | .origin tunnel io _ => s.LinkOk tunnel io
  | .arrive _ => True
  | .drop _ => True

end TunnelSystem

/-! ## What the relay sends -/

/-- A frame that neither opens a stream nor carries a message. -/
def Frame.Plain : Frame → Prop
  | .openHttp _ _ => False
  | .openWs _ _ => False
  | .wsData _ _ _ => False
  | _ => True

def Frame.Opens : Frame → Prop
  | .openHttp _ _ => True
  | .openWs _ _ => True
  | _ => False

namespace TunnelDO

/-- Between openings: these frames are sent, and no visitor joins. -/
structure Posts (l : List Frame) (d t : TunnelDO) : Prop where
  frames : t.frames = d.frames ++ l
  sent : t.sent = d.sent + l.length
  next : t.nextStreamId = d.nextStreamId
  visitors : ∀ v ∈ t.visitors, ∃ u ∈ d.visitors, v.opening = u.opening ∧ v.streamId = u.streamId

variable {d t u : TunnelDO} {l l' : List Frame}

/-- Nothing that matters to the session changes. -/
theorem posts_nil (hf : t.outbox = d.outbox) (hs : t.sent = d.sent)
    (hn : t.nextStreamId = d.nextStreamId)
    (hv : ∀ v ∈ t.visitors, ∃ u ∈ d.visitors, v.opening = u.opening ∧ v.streamId = u.streamId) :
    Posts [] d t where
  frames := by unfold TunnelDO.frames; rw [hf, List.append_nil]
  sent := hs
  next := hn
  visitors := hv

theorem posts_refl (d : TunnelDO) : Posts [] d d :=
  posts_nil rfl rfl rfl fun v hv => ⟨v, hv, rfl, rfl⟩

theorem Posts.trans (h : Posts l d t) (h' : Posts l' t u) : Posts (l ++ l') d u where
  frames := by rw [h'.frames, h.frames, List.append_assoc]
  sent := by rw [h'.sent, h.sent, List.length_append, Nat.add_assoc]
  next := h'.next.trans h.next
  visitors v hv := by
    obtain ⟨w, hw, ho, hi⟩ := h'.visitors v hv
    obtain ⟨x, hx, ho', hi'⟩ := h.visitors w hw
    exact ⟨x, hx, ho.trans ho', hi.trans hi'⟩

theorem Posts.then_nil (h : Posts l d t) (h' : Posts [] t u) : Posts l d u := by
  simpa using h.trans h'

theorem posts_post (d : TunnelDO) (m : Message) : Posts [m.frame] d (d.post m) where
  frames := by unfold TunnelDO.frames; exact List.map_append
  sent := rfl
  next := rfl
  visitors v hv := ⟨v, hv, rfl, rfl⟩

theorem posts_foldl {α : Type*} {f : TunnelDO → α → TunnelDO} (h : ∀ a d, Posts [] d (f d a))
    (as : List α) (d : TunnelDO) : Posts [] d (as.foldl f d) := by
  induction as generalizing d with
  | nil => exact posts_refl d
  | cons a as ih => exact (h a d).then_nil (ih _)

theorem posts_effect (d : TunnelDO) (opening source : Option ℕ) (action : VisitorAction) :
    Posts [] d (d.effect opening source action) :=
  posts_nil rfl rfl rfl fun v hv => ⟨v, hv, rfl, rfl⟩

theorem posts_markClosing (d : TunnelDO) (opening : ℕ) : Posts [] d (d.markClosing opening) := by
  refine posts_nil rfl rfl rfl fun v hv => ?_
  obtain ⟨u, hu, rfl⟩ := List.mem_map.mp hv
  refine ⟨u, hu, ?_⟩
  split_ifs <;> exact ⟨rfl, rfl⟩

theorem posts_closeVisitor (d : TunnelDO) (v : VisitorSocket) (source : Option ℕ) (code : ℕ)
    (reason : Text) : Posts [] d (d.closeVisitor v source code reason) := by
  unfold closeVisitor
  split_ifs
  · exact posts_refl d
  · exact (posts_markClosing d v.opening).then_nil (posts_effect _ _ _ _)

theorem posts_failHttpStream (d : TunnelDO) (id status : ℕ) (message : Text)
    (source : Option ℕ) : Posts [] d (d.failHttpStream id status message source) := by
  unfold failHttpStream
  split
  · exact posts_refl d
  · exact posts_nil rfl rfl rfl fun v hv => ⟨v, hv, rfl, rfl⟩

theorem posts_abandonStreams (d : TunnelDO) (httpReason wsReason : Text) :
    Posts [] d (d.abandonStreams httpReason wsReason) :=
  (posts_foldl (fun _ d => posts_failHttpStream d _ _ _ _) _ d).then_nil
    (posts_foldl (fun v d => posts_closeVisitor d v _ _ _) _ _)

/-- A frame is sent or it is not. -/
theorem posts_trySend {link : TunnelLink} {frame : Frame} {sent : Bool}
    (h : d.trySend link frame = some (sent, t)) :
    sent = link.sends ∧ Posts (if sent then [frame] else []) d t := by
  unfold trySend at h
  split at h
  · rename_i bytes hb
    by_cases hl : link.sends = true
    · rw [if_pos hl] at h
      obtain ⟨rfl, rfl⟩ := Prod.mk.inj (Option.some.inj h)
      exact ⟨hl.symm, posts_post d ⟨frame, bytes, hb⟩⟩
    · rw [if_neg hl] at h
      obtain ⟨rfl, rfl⟩ := Prod.mk.inj (Option.some.inj h)
      exact ⟨by simpa using hl, posts_refl d⟩
  · cases h

theorem posts_sendOnly (d : TunnelDO) (link : TunnelLink) (frame : Frame) :
    ∃ l, Posts l d (d.sendOnly link frame) ∧ (∀ f ∈ l, f = frame) ∧
      (l ≠ [] → link.sends = true) := by
  unfold sendOnly
  split
  · rename_i sent t h
    obtain ⟨hs, hp⟩ := posts_trySend h
    refine ⟨_, hp, fun f hf => ?_, fun hne => ?_⟩
    · cases sent
      · cases hf
      · exact List.mem_singleton.mp hf
    · cases sent
      · exact absurd rfl hne
      · exact hs.symm
  · exact ⟨[], posts_refl d, by simp, fun h => absurd rfl h⟩

theorem posts_foldl_sendOnly (link : TunnelLink) (frames : List Frame) (d : TunnelDO) :
    ∃ l, Posts l d (frames.foldl (fun d frame => d.sendOnly link frame) d) ∧ ∀ f ∈ l, f ∈ frames := by
  induction frames generalizing d with
  | nil => exact ⟨[], posts_refl d, by simp⟩
  | cons frame frames ih =>
    obtain ⟨l, hl, hf, -⟩ := posts_sendOnly d link frame
    obtain ⟨l', hl', hf'⟩ := ih (d.sendOnly link frame)
    refine ⟨l ++ l', hl.trans hl', fun f hm => ?_⟩
    rcases List.mem_append.mp hm with hm | hm
    · exact hf f hm ▸ List.mem_cons_self
    · exact List.mem_cons_of_mem _ (hf' f hm)

/-- Only the list of pumps changes. -/
theorem posts_pumps (d : TunnelDO) (pumps : List ℕ) : Posts [] d { d with pumps } :=
  posts_nil rfl rfl rfl fun v hv => ⟨v, hv, rfl, rfl⟩

/-- Plain frames are sent, if any, and only where `send` does not throw. -/
def PostsPlain (sends : Bool) (d t : TunnelDO) : Prop :=
  ∃ l, Posts l d t ∧ (∀ f ∈ l, f.Plain) ∧ (l ≠ [] → sends = true)

theorem Posts.plain (h : Posts [] d t) (sends : Bool) : PostsPlain sends d t :=
  ⟨[], h, by simp, fun hne => absurd rfl hne⟩

theorem PostsPlain.then_nil {sends : Bool} (h : PostsPlain sends d t) (h' : Posts [] t u) :
    PostsPlain sends d u := by
  obtain ⟨l, hl, hp, hs⟩ := h
  exact ⟨l, hl.then_nil h', hp, hs⟩

theorem postsPlain_sendOnly (d : TunnelDO) (link : TunnelLink) {f : Frame} (h : f.Plain) :
    PostsPlain link.sends d (d.sendOnly link f) := by
  obtain ⟨l, hl, hf, hs⟩ := posts_sendOnly d link f
  exact ⟨l, hl, fun g hm => hf g hm ▸ h, hs⟩

theorem postsPlain_pumpChunk (d : TunnelDO) (link : TunnelLink) (id : ℕ) (value : Bytes) :
    PostsPlain link.sends d (d.pumpChunk link id value) := by
  unfold pumpChunk
  split_ifs with hs hv
  · obtain ⟨l, hl, hf⟩ := posts_foldl_sendOnly link (chunkBody id value) d
    refine ⟨l, hl, fun f hm => ?_, fun _ => hs⟩
    obtain ⟨data, -, rfl⟩ := List.mem_map.mp (hf f hm)
    trivial
  · exact (posts_refl d).plain _
  · exact (posts_pumps d _).plain _

theorem postsPlain_pumpEnd (d : TunnelDO) (link : TunnelLink) (id : ℕ) :
    PostsPlain link.sends d (d.pumpEnd link id) :=
  (postsPlain_sendOnly d link (f := .bodyEnd id) trivial).then_nil (posts_pumps _ _)

theorem postsPlain_pumpError (d : TunnelDO) (link : TunnelLink) (id : ℕ) :
    PostsPlain link.sends d (d.pumpError link id) :=
  (postsPlain_sendOnly d link (f := .closeStream id _ _) trivial).then_nil (posts_pumps _ _)

theorem postsPlain_visitorClose (d : TunnelDO) (link : TunnelLink) (v : VisitorSocket) (code : ℕ)
    (reason : Text) : PostsPlain link.sends d (d.visitorClose link v code reason) := by
  unfold visitorClose
  split_ifs
  · exact (postsPlain_sendOnly d link (f := .closeStream _ _ _) trivial).then_nil
      (posts_closeVisitor _ _ _ _ _)
  · exact (posts_closeVisitor _ _ _ _ _).plain _

theorem postsPlain_cancelHttpStream (d : TunnelDO) (link : TunnelLink) (id : ℕ) :
    PostsPlain link.sends d (d.cancelHttpStream link id) := by
  unfold cancelHttpStream
  split
  · exact (posts_refl d).plain _
  · have herase : Posts [] d { d with pendingHttp := d.pendingHttp.erase id } :=
      posts_nil rfl rfl rfl fun v hv => ⟨v, hv, rfl, rfl⟩
    split_ifs
    · obtain ⟨l, hl, hp, hs⟩ := postsPlain_sendOnly { d with pendingHttp := d.pendingHttp.erase id }
        link (f := .closeStream id 1000 "visitor canceled response body".toList) trivial
      exact ⟨l, herase.trans hl, hp, hs⟩
    · exact herase.plain _

theorem posts_forgetVisitor (d : TunnelDO) (opening : ℕ) : Posts [] d (d.forgetVisitor opening) :=
  posts_nil rfl rfl rfl fun v hv => ⟨v, List.mem_of_mem_filter hv, rfl, rfl⟩

theorem posts_onTunnelFrame (relayable : Relayable) (d : TunnelDO) (source : ℕ) (f : Frame) :
    Posts [] d (d.onTunnelFrame relayable source f) := by
  have same : ∀ (p : OrderedMap ℕ PendingHttp) (x : List VisitorEffect),
      Posts [] d { d with pendingHttp := p, effects := x } :=
    fun _ _ => posts_nil rfl rfl rfl fun v hv => ⟨v, hv, rfl, rfl⟩
  cases f with
  | respHead id status headers =>
    unfold onTunnelFrame onRespHead
    dsimp only
    split
    · exact posts_refl d
    · split_ifs <;> exact same _ _
  | bodyChunk id data =>
    unfold onTunnelFrame onBodyChunk
    dsimp only
    split
    · split_ifs <;> exact same _ _
    · exact posts_refl d
  | bodyEnd id =>
    unfold onTunnelFrame onBodyEnd
    dsimp only
    split
    · split_ifs <;> exact same _ _
    · exact posts_refl d
  | closeStream id code reason =>
    unfold onTunnelFrame onCloseStream
    dsimp only
    split_ifs
    · exact posts_failHttpStream _ _ _ _ _
    · split
      · exact posts_closeVisitor _ _ _ _ _
      · exact posts_refl d
  | wsData id isBinary data =>
    unfold onTunnelFrame onWsData
    dsimp only
    split
    · split_ifs
      · exact posts_refl d
      · exact posts_effect _ _ _ _
    · exact posts_refl d
  | wsOpenAck id protocol => exact posts_refl d
  | openHttp id info => exact posts_refl d
  | openWs id info => exact posts_refl d

/-! ## Openings -/

/-- A stream is opened with the next id. -/
structure OpensNext (frame : Frame) (d t : TunnelDO) : Prop where
  opens : frame.Opens
  streamId : frame.streamId = d.nextStreamId
  frames : t.frames = d.frames ++ [frame]
  sent : t.sent = d.sent + 1
  next : t.nextStreamId = d.nextStreamId + 1
  visitors : ∀ v ∈ t.visitors, v ∈ d.visitors ∨
    v.opening = d.sent ∧ ∃ info, frame = .openWs v.streamId info

/-- No stream is opened, but an id may be used up. -/
structure OpensNothing (d t : TunnelDO) : Prop where
  frames : t.frames = d.frames
  sent : t.sent = d.sent
  next : d.nextStreamId ≤ t.nextStreamId
  visitors : t.visitors = d.visitors

theorem trySend_eq_true {link : TunnelLink} {frame : Frame}
    (h : d.trySend link frame = some (true, t)) : link.sends = true := (posts_trySend h).1.symm

theorem openVisitorWebSocket_cases (d : TunnelDO) (link : TunnelLink) (r : VisitorRequest) :
    OpensNothing d (d.openVisitorWebSocket link r).1 ∨ link.sends = true ∧
      OpensNext (.openWs d.nextStreamId r.openWs) d (d.openVisitorWebSocket link r).1 := by
  unfold openVisitorWebSocket
  dsimp only
  rcases trySend_cases { d with nextStreamId := d.nextStreamId + 1 } link
    (.openWs d.nextStreamId r.openWs) with h | h | ⟨m, hm, h⟩
  · rw [h]
    exact .inl ⟨rfl, rfl, Nat.le_succ _, rfl⟩
  · rw [h]
    exact .inl ⟨rfl, rfl, Nat.le_succ _, rfl⟩
  · rw [h]
    refine .inr ⟨trySend_eq_true h, trivial, rfl, ?_, rfl, rfl, fun v hv => ?_⟩
    · rw [← hm]
      exact (posts_post _ m).frames
    · rcases List.mem_append.mp hv with hv | hv
      · exact .inl hv
      · obtain rfl := List.mem_singleton.mp hv
        exact .inr ⟨rfl, _, rfl⟩

theorem proxyHttp_cases (d : TunnelDO) (link : TunnelLink) (r : VisitorRequest) :
    OpensNothing d (d.proxyHttp link r).1 ∨ link.sends = true ∧
      OpensNext (.openHttp d.nextStreamId r.openHttp) d (d.proxyHttp link r).1 := by
  unfold proxyHttp
  dsimp only
  rcases trySend_cases { d with
      nextStreamId := d.nextStreamId + 1
      pendingHttp := d.pendingHttp.set d.nextStreamId ⟨none, false, true⟩ } link
    (.openHttp d.nextStreamId r.openHttp) with h | h | ⟨m, hm, h⟩
  · rw [h]
    exact .inl ⟨rfl, rfl, Nat.le_succ _, rfl⟩
  · rw [h]
    exact .inl ⟨rfl, rfl, Nat.le_succ _, rfl⟩
  · rw [h]
    refine .inr ⟨trySend_eq_true h, ?_⟩
    have hframes := (posts_post { d with
      nextStreamId := d.nextStreamId + 1
      pendingHttp := d.pendingHttp.set d.nextStreamId ⟨none, false, true⟩ } m).frames
    rw [hm] at hframes
    dsimp only
    split_ifs <;> exact ⟨trivial, rfl, hframes, rfl, rfl, fun v hv => .inl hv⟩

theorem proxyGuestRequest_cases (d : TunnelDO) (link : TunnelLink) (r : VisitorRequest) :
    OpensNothing d (d.proxyGuestRequest link r).1 ∨
      ∃ frame, link.sends = true ∧ OpensNext frame d (d.proxyGuestRequest link r).1 := by
  unfold proxyGuestRequest
  split_ifs
  · exact (openVisitorWebSocket_cases d link r).imp id fun h => ⟨_, h⟩
  · exact (proxyHttp_cases d link r).imp id fun h => ⟨_, h⟩
  · exact .inl ⟨rfl, rfl, Nat.le_refl _, rfl⟩

/-- A visitor's message is sent, or it is not and nothing is. -/
theorem visitorMessage_cases (d : TunnelDO) (link : TunnelLink) (v : VisitorSocket)
    (isBinary : Bool) (data : Bytes) :
    (link.active = true ∧ link.sends = true ∧
        Posts [.wsData v.streamId isBinary data] d (d.visitorMessage link v isBinary data)) ∨
      (link.active = true → link.sends = true → 0xffffffff < v.streamId) ∧
        Posts [] d (d.visitorMessage link v isBinary data) := by
  unfold visitorMessage
  split_ifs with ha
  · rcases hs : d.trySend link (.wsData v.streamId isBinary data) with _ | ⟨_ | _, t⟩
    · refine .inr ⟨fun _ _ => ?_, posts_refl d⟩
      unfold trySend at hs
      split at hs
      · cases hs
      · rename_i he
        by_contra hid
        rw [encodeFrame, withHeader, if_pos (Nat.le_of_not_lt hid)] at he
        cases he
    · obtain ⟨hl, hp⟩ := posts_trySend hs
      exact .inr ⟨fun _ h => absurd (hl.trans h) (by decide),
        hp.then_nil (posts_closeVisitor _ _ _ _ _)⟩
    · obtain ⟨hl, hp⟩ := posts_trySend hs
      exact .inl ⟨ha, hl.symm, hp⟩
  · exact .inr ⟨fun h => absurd h ha, posts_closeVisitor _ _ _ _ _⟩

end TunnelDO

/-! ## Positions in a longer list -/

section Append

variable {α : Type*} {l l' : List α} {n : ℕ} {a : α}

theorem getElem?_append_of_eq_some (h : l[n]? = some a) (l' : List α) :
    (l ++ l')[n]? = some a :=
  (List.getElem?_append_left (List.getElem?_eq_some_iff.mp h).1).trans h

theorem getElem?_append_eq_some (h : (l ++ l')[n]? = some a) :
    l[n]? = some a ∨ l.length ≤ n ∧ a ∈ l' := by
  rcases lt_or_ge n l.length with hn | hn
  · rw [List.getElem?_append_left hn] at h
    exact .inl h
  · rw [List.getElem?_append_right hn] at h
    exact .inr ⟨hn, List.mem_of_getElem? h⟩

end Append

namespace TunnelDO

variable {d t : TunnelDO} {l : List Frame}

/-! ## Wiring -/

/-- Openings have their own ids, visitors their openings, and messages come after them. -/
structure Wired (d : TunnelDO) : Prop where
  sent : d.frames.length = d.sent
  fresh : ∀ f ∈ d.frames, f.Opens → f.streamId < d.nextStreamId
  distinct : ∀ (m n : ℕ) (f g : Frame), d.frames[m]? = some f → d.frames[n]? = some g →
    f.Opens → g.Opens → f.streamId = g.streamId → m = n
  visitors : ∀ v ∈ d.visitors, ∃ info, d.frames[v.opening]? = some (.openWs v.streamId info)
  data : ∀ (n id : ℕ) (isBinary : Bool) (data : Bytes),
    d.frames[n]? = some (.wsData id isBinary data) →
    (isBinary = false → ∃ text, data = utf8Encode text) ∧
      ∃ m < n, ∃ info : OpenWs, d.frames[m]? = some (.openWs id info)

theorem wired_new : new.Wired where
  sent := rfl
  fresh _ h := by cases h
  distinct _ _ _ _ h := by cases h
  visitors _ h := by cases h
  data _ _ _ _ h := by cases h

/-- **Frame rule.** What is sent between openings keeps the wiring, if messages have a visitor. -/
theorem Wired.posts (h : d.Wired) (hp : Posts l d t) (hl : ∀ f ∈ l, ¬ f.Opens ∧
    ∀ id isBinary data, f = .wsData id isBinary data →
      (isBinary = false → ∃ text, data = utf8Encode text) ∧ ∃ v ∈ d.visitors, v.streamId = id) :
    t.Wired where
  sent := by rw [hp.frames, hp.sent, List.length_append, h.sent]
  fresh f hf ho := by
    rw [hp.frames] at hf
    rw [hp.next]
    rcases List.mem_append.mp hf with hf | hf
    · exact h.fresh f hf ho
    · exact absurd ho (hl f hf).1
  distinct m n f g hf hg hfo hgo hid := by
    rw [hp.frames] at hf hg
    rcases getElem?_append_eq_some hf with hf | ⟨-, hf⟩
    · rcases getElem?_append_eq_some hg with hg | ⟨-, hg⟩
      · exact h.distinct m n f g hf hg hfo hgo hid
      · exact absurd hgo (hl g hg).1
    · exact absurd hfo (hl f hf).1
  visitors v hv := by
    obtain ⟨u, hu, ho, hi⟩ := hp.visitors v hv
    obtain ⟨info, hinfo⟩ := h.visitors u hu
    rw [hp.frames, ho, hi]
    exact ⟨info, getElem?_append_of_eq_some hinfo l⟩
  data n id isBinary data hf := by
    rw [hp.frames] at hf ⊢
    rcases getElem?_append_eq_some hf with hf | ⟨hn, hf⟩
    · obtain ⟨htext, m, hm, info, ho⟩ := h.data n id isBinary data hf
      exact ⟨htext, m, hm, info, getElem?_append_of_eq_some ho l⟩
    · obtain ⟨htext, v, hv, rfl⟩ := (hl _ hf).2 id isBinary data rfl
      obtain ⟨info, ho⟩ := h.visitors v hv
      exact ⟨htext, v.opening, (List.getElem?_eq_some_iff.mp ho).1.trans_le hn, info,
        getElem?_append_of_eq_some ho l⟩

theorem not_opens_of_plain {f : Frame} (h : f.Plain) : ¬ f.Opens := by
  cases f <;> first | exact fun h => h | exact absurd h fun h => h

theorem Wired.postsPlain (h : d.Wired) {sends : Bool} (hp : PostsPlain sends d t) : t.Wired := by
  obtain ⟨l, hl, hplain, -⟩ := hp
  refine h.posts hl fun f hf => ⟨not_opens_of_plain (hplain f hf), ?_⟩
  rintro id isBinary data rfl
  exact absurd (hplain _ hf) (fun h => h)

theorem Wired.opensNothing (h : d.Wired) (ho : OpensNothing d t) : t.Wired where
  sent := by rw [ho.frames, ho.sent, h.sent]
  fresh f hf hopens := (h.fresh f (ho.frames ▸ hf) hopens).trans_le ho.next
  distinct := by rw [ho.frames]; exact h.distinct
  visitors := by rw [ho.frames, ho.visitors]; exact h.visitors
  data := by rw [ho.frames]; exact h.data

/-- **Opening rule.** A new opening has a fresh id. -/
theorem Wired.opensNext (h : d.Wired) {frame : Frame} (ho : OpensNext frame d t) : t.Wired where
  sent := by rw [ho.frames, ho.sent, List.length_append, h.sent, List.length_singleton]
  fresh f hf hopens := by
    rw [ho.frames] at hf
    rw [ho.next]
    rcases List.mem_append.mp hf with hf | hf
    · exact (h.fresh f hf hopens).trans (Nat.lt_succ_self _)
    · rw [List.mem_singleton.mp hf, ho.streamId]
      exact Nat.lt_succ_self _
  distinct m n f g hf hg hfo hgo hid := by
    have hold : ∀ {k : ℕ} {f : Frame}, d.frames[k]? = some f → f.Opens →
        f.streamId ≠ frame.streamId := fun hf hfo he =>
      (h.fresh _ (List.mem_of_getElem? hf) hfo).ne (he.trans ho.streamId)
    rw [ho.frames] at hf hg
    have hlast : ∀ {k : ℕ} {f : Frame}, (d.frames ++ [frame])[k]? = some f → d.frames.length ≤ k →
        k = d.frames.length := fun hf hk => by
      have := (List.getElem?_eq_some_iff.mp hf).1
      rw [List.length_append, List.length_singleton] at this
      omega
    rcases getElem?_append_eq_some hf with hf' | ⟨hm, hf'⟩
    · rcases getElem?_append_eq_some hg with hg' | ⟨hn, hg'⟩
      · exact h.distinct m n f g hf' hg' hfo hgo hid
      · exact absurd (hid.trans (List.mem_singleton.mp hg' ▸ rfl)) (hold hf' hfo)
    · rcases getElem?_append_eq_some hg with hg' | ⟨hn, hg'⟩
      · exact absurd (hid.symm.trans (List.mem_singleton.mp hf' ▸ rfl)) (hold hg' hgo)
      · rw [hlast hf hm, hlast hg hn]
  visitors v hv := by
    rw [ho.frames]
    rcases ho.visitors v hv with hv | ⟨hn, info, hframe⟩
    · obtain ⟨info, hinfo⟩ := h.visitors v hv
      exact ⟨info, getElem?_append_of_eq_some hinfo _⟩
    · refine ⟨info, ?_⟩
      rw [hn, ← h.sent, ← hframe, List.getElem?_concat_length]
  data n id isBinary data hf := by
    rw [ho.frames] at hf ⊢
    rcases getElem?_append_eq_some hf with hf | ⟨-, hf⟩
    · obtain ⟨htext, m, hm, info, hinfo⟩ := h.data n id isBinary data hf
      exact ⟨htext, m, hm, info, getElem?_append_of_eq_some hinfo _⟩
    · have hopens := ho.opens
      rw [← List.mem_singleton.mp hf] at hopens
      exact absurd hopens fun h => h

end TunnelDO

/-! ## Steps of the relay -/

namespace TunnelRelay

/-- No tunnel opens and none is forgotten. -/
def Dwindles (tunnels tunnels' : List Bool) : Prop :=
  tunnels'.length = tunnels.length ∧
    ∀ i, tunnels'.getD i false = true → tunnels.getD i false = true

theorem dwindles_refl (tunnels : List Bool) : Dwindles tunnels tunnels := ⟨rfl, fun _ h => h⟩

theorem dwindles_set (tunnels : List Bool) (i : ℕ) : Dwindles tunnels (tunnels.set i false) :=
  ⟨List.length_set, fun _ h => getD_set_false h⟩

/-- What a step makes of the messages to the sessions, between accepted dials. -/
inductive Sends (s : TunnelRelay) : RelayEvent → TunnelRelay → Prop
  | plain {e : RelayEvent} {t : TunnelRelay}
    (hm : ∀ n b data sends, e ≠ .visitorMessage n b data sends)
      (hp : TunnelDO.PostsPlain (e.sends.getD false) s.relay t.relay)
      (ht : Dwindles s.tunnels t.tunnels) : Sends s e t
  | idle {r : VisitorRequest} {sends : Bool} {t : TunnelRelay}
      (ho : TunnelDO.OpensNothing s.relay t.relay) (ht : t.tunnels = s.tunnels) :
      Sends s (.fetch r sends) t
  | opened {r : VisitorRequest} {frame : Frame} {t : TunnelRelay}
      (ho : TunnelDO.OpensNext frame s.relay t.relay) (ht : t.tunnels = s.tunnels) :
      Sends s (.fetch r true) t
  | message {n : ℕ} {v : VisitorSocket} {isBinary : Bool} {data : Bytes} {sends : Bool}
      (hv : s.visitor n = some v) :
      Sends s (.visitorMessage n isBinary data sends)
        { s with relay := s.relay.visitorMessage (s.link sends) v isBinary data }

variable {secret : Text} {relayable : TunnelDO.Relayable} {s t : TunnelRelay} {e : RelayEvent}

theorem Sends.of_step (h : step secret relayable s e = some t)
    (he : ∀ tunnel source f, e ≠ .tunnelFrame tunnel source f) :
    (∃ r, e = .dial r) ∧ t = s.acceptTunnel ∨ Sends s e t := by
  cases e with
  | dial r =>
    unfold step at h
    obtain rfl := Option.some.inj h
    split_ifs
    · exact .inr (.plain (by simp) ((TunnelDO.posts_refl _).plain _) (dwindles_refl _))
    · exact .inl ⟨⟨r, rfl⟩, rfl⟩
  | lose tunnel =>
    obtain rfl := Option.some.inj h
    exact .inr (.plain (by simp) ((TunnelDO.posts_refl _).plain _) (dwindles_set _ _))
  | tunnelFrame tunnel source f => exact absurd rfl (he tunnel source f)
  | tunnelClose tunnel =>
    unfold step at h
    dsimp only at h
    split_ifs at h
    obtain rfl := Option.some.inj h
    refine .inr (.plain (by simp) (TunnelDO.Posts.plain ?_ _) (dwindles_set _ _))
    unfold tunnelClose
    dsimp only
    split_ifs
    · exact TunnelDO.posts_refl _
    · exact TunnelDO.posts_abandonStreams _ _ _
  | fetch r sends =>
    unfold step at h
    obtain rfl := Option.some.inj h
    split_ifs
    · exact .inr (.plain (by simp) ((TunnelDO.posts_refl _).plain _) (dwindles_refl _))
    · rcases TunnelDO.proxyGuestRequest_cases s.relay (s.link sends) r.withOrigin with
        ho | ⟨frame, hs, ho⟩
      · exact .inr (.idle ho rfl)
      · obtain rfl : sends = true := hs
        exact .inr (.opened ho rfl)
  | pumpChunk id value sends =>
    obtain rfl := Option.some.inj h
    exact .inr (.plain (by simp) (TunnelDO.postsPlain_pumpChunk _ _ _ _) (dwindles_refl _))
  | pumpEnd id sends =>
    obtain rfl := Option.some.inj h
    exact .inr (.plain (by simp) (TunnelDO.postsPlain_pumpEnd _ _ _) (dwindles_refl _))
  | pumpError id sends =>
    obtain rfl := Option.some.inj h
    exact .inr (.plain (by simp) (TunnelDO.postsPlain_pumpError _ _ _) (dwindles_refl _))
  | visitorMessage n isBinary data sends =>
    obtain ⟨v, hv, rfl⟩ := Option.map_eq_some_iff.mp h
    exact .inr (.message hv)
  | visitorClose n code reason sends =>
    obtain ⟨v, -, rfl⟩ := Option.map_eq_some_iff.mp h
    exact .inr (.plain (by simp) (TunnelDO.postsPlain_visitorClose _ _ _ _ _) (dwindles_refl _))
  | visitorGone n =>
    obtain rfl := Option.some.inj h
    exact .inr (.plain (by simp) ((TunnelDO.posts_forgetVisitor _ _).plain _) (dwindles_refl _))
  | headTimeout id =>
    obtain ⟨d, hd, rfl⟩ := Option.map_eq_some_iff.mp h
    unfold TunnelDO.headTimeout at hd
    split at hd
    · split_ifs at hd
      obtain rfl := Option.some.inj hd
      exact .inr (.plain (by simp) ((TunnelDO.posts_failHttpStream _ _ _ _ _).plain _)
        (dwindles_refl _))
    · cases hd
  | cancel id sends =>
    unfold step at h
    dsimp only at h
    split at h
    · split_ifs at h
      obtain rfl := Option.some.inj h
      exact .inr (.plain (by simp) (TunnelDO.postsPlain_cancelHttpStream _ _ _) (dwindles_refl _))
    · cases h

theorem Sends.dwindles (h : Sends s e t) : Dwindles s.tunnels t.tunnels := by
  cases h with
  | plain _ _ ht => exact ht
  | idle _ ht => exact ht ▸ dwindles_refl _
  | opened _ ht => exact ht ▸ dwindles_refl _
  | message _ => exact dwindles_refl _

/-- A step only adds frames. -/
theorem Sends.grows (h : Sends s e t) : ∃ l, t.relay.frames = s.relay.frames ++ l ∧
    t.relay.sent = s.relay.sent + l.length := by
  cases h with
  | plain _ hp _ =>
    obtain ⟨l, hl, -, -⟩ := hp
    exact ⟨l, hl.frames, hl.sent⟩
  | idle ho _ => exact ⟨[], ho.frames.trans (List.append_nil _).symm, ho.sent⟩
  | opened ho _ => exact ⟨_, ho.frames, ho.sent⟩
  | @message n v isBinary data sends hv =>
    rcases TunnelDO.visitorMessage_cases s.relay (s.link sends) v isBinary data with
      ⟨-, -, hp⟩ | ⟨-, hp⟩
    · exact ⟨_, hp.frames, hp.sent⟩
    · exact ⟨_, hp.frames, hp.sent⟩

theorem visitor_eq_some {n : ℕ} {v : VisitorSocket} (h : s.visitor n = some v) :
    v ∈ s.relay.visitors ∧ v.opening = n :=
  ⟨List.mem_of_find?_eq_some h, by simpa using List.find?_some h⟩

theorem Sends.wired (h : Sends s e t) (hw : s.relay.Wired) (hm : ∀ n data sends,
    e = .visitorMessage n false data sends → ∃ text, data = utf8Encode text) : t.relay.Wired := by
  cases h with
  | plain _ hp _ => exact hw.postsPlain hp
  | idle ho _ => exact hw.opensNothing ho
  | opened ho _ => exact hw.opensNext ho
  | @message n v isBinary data sends hv =>
    rcases TunnelDO.visitorMessage_cases s.relay (s.link sends) v isBinary data with
      ⟨-, -, hp⟩ | ⟨-, hp⟩
    · refine hw.posts hp fun f hf => ?_
      obtain rfl := List.mem_singleton.mp hf
      refine ⟨fun h => h, fun id b bytes he => ?_⟩
      obtain ⟨rfl, rfl, rfl⟩ := Frame.wsData.inj he
      exact ⟨fun hb => hm n data sends (by rw [hb]), v, (visitor_eq_some hv).1, rfl⟩
    · exact hw.posts hp (by simp)

end TunnelRelay

namespace TunnelSystem

variable {secret : Text} {relayable : TunnelDO.Relayable} {co : Coercion} {s t : TunnelSystem}
  {e : SystemEvent}

/-! ## Steps -/

/-- The system after an accepted dial. -/
def accept (s : TunnelSystem) : TunnelSystem :=
  { relay := s.relay.acceptTunnel, broken := false, clients := s.clients ++ [s.newClient] }

/-- What each event does. -/
inductive Step (relayable : TunnelDO.Relayable) (co : Coercion) (s : TunnelSystem) :
    SystemEvent → TunnelSystem → Prop
  | accept {r : DialRequest} : Step relayable co s (.relay (.dial r)) s.accept
  | relay {e : RelayEvent} {relay : TunnelRelay} (hs : s.relay.Sends e relay) :
      Step relayable co s (.relay e) { s with relay, broken := s.broken || s.fails e }
  | deliver {tunnel : ℕ} {io : Io} {c : Client} {m : Posted} (hc : s.clients[tunnel]? = some c)
      (hlt : c.session.received < s.limit tunnel)
      (hm : s.relay.relay.outbox[c.session.received]? = some m) :
      Step relayable co s (.deliver tunnel io)
        (s.setClient tunnel { c with session := c.session.onMessage co io m.bytes })
  | origin {tunnel : ℕ} {io : Io} {e : TunnelSession.LocalEvent} {c : Client}
      {session : TunnelSession} (hc : s.clients[tunnel]? = some c)
      (hs : c.session.onLocal co io e = some session) :
      Step relayable co s (.origin tunnel io e) (s.setClient tunnel { c with session })
  | arrive {tunnel : ℕ} {c : Client} {sent : Sent} (hc : s.clients[tunnel]? = some c)
      (hs : c.session.outbox[c.arrived]? = some sent) :
      Step relayable co s (.arrive tunnel)
        ((s.arriveFrame relayable sent).setClient tunnel { c with arrived := c.arrived + 1 })
  | drop {tunnel : ℕ} {c : Client} (hc : s.clients[tunnel]? = some c) :
      Step relayable co s (.drop tunnel) (s.setClient tunnel { c with down := true })

theorem setRelay_of_sends {e : RelayEvent} {relay : TunnelRelay} (hs : s.relay.Sends e relay) :
    s.setRelay e relay = { s with relay, broken := s.broken || s.fails e } :=
  if_neg (by rw [hs.dwindles.1]; exact lt_irrefl _)

theorem setRelay_acceptTunnel (e : RelayEvent) : s.setRelay e s.relay.acceptTunnel = s.accept := by
  refine if_pos ?_
  unfold TunnelRelay.acceptTunnel
  dsimp only
  rw [List.length_append, List.length_map]
  exact Nat.lt_succ_self _

theorem step_relay_eq_some {e : RelayEvent} (h : step secret relayable co s (.relay e) = some t) :
    (∀ tunnel source f, e ≠ .tunnelFrame tunnel source f) ∧
      ∃ relay, TunnelRelay.step secret relayable s.relay e = some relay ∧ s.setRelay e relay = t := by
  cases e with
  | tunnelFrame => cases h
  | _ => exact ⟨nofun, Option.map_eq_some_iff.mp h⟩

theorem Step.of_step (h : step secret relayable co s e = some t) : Step relayable co s e t := by
  cases e with
  | relay e =>
    obtain ⟨hne, relay, hr, rfl⟩ := step_relay_eq_some h
    rcases TunnelRelay.Sends.of_step hr hne with ⟨⟨r, rfl⟩, rfl⟩ | hs
    · rw [setRelay_acceptTunnel]
      exact .accept
    · rw [setRelay_of_sends hs]
      exact .relay hs
  | deliver tunnel io =>
    obtain ⟨c, hc, h⟩ := Option.bind_eq_some_iff.mp h
    split_ifs at h with hlt
    obtain ⟨m, hm, h⟩ := Option.bind_eq_some_iff.mp h
    obtain rfl := Option.some.inj h
    exact .deliver hc hlt hm
  | origin tunnel io e =>
    obtain ⟨c, hc, h⟩ := Option.bind_eq_some_iff.mp h
    obtain ⟨session, hs, h⟩ := Option.bind_eq_some_iff.mp h
    obtain rfl := Option.some.inj h
    exact .origin hc hs
  | arrive tunnel =>
    obtain ⟨c, hc, h⟩ := Option.bind_eq_some_iff.mp h
    obtain ⟨sent, hs, h⟩ := Option.bind_eq_some_iff.mp h
    obtain rfl := Option.some.inj h
    exact .arrive hc hs
  | drop tunnel =>
    obtain ⟨c, hc, h⟩ := Option.bind_eq_some_iff.mp h
    obtain rfl := Option.some.inj h
    exact .drop hc

/-! ## The system's invariant -/

/-- A client has taken its own messages only, in order. -/
structure ClientSound (s : TunnelSystem) (i : ℕ) (c : Client) : Prop where
  started : c.start ≤ c.session.received
  bounded : c.session.received ≤ s.limit i
  orders : c.session.Orders (wsId s.frames) (spoken (s.frames.take c.session.received))
  strangers : ∀ n, n < c.start ∨ c.session.received ≤ n →
    c.session.Silent n ∧ sentTo c.session.effects n = []

/-- The tunnels have their clients, and only the last tunnel can be OPEN. -/
structure Sound (s : TunnelSystem) : Prop where
  wired : s.relay.relay.Wired
  clients : s.clients.length = s.relay.tunnels.length
  last : ∀ i, s.relay.tunnels.getD i false = true → i + 1 = s.relay.tunnels.length
  starts : s.clients.Pairwise fun c c' => c.start ≤ c'.start
  bound : ∀ c ∈ s.clients, c.start ≤ s.relay.relay.sent
  client : ∀ i c, s.clients[i]? = some c → s.ClientSound i c

theorem sound_new : new.Sound where
  wired := TunnelDO.wired_new
  clients := rfl
  last i h := by
    rw [List.getD_eq_getElem?_getD] at h
    cases h
  starts := .nil
  bound _ h := by cases h
  client _ _ h := by cases h

theorem Sound.limit_le (h : s.Sound) (i : ℕ) : s.limit i ≤ s.relay.relay.sent := by
  unfold limit
  split
  · rename_i next hn
    exact h.bound next (List.mem_of_getElem? hn)
  · exact Nat.le_refl _

theorem Sound.received_le (h : s.Sound) {i : ℕ} {c : Client} (hc : s.clients[i]? = some c) :
    c.session.received ≤ s.frames.length :=
  ((h.client i c hc).bounded.trans (h.limit_le i)).trans h.wired.sent.ge

/-- What the openings and messages of a relay make of any session. -/
theorem Sound.legible (h : s.Sound) (r : ℕ) :
    TunnelSession.Legible (wsId s.frames) (spoken (s.frames.take r)) where
  injective m n i hm hn := by
    obtain ⟨info, hm⟩ := wsId_eq_some.mp hm
    obtain ⟨info', hn⟩ := wsId_eq_some.mp hn
    exact h.wired.distinct m n _ _ hm hn trivial trivial rfl
  small n i hn := by
    obtain ⟨info, hn⟩ := wsId_eq_some.mp hn
    obtain ⟨m, -, hm⟩ := List.mem_map.mp (List.mem_of_getElem? hn)
    have hid := streamId_le_of_encoded m.encoded
    rwa [hm] at hid
  spoken i m hm hb := by
    obtain ⟨f, hf, hm⟩ := List.mem_filterMap.mp hm
    obtain ⟨k, hk⟩ := List.mem_iff_getElem?.mp (List.mem_of_mem_take hf)
    cases f with
    | wsData id isBinary data =>
      unfold Frame.message at hm
      dsimp only at hm
      split_ifs at hm
      obtain rfl := Option.some.inj hm
      exact (h.wired.data k id isBinary data hk).1 hb
    | _ => cases hm

/-- **Frame rule.** More frames do not change what a client has taken. -/
theorem ClientSound.grow {i : ℕ} {c : Client} (h : s.ClientSound i c)
    (hr : c.session.received ≤ s.frames.length) {l : List Frame} (hf : t.frames = s.frames ++ l)
    (hlim : s.limit i ≤ t.limit i) : t.ClientSound i c where
  started := h.started
  bounded := h.bounded.trans hlim
  strangers := h.strangers
  orders := by
    have htake : t.frames.take c.session.received = s.frames.take c.session.received := by
      rw [hf, List.take_append_of_le_length hr]
    rw [htake]
    refine ⟨fun j w hw => ?_, h.orders.streams, fun n j hn => ?_, fun n hn => ?_, h.orders.closed⟩
    · obtain ⟨info, hn⟩ := wsId_eq_some.mp (h.orders.known j w hw)
      exact wsId_eq_some.mpr ⟨info, hf ▸ getElem?_append_of_eq_some hn l⟩
    · obtain ⟨info, hn⟩ := wsId_eq_some.mp hn
      rw [hf] at hn
      rcases getElem?_append_eq_some hn with hn | ⟨hlen, -⟩
      · exact h.orders.order n j (wsId_eq_some.mpr ⟨info, hn⟩)
      · rw [(h.strangers n (.inr (hr.trans hlen))).2]
        exact List.nil_prefix
    · refine h.orders.unopened n (Option.eq_none_iff_forall_ne_some.mpr fun id hid => ?_)
      obtain ⟨info, hid⟩ := wsId_eq_some.mp hid
      have hid' := wsId_eq_some.mpr ⟨info, hf ▸ getElem?_append_of_eq_some hid l⟩
      exact absurd (hn.symm.trans hid') (by simp)

theorem start_setClient {i : ℕ} {c c' : Client} (hc : s.clients[i]? = some c)
    (hs : c'.start = c.start) (j : ℕ) :
    ((s.setClient i c').clients[j]?).map (fun c => c.start) =
      (s.clients[j]?).map fun c => c.start := by
  unfold setClient
  dsimp only
  rw [List.getElem?_set]
  split_ifs with hi hlt
  · rw [← hi, hc]
    exact congrArg some hs
  · exact absurd (List.getElem?_eq_some_iff.mp hc).1 (hi ▸ hlt)
  · rfl

theorem limit_eq (s : TunnelSystem) (i : ℕ) :
    s.limit i = ((s.clients[i + 1]?).map fun c => c.start).getD s.relay.relay.sent := by
  unfold limit
  cases s.clients[i + 1]? <;> rfl

theorem limit_setClient {i : ℕ} {c c' : Client} (hc : s.clients[i]? = some c)
    (hs : c'.start = c.start) (j : ℕ) : (s.setClient i c').limit j = s.limit j := by
  rw [limit_eq, limit_eq, start_setClient hc hs]
  rfl

theorem Sound.setClient (h : s.Sound) {i : ℕ} {c c' : Client} (hc : s.clients[i]? = some c)
    (hs : c'.start = c.start) (hsound : s.ClientSound i c') : (s.setClient i c').Sound where
  wired := h.wired
  clients := List.length_set.trans h.clients
  last := h.last
  starts := by
    have hmap : (s.setClient i c').clients.map (fun c => c.start) =
        s.clients.map fun c => c.start :=
      List.ext_getElem? fun j => by
        rw [List.getElem?_map, List.getElem?_map, start_setClient hc hs]
    have hp := List.pairwise_map.mpr h.starts
    rw [← hmap] at hp
    exact List.pairwise_map.mp hp
  bound d hd := by
    rcases List.mem_or_eq_of_mem_set hd with hd | rfl
    · exact h.bound d hd
    · rw [hs]
      exact h.bound c (List.mem_of_getElem? hc)
  client j d hd := by
    have hlim : s.limit j ≤ (s.setClient i c').limit j := (limit_setClient hc hs j).ge
    have hsame : (s.setClient i c').frames = s.frames ++ [] := (List.append_nil _).symm
    have hd' : (s.clients.set i c')[j]? = some d := hd
    rw [List.getElem?_set] at hd'
    split_ifs at hd' with hi
    · obtain rfl := Option.some.inj hd'
      subst hi
      exact hsound.grow ((hsound.bounded.trans (h.limit_le i)).trans h.wired.sent.ge) hsame hlim
    · exact (h.client j d hd').grow (h.received_le hd') hsame hlim

theorem Sound.relay (h : s.Sound) {r : TunnelRelay} (hw : r.relay.Wired)
    (hg : ∃ l, r.relay.frames = s.relay.relay.frames ++ l ∧
      r.relay.sent = s.relay.relay.sent + l.length)
    (ht : TunnelRelay.Dwindles s.relay.tunnels r.tunnels) (broken : Bool) :
    ({ s with relay := r, broken } : TunnelSystem).Sound := by
  obtain ⟨l, hf, hs⟩ := hg
  have hlim : ∀ j, s.limit j ≤ ({ s with relay := r, broken } : TunnelSystem).limit j := by
    intro j
    unfold limit
    dsimp only
    split
    · exact Nat.le_refl _
    · exact hs ▸ Nat.le_add_right _ _
  exact ⟨hw, h.clients.trans ht.1.symm, fun i hi => ht.1 ▸ h.last i (ht.2 i hi), h.starts,
    fun c hc => hs ▸ (h.bound c hc).trans (Nat.le_add_right _ _),
    fun j c hc => (h.client j c hc).grow (h.received_le hc) hf (hlim j)⟩

/-- A new session has taken nothing, whatever the frames. -/
theorem clientSound_newClient (s t : TunnelSystem) {i : ℕ} (h : s.relay.relay.sent ≤ t.limit i) :
    t.ClientSound i s.newClient where
  started := Nat.le_refl _
  bounded := h
  orders := ⟨nofun, nofun, fun _ _ _ => List.nil_prefix, fun _ _ => rfl, fun _ _ => rfl⟩
  strangers _ _ := ⟨nofun, rfl⟩

theorem frames_accept (s : TunnelSystem) : s.accept.frames = s.frames :=
  (TunnelDO.posts_abandonStreams _ _ _).frames.trans (List.append_nil _)

theorem sent_accept (s : TunnelSystem) : s.accept.relay.relay.sent = s.relay.relay.sent :=
  (TunnelDO.posts_abandonStreams _ _ _).sent

theorem limit_accept (s : TunnelSystem) (i : ℕ) : s.accept.limit i = s.limit i := by
  rw [limit_eq, limit_eq, sent_accept]
  unfold accept
  dsimp only
  rcases lt_trichotomy (i + 1) s.clients.length with hlt | heq | hgt
  · rw [List.getElem?_append_left hlt]
  · rw [heq, List.getElem?_concat_length, List.getElem?_eq_none (Nat.le_refl _)]
    rfl
  · rw [List.getElem?_eq_none (by simpa using hgt), List.getElem?_eq_none hgt.le]

theorem Sound.accept (h : s.Sound) : s.accept.Sound where
  wired := h.wired.posts (TunnelDO.posts_abandonStreams _ _ _) (by simp)
  clients := by
    unfold TunnelSystem.accept TunnelRelay.acceptTunnel
    dsimp only
    rw [List.length_append, List.length_append, List.length_map, h.clients]
    rfl
  last _ hi := TunnelRelay.last_acceptTunnel hi
  starts := by
    refine List.pairwise_append.mpr ⟨h.starts, List.pairwise_singleton _ _, fun c hc d hd => ?_⟩
    obtain rfl := List.mem_singleton.mp hd
    exact h.bound c hc
  bound c hc := by
    rw [sent_accept]
    rcases List.mem_append.mp hc with hc | hc
    · exact h.bound c hc
    · obtain rfl := List.mem_singleton.mp hc
      exact Nat.le_refl _
  client i c hc := by
    rcases getElem?_append_eq_some hc with hc | ⟨hlen, hc⟩
    · exact (h.client i c hc).grow (h.received_le hc)
        ((frames_accept s).trans (List.append_nil _).symm) (limit_accept s i).ge
    · obtain rfl := List.mem_singleton.mp hc
      refine clientSound_newClient s _ ?_
      rw [limit_accept, limit_eq, List.getElem?_eq_none (by omega)]
      rfl

/-- Before its opening, nothing was said on a stream. -/
theorem spoken_take_opening {d : TunnelDO} (h : d.Wired) {n id : ℕ} {info : OpenWs}
    (hn : d.frames[n]? = some (.openWs id info)) : spoken (d.frames.take n) id = [] := by
  refine List.filterMap_eq_nil_iff.mpr fun f hf => ?_
  obtain ⟨k, hk⟩ := List.mem_iff_getElem?.mp hf
  rw [List.getElem?_take] at hk
  split_ifs at hk with hlt
  cases f with
  | wsData i isBinary data =>
    refine if_neg ?_
    rintro rfl
    obtain ⟨-, m, hm, info', ho⟩ := h.data k i isBinary data hk
    exact absurd (h.distinct m n _ _ ho hn trivial trivial rfl) (by omega)
  | _ => rfl

theorem spoken_append (l l' : List Frame) (id : ℕ) :
    spoken (l ++ l') id = spoken l id ++ spoken l' id := List.filterMap_append

theorem spoken_singleton (f : Frame) (id : ℕ) : spoken [f] id = (f.message id).toList := by
  unfold spoken
  rw [List.filterMap_cons]
  cases f.message id <;> rfl

theorem spoken_take_succ {frames : List Frame} {n : ℕ} {f : Frame} (hf : frames[n]? = some f) :
    spoken (frames.take (n + 1)) = TunnelSession.hears (spoken (frames.take n)) f := by
  funext id
  unfold TunnelSession.hears
  rw [List.take_add_one, hf, spoken_append]
  exact congrArg _ (spoken_singleton f id)

/-- **Delivery rule.** A session takes its next message. -/
theorem Sound.deliver (h : s.Sound) {i : ℕ} {c : Client} {m : Posted} (io : Io)
    (hc : s.clients[i]? = some c) (hlt : c.session.received < s.limit i)
    (hm : s.relay.relay.outbox[c.session.received]? = some m) :
    s.ClientSound i { c with session := c.session.onMessage co io m.bytes } := by
  have hcs := h.client i c hc
  have hf : s.frames[c.session.received]? = some m.frame := by
    unfold frames TunnelDO.frames
    rw [List.getElem?_map, hm]
    rfl
  have hid := streamId_le_of_encoded m.encoded
  have hr : (c.session.onMessage co io m.bytes).received = c.session.received + 1 :=
    TunnelSession.received_onMessage m.encoded hid
  have ho : (c.session.onMessage co io m.bytes).Orders _ _ := hcs.orders.onMessage m.encoded hid
    (fun id info he => by
      rw [he] at hf
      exact ⟨wsId_eq_some.mpr ⟨info, hf⟩, (hcs.strangers _ (.inr (Nat.le_refl _))).2,
        spoken_take_opening h.wired hf⟩)
    (fun id isBinary data he hb => by
      rw [he] at hf
      exact (h.wired.data _ id isBinary data hf).1 hb)
  refine ⟨?_, ?_, ?_, fun n hn => ?_⟩
  · show c.start ≤ (c.session.onMessage co io m.bytes).received
    rw [hr]
    exact hcs.started.trans (Nat.le_succ _)
  · show (c.session.onMessage co io m.bytes).received ≤ s.limit i
    rw [hr]
    exact hlt
  · show (c.session.onMessage co io m.bytes).Orders (wsId s.frames)
      (spoken (s.frames.take (c.session.onMessage co io m.bytes).received))
    rw [hr, spoken_take_succ hf]
    exact ho
  · have hn' : n < c.start ∨ c.session.received + 1 ≤ n := hr ▸ hn
    have hstarted := hcs.started
    obtain ⟨hsilent, hsent⟩ := hcs.strangers n (hn'.imp id (Nat.le_succ _).trans)
    have hmute : TunnelSession.Mute n c.session (c.session.onMessage co io m.bytes) :=
      hsilent.onMessage m.encoded hid (by omega)
    exact ⟨hmute.silent, hmute.sent.trans hsent⟩

theorem Sound.origin (h : s.Sound) {i : ℕ} {c : Client} {io : Io} {e : TunnelSession.LocalEvent}
    {session : TunnelSession} (hc : s.clients[i]? = some c)
    (hs : c.session.onLocal co io e = some session) : s.ClientSound i { c with session } := by
  have hcs := h.client i c hc
  obtain ⟨ho, hr⟩ := hcs.orders.onLocal (h.legible _) hs
  refine ⟨?_, ?_, ?_, fun n hn => ?_⟩
  · show c.start ≤ session.received
    exact hr ▸ hcs.started
  · show session.received ≤ s.limit i
    exact hr ▸ hcs.bounded
  · show session.Orders (wsId s.frames) (spoken (s.frames.take session.received))
    rw [hr]
    exact ho
  · have hn' : n < c.start ∨ c.session.received ≤ n := hr ▸ hn
    obtain ⟨hsilent, hsent⟩ := hcs.strangers n hn'
    have hmute := hsilent.onLocal hcs.orders (h.legible _) hs
    exact ⟨hmute.silent, hmute.sent.trans hsent⟩

/-- **Step lemma.** -/
theorem Sound.step (h : s.Sound) (hok : s.Ok e) (ht : step secret relayable co s e = some t) :
    t.Sound := by
  cases Step.of_step ht with
  | accept => exact h.accept
  | @relay e relay hs =>
    refine h.relay (hs.wired h.wired ?_) hs.grows hs.dwindles _
    rintro n data sends rfl
    exact hok.2
  | @deliver tunnel io c m hc hlt hm => exact h.setClient hc rfl (h.deliver io hc hlt hm)
  | @origin tunnel io e c session hc hs => exact h.setClient hc rfl (h.origin hc hs)
  | @arrive tunnel c sent hc hs =>
    have hp := TunnelDO.posts_onTunnelFrame relayable s.relay.relay sent.uid sent.frame
    have hr : (s.arriveFrame relayable sent).Sound := h.relay
      (r := { s.relay with relay := s.relay.relay.onTunnelFrame relayable sent.uid sent.frame })
      (h.wired.posts hp (by simp)) ⟨[], hp.frames, hp.sent⟩ (TunnelRelay.dwindles_refl _) s.broken
    have hcs := hr.client tunnel c hc
    exact hr.setClient hc rfl ⟨hcs.started, hcs.bounded, hcs.orders, hcs.strangers⟩
  | @drop tunnel c hc =>
    have hcs := h.client tunnel c hc
    exact h.setClient hc rfl ⟨hcs.started, hcs.bounded, hcs.orders, hcs.strangers⟩

end TunnelSystem

end BbShared
