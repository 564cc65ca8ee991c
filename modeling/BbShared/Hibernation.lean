import BbShared.GuestMessages
import BbShared.Naming

/-!
# Hibernation

The relay of `tunnel-do.ts` and one session of `session.ts` at the two ends of one tunnel.  While no
request is pending, the memory of the relay's instance may be lost: the constructor is run again, on
the visitor sockets that survive.

Each end takes what the other sent in order, and may be behind by any number of messages.  A stream
is bound to the visitor that it was opened for, and the session uses a stream id for the message that
opened the stream; `Isolated` is the invariant that the two agree.
-/

namespace BbShared

open Js

/-! ## The machine -/

/-- The frames that the session sent and the relay has not taken are its outbox. -/
structure TunnelPair where
  relay : TunnelRelay
  session : TunnelSession

inductive PairEvent where
  | relay (e : RelayEvent)
  /-- The instance's memory is lost. -/
  | hibernate
  /-- The session takes the next message. -/
  | deliver (io : Io)
  | origin (io : Io) (e : TunnelSession.LocalEvent)
  /-- The relay takes the next frame. -/
  | arrive

/-- The stream that a frame opens. -/
def Frame.newStream : Frame → Option ℕ
  | openHttp id _ => some id
  | openWs id _ => some id
  | _ => none

/-- The ids of a session's streams. -/
def TunnelSession.streamIds (s : TunnelSession) : List ℕ := s.httpStreams.keys ++ s.wsStreams.keys

/-- The stream ids that a session may still send frames for. -/
def TunnelSession.idsInUse (s : TunnelSession) : List ℕ :=
  s.streamIds ++ s.running.map (fun r => r.streamId) ++ s.sockets.map (fun k => k.streamId) ++
    s.outbox.map fun m => m.frame.streamId

namespace TunnelDO

/-- A stream id is bound to what was opened under it, a request or a visitor's socket. -/
def Binds (d : TunnelDO) (id : ℕ) (opening : Option ℕ) : Prop :=
  (∃ entry, d.pendingHttp.get id = some entry ∧ entry.opening = opening) ∨
    ∃ v ∈ d.visitors, v.streamId = id ∧ some v.opening = opening

end TunnelDO

namespace TunnelPair

/-- The tunnel is accepted, and nothing is sent. -/
def new : TunnelPair := ⟨TunnelRelay.new.acceptTunnel, .new⟩

/-- The messages that the session has not taken. -/
def unread (s : TunnelPair) : List Frame := s.relay.relay.frames.drop s.session.received

/-- The relay after a hibernation. -/
def wake (s : TunnelPair) : TunnelPair :=
  { s with relay := { s.relay with relay := s.relay.relay.wake } }

/-- The relay takes a frame of the session. -/
def arriveFrame (relayable : TunnelDO.Relayable) (s : TunnelPair) (sent : Sent)
    (rest : List Sent) : TunnelPair :=
  { relay := { s.relay with
      relay := s.relay.relay.onTunnelFrame relayable sent.uid sent.frame }
    session := { s.session with outbox := rest } }

variable (relayable : TunnelDO.Relayable) (co : Coercion)

/-- `none` where the event cannot happen.  There is one tunnel, and its frames come from the
session. -/
def step (s : TunnelPair) : PairEvent → Option TunnelPair
  | .relay (.dial _) => none
  | .relay (.tunnelFrame _ _ _) => none
  | .relay e => (TunnelRelay.step [] relayable s.relay e).map fun relay => { s with relay }
  | .hibernate => if s.relay.relay.pendingHttp.size = 0 then some s.wake else none
  | .deliver io => (s.relay.relay.outbox[s.session.received]?).map fun m =>
      { s with session := s.session.onMessage co io m.bytes }
  | .origin io e => (TunnelSession.onLocal co io s.session e).map fun session => { s with session }
  | .arrive =>
    match s.session.outbox with
    | [] => none
    | sent :: rest => some (s.arriveFrame relayable sent rest)

/-- The constructor counts on from every id that the session uses, or will on taking the messages
on their way to it. -/
def CountsOn (s : TunnelPair) : PairEvent → Prop
  | .hibernate => ∀ id ∈ s.session.idsInUse ++ s.unread.filterMap Frame.newStream,
      id ≤ TunnelDO.maxSeen s.relay.relay.visitors
  | _ => True

instance (s : TunnelPair) : (e : PairEvent) → Decidable (s.CountsOn e)
  | .hibernate => inferInstanceAs (Decidable (∀ id ∈ s.session.idsInUse ++
      s.unread.filterMap Frame.newStream, id ≤ TunnelDO.maxSeen s.relay.relay.visitors))
  | .relay _ => .isTrue trivial
  | .deliver _ => .isTrue trivial
  | .origin _ _ => .isTrue trivial
  | .arrive => .isTrue trivial

/-- Whatever a frame does to a visitor, it is a frame of the stream opened for that visitor: each
frame of which a visitor has seen anything, and each one on its way that finds its id bound, also
where the visitor sees nothing of it, as at the end of a body that never began. -/
structure Answers (s : TunnelPair) : Prop where
  seen : ∀ e ∈ s.relay.relay.effects, ∀ n, e.source = some n → e.opening = some n
  arriving : ∀ sent ∈ s.session.outbox, ∀ opening,
    s.relay.relay.Binds sent.frame.streamId opening → opening = some sent.uid

end TunnelPair

/-! ## What the relay binds -/

namespace TunnelDO

variable {P : VisitorEffect → Prop} {d t u : TunnelDO}

/-- Streams are only given up, and what visitors get is as said. -/
structure GivesUp (P : VisitorEffect → Prop) (d t : TunnelDO) : Prop where
  binds : ∀ id o, t.Binds id o → d.Binds id o
  effects : ∃ x, t.effects = d.effects ++ x ∧ ∀ e ∈ x, P e

theorem GivesUp.of_eq (hp : t.pendingHttp = d.pendingHttp) (hv : t.visitors = d.visitors)
    (he : t.effects = d.effects) : GivesUp P d t where
  binds id o h := by
    unfold Binds at h ⊢
    rwa [hp, hv] at h
  effects := ⟨[], by rw [he, List.append_nil], by simp⟩

theorem GivesUp.refl (d : TunnelDO) : GivesUp P d d := .of_eq rfl rfl rfl

theorem GivesUp.trans (h : GivesUp P d t) (h' : GivesUp P t u) : GivesUp P d u where
  binds id o hb := h.binds id o (h'.binds id o hb)
  effects := by
    obtain ⟨x, hx, hP⟩ := h.effects
    obtain ⟨y, hy, hP'⟩ := h'.effects
    refine ⟨x ++ y, by rw [hy, hx, List.append_assoc], fun e he => ?_⟩
    exact (List.mem_append.mp he).elim (hP e) (hP' e)

theorem givesUp_foldl {α : Type*} {f : TunnelDO → α → TunnelDO} (h : ∀ a d, GivesUp P d (f d a))
    (as : List α) (d : TunnelDO) : GivesUp P d (as.foldl f d) := by
  induction as generalizing d with
  | nil => exact .refl d
  | cons a as ih => exact (h a d).trans (ih _)

theorem givesUp_post (d : TunnelDO) (m : Message) : GivesUp P d (d.post m) := .of_eq rfl rfl rfl

theorem givesUp_pumps (d : TunnelDO) (pumps : List ℕ) : GivesUp P d { d with pumps } :=
  .of_eq rfl rfl rfl

theorem givesUp_effect (d : TunnelDO) {opening source : Option ℕ} {action : VisitorAction}
    (h : P ⟨opening, source, action⟩) : GivesUp P d (d.effect opening source action) where
  binds _ _ h := h
  effects := ⟨[⟨opening, source, action⟩], rfl, by simpa using h⟩

/-- An entry goes. -/
theorem givesUp_erase (d : TunnelDO) (id : ℕ) :
    GivesUp P d { d with pendingHttp := d.pendingHttp.erase id } where
  binds j o h := by
    refine h.imp (fun ⟨entry, hg, ho⟩ => ⟨entry, ?_, ho⟩) (fun h => h)
    rcases eq_or_ne j id with rfl | hne
    · rw [OrderedMap.get_erase_self] at hg
      cases hg
    · rwa [OrderedMap.get_erase_of_ne _ hne] at hg
  effects := ⟨[], (List.append_nil _).symm, by simp⟩

/-- An entry changes, but not what it was opened for. -/
theorem givesUp_setEntry {id : ℕ} {entry entry' : PendingHttp}
    (hg : d.pendingHttp.get id = some entry)
    (ho : entry'.opening = entry.opening) : GivesUp P d (d.setEntry id entry') where
  binds j o h := by
    refine h.imp (fun ⟨e, he, ho'⟩ => ?_) (fun h => h)
    unfold setEntry at he
    dsimp only at he
    rcases eq_or_ne j id with rfl | hne
    · rw [OrderedMap.get_set_self] at he
      obtain rfl := Option.some.inj he
      exact ⟨entry, hg, ho.symm.trans ho'⟩
    · rw [OrderedMap.get_set_of_ne _ hne] at he
      exact ⟨e, he, ho'⟩
  effects := ⟨[], (List.append_nil _).symm, by simp⟩

theorem givesUp_markClosing (d : TunnelDO) (opening : ℕ) : GivesUp P d (d.markClosing opening) where
  binds id o h := by
    refine h.imp (fun h => h) fun ⟨v, hv, hid, ho⟩ => ?_
    obtain ⟨u, hu, rfl⟩ := List.mem_map.mp hv
    refine ⟨u, hu, ?_⟩
    split_ifs at hid ho <;> exact ⟨hid, ho⟩
  effects := ⟨[], (List.append_nil _).symm, by simp⟩

theorem givesUp_closeVisitor (d : TunnelDO) {v : VisitorSocket} {source : Option ℕ} {code : ℕ}
    {reason : Text} (h : P ⟨some v.opening, source, .close code reason⟩) :
    GivesUp P d (d.closeVisitor v source code reason) := by
  unfold closeVisitor
  split_ifs
  · exact .refl d
  · exact (givesUp_markClosing d v.opening).trans (givesUp_effect _ h)

theorem givesUp_failHttpStream (d : TunnelDO) {id status : ℕ} {message : Text} {source : Option ℕ}
    (h : ∀ entry a, d.pendingHttp.get id = some entry → P ⟨entry.opening, source, a⟩) :
    GivesUp P d (d.failHttpStream id status message source) := by
  unfold failHttpStream
  split
  · exact .refl d
  · rename_i entry hg
    exact (givesUp_erase d id).trans (givesUp_effect _ (h entry _ hg))

/-! ## Steps without a frame -/

/-- What happens to a visitor on account of no frame. -/
def Unanswered (e : VisitorEffect) : Prop := e.source = none

theorem givesUp_abandonStreams (d : TunnelDO) (httpReason wsReason : Text) :
    GivesUp Unanswered d (d.abandonStreams httpReason wsReason) := by
  have hfail : ∀ id d, GivesUp Unanswered d (d.failHttpStream id 502 httpReason none) :=
    fun _ d => givesUp_failHttpStream d fun _ _ _ => rfl
  have hclose : ∀ v d, GivesUp Unanswered d (d.closeVisitor v none 1001 wsReason) :=
    fun _ d => givesUp_closeVisitor d rfl
  exact (givesUp_foldl hfail _ d).trans (givesUp_foldl hclose _ _)

theorem givesUp_sendOnly (d : TunnelDO) (link : TunnelLink) (f : Frame) :
    GivesUp P d (d.sendOnly link f) := by
  unfold sendOnly
  rcases trySend_cases d link f with h | h | ⟨m, -, h⟩ <;> rw [h]
  · exact .refl d
  · exact .refl d
  · exact givesUp_post d m

theorem givesUp_pumpChunk (d : TunnelDO) (link : TunnelLink) (id : ℕ) (value : Bytes) :
    GivesUp P d (d.pumpChunk link id value) := by
  unfold pumpChunk
  split_ifs
  · exact givesUp_foldl (fun f d => givesUp_sendOnly d link f) _ d
  · exact .refl d
  · exact givesUp_pumps d _

theorem givesUp_pumpEnd (d : TunnelDO) (link : TunnelLink) (id : ℕ) :
    GivesUp P d (d.pumpEnd link id) :=
  (givesUp_sendOnly d link _).trans (givesUp_pumps _ _)

theorem givesUp_pumpError (d : TunnelDO) (link : TunnelLink) (id : ℕ) :
    GivesUp P d (d.pumpError link id) :=
  (givesUp_sendOnly d link _).trans (givesUp_pumps _ _)

theorem givesUp_visitorMessage (d : TunnelDO) (link : TunnelLink) (v : VisitorSocket)
    (isBinary : Bool) (data : Bytes) :
    GivesUp Unanswered d (d.visitorMessage link v isBinary data) := by
  unfold visitorMessage
  split_ifs
  · rcases trySend_cases d link (.wsData v.streamId isBinary data) with h | h | ⟨m, -, h⟩ <;> rw [h]
    · exact .refl d
    · exact givesUp_closeVisitor d rfl
    · exact givesUp_post d m
  · exact givesUp_closeVisitor d rfl

theorem givesUp_visitorClose (d : TunnelDO) (link : TunnelLink) (v : VisitorSocket) (code : ℕ)
    (reason : Text) : GivesUp Unanswered d (d.visitorClose link v code reason) := by
  unfold visitorClose
  split_ifs
  · exact (givesUp_sendOnly d link _).trans (givesUp_closeVisitor _ rfl)
  · exact givesUp_closeVisitor d rfl

theorem givesUp_cancelHttpStream (d : TunnelDO) (link : TunnelLink) (id : ℕ) :
    GivesUp P d (d.cancelHttpStream link id) := by
  unfold cancelHttpStream
  split
  · exact .refl d
  · split_ifs
    · exact (givesUp_erase d id).trans (givesUp_sendOnly _ link _)
    · exact givesUp_erase d id

theorem givesUp_forgetVisitor (d : TunnelDO) (opening : ℕ) :
    GivesUp P d (d.forgetVisitor opening) where
  binds _ _ h := h.imp (fun h => h) fun ⟨v, hv, h⟩ => ⟨v, List.mem_of_mem_filter hv, h⟩
  effects := ⟨[], (List.append_nil _).symm, by simp⟩

/-! ## Frames of the session -/

/-- What happens to a visitor on account of a frame for a stream that is bound to it. -/
def Reply (d : TunnelDO) (source id : ℕ) (e : VisitorEffect) : Prop :=
  e.source = some source ∧ d.Binds id e.opening

theorem reply_of_get {source id : ℕ} {entry : PendingHttp} (hg : d.pendingHttp.get id = some entry)
    (a : VisitorAction) : Reply d source id ⟨entry.opening, some source, a⟩ :=
  ⟨rfl, .inl ⟨entry, hg, rfl⟩⟩

theorem reply_of_visitorSocket {source id : ℕ} {v : VisitorSocket}
    (hv : d.visitorSocket id = some v) (a : VisitorAction) :
    Reply d source id ⟨some v.opening, some source, a⟩ :=
  ⟨rfl, .inr ⟨v, List.mem_of_find?_eq_some hv, by simpa using List.find?_some hv, rfl⟩⟩

/-- **Frame rule.** A frame reaches the visitor that its stream id is bound to, or none. -/
theorem givesUp_onTunnelFrame (relayable : Relayable) (d : TunnelDO) (source : ℕ) (f : Frame) :
    GivesUp (Reply d source f.streamId) d (d.onTunnelFrame relayable source f) := by
  cases f with
  | respHead id status headers =>
    unfold onTunnelFrame onRespHead
    dsimp only
    split
    · exact .refl d
    · rename_i entry hg
      have hset : ∀ entry', entry'.opening = entry.opening → ∀ a, GivesUp (Reply d source id) d
          ((d.setEntry id entry').effect entry.opening (some source) a) := fun _ ho a =>
        (givesUp_setEntry hg ho).trans (givesUp_effect _ (reply_of_get hg a))
      split_ifs
      · exact hset { entry with timeout := false } rfl _
      · exact hset { entry with timeout := false, writer := true } rfl _
      · exact (givesUp_erase d id).trans (givesUp_effect _ (reply_of_get hg _))
  | bodyChunk id data =>
    unfold onTunnelFrame onBodyChunk
    dsimp only
    split
    · rename_i entry hg
      split_ifs
      · exact givesUp_effect d (reply_of_get hg _)
      · exact .refl d
    · exact .refl d
  | bodyEnd id =>
    unfold onTunnelFrame onBodyEnd
    dsimp only
    split
    · rename_i entry hg
      split_ifs
      · exact (givesUp_erase d id).trans (givesUp_effect _ (reply_of_get hg _))
      · exact givesUp_erase d id
    · exact .refl d
  | closeStream id code reason =>
    unfold onTunnelFrame onCloseStream
    dsimp only
    split_ifs
    · exact givesUp_failHttpStream d fun entry a hg => reply_of_get hg a
    · split
      · rename_i v hv
        exact givesUp_closeVisitor d (reply_of_visitorSocket hv _)
      · exact .refl d
  | wsData id isBinary data =>
    unfold onTunnelFrame onWsData
    dsimp only
    split
    · rename_i v hv
      split_ifs
      · exact .refl d
      · exact givesUp_effect d (reply_of_visitorSocket hv _)
    · exact .refl d
  | wsOpenAck id protocol => exact .refl d
  | openHttp id info => exact .refl d
  | openWs id info => exact .refl d

/-! ## Openings -/

/-- A new request waits under the next id; it has no opening where none is sent. -/
structure Visits (d t : TunnelDO) : Prop where
  effects : t.effects = d.effects
  pendingHttp : ∀ id entry, t.pendingHttp.get id = some entry → d.pendingHttp.get id = some entry ∨
    id = d.nextStreamId ∧ id < t.nextStreamId ∧ (entry.opening = some d.sent ∨ t.sent = d.sent)

theorem visits_openVisitorWebSocket (d : TunnelDO) (link : TunnelLink) (r : VisitorRequest) :
    Visits d (d.openVisitorWebSocket link r).1 := by
  unfold openVisitorWebSocket
  dsimp only
  rcases trySend_cases { d with nextStreamId := d.nextStreamId + 1 } link
    (.openWs d.nextStreamId r.openWs) with h | h | ⟨m, -, h⟩ <;> rw [h]
  · exact ⟨rfl, fun _ _ => .inl⟩
  · exact ⟨rfl, fun _ _ => .inl⟩
  · exact ⟨rfl, fun _ _ => .inl⟩

/-- An entry of the map with a new key. -/
theorem get_set_next {id : ℕ} {entry e : PendingHttp}
    (h : (d.pendingHttp.set d.nextStreamId e).get id = some entry) :
    d.pendingHttp.get id = some entry ∨ id = d.nextStreamId ∧ entry = e := by
  rcases eq_or_ne id d.nextStreamId with rfl | hne
  · rw [OrderedMap.get_set_self] at h
    exact .inr ⟨rfl, (Option.some.inj h).symm⟩
  · rw [OrderedMap.get_set_of_ne _ hne] at h
    exact .inl h

theorem visits_proxyHttp (d : TunnelDO) (link : TunnelLink) (r : VisitorRequest) :
    Visits d (d.proxyHttp link r).1 := by
  unfold proxyHttp
  dsimp only
  rcases trySend_cases { d with
      nextStreamId := d.nextStreamId + 1
      pendingHttp := d.pendingHttp.set d.nextStreamId ⟨none, false, true⟩ } link
    (.openHttp d.nextStreamId r.openHttp) with h | h | ⟨m, -, h⟩ <;> rw [h]
  · exact ⟨rfl, fun id entry hg => (get_set_next hg).imp_right fun ⟨hid, _⟩ =>
      ⟨hid, hid ▸ Nat.lt_succ_self _, .inr rfl⟩⟩
  · refine ⟨rfl, fun id entry hg => ?_⟩
    have hg' : ((d.pendingHttp.set d.nextStreamId ⟨none, false, true⟩).erase d.nextStreamId).get id =
      some entry := hg
    rcases eq_or_ne id d.nextStreamId with rfl | hne
    · rw [OrderedMap.get_erase_self] at hg'
      cases hg'
    · rw [OrderedMap.get_erase_of_ne _ hne, OrderedMap.get_set_of_ne _ hne] at hg'
      exact .inl hg'
  · have hpend : ∀ id entry, ((d.pendingHttp.set d.nextStreamId ⟨none, false, true⟩).set
        d.nextStreamId ⟨some d.sent, false, true⟩).get id = some entry →
        d.pendingHttp.get id = some entry ∨ id = d.nextStreamId ∧ entry.opening = some d.sent := by
      intro id entry hg
      rw [OrderedMap.set_set] at hg
      exact (get_set_next hg).imp_right fun ⟨hid, he⟩ => ⟨hid, he ▸ rfl⟩
    dsimp only
    split_ifs
    · exact ⟨rfl, fun id entry hg => (hpend id entry hg).imp_right fun ⟨hid, he⟩ =>
        ⟨hid, hid ▸ Nat.lt_succ_self _, .inl he⟩⟩
    · exact ⟨rfl, fun id entry hg => (hpend id entry hg).imp_right fun ⟨hid, he⟩ =>
        ⟨hid, hid ▸ Nat.lt_succ_self _, .inl he⟩⟩

theorem visits_proxyGuestRequest (d : TunnelDO) (link : TunnelLink) (r : VisitorRequest) :
    Visits d (d.proxyGuestRequest link r).1 := by
  unfold proxyGuestRequest
  split_ifs
  · exact visits_openVisitorWebSocket d link r
  · exact visits_proxyHttp d link r
  · exact ⟨rfl, fun _ _ => .inl⟩

/-! ## Steps of the relay -/

/-- What a step of the relay does: what is sent opens no stream and nobody is answered, or a visitor
comes. -/
inductive Serves (d t : TunnelDO) : Prop
  | between {l : List Frame} (hp : Posts l d t) (hl : ∀ f ∈ l, ¬ f.Opens)
      (hg : GivesUp Unanswered d t) : Serves d t
  | visit {link : TunnelLink} {r : VisitorRequest} (ht : t = (d.proxyGuestRequest link r).1) :
      Serves d t

theorem serves_plain {sends : Bool} (hp : PostsPlain sends d t) (hg : GivesUp Unanswered d t) :
    Serves d t := by
  obtain ⟨l, hl, hplain, -⟩ := hp
  exact .between hl (fun f hf => not_opens_of_plain (hplain f hf)) hg

theorem serves_quiet (hp : Posts [] d t) (hg : GivesUp Unanswered d t) : Serves d t :=
  .between hp (by simp) hg

theorem serves_refl (d : TunnelDO) : Serves d d := serves_quiet (posts_refl d) (.refl d)

theorem serves_visitorMessage (d : TunnelDO) (link : TunnelLink) (v : VisitorSocket)
    (isBinary : Bool) (data : Bytes) : Serves d (d.visitorMessage link v isBinary data) := by
  have hg := givesUp_visitorMessage d link v isBinary data
  rcases visitorMessage_cases d link v isBinary data with ⟨-, -, hp⟩ | ⟨-, hp⟩
  · refine .between hp (fun f hf => ?_) hg
    obtain rfl := List.mem_singleton.mp hf
    exact fun h => h
  · exact serves_quiet hp hg

end TunnelDO

theorem TunnelRelay.serves_of_step {secret : Text} {relayable : TunnelDO.Relayable}
    {s t : TunnelRelay} {e : RelayEvent} (hd : ∀ r, e ≠ .dial r)
    (hf : ∀ tunnel source f, e ≠ .tunnelFrame tunnel source f)
    (h : step secret relayable s e = some t) : TunnelDO.Serves s.relay t.relay := by
  cases e with
  | dial r => exact absurd rfl (hd r)
  | lose tunnel =>
    obtain rfl := Option.some.inj h
    exact TunnelDO.serves_refl _
  | tunnelFrame tunnel source f => exact absurd rfl (hf tunnel source f)
  | tunnelClose tunnel =>
    unfold step at h
    dsimp only at h
    split_ifs at h
    obtain rfl := Option.some.inj h
    unfold tunnelClose
    dsimp only
    split_ifs
    · exact TunnelDO.serves_refl _
    · exact TunnelDO.serves_quiet (TunnelDO.posts_abandonStreams _ _ _)
        (TunnelDO.givesUp_abandonStreams _ _ _)
  | fetch r sends =>
    unfold step at h
    obtain rfl := Option.some.inj h
    split_ifs
    · exact TunnelDO.serves_refl _
    · exact .visit rfl
  | pumpChunk id value sends =>
    obtain rfl := Option.some.inj h
    exact TunnelDO.serves_plain (TunnelDO.postsPlain_pumpChunk _ _ _ _)
      (TunnelDO.givesUp_pumpChunk _ _ _ _)
  | pumpEnd id sends =>
    obtain rfl := Option.some.inj h
    exact TunnelDO.serves_plain (TunnelDO.postsPlain_pumpEnd _ _ _) (TunnelDO.givesUp_pumpEnd _ _ _)
  | pumpError id sends =>
    obtain rfl := Option.some.inj h
    exact TunnelDO.serves_plain (TunnelDO.postsPlain_pumpError _ _ _)
      (TunnelDO.givesUp_pumpError _ _ _)
  | visitorMessage n isBinary data sends =>
    obtain ⟨v, -, rfl⟩ := Option.map_eq_some_iff.mp h
    exact TunnelDO.serves_visitorMessage _ _ _ _ _
  | visitorClose n code reason sends =>
    obtain ⟨v, -, rfl⟩ := Option.map_eq_some_iff.mp h
    exact TunnelDO.serves_plain (TunnelDO.postsPlain_visitorClose _ _ _ _ _)
      (TunnelDO.givesUp_visitorClose _ _ _ _ _)
  | visitorGone n =>
    obtain rfl := Option.some.inj h
    exact TunnelDO.serves_quiet (TunnelDO.posts_forgetVisitor _ _)
      (TunnelDO.givesUp_forgetVisitor _ _)
  | headTimeout id =>
    obtain ⟨d, hd, rfl⟩ := Option.map_eq_some_iff.mp h
    unfold TunnelDO.headTimeout at hd
    split at hd
    · split_ifs at hd
      obtain rfl := Option.some.inj hd
      exact TunnelDO.serves_quiet (TunnelDO.posts_failHttpStream _ _ _ _ _)
        (TunnelDO.givesUp_failHttpStream _ fun _ _ _ => rfl)
    · cases hd
  | cancel id sends =>
    unfold step at h
    dsimp only at h
    split at h
    · split_ifs at h
      obtain rfl := Option.some.inj h
      exact TunnelDO.serves_plain (TunnelDO.postsPlain_cancelHttpStream _ _ _)
        (TunnelDO.givesUp_cancelHttpStream _ _ _)
    · cases h

namespace TunnelPair

variable {relayable : TunnelDO.Relayable} {co : Coercion} {s t : TunnelPair} {e : PairEvent}

/-! ## Steps -/

/-- What each event does. -/
inductive Step (relayable : TunnelDO.Relayable) (co : Coercion) (s : TunnelPair) :
    PairEvent → TunnelPair → Prop
  | relay {e : RelayEvent} {relay : TunnelRelay} (hs : s.relay.relay.Serves relay.relay) :
      Step relayable co s (.relay e) { s with relay }
  | hibernate (hp : s.relay.relay.pendingHttp.size = 0) : Step relayable co s .hibernate s.wake
  | deliver {io : Io} {m : Posted} (hm : s.relay.relay.outbox[s.session.received]? = some m) :
      Step relayable co s (.deliver io) { s with session := s.session.onMessage co io m.bytes }
  | origin {io : Io} {e : TunnelSession.LocalEvent} {session : TunnelSession}
      (hs : s.session.onLocal co io e = some session) :
      Step relayable co s (.origin io e) { s with session }
  | arrive {sent : Sent} {rest : List Sent} (hs : s.session.outbox = sent :: rest) :
      Step relayable co s .arrive (s.arriveFrame relayable sent rest)

theorem Step.of_step (h : step relayable co s e = some t) : Step relayable co s e t := by
  cases e with
  | relay e =>
    have hrelay : (∀ r, e ≠ .dial r) ∧ (∀ tunnel source f, e ≠ .tunnelFrame tunnel source f) ∧
        (TunnelRelay.step [] relayable s.relay e).map (fun relay => { s with relay }) = some t := by
      cases e with
      | dial => cases h
      | tunnelFrame => cases h
      | _ => exact ⟨nofun, nofun, h⟩
    obtain ⟨hd, hf, h⟩ := hrelay
    obtain ⟨relay, hr, rfl⟩ := Option.map_eq_some_iff.mp h
    exact .relay (TunnelRelay.serves_of_step hd hf hr)
  | hibernate =>
    unfold step at h
    dsimp only at h
    split_ifs at h with hp
    obtain rfl := Option.some.inj h
    exact .hibernate hp
  | deliver io =>
    obtain ⟨m, hm, rfl⟩ := Option.map_eq_some_iff.mp h
    exact .deliver hm
  | origin io e =>
    obtain ⟨session, hs, rfl⟩ := Option.map_eq_some_iff.mp h
    exact .origin hs
  | arrive =>
    unfold step at h
    dsimp only at h
    split at h
    · cases h
    · rename_i sent rest hs
      obtain rfl := Option.some.inj h
      exact .arrive hs

end TunnelPair

/-! ## What a session uses -/

namespace TunnelSession

variable {s : TunnelSession} {H : ℕ → ℕ → Prop} {I : ℕ → OpenHttp → Prop} {k uid id : ℕ}

/-- The session holds or sends something under the stream id, for the message of this number. -/
def Uses (s : TunnelSession) (uid id : ℕ) : Prop :=
  (∃ e ∈ s.httpStreams.entries, e.2.uid = uid ∧ e.1 = id) ∨
    (∃ e ∈ s.wsStreams.entries, e.2.uid = uid ∧ e.1 = id) ∨
    (∃ r ∈ s.running, r.uid = uid ∧ r.streamId = id) ∨
    (∃ k ∈ s.sockets, k.uid = uid ∧ k.streamId = id) ∨
    ∃ m ∈ s.outbox, m.uid = uid ∧ m.frame.streamId = id

theorem Uses.mem_idsInUse (h : s.Uses uid id) : id ∈ s.idsInUse := by
  unfold idsInUse streamIds
  simp only [List.mem_append]
  rcases h with ⟨e, he, -, rfl⟩ | ⟨e, he, -, rfl⟩ | ⟨r, hr, -, rfl⟩ | ⟨k, hk, -, rfl⟩ |
    ⟨m, hm, -, rfl⟩
  · exact .inl (.inl (.inl (.inl (List.mem_map_of_mem he))))
  · exact .inl (.inl (.inl (.inr (List.mem_map_of_mem he))))
  · exact .inl (.inl (.inr (List.mem_map_of_mem hr)))
  · exact .inl (.inr (List.mem_map_of_mem hk))
  · exact .inr (List.mem_map_of_mem hm)

theorem Named.uses (h : s.Named H I k) (hu : s.Uses uid id) : H uid id := by
  rcases hu with ⟨e, he, rfl, rfl⟩ | ⟨e, he, rfl, rfl⟩ | ⟨r, hr, rfl, rfl⟩ | ⟨k, hk, rfl, rfl⟩ |
    ⟨m, hm, rfl, rfl⟩
  · exact (h.http e he).1
  · exact (h.ws e he).1
  · exact (h.running r hr).1
  · exact h.sockets k hk
  · exact h.outbox m hm

/-- The names of a session are those it uses. -/
theorem Named.self (h : s.Named H I k) : s.Named s.Uses (fun _ _ => True) k where
  received := h.received
  http e he := ⟨.inl ⟨e, he, rfl, rfl⟩, trivial⟩
  ws e he := ⟨.inr (.inl ⟨e, he, rfl, rfl⟩), (h.ws e he).2⟩
  running r hr := ⟨.inr (.inr (.inl ⟨r, hr, rfl, rfl⟩)), trivial⟩
  sockets k hk := .inr (.inr (.inr (.inl ⟨k, hk, rfl, rfl⟩)))
  outbox m hm := .inr (.inr (.inr (.inr ⟨m, hm, rfl, rfl⟩)))

end TunnelSession

theorem Frame.newStream_eq_some {f : Frame} {id : ℕ} :
    f.newStream = some id ↔ f.Opens ∧ f.streamId = id := by
  cases f <;> simp [Frame.newStream, Frame.Opens, Frame.streamId]

namespace TunnelDO

theorem le_maxSeen {visitors : List VisitorSocket} {v : VisitorSocket} (h : v ∈ visitors) :
    v.streamId ≤ maxSeen visitors := by
  have key : ∀ (visitors : List VisitorSocket) (m : ℕ),
      m ≤ visitors.foldl (fun m v => max m v.streamId) m ∧
        ∀ v ∈ visitors, v.streamId ≤ visitors.foldl (fun m v => max m v.streamId) m := by
    intro visitors
    induction visitors with
    | nil => exact fun m => ⟨Nat.le_refl _, by simp⟩
    | cons u visitors ih =>
      intro m
      obtain ⟨hm, hv⟩ := ih (max m u.streamId)
      refine ⟨(Nat.le_max_left _ _).trans hm, fun v hmem => ?_⟩
      rcases List.mem_cons.mp hmem with rfl | hmem
      · exact (Nat.le_max_right _ _).trans hm
      · exact hv v hmem
  exact (key visitors 0).2 v h

end TunnelDO

/-! ## Isolation -/

namespace TunnelPair

variable {relayable : TunnelDO.Relayable} {co : Coercion} {s t : TunnelPair} {e : PairEvent}
  {uid id : ℕ}

/-- The session uses the stream id for the message of this number, or will once it takes it. -/
def Live (s : TunnelPair) (uid id : ℕ) : Prop :=
  s.session.Uses uid id ∨ s.session.received ≤ uid ∧
    ∃ f, s.relay.relay.frames[uid]? = some f ∧ f.newStream = some id

/-- Ids in use are below the next one, and a bound id is used for what it is bound to. -/
structure Isolated (s : TunnelPair) : Prop where
  sent : s.relay.relay.frames.length = s.relay.relay.sent
  named : s.session.Named (fun _ _ => True) (fun _ _ => True) s.session.received
  below : ∀ uid id, s.Live uid id → id < s.relay.relay.nextStreamId
  bound : ∀ id o, s.relay.relay.Binds id o →
    id < s.relay.relay.nextStreamId ∧ ∀ uid, s.Live uid id → o = some uid
  seen : ∀ e ∈ s.relay.relay.effects, ∀ n, e.source = some n → e.opening = some n

theorem isolated_new : new.Isolated where
  sent := rfl
  named := TunnelSession.named_new
  below uid id h := by
    rcases h with h | ⟨-, f, hf, -⟩
    · exact absurd (TunnelSession.Named.uses (H := fun _ _ => False)
        (TunnelSession.named_new (I := fun _ _ => True)) h) (fun h => h)
    · cases hf
  bound id o h := by
    rcases h with ⟨entry, hg, -⟩ | ⟨v, hv, -⟩
    · cases hg
    · cases hv
  seen e he := by cases he

/-- A frame on its way is of a stream in use. -/
theorem live_of_mem_outbox {sent : Sent} (h : sent ∈ s.session.outbox) :
    s.Live sent.uid sent.frame.streamId :=
  .inl (.inr (.inr (.inr (.inr ⟨sent, h, rfl, rfl⟩))))

theorem Isolated.answers (h : s.Isolated) : s.Answers where
  seen := h.seen
  arriving _ hm _ hb := (h.bound _ _ hb).2 _ (live_of_mem_outbox hm)

/-- What is in use at a hibernation with the condition. -/
theorem Live.le_maxSeen (h : s.Live uid id) (hc : s.CountsOn .hibernate) :
    id ≤ TunnelDO.maxSeen s.relay.relay.visitors := by
  refine hc id (List.mem_append.mpr ?_)
  rcases h with h | ⟨hle, f, hf, hid⟩
  · exact .inl h.mem_idsInUse
  · refine .inr (List.mem_filterMap.mpr ⟨f, ?_, hid⟩)
    refine List.mem_of_getElem? (i := uid - s.session.received) ?_
    unfold unread
    rw [List.getElem?_drop, Nat.add_sub_cancel' hle]
    exact hf

/-- **Session rule.** A step of the session that puts no new id in use. -/
theorem Isolated.session (h : s.Isolated) {session : TunnelSession}
    (hn : session.Named (fun _ _ => True) (fun _ _ => True) session.received)
    (hl : ∀ uid id, ({ s with session } : TunnelPair).Live uid id → s.Live uid id) :
    ({ s with session } : TunnelPair).Isolated where
  sent := h.sent
  named := hn
  below uid id hu := h.below uid id (hl uid id hu)
  bound id o hb := ⟨(h.bound id o hb).1, fun uid hu => (h.bound id o hb).2 uid (hl uid id hu)⟩
  seen := h.seen

theorem Isolated.namedLive (h : s.Isolated) :
    s.session.Named s.Live (fun _ _ => True) s.session.received :=
  h.named.self.mono (fun _ _ hu => .inl hu) fun _ _ => id

theorem Isolated.deliver (h : s.Isolated) {m : Posted}
    (hm : s.relay.relay.outbox[s.session.received]? = some m) (io : Io) :
    ({ s with session := s.session.onMessage co io m.bytes } : TunnelPair).Isolated := by
  have hf : s.relay.relay.frames[s.session.received]? = some m.frame := by
    unfold TunnelDO.frames
    rw [List.getElem?_map, hm]
    rfl
  have hopens : ∀ f, decodeFrame m.bytes = some f →
      TunnelSession.Named.Opens s.Live (fun _ _ => True) s.session.received f := by
    intro f hd
    rw [decodeFrame_encodeFrame m.encoded] at hd
    obtain rfl := Option.some.inj hd
    refine ⟨fun ho i hi => ?_, fun _ _ _ => trivial⟩
    rw [Frame.id_raw (streamId_le_of_encoded m.encoded)] at hi
    obtain rfl := Option.some.inj hi
    refine .inr ⟨Nat.le_refl _, m.frame, hf, Frame.newStream_eq_some.mpr ⟨?_, rfl⟩⟩
    rw [Frame.frameType_raw] at ho
    revert ho
    cases m.frame <;> simp [Frame.frameType, Frame.Opens]
  have hnamed : (s.session.onMessage co io m.bytes).Named s.Live (fun _ _ => True)
      (s.session.received + 1) := h.namedLive.onMessage hopens
  have hr := hnamed.received
  refine h.session (hr ▸ hnamed.mono (fun _ _ _ => trivial) fun _ _ => id) fun uid id hu => ?_
  rcases hu with hu | ⟨hle, hu⟩
  · exact hnamed.uses hu
  · have hle' : (s.session.onMessage co io m.bytes).received ≤ uid := hle
    rw [hr] at hle'
    exact .inr ⟨Nat.le_of_succ_le hle', hu⟩

theorem Isolated.origin (h : s.Isolated) {io : Io} {e : TunnelSession.LocalEvent}
    {session : TunnelSession} (hs : s.session.onLocal co io e = some session) :
    ({ s with session } : TunnelPair).Isolated := by
  have hnamed := h.namedLive.onLocal hs
  have hr := hnamed.received
  refine h.session (hr ▸ hnamed.mono (fun _ _ _ => trivial) fun _ _ => id) fun uid id hu => ?_
  rcases hu with hu | ⟨hle, hu⟩
  · exact hnamed.uses hu
  · exact .inr ⟨hr ▸ hle, hu⟩

/-- **Hibernation rule.** The constructor counts on from every id in use. -/
theorem Isolated.wake (h : s.Isolated) (hc : s.CountsOn .hibernate) : s.wake.Isolated where
  sent := h.sent
  named := h.named
  below uid id hu := Nat.lt_succ_of_le (Live.le_maxSeen (s := s) hu hc)
  bound id o hb := by
    rcases hb with ⟨entry, hg, -⟩ | ⟨v, hv, rfl, ho⟩
    · cases hg
    · exact ⟨Nat.lt_succ_of_le (TunnelDO.le_maxSeen hv),
        (h.bound v.streamId o (.inr ⟨v, hv, rfl, ho⟩)).2⟩
  seen := h.seen

/-- A message that is sent later opens its stream, or one is in use already. -/
theorem live_append {relay : TunnelRelay} {l : List Frame}
    (hf : relay.relay.frames = s.relay.relay.frames ++ l)
    (h : ({ s with relay } : TunnelPair).Live uid id) :
    s.Live uid id ∨ s.relay.relay.frames.length ≤ uid ∧ ∃ f ∈ l, f.newStream = some id := by
  rcases h with h | ⟨hle, f, hget, hid⟩
  · exact .inl (.inl h)
  · dsimp only at hget
    rw [hf] at hget
    rcases getElem?_append_eq_some hget with hget | ⟨hlen, hmem⟩
    · exact .inl (.inr ⟨hle, f, hget, hid⟩)
    · exact .inr ⟨hlen, f, hmem, hid⟩

theorem Isolated.between (h : s.Isolated) {relay : TunnelRelay} {l : List Frame}
    (hp : TunnelDO.Posts l s.relay.relay relay.relay) (hl : ∀ f ∈ l, ¬ f.Opens)
    (hg : TunnelDO.GivesUp TunnelDO.Unanswered s.relay.relay relay.relay) :
    ({ s with relay } : TunnelPair).Isolated := by
  have hlive : ∀ uid id, ({ s with relay } : TunnelPair).Live uid id → s.Live uid id := by
    intro uid id hu
    rcases live_append hp.frames hu with hu | ⟨-, f, hf, hid⟩
    · exact hu
    · exact absurd (Frame.newStream_eq_some.mp hid).1 (hl f hf)
  refine ⟨?_, h.named, fun uid id hu => ?_, fun id o hb => ?_, fun e he n hn => ?_⟩
  · dsimp only
    rw [hp.frames, hp.sent, List.length_append, h.sent]
  · exact hp.next ▸ h.below uid id (hlive uid id hu)
  · obtain ⟨hlt, ho⟩ := h.bound id o (hg.binds id o hb)
    exact ⟨hp.next ▸ hlt, fun uid hu => ho uid (hlive uid id hu)⟩
  · obtain ⟨x, hx, hnone⟩ := hg.effects
    dsimp only at he
    rw [hx] at he
    rcases List.mem_append.mp he with he | he
    · exact h.seen e he n hn
    · have hsource : e.source = none := hnone e he
      rw [hsource] at hn
      cases hn

/-- No stream is opened for a visitor. -/
theorem Isolated.opensNothing (h : s.Isolated) {relay : TunnelRelay}
    (ho : TunnelDO.OpensNothing s.relay.relay relay.relay)
    (hv : TunnelDO.Visits s.relay.relay relay.relay) :
    ({ s with relay } : TunnelPair).Isolated := by
  have hlive : ∀ uid id, ({ s with relay } : TunnelPair).Live uid id → s.Live uid id := by
    intro uid id hu
    rcases live_append (ho.frames.trans (List.append_nil _).symm) hu with hu | ⟨-, f, hf, -⟩
    · exact hu
    · cases hf
  refine ⟨?_, h.named, fun uid id hu => ?_, fun id o hb => ?_, ?_⟩
  · dsimp only
    rw [ho.frames, ho.sent, h.sent]
  · exact (h.below uid id (hlive uid id hu)).trans_le ho.next
  · have hcases : s.relay.relay.Binds id o ∨
        id = s.relay.relay.nextStreamId ∧ id < relay.relay.nextStreamId := by
      rcases hb with ⟨entry, hg, he⟩ | ⟨v, hmem, hid⟩
      · exact (hv.pendingHttp id entry hg).imp (fun hg => .inl ⟨entry, hg, he⟩) fun h => ⟨h.1, h.2.1⟩
      · exact .inl (.inr ⟨v, ho.visitors ▸ hmem, hid⟩)
    rcases hcases with hb | ⟨rfl, hlt⟩
    · obtain ⟨hlt, hbound⟩ := h.bound id o hb
      exact ⟨hlt.trans_le ho.next, fun uid hu => hbound uid (hlive uid id hu)⟩
    · exact ⟨hlt, fun uid hu => absurd (h.below uid _ (hlive uid _ hu)) (lt_irrefl _)⟩
  · dsimp only
    rw [hv.effects]
    exact h.seen

/-- **Opening rule.** A stream is opened under an id that is not in use. -/
theorem Isolated.opensNext (h : s.Isolated) {relay : TunnelRelay} {frame : Frame}
    (ho : TunnelDO.OpensNext frame s.relay.relay relay.relay)
    (hv : TunnelDO.Visits s.relay.relay relay.relay) :
    ({ s with relay } : TunnelPair).Isolated := by
  have hlive : ∀ uid id, ({ s with relay } : TunnelPair).Live uid id → s.Live uid id ∨
      uid = s.relay.relay.sent ∧ id = s.relay.relay.nextStreamId := by
    intro uid id hu
    have hlen : uid < relay.relay.frames.length ∨ s.session.Uses uid id := by
      rcases hu with hu | ⟨-, f, hf, -⟩
      · exact .inr hu
      · exact .inl (List.getElem?_eq_some_iff.mp hf).1
    rcases live_append ho.frames hu with hu | ⟨hle, f, hf, hid⟩
    · exact .inl hu
    · rcases hlen with hlen | hu
      · rw [ho.frames, List.length_append, List.length_singleton] at hlen
        obtain rfl := List.mem_singleton.mp hf
        refine .inr ⟨by have := h.sent; omega, ?_⟩
        exact (Frame.newStream_eq_some.mp hid).2.symm.trans ho.streamId
      · exact .inl (.inl hu)
  refine ⟨?_, h.named, fun uid id hu => ?_, fun id o hb => ?_, ?_⟩
  · dsimp only
    rw [ho.frames, ho.sent, List.length_append, h.sent, List.length_singleton]
  · dsimp only
    rw [ho.next]
    rcases hlive uid id hu with hu | ⟨-, rfl⟩
    · exact (h.below uid id hu).trans (Nat.lt_succ_self _)
    · exact Nat.lt_succ_self _
  · have hcases : s.relay.relay.Binds id o ∨
        id = s.relay.relay.nextStreamId ∧ o = some s.relay.relay.sent := by
      rcases hb with ⟨entry, hg, rfl⟩ | ⟨v, hmem, rfl, rfl⟩
      · rcases hv.pendingHttp id entry hg with hg | ⟨hid, -, hopening⟩
        · exact .inl (.inl ⟨entry, hg, rfl⟩)
        · refine .inr ⟨hid, hopening.resolve_right fun hsent => ?_⟩
          exact absurd (hsent.symm.trans ho.sent) (Nat.lt_succ_self _).ne
      · rcases ho.visitors v hmem with hmem | ⟨hopening, info, hframe⟩
        · exact .inl (.inr ⟨v, hmem, rfl, rfl⟩)
        · refine .inr ⟨?_, congrArg some hopening⟩
          exact ho.streamId ▸ hframe ▸ rfl
    dsimp only
    rw [ho.next]
    rcases hcases with hb | ⟨rfl, rfl⟩
    · obtain ⟨hlt, hbound⟩ := h.bound id o hb
      refine ⟨hlt.trans (Nat.lt_succ_self _), fun uid hu => ?_⟩
      exact hbound uid ((hlive uid id hu).resolve_right fun hid => hlt.ne hid.2)
    · refine ⟨Nat.lt_succ_self _, fun uid hu => ?_⟩
      rcases hlive uid _ hu with hu | ⟨rfl, -⟩
      · exact absurd (h.below uid _ hu) (lt_irrefl _)
      · rfl
  · dsimp only
    rw [hv.effects]
    exact h.seen

theorem Isolated.serves (h : s.Isolated) {relay : TunnelRelay}
    (hs : s.relay.relay.Serves relay.relay) : ({ s with relay } : TunnelPair).Isolated := by
  cases hs with
  | between hp hl hg => exact h.between hp hl hg
  | @visit link r ht =>
    have hv := TunnelDO.visits_proxyGuestRequest s.relay.relay link r
    have hcases := TunnelDO.proxyGuestRequest_cases s.relay.relay link r
    rw [← ht] at hv hcases
    rcases hcases with ho | ⟨frame, -, ho⟩
    · exact h.opensNothing ho hv
    · exact h.opensNext ho hv

/-- **Arrival rule.** A frame reaches the visitor that its stream was opened for. -/
theorem Isolated.arrive (h : s.Isolated) {sent : Sent} {rest : List Sent}
    (hs : s.session.outbox = sent :: rest) : (s.arriveFrame relayable sent rest).Isolated := by
  have hp := TunnelDO.posts_onTunnelFrame relayable s.relay.relay sent.uid sent.frame
  have hg := TunnelDO.givesUp_onTunnelFrame relayable s.relay.relay sent.uid sent.frame
  have hmem : ∀ m ∈ rest, m ∈ s.session.outbox := fun m hm => hs ▸ List.mem_cons_of_mem _ hm
  have hlive : ∀ uid id, (s.arriveFrame relayable sent rest).Live uid id → s.Live uid id := by
    rintro uid id (hu | ⟨hle, f, hf, hid⟩)
    · have hout : (∃ m ∈ rest, m.uid = uid ∧ m.frame.streamId = id) →
          ∃ m ∈ s.session.outbox, m.uid = uid ∧ m.frame.streamId = id :=
        fun ⟨m, hm, h⟩ => ⟨m, hmem m hm, h⟩
      exact .inl (Or.imp_right (Or.imp_right (Or.imp_right (Or.imp_right hout))) hu)
    · refine .inr ⟨hle, f, ?_, hid⟩
      rw [← (hp.frames.trans (List.append_nil _))]
      exact hf
  have hsent : s.Live sent.uid sent.frame.streamId :=
    live_of_mem_outbox (hs ▸ List.mem_cons_self)
  refine ⟨?_, ?_, fun uid id hu => ?_, fun id o hb => ?_, fun e he n hn => ?_⟩
  · exact (congrArg List.length (hp.frames.trans (List.append_nil _))).trans
      (h.sent.trans hp.sent.symm)
  · exact ⟨h.named.received, h.named.http, h.named.ws, h.named.running, h.named.sockets,
      fun _ _ => trivial⟩
  · exact (h.below uid id (hlive uid id hu)).trans_eq hp.next.symm
  · obtain ⟨hlt, ho⟩ := h.bound id o (hg.binds id o hb)
    exact ⟨hlt.trans_eq hp.next.symm, fun uid hu => ho uid (hlive uid id hu)⟩
  · obtain ⟨x, hx, hreply⟩ := hg.effects
    have he' : e ∈ s.relay.relay.effects ++ x := hx ▸ he
    rcases List.mem_append.mp he' with he | he
    · exact h.seen e he n hn
    · obtain ⟨hsource, hb⟩ := hreply e he
      rw [hsource] at hn
      obtain rfl := Option.some.inj hn
      exact (h.bound _ _ hb).2 _ hsent

/-- **Step lemma.** -/
theorem Isolated.step (h : s.Isolated) (hc : s.CountsOn e)
    (ht : step relayable co s e = some t) : t.Isolated := by
  cases Step.of_step ht with
  | relay hs => exact h.serves hs
  | hibernate => exact h.wake hc
  | deliver hm => exact h.deliver hm _
  | origin hs => exact h.origin hs
  | arrive hs => exact h.arrive hs

/-- **Isolation.** In every run whose hibernations count on from the ids in use, what the relay does
with a visitor's request or socket on account of a frame is on account of a frame of that visitor's
own stream. -/
theorem streams_isolated (h : Machine.Reaches (step relayable co) CountsOn new s) : s.Answers :=
  (h.invariant isolated_new fun _ _ _ hs hc ht => hs.step hc ht).answers

/-! ## A socket that survives, and a request that does not -/

/-- Every status can be relayed, and nothing is coerced. -/
def plainStep (s : TunnelPair) (e : PairEvent) : Option TunnelPair :=
  step (fun _ _ => true) TunnelSession.emptyArrays s e

def plainFetch : PairEvent := .relay (.fetch TunnelRelay.plainVisit true)

def plainDeliver : PairEvent := .deliver TunnelSession.calm

/-- The origin answers the request that the message of this number opened. -/
def plainAnswer (uid : ℕ) : PairEvent :=
  .origin TunnelSession.calm (.originResponse uid (some 200) [] [])

/-- A visitor's socket is open at the hibernation; the request after it gets the next id. -/
def socketSurvives : List PairEvent :=
  [.relay (.fetch TunnelSystem.upgradeVisit true), plainDeliver, .hibernate, plainFetch,
    plainDeliver, plainAnswer 1, .arrive]

/-- The relay gives a request up while its origin works, hibernates, and takes another one. -/
def requestReused : List PairEvent :=
  [plainFetch, plainDeliver, .relay (.headTimeout 1), .hibernate, plainFetch, plainAnswer 0, .arrive]

def survivedPair : TunnelPair :=
  (Machine.exec plainStep CountsOn new socketSurvives).get (by decide +kernel)

def reusedPair : TunnelPair :=
  (Machine.exec plainStep (fun _ _ => True) new requestReused).get (by decide +kernel)

theorem streams_isolated_survived :
    Machine.Reaches plainStep CountsOn new survivedPair ∧
      survivedPair.relay.relay.effects.map (fun e => e.source) = [some 1] ∧
      survivedPair.Answers := by
  have hexec : Machine.exec plainStep CountsOn new socketSurvives = some survivedPair :=
    (Option.some_get _).symm
  have hreach : Machine.Reaches plainStep CountsOn new survivedPair :=
    Machine.reaches_of_exec hexec
  exact ⟨hreach, by decide +kernel, streams_isolated hreach⟩

/-- The first visitor's response reaches the second visitor. -/
theorem not_streams_isolated :
    ¬ ∀ (relayable : TunnelDO.Relayable) (co : Coercion) (s : TunnelPair),
      Machine.Reaches (step relayable co) (fun _ _ => True) new s → s.Answers := by
  intro h
  have hexec : Machine.exec plainStep (fun _ _ => True) new requestReused = some reusedPair :=
    (Option.some_get _).symm
  have hreach : Machine.Reaches plainStep (fun _ _ => True) new reusedPair :=
    Machine.reaches_of_exec hexec
  have hanswers := h _ _ _ hreach
  have hmixed : ∃ e ∈ reusedPair.relay.relay.effects, e.source = some 0 ∧ e.opening = some 1 := by
    decide +kernel
  obtain ⟨e, he, hsource, hopening⟩ := hmixed
  exact absurd ((hanswers.seen e he 0 hsource).symm.trans hopening) (by decide)

end TunnelPair

end BbShared
