import BbShared.Conduit
import BbShared.HttpRelay
import BbShared.SessionFrames

/-!
# Messages for visitors

What visitors' sockets are given, against what the origin said on its own.  A message passes two
stages: the session sends it, while it and its socket are live, and the relay hands it on, while the
visitor's socket is open.  Both are conduits, with the session's queue of frames between them.
-/

namespace BbShared

open Js

/-! ## Messages as sockets carry them -/

/-- A message, as it is given to a socket. -/
inductive Payload where
  | text (t : Text)
  | binary (data : Bytes)
  deriving DecidableEq

/-- What a text loses on its way: a byte order mark at its beginning. -/
def dropMark : Text → Text
  | c :: t => if c.toNat = 0xFEFF then t else c :: t
  | [] => []

/-- A message of the origin: a text is its UTF-8. -/
def ofOrigin (m : Bool × Bytes) : Payload :=
  if m.1 then .binary m.2 else .text (dropMark (utf8Decode m.2))

/-- What `onTunnelFrame` gives to the visitor's socket for a `ws-data` frame. -/
def ofRelay (m : Bool × Bytes) : Payload := if m.1 then .binary m.2 else .text (textDecode m.2)

theorem textDecode_eq_dropMark (b : Bytes) : textDecode b = dropMark (utf8Decode b) := rfl

theorem ofRelay_originMessage (m : Bool × Bytes) :
    ofRelay (TunnelSession.originMessage m) = ofOrigin m := by
  obtain ⟨b, data⟩ := m
  cases b with
  | true => rfl
  | false =>
    show Payload.text (textDecode (utf8Encode (utf8Decode data))) = _
    rw [textDecode_eq_dropMark, utf8Decode_encode]
    rfl

/-- What a frame carries of a message. -/
def Frame.payload : Frame → Option (Bool × Bytes)
  | .wsData _ isBinary data => some (isBinary, data)
  | _ => none

theorem payload_of_answers {f : Frame} (h : f.Answers) : f.payload = none := by
  cases f with
  | wsData id isBinary data => exact absurd h fun h => h
  | _ => rfl

/-- What a sent frame carries of the messages of an opening. -/
def Sent.payloadFor (n : ℕ) (m : Sent) : Option (Bool × Bytes) :=
  if m.uid = n then m.frame.payload else none

/-- The messages among the frames of a session. -/
def messagesFor (sent : List Sent) (n : ℕ) : List (Bool × Bytes) := sent.filterMap (·.payloadFor n)

theorem messagesFor_append (l l' : List Sent) (n : ℕ) :
    messagesFor (l ++ l') n = messagesFor l n ++ messagesFor l' n := List.filterMap_append

theorem messagesFor_singleton (m : Sent) (n : ℕ) :
    messagesFor [m] n = (m.payloadFor n).toList := by
  unfold messagesFor
  rw [List.filterMap_cons]
  cases m.payloadFor n <;> rfl

theorem messagesFor_take_succ {sent : List Sent} {k : ℕ} {m : Sent} (hm : sent[k]? = some m)
    (n : ℕ) : messagesFor (sent.take (k + 1)) n =
      messagesFor (sent.take k) n ++ (m.payloadFor n).toList := by
  rw [List.take_add_one, hm, messagesFor_append]
  exact congrArg _ (messagesFor_singleton m n)

theorem messagesFor_take_eq_nil {sent : List Sent} {n : ℕ} (h : messagesFor sent n = []) (k : ℕ) :
    messagesFor (sent.take k) n = [] := by
  have hgrows : messagesFor (sent.take k) n <+: messagesFor sent n :=
    (List.take_prefix k sent).filterMap _
  rw [h] at hgrows
  exact List.prefix_nil.mp hgrows

/-- Answers carry no messages. -/
theorem messagesFor_answers {l : List Sent} (h : ∀ m ∈ l, m.frame.Answers) (n : ℕ) :
    messagesFor l n = [] := by
  refine List.filterMap_eq_nil_iff.mpr fun m hm => ?_
  unfold Sent.payloadFor
  rw [payload_of_answers (h m hm)]
  exact ite_self _

/-- What an action gives to a visitor's socket. -/
def VisitorAction.payload : VisitorAction → Option (Bool × Bytes)
  | .message isBinary data => some (isBinary, data)
  | _ => none

/-- The messages that the visitor of an opening is given. -/
def heardBy (effects : List VisitorEffect) (n : ℕ) : List (Bool × Bytes) :=
  effects.filterMap fun e => if e.opening = some n then e.action.payload else none

theorem heardBy_concat (effects : List VisitorEffect) (e : VisitorEffect) (n : ℕ) :
    heardBy (effects ++ [e]) n =
      heardBy effects n ++ (if e.opening = some n then e.action.payload else none).toList := by
  unfold heardBy
  rw [List.filterMap_append, List.filterMap_cons]
  split <;> rename_i h <;> rw [h] <;> rfl

/-! ## Steps that give no message -/

namespace TunnelDO

variable {d t u : TunnelDO} {relayable : Relayable}

/-- No visitor is given a message, and none joins or opens again. -/
structure Hushes (d t : TunnelDO) : Prop where
  heard : ∀ n, heardBy t.effects n = heardBy d.effects n
  openings : (t.visitors.map VisitorSocket.opening).Sublist (d.visitors.map VisitorSocket.opening)
  opens : ∀ v ∈ t.visitors, v.closing = false → v ∈ d.visitors

theorem hushes_of_visitors (hv : t.visitors = d.visitors)
    (he : ∀ n, heardBy t.effects n = heardBy d.effects n) : Hushes d t where
  heard := he
  openings := by rw [hv]
  opens v h _ := hv ▸ h

theorem hushes_of_eq (hv : t.visitors = d.visitors) (he : t.effects = d.effects) : Hushes d t :=
  hushes_of_visitors hv fun n => by rw [he]

theorem hushes_refl (d : TunnelDO) : Hushes d d := hushes_of_eq rfl rfl

theorem Hushes.trans (h : Hushes d t) (h' : Hushes t u) : Hushes d u where
  heard n := (h'.heard n).trans (h.heard n)
  openings := h'.openings.trans h.openings
  opens v hv ho := h.opens v (h'.opens v hv ho) ho

theorem hushes_foldl {α : Type*} {f : TunnelDO → α → TunnelDO} (h : ∀ a d, Hushes d (f d a))
    (as : List α) (d : TunnelDO) : Hushes d (as.foldl f d) := by
  induction as generalizing d with
  | nil => exact hushes_refl d
  | cons a as ih => exact (h a d).trans (ih _)

theorem hushes_effect (d : TunnelDO) (opening source : Option ℕ) {action : VisitorAction}
    (h : action.payload = none) : Hushes d (d.effect opening source action) := by
  refine hushes_of_visitors rfl fun n => ?_
  unfold effect
  dsimp only
  rw [heardBy_concat, h, ite_self, Option.toList_none, List.append_nil]

theorem hushes_markClosing (d : TunnelDO) (opening : ℕ) : Hushes d (d.markClosing opening) where
  heard _ := rfl
  openings := by
    have hsame : (d.markClosing opening).visitors.map VisitorSocket.opening =
        d.visitors.map VisitorSocket.opening := by
      unfold markClosing
      rw [List.map_map]
      refine List.map_congr_left fun v _ => ?_
      show (if v.opening = opening then { v with closing := true } else v).opening = v.opening
      split_ifs <;> rfl
    rw [hsame]
  opens v hv ho := by
    obtain ⟨w, hw, rfl⟩ := List.mem_map.mp hv
    split_ifs at ho ⊢
    · exact hw

theorem hushes_closeVisitor (d : TunnelDO) (v : VisitorSocket) (source : Option ℕ) (code : ℕ)
    (reason : Text) : Hushes d (d.closeVisitor v source code reason) := by
  unfold closeVisitor
  split_ifs
  · exact hushes_refl d
  · exact (hushes_markClosing d v.opening).trans (hushes_effect _ _ _ rfl)

theorem hushes_trySend {link : TunnelLink} {f : Frame} {b : Bool}
    (h : d.trySend link f = some (b, t)) : Hushes d t := by
  rcases trySend_cases d link f with he | he | ⟨m, -, he⟩
  · rw [he] at h
    cases h
  · obtain ⟨-, rfl⟩ := Prod.mk.inj (Option.some.inj (he.symm.trans h))
    exact hushes_refl d
  · obtain ⟨-, rfl⟩ := Prod.mk.inj (Option.some.inj (he.symm.trans h))
    exact hushes_of_eq rfl rfl

theorem hushes_sendOnly (d : TunnelDO) (link : TunnelLink) (f : Frame) :
    Hushes d (d.sendOnly link f) := by
  unfold sendOnly
  split
  · rename_i h
    exact hushes_trySend h
  · exact hushes_refl d

theorem hushes_pumps (d : TunnelDO) (pumps : List ℕ) : Hushes d { d with pumps } :=
  hushes_of_eq rfl rfl

theorem hushes_pumpChunk (d : TunnelDO) (link : TunnelLink) (id : ℕ) (value : Bytes) :
    Hushes d (d.pumpChunk link id value) := by
  unfold pumpChunk
  split_ifs
  · exact hushes_foldl (fun f d => hushes_sendOnly d link f) _ d
  · exact hushes_refl d
  · exact hushes_pumps d _

theorem hushes_pumpEnd (d : TunnelDO) (link : TunnelLink) (id : ℕ) :
    Hushes d (d.pumpEnd link id) := (hushes_sendOnly d link _).trans (hushes_pumps _ _)

theorem hushes_pumpError (d : TunnelDO) (link : TunnelLink) (id : ℕ) :
    Hushes d (d.pumpError link id) := (hushes_sendOnly d link _).trans (hushes_pumps _ _)

theorem hushes_visitorMessage (d : TunnelDO) (link : TunnelLink) (v : VisitorSocket)
    (isBinary : Bool) (data : Bytes) : Hushes d (d.visitorMessage link v isBinary data) := by
  unfold visitorMessage
  split_ifs
  · split
    · rename_i h
      exact hushes_trySend h
    · rename_i h
      exact (hushes_trySend h).trans (hushes_closeVisitor _ _ _ _ _)
    · exact hushes_refl d
  · exact hushes_closeVisitor _ _ _ _ _

theorem hushes_visitorClose (d : TunnelDO) (link : TunnelLink) (v : VisitorSocket) (code : ℕ)
    (reason : Text) : Hushes d (d.visitorClose link v code reason) := by
  unfold visitorClose
  split_ifs
  · exact (hushes_sendOnly d link _).trans (hushes_closeVisitor _ _ _ _ _)
  · exact hushes_closeVisitor _ _ _ _ _

theorem hushes_pendingHttp (d : TunnelDO) (p : OrderedMap ℕ PendingHttp) :
    Hushes d { d with pendingHttp := p } := hushes_of_eq rfl rfl

theorem hushes_failHttpStream (d : TunnelDO) (id status : ℕ) (message : Text)
    (source : Option ℕ) : Hushes d (d.failHttpStream id status message source) := by
  unfold failHttpStream
  split
  · exact hushes_refl d
  · refine (hushes_pendingHttp d _).trans (hushes_effect _ _ _ ?_)
    split_ifs <;> rfl

theorem hushes_abandonStreams (d : TunnelDO) (httpReason wsReason : Text) :
    Hushes d (d.abandonStreams httpReason wsReason) :=
  (hushes_foldl (fun _ d => hushes_failHttpStream d _ _ _ _) _ d).trans
    (hushes_foldl (fun v d => hushes_closeVisitor d v _ _ _) _ _)

theorem hushes_cancelHttpStream (d : TunnelDO) (link : TunnelLink) (id : ℕ) :
    Hushes d (d.cancelHttpStream link id) := by
  unfold cancelHttpStream
  split
  · exact hushes_refl d
  · dsimp only
    split_ifs
    · exact (hushes_pendingHttp d _).trans (hushes_sendOnly _ _ _)
    · exact hushes_pendingHttp d _

theorem hushes_forgetVisitor (d : TunnelDO) (opening : ℕ) :
    Hushes d (d.forgetVisitor opening) where
  heard _ := rfl
  openings := List.filter_sublist.map _
  opens _ hv _ := List.mem_of_mem_filter hv

theorem hushes_proxyHttp (d : TunnelDO) (link : TunnelLink) (r : VisitorRequest) :
    Hushes d (d.proxyHttp link r).1 := by
  have hopen : ∀ p n, Hushes d { d with nextStreamId := n, pendingHttp := p } :=
    fun _ _ => hushes_of_eq rfl rfl
  unfold proxyHttp
  dsimp only
  split
  · exact hopen _ _
  · rename_i h
    exact ((hopen _ _).trans (hushes_trySend h)).trans (hushes_pendingHttp _ _)
  · rename_i h
    refine ((hopen _ _).trans (hushes_trySend h)).trans ?_
    dsimp only
    split_ifs <;> exact hushes_of_eq rfl rfl

/-- A visitor joins, open, and no other. -/
structure Joins (d t : TunnelDO) : Prop where
  heard : ∀ n, heardBy t.effects n = heardBy d.effects n
  visitors : ∃ v : VisitorSocket, v.opening = d.sent ∧ t.visitors = d.visitors ++ [v]
  sent : d.sent < t.sent

theorem joins_openVisitorWebSocket (d : TunnelDO) (link : TunnelLink) (r : VisitorRequest) :
    Hushes d (d.openVisitorWebSocket link r).1 ∨ Joins d (d.openVisitorWebSocket link r).1 := by
  unfold openVisitorWebSocket
  dsimp only
  rcases trySend_cases { d with nextStreamId := d.nextStreamId + 1 } link
    (.openWs d.nextStreamId r.openWs) with h | h | ⟨m, -, h⟩
  · rw [h]
    exact .inl (hushes_of_eq rfl rfl)
  · rw [h]
    exact .inl (hushes_of_eq rfl rfl)
  · rw [h]
    exact .inr ⟨fun _ => rfl, ⟨_, rfl, rfl⟩, Nat.lt_succ_self _⟩

theorem joins_proxyGuestRequest (d : TunnelDO) (link : TunnelLink) (r : VisitorRequest) :
    Hushes d (d.proxyGuestRequest link r).1 ∨ Joins d (d.proxyGuestRequest link r).1 := by
  unfold proxyGuestRequest
  split_ifs
  · exact joins_openVisitorWebSocket d link r
  · exact .inl (hushes_proxyHttp d link r)
  · exact .inl (hushes_refl d)

/-- A frame that carries no message. -/
theorem hushes_onTunnelFrame (d : TunnelDO) (source : ℕ) {f : Frame} (h : f.payload = none) :
    Hushes d (d.onTunnelFrame relayable source f) := by
  cases f with
  | respHead id status headers =>
    unfold onTunnelFrame onRespHead
    dsimp only
    split
    · exact hushes_refl d
    · split_ifs <;> exact (hushes_pendingHttp d _).trans (hushes_effect _ _ _ rfl)
  | bodyChunk id data =>
    unfold onTunnelFrame onBodyChunk
    dsimp only
    split
    · split_ifs
      · exact hushes_effect _ _ _ rfl
      · exact hushes_refl d
    · exact hushes_refl d
  | bodyEnd id =>
    unfold onTunnelFrame onBodyEnd
    dsimp only
    split
    · split_ifs
      · exact (hushes_pendingHttp d _).trans (hushes_effect _ _ _ rfl)
      · exact hushes_pendingHttp d _
    · exact hushes_refl d
  | closeStream id code reason =>
    unfold onTunnelFrame onCloseStream
    dsimp only
    split_ifs
    · exact hushes_failHttpStream _ _ _ _ _
    · split
      · exact hushes_closeVisitor _ _ _ _ _
      · exact hushes_refl d
  | wsData id isBinary data => cases h
  | wsOpenAck id protocol => exact hushes_refl d
  | openHttp id info => exact hushes_refl d
  | openWs id info => exact hushes_refl d

/-- The visitor of an opening has a socket that is open. -/
def IsOpenFor (d : TunnelDO) (n : ℕ) : Prop :=
  ∃ v ∈ d.visitors, v.opening = n ∧ v.closing = false

theorem Hushes.isOpenFor (h : Hushes d t) {n : ℕ} (ho : t.IsOpenFor n) : d.IsOpenFor n := by
  obtain ⟨v, hv, hn, hc⟩ := ho
  exact ⟨v, h.opens v hv hc, hn, hc⟩

/-- What a frame of the stream that `n` opened does: its message, if any, is given to the visitor of
that stream while its socket is open. -/
structure Hands (n : ℕ) (p : Option (Bool × Bytes)) (d t : TunnelDO) : Prop where
  others : ∀ m, m ≠ n → heardBy t.effects m = heardBy d.effects m
  openings : (t.visitors.map VisitorSocket.opening).Sublist (d.visitors.map VisitorSocket.opening)
  opens : ∀ m, t.IsOpenFor m → d.IsOpenFor m
  own : heardBy t.effects n = heardBy d.effects n ++ p.toList ∧ (p ≠ none → d.IsOpenFor n) ∨
    heardBy t.effects n = heardBy d.effects n ∧ ¬ t.IsOpenFor n

theorem Hushes.hands (h : Hushes d t) (n : ℕ) : Hands n none d t where
  others m _ := h.heard m
  openings := h.openings
  opens _ := h.isOpenFor
  own := .inl ⟨(h.heard n).trans (List.append_nil _).symm, fun hne => absurd rfl hne⟩

/-- **Message rule.** Only the visitor that the stream was opened for has its id. -/
theorem hands_onWsData (hw : d.Wired) (hd : (d.visitors.map VisitorSocket.opening).Nodup)
    {n id : ℕ} {f : Frame} (hn : d.frames[n]? = some f) (ho : f.Opens) (hid : f.streamId = id)
    (isBinary : Bool) (data : Bytes) :
    Hands n (some (isBinary, data)) d (d.onWsData n id isBinary data) := by
  have hown : ∀ v ∈ d.visitors, v.streamId = id → v.opening = n := fun v hv hv' => by
    obtain ⟨info, hopening⟩ := hw.visitors v hv
    exact hw.distinct _ _ _ _ hopening hn trivial ho (hv'.trans hid.symm)
  unfold onWsData visitorSocket
  split
  · rename_i v hv
    have hmem := List.mem_of_find?_eq_some hv
    have hopening := hown v hmem (by simpa using List.find?_some hv)
    split_ifs with hc
    · refine ⟨fun _ _ => rfl, List.Sublist.refl _, fun _ ho => ho, .inr ⟨rfl, ?_⟩⟩
      rintro ⟨w, hw', hwn, hopen⟩
      rw [List.inj_on_of_nodup_map hd hw' hmem (hwn.trans hopening.symm), hc] at hopen
      cases hopen
    · have hheard : ∀ m, heardBy (d.effect (some v.opening) (some n)
          (.message isBinary data)).effects m =
            heardBy d.effects m ++ (if n = m then some (isBinary, data) else none).toList := by
        intro m
        unfold effect
        dsimp only
        rw [heardBy_concat, hopening]
        simp only [Option.some.injEq]
        rfl
      refine ⟨fun m hm => ?_, List.Sublist.refl _, fun _ ho => ho, .inl ⟨?_, fun _ => ?_⟩⟩
      · rw [hheard, if_neg (Ne.symm hm), Option.toList_none, List.append_nil]
      · rw [hheard, if_pos rfl]
      · exact ⟨v, hmem, hopening, Bool.eq_false_of_not_eq_true hc⟩
  · rename_i hnone
    refine ⟨fun _ _ => rfl, List.Sublist.refl _, fun _ ho => ho, .inr ⟨rfl, ?_⟩⟩
    rintro ⟨v, hv, rfl, -⟩
    obtain ⟨info, hopening⟩ := hw.visitors v hv
    obtain rfl := Option.some.inj (hopening.symm.trans hn)
    have hid' : v.streamId = id := hid
    exact absurd hid' (by simpa using List.find?_eq_none.mp hnone v hv)

theorem hands_onTunnelFrame (hw : d.Wired) (hd : (d.visitors.map VisitorSocket.opening).Nodup)
    {n : ℕ} {f g : Frame} (hn : d.frames[n]? = some g) (ho : g.Opens)
    (hid : g.streamId = f.streamId) : Hands n f.payload d (d.onTunnelFrame relayable n f) := by
  cases f with
  | wsData id isBinary data => exact hands_onWsData hw hd hn ho hid isBinary data
  | _ => exact (hushes_onTunnelFrame d n rfl).hands n

/-- What a conduit to the visitors makes of a frame. -/
theorem Hands.conduit {n m : ℕ} {p : Option (Bool × Bytes)} (h : Hands n p d t)
    {input : List (Bool × Bytes)} (hc : Conduit (d.IsOpenFor m) input (heardBy d.effects m)) :
    Conduit (t.IsOpenFor m) (input ++ (if n = m then p else none).toList)
      (heardBy t.effects m) := by
  by_cases hm : n = m
  · subst hm
    rw [if_pos rfl]
    rcases h.own with ⟨heq, hopen⟩ | ⟨heq, hclosed⟩
    · rw [heq]
      cases p with
      | none =>
        rw [Option.toList_none, List.append_nil, List.append_nil]
        exact hc.mono (h.opens n)
      | some p => exact hc.pass (hopen (by simp)) _
    · rw [heq]
      exact hc.swallow hclosed _
  · rw [if_neg hm, Option.toList_none, List.append_nil, h.others m (Ne.symm hm)]
    exact hc.mono (h.opens m)

end TunnelDO

/-- Between frames of the sessions, no visitor is given a message, and at most one joins. -/
theorem TunnelRelay.hushes_of_step {secret : Text} {relayable : TunnelDO.Relayable}
    {s t : TunnelRelay} {e : RelayEvent} (h : step secret relayable s e = some t)
    (he : ∀ tunnel source f, e ≠ .tunnelFrame tunnel source f) :
    TunnelDO.Hushes s.relay t.relay ∨ TunnelDO.Joins s.relay t.relay := by
  cases e with
  | dial r =>
    obtain rfl := Option.some.inj h
    split_ifs
    · exact .inl (TunnelDO.hushes_refl _)
    · exact .inl (TunnelDO.hushes_abandonStreams _ _ _)
  | lose tunnel =>
    obtain rfl := Option.some.inj h
    exact .inl (TunnelDO.hushes_refl _)
  | tunnelFrame tunnel source f => exact absurd rfl (he tunnel source f)
  | tunnelClose tunnel =>
    unfold step at h
    dsimp only at h
    split_ifs at h
    obtain rfl := Option.some.inj h
    unfold tunnelClose
    dsimp only
    split_ifs
    · exact .inl (TunnelDO.hushes_refl _)
    · exact .inl (TunnelDO.hushes_abandonStreams _ _ _)
  | fetch r sends =>
    obtain rfl := Option.some.inj h
    split_ifs
    · exact .inl (TunnelDO.hushes_refl _)
    · exact TunnelDO.joins_proxyGuestRequest _ _ _
  | pumpChunk id value sends =>
    obtain rfl := Option.some.inj h
    exact .inl (TunnelDO.hushes_pumpChunk _ _ _ _)
  | pumpEnd id sends =>
    obtain rfl := Option.some.inj h
    exact .inl (TunnelDO.hushes_pumpEnd _ _ _)
  | pumpError id sends =>
    obtain rfl := Option.some.inj h
    exact .inl (TunnelDO.hushes_pumpError _ _ _)
  | visitorMessage n isBinary data sends =>
    obtain ⟨v, -, rfl⟩ := Option.map_eq_some_iff.mp h
    exact .inl (TunnelDO.hushes_visitorMessage _ _ _ _ _)
  | visitorClose n code reason sends =>
    obtain ⟨v, -, rfl⟩ := Option.map_eq_some_iff.mp h
    exact .inl (TunnelDO.hushes_visitorClose _ _ _ _ _)
  | visitorGone n =>
    obtain rfl := Option.some.inj h
    exact .inl (TunnelDO.hushes_forgetVisitor _ _)
  | headTimeout id =>
    obtain ⟨d, hd, rfl⟩ := Option.map_eq_some_iff.mp h
    unfold TunnelDO.headTimeout at hd
    split at hd
    · split_ifs at hd
      obtain rfl := Option.some.inj hd
      exact .inl (TunnelDO.hushes_failHttpStream _ _ _ _ _)
    · cases hd
  | cancel id sends =>
    unfold step at h
    dsimp only at h
    split at h
    · split_ifs at h
      obtain rfl := Option.some.inj h
      exact .inl (TunnelDO.hushes_cancelHttpStream _ _ _)
    · cases h

namespace TunnelSystem

variable {secret : Text} {relayable : TunnelDO.Relayable} {co : Coercion} {s t : TunnelSystem}
  {e : SystemEvent} {said : ℕ → List (Bool × Bytes)} {i : ℕ} {c : Client}

/-- What the origin says, by the openings of its sockets. -/
def voice (_ : TunnelSystem) (e : SystemEvent) (_ : TunnelSystem)
    (said : ℕ → List (Bool × Bytes)) : ℕ → List (Bool × Bytes) :=
  match e with
  | .origin _ _ (.socketMessage uid isBinary data) => hear said uid (isBinary, data)
  | _ => said

/-! ## The invariant -/

/-- The session sends what the origin says on the streams of its messages, and the relay hands on
what has arrived. -/
structure Voices (s : TunnelSystem) (said : ℕ → List (Bool × Bytes)) (i : ℕ) (c : Client) :
    Prop where
  named : c.session.Named (s.Opened c.start c.session.received) (fun _ _ => True)
    c.session.received
  arrived : c.arrived ≤ c.session.outbox.length
  sends : ∀ n, s.Owns i c n → Conduit (c.session.disposed = false ∧ c.down = false)
    ((said n).map TunnelSession.originMessage) (messagesFor c.session.outbox n)
  passes : ∀ n, s.Owns i c n → Conduit (s.relay.relay.IsOpenFor n)
    (messagesFor (c.session.outbox.take c.arrived) n) (heardBy s.relay.relay.effects n)

structure Voiced (s : TunnelSystem) (said : ℕ → List (Bool × Bytes)) : Prop where
  sound : s.Sound
  distinct : (s.relay.relay.visitors.map VisitorSocket.opening).Nodup
  unsaid : ∀ n, s.relay.relay.sent ≤ n → said n = []
  unheard : ∀ n, s.relay.relay.sent ≤ n → heardBy s.relay.relay.effects n = []
  first : ∀ n, heardBy s.relay.relay.effects n <+: (said n).map TunnelSession.originMessage
  client : ∀ i c, s.clients[i]? = some c → s.Voices said i c

theorem voiced_new : new.Voiced fun _ => [] where
  sound := sound_new
  distinct := List.nodup_nil
  unsaid _ _ := rfl
  unheard _ _ := rfl
  first _ := List.prefix_rfl
  client _ _ h := by cases h

/-- A session sends nothing for an opening that it has not taken. -/
theorem Voices.messagesFor_eq_nil (h : s.Voices said i c) {n : ℕ} (hn : c.session.received ≤ n) :
    messagesFor c.session.outbox n = [] := by
  refine List.filterMap_eq_nil_iff.mpr fun m hm => if_neg ?_
  rintro rfl
  exact absurd (h.named.outbox m hm).2.1 (Nat.not_lt.mpr hn)

/-- The two stages with the queue between them. -/
theorem Voices.conduit (h : s.Voices said i c) {n : ℕ} (hn : s.Owns i c n) :
    Conduit (((c.session.disposed = false ∧ c.down = false) ∧
        c.session.outbox.length ≤ c.arrived) ∧ s.relay.relay.IsOpenFor n)
      ((said n).map TunnelSession.originMessage) (heardBy s.relay.relay.effects n) :=
  ((h.sends n hn).trans ((Conduit.take _ _).filterMap _)).trans (h.passes n hn)

/-! ## Steps of the relay -/

/-- **Relay rule.** Frames are sent, a visitor may join and a client may begin. -/
theorem Voiced.relay (h : s.Voiced said) (hsound : t.Sound)
    (hr : TunnelDO.Hushes s.relay.relay t.relay.relay ∨ TunnelDO.Joins s.relay.relay t.relay.relay)
    (hf : ∃ l, t.frames = s.frames ++ l) (hs : s.relay.relay.sent ≤ t.relay.relay.sent)
    (hlim : ∀ i n, n < s.relay.relay.sent → n < t.limit i → n < s.limit i)
    (hclients : ∀ i c, t.clients[i]? = some c → s.clients[i]? = some c ∨ t.Voices said i c) :
    t.Voiced said := by
  obtain ⟨l, hf⟩ := hf
  have hheard : ∀ n, heardBy t.relay.relay.effects n = heardBy s.relay.relay.effects n :=
    fun n => hr.elim (fun hr => hr.heard n) fun hr => hr.heard n
  have hopen : ∀ n < s.relay.relay.sent, t.relay.relay.IsOpenFor n →
      s.relay.relay.IsOpenFor n := by
    intro n hn ho
    rcases hr with hr | hr
    · exact hr.isOpenFor ho
    · obtain ⟨v, hv, hvs⟩ := hr.visitors
      obtain ⟨w, hw, rfl, hc⟩ := ho
      rw [hvs] at hw
      rcases List.mem_append.mp hw with hw | hw
      · exact ⟨w, hw, rfl, hc⟩
      · rw [List.mem_singleton.mp hw, hv] at hn
        exact absurd hn (Nat.lt_irrefl _)
  refine ⟨hsound, ?_, fun n hn => h.unsaid n (hs.trans hn), fun n hn => ?_, fun n => ?_,
    fun i c hc => ?_⟩
  · rcases hr with hr | hr
    · exact h.distinct.sublist hr.openings
    · obtain ⟨v, hv, hvs⟩ := hr.visitors
      rw [hvs, List.map_append]
      refine List.nodup_append.mpr ⟨h.distinct, List.nodup_singleton _, ?_⟩
      rintro n hn m hm rfl
      obtain ⟨w, hw, rfl⟩ := List.mem_map.mp hn
      obtain ⟨info, ho⟩ := h.sound.wired.visitors w hw
      have hlt := h.sound.wired.sent ▸ (List.getElem?_eq_some_iff.mp ho).1
      rw [List.mem_singleton.mp hm, hv] at hlt
      exact Nat.lt_irrefl _ hlt
  · rw [hheard]
    exact h.unheard n (hs.trans hn)
  · rw [hheard]
    exact h.first n
  · rcases hclients i c hc with hc | hv
    · have hv := h.client i c hc
      have hreceived : c.session.received ≤ s.relay.relay.sent :=
        h.sound.wired.sent ▸ h.sound.received_le hc
      -- What was sent since belongs to no message of the session.
      have hnew : ∀ n, s.relay.relay.sent ≤ n → messagesFor c.session.outbox n = [] :=
        fun n hn => hv.messagesFor_eq_nil (hreceived.trans hn)
      refine ⟨hv.named.mono (fun _ _ => Opened.append hf) fun _ _ => id, hv.arrived,
        fun n hn => ?_, fun n hn => ?_⟩
      · rcases lt_or_ge n s.relay.relay.sent with hlt | hge
        · exact hv.sends n ⟨hn.1, hlim i n hlt hn.2⟩
        · rw [h.unsaid n hge, hnew n hge]
          exact Conduit.refl _
      · rw [hheard]
        rcases lt_or_ge n s.relay.relay.sent with hlt | hge
        · exact (hv.passes n ⟨hn.1, hlim i n hlt hn.2⟩).mono (hopen n hlt)
        · rw [h.unheard n hge, messagesFor_take_eq_nil (hnew n hge)]
          exact Conduit.refl _
    · exact hv

/-- A dial that is accepted: its client has said nothing. -/
theorem Voiced.accept (h : s.Voiced said) : s.accept.Voiced said := by
  have hs : s.accept.relay.relay.sent = s.relay.relay.sent := sent_accept s
  refine h.relay h.sound.accept (.inl (TunnelDO.hushes_abandonStreams _ _ _))
    ⟨[], (frames_accept s).trans (List.append_nil _).symm⟩ hs.ge
    (fun i n _ hlt => limit_accept s i ▸ hlt) fun i c hc => ?_
  rcases getElem?_append_eq_some hc with hc | ⟨hlen, hc⟩
  · exact .inl hc
  · obtain rfl := List.mem_singleton.mp hc
    have hlimit : s.accept.limit i = s.relay.relay.sent := by
      rw [limit_accept, limit_eq, List.getElem?_eq_none (by omega)]
      rfl
    have hnone : ∀ n, ¬ s.accept.Owns i s.newClient n := fun n hn => by
      have hlt : n < s.relay.relay.sent := hlimit ▸ hn.2
      exact absurd hlt (Nat.not_lt.mpr hn.1)
    exact .inr ⟨⟨rfl, nofun, nofun, nofun, nofun, nofun⟩, Nat.le_refl _,
      fun n hn => absurd hn (hnone n), fun n hn => absurd hn (hnone n)⟩

theorem Voiced.relayStep (h : s.Voiced said) {e : RelayEvent} (hok : s.Ok (.relay e))
    (ht : step secret relayable co s (.relay e) = some t) : t.Voiced said := by
  have hsound := h.sound.step hok ht
  obtain ⟨hne, relay, hstep, rfl⟩ := step_relay_eq_some ht
  rcases TunnelRelay.Sends.of_step hstep hne with ⟨⟨r, rfl⟩, rfl⟩ | hsends
  · rw [setRelay_acceptTunnel]
    exact h.accept
  · rw [setRelay_of_sends hsends] at hsound ⊢
    obtain ⟨l, hl, hsent⟩ := hsends.grows
    exact h.relay hsound (TunnelRelay.hushes_of_step hstep hne) ⟨l, hl⟩
      (hsent ▸ Nat.le_add_right _ _) (fun i n => lt_limit_of_relay) fun i c hc => .inl hc

/-! ## Steps of the sessions -/

/-- **Frame rule.** Only the messages of a client's own streams matter to it. -/
theorem Voices.other {said' : ℕ → List (Bool × Bytes)} (h : s.Voices said i c)
    (hf : t.frames = s.frames) (hlim : t.limit i = s.limit i)
    (hsaid : ∀ n, s.Owns i c n → said' n = said n)
    (hopen : ∀ n, t.relay.relay.IsOpenFor n → s.relay.relay.IsOpenFor n)
    (hheard : ∀ n, s.Owns i c n →
      heardBy t.relay.relay.effects n = heardBy s.relay.relay.effects n) :
    t.Voices said' i c := by
  have hf' : t.frames = s.frames ++ [] := hf.trans (List.append_nil _).symm
  have howns : ∀ n, t.Owns i c n → s.Owns i c n := fun n hn => ⟨hn.1, hlim ▸ hn.2⟩
  refine ⟨h.named.mono (fun _ _ => Opened.append hf') fun _ _ => id, h.arrived, fun n hn => ?_,
    fun n hn => ?_⟩
  · rw [hsaid n (howns n hn)]
    exact h.sends n (howns n hn)
  · rw [hheard n (howns n hn)]
    exact (h.passes n (howns n hn)).mono (hopen n)

/-- A step of a session. -/
theorem Voiced.setClient {said' : ℕ → List (Bool × Bytes)} (h : s.Voiced said)
    (hc : s.clients[i]? = some c) {c' : Client} (hs : c'.start = c.start)
    (hsound : (s.setClient i c').Sound) (hsaid : ∀ n, ¬ s.Owns i c n → said' n = said n)
    (hgrows : ∀ n, said n <+: said' n) (hown : (s.setClient i c').Voices said' i c') :
    (s.setClient i c').Voiced said' where
  sound := hsound
  distinct := h.distinct
  unsaid n hn := by
    rw [hsaid n fun howns => absurd (howns.2.trans_le (h.sound.limit_le i)) (Nat.not_lt.mpr hn)]
    exact h.unsaid n hn
  unheard := h.unheard
  first n := (h.first n).trans ((hgrows n).map _)
  client j d hd := by
    rw [getElem?_setClient hc] at hd
    split_ifs at hd with hij
    · obtain rfl := Option.some.inj hd
      exact hij ▸ hown
    · refine (h.client j d hd).other rfl (limit_setClient hc hs j) (fun n hn => hsaid n ?_)
        (fun _ => id) fun _ _ => rfl
      exact fun howns => hij (h.sound.disjoint hd hc hn howns)

/-- A session that sends answers only. -/
theorem Voiced.emits (h : s.Voiced said) (hc : s.clients[i]? = some c) {session : TunnelSession}
    (he : TunnelSession.Emits c.session session)
    (hnamed : session.Named (s.Opened c.start session.received) (fun _ _ => True) session.received)
    (hsound : (s.setClient i { c with session }).Sound) :
    (s.setClient i { c with session }).Voiced said := by
  have hv := h.client i c hc
  have hlimit := limit_setClient hc (show ({ c with session } : Client).start = c.start from rfl) i
  obtain ⟨l, hl, ha⟩ := he.outbox
  have hgrows : c.session.outbox <+: session.outbox := hl ▸ List.prefix_append _ _
  refine h.setClient hc rfl hsound (fun _ _ => rfl) (fun _ => List.prefix_rfl)
    ⟨hnamed, hv.arrived.trans hgrows.length_le, fun n hn => ?_, fun n hn => ?_⟩
  · show Conduit (session.disposed = false ∧ c.down = false) _ (messagesFor session.outbox n)
    rw [hl, messagesFor_append, messagesFor_answers ha, List.append_nil]
    refine (hv.sends n ⟨hn.1, hlimit ▸ hn.2⟩).mono fun hw => ⟨?_, hw.2⟩
    by_contra hd
    exact absurd ((he.disposed (Bool.eq_true_of_not_eq_false hd)).symm.trans hw.1) (by decide)
  · show Conduit _ (messagesFor (session.outbox.take c.arrived) n) _
    rw [take_prefix_eq hgrows hv.arrived]
    exact hv.passes n ⟨hn.1, hlimit ▸ hn.2⟩

/-- What a session has opened once it takes its next message. -/
theorem Voices.deliver (h : s.Voices said i c) (hs : s.Sound) (hc : s.clients[i]? = some c)
    {io : Io} {m : Message} (hf : s.frames[c.session.received]? = some m.frame) :
    (c.session.onMessage co io m.bytes).Named (s.Opened c.start (c.session.received + 1))
      (fun _ _ => True) (c.session.received + 1) := by
  have hmono : c.session.Named (s.Opened c.start (c.session.received + 1)) (fun _ _ => True)
      c.session.received :=
    h.named.mono (fun _ _ ⟨hstart, hstop, ho⟩ => ⟨hstart, Nat.lt_succ_of_lt hstop, ho⟩)
      fun _ _ => id
  refine hmono.onMessage fun f hd => ⟨fun ho j hj => ?_, fun _ _ _ => trivial⟩
  rw [decodeFrame_encodeFrame m.encoded] at hd
  obtain rfl := Option.some.inj hd
  rw [Frame.id_raw (streamId_le_of_encoded m.encoded)] at hj
  obtain rfl := Option.some.inj hj
  refine ⟨(hs.client _ c hc).started, Nat.lt_succ_self _, m.frame, hf, ?_, rfl⟩
  rw [Frame.frameType_raw] at ho
  revert ho
  cases m.frame <;> simp [Frame.frameType, Frame.Opens]

/-- **Delivery rule.** -/
theorem Voiced.deliver (h : s.Voiced said) (hc : s.clients[i]? = some c) {io : Io} {m : Posted}
    (hm : s.relay.relay.outbox[c.session.received]? = some m)
    (hsound : (s.setClient i { c with session := c.session.onMessage co io m.bytes }).Sound) :
    (s.setClient i { c with session := c.session.onMessage co io m.bytes }).Voiced said := by
  have hf : s.frames[c.session.received]? = some m.frame := by
    unfold frames TunnelDO.frames
    rw [List.getElem?_map, hm]
    rfl
  have hnamed : (c.session.onMessage co io m.bytes).Named
      (s.Opened c.start (c.session.received + 1)) (fun _ _ => True) (c.session.received + 1) :=
    (h.client i c hc).deliver h.sound hc hf
  refine h.emits hc (TunnelSession.emits_onMessage _ _) ?_ hsound
  rw [hnamed.received]
  exact hnamed

/-- The origin says something, and the session sends it or not. -/
theorem Voiced.hears (h : s.Voiced said) (hc : s.clients[i]? = some c) {session : TunnelSession}
    {uid : ℕ} (huid : s.Owns i c uid) (m : Bool × Bytes)
    (hnamed : session.Named (s.Opened c.start session.received) (fun _ _ => True) session.received)
    (hsound : (s.setClient i { c with session }).Sound)
    (hgrows : c.session.outbox <+: session.outbox)
    (hsends : ∀ n, s.Owns i c n → Conduit (session.disposed = false ∧ c.down = false)
      ((hear said uid m n).map TunnelSession.originMessage) (messagesFor session.outbox n)) :
    (s.setClient i { c with session }).Voiced (hear said uid m) := by
  have hv := h.client i c hc
  have hlimit := limit_setClient hc (show ({ c with session } : Client).start = c.start from rfl) i
  refine h.setClient hc rfl hsound (fun n hn => TunnelSession.hear_of_ne ?_ _)
    (TunnelSession.prefix_hear said uid m)
    ⟨hnamed, hv.arrived.trans hgrows.length_le, fun n hn => hsends n ⟨hn.1, hlimit ▸ hn.2⟩,
      fun n hn => ?_⟩
  · rintro rfl
    exact hn huid
  · show Conduit _ (messagesFor (session.outbox.take c.arrived) n) _
    rw [take_prefix_eq hgrows hv.arrived]
    exact hv.passes n ⟨hn.1, hlimit ▸ hn.2⟩

/-- A session that is done swallows what the origin says. -/
theorem Voices.swallow (h : s.Voices said i c) {session : TunnelSession}
    (ho : session.outbox = c.session.outbox)
    (hdone : ¬ (session.disposed = false ∧ c.down = false)) (uid : ℕ) (m : Bool × Bytes) {n : ℕ}
    (hn : s.Owns i c n) : Conduit (session.disposed = false ∧ c.down = false)
      ((hear said uid m n).map TunnelSession.originMessage) (messagesFor session.outbox n) := by
  rw [ho]
  by_cases he : n = uid
  · subst he
    rw [TunnelSession.hear_self, List.map_append]
    exact (h.sends n hn).swallow hdone _
  · rw [TunnelSession.hear_of_ne he]
    exact (h.sends n hn).mono fun hw => absurd hw hdone

/-- **Origin rule.** What the origin says is sent, or the session or its socket is done. -/
theorem Voiced.origin (h : s.Voiced said) (hc : s.clients[i]? = some c) {io : Io}
    {e : TunnelSession.LocalEvent} {session : TunnelSession} (hlink : s.LinkOk i io)
    (hs : c.session.onLocal co io e = some session)
    (hsound : (s.setClient i { c with session }).Sound) :
    (s.setClient i { c with session }).Voiced (voice s (.origin i io e) t said) := by
  have hv := h.client i c hc
  have hnamed : session.Named (s.Opened c.start session.received) (fun _ _ => True)
      session.received := by
    have hlocal := hv.named.onLocal hs
    rw [hlocal.received]
    exact hlocal
  by_cases he : ∀ uid b data, e ≠ .socketMessage uid b data
  · have hvoice : voice s (.origin i io e) t said = said := by
      cases e with
      | socketMessage uid b data => exact absurd rfl (he uid b data)
      | _ => rfl
    rw [hvoice]
    exact h.emits hc (TunnelSession.emits_onLocal he hs) hnamed hsound
  push Not at he
  obtain ⟨uid, b, data, rfl⟩ := he
  have huid : s.Owns i c uid := by
    obtain ⟨k, hk, -⟩ := Option.bind_eq_some_iff.mp hs
    have hk' : k.uid = uid ∧ k.opened = true := by simpa using List.find?_some hk
    exact hk'.1 ▸ (hv.named.sockets k (List.mem_of_find?_eq_some hk)).owns h.sound hc
  have hdown : c.down = true ↔ io.link c.session.outbox.length = .closed := (hlink c hc _).symm
  cases TunnelSession.forwards_socketMessage hs with
  | @sent k hk hu hd hl =>
    have hup : c.down = false := Bool.eq_false_of_not_eq_true fun hclosed => by
      rw [hdown, hl] at hclosed
      cases hclosed
    refine h.hears hc huid (b, data) hnamed hsound (List.prefix_append _ _) fun n hn => ?_
    show Conduit _ _ (messagesFor (c.session.outbox ++ [_]) n)
    rw [messagesFor_append, messagesFor_singleton]
    unfold Sent.payloadFor
    by_cases hn' : n = uid
    · subst hn'
      rw [if_pos rfl, TunnelSession.hear_self, List.map_append]
      exact (hv.sends n hn).pass ⟨hd, hup⟩ _
    · rw [if_neg (Ne.symm hn'), TunnelSession.hear_of_ne hn', Option.toList_none, List.append_nil]
      exact hv.sends n hn
  | disposed =>
    have ho : c.session.dispose.outbox = c.session.outbox := TunnelSession.outbox_dispose _
    refine h.hears hc huid (b, data) hnamed hsound (ho ▸ List.prefix_rfl) fun n hn => ?_
    refine hv.swallow ho (fun hw => ?_) uid (b, data) hn
    rw [TunnelSession.disposed_dispose] at hw
    exact absurd hw.1 (by decide)
  | closed hclosed =>
    refine h.hears hc huid (b, data) hnamed hsound List.prefix_rfl fun n hn => ?_
    refine hv.swallow rfl (fun hw => ?_) uid (b, data) hn
    rcases hclosed with hd | hl
    · exact absurd (hd.symm.trans hw.1) (by decide)
    · exact absurd ((hdown.mpr hl).symm.trans hw.2) (by decide)

/-! ## Frames of the sessions -/

theorem limit_arrive (hc : s.clients[i]? = some c) {sent : Sent} (j : ℕ) :
    ((s.arriveFrame relayable sent).setClient i { c with arrived := c.arrived + 1 }).limit j =
      s.limit j := by
  have hset : ((s.arriveFrame relayable sent).setClient i
      { c with arrived := c.arrived + 1 }).limit j = (s.arriveFrame relayable sent).limit j :=
    limit_setClient (s := s.arriveFrame relayable sent) hc
      (show ({ c with arrived := c.arrived + 1 } : Client).start = c.start from rfl) j
  rw [hset, limit_eq, limit_eq]
  exact congrArg _ (TunnelDO.posts_onTunnelFrame relayable s.relay.relay sent.uid sent.frame).sent

/-- **Arrival rule.** A message is handed on to its visitor, if the visitor's socket is open. -/
theorem Voiced.arrive (h : s.Voiced said) (hc : s.clients[i]? = some c) {sent : Sent}
    (hs : c.session.outbox[c.arrived]? = some sent)
    (hsound : ((s.arriveFrame relayable sent).setClient i
      { c with arrived := c.arrived + 1 }).Sound) :
    ((s.arriveFrame relayable sent).setClient i { c with arrived := c.arrived + 1 }).Voiced
      said := by
  have hv := h.client i c hc
  have hmem := List.mem_of_getElem? hs
  obtain ⟨hstart, hstop, f, hf, hopens, hid⟩ := hv.named.outbox sent hmem
  have huid : s.Owns i c sent.uid := (hv.named.outbox sent hmem).owns h.sound hc
  have hposts := TunnelDO.posts_onTunnelFrame relayable s.relay.relay sent.uid sent.frame
  have hhands : TunnelDO.Hands sent.uid sent.frame.payload s.relay.relay
      (s.relay.relay.onTunnelFrame relayable sent.uid sent.frame) :=
    TunnelDO.hands_onTunnelFrame h.sound.wired h.distinct hf hopens hid
  have hframes : ((s.arriveFrame relayable sent).setClient i
      { c with arrived := c.arrived + 1 }).frames = s.frames :=
    hposts.frames.trans (List.append_nil _)
  have hsent : (s.relay.relay.onTunnelFrame relayable sent.uid sent.frame).sent =
      s.relay.relay.sent := hposts.sent
  have hlimit : ∀ j, ((s.arriveFrame relayable sent).setClient i
      { c with arrived := c.arrived + 1 }).limit j = s.limit j :=
    limit_arrive hc
  have hown : ((s.arriveFrame relayable sent).setClient i
      { c with arrived := c.arrived + 1 }).Voices said i { c with arrived := c.arrived + 1 } := by
    have hf' : ((s.arriveFrame relayable sent).setClient i
        { c with arrived := c.arrived + 1 }).frames = s.frames ++ [] :=
      hframes.trans (List.append_nil _).symm
    refine ⟨hv.named.mono (fun _ _ => Opened.append hf') fun _ _ => id,
      (List.getElem?_eq_some_iff.mp hs).1, fun n hn => hv.sends n ⟨hn.1, hlimit i ▸ hn.2⟩,
      fun n hn => ?_⟩
    show Conduit _ (messagesFor (c.session.outbox.take (c.arrived + 1)) n) _
    rw [messagesFor_take_succ hs]
    exact hhands.conduit (hv.passes n ⟨hn.1, hlimit i ▸ hn.2⟩)
  refine ⟨hsound, h.distinct.sublist hhands.openings, fun n hn => h.unsaid n (hsent ▸ hn),
    fun n hn => ?_, fun n => ?_, fun j d hd => ?_⟩
  · have hn' : s.relay.relay.sent ≤ n := hsent ▸ hn
    refine (hhands.others n ?_).trans (h.unheard n hn')
    rintro rfl
    exact absurd (huid.2.trans_le (h.sound.limit_le i)) (Nat.not_lt.mpr hn')
  · by_cases hn : n = sent.uid
    · subst hn
      exact (hown.conduit ⟨huid.1, (hlimit i).symm ▸ huid.2⟩).first
    · exact (hhands.others n hn).symm ▸ h.first n
  · have hd' := hd
    rw [getElem?_setClient (s := s.arriveFrame relayable sent) hc] at hd'
    split_ifs at hd' with hij
    · obtain rfl := Option.some.inj hd'
      exact hij ▸ hown
    · refine (h.client j d hd').other hframes (hlimit j) (fun _ _ => rfl) hhands.opens
        fun n hn => hhands.others n ?_
      rintro rfl
      exact hij (h.sound.disjoint hd' hc hn huid)

/-! ## The law -/

/-- **Step lemma.** -/
theorem Voiced.step (h : s.Voiced said) (hok : s.Ok e)
    (ht : step secret relayable co s e = some t) : t.Voiced (voice s e t said) := by
  have hsound := h.sound.step hok ht
  cases e with
  | relay e => exact h.relayStep hok ht
  | deliver tunnel io =>
    cases Step.of_step ht with
    | deliver hc hlt hm => exact h.deliver hc hm hsound
  | origin tunnel io e =>
    cases Step.of_step ht with
    | origin hc hs => exact h.origin hc hok hs hsound
  | arrive tunnel =>
    cases Step.of_step ht with
    | arrive hc hs => exact h.arrive hc hs hsound
  | drop tunnel =>
    cases Step.of_step ht with
    | @drop tunnel c hc =>
      have hv := h.client tunnel c hc
      have hlimit := limit_setClient hc
        (show ({ c with down := true } : Client).start = c.start from rfl) tunnel
      exact h.setClient hc rfl hsound (fun _ _ => rfl) (fun _ => List.prefix_rfl)
        ⟨hv.named, hv.arrived,
          fun n hn => (hv.sends n ⟨hn.1, hlimit ▸ hn.2⟩).mono fun hw => absurd hw.2 (by simp),
          fun n hn => hv.passes n ⟨hn.1, hlimit ▸ hn.2⟩⟩

/-- Nothing that the origin says on a stream is lost: the session and its socket are live, all that
the session sent has arrived, and the visitor's socket is open. -/
structure Unbroken (s : TunnelSystem) (i : ℕ) (c : Client) (n : ℕ) : Prop where
  client : s.clients[i]? = some c
  owns : s.Owns i c n
  live : c.session.disposed = false ∧ c.down = false
  arrived : c.arrived = c.session.outbox.length
  isOpen : s.relay.relay.IsOpenFor n

/-- **Delivery to visitors.** In every run of an instance, over any tunnels, a visitor's socket is
given a beginning of what the origin said on its own socket, in order, and all of it where nothing
is broken.  A text loses at most a byte order mark at its beginning. -/
theorem origin_messages_heard {p : TunnelSystem × (ℕ → List (Bool × Bytes))}
    (h : Machine.Reaches (Machine.observed (step secret relayable co) voice) (fun p e => p.1.Ok e)
      (new, fun _ => []) p) :
    (∀ n, (heardBy p.1.relay.relay.effects n).map ofRelay <+: (p.2 n).map ofOrigin) ∧
      ∀ i c n, p.1.Unbroken i c n →
        (heardBy p.1.relay.relay.effects n).map ofRelay = (p.2 n).map ofOrigin := by
  have hv : p.1.Voiced p.2 := by
    refine h.invariant (I := fun p => p.1.Voiced p.2) voiced_new ?_
    intro p e q hp hok ht
    obtain ⟨hstep, hnote⟩ := Machine.observed_eq_some.mp ht
    rw [hnote]
    exact hp.step hok hstep
  have hread : ∀ n, (p.2 n).map ofOrigin =
      ((p.2 n).map TunnelSession.originMessage).map ofRelay := fun n => by
    rw [List.map_map]
    exact List.map_congr_left fun m _ => (ofRelay_originMessage m).symm
  refine ⟨fun n => hread n ▸ (hv.first n).map ofRelay, fun i c n hu => ?_⟩
  rw [hread]
  exact congrArg _ (((hv.client i c hu.client).conduit hu.owns).whole
    ⟨⟨hu.live, hu.arrived.ge⟩, hu.isOpen⟩)

/-! ## Two messages over one tunnel -/

def plainVoice (p : TunnelSystem × (ℕ → List (Bool × Bytes))) (e : PlainEvent) :
    Option (TunnelSystem × (ℕ → List (Bool × Bytes))) :=
  Machine.observed guestStep voice p e.event

/-- A socket of the origin says a text, with a byte order mark, and a byte. -/
def spokenEvents : List PlainEvent :=
  [.relay (.dial TunnelRelay.plainDial), .relay (.fetch upgradeVisit true), .deliver,
    .origin (.socketOpen 0 none), .origin (.socketMessage 0 false [0xEF, 0xBB, 0xBF, 104]),
    .origin (.socketMessage 0 true [7]), .arrive, .arrive, .arrive]

def originSpoken : TunnelSystem × (ℕ → List (Bool × Bytes)) :=
  (Machine.exec plainVoice (fun p e => p.1.visitOk e) (new, fun _ => []) spokenEvents).get
    (by decide +kernel)

theorem origin_messages_heard_spoken :
    Machine.Reaches (Machine.observed guestStep voice) (fun p e => p.1.Ok e) (new, fun _ => [])
        originSpoken ∧
      (∃ c, originSpoken.1.Unbroken 0 c 0) ∧
      (originSpoken.2 0).map ofOrigin = [.text ['h'], .binary [7]] ∧
      (heardBy originSpoken.1.relay.relay.effects 0).map ofRelay =
        (originSpoken.2 0).map ofOrigin := by
  have hexec : Machine.exec plainVoice (fun p e => p.1.visitOk e) (new, fun _ => []) spokenEvents =
      some originSpoken := (Option.some_get _).symm
  have hreach : Machine.Reaches (Machine.observed guestStep voice) (fun p e => p.1.Ok e)
      (new, fun _ => []) originSpoken :=
    (Machine.reaches_of_exec hexec).map PlainEvent.event fun _ _ _ hok hstep =>
      ⟨ok_of_visitOk hok, hstep⟩
  have hunbroken : originSpoken.1.Unbroken 0
      (originSpoken.1.clients[0]?.get (by decide +kernel)) 0 :=
    ⟨(Option.some_get _).symm, ⟨by decide +kernel, by decide +kernel⟩,
      ⟨by decide +kernel, by decide +kernel⟩, by decide +kernel, by
        unfold TunnelDO.IsOpenFor
        decide +kernel⟩
  exact ⟨hreach, ⟨_, hunbroken⟩, by decide +kernel,
    (origin_messages_heard hreach).2 _ _ _ hunbroken⟩

end TunnelSystem

end BbShared
