import BbShared.RequestAccounts

/-!
# Replaced and lost tunnels

What a dial or the loss of the tunnel leaves behind.  A session that ends a body without its head,
or answers a stream twice, leaves a request that no dial finds any more; and a replaced socket whose
close event comes while its successor is lost, but not closed, abandons the successor's streams.
Runs without these leave nothing dangling.
-/

namespace BbShared

open Js

namespace TunnelDO

/-- `abandonStreams` has nothing to do. -/
theorem abandonStreams_of_idle {d : TunnelDO} (hp : d.pendingHttp = .empty)
    (hv : ∀ v ∈ d.visitors, v.closing = true) (httpReason wsReason : Text) :
    d.abandonStreams httpReason wsReason = d := by
  have hclose : ∀ vs : List VisitorSocket, (∀ v ∈ vs, v.closing = true) →
      vs.foldl (fun d v => d.closeVisitor v none 1001 wsReason) d = d := by
    intro vs hvs
    induction vs with
    | nil => rfl
    | cons v vs ih =>
      have hnoop : d.closeVisitor v none 1001 wsReason = d := by
        unfold closeVisitor
        rw [if_pos (hvs v (by simp))]
      rw [List.foldl_cons, hnoop]
      exact ih fun u hu => hvs u (by simp [hu])
  have hkeys : d.pendingHttp.keys = [] := by
    rw [hp]
    rfl
  unfold abandonStreams
  simp only [hkeys, List.foldl_nil]
  exact hclose _ hv

/-- A frame for a stream that holds nothing is ignored. -/
theorem onTunnelFrame_of_idle {d : TunnelDO} {f : Frame} (relayable : Relayable) (source : ℕ)
    (hg : d.pendingHttp.get f.streamId = none)
    (hv : ∀ v, d.visitorSocket f.streamId = some v → v.closing = true) :
    d.onTunnelFrame relayable source f = d := by
  cases f with
  | respHead id status headers =>
    unfold onTunnelFrame onRespHead
    simp only
    rw [show d.pendingHttp.get id = none from hg]
  | bodyChunk id data =>
    unfold onTunnelFrame onBodyChunk
    simp only
    rw [show d.pendingHttp.get id = none from hg]
  | bodyEnd id =>
    unfold onTunnelFrame onBodyEnd
    simp only
    rw [show d.pendingHttp.get id = none from hg]
  | closeStream id code reason =>
    have hhas : d.pendingHttp.has id = false := by
      unfold OrderedMap.has
      rw [show d.pendingHttp.get id = none from hg]
      rfl
    unfold onTunnelFrame onCloseStream
    simp only [hhas, Bool.false_eq_true, if_false]
    cases hs : d.visitorSocket id with
    | none => rfl
    | some v =>
      unfold closeVisitor
      exact if_pos (hv v hs)
  | wsData id isBinary data =>
    unfold onTunnelFrame onWsData
    simp only
    cases hs : d.visitorSocket id with
    | none => rfl
    | some v => exact if_pos (hv v hs)
  | wsOpenAck id protocol => rfl
  | openHttp id info => rfl
  | openWs id info => rfl

end TunnelDO

namespace TunnelRelay

variable {secret : Text} {relayable : TunnelDO.Relayable} {s t : TunnelRelay} {e : RelayEvent}

/-! ## The tunnels -/

theorem open_of_activeTunnelSocket {tunnels : List Bool} {i : ℕ}
    (h : activeTunnelSocket tunnels = some i) : tunnels.getD i false = true :=
  List.find?_some (p := fun i => tunnels.getD i false) h

theorem activeTunnelSocket_eq_none {tunnels : List Bool} :
    activeTunnelSocket tunnels = none ↔ true ∉ tunnels := by
  unfold activeTunnelSocket
  rw [List.find?_eq_none]
  constructor
  · intro h hm
    obtain ⟨i, hi, hget⟩ := List.getElem_of_mem hm
    refine h i (by simpa using hi) ?_
    rw [List.getD_eq_getElem?_getD, List.getElem?_eq_getElem hi, hget]
    rfl
  · intro h i hi ho
    have hlt : i < tunnels.length := by simpa using hi
    rw [List.getD_eq_getElem?_getD, List.getElem?_eq_getElem hlt] at ho
    exact h ((show tunnels[i] = true from ho) ▸ List.getElem_mem hlt)

theorem getD_set_false {tunnels : List Bool} {i j : ℕ}
    (h : (tunnels.set i false).getD j false = true) : tunnels.getD j false = true := by
  rw [List.getD_eq_getElem?_getD, List.getElem?_set] at h
  rw [List.getD_eq_getElem?_getD]
  split_ifs at h <;> first | exact h | cases h

/-- After an accepted dial, only the new tunnel is OPEN. -/
theorem last_acceptTunnel {i : ℕ} (h : s.acceptTunnel.tunnels.getD i false = true) :
    i + 1 = s.acceptTunnel.tunnels.length := by
  unfold acceptTunnel at h ⊢
  simp only at h ⊢
  rw [List.getD_eq_getElem?_getD, List.getElem?_append] at h
  simp only [List.length_map, List.length_append, List.length_singleton] at h ⊢
  split_ifs at h with hlt
  · rw [List.getElem?_map] at h
    cases hg : s.tunnels[i]? <;> rw [hg] at h <;> cases h
  · cases hk : i - s.tunnels.length with
    | zero => omega
    | succ k =>
      rw [hk] at h
      cases h

/-! ## The law -/

/-- The stream was opened over the tunnel accepted last. -/
def Current (s : TunnelRelay) (streamId : ℕ) : Prop :=
  ∃ i, s.openedOver streamId = some i ∧ i + 1 = s.tunnels.length

/-- The dial is accepted, or the close event leaves no open tunnel. -/
def Clears (secret : Text) : RelayEvent → TunnelRelay → Prop
  | .dial r, _ => dialRefusal secret r = none
  | .tunnelClose _, t => true ∉ t.tunnels
  | _, _ => False

/-- A frame or close event of a tunnel with a successor. -/
def FromReplaced (s : TunnelRelay) : RelayEvent → Prop
  | .tunnelFrame tunnel _ _ => tunnel + 1 < s.tunnels.length
  | .tunnelClose tunnel => tunnel + 1 < s.tunnels.length
  | _ => False

/-- What a step owes to the streams. -/
structure LeavesNothing (secret : Text) (s : TunnelRelay) (e : RelayEvent) (t : TunnelRelay) :
    Prop where
  cleared : Clears secret e t → TunnelDO.Cleared s.requests s.canceled s.relay t.relay
  replaced : FromReplaced s e → t.relay = s.relay

/-- No body ends before its head, no streaming answer is made again, and no replaced tunnel closes
while its successor is lost and holds streams. -/
def Clean (s : TunnelRelay) : RelayEvent → Prop
  | .tunnelFrame _ _ (.bodyEnd id) => ∀ entry n, s.relay.pendingHttp.get id = some entry →
      entry.opening = some n → view s.relay.effects n ≠ .waiting
  | .tunnelFrame _ _ (.respHead id status _) => status = 204 ∨ status = 205 ∨ status = 304 ∨
      ∀ entry n, s.relay.pendingHttp.get id = some entry → entry.opening = some n →
        view s.relay.effects n ≠ .streaming
  | .tunnelClose tunnel => s.tunnels.length ≤ tunnel + 1 ∨ true ∈ s.tunnels.set tunnel false ∨
      s.relay.pendingHttp = .empty ∧ ∀ v ∈ s.relay.visitors, v.closing = true
  | _ => True

/-! ## Invariant -/

/-- Only the tunnel accepted last can be open, what is held was opened over it, and every request is
accounted for. -/
structure Sound (s : TunnelRelay) : Prop where
  last : ∀ i, s.tunnels.getD i false = true → i + 1 = s.tunnels.length
  accounts : s.relay.Accounts s.Current s.requests s.canceled

theorem sound_new : new.Sound where
  last i h := by
    rw [List.getD_eq_getElem?_getD] at h
    cases h
  accounts := TunnelDO.accounts_new

namespace Sound

theorem visitor_lt (h : s.Sound) {opening : ℕ} {v : VisitorSocket}
    (hv : s.visitor opening = some v) : v.opening < s.relay.sent :=
  (h.accounts.visitors v (List.mem_of_find?_eq_some hv)).2.1

/-- A socket that is lost. -/
theorem lose (h : s.Sound) (tunnel : ℕ) :
    { s with tunnels := s.tunnels.set tunnel false }.Sound where
  last i hi := by
    rw [List.length_set]
    exact h.last i (getD_set_false hi)
  accounts := h.accounts.mono fun id _ ⟨i, ho, hl⟩ => ⟨i, ho, by rw [List.length_set]; exact hl⟩

theorem acceptTunnel (h : s.Sound) : s.acceptTunnel.Sound where
  last _ hi := last_acceptTunnel hi
  accounts := by
    have hc := h.accounts.cleared "tunnel reconnected mid-request".toList
      "tunnel reconnected".toList
    exact (h.accounts.abandonStreams _ _).of_cleared hc.pendingHttp hc.visitors

theorem tunnelClose (h : s.Sound) (tunnel : ℕ) : (s.tunnelClose tunnel).Sound := by
  have hl := h.lose tunnel
  refine ⟨hl.last, ?_⟩
  unfold TunnelRelay.tunnelClose
  simp only
  split_ifs
  · exact hl.accounts
  · exact hl.accounts.abandonStreams _ _

theorem fetch (h : s.Sound) (r : VisitorRequest) (sends : Bool) : (s.fetch r sends).Sound where
  last := h.last
  accounts := by
    have hacc : s.relay.Accounts (s.fetch r sends).Current s.requests s.canceled := by
      refine h.accounts.mono fun id hid ⟨i, ho, hl⟩ => ⟨i, ?_, hl⟩
      unfold TunnelRelay.fetch
      simp only
      rw [if_neg hid.ne]
      exact ho
    refine hacc.proxyGuestRequest (s.link sends) (fun hactive => ?_) r.withOrigin
    obtain ⟨i, hi⟩ := Option.isSome_iff_exists.mp hactive
    refine ⟨i, ?_, h.last i (open_of_activeTunnelSocket hi)⟩
    unfold TunnelRelay.fetch
    simp only [if_true]
    exact hi

/-- **Step lemma.** -/
theorem step (h : s.Sound) (hc : Clean s e) (ht : step secret relayable s e = some t) :
    t.Sound := by
  cases e with
  | dial r =>
    obtain rfl := Option.some.inj ht
    split_ifs
    · exact h
    · exact h.acceptTunnel
  | lose tunnel =>
    obtain rfl := Option.some.inj ht
    exact h.lose tunnel
  | tunnelFrame tunnel source f =>
    unfold TunnelRelay.step at ht
    simp only at ht
    split_ifs at ht
    obtain rfl := Option.some.inj ht
    refine ⟨h.last, h.accounts.onTunnelFrame relayable source f ?_ ?_⟩
    · rintro id entry n rfl
      exact hc entry n
    · rintro id status headers rfl
      exact hc
  | tunnelClose tunnel =>
    unfold TunnelRelay.step at ht
    simp only at ht
    split_ifs at ht
    obtain rfl := Option.some.inj ht
    exact h.tunnelClose tunnel
  | fetch r sends =>
    obtain rfl := Option.some.inj ht
    split_ifs
    · exact h
    · exact h.fetch r sends
  | pumpChunk streamId value sends =>
    obtain rfl := Option.some.inj ht
    exact ⟨h.last, h.accounts.pumpChunk _ _ _⟩
  | pumpEnd streamId sends =>
    obtain rfl := Option.some.inj ht
    exact ⟨h.last, (h.accounts.sendOnly _ _).setPumps _⟩
  | pumpError streamId sends =>
    obtain rfl := Option.some.inj ht
    exact ⟨h.last, (h.accounts.sendOnly _ _).setPumps _⟩
  | visitorMessage opening isBinary data sends =>
    obtain ⟨v, hv, rfl⟩ := Option.map_eq_some_iff.mp ht
    exact ⟨h.last, h.accounts.visitorMessage (h.visitor_lt hv) _ _ _⟩
  | visitorClose opening code reason sends =>
    obtain ⟨v, hv, rfl⟩ := Option.map_eq_some_iff.mp ht
    exact ⟨h.last, h.accounts.visitorClose (h.visitor_lt hv) _ _ _⟩
  | visitorGone opening =>
    obtain rfl := Option.some.inj ht
    exact ⟨h.last, h.accounts.forgetVisitor opening⟩
  | headTimeout streamId =>
    obtain ⟨d, hd, rfl⟩ := Option.map_eq_some_iff.mp ht
    exact ⟨h.last, h.accounts.headTimeout hd⟩
  | cancel streamId sends =>
    unfold TunnelRelay.step at ht
    simp only at ht
    cases hg : s.relay.pendingHttp.get streamId with
    | none => rw [hg] at ht; cases ht
    | some entry =>
      rw [hg] at ht
      simp only at ht
      split_ifs at ht with hw
      obtain rfl := Option.some.inj ht
      exact ⟨h.last, h.accounts.cancelHttpStream _ hg hw⟩

/-- What a step from a sound state leaves. -/
theorem leavesNothing (h : s.Sound) (hc : Clean s e)
    (ht : TunnelRelay.step secret relayable s e = some t) : LeavesNothing secret s e t := by
  refine ⟨fun hclears => ?_, fun hrep => ?_⟩
  · cases e <;> try exact absurd hclears id
    case dial r =>
      obtain rfl := Option.some.inj ht
      rw [show dialRefusal secret r = none from hclears]
      exact h.accounts.cleared _ _
    case tunnelClose tunnel =>
      unfold TunnelRelay.step at ht
      simp only at ht
      split_ifs at ht
      obtain rfl := Option.some.inj ht
      have hnone : activeTunnelSocket (s.tunnels.set tunnel false) = none :=
        activeTunnelSocket_eq_none.mpr hclears
      unfold TunnelRelay.tunnelClose
      simp only [hnone]
      exact h.accounts.cleared _ _
  · cases e <;> try exact absurd hrep id
    case tunnelFrame tunnel source f =>
      unfold TunnelRelay.step at ht
      simp only at ht
      split_ifs at ht with ho
      obtain rfl := Option.some.inj ht
      -- nothing is held for a stream of a replaced tunnel
      have hcur : ¬ s.Current f.streamId := by
        rintro ⟨i, hi, hl⟩
        rw [ho] at hi
        obtain rfl := Option.some.inj hi
        exact absurd hl (Nat.ne_of_lt hrep)
      refine TunnelDO.onTunnelFrame_of_idle relayable source ?_ fun v hv => ?_
      · cases hg : s.relay.pendingHttp.get f.streamId with
        | none => rfl
        | some entry => exact absurd (h.accounts.entries _ entry hg).2 hcur
      · by_contra hopen
        have hid : v.streamId = f.streamId := by simpa using List.find?_some hv
        refine hcur (hid ▸ (h.accounts.visitors v (List.mem_of_find?_eq_some hv)).2.2 ?_)
        simpa using hopen
    case tunnelClose tunnel =>
      unfold TunnelRelay.step at ht
      simp only at ht
      split_ifs at ht
      obtain rfl := Option.some.inj ht
      unfold TunnelRelay.tunnelClose
      simp only
      split_ifs with hactive
      · rfl
      · rcases hc with hc | hc | ⟨hp, hv⟩
        · exact absurd hc (Nat.not_le.mpr hrep)
        · rw [Option.not_isSome_iff_eq_none, activeTunnelSocket_eq_none] at hactive
          exact absurd hc hactive
        · exact TunnelDO.abandonStreams_of_idle hp hv _ _

end Sound

/-! ## Runs -/

/-- **Nothing dangles.** In every run without such steps, what waits was opened over the tunnel
accepted last, and each further such step leaves nothing behind. -/
theorem nothing_dangles (h : Machine.Reaches (step secret relayable) Clean new s) :
    (∀ id entry, s.relay.pendingHttp.get id = some entry → s.Current id) ∧
      ∀ e t, Clean s e → step secret relayable s e = some t → LeavesNothing secret s e t := by
  have hs : s.Sound := h.invariant sound_new fun _ _ _ hs hc ht => hs.step hc ht
  exact ⟨fun id entry hg => (hs.accounts.entries id entry hg).2, fun _ _ hc ht =>
    hs.leavesNothing hc ht⟩

def plainDial : DialRequest :=
  ⟨some "websocket".toList, some "Bearer s".toList, some ['1']⟩

def plainVisit : VisitorRequest where
  method := "GET".toList
  url := .root
  origin := "https://guest.example".toList
  headers := []
  body := none
  origin_clean := by unfold HeaderText; decide
  headers_clean := noHeaders_clean

/-- One tunnel, and one request over it. -/
def waitingRelay : TunnelRelay := new.acceptTunnel.fetch plainVisit true

theorem step_plainDial (s : TunnelRelay) :
    step ['s'] relayable s (.dial plainDial) = some s.acceptTunnel :=
  congrArg some (if_neg (by decide +kernel))

theorem reaches_waitingRelay (relayable : TunnelDO.Relayable)
    {ok : TunnelRelay → RelayEvent → Prop}
    (hdial : ok new (.dial plainDial)) (hfetch : ok new.acceptTunnel (.fetch plainVisit true)) :
    Machine.Reaches (step ['s'] relayable) ok new waitingRelay :=
  (Machine.Reaches.refl.tail hdial (step_plainDial new)).tail hfetch
    (congrArg some (if_neg (by decide +kernel)))

theorem nothing_dangles_redial :
    Machine.Reaches (step ['s'] fun _ _ => true) Clean new waitingRelay ∧
      view waitingRelay.relay.effects 0 = .waiting ∧
      view waitingRelay.acceptTunnel.relay.effects 0 = .failed := by
  have hreach : Machine.Reaches (step ['s'] fun _ _ => true) Clean new waitingRelay :=
    reaches_waitingRelay _ trivial trivial
  have hwaiting : view waitingRelay.relay.effects 0 = .waiting := by decide +kernel
  have hleaves := (nothing_dangles hreach).2 (.dial plainDial) _ trivial (step_plainDial _)
  have hdial : dialRefusal ['s'] plainDial = none := by decide +kernel
  exact ⟨hreach, hwaiting, (hleaves.cleared hdial).waiting 0 (by decide +kernel) hwaiting⟩

/-- A body that ends without its head leaves its visitor waiting when the tunnel is replaced. -/
theorem not_nothing_dangles :
    ¬ ∀ (secret : Text) (relayable : TunnelDO.Relayable) (s : TunnelRelay),
      Machine.Reaches (step secret relayable) (fun _ _ => True) new s →
        ∀ e t, step secret relayable s e = some t → LeavesNothing secret s e t := by
  intro h
  have hend : step ['s'] (fun _ _ => true) waitingRelay (.tunnelFrame 0 0 (.bodyEnd 1)) =
      some { waitingRelay with relay := waitingRelay.relay.onBodyEnd 0 1 } := by
    unfold step
    exact if_pos (by decide +kernel)
  have hwait : Machine.Reaches (step ['s'] fun _ _ => true) (fun _ _ => True) new waitingRelay :=
    reaches_waitingRelay _ trivial trivial
  have hreach := hwait.tail trivial hend
  have hleaves := h _ _ _ hreach (.dial plainDial) _ (step_plainDial _)
  have hfailed := (hleaves.cleared (by unfold Clears; decide +kernel)).waiting 0 (by decide +kernel)
    (by decide +kernel)
  exact absurd hfailed (by decide +kernel)

end TunnelRelay

end BbShared
