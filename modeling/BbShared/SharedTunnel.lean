import BbShared.WorkerLifecycle

/-!
# The shared tunnel

`lib/shared-tunnel.ts` and `tunnel-client/src/reconnect.ts`: the socket that dials the relay, and the
timer that dials again.

`sockets` are all sockets ever dialed, oldest first: whether they carry the tunnel's listeners, have
emitted `open` and have emitted `close`.  A closed socket emits nothing more.  The owner's callback
of `setState` does not call the tunnel.  What `lastError` says of a socket's error is given with the
error.
-/

namespace BbShared

open Js

/-! ## Backoff -/

def DEFAULT_RECONNECT_BASE_DELAY_MS : ℕ := 1000

def DEFAULT_MAX_RECONNECT_DELAY_MS : ℕ := 30000

def DEFAULT_STABLE_CONNECTION_MS : ℤ := 10000

structure ReconnectBackoff where
  attempt : ℕ

namespace ReconnectBackoff

def reset (_ : ReconnectBackoff) : ReconnectBackoff := ⟨0⟩

/-- The delay before attempt `n`. -/
def delay (n : ℕ) : ℕ := min (DEFAULT_RECONNECT_BASE_DELAY_MS * 2 ^ n) DEFAULT_MAX_RECONNECT_DELAY_MS

/-- Record a socket close after `stableMs` of uptime. -/
def nextDelayAfterClose (b : ReconnectBackoff) (stableMs : ℤ) : ReconnectBackoff × ℕ :=
  let attempt := if DEFAULT_STABLE_CONNECTION_MS < stableMs then 0 else b.attempt + 1
  (⟨attempt⟩, delay attempt)

end ReconnectBackoff

/-! ## State -/

structure TunnelSocket where
  listens : Bool
  opened : Bool
  closed : Bool

structure SharedTunnel where
  socket : Option ℕ
  session : Bool
  backoff : ReconnectBackoff
  /-- The delay of the timer that is set. -/
  retryTimer : Option ℕ
  stopped : Bool
  state : TunnelState
  connectedAt : Option ℕ
  lastConnectedAt : Option ℕ
  lastError : Option Text
  remoteClients : ℕ
  sockets : List TunnelSocket

inductive TunnelEvent where
  | start
  | stop
  | socketOpen (socket now : ℕ)
  | unexpectedResponse (socket status now : ℕ)
  | socketError (socket : ℕ) (message : Text)
  | socketClose (socket now : ℕ)
  | retry
  | remoteClientsChange (n : ℕ)

/-- The socket whose event it is. -/
def TunnelEvent.socket : TunnelEvent → Option ℕ
  | .socketOpen i _ => some i
  | .unexpectedResponse i _ _ => some i
  | .socketError i _ => some i
  | .socketClose i _ => some i
  | _ => none

namespace SharedTunnel

def new : SharedTunnel :=
  { socket := none, session := false, backoff := ⟨0⟩, retryTimer := none, stopped := true,
    state := .disconnected, connectedAt := none, lastConnectedAt := none, lastError := none,
    remoteClients := 0, sockets := [] }

def setState (s : SharedTunnel) (next : TunnelState) : SharedTunnel := { s with state := next }

def setSocket (s : SharedTunnel) (i : ℕ) (k : TunnelSocket) : SharedTunnel :=
  { s with sockets := s.sockets.set i k }

/-- `removeAllListeners`. -/
def unlisten (s : SharedTunnel) (i : ℕ) : SharedTunnel :=
  match s.sockets[i]? with
  | some k => s.setSocket i { k with listens := false }
  | none => s

def teardownSocket (s : SharedTunnel) : SharedTunnel :=
  let s := { s with session := false, remoteClients := 0 }
  match s.socket with
  | some i => { s.unlisten i with socket := none }
  | none => s

/-- `open`. -/
def dial (s : SharedTunnel) : SharedTunnel :=
  if s.stopped then s else
    { s.setState .connecting with
      sockets := s.sockets ++ [⟨true, false, false⟩]
      socket := some s.sockets.length }

def start (s : SharedTunnel) : SharedTunnel :=
  if s.stopped then { s with stopped := false, backoff := s.backoff.reset }.dial else s

def stop (s : SharedTunnel) : SharedTunnel :=
  ({ s with stopped := true, retryTimer := none }.teardownSocket).setState .stopped

def scheduleReconnect (s : SharedTunnel) (now : ℕ) : SharedTunnel :=
  if s.stopped then s
  else if s.retryTimer.isSome then s
  else
    let stableMs : ℤ := match s.connectedAt with
      | none => 0
      | some t => now - t
    let next := s.backoff.nextDelayAfterClose stableMs
    { s.setState .reconnecting with
      connectedAt := none
      backoff := next.1
      retryTimer := some next.2 }

def onOpen (s : SharedTunnel) (now : ℕ) : SharedTunnel :=
  { s.setState .connected with
    connectedAt := some now
    lastConnectedAt := some now
    lastError := none
    backoff := s.backoff.reset
    session := true }

def rejected (status : ℕ) : Text := "worker rejected tunnel: HTTP ".toList ++ Nat.toDigits 10 status

def protocolIncompatible (status : ℕ) : Text :=
  "Relay protocol incompatible (HTTP ".toList ++ Nat.toDigits 10 status ++
    "); update the relay deployment.".toList

def onUnexpectedResponse (s : SharedTunnel) (status now : ℕ) : SharedTunnel :=
  let s := { s.teardownSocket with lastError := some (rejected status) }
  if status = 409 ∨ status = 426 then
    { s with lastError := some (protocolIncompatible status), stopped := true }.setState .incompatible
  else if status = 401 ∨ status = 403 then s.stop
  else s.scheduleReconnect now

def onError (s : SharedTunnel) (message : Text) : SharedTunnel := { s with lastError := some message }

def onClose (s : SharedTunnel) (now : ℕ) : SharedTunnel :=
  { s with session := false, remoteClients := 0 }.scheduleReconnect now

/-! ## Events -/

/-- A socket that is not closed emits an event: it changes, and the listeners are called if it has
them. -/
def emit (s : SharedTunnel) (i : ℕ) (next : TunnelSocket → Option TunnelSocket)
    (handler : SharedTunnel → SharedTunnel) : Option SharedTunnel :=
  match s.sockets[i]? with
  | none => none
  | some k =>
    if k.closed then none else
      (next k).map fun k' => if k.listens then handler (s.setSocket i k') else s.setSocket i k'

/-- `none` where the event cannot happen. -/
def step (s : SharedTunnel) : TunnelEvent → Option SharedTunnel
  | .start => some s.start
  | .stop => some s.stop
  | .socketOpen i now =>
    s.emit i (fun k => if k.opened then none else some { k with opened := true }) (onOpen · now)
  | .unexpectedResponse i status now =>
    s.emit i (fun k => if k.opened then none else some k) (onUnexpectedResponse · status now)
  | .socketError i message => s.emit i some (onError · message)
  | .socketClose i now => s.emit i (fun k => some { k with closed := true }) (onClose · now)
  | .retry => s.retryTimer.map fun _ => { s with retryTimer := none }.dial
  | .remoteClientsChange n => if s.session then some { s with remoteClients := n } else none

/-- The socket carries the tunnel's listeners and is not yet closed. -/
def Live (s : SharedTunnel) (i : ℕ) : Prop :=
  ∃ k, s.sockets[i]? = some k ∧ k.listens = true ∧ k.closed = false

/-- The socket has none of the tunnel's listeners. -/
def Discarded (s : SharedTunnel) (i : ℕ) : Prop := ∃ k, s.sockets[i]? = some k ∧ k.listens = false

/-- Its socket has emitted `open`, and neither its `close` nor a `stop` came after. -/
def Connected (s : SharedTunnel) : Prop :=
  ∃ (i : ℕ) (k : TunnelSocket), s.sockets[i]? = some k ∧ k.listens = true ∧ k.closed = false ∧
    k.opened = true

variable {s t : SharedTunnel} {e : TunnelEvent} {i j : ℕ}

/-- What a socket's event does. -/
theorem emit_eq_some {next : TunnelSocket → Option TunnelSocket}
    {handler : SharedTunnel → SharedTunnel} (h : s.emit i next handler = some t) :
    ∃ k k', s.sockets[i]? = some k ∧ k.closed = false ∧ next k = some k' ∧
      (k.listens = true ∧ t = handler (s.setSocket i k') ∨
        k.listens = false ∧ t = s.setSocket i k') := by
  unfold emit at h
  cases hk : s.sockets[i]? with
  | none => rw [hk] at h; cases h
  | some k =>
    rw [hk] at h
    simp only at h
    by_cases hc : k.closed = true
    · rw [if_pos hc] at h
      cases h
    · rw [if_neg hc] at h
      obtain ⟨k', hk', rfl⟩ := Option.map_eq_some_iff.mp h
      refine ⟨k, k', rfl, by simpa using hc, hk', ?_⟩
      cases hl : k.listens
      · exact .inr ⟨rfl, rfl⟩
      · exact .inl ⟨rfl, rfl⟩

/-! ## Sockets -/

theorem getElem?_setSocket {k k' : TunnelSocket} (hk : s.sockets[i]? = some k) (j : ℕ) :
    (s.setSocket i k').sockets[j]? = if j = i then some k' else s.sockets[j]? := by
  unfold setSocket
  simp only
  rw [List.getElem?_set]
  obtain ⟨hlt, -⟩ := List.getElem?_eq_some_iff.mp hk
  by_cases h : i = j
  · rw [if_pos h, if_pos hlt, if_pos h.symm]
  · rw [if_neg h, if_neg fun h' => h h'.symm]

theorem setSocket_self {k : TunnelSocket} (hk : s.sockets[i]? = some k) : s.setSocket i k = s := by
  obtain ⟨hlt, rfl⟩ := List.getElem?_eq_some_iff.mp hk
  unfold setSocket
  rw [List.set_getElem_self hlt]

theorem getElem?_unlisten {k : TunnelSocket} (h : (s.unlisten i).sockets[j]? = some k) :
    j ≠ i ∧ s.sockets[j]? = some k ∨
      j = i ∧ k.listens = false ∧
        ∃ k₀, s.sockets[i]? = some k₀ ∧ k = { k₀ with listens := false } := by
  unfold unlisten at h
  cases hk : s.sockets[i]? with
  | none =>
    rw [hk] at h
    refine .inl ⟨?_, h⟩
    rintro rfl
    rw [hk] at h
    cases h
  | some k₀ =>
    rw [hk] at h
    simp only at h
    rw [getElem?_setSocket hk] at h
    split_ifs at h with hj
    · obtain rfl := Option.some.inj h
      exact .inr ⟨hj, rfl, k₀, rfl, rfl⟩
    · exact .inl ⟨hj, h⟩

/-! ## Steps -/

/-- What each event does. -/
inductive Step (s : SharedTunnel) : TunnelEvent → SharedTunnel → Prop
  | start : Step s .start s.start
  | stop : Step s .stop s.stop
  | ignored {e : TunnelEvent} {i : ℕ} {k k' : TunnelSocket} (he : e.socket = some i)
      (hk : s.sockets[i]? = some k) (hl : k.listens = false) (hl' : k'.listens = false) :
      Step s e (s.setSocket i k')
  | opened {i now : ℕ} {k : TunnelSocket} (hk : s.sockets[i]? = some k) (hl : k.listens = true)
      (hc : k.closed = false) :
      Step s (.socketOpen i now) ((s.setSocket i { k with opened := true }).onOpen now)
  | refused {i status now : ℕ} (hi : s.Live i) :
      Step s (.unexpectedResponse i status now) (s.onUnexpectedResponse status now)
  | failed {i : ℕ} {message : Text} (hi : s.Live i) :
      Step s (.socketError i message) (s.onError message)
  | closed {i now : ℕ} {k : TunnelSocket} (hk : s.sockets[i]? = some k) (hl : k.listens = true)
      (hc : k.closed = false) :
      Step s (.socketClose i now) ((s.setSocket i { k with closed := true }).onClose now)
  | retry {delay : ℕ} (hd : s.retryTimer = some delay) :
      Step s .retry { s with retryTimer := none }.dial
  | clients {n : ℕ} : Step s (.remoteClientsChange n) { s with remoteClients := n }

theorem Step.of_step (h : s.step e = some t) : Step s e t := by
  cases e with
  | start =>
    obtain rfl := Option.some.inj h
    exact .start
  | stop =>
    obtain rfl := Option.some.inj h
    exact .stop
  | socketOpen i now =>
    unfold step at h
    obtain ⟨k, k', hk, hc, hnext, hcase⟩ := emit_eq_some h
    split_ifs at hnext
    obtain rfl := Option.some.inj hnext
    rcases hcase with ⟨hl, rfl⟩ | ⟨hl, rfl⟩
    · exact .opened hk hl hc
    · exact .ignored rfl hk hl hl
  | unexpectedResponse i status now =>
    unfold step at h
    obtain ⟨k, k', hk, hc, hnext, hcase⟩ := emit_eq_some h
    split_ifs at hnext
    obtain rfl := Option.some.inj hnext
    rcases hcase with ⟨hl, rfl⟩ | ⟨hl, rfl⟩
    · rw [setSocket_self hk]
      exact .refused ⟨k, hk, hl, hc⟩
    · exact .ignored rfl hk hl hl
  | socketError i message =>
    unfold step at h
    obtain ⟨k, k', hk, hc, hnext, hcase⟩ := emit_eq_some h
    obtain rfl := Option.some.inj hnext
    rcases hcase with ⟨hl, rfl⟩ | ⟨hl, rfl⟩
    · rw [setSocket_self hk]
      exact .failed ⟨k, hk, hl, hc⟩
    · exact .ignored rfl hk hl hl
  | socketClose i now =>
    unfold step at h
    obtain ⟨k, k', hk, hc, hnext, hcase⟩ := emit_eq_some h
    obtain rfl := Option.some.inj hnext
    rcases hcase with ⟨hl, rfl⟩ | ⟨hl, rfl⟩
    · exact .closed hk hl hc
    · exact .ignored rfl hk hl hl
  | retry =>
    obtain ⟨delay, hd, rfl⟩ := Option.map_eq_some_iff.mp h
    exact .retry hd
  | remoteClientsChange n =>
    unfold step at h
    simp only at h
    split_ifs at h
    obtain rfl := Option.some.inj h
    exact .clients

/-! ## Invariant -/

/-- No socket is live and no timer is set. -/
structure Idle (s : SharedTunnel) : Prop where
  socket : ∀ i, ¬ s.Live i
  timer : s.retryTimer = none

structure Sound (s : SharedTunnel) : Prop where
  current : ∀ i, s.Live i → s.socket = some i
  exclusive : ∀ i, s.Live i → s.retryTimer = none ∧ s.stopped = false
  halted : s.stopped = true → s.retryTimer = none
  running : s.stopped = false → (∃ i, s.Live i) ∨ s.retryTimer.isSome = true
  connected : s.state = .connected ↔ s.Connected

theorem Connected.live (h : s.Connected) : ∃ i, s.Live i := by
  obtain ⟨i, k, hk, hl, hc, -⟩ := h
  exact ⟨i, k, hk, hl, hc⟩

theorem sound_new : new.Sound where
  current i := by rintro ⟨k, hk, -⟩; cases hk
  exclusive i := by rintro ⟨k, hk, -⟩; cases hk
  halted _ := rfl
  running h := by cases h
  connected := by
    constructor
    · intro h
      cases h
    · rintro ⟨i, k, hk, -⟩
      cases hk

theorem scheduleReconnect_frame (hs : s.stopped = false) (ht : s.retryTimer = none) (now : ℕ) :
    (s.scheduleReconnect now).sockets = s.sockets ∧
      (s.scheduleReconnect now).stopped = s.stopped ∧
      (s.scheduleReconnect now).state = .reconnecting ∧
      (s.scheduleReconnect now).retryTimer.isSome = true := by
  unfold SharedTunnel.scheduleReconnect
  rw [hs, ht]
  exact ⟨rfl, hs, rfl, rfl⟩

namespace Idle

theorem sound (h : s.Idle) (hs : s.stopped = true) (hne : s.state ≠ .connected) : s.Sound where
  current i hi := absurd hi (h.socket i)
  exclusive i hi := absurd hi (h.socket i)
  halted _ := h.timer
  running hr := by rw [hs] at hr; cases hr
  connected := by
    refine ⟨fun hc => absurd hc hne, fun hc => ?_⟩
    obtain ⟨i, hi⟩ := hc.live
    exact absurd hi (h.socket i)

theorem dial (h : s.Idle) (hs : s.stopped = false) : s.dial.Sound := by
  have hnew : ∀ i, s.dial.Live i → i = s.sockets.length := by
    rintro i ⟨k, hk, hl, hc⟩
    unfold SharedTunnel.dial at hk
    rw [hs] at hk
    simp only [Bool.false_eq_true, if_false] at hk
    rw [List.getElem?_append] at hk
    split_ifs at hk with hlt
    · exact absurd ⟨k, hk, hl, hc⟩ (h.socket i)
    · have := (List.getElem?_eq_some_iff.mp hk).1
      rw [List.length_singleton] at this
      omega
  have hdial : s.dial = { s.setState .connecting with
      sockets := s.sockets ++ [⟨true, false, false⟩], socket := some s.sockets.length } := by
    unfold SharedTunnel.dial
    rw [hs]
    rfl
  have hfresh : s.dial.sockets[s.sockets.length]? = some ⟨true, false, false⟩ := by
    rw [hdial]
    simp
  refine ⟨fun i hi => ?_, fun i hi => ?_, fun hst => ?_, fun _ => ?_, ?_⟩
  · rw [hnew i hi, hdial]
  · rw [hdial]
    exact ⟨h.timer, hs⟩
  · rw [hdial]
    exact h.timer
  · exact .inl ⟨_, _, hfresh, rfl, rfl⟩
  · refine ⟨fun hc => ?_, ?_⟩
    · rw [hdial] at hc
      cases hc
    · rintro ⟨i, k, hk, hl, hc, ho⟩
      rw [hnew i ⟨k, hk, hl, hc⟩, hfresh] at hk
      obtain rfl := Option.some.inj hk
      cases ho

theorem scheduleReconnect (h : s.Idle) (hs : s.stopped = false) (now : ℕ) :
    (s.scheduleReconnect now).Sound := by
  obtain ⟨hsockets, hstopped, hstate, htimer⟩ := scheduleReconnect_frame hs h.timer now
  have hlive : ∀ i, ¬ (s.scheduleReconnect now).Live i := by
    rintro i ⟨k, hk, hkeep⟩
    rw [hsockets] at hk
    exact h.socket i ⟨k, hk, hkeep⟩
  refine ⟨fun i hi => absurd hi (hlive i), fun i hi => absurd hi (hlive i), fun hst => ?_,
    fun _ => .inr htimer, ?_⟩
  · rw [hstopped, hs] at hst
    cases hst
  · rw [hstate]
    refine ⟨fun hc => (nomatch hc), fun hc => ?_⟩
    obtain ⟨i, hi⟩ := hc.live
    exact absurd hi (hlive i)

end Idle

theorem teardownSocket_frame (s : SharedTunnel) :
    s.teardownSocket.stopped = s.stopped ∧ s.teardownSocket.retryTimer = s.retryTimer ∧
      s.teardownSocket.state = s.state ∧ s.teardownSocket.sockets.length = s.sockets.length := by
  unfold teardownSocket unlisten
  cases s.socket with
  | none => exact ⟨rfl, rfl, rfl, rfl⟩
  | some i =>
    simp only
    cases s.sockets[i]? with
    | none => exact ⟨rfl, rfl, rfl, rfl⟩
    | some k => exact ⟨rfl, rfl, rfl, List.length_set⟩

/-- The current socket is discarded, and no other is live. -/
theorem not_live_teardownSocket (h : ∀ i, s.Live i → s.socket = some i) (i : ℕ) :
    ¬ s.teardownSocket.Live i := by
  rintro ⟨k, hk, hl, hc⟩
  unfold teardownSocket at hk
  cases hs : s.socket with
  | none =>
    simp only [hs] at hk
    have := h i ⟨k, hk, hl, hc⟩
    rw [hs] at this
    cases this
  | some j =>
    simp only [hs] at hk
    rcases getElem?_unlisten hk with ⟨hne, hk⟩ | ⟨-, hd, -⟩
    · have := h i ⟨k, hk, hl, hc⟩
      rw [hs] at this
      exact hne (Option.some.inj this).symm
    · rw [hl] at hd
      cases hd

theorem Sound.stop (h : s.Sound) : s.stop.Sound := by
  have hidle : ({ s with stopped := true, retryTimer := none }.teardownSocket).Idle :=
    ⟨not_live_teardownSocket h.current, (teardownSocket_frame _).2.1⟩
  exact Idle.sound ⟨hidle.socket, hidle.timer⟩ (teardownSocket_frame _).1
    (by unfold SharedTunnel.stop setState; simp)

/-- A socket that is not live changes. -/
theorem Sound.setSocket (h : s.Sound) {k k' : TunnelSocket} (hk : s.sockets[i]? = some k)
    (hl : k.listens = false) (hl' : k'.listens = false) : (s.setSocket i k').Sound := by
  have hold : ∀ (j : ℕ) (k₁ : TunnelSocket),
      (s.setSocket i k').sockets[j]? = some k₁ → k₁.listens = true →
      s.sockets[j]? = some k₁ := by
    intro j k₁ hj hlj
    rw [getElem?_setSocket hk] at hj
    split_ifs at hj
    · obtain rfl := Option.some.inj hj
      rw [hl'] at hlj
      cases hlj
    · exact hj
  have hnew : ∀ (j : ℕ) (k₁ : TunnelSocket), s.sockets[j]? = some k₁ → k₁.listens = true →
      (s.setSocket i k').sockets[j]? = some k₁ := by
    intro j k₁ hj hlj
    rw [getElem?_setSocket hk, if_neg ?_, hj]
    rintro rfl
    rw [hk] at hj
    obtain rfl := Option.some.inj hj
    rw [hl] at hlj
    cases hlj
  have hlive : ∀ j, (s.setSocket i k').Live j ↔ s.Live j := fun j =>
    ⟨fun ⟨k₁, hj, hlj, hc⟩ => ⟨k₁, hold j k₁ hj hlj, hlj, hc⟩,
      fun ⟨k₁, hj, hlj, hc⟩ => ⟨k₁, hnew j k₁ hj hlj, hlj, hc⟩⟩
  refine ⟨fun j hj => h.current j ((hlive j).mp hj), fun j hj => h.exclusive j ((hlive j).mp hj),
    h.halted, fun hs => (h.running hs).imp_left fun ⟨j, hj⟩ => ⟨j, (hlive j).mpr hj⟩, ?_⟩
  refine h.connected.trans ⟨?_, ?_⟩
  · rintro ⟨j, k₁, hj, hlj, hc, ho⟩
    exact ⟨j, k₁, hnew j k₁ hj hlj, hlj, hc, ho⟩
  · rintro ⟨j, k₁, hj, hlj, hc, ho⟩
    exact ⟨j, k₁, hold j k₁ hj hlj, hlj, hc, ho⟩

/-- The live socket opens. -/
theorem Sound.onOpen (h : s.Sound) {k : TunnelSocket} (hk : s.sockets[i]? = some k)
    (hl : k.listens = true) (hc : k.closed = false) (now : ℕ) :
    ((s.setSocket i { k with opened := true }).onOpen now).Sound := by
  have hsock : ∀ j, ((s.setSocket i { k with opened := true }).onOpen now).sockets[j]? =
      if j = i then some { k with opened := true } else s.sockets[j]? := getElem?_setSocket hk
  have hlive : ∀ j, ((s.setSocket i { k with opened := true }).onOpen now).Live j → s.Live j := by
    rintro j ⟨k₁, hj, hlj, hcj⟩
    rw [hsock] at hj
    split_ifs at hj with hji
    · exact hji ▸ ⟨k, hk, hl, hc⟩
    · exact ⟨k₁, hj, hlj, hcj⟩
  have hi := h.exclusive i ⟨k, hk, hl, hc⟩
  refine ⟨fun j hj => h.current j (hlive j hj), fun j hj => h.exclusive j (hlive j hj),
    fun _ => hi.1, fun _ => .inl ⟨i, _, (hsock i).trans (if_pos rfl), hl, hc⟩, ?_⟩
  exact ⟨fun _ => ⟨i, _, (hsock i).trans (if_pos rfl), hl, hc, rfl⟩, fun _ => rfl⟩

/-- The live socket closes. -/
theorem Sound.onClose (h : s.Sound) {k : TunnelSocket} (hk : s.sockets[i]? = some k)
    (hl : k.listens = true) (hc : k.closed = false) (now : ℕ) :
    ((s.setSocket i { k with closed := true }).onClose now).Sound := by
  have hi := h.exclusive i ⟨k, hk, hl, hc⟩
  have hidle : ({ s.setSocket i { k with closed := true } with
      session := false, remoteClients := 0 } : SharedTunnel).Idle := by
    refine ⟨?_, hi.1⟩
    rintro j ⟨k₁, hj, hlj, hcj⟩
    have hset : (s.setSocket i { k with closed := true }).sockets[j]? =
        if j = i then some { k with closed := true } else s.sockets[j]? := getElem?_setSocket hk j
    rw [show (s.setSocket i { k with closed := true }).sockets[j]? = some k₁ from hj] at hset
    split_ifs at hset with hji
    · rw [Option.some.inj hset] at hcj
      cases hcj
    · have hcur := h.current j ⟨k₁, hset.symm, hlj, hcj⟩
      rw [h.current i ⟨k, hk, hl, hc⟩] at hcur
      exact hji (Option.some.inj hcur).symm
  exact hidle.scheduleReconnect hi.2 now

theorem Sound.onUnexpectedResponse (h : s.Sound) (hi : s.Live i) (status now : ℕ) :
    (s.onUnexpectedResponse status now).Sound := by
  obtain ⟨htimer, hstopped⟩ := h.exclusive i hi
  obtain ⟨hst, htm, hstate, -⟩ := teardownSocket_frame s
  have hdead := not_live_teardownSocket h.current
  unfold SharedTunnel.onUnexpectedResponse
  simp only
  split_ifs
  · exact Idle.sound ⟨hdead, htm.trans htimer⟩ rfl (by unfold setState; simp)
  · refine Idle.sound ⟨?_, ?_⟩ ?_ ?_
    · exact not_live_teardownSocket fun j hj => absurd hj (hdead j)
    · exact (teardownSocket_frame _).2.1
    · exact (teardownSocket_frame _).1
    · unfold SharedTunnel.stop setState
      simp
  · have hidle :
        ({ s.teardownSocket with lastError := some (rejected status) } : SharedTunnel).Idle :=
      ⟨hdead, htm.trans htimer⟩
    exact hidle.scheduleReconnect (hst.trans hstopped) now

theorem Sound.start (h : s.Sound) : s.start.Sound := by
  unfold SharedTunnel.start
  split_ifs with hs
  · refine Idle.dial ⟨fun i hi => ?_, h.halted hs⟩ rfl
    have := (h.exclusive i hi).2
    rw [hs] at this
    cases this
  · exact h

theorem Sound.retry (h : s.Sound) {delay : ℕ} (ht : s.retryTimer = some delay) :
    ({ s with retryTimer := none }.dial).Sound := by
  refine Idle.dial ⟨fun i hi => ?_, rfl⟩ ?_
  · have := (h.exclusive i hi).1
    rw [ht] at this
    cases this
  · by_contra hs
    have := h.halted (by simpa using hs)
    rw [ht] at this
    cases this

/-- **Step lemma.** -/
theorem Sound.step (h : s.Sound) (ht : s.step e = some t) : t.Sound := by
  cases Step.of_step ht with
  | start => exact h.start
  | stop => exact h.stop
  | ignored _ hk hl hl' => exact h.setSocket hk hl hl'
  | opened hk hl hc => exact h.onOpen hk hl hc _
  | refused hi => exact h.onUnexpectedResponse hi _ _
  | failed _ => exact ⟨h.current, h.exclusive, h.halted, h.running, h.connected⟩
  | closed hk hl hc => exact h.onClose hk hl hc _
  | retry hd => exact h.retry hd
  | clients => exact ⟨h.current, h.exclusive, h.halted, h.running, h.connected⟩

/-! ## Discarded sockets -/

/-- Sockets stay, and those without listeners get none. -/
def Keeps (s t : SharedTunnel) : Prop :=
  ∀ (i : ℕ) (k : TunnelSocket), s.sockets[i]? = some k →
    ∃ k' : TunnelSocket, t.sockets[i]? = some k' ∧ (k.listens = false → k'.listens = false)

namespace Keeps

theorem of_sockets (h : t.sockets = s.sockets) : s.Keeps t := fun _ k hk => ⟨k, h ▸ hk, id⟩

theorem trans {u : SharedTunnel} (h : s.Keeps t) (h' : t.Keeps u) : s.Keeps u := by
  intro i k hk
  obtain ⟨k', hk', hl⟩ := h i k hk
  obtain ⟨k'', hk'', hl'⟩ := h' i k' hk'
  exact ⟨k'', hk'', fun h => hl' (hl h)⟩

theorem setSocket {k k' : TunnelSocket} (hk : s.sockets[i]? = some k)
    (hl : k.listens = false → k'.listens = false) : s.Keeps (s.setSocket i k') := by
  intro j k₁ hj
  rw [getElem?_setSocket hk]
  split_ifs with hji
  · subst hji
    rw [hk] at hj
    obtain rfl := Option.some.inj hj
    exact ⟨k', rfl, hl⟩
  · exact ⟨k₁, hj, id⟩

theorem dial (h : t.sockets = s.sockets) : s.Keeps t.dial := by
  unfold SharedTunnel.dial
  split_ifs
  · exact of_sockets h
  · intro i k hk
    rw [← h] at hk
    obtain ⟨hlt, -⟩ := List.getElem?_eq_some_iff.mp hk
    exact ⟨k, (List.getElem?_append_left hlt).trans hk, id⟩

theorem teardownSocket (h : t.sockets = s.sockets) : s.Keeps t.teardownSocket := by
  refine (of_sockets h).trans ?_
  unfold SharedTunnel.teardownSocket unlisten
  cases t.socket with
  | none => exact of_sockets rfl
  | some i =>
    simp only
    cases hk : t.sockets[i]? with
    | none => exact of_sockets rfl
    | some k =>
      have hset : t.Keeps (t.setSocket i { k with listens := false }) := setSocket hk fun _ => rfl
      exact hset

theorem scheduleReconnect (h : t.sockets = s.sockets) (now : ℕ) :
    s.Keeps (t.scheduleReconnect now) := by
  unfold SharedTunnel.scheduleReconnect
  split_ifs <;> exact of_sockets h

theorem stop (h : t.sockets = s.sockets) : s.Keeps t.stop := by
  have hteardown : s.Keeps { t with stopped := true, retryTimer := none }.teardownSocket :=
    teardownSocket h
  exact hteardown.trans (of_sockets rfl)

theorem onUnexpectedResponse (s : SharedTunnel) (status now : ℕ) :
    s.teardownSocket.Keeps (s.onUnexpectedResponse status now) := by
  unfold SharedTunnel.onUnexpectedResponse
  simp only
  split_ifs
  · exact of_sockets rfl
  · exact stop rfl
  · exact scheduleReconnect (by rfl) now

theorem step (h : s.step e = some t) : s.Keeps t := by
  cases Step.of_step h with
  | start =>
    unfold SharedTunnel.start
    split_ifs
    · exact dial rfl
    · exact of_sockets rfl
  | stop => exact stop rfl
  | ignored _ hk hl hl' => exact setSocket hk fun _ => hl'
  | @opened _ _ k hk hl hc =>
    have hset : s.Keeps (s.setSocket _ { k with opened := true }) := setSocket hk id
    exact hset.trans (of_sockets rfl)
  | refused hi => exact (teardownSocket rfl).trans (onUnexpectedResponse s _ _)
  | failed _ => exact of_sockets rfl
  | @closed _ _ k hk hl hc =>
    have hset : s.Keeps (s.setSocket _ { k with closed := true }) := setSocket hk id
    exact hset.trans (scheduleReconnect (by rfl) _)
  | retry _ => exact dial rfl
  | clients => exact of_sockets rfl

theorem discarded (h : s.Keeps t) (hd : s.Discarded i) : t.Discarded i := by
  obtain ⟨k, hk, hl⟩ := hd
  obtain ⟨k', hk', hl'⟩ := h i k hk
  exact ⟨k', hk', hl' hl⟩

end Keeps

/-- A discarded socket changes nothing but itself. -/
theorem step_of_discarded (hd : s.Discarded i) (he : e.socket = some i) (h : s.step e = some t) :
    ∃ k, t = s.setSocket i k := by
  obtain ⟨k, hk, hl⟩ := hd
  have dead : ∀ {k'}, s.sockets[i]? = some k' → k'.listens = true → False := by
    intro k' hk' hl'
    rw [hk] at hk'
    obtain rfl := Option.some.inj hk'
    rw [hl] at hl'
    cases hl'
  cases Step.of_step h with
  | start => cases he
  | stop => cases he
  | ignored he' _ _ _ =>
    rw [he] at he'
    obtain rfl := Option.some.inj he'
    exact ⟨_, rfl⟩
  | opened hk' hl' _ =>
    obtain rfl := Option.some.inj he
    exact (dead hk' hl').elim
  | refused hi =>
    obtain rfl := Option.some.inj he
    obtain ⟨k', hk', hl', -⟩ := hi
    exact (dead hk' hl').elim
  | failed hi =>
    obtain rfl := Option.some.inj he
    obtain ⟨k', hk', hl', -⟩ := hi
    exact (dead hk' hl').elim
  | closed hk' hl' _ =>
    obtain rfl := Option.some.inj he
    exact (dead hk' hl').elim
  | retry _ => cases he
  | clients => cases he

theorem discarded_teardownSocket (hcur : s.socket = some i) (hi : s.Live i) :
    s.teardownSocket.Discarded i := by
  obtain ⟨k, hk, -⟩ := hi
  refine ⟨{ k with listens := false }, ?_, rfl⟩
  unfold teardownSocket unlisten
  simp only [hcur, hk]
  exact (getElem?_setSocket hk i).trans (if_pos rfl)

/-- `stop`, or an unexpected response to the socket. -/
def Discards (i : ℕ) : TunnelEvent → Prop
  | .stop => True
  | .unexpectedResponse j _ _ => j = i
  | _ => False

theorem Sound.discards (h : s.Sound) (hi : s.Live i) (he : Discards i e) (ht : s.step e = some t) :
    t.Discarded i := by
  have hcur := h.current i hi
  cases e <;> try exact absurd he id
  case stop =>
    obtain rfl := Option.some.inj ht
    have hd : ({ s with stopped := true, retryTimer := none } : SharedTunnel).teardownSocket.Discarded
        i := discarded_teardownSocket hcur hi
    exact (Keeps.of_sockets rfl).discarded hd
  case unexpectedResponse j status now =>
    obtain rfl : j = i := he
    have hd := discarded_teardownSocket hcur hi
    cases Step.of_step ht with
    | ignored he' hk hl hl' =>
      obtain rfl := Option.some.inj he'
      obtain ⟨k, hk', hl₁, -⟩ := hi
      rw [hk] at hk'
      obtain rfl := Option.some.inj hk'
      rw [hl] at hl₁
      cases hl₁
    | refused _ => exact (Keeps.onUnexpectedResponse s _ _).discarded hd

/-! ## Halting -/

/-- `stop`, or a rejection that another dial with the same secret cannot mend. -/
def Halts (s : SharedTunnel) : TunnelEvent → Prop
  | .stop => True
  | .unexpectedResponse i status _ => s.Live i ∧ status ∈ [401, 403, 409, 426]
  | _ => False

theorem length_stop (s : SharedTunnel) :
    s.stop.stopped = true ∧ s.stop.sockets.length = s.sockets.length := by
  obtain ⟨hs, -, -, hl⟩ := teardownSocket_frame { s with stopped := true, retryTimer := none }
  exact ⟨hs, hl⟩

theorem stopped_of_halts (he : s.Halts e) (ht : s.step e = some t) :
    t.stopped = true ∧ t.sockets.length = s.sockets.length := by
  cases e <;> try exact absurd he id
  case stop =>
    obtain rfl := Option.some.inj ht
    exact length_stop s
  case unexpectedResponse i status now =>
    obtain ⟨⟨k, hk, hl, -⟩, hst⟩ := he
    cases Step.of_step ht with
    | ignored he' hk' hl' _ =>
      obtain rfl := Option.some.inj he'
      rw [hk] at hk'
      obtain rfl := Option.some.inj hk'
      rw [hl] at hl'
      cases hl'
    | refused _ =>
      have hlen := (teardownSocket_frame s).2.2.2
      unfold SharedTunnel.onUnexpectedResponse
      simp only
      split_ifs with h₁ h₂
      · exact ⟨rfl, hlen⟩
      · obtain ⟨hs, hl'⟩ := length_stop { s.teardownSocket with lastError := some (rejected status) }
        exact ⟨hs, hl'.trans hlen⟩
      · simp at hst
        omega

/-- A stopped tunnel stays so until it is started. -/
theorem Sound.stays_stopped (h : s.Sound) (hs : s.stopped = true) (he : e ≠ .start)
    (ht : s.step e = some t) : t.stopped = true ∧ t.sockets.length = s.sockets.length := by
  have dead : ∀ i, ¬ s.Live i := by
    intro i hi
    have := (h.exclusive i hi).2
    rw [hs] at this
    cases this
  cases Step.of_step ht with
  | start => exact absurd rfl he
  | stop => exact length_stop s
  | ignored _ _ _ _ => exact ⟨hs, List.length_set⟩
  | opened hk hl hc => exact absurd ⟨_, hk, hl, hc⟩ (dead _)
  | refused hi => exact absurd hi (dead _)
  | failed hi => exact absurd hi (dead _)
  | closed hk hl hc => exact absurd ⟨_, hk, hl, hc⟩ (dead _)
  | retry hd =>
    rw [h.halted hs] at hd
    cases hd
  | clients => exact ⟨hs, rfl⟩

/-! ## Runs -/

/-- The states of the tunnel on its own. -/
structure OneDialer (s : SharedTunnel) : Prop where
  single : ∀ i j, s.Live i → s.Live j → i = j
  exclusive : ∀ i, s.Live i → s.retryTimer = none
  retries : s.stopped = false → (∃ i, s.Live i) ∨ s.retryTimer.isSome = true
  connected : s.state = .connected ↔ s.Connected

/-- **One dial at a time.** In every run: there is one live socket or one timer while the tunnel is
started, a socket that is discarded changes nothing any more, and after `stop` or a final rejection
nothing is dialed before the next `start`. -/
theorem dials_one_at_a_time (h : Machine.Reaches step (fun _ _ => True) new s) :
    s.OneDialer ∧
      (∀ i e t, s.Live i → Discards i e → s.step e = some t →
        ∀ u, Machine.Reaches step (fun _ _ => True) t u →
          ∀ e' v, e'.socket = some i → u.step e' = some v → ∃ k, v = u.setSocket i k) ∧
      ∀ e t, s.Halts e → s.step e = some t →
        ∀ u, Machine.Reaches step (fun _ e => e ≠ .start) t u →
          u.sockets.length = s.sockets.length := by
  have hs : s.Sound := h.invariant sound_new fun _ _ _ hs _ ht => hs.step ht
  refine ⟨⟨fun i j hi hj => ?_, fun i hi => (hs.exclusive i hi).1, hs.running, hs.connected⟩, ?_, ?_⟩
  · have hij := (hs.current i hi).symm.trans (hs.current j hj)
    exact Option.some.inj hij
  · intro i e t hi he ht u hu e' v he' hv
    have hd : u.Discarded i := hu.invariant (hs.discards hi he ht) fun _ _ _ hd _ hstep =>
      (Keeps.step hstep).discarded hd
    exact step_of_discarded hd he' hv
  · intro e t he ht u hu
    have hstop := stopped_of_halts he ht
    have hkept := hu.invariant
      (I := fun u => u.Sound ∧ u.stopped = true ∧ u.sockets.length = s.sockets.length)
      ⟨hs.step ht, hstop⟩ fun _ _ _ ⟨hsu, hstu, hlu⟩ hne hstep => by
        obtain ⟨hst', hl'⟩ := hsu.stays_stopped hstu hne hstep
        exact ⟨hsu.step hstep, hst', hl'.trans hlu⟩
    exact hkept.2.2

/-- A tunnel that connects and is stopped. -/
theorem dials_one_at_a_time_connected :
    ∃ s t, Machine.Reaches step (fun _ _ => True) new s ∧ s.Connected ∧ s.step .stop = some t ∧
      t.sockets.length = 1 := by
  have hstart : Machine.Reaches step (fun _ _ => True) new new.start :=
    .tail .refl (e := .start) trivial rfl
  have hopen := hstart.tail (e := .socketOpen 0 5) trivial rfl
  have hmain := dials_one_at_a_time hopen
  refine ⟨_, _, hopen, hmain.1.connected.mp rfl, rfl, ?_⟩
  exact hmain.2.2 .stop _ trivial rfl _ .refl

end SharedTunnel

end BbShared
