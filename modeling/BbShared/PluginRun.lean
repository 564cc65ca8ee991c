import BbShared.ConnectionStore
import BbShared.Redemptions
import BbShared.Registry
import BbShared.ShareQueue

/-!
# One run of the plugin

`server.ts` and what it puts together: the share record that is loaded first, the guest gateway with
the guest sessions, and the lifecycle of the connections.  Each of them has its own record in the
store.  Reads, writes and the device key may fail at any time, or give another key.

The gateway is started once, whatever becomes of it; the connections are loaded once.  A guest's
redemption needs a started gateway, and so does a call that concerns the connections.
-/

namespace BbShared

open Js

/-! ## State -/

/-- The part of the factory: the invitations, once their record is loaded. -/
inductive SharePart where
  | unloaded (kv : Option Json)
  /-- `kv.get` was rejected, and the factory with it. -/
  | failed (kv : Option Json)
  | loaded (queue : ShareQueue)

def SharePart.kv : SharePart → Option Json
  | .unloaded kv | .failed kv => kv
  | .loaded queue => queue.kv

/-- `gatewayStart`: where `ensureGateway` waits, or how it ended. -/
inductive GatewayPart where
  | absent (kv : Option Json)
  | loading (kv : Option Json)
  | listening (queue : SessionQueue)
  | started (queue : SessionQueue)
  | failed (kv : Option Json)

def GatewayPart.kv : GatewayPart → Option Json
  | .absent kv | .loading kv | .failed kv => kv
  | .listening queue | .started queue => queue.kv

structure PluginRun where
  shares : SharePart
  gateway : GatewayPart
  connections : ConnectionStore
  worker : WorkerLifecycle
  disposed : Bool

/-- The records of the plugin. -/
inductive RecordName where
  | shares
  | sessions
  | connections

namespace PluginRun

/-- The value of a record in the store. -/
def kv (s : PluginRun) : RecordName → Option Json
  | .shares => s.shares.kv
  | .sessions => s.gateway.kv
  | .connections => s.connections.kv

/-- Before the factory runs. -/
def start (kv : RecordName → Option Json) : PluginRun where
  shares := .unloaded (kv .shares)
  gateway := .absent (kv .sessions)
  connections := ⟨kv .connections, false⟩
  worker := .init
  disposed := false

end PluginRun

/-! ## Events -/

/-- The answers of the record store are events of their own. -/
def WorkerLifecycle.Event.isStoreAnswer : WorkerLifecycle.Event → Bool
  | .loaded _ | .saved | .saveFailed _ => true
  | _ => false

inductive PluginEvent where
  /-- `written` is the save of a record that was not sealed. -/
  | loadShares (read : RecordRead) (hmacKey : Bytes) (written : Option Nonce)
  | share (e : ShareEvent)
  | ensureGateway
  | loadSessions (read : RecordRead) (clock : Clock) (store : Invitations)
  /-- The server listens, or does not. -/
  | listening (ok : Bool)
  | session (key : RandomKey) (e : SessionEvent)
  | worker (e : WorkerLifecycle.Event)
  | loadConnections (read : RecordRead)
  | saveConnections (invalid : Text) (written : Except Text (RandomKey × Nonce))
  | dispose

namespace PluginRun

/-! ## Steps -/

/-- `Sessions.load`, with its read of the store and of the key. -/
def readSessions (aes : Aes) (r : RecordRead) (clock : Clock) (kv : Option Json) : Option Sessions :=
  if r.fault.isSome then none else
    match kv with
    | none => some .empty
    | some .null => some .empty
    | some raw => r.key.bind fun key => loadSessions aes key.1 clock (some raw)

/-- The sessions when the gateway starts. -/
def openSessions (kv : Option Json) (store : Invitations) (clock : Clock) (sessions : Sessions) :
    SessionQueue where
  sessions := sessions
  kv := kv
  store := store
  now := clock.reading 2048
  calls := 0
  waiting := []
  running := none
  settled := []

variable (hmac : Hmac) (aes : Aes) (parser : UrlParser) (print : ℚ → Number)
  (verifyReadiness : Text → Json → Bool)

/-- `none` where the event cannot happen. -/
def step (s : PluginRun) : PluginEvent → Option PluginRun
  | .loadShares read hmacKey written =>
    match s.shares with
    | .unloaded kv =>
      if read.fault.isSome then some { s with shares := .failed kv } else
        some { s with shares := .loaded (.start hmac hmacKey (loadShares aes read.key written kv)) }
    | _ => none
  | .share e =>
    match s.shares with
    | .loaded queue => (queue.step hmac aes e).map fun queue => { s with shares := .loaded queue }
    | _ => none
  | .ensureGateway =>
    match s.shares, s.gateway with
    | .loaded _, .absent kv =>
      some { s with gateway := if s.disposed then .failed kv else .loading kv }
    | .loaded _, _ => some s
    | _, _ => none
  | .loadSessions read clock store =>
    match s.gateway with
    | .loading kv =>
      match readSessions aes read clock kv with
      | none => some { s with gateway := .failed kv }
      | some sessions => some { s with gateway := .listening (openSessions kv store clock sessions) }
    | _ => none
  | .listening ok =>
    match s.gateway with
    | .listening queue =>
      some { s with gateway := if ok ∧ ¬ s.disposed then .started queue else .failed queue.kv }
    | _ => none
  | .session key e =>
    match s.gateway with
    | .started queue =>
      if e.isRestart then none else
        (queue.step hmac aes key e).map fun queue => { s with gateway := .started queue }
    | _ => none
  | .worker e =>
    match s.gateway with
    | .started _ =>
      if e.isStoreAnswer then none else
        (s.worker.step parser verifyReadiness e).map fun worker => { s with worker }
    | _ => none
  | .loadConnections read =>
    (s.worker.step parser verifyReadiness (.loaded (s.connections.load parser aes read).2)).map
      fun worker => { s with worker, connections := (s.connections.load parser aes read).1 }
  | .saveConnections invalid written =>
    match s.worker.running with
    | some (.saving _ snapshot) =>
      match s.connections.save parser aes print snapshot invalid written with
      | .error message =>
        (s.worker.step parser verifyReadiness (.saveFailed message)).map
          fun worker => { s with worker }
      | .ok connections =>
        (s.worker.step parser verifyReadiness .saved).map
          fun worker => { s with worker, connections }
    | _ => none
  | .dispose =>
    match s.shares with
    | .loaded _ => some { s with disposed := true, worker := s.worker.stop }
    | _ => none

/-- What a step can be. -/
inductive Step (s : PluginRun) : PluginEvent → PluginRun → Prop
  | sharesFailed {kv : Option Json} {read : RecordRead} {hmacKey : Bytes} {written : Option Nonce} :
    s.shares = .unloaded kv → read.fault ≠ none →
      Step s (.loadShares read hmacKey written) { s with shares := .failed kv }
  | sharesLoaded {kv : Option Json} {read : RecordRead} {hmacKey : Bytes} {written : Option Nonce} :
    s.shares = .unloaded kv → read.fault = none → Step s (.loadShares read hmacKey written)
      { s with shares := .loaded (.start hmac hmacKey (loadShares aes read.key written kv)) }
  | share {queue queue' : ShareQueue} {e : ShareEvent} :
    s.shares = .loaded queue → queue.step hmac aes e = some queue' →
      Step s (.share e) { s with shares := .loaded queue' }
  | ensureGateway {kv : Option Json} : s.gateway = .absent kv →
    Step s .ensureGateway { s with gateway := if s.disposed then .failed kv else .loading kv }
  | gatewayThere : Step s .ensureGateway s
  | sessionsFailed {kv : Option Json} {read : RecordRead} {clock : Clock} {store : Invitations} :
    s.gateway = .loading kv → readSessions aes read clock kv = none →
      Step s (.loadSessions read clock store) { s with gateway := .failed kv }
  | sessionsLoaded {kv : Option Json} {read : RecordRead} {clock : Clock} {store : Invitations}
    {sessions : Sessions} :
    s.gateway = .loading kv → readSessions aes read clock kv = some sessions →
      Step s (.loadSessions read clock store)
        { s with gateway := .listening (openSessions kv store clock sessions) }
  | listening {queue : SessionQueue} {ok : Bool} : s.gateway = .listening queue →
    Step s (.listening ok)
      { s with gateway := if ok ∧ ¬ s.disposed then .started queue else .failed queue.kv }
  | session {queue queue' : SessionQueue} {key : RandomKey} {e : SessionEvent} :
    s.gateway = .started queue → Step s (.session key e) { s with gateway := .started queue' }
  | worker {worker : WorkerLifecycle} {e : WorkerLifecycle.Event} :
    e.isStoreAnswer = false → s.worker.step parser verifyReadiness e = some worker →
      Step s (.worker e) { s with worker }
  | loadConnections {worker : WorkerLifecycle} {read : RecordRead} :
    s.worker.step parser verifyReadiness (.loaded (s.connections.load parser aes read).2) =
        some worker →
      Step s (.loadConnections read)
        { s with worker, connections := (s.connections.load parser aes read).1 }
  | connectionsFailed {worker : WorkerLifecycle} {write : Write}
    {snapshot : ConnectionSnapshot} {invalid message : Text}
    {written : Except Text (RandomKey × Nonce)} :
    s.worker.running = some (.saving write snapshot) →
      s.worker.step parser verifyReadiness (.saveFailed message) = some worker →
      Step s (.saveConnections invalid written) { s with worker }
  | connectionsSaved {worker : WorkerLifecycle} {write : Write}
    {snapshot : ConnectionSnapshot} {connections : ConnectionStore} {invalid : Text}
    {written : Except Text (RandomKey × Nonce)} :
    s.worker.running = some (.saving write snapshot) →
      s.connections.save parser aes print snapshot invalid written = .ok connections →
      s.worker.step parser verifyReadiness .saved = some worker →
      Step s (.saveConnections invalid written) { s with worker, connections }
  | dispose : Step s .dispose { s with disposed := true, worker := s.worker.stop }

variable {hmac aes parser print verifyReadiness} {s t : PluginRun} {e : PluginEvent}

theorem Step.of_step (h : s.step hmac aes parser print verifyReadiness e = some t) :
    Step hmac aes parser print verifyReadiness s e t := by
  unfold step at h
  cases e with
  | loadShares read hmacKey written =>
    simp only at h
    split at h
    · rename_i kv hs
      split_ifs at h with hf
      · obtain rfl := Option.some.inj h
        exact .sharesFailed hs (Option.isSome_iff_ne_none.mp hf)
      · obtain rfl := Option.some.inj h
        exact .sharesLoaded hs (Option.not_isSome_iff_eq_none.mp hf)
    · cases h
  | share e =>
    simp only at h
    split at h
    · rename_i queue hs
      obtain ⟨queue', hq, rfl⟩ := Option.map_eq_some_iff.mp h
      exact .share hs hq
    · cases h
  | ensureGateway =>
    simp only at h
    split at h
    · rename_i hg
      obtain rfl := Option.some.inj h
      exact .ensureGateway hg
    · obtain rfl := Option.some.inj h
      exact .gatewayThere
    · cases h
  | loadSessions read clock store =>
    simp only at h
    split at h
    · rename_i hg
      split at h
      · rename_i hr
        obtain rfl := Option.some.inj h
        exact .sessionsFailed hg hr
      · rename_i hr
        obtain rfl := Option.some.inj h
        exact .sessionsLoaded hg hr
    · cases h
  | listening ok =>
    simp only at h
    split at h
    · rename_i hg
      obtain rfl := Option.some.inj h
      exact .listening hg
    · cases h
  | session key e =>
    simp only at h
    split at h
    · rename_i hg
      split_ifs at h
      obtain ⟨queue, -, rfl⟩ := Option.map_eq_some_iff.mp h
      exact .session hg
    · cases h
  | worker e =>
    simp only at h
    split at h
    · split_ifs at h with he
      obtain ⟨worker, hw, rfl⟩ := Option.map_eq_some_iff.mp h
      exact .worker (Bool.eq_false_iff.mpr he) hw
    · cases h
  | loadConnections read =>
    obtain ⟨worker, hw, rfl⟩ := Option.map_eq_some_iff.mp h
    exact .loadConnections hw
  | saveConnections invalid written =>
    simp only at h
    split at h
    · rename_i hr
      split at h
      · obtain ⟨worker, hw, rfl⟩ := Option.map_eq_some_iff.mp h
        exact .connectionsFailed hr hw
      · rename_i hs
        obtain ⟨worker, hw, rfl⟩ := Option.map_eq_some_iff.mp h
        exact .connectionsSaved hr hs hw
    · cases h
  | dispose =>
    simp only at h
    split at h
    · obtain rfl := Option.some.inj h
      exact .dispose
    · cases h

end PluginRun

end BbShared
