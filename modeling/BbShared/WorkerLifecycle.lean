import BbShared.ConnectionRecord
import BbShared.Store
import BbShared.Js.Json
import BbShared.Js.OrderedMap
import BbShared.Machine

/-!
# The worker lifecycle

`worker-lifecycle/worker-lifecycle.ts`: the connections, their tunnels and readiness probes, and the
queue of the calls that change them.

Runtimes are objects with an identity: `runtimes` is the heap they live in, `connections` and
`candidates` hold their places in it.  A step is one piece of synchronous code: what runs from a
call, a timer, a tunnel event or a settled promise to the next `await`.  Publishing the status to
the owner's panel changes nothing here and is left out.

The `clock` and the fields of `History` are not in the program: they record when things happened.
-/

namespace BbShared

open Js

/-! ## Redaction -/

/-- `replace(/pre[A-Za-z0-9_-]{least,}/g, "[redacted]")`, with the length of the text as fuel. -/
def redactRuns (pre : Text) (least : ℕ) : ℕ → Text → Text
  | 0, s => s
  | _ + 1, [] => []
  | n + 1, c :: s =>
    match (c :: s).dropPrefix? pre with
    | some r =>
      if least ≤ (r.takeWhile isTokenChar).length then
        "[redacted]".toList ++ redactRuns pre least n (r.dropWhile isTokenChar)
      else c :: redactRuns pre least n s
    | none => c :: redactRuns pre least n s

/-- Scrub any embedded secret-shaped value. -/
def redactSecrets (text : Text) : Text :=
  let redact := fun (pre : Text) least (s : Text) => redactRuns pre least s.length s
  redact [] 32 (redact "bbcm_".toList 1 (redact "bbsh_".toList 1 text))

example : redactSecrets "token=bbsh_abc123DEF-_ and pair=bbcm_XYZ789".toList =
    "token=[redacted] and pair=[redacted]".toList := by decide +kernel

/-! ## One connection -/

inductive TunnelState where
  | disconnected | connecting | connected | reconnecting | incompatible | stopped
  deriving DecidableEq

inductive ConnectionState where
  | connecting | ready | offline | incompatible
  deriving DecidableEq

/-- The status of a `SharedTunnel`. -/
structure Tunnel where
  state : TunnelState
  lastError : Option Text

/-- A probe in flight; `answered` once it has run to its end and only its cleanup is left. -/
structure Probe where
  generation : ℕ
  challenge : Text
  began : ℕ
  answered : Bool

/-- When the tunnel's status last changed, and the probe and the verified body that last made the
connection ready. -/
structure History where
  changed : ℕ
  proof : Option (Probe × Json)

structure Runtime where
  record : ConnectionRecord
  state : ConnectionState
  fault : Option Text
  tunnel : Option Tunnel
  probe : Option Probe
  generation : ℕ
  history : History

/-- A runtime before `connect`. -/
def Runtime.init (record : ConnectionRecord) : Runtime :=
  ⟨record, .connecting, none, none, none, 0, ⟨0, none⟩⟩

instance : Inhabited Runtime := ⟨.init ⟨[], [], [], [], none, 0⟩⟩

namespace Runtime

def tunnelState (r : Runtime) : Option TunnelState := r.tunnel.map (·.state)

/-- The callback of `connect`, up to the probe that it starts. -/
def onStatusChange (r : Runtime) (state : TunnelState) (now : ℕ) : Runtime :=
  { r with
    generation := r.generation + 1
    state := match state with
      | .incompatible => .incompatible
      | .stopped | .reconnecting | .disconnected => .offline
      | .connected | .connecting => .connecting
    fault := match state with
      | .connected | .connecting => none
      | _ => some ((r.tunnel.bind (·.lastError)).getD
          "Connection to relay interrupted; reconnecting.".toList)
    history := { r.history with changed := now } }

/-- `SharedTunnel.setState`: a status that is already set is not announced. -/
def setState (r : Runtime) (next : TunnelState) (now : ℕ) : Runtime :=
  match r.tunnel with
  | none => r
  | some t =>
    if t.state = next then r
    else { r with tunnel := some { t with state := next } }.onStatusChange next now

/-- `lastError`, which the tunnel sets between two status changes. -/
def setLastError (r : Runtime) (error : Option Text) : Runtime :=
  { r with tunnel := r.tunnel.map fun t => { t with lastError := error } }

/-- `connect`, in a lifecycle that is not stopped: the tunnel starts by opening its socket. -/
def connect (r : Runtime) (now : ℕ) : Runtime :=
  { r with tunnel := some ⟨.disconnected, none⟩ }.setState .connecting now

/-- `tunnel?.stop()`. -/
def stop (r : Runtime) (now : ℕ) : Runtime := r.setState .stopped now

/-- `probe`, up to its fetch. -/
def startProbe (r : Runtime) (aborted : Bool) (challenge : Text) (now : ℕ) : Runtime :=
  if r.probe.isSome ∨ aborted ∨ r.tunnelState ≠ some .connected then r
  else { r with probe := some ⟨r.generation, challenge, now, false⟩ }

end Runtime

/-- What a probe's fetch comes to: a response with its body, or an exception with its message. -/
inductive ProbeAnswer where
  | response (status : ℕ) (body : Json)
  | failed (error : Option Text)

/-- `Response.ok`. -/
def responseOk (status : ℕ) : Bool := 200 ≤ status && status ≤ 299

section Answer

variable (verifyReadiness : Text → Json → Bool)

/-- `probe` after its last `await`: both ends compare the generation first. -/
def Runtime.answerProbe (r : Runtime) (aborted : Bool) (answer : ProbeAnswer) : Runtime :=
  match r.probe with
  | none => r
  | some p =>
    if p.answered then r
    else
      let r := { r with probe := some { p with answered := true } }
      if r.generation ≠ p.generation ∨ aborted then r
      else
        match answer with
        | .response status body =>
          if responseOk status && verifyReadiness p.challenge body then
            { r with state := .ready, fault := none,
                     history := { r.history with proof := some (p, body) } }
          else
            { r with state := .offline
                     fault := some (redactSecrets ("Guest gateway readiness failed (HTTP ".toList ++
                       Nat.toDigits 10 status ++ ").".toList)) }
        | .failed error =>
          { r with state := .offline
                   fault := some (redactSecrets
                     (error.getD "Guest gateway is unavailable.".toList)) }

end Answer

/-- The `finally` of a probe. -/
def Runtime.settleProbe (r : Runtime) : Runtime :=
  match r.probe with
  | some p => if p.answered then { r with probe := none } else r
  | none => r

/-! ## The lifecycle -/

inductive Initialization where
  | absent | loading | done
  | failed (error : Text)

/-- A call that waits in the queue of mutations. -/
inductive Mutation where
  | ensureDeployed
  | deployConnection
  | registerConnection (url tunnelSecret : Text)
  | removeConnection (id : Text)
  | setDefaultConnection (id : Text)

/-- What is left to do once a save has succeeded. -/
inductive Write where
  | register (i : ℕ) (defaultId : Text)
  | remove (id : Text) (i : ℕ) (defaultId : Option Text)
  | setDefault (id : Text)

/-- Where the running mutation waits. -/
inductive Phase where
  | initializing (m : Mutation)
  | deploying (secret : Text)
  | identifying (url tunnelSecret : Text) (claim : Option Claim)
  | probing (i : ℕ)
  | sleeping (i : ℕ)
  | saving (write : Write) (snapshot : ConnectionSnapshot)

/-- `handed` are the snapshots given to the record store, `saved` is the one it last loaded or
saved, `rejected` are the candidates of failed registrations. -/
structure WorkerLifecycle where
  runtimes : ℕ → Runtime
  created : ℕ
  connections : OrderedMap Text ℕ
  candidates : List ℕ
  defaultId : Option Text
  initialization : Initialization
  queue : List Mutation
  running : Option Phase
  aborted : Bool
  clock : ℕ
  handed : List ConnectionSnapshot
  saved : Option ConnectionSnapshot
  rejected : List ℕ
  results : List (Except Text Unit)

namespace WorkerLifecycle

/-- `new WorkerLifecycle`. -/
def init : WorkerLifecycle where
  runtimes := fun _ => default
  created := 0
  connections := .empty
  candidates := []
  defaultId := none
  initialization := .absent
  queue := []
  running := none
  aborted := false
  clock := 1
  handed := []
  saved := none
  rejected := []
  results := []

/-- The records of the connections, in order. -/
def records (s : WorkerLifecycle) : List ConnectionRecord :=
  s.connections.values.map fun i => (s.runtimes i).record

/-- Change one runtime. -/
def modify (s : WorkerLifecycle) (i : ℕ) (f : Runtime → Runtime) : WorkerLifecycle :=
  { s with runtimes := fun j => if j = i then f (s.runtimes j) else s.runtimes j }

/-- Change some runtimes. -/
def modifyAll (s : WorkerLifecycle) (is : List ℕ) (f : Runtime → Runtime) : WorkerLifecycle :=
  { s with runtimes := fun j => if j ∈ is then f (s.runtimes j) else s.runtimes j }

def tick (s : WorkerLifecycle) : WorkerLifecycle := { s with clock := s.clock + 1 }

/-- A new runtime, at the place `created`. -/
def allocate (s : WorkerLifecycle) (record : ConnectionRecord) : WorkerLifecycle :=
  { s with
    runtimes := fun j => if j = s.created then .init record else s.runtimes j
    created := s.created + 1 }

/-- `connect`. -/
def connect (s : WorkerLifecycle) (i : ℕ) : WorkerLifecycle :=
  if s.aborted then s else (s.modify i (·.connect s.clock)).tick

/-- The running mutation ends. -/
def settle (s : WorkerLifecycle) (result : Except Text Unit) : WorkerLifecycle :=
  { s with running := none, results := s.results ++ [result] }

/-- `this.probe(runtime)`. -/
def probe (s : WorkerLifecycle) (i : ℕ) (challenge : Text) : WorkerLifecycle :=
  (s.modify i (·.startProbe s.aborted challenge s.clock)).tick

/-- `tunnel?.stop()`. -/
def stopTunnel (s : WorkerLifecycle) (i : ℕ) : WorkerLifecycle :=
  (s.modify i (·.stop s.clock)).tick

/-! ### Initialisation -/

/-- One record of a loaded snapshot. -/
def restore (s : WorkerLifecycle) (record : ConnectionRecord) : WorkerLifecycle :=
  { s.allocate record with connections := s.connections.set record.id s.created }.connect s.created

/-- `initialize`, once the store has answered. -/
def loaded (s : WorkerLifecycle) : Except Text ConnectionSnapshot → WorkerLifecycle
  | .error e => { s with initialization := .failed e }
  | .ok snapshot =>
    let s := snapshot.connections.foldl restore { s with defaultId := snapshot.defaultId }
    { s with initialization := .done, saved := some snapshot }

/-! ### Mutations -/

/-- `save`, up to the store. -/
def save (s : WorkerLifecycle) (write : Write) (records : List ConnectionRecord)
    (defaultId : Option Text) (now : ℚ) : WorkerLifecycle :=
  let snapshot : ConnectionSnapshot := ⟨defaultId, records.map (·.expire now)⟩
  { s with running := some (.saving write snapshot), handed := s.handed ++ [snapshot] }

/-- The `catch` and `finally` of `register`. -/
def rejectCandidate (s : WorkerLifecycle) (i : ℕ) (message : Text) : WorkerLifecycle :=
  let s := s.stopTunnel i
  { s with candidates := s.candidates.erase i, rejected := s.rejected ++ [i] }.settle
    (.error (redactSecrets message))

/-- `deploy`, up to the deployment. -/
def deploy (s : WorkerLifecycle) (random : Bytes) : WorkerLifecycle :=
  if 16 ≤ s.connections.size then
    s.settle (.error "Remove an unused connection before adding another.".toList)
  else { s with running := some (.deploying (base64url random)) }

section Parser

variable (parser : UrlParser)

/-- `register`, up to the relay's identity. -/
def register (s : WorkerLifecycle) (input tunnelSecret : Text) (claim : Option Claim) :
    WorkerLifecycle :=
  match normalizeConnectionUrl parser.parse input with
  | .error e => s.settle (.error e)
  | .ok url =>
    if isTunnelSecret tunnelSecret = false then
      s.settle (.error "Enter the relay's pairing secret (32–256 base64url characters).".toList)
    else if 16 ≤ s.connections.size then
      s.settle (.error "Remove an unused connection before adding another.".toList)
    else if url ∈ s.records.map (·.url) then
      s.settle (.error "This hostname is already registered.".toList)
    else { s with running := some (.identifying url tunnelSecret claim) }

/-- The operation of a mutation, up to its first `await`. -/
def operation (s : WorkerLifecycle) (random : Bytes) (now : ℚ) : Mutation → WorkerLifecycle
  | .ensureDeployed => if s.connections.size = 0 then s.deploy random else s.settle (.ok ())
  | .deployConnection => s.deploy random
  | .registerConnection url tunnelSecret => s.register parser url tunnelSecret none
  | .removeConnection id =>
    match s.connections.get id with
    | none => s.settle (.error "Connection not found.".toList)
    | some i =>
      let next := (s.connections.values.filter (· ≠ i)).map fun j => (s.runtimes j).record
      let defaultId := if s.defaultId = some id then next.head?.map (·.id) else s.defaultId
      s.save (.remove id i defaultId) next defaultId now
  | .setDefaultConnection id =>
    match s.connections.get id with
    | none => s.settle (.error "Connection not found.".toList)
    | some _ => s.save (.setDefault id) s.records (some id) now

/-- `mutate`, once `initialize` has settled. -/
def operate (s : WorkerLifecycle) (m : Mutation) (random : Bytes) (now : ℚ) : WorkerLifecycle :=
  match s.initialization with
  | .failed e => s.settle (.error e)
  | .absent | .loading => s
  | .done =>
    if s.aborted then
      s.settle (.error "Sharing is stopping. Try again after the plugin reloads.".toList)
    else s.operation parser random now m

end Parser

/-- The response of `/__bb_shared/relay`, or the message of a failed fetch. -/
inductive IdentityAnswer where
  | response (ok : Bool) (body : Json)
  | failed (error : Text)

/-- A member that is the number `n`. -/
def memberIs (body : Json) (name : Text) (n : ℤ) : Bool :=
  match body.member name with
  | some (.num v) => v.toInt? = some n
  | _ => false

/-- `identity`, once the relay has answered. -/
def identity : IdentityAnswer → Except Text Text
  | .failed e => .error e
  | .response ok body =>
    let relayId := ((body.member "relayId".toList).bind Json.str?).getD []
    if ok = false ∨ (body.member "service".toList).bind Json.str? ≠ some "bb-shared-relay".toList ∨
        memberIs body "version".toList 1 = false ∨
        memberIs body "protocolVersion".toList 1 = false ∨
        relayId = [] ∨ 128 < units relayId then
      .error ("This hostname does not serve a compatible BB Shared relay. ".toList ++
        "Deploy the current relay before connecting.".toList)
    else .ok relayId

/-- What the outside gives to a pass of the polling loop. -/
structure Pass where
  timeUp : Bool
  challenge : Text
  now : ℚ

/-- `register` after its loop. -/
def conclude (s : WorkerLifecycle) (i : ℕ) (now : ℚ) : WorkerLifecycle :=
  let r := s.runtimes i
  if r.state ≠ .ready ∨ s.aborted then
    s.rejectCandidate i (r.fault.getD
      ("The relay did not establish a working connection to BB. ".toList ++
        "Check the hostname and pairing secret, then retry.".toList))
  else
    let defaultId := s.defaultId.getD r.record.id
    s.save (.register i defaultId) (s.records ++ [r.record]) (some defaultId) now

/-- The head of the polling loop, and the probe it starts. -/
def poll (s : WorkerLifecycle) (i : ℕ) (pass : Pass) : WorkerLifecycle :=
  if pass.timeUp ∨ s.aborted then s.conclude i pass.now
  else { s.probe i pass.challenge with running := some (.probing i) }

/-- The polling loop after its probe. -/
def probed (s : WorkerLifecycle) (i : ℕ) (now : ℚ) : WorkerLifecycle :=
  let r := s.runtimes i
  if r.state = .ready then s.conclude i now
  else if r.tunnelState = some .stopped ∨ r.tunnelState = some .incompatible then
    s.rejectCandidate i (r.fault.getD "Relay pairing failed. Check the pairing secret.".toList)
  else { s with running := some (.sleeping i) }

/-- `register` after the relay's identity, up to the first pass of its loop. -/
def identified (s : WorkerLifecycle) (url tunnelSecret : Text) (claim : Option Claim)
    (answer : IdentityAnswer) (uuid : Text) (createdAt : ℚ) (pass : Pass) : WorkerLifecycle :=
  match identity answer with
  | .error e => s.settle (.error e)
  | .ok relayId =>
    if relayId ∈ s.records.map (·.relayId) then
      s.settle (.error ("This relay is already connected through another hostname. ".toList ++
        "Remove that connection before changing its hostname.".toList))
    else
      let i := s.created
      let s := s.allocate ⟨uuid, relayId, url, tunnelSecret, claim, createdAt⟩
      ({ s with candidates := s.candidates ++ [i] }.connect i).poll i pass

/-- What follows a save that succeeded. -/
def afterSave (s : WorkerLifecycle) (write : Write) (snapshot : ConnectionSnapshot) :
    WorkerLifecycle :=
  let s := { s with saved := some snapshot }
  match write with
  | .register i defaultId =>
    if s.aborted then
      s.rejectCandidate i "Sharing stopped while registering the connection.".toList
    else
      { s with
        connections := s.connections.set (s.runtimes i).record.id i
        defaultId := some defaultId
        candidates := s.candidates.erase i }.settle (.ok ())
  | .remove id i defaultId =>
    ({ s with connections := s.connections.erase id, defaultId := defaultId }.stopTunnel i).settle
      (.ok ())
  | .setDefault id => { s with defaultId := some id }.settle (.ok ())

/-- What follows a save that failed. -/
def saveFailed (s : WorkerLifecycle) (write : Write) (error : Text) : WorkerLifecycle :=
  match write with
  | .register i _ => s.rejectCandidate i error
  | _ => s.settle (.error error)

/-! ### Steps -/

/-- `start` is a call of `initialize` by the service or by an owner's call; `begin` takes the next
mutation from the queue; the next nine continue the initialisation or the running mutation; the rest
are the tunnels, the timer of `start`, the probes and `stop`. -/
inductive Event where
  | start
  | issue (m : Mutation)
  | begin
  | loaded (result : Except Text ConnectionSnapshot)
  | initialized (random : Bytes) (now : ℚ)
  | deployed (result : Except Text (Text × Option Claim))
  | identified (answer : IdentityAnswer) (uuid : Text) (createdAt : ℚ) (pass : Pass)
  | probed (now : ℚ)
  | slept (pass : Pass)
  | saved
  | saveFailed (error : Text)
  | lastError (i : ℕ) (error : Option Text)
  | status (i : ℕ) (next : TunnelState) (challenge : Text)
  | timer (challenge : ℕ → Text)
  | answered (i : ℕ) (answer : ProbeAnswer)
  | settled (i : ℕ)
  | stop

/-- The memoised `initialize`, up to the record store. -/
def startLoading (s : WorkerLifecycle) : WorkerLifecycle :=
  match s.initialization with
  | .absent => { s with initialization := .loading }
  | _ => s

/-- A tunnel announces a status; a connected one is probed at once. -/
def status (s : WorkerLifecycle) (i : ℕ) (next : TunnelState) (challenge : Text) :
    WorkerLifecycle :=
  let announced := (s.runtimes i).tunnel.isSome ∧ (s.runtimes i).tunnelState ≠ some next
  let s := (s.modify i (·.setState next s.clock)).tick
  if announced ∧ next = .connected then s.probe i challenge else s

/-- One turn of the loop of `start`: every connection is probed. -/
def timer (s : WorkerLifecycle) (challenge : ℕ → Text) : WorkerLifecycle :=
  let probed := fun j => (s.runtimes j).startProbe s.aborted (challenge j) s.clock
  { s with
    runtimes := fun j => if j ∈ s.connections.values then probed j else s.runtimes j
    clock := s.clock + 1 }

/-- `stop`. -/
def stop (s : WorkerLifecycle) : WorkerLifecycle :=
  if s.aborted then s
  else
    ({ s with aborted := true }.modifyAll (s.connections.values ++ s.candidates)
      (·.stop s.clock)).tick

variable (parser : UrlParser) (verifyReadiness : Text → Json → Bool)

/-- One step; `none` where it cannot happen. -/
def step (s : WorkerLifecycle) (e : Event) : Option WorkerLifecycle :=
  match e, s.running, s.initialization with
  | .start, _, _ => some s.startLoading
  | .issue m, _, _ => some { s with queue := s.queue ++ [m] }
  | .begin, none, _ =>
    match s.queue with
    | [] => none
    | m :: queue => some { s.startLoading with queue := queue, running := some (.initializing m) }
  | .loaded result, _, .loading => some (s.loaded result)
  | .initialized random now, some (.initializing m), .done
  | .initialized random now, some (.initializing m), .failed _ =>
    some (s.operate parser m random now)
  | .deployed (.error e), some (.deploying _), _ => some (s.settle (.error e))
  | .deployed (.ok (url, claim)), some (.deploying secret), _ =>
    some (s.register parser url secret claim)
  | .identified answer uuid createdAt pass, some (.identifying url secret claim), _ =>
    some (s.identified url secret claim answer uuid createdAt pass)
  | .probed now, some (.probing i), _ =>
    -- the loop waits for the probe in flight
    if (s.runtimes i).probe.isNone then some (s.probed i now) else none
  | .slept pass, some (.sleeping i), _ => some (s.poll i pass)
  | .saved, some (.saving write snapshot), _ =>
    -- the record store parses what it is given
    if snapshot.Valid parser then some (s.afterSave write snapshot) else none
  | .saveFailed e, some (.saving write _), _ => some (s.saveFailed write e)
  | .lastError i e, _, _ => some (s.modify i (·.setLastError e))
  | .status i next challenge, _, _ => some (s.status i next challenge)
  | .timer challenge, _, _ => some (s.timer challenge)
  | .answered i answer, _, _ => some (s.modify i (·.answerProbe verifyReadiness s.aborted answer))
  | .settled i, _, _ => some (s.modify i (·.settleProbe))
  | .stop, _, _ => some s.stop
  | _, _, _ => none

/-- What a step can be. -/
inductive Steps (s : WorkerLifecycle) : Event → WorkerLifecycle → Prop
  | start : Steps s .start s.startLoading
  | issue (m : Mutation) : Steps s (.issue m) { s with queue := s.queue ++ [m] }
  | begin (m : Mutation) (queue : List Mutation) (hr : s.running = none)
      (hq : s.queue = m :: queue) :
      Steps s .begin { s.startLoading with queue := queue, running := some (.initializing m) }
  | loaded (result : Except Text ConnectionSnapshot) (hi : s.initialization = .loading) :
      Steps s (.loaded result) (s.loaded result)
  | initialized (m : Mutation) (random : Bytes) (now : ℚ)
      (hr : s.running = some (.initializing m))
      (hi : s.initialization = .done ∨ ∃ e, s.initialization = .failed e) :
      Steps s (.initialized random now) (s.operate parser m random now)
  | deployFailed (secret e : Text) (hr : s.running = some (.deploying secret)) :
      Steps s (.deployed (.error e)) (s.settle (.error e))
  | deployed (secret url : Text) (claim : Option Claim)
      (hr : s.running = some (.deploying secret)) :
      Steps s (.deployed (.ok (url, claim))) (s.register parser url secret claim)
  | identified (url secret : Text) (claim : Option Claim) (answer : IdentityAnswer) (uuid : Text)
      (createdAt : ℚ) (pass : Pass) (hr : s.running = some (.identifying url secret claim)) :
      Steps s (.identified answer uuid createdAt pass)
        (s.identified url secret claim answer uuid createdAt pass)
  | probed (i : ℕ) (now : ℚ) (hr : s.running = some (.probing i))
      (hp : (s.runtimes i).probe = none) : Steps s (.probed now) (s.probed i now)
  | slept (i : ℕ) (pass : Pass) (hr : s.running = some (.sleeping i)) :
      Steps s (.slept pass) (s.poll i pass)
  | saved (write : Write) (snapshot : ConnectionSnapshot)
      (hr : s.running = some (.saving write snapshot)) (hv : snapshot.Valid parser) :
      Steps s .saved (s.afterSave write snapshot)
  | saveFailed (write : Write) (snapshot : ConnectionSnapshot) (e : Text)
      (hr : s.running = some (.saving write snapshot)) :
      Steps s (.saveFailed e) (s.saveFailed write e)
  | lastError (i : ℕ) (e : Option Text) :
      Steps s (.lastError i e) (s.modify i (·.setLastError e))
  | status (i : ℕ) (next : TunnelState) (challenge : Text) :
      Steps s (.status i next challenge) (s.status i next challenge)
  | timer (challenge : ℕ → Text) : Steps s (.timer challenge) (s.timer challenge)
  | answered (i : ℕ) (answer : ProbeAnswer) :
      Steps s (.answered i answer) (s.modify i (·.answerProbe verifyReadiness s.aborted answer))
  | settled (i : ℕ) : Steps s (.settled i) (s.modify i (·.settleProbe))
  | stop : Steps s .stop s.stop

variable {parser verifyReadiness}

theorem steps_of_step {s t : WorkerLifecycle} {e : Event}
    (h : s.step parser verifyReadiness e = some t) : Steps parser verifyReadiness s e t := by
  unfold step at h
  split at h
  case h_3 hr =>
    cases hq : s.queue with
    | nil => rw [hq] at h; cases h
    | cons m queue =>
      rw [hq] at h
      obtain rfl := Option.some.inj h
      exact .begin m queue hr hq
  case h_5 hr hi =>
    obtain rfl := Option.some.inj h
    exact .initialized _ _ _ hr (Or.inl hi)
  case h_6 hr hi =>
    obtain rfl := Option.some.inj h
    exact .initialized _ _ _ hr (Or.inr ⟨_, hi⟩)
  case h_10 hr =>
    obtain ⟨hp, ht⟩ := Option.ite_none_right_eq_some.mp h
    obtain rfl := Option.some.inj ht
    exact .probed _ _ hr (Option.isNone_iff_eq_none.mp hp)
  case h_12 hr =>
    obtain ⟨hv, ht⟩ := Option.ite_none_right_eq_some.mp h
    obtain rfl := Option.some.inj ht
    exact .saved _ _ hr hv
  case h_20 => cases h
  all_goals
    obtain rfl := Option.some.inj h
    constructor
    all_goals assumption

end WorkerLifecycle

end BbShared
