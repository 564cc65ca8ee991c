import BbShared.ProofOfWork
import BbShared.Scripts
import BbShared.TunnelDO
import BbShared.WorkerLifecycle

/-!
# Deployment

`worker-lifecycle/cf-deploy.ts`: a temporary account, the upload of the worker, and the wait for its
route, as a script over the fetches it makes.  The answers are the outside's, and so are the bodies
in them: a body is read without a check of its shape.  `Buffer.from` of a seed that is no string,
`new URL` and `Date.parse` are parameters.
-/

namespace BbShared

open Js

def CF_API_BASE : Text := "https://api.cloudflare.com/client/v4".toList

def CF_TERMS : Text := "https://www.cloudflare.com/terms/".toList

def CF_PRIVACY : Text := "https://www.cloudflare.com/privacypolicy/".toList

structure DeployInput where
  scriptName : Text
  compatibilityDate : Text
  scriptContent : Text
  tunnelSecret : Text
  doClassName : Text
  doBindingName : Text
  migrationTag : Text

structure DeployResult where
  url : Text
  deploymentId : Option Json
  accountId : Option Json
  apiToken : Option Json
  expiresAt : Option ℚ
  claimUrl : Option Json
  claimExpiresAt : Option ℚ

structure DeployOptions where
  maxAttempts : ℕ := 3
  backoffBaseMs : ℕ := 1000
  propagationProbes : ℕ := 10
  propagationIntervalMs : ℕ := 3000

/-- A `CfDeployError`, or another exception with its message. -/
inductive DeployError where
  | cf (message : Text) (retriable : Bool)
  | other (message : Text)

namespace DeployError

def message : DeployError → Text
  | cf message _ => message
  | other message => message

/-- `!(err instanceof CfDeployError) || err.retriable`. -/
def retriable : DeployError → Bool
  | cf _ retriable => retriable
  | other _ => true

end DeployError

/-- The body of a request: a value that is stringified, or the parts of a form. -/
inductive RequestBody where
  | none
  | json (value : Json)
  | form (metadata : Json) (script : Text)

structure ApiRequest where
  method : Text
  url : Text
  headers : List (Text × Text)
  body : RequestBody

/-- A fetch: of the interface, or of a relay's identity. -/
inductive DeployAsk where
  | api (request : ApiRequest)
  | probe (href : Text)

inductive DeployTell where
  | sleep (ms : ℕ)
  | warn (line : Text)

/-- What a fetch comes to; the body is what `json()` gives. -/
inductive FetchAnswer where
  | failed (message : Text)
  | response (status : ℕ) (body : Except Text Json)

abbrev Deploy (α : Type) := Script DeployAsk FetchAnswer DeployTell DeployError α

abbrev DeployEntry := Script.Entry DeployAsk FetchAnswer DeployTell

structure DeployPlatform where
  engine : Engine
  sha256 : Bytes → Bytes
  buffer : Option Json → Except Text Bytes
  resolve : Text → Text → Option Text
  parseDate : Option Json → Except Text (Option ℚ)

/-- An exception of the engine. -/
def thrown {α : Type} : Except Text α → Except DeployError α
  | .ok a => .ok a
  | .error e => .error (.other e)

def attempted {α : Type} (r : Except Text α) : Deploy α := .done (thrown r)

/-- `isRelayIdentity`. -/
def isRelayIdentity (value : Json) : Bool :=
  (value.member "service".toList).bind Json.str? == some "bb-shared-relay".toList &&
    WorkerLifecycle.memberIs value "version".toList 1 &&
    WorkerLifecycle.memberIs value "protocolVersion".toList 1 &&
    (((value.member "relayId".toList).bind Json.str?).getD [] != [])

section Requests

variable (p : DeployPlatform)

/-! ## Requests -/

/-- `${e.code ?? "?"} ${e.message ?? ""}`, trimmed. -/
def errorDetail (e : Json) : Except Text Text := do
  let code ← p.engine.template
    (orElse (← p.engine.prop "code".toList (some e)) (some (.str "?".toList)))
  let message ← p.engine.template
    (orElse (← p.engine.prop "message".toList (some e)) (some (.str [])))
  return trim (code ++ " ".toList ++ message)

def cfErrorDetail (body : Except Text Json) : Text :=
  let detail : Except Text Text := do
    let j ← body
    p.engine.mapJoin (← p.engine.prop "errors".toList (some j)) (errorDetail p) "; ".toList
  match detail with
  | .ok [] | .error _ => []
  | .ok detail => ": ".toList ++ detail

/-- `e.message ?? e.code ?? "?"`. -/
def errorMessage (e : Json) : Except Text Text := do
  let message ← p.engine.prop "message".toList (some e)
  match message with
  | none | some .null =>
    p.engine.template (orElse (← p.engine.prop "code".toList (some e)) (some (.str "?".toList)))
  | message => p.engine.template message

/-- `cfRequest`, from its response on. -/
def cfResult (method path : Text) (status : ℕ) (body : Except Text Json) :
    Except DeployError (Option Json) :=
  let call := "CF ".toList ++ method ++ " ".toList ++ path
  if responseOk status = false then
    .error (.cf (call ++ " → HTTP ".toList ++ Nat.toDigits 10 status ++ cfErrorDetail p body)
      (500 ≤ status || status == 429))
  else do
    let json ← thrown body
    if truthy (← thrown (p.engine.prop "success".toList (some json))) then
      return json.member "result".toList
    else
      let errors ← thrown (p.engine.prop "errors".toList (some json))
      let detail ← thrown (p.engine.mapJoin errors (errorMessage p) "; ".toList)
      .error (.cf (call ++ " unsuccessful: ".toList ++ detail) false)

/-- The headers of `cfRequest`. -/
def cfHeaders (apiToken : Option Json) (body : RequestBody) : Except Text (List (Text × Text)) :=
  let authorization : Except Text (List (Text × Text)) :=
    if truthy apiToken then
      (p.engine.template apiToken).map fun token =>
        [("authorization".toList, "Bearer ".toList ++ token)]
    else .ok []
  let contentType := match body with
    | .json _ => [("content-type".toList, "application/json".toList)]
    | _ => []
  authorization.map (· ++ contentType)

def cfRequest (path method : Text) (apiToken : Option Json) (body : RequestBody) :
    Deploy (Option Json) :=
  (attempted (cfHeaders p apiToken body)).bind fun headers =>
    .ask (.api ⟨method, CF_API_BASE ++ path, headers, body⟩) fun
      | .failed message =>
        .done (.error (.cf ("CF ".toList ++ method ++ " ".toList ++ path ++ " failed: ".toList ++
          message) true))
      | .response status body => .done (cfResult p method path status body)

/-! ## Provisioning -/

def previewsBody (solved : PowSolution) : Json :=
  .obj ([("termsOfService".toList, .str CF_TERMS), ("privacyPolicy".toList, .str CF_PRIVACY),
      ("acceptTermsOfService".toList, .str "yes".toList)] ++
    (solved.challengeToken.map fun token => ("challengeToken".toList, token)).toList ++
    [("solution".toList, .obj [("checkpoints".toList, .str solved.checkpoints)])])

def provisionAccount : Deploy (Option Json) :=
  (cfRequest p "/provisioning/previews/challenge".toList "POST".toList none (.json (.obj []))).bind
    fun challenge =>
  (attempted (solveChallenge p.engine p.sha256 p.buffer challenge)).bind fun solved =>
  cfRequest p "/provisioning/previews".toList "POST".toList none (.json (previewsBody solved))

/-! ## Upload -/

variable (input : DeployInput)

/-- The `metadata` of the form. -/
def uploadMetadata : Json :=
  .obj [("main_module".toList, .str "worker.js".toList),
    ("compatibility_date".toList, .str input.compatibilityDate),
    ("bindings".toList, .arr [
      .obj [("type".toList, .str "durable_object_namespace".toList),
        ("name".toList, .str input.doBindingName), ("class_name".toList, .str input.doClassName)],
      .obj [("type".toList, .str "secret_text".toList),
        ("name".toList, .str "TUNNEL_SECRET".toList), ("text".toList, .str input.tunnelSecret)]]),
    ("migrations".toList, .obj [("new_tag".toList, .str input.migrationTag),
      ("new_sqlite_classes".toList, .arr [.str input.doClassName])])]

/-- The body of the upload. -/
def uploadForm : RequestBody := .form (uploadMetadata input) input.scriptContent

/-- The `catch` of the upload. -/
def uploadFailure : DeployError → DeployError
  | .cf message retriable =>
    .cf ("CF script upload failed: ".toList ++ redactSecrets message) retriable
  | .other message => .cf ("CF script upload failed: ".toList ++ redactSecrets message) false

/-- The body of `{ enabled: true, previews_enabled: false }`. -/
def enableBody : Json :=
  .obj [("enabled".toList, .bool true), ("previews_enabled".toList, .bool false)]

def workerUrl (subdomain : Text) : Text :=
  "https://".toList ++ input.scriptName ++ ".".toList ++ subdomain ++ ".workers.dev".toList

def uploadWorkerScript (accountId bearer : Option Json) : Deploy (Text × Option Json) :=
  (attempted (p.engine.template accountId)).bind fun account =>
  let scriptPath := "/accounts/".toList ++ account ++ "/workers/scripts/".toList ++ input.scriptName
  let upload : Deploy (Option Json) :=
    (cfRequest p scriptPath "PUT".toList bearer (uploadForm input)).bind fun updated =>
    (attempted (p.engine.prop "id".toList updated)).bind fun id =>
    .done (.ok (orElse id (some (.str input.scriptName))))
  (upload.rescue fun err => .done (.error (uploadFailure err))).bind fun deploymentId =>
  (cfRequest p ("/accounts/".toList ++ account ++ "/workers/subdomain".toList) "GET".toList bearer
    .none).bind fun result =>
  (attempted (p.engine.prop "subdomain".toList result)).bind fun subdomain =>
  (cfRequest p (scriptPath ++ "/subdomain".toList) "POST".toList bearer (.json enableBody)).bind
    fun _ =>
  (attempted (p.engine.template subdomain)).bind fun subdomain =>
  .done (.ok (workerUrl input subdomain, deploymentId))

/-! ## Propagation -/

/-- The exception of `waitForRoutePropagation`. -/
def identityUnavailable (url : Text) (probes : ℕ) : DeployError :=
  .cf ("Relay identity unavailable at ".toList ++ url ++ " after ".toList ++
    Nat.toDigits 10 probes ++ " probes. Check the Worker deployment and its route, then ".toList ++
    "register this hostname with its tunnel secret.".toList) false

/-- The answer of a probe that shows a relay. -/
def showsRelay : FetchAnswer → Bool
  | .response status (.ok body) => responseOk status && isRelayIdentity body
  | _ => false

/-- The loop of `waitForRoutePropagation`, with `left` probes to go. -/
def probeRoute (url : Text) (probes intervalMs : ℕ) : ℕ → Deploy Unit
  | 0 => .done (.error (identityUnavailable url probes))
  | left + 1 =>
    let next : Deploy Unit :=
      if 0 < left then .tell (.sleep intervalMs) (probeRoute url probes intervalMs left)
      else probeRoute url probes intervalMs left
    match p.resolve RELAY_IDENTITY_PATH url with
    | none => next
    | some href =>
      .ask (.probe href) fun answer => if showsRelay answer then .done (.ok ()) else next

def waitForRoutePropagation (url : Text) (probes intervalMs : ℕ) : Deploy Unit :=
  probeRoute p url probes intervalMs probes

/-! ## Attempts -/

def toMsEpoch (iso : Option Json) : Except Text (Option ℚ) :=
  if truthy iso then p.parseDate iso else .ok none

/-- The result of an attempt, from the account it was given. -/
def deployResult (provisioned : Option Json) (url : Text) (deploymentId : Option Json) :
    Except Text DeployResult := do
  let account ← p.engine.prop "account".toList provisioned
  let accountId ← p.engine.prop "id".toList account
  let apiToken ← p.engine.prop "apiToken".toList account
  let expiresAt ← toMsEpoch p (← p.engine.prop "expiresAt".toList account)
  let claim ← p.engine.prop "claim".toList provisioned
  let claimUrl ← p.engine.prop "url".toList claim
  let claimExpiresAt ← toMsEpoch p (← p.engine.prop "expiresAt".toList claim)
  return ⟨url, deploymentId, accountId, apiToken, expiresAt, claimUrl, claimExpiresAt⟩

/-- `uploadScript`. -/
def uploadScript (provisioned : Option Json) : Deploy (Text × Option Json) :=
  (attempted (p.engine.prop "account".toList provisioned)).bind fun account =>
  (attempted (p.engine.prop "id".toList account)).bind fun accountId =>
  (attempted (p.engine.prop "apiToken".toList account)).bind fun bearer =>
  uploadWorkerScript p input accountId bearer

variable (opts : DeployOptions)

/-- The `try` of `deployWorker`, once there is an account. -/
def deployTo (provisioned : Option Json) : Deploy DeployResult :=
  (uploadScript p input provisioned).bind fun uploaded =>
  (waitForRoutePropagation p uploaded.1 opts.propagationProbes opts.propagationIntervalMs).bind
    fun _ =>
  attempted (deployResult p provisioned uploaded.1 uploaded.2)

/-- The `try` of `deployWorker`. -/
def deployAttempt : Deploy DeployResult := (provisionAccount p).bind (deployTo p input opts)

/-- `attempt/maxAttempts`. -/
def attemptText (attempt : ℕ) : Text :=
  Nat.toDigits 10 attempt ++ "/".toList ++ Nat.toDigits 10 opts.maxAttempts

/-- The line of a last attempt. -/
def failedLine (attempt : ℕ) (err : DeployError) : Text :=
  "worker deploy failed (attempt ".toList ++ attemptText opts attempt ++ "): ".toList ++
    redactSecrets err.message

def backoff (attempt : ℕ) : ℕ := opts.backoffBaseMs * 2 ^ (attempt - 1)

/-- The line of an attempt that is repeated. -/
def retryLine (attempt : ℕ) (err : DeployError) : Text :=
  "worker deploy attempt ".toList ++ attemptText opts attempt ++ " failed, retrying in ".toList ++
    Nat.toDigits 10 (backoff opts attempt) ++ "ms: ".toList ++ redactSecrets err.message

/-- The loop of `deployWorker`, at an attempt with `left` to go. -/
def deployFrom (attempt : ℕ) : ℕ → Deploy DeployResult
  | 0 => .done (.error (.other "worker deploy failed: undefined".toList))
  | left + 1 =>
    (deployAttempt p input opts).rescue fun err =>
      if err.retriable = false ∨ attempt = opts.maxAttempts then
        .tell (.warn (failedLine opts attempt err)) (.done (.error err))
      else
        .tell (.warn (retryLine opts attempt err))
          (.tell (.sleep (backoff opts attempt)) (deployFrom (attempt + 1) left))

def deployWorker : Deploy DeployResult := deployFrom p input opts 1 opts.maxAttempts

end Requests

end BbShared
