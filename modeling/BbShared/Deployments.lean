import BbShared.Deploy
import BbShared.Redaction

/-!
# What a deployment does

Runs of `deployWorker` against any answers: how attempts are repeated and what they cost, what a
result rests on, where the tunnel secret goes, and what the log lines show.
-/

namespace BbShared

open Js Script

variable {p : DeployPlatform} {input : DeployInput} {opts : DeployOptions} {t : List DeployEntry}

/-! ## A deployment -/

def plainPlatform : DeployPlatform where
  engine := plainEngine
  sha256 := paddedHash
  buffer _ := .error []
  resolve path base := some (base ++ path)
  parseDate _ := .ok none

/-- A worker with the 43 characters of a minted secret. -/
def plainInput : DeployInput where
  scriptName := "relay".toList
  compatibilityDate := "2025-01-01".toList
  scriptContent := "export default {}".toList
  tunnelSecret := List.replicate 43 'A'
  doClassName := "TunnelDO".toList
  doBindingName := "TUNNEL_DO".toList
  migrationTag := "v1".toList

/-- A successful envelope. -/
def envelope (result : Json) : FetchAnswer :=
  .response 200 (.ok (.obj [("success".toList, .bool true), ("result".toList, result)]))

/-- The network fails with a message that holds the secret, and then all goes well. -/
def plainAnswers : List FetchAnswer :=
  [.failed (List.replicate 43 'A'), envelope plainChallenge,
    envelope (.obj [("account".toList, .obj [("id".toList, .str "a1".toList),
        ("apiToken".toList, .str "cf".toList)]),
      ("claim".toList, .obj [("url".toList, .str "https://claim.example".toList)])]),
    envelope (.obj []), envelope (.obj [("subdomain".toList, .str "sub".toList)]), envelope .null,
    .response 404 (.error []),
    .response 200 (.ok (.obj [("service".toList, .str "bb-shared-relay".toList),
      ("version".toList, .num (.ofNat 1)), ("protocolVersion".toList, .num (.ofNat 1)),
      ("relayId".toList, .str "relay-1".toList)]))]

def plainRun : List DeployEntry × Option (Except DeployError DeployResult) :=
  (deployWorker plainPlatform plainInput {}).exec plainAnswers

theorem runs_plainRun : Runs (deployWorker plainPlatform plainInput {}) plainRun.1 plainRun.2 :=
  runs_exec _ _

def returned : Option (Except DeployError DeployResult) → Bool
  | some (.ok _) => true
  | _ => false

/-! ## The loop -/

/-- What is told between two attempts. -/
def betweenAttempts (opts : DeployOptions) (attempt : ℕ) (err : DeployError) : List DeployTell :=
  [.warn (retryLine opts attempt err), .sleep (backoff opts attempt)]

/-- What is told after the last attempt. -/
def afterAttempts (opts : DeployOptions) (attempt : ℕ) (err : DeployError) : List DeployTell :=
  [.warn (failedLine opts attempt err)]

/-- The attempts of a deployment. -/
def deployAttempts (p : DeployPlatform) (input : DeployInput) (opts : DeployOptions)
    (attempt left : ℕ) : Deploy DeployResult :=
  retry (deployAttempt p input opts) DeployError.retriable (betweenAttempts opts)
    (afterAttempts opts) attempt left

theorem deployFrom_eq {attempt left : ℕ} (h : attempt + left = opts.maxAttempts) :
    deployFrom p input opts attempt (left + 1) = deployAttempts p input opts attempt left := by
  unfold deployAttempts
  induction left generalizing attempt with
  | zero =>
    unfold deployFrom retry
    refine congrArg _ (funext fun err => ?_)
    rw [if_pos (.inr h)]
    rfl
  | succ left ih =>
    have hne : attempt ≠ opts.maxAttempts := by omega
    unfold deployFrom retry
    refine congrArg _ (funext fun err => ?_)
    cases hr : err.retriable with
    | false =>
      rw [if_pos (.inl rfl), if_neg Bool.false_ne_true]
      rfl
    | true =>
      rw [if_neg (by simp [hne]), if_pos rfl, ih (by omega)]
      rfl

theorem deployWorker_eq (h : 0 < opts.maxAttempts) :
    deployWorker p input opts = deployAttempts p input opts 1 (opts.maxAttempts - 1) := by
  unfold deployWorker
  rw [← deployFrom_eq (by omega), Nat.sub_add_cancel h]

/-! ## What it costs -/

/-- A cost for each fetch and for each pause. -/
def weigh (fetch : ℕ) (pause : ℕ → ℕ) : DeployEntry → ℕ
  | .asked _ _ => fetch
  | .told (.sleep ms) => pause ms
  | .told (.warn _) => 0

section Cost

variable {fetch : ℕ} {pause : ℕ → ℕ}

theorem within_attempted {α β : Type} {r : Except Text α} {k : α → Deploy β} {n : ℕ}
    (h : ∀ a, Within (weigh fetch pause) n (k a)) :
    Within (weigh fetch pause) n ((attempted r).bind k) := by
  cases r with
  | error e => exact within_done _
  | ok a => exact h a

theorem within_cfRequest (path method : Text) (token : Option Json) (body : RequestBody) :
    Within (weigh fetch pause) fetch (cfRequest p path method token body) := by
  refine within_attempted fun headers => ?_
  refine (within_ask (n := 0) (fun _ => le_rfl) fun x => ?_).mono (Nat.add_zero _).le
  cases x <;> exact within_done _

theorem within_provisionAccount : Within (weigh fetch pause) (2 * fetch) (provisionAccount p) :=
  ((within_cfRequest _ _ _ _).bind fun _ => within_attempted fun _ =>
    within_cfRequest _ _ _ _).mono (two_mul fetch).ge

theorem within_uploadWorkerScript (accountId bearer : Option Json) :
    Within (weigh fetch pause) (3 * fetch) (uploadWorkerScript p input accountId bearer) := by
  have hupload : ∀ path, Within (weigh fetch pause) fetch
      (((cfRequest p path "PUT".toList bearer (uploadForm input)).bind fun updated =>
        (attempted (p.engine.prop "id".toList updated)).bind fun id =>
        (.done (.ok (orElse id (some (.str input.scriptName)))) : Deploy (Option Json))).rescue
          fun err => .done (.error (uploadFailure err))) := fun path =>
    (((within_cfRequest path _ _ _).bind (n := 0) fun _ => within_attempted fun _ =>
      within_done _).rescue (n := 0) fun _ => within_done _).mono (by omega)
  refine within_attempted fun account => ?_
  refine ((hupload _).bind fun _ => (within_cfRequest _ _ _ _).bind fun _ =>
    within_attempted fun _ => (within_cfRequest _ _ _ _).bind (n := 0) fun _ =>
    within_attempted fun _ => within_done _).mono ?_
  omega

theorem within_probeRoute (url : Text) (probes intervalMs left : ℕ) :
    Within (weigh fetch pause) (left * fetch + (left - 1) * pause intervalMs)
      (probeRoute p url probes intervalMs left) := by
  induction left with
  | zero => exact within_done _
  | succ left ih =>
    have hnext : Within (weigh fetch pause) (left * fetch + left * pause intervalMs)
        (if 0 < left then
          (.tell (.sleep intervalMs) (probeRoute p url probes intervalMs left) : Deploy Unit)
        else probeRoute p url probes intervalMs left) := by
      cases left with
      | zero => exact ih
      | succ left =>
        rw [if_pos (Nat.succ_pos left)]
        refine (within_tells [DeployTell.sleep intervalMs] ih).mono (le_of_eq ?_)
        show pause intervalMs + 0 + ((left + 1) * fetch + left * pause intervalMs) = _
        ring
    have hcost : (left + 1) * fetch + (left + 1 - 1) * pause intervalMs =
        fetch + (left * fetch + left * pause intervalMs) := by
      rw [Nat.add_sub_cancel]
      ring
    rw [hcost]
    unfold probeRoute
    simp only
    split
    · exact hnext.mono (Nat.le_add_left _ _)
    · refine within_ask (fun _ => (le_rfl : fetch ≤ fetch)) fun x => ?_
      by_cases hx : showsRelay x = true
      · rw [if_pos hx]
        exact within_done _
      · rw [if_neg hx]
        exact hnext

theorem within_deployAttempt : Within (weigh fetch pause)
    ((5 + opts.propagationProbes) * fetch +
      (opts.propagationProbes - 1) * pause opts.propagationIntervalMs)
    (deployAttempt p input opts) := by
  have hupload : ∀ v, Within (weigh fetch pause) (3 * fetch) (uploadScript p input v) := fun v =>
    within_attempted fun _ => within_attempted fun _ => within_attempted fun _ =>
      within_uploadWorkerScript _ _
  refine (within_provisionAccount.bind fun v => (hupload v).bind fun uploaded =>
    (within_probeRoute _ _ _ _).bind (n := 0) fun _ => within_done _).mono (le_of_eq ?_)
  ring

/-- What all attempts cost. -/
theorem within_deployWorker : Within (weigh fetch pause)
    (opts.maxAttempts * ((5 + opts.propagationProbes) * fetch +
        (opts.propagationProbes - 1) * pause opts.propagationIntervalMs) +
      ∑ i ∈ Finset.range (opts.maxAttempts - 1), pause (opts.backoffBaseMs * 2 ^ i))
    (deployWorker p input opts) := by
  rcases Nat.eq_zero_or_pos opts.maxAttempts with h0 | hpos
  · unfold deployWorker
    rw [h0]
    exact within_done _
  rw [deployWorker_eq hpos]
  have h : Within (weigh fetch pause) _ (deployAttempt p input opts) := within_deployAttempt
  refine (h.retry (w := fun n => pause (backoff opts n)) (g := 0) (fun n e => ?_) (fun n e => ?_)
    1 (opts.maxAttempts - 1)).mono (le_of_eq ?_)
  · exact le_of_eq (Nat.zero_add _)
  · exact le_rfl
  · rw [Nat.sub_add_cancel hpos, Nat.add_zero]
    refine congrArg _ (Finset.sum_congr rfl fun i _ => ?_)
    unfold backoff
    rw [Nat.add_sub_cancel_left]

end Cost

/-- The fetches of a run. -/
def fetches (t : List DeployEntry) : ℕ := (t.map (weigh 1 fun _ => 0)).sum

/-- The milliseconds of its pauses. -/
def waited (t : List DeployEntry) : ℕ := (t.map (weigh 0 id)).sum

theorem sum_backoffs (base n : ℕ) :
    ∑ i ∈ Finset.range n, base * 2 ^ i = base * (2 ^ n - 1) := by
  rw [← Finset.mul_sum]
  congr 1
  induction n with
  | zero => rfl
  | succ n ih =>
    have := Nat.one_le_two_pow (n := n)
    rw [Finset.sum_range_succ, ih, pow_succ]
    omega

/-- **Retries.** Whatever the outside answers, a deployment that ends has made at most `maxAttempts`
attempts, each but the last one failed with an exception that allows another, with its line and its
pause, and the last one decides.  At any moment its fetches and its pauses are bounded. -/
theorem deployWorker_retries (hmax : 0 < opts.maxAttempts)
    {o : Option (Except DeployError DeployResult)} (h : Runs (deployWorker p input opts) t o) :
    (∀ r, o = some r → ∃ fails last, Retried (deployAttempt p input opts) DeployError.retriable
      (betweenAttempts opts) (afterAttempts opts) 1 (opts.maxAttempts - 1) t r fails last) ∧
      fetches t ≤ opts.maxAttempts * (5 + opts.propagationProbes) ∧
      waited t ≤ opts.maxAttempts * ((opts.propagationProbes - 1) * opts.propagationIntervalMs) +
        opts.backoffBaseMs * (2 ^ (opts.maxAttempts - 1) - 1) := by
  refine ⟨?_, ?_, ?_⟩
  · rintro r rfl
    rw [deployWorker_eq hmax] at h
    exact runs_retry h
  · refine (within_deployWorker h).trans (le_of_eq ?_)
    simp
  · refine (within_deployWorker h).trans (le_of_eq ?_)
    simp only [id, sum_backoffs, Nat.mul_zero, Nat.zero_add]

theorem deployWorker_retries_plain :
    returned plainRun.2 = true ∧ fetches plainRun.1 = 8 ∧ waited plainRun.1 = 4000 ∧
      (∀ r, plainRun.2 = some r → ∃ fails last,
        Retried (deployAttempt plainPlatform plainInput {}) DeployError.retriable
          (betweenAttempts {}) (afterAttempts {}) 1 2 plainRun.1 r fails last) ∧
      fetches plainRun.1 ≤ 3 * (5 + 10) ∧ waited plainRun.1 ≤ 3 * (9 * 3000) + 1000 * (2 ^ 2 - 1) :=
  ⟨by decide +kernel, by decide +kernel, by decide +kernel,
    deployWorker_retries (by decide) runs_plainRun⟩

/-! ## What a result rests on -/

/-- An answer that carries a result. -/
def Carries (x : FetchAnswer) (v : Option Json) : Prop :=
  ∃ status json, x = .response status (.ok json) ∧ responseOk status = true ∧
    truthy (json.member "success".toList) = true ∧ json.member "result".toList = v

/-- A call of the interface with the result that it was given. -/
def Calls (p : DeployPlatform) (path method : Text) (token : Option Json) (body : RequestBody)
    (v : Option Json) (e : DeployEntry) : Prop :=
  ∃ headers x, cfHeaders p token body = .ok headers ∧
    e = .asked (.api ⟨method, CF_API_BASE ++ path, headers, body⟩) x ∧ Carries x v

theorem runs_attempted {α β : Type} {r : Except Text α} {k : α → Deploy β} {b : β} :
    Runs ((attempted r).bind k) t (some (.ok b)) ↔
      ∃ a, r = .ok a ∧ Runs (k a) t (some (.ok b)) := by
  cases r with
  | error e =>
    constructor
    · intro h
      cases (runs_done.mp h).2
    · rintro ⟨a, ha, -⟩
      cases ha
  | ok a =>
    constructor
    · exact fun h => ⟨a, rfl, h⟩
    · rintro ⟨a', ha, h⟩
      obtain rfl := Except.ok.inj ha
      exact h

theorem except_bind_ok {ε α β : Type} {x : Except ε α} {f : α → Except ε β} {b : β}
    (h : (x >>= f) = .ok b) : ∃ a, x = .ok a ∧ f a = .ok b := by
  cases x with
  | error e => cases h
  | ok a => exact ⟨a, rfl, h⟩

theorem thrown_ok {α : Type} {r : Except Text α} {a : α} (h : thrown r = .ok a) : r = .ok a := by
  cases r with
  | error e => cases h
  | ok a' => exact congrArg _ (Except.ok.inj h)

theorem cfResult_ok {method path : Text} {status : ℕ} {body : Except Text Json} {v : Option Json}
    (h : cfResult p method path status body = .ok v) : Carries (.response status body) v := by
  unfold cfResult at h
  simp only at h
  split_ifs at h with hok
  obtain ⟨json, hjson, hcase⟩ := except_bind_ok h
  obtain ⟨success, hs, hcase⟩ := except_bind_ok hcase
  obtain rfl := thrown_ok hjson
  obtain ⟨j, hj, rfl⟩ := p.engine.prop_ok (thrown_ok hs)
  obtain rfl := Option.some.inj hj
  by_cases ht : truthy (json.member "success".toList) = true
  · rw [if_pos ht] at hcase
    exact ⟨status, json, rfl, by simpa using hok, ht, Except.ok.inj hcase⟩
  · rw [if_neg ht] at hcase
    obtain ⟨errors, -, hcase⟩ := except_bind_ok hcase
    obtain ⟨detail, -, hcase⟩ := except_bind_ok hcase
    cases hcase

theorem runs_cfRequest {path method : Text} {token : Option Json} {body : RequestBody}
    {v : Option Json} (h : Runs (cfRequest p path method token body) t (some (.ok v))) :
    ∃ e, t = [e] ∧ Calls p path method token body v e := by
  obtain ⟨headers, hh, hask⟩ := runs_attempted.mp h
  obtain ⟨x, t', rfl, hend⟩ := runs_ask.mp hask
  cases x with
  | failed message => cases (runs_done.mp hend).2
  | response status body' =>
    obtain ⟨rfl, hv⟩ := runs_done.mp hend
    exact ⟨_, rfl, headers, _, hh, rfl, cfResult_ok hv.symm⟩

/-- Probes of a route that end with one that shows the relay. -/
inductive Propagated (href : Text) : List DeployEntry → Prop
  | shown {x : FetchAnswer} : showsRelay x = true → Propagated href [.asked (.probe href) x]
  | again {x : FetchAnswer} {ms : ℕ} {t : List DeployEntry} : showsRelay x = false →
      Propagated href t → Propagated href (.asked (.probe href) x :: .told (.sleep ms) :: t)

theorem runs_probeRoute {url : Text} {probes intervalMs left : ℕ}
    (h : Runs (probeRoute p url probes intervalMs left) t (some (.ok ()))) :
    ∃ href, p.resolve RELAY_IDENTITY_PATH url = some href ∧ Propagated href t := by
  induction left generalizing t with
  | zero => cases (runs_done.mp h).2
  | succ left ih =>
    have hnext : ∀ {u}, Runs (if 0 < left then
          (.tell (.sleep intervalMs) (probeRoute p url probes intervalMs left) : Deploy Unit)
        else probeRoute p url probes intervalMs left) u (some (.ok ())) →
        ∃ v, u = .told (.sleep intervalMs) :: v ∧
          Runs (probeRoute p url probes intervalMs left) v (some (.ok ())) := by
      intro u hu
      cases left with
      | zero => cases (runs_done.mp hu).2
      | succ left =>
        rw [if_pos (Nat.succ_pos left)] at hu
        cases hu with
        | tell hu => exact ⟨_, rfl, hu⟩
    unfold probeRoute at h
    simp only at h
    split at h
    · rename_i hres
      obtain ⟨v, rfl, hv⟩ := hnext h
      obtain ⟨href, hres', -⟩ := ih hv
      rw [hres] at hres'
      cases hres'
    · rename_i href hres
      obtain ⟨x, t', rfl, hx'⟩ := runs_ask.mp h
      refine ⟨href, hres, ?_⟩
      cases hx : showsRelay x with
      | true =>
        rw [hx, if_pos rfl] at hx'
        obtain ⟨rfl, -⟩ := runs_done.mp hx'
        exact .shown hx
      | false =>
        rw [hx, if_neg Bool.false_ne_true] at hx'
        obtain ⟨v, rfl, hv⟩ := hnext hx'
        obtain ⟨href', hres', hp⟩ := ih hv
        obtain rfl := Option.some.inj (hres.symm.trans hres')
        exact .again hx hp

/-- The entries of an attempt that succeeds: the challenge is answered with its solution, the
account is given for it, the worker goes to that account under that account's bearer, and the route
is probed until it shows a relay. -/
inductive Deployed (p : DeployPlatform) (input : DeployInput) :
    List DeployEntry → DeployResult → Prop
  | intro {e₁ e₂ e₃ e₄ e₅ : DeployEntry} {probes : List DeployEntry}
      {challenge account updated zone enabled : Option Json} {provisioned : Json}
      {solved : PowSolution} {id bearer : Option Json} {idText zoneText href : Text}
      {r : DeployResult} :
      Calls p "/provisioning/previews/challenge".toList "POST".toList none (.json (.obj []))
        challenge e₁ →
      solveChallenge p.engine p.sha256 p.buffer challenge = .ok solved →
      Calls p "/provisioning/previews".toList "POST".toList none (.json (previewsBody solved))
        (some provisioned) e₂ →
      provisioned.member "account".toList = account →
      p.engine.prop "id".toList account = .ok id → p.engine.template id = .ok idText →
      p.engine.prop "apiToken".toList account = .ok bearer →
      Calls p ("/accounts/".toList ++ idText ++ "/workers/scripts/".toList ++ input.scriptName)
        "PUT".toList bearer (uploadForm input) updated e₃ →
      Calls p ("/accounts/".toList ++ idText ++ "/workers/subdomain".toList) "GET".toList bearer
        .none zone e₄ →
      Calls p ("/accounts/".toList ++ idText ++ "/workers/scripts/".toList ++ input.scriptName ++
        "/subdomain".toList) "POST".toList bearer (.json enableBody) enabled e₅ →
      p.engine.template (zone.bind (·.member "subdomain".toList)) = .ok zoneText →
      p.resolve RELAY_IDENTITY_PATH r.url = some href → Propagated href probes →
      r.url = workerUrl input zoneText → r.accountId = id → r.apiToken = bearer →
      r.deploymentId = orElse (updated.bind (·.member "id".toList)) (some (.str input.scriptName)) →
      deployResult p (some provisioned) r.url r.deploymentId = .ok r →
      Deployed p input (e₁ :: e₂ :: e₃ :: e₄ :: e₅ :: probes) r

/-- The result is read off the account it was made with. -/
theorem deployResult_ok {provisioned : Option Json} {url : Text} {deploymentId : Option Json}
    {r : DeployResult} (h : deployResult p provisioned url deploymentId = .ok r) :
    r.url = url ∧ r.deploymentId = deploymentId ∧ ∃ json, provisioned = some json ∧
      p.engine.prop "id".toList (json.member "account".toList) = .ok r.accountId ∧
      p.engine.prop "apiToken".toList (json.member "account".toList) = .ok r.apiToken := by
  unfold deployResult at h
  obtain ⟨account, haccount, hr⟩ := except_bind_ok h
  obtain ⟨id, hid, hr⟩ := except_bind_ok hr
  obtain ⟨token, htoken, hr⟩ := except_bind_ok hr
  obtain ⟨iso, -, hr⟩ := except_bind_ok hr
  obtain ⟨expires, -, hr⟩ := except_bind_ok hr
  obtain ⟨claim, -, hr⟩ := except_bind_ok hr
  obtain ⟨claimUrl, -, hr⟩ := except_bind_ok hr
  obtain ⟨iso', -, hr⟩ := except_bind_ok hr
  obtain ⟨claimExpires, -, hr⟩ := except_bind_ok hr
  obtain rfl := Except.ok.inj hr
  obtain ⟨json, rfl, rfl⟩ := p.engine.prop_ok haccount
  exact ⟨rfl, rfl, json, rfl, hid, htoken⟩

theorem runs_uploadWorkerScript {accountId bearer : Option Json} {uploaded : Text × Option Json}
    (h : Runs (uploadWorkerScript p input accountId bearer) t (some (.ok uploaded))) :
    ∃ e₃ e₄ e₅ idText updated zone enabled zoneText, t = [e₃, e₄, e₅] ∧
      p.engine.template accountId = .ok idText ∧
      Calls p ("/accounts/".toList ++ idText ++ "/workers/scripts/".toList ++ input.scriptName)
        "PUT".toList bearer (uploadForm input) updated e₃ ∧
      Calls p ("/accounts/".toList ++ idText ++ "/workers/subdomain".toList) "GET".toList bearer
        .none zone e₄ ∧
      Calls p ("/accounts/".toList ++ idText ++ "/workers/scripts/".toList ++ input.scriptName ++
        "/subdomain".toList) "POST".toList bearer (.json enableBody) enabled e₅ ∧
      p.engine.template (zone.bind (·.member "subdomain".toList)) = .ok zoneText ∧
      uploaded = (workerUrl input zoneText,
        orElse (updated.bind (·.member "id".toList)) (some (.str input.scriptName))) := by
  obtain ⟨idText, hid, hrest⟩ := runs_attempted.mp h
  obtain ⟨t₃, t', deploymentId, rfl, hupload, hrest⟩ := runs_bind_ok.mp hrest
  obtain ⟨t₄, t'', zone, rfl, hzone, hrest⟩ := runs_bind_ok.mp hrest
  obtain ⟨subdomain, hsub, hrest⟩ := runs_attempted.mp hrest
  obtain ⟨t₅, t₆, enabled, rfl, henable, hrest⟩ := runs_bind_ok.mp hrest
  obtain ⟨zoneText, htext, hrest⟩ := runs_attempted.mp hrest
  obtain ⟨rfl, huploaded⟩ := runs_done.mp hrest
  obtain ⟨e₄, rfl, he₄⟩ := runs_cfRequest hzone
  obtain ⟨e₅, rfl, he₅⟩ := runs_cfRequest henable
  obtain ⟨json, rfl, rfl⟩ := p.engine.prop_ok hsub
  rcases runs_rescue.mp hupload with ⟨id, hdeployment, hupload⟩ | ⟨u, u', e, rfl, -, herror⟩
  · obtain rfl := Except.ok.inj hdeployment
    obtain ⟨u, u', updated, rfl, hput, hafter⟩ := runs_bind_ok.mp hupload
    obtain ⟨id', hmember, hafter⟩ := runs_attempted.mp hafter
    obtain ⟨rfl, hdone⟩ := runs_done.mp hafter
    obtain ⟨json', rfl, rfl⟩ := p.engine.prop_ok hmember
    obtain ⟨e₃, rfl, he₃⟩ := runs_cfRequest hput
    obtain rfl := Except.ok.inj hdone
    exact ⟨e₃, e₄, e₅, idText, some json', some json, enabled, zoneText, by simp, hid, he₃, he₄,
      he₅, htext, Except.ok.inj huploaded⟩
  · cases (runs_done.mp herror).2

theorem runs_provisionAccount {v : Option Json}
    (h : Runs (provisionAccount p) t (some (.ok v))) :
    ∃ e₁ e₂ challenge solved, t = [e₁, e₂] ∧
      Calls p "/provisioning/previews/challenge".toList "POST".toList none (.json (.obj []))
        challenge e₁ ∧
      solveChallenge p.engine p.sha256 p.buffer challenge = .ok solved ∧
      Calls p "/provisioning/previews".toList "POST".toList none (.json (previewsBody solved)) v
        e₂ := by
  obtain ⟨u, u', challenge, rfl, hchallenge, hrest⟩ := runs_bind_ok.mp h
  obtain ⟨solved, hsolved, hpreviews⟩ := runs_attempted.mp hrest
  obtain ⟨e₁, rfl, he₁⟩ := runs_cfRequest hchallenge
  obtain ⟨e₂, rfl, he₂⟩ := runs_cfRequest hpreviews
  exact ⟨e₁, e₂, challenge, solved, rfl, he₁, hsolved, he₂⟩

theorem runs_deployAttempt {r : DeployResult}
    (h : Runs (deployAttempt p input opts) t (some (.ok r))) : Deployed p input t r := by
  obtain ⟨t₁, t', provisioned, rfl, hprov, hrest⟩ := runs_bind_ok.mp h
  obtain ⟨e₁, e₂, challenge, solved, rfl, he₁, hsolved, he₂⟩ := runs_provisionAccount hprov
  obtain ⟨t₂, t₃, uploaded, rfl, hupload, hrest⟩ := runs_bind_ok.mp hrest
  obtain ⟨probes, t₄, a, rfl, hprobes, hrest⟩ := runs_bind_ok.mp hrest
  obtain ⟨rfl, hresult⟩ := runs_done.mp hrest
  have hr := thrown_ok hresult.symm
  obtain ⟨hurl, hdeployment, json, rfl, hid, htoken⟩ := deployResult_ok hr
  obtain ⟨account, haccount, hupload⟩ := runs_attempted.mp hupload
  obtain ⟨id, hid', hupload⟩ := runs_attempted.mp hupload
  obtain ⟨bearer, htoken', hupload⟩ := runs_attempted.mp hupload
  obtain ⟨json', hjson, rfl⟩ := p.engine.prop_ok haccount
  obtain rfl := Option.some.inj hjson
  obtain rfl := Except.ok.inj (hid.symm.trans hid')
  obtain rfl := Except.ok.inj (htoken.symm.trans htoken')
  obtain ⟨e₃, e₄, e₅, idText, updated, zone, enabled, zoneText, rfl, htext, he₃, he₄, he₅, hzone,
    rfl⟩ := runs_uploadWorkerScript hupload
  obtain ⟨href, hres, hp⟩ := runs_probeRoute hprobes
  rw [List.append_nil]
  rw [← hurl, ← hdeployment] at hr
  exact .intro he₁ hsolved he₂ rfl hid htext htoken he₃ he₄ he₅ hzone (hurl ▸ hres) hp hurl rfl rfl
    hdeployment hr

/-- **Result.** Whatever the outside answers, what a deployment returns comes from its last attempt
alone, and the last thing that attempt did was to see the relay at the url it returns. -/
theorem deployWorker_result {r : DeployResult}
    (h : Runs (deployWorker p input opts) t (some (.ok r))) :
    ∃ before last, t = before ++ last ∧ Deployed p input last r := by
  rcases Nat.eq_zero_or_pos opts.maxAttempts with h0 | hpos
  · unfold deployWorker at h
    rw [h0] at h
    cases (runs_done.mp h).2
  rw [deployWorker_eq hpos] at h
  obtain ⟨fails, last, hr⟩ := runs_retry h
  have htrace := hr.trace
  rw [show ending (afterAttempts opts) (1 + fails.length) (.ok r) =
    ([] : List DeployEntry) from rfl, List.append_nil] at htrace
  exact ⟨_, last, htrace, runs_deployAttempt hr.decided⟩

theorem deployWorker_result_plain :
    ∃ r, plainRun.2 = some (.ok r) ∧
      ∃ before last, plainRun.1 = before ++ last ∧ Deployed plainPlatform plainInput last r := by
  have hreturned : returned plainRun.2 = true := by decide +kernel
  have hruns := runs_plainRun
  generalize plainRun = run at hreturned hruns
  obtain ⟨t, o⟩ := run
  match o, hreturned with
  | some (.ok r), _ => exact ⟨r, rfl, deployWorker_result hruns⟩

/-! ## Where the tunnel secret goes -/

/-- Fetches that differ in the form of an upload only. -/
inductive SameButForm (input input' : DeployInput) : DeployAsk → DeployAsk → Prop
  | same (q : DeployAsk) : SameButForm input input' q q
  | upload (method url : Text) (headers : List (Text × Text)) :
      SameButForm input input' (.api ⟨method, url, headers, uploadForm input⟩)
        (.api ⟨method, url, headers, uploadForm input'⟩)

theorem mirrors_uploadWorkerScript (secret : Text) (accountId bearer : Option Json) :
    Mirrors (SameButForm input { input with tunnelSecret := secret })
      (uploadWorkerScript p input accountId bearer)
      (uploadWorkerScript p { input with tunnelSecret := secret } accountId bearer) := by
  have same : ∀ {α : Type} (s : Deploy α),
      Mirrors (SameButForm input { input with tunnelSecret := secret }) s s :=
    Mirrors.refl .same
  refine (same _).bind fun account => ?_
  refine ((Mirrors.bind ?_ fun _ => same _).rescue fun _ => same _).bind fun _ => same _
  -- the headers of a form do not depend on it
  exact (same (attempted (cfHeaders p bearer (uploadForm input)))).bind fun headers =>
    .ask (.upload _ _ headers) fun _ => same _

/-- With another secret, a deployment differs in its uploads only. -/
theorem mirrors_deployWorker (secret : Text) :
    Mirrors (SameButForm input { input with tunnelSecret := secret }) (deployWorker p input opts)
      (deployWorker p { input with tunnelSecret := secret } opts) := by
  have same : ∀ {α : Type} (s : Deploy α),
      Mirrors (SameButForm input { input with tunnelSecret := secret }) s s :=
    Mirrors.refl .same
  have hattempt : Mirrors (SameButForm input { input with tunnelSecret := secret })
      (deployAttempt p input opts) (deployAttempt p { input with tunnelSecret := secret } opts) :=
    (same _).bind fun v => Mirrors.bind
      ((same _).bind fun _ => (same _).bind fun _ => (same _).bind fun _ =>
        mirrors_uploadWorkerScript secret _ _)
      fun _ => same _
  rcases Nat.eq_zero_or_pos opts.maxAttempts with h0 | hpos
  · unfold deployWorker
    rw [h0]
    exact .done _
  · rw [deployWorker_eq hpos, deployWorker_eq hpos]
    exact hattempt.retry _ _

/-- A fetch with a form. -/
def IsUpload : DeployEntry → Prop
  | .asked (.api ⟨_, _, _, .form _ _⟩) _ => True
  | _ => False

/-- A fetch that asks for an account. -/
def IsPreviews : DeployEntry → Prop
  | .asked (.api q) _ => q.url = CF_API_BASE ++ "/provisioning/previews".toList
  | _ => False

/-- The upload to an account, under its bearer. -/
def UploadFor (p : DeployPlatform) (input : DeployInput) (provisioned : Option Json)
    (e : DeployEntry) : Prop :=
  ∃ account id bearer idText headers x, p.engine.prop "account".toList provisioned = .ok account ∧
    p.engine.prop "id".toList account = .ok id ∧ p.engine.template id = .ok idText ∧
    p.engine.prop "apiToken".toList account = .ok bearer ∧
    cfHeaders p bearer (uploadForm input) = .ok headers ∧
    e = .asked (.api ⟨"PUT".toList, CF_API_BASE ++ ("/accounts/".toList ++ idText ++
      "/workers/scripts/".toList ++ input.scriptName), headers, uploadForm input⟩) x

section Places

variable {P : DeployEntry → Prop}

theorem all_attempted {α β : Type} {r : Except Text α} {k : α → Deploy β}
    (h : ∀ a, r = .ok a → All P (k a)) : All P ((attempted r).bind k) := by
  cases r with
  | error e => exact all_done _
  | ok a => exact h a rfl

theorem all_cfRequest {path method : Text} {token : Option Json} {body : RequestBody}
    (h : ∀ headers x, cfHeaders p token body = .ok headers →
      P (.asked (.api ⟨method, CF_API_BASE ++ path, headers, body⟩) x)) :
    All P (cfRequest p path method token body) :=
  all_attempted fun headers hh => all_ask (fun x => h headers x hh) fun x => by
    cases x <;> exact all_done _

theorem all_probeRoute {url : Text} {probes intervalMs left : ℕ}
    (hs : P (.told (.sleep intervalMs))) (h : ∀ href x, P (.asked (.probe href) x)) :
    All P (probeRoute p url probes intervalMs left) := by
  induction left with
  | zero => exact all_done _
  | succ left ih =>
    have hnext : All P (if 0 < left then
        (.tell (.sleep intervalMs) (probeRoute p url probes intervalMs left) : Deploy Unit)
        else probeRoute p url probes intervalMs left) := by
      split_ifs
      · exact all_tell hs ih
      · exact ih
    unfold probeRoute
    simp only
    split
    · exact hnext
    · refine all_ask (h _) fun x => ?_
      by_cases hx : showsRelay x = true
      · rw [if_pos hx]
        exact all_done _
      · rw [if_neg hx]
        exact hnext

theorem all_provisionAccount : All (fun e => ¬ IsUpload e) (provisionAccount p) :=
  (all_cfRequest fun _ _ _ => id).bind fun _ => all_attempted fun _ _ =>
    all_cfRequest fun _ _ _ => id

theorem accounts_ne_previews (rest : Text) :
    CF_API_BASE ++ ("/accounts/".toList ++ rest) ≠
      CF_API_BASE ++ "/provisioning/previews".toList := by
  intro h
  have htail := congrArg (·[1]?) (List.append_cancel_left h)
  exact absurd htail (by simp)

/-- Once there is an account, no other is asked for, and what is uploaded goes there. -/
theorem all_deployTo (provisioned : Option Json) :
    All (fun e => ¬ IsPreviews e ∧ (IsUpload e → UploadFor p input provisioned e))
      (deployTo p input opts provisioned) := by
  refine (all_attempted fun account haccount => all_attempted fun id hid =>
    all_attempted fun bearer hbearer => all_attempted fun idText htext => ?_).bind fun uploaded =>
    (all_probeRoute ⟨fun h => h, fun h => h.elim⟩ fun _ _ => ⟨fun h => h, fun h => h.elim⟩).bind
      fun _ => all_done _
  have hother : ∀ {rest method : Text} {body : RequestBody}, (∀ m s, body ≠ .form m s) →
      All (fun e => ¬ IsPreviews e ∧ (IsUpload e → UploadFor p input provisioned e))
        (cfRequest p ("/accounts/".toList ++ rest) method bearer body) := by
    intro rest method body hbody
    refine all_cfRequest fun headers x _ => ⟨accounts_ne_previews rest, fun hup => ?_⟩
    cases body with
    | form m s => exact absurd rfl (hbody m s)
    | _ => exact hup.elim
  simp only [List.append_assoc]
  refine (((all_cfRequest fun headers x hheaders => ⟨accounts_ne_previews _, fun _ =>
    ⟨account, id, bearer, idText, headers, x, haccount, hid, htext, hbearer, hheaders, ?_⟩⟩).bind
      fun _ => all_attempted fun _ _ => all_done _).rescue fun _ => all_done _).bind fun _ =>
    (hother (by simp)).bind fun _ => all_attempted fun _ _ => (hother (by simp)).bind fun _ =>
    all_attempted fun _ _ => all_done _
  simp only [List.append_assoc]

/-- The account that an upload goes to. -/
def GoesTo (p : DeployPlatform) (input : DeployInput) (d e : DeployEntry) : Prop :=
  ∃ solved provisioned, Calls p "/provisioning/previews".toList "POST".toList none
    (.json (previewsBody solved)) provisioned d ∧ UploadFor p input provisioned e

theorem preceded_deployAttempt {r : Except DeployError DeployResult}
    (h : Runs (deployAttempt p input opts) t (some r)) :
    Preceded IsUpload IsPreviews (GoesTo p input) t := by
  rcases runs_bind.mp h with ⟨e, -, herror⟩ | ⟨t₁, t₂, provisioned, rfl, h₁, h₂⟩
  · exact .of_none (all_provisionAccount herror)
  obtain ⟨e₁, e₂, challenge, solved, rfl, he₁, -, he₂⟩ := runs_provisionAccount h₁
  have hno := all_provisionAccount h₁
  have hall := all_deployTo provisioned h₂
  refine (Preceded.of_none (t := [e₁]) (by simpa using hno e₁ (by simp))).append (u := e₂ :: t₂) ?_
  exact .cons (hno e₂ (by simp)) (fun e he hup => ⟨solved, provisioned, he₂, (hall e he).2 hup⟩)
    fun e he => (hall e he).1

end Places

instance : Inhabited FetchAnswer := ⟨.failed []⟩

/-- **Tunnel secret.** Whatever the outside answers and wherever a deployment stands: with another
secret and the same answers it has made the same fetches, pauses and log lines and ends alike, but
for the forms of its uploads; and each of these has gone to the account last given to it, under that
account's bearer. -/
theorem tunnelSecret_confined {o : Option (Except DeployError DeployResult)}
    (h : Runs (deployWorker p input opts) t o) :
    (∀ secret, ∃ t', Runs (deployWorker p { input with tunnelSecret := secret } opts) t' o ∧
      List.Forall₂ (Entry.Mirrors (SameButForm input { input with tunnelSecret := secret })) t t') ∧
      Preceded IsUpload IsPreviews (GoesTo p input) t := by
  refine ⟨fun secret => (mirrors_deployWorker secret).runs h, ?_⟩
  rcases Nat.eq_zero_or_pos opts.maxAttempts with h0 | hpos
  · unfold deployWorker at h
    rw [h0] at h
    exact .of_none fun e he => (all_done (P := fun _ => False) _ h e he).elim
  · rw [deployWorker_eq hpos] at h
    exact preceded_retry (fun _ => id) (fun _ _ => preceded_deployAttempt) h

theorem tunnelSecret_confined_plain :
    plainRun.1.length = 11 ∧
      (∀ secret, ∃ t', Runs
          (deployWorker plainPlatform { plainInput with tunnelSecret := secret } {}) t'
          plainRun.2 ∧ List.Forall₂ (Entry.Mirrors
            (SameButForm plainInput { plainInput with tunnelSecret := secret })) plainRun.1 t') ∧
      Preceded IsUpload IsPreviews (GoesTo plainPlatform plainInput) plainRun.1 :=
  ⟨by decide +kernel, tunnelSecret_confined runs_plainRun⟩

/-! ## What the log shows -/

section Lines

variable {pre : Text} {least : ℕ} {a b : Text}

/-- No match goes over a character that is in no pattern. -/
theorem MatchFree.glue {c : Char} (hpre : ∀ d ∈ pre, isTokenChar d = true)
    (hpos : 0 < pre.length + least) (ha : MatchFree pre least a) (hc : isTokenChar c = false)
    (hb : MatchFree pre least b) : MatchFree pre least (a ++ c :: b) := by
  -- what has matched before the character would match in `a` alone
  have hmatch : ∀ m, MatchesAt pre least (m ++ c :: b) → MatchesAt pre least m := by
    rintro m ⟨w, r, hsplit, hl, hw⟩
    have htok : ∀ d ∈ pre ++ w, isTokenChar d = true := tokens_append hpre hw
    rcases List.append_eq_append_iff.mp hsplit with ⟨u, hu, hur⟩ | ⟨u, hu, -⟩
    · cases u with
      | nil => exact ⟨w, [], by rw [hu]; simp, hl, hw⟩
      | cons d u =>
        obtain ⟨rfl, -⟩ := List.cons.inj hur
        rw [htok c (by rw [hu]; simp)] at hc
        cases hc
    · exact ⟨w, u, by rw [hu], hl, hw⟩
  intro v hv hm
  rcases suffix_append hv with hv | ⟨m, hma, -, rfl⟩
  · rcases List.suffix_cons_iff.mp hv with rfl | hv
    · obtain ⟨w, r, hsplit, hl, -⟩ := hmatch [] hm
      have := congrArg List.length hsplit
      simp only [List.length_append, List.length_nil] at this
      omega
    · exact hb v hv hm
  · exact ha m hma (hmatch m hm)

theorem matchFree_of_short (h : a.length < pre.length + least) : MatchFree pre least a := by
  rintro v hv ⟨w, r, rfl, hl, -⟩
  have := hv.length_le
  simp only [List.length_append] at this
  omega

theorem matchFree_of_not_mem {c : Char} (h : c ∉ a) : MatchFree (c :: pre) least a := by
  rintro v hv ⟨w, r, rfl, -, -⟩
  exact h (hv.subset (by simp))

theorem matchFree_digits {n : ℕ} (h : n < 10 ^ 21) : MatchFree [] 32 (Nat.toDigits 10 n) := by
  refine matchFree_of_short (Nat.lt_of_le_of_lt ?_ (show 21 < 32 by decide))
  exact (Nat.length_toDigits_le_iff (by decide) (by decide)).mpr h

theorem not_mem_digits {n : ℕ} {c : Char} (hc : c.isDigit = false) : c ∉ Nat.toDigits 10 n :=
  fun h => by
    rw [Number.mem_toDigits h] at hc
    cases hc

/-- A text with nothing secret-shaped in it. -/
def Harmless (text : Text) : Prop :=
  MatchFree "bbsh_".toList 1 text ∧ MatchFree "bbcm_".toList 1 text ∧ MatchFree [] 32 text

/-- A harmless beginning, a blank, and what was redacted. -/
theorem harmless_redacted (hb : 'b' ∉ a) (ha : MatchFree [] 32 a) (message : Text) :
    Harmless (a ++ ' ' :: redactSecrets message) := by
  obtain ⟨h₁, h₂, h₃⟩ := matchFree_redactSecrets message
  have hblank : isTokenChar ' ' = false := by decide
  exact ⟨.glue token_bbsh (by decide) (matchFree_of_not_mem hb) hblank h₁,
    .glue token_bbcm (by decide) (matchFree_of_not_mem hb) hblank h₂,
    .glue (by simp) (by decide) ha hblank h₃⟩

theorem Harmless.hides {text secret : Text} (h : Harmless text)
    (hs : isTunnelSecret secret = true) : ¬ secret <:+: text := by
  unfold isTunnelSecret at hs
  simp only [Bool.and_eq_true, decide_eq_true_eq, List.all_eq_true] at hs
  exact not_infix_of_matchFree h.2.2 hs.1.1 hs.2

end Lines

/-- The options whose numbers are written in digits. -/
structure DeployOptions.Digits (opts : DeployOptions) : Prop where
  attempts : opts.maxAttempts < 10 ^ 21
  backoffs : opts.backoffBaseMs * 2 ^ opts.maxAttempts < 10 ^ 21

section Lines

variable {attempt : ℕ}

theorem matchFree_attemptText (hd : opts.Digits) (ha : attempt < 10 ^ 21) {rest : Text} {c : Char}
    (hc : isTokenChar c = false) (hrest : MatchFree [] 32 rest) :
    MatchFree [] 32 (attemptText opts attempt ++ c :: rest) := by
  unfold attemptText
  rw [List.append_assoc, List.append_assoc]
  exact .glue (by simp) (by decide) (matchFree_digits ha) (by decide)
    (.glue (by simp) (by decide) (matchFree_digits hd.attempts) hc hrest)

theorem not_mem_attemptText : 'b' ∉ attemptText opts attempt := by
  unfold attemptText
  simp [not_mem_digits (show Char.isDigit 'b' = false by decide)]

theorem harmless_failedLine (hd : opts.Digits) (ha : attempt < 10 ^ 21) (err : DeployError) :
    Harmless (failedLine opts attempt err) := by
  have hline : failedLine opts attempt err = ("worker deploy failed (attempt".toList ++ ' ' ::
      (attemptText opts attempt ++ ')' :: ":".toList)) ++ ' ' :: redactSecrets err.message := by
    unfold failedLine
    simp
  rw [hline]
  refine harmless_redacted ?_ ?_ _
  · have hno : 'b' ∉ attemptText opts attempt := not_mem_attemptText
    simp [hno]
  · exact .glue (by simp) (by decide) (matchFree_of_short (by decide)) (by decide)
      (matchFree_attemptText hd ha (by decide) (matchFree_of_short (by decide)))

theorem harmless_retryLine (hd : opts.Digits) (ha : attempt ≤ opts.maxAttempts)
    (err : DeployError) : Harmless (retryLine opts attempt err) := by
  have hline : retryLine opts attempt err = ("worker deploy attempt".toList ++ ' ' ::
      (attemptText opts attempt ++ ' ' :: ("failed, retrying in".toList ++ ' ' ::
        (Nat.toDigits 10 (backoff opts attempt) ++ "ms:".toList)))) ++
          ' ' :: redactSecrets err.message := by
    unfold retryLine
    simp
  have hbackoff : backoff opts attempt < 10 ^ 21 :=
    (Nat.mul_le_mul_left _ (Nat.pow_le_pow_right (by decide) (by omega))).trans_lt hd.backoffs
  have hdelay : MatchFree [] 32 (Nat.toDigits 10 (backoff opts attempt) ++ "ms:".toList) := by
    refine matchFree_of_short ?_
    have := (Nat.length_toDigits_le_iff (b := 10) (by decide) (by decide)).mpr hbackoff
    rw [List.length_append]
    exact Nat.lt_of_le_of_lt (Nat.add_le_add_right this _) (by decide)
  rw [hline]
  refine harmless_redacted ?_ ?_ _
  · have hno : 'b' ∉ attemptText opts attempt := not_mem_attemptText
    have hdigits : 'b' ∉ Nat.toDigits 10 (backoff opts attempt) := not_mem_digits (by decide)
    simp [hno, hdigits]
  · exact .glue (by simp) (by decide) (matchFree_of_short (by decide)) (by decide)
      (matchFree_attemptText hd (ha.trans_lt hd.attempts) (by decide)
        (.glue (by simp) (by decide) (matchFree_of_short (by decide)) (by decide) hdelay))

end Lines

/-- Each log line of a script is harmless. -/
def LinesHarmless : DeployEntry → Prop
  | .told (.warn line) => Harmless line
  | _ => True

theorem all_linesHarmless_deployAttempt : All LinesHarmless (deployAttempt p input opts) := by
  have hcall : ∀ path method token body, All LinesHarmless (cfRequest p path method token body) :=
    fun _ _ _ _ => all_cfRequest fun _ _ _ => trivial
  refine ((hcall _ _ _ _).bind fun _ => all_attempted fun _ _ => hcall _ _ _ _).bind fun v =>
    All.bind ?_ fun uploaded => (all_probeRoute trivial fun _ _ => trivial).bind fun _ => all_done _
  refine all_attempted fun _ _ => all_attempted fun _ _ => all_attempted fun _ _ =>
    all_attempted fun _ _ => All.bind ?_ fun _ => (hcall _ _ _ _).bind fun _ =>
      all_attempted fun _ _ => (hcall _ _ _ _).bind fun _ => all_attempted fun _ _ => all_done _
  exact ((hcall _ _ _ _).bind fun _ => all_attempted fun _ _ => all_done _).rescue
    fun _ => all_done _

/-- **Log lines.** Whatever the outside answers, even what echoes the request, no log line of a
deployment holds the tunnel secret or any other tunnel secret, a handle or a credential. -/
theorem deploy_lines_harmless (hd : opts.Digits) {o : Option (Except DeployError DeployResult)}
    (h : Runs (deployWorker p input opts) t o) {line : Text} (hline : .told (.warn line) ∈ t) :
    Harmless line ∧ ∀ secret, isTunnelSecret secret = true → ¬ secret <:+: line := by
  have hall : All LinesHarmless (deployWorker p input opts) := by
    rcases Nat.eq_zero_or_pos opts.maxAttempts with h0 | hpos
    · unfold deployWorker
      rw [h0]
      exact all_done _
    rw [deployWorker_eq hpos]
    refine all_retry all_linesHarmless_deployAttempt (fun i hi e m hm => ?_) fun i hi e m hm => ?_
    · rcases List.mem_pair.mp hm with rfl | rfl
      · exact harmless_retryLine hd (by omega) e
      · trivial
    · obtain rfl := List.mem_singleton.mp hm
      have hattempts := hd.attempts
      exact harmless_failedLine hd (by omega) e
  exact ⟨hall h _ hline, fun _ hs => Harmless.hides (hall h _ hline) hs⟩

/-- The lines of a run. -/
def lines (t : List DeployEntry) : List Text :=
  t.filterMap fun
    | .told (.warn line) => some line
    | _ => none

theorem mem_of_mem_lines {line : Text} (h : line ∈ lines t) : .told (.warn line) ∈ t := by
  obtain ⟨e, he, hl⟩ := List.mem_filterMap.mp h
  split at hl
  · rwa [← Option.some.inj hl]
  · cases hl

/-- The message of the first attempt held the secret. -/
theorem deploy_lines_harmless_plain :
    let line := ("worker deploy attempt 1/3 failed, retrying in 1000ms: ".toList ++
      "CF POST /provisioning/previews/challenge failed: [redacted]".toList)
    lines plainRun.1 = [line] ∧ Harmless line ∧
      ∀ secret, isTunnelSecret secret = true → ¬ secret <:+: line := by
  intro line
  have hlines : lines plainRun.1 = [line] := by decide +kernel
  refine ⟨hlines, deploy_lines_harmless ⟨by decide, by decide⟩ runs_plainRun ?_⟩
  exact mem_of_mem_lines (hlines ▸ List.mem_singleton_self _)

end BbShared
