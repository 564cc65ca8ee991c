import BbShared.Js.Replace
import BbShared.Redaction
import BbShared.Registry
import BbShared.RuntimeRule
import BbShared.SharedTunnel

/-!
# What is reported of a tunnel

The errors of `lib/shared-tunnel.ts` and `tunnel-client/src/humanize.ts`, and the faults that the
lifecycle shows to the owner.  A socket's error may say anything, the request with its bearer
included: the tunnel replaces its secret in the line it makes of it, and the lifecycle redacts what
the probes come to.
-/

namespace BbShared

open Js

/-! ## Errors of sockets -/

/-- An error of a socket. -/
structure TransportError where
  code : Option Text
  message : Text

/-- `/timed out|timeout|ETIMEDOUT/i`. -/
def isTimeout (message : Text) : Bool :=
  ["timed out", "timeout", "etimedout"].any fun s => s.toList <:+: lower message

def humanizeTransportError (e : TransportError) (host : Text) : Text :=
  let reason :=
    if e.code = some "ECONNREFUSED".toList then "connection refused".toList
    else if e.code = some "ENOTFOUND".toList ∨ e.code = some "EAI_AGAIN".toList then
      "host not found".toList
    else if e.code = some "ETIMEDOUT".toList ∨ isTimeout e.message then "timed out".toList
    else if e.code = some "ECONNRESET".toList then "connection reset".toList
    else e.message
  "can't reach ".toList ++ host ++ " — ".toList ++ reason

/-- The `lastError` that the tunnel makes of a socket's error. -/
def transportFault (tunnelSecret host : Text) (e : TransportError) : Text :=
  replaceAll tunnelSecret redactedMark (humanizeTransportError e host)

/-! ## Texts that hide a secret -/

/-- The secret is nowhere in the text. -/
def Hides (secret text : Text) : Prop := ¬ secret <:+: text

section Hides

variable {secret : Text} (hs : isTunnelSecret secret = true)

include hs

theorem token_of_secret : ∀ c ∈ secret, isTokenChar c = true := by
  unfold isTunnelSecret at hs
  simp only [Bool.and_eq_true, List.all_eq_true] at hs
  exact hs.2

theorem hides_of_short {text : Text} (h : text.length < 32) : Hides secret text := by
  unfold isTunnelSecret at hs
  simp only [Bool.and_eq_true, decide_eq_true_eq] at hs
  intro hi
  have := hi.length_le
  omega

/-- A secret does not lie across a character that it cannot have. -/
theorem hides_append {a b : Text} {c : Char} (hc : isTokenChar c = false) (ha : Hides secret a)
    (hb : Hides secret b) : Hides secret (a ++ c :: b) := by
  intro hi
  have hm : c ∉ secret := fun hm => by rw [token_of_secret hs c hm] at hc; cases hc
  exact (infix_append_cons hm hi).elim ha hb

theorem hides_redactSecrets (text : Text) : Hides secret (redactSecrets text) := by
  have hl : 32 ≤ secret.length := by
    unfold isTunnelSecret at hs
    simp only [Bool.and_eq_true, decide_eq_true_eq] at hs
    exact hs.1.1
  exact not_infix_of_matchFree (matchFree_redactSecrets text).2.2 hl (token_of_secret hs)

theorem hides_transportFault (host : Text) (e : TransportError) :
    Hides secret (transportFault secret host e) := by
  have hne : secret ≠ [] := by
    rintro rfl
    cases hs
  have hbracket : ∀ c, isTokenChar c = false → c ∉ secret := fun c hc hm => by
    rw [token_of_secret hs c hm] at hc
    cases hc
  exact (replaces_replaceAll hne _ _).pattern_absent
    (a := '[') (m := "redacted".toList) (b := ']') hne
    (hbracket '[' (by decide)) (hbracket ']' (by decide)) (hides_of_short hs (by decide))

end Hides

/-! ## The tunnel -/

namespace SharedTunnel

/-- The events of the socket library, with the line that the tunnel makes of an error. -/
def Emits (tunnelSecret : Text) : TunnelEvent → Prop
  | .socketError _ message => ∃ host e, message = transportFault tunnelSecret host e
  | .unexpectedResponse _ status _ => status < 1000
  | _ => True

section Frame

variable (s : SharedTunnel)

theorem lastError_teardownSocket : s.teardownSocket.lastError = s.lastError := by
  unfold teardownSocket unlisten
  cases s.socket with
  | none => rfl
  | some i =>
    simp only
    cases s.sockets[i]? <;> rfl

theorem lastError_stop : s.stop.lastError = s.lastError :=
  lastError_teardownSocket { s with stopped := true, retryTimer := none }

theorem lastError_dial : s.dial.lastError = s.lastError := by
  unfold dial
  split_ifs <;> rfl

theorem lastError_scheduleReconnect (now : ℕ) :
    (s.scheduleReconnect now).lastError = s.lastError := by
  unfold scheduleReconnect
  split_ifs <;> rfl

/-- What a refused dial reports. -/
theorem lastError_onUnexpectedResponse (status now : ℕ) :
    (s.onUnexpectedResponse status now).lastError = some (rejected status) ∨
      (s.onUnexpectedResponse status now).lastError = some (protocolIncompatible status) := by
  unfold onUnexpectedResponse
  simp only
  split_ifs
  · exact .inr rfl
  · exact .inl (lastError_stop _)
  · exact .inl (lastError_scheduleReconnect _ now)

end Frame

variable {s t : SharedTunnel} {e : TunnelEvent} {secret : Text}

/-- The last error hides the secret. -/
def Reticent (secret : Text) (s : SharedTunnel) : Prop := ∀ m ∈ s.lastError, Hides secret m

theorem length_toDigits {n : ℕ} (h : n < 1000) : (Nat.toDigits 10 n).length ≤ 3 :=
  (Nat.length_toDigits_le_iff (by decide) (by decide)).mpr h

theorem hides_rejected (hs : isTunnelSecret secret = true) {status : ℕ} (h : status < 1000) :
    Hides secret (rejected status) := by
  have hl := length_toDigits h
  have hsplit : rejected status =
      "worker rejected tunnel: HTTP".toList ++ ' ' :: Nat.toDigits 10 status := by
    unfold rejected
    simp
  rw [hsplit]
  exact hides_append hs (by decide) (hides_of_short hs (by decide)) (hides_of_short hs (by omega))

theorem hides_protocolIncompatible (hs : isTunnelSecret secret = true) {status : ℕ}
    (h : status < 1000) : Hides secret (protocolIncompatible status) := by
  have hl := length_toDigits h
  have hsplit : protocolIncompatible status = "Relay protocol incompatible ".toList ++ '(' ::
      ("HTTP ".toList ++ Nat.toDigits 10 status ++ ')' ::
        "; update the relay deployment.".toList) := by
    unfold protocolIncompatible
    simp
  rw [hsplit]
  refine hides_append hs (by decide) (hides_of_short hs (by decide)) ?_
  refine hides_append hs (by decide) (hides_of_short hs ?_) (hides_of_short hs (by decide))
  rw [List.length_append]
  have : "HTTP ".toList.length = 5 := rfl
  omega

/-- **Step lemma.** -/
theorem Reticent.step (h : s.Reticent secret) (hs : isTunnelSecret secret = true)
    (he : Emits secret e) (ht : s.step e = some t) : t.Reticent secret := by
  unfold Reticent at h ⊢
  cases Step.of_step ht with
  | start =>
    unfold start
    split_ifs
    · rw [lastError_dial]
      exact h
    · exact h
  | stop =>
    rw [lastError_stop]
    exact h
  | ignored => exact h
  | opened =>
    intro m hm
    cases hm
  | refused hi =>
    intro m hm
    rcases lastError_onUnexpectedResponse s _ _ with hr | hr
    · rw [hr] at hm
      obtain rfl := Option.some.inj hm
      exact hides_rejected hs he
    · rw [hr] at hm
      obtain rfl := Option.some.inj hm
      exact hides_protocolIncompatible hs he
  | failed hi =>
    intro m hm
    obtain rfl := Option.some.inj hm
    obtain ⟨host, e, rfl⟩ := he
    exact hides_transportFault hs host e
  | closed =>
    unfold onClose
    rw [lastError_scheduleReconnect]
    exact h
  | retry hd =>
    rw [lastError_dial]
    exact h
  | clients => exact h

theorem reticent (hs : isTunnelSecret secret = true)
    (h : Machine.Reaches SharedTunnel.step (fun _ e => Emits secret e) new s) : s.Reticent secret :=
  h.invariant (fun _ hm => by cases hm) fun _ _ _ ht he hstep => ht.step hs he hstep

end SharedTunnel

/-! ## The lifecycle -/

namespace Runtime

variable {r : Runtime} {verifyReadiness : Text → Json → Bool}

/-- The connection's fault and the error of its tunnel hide its secret. -/
structure Reticent (r : Runtime) : Prop where
  fault : ∀ m ∈ r.fault, Hides r.record.tunnelSecret m
  error : ∀ t ∈ r.tunnel, ∀ m ∈ t.lastError, Hides r.record.tunnelSecret m

/-- The errors that a tunnel with the connection's secret can report. -/
def Reported (r : Runtime) (e : Option Text) : Prop :=
  ∃ tunnel, Machine.Reaches SharedTunnel.step
    (fun _ event => SharedTunnel.Emits r.record.tunnelSecret event) SharedTunnel.new tunnel ∧
    e = tunnel.lastError

theorem hides_interrupted {secret : Text} (hs : isTunnelSecret secret = true) :
    Hides secret "Connection to relay interrupted; reconnecting.".toList := by
  have hsplit : "Connection to relay interrupted; reconnecting.".toList =
      "Connection to relay interrupted".toList ++ ';' :: " reconnecting.".toList := by decide
  rw [hsplit]
  exact hides_append hs (by decide) (hides_of_short hs (by decide)) (hides_of_short hs (by decide))

theorem Reticent.onStatusChange (h : r.Reticent)
    (hs : isTunnelSecret r.record.tunnelSecret = true) (state : TunnelState) (now : ℕ) :
    (r.onStatusChange state now).Reticent := by
  have hreport : Hides r.record.tunnelSecret ((r.tunnel.bind (·.lastError)).getD
      "Connection to relay interrupted; reconnecting.".toList) := by
    cases hb : r.tunnel.bind (·.lastError) with
    | none => exact hides_interrupted hs
    | some m =>
      obtain ⟨t, ht, hm⟩ := Option.bind_eq_some_iff.mp hb
      exact h.error t ht m hm
  refine ⟨fun m hm => ?_, h.error⟩
  cases state with
  | connected | connecting => cases hm
  | _ =>
    obtain rfl := Option.some.inj hm
    exact hreport

theorem Reticent.answerProbe (h : r.Reticent)
    (hs : isTunnelSecret r.record.tunnelSecret = true) (aborted : Bool) (a : ProbeAnswer) :
    (r.answerProbe verifyReadiness aborted a).Reticent := by
  unfold Runtime.answerProbe
  cases r.probe with
  | none => exact h
  | some p =>
    simp only
    split_ifs
    · exact h
    · exact ⟨h.fault, h.error⟩
    · cases a with
      | failed e =>
        refine ⟨fun m hm => ?_, h.error⟩
        obtain rfl := Option.some.inj hm
        exact hides_redactSecrets hs _
      | response status body =>
        simp only
        split_ifs
        · exact ⟨(fun m hm => by cases hm), h.error⟩
        · refine ⟨fun m hm => ?_, h.error⟩
          obtain rfl := Option.some.inj hm
          exact hides_redactSecrets hs _

theorem Reticent.startProbe (h : r.Reticent) (aborted : Bool) (challenge : Text) (now : ℕ) :
    (r.startProbe aborted challenge now).Reticent := by
  unfold Runtime.startProbe
  split_ifs
  · exact h
  · exact ⟨h.fault, h.error⟩

theorem Reticent.settleProbe (h : r.Reticent) : r.settleProbe.Reticent := by
  unfold Runtime.settleProbe
  split
  · split_ifs
    · exact ⟨h.fault, h.error⟩
    · exact h
  · exact h

/-- An error that the tunnel reports. -/
theorem Reticent.setLastError (h : r.Reticent)
    (hs : isTunnelSecret r.record.tunnelSecret = true) {e : Option Text} (he : r.Reported e) :
    (r.setLastError e).Reticent := by
  refine ⟨h.fault, fun t ht m hm => ?_⟩
  obtain ⟨tunnel, hreach, rfl⟩ := he
  obtain ⟨t₀, -, rfl⟩ := Option.map_eq_some_iff.mp ht
  exact SharedTunnel.reticent hs hreach m hm

/-- What the updates of a runtime keep. -/
theorem reticent_rule : RuntimeRule verifyReadiness
    (fun _ r => isTunnelSecret r.record.tunnelSecret = true → r.Reticent)
    (fun _ => True) (fun _ _ => True) Reported where
  mono h := h
  init record _ := ⟨(fun m hm => by cases hm), (fun t ht => by cases ht)⟩
  status := by
    intro c r t next ht h (hs : isTunnelSecret r.record.tunnelSecret = true)
    have ht' : Reticent { r with tunnel := some { t with state := next } } := by
      refine ⟨(h hs).fault, fun t' ht' m hm => ?_⟩
      obtain rfl := Option.some.inj ht'
      exact (h hs).error _ ht m hm
    exact ht'.onStatusChange hs next c
  connect := by
    intro c r h (hs : isTunnelSecret r.record.tunnelSecret = true)
    have ht : Reticent { r with tunnel := some ⟨.connecting, none⟩ } := by
      refine ⟨(h hs).fault, fun t ht m hm => ?_⟩
      obtain rfl := Option.some.inj ht
      cases hm
    exact ht.onStatusChange hs .connecting c
  error := by
    intro c r e he h (hs : isTunnelSecret r.record.tunnelSecret = true)
    exact (h hs).setLastError hs he
  start aborted challenge _ h hs := by
    rw [record_startProbe] at hs
    exact (h hs).startProbe aborted challenge _
  answer aborted a _ h hs := by
    rw [(answerProbe_frame aborted a).2.2.1] at hs
    exact (h hs).answerProbe hs aborted a
  settle h hs := by
    rw [record_settleProbe] at hs
    exact (h hs).settleProbe

end Runtime

namespace WorkerLifecycle

/-- What the owner's panel shows of a connection. -/
structure ConnectionStatus where
  id : Text
  url : Text
  state : ConnectionState
  isDefault : Bool
  tunnel : Option TunnelState
  fault : Option Text

/-- The entry of `listConnections` for one connection. -/
def connectionStatus (s : WorkerLifecycle) (i : ℕ) : ConnectionStatus :=
  let r := s.runtimes i
  { id := r.record.id, url := r.record.url, state := r.state
    isDefault := some r.record.id = s.defaultId, tunnel := r.tunnelState, fault := r.fault }

def listConnections (s : WorkerLifecycle) : List ConnectionStatus :=
  s.connections.values.map s.connectionStatus

variable {parser : UrlParser} {verifyReadiness : Text → Json → Bool} {s : WorkerLifecycle}

/-- **Faults hide the secrets.** In every run whose tunnels report the errors of the tunnel's
program, whatever their sockets and the probes say, no connection listed to the owner shows a fault
with its pairing secret in it. -/
theorem faults_hide_secrets
    (h : Machine.Reaches (step parser verifyReadiness)
      (fun s e => s.Expected parser (fun _ => True) e ∧ e.Reports Runtime.Reported s) init s)
    {status : ConnectionStatus} (hm : status ∈ s.listConnections) :
    ∃ i ∈ s.connections.values, status = s.connectionStatus i ∧
      isTunnelSecret (s.runtimes i).record.tunnelSecret = true ∧
      ∀ m ∈ status.fault, Hides (s.runtimes i).record.tunnelSecret m := by
  have hregistry := registry_of_reaches (fun _ _ => trivial) (h.mono fun _ _ he => he.1)
  have hrule : RuntimeRule verifyReadiness _ _ _ _ := Runtime.reticent_rule
  have hreticent : s.AllRuntimes _ := h.invariant (fun _ => hrule.init (c := 0) _)
    fun _ e _ ht he hs => ht.step hrule (e.challenges_of_forall fun _ => trivial)
      (e.answers_of_forall fun _ _ => trivial) he.2 hs
  obtain ⟨i, hi, rfl⟩ := List.mem_map.mp hm
  have hs := (hregistry.core.valid.records _ (List.mem_map_of_mem hi)).tunnelSecret
  exact ⟨i, hi, rfl, hs, (hreticent i hs).fault⟩

/-- A socket's error that repeats the bearer. -/
theorem faults_hide_secrets_bearer :
    ∃ s, Machine.Reaches (step .shareExample fun _ _ => true)
      (fun s e => s.Expected .shareExample (fun _ => True) e ∧ e.Reports Runtime.Reported s) init s ∧
      ∃ status ∈ s.listConnections,
        status.fault = some "can't reach share.example — Bearer [redacted]".toList ∧
        ∃ secret, isTunnelSecret secret = true ∧ ∀ m ∈ status.fault, Hides secret m := by
  let secret : Text := List.replicate 43 'a'
  let record : ConnectionRecord :=
    ⟨['1'], "relay".toList, "https://share.example".toList, secret, none, 1⟩
  let error : TransportError := ⟨none, "Bearer ".toList ++ secret⟩
  have hsnapshot : ConnectionSnapshot.Valid .shareExample ⟨some ['1'], [record]⟩ := by
    decide +kernel
  have hreported : (Runtime.init record).Reported
      (some (transportFault secret "share.example".toList error)) := by
    have h0 : Machine.Reaches SharedTunnel.step
        (fun _ event => SharedTunnel.Emits secret event) .new .new := .refl
    have h1 := h0.next .start trivial rfl
    exact ⟨_, h1.next (.socketError 0 _) ⟨"share.example".toList, error, rfl⟩ rfl, rfl⟩
  have h0 : Machine.Reaches (step .shareExample fun _ _ => true)
      (fun s e => s.Expected .shareExample (fun _ => True) e ∧ e.Reports Runtime.Reported s)
      init init := .refl
  have h1 := h0.next .start ⟨trivial, trivial⟩ rfl
  have h2 := h1.next (.loaded (.ok ⟨some ['1'], [record]⟩)) ⟨hsnapshot, trivial⟩ rfl
  have h3 := h2.next (.lastError 0 _) ⟨trivial, hreported⟩ rfl
  have h4 := h3.next (.status 0 .reconnecting []) ⟨trivial, trivial⟩ rfl
  refine ⟨_, h4, _, List.mem_cons_self, ?_, ?_⟩
  · have htext : transportFault secret "share.example".toList error =
        "can't reach share.example — Bearer [redacted]".toList := by decide +kernel
    exact congrArg some htext
  · obtain ⟨i, -, -, hs, hides⟩ := faults_hide_secrets h4 List.mem_cons_self
    exact ⟨_, hs, hides⟩

end WorkerLifecycle

end BbShared
