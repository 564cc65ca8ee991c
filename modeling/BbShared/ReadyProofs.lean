import BbShared.Readiness
import BbShared.RuntimeRule
import BbShared.Gateway

/-!
# Proofs of readiness

The readiness exchange of `guest-gateway/index.ts` composed with the probes of the lifecycle.  The
gateway proves a challenge with a key that it makes anew whenever it starts, and only while BB
answers; the relay and the network between them may lose, replay or invent every message.

`answered` records each proof that the gateway gave, with the time it did.  A run is admissible
when nobody else makes the proof of a probe's challenge and the challenges of new probes are new.
-/

namespace BbShared

open Js

/-! ## The gateway's end -/

section Gateway

/- `proof` is the HMAC of a challenge under the gateway's readiness key, in hex. -/
variable (proof : Text → Text)

/-- `/^[a-f0-9]{64}$/`. -/
def isProof (value : Text) : Bool :=
  value.length == 64 && value.all fun c => ('a' ≤ c && c ≤ 'f') || ('0' ≤ c && c ≤ '9')

/-- The answer to a readiness challenge, once BB has answered. -/
def readinessResponse (challenge : Text) (ok : Bool) : ℕ × Json :=
  if ok then
    (200, .obj [("service".toList, .str "bb-shared-gateway".toList),
      ("version".toList, .num (.ofNat 1)), ("challenge".toList, .str challenge),
      ("proof".toList, .str (proof challenge))])
  else (503, .obj [("error".toList, .str "BB unavailable".toList)])

/-- `verifyReadiness`. -/
def verifyReadiness (challenge : Text) (response : Json) : Bool :=
  if (response.member "service".toList).bind Json.str? ≠ some "bb-shared-gateway".toList ∨
      WorkerLifecycle.memberIs response "version".toList 1 = false ∨
      (response.member "challenge".toList).bind Json.str? ≠ some challenge then false
  else
    match (response.member "proof".toList).bind Json.str? with
    | some value => isProof value && proof challenge == value
    | none => false

variable {proof} {challenge : Text}

/-- The gateway takes its own proofs. -/
theorem verifyReadiness_response (h : isProof (proof challenge) = true) :
    verifyReadiness proof challenge (readinessResponse proof challenge true).2 = true := by
  have hchallenge : ((readinessResponse proof challenge true).2.member "challenge".toList).bind
      Json.str? = some challenge := rfl
  have hproof : ((readinessResponse proof challenge true).2.member "proof".toList).bind
      Json.str? = some (proof challenge) := rfl
  have hservice : ((readinessResponse proof challenge true).2.member "service".toList).bind
      Json.str? = some "bb-shared-gateway".toList := rfl
  have hversion : WorkerLifecycle.memberIs (readinessResponse proof challenge true).2
      "version".toList 1 = true := by
    have hmember : (readinessResponse proof challenge true).2.member "version".toList =
        some (.num (.ofNat 1)) := rfl
    have hone := Number.toInt?_ofNat (n := 1) (by decide)
    unfold WorkerLifecycle.memberIs
    simp only [hmember, hone]
    rfl
  generalize (readinessResponse proof challenge true).2 = response at *
  unfold verifyReadiness
  rw [if_neg (by rw [hservice, hversion, hchallenge]; simp), hproof]
  simp only [h, Bool.true_and, beq_self_eq_true]

/-- What passes bears its own challenge and the proof of it. -/
theorem proof_of_verifyReadiness {response : Json}
    (h : verifyReadiness proof challenge response = true) :
    (response.member "challenge".toList).bind Json.str? = some challenge ∧
      (response.member "proof".toList).bind Json.str? = some (proof challenge) := by
  unfold verifyReadiness at h
  split_ifs at h with hc
  push Not at hc
  refine ⟨hc.2.2, ?_⟩
  cases hv : (response.member "proof".toList).bind Json.str? with
  | none => rw [hv] at h; cases h
  | some value =>
    rw [hv] at h
    rw [(beq_iff_eq.mp (Bool.and_eq_true_iff.mp h).2)]

end Gateway

/-! ## The composition -/

/-- The lifecycle, and the challenges that the gateway proved. -/
structure ReadyProofs where
  lifecycle : WorkerLifecycle
  answered : List (Text × ℕ)

namespace ReadyProofs

def init : ReadyProofs := ⟨.init, []⟩

/-- `requested` is a request that the gateway handles, whoever sent it, with BB's answer. -/
inductive Event where
  | lifecycle (e : WorkerLifecycle.Event)
  | requested (gateway : Gateway) (now : ℕ) (random : Bytes) (persisted : Bool) (req : Request)
      (ok : Bool)

section Step

variable (hmac : Hmac) (parser : UrlParser) (proof : Text → Text)

def step (s : ReadyProofs) : Event → Option ReadyProofs
  | .lifecycle e =>
    (s.lifecycle.step parser (verifyReadiness proof) e).map fun l => { s with lifecycle := l }
  | .requested gateway now random persisted req ok =>
    match handle hmac gateway now random persisted req, ok with
    | .probe challenge, true =>
      some { s with answered := s.answered ++ [(challenge, s.lifecycle.clock)] }
    | _, _ => some s

/-- Nobody but the gateway makes the proof of the challenge of the probe that is answered. -/
def Unforged (answered : List (Text × ℕ)) (r : Runtime) : ProbeAnswer → Prop
  | .response _ body => ∀ p ∈ r.probe,
      (body.member "proof".toList).bind Json.str? = some (proof p.challenge) →
      p.challenge ∈ answered.map (·.1)
  | .failed _ => True

/-- New probes have new challenges, and what answers a probe is not forged. -/
def Admissible (s : ReadyProofs) : Event → Prop
  | .lifecycle e => e.Challenges (· ∉ s.answered.map (·.1)) ∧
      e.Answers (Unforged proof s.answered) s.lifecycle
  | .requested .. => True

end Step

/-! ## One runtime -/

section Runtime

variable {proof : Text → Text} {answered : List (Text × ℕ)} {clock : ℕ} {r : Runtime}

/-- A probe in flight is older than every proof of its challenge, and so was the one that last made
the connection ready, whose challenge was proved. -/
structure Proved (answered : List (Text × ℕ)) (clock : ℕ) (r : Runtime) : Prop where
  probe : ∀ p ∈ r.probe, p.began < clock ∧ ∀ τ, (p.challenge, τ) ∈ answered → p.began < τ
  proof : ∀ p body, r.history.proof = some (p, body) →
    ∃ τ, (p.challenge, τ) ∈ answered ∧ p.began < τ

/-- One more proof, made now. -/
theorem Proved.record (h : Proved answered clock r) (challenge : Text) :
    Proved (answered ++ [(challenge, clock)]) clock r where
  probe := by
    intro p hp
    obtain ⟨hb, hτ⟩ := h.probe p hp
    refine ⟨hb, fun τ hm => ?_⟩
    rcases List.mem_append.mp hm with hm | hm
    · exact hτ τ hm
    · cases List.mem_singleton.mp hm
      exact hb
  proof := by
    intro p body hp
    obtain ⟨τ, hm, hb⟩ := h.proof p body hp
    exact ⟨τ, List.mem_append_left _ hm, hb⟩

theorem Proved.startProbe (h : Proved answered clock r) (aborted : Bool) {challenge : Text}
    (hc : challenge ∉ answered.map (·.1)) :
    Proved answered (clock + 1) (r.startProbe aborted challenge clock) := by
  have hmono : ∀ p ∈ r.probe, p.began < clock + 1 ∧
      ∀ τ, (p.challenge, τ) ∈ answered → p.began < τ := fun p hp =>
    ⟨(h.probe p hp).1.trans (Nat.lt_succ_self _), (h.probe p hp).2⟩
  unfold Runtime.startProbe
  split_ifs
  · exact ⟨hmono, h.proof⟩
  · refine ⟨fun p hp => ?_, h.proof⟩
    obtain rfl := Option.some.inj hp
    exact ⟨Nat.lt_succ_self _, fun τ hm => absurd (List.mem_map_of_mem hm) hc⟩

/-- The probe that an answer leaves is the one it answers, and a new proof is that probe's. -/
theorem answerProbe_cases (aborted : Bool) (a : ProbeAnswer) :
    (∀ p' ∈ (r.answerProbe (verifyReadiness proof) aborted a).probe, ∃ p ∈ r.probe,
      p'.challenge = p.challenge ∧ p'.began = p.began) ∧
    ((r.answerProbe (verifyReadiness proof) aborted a).history.proof = r.history.proof ∨
      ∃ p ∈ r.probe, ∃ status body, a = .response status body ∧
        verifyReadiness proof p.challenge body = true ∧
        (r.answerProbe (verifyReadiness proof) aborted a).history.proof = some (p, body)) := by
  unfold Runtime.answerProbe
  cases hp : r.probe with
  | none => simp [hp]
  | some p =>
    by_cases ha : p.answered = true
    · simp [ha, hp]
    · by_cases hg : r.generation ≠ p.generation ∨ aborted = true
      · simp [ha, hg]
      · cases a with
        | failed e => simp [ha, hg]
        | response status body =>
          by_cases hv : (responseOk status && verifyReadiness proof p.challenge body) = true
          · refine ⟨by simp [ha, hg, hv], Or.inr ⟨p, rfl, status, body, rfl, ?_, ?_⟩⟩
            · exact (Bool.and_eq_true_iff.mp hv).2
            · simp [ha, hg, hv]
          · simp [ha, hg, hv]

theorem Proved.answerProbe (h : Proved answered clock r) (aborted : Bool) {a : ProbeAnswer}
    (ha : Unforged proof answered r a) :
    Proved answered clock (r.answerProbe (verifyReadiness proof) aborted a) := by
  obtain ⟨hprobe, hproof⟩ := @answerProbe_cases proof r aborted a
  refine ⟨fun p' hp' => ?_, fun p body hp => ?_⟩
  · obtain ⟨p, hp, hc, hb⟩ := hprobe p' hp'
    rw [hc, hb]
    exact h.probe p hp
  · rcases hproof with hsame | ⟨q, hq, status, body', rfl, hv, hnew⟩
    · exact h.proof p body (hsame ▸ hp)
    · obtain ⟨rfl, rfl⟩ := Prod.mk.inj (Option.some.inj (hnew.symm.trans hp))
      obtain ⟨⟨c, τ⟩, hm, hc⟩ := List.mem_map.mp (ha q hq (proof_of_verifyReadiness hv).2)
      obtain rfl : c = q.challenge := hc
      exact ⟨τ, hm, (h.probe q hq).2 τ hm⟩

theorem proved_rule (proof : Text → Text) (answered : List (Text × ℕ)) :
    RuntimeRule (verifyReadiness proof) (Proved answered) (· ∉ answered.map (·.1))
      (Unforged proof answered) (fun _ _ => True) where
  mono h := ⟨fun p hp => ⟨(h.probe p hp).1.trans (Nat.lt_succ_self _), (h.probe p hp).2⟩, h.proof⟩
  init _ := ⟨(fun p hp => by cases hp), (fun p body hp => by cases hp)⟩
  status _ _ h :=
    ⟨fun p hp => ⟨(h.probe p hp).1.trans (Nat.lt_succ_self _), (h.probe p hp).2⟩, h.proof⟩
  connect h :=
    ⟨fun p hp => ⟨(h.probe p hp).1.trans (Nat.lt_succ_self _), (h.probe p hp).2⟩, h.proof⟩
  error _ _ h := ⟨h.probe, h.proof⟩
  start aborted _ hc h := h.startProbe aborted hc
  answer aborted _ ha h := h.answerProbe aborted ha
  settle h := by
    unfold Runtime.settleProbe
    split
    · split_ifs
      · exact ⟨(fun p hp => by cases hp), h.proof⟩
      · exact h
    · exact h

end Runtime

/-! ## Runs -/

variable {hmac : Hmac} {parser : UrlParser} {proof : Text → Text} {s : ReadyProofs}

/-- What every admissible run keeps. -/
def Invariant (proof : Text → Text) (s : ReadyProofs) : Prop :=
  s.lifecycle.Timely (verifyReadiness proof) ∧ s.lifecycle.AllRuntimes (Proved s.answered)

theorem invariant_init : init.Invariant proof :=
  ⟨WorkerLifecycle.timely_init, fun _ => (proved_rule proof []).init _⟩

/-- **Step lemma.** -/
theorem Invariant.step (h : s.Invariant proof) {e : Event} (ha : s.Admissible proof e)
    {t : ReadyProofs} (hs : s.step hmac parser proof e = some t) : t.Invariant proof := by
  cases e with
  | lifecycle e =>
    obtain ⟨l, hl, rfl⟩ := Option.map_eq_some_iff.mp hs
    exact ⟨h.1.step hl, h.2.step (proved_rule proof s.answered) ha.1 ha.2
      (WorkerLifecycle.Event.reports_of_forall (fun _ _ => trivial) e) hl⟩
  | requested gateway now random persisted req ok =>
    simp only [ReadyProofs.step] at hs
    split at hs
    · obtain rfl := Option.some.inj hs
      exact ⟨h.1, fun i => (h.2 i).record _⟩
    · obtain rfl := Option.some.inj hs
      exact h

theorem reaches_lifecycle
    (h : Machine.Reaches (step hmac parser proof) (Admissible proof) init s)
    {e : WorkerLifecycle.Event} {l : WorkerLifecycle}
    (hc : e.Challenges (· ∉ s.answered.map (·.1)))
    (ha : e.Answers (Unforged proof s.answered) s.lifecycle)
    (hl : s.lifecycle.step parser (verifyReadiness proof) e = some l) :
    Machine.Reaches (step hmac parser proof) (Admissible proof) init { s with lifecycle := l } :=
  h.tail (e := .lifecycle e) ⟨hc, ha⟩ (Option.map_eq_some_iff.mpr ⟨l, hl, rfl⟩)

theorem reaches_requested
    (h : Machine.Reaches (step hmac parser proof) (Admissible proof) init s)
    {gateway : Gateway} {now : ℕ} {random : Bytes} {persisted : Bool} {req : Request}
    {challenge : Text} (hh : handle hmac gateway now random persisted req = .probe challenge) :
    Machine.Reaches (step hmac parser proof) (Admissible proof) init
      { s with answered := s.answered ++ [(challenge, s.lifecycle.clock)] } :=
  h.tail (e := .requested gateway now random persisted req true) trivial
    (by simp only [step, hh])

/-- The gateway's own answer to a current probe makes the connection ready. -/
theorem answerProbe_honest {r : Runtime} {p : Probe} (hp : r.probe = some p)
    (hn : p.answered = false) (hg : r.generation = p.generation)
    (hproof : isProof (proof p.challenge) = true) :
    (r.answerProbe (verifyReadiness proof) false
      (.response 200 (readinessResponse proof p.challenge true).2)).state = .ready := by
  have hv : (responseOk 200 && verifyReadiness proof p.challenge
      (readinessResponse proof p.challenge true).2) = true :=
    Bool.and_eq_true_iff.mpr ⟨rfl, verifyReadiness_response hproof⟩
  unfold Runtime.answerProbe
  simp [hp, hn, hg, hv]

/-- **Ready is proved by this gateway.** In every state that an admissible run reaches, a ready
connection has a connected tunnel, and the probe that last made it ready has begun since the
tunnel's last change and had its challenge proved by the gateway after that, with BB answering.
Whatever the relay replays or invents in between. -/
theorem ready_proved
    (h : Machine.Reaches (step hmac parser proof) (Admissible proof) init s) (i : ℕ)
    (hr : (s.lifecycle.runtimes i).state = .ready) :
    (s.lifecycle.runtimes i).tunnelState = some .connected ∧
      ∃ p body τ, (s.lifecycle.runtimes i).history.proof = some (p, body) ∧
        (p.challenge, τ) ∈ s.answered ∧
        (s.lifecycle.runtimes i).history.changed < p.began ∧ p.began < τ := by
  have hinv : s.Invariant proof :=
    h.invariant invariant_init fun _ _ _ ht ha hs => ht.step ha hs
  obtain ⟨hc, p, body, hproof, hlt, _⟩ := (hinv.1.2 i).ready hr
  obtain ⟨τ, hm, hb⟩ := (hinv.2 i).proof p body hproof
  exact ⟨hc, p, body, τ, hproof, hm, hlt, hb⟩

/-- A readiness request. -/
def exampleRequest : Request :=
  ⟨.get, "/__bb_shared/ready?challenge=c".toList, [], [], true⟩

theorem handle_exampleRequest (hmac : Hmac) (gateway : Gateway) :
    handle hmac gateway 0 [] true exampleRequest = .probe ['c'] := by
  have hurl : requestUrl exampleRequest.target = some (Url.ofTarget exampleRequest.target) := by
    unfold requestUrl
    rw [if_neg (by decide +kernel)]
  have hpath : (Url.ofTarget exampleRequest.target).pathname = readyPath := by decide +kernel
  have hchallenge : (Url.ofTarget exampleRequest.target).paramValues "challenge".toList =
      [['c']] := by decide +kernel
  unfold handle
  simp only [hurl, hpath, hchallenge]
  rw [if_pos ⟨trivial, rfl⟩]
  rfl

/-- The gateway proves the challenge of a probe, and the connection is ready. -/
theorem ready_proved_once :
    ∃ s proof, Machine.Reaches (step .plain .shareExample proof) (Admissible proof) init s ∧
      (s.lifecycle.runtimes 0).state = .ready ∧
      (s.lifecycle.runtimes 0).tunnelState = some .connected := by
  let record : ConnectionRecord :=
    ⟨['1'], "relay".toList, "https://share.example".toList, List.replicate 43 'a', none, 1⟩
  let proof : Text → Text := fun challenge =>
    List.replicate 64 (if challenge = ['c'] then 'a' else 'b')
  have h0 : Machine.Reaches (step .plain .shareExample proof) (Admissible proof) init init := .refl
  have h1 := reaches_lifecycle (e := .start) h0 trivial trivial rfl
  have h2 := reaches_lifecycle (e := .loaded (.ok ⟨some ['1'], [record]⟩)) h1 trivial trivial rfl
  have h3 := reaches_lifecycle (e := .status 0 .connected ['c']) h2 List.not_mem_nil trivial rfl
  obtain ⟨s, h4, hprobe, hgeneration, haborted, hanswered⟩ : ∃ s, Machine.Reaches
      (step .plain .shareExample proof) (Admissible proof) init s ∧
      (s.lifecycle.runtimes 0).probe = some ⟨2, ['c'], 3, false⟩ ∧
      (s.lifecycle.runtimes 0).generation = 2 ∧ s.lifecycle.aborted = false ∧
      s.answered = [(['c'], 4)] :=
    ⟨_, reaches_requested h3 (handle_exampleRequest .plain ⟨[], default, ⟨[], .empty, nofun⟩⟩),
      rfl, rfl, rfl, rfl⟩
  have hunforged : Unforged proof s.answered (s.lifecycle.runtimes 0)
      (.response 200 (readinessResponse proof ['c'] true).2) := by
    intro p hp _
    obtain rfl := Option.some.inj (hprobe.symm.trans hp)
    rw [hanswered]
    exact List.mem_singleton_self _
  have h5 := reaches_lifecycle (e := .answered 0 (.response 200
    (readinessResponse proof ['c'] true).2)) h4 trivial hunforged rfl
  have hready := answerProbe_honest hprobe rfl hgeneration
    (show isProof (proof ['c']) = true by decide)
  rw [← haborted] at hready
  exact ⟨_, proof, h5, hready, (ready_proved h5 0 hready).1⟩

end ReadyProofs

end BbShared
