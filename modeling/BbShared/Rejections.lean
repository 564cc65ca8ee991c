import BbShared.Registry

/-!
# Rejected connection changes

What a call of the lifecycle leaves behind when it is rejected.  A call is followed from the moment
`initialize` has settled for it.  `During` holds as long as it runs, and `Unchanged` once it has been
rejected, with one exception: `register` looks for `stop` once more after the durable write, and
rejects a call whose snapshot has been saved.
-/

namespace BbShared

open Js

/-- The candidate of a registration that waits for its readiness or its save. -/
def Phase.candidate : Phase → Option ℕ
  | .probing i | .sleeping i | .saving (.register i _) _ => some i
  | _ => none

namespace WorkerLifecycle

/-! ## Purpose -/

/-- A rejected call leaves the connections, in the record and in memory, as it found them at `s`, and
the tunnel of its candidate stopped. -/
structure Unchanged (s t : WorkerLifecycle) : Prop where
  saved : t.saved = s.saved
  connections : t.connections = s.connections
  records : t.records = s.records
  defaultId : t.defaultId = s.defaultId
  candidates : t.candidates = []
  stopped : ∀ i, s.created ≤ i → i < t.created →
    ∀ tunnel ∈ (t.runtimes i).tunnel, tunnel.state = .stopped

/-- The save of a registration has succeeded in a lifecycle that was stopped meanwhile. -/
def StoppedDuringSave (s : WorkerLifecycle) (e : Event) : Prop := e = .saved ∧ s.aborted = true

/-! ## While the call runs -/

/-- What holds as long as a call runs that began at `s`. -/
structure During (s t : WorkerLifecycle) : Prop where
  saved : t.saved = s.saved
  connections : t.connections = s.connections
  records : t.records = s.records
  defaultId : t.defaultId = s.defaultId
  initialization : t.initialization = s.initialization
  made : ∀ i, s.created ≤ i → i < t.created → t.running.bind Phase.candidate = some i
  begun : s.aborted = false ∨ ∃ m, t.running = some (.initializing m)
  live : t.aborted = false → s.aborted = false

/-- How a step of a call comes out. -/
inductive Outcome (s t u : WorkerLifecycle) : Prop
  | runs : During s u → u.results = t.results → Outcome s t u
  | fulfilled : u.running = none → u.results = t.results ++ [.ok ()] → Outcome s t u
  | rejected : u.running = none → Unchanged s u → Outcome s t u

theorem Outcome.congr {s t t' u : WorkerLifecycle} (h : Outcome s t u)
    (ht : t.results = t'.results) : Outcome s t' u := by
  cases h with
  | runs hd hr => exact .runs hd (hr.trans ht)
  | fulfilled hn hr => exact .fulfilled hn (hr.trans (by rw [ht]))
  | rejected hn hu => exact .rejected hn hu

namespace During

variable {parser : UrlParser} {claimUrl : Text → Prop} {s t u : WorkerLifecycle}

theorem quiet (h : During s t) (hq : Quiet t u) : During s u where
  saved := hq.saved.trans h.saved
  connections := hq.connections.trans h.connections
  records := hq.records.trans h.records
  defaultId := hq.defaultId.trans h.defaultId
  initialization := hq.initialization.trans h.initialization
  made i hi hlt := by
    rw [hq.running]
    exact h.made i hi (hq.created ▸ hlt)
  begun := by
    rw [hq.running]
    exact h.begun
  live ha := h.live (hq.aborted ha)

/-- A call goes on with the candidate that it has, or without one. -/
theorem next (h : During s t) (hbegun : s.aborted = false) {phase : Phase}
    {handed : List ConnectionSnapshot}
    (hphase : phase.candidate = t.running.bind Phase.candidate) :
    During s { t with running := some phase, handed := handed } where
  saved := h.saved
  connections := h.connections
  records := h.records
  defaultId := h.defaultId
  initialization := h.initialization
  made i hi hlt := hphase.trans (h.made i hi hlt)
  begun := .inl hbegun
  live _ := hbegun

/-- A call without a candidate is rejected. -/
theorem settle (h : During s t) (hnone : t.running.bind Phase.candidate = none)
    (hc : t.candidates = []) (message : Text) : Unchanged s (t.settle (.error message)) where
  saved := h.saved
  connections := h.connections
  records := h.records
  defaultId := h.defaultId
  candidates := hc
  stopped i hi hlt := by
    have := h.made i hi hlt
    rw [hnone] at this
    cases this

theorem stop_stopped (r : Runtime) (now : ℕ) : ∀ tunnel ∈ (r.stop now).tunnel,
    tunnel.state = .stopped := by
  unfold Runtime.stop Runtime.setState
  intro tunnel h
  cases ht : r.tunnel with
  | none =>
    rw [ht] at h
    simp only at h
    rw [ht] at h
    cases h
  | some t =>
    rw [ht] at h
    by_cases hs : t.state = .stopped
    · simp only [hs, if_true] at h
      rw [ht] at h
      exact Option.some.inj h ▸ hs
    · simp only [hs, if_false] at h
      exact Option.some.inj h ▸ rfl

/-- A candidate is rejected. -/
theorem rejectCandidate (h : During s t) {i : ℕ} (hi : t.running.bind Phase.candidate = some i)
    (hc : t.candidates = [i]) (message : Text) : Unchanged s (t.rejectCandidate i message) := by
  have hq : Quiet t (t.stopTunnel i) := quiet_stopTunnel i
  have hd := h.quiet hq
  refine ⟨hd.saved, hd.connections, hd.records, hd.defaultId, ?_, fun j hj hlt => ?_⟩
  · show (t.stopTunnel i).candidates.erase i = []
    rw [hq.candidates, hc, List.erase_cons_head]
  · have hji := hd.made j hj hlt
    rw [hq.running, hi] at hji
    obtain rfl := Option.some.inj hji
    have hstop : (t.stopTunnel i).runtimes i = (t.runtimes i).stop t.clock := if_pos rfl
    show ∀ tunnel ∈ ((t.stopTunnel i).runtimes i).tunnel, tunnel.state = .stopped
    rw [hstop]
    exact stop_stopped _ _

/-! ### Steps -/

theorem deploy (h : During s t) (hnone : t.running.bind Phase.candidate = none)
    (hc : t.candidates = []) (hbegun : s.aborted = false) (random : Bytes) :
    Outcome s t (t.deploy random) := by
  unfold WorkerLifecycle.deploy
  split_ifs
  · exact .rejected rfl (h.settle hnone hc _)
  · exact .runs (h.next hbegun hnone.symm) rfl

theorem register (h : During s t) (hnone : t.running.bind Phase.candidate = none)
    (hc : t.candidates = []) (hbegun : s.aborted = false) (input secret : Text)
    (claim : Option Claim) : Outcome s t (t.register parser input secret claim) := by
  unfold WorkerLifecycle.register
  cases normalizeConnectionUrl parser.parse input with
  | error e => exact .rejected rfl (h.settle hnone hc _)
  | ok url =>
    simp only
    split_ifs
    · exact .rejected rfl (h.settle hnone hc _)
    · exact .rejected rfl (h.settle hnone hc _)
    · exact .rejected rfl (h.settle hnone hc _)
    · exact .runs (h.next hbegun hnone.symm) rfl

theorem operation (h : During s t) (hnone : t.running.bind Phase.candidate = none)
    (hc : t.candidates = []) (hbegun : s.aborted = false) (random : Bytes) (now : ℚ)
    (m : Mutation) : Outcome s t (t.operation parser random now m) := by
  cases m with
  | ensureDeployed =>
    unfold WorkerLifecycle.operation
    split_ifs
    · exact h.deploy hnone hc hbegun random
    · exact .fulfilled rfl rfl
  | deployConnection => exact h.deploy hnone hc hbegun random
  | registerConnection url secret => exact h.register hnone hc hbegun url secret none
  | removeConnection id =>
    unfold WorkerLifecycle.operation
    cases hg : t.connections.get id with
    | none =>
      simp only [hg]
      exact .rejected rfl (h.settle hnone hc _)
    | some i =>
      simp only [hg]
      exact .runs (h.next hbegun hnone.symm) rfl
  | setDefaultConnection id =>
    unfold WorkerLifecycle.operation
    cases hg : t.connections.get id with
    | none =>
      simp only [hg]
      exact .rejected rfl (h.settle hnone hc _)
    | some i =>
      simp only [hg]
      exact .runs (h.next hbegun hnone.symm) rfl

theorem operate (h : During s t) (hnone : t.running.bind Phase.candidate = none)
    (hc : t.candidates = []) (m : Mutation) (random : Bytes) (now : ℚ)
    (hi : t.initialization = .done ∨ ∃ e, t.initialization = .failed e) :
    Outcome s t (t.operate parser m random now) := by
  unfold WorkerLifecycle.operate
  rcases hi with hd | ⟨e, he⟩
  · rw [hd]
    simp only
    split_ifs with ha
    · exact .rejected rfl (h.settle hnone hc _)
    · exact h.operation hnone hc (h.live (by simpa using ha)) random now m
  · rw [he]
    exact .rejected rfl (h.settle hnone hc _)

theorem conclude (h : During s t) (hbegun : s.aborted = false) {i : ℕ}
    (hi : t.running.bind Phase.candidate = some i) (hc : t.candidates = [i]) (now : ℚ) :
    Outcome s t (t.conclude i now) := by
  unfold WorkerLifecycle.conclude
  simp only
  split_ifs
  · exact .rejected rfl (h.rejectCandidate hi hc _)
  · exact .runs (h.next hbegun hi.symm) rfl

theorem probed (h : During s t) (hbegun : s.aborted = false) {i : ℕ}
    (hi : t.running.bind Phase.candidate = some i) (hc : t.candidates = [i]) (now : ℚ) :
    Outcome s t (t.probed i now) := by
  unfold WorkerLifecycle.probed
  simp only
  split_ifs
  · exact h.conclude hbegun hi hc now
  · exact .rejected rfl (h.rejectCandidate hi hc _)
  · exact .runs (h.next hbegun hi.symm) rfl

/-- Where the call waited before does not matter to the loop. -/
theorem poll_running (i : ℕ) (pass : Pass) (running : Option Phase) :
    { t with running := running }.poll i pass = t.poll i pass := by
  unfold WorkerLifecycle.poll WorkerLifecycle.conclude
  simp only
  split_ifs <;> rfl

theorem poll (h : During s t) (hbegun : s.aborted = false) {i : ℕ}
    (hi : t.running.bind Phase.candidate = some i) (hc : t.candidates = [i]) (pass : Pass) :
    Outcome s t (t.poll i pass) := by
  unfold WorkerLifecycle.poll
  split_ifs
  · exact h.conclude hbegun hi hc _
  · have hq : Quiet t (t.probe i pass.challenge) := quiet_probe i pass.challenge
    have hcand : Phase.candidate (.probing i) = (t.probe i pass.challenge).running.bind
        Phase.candidate := by
      rw [hq.running]
      exact hi.symm
    exact .runs ((h.quiet hq).next hbegun hcand) rfl

/-- The relay's identity makes a candidate, the first since the call began. -/
theorem identified (h : During s t) (hnone : t.running.bind Phase.candidate = none)
    (hc : t.candidates = []) (hbegun : s.aborted = false) (hk : t.Keyed) (url secret : Text)
    (claim : Option Claim) (answer : IdentityAnswer) (uuid : Text) (createdAt : ℚ) (pass : Pass) :
    Outcome s t (t.identified url secret claim answer uuid createdAt pass) := by
  unfold WorkerLifecycle.identified
  cases identity answer with
  | error e => exact .rejected rfl (h.settle hnone hc _)
  | ok relayId =>
    simp only
    split_ifs
    · exact .rejected rfl (h.settle hnone hc _)
    let record : ConnectionRecord := ⟨uuid, relayId, url, secret, claim, createdAt⟩
    let u : WorkerLifecycle := { t.allocate record with
      candidates := (t.allocate record).candidates ++ [t.created]
      running := some (.probing t.created) }
    have hu : During s u := by
      refine ⟨h.saved, h.connections, ?_, h.defaultId, h.initialization, fun i hi hlt => ?_,
        .inl hbegun, fun _ => hbegun⟩
      · rw [← h.records]
        exact List.map_congr_left fun i hi => record_allocate record (hk.lt hi)
      · have hnew : i = t.created := by
          by_contra hne
          have hmade := h.made i hi (lt_of_le_of_ne (Nat.le_of_lt_succ hlt) hne)
          rw [hnone] at hmade
          cases hmade
        rw [hnew]
        rfl
    have hq : Quiet u (u.connect t.created) := quiet_connect _
    have hcand : (u.connect t.created).candidates = [t.created] := by
      rw [hq.candidates]
      show t.candidates ++ [t.created] = _
      rw [hc]
      rfl
    have hrun : (u.connect t.created).running.bind Phase.candidate = some t.created := by
      rw [hq.running]
      rfl
    have hconnect : u.connect t.created = { ({ t.allocate record with
        candidates := (t.allocate record).candidates ++ [t.created] }.connect t.created) with
          running := some (.probing t.created) } ∧ (u.connect t.created).results = t.results := by
      unfold connect
      split_ifs <;> exact ⟨rfl, rfl⟩
    have hpoll := (hu.quiet hq).poll hbegun hrun hcand pass
    rw [hconnect.1, poll_running] at hpoll
    exact hpoll.congr (hconnect.1 ▸ hconnect.2)

/-- A save that succeeds in a lifecycle that is not stopped. -/
theorem afterSave {write : Write} {snapshot : ConnectionSnapshot} (ha : t.aborted = false) :
    Outcome s t (t.afterSave write snapshot) := by
  unfold WorkerLifecycle.afterSave
  cases write with
  | register i defaultId =>
    simp only [ha, Bool.false_eq_true, if_false]
    exact .fulfilled rfl rfl
  | remove id i defaultId => exact .fulfilled rfl rfl
  | setDefault id => exact .fulfilled rfl rfl

/-- **Step lemma.** A step of a call, unless it is the one that is too late. -/
theorem step {verifyReadiness : Text → Json → Bool} (h : During s t)
    (hr : t.Registry parser claimUrl)
    (hi : s.initialization = .done ∨ ∃ e, s.initialization = .failed e)
    (hrun : t.running.isSome = true) {e : Event} (hn : ¬ t.StoppedDuringSave e)
    (hs : t.step parser verifyReadiness e = some u) : Outcome s t u := by
  have hbusy := hr.busy
  have hlive : ∀ {phase}, t.running = some phase → (∀ m, phase ≠ .initializing m) →
      s.aborted = false := by
    intro phase hp hne
    refine h.begun.resolve_right ?_
    rintro ⟨m, hm⟩
    exact hne m (Option.some.inj (hp.symm.trans hm))
  have hquiet : Quiet t u → u.results = t.results → Outcome s t u := fun hq =>
    .runs (h.quiet hq)
  cases steps_of_step hs with
  | start =>
    have hsame : t.startLoading = t := by
      unfold WorkerLifecycle.startLoading
      rw [h.initialization]
      rcases hi with hi | ⟨e, hi⟩ <;> rw [hi]
    rw [hsame]
    exact .runs h rfl
  | issue m => exact hquiet ⟨fun _ => rfl, id, rfl⟩ rfl
  | begin m queue hnone hq =>
    rw [hnone] at hrun
    cases hrun
  | loaded result hl =>
    rw [h.initialization] at hl
    rcases hi with hi | ⟨e, hi⟩ <;> cases hi.symm.trans hl
  | initialized m random now hp hinit =>
    rw [hp] at hbusy
    exact h.operate (by rw [hp]; rfl) hbusy m random now hinit
  | deployFailed secret e hp =>
    rw [hp] at hbusy
    exact .rejected rfl (h.settle (by rw [hp]; rfl) hbusy _)
  | deployed secret url claim hp =>
    rw [hp] at hbusy
    exact h.register (by rw [hp]; rfl) hbusy (hlive hp nofun) _ _ _
  | identified url secret claim answer uuid createdAt pass hp =>
    rw [hp] at hbusy
    exact h.identified (by rw [hp]; rfl) hbusy.1 (hlive hp nofun) hr.core.keyed _ _ _ _ _ _ _
  | probed i now hp _ =>
    rw [hp] at hbusy
    exact h.probed (hlive hp nofun) (by rw [hp]; rfl) hbusy.only now
  | slept i pass hp =>
    rw [hp] at hbusy
    exact h.poll (hlive hp nofun) (by rw [hp]; rfl) hbusy.only pass
  | saved write snapshot hp _ =>
    have ha : t.aborted = false := by simpa using fun ha => hn ⟨rfl, ha⟩
    exact afterSave ha
  | saveFailed write snapshot e hp =>
    rw [hp] at hbusy
    unfold WorkerLifecycle.saveFailed
    cases write with
    | register i d => exact .rejected rfl (h.rejectCandidate (by rw [hp]; rfl) hbusy.1.only _)
    | remove id i d => exact .rejected rfl (h.settle (by rw [hp]; rfl) hbusy.1 _)
    | setDefault id => exact .rejected rfl (h.settle (by rw [hp]; rfl) hbusy.1 _)
  | lastError i e => exact hquiet (quiet_modify i fun _ => rfl) rfl
  | status i next challenge =>
    refine hquiet (quiet_status i next challenge) ?_
    unfold WorkerLifecycle.status
    simp only
    split_ifs <;> rfl
  | timer challenge => exact hquiet (quiet_timer challenge) rfl
  | answered i answer =>
    exact hquiet (quiet_modify i fun r => (r.answerProbe_frame _ _).2.2.1) rfl
  | settled i => exact hquiet (quiet_modify i fun r => r.record_settleProbe) rfl
  | stop =>
    refine hquiet quiet_stop ?_
    unfold WorkerLifecycle.stop
    split_ifs <;> rfl

end During

/-! ## The whole call -/

section Call

variable {parser : UrlParser} {claimUrl : Text → Prop} {verifyReadiness : Text → Json → Bool}
  {s t u : WorkerLifecycle}

theorem running_saved (h : t.step parser verifyReadiness .saved = some u) : u.running = none := by
  cases steps_of_step h with
  | saved write snapshot hp _ =>
    unfold WorkerLifecycle.afterSave
    cases write with
    | register i defaultId =>
      simp only
      split_ifs <;> rfl
    | remove id i defaultId => rfl
    | setDefault id => rfl

/-- **Run lemma.** `During` holds as long as the call runs. -/
theorem during_of_reaches (hurl : ∀ url, parser.Accepts url → claimUrl url)
    (h₀ : s.Registry parser claimUrl) (hd₀ : During s s)
    (hi : s.initialization = .done ∨ ∃ e, s.initialization = .failed e)
    (hreach : Machine.Reaches (step parser verifyReadiness)
      (fun t e => t.Expected parser claimUrl e ∧ t.running.isSome = true) s t) :
    t.Registry parser claimUrl ∧ (t.running.isSome = true → During s t) := by
  refine hreach.invariant (I := fun t => t.Registry parser claimUrl ∧
    (t.running.isSome = true → During s t)) ⟨h₀, fun _ => hd₀⟩ ?_
  rintro t e u ⟨hr, hd⟩ ⟨he, hrun⟩ hs
  refine ⟨hr.step hurl he hs, fun hu => ?_⟩
  have hn : ¬ t.StoppedDuringSave e := by
    rintro ⟨rfl, -⟩
    rw [running_saved hs] at hu
    cases hu
  cases (hd hrun).step hr hi hrun hn hs with
  | runs hd _ => exact hd
  | fulfilled hnone _ =>
    rw [hnone] at hu
    cases hu
  | rejected hnone _ =>
    rw [hnone] at hu
    cases hu

/-- A registration that is rejected after its save has changed the record. -/
theorem not_unchanged (h₀ : s.Registry parser claimUrl) (hd : During s t)
    (hr : t.Registry parser claimUrl) {message : Text}
    (hs : t.step parser verifyReadiness .saved = some u)
    (hend : u.results = t.results ++ [.error message]) : ¬ Unchanged s u := by
  intro hu
  cases steps_of_step hs with
  | saved write snapshot hp _ =>
    cases write with
    | remove id i d =>
      have hok : t.results ++ [.ok ()] = t.results ++ [.error message] := hend
      cases (List.cons.inj (List.append_cancel_left hok)).1
    | setDefault id =>
      have hok : t.results ++ [.ok ()] = t.results ++ [.error message] := hend
      cases (List.cons.inj (List.append_cancel_left hok)).1
    | register i d =>
      have hbusy := hr.busy
      rw [hp] at hbusy
      obtain ⟨-, -, now, hsnap⟩ := hbusy
      have hsaved : (t.afterSave (.register i d) snapshot).saved = some snapshot := by
        unfold WorkerLifecycle.afterSave
        simp only
        split_ifs <;> rfl
      have hlive : s.aborted = false := by
        refine hd.begun.resolve_right ?_
        rintro ⟨m, hm⟩
        cases hp.symm.trans hm
      have hlen : snapshot.connections.length = s.records.length := by
        rcases (h₀.core.agrees hlive snapshot (hu.saved.symm.trans hsaved)).2 with h | ⟨now, h⟩
        · rw [h]
        · rw [h, List.length_map]
      rw [hsnap, ← hd.records] at hlen
      simp at hlen

/-- **Rejected changes.** A call that is rejected has changed nothing, unless its registration was
saved in a lifecycle that was stopped during the save. -/
theorem rejected_unchanged_iff (h₀ : Machine.Reaches (step parser verifyReadiness)
      (Expected parser fun _ => True) init s)
    {m : Mutation} (hm : s.running = some (.initializing m))
    (hi : s.initialization = .done ∨ ∃ e, s.initialization = .failed e)
    (hreach : Machine.Reaches (step parser verifyReadiness)
      (fun t e => t.Expected parser (fun _ => True) e ∧ t.running.isSome = true) s t)
    (hrun : t.running.isSome = true) {e : Event} {message : Text}
    (hs : t.step parser verifyReadiness e = some u)
    (hend : u.results = t.results ++ [.error message]) :
    Unchanged s u ↔ ¬ t.StoppedDuringSave e := by
  have hs₀ := registry_of_reaches (fun _ _ => trivial) h₀
  have hd₀ : During s s := by
    refine ⟨rfl, rfl, rfl, rfl, rfl, fun i hle hlt => absurd hlt (not_lt.mpr hle), .inr ⟨m, hm⟩, id⟩
  obtain ⟨hr, hd⟩ := during_of_reaches (fun _ _ => trivial) hs₀ hd₀ hi hreach
  constructor
  · rintro hu ⟨rfl, -⟩
    exact not_unchanged hs₀ (hd hrun) hr hs hend hu
  · intro hn
    cases (hd hrun).step hr hi hrun hn hs with
    | runs _ hresults =>
      rw [hresults] at hend
      exact absurd (congrArg List.length hend) (by simp)
    | fulfilled _ hresults =>
      rw [hresults] at hend
      cases (List.cons.inj (List.append_cancel_left hend)).1
    | rejected _ hu => exact hu

end Call

/-! ## Two calls -/

/-- A registration that is about to start. -/
def registration : List Event :=
  [.start, .loaded (.ok ⟨none, []⟩),
    .issue (.registerConnection "https://share.example".toList (List.replicate 43 'a')), .begin]

def relayBody : Json :=
  .obj [("service".toList, .str "bb-shared-relay".toList), ("version".toList, .num (.ofNat 1)),
    ("protocolVersion".toList, .num (.ofNat 1)), ("relayId".toList, .str "relay-1".toList)]

/-- The registration up to its save: the relay answers, its tunnel connects and is probed. -/
def untilSave : List Event :=
  [.initialized [] 0, .identified (.response true relayBody) ['1'] 0 ⟨false, [], 0⟩,
    .status 0 .connected [], .answered 0 (.response 200 .null), .settled 0, .probed 0]

def isInitializing : Option Phase → Bool
  | some (.initializing _) => true
  | _ => false

def isDone : Initialization → Bool
  | .done => true
  | _ => false

/-- The step of the example. -/
abbrev exampleStep : WorkerLifecycle → Event → Option WorkerLifecycle :=
  step .shareExample fun _ _ => true

/-- The states of a registration at its start, after some events of it, and after one more. -/
def callStates (events : List Event) (e : Event) :
    Option (WorkerLifecycle × WorkerLifecycle × WorkerLifecycle) :=
  (Machine.exec exampleStep (Expected .shareExample fun _ => True) init registration).bind fun s =>
    (Machine.exec exampleStep
        (fun t e => t.Expected .shareExample (fun _ => True) e ∧ t.running.isSome = true) s
        events).bind fun t =>
      (exampleStep t e).map fun u => (s, t, u)

theorem callStates_spec {events : List Event} {e : Event} {s t u : WorkerLifecycle}
    (h : callStates events e = some (s, t, u)) :
    Machine.Reaches exampleStep (Expected .shareExample fun _ => True) init s ∧
      Machine.Reaches exampleStep
        (fun t e => t.Expected .shareExample (fun _ => True) e ∧ t.running.isSome = true) s t ∧
      exampleStep t e = some u := by
  unfold callStates at h
  simp only [Option.bind_eq_some_iff, Option.map_eq_some_iff, Prod.mk.injEq] at h
  obtain ⟨_, hs, _, ht, _, hu, rfl, rfl, rfl⟩ := h
  exact ⟨Machine.reaches_of_exec hs, Machine.reaches_of_exec ht, hu⟩

/-- What is looked at in the states of a call. -/
def callFacts (message : Text) : WorkerLifecycle × WorkerLifecycle × WorkerLifecycle → Bool
  | (s, t, u) => isInitializing s.running && isDone s.initialization && t.running.isSome &&
      decide (u.results = t.results ++ [.error message]) &&
      s.saved.map (fun snapshot => snapshot.connections.length) == some 0

/-- `callFacts` of an example are the hypotheses of a rejected call. -/
theorem callFacts_spec {message : Text} {s t u : WorkerLifecycle}
    (h : callFacts message (s, t, u) = true) :
    (∃ m, s.running = some (.initializing m)) ∧ s.initialization = .done ∧
      t.running.isSome = true ∧ u.results = t.results ++ [.error message] ∧
      s.saved.map (fun snapshot => snapshot.connections.length) = some 0 := by
  unfold callFacts at h
  simp only [Bool.and_eq_true, decide_eq_true_eq, beq_iff_eq] at h
  obtain ⟨⟨⟨⟨hm, hi⟩, hrun⟩, hend⟩, hsaved⟩ := h
  refine ⟨?_, ?_, hrun, hend, hsaved⟩
  · unfold isInitializing at hm
    split at hm
    · exact ⟨_, by assumption⟩
    · cases hm
  · unfold isDone at hi
    split at hi
    · assumption
    · cases hi

/-- The save of a candidate fails. -/
theorem rejected_unchanged_saveFailed :
    ∃ s t u, Machine.Reaches exampleStep (Expected .shareExample fun _ => True) init s ∧
      exampleStep t (.saveFailed "disk full".toList) = some u ∧
      u.results = t.results ++ [.error "disk full".toList] ∧ Unchanged s u := by
  have hfacts : (callStates untilSave (.saveFailed "disk full".toList)).map
      (callFacts "disk full".toList) = some true := by decide +kernel
  obtain ⟨⟨s, t, u⟩, hstates, hfacts⟩ := Option.map_eq_some_iff.mp hfacts
  obtain ⟨hs, ht, hu⟩ := callStates_spec hstates
  obtain ⟨⟨m, hm⟩, hi, hrun, hend, -⟩ := callFacts_spec hfacts
  refine ⟨s, t, u, hs, hu, hend, ?_⟩
  refine (rejected_unchanged_iff hs hm (.inl hi) ht hrun hu hend).mpr ?_
  rintro ⟨h, -⟩
  cases h

/-- A candidate is saved while the lifecycle is stopped: the call is rejected and the record has a
connection more. -/
theorem rejected_and_saved :
    ∃ s t u, Machine.Reaches exampleStep (Expected .shareExample fun _ => True) init s ∧
      (∃ m, s.running = some (.initializing m)) ∧ s.initialization = .done ∧
      Machine.Reaches exampleStep
        (fun t e => t.Expected .shareExample (fun _ => True) e ∧ t.running.isSome = true) s t ∧
      exampleStep t .saved = some u ∧
      u.results = t.results ++ [.error "Sharing stopped while registering the connection.".toList] ∧
      s.saved.map (fun snapshot => snapshot.connections.length) = some 0 ∧
      u.saved.map (fun snapshot => snapshot.connections.length) = some 1 ∧ ¬ Unchanged s u := by
  have hfacts : (callStates (untilSave ++ [.stop]) .saved).map (fun states =>
      callFacts "Sharing stopped while registering the connection.".toList states &&
        states.2.2.saved.map (fun snapshot => snapshot.connections.length) == some 1) =
      some true := by decide +kernel
  obtain ⟨⟨s, t, u⟩, hstates, hfacts⟩ := Option.map_eq_some_iff.mp hfacts
  obtain ⟨hs, ht, hu⟩ := callStates_spec hstates
  rw [Bool.and_eq_true, beq_iff_eq] at hfacts
  obtain ⟨hm, hi, -, hend, hbefore⟩ := callFacts_spec hfacts.1
  refine ⟨s, t, u, hs, hm, hi, ht, hu, hend, hbefore, hfacts.2, fun hunchanged => ?_⟩
  have hafter := hfacts.2
  rw [hunchanged.saved, hbefore] at hafter
  cases hafter

end WorkerLifecycle

end BbShared
