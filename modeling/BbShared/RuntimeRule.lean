import BbShared.WorkerLifecycle

/-!
# Invariants of runtimes

A step of the lifecycle changes runtimes by a few updates: a new one, a status, an error, a probe
that starts, is answered or settles.  What each of these keeps of one runtime, a step keeps of all.
-/

namespace BbShared

open Js

/-- A property of a runtime at a time of the clock that every update keeps.  `fresh` is what is
known of the challenges of new probes, `answered` of the answers to a runtime's probe and `reported`
of the errors of its tunnel. -/
structure RuntimeRule (verifyReadiness : Text → Json → Bool) (P : ℕ → Runtime → Prop)
    (fresh : Text → Prop) (answered : Runtime → ProbeAnswer → Prop)
    (reported : Runtime → Option Text → Prop) : Prop where
  mono : ∀ {c r}, P c r → P (c + 1) r
  init : ∀ {c} record, P c (.init record)
  status : ∀ {c r t} next, r.tunnel = some t → P c r →
    P (c + 1) ({ r with tunnel := some { t with state := next } }.onStatusChange next c)
  connect : ∀ {c r}, P c r →
    P (c + 1) ({ r with tunnel := some ⟨.connecting, none⟩ }.onStatusChange .connecting c)
  error : ∀ {c r} e, reported r e → P c r → P c (r.setLastError e)
  start : ∀ {c r} aborted challenge, fresh challenge → P c r →
    P (c + 1) (r.startProbe aborted challenge c)
  answer : ∀ {c r} aborted a, answered r a → P c r → P c (r.answerProbe verifyReadiness aborted a)
  settle : ∀ {c r}, P c r → P c r.settleProbe

namespace WorkerLifecycle

/-- The challenges that an event may give to new probes. -/
def Event.Challenges (fresh : Text → Prop) : Event → Prop
  | .identified _ _ _ pass | .slept pass => fresh pass.challenge
  | .status _ _ challenge => fresh challenge
  | .timer challenge => ∀ i, fresh (challenge i)
  | _ => True

/-- The answer that an event gives to a probe. -/
def Event.Answers (answered : Runtime → ProbeAnswer → Prop) (s : WorkerLifecycle) : Event → Prop
  | .answered i answer => answered (s.runtimes i) answer
  | _ => True

/-- What an event reports of a tunnel. -/
def Event.Reports (reported : Runtime → Option Text → Prop) (s : WorkerLifecycle) : Event → Prop
  | .lastError i e => reported (s.runtimes i) e
  | _ => True

variable {verifyReadiness : Text → Json → Bool} {P : ℕ → Runtime → Prop} {fresh : Text → Prop}
  {answered : Runtime → ProbeAnswer → Prop} {reported : Runtime → Option Text → Prop}
  {s t : WorkerLifecycle}

theorem Event.challenges_of_forall (h : ∀ c, fresh c) (e : Event) : e.Challenges fresh := by
  cases e with
  | identified _ _ _ pass => exact h pass.challenge
  | slept pass => exact h pass.challenge
  | status _ _ challenge => exact h challenge
  | timer challenge => exact fun i => h (challenge i)
  | _ => trivial

theorem Event.answers_of_forall (h : ∀ r a, answered r a) (e : Event) :
    e.Answers answered s := by
  cases e with
  | answered i a => exact h _ a
  | _ => trivial

theorem Event.reports_of_forall (h : ∀ r e, reported r e) (e : Event) : e.Reports reported s := by
  cases e with
  | lastError i e => exact h _ e
  | _ => trivial

/-- Every runtime has the property. -/
def AllRuntimes (P : ℕ → Runtime → Prop) (s : WorkerLifecycle) : Prop :=
  ∀ i, P s.clock (s.runtimes i)

namespace AllRuntimes

theorem congr (h : s.AllRuntimes P) (hr : t.runtimes = s.runtimes) (hc : t.clock = s.clock) :
    t.AllRuntimes P := by
  intro i
  rw [hr, hc]
  exact h i

theorem modify (h : s.AllRuntimes P) (i : ℕ) {f : Runtime → Runtime}
    (hf : P s.clock (f (s.runtimes i))) : (s.modify i f).AllRuntimes P := by
  intro j
  unfold WorkerLifecycle.modify
  simp only
  split_ifs with hj
  · exact hj ▸ hf
  · exact h j

variable (hP : RuntimeRule verifyReadiness P fresh answered reported)

include hP

theorem setState {c : ℕ} {r : Runtime} (h : P c r) (next : TunnelState) :
    P (c + 1) (r.setState next c) := by
  unfold Runtime.setState
  cases ht : r.tunnel with
  | none => exact hP.mono h
  | some t =>
    simp only
    split_ifs
    · exact hP.mono h
    · exact hP.status next ht h

theorem connectRuntime {c : ℕ} {r : Runtime} (h : P c r) : P (c + 1) (r.connect c) := by
  unfold Runtime.connect Runtime.setState
  simp only [reduceCtorEq, if_false]
  exact hP.connect h

/-- A change of some runtimes that takes a moment. -/
theorem tick (h : s.AllRuntimes P) {runtimes : ℕ → Runtime}
    (hf : ∀ i, P (s.clock + 1) (runtimes i) ∨ runtimes i = s.runtimes i) :
    ({ s with runtimes := runtimes }.tick).AllRuntimes P := by
  intro i
  rcases hf i with hi | hi
  · exact hi
  · show P (s.clock + 1) (runtimes i)
    rw [hi]
    exact hP.mono (h i)

theorem modify_tick (h : s.AllRuntimes P) (i : ℕ) {f : Runtime → Runtime}
    (hf : ∀ r, P s.clock r → P (s.clock + 1) (f r)) : (s.modify i f).tick.AllRuntimes P := by
  refine tick hP h fun j => ?_
  by_cases hj : j = i
  · simp only [hj, if_true]
    exact .inl (hf _ (h i))
  · simp only [hj, if_false, or_true]

theorem probe (h : s.AllRuntimes P) (i : ℕ) {challenge : Text} (hc : fresh challenge) :
    (s.probe i challenge).AllRuntimes P :=
  modify_tick hP h i fun _ hr => hP.start _ _ hc hr

theorem stopTunnel (h : s.AllRuntimes P) (i : ℕ) : (s.stopTunnel i).AllRuntimes P :=
  modify_tick hP h i fun _ hr => setState hP hr _

theorem connect (h : s.AllRuntimes P) (i : ℕ) : (s.connect i).AllRuntimes P := by
  unfold WorkerLifecycle.connect
  split_ifs
  · exact h
  · exact modify_tick hP h i fun _ hr => connectRuntime hP hr

theorem allocate (h : s.AllRuntimes P) (record : ConnectionRecord) :
    (s.allocate record).AllRuntimes P := by
  intro i
  unfold WorkerLifecycle.allocate
  simp only
  split_ifs
  · exact hP.init record
  · exact h i

theorem restore (h : s.AllRuntimes P) (record : ConnectionRecord) :
    (s.restore record).AllRuntimes P := by
  unfold WorkerLifecycle.restore
  apply connect hP
  exact (allocate hP h record).congr rfl rfl

theorem loaded (h : s.AllRuntimes P) (result : Except Text ConnectionSnapshot) :
    (s.loaded result).AllRuntimes P := by
  cases result with
  | error e => exact h.congr rfl rfl
  | ok snapshot =>
    have hfold : (snapshot.connections.foldl WorkerLifecycle.restore
        { s with defaultId := snapshot.defaultId }).AllRuntimes P :=
      List.foldlRecOn _ _ (h.congr rfl rfl) fun _ ht record _ => restore hP ht record
    exact hfold.congr rfl rfl

theorem rejectCandidate (h : s.AllRuntimes P) (i : ℕ) (message : Text) :
    (s.rejectCandidate i message).AllRuntimes P :=
  (stopTunnel hP h i).congr rfl rfl

omit hP in
theorem deploy (h : s.AllRuntimes P) (random : Bytes) : (s.deploy random).AllRuntimes P := by
  unfold WorkerLifecycle.deploy
  split_ifs <;> exact h.congr rfl rfl

omit hP in
theorem register (h : s.AllRuntimes P) (parser : UrlParser) (input tunnelSecret : Text)
    (claim : Option Claim) : (s.register parser input tunnelSecret claim).AllRuntimes P := by
  unfold WorkerLifecycle.register
  cases normalizeConnectionUrl parser.parse input with
  | error e => exact h.congr rfl rfl
  | ok url =>
    simp only
    split_ifs <;> exact h.congr rfl rfl

omit hP in
theorem operation (h : s.AllRuntimes P) (parser : UrlParser) (random : Bytes) (now : ℚ)
    (m : Mutation) : (s.operation parser random now m).AllRuntimes P := by
  cases m with
  | ensureDeployed =>
    unfold WorkerLifecycle.operation
    split_ifs
    · exact h.deploy random
    · exact h.congr rfl rfl
  | deployConnection => exact h.deploy random
  | registerConnection url secret => exact h.register parser url secret none
  | removeConnection id =>
    unfold WorkerLifecycle.operation
    cases hg : s.connections.get id <;> simp only [hg] <;> exact h.congr rfl rfl
  | setDefaultConnection id =>
    unfold WorkerLifecycle.operation
    cases hg : s.connections.get id <;> simp only [hg] <;> exact h.congr rfl rfl

omit hP in
theorem operate (h : s.AllRuntimes P) (parser : UrlParser) (m : Mutation) (random : Bytes)
    (now : ℚ) : (s.operate parser m random now).AllRuntimes P := by
  unfold WorkerLifecycle.operate
  cases s.initialization with
  | failed e => exact h.congr rfl rfl
  | absent => exact h
  | loading => exact h
  | done =>
    simp only
    split_ifs
    · exact h.congr rfl rfl
    · exact h.operation parser random now m

theorem conclude (h : s.AllRuntimes P) (i : ℕ) (now : ℚ) : (s.conclude i now).AllRuntimes P := by
  unfold WorkerLifecycle.conclude
  simp only
  split_ifs
  · exact rejectCandidate hP h i _
  · exact h.congr rfl rfl

theorem poll (h : s.AllRuntimes P) (i : ℕ) {pass : Pass} (hc : fresh pass.challenge) :
    (s.poll i pass).AllRuntimes P := by
  unfold WorkerLifecycle.poll
  split_ifs
  · exact conclude hP h i _
  · exact (probe hP h i hc).congr rfl rfl

theorem probed (h : s.AllRuntimes P) (i : ℕ) (now : ℚ) : (s.probed i now).AllRuntimes P := by
  unfold WorkerLifecycle.probed
  simp only
  split_ifs
  · exact conclude hP h i _
  · exact rejectCandidate hP h i _
  · exact h.congr rfl rfl

theorem identified (h : s.AllRuntimes P) (url tunnelSecret : Text) (claim : Option Claim)
    (answer : IdentityAnswer) (uuid : Text) (createdAt : ℚ) {pass : Pass}
    (hc : fresh pass.challenge) :
    (s.identified url tunnelSecret claim answer uuid createdAt pass).AllRuntimes P := by
  unfold WorkerLifecycle.identified
  split
  · exact h.congr rfl rfl
  · simp only
    split_ifs
    · exact h.congr rfl rfl
    · refine poll hP ?_ _ hc
      apply connect hP
      exact (allocate hP h _).congr rfl rfl

theorem afterSave (h : s.AllRuntimes P) (write : Write) (snapshot : ConnectionSnapshot) :
    (s.afterSave write snapshot).AllRuntimes P := by
  have hs : AllRuntimes P { s with saved := some snapshot } := h.congr rfl rfl
  unfold WorkerLifecycle.afterSave
  cases write with
  | register i d =>
    simp only
    split_ifs
    · exact rejectCandidate hP hs i _
    · exact h.congr rfl rfl
  | remove id i d =>
    refine (stopTunnel hP (s := { s with
      saved := some snapshot
      connections := s.connections.erase id
      defaultId := d }) (h.congr rfl rfl) i).congr rfl rfl
  | setDefault id => exact h.congr rfl rfl

theorem saveFailed (h : s.AllRuntimes P) (write : Write) (error : Text) :
    (s.saveFailed write error).AllRuntimes P := by
  unfold WorkerLifecycle.saveFailed
  split
  · exact rejectCandidate hP h _ error
  · exact h.congr rfl rfl

theorem onStatus (h : s.AllRuntimes P) (i : ℕ) (next : TunnelState) {challenge : Text}
    (hc : fresh challenge) : (s.status i next challenge).AllRuntimes P := by
  have hs := modify_tick hP h i fun _ hr => setState hP hr next
  unfold WorkerLifecycle.status
  simp only
  split_ifs
  · exact probe hP hs i hc
  · exact hs

theorem timer (h : s.AllRuntimes P) {challenge : ℕ → Text} (hc : ∀ i, fresh (challenge i)) :
    (s.timer challenge).AllRuntimes P := by
  have hf : ∀ j, P (s.clock + 1) ((s.timer challenge).runtimes j) ∨
      (s.timer challenge).runtimes j = s.runtimes j := by
    intro j
    unfold WorkerLifecycle.timer
    by_cases hj : j ∈ s.connections.values
    · simp only [hj, if_true]
      exact .inl (hP.start _ _ (hc j) (h j))
    · simp only [hj, if_false, or_true]
  exact tick hP h hf

theorem stop (h : s.AllRuntimes P) : s.stop.AllRuntimes P := by
  unfold WorkerLifecycle.stop
  split_ifs
  · exact h
  · refine tick hP (s := { s with aborted := true }) (h.congr rfl rfl) fun j => ?_
    by_cases hj : j ∈ s.connections.values ++ s.candidates
    · simp only [hj, if_true]
      exact .inl (setState hP (h j) _)
    · simp only [hj, if_false, or_true]

/-- **Step lemma.** -/
theorem step {parser : UrlParser} (h : s.AllRuntimes P) {e : Event} (hc : e.Challenges fresh)
    (ha : e.Answers answered s) (hr : e.Reports reported s)
    (hs : s.step parser verifyReadiness e = some t) : t.AllRuntimes P := by
  have hstart : s.startLoading.AllRuntimes P := by
    unfold startLoading
    split <;> exact h.congr rfl rfl
  cases steps_of_step hs with
  | start => exact hstart
  | issue m => exact h.congr rfl rfl
  | begin m queue _ _ => exact hstart.congr rfl rfl
  | loaded result _ => exact loaded hP h result
  | initialized m random now _ _ => exact h.operate parser m random now
  | deployFailed _ _ _ => exact h.congr rfl rfl
  | deployed _ _ _ _ => exact h.register parser _ _ _
  | identified => exact identified hP h _ _ _ _ _ _ hc
  | probed i now _ _ => exact probed hP h i now
  | slept i pass _ => exact poll hP h i hc
  | saved write snapshot _ _ => exact afterSave hP h write snapshot
  | saveFailed write _ e _ => exact saveFailed hP h write e
  | lastError i e => exact h.modify i (hP.error e hr (h i))
  | status i next challenge => exact onStatus hP h i next hc
  | timer challenge => exact timer hP h hc
  | answered i answer => exact h.modify i (hP.answer _ answer ha (h i))
  | settled i => exact h.modify i (hP.settle (h i))
  | stop => exact stop hP h

end AllRuntimes

end WorkerLifecycle

end BbShared
