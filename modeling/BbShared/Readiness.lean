import BbShared.WorkerLifecycle

/-!
# Readiness

A connection that is `ready` has a connected tunnel and a proof from a probe that began after the
tunnel's last change.  `Timely` is the invariant of one runtime: a probe in flight that still has
the runtime's generation began after the last change.  Every change gives a new generation, so a
late answer finds another one and does nothing.
-/

namespace BbShared

open Js

variable {verifyReadiness : Text → Json → Bool}

namespace Runtime

variable (verifyReadiness) in
/-- The body is the relay's proof of readiness for the probe's challenge. -/
def ProvedBy (r : Runtime) (p : Probe) (body : Json) : Prop :=
  r.history.proof = some (p, body) ∧ r.history.changed < p.began ∧
    verifyReadiness p.challenge body = true

variable (verifyReadiness) in
/-- Times before `clock`, a current probe younger than the last change, and a `ready` that is
proved. -/
structure Timely (r : Runtime) (clock : ℕ) : Prop where
  changed : r.history.changed < clock
  probe : ∀ p ∈ r.probe, p.began < clock ∧ p.generation ≤ r.generation ∧
    (r.generation = p.generation →
      r.history.changed < p.began ∧ r.tunnelState = some .connected)
  ready : r.state = .ready →
    r.tunnelState = some .connected ∧ ∃ p body, r.ProvedBy verifyReadiness p body

variable {r : Runtime} {clock : ℕ}

theorem timely_init (record : ConnectionRecord) (h : 0 < clock) :
    (init record).Timely verifyReadiness clock where
  changed := h
  probe := by intro p hp; cases hp
  ready := by intro h; cases h

theorem Timely.mono (h : r.Timely verifyReadiness clock) {clock' : ℕ} (hc : clock ≤ clock') :
    r.Timely verifyReadiness clock' where
  changed := h.changed.trans_le hc
  probe := fun p hp => ⟨(h.probe p hp).1.trans_le hc, (h.probe p hp).2⟩
  ready := h.ready

/-- A change of status outdates the probe in flight and ends readiness. -/
theorem Timely.onStatusChange (h : r.Timely verifyReadiness clock) (t : Option Tunnel)
    (state : TunnelState) :
    ({ r with tunnel := t }.onStatusChange state clock).Timely verifyReadiness (clock + 1) where
  changed := Nat.lt_succ_self clock
  probe := by
    intro p hp
    obtain ⟨hb, hg, _⟩ := h.probe p hp
    have hg' : p.generation < ({ r with tunnel := t }.onStatusChange state clock).generation :=
      Nat.lt_succ_of_le hg
    refine ⟨by omega, hg'.le, ?_⟩
    intro he
    omega
  ready := by
    intro hr
    cases state <;> cases hr

theorem Timely.setState (h : r.Timely verifyReadiness clock) (next : TunnelState) :
    (r.setState next clock).Timely verifyReadiness (clock + 1) := by
  unfold Runtime.setState
  cases ht : r.tunnel with
  | none => exact h.mono (Nat.le_succ _)
  | some t =>
    by_cases hn : t.state = next
    · simp only [hn, if_true]
      exact h.mono (Nat.le_succ _)
    · simp only [hn, if_false]
      exact h.onStatusChange _ _

theorem Timely.connect (h : r.Timely verifyReadiness clock) :
    (r.connect clock).Timely verifyReadiness (clock + 1) := by
  unfold Runtime.connect Runtime.setState
  simp only [reduceCtorEq, if_false]
  exact h.onStatusChange _ _

theorem tunnelState_setLastError (e : Option Text) :
    (r.setLastError e).tunnelState = r.tunnelState := by
  unfold setLastError tunnelState
  cases r.tunnel <;> rfl

theorem Timely.setLastError (h : r.Timely verifyReadiness clock) (e : Option Text) :
    (r.setLastError e).Timely verifyReadiness clock where
  changed := h.changed
  probe := by rw [tunnelState_setLastError]; exact h.probe
  ready := by rw [tunnelState_setLastError]; exact h.ready

theorem Timely.startProbe (h : r.Timely verifyReadiness clock) (aborted : Bool) (challenge : Text) :
    (r.startProbe aborted challenge clock).Timely verifyReadiness (clock + 1) := by
  unfold Runtime.startProbe
  by_cases hc : r.probe.isSome ∨ aborted ∨ r.tunnelState ≠ some .connected
  · rw [if_pos hc]
    exact h.mono (Nat.le_succ _)
  · rw [if_neg hc]
    push Not at hc
    refine ⟨h.changed.trans (Nat.lt_succ_self _), ?_, h.ready⟩
    intro p hp
    obtain rfl := Option.some.inj hp
    exact ⟨Nat.lt_succ_self _, le_refl _, fun _ => ⟨h.changed, hc.2.2⟩⟩

/-- A probe that was answered, and then settled, is gone. -/
theorem settleProbe_answerProbe (aborted : Bool) (answer : ProbeAnswer) :
    (r.answerProbe verifyReadiness aborted answer).settleProbe.probe = none := by
  unfold answerProbe
  cases hp : r.probe with
  | none => simp [settleProbe, hp]
  | some p =>
    by_cases ha : p.answered = true
    · simp [settleProbe, ha, hp]
    · by_cases hg : r.generation ≠ p.generation ∨ aborted = true
      · simp [settleProbe, ha, hg]
      · cases answer with
        | failed error => simp [settleProbe, ha, hg]
        | response status body =>
          by_cases hv : (responseOk status && verifyReadiness p.challenge body) = true <;>
            simp [settleProbe, ha, hg, hv]

/-- An answer to a probe of an older generation, or after `stop`, changes nothing to see. -/
theorem answerProbe_stale {p : Probe} (hp : r.probe = some p) {aborted : Bool}
    (h : r.generation ≠ p.generation ∨ aborted = true) (answer : ProbeAnswer) :
    (r.answerProbe verifyReadiness aborted answer).state = r.state ∧
      (r.answerProbe verifyReadiness aborted answer).fault = r.fault := by
  unfold answerProbe
  simp only [hp]
  by_cases ha : p.answered = true
  · simp [ha]
  · simp [ha, h]

/-- What an answer leaves alone. -/
theorem answerProbe_frame (aborted : Bool) (answer : ProbeAnswer) :
    (r.answerProbe verifyReadiness aborted answer).generation = r.generation ∧
    (r.answerProbe verifyReadiness aborted answer).tunnel = r.tunnel ∧
    (r.answerProbe verifyReadiness aborted answer).record = r.record ∧
    (r.answerProbe verifyReadiness aborted answer).history.changed = r.history.changed ∧
    ∀ p' ∈ (r.answerProbe verifyReadiness aborted answer).probe,
      ∃ p ∈ r.probe, p'.generation = p.generation ∧ p'.began = p.began := by
  unfold answerProbe
  cases hp : r.probe with
  | none => simp [hp]
  | some p =>
    by_cases ha : p.answered = true
    · simp [ha, hp]
    · by_cases hg : r.generation ≠ p.generation ∨ aborted = true
      · simp [ha, hg]
      · cases answer with
        | failed e => simp [ha, hg]
        | response status body =>
          by_cases hv : (responseOk status && verifyReadiness p.challenge body) = true
          · simp [ha, hg, hv]
          · simp [ha, hg, hv]

/-- An answer that makes the connection ready is the proof of a current probe. -/
theorem answerProbe_ready {aborted : Bool} {answer : ProbeAnswer}
    (h : (r.answerProbe verifyReadiness aborted answer).state = .ready) :
    (r.state = .ready ∧
      (r.answerProbe verifyReadiness aborted answer).history = r.history) ∨
    ∃ p body, r.probe = some p ∧ r.generation = p.generation ∧
      verifyReadiness p.challenge body = true ∧
      (r.answerProbe verifyReadiness aborted answer).history.proof = some (p, body) := by
  unfold answerProbe at h ⊢
  cases hp : r.probe with
  | none => simp_all
  | some p =>
    by_cases ha : p.answered = true
    · simp_all
    · by_cases hg : r.generation ≠ p.generation ∨ aborted = true
      · simp_all
      · cases answer with
        | failed e => simp [hp, ha, hg] at h
        | response status body =>
          by_cases hv : (responseOk status && verifyReadiness p.challenge body) = true
          · refine Or.inr ⟨p, body, rfl, ?_, ?_, ?_⟩
            · push Not at hg
              exact hg.1
            · simpa using (Bool.and_eq_true_iff.mp hv).2
            · simp [ha, hg, hv]
          · simp [hp, ha, hg, hv] at h

theorem Timely.answerProbe (h : r.Timely verifyReadiness clock) (aborted : Bool)
    (answer : ProbeAnswer) :
    (r.answerProbe verifyReadiness aborted answer).Timely verifyReadiness clock := by
  obtain ⟨hgen, htun, _, hchg, hprobe⟩ :=
    @answerProbe_frame verifyReadiness r aborted answer
  have hts : (r.answerProbe verifyReadiness aborted answer).tunnelState = r.tunnelState := by
    unfold tunnelState; rw [htun]
  refine ⟨by rw [hchg]; exact h.changed, ?_, ?_⟩
  · intro p' hp'
    obtain ⟨p, hp, hg, hb⟩ := hprobe p' hp'
    rw [hg, hb, hgen, hchg, hts]
    exact h.probe p hp
  · intro hr
    rw [hts]
    rcases answerProbe_ready hr with ⟨hready, hhist⟩ | ⟨p, body, hp, hg, hv, hproof⟩
    · obtain ⟨hc, p, body, hproof, hlt, hv⟩ := h.ready hready
      exact ⟨hc, p, body, by rw [hhist]; exact hproof, by rw [hchg]; exact hlt, hv⟩
    · obtain ⟨_, _, hcur⟩ := h.probe p hp
      obtain ⟨hlt, hc⟩ := hcur hg
      exact ⟨hc, p, body, hproof, by rw [hchg]; exact hlt, hv⟩

theorem Timely.settleProbe (h : r.Timely verifyReadiness clock) :
    r.settleProbe.Timely verifyReadiness clock := by
  unfold Runtime.settleProbe
  cases hp : r.probe with
  | none => exact h
  | some p =>
    by_cases ha : p.answered = true
    · simp only [ha, if_true]
      exact ⟨h.changed, fun p hp => (by cases hp), h.ready⟩
    · simp only [ha]
      exact h

end Runtime

/-! ## The lifecycle -/

namespace WorkerLifecycle

variable (verifyReadiness) in
/-- Every runtime is timely. -/
def Timely (s : WorkerLifecycle) : Prop :=
  0 < s.clock ∧ ∀ i, (s.runtimes i).Timely verifyReadiness s.clock

variable {s : WorkerLifecycle}

theorem timely_init : init.Timely verifyReadiness :=
  ⟨Nat.one_pos, fun _ => Runtime.timely_init _ Nat.one_pos⟩

/-- A step that changes neither runtimes nor clock. -/
theorem Timely.congr (h : s.Timely verifyReadiness) {t : WorkerLifecycle}
    (hr : t.runtimes = s.runtimes) (hc : t.clock = s.clock) : t.Timely verifyReadiness := by
  unfold Timely
  rw [hr, hc]
  exact h

/-- A change of one runtime at the current time. -/
theorem Timely.modify (h : s.Timely verifyReadiness) (i : ℕ) {f : Runtime → Runtime}
    (hf : ∀ r : Runtime, r.Timely verifyReadiness s.clock → (f r).Timely verifyReadiness s.clock) :
    (s.modify i f).Timely verifyReadiness := by
  refine ⟨h.1, fun j => ?_⟩
  unfold WorkerLifecycle.modify
  by_cases hj : j = i
  · simp only [hj, if_true]
    exact hf _ (h.2 i)
  · simp only [hj, if_false]
    exact h.2 j

/-- A change of some runtimes that takes a moment. -/
theorem Timely.modify_tick (h : s.Timely verifyReadiness) {runtimes : ℕ → Runtime}
    (hf : ∀ i, (runtimes i).Timely verifyReadiness (s.clock + 1) ∨ runtimes i = s.runtimes i) :
    ({ s with runtimes := runtimes }.tick).Timely verifyReadiness := by
  refine ⟨Nat.succ_pos _, fun j => ?_⟩
  rcases hf j with hj | hj
  · exact hj
  · show (runtimes j).Timely verifyReadiness (s.clock + 1)
    rw [hj]
    exact (h.2 j).mono (Nat.le_succ _)

/-- A change of one runtime that takes a moment. -/
theorem Timely.modify_one_tick (h : s.Timely verifyReadiness) (i : ℕ) {f : Runtime → Runtime}
    (hf : ∀ r : Runtime, r.Timely verifyReadiness s.clock →
      (f r).Timely verifyReadiness (s.clock + 1)) : (s.modify i f).tick.Timely verifyReadiness := by
  apply h.modify_tick
  intro j
  by_cases hj : j = i
  · simp only [hj, if_true]
    exact Or.inl (hf _ (h.2 i))
  · simp only [hj, if_false, or_true]

theorem Timely.probe (h : s.Timely verifyReadiness) (i : ℕ) (challenge : Text) :
    (s.probe i challenge).Timely verifyReadiness :=
  h.modify_one_tick i fun _ hr => hr.startProbe _ _

theorem Timely.stopTunnel (h : s.Timely verifyReadiness) (i : ℕ) :
    (s.stopTunnel i).Timely verifyReadiness :=
  h.modify_one_tick i fun _ hr => hr.setState _

theorem Timely.connect (h : s.Timely verifyReadiness) (i : ℕ) :
    (s.connect i).Timely verifyReadiness := by
  unfold WorkerLifecycle.connect
  by_cases ha : s.aborted = true
  · rw [if_pos ha]; exact h
  · rw [if_neg ha]
    exact h.modify_one_tick i fun _ hr => hr.connect

theorem Timely.allocate (h : s.Timely verifyReadiness) (record : ConnectionRecord) :
    (s.allocate record).Timely verifyReadiness := by
  refine ⟨h.1, fun j => ?_⟩
  unfold WorkerLifecycle.allocate
  by_cases hj : j = s.created
  · simp only [hj, if_true]
    exact Runtime.timely_init _ h.1
  · simp only [hj, if_false]
    exact h.2 j

theorem Timely.restore (h : s.Timely verifyReadiness) (record : ConnectionRecord) :
    (s.restore record).Timely verifyReadiness := by
  apply Timely.connect
  exact (h.allocate record).congr rfl rfl

theorem Timely.loaded (h : s.Timely verifyReadiness) (result : Except Text ConnectionSnapshot) :
    (s.loaded result).Timely verifyReadiness := by
  cases result with
  | error e => exact h.congr rfl rfl
  | ok snapshot =>
    have key : ∀ (l : List ConnectionRecord) (t : WorkerLifecycle), t.Timely verifyReadiness →
        (l.foldl WorkerLifecycle.restore t).Timely verifyReadiness := by
      intro l
      induction l with
      | nil => exact fun t ht => ht
      | cons record l ih => exact fun t ht => ih _ (ht.restore record)
    have hfold := key snapshot.connections { s with defaultId := snapshot.defaultId }
      (h.congr rfl rfl)
    exact hfold.congr rfl rfl

theorem Timely.rejectCandidate (h : s.Timely verifyReadiness) (i : ℕ) (message : Text) :
    (s.rejectCandidate i message).Timely verifyReadiness :=
  (h.stopTunnel i).congr rfl rfl

theorem Timely.deploy (h : s.Timely verifyReadiness) (random : Bytes) :
    (s.deploy random).Timely verifyReadiness := by
  unfold WorkerLifecycle.deploy
  split_ifs
  · exact h.congr rfl rfl
  · exact h.congr rfl rfl

theorem Timely.register (h : s.Timely verifyReadiness) (parser : UrlParser)
    (input tunnelSecret : Text) (claim : Option Claim) :
    (s.register parser input tunnelSecret claim).Timely verifyReadiness := by
  unfold WorkerLifecycle.register
  cases normalizeConnectionUrl parser.parse input with
  | error e => exact h.congr rfl rfl
  | ok url =>
    simp only
    split_ifs <;> exact h.congr rfl rfl

theorem Timely.operation (h : s.Timely verifyReadiness) (parser : UrlParser) (random : Bytes)
    (now : ℚ) (m : Mutation) : (s.operation parser random now m).Timely verifyReadiness := by
  cases m with
  | ensureDeployed =>
    unfold WorkerLifecycle.operation
    split_ifs
    · exact h.deploy random
    · exact h.congr rfl rfl
  | deployConnection => exact h.deploy random
  | registerConnection url secret => exact h.register parser url secret none
  | removeConnection id =>
    unfold WorkerLifecycle.operation
    cases hg : s.connections.get id <;> simp only [hg] <;> exact h.congr rfl rfl
  | setDefaultConnection id =>
    unfold WorkerLifecycle.operation
    cases hg : s.connections.get id <;> simp only [hg] <;> exact h.congr rfl rfl

theorem Timely.operate (h : s.Timely verifyReadiness) (parser : UrlParser) (m : Mutation)
    (random : Bytes) (now : ℚ) : (s.operate parser m random now).Timely verifyReadiness := by
  unfold WorkerLifecycle.operate
  cases s.initialization with
  | failed e => exact h.congr rfl rfl
  | absent => exact h
  | loading => exact h
  | done =>
    simp only
    split_ifs
    · exact h.congr rfl rfl
    · exact h.operation parser random now m

theorem Timely.conclude (h : s.Timely verifyReadiness) (i : ℕ) (now : ℚ) :
    (s.conclude i now).Timely verifyReadiness := by
  unfold WorkerLifecycle.conclude
  simp only
  split_ifs
  · exact h.rejectCandidate i _
  · exact h.congr rfl rfl

theorem Timely.poll (h : s.Timely verifyReadiness) (i : ℕ) (pass : Pass) :
    (s.poll i pass).Timely verifyReadiness := by
  unfold WorkerLifecycle.poll
  split_ifs
  · exact h.conclude i _
  · exact (h.probe i _).congr rfl rfl

theorem Timely.probed (h : s.Timely verifyReadiness) (i : ℕ) (now : ℚ) :
    (s.probed i now).Timely verifyReadiness := by
  unfold WorkerLifecycle.probed
  simp only
  split_ifs
  · exact h.conclude i _
  · exact h.rejectCandidate i _
  · exact h.congr rfl rfl

theorem Timely.identified (h : s.Timely verifyReadiness) (url tunnelSecret : Text)
    (claim : Option Claim) (answer : IdentityAnswer) (uuid : Text) (createdAt : ℚ) (pass : Pass) :
    (s.identified url tunnelSecret claim answer uuid createdAt pass).Timely verifyReadiness := by
  unfold WorkerLifecycle.identified
  cases identity answer with
  | error e => exact h.congr rfl rfl
  | ok relayId =>
    simp only
    split_ifs
    · exact h.congr rfl rfl
    · apply Timely.poll
      apply Timely.connect
      exact (h.allocate _).congr rfl rfl

theorem Timely.afterSave (h : s.Timely verifyReadiness) (write : Write)
    (snapshot : ConnectionSnapshot) : (s.afterSave write snapshot).Timely verifyReadiness := by
  have hs : Timely verifyReadiness { s with saved := some snapshot } := h.congr rfl rfl
  unfold WorkerLifecycle.afterSave
  cases write with
  | register i d =>
    simp only
    split_ifs
    · exact hs.rejectCandidate i _
    · exact h.congr rfl rfl
  | remove id i d =>
    apply (Timely.stopTunnel (s := { s with
      saved := some snapshot
      connections := s.connections.erase id
      defaultId := d }) (h.congr rfl rfl) i).congr rfl rfl
  | setDefault id => exact h.congr rfl rfl

theorem Timely.saveFailed (h : s.Timely verifyReadiness) (write : Write) (error : Text) :
    (s.saveFailed write error).Timely verifyReadiness := by
  unfold WorkerLifecycle.saveFailed
  cases write with
  | register i d => exact h.rejectCandidate i error
  | remove id i d => exact h.congr rfl rfl
  | setDefault id => exact h.congr rfl rfl

theorem Timely.status (h : s.Timely verifyReadiness) (i : ℕ) (next : TunnelState)
    (challenge : Text) : (s.status i next challenge).Timely verifyReadiness := by
  have hs : (s.modify i (·.setState next s.clock)).tick.Timely verifyReadiness :=
    h.modify_one_tick i fun _ hr => hr.setState next
  unfold WorkerLifecycle.status
  simp only
  split_ifs
  · exact hs.probe i challenge
  · exact hs

theorem Timely.timer (h : s.Timely verifyReadiness) (challenge : ℕ → Text) :
    (s.timer challenge).Timely verifyReadiness := by
  have hf : ∀ j, ((s.timer challenge).runtimes j).Timely verifyReadiness (s.clock + 1) ∨
      (s.timer challenge).runtimes j = s.runtimes j := by
    intro j
    unfold WorkerLifecycle.timer
    by_cases hj : j ∈ s.connections.values
    · simp only [hj, if_true]
      exact Or.inl ((h.2 j).startProbe _ _)
    · simp only [hj, if_false, or_true]
  exact h.modify_tick hf

theorem Timely.stop (h : s.Timely verifyReadiness) : s.stop.Timely verifyReadiness := by
  unfold WorkerLifecycle.stop
  split_ifs
  · exact h
  · have ha : Timely verifyReadiness { s with aborted := true } := h.congr rfl rfl
    apply ha.modify_tick
    intro j
    by_cases hj : j ∈ s.connections.values ++ s.candidates
    · simp only [hj, if_true]
      exact Or.inl ((h.2 j).setState _)
    · simp only [hj, if_false, or_true]

variable {parser : UrlParser}

/-- **Step lemma.** -/
theorem Timely.step (h : s.Timely verifyReadiness) {e : Event} {t : WorkerLifecycle}
    (hs : s.step parser verifyReadiness e = some t) : t.Timely verifyReadiness := by
  have hstart : s.startLoading.Timely verifyReadiness := by
    unfold WorkerLifecycle.startLoading
    cases s.initialization <;> exact h.congr rfl rfl
  cases steps_of_step hs with
  | start => exact hstart
  | issue m => exact h.congr rfl rfl
  | begin m queue _ _ => exact hstart.congr rfl rfl
  | loaded result _ => exact h.loaded result
  | initialized m random now _ _ => exact h.operate parser m random now
  | deployFailed _ _ _ => exact h.congr rfl rfl
  | deployed _ _ _ _ => exact h.register parser _ _ _
  | identified => exact h.identified _ _ _ _ _ _ _
  | probed i now _ _ => exact h.probed i now
  | slept i pass _ => exact h.poll i pass
  | saved write snapshot _ _ => exact h.afterSave write snapshot
  | saveFailed write _ e _ => exact h.saveFailed write e
  | lastError i e => exact h.modify i fun _ hr => hr.setLastError e
  | status i next challenge => exact h.status i next challenge
  | timer challenge => exact h.timer challenge
  | answered i answer => exact h.modify i fun _ hr => hr.answerProbe _ answer
  | settled i => exact h.modify i fun _ hr => hr.settleProbe
  | stop => exact h.stop

/-- **Ready is never stale.** In every state that a run reaches, a ready connection has a connected
tunnel and a proof that a probe begun after the last status change verified; and the answer to a
probe that began before that change, or that comes after `stop`, changes neither state nor fault. -/
theorem ready_never_stale
    (h : Machine.Reaches (step parser verifyReadiness) (fun _ _ => True) init s) (i : ℕ) :
    ((s.runtimes i).state = .ready → (s.runtimes i).tunnelState = some .connected ∧
      ∃ p body, (s.runtimes i).history.proof = some (p, body) ∧
        (s.runtimes i).history.changed < p.began ∧ verifyReadiness p.challenge body = true) ∧
    ∀ p answer t, (s.runtimes i).probe = some p →
      p.began < (s.runtimes i).history.changed ∨ s.aborted = true →
      s.step parser verifyReadiness (.answered i answer) = some t →
      (t.runtimes i).state = (s.runtimes i).state ∧ (t.runtimes i).fault = (s.runtimes i).fault := by
  have htimely : s.Timely verifyReadiness := h.invariant timely_init fun _ _ _ ht _ hs => ht.step hs
  refine ⟨(htimely.2 i).ready, ?_⟩
  intro p answer t hp hstale hs
  cases steps_of_step hs with
  | answered =>
    have hgen : (s.runtimes i).generation ≠ p.generation ∨ s.aborted = true := by
      rcases hstale with hold | hstop
      · refine Or.inl fun hg => ?_
        have := (((htimely.2 i).probe p hp).2.2 hg).1
        omega
      · exact Or.inr hstop
    simpa [WorkerLifecycle.modify] using Runtime.answerProbe_stale hp hgen answer

/-- One connection, loaded and connected, whose probe has been answered. -/
theorem ready_never_stale_connected :
    ∃ s, Machine.Reaches (step .shareExample fun _ _ => true) (fun _ _ => True) init s ∧
      (s.runtimes 0).state = .ready ∧ (s.runtimes 0).tunnelState = some .connected := by
  let record : ConnectionRecord :=
    ⟨['1'], "relay".toList, "https://share.example".toList, List.replicate 43 'a', none, 1⟩
  let events : List Event := [.start, .loaded (.ok ⟨some ['1'], [record]⟩),
    .status 0 .connected "challenge".toList, .answered 0 (.response 200 .null)]
  obtain ⟨s, hs, hready⟩ : ∃ s, Machine.exec (step .shareExample fun _ _ => true)
      (fun _ _ => True) init events = some s ∧ (s.runtimes 0).state = .ready := ⟨_, rfl, rfl⟩
  have h := Machine.reaches_of_exec hs
  exact ⟨s, h, hready, ((ready_never_stale h 0).1 hready).1⟩

end WorkerLifecycle

end BbShared
