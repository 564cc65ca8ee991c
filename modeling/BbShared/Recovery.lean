import BbShared.PluginRun
import BbShared.ShareDurability

/-!
# Records that cannot be read

A record that is there and cannot be read when it is loaded stays as it is for the whole run.  Three
things see to it, one for each record: `recoveryRequired` sends every change back before it is
written; a gateway that has not started redeems nothing; and a lifecycle whose initialisation has
failed takes no call past its first step.
-/

namespace BbShared

open Js

variable {hmac : Hmac} {aes : Aes} {parser : UrlParser} {print : ℚ → Number}
  {verifyReadiness : Text → Json → Bool}

/-! ## The share queue -/

namespace ShareQueue

/-- No call comes to its write. -/
structure Locked (q : ShareQueue) : Prop where
  recovery : q.recoveryRequired = true
  idle : ∀ op ∈ q.running, ∀ tokens, op.phase ≠ .writing tokens

theorem Locked.settle {q : ShareQueue} (h : q.Locked) (op : ShareOperation)
    (result : Except Text Unit) : (q.settle op result).Locked :=
  ⟨h.recovery, fun _ hop => by cases hop⟩

theorem Locked.run {q : ShareQueue} (h : q.Locked) (op : ShareOperation) {phase : SharePhase}
    (hphase : ∀ tokens, phase ≠ .writing tokens) : (q.run op phase).Locked := by
  refine ⟨h.recovery, fun op' hop => ?_⟩
  obtain rfl := Option.some.inj hop
  exact hphase

theorem Locked.operated {q : ShareQueue} (h : q.Locked) (op : ShareOperation)
    (changed : Except StoreError (LiveShares × Attachment)) : (q.operated op changed).Locked := by
  cases changed with
  | error e => exact h.settle op _
  | ok result =>
    obtain ⟨live, attachment⟩ := result
    have hlive : Locked { q with live } := ⟨h.recovery, h.idle⟩
    cases attachment with
    | none => exact hlive.run op nofun
    | some a => exact hlive.run op nofun

/-- **The recovery flag.** A change is put back before it is written. -/
theorem Locked.step {q q' : ShareQueue} (h : q.Locked) {e : ShareEvent}
    (hstep : q.step hmac aes e = some q') : q'.Locked ∧ q'.kv = q.kv := by
  refine ⟨?_, ?_⟩
  · cases Step.of_step hstep with
    | call call => exact ⟨h.recovery, h.idle⟩
    | begin hr hw =>
      refine ⟨h.recovery, fun op hop => ?_⟩
      obtain rfl := Option.some.inj hop
      exact nofun
    | operate hr hp hchange => exact h.operated _ _
    | attach hr hp => exact h.operated _ _
    | persist hr hp =>
      unfold ShareQueue.persist
      have hlocked : prepareShares q.recoveryRequired = fun _ =>
          .error "Saved share state needs manual recovery before it can be changed.".toList := by
        funext tokens
        unfold prepareShares
        exact if_pos h.recovery
      rw [hlocked]
      have hback : ∀ op message, (q.rollback op message).Locked := fun op message =>
        Locked.settle (q := { q with live := q.live.restore op.priorTokens op.priorRawTokens })
          ⟨h.recovery, h.idle⟩ op _
      cases q.live.snapshot with
      | error message => exact hback _ _
      | ok tokens => exact hback _ _
    | write hr hp => exact absurd hp (h.idle _ hr _)
  · rcases kv_step hstep with hkv | ⟨op, tokens, key, nonce, hr, hp, -, -⟩
    · exact hkv
    · exact absurd hp (h.idle op hr tokens)

/-- A record that does not open locks the queue. -/
theorem locked_start (hmac : Hmac) (hmacKey : Bytes) (written : Option Nonce)
    {key : Option RandomKey} {raw : Json} (hne : raw ≠ .null)
    (h : ∀ k ∈ key, (readShares aes k.1 raw).isSome = false) :
    (start hmac hmacKey (loadShares aes key written (some raw))).Locked ∧
      (start hmac hmacKey (loadShares aes key written (some raw))).kv = some raw := by
  have hload : loadShares aes key written (some raw) = ⟨[], true, some raw⟩ := by
    unfold loadShares
    cases key with
    | none => cases raw <;> first | exact absurd rfl hne | rfl
    | some k =>
      have hread : readShares aes k.1 raw = none :=
        Option.not_isSome_iff_eq_none.mp (Bool.eq_false_iff.mp (h k rfl))
      cases raw with
      | null => exact absurd rfl hne
      | _ => simp only [hread]
  rw [hload]
  exact ⟨⟨rfl, nofun⟩, rfl⟩

end ShareQueue

/-! ## The lifecycle -/

namespace WorkerLifecycle

variable {s t : WorkerLifecycle}

/-- The lifecycle is not initialised, and no call is past its first step. -/
structure Held (s : WorkerLifecycle) : Prop where
  initialization : s.initialization ≠ .done
  idle : ∀ p ∈ s.running, ∃ m, p = .initializing m

theorem held_init : init.Held := ⟨nofun, nofun⟩

theorem Held.not_running (h : s.Held) {p : Phase} (hr : s.running = some p)
    (hp : ∀ m, p ≠ .initializing m) {P : Prop} : P := by
  obtain ⟨m, hm⟩ := h.idle p hr
  exact absurd hm (hp m)

theorem Held.of_eq (h : s.Held) (hi : t.initialization = s.initialization)
    (hr : t.running = s.running) : t.Held :=
  ⟨hi ▸ h.initialization, hr ▸ h.idle⟩

theorem Held.quiet (h : s.Held) (hq : Quiet s t) : t.Held := h.of_eq hq.initialization hq.running

theorem Held.startLoading (h : s.Held) : s.startLoading.Held := by
  unfold WorkerLifecycle.startLoading
  cases hi : s.initialization with
  | absent => exact ⟨nofun, h.idle⟩
  | _ => exact h

/-- The initialisation of a step: it is as before, has begun, or has ended. -/
theorem Held.failed_startLoading {message : Text} (h : s.initialization = .failed message) :
    s.startLoading.initialization = .failed message := by
  unfold WorkerLifecycle.startLoading
  rw [h]
  exact h

/-- **Memoised initialisation.** Until it has succeeded, no call goes on; once it has failed, it
stays so. -/
theorem Held.step (h : s.Held) {e : Event} (he : ∀ snapshot, e ≠ .loaded (.ok snapshot))
    (hstep : s.step parser verifyReadiness e = some t) :
    t.Held ∧ ∀ message, s.initialization = .failed message → t.initialization = .failed message := by
  have hquiet : ∀ {u : WorkerLifecycle}, Quiet s u →
      u.Held ∧ ∀ message, s.initialization = .failed message → u.initialization = .failed message :=
    fun hq => ⟨h.quiet hq, fun message hi => hq.initialization.trans hi⟩
  cases steps_of_step hstep with
  | start => exact ⟨h.startLoading, fun _ => Held.failed_startLoading⟩
  | issue m => exact ⟨h.of_eq rfl rfl, fun _ => id⟩
  | begin m queue hr hq =>
    refine ⟨⟨h.startLoading.initialization, fun p hp => ?_⟩, fun _ => Held.failed_startLoading⟩
    obtain rfl := Option.some.inj hp
    exact ⟨m, rfl⟩
  | loaded result hi =>
    cases result with
    | ok snapshot => exact absurd rfl (he snapshot)
    | error message =>
      refine ⟨⟨nofun, h.idle⟩, fun message' hi' => ?_⟩
      cases hi.symm.trans hi'
  | initialized m random now hr hi =>
    unfold operate
    cases hi' : s.initialization with
    | failed message => exact ⟨⟨fun hd => h.initialization hd, nofun⟩, fun _ hm => hi'.trans hm⟩
    | done => exact absurd hi' h.initialization
    | absent => exact ⟨h, nofun⟩
    | loading => exact ⟨h, nofun⟩
  | deployFailed secret e hr => exact h.not_running hr nofun
  | deployed secret url claim hr => exact h.not_running hr nofun
  | identified url secret claim answer uuid createdAt pass hr => exact h.not_running hr nofun
  | probed i now hr _ => exact h.not_running hr nofun
  | slept i pass hr => exact h.not_running hr nofun
  | saved write snapshot hr _ => exact h.not_running hr nofun
  | saveFailed write snapshot e hr => exact h.not_running hr nofun
  | lastError i e => exact hquiet (quiet_modify i fun _ => rfl)
  | status i next challenge => exact hquiet (quiet_status i next challenge)
  | timer challenge => exact hquiet (quiet_timer challenge)
  | answered i answer => exact hquiet (quiet_modify i fun r => (r.answerProbe_frame _ _).2.2.1)
  | settled i => exact hquiet (quiet_modify i fun r => r.record_settleProbe)
  | stop => exact hquiet quiet_stop

theorem initialization_conclude (s : WorkerLifecycle) (i : ℕ) (now : ℚ) :
    (s.conclude i now).initialization = s.initialization := by
  unfold conclude
  simp only
  split_ifs <;> rfl

theorem initialization_poll (s : WorkerLifecycle) (i : ℕ) (pass : Pass) :
    (s.poll i pass).initialization = s.initialization := by
  unfold poll
  split_ifs
  · exact initialization_conclude s i pass.now
  · rfl

theorem initialization_register (s : WorkerLifecycle) (input secret : Text) (claim : Option Claim) :
    (s.register parser input secret claim).initialization = s.initialization := by
  unfold register
  split
  · rfl
  · split_ifs <;> rfl

theorem initialization_deploy (s : WorkerLifecycle) (random : Bytes) :
    (s.deploy random).initialization = s.initialization := by
  unfold deploy
  split_ifs <;> rfl

theorem initialization_operate (s : WorkerLifecycle) (m : Mutation) (random : Bytes) (now : ℚ) :
    (s.operate parser m random now).initialization = s.initialization := by
  unfold operate
  split
  · rfl
  · rfl
  · rfl
  · split_ifs
    · rfl
    · cases m with
      | ensureDeployed =>
        unfold operation
        simp only
        split_ifs
        · exact initialization_deploy s random
        · rfl
      | deployConnection => exact initialization_deploy s random
      | registerConnection url secret => exact initialization_register s url secret none
      | removeConnection id =>
        unfold operation
        simp only
        split <;> rfl
      | setDefaultConnection id =>
        unfold operation
        simp only
        split <;> rfl

theorem initialization_identified (s : WorkerLifecycle) (url secret : Text) (claim : Option Claim)
    (answer : IdentityAnswer) (uuid : Text) (createdAt : ℚ) (pass : Pass) :
    (s.identified url secret claim answer uuid createdAt pass).initialization = s.initialization := by
  unfold identified
  split
  · rfl
  · split_ifs
    · rfl
    · simp only
      rw [initialization_poll]
      unfold connect
      split_ifs <;> rfl

theorem initialization_probed (s : WorkerLifecycle) (i : ℕ) (now : ℚ) :
    (s.probed i now).initialization = s.initialization := by
  unfold probed
  simp only
  split_ifs
  · exact initialization_conclude s i now
  · rfl
  · rfl

theorem initialization_afterSave (s : WorkerLifecycle) (write : Write)
    (snapshot : ConnectionSnapshot) :
    (s.afterSave write snapshot).initialization = s.initialization := by
  unfold afterSave
  cases write with
  | register i defaultId =>
    simp only
    split_ifs <;> rfl
  | remove id i defaultId => rfl
  | setDefault id => rfl

/-- **Initialised for good.** -/
theorem done_step {e : Event} (hd : s.initialization = .done)
    (hstep : s.step parser verifyReadiness e = some t) : t.initialization = .done := by
  have hstart : s.startLoading.initialization = .done := by
    unfold WorkerLifecycle.startLoading
    rw [hd]
    exact hd
  cases steps_of_step hstep with
  | start => exact hstart
  | issue m => exact hd
  | begin m queue hr hq => exact hstart
  | loaded result hi => cases hi.symm.trans hd
  | initialized m random now hr hi => exact (initialization_operate s m random now).trans hd
  | deployFailed secret e hr => exact hd
  | deployed secret url claim hr => exact (initialization_register s url secret claim).trans hd
  | identified url secret claim answer uuid createdAt pass hr =>
    exact (initialization_identified s url secret claim answer uuid createdAt pass).trans hd
  | probed i now hr _ => exact (initialization_probed s i now).trans hd
  | slept i pass hr => exact (initialization_poll s i pass).trans hd
  | saved write snapshot hr _ => exact (initialization_afterSave s write snapshot).trans hd
  | saveFailed write snapshot e hr => cases write <;> exact hd
  | lastError i e => exact hd
  | status i next challenge => exact (quiet_status i next challenge).initialization.trans hd
  | timer challenge => exact hd
  | answered i answer => exact hd
  | settled i => exact hd
  | stop => exact quiet_stop.initialization.trans hd

/-- An initialisation that has ended is not loaded again. -/
theorem initialization_of_loaded {result : Except Text ConnectionSnapshot}
    (hstep : s.step parser verifyReadiness (.loaded result) = some t) :
    s.initialization = .loading ∧ t = s.loaded result := by
  cases steps_of_step hstep with
  | loaded result hi => exact ⟨hi, rfl⟩

end WorkerLifecycle

/-! ## The result -/

namespace PluginRun

/-- The event loads the record, which is there and cannot be read, opened or validated. -/
def Unreadable (aes : Aes) (parser : UrlParser) (s : PluginRun) (name : RecordName)
    (e : PluginEvent) : Prop :=
  ∃ raw, s.kv name = some raw ∧ raw ≠ .null ∧
    match name, e with
    | .shares, .loadShares read _ _ => read.Fails fun key => (readShares aes key.1 raw).isSome
    | .sessions, .loadSessions read clock _ =>
      read.Fails fun key => (loadSessions aes key.1 clock (some raw)).isSome
    | .connections, .loadConnections read =>
      read.Fails fun key => (ConnectionStore.read parser aes key.1 raw).isSome
    | _, _ => False

/-- Nothing has been written yet where nothing has been loaded. -/
structure Untouched (kv : RecordName → Option Json) (s : PluginRun) : Prop where
  shares : ∀ value, s.shares = .unloaded value → value = kv .shares
  absent : ∀ value, s.gateway = .absent value → value = kv .sessions
  loading : ∀ value, s.gateway = .loading value → value = kv .sessions
  connections : s.worker.initialization = .done ∨
    s.worker.Held ∧ s.connections.kv = kv .connections

/-- The record is out of reach, with this value. -/
def Sealed (s : PluginRun) (value : Option Json) : RecordName → Prop
  | .shares => s.shares = .failed value ∨
      ∃ queue, s.shares = .loaded queue ∧ queue.Locked ∧ queue.kv = value
  | .sessions => s.gateway = .failed value
  | .connections => s.worker.Held ∧ (∃ message, s.worker.initialization = .failed message) ∧
      s.connections.kv = value

theorem Sealed.kv_eq {s : PluginRun} {value : Option Json} {name : RecordName}
    (h : s.Sealed value name) : s.kv name = value := by
  cases name with
  | shares =>
    rcases h with h | ⟨queue, h, -, hkv⟩
    · show s.shares.kv = value
      rw [h]
      rfl
    · show s.shares.kv = value
      rw [h]
      exact hkv
  | sessions =>
    have hg : s.gateway = .failed value := h
    show s.gateway.kv = value
    rw [hg]
    rfl
  | connections => exact h.2.2

theorem Untouched.start (kv : RecordName → Option Json) : Untouched kv (start kv) where
  shares _ h := (SharePart.unloaded.inj h).symm
  absent _ h := (GatewayPart.absent.inj h).symm
  loading := nofun
  connections := .inr ⟨WorkerLifecycle.held_init, rfl⟩

variable {s t : PluginRun} {e : PluginEvent}

/-- The lifecycle takes a step that is not an answer of its record store. -/
theorem connections_worker {kv : RecordName → Option Json} {worker : WorkerLifecycle}
    {event : WorkerLifecycle.Event} (he : ∀ snapshot, event ≠ .loaded (.ok snapshot))
    (h : s.worker.initialization = .done ∨ s.worker.Held ∧ s.connections.kv = kv .connections)
    (hstep : s.worker.step parser verifyReadiness event = some worker) :
    worker.initialization = .done ∨ worker.Held ∧ s.connections.kv = kv .connections := by
  rcases h with hd | ⟨hheld, hkv⟩
  · exact .inl (WorkerLifecycle.done_step hd hstep)
  · exact .inr ⟨(hheld.step he hstep).1, hkv⟩

theorem ne_loaded {event : WorkerLifecycle.Event} (h : event.isStoreAnswer = false)
    (snapshot : ConnectionSnapshot) : event ≠ .loaded (.ok snapshot) := by
  rintro rfl
  cases h

/-- **Step lemma.** Nothing is written before it is loaded. -/
theorem Untouched.step {kv : RecordName → Option Json} (h : Untouched kv s)
    (hstep : s.step hmac aes parser print verifyReadiness e = some t) : Untouched kv t := by
  cases Step.of_step hstep with
  | sharesFailed hs hf => exact ⟨nofun, h.absent, h.loading, h.connections⟩
  | sharesLoaded hs hf => exact ⟨nofun, h.absent, h.loading, h.connections⟩
  | share hs hq => exact ⟨nofun, h.absent, h.loading, h.connections⟩
  | ensureGateway hg =>
    refine ⟨h.shares, fun value hv => ?_, fun value hv => ?_, h.connections⟩
    · simp only at hv
      split_ifs at hv
    · simp only at hv
      split_ifs at hv
      obtain rfl := GatewayPart.loading.inj hv
      exact h.absent _ hg
  | gatewayThere => exact h
  | sessionsFailed hg hr => exact ⟨h.shares, nofun, nofun, h.connections⟩
  | sessionsLoaded hg hr => exact ⟨h.shares, nofun, nofun, h.connections⟩
  | listening hg =>
    refine ⟨h.shares, fun value hv => ?_, fun value hv => ?_, h.connections⟩
    · simp only at hv
      split_ifs at hv
    · simp only at hv
      split_ifs at hv
  | session hg => exact ⟨h.shares, nofun, nofun, h.connections⟩
  | worker he hw =>
    have hworker := connections_worker (s := s) (ne_loaded he) h.connections hw
    exact ⟨h.shares, h.absent, h.loading, hworker⟩
  | @loadConnections worker read hw =>
    obtain ⟨hi, rfl⟩ := WorkerLifecycle.initialization_of_loaded hw
    refine ⟨h.shares, h.absent, h.loading, ?_⟩
    obtain ⟨hheld, hkv⟩ := h.connections.resolve_left fun hd => by cases hi.symm.trans hd
    cases hr : (s.connections.load parser aes read).2 with
    | ok snapshot => exact .inl rfl
    | error message =>
      exact .inr ⟨⟨nofun, hheld.idle⟩, (ConnectionStore.kv_load s.connections read).trans hkv⟩
  | connectionsFailed hr hw =>
    have hworker := connections_worker (s := s) (fun _ heq => by cases heq) h.connections hw
    exact ⟨h.shares, h.absent, h.loading, hworker⟩
  | connectionsSaved hr hs hw =>
    refine ⟨h.shares, h.absent, h.loading, .inl ?_⟩
    rcases h.connections with hd | ⟨hheld, -⟩
    · exact WorkerLifecycle.done_step hd hw
    · exact hheld.not_running hr nofun
  | dispose =>
    have hq : WorkerLifecycle.Quiet s.worker s.worker.stop := WorkerLifecycle.quiet_stop
    refine ⟨h.shares, h.absent, h.loading, h.connections.imp (fun hd => ?_) fun hh => ?_⟩
    · exact hq.initialization.trans hd
    · exact ⟨hh.1.quiet hq, hh.2⟩

theorem readSessions_of_fails {read : RecordRead} {clock : Clock} {raw : Json} (hne : raw ≠ .null)
    (h : read.Fails fun key => (loadSessions aes key.1 clock (some raw)).isSome) :
    readSessions aes read clock (some raw) = none := by
  unfold readSessions
  split_ifs with hf
  · rfl
  · have hopens := h.resolve_left fun h0 => hf (Option.isSome_iff_ne_none.mpr h0)
    have hnone : (read.key.bind fun key => loadSessions aes key.1 clock (some raw)) = none := by
      cases hk : read.key with
      | none => rfl
      | some key => exact Option.not_isSome_iff_eq_none.mp (Bool.eq_false_iff.mp (hopens key hk))
    cases raw with
    | null => exact absurd rfl hne
    | _ => exact hnone

/-- A load that fails puts the record out of reach. -/
theorem Sealed.load {kv : RecordName → Option Json} {name : RecordName} (h : Untouched kv s)
    (hbad : Unreadable aes parser s name e)
    (hstep : s.step hmac aes parser print verifyReadiness e = some t) :
    t.Sealed (kv name) name := by
  obtain ⟨raw, hkv, hne, hfails⟩ := hbad
  cases name with
  | shares =>
    cases Step.of_step hstep with
    | sharesFailed hs hf => exact .inl (congrArg SharePart.failed (h.shares _ hs))
    | @sharesLoaded value read hmacKey written hs hf =>
      have hvalue : some raw = value := by
        rw [← hkv]
        show s.shares.kv = value
        rw [hs]
        rfl
      obtain ⟨hlocked, hq⟩ := ShareQueue.locked_start hmac hmacKey written hne
        (hfails.resolve_left fun h0 => h0 hf)
      rw [hvalue] at hlocked hq
      exact .inr ⟨_, rfl, hlocked, hq.trans (h.shares _ hs)⟩
    | _ => exact absurd hfails id
  | sessions =>
    cases Step.of_step hstep with
    | sessionsFailed hg hr => exact congrArg GatewayPart.failed (h.loading _ hg)
    | @sessionsLoaded value read clock store sessions hg hr =>
      have hvalue : value = some raw := by
        rw [← hkv]
        show value = s.gateway.kv
        rw [hg]
        rfl
      rw [hvalue] at hr
      exact absurd hr (readSessions_of_fails hne hfails ▸ nofun)
    | _ => exact absurd hfails id
  | connections =>
    cases Step.of_step hstep with
    | @loadConnections worker read hw =>
      obtain ⟨message, hload⟩ := ConnectionStore.load_of_fails hkv hne hfails
      obtain ⟨hi, rfl⟩ := WorkerLifecycle.initialization_of_loaded hw
      obtain ⟨hheld, hkv'⟩ := h.connections.resolve_left fun hd => by cases hi.symm.trans hd
      rw [hload]
      exact ⟨⟨nofun, hheld.idle⟩, ⟨message, rfl⟩,
        (ConnectionStore.kv_load s.connections read).trans hkv'⟩
    | _ => exact absurd hfails id

/-- **Step lemma.** A record that is out of reach stays so. -/
theorem Sealed.step {value : Option Json} {name : RecordName} (h : s.Sealed value name)
    (hstep : s.step hmac aes parser print verifyReadiness e = some t) : t.Sealed value name := by
  cases name with
  | shares =>
    rcases h with hs | ⟨queue, hs, hlocked, hkv⟩
    · cases Step.of_step hstep with
      | sharesFailed hs' hf => cases hs.symm.trans hs'
      | sharesLoaded hs' hf => cases hs.symm.trans hs'
      | share hs' hq => cases hs.symm.trans hs'
      | _ => exact .inl hs
    · cases Step.of_step hstep with
      | sharesFailed hs' hf => cases hs.symm.trans hs'
      | sharesLoaded hs' hf => cases hs.symm.trans hs'
      | share hs' hq =>
        obtain rfl := SharePart.loaded.inj (hs.symm.trans hs')
        obtain ⟨hlocked', hkv'⟩ := hlocked.step hq
        exact .inr ⟨_, rfl, hlocked', hkv'.trans hkv⟩
      | _ => exact .inr ⟨queue, hs, hlocked, hkv⟩
  | sessions =>
    have hg : s.gateway = .failed value := h
    cases Step.of_step hstep with
    | ensureGateway hg' => cases hg.symm.trans hg'
    | sessionsFailed hg' hr => cases hg.symm.trans hg'
    | sessionsLoaded hg' hr => cases hg.symm.trans hg'
    | listening hg' => cases hg.symm.trans hg'
    | session hg' => cases hg.symm.trans hg'
    | _ => exact h
  | connections =>
    obtain ⟨hheld, ⟨message, hi⟩, hkv⟩ := h
    cases Step.of_step hstep with
    | worker he hw =>
      obtain ⟨hheld', hi'⟩ := hheld.step (ne_loaded he) hw
      exact ⟨hheld', ⟨message, hi' message hi⟩, hkv⟩
    | loadConnections hw =>
      cases hi.symm.trans (WorkerLifecycle.initialization_of_loaded hw).1
    | connectionsFailed hr hw => exact hheld.not_running hr nofun
    | connectionsSaved hr hs hw => exact hheld.not_running hr nofun
    | dispose =>
      have hq : WorkerLifecycle.Quiet s.worker s.worker.stop := WorkerLifecycle.quiet_stop
      exact ⟨hheld.quiet hq, ⟨message, hq.initialization.trans hi⟩, hkv⟩
    | _ => exact ⟨hheld, ⟨message, hi⟩, hkv⟩

/-- **Unreadable records are kept.** Once the load of a record that is there has failed, the run
leaves the record as it was at its start, whatever is called and whatever the store and the key
provider do later. -/
theorem unreadable_record_kept (kv : RecordName → Option Json) {name : RecordName} {u : PluginRun}
    (hrun : Machine.Reaches (step hmac aes parser print verifyReadiness) (fun _ _ => True)
      (start kv) s)
    (hbad : Unreadable aes parser s name e)
    (hload : s.step hmac aes parser print verifyReadiness e = some t)
    (hlater : Machine.Reaches (step hmac aes parser print verifyReadiness) (fun _ _ => True) t u) :
    u.kv name = kv name := by
  have hbefore : Untouched kv s := hrun.invariant (Untouched.start kv) fun _ _ _ h _ hs => h.step hs
  have hafter : u.Sealed (kv name) name :=
    hlater.invariant (I := fun v => v.Sealed (kv name) name) (Sealed.load hbefore hbad hload)
      fun _ _ _ h _ hs => h.step hs
  exact hafter.kv_eq

/-! ## A key that fails once -/

/-- A store with a sealed share record, and nothing else. -/
def sealedShares : RecordName → Option Json
  | .shares => sharesRecord .plain zeroKey zeroNonce []
  | _ => none

/-- The key is there again when an invitation is made. -/
def mintLater : List PluginEvent :=
  [.share (.call (.mintToken none none)), .share .begin,
    .share (.operate 0 ShareQueue.firstDraws),
    .share .persist]

/-- How the calls ended. -/
def results (s : PluginRun) : List Bool :=
  match s.shares with
  | .loaded queue => queue.settled.map fun c => c.result.toBool
  | _ => []

abbrev exampleStep : PluginRun → PluginEvent → Option PluginRun :=
  step .plain .plain .shareExample (fun _ => .ofNat 0) fun _ _ => true

theorem unreadable_record_kept_minted :
    ∃ t u, exampleStep (start sealedShares) (.loadShares ⟨none, none⟩ [] none) = some t ∧
      Machine.Reaches exampleStep (fun _ _ => True) t u ∧ u.results = [false] ∧
        u.kv .shares = sealedShares .shares := by
  obtain ⟨t, ht⟩ :
      ∃ t, exampleStep (start sealedShares) (.loadShares ⟨none, none⟩ [] none) = some t :=
    ⟨_, rfl⟩
  have hlast : ((exampleStep (start sealedShares) (.loadShares ⟨none, none⟩ [] none)).bind
      fun t => Machine.exec exampleStep (fun _ _ => True) t mintLater).map results =
        some [false] := by decide +kernel
  rw [ht] at hlast
  obtain ⟨u, hu, hresults⟩ := Option.map_eq_some_iff.mp hlast
  have hreach := Machine.reaches_of_exec hu
  have hbad : Unreadable .plain .shareExample (start sealedShares) .shares
      (.loadShares ⟨none, none⟩ [] none) := by
    obtain ⟨raw, hraw, hne⟩ := encryptRecord_isSome .plain zeroKey zeroNonce
      [("version".toList, stateVersion)] (Json.stringify (stateJson []))
    exact ⟨raw, hraw, hne, .inr fun key hkey => by cases hkey⟩
  exact ⟨t, u, ht, hreach, hresults, unreadable_record_kept sealedShares .refl hbad ht hreach⟩

end PluginRun

end BbShared
