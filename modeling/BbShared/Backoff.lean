import BbShared.SharedTunnel

/-!
# How reconnects back off

A run of the tunnel with its connection attempts written down: each attempt that ends and is retried,
with its uptime and the delay the timer is set to.  The intended delay doubles with each attempt
since the last stable connection; the counter of the code starts again with each connection.
-/

namespace BbShared

/-! ## Attempts -/

/-- A connection attempt that ended. -/
structure Attempt where
  /-- From `open` to `close`, where it opened. -/
  uptime : Option ℤ
  /-- The time from the `open` of a connection that `stop` discarded, for the first attempt that
  ends or opens after it. -/
  leftOpen : Option ℤ
  /-- The delay before the next dial. -/
  delay : ℕ

namespace Attempt

open Machine SharedTunnel ReconnectBackoff

/-- It stayed open longer than the threshold. -/
def stable (a : Attempt) : Bool :=
  match a.uptime with
  | some ms => DEFAULT_STABLE_CONNECTION_MS < ms
  | none => false

/-- How many attempts ended since the last stable one. -/
def sinceStable (as : List Attempt) : ℕ := (as.reverse.takeWhile fun a => !a.stable).length

/-- **The schedule.** The delay after an attempt, by the attempts since the last stable one. -/
def Scheduled (before : List Attempt) (a : Attempt) : Prop :=
  a.delay = ReconnectBackoff.delay (sinceStable (before ++ [a]))

instance (before : List Attempt) (a : Attempt) : Decidable (Scheduled before a) :=
  inferInstanceAs (Decidable (_ = _))

/-- The counter keeps count: a short connection comes first since the start or the last stable one,
and a connection that was stopped is not taken for the one that did not open. -/
def Counted (before : List Attempt) (a : Attempt) : Prop :=
  match a.uptime with
  | some ms => ms ≤ DEFAULT_STABLE_CONNECTION_MS → ∀ b, before.getLast? = some b → b.stable = true
  | none => ∀ ms, a.leftOpen = some ms → ms ≤ DEFAULT_STABLE_CONNECTION_MS

/-- The uptime that `scheduleReconnect` works out. -/
def stableMs (a : Attempt) : ℤ := (a.uptime.or a.leftOpen).getD 0

/-- The backoff after the attempt. -/
def backoff (b : ReconnectBackoff) (a : Attempt) : ReconnectBackoff :=
  ((if a.uptime.isSome then b.reset else b).nextDelayAfterClose a.stableMs).1

/-- The backoff after the attempts. -/
def backoffAfter (as : List Attempt) : ReconnectBackoff := as.foldl backoff ⟨0⟩

/-- The delay the code works out. -/
def Computed (before : List Attempt) (a : Attempt) : Prop :=
  a.delay = ReconnectBackoff.delay (backoffAfter (before ++ [a])).attempt

variable {as : List Attempt} {a : Attempt}

theorem backoffAfter_concat : backoffAfter (as ++ [a]) = backoff (backoffAfter as) a :=
  List.foldl_concat _ _ _ _

theorem sinceStable_concat :
    sinceStable (as ++ [a]) = if a.stable = true then 0 else sinceStable as + 1 := by
  unfold sinceStable
  rw [List.reverse_concat, List.takeWhile_cons]
  cases a.stable <;> rfl

theorem sinceStable_eq_zero :
    sinceStable as = 0 ↔ ∀ b, as.getLast? = some b → b.stable = true := by
  rcases List.eq_nil_or_concat' as with rfl | ⟨as, a, rfl⟩
  · exact iff_of_true rfl nofun
  · rw [sinceStable_concat, List.getLast?_concat]
    constructor
    · intro h b hb
      obtain rfl := Option.some.inj hb
      by_contra hs
      rw [if_neg hs] at h
      cases h
    · intro h
      rw [if_pos (h a rfl)]

/-! ## Delays -/

theorem delay_mono : Monotone ReconnectBackoff.delay := by
  intro m n h
  have hpow : 2 ^ m ≤ 2 ^ n := Nat.pow_le_pow_right (by omega) h
  exact min_le_min_right _ (Nat.mul_le_mul_left _ hpow)

/-- The first two delays come once. -/
theorem delay_eq_of_le_one {m n : ℕ} (hm : m ≤ 1) :
    ReconnectBackoff.delay m = ReconnectBackoff.delay n ↔ m = n := by
  refine ⟨fun h => ?_, fun h => h ▸ rfl⟩
  have h₀ : ReconnectBackoff.delay 0 = 1000 := rfl
  have h₁ : ReconnectBackoff.delay 1 = 2000 := rfl
  have h₂ : ReconnectBackoff.delay 2 = 4000 := rfl
  rcases Nat.lt_or_ge n 2 with hn | hn
  · interval_cases m <;> interval_cases n <;> simp_all
  · have := delay_mono hn
    interval_cases m <;> omega

/-- One attempt, after attempts that were counted right. -/
theorem scheduled_iff_counted (hn : (backoffAfter as).attempt = sinceStable as)
    (ha : Computed as a) :
    (Scheduled as a ↔ Counted as a) ∧
      (Counted as a → (backoffAfter (as ++ [a])).attempt = sinceStable (as ++ [a])) := by
  unfold Scheduled Computed Counted at *
  rw [ha, backoffAfter_concat, sinceStable_concat]
  unfold backoff stableMs nextDelayAfterClose
  cases hu : a.uptime with
  | some ms =>
    have hstable : a.stable = decide (DEFAULT_STABLE_CONNECTION_MS < ms) := by
      unfold stable
      rw [hu]
    simp only [hstable, Option.some_or, Option.getD_some, Option.isSome_some, if_true,
      decide_eq_true_eq]
    by_cases hms : DEFAULT_STABLE_CONNECTION_MS < ms
    · rw [if_pos hms, if_pos hms]
      exact ⟨iff_of_true rfl fun h => absurd h (by omega), fun _ => rfl⟩
    · rw [if_neg hms, if_neg hms, delay_eq_of_le_one (by rfl), ← sinceStable_eq_zero]
      simp only [reset, zero_add, not_lt.mp hms, true_imp_iff]
      omega
  | none =>
    have hstable : a.stable = false := by
      unfold stable
      rw [hu]
    simp only [hstable, Option.none_or, Option.isSome_none, Bool.false_eq_true, if_false, hn]
    cases hl : a.leftOpen with
    | none =>
      have hzero : ¬ DEFAULT_STABLE_CONNECTION_MS < (none : Option ℤ).getD 0 := by
        unfold DEFAULT_STABLE_CONNECTION_MS
        simp
      rw [if_neg hzero]
      exact ⟨iff_of_true rfl nofun, fun _ => rfl⟩
    | some ms =>
      simp only [Option.getD_some, Option.some.injEq, forall_eq']
      by_cases hms : DEFAULT_STABLE_CONNECTION_MS < ms
      · rw [if_pos hms, delay_eq_of_le_one (Nat.zero_le 1)]
        exact ⟨iff_of_false (by omega) (by omega), fun h => absurd h (by omega)⟩
      · rw [if_neg hms]
        exact ⟨iff_of_true rfl (not_lt.mp hms), fun _ => rfl⟩

/-- **The first miscount shows.** -/
theorem along_scheduled_iff (h : Along Computed as) :
    (Along Scheduled as ↔ Along Counted as) ∧
      (Along Counted as → (backoffAfter as).attempt = sinceStable as) := by
  induction as using List.reverseRecOn with
  | nil => exact ⟨iff_of_true along_nil along_nil, fun _ => rfl⟩
  | append_singleton as a ih =>
    obtain ⟨has, ha⟩ := along_concat.mp h
    obtain ⟨hiff, hcount⟩ := ih has
    rw [along_concat, along_concat, hiff]
    refine ⟨and_congr_right fun hc => (scheduled_iff_counted (hcount hc) ha).1, fun hc => ?_⟩
    exact (scheduled_iff_counted (hcount hc.1) ha).2 hc.2

end Attempt

def elapsed (now since : ℕ) : ℤ := now - since

/-! ## What the delays depend on -/

namespace SharedTunnel

variable {s : SharedTunnel}

theorem teardownSocket_backoff (s : SharedTunnel) :
    s.teardownSocket.connectedAt = s.connectedAt ∧ s.teardownSocket.backoff = s.backoff := by
  unfold teardownSocket unlisten
  cases s.socket with
  | none => exact ⟨rfl, rfl⟩
  | some i =>
    simp only
    cases s.sockets[i]? with
    | none => exact ⟨rfl, rfl⟩
    | some k => exact ⟨rfl, rfl⟩

theorem stop_backoff (s : SharedTunnel) :
    s.stop.connectedAt = s.connectedAt ∧ s.stop.backoff = s.backoff ∧ s.stop.retryTimer = none := by
  obtain ⟨hc, hb⟩ := teardownSocket_backoff { s with stopped := true, retryTimer := none }
  obtain ⟨-, htimer, -⟩ := teardownSocket_frame { s with stopped := true, retryTimer := none }
  exact ⟨hc, hb, htimer⟩

theorem dial_backoff (s : SharedTunnel) :
    s.dial.connectedAt = s.connectedAt ∧ s.dial.backoff = s.backoff := by
  unfold dial
  split_ifs <;> exact ⟨rfl, rfl⟩

theorem scheduleReconnect_backoff (now : ℕ) (hs : s.stopped = false) (ht : s.retryTimer = none) :
    (s.scheduleReconnect now).connectedAt = none ∧
      (s.scheduleReconnect now).backoff =
        (s.backoff.nextDelayAfterClose ((s.connectedAt.map (elapsed now)).getD 0)).1 ∧
      (s.scheduleReconnect now).retryTimer =
        some (ReconnectBackoff.delay (s.scheduleReconnect now).backoff.attempt) := by
  unfold scheduleReconnect
  rw [hs, ht]
  cases s.connectedAt <;> exact ⟨rfl, rfl, rfl⟩

end SharedTunnel

/-! ## Runs -/

/-- The tunnel, and what was seen of its connections since `start`. -/
structure Retried where
  tunnel : SharedTunnel
  /-- When the socket dialed last has opened. -/
  openedAt : Option ℕ
  /-- When the socket that the last `stop` discarded had opened, until another opens or ends. -/
  leftOpen : Option ℕ
  attempts : List Attempt

namespace Retried

open Machine

def new : Retried := ⟨.new, none, none, []⟩

/-- The attempt ended where the timer is set. -/
def ended (r : Retried) (now : ℕ) (t : SharedTunnel) : Retried :=
  match r.tunnel.retryTimer, t.retryTimer with
  | none, some delay =>
    { tunnel := t
      openedAt := none
      leftOpen := none
      attempts := r.attempts ++
        [⟨r.openedAt.map (elapsed now), r.leftOpen.map (elapsed now), delay⟩] }
  | _, _ => { r with tunnel := t }

/-- What is seen of an event after which the tunnel is `t`. -/
def seen (r : Retried) (t : SharedTunnel) : TunnelEvent → Retried
  | .start =>
    if r.tunnel.stopped then
      { tunnel := t, openedAt := none, leftOpen := r.openedAt.or r.leftOpen, attempts := [] }
    else { r with tunnel := t }
  | .socketOpen i now =>
    if (r.tunnel.sockets[i]?).any (·.listens) then
      { r with tunnel := t, openedAt := some now, leftOpen := none }
    else { r with tunnel := t }
  | .unexpectedResponse _ _ now => r.ended now t
  | .socketClose _ now => r.ended now t
  | _ => { r with tunnel := t }

def step (r : Retried) (e : TunnelEvent) : Option Retried := (r.tunnel.step e).map (r.seen · e)

/-- The fields of the tunnel that the delays depend on. -/
structure Tracks (r : Retried) : Prop where
  sound : r.tunnel.Sound
  connectedAt : r.tunnel.connectedAt = r.openedAt.or r.leftOpen
  backoff : r.tunnel.backoff =
    if r.openedAt.isSome then ⟨0⟩ else Attempt.backoffAfter r.attempts
  computed : Along Attempt.Computed r.attempts

namespace Tracks

open SharedTunnel

variable {r r' : Retried} {t u : SharedTunnel} {e : TunnelEvent}

theorem new : Retried.new.Tracks := ⟨SharedTunnel.sound_new, rfl, rfl, along_nil⟩

/-- Nothing is seen. -/
theorem keep (h : r.Tracks) (ht : t.Sound) (hc : t.connectedAt = r.tunnel.connectedAt)
    (hb : t.backoff = r.tunnel.backoff) : ({ r with tunnel := t } : Retried).Tracks :=
  ⟨ht, hc.trans h.connectedAt, hb.trans h.backoff, h.computed⟩

theorem ended_keep (h : r.Tracks) (now : ℕ) (ht : t.Sound)
    (hc : t.connectedAt = r.tunnel.connectedAt) (hb : t.backoff = r.tunnel.backoff)
    (htimer : t.retryTimer = r.tunnel.retryTimer) : (r.ended now t).Tracks := by
  unfold ended
  rw [htimer]
  cases r.tunnel.retryTimer with
  | none => exact h.keep ht hc hb
  | some delay => exact h.keep ht hc hb

/-- The attempt is retried. -/
theorem scheduleReconnect (h : r.Tracks) (now : ℕ) (hr : r.tunnel.retryTimer = none)
    (hs : u.stopped = false) (htimer : u.retryTimer = none)
    (hc : u.connectedAt = r.tunnel.connectedAt) (hb : u.backoff = r.tunnel.backoff)
    (hsound : (u.scheduleReconnect now).Sound) : (r.ended now (u.scheduleReconnect now)).Tracks := by
  obtain ⟨hconnected, hbackoff, htimer'⟩ := scheduleReconnect_backoff now hs htimer
  set t := u.scheduleReconnect now
  have hended : r.ended now t = ⟨t, none, none, r.attempts ++
      [⟨r.openedAt.map (elapsed now), r.leftOpen.map (elapsed now),
        ReconnectBackoff.delay t.backoff.attempt⟩]⟩ := by
    unfold ended
    rw [hr, htimer']
  have hnext : ∀ delay, t.backoff = Attempt.backoffAfter (r.attempts ++
      [⟨r.openedAt.map (elapsed now), r.leftOpen.map (elapsed now), delay⟩]) := by
    intro delay
    rw [hbackoff, hc, hb, h.connectedAt, h.backoff, Attempt.backoffAfter_concat]
    cases r.openedAt <;> rfl
  rw [hended]
  refine ⟨hsound, hconnected, hnext _, along_concat.mpr ⟨h.computed, ?_⟩⟩
  exact congrArg (fun b => ReconnectBackoff.delay b.attempt) (hnext _)

theorem start (h : r.Tracks) : (r.seen r.tunnel.start .start).Tracks := by
  have hsound := h.sound.start
  unfold seen SharedTunnel.start at *
  by_cases hs : r.tunnel.stopped = true
  · simp only [hs, if_true] at hsound ⊢
    exact ⟨hsound, h.connectedAt, rfl, along_nil⟩
  · simp only [hs] at hsound ⊢
    exact h.keep hsound rfl rfl

theorem closed (h : r.Tracks) {i : ℕ} {k : TunnelSocket} (hk : r.tunnel.sockets[i]? = some k)
    (hl : k.listens = true) (hc : k.closed = false) (now : ℕ) :
    (r.ended now ((r.tunnel.setSocket i { k with closed := true }).onClose now)).Tracks := by
  obtain ⟨htimer, hstopped⟩ := h.sound.exclusive i ⟨k, hk, hl, hc⟩
  exact h.scheduleReconnect now htimer hstopped htimer rfl rfl (h.sound.onClose hk hl hc now)

/-- A rejection is final, or the attempt is retried. -/
theorem refused (h : r.Tracks) {i : ℕ} (hi : r.tunnel.Live i) (status now : ℕ) :
    (r.ended now (r.tunnel.onUnexpectedResponse status now)).Tracks := by
  obtain ⟨htimer, hstopped⟩ := h.sound.exclusive i hi
  obtain ⟨hst, htm, -⟩ := teardownSocket_frame r.tunnel
  obtain ⟨hc, hb⟩ := teardownSocket_backoff r.tunnel
  have hsound := h.sound.onUnexpectedResponse hi status now
  unfold SharedTunnel.onUnexpectedResponse at *
  simp only at hsound ⊢
  split_ifs at hsound ⊢
  · exact h.ended_keep now hsound hc hb htm
  · obtain ⟨hc', hb', ht'⟩ := stop_backoff
      { r.tunnel.teardownSocket with lastError := some (rejected status) }
    exact h.ended_keep now hsound (hc'.trans hc) (hb'.trans hb) (ht'.trans htimer.symm)
  · exact h.scheduleReconnect now htimer (hst.trans hstopped) (htm.trans htimer) hc hb hsound

/-- **Step lemma.** -/
theorem step (h : r.Tracks) (hstep : r.step e = some r') : r'.Tracks := by
  obtain ⟨t, ht, rfl⟩ := Option.map_eq_some_iff.mp hstep
  have hsound := h.sound.step ht
  cases SharedTunnel.Step.of_step ht with
  | start => exact h.start
  | stop =>
    obtain ⟨hc, hb, -⟩ := stop_backoff r.tunnel
    exact h.keep hsound hc hb
  | @ignored e i k k' he hk hl hl' =>
    have hkeep : ({ r with tunnel := r.tunnel.setSocket i k' } : Retried).Tracks :=
      h.keep hsound rfl rfl
    have hended : ∀ now, (r.ended now (r.tunnel.setSocket i k')).Tracks := fun now =>
      h.ended_keep now hsound rfl rfl rfl
    cases e with
    | socketOpen j now =>
      obtain rfl := Option.some.inj he
      have hdeaf : ¬ (r.tunnel.sockets[j]?).any (·.listens) = true := by
        rw [hk]
        simpa using hl
      unfold seen
      simp only [hdeaf]
      exact hkeep
    | unexpectedResponse j status now => exact hended now
    | socketClose j now => exact hended now
    | socketError j message => exact hkeep
    | start => cases he
    | stop => cases he
    | retry => cases he
    | remoteClientsChange n => cases he
  | @opened i now k hk hl hc =>
    have hlistens : (r.tunnel.sockets[i]?).any (·.listens) = true := by
      rw [hk]
      exact hl
    unfold seen
    simp only [hlistens, if_true]
    exact ⟨hsound, rfl, rfl, h.computed⟩
  | refused hi => exact h.refused hi _ _
  | failed _ => exact h.keep hsound rfl rfl
  | closed hk hl hc => exact h.closed hk hl hc _
  | retry _ =>
    obtain ⟨hc, hb⟩ := dial_backoff { r.tunnel with retryTimer := none }
    exact h.keep hsound hc hb
  | clients => exact h.keep hsound rfl rfl

end Tracks

/-! ## The schedule -/

/-- **Backing off.** In every run the delays since `start` follow the schedule exactly when every
attempt is counted. -/
theorem scheduled_iff {r : Retried} (h : Machine.Reaches step (fun _ _ => True) new r) :
    Along Attempt.Scheduled r.attempts ↔ Along Attempt.Counted r.attempts := by
  have ht : r.Tracks := h.invariant .new fun _ _ _ ht _ hstep => ht.step hstep
  exact (Attempt.along_scheduled_iff ht.computed).1

/-- A dial that fails, and a connection of 20 s. -/
theorem scheduled_iff_failed_stable :
    ∃ r, Machine.Reaches step (fun _ _ => True) new r ∧
      r.attempts.map Attempt.delay = [2000, 1000] ∧ Along Attempt.Scheduled r.attempts := by
  have hrun : ∃ r, Machine.exec step (fun _ _ => True) new
      [.start, .socketClose 0 5, .retry, .socketOpen 1 3000, .socketClose 1 23000] = some r ∧
      r.attempts = [⟨none, none, 2000⟩, ⟨some 20000, none, 1000⟩] := ⟨_, rfl, rfl⟩
  obtain ⟨r, hexec, hr⟩ := hrun
  have hreach := Machine.reaches_of_exec hexec
  refine ⟨r, hreach, by rw [hr]; rfl, (scheduled_iff hreach).mpr ?_⟩
  rw [hr]
  have hsplit : [⟨none, none, 2000⟩, ⟨some 20000, none, 1000⟩] =
      ([] ++ [⟨none, none, 2000⟩]) ++ [(⟨some 20000, none, 1000⟩ : Attempt)] := rfl
  rw [hsplit, along_concat, along_concat]
  exact ⟨⟨along_nil, nofun⟩, fun h => absurd h (by decide)⟩

/-- Of two connections that are dropped at once, the second is retried as soon as the first. -/
theorem not_scheduled :
    ¬ ∀ r, Machine.Reaches step (fun _ _ => True) new r → Along Attempt.Scheduled r.attempts := by
  intro h
  have hrun : ∃ r, Machine.exec step (fun _ _ => True) new
      [.start, .socketOpen 0 0, .socketClose 0 5, .retry, .socketOpen 1 3000, .socketClose 1 3005] =
        some r ∧
      r.attempts = [⟨some 5, none, 2000⟩, ⟨some 5, none, 2000⟩] := ⟨_, rfl, rfl⟩
  obtain ⟨r, hexec, hr⟩ := hrun
  have hsecond := h r (Machine.reaches_of_exec hexec) [⟨some 5, none, 2000⟩] ⟨some 5, none, 2000⟩
    (by rw [hr]; exact List.prefix_rfl)
  exact absurd hsecond (by decide)

end Retried

end BbShared
