import BbShared.Pairing
import BbShared.TunnelReports

/-!
# The calls on a tunnel

What the lifecycle of `worker-lifecycle.ts` does to the tunnels of its runtimes.  It sees the status
and the last error that a tunnel shows, and calls `start` once and `stop`; the sockets and the timer
are the tunnel's own, of `lib/shared-tunnel.ts`.

`Guards` is about the course of one step: what its calls make of each tunnel, and that whoever drops
a runtime has stopped its tunnel.
-/

namespace BbShared

open Js

/-! ## Tunnels -/

namespace SharedTunnel

/-- What `getStatus` shows the lifecycle. -/
def shown (t : SharedTunnel) : Tunnel := ⟨t.state, t.lastError⟩

/-- It holds a socket or waits to dial. -/
def Active (t : SharedTunnel) : Prop := (∃ i, t.Live i) ∨ t.retryTimer.isSome = true

/-- The calls of the owner. -/
def ofOwner : TunnelEvent → Bool
  | .start | .stop => true
  | _ => false

variable {s t : SharedTunnel} {e : TunnelEvent}

theorem Sound.stopped_of_active (h : s.Sound) (ha : s.Active) : s.stopped = false := by
  rcases ha with ⟨i, hi⟩ | ht
  · exact (h.exclusive i hi).2
  · by_contra hs
    rw [h.halted (by simpa using hs)] at ht
    cases ht

theorem not_active_new : ¬ new.Active := by
  rintro (⟨i, k, hk, -⟩ | ht)
  · cases hk
  · cases ht

/-- The events of a stopped tunnel change no status. -/
theorem Sound.state_of_stopped (h : s.Sound) (hs : s.stopped = true) (he : ofOwner e = false)
    (ht : s.step e = some t) : t.state = s.state := by
  have dead : ∀ i, ¬ s.Live i := fun i hi => by
    rw [(h.exclusive i hi).2] at hs
    cases hs
  cases Step.of_step ht with
  | start | stop => cases he
  | ignored _ _ _ _ => rfl
  | opened hk hl hc => exact absurd ⟨_, hk, hl, hc⟩ (dead _)
  | refused hi | failed hi => exact absurd hi (dead _)
  | closed hk hl hc => exact absurd ⟨_, hk, hl, hc⟩ (dead _)
  | retry hd =>
    rw [h.halted hs] at hd
    cases hd
  | clients => rfl

/-- What `stop` leaves. -/
structure Halted (s : SharedTunnel) : Prop where
  stopped : s.stopped = true
  socket : s.socket = none
  session : s.session = false
  retryTimer : s.retryTimer = none
  remoteClients : s.remoteClients = 0

theorem halted_stop (s : SharedTunnel) : s.stop.Halted := by
  unfold SharedTunnel.stop teardownSocket unlisten
  cases hs : s.socket with
  | none => exact ⟨rfl, rfl, rfl, rfl, rfl⟩
  | some i =>
    simp only
    cases s.sockets[i]? <;> exact ⟨rfl, rfl, rfl, rfl, rfl⟩

theorem Halted.stop_eq (h : s.Halted) (hs : s.state = .stopped) : s.stop = s := by
  cases s
  obtain ⟨rfl, rfl, rfl, rfl, rfl⟩ := h
  obtain rfl := hs
  rfl

/-- A tunnel that shows `stopped` is as `stop` left it. -/
theorem halted_of_shown (h : Machine.Reaches step (fun _ _ => True) new s)
    (hs : s.state = .stopped) : s.Halted := by
  refine (h.invariant (I := fun s => s.Sound ∧ (s.state = .stopped → s.Halted))
    ⟨sound_new, fun hn => by cases hn⟩ (fun s e t ⟨hsound, ih⟩ _ ht => ⟨hsound.step ht, ?_⟩)).2 hs
  intro hst
  -- a live socket is one of a tunnel that is not stopped
  have dead : s.state = .stopped → ∀ i, ¬ s.Live i := fun hq i hi => by
    have hstopped := (ih hq).stopped
    rw [(hsound.exclusive i hi).2] at hstopped
    cases hstopped
  cases Step.of_step ht with
  | start =>
    unfold SharedTunnel.start at hst ⊢
    split_ifs at hst ⊢
    · cases hst
    · exact ih hst
  | stop => exact halted_stop s
  | ignored _ _ _ _ =>
    obtain ⟨h₁, h₂, h₃, h₄, h₅⟩ := ih hst
    exact ⟨h₁, h₂, h₃, h₄, h₅⟩
  | opened _ _ _ => cases hst
  | @refused i status now hi =>
    unfold onUnexpectedResponse at hst ⊢
    simp only at hst ⊢
    split_ifs at hst ⊢
    · cases hst
    · exact halted_stop _
    · rcases state_scheduleReconnect
        { s.teardownSocket with lastError := some (rejected status) } now with hq | hq
      · have hstate := (teardownSocket_frame s).2.2.1
        exact absurd hi (dead (hstate.symm.trans (hq.symm.trans hst)) i)
      · rw [hq] at hst
        cases hst
  | @failed i message hi => exact absurd hi (dead hst i)
  | @closed i now k hk hl hc =>
    rcases state_scheduleReconnect
      { s.setSocket i { k with closed := true } with session := false, remoteClients := 0 } now
      with hq | hq
    · exact absurd ⟨k, hk, hl, hc⟩ (dead (hq.symm.trans hst) i)
    · cases hq.symm.trans hst
  | retry hd =>
    rcases state_dial { s with retryTimer := none } with hq | hq
    · rw [(ih (hq.symm.trans hst)).retryTimer] at hd
      cases hd
    · cases hq.symm.trans hst
  | @clients n =>
    have hsession := (ih hst).session
    unfold step at ht
    simp only at ht
    rw [hsession] at ht
    cases ht

end SharedTunnel

/-! ## The calls of a step -/

/-- What the calls of a step of the lifecycle make of the status of a tunnel. -/
inductive Called : Option Tunnel → Option Tunnel → Prop
  | kept (t : Option Tunnel) : Called t t
  | started : Called none (some ⟨.connecting, none⟩)
  | stopped (t : Tunnel) : Called (some t) (some { t with state := .stopped })
  | dropped : Called none (some ⟨.stopped, none⟩)

theorem Called.stop {a b : Option Tunnel} (h : Called a b) :
    Called a (b.map fun t => { t with state := .stopped }) := by
  cases h with
  | kept t =>
    cases a with
    | none => exact .kept none
    | some t => exact .stopped t
  | started => exact .dropped
  | stopped t => exact .stopped t
  | dropped => exact .dropped

theorem Called.eq_none {a : Option Tunnel} (h : Called a none) : a = none := by
  cases h
  rfl

namespace Runtime

variable {r : Runtime}

/-- Its tunnel is there and does not show `stopped`. -/
def Engaged (r : Runtime) : Prop := ∃ t ∈ r.tunnel, t.state ≠ .stopped

theorem tunnel_setState (next : TunnelState) (now : ℕ) :
    (r.setState next now).tunnel = r.tunnel.map fun t => { t with state := next } := by
  unfold setState
  cases ht : r.tunnel with
  | none => exact ht
  | some t =>
    simp only
    split_ifs with hs
    · rw [ht, ← hs]
      rfl
    · rfl

theorem tunnel_startProbe (aborted : Bool) (challenge : Text) (now : ℕ) :
    (r.startProbe aborted challenge now).tunnel = r.tunnel := by
  unfold startProbe
  split_ifs <;> rfl

theorem tunnel_settleProbe : r.settleProbe.tunnel = r.tunnel := by
  unfold settleProbe
  split
  · split_ifs <;> rfl
  · rfl

theorem not_engaged_stop (now : ℕ) : ¬ (r.stop now).Engaged := by
  rintro ⟨t, ht, hs⟩
  unfold Runtime.stop at ht
  rw [tunnel_setState] at ht
  obtain ⟨t, -, rfl⟩ := Option.map_eq_some_iff.mp ht
  exact hs rfl

end Runtime

namespace WorkerLifecycle

variable {parser : UrlParser} {claimUrl : Text → Prop} {verifyReadiness : Text → Json → Bool}
  {s t : WorkerLifecycle}
  {tunnels : ℕ → Option Tunnel} {i : ℕ}

/-- A connection, or the candidate of a registration. -/
def Owns (s : WorkerLifecycle) (i : ℕ) : Prop :=
  i ∈ s.connections.values ∨ i ∈ s.candidates

/-- A state in the course of a step that began with `tunnels`. -/
structure Guards (tunnels : ℕ → Option Tunnel) (s : WorkerLifecycle) : Prop where
  called : ∀ i, Called (tunnels i) (s.runtimes i).tunnel
  fresh : ∀ i, s.created ≤ i → (s.runtimes i).tunnel = none
  owned : ∀ i, (s.runtimes i).Engaged → s.aborted = false ∧ s.Owns i

/-- Between two steps. -/
def Guarded (s : WorkerLifecycle) : Prop := s.Guards fun i => (s.runtimes i).tunnel

namespace Guards

theorem guarded (h : s.Guards tunnels) : s.Guarded := ⟨fun _ => .kept _, h.fresh, h.owned⟩

theorem congr (h : s.Guards tunnels) (hr : ∀ i, (t.runtimes i).tunnel = (s.runtimes i).tunnel)
    (hc : t.created = s.created) (ha : t.aborted = s.aborted) (ho : ∀ i, s.Owns i → t.Owns i) :
    t.Guards tunnels where
  called i := hr i ▸ h.called i
  fresh i hi := (hr i).trans (h.fresh i (hc ▸ hi))
  owned i hi := by
    unfold Runtime.Engaged at hi
    rw [hr] at hi
    obtain ⟨hs, how⟩ := h.owned i hi
    exact ⟨ha.trans hs, ho i how⟩

theorem settle (h : s.Guards tunnels) (result : Except Text Unit) :
    (s.settle result).Guards tunnels := h.congr (fun _ => rfl) rfl rfl fun _ => id

theorem modify (h : s.Guards tunnels) (i : ℕ) {f : Runtime → Runtime}
    (hf : ∀ r, (f r).tunnel = r.tunnel) : (s.modify i f).Guards tunnels := by
  refine h.congr (fun j => ?_) rfl rfl fun _ => id
  unfold WorkerLifecycle.modify
  simp only
  split_ifs
  · exact hf _
  · rfl

theorem tick (h : s.Guards tunnels) : s.tick.Guards tunnels :=
  h.congr (fun _ => rfl) rfl rfl fun _ => id

theorem probe (h : s.Guards tunnels) (i : ℕ) (challenge : Text) :
    (s.probe i challenge).Guards tunnels :=
  (h.modify i fun _ => Runtime.tunnel_startProbe _ _ _).tick

theorem stopTunnel (h : s.Guards tunnels) (i : ℕ) :
    (s.stopTunnel i).Guards tunnels ∧ ¬ ((s.stopTunnel i).runtimes i).Engaged := by
  have hself : (s.stopTunnel i).runtimes i = (s.runtimes i).stop s.clock := if_pos rfl
  have hother : ∀ j ≠ i, (s.stopTunnel i).runtimes j = s.runtimes j := fun j hj => if_neg hj
  have hstopped : ¬ ((s.stopTunnel i).runtimes i).Engaged := by
    rw [hself]
    exact Runtime.not_engaged_stop _
  refine ⟨⟨fun j => ?_, fun j hj => ?_, fun j hj => ?_⟩, hstopped⟩
  · rcases eq_or_ne j i with rfl | hne
    · rw [hself]
      unfold Runtime.stop
      rw [Runtime.tunnel_setState]
      exact (h.called j).stop
    · rw [hother j hne]
      exact h.called j
  · rcases eq_or_ne j i with rfl | hne
    · rw [hself]
      unfold Runtime.stop
      rw [Runtime.tunnel_setState, h.fresh j hj]
      rfl
    · rw [hother j hne]
      exact h.fresh j hj
  · rcases eq_or_ne j i with rfl | hne
    · exact absurd hj hstopped
    · rw [hother j hne] at hj
      exact h.owned j hj

/-- The candidate leaves with its tunnel stopped. -/
theorem rejectCandidate (h : s.Guards tunnels) (i : ℕ) (message : Text) :
    (s.rejectCandidate i message).Guards tunnels := by
  obtain ⟨h', hstopped⟩ := h.stopTunnel i
  have hleft : Guards tunnels { s.stopTunnel i with
      candidates := (s.stopTunnel i).candidates.erase i
      rejected := (s.stopTunnel i).rejected ++ [i] } := by
    refine ⟨h'.called, h'.fresh, fun j hj => ?_⟩
    have hne : j ≠ i := by
      rintro rfl
      exact hstopped hj
    obtain ⟨ha, hv | hc⟩ := h'.owned j hj
    · exact ⟨ha, .inl hv⟩
    · exact ⟨ha, .inr ((List.mem_erase_of_ne hne).mpr hc)⟩
  exact hleft.settle _

/-- A runtime without a tunnel gets one. -/
theorem connect (h : s.Guards tunnels) (hn : (s.runtimes i).tunnel = none) (hi : i < s.created)
    (ho : s.Owns i) : (s.connect i).Guards tunnels := by
  unfold WorkerLifecycle.connect
  split_ifs with ha
  · exact h
  have hself : (s.modify i (·.connect s.clock)).runtimes i = (s.runtimes i).connect s.clock :=
    if_pos rfl
  have hother : ∀ j ≠ i, (s.modify i (·.connect s.clock)).runtimes j = s.runtimes j :=
    fun j hj => if_neg hj
  refine tick ⟨fun j => ?_, fun j hj => ?_, fun j hj => ?_⟩
  · rcases eq_or_ne j i with rfl | hne
    · have hj := h.called j
      rw [hn] at hj
      rw [hself, hj.eq_none]
      exact .started
    · rw [hother j hne]
      exact h.called j
  · have hne : j ≠ i := by
      rintro rfl
      exact absurd hi (Nat.not_lt.mpr hj)
    rw [hother j hne]
    exact h.fresh j hj
  · rcases eq_or_ne j i with rfl | hne
    · exact ⟨(Bool.eq_false_iff.mpr ha : s.aborted = false), ho⟩
    · rw [hother j hne] at hj
      exact h.owned j hj

theorem allocate (h : s.Guards tunnels) (record : ConnectionRecord) :
    (s.allocate record).Guards tunnels ∧
      ((s.allocate record).runtimes s.created).tunnel = none := by
  have hself : (s.allocate record).runtimes s.created = .init record := if_pos rfl
  have hother : ∀ j ≠ s.created, (s.allocate record).runtimes j = s.runtimes j :=
    fun j hj => if_neg hj
  have hnone : ((s.allocate record).runtimes s.created).tunnel = none := by
    rw [hself]
    rfl
  refine ⟨⟨fun j => ?_, fun j hj => ?_, fun j hj => ?_⟩, hnone⟩
  · rcases eq_or_ne j s.created with rfl | hne
    · rw [hnone, ← h.fresh _ le_rfl]
      exact h.called _
    · rw [hother j hne]
      exact h.called j
  · rw [hother j (Nat.ne_of_gt hj)]
    exact h.fresh j (Nat.le_of_succ_le hj)
  · rcases eq_or_ne j s.created with rfl | hne
    · obtain ⟨t, ht, -⟩ := hj
      rw [hnone] at ht
      cases ht
    · rw [hother j hne] at hj
      exact h.owned j hj

theorem restore (h : s.Guards tunnels) {record : ConnectionRecord}
    (hid : record.id ∉ s.connections.keys) : (s.restore record).Guards tunnels := by
  obtain ⟨h', hnone⟩ := h.allocate record
  have hvalues := values_set_of_not_mem hid s.created
  have hlisted : Guards tunnels
      { s.allocate record with connections := s.connections.set record.id s.created } := by
    refine h'.congr (fun _ => rfl) rfl rfl fun j hj => ?_
    refine hj.imp_left fun hv => ?_
    rw [hvalues]
    exact List.mem_append_left _ hv
  refine hlisted.connect hnone (Nat.lt_succ_self _) (.inl ?_)
  rw [hvalues]
  exact List.mem_append_right _ (List.mem_singleton_self _)

theorem foldl_restore (l : List ConnectionRecord) : ∀ {s : WorkerLifecycle}, s.Keyed →
    (s.connections.keys ++ l.map (·.id)).Nodup → s.Guards tunnels →
    (l.foldl WorkerLifecycle.restore s).Guards tunnels := by
  induction l with
  | nil => exact fun _ _ h => h
  | cons record l ih =>
    intro s hk hn h
    have hid : record.id ∉ s.connections.keys := by
      intro hm
      rw [List.map_cons, List.nodup_append] at hn
      exact hn.2.2 _ hm _ (by simp) rfl
    obtain ⟨hkeyed, -, hkeys⟩ := restore_spec hk hid
    refine ih hkeyed ?_ (h.restore hid)
    rw [hkeys, List.append_assoc]
    simpa using hn

theorem loaded (h : s.Guards tunnels) (hreg : s.Registry parser claimUrl)
    (hi : s.initialization = .loading) {result : Except Text ConnectionSnapshot}
    (hv : ∀ snapshot, result = .ok snapshot → snapshot.Valid parser) :
    (s.loaded result).Guards tunnels := by
  cases result with
  | error e => exact h.congr (fun _ => rfl) rfl rfl fun _ => id
  | ok snapshot =>
    have hempty := (hreg.core.empty (.inr hi)).1
    have hstart : Guards tunnels { s with defaultId := snapshot.defaultId } :=
      h.congr (fun _ => rfl) rfl rfl fun _ => id
    have hkeyed : Keyed { s with defaultId := snapshot.defaultId } := hreg.core.keyed
    have hids : (s.connections.keys ++ snapshot.connections.map (·.id)).Nodup := by
      rw [hempty]
      exact (hv snapshot rfl).ids
    have hfold := foldl_restore snapshot.connections hkeyed hids hstart
    exact hfold.congr (fun _ => rfl) rfl rfl fun _ => id

theorem deploy (h : s.Guards tunnels) (random : Bytes) : (s.deploy random).Guards tunnels := by
  unfold WorkerLifecycle.deploy
  split_ifs
  · exact h.settle _
  · exact h.congr (fun _ => rfl) rfl rfl fun _ => id

theorem register (h : s.Guards tunnels) (input secret : Text) (claim : Option Claim) :
    (s.register parser input secret claim).Guards tunnels := by
  unfold WorkerLifecycle.register
  cases normalizeConnectionUrl parser.parse input with
  | error e => exact h.settle _
  | ok url =>
    simp only
    split_ifs
    · exact h.settle _
    · exact h.settle _
    · exact h.settle _
    · exact h.congr (fun _ => rfl) rfl rfl fun _ => id

theorem save (h : s.Guards tunnels) (write : Write) (records : List ConnectionRecord)
    (defaultId : Option Text) (now : ℚ) : (s.save write records defaultId now).Guards tunnels :=
  h.congr (fun _ => rfl) rfl rfl fun _ => id

theorem operation (h : s.Guards tunnels) (random : Bytes) (now : ℚ) (m : Mutation) :
    (s.operation parser random now m).Guards tunnels := by
  cases m with
  | ensureDeployed =>
    unfold WorkerLifecycle.operation
    split_ifs
    · exact h.deploy random
    · exact h.settle _
  | deployConnection => exact h.deploy random
  | registerConnection url secret => exact h.register url secret none
  | removeConnection id =>
    unfold WorkerLifecycle.operation
    cases hg : s.connections.get id with
    | none =>
      simp only [hg]
      exact h.settle _
    | some i =>
      simp only [hg]
      exact h.save _ _ _ _
  | setDefaultConnection id =>
    unfold WorkerLifecycle.operation
    cases hg : s.connections.get id with
    | none =>
      simp only [hg]
      exact h.settle _
    | some i =>
      simp only [hg]
      exact h.save _ _ _ _

theorem operate (h : s.Guards tunnels) (m : Mutation) (random : Bytes) (now : ℚ) :
    (s.operate parser m random now).Guards tunnels := by
  unfold WorkerLifecycle.operate
  cases s.initialization with
  | failed e => exact h.settle _
  | absent => exact h
  | loading => exact h
  | done =>
    simp only
    split_ifs
    · exact h.settle _
    · exact h.operation random now m

theorem conclude (h : s.Guards tunnels) (i : ℕ) (now : ℚ) : (s.conclude i now).Guards tunnels := by
  unfold WorkerLifecycle.conclude
  simp only
  split_ifs
  · exact h.rejectCandidate i _
  · exact h.save _ _ _ _

theorem poll (h : s.Guards tunnels) (i : ℕ) (pass : Pass) : (s.poll i pass).Guards tunnels := by
  unfold WorkerLifecycle.poll
  split_ifs
  · exact h.conclude i _
  · exact (h.probe i _).congr (fun _ => rfl) rfl rfl fun _ => id

theorem probed (h : s.Guards tunnels) (i : ℕ) (now : ℚ) : (s.probed i now).Guards tunnels := by
  unfold WorkerLifecycle.probed
  simp only
  split_ifs
  · exact h.conclude i now
  · exact h.rejectCandidate i _
  · exact h.congr (fun _ => rfl) rfl rfl fun _ => id

theorem identified (h : s.Guards tunnels) (url secret : Text) (claim : Option Claim)
    (answer : IdentityAnswer) (uuid : Text) (createdAt : ℚ) (pass : Pass) :
    (s.identified url secret claim answer uuid createdAt pass).Guards tunnels := by
  unfold WorkerLifecycle.identified
  split
  · exact h.settle _
  · rename_i relayId _
    simp only
    split_ifs
    · exact h.settle _
    · let record : ConnectionRecord := ⟨uuid, relayId, url, secret, claim, createdAt⟩
      obtain ⟨h', hnone⟩ := h.allocate record
      have hadded : Guards tunnels
          { s.allocate record with candidates := (s.allocate record).candidates ++ [s.created] } :=
        h'.congr (fun _ => rfl) rfl rfl fun _ hj => hj.imp_right (List.mem_append_left _)
      have hlast : s.created ∈ (s.allocate record).candidates ++ [s.created] :=
        List.mem_append_right _ (List.mem_singleton_self _)
      exact (hadded.connect hnone (Nat.lt_succ_self _) (.inr hlast)).poll _ _

/-- The connection that a saved snapshot adds was the candidate; the tunnel of the one that it
leaves out is stopped. -/
theorem afterSave (h : s.Guards tunnels) (hk : s.Keyed) {write : Write}
    {snapshot : ConnectionSnapshot} (hb : s.Busy parser claimUrl (some (.saving write snapshot))) :
    (s.afterSave write snapshot).Guards tunnels := by
  have hs : Guards tunnels { s with saved := some snapshot } :=
    h.congr (fun _ => rfl) rfl rfl fun _ => id
  unfold WorkerLifecycle.afterSave
  cases write with
  | register i d =>
    simp only
    split_ifs with ha
    · exact hs.rejectCandidate i _
    · have hvalues := values_set_of_not_mem hb.1.id i
      have hadded : Guards tunnels { s with
          saved := some snapshot
          connections := s.connections.set (s.runtimes i).record.id i
          defaultId := some d
          candidates := s.candidates.erase i } := by
        refine h.congr (fun _ => rfl) rfl rfl fun j hj => ?_
        rcases hj with hv | hc
        · exact .inl (hvalues ▸ List.mem_append_left _ hv)
        · rw [hb.1.only, List.mem_singleton] at hc
          exact .inl (hvalues ▸ List.mem_append_right _ (List.mem_singleton.mpr hc))
      exact hadded.settle _
  | remove id i d =>
    obtain ⟨hc, hg, -⟩ := hb
    obtain ⟨hstop, hstopped⟩ := hs.stopTunnel i
    have hleft : Guards tunnels (({ s with
        saved := some snapshot
        connections := s.connections.erase id
        defaultId := d } : WorkerLifecycle).stopTunnel i) := by
      refine ⟨hstop.called, hstop.fresh, fun j hj => ?_⟩
      have hne : j ≠ i := by
        rintro rfl
        exact hstopped hj
      obtain ⟨ha, hv | hcand⟩ := hstop.owned j hj
      · refine ⟨ha, .inl ?_⟩
        show j ∈ (s.connections.erase id).values
        rw [hk.filter_values hg, List.mem_filter]
        exact ⟨hv, by simpa using hne⟩
      · exact ⟨ha, .inr hcand⟩
    exact hleft.settle _
  | setDefault id =>
    have hset : Guards tunnels { s with saved := some snapshot, defaultId := some id } :=
      h.congr (fun _ => rfl) rfl rfl fun _ ho => ho
    exact hset.settle _

theorem saveFailed (h : s.Guards tunnels) (write : Write) (error : Text) :
    (s.saveFailed write error).Guards tunnels := by
  unfold WorkerLifecycle.saveFailed
  split
  · exact h.rejectCandidate _ error
  · exact h.settle _

theorem timer (h : s.Guards tunnels) (challenge : ℕ → Text) :
    (s.timer challenge).Guards tunnels := by
  refine h.congr (fun j => ?_) rfl rfl fun _ => id
  unfold WorkerLifecycle.timer
  simp only
  split_ifs
  · exact Runtime.tunnel_startProbe _ _ _
  · rfl

/-- `stop` reaches every tunnel that there is. -/
theorem stop (h : s.Guards tunnels) : s.stop.Guards tunnels := by
  unfold WorkerLifecycle.stop
  split_ifs with ha
  · exact h
  refine tick ⟨fun j => ?_, fun j hj => ?_, fun j hj => ?_⟩
  · unfold modifyAll
    simp only
    split_ifs
    · unfold Runtime.stop
      rw [Runtime.tunnel_setState]
      exact (h.called j).stop
    · exact h.called j
  · unfold modifyAll
    simp only
    split_ifs
    · unfold Runtime.stop
      rw [Runtime.tunnel_setState, h.fresh j hj]
      rfl
    · exact h.fresh j hj
  · unfold modifyAll at hj
    simp only at hj
    split_ifs at hj with hm
    · exact absurd hj (Runtime.not_engaged_stop _)
    · exact absurd (List.mem_append.mpr (h.owned j hj).2) hm

end Guards

/-- A status or an error that a tunnel announces. -/
def Event.ofTunnel : Event → Bool
  | .lastError _ _ | .status _ _ _ => true
  | _ => false

/-- **Step lemma.** -/
theorem Guarded.step (h : s.Guarded) (hreg : s.Registry parser claimUrl) {e : Event}
    (he : s.Expected parser claimUrl e) (hown : e.ofTunnel = false)
    (hs : s.step parser verifyReadiness e = some t) :
    t.Guards fun i => (s.runtimes i).tunnel := by
  have hstart : s.startLoading.Guards fun i => (s.runtimes i).tunnel := by
    unfold WorkerLifecycle.startLoading
    split <;> exact h.congr (fun _ => rfl) rfl rfl fun _ => id
  have hb := hreg.busy
  cases steps_of_step hs with
  | start => exact hstart
  | issue m => exact h.congr (fun _ => rfl) rfl rfl fun _ => id
  | begin m queue _ _ => exact hstart.congr (fun _ => rfl) rfl rfl fun _ => id
  | loaded result hi =>
    refine h.loaded hreg hi fun snapshot hr => ?_
    rw [hr] at he
    exact he
  | initialized m random now _ _ => exact h.operate m random now
  | deployFailed _ _ _ => exact h.settle _
  | deployed _ _ _ _ => exact h.register _ _ _
  | identified => exact h.identified _ _ _ _ _ _ _
  | probed i now _ _ => exact h.probed i now
  | slept i pass _ => exact h.poll i pass
  | saved write snapshot hr _ =>
    rw [hr] at hb
    exact h.afterSave hreg.core.keyed hb
  | saveFailed write _ e _ => exact h.saveFailed write e
  | lastError i e => cases hown
  | status i next challenge => cases hown
  | timer challenge => exact h.timer challenge
  | answered i answer => exact h.modify i fun r => (r.answerProbe_frame _ _).2.1
  | settled i => exact h.modify i fun _ => Runtime.tunnel_settleProbe
  | stop => exact h.stop

/-! ## What a tunnel announces -/

theorem tunnel_probe (s : WorkerLifecycle) (i : ℕ) (challenge : Text) (j : ℕ) :
    ((s.probe i challenge).runtimes j).tunnel = (s.runtimes j).tunnel := by
  unfold probe modify tick
  simp only
  split_ifs
  · exact Runtime.tunnel_startProbe _ _ _
  · rfl

theorem tunnel_status (s : WorkerLifecycle) (i : ℕ) (next : TunnelState) (challenge : Text)
    (j : ℕ) : ((s.status i next challenge).runtimes j).tunnel =
      if j = i then (s.runtimes j).tunnel.map fun t => { t with state := next }
      else (s.runtimes j).tunnel := by
  have hset : ((s.modify i (·.setState next s.clock)).tick.runtimes j).tunnel =
      if j = i then (s.runtimes j).tunnel.map fun t => { t with state := next }
      else (s.runtimes j).tunnel := by
    unfold modify tick
    simp only
    split_ifs
    · exact Runtime.tunnel_setState _ _
    · rfl
  unfold status
  simp only
  split_ifs
  · rw [tunnel_probe, hset, if_pos ‹j = i›]
  · rw [tunnel_probe, hset, if_neg ‹¬ j = i›]
  · rw [hset, if_pos ‹j = i›]
  · rw [hset, if_neg ‹¬ j = i›]

/-- The lifecycle hears of a tunnel that has changed. -/
def announce (s : WorkerLifecycle) (i : ℕ) (shown : Tunnel) (challenge : Text) : WorkerLifecycle :=
  (s.modify i (·.setLastError shown.lastError)).status i shown.state challenge

theorem tunnel_announce (hi : (s.runtimes i).tunnel.isSome = true) (shown : Tunnel)
    (challenge : Text) (j : ℕ) : ((s.announce i shown challenge).runtimes j).tunnel =
      if j = i then some shown else (s.runtimes j).tunnel := by
  unfold announce
  rw [tunnel_status]
  unfold modify Runtime.setLastError
  simp only
  split_ifs with hj
  · obtain ⟨t, ht⟩ := Option.isSome_iff_exists.mp hi
    rw [hj, ht]
    rfl
  · rfl

theorem quiet_announce (s : WorkerLifecycle) (i : ℕ) (shown : Tunnel) (challenge : Text) :
    Quiet s (s.announce i shown challenge) := by
  have hq : Quiet s (s.modify i (·.setLastError shown.lastError)) := quiet_modify i fun _ => rfl
  exact hq.trans (quiet_status i _ _)

theorem aborted_announce (s : WorkerLifecycle) (i : ℕ) (shown : Tunnel) (challenge : Text) :
    (s.announce i shown challenge).aborted = s.aborted := by
  unfold announce status
  simp only
  split_ifs <;> rfl

/-- A tunnel that shows `stopped` must not come back. -/
theorem Guarded.announce (h : s.Guarded) (hi : (s.runtimes i).tunnel.isSome = true)
    {shown : Tunnel} (hs : shown.state = .stopped ∨ (s.runtimes i).Engaged) (challenge : Text) :
    (s.announce i shown challenge).Guarded := by
  have hq := quiet_announce s i shown challenge
  refine ⟨fun _ => .kept _, fun j hj => ?_, fun j hj => ?_⟩
  · rw [hq.created] at hj
    have hnone := h.fresh j hj
    have hne : j ≠ i := by
      rintro rfl
      rw [hnone] at hi
      cases hi
    rw [tunnel_announce hi, if_neg hne, hnone]
  · rw [aborted_announce]
    unfold Owns
    rw [hq.connections, hq.candidates]
    obtain ⟨t, ht, hne⟩ := hj
    rw [tunnel_announce hi] at ht
    split_ifs at ht with hji
    · obtain rfl := Option.some.inj ht
      exact h.owned j (hji ▸ hs.resolve_left hne)
    · exact h.owned j ⟨t, ht, hne⟩

end WorkerLifecycle

end BbShared
