import BbShared.Readiness

/-!
# The connection registry

The snapshots that the lifecycle saves satisfy the schema, and between mutations the connections in
memory are the ones last saved.

`Core` holds at any time; `Busy` says what the running mutation has already checked.  A mutation
checks before its long waits and writes after them: what it checked still holds because only the
running mutation changes the connections.
-/

namespace BbShared

open Js

namespace WorkerLifecycle

variable {parser : UrlParser} {claimUrl : Text → Prop} {s t : WorkerLifecycle}

/-- The snapshot holds the default and the records in memory, up to the claims that had expired
when it was made. -/
def Agrees (s : WorkerLifecycle) (snapshot : ConnectionSnapshot) : Prop :=
  snapshot.defaultId = s.defaultId ∧
    (snapshot.connections = s.records ∨
      ∃ now, snapshot.connections = s.records.map (·.expire now))

/-- The connections are filed under the ids of their records. -/
def Keyed (s : WorkerLifecycle) : Prop :=
  ∀ e ∈ s.connections.entries, (s.runtimes e.2).record.id = e.1 ∧ e.2 < s.created

variable (parser claimUrl) in
/-- What holds of the registry at any time. -/
structure Core (s : WorkerLifecycle) : Prop where
  keyed : s.Keyed
  valid : ConnectionSnapshot.Fits parser claimUrl ⟨s.defaultId, s.records⟩
  handed : ∀ snapshot ∈ s.handed, snapshot.Fits parser claimUrl
  empty : s.initialization = .absent ∨ s.initialization = .loading →
    s.connections = .empty ∧ s.saved = none ∧ s.rejected = []
  agrees : s.aborted = false → ∀ snapshot ∈ s.saved, s.Agrees snapshot
  rejected : ∀ i ∈ s.rejected, i < s.created ∧ i ∉ s.connections.values

variable (parser claimUrl) in
/-- A candidate that could be added to the connections. -/
structure Candidate (s : WorkerLifecycle) (i : ℕ) : Prop where
  only : s.candidates = [i]
  created : i < s.created
  absent : i ∉ s.connections.values
  kept : i ∉ s.rejected
  id : (s.runtimes i).record.id ∉ s.connections.keys
  valid : ConnectionSnapshot.Fits parser claimUrl
    ⟨some (s.defaultId.getD (s.runtimes i).record.id), s.records ++ [(s.runtimes i).record]⟩

/-- The records that are left without one runtime. -/
def without (s : WorkerLifecycle) (i : ℕ) : List ConnectionRecord :=
  (s.connections.values.filter (· ≠ i)).map fun j => (s.runtimes j).record

variable (parser claimUrl) in
/-- What the running mutation has checked. -/
def Busy (s : WorkerLifecycle) : Option Phase → Prop
  | none | some (.initializing _) | some (.deploying _) => s.candidates = []
  | some (.identifying url secret claim) => s.candidates = [] ∧ s.connections.size < 16 ∧
      normalizeConnectionUrl parser.parse url = .ok url ∧ isTunnelSecret secret = true ∧
      (∀ c ∈ claim, claimUrl c.url) ∧ url ∉ s.records.map (·.url)
  | some (.probing i) | some (.sleeping i) => s.Candidate parser claimUrl i
  | some (.saving (.register i d) snapshot) => s.Candidate parser claimUrl i ∧
      d = s.defaultId.getD (s.runtimes i).record.id ∧
      ∃ now, snapshot =
        ⟨some d, (s.records ++ [(s.runtimes i).record]).map (·.expire now)⟩
  | some (.saving (.remove id i d) snapshot) => s.candidates = [] ∧
      s.connections.get id = some i ∧ ConnectionSnapshot.Fits parser claimUrl ⟨d, s.without i⟩ ∧
      ∃ now, snapshot = ⟨d, (s.without i).map (·.expire now)⟩
  | some (.saving (.setDefault id) snapshot) => s.candidates = [] ∧
      ConnectionSnapshot.Fits parser claimUrl ⟨some id, s.records⟩ ∧
      ∃ now, snapshot = ⟨some id, s.records.map (·.expire now)⟩

/-- The running mutation, if it is past `initialize`, runs in an initialised lifecycle. -/
def Settled (s : WorkerLifecycle) : Option Phase → Prop
  | none | some (.initializing _) => True
  | _ => s.initialization = .done

variable (parser claimUrl) in
structure Registry (s : WorkerLifecycle) : Prop where
  core : s.Core parser claimUrl
  busy : s.Busy parser claimUrl s.running
  settled : s.Settled s.running

/-! ## Steps that do not touch the registry -/

/-- `t` has the records of `s`, may be stopped where `s` is not, and differs otherwise in runtimes,
clock, queue and results only. -/
structure Quiet (s t : WorkerLifecycle) : Prop where
  record : ∀ i, (t.runtimes i).record = (s.runtimes i).record
  aborted : t.aborted = false → s.aborted = false
  rest : { t with runtimes := s.runtimes, clock := s.clock, queue := s.queue,
                  results := s.results, aborted := s.aborted } = s

namespace Quiet

theorem trans {u : WorkerLifecycle} (h : Quiet s t) (h' : Quiet t u) : Quiet s u where
  record i := (h'.record i).trans (h.record i)
  aborted ha := h.aborted (h'.aborted ha)
  rest := by
    have := h.rest
    rw [← h'.rest] at this
    exact this

theorem connections (h : Quiet s t) : t.connections = s.connections :=
  (congrArg WorkerLifecycle.connections h.rest :)

theorem created (h : Quiet s t) : t.created = s.created :=
  (congrArg WorkerLifecycle.created h.rest :)

theorem candidates (h : Quiet s t) : t.candidates = s.candidates :=
  (congrArg WorkerLifecycle.candidates h.rest :)

theorem defaultId (h : Quiet s t) : t.defaultId = s.defaultId :=
  (congrArg WorkerLifecycle.defaultId h.rest :)

theorem initialization (h : Quiet s t) : t.initialization = s.initialization :=
  (congrArg WorkerLifecycle.initialization h.rest :)

theorem running (h : Quiet s t) : t.running = s.running :=
  (congrArg WorkerLifecycle.running h.rest :)

theorem handed (h : Quiet s t) : t.handed = s.handed := (congrArg WorkerLifecycle.handed h.rest :)

theorem saved (h : Quiet s t) : t.saved = s.saved := (congrArg WorkerLifecycle.saved h.rest :)

theorem rejected (h : Quiet s t) : t.rejected = s.rejected :=
  (congrArg WorkerLifecycle.rejected h.rest :)

theorem records (h : Quiet s t) : t.records = s.records := by
  unfold WorkerLifecycle.records
  rw [h.connections]
  exact List.map_congr_left fun i _ => h.record i

theorem without (h : Quiet s t) (i : ℕ) : t.without i = s.without i := by
  unfold WorkerLifecycle.without
  rw [h.connections]
  exact List.map_congr_left fun j _ => h.record j

theorem core (h : Quiet s t) (hs : s.Core parser claimUrl) : t.Core parser claimUrl where
  keyed e he := by
    rw [h.connections] at he
    rw [h.record, h.created]
    exact hs.keyed e he
  valid := by rw [h.records, h.defaultId]; exact hs.valid
  handed := by rw [h.handed]; exact hs.handed
  empty := by rw [h.initialization, h.connections, h.saved, h.rejected]; exact hs.empty
  agrees := by
    intro ha
    unfold Agrees
    rw [h.saved, h.records, h.defaultId]
    exact hs.agrees (h.aborted ha)
  rejected := by rw [h.rejected, h.created, h.connections]; exact hs.rejected

theorem candidate (h : Quiet s t) {i : ℕ} (hs : s.Candidate parser claimUrl i) :
    t.Candidate parser claimUrl i where
  only := by rw [h.candidates]; exact hs.only
  created := by rw [h.created]; exact hs.created
  absent := by rw [h.connections]; exact hs.absent
  kept := by rw [h.rejected]; exact hs.kept
  id := by rw [h.record, h.connections]; exact hs.id
  valid := by rw [h.record, h.records, h.defaultId]; exact hs.valid

theorem registry (h : Quiet s t) (hs : s.Registry parser claimUrl) :
    t.Registry parser claimUrl where
  core := h.core hs.core
  busy := by
    have hb := hs.busy
    rw [h.running]
    cases hr : s.running with
    | none => rw [hr] at hb; exact h.candidates.trans hb
    | some phase =>
      rw [hr] at hb
      cases phase with
      | initializing m => exact h.candidates.trans hb
      | deploying secret => exact h.candidates.trans hb
      | identifying url secret claim =>
        obtain ⟨hc, hd⟩ := hb
        refine ⟨h.candidates.trans hc, ?_⟩
        rw [h.connections, h.records]
        exact hd
      | probing i => exact h.candidate hb
      | sleeping i => exact h.candidate hb
      | saving write snapshot =>
        cases write with
        | register i d =>
          obtain ⟨hc, hd⟩ := hb
          refine ⟨h.candidate hc, ?_⟩
          rw [h.record, h.records, h.defaultId]
          exact hd
        | remove id i d =>
          obtain ⟨hc, hd⟩ := hb
          refine ⟨h.candidates.trans hc, ?_⟩
          rw [h.connections, h.without]
          exact hd
        | setDefault id =>
          obtain ⟨hc, hd⟩ := hb
          refine ⟨h.candidates.trans hc, ?_⟩
          rw [h.records]
          exact hd
  settled := by
    have hb := hs.settled
    rw [h.running]
    unfold Settled at hb ⊢
    rw [h.initialization]
    exact hb

end Quiet

theorem Quiet.tick (h : Quiet s t) : Quiet s t.tick := ⟨h.record, h.aborted, h.rest⟩

/-- A change of one runtime that keeps its record. -/
theorem quiet_modify (i : ℕ) {f : Runtime → Runtime} (h : ∀ r, (f r).record = r.record) :
    Quiet s (s.modify i f) := by
  refine ⟨fun j => ?_, id, rfl⟩
  show (if j = i then f (s.runtimes j) else s.runtimes j).record = _
  split_ifs
  · exact h _
  · rfl

end WorkerLifecycle

namespace Runtime

variable {r : Runtime}

theorem record_setState (next : TunnelState) (now : ℕ) :
    (r.setState next now).record = r.record := by
  unfold setState
  cases r.tunnel with
  | none => rfl
  | some t =>
    simp only
    split_ifs <;> rfl

theorem record_connect (now : ℕ) : (r.connect now).record = r.record := record_setState _ _

theorem record_startProbe (aborted : Bool) (challenge : Text) (now : ℕ) :
    (r.startProbe aborted challenge now).record = r.record := by
  unfold startProbe
  split_ifs <;> rfl

theorem record_settleProbe : r.settleProbe.record = r.record := by
  unfold settleProbe
  cases r.probe with
  | none => rfl
  | some p =>
    simp only
    split_ifs <;> rfl

end Runtime

namespace WorkerLifecycle

variable {parser : UrlParser} {claimUrl : Text → Prop} {s t : WorkerLifecycle}

theorem quiet_probe (i : ℕ) (challenge : Text) : Quiet s (s.probe i challenge) :=
  (quiet_modify i fun r => r.record_startProbe _ _ _).tick

theorem quiet_stopTunnel (i : ℕ) : Quiet s (s.stopTunnel i) :=
  (quiet_modify i fun r => r.record_setState _ _).tick

theorem quiet_connect (i : ℕ) : Quiet s (s.connect i) := by
  unfold connect
  split_ifs
  · exact ⟨fun _ => rfl, id, rfl⟩
  · exact (quiet_modify i fun r => r.record_connect _).tick

theorem quiet_status (i : ℕ) (next : TunnelState) (challenge : Text) :
    Quiet s (s.status i next challenge) := by
  have h : Quiet s (s.modify i (·.setState next s.clock)).tick :=
    (quiet_modify i fun r => r.record_setState _ _).tick
  unfold status
  simp only
  split_ifs
  · exact h.trans (quiet_probe i challenge)
  · exact h

theorem quiet_timer (challenge : ℕ → Text) : Quiet s (s.timer challenge) := by
  refine ⟨fun j => ?_, id, rfl⟩
  unfold timer
  simp only
  split_ifs
  · exact Runtime.record_startProbe _ _ _
  · rfl

theorem quiet_stop : Quiet s s.stop := by
  unfold stop
  split_ifs
  · exact ⟨fun _ => rfl, id, rfl⟩
  · refine ⟨fun j => ?_, fun h => (by cases h), rfl⟩
    show (if j ∈ s.connections.values ++ s.candidates then (s.runtimes j).stop s.clock
      else s.runtimes j).record = _
    split_ifs
    · exact Runtime.record_setState _ _
    · rfl

/-! ## Ends of a mutation -/

theorem Core.congr (h : s.Core parser claimUrl) {running : Option Phase} {candidates : List ℕ}
    {results : List (Except Text Unit)} : Core parser claimUrl
      { s with running := running, candidates := candidates, results := results } :=
  ⟨h.keyed, h.valid, h.handed, h.empty, h.agrees, h.rejected⟩

/-- A mutation that ends without a candidate. -/
theorem Core.settle (h : s.Core parser claimUrl) (hc : s.candidates = [])
    (result : Except Text Unit) : (s.settle result).Registry parser claimUrl where
  core := h.congr
  busy := hc
  settled := trivial

/-- A candidate that is rejected was never among the connections. -/
theorem Core.rejectCandidate (h : s.Core parser claimUrl) {i : ℕ} (hd : s.initialization = .done)
    (hc : s.candidates = [i]) (hi : i < s.created) (ha : i ∉ s.connections.values)
    (message : Text) : (s.rejectCandidate i message).Registry parser claimUrl := by
  have hq := quiet_stopTunnel (s := s) i
  have hq' := hq.core h
  have hcore : Core parser claimUrl { s.stopTunnel i with
      candidates := (s.stopTunnel i).candidates.erase i
      rejected := (s.stopTunnel i).rejected ++ [i] } := by
    refine ⟨hq'.keyed, hq'.valid, hq'.handed, ?_, hq'.agrees, ?_⟩
    · intro hi
      have hi : s.initialization = .absent ∨ s.initialization = .loading := by
        rw [← hq.initialization]; exact hi
      rw [hd] at hi
      rcases hi with hi | hi <;> cases hi
    intro j hj
    rcases List.mem_append.mp hj with hj | hj
    · exact hq'.rejected j hj
    · rw [List.mem_singleton.mp hj]
      exact ⟨hi, ha⟩
  refine hcore.settle ?_ _
  simp only [hq.candidates, hc, List.erase_cons_head]

/-- A snapshot that satisfies the schema is handed to the store. -/
theorem Core.save (h : s.Core parser claimUrl) {write : Write} {records : List ConnectionRecord}
    {d : Option Text} {now : ℚ} (hv : ConnectionSnapshot.Fits parser claimUrl ⟨d, records⟩)
    (hb : s.Busy parser claimUrl (some (.saving write ⟨d, records.map (·.expire now)⟩)))
    (hi : s.initialization = .done) : (s.save write records d now).Registry parser claimUrl where
  core := by
    refine ⟨h.keyed, h.valid, ?_, h.empty, h.agrees, h.rejected⟩
    intro snapshot hs
    rcases List.mem_append.mp hs with hs | hs
    · exact h.handed snapshot hs
    · rw [List.mem_singleton.mp hs]
      exact hv.expire now
  busy := by
    cases write with
    | register i d' =>
      obtain ⟨hc, hd⟩ := hb
      exact ⟨⟨hc.only, hc.created, hc.absent, hc.kept, hc.id, hc.valid⟩, hd⟩
    | remove id i d' => exact hb
    | setDefault id => exact hb
  settled := hi

/-! ## Initialisation -/

theorem values_set_of_not_mem {m : OrderedMap Text ℕ} {k : Text} (h : k ∉ m.keys) (v : ℕ) :
    (m.set k v).values = m.values ++ [v] := by
  unfold OrderedMap.values
  rw [OrderedMap.entries_set_of_not_mem h]
  simp

/-- A new runtime leaves the others, and so their records, alone. -/
theorem record_allocate (record : ConnectionRecord) {i : ℕ} (h : i < s.created) :
    ((s.allocate record).runtimes i).record = (s.runtimes i).record := by
  unfold allocate
  simp only
  rw [if_neg (by omega)]

theorem Keyed.lt (h : s.Keyed) {i : ℕ} (hi : i ∈ s.connections.values) : i < s.created := by
  obtain ⟨e, he, rfl⟩ := List.mem_map.mp hi
  exact (h e he).2

theorem Keyed.ids (h : s.Keyed) : s.records.map (·.id) = s.connections.keys := by
  unfold records OrderedMap.values OrderedMap.keys
  rw [List.map_map, List.map_map]
  exact List.map_congr_left fun e he => (h e he).1

/-- A record is restored at the end of the connections. -/
theorem restore_spec (h : s.Keyed) {record : ConnectionRecord}
    (hid : record.id ∉ s.connections.keys) :
    (s.restore record).Keyed ∧ (s.restore record).records = s.records ++ [record] ∧
      (s.restore record).connections.keys = s.connections.keys ++ [record.id] := by
  let s' : WorkerLifecycle :=
    { s.allocate record with connections := s.connections.set record.id s.created }
  have hq : Quiet s' (s'.connect s.created) := quiet_connect _
  have hself : (s'.runtimes s.created).record = record := by
    simp [s', allocate, Runtime.init]
  have hold : ∀ i < s.created, (s'.runtimes i).record = (s.runtimes i).record :=
    fun i hi => record_allocate record hi
  refine ⟨?_, ?_, ?_⟩
  · intro e he
    show ((s'.connect s.created).runtimes e.2).record.id = e.1 ∧ e.2 < _
    have he : e ∈ (s'.connect s.created).connections.entries := he
    rw [hq.connections] at he
    rw [hq.record, show (s.restore record).created = s'.created from hq.created]
    rcases OrderedMap.mem_entries_set.mp he with rfl | ⟨he, _⟩
    · exact ⟨by rw [hself], Nat.lt_succ_self _⟩
    · obtain ⟨hr, hlt⟩ := h e he
      exact ⟨by rw [hold _ hlt]; exact hr, Nat.lt_succ_of_lt hlt⟩
  · show (s'.connect s.created).records = _
    rw [hq.records]
    show (s.connections.set record.id s.created).values.map (fun i => (s'.runtimes i).record) = _
    rw [values_set_of_not_mem hid, List.map_append, List.map_singleton, hself]
    unfold records
    rw [List.map_congr_left fun i hi => hold i (h.lt hi)]
  · show (s'.connect s.created).connections.keys = _
    rw [hq.connections]
    exact OrderedMap.keys_set_of_not_mem hid _

/-- Restoring records does not touch the rest. -/
theorem restore_frame (record : ConnectionRecord) :
    (s.restore record).defaultId = s.defaultId ∧ (s.restore record).running = s.running ∧
      (s.restore record).candidates = s.candidates ∧ (s.restore record).handed = s.handed ∧
      (s.restore record).rejected = s.rejected := by
  have hq : Quiet { s.allocate record with
    connections := s.connections.set record.id s.created } (s.restore record) := quiet_connect _
  exact ⟨hq.defaultId, hq.running, hq.candidates, hq.handed, hq.rejected⟩

theorem foldl_restore (l : List ConnectionRecord) :
    ∀ {s : WorkerLifecycle}, s.Keyed → (s.connections.keys ++ l.map (·.id)).Nodup →
      (l.foldl restore s).Keyed ∧ (l.foldl restore s).records = s.records ++ l ∧
      (l.foldl restore s).defaultId = s.defaultId ∧ (l.foldl restore s).running = s.running ∧
      (l.foldl restore s).candidates = s.candidates ∧ (l.foldl restore s).handed = s.handed ∧
      (l.foldl restore s).rejected = s.rejected := by
  induction l with
  | nil => exact fun h _ => ⟨h, by simp, rfl, rfl, rfl, rfl, rfl⟩
  | cons record l ih =>
    intro s h hn
    have hid : record.id ∉ s.connections.keys := by
      intro hm
      rw [List.map_cons, List.nodup_append] at hn
      exact hn.2.2 _ hm _ (by simp) rfl
    obtain ⟨hk, hr, hkeys⟩ := restore_spec h hid
    obtain ⟨h1, h2, h3, h4, h5⟩ := restore_frame (s := s) record
    obtain ⟨ik, ir, i1, i2, i3, i4, i5⟩ := ih hk (by
      rw [hkeys, List.append_assoc]
      simpa using hn)
    refine ⟨ik, ?_, i1.trans h1, i2.trans h2, i3.trans h3, i4.trans h4, i5.trans h5⟩
    rw [List.foldl_cons, ir, hr, List.append_assoc, List.singleton_append]

/-- A valid snapshot is restored as it is. -/
theorem Registry.loaded (h : s.Registry parser claimUrl) (hi : s.initialization = .loading)
    {result : Except Text ConnectionSnapshot} (hv : ∀ snapshot, result = .ok snapshot →
      snapshot.Fits parser claimUrl) : (s.loaded result).Registry parser claimUrl := by
  obtain ⟨hempty, hsaved, hrej⟩ := h.core.empty (Or.inr hi)
  have hrun : s.Settled s.running → s.running = none ∨ ∃ m, s.running = some (.initializing m) := by
    intro hs
    cases hr : s.running with
    | none => exact Or.inl rfl
    | some phase =>
      rw [hr] at hs
      cases phase with
      | initializing m => exact Or.inr ⟨m, rfl⟩
      | _ => cases hi.symm.trans hs
  have hbusy : s.candidates = [] := by
    have hb := h.busy
    rcases hrun h.settled with hr | ⟨m, hr⟩ <;> rw [hr] at hb <;> exact hb
  cases result with
  | error e =>
    refine ⟨⟨h.core.keyed, h.core.valid, h.core.handed, ?_, h.core.agrees, h.core.rejected⟩, ?_, ?_⟩
    · rintro (h | h) <;> cases h
    · show Busy parser claimUrl _ s.running
      rcases hrun h.settled with hr | ⟨m, hr⟩ <;> rw [hr] <;> exact hbusy
    · show Settled _ s.running
      rcases hrun h.settled with hr | ⟨m, hr⟩ <;> rw [hr] <;> trivial
  | ok snapshot =>
    have hvalid := hv snapshot rfl
    have hk : Keyed { s with defaultId := snapshot.defaultId } := h.core.keyed
    obtain ⟨ik, ir, i1, i2, i3, i4, i5⟩ := foldl_restore snapshot.connections hk (by
      show (s.connections.keys ++ _).Nodup
      rw [hempty]
      exact hvalid.ids)
    have hrecords : (snapshot.connections.foldl restore
        { s with defaultId := snapshot.defaultId }).records = snapshot.connections := by
      rw [ir]
      show s.connections.values.map _ ++ _ = _
      rw [hempty]
      rfl
    refine ⟨⟨ik, ?_, ?_, ?_, ?_, ?_⟩, ?_, ?_⟩
    · show ConnectionSnapshot.Fits parser claimUrl ⟨_, records _⟩
      rw [show (WorkerLifecycle.records (s.loaded (.ok snapshot))) = snapshot.connections from
        hrecords]
      exact i1 ▸ hvalid
    · show ∀ snap ∈ (snapshot.connections.foldl restore _).handed, _
      rw [i4]
      exact h.core.handed
    · rintro (h | h) <;> cases h
    · rintro _ snap hsnap
      obtain rfl := Option.some.inj hsnap
      exact ⟨i1.symm, Or.inl hrecords.symm⟩
    · show ∀ i ∈ (snapshot.connections.foldl restore _).rejected, _
      rw [i5]
      show ∀ i ∈ s.rejected, _
      rw [hrej]
      intro i hi
      cases hi
    · show Busy parser claimUrl _ (snapshot.connections.foldl restore _).running
      rw [i2]
      show Busy parser claimUrl _ s.running
      rcases hrun h.settled with hr | ⟨m, hr⟩ <;> rw [hr] <;> exact i3.trans hbusy
    · show Settled _ (snapshot.connections.foldl restore _).running
      rw [i2]
      show Settled _ s.running
      rcases hrun h.settled with hr | ⟨m, hr⟩ <;> rw [hr] <;> trivial

/-! ## Mutations -/

theorem Core.deploy (h : s.Core parser claimUrl) (hc : s.candidates = [])
    (hd : s.initialization = .done) (random : Bytes) :
    (s.deploy random).Registry parser claimUrl := by
  unfold WorkerLifecycle.deploy
  split_ifs
  · exact h.settle hc _
  · exact ⟨h.congr, hc, hd⟩

theorem Core.register (h : s.Core parser claimUrl) (hc : s.candidates = [])
    (hd : s.initialization = .done) (input secret : Text) {claim : Option Claim}
    (hclaim : ∀ c ∈ claim, claimUrl c.url) :
    (s.register parser input secret claim).Registry parser claimUrl := by
  unfold WorkerLifecycle.register
  cases hn : normalizeConnectionUrl parser.parse input with
  | error e => exact h.settle hc _
  | ok url =>
    simp only
    split_ifs with h1 h2 h3
    · exact h.settle hc _
    · exact h.settle hc _
    · exact h.settle hc _
    · refine ⟨h.congr, ⟨hc, ?_, ?_, ?_, hclaim, h3⟩, hd⟩
      · exact Nat.lt_of_not_le h2
      · exact parser.idempotent input url hn
      · simpa using h1

/-- The index of a connection is filed once. -/
theorem Keyed.filter_values (h : s.Keyed) {id : Text} {i : ℕ} (hi : s.connections.get id = some i) :
    (s.connections.erase id).values = s.connections.values.filter (· ≠ i) := by
  have hid := OrderedMap.get_eq_some.mp hi
  unfold OrderedMap.values OrderedMap.erase
  rw [List.filter_map]
  refine congrArg _ (List.filter_congr fun e he => ?_)
  have hiff : e.1 = id ↔ e.2 = i := by
    constructor
    · rintro rfl
      exact OrderedMap.value_unique he hid
    · rintro rfl
      exact (h e he).1.symm.trans (h _ hid).1
  simp [hiff]

/-- Without one connection the others keep a default. -/
theorem Core.valid_without (h : s.Core parser claimUrl) {id : Text} {i : ℕ}
    (hi : s.connections.get id = some i) : ConnectionSnapshot.Fits parser claimUrl
      ⟨if s.defaultId = some id then (s.without i).head?.map (·.id) else s.defaultId,
        s.without i⟩ := by
  have hid := OrderedMap.get_eq_some.mp hi
  refine h.valid.sublist (List.filter_sublist.map _) ?_
  have hdef := h.valid.default
  by_cases hd : s.defaultId = some id
  · rw [if_pos hd]
    cases hw : s.without i with
    | nil => rfl
    | cons r l => exact ⟨r, by simp, rfl⟩
  · rw [if_neg hd]
    cases hd' : s.defaultId with
    | none =>
      rw [hd'] at hdef
      have hmem : (s.runtimes i).record ∈ s.records :=
        List.mem_map_of_mem (OrderedMap.mem_values_of_get hi)
      have hnil : s.records = [] := hdef
      rw [hnil] at hmem
      cases hmem
    | some d =>
      rw [hd'] at hdef
      obtain ⟨r, hr, hrd⟩ := hdef
      obtain ⟨j, hj, rfl⟩ := List.mem_map.mp hr
      refine ⟨_, List.mem_map_of_mem (List.mem_filter.mpr ⟨hj, ?_⟩), hrd⟩
      have hne : j ≠ i := by
        rintro rfl
        rw [(h.keyed _ hid).1] at hrd
        exact hd (by rw [hd', ← hrd])
      simpa using hne

theorem Core.operation (h : s.Core parser claimUrl) (hc : s.candidates = [])
    (hd : s.initialization = .done) (random : Bytes) (now : ℚ) (m : Mutation) :
    (s.operation parser random now m).Registry parser claimUrl := by
  cases m with
  | ensureDeployed =>
    unfold WorkerLifecycle.operation
    split_ifs
    · exact h.deploy hc hd random
    · exact h.settle hc _
  | deployConnection => exact h.deploy hc hd random
  | registerConnection url secret => exact h.register hc hd url secret (by simp)
  | removeConnection id =>
    unfold WorkerLifecycle.operation
    cases hg : s.connections.get id with
    | none =>
      simp only [hg]
      exact h.settle hc _
    | some i =>
      simp only [hg]
      have hv := h.valid_without hg
      refine h.save hv ?_ hd
      exact ⟨hc, hg, hv, now, rfl⟩
  | setDefaultConnection id =>
    unfold WorkerLifecycle.operation
    cases hg : s.connections.get id with
    | none =>
      simp only [hg]
      exact h.settle hc _
    | some i =>
      simp only [hg]
      have hv : ConnectionSnapshot.Fits parser claimUrl ⟨some id, s.records⟩ := by
        refine h.valid.sublist (List.Sublist.refl _) ?_
        refine ⟨_, List.mem_map_of_mem (OrderedMap.mem_values_of_get hg), ?_⟩
        exact (h.keyed _ (OrderedMap.get_eq_some.mp hg)).1
      refine h.save hv ?_ hd
      exact ⟨hc, hv, now, rfl⟩

theorem Core.operate (h : s.Core parser claimUrl) (hc : s.candidates = []) (m : Mutation)
    (random : Bytes) (now : ℚ) (hi : s.initialization = .done ∨ ∃ e, s.initialization = .failed e) :
    (s.operate parser m random now).Registry parser claimUrl := by
  unfold WorkerLifecycle.operate
  rcases hi with hd | ⟨e, he⟩
  · rw [hd]
    simp only
    split_ifs
    · exact h.settle hc _
    · exact h.operation hc hd random now m
  · rw [he]
    exact h.settle hc _

/-! ## The candidate -/

theorem Core.conclude (h : s.Core parser claimUrl) {i : ℕ} (hi : s.Candidate parser claimUrl i)
    (hd : s.initialization = .done) (now : ℚ) : (s.conclude i now).Registry parser claimUrl := by
  unfold WorkerLifecycle.conclude
  simp only
  split_ifs
  · exact h.rejectCandidate hd hi.only hi.created hi.absent _
  · refine h.save hi.valid ?_ hd
    exact ⟨hi, rfl, now, rfl⟩

theorem Core.poll (h : s.Core parser claimUrl) {i : ℕ} (hi : s.Candidate parser claimUrl i)
    (hd : s.initialization = .done) (pass : Pass) : (s.poll i pass).Registry parser claimUrl := by
  unfold WorkerLifecycle.poll
  split_ifs
  · exact h.conclude hi hd _
  · have hq := quiet_probe (s := s) i pass.challenge
    have hi' := hq.candidate hi
    refine ⟨(hq.core h).congr, ?_, hq.initialization.trans hd⟩
    exact ⟨hi'.only, hi'.created, hi'.absent, hi'.kept, hi'.id, hi'.valid⟩

theorem Core.probed (h : s.Core parser claimUrl) {i : ℕ} (hi : s.Candidate parser claimUrl i)
    (hd : s.initialization = .done) (now : ℚ) : (s.probed i now).Registry parser claimUrl := by
  unfold WorkerLifecycle.probed
  simp only
  split_ifs
  · exact h.conclude hi hd _
  · exact h.rejectCandidate hd hi.only hi.created hi.absent _
  · refine ⟨h.congr, ?_, hd⟩
    exact ⟨hi.only, hi.created, hi.absent, hi.kept, hi.id, hi.valid⟩

theorem identity_ok {answer : IdentityAnswer} {relayId : Text} (h : identity answer = .ok relayId) :
    relayId ≠ [] ∧ units relayId ≤ 128 := by
  cases answer with
  | failed e => cases h
  | response ok body =>
    unfold identity at h
    simp only at h
    split_ifs at h with hc
    obtain rfl := Except.ok.inj h
    push Not at hc
    exact hc.2.2.2.2

/-- A relay that no connection has becomes the candidate. -/
theorem Core.identified (h : s.Core parser claimUrl) {url secret : Text} {claim : Option Claim}
    (hb : s.Busy parser claimUrl (some (.identifying url secret claim)))
    (hd : s.initialization = .done) (answer : IdentityAnswer) {uuid : Text} (hne : uuid ≠ [])
    (hfresh : uuid ∉ s.connections.keys) (createdAt : ℚ) (pass : Pass) :
    (s.identified url secret claim answer uuid createdAt pass).Registry parser claimUrl := by
  obtain ⟨hc, hsize, hurl, hsecret, hclaim, hnew⟩ := hb
  unfold WorkerLifecycle.identified
  cases hid : identity answer with
  | error e => exact h.settle hc _
  | ok relayId =>
    simp only
    split_ifs with hdup
    · exact h.settle hc _
    let record : ConnectionRecord := ⟨uuid, relayId, url, secret, claim, createdAt⟩
    let s' : WorkerLifecycle :=
      { s.allocate record with candidates := (s.allocate record).candidates ++ [s.created] }
    have hself : (s'.runtimes s.created).record = record := by simp [s', allocate, Runtime.init]
    have hold : ∀ i < s.created, (s'.runtimes i).record = (s.runtimes i).record :=
      fun i hi => record_allocate record hi
    have hrecords : s'.records = s.records :=
      List.map_congr_left fun i hi => hold i (h.keyed.lt hi)
    have hrecord : record.Fits parser claimUrl := by
      obtain ⟨hr, hu⟩ := identity_ok hid
      exact ⟨hne, ⟨hr, hu⟩, hurl, hsecret, hclaim⟩
    have hlen : s.records.length < 16 := by
      unfold records OrderedMap.values
      rw [List.length_map, List.length_map]
      exact hsize
    have hids : record.id ∉ s.records.map (·.id) := by
      rw [h.keyed.ids]
      exact hfresh
    have hcore : s'.Core parser claimUrl := by
      refine ⟨?_, ?_, h.handed, h.empty, ?_, ?_⟩
      · intro e he
        obtain ⟨hr, hlt⟩ := h.keyed e he
        exact ⟨by rw [hold _ hlt]; exact hr, Nat.lt_succ_of_lt hlt⟩
      · rw [hrecords]; exact h.valid
      · unfold Agrees
        rw [hrecords]
        exact h.agrees
      · exact fun i hi => ⟨Nat.lt_succ_of_lt (h.rejected i hi).1, (h.rejected i hi).2⟩
    have hcand : s'.Candidate parser claimUrl s.created := by
      refine ⟨?_, Nat.lt_succ_self _, ?_, ?_, ?_, ?_⟩
      · show s.candidates ++ [s.created] = _
        rw [hc]
        rfl
      · exact fun hm => absurd (h.keyed.lt hm) (lt_irrefl _)
      · exact fun hm => absurd (h.rejected _ hm).1 (lt_irrefl _)
      · rw [hself]; exact hfresh
      · rw [hself, hrecords]
        exact h.valid.append hrecord hlen hids hdup hnew
    have hq : Quiet s' (s'.connect s.created) := quiet_connect _
    exact (hq.core hcore).poll (hq.candidate hcand) (hq.initialization.trans hd) pass

/-! ## After a save -/

theorem Core.saveFailed (h : s.Core parser claimUrl) {write : Write} {snapshot : ConnectionSnapshot}
    (hb : s.Busy parser claimUrl (some (.saving write snapshot))) (hd : s.initialization = .done)
    (error : Text) : (s.saveFailed write error).Registry parser claimUrl := by
  cases write with
  | register i d => exact h.rejectCandidate hd hb.1.only hb.1.created hb.1.absent _
  | remove id i d => exact h.settle hb.1 _
  | setDefault id => exact h.settle hb.1 _

/-- Memory follows a snapshot that was saved, unless the lifecycle has been stopped. -/
theorem Core.afterSave (h : s.Core parser claimUrl) {write : Write} {snapshot : ConnectionSnapshot}
    (hb : s.Busy parser claimUrl (some (.saving write snapshot))) (hd : s.initialization = .done) :
    (s.afterSave write snapshot).Registry parser claimUrl := by
  have hdone : ∀ {P : Prop}, s.initialization = .absent ∨ s.initialization = .loading → P := by
    intro P hi
    rw [hd] at hi
    rcases hi with hi | hi <;> cases hi
  cases write with
  | register i d =>
    obtain ⟨hi, hd', now, hsnap⟩ := hb
    unfold WorkerLifecycle.afterSave
    simp only
    split_ifs with ha
    · have hs : Core parser claimUrl { s with saved := some snapshot } :=
        ⟨h.keyed, h.valid, h.handed, hdone, fun hf => absurd (ha.symm.trans hf) (by simp),
          h.rejected⟩
      exact hs.rejectCandidate hd hi.only hi.created hi.absent _
    · have hvalues := values_set_of_not_mem hi.id i
      let s' : WorkerLifecycle := { s with
        saved := some snapshot
        connections := s.connections.set (s.runtimes i).record.id i
        defaultId := some d
        candidates := s.candidates.erase i }
      have hrecords : s'.records = s.records ++ [(s.runtimes i).record] := by
        show (s.connections.set _ i).values.map _ = _
        rw [hvalues, List.map_append]
        rfl
      have hcore : s'.Core parser claimUrl := by
        refine ⟨?_, ?_, h.handed, hdone, ?_, ?_⟩
        · intro e he
          rcases OrderedMap.mem_entries_set.mp he with rfl | ⟨he, _⟩
          · exact ⟨rfl, hi.created⟩
          · exact h.keyed e he
        · rw [hrecords]
          show ConnectionSnapshot.Fits parser claimUrl ⟨some d, _⟩
          rw [hd']
          exact hi.valid
        · rintro _ snap hs
          obtain rfl := Option.some.inj hs
          rw [hsnap]
          exact ⟨rfl, Or.inr ⟨now, by rw [hrecords]⟩⟩
        · intro j hj
          refine ⟨(h.rejected j hj).1, ?_⟩
          show j ∉ (s.connections.set _ i).values
          rw [hvalues]
          intro hm
          rcases List.mem_append.mp hm with hm | hm
          · exact (h.rejected j hj).2 hm
          · rw [List.mem_singleton.mp hm] at hj
            exact hi.kept hj
      refine hcore.settle ?_ _
      show s.candidates.erase i = []
      rw [hi.only, List.erase_cons_head]
  | remove id i d =>
    obtain ⟨hc, hg, hv, now, rfl⟩ := hb
    let s' : WorkerLifecycle := { s with
      saved := some ⟨d, (s.without i).map (·.expire now)⟩
      connections := s.connections.erase id
      defaultId := d }
    have hrecords : s'.records = s.without i := by
      show (s.connections.erase id).values.map _ = _
      rw [h.keyed.filter_values hg]
      rfl
    have hcore : s'.Core parser claimUrl := by
      refine ⟨?_, ?_, h.handed, hdone, ?_, ?_⟩
      · exact fun e he => h.keyed e (OrderedMap.mem_entries_erase.mp he).1
      · rw [hrecords]; exact hv
      · rintro _ snap hsnap
        obtain rfl := Option.some.inj hsnap
        exact ⟨rfl, Or.inr ⟨now, by rw [hrecords]⟩⟩
      · exact fun j hj => ⟨(h.rejected j hj).1,
          fun hm => (h.rejected j hj).2 (OrderedMap.mem_values_erase hm)⟩
    have hq : Quiet s' (s'.stopTunnel i) := quiet_stopTunnel i
    exact (hq.core hcore).settle (hq.candidates.trans hc) _
  | setDefault id =>
    obtain ⟨hc, hv, now, rfl⟩ := hb
    have hcore : Core parser claimUrl
        { s with saved := some ⟨some id, s.records.map (·.expire now)⟩, defaultId := some id } := by
      refine ⟨h.keyed, hv, h.handed, hdone, ?_, h.rejected⟩
      rintro _ snap hsnap
      obtain rfl := Option.some.inj hsnap
      exact ⟨rfl, Or.inr ⟨now, rfl⟩⟩
    exact hcore.settle hc _

/-! ## Runs -/

variable (parser claimUrl) in
/-- What the outside is relied on for: the store loads what satisfies the schema, a UUID is not in
use, and `claimUrl` holds of what the deployment API gives as the URL of a claim. -/
def Expected (s : WorkerLifecycle) : Event → Prop
  | .loaded (.ok snapshot) => snapshot.Valid parser
  | .deployed (.ok (_, some claim)) => claimUrl claim.url
  | .identified _ uuid _ _ => uuid ≠ [] ∧ uuid ∉ s.connections.keys
  | _ => True

instance [DecidablePred claimUrl] (e : Event) : Decidable (s.Expected parser claimUrl e) := by
  unfold Expected
  split <;> infer_instance

theorem Expected.mono {claimUrl' : Text → Prop} {e : Event} (h : s.Expected parser claimUrl e)
    (himp : ∀ url, claimUrl url → claimUrl' url) : s.Expected parser claimUrl' e := by
  unfold Expected at h ⊢
  split at h
  · exact h
  · exact himp _ h
  · exact h
  · trivial

theorem registry_init : init.Registry parser claimUrl where
  core :=
    { keyed := by intro e he; cases he
      valid := .empty
      handed := by intro snapshot h; cases h
      empty := fun _ => ⟨rfl, rfl, rfl⟩
      agrees := by intro _ snapshot h; cases h
      rejected := by intro i h; cases h }
  busy := rfl
  settled := trivial

theorem Registry.startLoading (h : s.Registry parser claimUrl) :
    s.startLoading.Registry parser claimUrl := by
  unfold WorkerLifecycle.startLoading
  cases hi : s.initialization with
  | absent =>
    refine ⟨⟨h.core.keyed, h.core.valid, h.core.handed, fun _ => h.core.empty (Or.inl hi),
      h.core.agrees, h.core.rejected⟩, ?_, ?_⟩
    · have hs := h.settled
      have hb := h.busy
      show Busy parser claimUrl _ s.running
      cases hr : s.running with
      | none => rw [hr] at hb; exact hb
      | some phase =>
        rw [hr] at hs hb
        cases phase with
        | initializing m => exact hb
        | _ => cases hi.symm.trans hs
    · have hs := h.settled
      show Settled _ s.running
      cases hr : s.running with
      | none => trivial
      | some phase =>
        rw [hr] at hs
        cases phase with
        | initializing m => trivial
        | _ => cases hi.symm.trans hs
  | _ => exact h

/-- **Step lemma.** -/
theorem Registry.step {verifyReadiness : Text → Json → Bool}
    (hurl : ∀ url, parser.Accepts url → claimUrl url) (h : s.Registry parser claimUrl) {e : Event}
    (he : s.Expected parser claimUrl e) (hs : s.step parser verifyReadiness e = some t) :
    t.Registry parser claimUrl := by
  have hb := h.busy
  have hd := h.settled
  cases steps_of_step hs with
  | start => exact h.startLoading
  | issue m =>
    have hq : Quiet s { s with queue := s.queue ++ [m] } := ⟨fun _ => rfl, id, rfl⟩
    exact hq.registry h
  | begin m queue hr _ =>
    have h' := h.startLoading
    have hrun : s.startLoading.running = none := by
      unfold WorkerLifecycle.startLoading
      cases s.initialization <;> exact hr
    have hc := h'.busy
    rw [hrun] at hc
    exact ⟨⟨h'.core.keyed, h'.core.valid, h'.core.handed, h'.core.empty, h'.core.agrees,
      h'.core.rejected⟩, hc, trivial⟩
  | loaded result hi =>
    refine h.loaded hi fun snapshot hr => ?_
    rw [hr] at he
    exact ConnectionSnapshot.Fits.mono he hurl
  | initialized m random now hr hi =>
    rw [hr] at hb
    exact h.core.operate hb m random now hi
  | deployFailed secret e hr =>
    rw [hr] at hb
    exact h.core.settle hb _
  | deployed secret url claim hr =>
    rw [hr] at hb hd
    refine h.core.register hb hd _ _ fun c hc => ?_
    rw [Option.mem_def.mp hc] at he
    exact he
  | identified url secret claim answer uuid createdAt pass hr =>
    rw [hr] at hb hd
    exact h.core.identified hb hd answer he.1 he.2 createdAt pass
  | probed i now hr _ =>
    rw [hr] at hb hd
    exact h.core.probed hb hd now
  | slept i pass hr =>
    rw [hr] at hb hd
    exact h.core.poll hb hd pass
  | saved write snapshot hr _ =>
    rw [hr] at hb hd
    exact h.core.afterSave hb hd
  | saveFailed write snapshot e hr =>
    rw [hr] at hb hd
    exact h.core.saveFailed hb hd e
  | lastError i e =>
    have hq : Quiet s (s.modify i (·.setLastError e)) := quiet_modify i fun _ => rfl
    exact hq.registry h
  | status i next challenge => exact (quiet_status i next challenge).registry h
  | timer challenge => exact (quiet_timer challenge).registry h
  | answered i answer =>
    exact (quiet_modify i fun r => (r.answerProbe_frame _ _).2.2.1).registry h
  | settled i => exact (quiet_modify i fun r => r.record_settleProbe).registry h
  | stop => exact quiet_stop.registry h

theorem registry_of_reaches {verifyReadiness : Text → Json → Bool}
    (hurl : ∀ url, parser.Accepts url → claimUrl url)
    (h : Machine.Reaches (step parser verifyReadiness) (Expected parser claimUrl) init s) :
    s.Registry parser claimUrl :=
  h.invariant registry_init fun _ _ _ ht he hs => ht.step hurl he hs

/-- **Registry invariant.** In every state that a run reaches, all snapshots handed to the record
store satisfy the schema, but for the URLs of claims, which are what the deployment API answered:
if these are URLs in all of the run, the snapshots satisfy the whole schema.  Until the lifecycle is
stopped, whenever no mutation runs memory holds what was last saved, no candidate is left and no
rejected one is among the connections. -/
theorem registry_invariant {verifyReadiness : Text → Json → Bool}
    (h : Machine.Reaches (step parser verifyReadiness) (Expected parser fun _ => True) init s) :
    (Machine.Reaches (step parser verifyReadiness) (Expected parser parser.Accepts) init s →
      ∀ snapshot ∈ s.handed, snapshot.Valid parser) ∧
    (∀ snapshot ∈ s.handed, snapshot.Fits parser fun _ => True) ∧
    (s.aborted = false → s.running = none →
      (∀ snapshot ∈ s.saved, s.Agrees snapshot) ∧ s.candidates = [] ∧
        ∀ i ∈ s.rejected, i ∉ s.connections.values) := by
  have hs := registry_of_reaches (fun _ _ => trivial) h
  refine ⟨fun h => (registry_of_reaches (fun _ => id) h).core.handed, hs.core.handed,
    fun ha hr => ⟨hs.core.agrees ha, ?_, ?_⟩⟩
  · have hb := hs.busy
    rw [hr] at hb
    exact hb
  · exact fun i hi => (hs.core.rejected i hi).2

section Deployment

/-- A relay is deployed with a claim at `claimUrl`: it answers, its tunnel connects and is probed,
and the snapshot is handed to the store. -/
def deployment (claimUrl : String) : List Event :=
  let body : Json := .obj [("service".toList, .str "bb-shared-relay".toList),
    ("version".toList, .num (.ofNat 1)), ("protocolVersion".toList, .num (.ofNat 1)),
    ("relayId".toList, .str "relay-1".toList)]
  [.start, .loaded (.ok ⟨none, []⟩), .issue .deployConnection, .begin,
    .initialized (List.replicate 32 0) 0,
    .deployed (.ok ("https://share.example".toList, some ⟨claimUrl.toList, none⟩)),
    .identified (.response true body) ['1'] 0 ⟨false, [], 0⟩, .status 0 .connected [],
    .answered 0 (.response 200 .null), .settled 0, .probed 0]

/-- A deployment whose claim has a URL is saved. -/
theorem registry_invariant_deployed :
    ∃ s, Machine.Reaches (step .shareExample fun _ _ => true)
        (Expected .shareExample UrlParser.shareExample.Accepts) init s ∧
      s.connections.keys = [['1']] ∧ s.running.isNone = true ∧ s.handed.length = 1 ∧
      ∀ snapshot ∈ s.handed, snapshot.Valid .shareExample := by
  have hrun : ((Machine.exec (step .shareExample fun _ _ => true)
      (Expected .shareExample UrlParser.shareExample.Accepts) init
      (deployment "https://share.example" ++ [.saved])).map fun s =>
        (s.connections.keys, s.running.isNone, s.handed.length)) = some ([['1']], true, 1) := by
    decide +kernel
  obtain ⟨s, hs, he⟩ := Option.map_eq_some_iff.mp hrun
  simp only [Prod.mk.injEq] at he
  have h := Machine.reaches_of_exec hs
  exact ⟨s, h, he.1, he.2.1, he.2.2, (registry_invariant (h.mono fun _ _ he =>
    he.mono fun _ _ => trivial)).1 h⟩

/-- A deployment may answer with a claim at no URL, and the store is handed it. -/
theorem not_handed_valid :
    ¬ ∀ s, Machine.Reaches (step .shareExample fun _ _ => true)
        (Expected .shareExample fun _ => True) init s →
      ∀ snapshot ∈ s.handed, snapshot.Valid .shareExample := by
  have hrun : ((Machine.exec (step .shareExample fun _ _ => true)
      (Expected .shareExample fun _ => True) init (deployment "claim")).map fun s =>
        decide (∀ snapshot ∈ s.handed, snapshot.Valid .shareExample)) = some false := by
    decide +kernel
  obtain ⟨s, hs, he⟩ := Option.map_eq_some_iff.mp hrun
  exact fun hall => of_decide_eq_false he (hall s (Machine.reaches_of_exec hs))

end Deployment

end WorkerLifecycle

end BbShared
