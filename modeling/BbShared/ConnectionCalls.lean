import BbShared.Registry

/-!
# What the owner's calls do to the connections

The connections as the owner knows them are a default and a list of records, and a call does one
thing to them, at once.  The lifecycle spreads a call over many steps, between which tunnels, probes
and other calls go on; what it makes of the registry is what its fulfilled calls make of it, one
after another in the order of their issue.

`CallLog` is kept beside the lifecycle: what was issued, what runs, and how each call was answered.
-/

namespace BbShared

open Js

/-! ## Calls on a snapshot -/

namespace ConnectionSnapshot

/-- The first connection is the default. -/
def add (r : ConnectionSnapshot) (record : ConnectionRecord) : ConnectionSnapshot :=
  ⟨some (r.defaultId.getD record.id), r.connections ++ [record]⟩

/-- When the default goes, the first of the others takes its place. -/
def remove (r : ConnectionSnapshot) (id : Text) : ConnectionSnapshot :=
  let next := r.connections.filter fun record => record.id ≠ id
  ⟨if r.defaultId = some id then next.head?.map (·.id) else r.defaultId, next⟩

end ConnectionSnapshot

section Makes

variable (parser : UrlParser) (claimUrl : Text → Prop)

/-- The relay that a call adds. -/
def Mutation.Adds (r : ConnectionSnapshot) (url secret : Text) (claim : Option Claim) :
    Mutation → Prop
  | .ensureDeployed => r.connections = []
  | .deployConnection => True
  | .registerConnection input tunnelSecret =>
    normalizeConnectionUrl parser.parse input = .ok url ∧ secret = tunnelSecret ∧ claim = none
  | _ => False

/-- What a call makes of the connections, where `claimUrl` holds of the URLs of claims. -/
inductive Makes : Mutation → ConnectionSnapshot → ConnectionSnapshot → Prop
  | kept {r : ConnectionSnapshot} (h : r.connections ≠ []) : Makes .ensureDeployed r r
  | added {m : Mutation} {r : ConnectionSnapshot} {record : ConnectionRecord}
      (h : m.Adds parser r record.url record.tunnelSecret record.claim)
      (valid : (r.add record).Fits parser claimUrl) : Makes m r (r.add record)
  | removed {r : ConnectionSnapshot} {id : Text} (h : id ∈ r.connections.map (·.id)) :
      Makes (.removeConnection id) r (r.remove id)
  | madeDefault {r : ConnectionSnapshot} {id : Text} (h : id ∈ r.connections.map (·.id)) :
      Makes (.setDefaultConnection id) r { r with defaultId := some id }

end Makes

namespace WorkerLifecycle

/-- The connections in memory. -/
def registry (s : WorkerLifecycle) : ConnectionSnapshot := ⟨s.defaultId, s.records⟩

variable {parser : UrlParser} {claimUrl : Text → Prop} {s t u : WorkerLifecycle} {m : Mutation}

theorem Quiet.registry_eq (h : Quiet s t) : t.registry = s.registry := by
  unfold WorkerLifecycle.registry
  rw [h.defaultId, h.records]

theorem records_eq_nil : s.records = [] ↔ s.connections.size = 0 := by
  unfold records OrderedMap.values OrderedMap.size
  rw [List.map_eq_nil_iff, List.map_eq_nil_iff, List.length_eq_zero_iff]

/-- A connection is found by the id of its record. -/
theorem Keyed.without_eq (h : s.Keyed) {id : Text} {i : ℕ} (hi : s.connections.get id = some i) :
    s.without i = s.records.filter fun record => record.id ≠ id := by
  have hid := OrderedMap.get_eq_some.mp hi
  unfold without records
  rw [List.filter_map]
  refine congrArg _ (List.filter_congr fun j hj => ?_)
  obtain ⟨e, he, rfl⟩ := List.mem_map.mp hj
  have hiff : e.2 = i ↔ (s.runtimes e.2).record.id = id := by
    rw [(h e he).1]
    constructor
    · rintro rfl
      exact (h e he).1.symm.trans (h _ hid).1
    · rintro rfl
      exact OrderedMap.value_unique he hid
  simp [hiff]

theorem Keyed.mem_ids (h : s.Keyed) {id : Text} {i : ℕ} (hi : s.connections.get id = some i) :
    id ∈ s.registry.connections.map (·.id) := by
  show id ∈ s.records.map (·.id)
  rw [h.ids]
  exact List.mem_map_of_mem (OrderedMap.get_eq_some.mp hi)

/-! ## A call that runs -/

variable (parser) in
/-- What a call has come to when it waits. -/
def Serves (s : WorkerLifecycle) (m : Mutation) : Phase → Prop
  | .initializing m' => m' = m
  | .deploying secret => ∀ url claim, m.Adds parser s.registry url secret claim
  | .identifying url secret claim => m.Adds parser s.registry url secret claim
  | .probing i | .sleeping i | .saving (.register i _) _ =>
    m.Adds parser s.registry (s.runtimes i).record.url (s.runtimes i).record.tunnelSecret
      (s.runtimes i).record.claim
  | .saving (.remove id _ defaultId) _ =>
    m = .removeConnection id ∧ defaultId = (s.registry.remove id).defaultId
  | .saving (.setDefault id) _ =>
    m = .setDefaultConnection id ∧ id ∈ s.registry.connections.map (·.id)

theorem Quiet.serves (h : Quiet s t) {p : Phase} (hs : s.Serves parser m p) :
    t.Serves parser m p := by
  unfold Serves at hs ⊢
  rw [h.registry_eq]
  split <;> simp only [h.record] at hs ⊢ <;> exact hs

/-- The calls that wait, and what they wait for, stay. -/
def Waits (s t : WorkerLifecycle) : Prop :=
  t.queue = s.queue ∧ t.initialization = s.initialization

variable (parser claimUrl) in
/-- What a step of the call that runs comes to. -/
inductive Goes (m : Mutation) (s t : WorkerLifecycle) : Prop
  | runs {p : Phase} (running : t.running = some p) (serves : t.Serves parser m p)
      (registry : t.registry = s.registry) (results : t.results = s.results) (waits : Waits s t)
  | fulfilled (running : t.running = none) (makes : Makes parser claimUrl m s.registry t.registry)
      (results : t.results = s.results ++ [.ok ()]) (waits : Waits s t)
  | rejected (e : Text) (running : t.running = none) (registry : t.registry = s.registry)
      (results : t.results = s.results ++ [.error e]) (waits : Waits s t)

/-- Steps before it that leave the registry and the calls alone. -/
theorem Goes.congr (h : Goes parser claimUrl m t u) (hregistry : t.registry = s.registry)
    (hresults : t.results = s.results) (hwaits : Waits s t) : Goes parser claimUrl m s u := by
  have hwaits' : Waits t u → Waits s u := fun h => ⟨h.1.trans hwaits.1, h.2.trans hwaits.2⟩
  cases h with
  | runs hr hs hg hres hw =>
    exact .runs hr hs (hg.trans hregistry) (hres.trans hresults) (hwaits' hw)
  | fulfilled hr hm hres hw => exact .fulfilled hr (hregistry ▸ hm) (hresults ▸ hres) (hwaits' hw)
  | rejected e hr hg hres hw =>
    exact .rejected e hr (hg.trans hregistry) (hresults ▸ hres) (hwaits' hw)

theorem goes_error (m : Mutation) (s : WorkerLifecycle) (e : Text) :
    Goes parser claimUrl m s (s.settle (.error e)) := .rejected e rfl rfl rfl ⟨rfl, rfl⟩

theorem goes_rejectCandidate (m : Mutation) (s : WorkerLifecycle) (i : ℕ) (message : Text) :
    Goes parser claimUrl m s (s.rejectCandidate i message) :=
  .rejected _ rfl (quiet_stopTunnel (s := s) i).registry_eq rfl ⟨rfl, rfl⟩

theorem goes_deploy (random : Bytes)
    (h : ∀ url secret claim, m.Adds parser s.registry url secret claim) :
    Goes parser claimUrl m s (s.deploy random) := by
  unfold deploy
  split_ifs
  · exact goes_error m s _
  · exact .runs rfl (fun url claim => h url _ claim) rfl rfl ⟨rfl, rfl⟩

theorem goes_register {input secret : Text} {claim : Option Claim}
    (h : ∀ url, normalizeConnectionUrl parser.parse input = .ok url →
      m.Adds parser s.registry url secret claim) :
    Goes parser claimUrl m s (s.register parser input secret claim) := by
  unfold register
  cases hn : normalizeConnectionUrl parser.parse input with
  | error e => exact goes_error m s e
  | ok url =>
    simp only
    split_ifs
    · exact goes_error m s _
    · exact goes_error m s _
    · exact goes_error m s _
    · exact .runs rfl (h url hn) rfl rfl ⟨rfl, rfl⟩

theorem goes_operation (hs : s.Keyed) (random : Bytes) (now : ℚ) (m : Mutation) :
    Goes parser claimUrl m s (s.operation parser random now m) := by
  cases m with
  | ensureDeployed =>
    unfold operation
    split_ifs with hsize
    · exact goes_deploy random fun _ _ _ => records_eq_nil.mpr hsize
    · exact .fulfilled rfl (.kept fun hnil => hsize (records_eq_nil.mp hnil)) rfl ⟨rfl, rfl⟩
  | deployConnection => exact goes_deploy random fun _ _ _ => trivial
  | registerConnection url secret => exact goes_register fun _ hn => ⟨hn, rfl, rfl⟩
  | removeConnection id =>
    unfold operation
    cases hg : s.connections.get id with
    | none =>
      simp only [hg]
      exact goes_error _ s _
    | some i =>
      simp only [hg]
      refine .runs rfl ⟨rfl, ?_⟩ rfl rfl ⟨rfl, rfl⟩
      have hwithout : (s.connections.values.filter (· ≠ i)).map (fun j => (s.runtimes j).record) =
          s.records.filter fun record => record.id ≠ id := hs.without_eq hg
      rw [hwithout]
      rfl
  | setDefaultConnection id =>
    unfold operation
    cases hg : s.connections.get id with
    | none =>
      simp only [hg]
      exact goes_error _ s _
    | some i =>
      simp only [hg]
      exact .runs rfl ⟨rfl, hs.mem_ids hg⟩ rfl rfl ⟨rfl, rfl⟩

theorem goes_operate (hs : s.Keyed) (m : Mutation) (random : Bytes) (now : ℚ)
    (hi : s.initialization = .done ∨ ∃ e, s.initialization = .failed e) :
    Goes parser claimUrl m s (s.operate parser m random now) := by
  unfold operate
  rcases hi with hd | ⟨e, he⟩
  · rw [hd]
    simp only
    split_ifs
    · exact goes_error m s _
    · exact goes_operation hs random now m
  · rw [he]
    exact goes_error m s e

section Candidate

variable {i : ℕ} (h : s.Serves parser m (.probing i))
include h

theorem goes_conclude (now : ℚ) : Goes parser claimUrl m s (s.conclude i now) := by
  unfold conclude
  simp only
  split_ifs
  · exact goes_rejectCandidate m s i _
  · exact .runs rfl h rfl rfl ⟨rfl, rfl⟩

theorem goes_poll (pass : Pass) : Goes parser claimUrl m s (s.poll i pass) := by
  unfold poll
  split_ifs
  · exact goes_conclude h _
  · have hq := quiet_probe (s := s) i pass.challenge
    exact .runs rfl (hq.serves h) hq.registry_eq rfl ⟨rfl, rfl⟩

theorem goes_probed (now : ℚ) : Goes parser claimUrl m s (s.probed i now) := by
  unfold probed
  simp only
  split_ifs
  · exact goes_conclude h _
  · exact goes_rejectCandidate m s i _
  · exact .runs rfl h rfl rfl ⟨rfl, rfl⟩

end Candidate

/-- The candidate is a new runtime. -/
theorem goes_identified (hs : s.Keyed) {url secret : Text} {claim : Option Claim}
    (h : s.Serves parser m (.identifying url secret claim)) (answer : IdentityAnswer) (uuid : Text)
    (createdAt : ℚ) (pass : Pass) :
    Goes parser claimUrl m s (s.identified url secret claim answer uuid createdAt pass) := by
  unfold identified
  cases identity answer with
  | error e => exact goes_error m s e
  | ok relayId =>
    simp only
    split_ifs
    · exact goes_error m s _
    · let record : ConnectionRecord := ⟨uuid, relayId, url, secret, claim, createdAt⟩
      let s' : WorkerLifecycle :=
        { s.allocate record with candidates := (s.allocate record).candidates ++ [s.created] }
      have hself : (s'.runtimes s.created).record = record := by simp [s', allocate, Runtime.init]
      have hrecords : s'.records = s.records :=
        List.map_congr_left fun i hi => record_allocate record (hs.lt hi)
      have hregistry : s'.registry = s.registry := by
        unfold registry
        rw [hrecords]
        rfl
      have hq : Quiet s' (s'.connect s.created) := quiet_connect _
      have hserves : (s'.connect s.created).Serves parser m (.probing s.created) := by
        refine hq.serves ?_
        show m.Adds parser s'.registry _ _ _
        rw [hself, hregistry]
        exact h
      have hkept : (s'.connect s.created).results = s.results ∧ Waits s (s'.connect s.created) := by
        unfold connect
        split_ifs <;> exact ⟨rfl, rfl, rfl⟩
      exact (goes_poll hserves pass).congr (hq.registry_eq.trans hregistry) hkept.1 hkept.2

theorem goes_saveFailed (m : Mutation) (s : WorkerLifecycle) (write : Write) (e : Text) :
    Goes parser claimUrl m s (s.saveFailed write e) := by
  cases write with
  | register i _ => exact goes_rejectCandidate m s i e
  | remove id i d => exact goes_error m s e
  | setDefault id => exact goes_error m s e

/-- Memory changes in one step, and then the call is fulfilled. -/
theorem goes_afterSave (hs : s.Core parser claimUrl) {write : Write} {snapshot : ConnectionSnapshot}
    (hb : s.Busy parser claimUrl (some (.saving write snapshot)))
    (h : s.Serves parser m (.saving write snapshot)) :
    Goes parser claimUrl m s (s.afterSave write snapshot) := by
  cases write with
  | register i d =>
    obtain ⟨hi, hd, -⟩ := hb
    unfold afterSave
    simp only
    split_ifs
    · exact (goes_rejectCandidate m { s with saved := some snapshot } i _).congr rfl rfl ⟨rfl, rfl⟩
    · have hvalues := values_set_of_not_mem hi.id i
      let s' : WorkerLifecycle := { s with
        saved := some snapshot
        connections := s.connections.set (s.runtimes i).record.id i
        defaultId := some d
        candidates := s.candidates.erase i }
      have hadd : s'.registry = s.registry.add (s.runtimes i).record := by
        show (⟨some d, (s.connections.set _ i).values.map _⟩ : ConnectionSnapshot) = _
        rw [hvalues, List.map_append, hd]
        rfl
      refine .fulfilled rfl ?_ rfl ⟨rfl, rfl⟩
      show Makes parser claimUrl m s.registry s'.registry
      rw [hadd]
      exact .added h hi.valid
  | remove id i d =>
    obtain ⟨-, hg, -, -⟩ := hb
    obtain ⟨rfl, rfl⟩ := h
    let s' : WorkerLifecycle := { s with
      saved := some snapshot
      connections := s.connections.erase id
      defaultId := (s.registry.remove id).defaultId }
    have hrecords : s'.records = s.records.filter fun record => record.id ≠ id := by
      show (s.connections.erase id).values.map _ = _
      rw [hs.keyed.filter_values hg]
      exact hs.keyed.without_eq hg
    have hq : Quiet s' (s'.stopTunnel i) := quiet_stopTunnel i
    have hremove : (s'.stopTunnel i).registry = s.registry.remove id := by
      rw [hq.registry_eq]
      unfold registry
      rw [hrecords]
      rfl
    refine .fulfilled rfl ?_ rfl ⟨rfl, rfl⟩
    show Makes parser claimUrl _ s.registry (s'.stopTunnel i).registry
    rw [hremove]
    exact .removed (hs.keyed.mem_ids hg)
  | setDefault id =>
    obtain ⟨rfl, hid⟩ := h
    exact .fulfilled rfl (.madeDefault hid) rfl ⟨rfl, rfl⟩

/-! ## The log -/

structure CallLog where
  issued : List Mutation
  /-- The call that runs. -/
  current : Option Mutation
  settled : List (Mutation × Except Text Unit)
  /-- What the record store loaded. -/
  loaded : Option ConnectionSnapshot

namespace CallLog

def empty : CallLog := ⟨[], none, [], none⟩

/-- The new results are those of the call that runs. -/
def settle (s t : WorkerLifecycle) (log : CallLog) : CallLog :=
  { log with
    current := if t.running.isSome then log.current else none
    settled := log.settled ++ log.current.toList.zip (t.results.drop s.results.length) }

def note (s : WorkerLifecycle) (e : Event) (t : WorkerLifecycle) (log : CallLog) : CallLog :=
  match e with
  | .issue m => { log with issued := log.issued ++ [m] }
  | .begin => { log with current := s.queue.head? }
  | .loaded (.ok snapshot) => { log with loaded := some snapshot }
  | _ => log.settle s t

/-- The connections that the record store loaded. -/
def base (log : CallLog) : ConnectionSnapshot := log.loaded.getD ⟨none, []⟩

/-- The calls that were fulfilled. -/
def fulfilled (log : CallLog) : List Mutation :=
  (log.settled.filter fun p => p.2.toBool).map Prod.fst

end CallLog

variable (parser claimUrl) in
/-- The calls are answered one by one, and the fulfilled ones make the connections. -/
structure Tracked (s : WorkerLifecycle) (log : CallLog) : Prop where
  order : log.issued = log.settled.map Prod.fst ++ (log.current.toList ++ s.queue)
  results : log.settled.map Prod.snd = s.results
  idle : s.running = none → log.current = none
  serves : ∀ p, s.running = some p → ∃ m, log.current = some m ∧ s.Serves parser m p
  performed : Machine.Performed (Makes parser claimUrl) log.base log.fulfilled s.registry
  unloaded : s.initialization = .absent ∨ s.initialization = .loading →
    log.settled = [] ∧ log.loaded = none

variable {log : CallLog} {verifyReadiness : Text → Json → Bool} {e : Event}

theorem tracked_init : init.Tracked parser claimUrl .empty where
  order := rfl
  results := rfl
  idle _ := rfl
  serves _ h := by cases h
  performed := .nil _
  unloaded _ := ⟨rfl, rfl⟩

namespace Tracked

/-- In a step without results the log stays. -/
theorem settle_eq (h : s.Tracked parser claimUrl log) (hresults : t.results = s.results)
    (hrunning : t.running = s.running) : log.settle s t = log := by
  have hcurrent : (if t.running.isSome then log.current else none) = log.current := by
    rw [hrunning]
    cases hr : s.running with
    | none => exact (h.idle hr).symm
    | some p => rfl
  unfold CallLog.settle
  rw [hcurrent, hresults, List.drop_length, List.zip_nil_right, List.append_nil]

/-- Steps that leave the registry and the calls alone. -/
theorem quiet (h : s.Tracked parser claimUrl log) (hq : Quiet s t)
    (hresults : t.results = s.results) (hqueue : t.queue = s.queue) :
    t.Tracked parser claimUrl (log.settle s t) := by
  rw [h.settle_eq hresults hq.running]
  refine ⟨hqueue ▸ h.order, hresults ▸ h.results, fun hr => h.idle (hq.running ▸ hr),
    fun p hp => ?_, hq.registry_eq ▸ h.performed, fun hi => h.unloaded (hq.initialization ▸ hi)⟩
  obtain ⟨m, hm, hs⟩ := h.serves p (hq.running ▸ hp)
  exact ⟨m, hm, hq.serves hs⟩

/-- The call that runs takes a step. -/
theorem goes (h : s.Tracked parser claimUrl log) {p : Phase} (hp : s.running = some p)
    (hdone : ¬ (s.initialization = .absent ∨ s.initialization = .loading))
    (hg : ∀ m, s.Serves parser m p → Goes parser claimUrl m s t) :
    t.Tracked parser claimUrl (log.settle s t) := by
  obtain ⟨m, hm, hs⟩ := h.serves p hp
  unfold CallLog.settle
  rw [hm, Option.toList_some]
  -- a call that is answered leaves the log with its result
  have answered : ∀ {result : Except Text Unit}, t.running = none →
      t.results = s.results ++ [result] → Waits s t →
      Machine.Performed (Makes parser claimUrl) log.base
        (log.fulfilled ++ if result.toBool then [m] else []) t.registry →
      t.Tracked parser claimUrl
        { log with
          current := if t.running.isSome then some m else none
          settled := log.settled ++ [m].zip (t.results.drop s.results.length) } := by
    intro result hr hresults hw hperformed
    rw [hr, hresults, List.drop_left]
    refine ⟨?_, ?_, fun _ => rfl, (fun p hp => by rw [hr] at hp; cases hp), ?_, fun hi => ?_⟩
    · show log.issued = (log.settled ++ [(m, result)]).map Prod.fst ++ ([] ++ t.queue)
      rw [h.order, hm, hw.1, List.map_append, List.append_assoc]
      rfl
    · show (log.settled ++ [(m, result)]).map Prod.snd = t.results
      rw [List.map_append, h.results, hresults]
      rfl
    · have hfulfilled : CallLog.fulfilled ⟨log.issued, none, log.settled ++ [(m, result)],
          log.loaded⟩ = log.fulfilled ++ if result.toBool then [m] else [] := by
        unfold CallLog.fulfilled
        rw [List.filter_append, List.map_append]
        congr 1
        cases hb : result.toBool <;> simp [hb]
      exact hfulfilled ▸ hperformed
    · exact absurd (hw.2 ▸ hi) hdone
  cases hg m hs with
  | @runs p' hr hserves hregistry hresults hw =>
    have hlog : ({ log with
        current := if t.running.isSome then some m else none
        settled := log.settled ++ [m].zip (t.results.drop s.results.length) } : CallLog) = log := by
      rw [hr, hresults, List.drop_length, List.zip_nil_right, List.append_nil]
      show ({ log with current := some m } : CallLog) = log
      rw [← hm]
    rw [hlog]
    exact ⟨hw.1 ▸ h.order, hresults ▸ h.results, (fun hn => by rw [hr] at hn; cases hn),
      fun p hp => ⟨m, hm, Option.some.inj (hr.symm.trans hp) ▸ hserves⟩, hregistry ▸ h.performed,
      fun hi => absurd (hw.2 ▸ hi) hdone⟩
  | fulfilled hr hmakes hresults hw =>
    exact answered hr hresults hw (.concat h.performed hmakes)
  | rejected e hr hregistry hresults hw =>
    refine answered hr hresults hw ?_
    show Machine.Performed _ _ (log.fulfilled ++ []) _
    rw [List.append_nil, hregistry]
    exact h.performed

theorem startLoading (h : s.Tracked parser claimUrl log) :
    s.startLoading.Tracked parser claimUrl log := by
  unfold WorkerLifecycle.startLoading
  cases hi : s.initialization with
  | absent =>
    exact ⟨h.order, h.results, h.idle, h.serves, h.performed, fun _ => h.unloaded (.inl hi)⟩
  | _ => exact h

theorem foldl_restore_calls (l : List ConnectionRecord) (s : WorkerLifecycle) :
    (l.foldl restore s).queue = s.queue ∧ (l.foldl restore s).results = s.results := by
  induction l generalizing s with
  | nil => exact ⟨rfl, rfl⟩
  | cons record l ih =>
    have hrestore : (s.restore record).queue = s.queue ∧
        (s.restore record).results = s.results := by
      unfold restore connect
      split_ifs <;> exact ⟨rfl, rfl⟩
    exact ⟨(ih _).1.trans hrestore.1, (ih _).2.trans hrestore.2⟩

/-- What was loaded is what the calls start with. -/
theorem loaded (h : s.Tracked parser claimUrl log) (hs : s.Registry parser claimUrl)
    (hi : s.initialization = .loading) {snapshot : ConnectionSnapshot}
    (hv : snapshot.Valid parser) :
    (s.loaded (.ok snapshot)).Tracked parser claimUrl { log with loaded := some snapshot } := by
  obtain ⟨hempty, -, -⟩ := hs.core.empty (.inr hi)
  obtain ⟨-, hrecords, hdefault, hrunning, -⟩ := foldl_restore snapshot.connections
    (s := { s with defaultId := snapshot.defaultId }) hs.core.keyed (by
      show (s.connections.keys ++ _).Nodup
      rw [hempty]
      exact hv.ids)
  have hcalls := foldl_restore_calls snapshot.connections
    { s with defaultId := snapshot.defaultId }
  have hregistry : (s.loaded (.ok snapshot)).registry = snapshot := by
    have hnil : WorkerLifecycle.records { s with defaultId := snapshot.defaultId } = [] := by
      show s.connections.values.map _ = _
      rw [hempty]
      rfl
    rw [hnil, List.nil_append] at hrecords
    exact congrArg₂ ConnectionSnapshot.mk hdefault hrecords
  have hsettled := (h.unloaded (.inr hi)).1
  refine ⟨?_, ?_, fun hr => h.idle (hrunning.symm.trans hr), fun p hp => ?_, ?_, ?_⟩
  · refine h.order.trans ?_
    exact congrArg (fun queue => log.settled.map Prod.fst ++ (log.current.toList ++ queue))
      hcalls.1.symm
  · exact h.results.trans hcalls.2.symm
  · obtain ⟨m, hm, hserves⟩ := h.serves p (hrunning.symm.trans hp)
    refine ⟨m, hm, ?_⟩
    have hdone := hs.settled
    rw [hrunning.symm.trans hp] at hdone
    cases p with
    | initializing m' => exact hserves
    | _ => cases hi.symm.trans hdone
  · have hnone : CallLog.fulfilled { log with loaded := some snapshot } = [] := by
      unfold CallLog.fulfilled
      rw [show ({ log with loaded := some snapshot } : CallLog).settled = [] from hsettled]
      rfl
    rw [hnone, hregistry]
    exact .nil snapshot
  · rintro (hi | hi) <;> cases hi

/-- **Step lemma.** -/
theorem step (h : s.Tracked parser claimUrl log) (hs : s.Registry parser claimUrl)
    (he : s.Expected parser claimUrl e) (ht : s.step parser verifyReadiness e = some t) :
    t.Tracked parser claimUrl (log.note s e t) := by
  have hb := hs.busy
  have hd := hs.settled
  -- past the initialisation
  have hdone : s.initialization = .done →
      ¬ (s.initialization = .absent ∨ s.initialization = .loading) := by
    rintro hi (h | h) <;> cases hi.symm.trans h
  cases steps_of_step ht with
  | start =>
    have hkept : s.startLoading.results = s.results ∧ s.startLoading.running = s.running := by
      unfold WorkerLifecycle.startLoading
      split <;> exact ⟨rfl, rfl⟩
    show s.startLoading.Tracked parser claimUrl (log.settle s s.startLoading)
    rw [h.settle_eq hkept.1 hkept.2]
    exact h.startLoading
  | issue m =>
    refine ⟨?_, h.results, h.idle, h.serves, h.performed, h.unloaded⟩
    show log.issued ++ [m] = log.settled.map Prod.fst ++ (log.current.toList ++ (s.queue ++ [m]))
    rw [h.order, List.append_assoc, List.append_assoc]
  | begin m queue hr hq =>
    have h' := h.startLoading
    have hcurrent : log.current = none := h.idle hr
    have hkept : s.startLoading.queue = s.queue := by
      unfold WorkerLifecycle.startLoading
      split <;> rfl
    refine ⟨?_, h'.results, nofun, fun p hp => ?_, h'.performed, h'.unloaded⟩
    · show log.issued = log.settled.map Prod.fst ++ (s.queue.head?.toList ++ queue)
      rw [h'.order, hcurrent, hkept, hq]
      rfl
    · obtain rfl := Option.some.inj hp
      exact ⟨m, by show s.queue.head? = _; rw [hq]; rfl, rfl⟩
  | loaded result hi =>
    cases result with
    | error message =>
      show (s.loaded (.error message)).Tracked parser claimUrl (log.settle s _)
      rw [h.settle_eq (t := s.loaded (.error message)) rfl rfl]
      refine ⟨h.order, h.results, h.idle, h.serves, h.performed, ?_⟩
      rintro (hi | hi) <;> cases hi
    | ok snapshot => exact h.loaded hs hi he
  | initialized m random now hr hi =>
    refine h.goes hr ?_ fun m' hm' => ?_
    · rintro (h | h) <;> rcases hi with hi | ⟨_, hi⟩ <;> cases hi.symm.trans h
    · obtain rfl : m = m' := hm'
      exact goes_operate hs.core.keyed m random now hi
  | deployFailed secret message hr =>
    rw [hr] at hd
    exact h.goes hr (hdone hd) fun m _ => goes_error m s message
  | deployed secret url claim hr =>
    rw [hr] at hd
    exact h.goes hr (hdone hd) fun m hm => goes_register fun url' _ => hm url' claim
  | identified url secret claim answer uuid createdAt pass hr =>
    rw [hr] at hd
    exact h.goes hr (hdone hd) fun m hm =>
      goes_identified hs.core.keyed hm answer uuid createdAt pass
  | probed i now hr _ =>
    rw [hr] at hd
    exact h.goes hr (hdone hd) fun m hm => goes_probed hm now
  | slept i pass hr =>
    rw [hr] at hd
    exact h.goes hr (hdone hd) fun m hm => goes_poll hm pass
  | saved write snapshot hr _ =>
    rw [hr] at hb hd
    exact h.goes hr (hdone hd) fun m hm => goes_afterSave hs.core hb hm
  | saveFailed write snapshot message hr =>
    rw [hr] at hd
    exact h.goes hr (hdone hd) fun m _ => goes_saveFailed m s write message
  | lastError i error =>
    exact h.quiet (quiet_modify i fun _ => rfl) rfl rfl
  | status i next challenge =>
    have hkept : (s.status i next challenge).results = s.results ∧
        (s.status i next challenge).queue = s.queue := by
      unfold WorkerLifecycle.status
      simp only
      split_ifs <;> exact ⟨rfl, rfl⟩
    exact h.quiet (quiet_status i next challenge) hkept.1 hkept.2
  | timer challenge => exact h.quiet (quiet_timer challenge) rfl rfl
  | answered i answer =>
    exact h.quiet (quiet_modify i fun r => (r.answerProbe_frame _ _).2.2.1) rfl rfl
  | settled i => exact h.quiet (quiet_modify i fun r => r.record_settleProbe) rfl rfl
  | stop =>
    have hkept : s.stop.results = s.results ∧ s.stop.queue = s.queue := by
      unfold WorkerLifecycle.stop
      split_ifs <;> exact ⟨rfl, rfl⟩
    exact h.quiet quiet_stop hkept.1 hkept.2

end Tracked

/-! ## No call waits forever -/

variable (parser) in
/-- The outside answers, and the owner waits. -/
def Answering (s : WorkerLifecycle) (e : Event) : Prop :=
  s.Expected parser parser.Accepts e ∧ e ≠ .stop ∧ ∀ m, e ≠ .issue m

variable (parser verifyReadiness) in
/-- A run from `s` answers the call that runs, and leaves the others in the queue. -/
def Finishes (s : WorkerLifecycle) : Prop :=
  ∃ t, Machine.Reaches (step parser verifyReadiness) (Answering parser) s t ∧
    t.running = none ∧ t.queue = s.queue

theorem finishes_of_step (hs : s.step parser verifyReadiness e = some t)
    (hok : s.Answering parser e) (hqueue : t.queue = s.queue)
    (h : t.Finishes parser verifyReadiness) : s.Finishes parser verifyReadiness := by
  obtain ⟨u, hu, hr, hq⟩ := h
  exact ⟨u, (Machine.Reaches.refl.next e hok hs).trans hu, hr, hq.trans hqueue⟩

theorem finishes_idle (h : s.running = none) : s.Finishes parser verifyReadiness :=
  ⟨s, .refl, h, rfl⟩

/-- The store refuses. -/
theorem finishes_saving {write : Write} {snapshot : ConnectionSnapshot}
    (h : s.running = some (.saving write snapshot)) : s.Finishes parser verifyReadiness := by
  have hs : s.step parser verifyReadiness (.saveFailed []) = some (s.saveFailed write []) := by
    unfold step
    rw [h]
  have hend : (s.saveFailed write []).running = none ∧ (s.saveFailed write []).queue = s.queue := by
    cases write <;> exact ⟨rfl, rfl⟩
  exact finishes_of_step hs ⟨trivial, nofun, nofun⟩ hend.2 (finishes_idle hend.1)

/-- The deployment fails. -/
theorem finishes_deploying {secret : Text} (h : s.running = some (.deploying secret)) :
    s.Finishes parser verifyReadiness := by
  have hs : s.step parser verifyReadiness (.deployed (.error [])) =
      some (s.settle (.error [])) := by
    unfold step
    rw [h]
  exact finishes_of_step hs ⟨trivial, nofun, nofun⟩ rfl (finishes_idle rfl)

/-- The relay does not answer. -/
theorem finishes_identifying {url secret : Text} {claim : Option Claim}
    (h : s.running = some (.identifying url secret claim)) :
    s.Finishes parser verifyReadiness := by
  obtain ⟨uuid, huuid⟩ := Infinite.exists_notMem_finset (([] :: s.connections.keys).toFinset)
  rw [List.mem_toFinset, List.mem_cons, not_or] at huuid
  have hs : s.step parser verifyReadiness (.identified (.failed []) uuid 0 ⟨true, [], 0⟩) =
      some (s.settle (.error [])) := by
    unfold step
    rw [h]
    rfl
  exact finishes_of_step hs ⟨huuid, nofun, nofun⟩ rfl (finishes_idle rfl)

/-- A candidate is given up, or its connection is saved. -/
theorem finishes_conclude (i : ℕ) (now : ℚ) :
    (s.conclude i now).Finishes parser verifyReadiness ∧ (s.conclude i now).queue = s.queue := by
  unfold conclude
  simp only
  split_ifs
  · exact ⟨finishes_idle rfl, rfl⟩
  · exact ⟨finishes_saving rfl, rfl⟩

/-- The time of the polling loop is up. -/
theorem finishes_sleeping {i : ℕ} (h : s.running = some (.sleeping i)) :
    s.Finishes parser verifyReadiness := by
  have hs : s.step parser verifyReadiness (.slept ⟨true, [], 0⟩) = some (s.conclude i 0) := by
    unfold step
    rw [h]
    exact congrArg some (if_pos (.inl rfl))
  have hend : (s.conclude i 0).Finishes parser verifyReadiness ∧ (s.conclude i 0).queue = s.queue :=
    finishes_conclude i 0
  exact finishes_of_step hs ⟨trivial, nofun, nofun⟩ hend.2 hend.1

/-- The probe has settled. -/
theorem finishes_probed {i : ℕ} (h : s.running = some (.probing i))
    (hp : (s.runtimes i).probe = none) : s.Finishes parser verifyReadiness := by
  have hs : s.step parser verifyReadiness (.probed 0) = some (s.probed i 0) := by
    unfold step
    rw [h]
    exact if_pos (Option.isNone_iff_eq_none.mpr hp)
  have hend : (s.probed i 0).Finishes parser verifyReadiness ∧
      (s.probed i 0).queue = s.queue := by
    unfold probed
    simp only
    split_ifs
    · exact finishes_conclude i 0
    · exact ⟨finishes_idle rfl, rfl⟩
    · exact ⟨finishes_sleeping rfl, rfl⟩
  exact finishes_of_step hs ⟨trivial, nofun, nofun⟩ hend.2 hend.1

/-- The probe fails and settles. -/
theorem finishes_probing {i : ℕ} (h : s.running = some (.probing i)) :
    s.Finishes parser verifyReadiness := by
  have hanswered : s.step parser verifyReadiness (.answered i (.failed none)) =
      some (s.modify i (·.answerProbe verifyReadiness s.aborted (.failed none))) := by
    unfold step
    rw [h]
  refine finishes_of_step hanswered ⟨trivial, nofun, nofun⟩ rfl ?_
  generalize hr : s.modify i (·.answerProbe verifyReadiness s.aborted (.failed none)) = t
  have hrunning : t.running = some (.probing i) := hr ▸ h
  have hsettled : t.step parser verifyReadiness (.settled i) =
      some (t.modify i (·.settleProbe)) := by
    unfold step
    rw [hrunning]
  refine finishes_of_step hsettled ⟨trivial, nofun, nofun⟩ rfl (finishes_probed hrunning ?_)
  subst hr
  unfold modify
  simp only [if_true]
  exact Runtime.settleProbe_answerProbe _ _

theorem finishes_deploy (random : Bytes) :
    (s.deploy random).Finishes parser verifyReadiness ∧ (s.deploy random).queue = s.queue := by
  unfold deploy
  split_ifs
  · exact ⟨finishes_idle rfl, rfl⟩
  · exact ⟨finishes_deploying rfl, rfl⟩

theorem finishes_register (input secret : Text) (claim : Option Claim) :
    (s.register parser input secret claim).Finishes parser verifyReadiness ∧
      (s.register parser input secret claim).queue = s.queue := by
  unfold register
  cases normalizeConnectionUrl parser.parse input with
  | error e => exact ⟨finishes_idle rfl, rfl⟩
  | ok url =>
    simp only
    split_ifs
    · exact ⟨finishes_idle rfl, rfl⟩
    · exact ⟨finishes_idle rfl, rfl⟩
    · exact ⟨finishes_idle rfl, rfl⟩
    · exact ⟨finishes_identifying rfl, rfl⟩

theorem finishes_operation (m : Mutation) (random : Bytes) (now : ℚ) :
    (s.operation parser random now m).Finishes parser verifyReadiness ∧
      (s.operation parser random now m).queue = s.queue := by
  unfold operation
  cases m with
  | ensureDeployed =>
    simp only
    split_ifs
    · exact finishes_deploy random
    · exact ⟨finishes_idle rfl, rfl⟩
  | deployConnection => exact finishes_deploy random
  | registerConnection url secret => exact finishes_register url secret none
  | removeConnection id =>
    cases hg : s.connections.get id with
    | none =>
      simp only [hg]
      exact ⟨finishes_idle rfl, rfl⟩
    | some i =>
      simp only [hg]
      exact ⟨finishes_saving rfl, rfl⟩
  | setDefaultConnection id =>
    cases hg : s.connections.get id with
    | none =>
      simp only [hg]
      exact ⟨finishes_idle rfl, rfl⟩
    | some i =>
      simp only [hg]
      exact ⟨finishes_saving rfl, rfl⟩

/-- A call that has begun, in a lifecycle that is initialised. -/
theorem finishes_initializing {m : Mutation} (h : s.running = some (.initializing m))
    (hi : s.initialization = .done ∨ ∃ e, s.initialization = .failed e) :
    s.Finishes parser verifyReadiness := by
  have hs : s.step parser verifyReadiness (.initialized [] 0) = some (s.operate parser m [] 0) := by
    unfold step
    rcases hi with hi | ⟨e, hi⟩ <;> rw [h, hi]
  have hend : (s.operate parser m [] 0).Finishes parser verifyReadiness ∧
      (s.operate parser m [] 0).queue = s.queue := by
    unfold operate
    rcases hi with hi | ⟨e, hi⟩
    · rw [hi]
      simp only
      split_ifs
      · exact ⟨finishes_idle rfl, rfl⟩
      · exact finishes_operation m [] 0
    · rw [hi]
      exact ⟨finishes_idle rfl, rfl⟩
  exact finishes_of_step hs ⟨trivial, nofun, nofun⟩ hend.2 hend.1

theorem finishes (s : WorkerLifecycle) : s.Finishes parser verifyReadiness := by
  cases hr : s.running with
  | none => exact finishes_idle hr
  | some p =>
    cases p with
    | initializing m =>
      have loading : ∀ {s : WorkerLifecycle}, s.running = some (.initializing m) →
          s.initialization = .loading → s.Finishes parser verifyReadiness := by
        intro s hr hi
        have hs : s.step parser verifyReadiness (.loaded (.error [])) =
            some (s.loaded (.error [])) := by
          unfold step
          rw [hi]
        exact finishes_of_step hs ⟨trivial, nofun, nofun⟩ rfl
          (finishes_initializing hr (.inr ⟨[], rfl⟩))
      cases hi : s.initialization with
      | absent =>
        have hs : s.step parser verifyReadiness .start =
            some { s with initialization := .loading } := by
          unfold step startLoading
          rw [hi]
        exact finishes_of_step hs ⟨trivial, nofun, nofun⟩ rfl (loading hr rfl)
      | loading => exact loading hr hi
      | done => exact finishes_initializing hr (.inl hi)
      | failed e => exact finishes_initializing hr (.inr ⟨e, hi⟩)
    | deploying secret => exact finishes_deploying hr
    | identifying url secret claim => exact finishes_identifying hr
    | probing i => exact finishes_probing hr
    | sleeping i => exact finishes_sleeping hr
    | saving write snapshot => exact finishes_saving hr

/-- A run answers the calls one after another. -/
theorem reaches_answered (s : WorkerLifecycle) :
    ∃ t, Machine.Reaches (step parser verifyReadiness) (Answering parser) s t ∧
      t.running = none ∧ t.queue = [] := by
  obtain ⟨t, ht, hr, hqueue⟩ : s.Finishes parser verifyReadiness := finishes s
  generalize hl : s.queue = queue at hqueue
  clear hl
  induction queue generalizing t with
  | nil => exact ⟨t, ht, hr, hqueue⟩
  | cons m queue ih =>
    have hbegin : t.step parser verifyReadiness .begin =
        some { t.startLoading with queue := queue, running := some (.initializing m) } := by
      unfold step
      rw [hr]
      simp only
      rw [hqueue]
    obtain ⟨u, hu, hru, hqu⟩ : Finishes parser verifyReadiness
      { t.startLoading with queue := queue, running := some (.initializing m) } := finishes _
    exact ih u ((ht.next .begin ⟨trivial, nofun, nofun⟩ hbegin).trans hu) hru hqu

/-! ## Runs -/

/-- **The calls are one after another.** Every call is answered once, in the order of their issue,
and whatever tunnels, probes and other calls do meanwhile, the connections are what the fulfilled
calls make of those that were loaded; until the lifecycle is stopped the record holds them too.  No
call waits forever: from every state a run answers them all.  What the claim URLs of all the
deployments meet, those of the connections meet. -/
theorem calls_linearized (hurl : ∀ url, parser.Accepts url → claimUrl url)
    {p : WorkerLifecycle × CallLog}
    (h : Machine.Reaches (Machine.observed (step parser verifyReadiness) CallLog.note)
      (fun p e => p.1.Expected parser claimUrl e) (init, .empty) p) :
    p.2.issued = p.2.settled.map Prod.fst ++ (p.2.current.toList ++ p.1.queue) ∧
    p.2.settled.map Prod.snd = p.1.results ∧
    Machine.Performed (Makes parser claimUrl) p.2.base p.2.fulfilled p.1.registry ∧
    (p.1.aborted = false → ∀ snapshot ∈ p.1.saved, p.1.Agrees snapshot) ∧
    ∃ t, Machine.Reaches (step parser verifyReadiness) (Answering parser) p.1 t ∧
      t.running = none ∧ t.queue = [] := by
  have hinv : p.1.Registry parser claimUrl ∧ p.1.Tracked parser claimUrl p.2 := by
    refine h.invariant
      (I := fun p => p.1.Registry parser claimUrl ∧ p.1.Tracked parser claimUrl p.2)
      ⟨registry_init, tracked_init⟩ fun p e q ⟨hs, hl⟩ he hq => ?_
    obtain ⟨ht, hlog⟩ := Machine.observed_eq_some.mp hq
    exact ⟨hs.step hurl he ht, hlog ▸ hl.step hs he ht⟩
  obtain ⟨hs, hl⟩ := hinv
  exact ⟨hl.order, hl.results, hl.performed, hs.core.agrees, reaches_answered p.1⟩

/-- A hostname is registered, and a connection that does not exist is removed. -/
theorem calls_linearized_registered :
    ∃ p, Machine.Reaches (Machine.observed (step .shareExample fun _ _ => true) CallLog.note)
        (fun p e => p.1.Expected .shareExample (fun _ => True) e) (init, .empty) p ∧
      p.2.issued.length = 2 ∧ p.2.fulfilled.length = 1 ∧ p.1.connections.keys = [['1']] ∧
      Machine.Performed (Makes .shareExample fun _ => True) p.2.base p.2.fulfilled
        p.1.registry := by
  let body : Json := .obj [("service".toList, .str "bb-shared-relay".toList),
    ("version".toList, .num (.ofNat 1)), ("protocolVersion".toList, .num (.ofNat 1)),
    ("relayId".toList, .str "relay-1".toList)]
  let events : List Event := [.start, .loaded (.ok ⟨none, []⟩),
    .issue (.registerConnection "https://share.example".toList (List.replicate 43 'a')),
    .issue (.removeConnection ['2']), .begin, .initialized [] 0,
    .identified (.response true body) ['1'] 0 ⟨false, [], 0⟩, .status 0 .connected [],
    .answered 0 (.response 200 .null), .settled 0, .probed 0, .saved, .begin, .initialized [] 0]
  have hrun : ((Machine.exec
      (Machine.observed (step .shareExample fun _ _ => true) CallLog.note)
      (fun p e => p.1.Expected .shareExample (fun _ => True) e) (init, .empty) events).map fun p =>
        (p.2.issued.length, p.2.fulfilled.length, p.1.connections.keys)) =
      some (2, 1, [['1']]) := by
    decide +kernel
  obtain ⟨p, hp, he⟩ := Option.map_eq_some_iff.mp hrun
  have h := Machine.reaches_of_exec hp
  simp only [Prod.mk.injEq] at he
  exact ⟨p, h, he.1, he.2.1, he.2.2, (calls_linearized (fun _ _ => trivial) h).2.2.1⟩

end WorkerLifecycle

end BbShared
