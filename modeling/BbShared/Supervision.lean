import BbShared.TunnelCalls

/-!
# The tunnels of the connections

The lifecycle with the tunnels that it starts and stops.  A tunnel that nobody stops dials for ever,
and the relay closes the tunnel that it has when another one dials: so a tunnel that is not stopped
has to belong to a connection or to the candidate of a registration, and no two may dial one relay.
-/

namespace BbShared

open Js

namespace WorkerLifecycle

variable {parser : UrlParser} {claimUrl : Text → Prop} {s : WorkerLifecycle}

/-! ## Two tunnels -/

/-- The connections and the candidate together satisfy the schema. -/
theorem Registry.owners (h : s.Registry parser claimUrl) :
    ∃ d, ConnectionSnapshot.Fits parser claimUrl
      ⟨d, (s.connections.values ++ s.candidates).map fun i => (s.runtimes i).record⟩ := by
  have hnone : s.candidates = [] → ∃ d, ConnectionSnapshot.Fits parser claimUrl
      ⟨d, (s.connections.values ++ s.candidates).map fun i => (s.runtimes i).record⟩ := by
    intro hc
    rw [hc, List.append_nil]
    exact ⟨_, h.core.valid⟩
  have hsome : ∀ i, s.Candidate parser claimUrl i → ∃ d, ConnectionSnapshot.Fits parser claimUrl
      ⟨d, (s.connections.values ++ s.candidates).map fun i => (s.runtimes i).record⟩ := by
    intro i hi
    rw [hi.only, List.map_append]
    exact ⟨_, hi.valid⟩
  have hb := h.busy
  cases hr : s.running with
  | none => rw [hr] at hb; exact hnone hb
  | some phase =>
    rw [hr] at hb
    cases phase with
    | initializing m => exact hnone hb
    | deploying secret => exact hnone hb
    | identifying url secret claim => exact hnone hb.1
    | probing i => exact hsome i hb
    | sleeping i => exact hsome i hb
    | saving write snapshot =>
      cases write with
      | register i d => exact hsome i hb.1
      | remove id i d => exact hnone hb.1
      | setDefault id => exact hnone hb.1

theorem Registry.apart (h : s.Registry parser claimUrl) {i j : ℕ} (hi : s.Owns i) (hj : s.Owns j)
    (hne : i ≠ j) : (s.runtimes i).record.url ≠ (s.runtimes j).record.url ∧
      (s.runtimes i).record.relayId ≠ (s.runtimes j).record.relayId := by
  obtain ⟨d, hv⟩ := h.owners
  have hurls := hv.urls
  have hrelays := hv.relayIds
  rw [List.map_map] at hurls hrelays
  exact ⟨fun he => hne (List.inj_on_of_nodup_map hurls (List.mem_append.mpr hi)
      (List.mem_append.mpr hj) he),
    fun he => hne (List.inj_on_of_nodup_map hrelays (List.mem_append.mpr hi)
      (List.mem_append.mpr hj) he)⟩

end WorkerLifecycle

/-! ## The lifecycle with its tunnels -/

structure Supervision where
  lifecycle : WorkerLifecycle
  tunnels : ℕ → SharedTunnel

/-- A step of the lifecycle, or an event of a socket, the timer or the session of a tunnel. -/
inductive SupervisionEvent where
  | lifecycle (e : WorkerLifecycle.Event)
  | tunnel (i : ℕ) (e : TunnelEvent) (challenge : Text)

namespace Supervision

def init : Supervision := ⟨.init, fun _ => .new⟩

/-- The calls of `connect` and `stop` on a tunnel in a step that changed what the lifecycle sees of
it.  A tunnel that shows `stopped` is as `stop` left it, and another call does nothing. -/
def call (before after : Option Tunnel) (tunnel : SharedTunnel) : SharedTunnel :=
  let tunnel := if before.isNone ∧ after.isSome then SharedTunnel.new.start else tunnel
  if after.map (·.state) = some .stopped ∧ before.map (·.state) ≠ some .stopped then tunnel.stop
  else tunnel

section Step

variable (parser : UrlParser) (verifyReadiness : Text → Json → Bool)

/-- `none` where the event cannot happen. -/
def step (s : Supervision) : SupervisionEvent → Option Supervision
  | .lifecycle e =>
    if e.ofTunnel then none
    else
      (s.lifecycle.step parser verifyReadiness e).map fun next =>
        ⟨next, fun i =>
          call (s.lifecycle.runtimes i).tunnel (next.runtimes i).tunnel (s.tunnels i)⟩
  | .tunnel i e challenge =>
    if SharedTunnel.ofOwner e ∨ (s.lifecycle.runtimes i).tunnel.isNone then none
    else
      ((s.tunnels i).step e).map fun next =>
        ⟨s.lifecycle.announce i next.shown challenge,
          fun j => if j = i then next else s.tunnels j⟩

/-- What the outside is relied on for. -/
def Expected (s : Supervision) : SupervisionEvent → Prop
  | .lifecycle e => s.lifecycle.Expected parser (fun _ => True) e
  | .tunnel _ _ _ => True

end Step

variable (parser : UrlParser) (verifyReadiness : Text → Json → Bool) in
structure Sound (s : Supervision) : Prop where
  registry : s.lifecycle.Registry parser fun _ => True
  timely : s.lifecycle.Timely verifyReadiness
  guarded : s.lifecycle.Guarded
  runs : ∀ i, Machine.Reaches SharedTunnel.step (fun _ _ => True) .new (s.tunnels i)
  shown : ∀ i, (s.lifecycle.runtimes i).tunnel = none ∧ s.tunnels i = .new ∨
    (s.lifecycle.runtimes i).tunnel = some (s.tunnels i).shown

variable {parser : UrlParser} {verifyReadiness : Text → Json → Bool} {s t : Supervision}

/-- The calls keep what the lifecycle sees. -/
theorem call_spec {before after : Option Tunnel} {tunnel : SharedTunnel} (h : Called before after)
    (hr : Machine.Reaches SharedTunnel.step (fun _ _ => True) .new tunnel)
    (hs : before = none ∧ tunnel = .new ∨ before = some tunnel.shown) :
    Machine.Reaches SharedTunnel.step (fun _ _ => True) .new (call before after tunnel) ∧
      (after = none ∧ call before after tunnel = .new ∨
        after = some (call before after tunnel).shown) := by
  have hstart : Machine.Reaches SharedTunnel.step (fun _ _ => True) .new SharedTunnel.new.start :=
    Machine.Reaches.refl.next .start trivial rfl
  cases h with
  | kept t =>
    have hcall : call before before tunnel = tunnel := by
      unfold call
      cases before with
      | none => rfl
      | some t => simp
    rw [hcall]
    exact ⟨hr, hs⟩
  | started => exact ⟨hstart, .inr rfl⟩
  | stopped t =>
    obtain ⟨hn, -⟩ | ht := hs
    · cases hn
    · obtain rfl := Option.some.inj ht
      have hcall : call (some tunnel.shown) (some { tunnel.shown with state := .stopped })
          tunnel = tunnel.stop := by
        unfold call SharedTunnel.shown
        by_cases hst : tunnel.state = .stopped
        · simp [hst, (SharedTunnel.halted_of_shown hr hst).stop_eq hst]
        · simp [hst]
      rw [hcall]
      unfold SharedTunnel.shown
      rw [SharedTunnel.lastError_stop]
      exact ⟨hr.next .stop trivial rfl, .inr rfl⟩
  | dropped => exact ⟨hstart.next .stop trivial rfl, .inr rfl⟩

theorem sound_init : init.Sound parser verifyReadiness where
  registry := WorkerLifecycle.registry_init
  timely := WorkerLifecycle.timely_init
  guarded := ⟨fun _ => .kept _, fun _ _ => rfl, by rintro i ⟨t, ht, -⟩; cases ht⟩
  runs _ := .refl
  shown _ := .inl ⟨rfl, rfl⟩

theorem Sound.tunnel (h : s.Sound parser verifyReadiness) (i : ℕ) : (s.tunnels i).Sound :=
  (h.runs i).invariant SharedTunnel.sound_new fun _ _ _ hs _ ht => hs.step ht

/-- A tunnel that shows `stopped` announces nothing more. -/
theorem Sound.stays (h : s.Sound parser verifyReadiness) {i : ℕ} {e : TunnelEvent}
    {next : SharedTunnel} (he : SharedTunnel.ofOwner e = false)
    (hn : (s.tunnels i).step e = some next) (hs : (s.tunnels i).state = .stopped) :
    next.state = .stopped := by
  have hstopped := (SharedTunnel.halted_of_shown (h.runs i) hs).stopped
  exact ((h.tunnel i).state_of_stopped hstopped he hn).trans hs

/-- **Step lemma.** -/
theorem Sound.step (h : s.Sound parser verifyReadiness) {e : SupervisionEvent}
    (he : s.Expected parser e) (ht : s.step parser verifyReadiness e = some t) :
    t.Sound parser verifyReadiness := by
  cases e with
  | lifecycle e =>
    unfold Supervision.step at ht
    simp only at ht
    split_ifs at ht with hown
    obtain ⟨next, hnext, rfl⟩ := Option.map_eq_some_iff.mp ht
    have hg := h.guarded.step h.registry he (Bool.eq_false_iff.mpr hown) hnext
    have hcall := fun i => call_spec (hg.called i) (h.runs i) (h.shown i)
    exact ⟨h.registry.step (fun _ _ => trivial) he hnext, h.timely.step hnext, hg.guarded,
      fun i => (hcall i).1, fun i => (hcall i).2⟩
  | tunnel i e challenge =>
    unfold Supervision.step at ht
    simp only at ht
    split_ifs at ht with hno
    obtain ⟨next, hnext, rfl⟩ := Option.map_eq_some_iff.mp ht
    push Not at hno
    obtain ⟨hown, hi⟩ := hno
    have hown : SharedTunnel.ofOwner e = false := Bool.eq_false_iff.mpr hown
    have hi : (s.lifecycle.runtimes i).tunnel.isSome = true :=
      Option.isSome_iff_ne_none.mpr (by simpa using hi)
    have hshown : (s.lifecycle.runtimes i).tunnel = some (s.tunnels i).shown := by
      obtain ⟨hn, -⟩ | hsome := h.shown i
      · rw [hn] at hi
        cases hi
      · exact hsome
    have hkeeps : next.shown.state = .stopped ∨ (s.lifecycle.runtimes i).Engaged := by
      by_cases hst : (s.tunnels i).state = .stopped
      · exact .inl (h.stays hown hnext hst)
      · exact .inr ⟨_, hshown, hst⟩
    have htimely : (s.lifecycle.announce i next.shown challenge).Timely verifyReadiness := by
      have herror : s.lifecycle.step parser verifyReadiness (.lastError i next.lastError) =
          some (s.lifecycle.modify i (·.setLastError next.lastError)) := rfl
      exact (h.timely.step herror).step
        (show WorkerLifecycle.step parser verifyReadiness _ (.status i next.state challenge) = _
          from rfl)
    refine ⟨(WorkerLifecycle.quiet_announce _ i _ _).registry h.registry, htimely,
      h.guarded.announce hi hkeeps challenge, fun j => ?_, fun j => ?_⟩
    · show Machine.Reaches _ _ _ (if j = i then next else s.tunnels j)
      split_ifs with hj
      · exact (h.runs i).next e trivial hnext
      · exact h.runs j
    · show _ ∧ (if j = i then next else s.tunnels j) = _ ∨
        _ = some (if j = i then next else s.tunnels j).shown
      rw [WorkerLifecycle.tunnel_announce hi]
      split_ifs
      · exact .inr rfl
      · exact h.shown j

theorem Sound.shows_connected (h : s.Sound parser verifyReadiness) (i : ℕ) :
    (s.lifecycle.runtimes i).tunnelState = some .connected ↔ (s.tunnels i).Connected := by
  rw [← (h.tunnel i).connected]
  unfold Runtime.tunnelState
  obtain ⟨hn, hnew⟩ | hsome := h.shown i
  · rw [hn, hnew]
    exact ⟨fun hc => (by cases hc), fun hc => (by cases hc)⟩
  · rw [hsome]
    exact Option.some_inj

theorem Sound.owned (h : s.Sound parser verifyReadiness) {i : ℕ} (ha : (s.tunnels i).Active) :
    s.lifecycle.aborted = false ∧ s.lifecycle.Owns i := by
  have hrun := (h.tunnel i).stopped_of_active ha
  refine h.guarded.owned i ?_
  obtain ⟨-, hnew⟩ | hsome := h.shown i
  · rw [hnew] at ha
    exact absurd ha SharedTunnel.not_active_new
  · refine ⟨_, hsome, fun hst => ?_⟩
    rw [(SharedTunnel.halted_of_shown (h.runs i) hst).stopped] at hrun
    cases hrun

/-- **Every tunnel has an owner.** In every run of the lifecycle with its tunnels: a tunnel that
holds a socket or waits to dial belongs to a connection or to the candidate of a registration, and
not to a lifecycle that has been stopped; two such tunnels dial different relays, by their
hostnames and by their identities; there are at most sixteen; and a connection is shown as
connected exactly while the socket of its tunnel is open, as ready at no other time. -/
theorem tunnels_owned
    (h : Machine.Reaches (step parser verifyReadiness) (Expected parser) init s) :
    (∀ i, (s.tunnels i).Active → s.lifecycle.aborted = false ∧ s.lifecycle.Owns i) ∧
    (∀ i j, (s.tunnels i).Active → (s.tunnels j).Active → i ≠ j →
      (s.lifecycle.runtimes i).record.url ≠ (s.lifecycle.runtimes j).record.url ∧
      (s.lifecycle.runtimes i).record.relayId ≠ (s.lifecycle.runtimes j).record.relayId) ∧
    (∀ l : List ℕ, l.Nodup → (∀ i ∈ l, (s.tunnels i).Active) → l.length ≤ 16) ∧
    ∀ i, ((s.lifecycle.runtimes i).tunnelState = some .connected ↔ (s.tunnels i).Connected) ∧
      ((s.lifecycle.runtimes i).state = .ready → (s.tunnels i).Connected) := by
  have hs : s.Sound parser verifyReadiness :=
    h.invariant sound_init fun _ _ _ hs he ht => hs.step he ht
  refine ⟨fun i => hs.owned, fun i j hi hj => hs.registry.apart (hs.owned hi).2 (hs.owned hj).2,
    fun l hn hl => ?_, fun i => ⟨hs.shows_connected i, fun hr => ?_⟩⟩
  · obtain ⟨d, hv⟩ := hs.registry.owners
    have hsub : l ⊆ s.lifecycle.connections.values ++ s.lifecycle.candidates :=
      fun i hi => List.mem_append.mpr (hs.owned (hl i hi)).2
    have hsize := hv.size
    rw [List.length_map] at hsize
    exact (List.subperm_of_subset hn hsub).length_le.trans hsize
  · exact (hs.shows_connected i).mp ((hs.timely.2 i).ready hr).1

/-- A connection that is restored, connects and is stopped with the lifecycle. -/
theorem tunnels_owned_stopped :
    ∃ s t, Machine.Reaches (step .shareExample fun _ _ => true) (Expected .shareExample) init s ∧
      (s.tunnels 0).Active ∧ s.lifecycle.Owns 0 ∧
      s.step .shareExample (fun _ _ => true) (.lifecycle .stop) = some t ∧
      ∀ i, ¬ (t.tunnels i).Active := by
  let record : ConnectionRecord :=
    ⟨['1'], "relay".toList, "https://share.example".toList, List.replicate 43 'a', none, 1⟩
  have hsnapshot : ConnectionSnapshot.Valid .shareExample ⟨some ['1'], [record]⟩ := by
    decide +kernel
  have h0 : Machine.Reaches (step .shareExample fun _ _ => true) (Expected .shareExample) init
      init := .refl
  have h1 := h0.next (.lifecycle .start) trivial rfl
  have h2 := h1.next (.lifecycle (.loaded (.ok ⟨some ['1'], [record]⟩))) hsnapshot rfl
  have h3 := h2.next (.tunnel 0 (.socketOpen 0 5) []) trivial rfl
  obtain ⟨s, t, h3, ha, ht, hstopped⟩ : ∃ s t, Machine.Reaches (step .shareExample fun _ _ => true)
      (Expected .shareExample) init s ∧ (s.tunnels 0).Active ∧
      s.step .shareExample (fun _ _ => true) (.lifecycle .stop) = some t ∧
      t.lifecycle.aborted = true :=
    ⟨_, _, h3, .inl ⟨0, ⟨true, true, false⟩, rfl, rfl, rfl⟩, rfl, rfl⟩
  refine ⟨s, t, h3, ha, ((tunnels_owned h3).1 0 ha).2, ht, fun i hi => ?_⟩
  have hrunning := ((tunnels_owned (h3.next (.lifecycle .stop) trivial ht)).1 i hi).1
  rw [hstopped] at hrunning
  cases hrunning

end Supervision

end BbShared
