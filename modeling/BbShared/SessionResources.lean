import BbShared.Bounds
import BbShared.Leases
import BbShared.Naming

/-!
# What a session holds

`tunnel-client/src/session.ts`: the calls and sockets that a session has at the origin, against its
streams.  Both are leases: the number of the message that opened a stream is its ticket, the call or
the socket its job.  A call is told to stop by its abort signal, a socket by `terminate` or `close`.
This holds against any relay: metadata that spoils the byte counters does not touch the streams.
-/

namespace BbShared

open Js

/-- The effect tells the socket to go. -/
def OriginEffect.ends (uid : ℕ) : OriginEffect → Bool
  | .terminate u => u = uid
  | .close u _ _ => u = uid
  | .send _ _ _ => false

/-- A socket has been told to go. -/
def ended (effects : List OriginEffect) (uid : ℕ) : Bool := effects.any fun e => e.ends uid

theorem ended_append (l l' : List OriginEffect) (uid : ℕ) :
    ended (l ++ l') uid = (ended l uid || ended l' uid) := List.any_append

def Running.lease (r : Running) : Lease ℕ := ⟨r.uid, r.streamId, !r.aborted⟩

def OriginSocket.lease (effects : List OriginEffect) (k : OriginSocket) : Lease ℕ :=
  ⟨k.uid, k.streamId, !ended effects k.uid⟩

/-! ## Calls -/

def httpOwner (streams : OrderedMap ℕ HttpStream) (id : ℕ) : Option ℕ :=
  (streams.get id).map HttpStream.uid

def httpBusy (streams : OrderedMap ℕ HttpStream) (id : ℕ) : Prop :=
  ∃ h, streams.get id = some h ∧ h.executing = true

/-- A stream waits for its body under a timer, or executes, and its origin is the loopback one. -/
structure HttpStream.Kept (h : HttpStream) : Prop where
  timer : h.bodyTimer = !h.executing
  target : h.info.target = none

/-- A stream waits for its body under a timer, or has its call. -/
structure HttpHeld (next : ℕ) (streams : OrderedMap ℕ HttpStream) (running : List Running) :
    Prop where
  jobs : Leased next (httpOwner streams) (httpBusy streams) (running.map Running.lease)
  kept : ∀ id h, streams.get id = some h → h.Kept

section Calls

variable {next : ℕ} {streams : OrderedMap ℕ HttpStream} {running running' : List Running} {id : ℕ}
  {h : HttpStream}

theorem httpOwner_eq_some {n : ℕ} :
    httpOwner streams id = some n ↔ ∃ h, streams.get id = some h ∧ h.uid = n :=
  Option.map_eq_some_iff

theorem keys_of_httpOwner (streams : OrderedMap ℕ HttpStream) (k n : ℕ)
    (hk : httpOwner streams k = some n) : k ∈ streams.keys := by
  obtain ⟨g, hg, -⟩ := httpOwner_eq_some.mp hk
  exact OrderedMap.mem_keys_of_get hg

theorem httpBusy_iff (hg : streams.get id = some h) :
    httpBusy streams id ↔ h.executing = true := by
  unfold httpBusy
  rw [hg]
  exact ⟨fun ⟨_, hh, he⟩ => Option.some.inj hh ▸ he, fun he => ⟨h, rfl, he⟩⟩

theorem httpOwner_erase (hd : Leased next (httpOwner streams) (httpBusy streams)
      (running.map Running.lease)) (hg : streams.get id = some h) (k n : ℕ) :
    httpOwner (streams.erase id) k = some n ↔ httpOwner streams k = some n ∧ n ≠ h.uid := by
  have ho : httpOwner streams id = some h.uid := httpOwner_eq_some.mpr ⟨h, hg, rfl⟩
  unfold httpOwner
  rw [OrderedMap.get_erase]
  by_cases hk : k = id
  · rw [if_pos hk, hk, hg]
    exact ⟨nofun, fun hn => absurd (Option.some.inj hn.1).symm hn.2⟩
  · rw [if_neg hk]
    refine ⟨fun hn => ⟨hn, ?_⟩, fun hn => hn.1⟩
    rintro rfl
    exact hk (hd.single k id _ hn ho)

theorem httpBusy_erase {k n : ℕ} (hk : httpOwner (streams.erase id) k = some n) :
    httpBusy (streams.erase id) k ↔ httpBusy streams k := by
  obtain ⟨g, hg, -⟩ := httpOwner_eq_some.mp hk
  rw [httpBusy_iff hg]
  rw [OrderedMap.get_erase] at hg
  split_ifs at hg
  exact (httpBusy_iff hg).symm

theorem kept_erase (hd : HttpHeld next streams running) :
    ∀ k g, (streams.erase id).get k = some g → g.Kept := by
  intro k g hg
  rw [OrderedMap.get_erase] at hg
  split_ifs at hg
  exact hd.kept k g hg

theorem kept_set (hd : HttpHeld next streams running) {g : HttpStream} (hk : g.Kept) :
    ∀ k f, (streams.set id g).get k = some f → f.Kept := by
  intro k f hf
  rw [OrderedMap.get_set] at hf
  split_ifs at hf
  · exact Option.some.inj hf ▸ hk
  · exact hd.kept k f hf

theorem leases_filter (running : List Running) (uid : ℕ) :
    (running.filter fun r => r.uid ≠ uid).map Running.lease =
      (running.map Running.lease).filter fun j => j.ticket ≠ uid := by
  rw [List.filter_map]
  rfl

namespace HttpHeld

/-- The stream goes, and its call is aborted. -/
theorem evict (hd : HttpHeld next streams running) (hg : streams.get id = some h) :
    HttpHeld next (streams.erase id)
      (running.map fun r => if r.uid = h.uid then { r with aborted := true } else r) where
  jobs := by
    have hleases : (running.map fun r =>
        if r.uid = h.uid then { r with aborted := true } else r).map Running.lease =
      (running.map Running.lease).map (Lease.stop h.uid) := by
      rw [List.map_map, List.map_map]
      refine List.map_congr_left fun r _ => ?_
      show Running.lease (if r.uid = h.uid then { r with aborted := true } else r) =
        if r.uid = h.uid then _ else _
      split_ifs <;> rfl
    rw [hleases]
    exact hd.jobs.evict (httpOwner_erase hd.jobs hg) fun _ _ => httpBusy_erase
  kept := kept_erase hd

/-- The stream goes, and its call has returned. -/
theorem release (hd : HttpHeld next streams running) (hg : streams.get id = some h) :
    HttpHeld next (streams.erase id) (running.filter fun r => r.uid ≠ h.uid) where
  jobs := by
    rw [leases_filter]
    exact hd.jobs.release (httpOwner_erase hd.jobs hg) fun _ _ => httpBusy_erase
  kept := kept_erase hd

/-- A call returns that has lost its stream. -/
theorem finish (hd : HttpHeld next streams running) {r : Running} (hr : r ∈ running)
    (hn : httpOwner streams r.streamId ≠ some r.uid) :
    HttpHeld next streams (running.filter fun k => k.uid ≠ r.uid) where
  jobs := by
    rw [leases_filter]
    refine hd.jobs.finish fun k hk => hn ?_
    have hslot : k = r.streamId := hd.jobs.slot_eq (j := r.lease) (List.mem_map_of_mem hr) hk
    exact hslot ▸ hk
  kept := hd.kept

/-- A stream changes, but not its ticket nor whether it has its call. -/
theorem set (hd : HttpHeld next streams running) (hg : streams.get id = some h) {g : HttpStream}
    (hu : g.uid = h.uid) (he : g.executing = h.executing) (ht : g.bodyTimer = h.bodyTimer)
    (hi : g.info = h.info) :
    HttpHeld next (streams.set id g) running where
  jobs := by
    refine hd.jobs.congr (fun k => ?_) fun k n hk => ?_
    · unfold httpOwner
      rw [OrderedMap.get_set]
      split_ifs with hk
      · rw [hk, hg, Option.map_some, Option.map_some, hu]
      · rfl
    · by_cases hkid : k = id
      · rw [hkid, httpBusy_iff (OrderedMap.get_set_self _ _ _), httpBusy_iff hg, he]
      · unfold httpBusy
        rw [OrderedMap.get_set_of_ne _ hkid]
  kept := kept_set hd ⟨by rw [ht, he]; exact (hd.kept id h hg).timer,
    hi ▸ (hd.kept id h hg).target⟩

/-- The call of a stream starts. -/
theorem start (hd : HttpHeld next streams running) (hg : streams.get id = some h)
    (hidle : h.executing = false) {g : HttpStream} (hu : g.uid = h.uid) (he : g.executing = true)
    (hk : g.Kept) {r : Running} (hr : r.lease = ⟨h.uid, id, true⟩) :
    HttpHeld next (streams.set id g) (running ++ [r]) where
  jobs := by
    rw [List.map_append, List.map_singleton, hr]
    refine hd.jobs.start (httpOwner_eq_some.mpr ⟨h, hg, rfl⟩) ?_ (fun k => ?_) fun k => ?_
    · rw [httpBusy_iff hg, hidle]
      decide
    · unfold httpOwner
      rw [OrderedMap.get_set]
      split_ifs with hk
      · rw [hk, hg, Option.map_some, Option.map_some, hu]
      · rfl
    · unfold httpBusy
      rw [OrderedMap.get_set]
      split_ifs with hk
      · exact ⟨fun _ => .inl hk, fun _ => ⟨g, rfl, he⟩⟩
      · exact (or_iff_right hk).symm
  kept := kept_set hd hk

/-- A stream is opened, with a body to come. -/
theorem draw (hd : HttpHeld next streams running) (hg : streams.get id = none) {g : HttpStream}
    (hu : g.uid = next) (he : g.executing = false) (hk : g.Kept) :
    HttpHeld (next + 1) (streams.set id g) running where
  jobs := by
    have ho : httpOwner (streams.set id g) id = some next := by
      unfold httpOwner
      rw [OrderedMap.get_set_self, Option.map_some, hu]
    refine hd.jobs.draw ?_ ho (fun k hk => ?_) (fun k hk => ?_) ?_
    · unfold httpOwner
      rw [hg]
      rfl
    · unfold httpOwner
      rw [OrderedMap.get_set_of_ne _ hk]
    · unfold httpBusy
      rw [OrderedMap.get_set_of_ne _ hk]
    · rw [httpBusy_iff (OrderedMap.get_set_self _ _ _), he]
      decide
  kept := kept_set hd hk

/-- A stream is opened, and its call starts at once. -/
theorem drawStart (hd : HttpHeld next streams running) (hg : streams.get id = none) {g : HttpStream}
    (hu : g.uid = next) (he : g.executing = true) (hk : g.Kept) {r : Running}
    (hr : r.lease = ⟨next, id, true⟩) :
    HttpHeld (next + 1) (streams.set id g) (running ++ [r]) := by
  have hdraw := hd.draw (g := { g with executing := false, bodyTimer := true }) hg hu rfl
    ⟨rfl, hk.target⟩
  have hstart := hdraw.start (OrderedMap.get_set_self _ _ _) rfl (g := g) rfl he hk (hu ▸ hr)
  rwa [OrderedMap.set_set] at hstart

/-- All streams go, and every call that has its stream is aborted. -/
theorem close (hd : HttpHeld next streams running) {aborts : Running → Bool}
    (ha : ∀ r, httpOwner streams r.streamId = some r.uid → aborts r = true) :
    HttpHeld next .empty (running.map fun r => if aborts r then { r with aborted := true } else r)
    where
  jobs := by
    refine hd.jobs.close (fun k => rfl) ?_ fun j hj => ?_
    · rw [List.map_map, List.map_map, List.map_map]
      refine List.map_congr_left fun r _ => ?_
      dsimp only [Function.comp_apply]
      split_ifs <;> rfl
    · rw [List.map_map] at hj
      obtain ⟨r, hr, rfl⟩ := List.mem_map.mp hj
      dsimp only [Function.comp_apply]
      split_ifs with hab
      · rfl
      · by_contra hl
        exact hab (ha r (hd.jobs.current r.lease (List.mem_map_of_mem hr)
          (Bool.eq_true_of_not_eq_false hl)))
  kept _ _ hf := by cases hf

end HttpHeld

end Calls

/-! ## Sockets -/

def wsOwner (streams : OrderedMap ℕ WsStream) (id : ℕ) : Option ℕ :=
  (streams.get id).map WsStream.uid

def socketLeases (effects : List OriginEffect) (sockets : List OriginSocket) : List (Lease ℕ) :=
  sockets.map (OriginSocket.lease effects)

def remoteClients (streams : OrderedMap ℕ WsStream) : ℕ :=
  streams.total fun w => if w.countsAsRemoteClient then 1 else 0

/-- A stream has its socket, and the count of remote clients is that of the streams. -/
structure WsHeld (next : ℕ) (streams : OrderedMap ℕ WsStream) (sockets : List OriginSocket)
    (effects : List OriginEffect) (count : ℕ) : Prop where
  jobs : Leased next (wsOwner streams) (fun _ => True) (socketLeases effects sockets)
  told : ∀ n, ended effects n = true → n < next
  clients : count = remoteClients streams

section Sockets

variable {next : ℕ} {streams : OrderedMap ℕ WsStream} {sockets sockets' : List OriginSocket}
  {effects : List OriginEffect} {count id : ℕ} {w : WsStream}

theorem wsOwner_eq_some {n : ℕ} :
    wsOwner streams id = some n ↔ ∃ w, streams.get id = some w ∧ w.uid = n :=
  Option.map_eq_some_iff

theorem keys_of_wsOwner (streams : OrderedMap ℕ WsStream) (k n : ℕ)
    (hk : wsOwner streams k = some n) : k ∈ streams.keys := by
  obtain ⟨w, hg, -⟩ := wsOwner_eq_some.mp hk
  exact OrderedMap.mem_keys_of_get hg

theorem wsOwner_erase (hd : Leased next (wsOwner streams) (fun _ => True)
      (socketLeases effects sockets)) (hg : streams.get id = some w) (k n : ℕ) :
    wsOwner (streams.erase id) k = some n ↔ wsOwner streams k = some n ∧ n ≠ w.uid := by
  have ho : wsOwner streams id = some w.uid := wsOwner_eq_some.mpr ⟨w, hg, rfl⟩
  unfold wsOwner
  rw [OrderedMap.get_erase]
  by_cases hk : k = id
  · rw [if_pos hk, hk, hg]
    exact ⟨nofun, fun hn => absurd (Option.some.inj hn.1).symm hn.2⟩
  · rw [if_neg hk]
    refine ⟨fun hn => ⟨hn, ?_⟩, fun hn => hn.1⟩
    rintro rfl
    exact hk (hd.single k id _ hn ho)

theorem wsOwner_set (hg : streams.get id = some w) {v : WsStream} (hu : v.uid = w.uid) (k : ℕ) :
    wsOwner (streams.set id v) k = wsOwner streams k := by
  unfold wsOwner
  rw [OrderedMap.get_set]
  split_ifs with hk
  · rw [hk, hg, Option.map_some, Option.map_some, hu]
  · rfl

theorem remoteClients_erase (hg : streams.get id = some w) :
    remoteClients (streams.erase id) =
      if w.countsAsRemoteClient then remoteClients streams - 1 else remoteClients streams := by
  unfold remoteClients
  rw [← OrderedMap.total_erase hg]
  split_ifs <;> rfl

theorem remoteClients_set (hg : streams.get id = some w) {v : WsStream}
    (hc : v.countsAsRemoteClient = w.countsAsRemoteClient) :
    remoteClients (streams.set id v) = remoteClients streams := by
  have htotal := OrderedMap.total_set_of_get hg v fun w => if w.countsAsRemoteClient then 1 else 0
  rw [hc] at htotal
  exact Nat.add_right_cancel htotal

theorem leases_ends {e : OriginEffect} {uid : ℕ} (he : ∀ n, e.ends n = decide (uid = n)) :
    socketLeases (effects ++ [e]) sockets =
      (socketLeases effects sockets).map (Lease.stop uid) := by
  unfold socketLeases
  rw [List.map_map]
  refine List.map_congr_left fun k _ => ?_
  show OriginSocket.lease _ k = if k.uid = uid then _ else _
  unfold OriginSocket.lease
  rw [ended_append]
  by_cases hk : k.uid = uid
  · rw [if_pos hk, show ended [e] k.uid = true by simp [ended, he, hk], Bool.or_true]
    rfl
  · rw [if_neg hk, show ended [e] k.uid = false by simp [ended, he, Ne.symm hk], Bool.or_false]

theorem told_ends {e : OriginEffect} {uid : ℕ} (he : ∀ n, e.ends n = decide (uid = n))
    (ht : ∀ n, ended effects n = true → n < next) (hu : uid < next) {n : ℕ}
    (hn : ended (effects ++ [e]) n = true) : n < next := by
  rw [ended_append, Bool.or_eq_true] at hn
  rcases hn with hn | hn
  · exact ht n hn
  · have hn' : uid = n := by simpa [ended, he] using hn
    exact hn' ▸ hu

namespace WsHeld

/-- What a socket is sent does not end it. -/
theorem say (hd : WsHeld next streams sockets effects count) (uid : ℕ) (b : Bool) (data : Bytes) :
    WsHeld next streams sockets (effects ++ [.send uid b data]) count := by
  have hsame : ∀ n, ended (effects ++ [.send uid b data]) n = ended effects n := fun n => by
    rw [ended_append]
    exact Bool.or_false _
  refine ⟨?_, fun n hn => hd.told n (hsame n ▸ hn), hd.clients⟩
  have hleases : socketLeases (effects ++ [.send uid b data]) sockets =
      socketLeases effects sockets := by
    refine List.map_congr_left fun k _ => ?_
    unfold OriginSocket.lease
    rw [hsame]
  rw [hleases]
  exact hd.jobs

/-- The stream goes, and its socket is told to go. -/
theorem evict (hd : WsHeld next streams sockets effects count) (hg : streams.get id = some w)
    {e : OriginEffect} (he : ∀ n, e.ends n = decide (w.uid = n)) :
    WsHeld next (streams.erase id) sockets (effects ++ [e])
      (if w.countsAsRemoteClient then count - 1 else count) where
  jobs := by
    rw [leases_ends he]
    exact hd.jobs.evict (wsOwner_erase hd.jobs hg) fun _ _ _ => Iff.rfl
  told _ := told_ends he hd.told (hd.jobs.drawn id w.uid (wsOwner_eq_some.mpr ⟨w, hg, rfl⟩))
  clients := by rw [remoteClients_erase hg, hd.clients]

/-- A socket that has lost its stream is told to go. -/
theorem stray (hd : WsHeld next streams sockets effects count) {k : OriginSocket}
    (hk : k ∈ sockets) (hn : wsOwner streams k.streamId ≠ some k.uid) :
    WsHeld next streams sockets (effects ++ [.terminate k.uid]) count where
  jobs := by
    have hmem : k.lease effects ∈ socketLeases effects sockets := List.mem_map_of_mem hk
    rw [show socketLeases (effects ++ [.terminate k.uid]) sockets =
      (socketLeases effects sockets).map (Lease.stop k.uid) from leases_ends fun _ => rfl]
    refine hd.jobs.evict (fun i m => ⟨fun hm => ⟨hm, ?_⟩, fun hm => hm.1⟩) fun _ _ _ => Iff.rfl
    rintro rfl
    obtain rfl : i = k.streamId := hd.jobs.slot_eq hmem hm
    exact hn hm
  told _ := told_ends (fun _ => rfl) hd.told
    (hd.jobs.known (k.lease effects) (List.mem_map_of_mem hk))
  clients := hd.clients

theorem filter_leases (effects : List OriginEffect) (sockets : List OriginSocket) (uid : ℕ) :
    socketLeases effects (sockets.filter fun k => k.uid ≠ uid) =
      (socketLeases effects sockets).filter fun j => j.ticket ≠ uid := by
  unfold socketLeases
  rw [List.filter_map]
  rfl

/-- The stream goes, and its socket has closed. -/
theorem release (hd : WsHeld next streams sockets effects count) (hg : streams.get id = some w) :
    WsHeld next (streams.erase id) (sockets.filter fun k => k.uid ≠ w.uid) effects
      (if w.countsAsRemoteClient then count - 1 else count) where
  jobs := by
    rw [filter_leases]
    exact hd.jobs.release (wsOwner_erase hd.jobs hg) fun _ _ _ => Iff.rfl
  told := hd.told
  clients := by rw [remoteClients_erase hg, hd.clients]

/-- A socket closes that has lost its stream. -/
theorem finish (hd : WsHeld next streams sockets effects count) {k : OriginSocket}
    (hk : k ∈ sockets) (hn : wsOwner streams k.streamId ≠ some k.uid) :
    WsHeld next streams (sockets.filter fun l => l.uid ≠ k.uid) effects count where
  jobs := by
    have hmem : k.lease effects ∈ socketLeases effects sockets := List.mem_map_of_mem hk
    rw [filter_leases]
    refine hd.jobs.finish fun i hi => ?_
    obtain rfl : i = k.streamId := hd.jobs.slot_eq hmem hi
    exact hn hi
  told := hd.told
  clients := hd.clients

/-- A stream changes, but not its ticket nor whether it counts. -/
theorem set (hd : WsHeld next streams sockets effects count) (hg : streams.get id = some w)
    {v : WsStream} (hu : v.uid = w.uid) (hc : v.countsAsRemoteClient = w.countsAsRemoteClient) :
    WsHeld next (streams.set id v) sockets effects count where
  jobs := hd.jobs.congr (wsOwner_set hg hu) fun _ _ _ => Iff.rfl
  told := hd.told
  clients := hd.clients.trans (remoteClients_set hg hc).symm

/-- A stream is opened, with its socket. -/
theorem draw (hd : WsHeld next streams sockets effects count) (hg : streams.get id = none)
    {v : WsStream} (hu : v.uid = next) :
    WsHeld (next + 1) (streams.set id v) (sockets ++ [⟨next, id, false⟩]) effects
      (if v.countsAsRemoteClient then count + 1 else count) where
  jobs := by
    have hlive : ended effects next = false :=
      Bool.eq_false_of_not_eq_true fun he => Nat.lt_irrefl _ (hd.told next he)
    have hnew : socketLeases effects (sockets ++ [⟨next, id, false⟩]) =
        socketLeases effects sockets ++ [⟨next, id, true⟩] := by
      unfold socketLeases
      rw [List.map_append, List.map_singleton]
      unfold OriginSocket.lease
      rw [hlive]
      rfl
    have ho : wsOwner (streams.set id v) id = some next := by
      unfold wsOwner
      rw [OrderedMap.get_set_self, Option.map_some, hu]
    have hdraw : Leased (next + 1) (wsOwner (streams.set id v)) (fun k => k ≠ id)
        (socketLeases effects sockets) :=
      hd.jobs.draw (by unfold wsOwner; rw [hg]; rfl) ho
        (fun k hk => by unfold wsOwner; rw [OrderedMap.get_set_of_ne _ hk])
        (fun k hk => ⟨fun _ => trivial, fun _ => hk⟩) fun hne => hne rfl
    rw [hnew]
    exact hdraw.start ho (fun hne => hne rfl) (fun _ => rfl)
      fun k => ⟨fun _ => Decidable.em (k = id), fun _ => trivial⟩
  told n hn := Nat.lt_succ_of_lt (hd.told n hn)
  clients := by
    have hnot : id ∉ streams.keys := OrderedMap.get_eq_none.mp hg
    unfold remoteClients
    rw [OrderedMap.total_set_of_not_mem hnot, hd.clients]
    unfold remoteClients
    split_ifs <;> rfl

/-- All streams go, and their sockets are told to go. -/
theorem close (hd : WsHeld next streams sockets effects count) :
    WsHeld next .empty sockets
      (effects ++ streams.values.map fun w => .terminate w.uid) 0 where
  jobs := by
    refine hd.jobs.close (fun _ => rfl) ?_ fun j hj => ?_
    · unfold socketLeases
      rw [List.map_map, List.map_map]
      rfl
    · obtain ⟨k, hk, rfl⟩ := List.mem_map.mp hj
      show (!ended _ k.uid) = false
      rw [ended_append, Bool.not_eq_false', Bool.or_eq_true]
      by_cases hl : ended effects k.uid = true
      · exact .inl hl
      · refine .inr ?_
        have hcurrent := hd.jobs.current (k.lease effects) (List.mem_map_of_mem hk)
          (by show (!ended effects k.uid) = true; rw [Bool.eq_false_of_not_eq_true hl]; rfl)
        obtain ⟨w, hg, hw⟩ := wsOwner_eq_some.mp hcurrent
        unfold ended
        refine List.any_eq_true.mpr ⟨.terminate w.uid,
          List.mem_map_of_mem (OrderedMap.mem_values_of_get hg), ?_⟩
        exact decide_eq_true hw
  told n hn := by
    rw [ended_append, Bool.or_eq_true] at hn
    rcases hn with hn | hn
    · exact hd.told n hn
    · obtain ⟨e, he, hends⟩ := List.any_eq_true.mp hn
      obtain ⟨w, hw, rfl⟩ := List.mem_map.mp he
      obtain ⟨⟨id, v⟩, hmem, rfl⟩ := List.mem_map.mp hw
      have hg : streams.get id = some v := OrderedMap.get_eq_some.mpr hmem
      exact of_decide_eq_true hends ▸ hd.jobs.drawn id v.uid (wsOwner_eq_some.mpr ⟨v, hg, rfl⟩)
  clients := rfl

end WsHeld

end Sockets

namespace TunnelSession

variable {co : Coercion} {io : Io} {s t : TunnelSession} {next : ℕ}

/-! ## Sessions -/

/-- What a session that has received `next` messages holds at the origin. -/
structure Holds (next : ℕ) (s : TunnelSession) : Prop where
  http : HttpHeld next s.httpStreams s.running
  ws : WsHeld next s.wsStreams s.sockets s.effects s.remoteClientCount
  room : s.httpStreams.size + s.wsStreams.size ≤ MAX_STREAMS
  closed : s.disposed = true → s.httpStreams = .empty ∧ s.wsStreams = .empty

theorem holds_new : new.Holds 0 where
  http := ⟨Leased.empty fun _ => rfl, fun _ _ hg => by cases hg⟩
  ws := ⟨Leased.empty fun _ => rfl, (fun _ hn => by cases hn), rfl⟩
  room := by decide
  closed h := by cases h

namespace Holds

theorem mono (h : s.Holds next) : s.Holds (next + 1) where
  http := ⟨h.http.jobs.mono (Nat.le_succ _), h.http.kept⟩
  ws := ⟨h.ws.jobs.mono (Nat.le_succ _), fun n hn => Nat.lt_succ_of_lt (h.ws.told n hn),
    h.ws.clients⟩
  room := h.room
  closed := h.closed

theorem alive (h : s.Holds next) {id : ℕ} {g : HttpStream} (hg : s.httpStreams.get id = some g) :
    s.disposed = false := by
  by_contra hd
  rw [(h.closed (Bool.eq_true_of_not_eq_false hd)).1] at hg
  cases hg

theorem alive_ws (h : s.Holds next) {id : ℕ} {w : WsStream} (hg : s.wsStreams.get id = some w) :
    s.disposed = false := by
  by_contra hd
  rw [(h.closed (Bool.eq_true_of_not_eq_false hd)).2] at hg
  cases hg

theorem dispose (h : s.Holds next) : s.dispose.Holds next := by
  unfold TunnelSession.dispose
  split_ifs
  · exact h
  · refine ⟨h.http.close fun r hr => ?_, h.ws.close, Nat.zero_le _, fun _ => ⟨rfl, rfl⟩⟩
    obtain ⟨g, hg, hu⟩ := httpOwner_eq_some.mp hr
    unfold isCurrentHttp
    rw [hg]
    exact decide_eq_true hu

theorem send (h : s.Holds next) (uid : ℕ) (frame : Frame) :
    (TunnelSession.send io s uid frame).Holds next := by
  unfold TunnelSession.send
  split_ifs
  · exact h
  · split
    · exact ⟨h.http, h.ws, h.room, h.closed⟩
    · exact h.dispose
    · exact h

theorem sendAll (h : s.Holds next) (uid : ℕ) (frames : List Frame) :
    (TunnelSession.sendAll io s uid frames).Holds next := by
  unfold TunnelSession.sendAll
  induction frames generalizing s with
  | nil => exact h
  | cons f frames ih => exact ih (h.send uid f)

theorem setHttp (h : s.Holds next) {id : ℕ} {g f : HttpStream}
    (hg : s.httpStreams.get id = some g) {running : List Running}
    (hd : HttpHeld next (s.httpStreams.set id f) running) :
    Holds next { s with httpStreams := s.httpStreams.set id f, running } where
  http := hd
  ws := h.ws
  room := by
    show (s.httpStreams.set id f).size + s.wsStreams.size ≤ MAX_STREAMS
    rw [OrderedMap.size_set_of_mem (OrderedMap.mem_keys_of_get hg)]
    exact h.room
  closed hc := absurd (hc.symm.trans (h.alive hg)) (by decide)

theorem eraseHttp (h : s.Holds next) {id : ℕ} {g : HttpStream}
    (hg : s.httpStreams.get id = some g) {running : List Running}
    (hd : HttpHeld next (s.httpStreams.erase id) running) (n : Num) :
    Holds next { s with httpStreams := s.httpStreams.erase id, running, bufferedBytes := n } where
  http := hd
  ws := h.ws
  room := (Nat.add_le_add_right (OrderedMap.size_erase_le _ _) _).trans h.room
  closed hc := absurd (hc.symm.trans (h.alive hg)) (by decide)

/-- A stream is given up, with its call. -/
theorem drop (h : s.Holds next) {id : ℕ} {g : HttpStream} (hg : s.httpStreams.get id = some g) :
    (forgetHttpStream co (s.abort g.uid) id g.uid).Holds next := by
  unfold forgetHttpStream
  rw [show (s.abort g.uid).httpStreams.get id = some g from hg]
  dsimp only
  rw [if_pos rfl]
  exact h.eraseHttp hg (h.http.evict hg) _

theorem rejectHttpStream (h : s.Holds next) {id : ℕ} {g : HttpStream}
    (hg : s.httpStreams.get id = some g) (reason : Text) :
    (TunnelSession.rejectHttpStream co io s id g.uid reason).Holds next := (h.drop hg).send _ _

/-- A call returns: its stream goes, if it still has it. -/
theorem finish (h : s.Holds next) {r : Running} (hr : r ∈ s.running) :
    (TunnelSession.finish (forgetHttpStream co s r.streamId r.uid) r.uid).Holds next := by
  unfold forgetHttpStream
  cases hg : s.httpStreams.get r.streamId with
  | none =>
    refine ⟨h.http.finish hr ?_, h.ws, h.room, h.closed⟩
    unfold httpOwner
    rw [hg]
    exact nofun
  | some g =>
    dsimp only
    split_ifs with hu
    · exact h.eraseHttp hg (hu ▸ h.http.release hg) _
    · refine ⟨h.http.finish hr ?_, h.ws, h.room, h.closed⟩
      unfold httpOwner
      rw [hg]
      exact fun ho => hu (Option.some.inj ho)

/-- A call returns that has lost its stream. -/
theorem finish_stale (h : s.Holds next) {r : Running} (hr : r ∈ s.running)
    (hc : ¬ s.isCurrentHttp r.streamId r.uid = true) : (s.finish r.uid).Holds next := by
  refine ⟨h.http.finish hr fun ho => hc ?_, h.ws, h.room, h.closed⟩
  obtain ⟨g, hg, hu⟩ := httpOwner_eq_some.mp ho
  unfold isCurrentHttp
  rw [hg]
  exact decide_eq_true hu

theorem executeHttp (h : s.Holds next) {id : ℕ} {g : HttpStream}
    (hg : s.httpStreams.get id = some g) (he : g.executing = false) :
    (TunnelSession.executeHttp co io s id g).Holds next := by
  unfold TunnelSession.executeHttp
  rw [(h.http.kept id g hg).target]
  refine h.setHttp hg (h.http.start hg he
    (g := { g with executing := true, bodyTimer := false, chunks := [] }) rfl rfl
    ⟨rfl, (h.http.kept id g hg).target⟩ ?_)
  rfl

theorem eraseWs (h : s.Holds next) {id : ℕ} {w : WsStream} (hg : s.wsStreams.get id = some w)
    {sockets : List OriginSocket} {effects : List OriginEffect}
    (hd : WsHeld next (s.wsStreams.erase id) sockets effects
      (if w.countsAsRemoteClient then s.remoteClientCount - 1 else s.remoteClientCount)) :
    (forgetWsStream co { s with sockets, effects } id w.uid).Holds next := by
  unfold forgetWsStream
  dsimp only
  rw [hg]
  dsimp only
  rw [if_pos rfl]
  refine ⟨h.http, hd, ?_, fun hc => absurd (hc.symm.trans (h.alive_ws hg)) (by decide)⟩
  exact (Nat.add_le_add_left (OrderedMap.size_erase_le _ _) _).trans h.room

theorem setWs (h : s.Holds next) {id : ℕ} {w v : WsStream} (hg : s.wsStreams.get id = some w)
    (hu : v.uid = w.uid) (hc : v.countsAsRemoteClient = w.countsAsRemoteClient) (n : Num) :
    Holds next { s with wsStreams := s.wsStreams.set id v, bufferedBytes := n } where
  http := h.http
  ws := h.ws.set hg hu hc
  room := by
    show s.httpStreams.size + (s.wsStreams.set id v).size ≤ MAX_STREAMS
    rw [OrderedMap.size_set_of_mem (OrderedMap.mem_keys_of_get hg)]
    exact h.room
  closed hc := absurd (hc.symm.trans (h.alive_ws hg)) (by decide)

/-! ## Frames -/

theorem onBodyChunk (h : s.Holds next) {id : ℕ} {data : Val}
    (ht : TunnelSession.onBodyChunk co io s id data = some t) : t.Holds next := by
  unfold TunnelSession.onBodyChunk at ht
  cases hg : s.httpStreams.get id with
  | none =>
    rw [hg] at ht
    obtain rfl := Option.some.inj ht
    exact h
  | some g =>
    rw [hg] at ht
    dsimp only at ht
    split_ifs at ht
    obtain ⟨isOver, -, ht⟩ := Option.bind_eq_some_iff.mp ht
    split_ifs at ht
    · obtain rfl := Option.some.inj ht
      exact h.rejectHttpStream hg _
    · obtain ⟨chunk, -, ht⟩ := Option.bind_eq_some_iff.mp ht
      obtain ⟨size, -, ht⟩ := Option.bind_eq_some_iff.mp ht
      obtain ⟨bytes, -, ht⟩ := Option.bind_eq_some_iff.mp ht
      obtain ⟨total, -, ht⟩ := Option.bind_eq_some_iff.mp ht
      obtain rfl := Option.some.inj ht
      have hset := h.setHttp hg (h.http.set hg
        (g := { g with chunks := g.chunks ++ [chunk], bytes }) rfl rfl rfl rfl)
      exact ⟨hset.http, hset.ws, hset.room, hset.closed⟩

theorem onBodyEnd (h : s.Holds next) {id : ℕ}
    (ht : TunnelSession.onBodyEnd co io s id = some t) : t.Holds next := by
  unfold TunnelSession.onBodyEnd at ht
  cases hg : s.httpStreams.get id with
  | none =>
    rw [hg] at ht
    obtain rfl := Option.some.inj ht
    exact h
  | some g =>
    rw [hg] at ht
    dsimp only at ht
    split_ifs at ht with he
    obtain rfl := Option.some.inj ht
    exact h.executeHttp hg (Bool.eq_false_of_not_eq_true he)

theorem onWsData (h : s.Holds next) {id : ℕ} {f : RawFrame}
    (ht : TunnelSession.onWsData co io s id f = some t) : t.Holds next := by
  unfold TunnelSession.onWsData at ht
  cases hg : s.wsStreams.get id with
  | none =>
    rw [hg] at ht
    obtain rfl := Option.some.inj ht
    exact h
  | some w =>
    rw [hg] at ht
    obtain ⟨isOver, -, ht⟩ := Option.bind_eq_some_iff.mp ht
    split_ifs at ht
    · obtain rfl := Option.some.inj ht
      exact (h.eraseWs hg (h.ws.evict hg fun _ => rfl)).send _ _
    · obtain ⟨⟨isBinary, data⟩, -, ht⟩ := Option.bind_eq_some_iff.mp ht
      obtain rfl := Option.some.inj ht
      exact ⟨h.http, h.ws.say _ _ _, h.room, h.closed⟩
    · obtain ⟨size, -, ht⟩ := Option.bind_eq_some_iff.mp ht
      obtain ⟨bytes, -, ht⟩ := Option.bind_eq_some_iff.mp ht
      obtain ⟨total, -, ht⟩ := Option.bind_eq_some_iff.mp ht
      obtain rfl := Option.some.inj ht
      exact h.setWs hg (v := { w with buffered := w.buffered ++ [f], bufferedBytes := bytes }) rfl
        rfl total

theorem onCloseStream (h : s.Holds next) (id : ℕ) (f : RawFrame) :
    (TunnelSession.onCloseStream co s id f).Holds next := by
  unfold TunnelSession.onCloseStream
  cases hg : s.httpStreams.get id with
  | some g => exact h.drop hg
  | none =>
    cases hw : s.wsStreams.get id with
    | some w => exact h.eraseWs hw (h.ws.evict hw fun _ => rfl)
    | none => exact h

/-- A frame that opens nothing. -/
theorem onFrame (h : s.Holds next) {uid : ℕ} {f : RawFrame}
    (hf : f.frameType ≠ some .openHttp ∧ f.frameType ≠ some .openWs)
    (ht : TunnelSession.onFrame co io s uid f = some t) : t.Holds next := by
  unfold TunnelSession.onFrame at ht
  split_ifs at ht
  · obtain rfl := Option.some.inj ht
    exact h
  cases hid : f.id with
  | none => rw [hid] at ht; cases ht
  | some id =>
    rw [hid] at ht
    dsimp only at ht
    cases hty : f.frameType with
    | none =>
      rw [hty] at ht
      obtain rfl := Option.some.inj ht
      exact h
    | some type =>
      rw [hty] at ht hf
      cases type with
      | openHttp => exact absurd rfl hf.1
      | openWs => exact absurd rfl hf.2
      | bodyChunk => exact h.onBodyChunk ht
      | bodyEnd => exact h.onBodyEnd ht
      | wsData => exact h.onWsData ht
      | closeStream =>
        obtain rfl := Option.some.inj ht
        exact h.onCloseStream id f
      | respHead =>
        obtain rfl := Option.some.inj ht
        exact h
      | wsOpenAck =>
        obtain rfl := Option.some.inj ht
        exact h

/-! ## Openings -/

theorem openHttp (h : s.Holds next) (hd : s.disposed = false) {id : ℕ}
    (hg : s.httpStreams.get id = none)
    (hroom : s.httpStreams.size + s.wsStreams.size < MAX_STREAMS) {info : OpenHttp}
    (hi : info.target = none) :
    (TunnelSession.openHttp co io s id next info).Holds (next + 1) := by
  have hsize : ∀ g, (s.httpStreams.set id g).size + s.wsStreams.size ≤ MAX_STREAMS := fun g => by
    rw [OrderedMap.size_set_of_not_mem (OrderedMap.get_eq_none.mp hg)]
    omega
  unfold TunnelSession.openHttp
  dsimp only
  split_ifs with hbody
  · exact ⟨h.http.draw hg rfl rfl ⟨hbody, hi⟩, h.mono.ws, hsize _,
      fun hc => absurd (hc.symm.trans hd) (by decide)⟩
  · unfold TunnelSession.executeHttp newHttpStream
    dsimp only
    rw [hi, OrderedMap.set_set]
    exact ⟨h.http.drawStart hg rfl rfl ⟨rfl, hi⟩ rfl, h.mono.ws, hsize _,
      fun hc => absurd (hc.symm.trans hd) (by decide)⟩

theorem openOriginWs (h : s.Holds next) (hd : s.disposed = false) {id : ℕ}
    (hg : s.wsStreams.get id = none)
    (hroom : s.httpStreams.size + s.wsStreams.size < MAX_STREAMS) (info : OpenWs) :
    (TunnelSession.openOriginWs io s id next info).Holds (next + 1) := by
  unfold TunnelSession.openOriginWs
  split_ifs
  · refine ⟨h.mono.http, h.ws.draw hg rfl, ?_, fun hc => absurd (hc.symm.trans hd) (by decide)⟩
    show s.httpStreams.size + (s.wsStreams.set id _).size ≤ MAX_STREAMS
    rw [OrderedMap.size_set_of_not_mem (OrderedMap.get_eq_none.mp hg)]
    omega
  · exact h.mono.send _ _
  · exact h.mono.send _ _

theorem target_of_validateOpenFrame {type : FrameType} {f : RawFrame} {info : OpenHttp}
    (hr : isRegistered f.target = true) (h : validateOpenFrame type f = some (.http info)) :
    info.target = none := by
  have htarget : f.targetText = none := by
    unfold isRegistered at hr
    unfold RawFrame.targetText
    split at hr
    · rename_i he
      rw [he]
    · cases hr
  unfold validateOpenFrame validOpenHttp validOpenWs at h
  split_ifs at h
  · obtain ⟨_, -, h⟩ := Option.bind_eq_some_iff.mp h
    obtain ⟨_, -, h⟩ := Option.bind_eq_some_iff.mp h
    obtain ⟨_, -, h⟩ := Option.bind_eq_some_iff.mp h
    obtain ⟨_, -, h⟩ := Option.bind_eq_some_iff.mp h
    rw [← Opening.http.inj (Option.some.inj h)]
    exact htarget
  · obtain ⟨_, -, h⟩ := Option.bind_eq_some_iff.mp h
    obtain ⟨_, -, h⟩ := Option.bind_eq_some_iff.mp h
    obtain ⟨_, -, h⟩ := Option.bind_eq_some_iff.mp h
    cases Option.some.inj h

theorem onOpen (h : s.Holds next) (hd : s.disposed = false) {id : ℕ} {type : FrameType}
    {f : RawFrame} (ht : TunnelSession.onOpen co io s id next type f = some t) :
    t.Holds (next + 1) := by
  unfold TunnelSession.onOpen at ht
  cases hv : validateOpenFrame type f with
  | none => rw [hv] at ht; cases ht
  | some opening =>
    rw [hv] at ht
    dsimp only at ht
    split_ifs at ht with hhas hroom hr
    · obtain rfl := Option.some.inj ht
      exact h.mono.send _ _
    · rw [Bool.or_eq_true, not_or, OrderedMap.has_iff, OrderedMap.has_iff] at hhas
      cases opening with
      | http info =>
        obtain rfl := Option.some.inj ht
        exact h.openHttp hd (OrderedMap.get_eq_none.mpr hhas.1) (Nat.lt_of_not_le hroom)
          (target_of_validateOpenFrame hr hv)
      | ws info =>
        obtain rfl := Option.some.inj ht
        exact h.openOriginWs hd (OrderedMap.get_eq_none.mpr hhas.2) (Nat.lt_of_not_le hroom) info
    · cases opening with
      | http info =>
        obtain rfl := Option.some.inj ht
        exact h.mono.sendAll _ _
      | ws info =>
        obtain rfl := Option.some.inj ht
        exact h.mono.send _ _

/-- **Messages.** Whatever the relay sends, a stream that it opens has the message's number. -/
theorem onMessage (h : s.Holds s.received) (message : Bytes) :
    (TunnelSession.onMessage co io s message).Holds (s.received + 1) := by
  have hcount : Holds s.received { s with received := s.received + 1 } :=
    ⟨h.http, h.ws, h.room, h.closed⟩
  unfold TunnelSession.onMessage
  cases hp : process co io s message with
  | none => exact hcount.mono.dispose
  | some t =>
    unfold process at hp
    split_ifs at hp
    cases hdecode : decodeFrame message with
    | none => rw [hdecode] at hp; cases hp
    | some f =>
      rw [hdecode] at hp
      dsimp only at hp ⊢
      by_cases hf : f.frameType ≠ some .openHttp ∧ f.frameType ≠ some .openWs
      · exact hcount.mono.onFrame hf hp
      · unfold TunnelSession.onFrame at hp
        split_ifs at hp with hd
        · obtain rfl := Option.some.inj hp
          exact hcount.mono
        · have hd : s.disposed = false := Bool.eq_false_of_not_eq_true hd
          cases hid : f.id with
          | none => rw [hid] at hp; cases hp
          | some id =>
            rw [hid] at hp
            dsimp only at hp
            rw [Classical.not_and_iff_not_or_not, not_not, not_not] at hf
            rcases hf with hf | hf <;> rw [hf] at hp <;> exact hcount.onOpen hd hp

/-! ## Events of the origin -/

theorem replay (h : s.Holds next) {uid : ℕ} {frames : List RawFrame}
    (hf : ∀ f ∈ frames, f.frameType = some .wsData)
    (ht : TunnelSession.replay co io s uid frames = some t) : t.Holds next := by
  unfold TunnelSession.replay at ht
  induction frames generalizing s with
  | nil =>
    obtain rfl := Option.some.inj ht
    exact h
  | cons f frames ih =>
    rw [List.foldlM_cons] at ht
    obtain ⟨u, hu, ht⟩ := Option.bind_eq_some_iff.mp ht
    have hty := hf f List.mem_cons_self
    refine ih (h.onFrame ?_ hu) (fun g hg => hf g (List.mem_cons_of_mem _ hg)) ht
    rw [hty]
    exact ⟨by decide, by decide⟩

/-- A stream gives up what it buffered, unless the session is disposed of. -/
theorem drain (h : s.Holds next) {id : ℕ} {w : WsStream} (hg : s.disposed = false →
    s.wsStreams.get id = some { w with isOpen := true }) :
    (TunnelSession.drain co s id w).Holds next := by
  unfold TunnelSession.drain
  dsimp only
  split_ifs with hd
  · exact ⟨h.http, h.ws, h.room, h.closed⟩
  · exact h.setWs (hg (Bool.eq_false_of_not_eq_true hd))
      (v := { w with isOpen := true, buffered := [], bufferedBytes := .int 0 }) rfl rfl _

theorem flush (h : s.Holds next) {id : ℕ} {w : WsStream} (hg : s.wsStreams.get id = some w)
    (hb : ∀ f ∈ w.buffered, f.frameType = some .wsData) {protocol : Option Text}
    (ht : TunnelSession.flush co io s id w protocol = some t) : t.Holds next := by
  have hopen : Holds next { s with wsStreams := s.wsStreams.set id { w with isOpen := true } } :=
    h.setWs hg (v := { w with isOpen := true }) rfl rfl s.bufferedBytes
  refine (Holds.drain (hopen.send w.uid (.wsOpenAck id protocol)) fun hd => ?_).replay
    hb ht
  -- The acknowledgement leaves the stream where it is, or disposes of the session.
  obtain ⟨outbox, he⟩ := send_alive hd
  rw [he]
  exact OrderedMap.get_set_self _ _ _

theorem markOpened (h : s.Holds next) (uid : ℕ) : (s.markOpened uid).Holds next := by
  have hleases : socketLeases s.effects (s.markOpened uid).sockets =
      socketLeases s.effects s.sockets := by
    unfold socketLeases TunnelSession.markOpened
    rw [List.map_map]
    refine List.map_congr_left fun k _ => ?_
    dsimp only [Function.comp_apply]
    split_ifs <;> rfl
  exact ⟨h.http, ⟨hleases ▸ h.ws.jobs, h.ws.told, h.ws.clients⟩, h.room, h.closed⟩

theorem socketOpen (h : s.Holds next) (hb : ∀ id w, s.wsStreams.get id = some w →
    ∀ f ∈ w.buffered, f.frameType = some .wsData) {uid : ℕ} {protocol : Option Text}
    (ht : TunnelSession.socketOpen co io s uid protocol = some t) : t.Holds next := by
  unfold TunnelSession.socketOpen at ht
  cases hk : s.sockets.find? fun k => k.uid = uid ∧ k.opened = false with
  | none => rw [hk] at ht; cases ht
  | some k =>
    have hu : k.uid = uid ∧ k.opened = false := by simpa using List.find?_some hk
    have hmem : { k with opened := true } ∈ (s.markOpened uid).sockets :=
      List.mem_map.mpr ⟨k, List.mem_of_find?_eq_some hk, if_pos hu.1⟩
    rw [hk] at ht
    dsimp only at ht
    have hstray : wsOwner s.wsStreams k.streamId ≠ some k.uid →
        Holds next { s.markOpened uid with
          effects := (s.markOpened uid).effects ++ [.terminate uid] } := fun hn => by
      have hws := (h.markOpened uid).ws.stray hmem hn
      rw [hu.1] at hws
      exact ⟨h.http, hws, h.room, h.closed⟩
    cases hg : (s.markOpened uid).wsStreams.get k.streamId with
    | none =>
      rw [hg] at ht
      obtain rfl := Option.some.inj ht
      refine hstray ?_
      unfold wsOwner
      rw [show s.wsStreams.get k.streamId = none from hg]
      exact nofun
    | some w =>
      rw [hg] at ht
      dsimp only at ht
      split_ifs at ht with hw
      · exact (h.markOpened uid).flush hg (hb k.streamId w hg) ht
      · obtain rfl := Option.some.inj ht
        refine hstray fun ho => hw ?_
        unfold wsOwner at ho
        rw [show s.wsStreams.get k.streamId = some w from hg] at ho
        exact (Option.some.inj ho).trans hu.1

theorem socketClose (h : s.Holds next) {uid code : ℕ} {reason : Bytes}
    (ht : TunnelSession.socketClose co io s uid code reason = some t) : t.Holds next := by
  unfold TunnelSession.socketClose at ht
  obtain ⟨k, hk, ht⟩ := Option.bind_eq_some_iff.mp ht
  have hmem := List.mem_of_find?_eq_some hk
  obtain rfl : k.uid = uid := by simpa using List.find?_some hk
  dsimp only at ht
  split_ifs at ht with hc
  · obtain rfl := Option.some.inj ht
    unfold isCurrentWs at hc
    dsimp only at hc
    cases hg : s.wsStreams.get k.streamId with
    | none => rw [hg] at hc; cases hc
    | some w =>
      rw [hg] at hc
      have hu : w.uid = k.uid := of_decide_eq_true hc
      have hrelease := h.ws.release hg
      rw [hu] at hrelease
      exact hu ▸ (h.eraseWs hg (hu ▸ hrelease)).send _ _
  · obtain rfl := Option.some.inj ht
    refine ⟨h.http, h.ws.finish hmem fun ho => hc ?_, h.room, h.closed⟩
    obtain ⟨w, hg, hu⟩ := wsOwner_eq_some.mp ho
    unfold isCurrentWs
    dsimp only
    rw [hg]
    exact decide_eq_true hu

/-- A call gets its response. -/
theorem respond (h : s.Holds next) (uid : ℕ) :
    Holds next { s with running := s.running.map fun r =>
      if r.uid = uid then { r with responded := true } else r } := by
  have hleases : (s.running.map fun r =>
      if r.uid = uid then { r with responded := true } else r).map Running.lease =
        s.running.map Running.lease := by
    rw [List.map_map]
    refine List.map_congr_left fun r _ => ?_
    dsimp only [Function.comp_apply]
    split_ifs <;> rfl
  exact ⟨⟨hleases ▸ h.http.jobs, h.http.kept⟩, h.ws, h.room, h.closed⟩

theorem originResponse (h : s.Holds next) {uid : ℕ} {status : Option ℕ} {headers : List HeaderPair}
    {duration : Text}
    (ht : TunnelSession.originResponse io s uid status headers duration = some t) :
    t.Holds next := by
  unfold TunnelSession.originResponse at ht
  obtain ⟨r, hr, ht⟩ := Option.bind_eq_some_iff.mp ht
  have hmem := List.mem_of_find?_eq_some hr
  obtain ⟨rfl, -⟩ : r.uid = uid ∧ r.responded = false := by simpa using List.find?_some hr
  by_cases hc : s.isCurrentHttp r.streamId r.uid = true
  · rw [if_pos hc] at ht
    obtain rfl := Option.some.inj ht
    exact (h.send _ _).respond r.uid
  · rw [if_neg hc] at ht
    obtain rfl := Option.some.inj ht
    exact h.finish_stale hmem hc

theorem originChunk (h : s.Holds next) {uid : ℕ} {data : Bytes}
    (ht : TunnelSession.originChunk io s uid data = some t) : t.Holds next := by
  unfold TunnelSession.originChunk at ht
  obtain ⟨r, hr, ht⟩ := Option.bind_eq_some_iff.mp ht
  have hmem := List.mem_of_find?_eq_some hr
  obtain ⟨rfl, -⟩ : r.uid = uid ∧ r.responded = true := by simpa using List.find?_some hr
  split_ifs at ht with hc
  · obtain rfl := Option.some.inj ht
    exact h.sendAll _ _
  · obtain rfl := Option.some.inj ht
    exact h.finish_stale hmem hc

/-- A frame leaves the calls as they are, or aborts them. -/
theorem mem_send (io : Io) {r : Running} (hr : r ∈ s.running) (uid : ℕ) (f : Frame) :
    ∃ r' ∈ (TunnelSession.send io s uid f).running, r'.uid = r.uid ∧ r'.streamId = r.streamId := by
  unfold TunnelSession.send TunnelSession.dispose
  split_ifs
  · exact ⟨r, hr, rfl, rfl⟩
  · split
    · exact ⟨r, hr, rfl, rfl⟩
    · refine ⟨_, List.mem_map_of_mem hr, ?_⟩
      split_ifs <;> exact ⟨rfl, rfl⟩
    · exact ⟨r, hr, rfl, rfl⟩

theorem originEnd (h : s.Holds next) {uid : ℕ}
    (ht : TunnelSession.originEnd co io s uid = some t) : t.Holds next := by
  unfold TunnelSession.originEnd at ht
  obtain ⟨r, hr, ht⟩ := Option.bind_eq_some_iff.mp ht
  obtain ⟨rfl, -⟩ : r.uid = uid ∧ r.responded = true := by simpa using List.find?_some hr
  obtain rfl := Option.some.inj ht
  obtain ⟨r', hmem, hu, hid⟩ := mem_send io (List.mem_of_find?_eq_some hr) r.uid
    (.bodyEnd r.streamId)
  rw [← hu, ← hid]
  exact (h.send _ _).finish (hu ▸ hid ▸ hmem)

theorem originError (h : s.Holds next) {uid : ℕ}
    (ht : TunnelSession.originError co io s uid = some t) : t.Holds next := by
  unfold TunnelSession.originError at ht
  obtain ⟨r, hr, ht⟩ := Option.bind_eq_some_iff.mp ht
  obtain rfl : r.uid = uid := by simpa using List.find?_some hr
  have hmem := List.mem_of_find?_eq_some hr
  obtain rfl := Option.some.inj ht
  split_ifs
  · exact h.finish hmem
  · obtain ⟨r', hmem, hu, hid⟩ := mem_send io hmem r.uid
      (.closeStream r.streamId 1011 requestFailed)
    rw [← hu, ← hid]
    exact (h.send _ _).finish (hu ▸ hid ▸ hmem)

/-- **Local events.** -/
theorem onLocal (h : s.Holds next) (hb : ∀ id w, s.wsStreams.get id = some w →
    ∀ f ∈ w.buffered, f.frameType = some .wsData) {e : LocalEvent}
    (ht : TunnelSession.onLocal co io s e = some t) : t.Holds next := by
  cases e with
  | bodyTimeout id =>
    unfold TunnelSession.onLocal TunnelSession.bodyTimeout at ht
    dsimp only at ht
    split at ht
    · rename_i g hg
      split_ifs at ht
      obtain rfl := Option.some.inj ht
      exact h.rejectHttpStream hg _
    · cases ht
  | originResponse uid status headers duration => exact h.originResponse ht
  | originChunk uid data => exact h.originChunk ht
  | originEnd uid => exact h.originEnd ht
  | originError uid => exact h.originError ht
  | socketOpen uid protocol => exact h.socketOpen hb ht
  | socketMessage uid b data =>
    obtain ⟨k, -, ht⟩ := Option.bind_eq_some_iff.mp ht
    obtain rfl := Option.some.inj ht
    exact h.send _ _
  | socketClose uid code reason => exact h.socketClose ht
  | tunnelClose =>
    obtain rfl := Option.some.inj ht
    exact h.dispose

end Holds

/-! ## Runs -/

theorem Run.holds {ms : List Bytes} (h : Run co ms s) : s.Holds ms.length := by
  induction h with
  | new => exact holds_new
  | @message ms s io message hrun ih =>
    rw [List.length_append, List.length_singleton, ← hrun.named.received]
    exact Holds.onMessage (hrun.named.received ▸ ih) message
  | event io e hrun ht ih => exact ih.onLocal (fun id w hg => (hrun.named.get_ws hg).2) ht

/-- The calls at the origin that have not been aborted. -/
def liveCalls (s : TunnelSession) : List Running := s.running.filter fun r => r.lease.live

/-- The sockets at the origin that have not been told to go. -/
def liveSockets (s : TunnelSession) : List OriginSocket :=
  s.sockets.filter fun k => (k.lease s.effects).live

/-- What a session has at the origin is what its streams need, and within their limit. -/
structure Accounted (s : TunnelSession) : Prop where
  calls : ∀ r ∈ s.liveCalls, s.isCurrentHttp r.streamId r.uid = true
  sockets : ∀ k ∈ s.liveSockets, s.isCurrentWs k.streamId k.uid = true
  http : ∀ id h, s.httpStreams.get id = some h →
    h.bodyTimer = true ∨ ∃ r ∈ s.liveCalls, r.uid = h.uid ∧ r.streamId = id
  ws : ∀ id w, s.wsStreams.get id = some w →
    ∃ k ∈ s.liveSockets, k.uid = w.uid ∧ k.streamId = id
  callsHeld : s.liveCalls.length ≤ s.httpStreams.size
  socketsHeld : s.liveSockets.length ≤ s.wsStreams.size
  limit : s.httpStreams.size + s.wsStreams.size ≤ MAX_STREAMS
  clients : s.remoteClientCount = remoteClients s.wsStreams
  disposed : s.disposed = true → s.liveCalls = [] ∧ s.liveSockets = []

theorem Holds.call (h : s.Holds next) {r : Running} (hr : r ∈ s.liveCalls) :
    ∃ g, s.httpStreams.get r.streamId = some g ∧ g.uid = r.uid := by
  obtain ⟨hmem, hl⟩ := List.mem_filter.mp hr
  exact httpOwner_eq_some.mp (h.http.jobs.current r.lease (List.mem_map_of_mem hmem) hl)

theorem Holds.socket (h : s.Holds next) {k : OriginSocket} (hk : k ∈ s.liveSockets) :
    ∃ w, s.wsStreams.get k.streamId = some w ∧ w.uid = k.uid := by
  obtain ⟨hmem, hl⟩ := List.mem_filter.mp hk
  exact wsOwner_eq_some.mp (h.ws.jobs.current (k.lease s.effects) (List.mem_map_of_mem hmem) hl)

theorem Holds.length_liveCalls_le (h : s.Holds next) :
    s.liveCalls.length ≤ s.httpStreams.size := by
  have hle := h.http.jobs.length_live_le (keys_of_httpOwner s.httpStreams)
  rwa [List.filter_map, List.length_map, OrderedMap.keys, List.length_map] at hle

theorem Holds.length_liveSockets_le (h : s.Holds next) :
    s.liveSockets.length ≤ s.wsStreams.size := by
  have hle := h.ws.jobs.length_live_le (keys_of_wsOwner s.wsStreams)
  unfold socketLeases at hle
  rwa [List.filter_map, List.length_map, OrderedMap.keys, List.length_map] at hle

/-- **Resources.** In every run of a session, against any relay and any origin: a call or socket at
the origin that has not been told to stop works for a stream that the session holds, a stream waits
for its body under a timer or has its call or socket, there are no more of them than streams held,
and none is left once the session is disposed of. -/
theorem resources_accounted {ms : List Bytes} (h : Run co ms s) : s.Accounted := by
  have hh := h.holds
  refine ⟨fun r hr => ?_, fun k hk => ?_, fun id g hg => ?_, fun id w hw => ?_,
    hh.length_liveCalls_le, hh.length_liveSockets_le, ?_, hh.ws.clients, fun hd => ⟨?_, ?_⟩⟩
  · obtain ⟨g, hg, hu⟩ := hh.call hr
    unfold isCurrentHttp
    rw [hg]
    exact decide_eq_true hu
  · obtain ⟨w, hw, hu⟩ := hh.socket hk
    unfold isCurrentWs
    rw [hw]
    exact decide_eq_true hu
  · by_cases he : g.executing = true
    · have hserved := hh.http.jobs.served id g.uid (httpOwner_eq_some.mpr ⟨g, hg, rfl⟩)
        ((httpBusy_iff hg).mpr he)
      obtain ⟨r, hr, hlease⟩ := List.mem_map.mp hserved
      exact .inr ⟨r, List.mem_filter.mpr ⟨hr, congrArg Lease.live hlease⟩,
        congrArg Lease.ticket hlease, congrArg Lease.slot hlease⟩
    · have htimer := (hh.http.kept id g hg).timer
      rw [Bool.eq_false_of_not_eq_true he] at htimer
      exact .inl htimer
  · have hserved := hh.ws.jobs.served id w.uid (wsOwner_eq_some.mpr ⟨w, hw, rfl⟩) trivial
    obtain ⟨k, hk, hlease⟩ := List.mem_map.mp hserved
    exact ⟨k, List.mem_filter.mpr ⟨hk, congrArg Lease.live hlease⟩, congrArg Lease.ticket hlease,
      congrArg Lease.slot hlease⟩
  · exact hh.room
  · refine List.eq_nil_iff_forall_not_mem.mpr fun r hr => ?_
    obtain ⟨g, hg, -⟩ := hh.call hr
    rw [(hh.closed hd).1] at hg
    cases hg
  · refine List.eq_nil_iff_forall_not_mem.mpr fun k hk => ?_
    obtain ⟨w, hw, -⟩ := hh.socket hk
    rw [(hh.closed hd).2] at hw
    cases hw

def fetchMessage : Bytes :=
  (encodeFrame (.openHttp 1 ⟨"GET".toList, "/".toList, [], false, none⟩)).getD []

def joinMessage : Bytes := (encodeFrame (.openWs 3 ⟨"/ws".toList, [], [], none⟩)).getD []

/-- A call and a socket, and then the tunnel closes. -/
theorem resources_accounted_closed :
    let s := onMessage emptyArrays calm (onMessage emptyArrays calm new fetchMessage) joinMessage
    s.liveCalls.length = 1 ∧ s.liveSockets.length = 1 ∧ s.dispose.disposed = true ∧
      s.Accounted ∧ s.dispose.Accounted := by
  have hrun : Run emptyArrays [fetchMessage, joinMessage]
      (onMessage emptyArrays calm (onMessage emptyArrays calm new fetchMessage) joinMessage) :=
    .message calm joinMessage (.message calm fetchMessage .new)
  exact ⟨by decide +kernel, by decide +kernel, by decide +kernel, resources_accounted hrun,
    resources_accounted (.event calm .tunnelClose hrun rfl)⟩

end TunnelSession

end BbShared
