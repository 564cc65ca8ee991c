import BbShared.Frames
import BbShared.Machine
import BbShared.Sessions

/-!
# The realtime bridge

The upgrade handler of `guest-gateway/index.ts`: a guest's socket and one to BB, with both directions
in one chain of promises.  Each frame waits for those before it, resolves the session anew, one look
at the store at a time, and passes its filter if its destination is open still.  Sessions, grants and
both sockets change in between.

1. `Bridge.step` is the handler; events that BB, the guest or the owner causes may come at any time.
2. `Quiet` says that neither socket is open or will be; `close` leaves it so.
3. `bridge_scope` is the result.
-/

namespace BbShared

open Js

/-! ## State -/

inductive ReadyState where
  | connecting
  | open
  | closing
  | closed
  deriving DecidableEq

/-- `close` and `terminate`. -/
def ReadyState.shut : ReadyState → ReadyState
  | .closed => .closed
  | _ => .closing

/-- A frame that came, with its place among all frames. -/
structure Incoming where
  number : ℕ
  raw : Text
  fromGuest : Bool
  deriving DecidableEq

/-- A frame that was sent: what it came as, and the scope that was resolved for it. -/
structure Outgoing where
  source : Incoming
  scope : GuestScope
  frame : Text
  deriving DecidableEq

/-- How far `resolve` is: the grants to look up and the shares so far, or its result. -/
inductive Resolving where
  | looking (grants : List Text) (shares : OrderedMap Text Share)
  | resolved (shares : Option (List Share))

/-- The bridge of one guest.  `received` records what came; the program does not read it. -/
structure Bridge where
  id : Option Text
  sessions : Sessions
  store : InMemoryStore
  guest : ReadyState
  upstream : ReadyState
  registered : Bool
  waiting : List Incoming
  running : Option (Incoming × Resolving)
  received : List Incoming
  toGuest : List Outgoing
  toBb : List Outgoing

inductive BridgeEvent where
  | frame (fromGuest : Bool) (raw : Text)
  /-- Redemptions, expiries and changes of the grants, in any way. -/
  | grants (sessions : Sessions) (store : InMemoryStore)
  | opened
  | guestClosing
  | upstreamClosing
  | guestClosed
  | upstreamClosed
  /-- A socket fails, or the gateway stops. -/
  | fault
  /-- The resolution of the timer is null, or it fails. -/
  | expired
  | grantsChanged
  /-- The next frame: the session is looked up, at this time. -/
  | begin (now : ℕ)
  | look
  | act
  /-- The resolution for the frame fails. -/
  | reject

/-! ## Steps -/

/-- `scope`. -/
def scopeOf (shares : List Share) : GuestScope :=
  ⟨shares.map Share.threadId, shares.map Share.projectId⟩

/-- One look at the store. -/
def lookAt (store : InMemoryStore) (shares : OrderedMap Text Share) (grant : Text) :
    OrderedMap Text Share :=
  match store.getToken grant with
  | some t => t.shares.foldl mergeShare shares
  | none => shares

/-- The result of `resolve`, once all grants have been looked up. -/
def resolvedShares (shares : OrderedMap Text Share) : Option (List Share) :=
  if shares.size = 0 then none else some shares.values

/-- Looks at a store that stands still are `resolve`. -/
theorem resolve_eq_looks (sessions : Sessions) (store : InMemoryStore) (now : ℕ) (id : Option Text) :
    (resolve sessions store now id).map Token.shares =
      (liveSession sessions now id).bind fun session =>
        resolvedShares (session.grants.foldl (lookAt store) .empty) := by
  unfold resolve
  cases liveSession sessions now id with
  | none => rfl
  | some session =>
    show Option.map _ (if (mergeShares store session.grants).size = 0 then _ else _) =
      resolvedShares (mergeShares store session.grants)
    unfold resolvedShares
    split_ifs <;> rfl

namespace Bridge

/-- `close`. -/
def close (s : Bridge) : Bridge := { s with guest := s.guest.shut, upstream := s.upstream.shut }

def finish (s : Bridge) : Bridge := { s with running := none }

/-- The frame with its resolution. -/
def relay (s : Bridge) (m : Incoming) (current : Option (List Share)) : Bridge :=
  match current with
  | none => s.close
  | some shares =>
    if m.fromGuest then
      match filterClientFrame m.raw (scopeOf shares) with
      | .forward frame =>
        if s.upstream = .open then { s with toBb := s.toBb ++ [⟨m, scopeOf shares, frame⟩] } else s
      | .drop _ => s
      | .close _ _ => s.close
    else
      match filterServerFrame m.raw (scopeOf shares) with
      | some (.forward frame) =>
        if s.guest = .open then { s with toGuest := s.toGuest ++ [⟨m, scopeOf shares, frame⟩] }
        else s
      | some (.drop _) => s
      | none => s.close

/-- `none` where the event cannot happen. -/
def step (s : Bridge) : BridgeEvent → Option Bridge
  | .frame fromGuest raw =>
    let m : Incoming := ⟨s.received.length, raw, fromGuest⟩
    some { s with received := s.received ++ [m], waiting := s.waiting ++ [m] }
  | .grants sessions store => some { s with sessions, store }
  | .opened => if s.upstream = .connecting then some { s with upstream := .open } else none
  | .guestClosing => some { s with guest := s.guest.shut }
  | .upstreamClosing => some { s with upstream := s.upstream.shut }
  | .guestClosed =>
    some { s with guest := .closed, upstream := s.upstream.shut, registered := false }
  | .upstreamClosed =>
    some { s with guest := s.guest.shut, upstream := .closed, registered := false }
  | .fault => some s.close
  | .expired => some s.close
  | .grantsChanged => some (if s.registered then s.close else s)
  | .begin now =>
    match s.running, s.waiting with
    | none, m :: waiting =>
      let resolving := match liveSession s.sessions now s.id with
        | none => .resolved none
        | some session => .looking session.grants .empty
      some { s with waiting, running := some (m, resolving) }
    | _, _ => none
  | .look =>
    match s.running with
    | some (m, .looking (grant :: grants) shares) =>
      some { s with running := some (m, .looking grants (lookAt s.store shares grant)) }
    | some (m, .looking [] shares) =>
      some { s with running := some (m, .resolved (resolvedShares shares)) }
    | _ => none
  | .act =>
    match s.running with
    | some (m, .resolved current) => some (s.relay m current).finish
    | _ => none
  | .reject => if s.running.isSome then some s.close.finish else none

/-- A bridge that begins: the guest's socket is open, the one to BB is not yet. -/
structure Begins (s : Bridge) : Prop where
  guest : s.guest = .open
  upstream : s.upstream = .connecting
  registered : s.registered = true
  waiting : s.waiting = []
  running : s.running = none
  received : s.received = []
  toGuest : s.toGuest = []
  toBb : s.toBb = []

/-! ## Silence -/

/-- Neither socket is open, or will be. -/
def Quiet (s : Bridge) : Prop :=
  (s.guest = .closing ∨ s.guest = .closed) ∧ (s.upstream = .closing ∨ s.upstream = .closed)

theorem shut_over (r : ReadyState) : r.shut = .closing ∨ r.shut = .closed := by
  cases r <;> simp [ReadyState.shut]

theorem quiet_close (s : Bridge) : s.close.Quiet := ⟨shut_over _, shut_over _⟩

/-- What comes of a frame: nothing, the end, or that it is sent to the other side. -/
theorem relay_cases (s : Bridge) (m : Incoming) (current : Option (List Share)) :
    s.relay m current = s ∨ s.relay m current = s.close ∨
      (∃ d : Outgoing, d.source = m ∧ m.fromGuest = true ∧ d.frame = m.raw ∧
        ClientCleared d.scope d.frame ∧ s.upstream = .open ∧
        s.relay m current = { s with toBb := s.toBb ++ [d] }) ∨
      ∃ d : Outgoing, d.source = m ∧ m.fromGuest = false ∧ ForGuest d.scope m.raw d.frame ∧
        s.guest = .open ∧ s.relay m current = { s with toGuest := s.toGuest ++ [d] } := by
  unfold relay
  cases current with
  | none => exact .inr (.inl rfl)
  | some shares =>
    simp only
    by_cases hfrom : m.fromGuest = true
    · rw [if_pos hfrom]
      cases hfilter : filterClientFrame m.raw (scopeOf shares) with
      | forward frame =>
        simp only
        obtain ⟨rfl, hcleared⟩ := filterClientFrame_forward hfilter
        by_cases hopen : s.upstream = .open
        · rw [if_pos hopen]
          exact .inr (.inr (.inl ⟨⟨m, scopeOf shares, m.raw⟩, rfl, hfrom, rfl, hcleared, hopen, rfl⟩))
        · rw [if_neg hopen]
          exact .inl rfl
      | drop reason => exact .inl rfl
      | close code reason => exact .inr (.inl rfl)
    · rw [if_neg hfrom]
      cases hfilter : filterServerFrame m.raw (scopeOf shares) with
      | none => exact .inr (.inl rfl)
      | some decision =>
        cases decision with
        | forward frame =>
          simp only
          by_cases hopen : s.guest = .open
          · rw [if_pos hopen]
            exact .inr (.inr (.inr ⟨⟨m, scopeOf shares, frame⟩, rfl,
              Bool.eq_false_of_not_eq_true hfrom, filterServerFrame_forward hfilter, hopen, rfl⟩))
          · rw [if_neg hopen]
            exact .inl rfl
        | drop reason => exact .inl rfl

/-- **Step lemma.** A quiet bridge stays so, and sends nothing. -/
theorem Quiet.step {s t : Bridge} (h : s.Quiet) {e : BridgeEvent} (ht : s.step e = some t) :
    t.Quiet ∧ t.toGuest = s.toGuest ∧ t.toBb = s.toBb := by
  have hclose := s.quiet_close
  cases e with
  | opened =>
    unfold Bridge.step at ht
    simp only at ht
    split_ifs at ht with hc
    rcases h.2 with hu | hu <;> (rw [hu] at hc; cases hc)
  | grantsChanged =>
    obtain rfl := Option.some.inj ht
    split_ifs
    · exact ⟨hclose, rfl, rfl⟩
    · exact ⟨h, rfl, rfl⟩
  | begin now =>
    unfold Bridge.step at ht
    simp only at ht
    split at ht
    · obtain rfl := Option.some.inj ht
      exact ⟨h, rfl, rfl⟩
    · cases ht
  | look =>
    unfold Bridge.step at ht
    simp only at ht
    split at ht
    · obtain rfl := Option.some.inj ht
      exact ⟨h, rfl, rfl⟩
    · obtain rfl := Option.some.inj ht
      exact ⟨h, rfl, rfl⟩
    · cases ht
  | act =>
    unfold Bridge.step at ht
    simp only at ht
    split at ht
    · rename_i m current _
      obtain rfl := Option.some.inj ht
      rcases s.relay_cases m current with hr | hr | ⟨_, _, _, _, _, hopen, _⟩ | ⟨_, _, _, _, hopen, _⟩
      · rw [hr]; exact ⟨h, rfl, rfl⟩
      · rw [hr]; exact ⟨hclose, rfl, rfl⟩
      · rcases h.2 with hu | hu <;> (rw [hu] at hopen; cases hopen)
      · rcases h.1 with hg | hg <;> (rw [hg] at hopen; cases hopen)
    · cases ht
  | reject =>
    unfold Bridge.step at ht
    simp only at ht
    split_ifs at ht
    obtain rfl := Option.some.inj ht
    exact ⟨hclose, rfl, rfl⟩
  | frame fromGuest raw => obtain rfl := Option.some.inj ht; exact ⟨h, rfl, rfl⟩
  | grants sessions store => obtain rfl := Option.some.inj ht; exact ⟨h, rfl, rfl⟩
  | guestClosing => obtain rfl := Option.some.inj ht; exact ⟨⟨shut_over _, h.2⟩, rfl, rfl⟩
  | upstreamClosing => obtain rfl := Option.some.inj ht; exact ⟨⟨h.1, shut_over _⟩, rfl, rfl⟩
  | guestClosed => obtain rfl := Option.some.inj ht; exact ⟨⟨.inr rfl, shut_over _⟩, rfl, rfl⟩
  | upstreamClosed => obtain rfl := Option.some.inj ht; exact ⟨⟨shut_over _, .inr rfl⟩, rfl, rfl⟩
  | fault => obtain rfl := Option.some.inj ht; exact ⟨hclose, rfl, rfl⟩
  | expired => obtain rfl := Option.some.inj ht; exact ⟨hclose, rfl, rfl⟩

/-- **Run lemma.** -/
theorem Quiet.reaches {s t : Bridge} (h : s.Quiet)
    (ht : Machine.Reaches Bridge.step (fun _ _ => True) s t) :
    t.toGuest = s.toGuest ∧ t.toBb = s.toBb := by
  have key : t.Quiet ∧ t.toGuest = s.toGuest ∧ t.toBb = s.toBb := by
    refine ht.invariant (I := fun t => t.Quiet ∧ t.toGuest = s.toGuest ∧ t.toBb = s.toBb)
      ⟨h, rfl, rfl⟩ ?_
    rintro u e v ⟨hu, hg, hb⟩ - hstep
    obtain ⟨hv, hg', hb'⟩ := hu.step hstep
    exact ⟨hv, hg'.trans hg, hb'.trans hb⟩
  exact key.2

/-! ## The invariant -/

/-- The frames that have not been dealt with. -/
def pending (s : Bridge) : List Incoming := (s.running.map Prod.fst).toList ++ s.waiting

structure Sound (s : Bridge) : Prop where
  toGuest : ∀ d ∈ s.toGuest, d.source.fromGuest = false ∧ ForGuest d.scope d.source.raw d.frame
  toBb : ∀ d ∈ s.toBb, d.source.fromGuest = true ∧ d.frame = d.source.raw ∧
    ClientCleared d.scope d.frame
  order : ∃ done, s.received = done ++ s.pending ∧
    (s.toGuest.map Outgoing.source).Sublist (done.filter fun m => !m.fromGuest) ∧
    (s.toBb.map Outgoing.source).Sublist (done.filter fun m => m.fromGuest)
  numbers : s.received.map Incoming.number = List.range s.received.length
  unregistered : s.registered = false → s.Quiet

namespace Sound

variable {s t : Bridge}

/-- A step that keeps what came and what was sent. -/
theorem frame (h : Sound s) (hguest : t.toGuest = s.toGuest) (hbb : t.toBb = s.toBb)
    (hreceived : t.received = s.received) (hpending : t.pending = s.pending)
    (hreg : t.registered = false → t.Quiet) : Sound t where
  toGuest := by rw [hguest]; exact h.toGuest
  toBb := by rw [hbb]; exact h.toBb
  order := by rw [hguest, hbb, hreceived, hpending]; exact h.order
  numbers := by rw [hreceived]; exact h.numbers
  unregistered := hreg

theorem close (h : Sound s) : Sound s.close :=
  h.frame rfl rfl rfl rfl fun _ => s.quiet_close

/-- The frame that runs is done with. -/
theorem finish (h : Sound s) {m : Incoming} {r : Resolving} (hr : s.running = some (m, r)) :
    Sound s.finish := by
  obtain ⟨done, hreceived, hguest, hbb⟩ := h.order
  refine ⟨h.toGuest, h.toBb, ⟨done ++ [m], ?_, ?_, ?_⟩, h.numbers, h.unregistered⟩
  · show s.received = _
    rw [hreceived]
    simp [pending, Bridge.finish, hr]
  · rw [List.filter_append]
    exact hguest.trans (List.sublist_append_left _ _)
  · rw [List.filter_append]
    exact hbb.trans (List.sublist_append_left _ _)

/-- The frame that runs is sent to the guest. -/
theorem finish_toGuest (h : Sound s) {r : Resolving} {d : Outgoing}
    (hr : s.running = some (d.source, r)) (hfrom : d.source.fromGuest = false)
    (hd : ForGuest d.scope d.source.raw d.frame) :
    Sound { s with toGuest := s.toGuest ++ [d] }.finish := by
  obtain ⟨done, hreceived, hguest, hbb⟩ := h.order
  refine ⟨fun d' hd' => ?_, h.toBb, ⟨done ++ [d.source], ?_, ?_, ?_⟩, h.numbers, h.unregistered⟩
  · rcases List.mem_append.mp hd' with hd' | hd'
    · exact h.toGuest d' hd'
    · rw [List.mem_singleton.mp hd']
      exact ⟨hfrom, hd⟩
  · show s.received = _
    rw [hreceived]
    simp [pending, Bridge.finish, hr]
  · show ((s.toGuest ++ [d]).map Outgoing.source).Sublist _
    rw [List.filter_append, List.map_append, List.filter_cons_of_pos (by simp [hfrom])]
    exact hguest.append (List.Sublist.refl _)
  · rw [List.filter_append]
    exact hbb.trans (List.sublist_append_left _ _)

/-- The frame that runs is sent to BB. -/
theorem finish_toBb (h : Sound s) {r : Resolving} {d : Outgoing}
    (hr : s.running = some (d.source, r)) (hfrom : d.source.fromGuest = true)
    (hraw : d.frame = d.source.raw) (hd : ClientCleared d.scope d.frame) :
    Sound { s with toBb := s.toBb ++ [d] }.finish := by
  obtain ⟨done, hreceived, hguest, hbb⟩ := h.order
  refine ⟨h.toGuest, fun d' hd' => ?_, ⟨done ++ [d.source], ?_, ?_, ?_⟩, h.numbers, h.unregistered⟩
  · rcases List.mem_append.mp hd' with hd' | hd'
    · exact h.toBb d' hd'
    · rw [List.mem_singleton.mp hd']
      exact ⟨hfrom, hraw, hd⟩
  · show s.received = _
    rw [hreceived]
    simp [pending, Bridge.finish, hr]
  · rw [List.filter_append]
    exact hguest.trans (List.sublist_append_left _ _)
  · show ((s.toBb ++ [d]).map Outgoing.source).Sublist _
    rw [List.filter_append, List.map_append, List.filter_cons_of_pos hfrom]
    exact hbb.append (List.Sublist.refl _)

/-- **Step lemma.** Every event keeps the invariant. -/
theorem step (h : Sound s) {e : BridgeEvent} (ht : s.step e = some t) : Sound t := by
  have hquiet : ∀ {u : Bridge}, u.registered = s.registered →
      (s.Quiet → u.Quiet) → u.registered = false → u.Quiet := fun hr hu h0 =>
    hu (h.unregistered (hr ▸ h0))
  cases e with
  | frame fromGuest raw =>
    obtain rfl := Option.some.inj ht
    obtain ⟨done, hreceived, hguest, hbb⟩ := h.order
    refine ⟨h.toGuest, h.toBb, ⟨done, ?_, hguest, hbb⟩, ?_, h.unregistered⟩
    · show s.received ++ _ = _
      rw [hreceived]
      simp [pending]
    · show (s.received ++ _).map _ = List.range (s.received ++ _).length
      rw [List.map_append, h.numbers, List.length_append, List.length_singleton, List.range_succ]
      rfl
  | grants sessions store =>
    obtain rfl := Option.some.inj ht
    exact h.frame rfl rfl rfl rfl h.unregistered
  | opened =>
    unfold Bridge.step at ht
    simp only at ht
    split_ifs at ht with hc
    obtain rfl := Option.some.inj ht
    refine h.frame rfl rfl rfl rfl fun h0 => ?_
    rcases (h.unregistered h0).2 with hu | hu <;> (rw [hu] at hc; cases hc)
  | guestClosing =>
    obtain rfl := Option.some.inj ht
    exact h.frame rfl rfl rfl rfl (hquiet rfl fun hq => ⟨shut_over _, hq.2⟩)
  | upstreamClosing =>
    obtain rfl := Option.some.inj ht
    exact h.frame rfl rfl rfl rfl (hquiet rfl fun hq => ⟨hq.1, shut_over _⟩)
  | guestClosed =>
    obtain rfl := Option.some.inj ht
    exact h.frame rfl rfl rfl rfl fun _ => ⟨.inr rfl, shut_over _⟩
  | upstreamClosed =>
    obtain rfl := Option.some.inj ht
    exact h.frame rfl rfl rfl rfl fun _ => ⟨shut_over _, .inr rfl⟩
  | fault => obtain rfl := Option.some.inj ht; exact h.close
  | expired => obtain rfl := Option.some.inj ht; exact h.close
  | grantsChanged =>
    obtain rfl := Option.some.inj ht
    split_ifs
    · exact h.close
    · exact h
  | begin now =>
    unfold Bridge.step at ht
    simp only at ht
    split at ht
    · rename_i m waiting hr hw
      obtain rfl := Option.some.inj ht
      refine h.frame rfl rfl rfl ?_ h.unregistered
      simp [pending, hr, hw]
    · cases ht
  | look =>
    unfold Bridge.step at ht
    simp only at ht
    split at ht
    · rename_i hr
      obtain rfl := Option.some.inj ht
      exact h.frame rfl rfl rfl (by simp [pending, hr]) h.unregistered
    · rename_i hr
      obtain rfl := Option.some.inj ht
      exact h.frame rfl rfl rfl (by simp [pending, hr]) h.unregistered
    · cases ht
  | act =>
    unfold Bridge.step at ht
    simp only at ht
    split at ht
    · rename_i m current hr
      obtain rfl := Option.some.inj ht
      rcases s.relay_cases m current with he | he | ⟨d, rfl, hfrom, hraw, hd, -, he⟩ |
        ⟨d, rfl, hfrom, hd, -, he⟩
      · rw [he]; exact h.finish hr
      · rw [he]; exact h.close.finish hr
      · rw [he]; exact h.finish_toBb hr hfrom hraw hd
      · rw [he]; exact h.finish_toGuest hr hfrom hd
    · cases ht
  | reject =>
    unfold Bridge.step at ht
    simp only at ht
    split_ifs at ht with hr
    obtain rfl := Option.some.inj ht
    obtain ⟨⟨m, r⟩, hr⟩ := Option.isSome_iff_exists.mp hr
    exact h.close.finish hr

end Sound

theorem Begins.sound {s : Bridge} (h : Begins s) : Sound s where
  toGuest := by simp [h.toGuest]
  toBb := by simp [h.toBb]
  order := ⟨[], by simp [h.received, pending, h.running, h.waiting], by simp [h.toGuest],
    by simp [h.toBb]⟩
  numbers := by simp [h.received]
  unregistered h0 := absurd (h.registered.symm.trans h0) (by decide)

/-- The events after which nothing is sent: the grants change, a resolution is null, or a frame of
the guest is malformed. -/
def Stops (s : Bridge) : BridgeEvent → Prop
  | .grantsChanged => True
  | .expired => True
  | .act => ∃ m current, s.running = some (m, .resolved current) ∧
      (current = none ∨ m.fromGuest = true ∧ ¬ WellFormed m.raw)
  | _ => False

theorem Sound.quiet_of_stops {s t : Bridge} (h : Sound s) {e : BridgeEvent} (he : s.Stops e)
    (ht : s.step e = some t) : t.Quiet ∧ t.toGuest = s.toGuest ∧ t.toBb = s.toBb := by
  cases e with
  | grantsChanged =>
    obtain rfl := Option.some.inj ht
    split_ifs with hr
    · exact ⟨s.quiet_close, rfl, rfl⟩
    · exact ⟨h.unregistered (Bool.eq_false_of_not_eq_true hr), rfl, rfl⟩
  | expired =>
    obtain rfl := Option.some.inj ht
    exact ⟨s.quiet_close, rfl, rfl⟩
  | act =>
    obtain ⟨m, current, hr, hstop⟩ := he
    unfold Bridge.step at ht
    rw [hr] at ht
    obtain rfl := Option.some.inj ht
    have hclose : s.relay m current = s.close := by
      unfold relay
      cases current with
      | none => rfl
      | some shares =>
        rcases hstop with hnull | ⟨hfrom, hbad⟩
        · cases hnull
        · simp only [hfrom, if_true, filterClientFrame_malformed hbad, invalidMessage]
    rw [hclose]
    exact ⟨s.quiet_close, rfl, rfl⟩
  | _ => exact he.elim

end Bridge

/-! ## The result -/

/-- **Realtime bridge.** However frames, grants and sockets go, what is sent stays in the scope that
was resolved for it, in the order it came and once, and nothing is sent after the bridge has been
stopped. -/
theorem bridge_scope {s₀ s : Bridge} (h₀ : s₀.Begins)
    (h : Machine.Reaches Bridge.step (fun _ _ => True) s₀ s) :
    (∀ d ∈ s.toGuest, d.source.fromGuest = false ∧ ForGuest d.scope d.source.raw d.frame) ∧
      (∀ d ∈ s.toBb, d.source.fromGuest = true ∧ d.frame = d.source.raw ∧
        ClientCleared d.scope d.frame) ∧
      (s.received.map Incoming.number).Nodup ∧
      (s.toGuest.map Outgoing.source).Sublist (s.received.filter fun m => !m.fromGuest) ∧
      (s.toBb.map Outgoing.source).Sublist (s.received.filter fun m => m.fromGuest) ∧
      ∀ e t, s.Stops e → s.step e = some t →
        ∀ u, Machine.Reaches Bridge.step (fun _ _ => True) t u →
          u.toGuest = s.toGuest ∧ u.toBb = s.toBb := by
  have hs : Bridge.Sound s := h.invariant h₀.sound fun _ _ _ ht _ hstep => ht.step hstep
  obtain ⟨done, hreceived, hguest, hbb⟩ := hs.order
  have hdone : done.Sublist s.received := hreceived ▸ List.sublist_append_left _ _
  refine ⟨hs.toGuest, hs.toBb, ?_, hguest.trans (hdone.filter _), hbb.trans (hdone.filter _),
    fun e t he ht u hu => ?_⟩
  · rw [hs.numbers]
    exact List.nodup_range
  · obtain ⟨hquiet, hg, hb⟩ := hs.quiet_of_stops he ht
    obtain ⟨hg', hb'⟩ := hquiet.reaches hu
    exact ⟨hg'.trans hg, hb'.trans hb⟩

/-! ## A number that no double holds -/

/-- An invitation to thread `t` of project `p`. -/
def threadToken : Token :=
  { id := ['g'], hash := ['h'], label := [], createdAt := Number.ofNat 0,
    shares := [⟨['t'], ['p'], .read, Number.ofNat 0⟩], nodup := List.nodup_singleton _ }

/-- The bridge of a session with that invitation. -/
def threadBridge : Bridge :=
  { id := some ['s'], sessions := OrderedMap.ofEntries [(['s'], ⟨['s'], [['g']], 1⟩)],
    store := (InMemoryStore.new []).put threadToken, guest := .open, upstream := .connecting,
    registered := true, waiting := [], running := none, received := [], toGuest := [], toBb := [] }

theorem threadBridge_begins : threadBridge.Begins := ⟨rfl, rfl, rfl, rfl, rfl, rfl, rfl, rfl⟩

/-- A change of the thread that names another project, with a number too large for a double. -/
def hugeFrame : Text :=
  "\x7b\"type\":\"changed\",\"entity\":\"thread\",\"id\":\"t\",".toList ++
    "\"metadata\":\x7b\"projectId\":\"x\"\x7d,\"n\":1e999\x7d".toList

/-- The frame goes through the bridge. -/
def relayHuge : Option Bridge :=
  Machine.exec Bridge.step (fun _ _ => True) threadBridge
    [.opened, .frame false hugeFrame, .begin 0, .look, .look, .act]

/-- What stands under `n` in a frame that came and in the one that was sent. -/
def readings (d : Outgoing) : Option Leaf × Option Leaf :=
  ((Json.parse d.source.raw).bind (Json.look [.name ['n']]),
    (Json.parse d.frame).bind (Json.look [.name ['n']]))

theorem readings_relayHuge :
    relayHuge.map (fun s => s.toGuest.map readings) = some [(some (.num none), some .null)] := by
  decide +kernel

/-- A frame that is written anew may read otherwise beyond the id of the project. -/
theorem not_bridge_faithful :
    ¬ ∀ s₀ s : Bridge, s₀.Begins → Machine.Reaches Bridge.step (fun _ _ => True) s₀ s →
      ∀ d ∈ s.toGuest, ∃ bb sent, Json.parse d.source.raw = some bb ∧ Json.parse d.frame = some sent ∧
        ∀ ps, ¬ projectPath <+: ps → Json.look ps sent = Json.look ps bb := by
  intro hclaim
  obtain ⟨s, hs, hread⟩ := Option.map_eq_some_iff.mp readings_relayHuge
  obtain ⟨d, hd, hleaves⟩ := List.map_eq_singleton_iff.mp hread
  obtain ⟨bb, sent, hbb, hsent, hsame⟩ := hclaim threadBridge s threadBridge_begins
    (Machine.reaches_of_exec hs) d (by rw [hd]; exact List.mem_singleton_self d)
  unfold readings at hleaves
  rw [hbb, hsent] at hleaves
  obtain ⟨hfrom, hto⟩ := Prod.mk.inj hleaves
  have hpath := hsame [.name ['n']] (by decide)
  rw [Option.bind_some] at hfrom hto
  rw [hfrom, hto] at hpath
  cases hpath

theorem bridge_scope_huge :
    ∃ s, Machine.Reaches Bridge.step (fun _ _ => True) threadBridge s ∧ s.toGuest ≠ [] ∧
      ∀ d ∈ s.toGuest, d.source.fromGuest = false ∧ ForGuest d.scope d.source.raw d.frame := by
  obtain ⟨s, hs, hread⟩ := Option.map_eq_some_iff.mp readings_relayHuge
  have hreach := Machine.reaches_of_exec hs
  refine ⟨s, hreach, ?_, (bridge_scope threadBridge_begins hreach).1⟩
  intro hnone
  rw [hnone] at hread
  cases hread

end BbShared
