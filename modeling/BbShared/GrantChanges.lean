import BbShared.Boundary
import BbShared.Relays
import BbShared.ShareDurability

/-!
# Relays and changes of the grants

`server.ts`: the handlers of the owner's calls and `emitTokensChanged`, over the queue of the changes
and the relays of the gateway.  A call that goes through aborts the relays in flight before it
settles; a mint looks up the titles of its threads in between.  A call that is rejected aborts none,
so that what was let through under a change stays in flight when the change is put back.

`Held` says by what a relay in flight is permitted, while a change runs and between the changes.
`relays_end_with_grants`: the condition under which no relay outlives its grant.
-/

namespace BbShared

open Js

/-! ## State -/

def ShareCall.isMint : ShareCall → Bool
  | .mintToken _ _ => true
  | _ => false

/-- A change is in memory, and its record is not written yet. -/
def ShareQueue.changing (s : ShareQueue) : Bool :=
  match s.running with
  | none => false
  | some op =>
    match op.phase with
    | .operating => false
    | _ => true

/-- A minted invitation is about to take its first thread. -/
def ShareQueue.attaches (s : ShareQueue) : Bool :=
  match s.running with
  | none => false
  | some op =>
    match op.phase with
    | .attaching _ _ => true
    | _ => false

/-- The plugin, as far as the owner's calls and the guests' requests go.  `titling` are the mints
that are durable, while the titles of their threads are looked up; `answered` records the calls that
have settled for the owner, and is not read. -/
structure Sharing where
  shares : ShareQueue
  sessions : Sessions
  relays : List GuestRelay
  titling : List SettledShareCall
  answered : List SettledShareCall

inductive SharingEvent where
  | shares (e : ShareEvent)
  /-- The titles for a mint have been looked up. -/
  | titled (i : ℕ)
  /-- Another handler calls `emitTokensChanged`. -/
  | emit
  /-- Invitations are redeemed, in any way. -/
  | sessions (next : Sessions)
  | request (now : ℕ) (req : Request)
  | relay (i : ℕ) (e : FetchEvent)

namespace Sharing

variable (hmac : Hmac) (aes : Aes) (authority : Text → Text → Option Text) (base : BaseUrl)

/-! ## Steps -/

def gateway (s : Sharing) : Gateway := ⟨base.origin, s.sessions, s.shares.live.store⟩

/-- `emitTokensChanged`. -/
def emitTokensChanged (s : Sharing) : Sharing := { s with relays := s.relays.map GuestRelay.abort }

/-- The handler of a call, after `mutateShares`. -/
def handled (s : Sharing) (c : SettledShareCall) : Sharing :=
  match c.result with
  | .error _ => { s with answered := s.answered ++ [c] }
  | .ok _ =>
    if c.call.isMint then { s with titling := s.titling ++ [c] }
    else { s.emitTokensChanged with answered := s.answered ++ [c] }

/-- `none` where the event cannot happen.  A mint adds its first thread without a wait for I/O, and
no request comes in between. -/
def step (s : Sharing) : SharingEvent → Option Sharing
  | .shares e =>
    (s.shares.step hmac aes e).map fun shares =>
      (shares.settled.drop s.shares.settled.length).foldl handled { s with shares }
  | .titled i =>
    (s.titling[i]?).map fun c =>
      { s.emitTokensChanged with titling := s.titling.eraseIdx i, answered := s.answered ++ [c] }
  | .emit => some s.emitTokensChanged
  | .sessions next => some { s with sessions := next }
  | .request now req =>
    if s.shares.attaches then none
    else
      match admission (s.gateway base) now req with
      | none => some s
      | some a =>
        let duringChange := if s.shares.changing then some s.shares.settled.length else none
        some { s with relays := s.relays ++ [.begin (s.gateway base) req a duringChange] }
  | .relay i e =>
    match s.relays[i]? with
    | none => none
    | some r =>
      (r.advance authority base (s.gateway base) e).map fun r =>
        { s with relays := s.relays.set i r }

/-- A plugin that has loaded its invitations and its sessions. -/
def start (hmacKey : Bytes) (loaded : LoadedShares) (sessions : Sessions) : Sharing :=
  ⟨.start hmac hmacKey loaded, sessions, [], [], []⟩

/-- An event that cannot happen changes nothing. -/
def next (s : Sharing) (e : SharingEvent) : Sharing := (s.step hmac aes authority base e).getD s

end Sharing

/-! ## Purpose -/

/-- The invitations permit what a relay was let through for, in the session it came in. -/
def GuestRelay.PermittedBy (r : GuestRelay) (store : InMemoryStore) : Prop :=
  r.admission.PermittedBy r.req.method store

instance (r : GuestRelay) (store : InMemoryStore) : Decidable (r.PermittedBy store) :=
  inferInstanceAs (Decidable (r.admission.PermittedBy _ _))

/-- The invitations permit every relay in flight. -/
def Sharing.Covered (s : Sharing) : Prop :=
  ∀ r ∈ s.relays, r.InFlight → r.PermittedBy s.shares.live.store

variable {hmac : Hmac} {aes : Aes} {authority : Text → Text → Option Text} {base : BaseUrl}

variable (hmac aes authority base) in
/-- When a call of the owner settles, fulfilled or rejected, the relays in flight are permitted. -/
def Sharing.EndsRelays (s : Sharing) (e : SharingEvent) : Prop :=
  ∀ t, s.step hmac aes authority base e = some t → t.answered ≠ s.answered → t.Covered

/-- The event by which the call that runs cannot be made durable. -/
def ShareQueue.Fails (s : ShareQueue) (op : ShareOperation) : ShareEvent → Prop
  | .persist => op.phase = .persisting ∧
      ∃ message, s.live.snapshot.bind (prepareShares s.recoveryRequired) = .error message
  | .write (.error _) => ∃ tokens, op.phase = .writing tokens
  | _ => False

/-- Where a change is put back, what was let through under it is permitted without it. -/
def Sharing.RestoresCover (s : Sharing) : SharingEvent → Prop
  | .shares e => ∀ op ∈ s.shares.running, s.shares.Fails op e → ∀ r ∈ s.relays, r.InFlight →
      r.duringChange = some s.shares.settled.length →
        r.PermittedBy (s.shares.live.restore op.priorTokens op.priorRawTokens).store
  | _ => True

/-- The random ids that are drawn for an invitation are named by no session in use. -/
def Sharing.FreshIds (s : Sharing) : SharingEvent → Prop
  | .shares (.operate _ draws) => ∀ bytes ∈ draws.ids, ∀ r ∈ s.relays,
      generateTokenId bytes ∉ r.admission.session.grants
  | _ => True

/-! ## Changes and what they permit -/

namespace GuestRelay

theorem permittedBy_congr {r : GuestRelay} {store store' : InMemoryStore}
    (h : ∀ g ∈ r.admission.session.grants, store.getToken g = store'.getToken g) :
    r.PermittedBy store ↔ r.PermittedBy store' := by
  unfold PermittedBy Admission.PermittedBy
  rw [grantToken_congr h]

theorem Goes.permittedBy {r r' : GuestRelay} (h : Goes r r') (store : InMemoryStore) :
    r'.PermittedBy store ↔ r.PermittedBy store := by
  unfold PermittedBy
  rw [h.admission, h.req]

end GuestRelay

namespace LiveShares

theorem Replaces.getToken_of_ne {live : LiveShares} {store : InMemoryStore} {id g : Text}
    (h : live.Replaces store id) (hg : g ≠ id) : store.getToken g = live.store.getToken g := by
  obtain ⟨t, t', -, hid, -, rfl⟩ := h.replaced
  rw [InMemoryStore.getToken_put, if_neg (by rw [hid]; exact hg)]

/-- A mint files one invitation under an id that it draws. -/
theorem change_mint {live live' : LiveShares} {now : ℕ} {draws : InMemoryStore.MintDraws}
    {call : ShareCall} {attachment : Attachment} (hmint : call.isMint = true)
    (h : live.change hmac now draws call = some (.ok (live', attachment))) :
    ∃ bytes ∈ draws.ids,
      (∀ g, g ≠ generateTokenId bytes → live'.store.getToken g = live.store.getToken g) ∧
      ∀ a ∈ attachment, a.1 = generateTokenId bytes := by
  cases call with
  | mintToken label firstThread =>
    obtain ⟨⟨store, token, rawToken⟩, hstore, heq⟩ := Option.map_eq_some_iff.mp h
    obtain ⟨rfl, rfl⟩ := Prod.mk.inj (Except.ok.inj heq)
    unfold InMemoryStore.mintToken at hstore
    simp only at hstore
    split at hstore
    · cases hstore
    · rename_i id hfind
      obtain ⟨rfl, rfl, rfl⟩ := by simpa only [Option.some.injEq, Prod.mk.injEq] using hstore
      obtain ⟨bytes, hbytes, rfl⟩ := List.mem_map.mp (List.mem_of_find?_eq_some hfind)
      refine ⟨bytes, hbytes, fun g hg => ?_, fun a ha => ?_⟩
      · rw [InMemoryStore.getToken_put, if_neg hg]
      · obtain ⟨f, -, rfl⟩ := Option.mem_map.mp ha
        rfl
  | _ => cases hmint

/-- Only a mint goes on to share a first thread. -/
theorem isMint_of_attachment {live live' : LiveShares} {now : ℕ}
    {draws : InMemoryStore.MintDraws} {call : ShareCall} {a : Text × InMemoryStore.AddShareInput}
    (h : live.change hmac now draws call = some (.ok (live', some a))) : call.isMint = true := by
  have one {result : Except StoreError InMemoryStore} {f : InMemoryStore → LiveShares}
      (h : (result.map fun store => (f store, (none : Attachment))) = .ok (live', some a)) :
      False := by
    cases result with
    | error e => cases h
    | ok store => cases (Prod.mk.inj (Except.ok.inj h)).2
  cases call with
  | mintToken label firstThread => rfl
  | _ => exact (one (Option.some.inj h)).elim

end LiveShares

/-! ## The invariant -/

namespace ShareQueue

variable {s t : ShareQueue} {r : GuestRelay}

/-- What is known of a relay in flight while a call runs. -/
structure Standing (s : ShareQueue) (op : ShareOperation) (r : GuestRelay) : Prop where
  prior : r.duringChange ≠ some s.settled.length → r.PermittedBy op.began.1.store
  mint : op.call.isMint = true → r.PermittedBy s.live.store
  attaching : ∀ tokenId share, op.phase = .attaching tokenId share →
    op.call.isMint = true ∧ tokenId ∉ r.admission.session.grants

/-- What is known of a relay in flight. -/
structure Held (s : ShareQueue) (r : GuestRelay) : Prop where
  counted : ∀ n ∈ r.duringChange,
    n ≤ s.settled.length ∧ (s.changing = false → n < s.settled.length)
  idle : s.running = none → r.PermittedBy s.live.store
  standing : ∀ op ∈ s.running, Standing s op r

/-- A call that settles in a step, while its relays are not aborted, is a mint. -/
def AbortsAll (s t : ShareQueue) : Prop :=
  ∃ c, t.settled = s.settled ++ [c] ∧ c.result = .ok () ∧ c.call.isMint = false

theorem changing_of_idle (h : s.running = none) : s.changing = false := by
  unfold changing
  rw [h]

theorem changing_of_operating {op : ShareOperation} (hr : s.running = some op)
    (hp : op.phase = .operating) : s.changing = false := by
  unfold changing
  rw [hr]
  simp only [hp]

namespace Held

/-- A call settles. -/
theorem settled (h : Held s r) (hidle : t.running = none)
    (hlength : t.settled.length = s.settled.length + 1) (hlive : r.PermittedBy t.live.store) :
    Held t r := by
  refine ⟨fun n hn => ?_, fun _ => hlive, fun op hop => ?_⟩
  · have hle := (h.counted n hn).1
    rw [hlength]
    omega
  · rw [hidle] at hop
    cases hop

/-- A call goes on. -/
theorem proceed (h : Held s r) {live : LiveShares} {op : ShareOperation} {phase : SharePhase}
    (hphase : phase ≠ .operating) (hstanding : Standing { s with live } { op with phase } r) :
    Held ({ s with live }.run op phase) r := by
  refine ⟨fun n hn => ⟨(h.counted n hn).1, fun hchanging => ?_⟩, nofun, fun op' hop' => ?_⟩
  · unfold changing ShareQueue.run at hchanging
    cases phase with
    | operating => exact absurd rfl hphase
    | _ => cases hchanging
  · obtain rfl := Option.some.inj hop'
    exact ⟨hstanding.prior, hstanding.mint, hstanding.attaching⟩

/-- What the call found is put back. -/
theorem rollback (h : Held s r) (hs : Restorable hmac s) {op : ShareOperation}
    (hr : s.running = some op) (message : Text)
    (hcover : r.duringChange = some s.settled.length →
      r.PermittedBy (s.live.restore op.priorTokens op.priorRawTokens).store) :
    Held (s.rollback op message) r := by
  refine h.settled rfl (by simp [ShareQueue.rollback, ShareQueue.settle]) ?_
  show r.PermittedBy (s.live.restore op.priorTokens op.priorRawTokens).store
  by_cases hduring : r.duringChange = some s.settled.length
  · exact hcover hduring
  · rw [(hs.running op hr).restored]
    exact (h.standing op hr).prior hduring

/-- Before the change of the call that runs, its relays are permitted as they were before it. -/
theorem permitted_of_operating (h : Held s r) (hs : Restorable hmac s) {op : ShareOperation}
    (hr : s.running = some op) (hp : op.phase = .operating) :
    r.duringChange ≠ some s.settled.length ∧ r.PermittedBy s.live.store := by
  have hne : r.duringChange ≠ some s.settled.length := fun hd =>
    absurd ((h.counted _ hd).2 (changing_of_operating hr hp)) (lt_irrefl _)
  have hphase := (hs.running op hr).phase
  unfold PhaseOk at hphase
  rw [hp] at hphase
  refine ⟨hne, ?_⟩
  rw [hphase]
  exact (h.standing op hr).prior hne

/-- The change of a call. -/
theorem operate (h : Held s r) (hs : Restorable hmac s) {op : ShareOperation}
    (hr : s.running = some op) (hp : op.phase = .operating) {now : ℕ}
    {draws : InMemoryStore.MintDraws} {changed : Except StoreError (LiveShares × Attachment)}
    (hchange : s.live.change hmac now draws op.call = some changed)
    (hfresh : ∀ bytes ∈ draws.ids, generateTokenId bytes ∉ r.admission.session.grants) :
    Held (s.operated op changed) r := by
  obtain ⟨hne, hpermitted⟩ := h.permitted_of_operating hs hr hp
  cases changed with
  | error e =>
    exact h.settled rfl (by simp [ShareQueue.operated, ShareQueue.settle]) hpermitted
  | ok result =>
    obtain ⟨live, attachment⟩ := result
    -- A mint adds an invitation that no session in use names.
    have hmint (hm : op.call.isMint = true) : r.PermittedBy live.store := by
      obtain ⟨bytes, hbytes, hget, -⟩ := LiveShares.change_mint hm hchange
      refine (GuestRelay.permittedBy_congr fun g hg => ?_).mpr hpermitted
      refine hget g ?_
      rintro rfl
      exact hfresh bytes hbytes hg
    cases attachment with
    | none => exact h.proceed (by simp) ⟨(h.standing op hr).prior, hmint, nofun⟩
    | some a =>
      have hm := LiveShares.isMint_of_attachment hchange
      obtain ⟨bytes, hbytes, -, ha⟩ := LiveShares.change_mint hm hchange
      refine h.proceed (by simp) ⟨(h.standing op hr).prior, hmint, fun tokenId share hphase => ?_⟩
      obtain ⟨rfl, -⟩ := SharePhase.attaching.inj hphase
      rw [ha a rfl]
      exact ⟨hm, hfresh bytes hbytes⟩

/-- The first thread of a mint. -/
theorem attach (h : Held s r) (hs : Restorable hmac s) {op : ShareOperation}
    (hr : s.running = some op) {tokenId : Text} {share : InMemoryStore.AddShareInput}
    (hp : op.phase = .attaching tokenId share) (now : ℕ) :
    Held (s.operated op ((s.live.store.addShare tokenId share now).map fun store =>
      ({ s.live with store }, none))) r := by
  have hstanding := h.standing op hr
  obtain ⟨hm, hnot⟩ := hstanding.attaching tokenId share hp
  obtain ⟨store, hstore, -⟩ := hs.attached hr hp now
  rw [hstore]
  refine h.proceed (by simp) ⟨hstanding.prior, fun _ => ?_, nofun⟩
  refine (GuestRelay.permittedBy_congr fun g hg => ?_).mpr (hstanding.mint hm)
  refine (LiveShares.replaces_addShare hstore).getToken_of_ne ?_
  rintro rfl
  exact hnot hg

/-- **Step lemma.** Of a relay that the step does not abort. -/
theorem step (h : Held s r) (hs : Restorable hmac s) {e : ShareEvent}
    (hfresh : ∀ now draws, e = .operate now draws →
      ∀ bytes ∈ draws.ids, generateTokenId bytes ∉ r.admission.session.grants)
    (hcover : ∀ op ∈ s.running, s.Fails op e → r.duringChange = some s.settled.length →
      r.PermittedBy (s.live.restore op.priorTokens op.priorRawTokens).store)
    (hstep : s.step hmac aes e = some t) : Held t r ∨ AbortsAll s t := by
  cases Step.of_step hstep with
  | call call =>
    refine .inl ⟨h.counted, h.idle, fun op hop => ?_⟩
    have hstanding := h.standing op hop
    exact ⟨hstanding.prior, hstanding.mint, hstanding.attaching⟩
  | begin hr hw =>
    have hlive := h.idle hr
    refine .inl ⟨fun n hn => ?_, nofun, fun op hop => ?_⟩
    · have hlt := (h.counted n hn).2 (changing_of_idle hr)
      exact ⟨hlt.le, fun _ => hlt⟩
    · obtain rfl := Option.some.inj hop
      exact ⟨fun _ => hlive, fun _ => hlive, nofun⟩
  | operate hr hp hchange => exact .inl (h.operate hs hr hp hchange (hfresh _ _ rfl))
  | attach hr hp => exact .inl (h.attach hs hr hp _)
  | @persist op hr hp =>
    unfold ShareQueue.persist
    cases hprepared : s.live.snapshot.bind (prepareShares s.recoveryRequired) with
    | error message => exact .inl (h.rollback hs hr message (hcover op hr ⟨hp, message, hprepared⟩))
    | ok tokens =>
      have hstanding := h.standing op hr
      exact .inl (h.proceed (by simp) ⟨hstanding.prior, hstanding.mint, nofun⟩)
  | @write op tokens written hr hp =>
    cases written with
    | error message => exact .inl (h.rollback hs hr message (hcover op hr ⟨tokens, hp⟩))
    | ok w =>
      cases hm : op.call.isMint with
      | false => exact .inr ⟨⟨op.call, .ok (), op.began, _⟩, rfl, rfl, hm⟩
      | true =>
        exact .inl (h.settled rfl (by simp [ShareQueue.write, ShareQueue.settle])
          ((h.standing op hr).mint hm))

end Held

end ShareQueue

/-! ## Steps of the plugin -/

namespace ShareQueue

variable {s t : ShareQueue}

/-- At most one call settles in a step, and none runs after it. -/
theorem settled_step {e : ShareEvent} (h : s.step hmac aes e = some t) :
    t.settled = s.settled ∨ ∃ c, t.settled = s.settled ++ [c] ∧ t.running = none := by
  cases Step.of_step h with
  | call call => exact .inl rfl
  | begin hr hw => exact .inl rfl
  | @operate now draws op changed hr hp hchange =>
    rcases changed with e | ⟨live, _ | a⟩
    · exact .inr ⟨_, rfl, rfl⟩
    · exact .inl rfl
    · exact .inl rfl
  | @attach now op tokenId share hr hp =>
    cases s.live.store.addShare tokenId share now with
    | error e => exact .inr ⟨_, rfl, rfl⟩
    | ok store => exact .inl rfl
  | persist hr hp =>
    unfold ShareQueue.persist
    cases s.live.snapshot.bind (prepareShares s.recoveryRequired) with
    | error message => exact .inr ⟨_, rfl, rfl⟩
    | ok tokens => exact .inl rfl
  | @write op tokens written hr hp =>
    cases written with
    | error message => exact .inr ⟨_, rfl, rfl⟩
    | ok w => exact .inr ⟨_, rfl, rfl⟩

theorem step_of_fails {op : ShareOperation} {e : ShareEvent} (hr : s.running = some op)
    (h : s.Fails op e) : ∃ message, s.step hmac aes e = some (s.rollback op message) := by
  unfold Fails at h
  split at h
  · obtain ⟨hp, message, hprepared⟩ := h
    refine ⟨message, ?_⟩
    unfold ShareQueue.step ShareQueue.persist
    simp only [hr, hp, hprepared]
  · rename_i message
    obtain ⟨tokens, hp⟩ := h
    refine ⟨message, ?_⟩
    unfold ShareQueue.step ShareQueue.write
    simp only [hr, hp]
  · exact h.elim

theorem Held.goes {r r' : GuestRelay} (h : Held s r) (hg : GuestRelay.Goes r r') : Held s r' := by
  refine ⟨fun n hn => h.counted n (hg.duringChange ▸ hn),
    fun hi => (hg.permittedBy _).mpr (h.idle hi),
    fun op hop => ?_⟩
  have hstanding := h.standing op hop
  refine ⟨fun hd => (hg.permittedBy _).mpr (hstanding.prior (hg.duringChange ▸ hd)),
    fun hm => (hg.permittedBy _).mpr (hstanding.mint hm), fun tokenId share hp => ?_⟩
  rw [hg.admission]
  exact hstanding.attaching tokenId share hp

end ShareQueue

namespace Sharing

variable {s t : Sharing}

theorem handled_shares (s : Sharing) (c : SettledShareCall) : (s.handled c).shares = s.shares := by
  unfold handled
  cases c.result with
  | error message => rfl
  | ok u =>
    simp only
    split_ifs <;> rfl

theorem not_inFlight_emit {r : GuestRelay} (h : r ∈ s.emitTokensChanged.relays) : ¬ r.InFlight := by
  obtain ⟨r, -, rfl⟩ := List.mem_map.mp h
  exact r.not_inFlight_abort

/-- A relay that the handler of a call leaves in flight. -/
theorem mem_relays_handled {c : SettledShareCall} {r : GuestRelay} (hr : r ∈ (s.handled c).relays)
    (hfly : r.InFlight) : r ∈ s.relays ∧ ¬ (c.result = .ok () ∧ c.call.isMint = false) := by
  unfold handled at hr
  cases hresult : c.result with
  | error message =>
    rw [hresult] at hr
    exact ⟨hr, nofun⟩
  | ok u =>
    rw [hresult] at hr
    simp only at hr
    split_ifs at hr with hm
    · exact ⟨hr, fun h => absurd hm (by simp [h.2])⟩
    · exact absurd hfly (not_inFlight_emit hr)

/-- What a step of the changes does to the relays and to the calls that have settled. -/
theorem step_shares {e : ShareEvent}
    (h : s.step hmac aes authority base (.shares e) = some t) :
    s.shares.step hmac aes e = some t.shares ∧
      (∀ r ∈ t.relays, r.InFlight → r ∈ s.relays ∧ ¬ ShareQueue.AbortsAll s.shares t.shares) ∧
      (t.answered ≠ s.answered → t.shares.running = none) := by
  obtain ⟨shares, hshares, rfl⟩ := Option.map_eq_some_iff.mp h
  rcases ShareQueue.settled_step hshares with heq | ⟨c, heq, hidle⟩
  · have hdrop : shares.settled.drop s.shares.settled.length = [] := by rw [heq, List.drop_length]
    rw [hdrop]
    refine ⟨hshares, fun r hr _ => ⟨hr, ?_⟩, fun hne => absurd rfl hne⟩
    rintro ⟨c, hc, -⟩
    have hlength := congrArg List.length (heq.symm.trans hc)
    simp at hlength
  · have hdrop : shares.settled.drop s.shares.settled.length = [c] := by rw [heq, List.drop_left]
    rw [hdrop, List.foldl_cons, List.foldl_nil, handled_shares]
    refine ⟨hshares, fun r hr hfly => ?_, fun _ => hidle⟩
    obtain ⟨hmem, hnot⟩ := mem_relays_handled hr hfly
    refine ⟨hmem, ?_⟩
    rintro ⟨c', hc', hresult, hm⟩
    obtain rfl := List.append_cancel_left (heq.symm.trans hc') |> List.singleton_inj.mp
    exact hnot ⟨hresult, hm⟩

/-- A rollback keeps the relays, and answers the call. -/
theorem step_of_fails {op : ShareOperation} {e : ShareEvent} (hr : s.shares.running = some op)
    (h : s.shares.Fails op e) :
    ∃ t, s.step hmac aes authority base (.shares e) = some t ∧ t.relays = s.relays ∧
      t.answered ≠ s.answered ∧
      t.shares.live = s.shares.live.restore op.priorTokens op.priorRawTokens := by
  obtain ⟨message, hstep⟩ := ShareQueue.step_of_fails hr h
  have hdrop : (s.shares.rollback op message).settled.drop s.shares.settled.length =
      [⟨op.call, .error message, op.began, ((s.shares.rollback op message).live, s.shares.kv)⟩] :=
    List.drop_left
  have hrun : s.step hmac aes authority base (.shares e) =
      some (((s.shares.rollback op message).settled.drop s.shares.settled.length).foldl handled
        { s with shares := s.shares.rollback op message }) := congrArg (Option.map _) hstep
  rw [hdrop] at hrun
  refine ⟨_, hrun, rfl, fun heq => ?_, rfl⟩
  have hlength := congrArg List.length heq
  simp [handled] at hlength

variable (hmac) in
/-- The invariant. -/
structure Kept (s : Sharing) : Prop where
  restorable : ShareQueue.Restorable hmac s.shares
  held : ∀ r ∈ s.relays, r.InFlight → s.shares.Held r

/-- A request that is let through now. -/
theorem Kept.begin (h : Kept hmac s) {now : ℕ} {req : Request} {a : Admission}
    (hadmitted : admission (s.gateway base) now req = some a)
    (hattaches : s.shares.attaches = false) :
    s.shares.Held (.begin (s.gateway base) req a
      (if s.shares.changing then some s.shares.settled.length else none)) := by
  obtain ⟨hreq, hadmission, hduring⟩ := GuestRelay.begin_frame (s.gateway base) req a
    (if s.shares.changing then some s.shares.settled.length else none)
  have hlive : (GuestRelay.begin (s.gateway base) req a
      (if s.shares.changing then some s.shares.settled.length else none)).PermittedBy
      s.shares.live.store := by
    unfold GuestRelay.PermittedBy
    rw [hreq, hadmission]
    exact admission_permitted hadmitted
  refine ⟨fun n hn => ?_, fun _ => hlive, fun op hop => ⟨fun hd => ?_, fun _ => hlive, ?_⟩⟩
  · rw [hduring] at hn
    split_ifs at hn with hchanging
    · obtain rfl := Option.some.inj hn
      exact ⟨le_rfl, fun hc => absurd hchanging (by simp [hc])⟩
    · cases hn
  · -- Without a change in memory, the live invitations are those the call found.
    rw [hduring] at hd
    have hchanging : s.shares.changing = false := by
      by_contra hc
      rw [if_pos (Bool.eq_true_of_not_eq_false hc)] at hd
      exact hd rfl
    have hr : s.shares.running = some op := hop
    have hphase := (h.restorable.running op hop).phase
    unfold ShareQueue.changing at hchanging
    rw [hr] at hchanging
    unfold ShareQueue.PhaseOk at hphase
    cases hp : op.phase with
    | operating =>
      rw [hp] at hphase
      exact hphase ▸ hlive
    | _ => simp only [hp] at hchanging; cases hchanging
  · intro tokenId share hp
    have hr : s.shares.running = some op := hop
    unfold ShareQueue.attaches at hattaches
    rw [hr] at hattaches
    simp only [hp] at hattaches
    cases hattaches

/-- **Step lemma.** -/
theorem Kept.step (h : Kept hmac s) {e : SharingEvent} (hfresh : s.FreshIds e)
    (hcover : s.RestoresCover e) (hstep : s.step hmac aes authority base e = some t) :
    Kept hmac t := by
  cases e with
  | shares e =>
    obtain ⟨hshares, hrelays, -⟩ := step_shares hstep
    refine ⟨h.restorable.step hshares, fun r hr hfly => ?_⟩
    obtain ⟨hmem, hnot⟩ := hrelays r hr hfly
    refine ((h.held r hmem hfly).step h.restorable ?_ ?_ hshares).resolve_right hnot
    · rintro now draws rfl bytes hbytes
      exact hfresh bytes hbytes r hmem
    · exact fun op hop hfails => hcover op hop hfails r hmem hfly
  | titled i =>
    obtain ⟨c, -, rfl⟩ := Option.map_eq_some_iff.mp hstep
    exact ⟨h.restorable, fun r hr hfly => absurd hfly (not_inFlight_emit hr)⟩
  | emit =>
    obtain rfl := Option.some.inj hstep
    exact ⟨h.restorable, fun r hr hfly => absurd hfly (not_inFlight_emit hr)⟩
  | sessions next =>
    obtain rfl := Option.some.inj hstep
    exact ⟨h.restorable, h.held⟩
  | request now req =>
    unfold Sharing.step at hstep
    simp only at hstep
    by_cases hattaches : s.shares.attaches = true
    · rw [if_pos hattaches] at hstep
      cases hstep
    rw [if_neg hattaches] at hstep
    cases hadmitted : admission (s.gateway base) now req with
    | none =>
      rw [hadmitted] at hstep
      obtain rfl := Option.some.inj hstep
      exact h
    | some a =>
      rw [hadmitted] at hstep
      obtain rfl := Option.some.inj hstep
      refine ⟨h.restorable, fun r hr hfly => ?_⟩
      rcases List.mem_append.mp hr with hr | hr
      · exact h.held r hr hfly
      · rw [List.mem_singleton.mp hr]
        exact h.begin hadmitted (Bool.eq_false_of_not_eq_true hattaches)
  | relay i e =>
    unfold Sharing.step at hstep
    simp only at hstep
    cases hr : s.relays[i]? with
    | none => rw [hr] at hstep; cases hstep
    | some r =>
      rw [hr] at hstep
      obtain ⟨r', hadvance, rfl⟩ := Option.map_eq_some_iff.mp hstep
      have hgoes := GuestRelay.advance_goes hadvance
      refine ⟨h.restorable, fun u hu hfly => ?_⟩
      rcases List.mem_or_eq_of_mem_set hu with hu | rfl
      · exact h.held u hu hfly
      · exact (h.held r (List.mem_of_getElem? hr) (hgoes.inFlight hfly)).goes hgoes

/-! ## The result -/

theorem kept_start (hmac : Hmac) (aes : Aes) (hmacKey : Bytes) (key : Option RandomKey)
    (written : Option Nonce) (kv : Option Json) (sessions : Sessions) :
    Kept hmac (start hmac hmacKey (loadShares aes key written kv) sessions) := by
  have hids := nodup_loadShares aes key written kv
  generalize loadShares aes key written kv = loaded at hids ⊢
  refine ⟨⟨LiveShares.hashed_ofLoaded hmac hmacKey hids, fun op hop => ?_⟩, fun r hr => ?_⟩
  · cases hop
  · cases hr

theorem Kept.covered (h : Kept hmac s) (hidle : s.shares.running = none) : s.Covered :=
  fun r hr hfly => (h.held r hr hfly).idle hidle

/-- One step ends what its settled calls deny, exactly where the change that it puts back let nothing
through beyond what was there. -/
theorem Kept.endsRelays_iff (h : Kept hmac s) {e : SharingEvent} (hfresh : s.FreshIds e) :
    s.EndsRelays hmac aes authority base e ↔ s.RestoresCover e := by
  constructor
  · intro hends
    cases e with
    | shares e =>
      intro op hop hfails r hr hfly _
      obtain ⟨t, hstep, hrelays, hanswered, hlive⟩ := step_of_fails hop hfails
      have hcovered := hends t hstep hanswered r (hrelays ▸ hr) hfly
      rwa [hlive] at hcovered
    | _ => trivial
  · intro hcover t hstep hanswered
    have ht := h.step hfresh hcover hstep
    cases e with
    | shares e => exact ht.covered ((step_shares hstep).2.2 hanswered)
    | titled i =>
      obtain ⟨c, -, rfl⟩ := Option.map_eq_some_iff.mp hstep
      exact fun r hr hfly => absurd hfly (not_inFlight_emit hr)
    | emit =>
      obtain rfl := Option.some.inj hstep
      exact absurd rfl hanswered
    | sessions next =>
      obtain rfl := Option.some.inj hstep
      exact absurd rfl hanswered
    | request now req =>
      unfold Sharing.step at hstep
      simp only at hstep
      split at hstep
      · cases hstep
      · split at hstep
        · obtain rfl := Option.some.inj hstep
          exact absurd rfl hanswered
        · obtain rfl := Option.some.inj hstep
          exact absurd rfl hanswered
    | relay i e =>
      unfold Sharing.step at hstep
      simp only at hstep
      split at hstep
      · cases hstep
      · obtain ⟨r', -, rfl⟩ := Option.map_eq_some_iff.mp hstep
        exact absurd rfl hanswered

/-- The relay at an index, and that it does nothing more. -/
def Over (i : ℕ) (r : GuestRelay) (s : Sharing) : Prop :=
  ∃ r', s.relays[i]? = some r' ∧ ¬ r'.InFlight ∧ r'.fetches = r.fetches ∧ r'.forwarded = r.forwarded

theorem Over.emit {i : ℕ} {r : GuestRelay} (h : Over i r s) : Over i r s.emitTokensChanged := by
  obtain ⟨r', hr', -, hfetches, hforwarded⟩ := h
  refine ⟨r'.abort, ?_, r'.not_inFlight_abort, hfetches, hforwarded⟩
  exact List.getElem?_map.trans (congrArg (Option.map _) hr')

theorem Over.handled {i : ℕ} {r : GuestRelay} (h : Over i r s) (c : SettledShareCall) :
    Over i r (s.handled c) := by
  unfold Sharing.handled
  cases c.result with
  | error message => exact h
  | ok u =>
    simp only
    split_ifs
    · exact h
    · exact h.emit

/-- **Step lemma.** A relay that is not in flight neither fetches nor passes on. -/
theorem Over.step {i : ℕ} {r : GuestRelay} (h : Over i r s) {e : SharingEvent}
    (hstep : s.step hmac aes authority base e = some t) : Over i r t := by
  cases e with
  | shares e =>
    obtain ⟨shares, hshares, rfl⟩ := Option.map_eq_some_iff.mp hstep
    have hfold : ∀ (cs : List SettledShareCall) (u : Sharing), Over i r u →
        Over i r (cs.foldl Sharing.handled u) := by
      intro cs
      induction cs with
      | nil => exact fun u hu => hu
      | cons c cs ih => exact fun u hu => ih _ (hu.handled c)
    exact hfold _ _ h
  | titled j =>
    obtain ⟨c, -, rfl⟩ := Option.map_eq_some_iff.mp hstep
    exact h.emit
  | emit =>
    obtain rfl := Option.some.inj hstep
    exact h.emit
  | sessions next =>
    obtain rfl := Option.some.inj hstep
    exact h
  | request now req =>
    unfold Sharing.step at hstep
    simp only at hstep
    split at hstep
    · cases hstep
    · split at hstep
      · obtain rfl := Option.some.inj hstep
        exact h
      · obtain rfl := Option.some.inj hstep
        obtain ⟨r', hr', hrest⟩ := h
        exact ⟨r', List.getElem?_append_left (List.getElem?_eq_some_iff.mp hr').1 ▸ hr', hrest⟩
  | relay j e =>
    unfold Sharing.step at hstep
    simp only at hstep
    cases hj : s.relays[j]? with
    | none => rw [hj] at hstep; cases hstep
    | some u =>
      rw [hj] at hstep
      obtain ⟨u', hadvance, rfl⟩ := Option.map_eq_some_iff.mp hstep
      obtain ⟨r', hr', hover, hfetches, hforwarded⟩ := h
      by_cases hij : j = i
      · subst hij
        obtain rfl := Option.some.inj (hj.symm.trans hr')
        have hgoes := GuestRelay.advance_goes hadvance
        obtain ⟨hf, hw⟩ := hgoes.quiet hover
        have hlt := (List.getElem?_eq_some_iff.mp hj).1
        exact ⟨u', List.getElem?_set_self hlt, fun hfly => hover (hgoes.inFlight hfly),
          hf.trans hfetches, hw.trans hforwarded⟩
      · exact ⟨r', (List.getElem?_set_ne hij).trans hr', hover, hfetches, hforwarded⟩

theorem over_of_reaches {i : ℕ} {r : GuestRelay} (hr : s.relays[i]? = some r) (hover : ¬ r.InFlight)
    (h : Machine.Reaches (Sharing.step hmac aes authority base) (fun _ _ => True) s t) :
    Over i r t :=
  h.invariant ⟨r, hr, hover, rfl, rfl⟩ fun _ _ _ hu _ hstep => hu.step hstep

/-- **No relay outlives its grant**, exactly when nothing that a change let through, and that is
denied without it, is in flight where the change is put back.  For every run; a relay that is not in
flight fetches nothing and passes nothing on. -/
theorem relays_end_with_grants (hmac : Hmac) (aes : Aes) (authority : Text → Text → Option Text)
    (base : BaseUrl) (hmacKey : Bytes) (key : Option RandomKey) (written : Option Nonce)
    (kv : Option Json) (sessions : Sessions) (es : List SharingEvent)
    (hfresh : Machine.Always (next hmac aes authority base) FreshIds
      (start hmac hmacKey (loadShares aes key written kv) sessions) es) :
    (Machine.Always (next hmac aes authority base) (EndsRelays hmac aes authority base)
        (start hmac hmacKey (loadShares aes key written kv) sessions) es ↔
      Machine.Always (next hmac aes authority base) RestoresCover
        (start hmac hmacKey (loadShares aes key written kv) sessions) es) ∧
    ∀ (s t : Sharing) (i : ℕ) (r : GuestRelay),
      Machine.Reaches (step hmac aes authority base) (fun _ _ => True) s t →
      s.relays[i]? = some r → ¬ r.InFlight →
      ∃ r', t.relays[i]? = some r' ∧ ¬ r'.InFlight ∧ r'.fetches = r.fetches ∧
        r'.forwarded = r.forwarded := by
  have same : ∀ s e, Kept hmac s → FreshIds s e →
      (EndsRelays hmac aes authority base s e ↔ RestoresCover s e) :=
    fun s e hs hfresh => hs.endsRelays_iff hfresh
  have stay : ∀ s e, Kept hmac s → FreshIds s e → RestoresCover s e →
      Kept hmac (next hmac aes authority base s e) := by
    intro s e hs hfresh hcover
    unfold next
    cases hstep : s.step hmac aes authority base e with
    | none => exact hs
    | some t => exact hs.step hfresh hcover hstep
  exact ⟨Machine.always_congr_of same stay
      (kept_start hmac aes hmacKey key written kv sessions) hfresh,
    fun s t i r hrun hr hover => over_of_reaches hr hover hrun⟩

/-! ## A share that is taken back -/

instance decidableFreshIds (s : Sharing) (e : SharingEvent) : Decidable (s.FreshIds e) := by
  unfold FreshIds
  split <;> infer_instance

/-- A plugin without invitations and sessions. -/
def blank : Sharing :=
  start .plain [] (loadShares .plain (some (repeatedKey 7)) none none) .empty

/-- An invitation for thread `t`, and a guest who holds it. -/
def invited : List SharingEvent :=
  [.shares (.call (.mintToken none (some ⟨['t'], ['p'], .read⟩))), .shares .begin,
    .shares (.operate 0 ShareQueue.firstDraws), .shares (.attach 0), .shares .persist,
    .shares (.write (.ok ShareQueue.firstWrite)), .titled 0,
    .sessions (OrderedMap.ofEntries [(guestId, ⟨guestId, [ShareQueue.mintedId], 1⟩)])]

/-- The guest reads a thread. -/
def timelineRequest (threadId : Text) : Request where
  method := .get
  target := "/api/v1/threads/".toList ++ threadId ++ "/timeline".toList
  headers := [guestCookie]
  body := []
  ended := true

/-- Thread `u` is added and read, before the record is written. -/
def addedAndRead : List SharingEvent :=
  invited ++ [.shares (.call (.addShare ShareQueue.mintedId ⟨['u'], ['p'], .read⟩)), .shares .begin,
    .shares (.operate 0 ShareQueue.firstDraws), .request 0 (timelineRequest ['u']),
    .shares .persist]

def diskFull : SharingEvent := .shares (.write (.error "disk full".toList))

theorem relays_end_with_grants_read :
    (Machine.Always (next .plain .plain (fun _ _ => none) loopbackBase)
        (EndsRelays .plain .plain (fun _ _ => none) loopbackBase) blank addedAndRead ↔
      Machine.Always (next .plain .plain (fun _ _ => none) loopbackBase) RestoresCover blank
        addedAndRead) :=
  (relays_end_with_grants .plain .plain (fun _ _ => none) loopbackBase [] (some (repeatedKey 7)) none
    none .empty addedAndRead (by decide +kernel)).1

/-- The call is rejected, and the guest goes on to read what it is not given. -/
theorem not_relays_end_with_grants :
    Machine.Always (next .plain .plain (fun _ _ => none) loopbackBase) FreshIds blank
        (addedAndRead ++ [diskFull]) ∧
      ¬ Machine.Always (next .plain .plain (fun _ _ => none) loopbackBase)
        (EndsRelays .plain .plain (fun _ _ => none) loopbackBase) blank
        (addedAndRead ++ [diskFull]) := by
  refine ⟨by decide +kernel, fun h => ?_⟩
  have hbad : ((addedAndRead.foldl (next .plain .plain (fun _ _ => none) loopbackBase) blank).step
      .plain .plain (fun _ _ => none) loopbackBase diskFull).any (fun t =>
        decide (t.answered.length ≠
          (addedAndRead.foldl (next .plain .plain (fun _ _ => none) loopbackBase)
            blank).answered.length) &&
        t.relays.any fun r => decide r.InFlight && !decide (r.PermittedBy t.shares.live.store)) =
      true := by decide +kernel
  obtain ⟨t, hstep, ht⟩ := (Option.any_eq_true _ _).mp hbad
  obtain ⟨hanswered, hrelay⟩ := (Bool.and_eq_true _ _).mp ht
  obtain ⟨r, hr, hlate⟩ := List.any_eq_true.mp hrelay
  obtain ⟨hfly, hdenied⟩ := (Bool.and_eq_true _ _).mp hlate
  have hcovered := (Machine.always_concat.mp h).2 t hstep
    (fun heq => of_decide_eq_true hanswered (congrArg List.length heq))
  have hpermitted := hcovered r hr (of_decide_eq_true hfly)
  simp [hpermitted] at hdenied

end Sharing

end BbShared
