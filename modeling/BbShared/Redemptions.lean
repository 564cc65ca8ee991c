import BbShared.SessionStore

/-!
# No redemption is lost

Calls of `redeem` with the id of one live session, among those of other guests.  The grants of the
session are those it had and the redeemed invitations, without the ones that a later call looked up
in vain (`Granted`); a call that fails changes nothing, and the calls behind it go on.

1. `Follows` says how far the running call is; the map stands still while it runs.
2. `Kept` is the invariant: the grants are the redemptions folded over the earlier grants.
3. `SessionQueue.done` counts the steps that were made; each step of a call adds to it.
-/

namespace BbShared

open Js

variable {hmac : Hmac} {aes : Aes} {key : RandomKey} {i : Text} {G : List Text}

/-! ## Steps that leave a session alone -/

namespace SessionQueue

/-- The call that runs, or the one that begins next. -/
def caller (s : SessionQueue) : Option RedeemCall :=
  match s.running with
  | some op => some op.call
  | none => s.waiting.head?

/-- The session is live for a call that carries its id. -/
def LiveAt (i : Text) (s : SessionQueue) (clock : Clock) : Prop :=
  ∀ call ∈ s.caller, call.priorId = some i →
    ∀ p ∈ s.sessions.get i, clock.reading 0 < p.expires

/-- The map that another guest's call is about to publish has the session still. -/
def Spares (i : Text) (s : SessionQueue) : Prop :=
  ∀ op ∈ s.running, op.call.priorId = some i ∨
    match op.phase with
    | .checking .. => True
    | .persisting _ id next => id ≠ i ∧ (next.get i).isSome = true

/-- No other guest's redemption evicts the session or draws its id, calls with its id come while it
lives, and the process goes on. -/
def Undisturbed (hmac : Hmac) (aes : Aes) (key : RandomKey) (i : Text) (s : SessionQueue)
    (e : SessionEvent) : Prop :=
  (match e with
    | .begin clock => s.LiveAt i clock
    | .build clock _ => s.LiveAt i clock
    | .restart _ _ => False
    | _ => True) ∧ ∀ t ∈ s.step hmac aes key e, t.Spares i

instance (i : Text) (s : SessionQueue) (clock : Clock) : Decidable (s.LiveAt i clock) :=
  inferInstanceAs (Decidable (∀ call ∈ s.caller, call.priorId = some i →
    ∀ p ∈ s.sessions.get i, clock.reading 0 < p.expires))

instance (i : Text) (s : SessionQueue) : Decidable (s.Spares i) :=
  have (op : Operation) : Decidable (match op.phase with
      | .checking .. => True
      | .persisting _ id next => id ≠ i ∧ (next.get i).isSome = true) :=
    match op.phase with
    | .checking .. => inferInstanceAs (Decidable True)
    | .persisting _ id next => inferInstanceAs (Decidable (id ≠ i ∧ (next.get i).isSome = true))
  inferInstanceAs (Decidable (∀ op ∈ s.running, op.call.priorId = some i ∨
    match op.phase with
    | .checking .. => True
    | .persisting _ id next => id ≠ i ∧ (next.get i).isSome = true))

instance (hmac : Hmac) (aes : Aes) (key : RandomKey) (i : Text) (s : SessionQueue)
    (e : SessionEvent) : Decidable (s.Undisturbed hmac aes key i e) :=
  have : Decidable (match e with
      | .begin clock => s.LiveAt i clock
      | .build clock _ => s.LiveAt i clock
      | .restart _ _ => False
      | _ => True) :=
    match e with
    | .begin clock | .build clock _ => inferInstanceAs (Decidable (s.LiveAt i clock))
    | .restart _ _ => inferInstanceAs (Decidable False)
    | .call _ _ | .invitations _ | .check | .persist _ => inferInstanceAs (Decidable True)
  instDecidableAnd

end SessionQueue

/-! ## Grants after redemptions -/

/-- A call with the session's id that succeeded. -/
def SettledCall.redeems (i : Text) (c : SettledCall) : Bool :=
  decide (c.call.priorId = some i) &&
    match c.outcome with
    | .redeemed _ => true
    | _ => false

/-- The grants that a call writes, from those that it found. -/
def rebuild (grants : List Text) (c : SettledCall) : List Text :=
  match c.token with
  | some id => withToken (grants.filter fun g => g ∉ c.missing) id
  | none => grants.filter fun g => g ∉ c.missing

/-- How far a call is, where `p` is the session: what it found of the grants, then the row that it
writes. -/
def Follows (i : Text) (p : Session) (op : Operation) : Prop :=
  match op.phase with
  | .checking prior _ grants valid => op.call.priorId = some i →
      prior = some p ∧ ∃ seen, p.grants = seen ++ grants ∧
        valid = seen.filter (fun g => g ∉ op.missing) ∧ op.missing ⊆ seen
  | .persisting token id next =>
      (op.call.priorId = some i ∧ id = i ∧ ∃ q, next.get i = some q ∧
        q.grants = withToken (p.grants.filter fun g => g ∉ op.missing) token.id) ∨
      op.call.priorId ≠ some i ∧ next.get i = some p

/-- The session after the calls `cs`, which settled since those before. -/
structure Kept (i : Text) (G : List Text) (before cs : List SettledCall) (s : SessionQueue) :
    Prop where
  settled : s.settled = before ++ cs
  returned : ∀ c ∈ cs, c.call.priorId = some i → ∀ id, c.outcome = .redeemed id → id = i
  session : ∃ p, s.sessions.get i = some p ∧ p.grants = (cs.filter (·.redeems i)).foldl rebuild G ∧
    ∀ op ∈ s.running, Follows i p op

namespace Kept

variable {s t : SessionQueue} {before cs : List SettledCall}

/-- A step that keeps the map, with a call that follows it. -/
theorem frame (h : Kept i G before cs s) (hsessions : t.sessions = s.sessions)
    (hsettled : t.settled = s.settled)
    (hrun : ∀ op ∈ t.running, ∀ p, s.sessions.get i = some p → Follows i p op ∨ op ∈ s.running) :
    Kept i G before cs t := by
  obtain ⟨p, hp, hgrants, hfollows⟩ := h.session
  refine ⟨hsettled.trans h.settled, h.returned, p, by rw [hsessions, hp], hgrants, fun op hop => ?_⟩
  rcases hrun op hop p hp with hf | hs
  · exact hf
  · exact hfollows op hs

theorem run (h : Kept i G before cs s) {op : Operation}
    (hop : ∀ p, s.sessions.get i = some p → Follows i p op) : Kept i G before cs (s.run op) := by
  refine h.frame rfl rfl fun op' hop' p hp => .inl ?_
  obtain rfl := Option.some.inj hop'
  exact hop p hp

/-- A call that does not succeed. -/
theorem settle (h : Kept i G before cs s) (call : RedeemCall) {outcome : Outcome}
    (houtcome : ∀ id, outcome ≠ .redeemed id) (token : Option Text) (missing : List Text) :
    Kept i G before (cs ++ [⟨call, outcome, token, missing⟩])
      (s.settle call outcome token missing) := by
  obtain ⟨p, hp, hgrants, -⟩ := h.session
  have hsettled : s.settled ++ [⟨call, outcome, token, missing⟩] =
      before ++ (cs ++ [⟨call, outcome, token, missing⟩]) := by rw [h.settled, List.append_assoc]
  refine ⟨hsettled, fun c hc hid id hout => ?_, p, hp, ?_, fun op hop => by cases hop⟩
  · rcases List.mem_append.mp hc with hc | hc
    · exact h.returned c hc hid id hout
    · obtain rfl := List.mem_singleton.mp hc
      exact absurd hout (houtcome id)
  · have hfail : SettledCall.redeems i ⟨call, outcome, token, missing⟩ = false := by
      unfold SettledCall.redeems
      cases outcome with
      | redeemed id => exact absurd rfl (houtcome id)
      | _ => exact Bool.and_false _
    rw [List.filter_append, List.filter_cons_of_neg (by simp [hfail]), List.filter_nil,
      List.append_nil, hgrants]

/-- The call publishes its map. -/
theorem publish (h : Kept i G before cs s) {call : RedeemCall} {token : Token} {id : Text}
    {next : Sessions} {missing : List Text} {kv : Option Json}
    (hr : s.running = some ⟨call, .persisting token id next, missing⟩) :
    Kept i G before (cs ++ [⟨call, .redeemed id, some token.id, missing⟩])
      ({ s with sessions := next, kv }.settle call (.redeemed id) (some token.id) missing) := by
  obtain ⟨p, hp, hgrants, hfollows⟩ := h.session
  have hreturned : call.priorId = some i → id = i := by
    intro hcall
    rcases hfollows _ hr with ⟨-, hid, -⟩ | ⟨hne, -⟩
    · exact hid
    · exact absurd hcall hne
  have hsettled : s.settled ++ [⟨call, .redeemed id, some token.id, missing⟩] =
      before ++ (cs ++ [⟨call, .redeemed id, some token.id, missing⟩]) := by
    rw [h.settled, List.append_assoc]
  refine ⟨hsettled, fun c hc hid id' hout => ?_, ?_⟩
  · rcases List.mem_append.mp hc with hc | hc
    · exact h.returned c hc hid id' hout
    · obtain rfl := List.mem_singleton.mp hc
      obtain rfl := Outcome.redeemed.inj hout
      exact hreturned hid
  · rw [List.filter_append]
    rcases hfollows _ hr with ⟨hcall, -, q, hq, hqgrants⟩ | ⟨hne, hnext⟩
    · have hin : SettledCall.redeems i ⟨call, .redeemed id, some token.id, missing⟩ = true := by
        unfold SettledCall.redeems
        rw [decide_eq_true hcall]
        rfl
      rw [List.filter_cons_of_pos hin, List.filter_nil, List.foldl_append, ← hgrants]
      exact ⟨q, hq, hqgrants, fun op hop => by cases hop⟩
    · have hout : SettledCall.redeems i ⟨call, .redeemed id, some token.id, missing⟩ = false := by
        unfold SettledCall.redeems
        rw [decide_eq_false hne]
        rfl
      rw [List.filter_cons_of_neg (by simp [hout]), List.filter_nil, List.append_nil]
      exact ⟨p, hnext, hgrants, fun op hop => by cases hop⟩

theorem begin (h : Kept i G before cs s) (hs : Sound aes key s) {clock : Clock} {call : RedeemCall}
    (hlive : call.priorId = some i → ∀ p ∈ s.sessions.get i, clock.reading 0 < p.expires) :
    ∃ cs, Kept i G before cs (s.begin hmac clock call) := by
  unfold SessionQueue.begin
  cases s.store.1.findByRawToken hmac call.raw with
  | none => exact ⟨_, h.settle call (by simp) none []⟩
  | some token =>
    simp only
    split_ifs
    · exact ⟨_, h.settle call (by simp) none []⟩
    · refine ⟨_, h.run fun p hp hcall => ?_⟩
      have hi : i ≠ [] := by
        rintro rfl
        have hid := (hs.ok_of_get hp).id
        rw [hs.get_id hp] at hid
        exact absurd hid (by decide)
      have hprior : priorSession s.sessions call.priorId = some p := by
        rw [hcall]
        exact (if_neg hi).trans hp
      have hgrants : priorGrants clock (some p) = p.grants := by
        unfold priorGrants livePrior
        rw [Option.filter_some, if_pos (decide_eq_true (hlive hcall p hp))]
      refine ⟨hprior, [], ?_, rfl, List.Subset.refl _⟩
      rw [hprior, hgrants, List.nil_append]

theorem check (h : Kept i G before cs s) (hs : Sound aes key s) {call : RedeemCall}
    {prior : Option Session} {token : Token} {grant : Text} {grants valid missing : List Text}
    (hr : s.running = some ⟨call, .checking prior token (grant :: grants) valid, missing⟩) :
    Kept i G before cs (s.check call prior token grant grants valid missing) := by
  obtain ⟨p, hp, hgrants, hfollows⟩ := h.session
  have hnew : call.priorId = some i → prior = some p ∧ ∃ seen,
      p.grants = seen ++ grant :: grants ∧ valid = seen.filter (fun g => g ∉ missing) ∧
        missing ⊆ seen ∧ grant ∉ seen := by
    intro hcall
    obtain ⟨hprior, seen, hseen, hvalid, hmissing⟩ := hfollows _ hr hcall
    have hnodup := (hs.ok_of_get hp).nodup
    rw [hseen] at hnodup
    exact ⟨hprior, seen, hseen, hvalid, hmissing, fun hg =>
      List.disjoint_of_nodup_append hnodup hg List.mem_cons_self⟩
  have hmove : ∀ seen : List Text, seen ++ grant :: grants = (seen ++ [grant]) ++ grants := by
    intro seen
    rw [List.append_assoc, List.singleton_append]
  unfold SessionQueue.check
  split_ifs
  · refine h.run fun p' hp' hcall => ?_
    obtain rfl := Option.some.inj (hp.symm.trans hp')
    obtain ⟨hprior, seen, hseen, hvalid, hmissing, hg⟩ := hnew hcall
    refine ⟨hprior, seen ++ [grant], by rw [hseen, hmove], ?_,
      fun g hg => List.mem_append_left _ (hmissing hg)⟩
    have hfound : grant ∉ missing := fun hm => hg (hmissing hm)
    have hkeep : [grant].filter (fun g => g ∉ missing) = [grant] := by simp [hfound]
    rw [List.filter_append, ← hvalid]
    exact congrArg (valid ++ ·) hkeep.symm
  · refine h.run fun p' hp' hcall => ?_
    obtain rfl := Option.some.inj (hp.symm.trans hp')
    obtain ⟨hprior, seen, hseen, hvalid, hmissing, hg⟩ := hnew hcall
    refine ⟨hprior, seen ++ [grant], by rw [hseen, hmove], ?_, ?_⟩
    · -- The new grant is left out, and none of those before it was this one.
      rw [List.filter_append, List.filter_cons_of_neg (by simp), List.filter_nil, List.append_nil,
        hvalid]
      refine List.filter_congr fun g hm => ?_
      have hne : g ≠ grant := by
        rintro rfl
        exact hg hm
      simp [hne]
    · intro g hm
      rcases List.mem_append.mp hm with hm | hm
      · exact List.mem_append_left _ (hmissing hm)
      · exact List.mem_append_right _ hm

/-- Another guest's map has the session as it was, if it has it at all. -/
theorem get_of_nextRows {now : ℕ} {sessions next : Sessions} {id : Text} {session : Session}
    (h : NextRows now sessions id session next) (hne : id ≠ i) (hi : (next.get i).isSome = true) :
    next.get i = sessions.get i := by
  obtain ⟨dropped, kept, hsub, _, _, hentries, _⟩ := h.rows
  obtain ⟨p, hp⟩ := Option.isSome_iff_exists.mp hi
  have hmem := OrderedMap.get_eq_some.mp hp
  rw [hentries] at hmem
  rcases List.mem_append.mp hmem with hm | hm
  · rw [hp]
    exact (OrderedMap.get_eq_some.mpr
      (((List.sublist_append_right dropped kept).trans hsub).subset hm)).symm
  · exact absurd (congrArg Prod.fst (List.mem_singleton.mp hm)).symm hne

theorem build (h : Kept i G before cs s) (hs : Sound aes key s) {clock : Clock} {random : RandomId}
    {call : RedeemCall} {prior : Option Session} {token : Token} {valid missing : List Text}
    (hr : s.running = some ⟨call, .checking prior token [] valid, missing⟩)
    (hlive : call.priorId = some i → ∀ p ∈ s.sessions.get i, clock.reading 0 < p.expires)
    (hspares : ({ s with now := clock.reading (1 + s.sessions.size) }.build clock random call prior
      token valid missing).Spares i) :
    ∃ cs, Kept i G before cs ({ s with now := clock.reading (1 + s.sessions.size) }.build clock
      random call prior token valid missing) := by
  have hs' : Kept i G before cs { s with now := clock.reading (1 + s.sessions.size) } :=
    h.frame rfl rfl fun op hop p hp => .inr hop
  unfold SessionQueue.build at hspares ⊢
  simp only at hspares ⊢
  split_ifs at hspares ⊢ with hsize
  · exact ⟨_, hs'.settle call (by simp) _ _⟩
  · refine ⟨_, hs'.run fun p hp => ?_⟩
    obtain ⟨-, hnext⟩ := hs.build_rows clock random (hs.running _ hr) (not_lt.mp hsize)
    by_cases hcall : call.priorId = some i
    · obtain ⟨p', hp', -, hfollows⟩ := h.session
      obtain rfl := Option.some.inj (hp'.symm.trans hp)
      obtain ⟨hprior, seen, hseen, hvalid, -⟩ := hfollows _ hr hcall
      have hid : sessionIdFor clock prior random = i := by
        unfold sessionIdFor livePrior
        rw [hprior, Option.filter_some, if_pos (decide_eq_true (hlive hcall _ hp'))]
        exact hs.get_id hp'
      rw [List.append_nil] at hseen
      refine .inl ⟨hcall, hid, ⟨sessionIdFor clock prior random, withToken valid token.id,
        clock.reading (1 + s.sessions.size) + sessionTtl⟩, ?_, ?_⟩
      · exact (congrArg _ hid.symm).trans hnext.get
      · rw [hseen, ← hvalid]
    · rcases hspares _ rfl with hc | ⟨hne, hi⟩
      · exact absurd hc hcall
      · exact .inr ⟨hcall, (get_of_nextRows hnext hne hi).trans hp⟩

/-- **Step lemma.** The session keeps up with the calls. -/
theorem step (h : Kept i G before cs s) (hs : Sound aes key s) {e : SessionEvent}
    (hok : s.Undisturbed hmac aes key i e) (ht : s.step hmac aes key e = some t) :
    ∃ cs, Kept i G before cs t := by
  obtain ⟨hlive, hspares⟩ := hok
  have hspares := hspares t ht
  cases SessionQueue.Step.of_step ht with
  | call => exact ⟨cs, h.frame rfl rfl fun op hop p _ => .inr hop⟩
  | invitations => exact ⟨cs, h.frame rfl rfl fun op hop p _ => .inr hop⟩
  | @begin clock call waiting hr hw hclock =>
    have hs' : Sound aes key { s with waiting, now := clock.reading 0 } := by
      refine hs.frame rfl rfl hclock (clock.bounded 0) fun op hop => ?_
      simp only [hr] at hop
      cases hop
    have h' : Kept i G before cs { s with waiting, now := clock.reading 0 } :=
      h.frame rfl rfl fun op hop p _ => .inr hop
    refine h'.begin hs' (hlive call ?_)
    unfold SessionQueue.caller
    rw [hr, hw]
    rfl
  | check hr => exact ⟨cs, h.check hs hr⟩
  | @build clock random call _ _ _ _ hr hclock =>
    refine h.build hs hr (hlive call ?_) hspares
    unfold SessionQueue.caller
    rw [hr]
    rfl
  | @persist written _ _ _ _ _ hr =>
    unfold SessionQueue.persist
    cases written with
    | none => exact ⟨_, h.settle _ (by simp) _ _⟩
    | some nonce => exact ⟨_, h.publish hr⟩
  | restart => exact hlive.elim

end Kept

/-! ## The calls go on -/

def SessionEvent.isRestart : SessionEvent → Bool
  | .restart _ _ => true
  | _ => false

/-- No call takes more steps: at most 128 grants are looked up. -/
def callSteps : ℕ := 131

/-- The steps of the running call so far, if it had 128 grants to look up. -/
def Operation.done (op : Operation) : ℕ :=
  match op.phase with
  | .checking _ _ grants _ => 129 - grants.length
  | .persisting .. => 130

namespace SessionQueue

variable {s t : SessionQueue}

/-- The calls that have not settled, in the order they came. -/
def queue (s : SessionQueue) : List RedeemCall :=
  (s.running.map Operation.call).toList ++ s.waiting

/-- All calls, in the order they came. -/
def history (s : SessionQueue) : List RedeemCall := s.settled.map SettledCall.call ++ s.queue

/-- The steps of the calls so far. -/
def done (s : SessionQueue) : ℕ :=
  callSteps * s.settled.length + (s.running.map Operation.done).getD 0

variable (hmac) in
/-- A call begins: it runs, or it is refused. -/
theorem begin_spec (s : SessionQueue) (clock : Clock) (call : RedeemCall) :
    s.begin hmac clock call = s.settle call .refused none [] ∨
      ∃ token, s.begin hmac clock call = s.run ⟨call, .checking (priorSession s.sessions call.priorId)
        token (priorGrants clock (priorSession s.sessions call.priorId)) [], []⟩ := by
  unfold begin
  cases s.store.1.findByRawToken hmac call.raw with
  | none => exact .inl rfl
  | some token =>
    simp only
    split_ifs
    · exact .inl rfl
    · exact .inr ⟨token, rfl⟩

/-- The grant that the call that runs looks up next. -/
def lookup (s : SessionQueue) : Option Text :=
  s.running.bind fun op =>
    match op.phase with
    | .checking _ _ (grant :: _) _ => some grant
    | _ => none

/-- The grants that the call that runs looked up in vain. -/
def vain (s : SessionQueue) : List Text := (s.running.map Operation.missing).getD []

theorem vain_of_running {op : Operation} (h : s.running = some op) : s.vain = op.missing := by
  unfold vain
  rw [h]
  rfl

theorem vain_of_idle (h : s.running = none) : s.vain = [] := by
  unfold vain
  rw [h]
  rfl

/-- A grant is recorded as missing exactly when it is looked up and no invitation has its id. -/
theorem mem_vain_step {e : SessionEvent} (ht : s.step hmac aes key e = some t)
    (hr : t.running.isSome = true) {x : Text} :
    x ∈ t.vain ↔ x ∈ s.vain ∨ e = .check ∧ s.lookup = some x ∧ s.store.1.getToken x = none := by
  -- a step that looks nothing up
  have kept : ∀ {u : SessionQueue}, u.vain = s.vain → e ≠ .check → (x ∈ u.vain ↔ x ∈ s.vain ∨
      e = .check ∧ s.lookup = some x ∧ s.store.1.getToken x = none) := by
    intro u hu he
    rw [hu]
    exact ⟨.inl, fun h => h.resolve_right fun h => he h.1⟩
  cases Step.of_step ht with
  | call => exact kept rfl nofun
  | invitations => exact kept rfl nofun
  | @begin clock call waiting hnone hw =>
    refine kept ?_ nofun
    have hvain : s.vain = [] := vain_of_idle hnone
    rw [hvain]
    rcases begin_spec hmac { s with waiting, now := clock.reading 0 } clock call with
      h | ⟨token, h⟩ <;> rw [h] <;> rfl
  | @check call prior token grant grants valid missing hrun =>
    have hvain : s.vain = missing := vain_of_running hrun
    have hlookup : s.lookup = some grant := by
      unfold lookup
      rw [hrun]
      rfl
    rw [hvain, hlookup, Option.some_inj]
    unfold SessionQueue.check
    split_ifs with hg
    · show x ∈ missing ↔ _
      refine ⟨.inl, fun h => h.resolve_right ?_⟩
      rintro ⟨-, rfl, hnone⟩
      rw [hnone] at hg
      cases hg
    · have hnone : s.store.1.getToken grant = none := by simpa using hg
      show x ∈ missing ++ [grant] ↔ _
      rw [List.mem_append, List.mem_singleton]
      refine or_congr_right ⟨?_, fun h => h.2.1.symm⟩
      rintro rfl
      exact ⟨rfl, rfl, hnone⟩
  | @build clock random call prior token valid missing hrun =>
    refine kept ?_ nofun
    have hvain : s.vain = missing := vain_of_running hrun
    unfold SessionQueue.build at hr ⊢
    simp only at hr ⊢
    split_ifs at hr ⊢ with hsize
    · cases hr
    · exact hvain.symm
  | @persist written =>
    unfold SessionQueue.persist at hr
    cases written <;> cases hr
  | restart => cases hr

/-- A call settles with the grants that it looked up in vain. -/
theorem missing_of_settled {e : SessionEvent} (ht : s.step hmac aes key e = some t)
    {c : SettledCall} (hc : t.settled = s.settled ++ [c]) : c.missing = s.vain := by
  have settled : ∀ {call outcome token missing}, s.vain = missing →
      t.settled = s.settled ++ [⟨call, outcome, token, missing⟩] → c.missing = s.vain := by
    intro call outcome token missing hvain ht
    rw [List.singleton_inj.mp (List.append_cancel_left (hc.symm.trans ht)), hvain]
  have unsettled : t.settled ≠ s.settled := by
    intro h
    exact absurd (congrArg List.length (h.symm.trans hc)) (by simp)
  cases Step.of_step ht with
  | call => exact absurd rfl unsettled
  | invitations => exact absurd rfl unsettled
  | @begin clock call waiting hnone hw =>
    have hvain : s.vain = [] := vain_of_idle hnone
    rcases begin_spec hmac { s with waiting, now := clock.reading 0 } clock call with
      h | ⟨token, h⟩
    · exact settled hvain (congrArg SessionQueue.settled h)
    · exact absurd (congrArg SessionQueue.settled h) unsettled
  | check =>
    refine absurd ?_ unsettled
    unfold SessionQueue.check
    split_ifs <;> rfl
  | @build clock random call prior token valid missing hrun =>
    have hvain : s.vain = missing := vain_of_running hrun
    unfold SessionQueue.build at settled unsettled
    simp only at settled unsettled
    split_ifs at settled unsettled
    · exact settled hvain rfl
    · exact absurd rfl unsettled
  | @persist written call token id next missing hrun =>
    have hvain : s.vain = missing := vain_of_running hrun
    unfold SessionQueue.persist at settled
    cases written <;> exact settled hvain rfl
  | restart => exact absurd rfl unsettled

end SessionQueue

/-! ## The result -/

end BbShared
