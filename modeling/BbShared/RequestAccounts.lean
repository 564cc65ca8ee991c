import BbShared.TunnelRelay

/-!
# The accounts of requests

Every request that waits for an answer has an entry of `pendingHttp`, and the entry knows how far
the answer is.  What is done to one entry keeps the accounts as long as it answers the request; two
frames do not, and the lemmas about them say when.
-/

namespace BbShared

open Js

/-! ## Views -/

namespace RequestView

/-- What a request is in the end. -/
def Settled (v : RequestView) : Prop := v = .bodiless ∨ v = .failed ∨ v = .finished ∨ v = .aborted

theorem Settled.next {v : RequestView} (h : v.Settled) (a : VisitorAction) : v.next a = v := by
  rcases h with rfl | rfl | rfl | rfl <;> cases a <;> rfl

theorem next_ne_waiting {v : RequestView} (h : v ≠ .waiting) (a : VisitorAction) :
    v.next a ≠ .waiting := by
  cases v <;> cases a <;> unfold RequestView.next <;> simp_all
  all_goals split_ifs <;> simp

/-- What giving up on a request makes of it. -/
def GivenUp (v w : RequestView) : Prop :=
  w = v ∨ v = .waiting ∧ w = .failed ∨ v = .streaming ∧ (w = .aborted ∨ w = .detached)

theorem GivenUp.trans {u v w : RequestView} (h : u.GivenUp v) (h' : v.GivenUp w) : u.GivenUp w := by
  unfold GivenUp at *
  grind

theorem givenUp_fail (v : RequestView) (status : ℕ) (message : Text) :
    v.GivenUp (v.next (.fail status message)) := by
  cases v <;> simp [RequestView.next, GivenUp]

theorem givenUp_abort (v : RequestView) (message : Text) : v.GivenUp (v.next (.abort message)) := by
  cases v <;> simp [RequestView.next, GivenUp]

end RequestView

/-- The actions on a visitor's WebSocket say nothing to requests. -/
def VisitorAction.OnSocket (a : VisitorAction) : Prop := ∀ v : RequestView, v.next a = v

theorem onSocket_message (isBinary : Bool) (data : Bytes) :
    (VisitorAction.message isBinary data).OnSocket := fun v => by cases v <;> rfl

theorem onSocket_close (code : ℕ) (reason : Text) : (VisitorAction.close code reason).OnSocket :=
  fun v => by cases v <;> rfl

theorem view_of_forall_lt {effects : List VisitorEffect} {n : ℕ}
    (h : ∀ e ∈ effects, ∀ k, e.opening = some k → k < n) : view effects n = .waiting := by
  induction effects using List.reverseRecOn with
  | nil => rfl
  | append_singleton effects e ih =>
    rw [view_concat, if_neg fun he => (h e (by simp) n he).false]
    exact ih fun x hx => h x (by simp [hx])

section Append

variable {effects x : List VisitorEffect} {n : ℕ}

theorem view_append_of_ne (h : ∀ e ∈ x, e.opening ≠ some n) :
    view (effects ++ x) n = view effects n := by
  induction x using List.reverseRecOn with
  | nil => rw [List.append_nil]
  | append_singleton x e ih =>
    rw [← List.append_assoc, view_concat, if_neg (h e (by simp))]
    exact ih fun y hy => h y (by simp [hy])

theorem view_append_of_settled (h : (view effects n).Settled) :
    view (effects ++ x) n = view effects n := by
  induction x using List.reverseRecOn with
  | nil => rw [List.append_nil]
  | append_singleton x e ih =>
    rw [← List.append_assoc, view_concat, ih]
    split_ifs
    · exact h.next _
    · rfl

theorem view_append_ne_waiting (h : view effects n ≠ .waiting) :
    view (effects ++ x) n ≠ .waiting := by
  induction x using List.reverseRecOn with
  | nil => rwa [List.append_nil]
  | append_singleton x e ih =>
    rw [← List.append_assoc, view_concat]
    split_ifs
    · exact RequestView.next_ne_waiting ih _
    · exact ih

end Append

/-! ## Accounts -/

/-- How far the answer of an entry is. -/
def PendingHttp.view (entry : PendingHttp) : RequestView :=
  if entry.writer then .streaming else .waiting

namespace TunnelDO

/-- A request is answered to its end, or its visitor left, or an entry stands for it. -/
def Accounted (canceled : List ℕ) (d : TunnelDO) (n : ℕ) : Prop :=
  (view d.effects n).Settled ∨ n ∈ canceled ∧ view d.effects n ≠ .waiting ∨
    ∃ id entry, d.pendingHttp.get id = some entry ∧ entry.opening = some n ∧
      view d.effects n = entry.view

/-- Every one of these requests is accounted for, and what is held is `current`. -/
structure Accounts (current : ℕ → Prop) (requests canceled : List ℕ) (d : TunnelDO) : Prop where
  entries : ∀ id entry, d.pendingHttp.get id = some entry → id < d.nextStreamId ∧ current id
  openings : ∀ id entry n, d.pendingHttp.get id = some entry → entry.opening = some n → n < d.sent
  injective : ∀ id entry id' entry' n, d.pendingHttp.get id = some entry →
    d.pendingHttp.get id' = some entry' → entry.opening = some n → entry'.opening = some n → id = id'
  visitors : ∀ v ∈ d.visitors, v.streamId < d.nextStreamId ∧ v.opening < d.sent ∧
    (v.closing = false → current v.streamId)
  effects : ∀ e ∈ d.effects, ∀ n, e.opening = some n → n < d.sent
  requests : ∀ n ∈ requests, n < d.sent ∧ Accounted canceled d n

variable {current current' : ℕ → Prop} {requests canceled canceled' : List ℕ} {d d' : TunnelDO}

theorem accounts_new : Accounts current [] [] .new where
  entries _ _ h := by cases h
  openings _ _ _ h := by cases h
  injective _ _ _ _ _ h := by cases h
  visitors _ h := by cases h
  effects _ h := by cases h
  requests _ h := by cases h

namespace Accounts

/-- What is held may become current in another sense. -/
theorem mono (h : d.Accounts current requests canceled)
    (himp : ∀ id < d.nextStreamId, current id → current' id) :
    d.Accounts current' requests canceled :=
  { h with
    entries := fun id entry hg => ⟨(h.entries id entry hg).1,
      himp id (h.entries id entry hg).1 (h.entries id entry hg).2⟩
    visitors := fun v hv => ⟨(h.visitors v hv).1, (h.visitors v hv).2.1,
      fun hc => himp _ (h.visitors v hv).1 ((h.visitors v hv).2.2 hc)⟩ }

/-- Once nothing is held, anything is current. -/
theorem of_cleared (h : d.Accounts current requests canceled) (hp : d.pendingHttp = .empty)
    (hv : ∀ v ∈ d.visitors, v.closing = true) : d.Accounts current' requests canceled :=
  { h with
    entries := fun id entry hg => by rw [hp] at hg; cases hg
    visitors := fun v hm => ⟨(h.visitors v hm).1, (h.visitors v hm).2.1,
      fun hc => by rw [hv v hm] at hc; cases hc⟩ }

/-- **Frame rule.** Messages that are sent and sockets that close change no account. -/
theorem frame (h : d.Accounts current requests canceled) (hp : d'.pendingHttp = d.pendingHttp)
    (hn : d'.nextStreamId = d.nextStreamId) (hs : d.sent ≤ d'.sent)
    (hv : ∀ v ∈ d'.visitors, ∃ w ∈ d.visitors, w.streamId = v.streamId ∧ w.opening = v.opening ∧
      (v.closing = false → w.closing = false))
    (x : List VisitorEffect) (he : d'.effects = d.effects ++ x)
    (hx : ∀ e ∈ x, (∀ n, e.opening = some n → n < d.sent) ∧ e.action.OnSocket) :
    d'.Accounts current requests canceled := by
  have hview : ∀ n, view d'.effects n = view d.effects n := by
    intro n
    rw [he]
    clear he
    induction x using List.reverseRecOn with
    | nil => rw [List.append_nil]
    | append_singleton x e ih =>
      rw [← List.append_assoc, view_concat, ih fun y hy => hx y (by simp [hy]),
        (hx e (by simp)).2, ite_self]
  refine ⟨?_, ?_, ?_, ?_, ?_, ?_⟩
  · rw [hp, hn]
    exact h.entries
  · intro id entry n hg ho
    rw [hp] at hg
    exact (h.openings id entry n hg ho).trans_le hs
  · rw [hp]
    exact h.injective
  · intro v hm
    obtain ⟨w, hw, hid, hop, hc⟩ := hv v hm
    obtain ⟨hlt, hsent, hcur⟩ := h.visitors w hw
    rw [hn, ← hid, ← hop]
    exact ⟨hlt, hsent.trans_le hs, fun h => hcur (hc h)⟩
  · intro e hm n ho
    rw [he] at hm
    rcases List.mem_append.mp hm with hm | hm
    · exact (h.effects e hm n ho).trans_le hs
    · exact ((hx e hm).1 n ho).trans_le hs
  · intro n hn
    refine ⟨(h.requests n hn).1.trans_le hs, ?_⟩
    unfold Accounted
    rw [hview, hp]
    exact (h.requests n hn).2

/-- **Change rule.** What happens to one entry, and what its visitor is told, keeps the accounts if
the entry's own request stays accounted for. -/
theorem change (h : d.Accounts current requests canceled) {id : ℕ} {entry : PendingHttp}
    (hg : d.pendingHttp.get id = some entry) (x : List VisitorEffect)
    (hx : ∀ e ∈ x, e.opening = entry.opening) (he : d'.effects = d.effects ++ x)
    (others : ∀ j, j ≠ id → d'.pendingHttp.get j = d.pendingHttp.get j)
    (own : ∀ e, d'.pendingHttp.get id = some e → e.opening = entry.opening)
    (hn : d'.nextStreamId = d.nextStreamId) (hs : d'.sent = d.sent)
    (hv : d'.visitors = d.visitors) (hc : ∀ n ∈ canceled, n ∈ canceled')
    (live : ∀ n, entry.opening = some n → view d.effects n = entry.view → Accounted canceled' d' n) :
    d'.Accounts current requests canceled' := by
  have back : ∀ j e, d'.pendingHttp.get j = some e →
      ∃ e', d.pendingHttp.get j = some e' ∧ e.opening = e'.opening := by
    intro j e hj
    by_cases hji : j = id
    · subst hji
      exact ⟨entry, hg, own e hj⟩
    · rw [others j hji] at hj
      exact ⟨e, hj, rfl⟩
  refine ⟨?_, ?_, ?_, ?_, ?_, ?_⟩
  · intro j e hj
    obtain ⟨e', hj', -⟩ := back j e hj
    rw [hn]
    exact h.entries j e' hj'
  · intro j e n hj ho
    obtain ⟨e', hj', hop⟩ := back j e hj
    rw [hs]
    exact h.openings j e' n hj' (hop ▸ ho)
  · intro j e j' e' n hj hj' ho ho'
    obtain ⟨a, ha, hop⟩ := back j e hj
    obtain ⟨b, hb, hop'⟩ := back j' e' hj'
    exact h.injective j a j' b n ha hb (hop ▸ ho) (hop' ▸ ho')
  · rw [hv, hn, hs]
    exact h.visitors
  · intro e hm n ho
    rw [he] at hm
    rw [hs]
    rcases List.mem_append.mp hm with hm | hm
    · exact h.effects e hm n ho
    · exact h.openings id entry n hg (hx e hm ▸ ho)
  · intro n hm
    rw [hs]
    refine ⟨(h.requests n hm).1, ?_⟩
    rcases (h.requests n hm).2 with hset | ⟨hcan, hne⟩ | ⟨j, e, hj, ho, hview⟩
    · refine .inl ?_
      rw [he, view_append_of_settled hset]
      exact hset
    · refine .inr (.inl ⟨hc n hcan, ?_⟩)
      rw [he]
      exact view_append_ne_waiting hne
    · by_cases hji : j = id
      · subst hji
        rw [hg] at hj
        obtain rfl := Option.some.inj hj
        exact live n ho hview
      · -- another entry stands for this request, and nobody told its visitor anything
        have hne : ∀ y ∈ x, y.opening ≠ some n := fun y hy hy' =>
          hji (h.injective j e id entry n hj hg ho (hx y hy ▸ hy'))
        refine .inr (.inr ⟨j, e, by rw [others j hji, hj], ho, ?_⟩)
        rw [he, view_append_of_ne hne, hview]

/-! ## Operations -/

/-- An entry that stays tells its visitor something. -/
theorem setEntry (h : d.Accounts current requests canceled) {id : ℕ} {entry : PendingHttp}
    (hg : d.pendingHttp.get id = some entry) (answered : PendingHttp)
    (ho : answered.opening = entry.opening)
    (source : Option ℕ) (action : VisitorAction)
    (live : ∀ n, entry.opening = some n → view d.effects n = entry.view →
      ((view d.effects n).next action).Settled ∨
        (view d.effects n).next action = answered.view) :
    ((d.setEntry id answered).effect entry.opening source action).Accounts current requests
      canceled := by
  refine h.change hg [_] (fun e he => by rw [List.mem_singleton.mp he]) rfl
    (fun j hj => OrderedMap.get_set_of_ne _ hj _) (fun e he => ?_) rfl rfl rfl (fun _ h => h)
    fun n hn hv => ?_
  · rw [← Option.some.inj ((OrderedMap.get_set_self _ _ _).symm.trans he), ho]
  · have hview : view (d.effects ++ [⟨entry.opening, source, action⟩]) n =
        (view d.effects n).next action := by
      rw [view_concat, if_pos hn]
    rcases live n hn hv with hset | heq
    · exact .inl (hview ▸ hset)
    · exact .inr (.inr ⟨id, answered, OrderedMap.get_set_self _ _ _, ho.trans hn, hview.trans heq⟩)

theorem post (h : d.Accounts current requests canceled) (m : Message) :
    (d.post m).Accounts current requests canceled :=
  h.frame rfl rfl (Nat.le_succ _) (fun v hv => ⟨v, hv, rfl, rfl, id⟩) [] (List.append_nil _).symm
    (by simp)

theorem sendOnly (h : d.Accounts current requests canceled) (link : TunnelLink) (f : Frame) :
    (d.sendOnly link f).Accounts current requests canceled := by
  unfold TunnelDO.sendOnly
  rcases trySend_cases d link f with ht | ht | ⟨m, -, ht⟩ <;> rw [ht]
  · exact h
  · exact h
  · exact h.post m

theorem setPumps (h : d.Accounts current requests canceled) (pumps : List ℕ) :
    { d with pumps }.Accounts current requests canceled :=
  ⟨h.entries, h.openings, h.injective, h.visitors, h.effects, h.requests⟩

theorem pumpChunk (h : d.Accounts current requests canceled) (link : TunnelLink) (streamId : ℕ)
    (value : Bytes) : (d.pumpChunk link streamId value).Accounts current requests canceled := by
  unfold TunnelDO.pumpChunk
  split_ifs
  · generalize chunkBody streamId value = frames
    induction frames generalizing d with
    | nil => exact h
    | cons f frames ih => exact ih (h.sendOnly link f)
  · exact h
  · exact h.setPumps _

theorem closeVisitor (h : d.Accounts current requests canceled) {v : VisitorSocket}
    (hv : v.opening < d.sent) (source : Option ℕ) (code : ℕ) (reason : Text) :
    (d.closeVisitor v source code reason).Accounts current requests canceled := by
  unfold TunnelDO.closeVisitor
  split_ifs
  · exact h
  · refine h.frame rfl rfl le_rfl (fun w hw => ?_) [_] rfl fun e he => ?_
    · obtain ⟨u, hu, rfl⟩ := List.mem_map.mp hw
      refine ⟨u, hu, ?_⟩
      split_ifs <;> simp
    · obtain rfl := List.mem_singleton.mp he
      exact ⟨fun n hn => by obtain rfl := Option.some.inj hn; exact hv, onSocket_close _ _⟩

theorem visitorMessage (h : d.Accounts current requests canceled) {v : VisitorSocket}
    (hv : v.opening < d.sent) (link : TunnelLink) (isBinary : Bool) (data : Bytes) :
    (d.visitorMessage link v isBinary data).Accounts current requests canceled := by
  unfold TunnelDO.visitorMessage
  split_ifs
  · rcases trySend_cases d link (.wsData v.streamId isBinary data) with ht | ht | ⟨m, -, ht⟩ <;>
      rw [ht]
    · exact h
    · exact h.closeVisitor hv _ _ _
    · exact h.post m
  · exact h.closeVisitor hv _ _ _

theorem sent_sendOnly (d : TunnelDO) (link : TunnelLink) (f : Frame) :
    d.sent ≤ (d.sendOnly link f).sent := by
  unfold TunnelDO.sendOnly
  rcases trySend_cases d link f with ht | ht | ⟨m, -, ht⟩ <;> rw [ht]
  exact Nat.le_succ _

theorem visitorClose (h : d.Accounts current requests canceled) {v : VisitorSocket}
    (hv : v.opening < d.sent) (link : TunnelLink) (code : ℕ) (reason : Text) :
    (d.visitorClose link v code reason).Accounts current requests canceled := by
  unfold TunnelDO.visitorClose
  simp only
  split_ifs
  · exact (h.sendOnly link _).closeVisitor (hv.trans_le (sent_sendOnly _ _ _)) _ _ _
  · exact h.closeVisitor hv _ _ _

theorem forgetVisitor (h : d.Accounts current requests canceled) (opening : ℕ) :
    (d.forgetVisitor opening).Accounts current requests canceled :=
  h.frame rfl rfl le_rfl (fun v hv => ⟨v, List.mem_of_mem_filter hv, rfl, rfl, id⟩) []
    (List.append_nil _).symm (by simp)

/-- An entry that is dropped leaves its request answered, or left. -/
theorem drop (h : d.Accounts current requests canceled) (canceled' : List ℕ) {id : ℕ}
    {entry : PendingHttp} (hg : d.pendingHttp.get id = some entry) (x : List VisitorEffect)
    (hx : ∀ e ∈ x, e.opening = entry.opening) (hc : ∀ n ∈ canceled, n ∈ canceled')
    (live : ∀ n, entry.opening = some n → view d.effects n = entry.view →
      (view (d.effects ++ x) n).Settled ∨ n ∈ canceled' ∧ view (d.effects ++ x) n ≠ .waiting) :
    { d with pendingHttp := d.pendingHttp.erase id, effects := d.effects ++ x }.Accounts
      current requests canceled' :=
  h.change hg x hx rfl (fun j hj => OrderedMap.get_erase_of_ne _ hj)
    (fun e he => by rw [OrderedMap.get_erase_self] at he; cases he) rfl rfl rfl hc
    fun n ho hv => (live n ho hv).imp (fun h => h) .inl

theorem failHttpStream (h : d.Accounts current requests canceled) (streamId status : ℕ)
    (message : Text) (source : Option ℕ) :
    (d.failHttpStream streamId status message source).Accounts current requests canceled := by
  unfold TunnelDO.failHttpStream
  cases hg : d.pendingHttp.get streamId with
  | none => exact h
  | some entry =>
    refine h.drop canceled hg [_] (fun e he => by rw [List.mem_singleton.mp he]) (fun _ => id)
      fun n ho hv => .inl ?_
    rw [view_concat, if_pos ho, hv]
    unfold PendingHttp.view
    cases entry.writer
    · exact .inr (.inl rfl)
    · exact .inr (.inr (.inr rfl))

theorem headTimeout (h : d.Accounts current requests canceled) {streamId : ℕ}
    (ht : d.headTimeout streamId = some d') : d'.Accounts current requests canceled := by
  unfold TunnelDO.headTimeout at ht
  cases hg : d.pendingHttp.get streamId with
  | none => rw [hg] at ht; cases ht
  | some entry =>
    rw [hg] at ht
    simp only at ht
    split_ifs at ht
    obtain rfl := Option.some.inj ht
    exact h.failHttpStream _ _ _ _

/-- The visitor has left: its request is not owed anything more. -/
theorem cancelHttpStream (h : d.Accounts current requests canceled) (link : TunnelLink)
    {streamId : ℕ} {entry : PendingHttp} (hg : d.pendingHttp.get streamId = some entry)
    (hw : entry.writer = true) :
    (d.cancelHttpStream link streamId).Accounts current requests
      (canceled ++ entry.opening.toList) := by
  have hd : { d with pendingHttp := d.pendingHttp.erase streamId }.Accounts current requests
      (canceled ++ entry.opening.toList) := by
    have := h.drop (canceled ++ entry.opening.toList) hg []
      (by simp) (fun n hn => List.mem_append_left _ hn) fun n ho hv => .inr ⟨by simp [ho], by
        rw [List.append_nil, hv]
        unfold PendingHttp.view
        simp [hw]⟩
    rwa [List.append_nil] at this
  unfold TunnelDO.cancelHttpStream
  rw [hg]
  simp only
  split_ifs
  · exact hd.sendOnly link _
  · exact hd

/-! ## Frames of a session -/

/-- A body that ends before its head leaves its request without an answer. -/
theorem onBodyEnd (h : d.Accounts current requests canceled) (source streamId : ℕ)
    (hc : ∀ entry n, d.pendingHttp.get streamId = some entry → entry.opening = some n →
      view d.effects n ≠ .waiting) :
    (d.onBodyEnd source streamId).Accounts current requests canceled := by
  unfold TunnelDO.onBodyEnd
  cases hg : d.pendingHttp.get streamId with
  | none => exact h
  | some entry =>
    simp only
    split_ifs with hw
    · refine h.drop canceled hg [_] (fun e he => by rw [List.mem_singleton.mp he]) (fun _ => id)
        fun n ho hv => .inl ?_
      rw [view_concat, if_pos ho, hv]
      unfold PendingHttp.view
      rw [if_pos hw]
      exact .inr (.inr (.inl rfl))
    · have := h.drop canceled hg [] (by simp) (fun _ => id) fun n ho hv => ?_
      · rwa [List.append_nil] at this
      · refine absurd ?_ (hc entry n hg ho)
        rw [hv]
        unfold PendingHttp.view
        rw [if_neg hw]

theorem onBodyChunk (h : d.Accounts current requests canceled) (source streamId : ℕ)
    (data : Bytes) : (d.onBodyChunk source streamId data).Accounts current requests canceled := by
  unfold TunnelDO.onBodyChunk
  cases hg : d.pendingHttp.get streamId with
  | none => exact h
  | some entry =>
    simp only
    split_ifs with hw
    · refine h.frame rfl rfl le_rfl (fun v hv => ⟨v, hv, rfl, rfl, id⟩) [_] rfl fun e he => ?_
      obtain rfl := List.mem_singleton.mp he
      exact ⟨fun n hn => h.openings streamId entry n hg hn, fun v => by cases v <;> rfl⟩
    · exact h

/-- A second head takes the response body's writer, or its entry. -/
theorem onRespHead (h : d.Accounts current requests canceled) (relayable : Relayable)
    (source streamId status : ℕ) (headers : List HeaderPair)
    (hc : status = 204 ∨ status = 205 ∨ status = 304 ∨
      ∀ entry n, d.pendingHttp.get streamId = some entry → entry.opening = some n →
        view d.effects n ≠ .streaming) :
    (d.onRespHead relayable source streamId status headers).Accounts current requests canceled := by
  unfold TunnelDO.onRespHead
  cases hg : d.pendingHttp.get streamId with
  | none => exact h
  | some entry =>
    -- a head that is let through finds its request waiting
    have waits : ¬(status = 204 ∨ status = 205 ∨ status = 304) → ∀ n, entry.opening = some n →
        view d.effects n = entry.view → view d.effects n = .waiting := by
      intro hs n ho hv
      have hne : view d.effects n ≠ .streaming := by
        rcases hc with hc | hc | hc | hc
        · exact absurd (.inl hc) hs
        · exact absurd (.inr (.inl hc)) hs
        · exact absurd (.inr (.inr hc)) hs
        · exact hc entry n hg ho
      rw [hv] at hne ⊢
      unfold PendingHttp.view at hne ⊢
      split_ifs at hne ⊢ with hw
      · exact absurd rfl hne
      · rfl
    simp only
    split_ifs with hs hr
    · refine h.setEntry hg { entry with timeout := false } rfl _ _ fun n ho hv => ?_
      rw [hv]
      unfold PendingHttp.view
      cases entry.writer
      · exact .inl (.inl rfl)
      · exact .inr rfl
    · refine h.setEntry hg ⟨entry.opening, true, false⟩ rfl _ _ fun n ho hv => .inr ?_
      rw [waits hs n ho hv]
      rfl
    · refine h.drop canceled hg [_] (fun e he => by rw [List.mem_singleton.mp he]) (fun _ => id)
        fun n ho hv => .inl ?_
      rw [view_concat, if_pos ho, waits hs n ho hv]
      exact .inr (.inl rfl)

theorem onWsData (h : d.Accounts current requests canceled) (source streamId : ℕ) (isBinary : Bool)
    (data : Bytes) :
    (d.onWsData source streamId isBinary data).Accounts current requests canceled := by
  unfold TunnelDO.onWsData
  cases hv : d.visitorSocket streamId with
  | none => exact h
  | some v =>
    simp only
    split_ifs
    · exact h
    · refine h.frame rfl rfl le_rfl (fun v hv => ⟨v, hv, rfl, rfl, id⟩) [_] rfl fun e he => ?_
      obtain rfl := List.mem_singleton.mp he
      refine ⟨fun n hn => ?_, onSocket_message _ _⟩
      obtain rfl := Option.some.inj hn
      exact (h.visitors v (List.mem_of_find?_eq_some hv)).2.1

theorem onCloseStream (h : d.Accounts current requests canceled) (source streamId code : ℕ)
    (reason : Text) : (d.onCloseStream source streamId code reason).Accounts current requests
      canceled := by
  unfold TunnelDO.onCloseStream
  split_ifs
  · exact h.failHttpStream _ _ _ _
  · cases hv : d.visitorSocket streamId with
    | none => exact h
    | some v => exact h.closeVisitor (h.visitors v (List.mem_of_find?_eq_some hv)).2.1 _ _ _

/-- A frame that does not leave its request behind. -/
theorem onTunnelFrame (h : d.Accounts current requests canceled) (relayable : Relayable)
    (source : ℕ) (f : Frame)
    (hend : ∀ id entry n, f = .bodyEnd id → d.pendingHttp.get id = some entry →
      entry.opening = some n → view d.effects n ≠ .waiting)
    (hhead : ∀ id status headers, f = .respHead id status headers →
      status = 204 ∨ status = 205 ∨ status = 304 ∨ ∀ entry n, d.pendingHttp.get id = some entry →
        entry.opening = some n → view d.effects n ≠ .streaming) :
    (d.onTunnelFrame relayable source f).Accounts current requests canceled := by
  cases f with
  | respHead id status headers => exact h.onRespHead relayable _ _ _ _ (hhead id status headers rfl)
  | bodyChunk id data => exact h.onBodyChunk _ _ _
  | bodyEnd id => exact h.onBodyEnd _ _ fun entry n => hend id entry n rfl
  | closeStream id code reason => exact h.onCloseStream _ _ _ _
  | wsData id isBinary data => exact h.onWsData _ _ _ _
  | wsOpenAck id protocol => exact h
  | openHttp id info => exact h
  | openWs id info => exact h

/-! ## New streams -/

/-- A new entry, for an opening that is sent or for none. -/
theorem newEntry (h : d.Accounts current requests canceled) (hcur : current d.nextStreamId)
    (entry : PendingHttp) {requests' : List ℕ} (hw : entry.writer = false)
    (hp : d'.pendingHttp = d.pendingHttp.set d.nextStreamId entry)
    (hn : d'.nextStreamId = d.nextStreamId + 1) (hs : d.sent ≤ d'.sent)
    (ho : ∀ n, entry.opening = some n → n = d.sent ∧ d.sent < d'.sent)
    (hv : d'.visitors = d.visitors) (he : d'.effects = d.effects)
    (hr : ∀ n ∈ requests', n ∈ requests ∨ entry.opening = some n) :
    d'.Accounts current requests' canceled := by
  have hget : ∀ j, d'.pendingHttp.get j = if j = d.nextStreamId then some entry
      else d.pendingHttp.get j := fun j => by rw [hp, OrderedMap.get_set]
  refine ⟨?_, ?_, ?_, ?_, ?_, ?_⟩
  · intro j e hj
    rw [hget] at hj
    rw [hn]
    split_ifs at hj with hji
    · exact ⟨hji ▸ Nat.lt_succ_self _, hji ▸ hcur⟩
    · exact ⟨Nat.lt_succ_of_lt (h.entries j e hj).1, (h.entries j e hj).2⟩
  · intro j e n hj hon
    rw [hget] at hj
    split_ifs at hj with hji
    · obtain rfl := Option.some.inj hj
      obtain ⟨rfl, hlt⟩ := ho n hon
      exact hlt
    · exact (h.openings j e n hj hon).trans_le hs
  · intro j e j' e' n hj hj' hon hon'
    rw [hget] at hj hj'
    split_ifs at hj hj' with hji hji' hji'
    · rw [hji, hji']
    · obtain rfl := Option.some.inj hj
      exact absurd (h.openings j' e' n hj' hon') ((ho n hon).1 ▸ lt_irrefl _)
    · obtain rfl := Option.some.inj hj'
      exact absurd (h.openings j e n hj hon) ((ho n hon').1 ▸ lt_irrefl _)
    · exact h.injective j e j' e' n hj hj' hon hon'
  · intro v hm
    rw [hv] at hm
    rw [hn]
    obtain ⟨hid, hop, hc⟩ := h.visitors v hm
    exact ⟨Nat.lt_succ_of_lt hid, hop.trans_le hs, hc⟩
  · rw [he]
    exact fun e hm n hon => (h.effects e hm n hon).trans_le hs
  · intro n hm
    rcases hr n hm with hm | hon
    · refine ⟨(h.requests n hm).1.trans_le hs, ?_⟩
      unfold Accounted
      rw [he]
      rcases (h.requests n hm).2 with hset | hcan | ⟨j, e, hj, hon, hview⟩
      · exact .inl hset
      · exact .inr (.inl hcan)
      · refine .inr (.inr ⟨j, e, ?_, hon, hview⟩)
        rw [hget, if_neg (h.entries j e hj).1.ne, hj]
    · obtain ⟨rfl, hlt⟩ := ho n hon
      refine ⟨hlt, .inr (.inr ⟨d.nextStreamId, entry, by rw [hget, if_pos rfl], hon, ?_⟩)⟩
      rw [he, view_of_forall_lt h.effects]
      unfold PendingHttp.view
      simp [hw]

/-- The request that is answered later is the one just sent. -/
theorem proxyHttp (h : d.Accounts current requests canceled) (hcur : current d.nextStreamId)
    (link : TunnelLink) (r : VisitorRequest) :
    (d.proxyHttp link r).1.Accounts current
      (if (d.proxyHttp link r).2 = .waiting then requests ++ [d.sent] else requests) canceled := by
  have hheld : ({ d with
      nextStreamId := d.nextStreamId + 1
      pendingHttp := d.pendingHttp.set d.nextStreamId ⟨none, false, true⟩ } : TunnelDO).Accounts
      current requests canceled :=
    h.newEntry hcur ⟨none, false, true⟩ rfl rfl rfl le_rfl (by simp) rfl rfl
      fun n hn => .inl hn
  unfold TunnelDO.proxyHttp
  simp only
  rcases trySend_cases { d with
      nextStreamId := d.nextStreamId + 1
      pendingHttp := d.pendingHttp.set d.nextStreamId ⟨none, false, true⟩ } link
    (.openHttp d.nextStreamId r.openHttp) with ht | ht | ⟨m, -, ht⟩ <;> rw [ht]
  · exact hheld
  · have hdrop := hheld.drop canceled (OrderedMap.get_set_self _ _ _) []
      (by simp) (fun _ h => h) (fun n hn => by cases hn)
    rwa [List.append_nil] at hdrop
  · simp only [if_pos]
    have hopen : (({ d with
        nextStreamId := d.nextStreamId + 1
        pendingHttp := d.pendingHttp.set d.nextStreamId ⟨none, false, true⟩ } : TunnelDO).post
          m).setEntry d.nextStreamId ⟨some d.sent, false, true⟩ |>.Accounts current
        (requests ++ [d.sent]) canceled := by
      refine h.newEntry hcur ⟨some d.sent, false, true⟩ rfl ?_ rfl (Nat.le_succ _)
        (fun n hn => ?_) rfl rfl fun n hn => ?_
      · exact OrderedMap.set_set _ _ _ _
      · obtain rfl := Option.some.inj hn
        exact ⟨rfl, Nat.lt_succ_self _⟩
      · rcases List.mem_append.mp hn with hn | hn
        · exact .inl hn
        · exact .inr (by rw [List.mem_singleton.mp hn])
    split_ifs
    · exact hopen.setPumps _
    · exact hopen

theorem openVisitorWebSocket (h : d.Accounts current requests canceled)
    (hcur : current d.nextStreamId) (link : TunnelLink) (r : VisitorRequest) :
    (d.openVisitorWebSocket link r).1.Accounts current requests canceled ∧
      (d.openVisitorWebSocket link r).2 ≠ .waiting := by
  have hnext : ({ d with nextStreamId := d.nextStreamId + 1 } : TunnelDO).Accounts current requests
      canceled :=
    ⟨fun id e hg => ⟨Nat.lt_succ_of_lt (h.entries id e hg).1, (h.entries id e hg).2⟩, h.openings,
      h.injective, fun v hv => ⟨Nat.lt_succ_of_lt (h.visitors v hv).1, (h.visitors v hv).2⟩,
      h.effects, h.requests⟩
  unfold TunnelDO.openVisitorWebSocket
  simp only
  rcases trySend_cases { d with nextStreamId := d.nextStreamId + 1 } link
    (.openWs d.nextStreamId r.openWs) with ht | ht | ⟨m, -, ht⟩ <;> rw [ht]
  · exact ⟨hnext, by simp⟩
  · exact ⟨hnext, by simp⟩
  · have hpost := hnext.post m
    refine ⟨⟨hpost.entries, hpost.openings, hpost.injective, fun v hv => ?_, hpost.effects,
      hpost.requests⟩, by simp⟩
    rcases List.mem_append.mp hv with hv | hv
    · exact hpost.visitors v hv
    · rw [List.mem_singleton.mp hv]
      exact ⟨Nat.lt_succ_self _, Nat.lt_succ_self _, fun _ => hcur⟩

theorem proxyGuestRequest (h : d.Accounts current requests canceled) (link : TunnelLink)
    (hcur : link.active = true → current d.nextStreamId) (r : VisitorRequest) :
    (d.proxyGuestRequest link r).1.Accounts current
      (if (d.proxyGuestRequest link r).2 = .waiting then requests ++ [d.sent] else requests)
      canceled := by
  unfold TunnelDO.proxyGuestRequest
  by_cases hl : link.active = true
  · rw [if_pos hl]
    by_cases hu : r.isUpgrade = true
    · rw [if_pos hu]
      obtain ⟨hacc, hne⟩ := h.openVisitorWebSocket (hcur hl) link r
      rw [if_neg hne]
      exact hacc
    · rw [if_neg hu]
      exact h.proxyHttp (hcur hl) link r
  · rw [if_neg hl]
    exact h

end Accounts

/-! ## Abandoned streams -/

/-- The loop of `abandonStreams` over requests. -/
theorem get_foldl_failHttpStream (reason : Text) (ids : List ℕ) (d : TunnelDO) (j : ℕ) :
    (ids.foldl (fun d id => d.failHttpStream id 502 reason none) d).pendingHttp.get j =
      if j ∈ ids then none else d.pendingHttp.get j := by
  have step : ∀ (d : TunnelDO) (id : ℕ), (d.failHttpStream id 502 reason none).pendingHttp.get j =
      if j = id then none else d.pendingHttp.get j := by
    intro d id
    unfold failHttpStream
    cases hg : d.pendingHttp.get id with
    | none =>
      split_ifs with hj
      · rw [hj, hg]
      · rfl
    | some entry => exact OrderedMap.get_erase _ _ _
  induction ids generalizing d with
  | nil => simp
  | cons id ids ih =>
    rw [List.foldl_cons, ih, step]
    by_cases hj : j ∈ ids <;> by_cases hji : j = id <;> simp [hj, hji]

theorem givenUp_failHttpStream (d : TunnelDO) (streamId status : ℕ) (message : Text)
    (source : Option ℕ) (n : ℕ) :
    (view d.effects n).GivenUp
      (view (d.failHttpStream streamId status message source).effects n) := by
  unfold failHttpStream
  cases d.pendingHttp.get streamId with
  | none => exact .inl rfl
  | some entry =>
    have hview := view_concat d.effects ⟨entry.opening, source,
      if entry.writer then .abort message else .fail status message⟩ n
    unfold effect
    rw [hview]
    split_ifs
    · exact RequestView.givenUp_abort _ _
    · exact .inl rfl
    · exact RequestView.givenUp_fail _ _ _
    · exact .inl rfl

theorem view_closeVisitor (d : TunnelDO) (v : VisitorSocket) (source : Option ℕ) (code : ℕ)
    (reason : Text) (n : ℕ) :
    view (d.closeVisitor v source code reason).effects n = view d.effects n := by
  unfold closeVisitor
  split_ifs
  · rfl
  · have hview := view_concat d.effects ⟨some v.opening, source, .close code reason⟩ n
    rw [onSocket_close, ite_self] at hview
    exact hview

/-- The loop of `abandonStreams` over sockets leaves those open that it does not name. -/
theorem open_of_foldl_closeVisitor (reason : Text) (vs : List VisitorSocket) (d : TunnelDO)
    {w : VisitorSocket}
    (hw : w ∈ (vs.foldl (fun d v => d.closeVisitor v none 1001 reason) d).visitors)
    (hc : w.closing = false) :
    w ∈ d.visitors ∧ ∀ v ∈ vs, v.closing = false → v.opening ≠ w.opening := by
  induction vs generalizing d with
  | nil => exact ⟨hw, by simp⟩
  | cons v vs ih =>
    obtain ⟨hm, hvs⟩ := ih (d.closeVisitor v none 1001 reason) hw
    unfold closeVisitor at hm
    split_ifs at hm with hv
    · refine ⟨hm, fun u hu hcu => ?_⟩
      rcases List.mem_cons.mp hu with rfl | hu
      · rw [hv] at hcu
        cases hcu
      · exact hvs u hu hcu
    · obtain ⟨u, hu, rfl⟩ := List.mem_map.mp hm
      by_cases hou : u.opening = v.opening
      · rw [if_pos hou] at hc
        cases hc
      · rw [if_neg hou] at hvs ⊢
        refine ⟨hu, fun x hx hcx => ?_⟩
        rcases List.mem_cons.mp hx with rfl | hx
        · exact fun h => hou h.symm
        · exact hvs x hx hcx

/-- Nothing dangles: no entry is left, every socket is closed, and each request is answered with an
error, aborted or left by its visitor. -/
structure Cleared (requests canceled : List ℕ) (before after : TunnelDO) : Prop where
  pendingHttp : after.pendingHttp = .empty
  waiting : ∀ n ∈ requests, view before.effects n = .waiting → view after.effects n = .failed
  streaming : ∀ n ∈ requests, view before.effects n = .streaming →
    n ∈ canceled ∨ view after.effects n = .aborted
  visitors : ∀ v ∈ after.visitors, v.closing = true

variable (d) in
theorem pendingHttp_foldl_closeVisitor (reason : Text) (vs : List VisitorSocket) :
    (vs.foldl (fun d v => d.closeVisitor v none 1001 reason) d).pendingHttp = d.pendingHttp := by
  induction vs generalizing d with
  | nil => rfl
  | cons v vs ih =>
    rw [List.foldl_cons, ih]
    unfold closeVisitor
    split_ifs <;> rfl

theorem Accounts.abandonStreams (h : d.Accounts current requests canceled)
    (httpReason wsReason : Text) :
    (d.abandonStreams httpReason wsReason).Accounts current requests canceled := by
  have hsent : ∀ (d : TunnelDO) (v : VisitorSocket),
      (d.closeVisitor v none 1001 wsReason).sent = d.sent := by
    intro d v
    unfold TunnelDO.closeVisitor
    split_ifs <;> rfl
  have hclose : ∀ (vs : List VisitorSocket) (d : TunnelDO), (∀ v ∈ vs, v.opening < d.sent) →
      d.Accounts current requests canceled →
      (vs.foldl (fun d v => d.closeVisitor v none 1001 wsReason) d).Accounts current requests
        canceled := by
    intro vs
    induction vs with
    | nil => exact fun d _ h => h
    | cons v vs ih =>
      intro d hvs h
      exact ih _ (fun u hu => by rw [hsent]; exact hvs u (by simp [hu]))
        (h.closeVisitor (hvs v (by simp)) _ _ _)
  have hfail : ∀ (ids : List ℕ) (d : TunnelDO), d.Accounts current requests canceled →
      (ids.foldl (fun d id => d.failHttpStream id 502 httpReason none) d).Accounts current requests
        canceled := by
    intro ids
    induction ids with
    | nil => exact fun d h => h
    | cons id ids ih => exact fun d h => ih _ (h.failHttpStream _ _ _ _)
  have hf := hfail d.pendingHttp.keys d h
  exact hclose _ _ (fun v hv => (hf.visitors v hv).2.1) hf

theorem Accounts.cleared (h : d.Accounts current requests canceled) (httpReason wsReason : Text) :
    Cleared requests canceled d (d.abandonStreams httpReason wsReason) := by
  have hacc := h.abandonStreams httpReason wsReason
  have hgiven : ∀ n, (view d.effects n).GivenUp
      (view (d.abandonStreams httpReason wsReason).effects n) := by
    intro n
    have hfail : ∀ (ids : List ℕ) (d : TunnelDO), (view d.effects n).GivenUp
        (view (ids.foldl (fun d id => d.failHttpStream id 502 httpReason none) d).effects n) := by
      intro ids
      induction ids with
      | nil => exact fun d => .inl rfl
      | cons id ids ih => exact fun d => (givenUp_failHttpStream d id _ _ _ n).trans (ih _)
    have hclose : ∀ (vs : List VisitorSocket) (d : TunnelDO),
        view (vs.foldl (fun d v => d.closeVisitor v none 1001 wsReason) d).effects n =
          view d.effects n := by
      intro vs
      induction vs with
      | nil => exact fun d => rfl
      | cons v vs ih => exact fun d => (ih _).trans (view_closeVisitor _ _ _ _ _ _)
    unfold TunnelDO.abandonStreams
    simp only
    rw [hclose]
    exact hfail _ _
  have hempty : (d.abandonStreams httpReason wsReason).pendingHttp = .empty := by
    unfold TunnelDO.abandonStreams
    simp only
    rw [pendingHttp_foldl_closeVisitor]
    refine OrderedMap.eq_empty_of_get fun j => ?_
    rw [get_foldl_failHttpStream]
    split_ifs with hj
    · rfl
    · exact OrderedMap.get_eq_none.mpr hj
  have hdone : ∀ n ∈ requests, (view (d.abandonStreams httpReason wsReason).effects n).Settled ∨
      n ∈ canceled ∧ view (d.abandonStreams httpReason wsReason).effects n ≠ .waiting := by
    intro n hn
    rcases (hacc.requests n hn).2 with hset | hcan | ⟨id, entry, hg, -⟩
    · exact .inl hset
    · exact .inr hcan
    · rw [hempty] at hg
      cases hg
  refine ⟨hempty, fun n hn hv => ?_, fun n hn hv => ?_, fun v hv => ?_⟩
  · have := hgiven n
    have := hdone n hn
    rw [hv] at *
    unfold RequestView.GivenUp RequestView.Settled at *
    grind
  · have := hgiven n
    have := hdone n hn
    rw [hv] at *
    unfold RequestView.GivenUp RequestView.Settled at *
    grind
  · by_contra hc
    unfold TunnelDO.abandonStreams at hv
    obtain ⟨hm, hvs⟩ := open_of_foldl_closeVisitor _ _ _ hv (by simpa using hc)
    exact hvs v hm (by simpa using hc) rfl

end TunnelDO

end BbShared
