import BbShared.HttpReply
import BbShared.TunnelSystem

/-!
# Responses at the relay

`tunnel-do.ts`: what becomes of the requests that a relay holds, and of their responses.  A step that
takes no frame of a session holds on to requests or gives them up; giving one up spoils its response
and no other.  A frame passes one part of a response on, to the request that the relay holds under
its stream id.
-/

namespace BbShared

open Js

theorem HttpReply.next_close (v : HttpReply) (code : ℕ) (reason : Text) :
    v.next (.close code reason) = v := by
  cases v <;> rfl

theorem HttpReply.next_message (v : HttpReply) (isBinary : Bool) (data : Bytes) :
    v.next (.message isBinary data) = v := by
  cases v <;> rfl

namespace TunnelDO

variable {d t u : TunnelDO}

/-! ## Requests that are given up -/

/-- Every request is held once, and has a writer exactly while its body streams. -/
structure Tended (d : TunnelDO) : Prop where
  distinct : ∀ i j e e' n, d.pendingHttp.get i = some e → d.pendingHttp.get j = some e' →
    e.opening = some n → e'.opening = some n → i = j
  writer : ∀ i e n, d.pendingHttp.get i = some e → e.opening = some n →
    (e.writer = true ↔ (reply d.effects n).IsStreaming)

/-- Requests are held or given up; what becomes of a response is on account of its own request. -/
structure Releases (d t : TunnelDO) : Prop where
  entries : ∀ i e, t.pendingHttp.get i = some e → d.pendingHttp.get i = some e
  spoils : d.Tended → ∀ n, (reply d.effects n).Spoils (reply t.effects n)
  kept : d.Tended → ∀ i e n, t.pendingHttp.get i = some e → e.opening = some n →
    reply t.effects n = reply d.effects n
  others : ∀ n, (∀ i e, d.pendingHttp.get i = some e → e.opening ≠ some n) →
    reply t.effects n = reply d.effects n

theorem Releases.tended (h : Releases d t) (hd : d.Tended) : t.Tended where
  distinct i j e e' n hi hj := hd.distinct i j e e' n (h.entries i e hi) (h.entries j e' hj)
  writer i e n hi ho := by
    rw [h.kept hd i e n hi ho]
    exact hd.writer i e n (h.entries i e hi) ho

theorem releases_of_reply (hp : ∀ i e, t.pendingHttp.get i = some e → d.pendingHttp.get i = some e)
    (he : ∀ n, reply t.effects n = reply d.effects n) : Releases d t where
  entries := hp
  spoils _ n := .inl (he n)
  kept _ _ _ n _ _ := he n
  others n _ := he n

theorem releases_of_eq (hp : t.pendingHttp = d.pendingHttp) (he : t.effects = d.effects) :
    Releases d t := releases_of_reply (fun _ _ h => hp ▸ h) fun _ => by rw [he]

theorem releases_refl (d : TunnelDO) : Releases d d := releases_of_eq rfl rfl

theorem Releases.trans (h : Releases d t) (h' : Releases t u) : Releases d u where
  entries i e hi := h.entries i e (h'.entries i e hi)
  spoils hd n := (h.spoils hd n).trans (h'.spoils (h.tended hd) n)
  kept hd i e n hi ho :=
    (h'.kept (h.tended hd) i e n hi ho).trans (h.kept hd i e n (h'.entries i e hi) ho)
  others n hn := (h'.others n fun i e hi => hn i e (h.entries i e hi)).trans (h.others n hn)

theorem releases_foldl {α : Type*} {f : TunnelDO → α → TunnelDO} (h : ∀ a d, Releases d (f d a))
    (as : List α) (d : TunnelDO) : Releases d (as.foldl f d) := by
  induction as generalizing d with
  | nil => exact releases_refl d
  | cons a as ih => exact (h a d).trans (ih _)

theorem get_of_get_erase {id i : ℕ} {e : PendingHttp}
    (h : (d.pendingHttp.erase id).get i = some e) : i ≠ id ∧ d.pendingHttp.get i = some e := by
  rw [OrderedMap.get_erase] at h
  split_ifs at h with hi
  exact ⟨hi, h⟩

theorem releases_erase (d : TunnelDO) (id : ℕ) :
    Releases d { d with pendingHttp := d.pendingHttp.erase id } :=
  releases_of_reply (fun _ _ h => (get_of_get_erase h).2) fun _ => rfl

/-- What a visitor's socket is told is no part of a response. -/
theorem releases_effect (d : TunnelDO) (opening source : Option ℕ) {action : VisitorAction}
    (h : ∀ v : HttpReply, v.next action = v) : Releases d (d.effect opening source action) := by
  refine releases_of_reply (fun _ _ h => h) fun n => ?_
  unfold effect
  dsimp only
  rw [reply_concat, h]
  exact ite_self _

theorem releases_closeVisitor (d : TunnelDO) (v : VisitorSocket) (source : Option ℕ) (code : ℕ)
    (reason : Text) : Releases d (d.closeVisitor v source code reason) := by
  unfold closeVisitor
  split_ifs
  · exact releases_refl d
  · have hmark : Releases d (d.markClosing v.opening) := releases_of_eq rfl rfl
    exact hmark.trans (releases_effect _ _ _ fun w => w.next_close code reason)

/-- **Failure rule.** A request is given up, and its response is an error or stays what it is. -/
theorem releases_failure {id : ℕ} {entry : PendingHttp} (hg : d.pendingHttp.get id = some entry)
    {action : VisitorAction} (h : d.Tended → ∀ n, entry.opening = some n →
      (reply d.effects n).Spoils ((reply d.effects n).next action)) (source : Option ℕ) :
    Releases d ({ d with pendingHttp := d.pendingHttp.erase id }.effect entry.opening source
      action) where
  entries i e hi := (get_of_get_erase hi).2
  spoils hd n := by
    unfold effect
    dsimp only
    rw [reply_concat]
    dsimp only
    split_ifs with ho
    · exact h hd n ho
    · exact .inl rfl
  kept hd i e n hi ho := by
    obtain ⟨hne, hi⟩ := get_of_get_erase hi
    unfold effect
    dsimp only
    rw [reply_concat]
    exact if_neg fun ho' => hne (hd.distinct i id e entry n hi hg ho ho')
  others n hn := by
    unfold effect
    dsimp only
    rw [reply_concat]
    exact if_neg (hn id entry hg)

theorem releases_failHttpStream (d : TunnelDO) (id status : ℕ) (message : Text)
    (source : Option ℕ) : Releases d (d.failHttpStream id status message source) := by
  unfold failHttpStream
  split
  · exact releases_refl d
  · rename_i entry hg
    refine releases_failure hg (fun hd n ho => ?_) source
    split_ifs with hw
    · exact HttpReply.spoils_abort _ _
    · exact HttpReply.spoils_fail (fun hs => hw ((hd.writer id entry n hg ho).mpr hs)) _ _

/-! ## Steps without a frame -/

theorem releases_abandonStreams (d : TunnelDO) (httpReason wsReason : Text) :
    Releases d (d.abandonStreams httpReason wsReason) :=
  (releases_foldl (fun _ d => releases_failHttpStream d _ _ _ _) _ d).trans
    (releases_foldl (fun v d => releases_closeVisitor d v _ _ _) _ _)

theorem releases_post (d : TunnelDO) (m : Message) : Releases d (d.post m) := releases_of_eq rfl rfl

theorem releases_sendOnly (d : TunnelDO) (link : TunnelLink) (f : Frame) :
    Releases d (d.sendOnly link f) := by
  unfold sendOnly
  rcases trySend_cases d link f with h | h | ⟨m, -, h⟩ <;> rw [h]
  · exact releases_refl d
  · exact releases_refl d
  · exact releases_post d m

theorem releases_pumps (d : TunnelDO) (pumps : List ℕ) : Releases d { d with pumps } :=
  releases_of_eq rfl rfl

theorem releases_pumpChunk (d : TunnelDO) (link : TunnelLink) (id : ℕ) (value : Bytes) :
    Releases d (d.pumpChunk link id value) := by
  unfold pumpChunk
  split_ifs
  · exact releases_foldl (fun f d => releases_sendOnly d link f) _ d
  · exact releases_refl d
  · exact releases_pumps d _

theorem releases_pumpEnd (d : TunnelDO) (link : TunnelLink) (id : ℕ) :
    Releases d (d.pumpEnd link id) := (releases_sendOnly d link _).trans (releases_pumps _ _)

theorem releases_pumpError (d : TunnelDO) (link : TunnelLink) (id : ℕ) :
    Releases d (d.pumpError link id) := (releases_sendOnly d link _).trans (releases_pumps _ _)

theorem releases_visitorMessage (d : TunnelDO) (link : TunnelLink) (v : VisitorSocket)
    (isBinary : Bool) (data : Bytes) : Releases d (d.visitorMessage link v isBinary data) := by
  unfold visitorMessage
  split_ifs
  · rcases trySend_cases d link (.wsData v.streamId isBinary data) with h | h | ⟨m, -, h⟩ <;> rw [h]
    · exact releases_refl d
    · exact releases_closeVisitor d v _ _ _
    · exact releases_post d m
  · exact releases_closeVisitor d v _ _ _

theorem releases_visitorClose (d : TunnelDO) (link : TunnelLink) (v : VisitorSocket) (code : ℕ)
    (reason : Text) : Releases d (d.visitorClose link v code reason) := by
  unfold visitorClose
  split_ifs
  · exact (releases_sendOnly d link _).trans (releases_closeVisitor _ v _ _ _)
  · exact releases_closeVisitor d v _ _ _

theorem releases_cancelHttpStream (d : TunnelDO) (link : TunnelLink) (id : ℕ) :
    Releases d (d.cancelHttpStream link id) := by
  unfold cancelHttpStream
  split
  · exact releases_refl d
  · split_ifs
    · exact (releases_erase d id).trans (releases_sendOnly _ link _)
    · exact releases_erase d id

/-! ## Frames of a session -/

/-- The request under the id has one more part of its response. -/
structure Passes (id : ℕ) (p : Part) (entry : PendingHttp) (d t : TunnelDO) : Prop where
  get : d.pendingHttp.get id = some entry
  entries : ∀ i e, t.pendingHttp.get i = some e → i ≠ id ∧ d.pendingHttp.get i = some e ∨
    i = id ∧ e.opening = entry.opening ∧ ∀ n, entry.opening = some n →
      (e.writer = true ↔ (reply t.effects n).IsStreaming)
  reply : ∀ n, BbShared.reply t.effects n =
    if entry.opening = some n then (BbShared.reply d.effects n).take p
    else BbShared.reply d.effects n

/-- A part is passed on, or the request is given up, if there is one; what is no part passes
nothing. -/
inductive Hears (f : Frame) (d t : TunnelDO) : Prop
  | passes {p : Part} {entry : PendingHttp} (hp : f.part = some p)
      (h : Passes f.streamId p entry d t) : Hears f d t
  | releases (h : Releases d t) (hg : ∀ p, f.part = some p → t.pendingHttp.get f.streamId = none) :
      Hears f d t

theorem hears_of_none {f : Frame} (h : Releases d t) (hf : f.part = none) : Hears f d t :=
  .releases h fun _ hp => absurd (hf.symm.trans hp) nofun

/-- A response begins only where there is none. -/
def Begins (d : TunnelDO) (f : Frame) : Prop :=
  ∀ entry status n, d.pendingHttp.get f.streamId = some entry → f.part = some (.head status) →
    entry.opening = some n → reply d.effects n = .waiting

theorem get_of_get_set {id i : ℕ} {e entry : PendingHttp}
    (h : (d.pendingHttp.set id entry).get i = some e) :
    i ≠ id ∧ d.pendingHttp.get i = some e ∨ i = id ∧ e = entry := by
  rw [OrderedMap.get_set] at h
  split_ifs at h with hi
  · exact .inr ⟨hi, (Option.some.inj h).symm⟩
  · exact .inl ⟨hi, h⟩

theorem hears_onRespHead (relayable : Relayable) (hd : d.Tended) {source id status : ℕ}
    {headers : List HeaderPair} (hb : d.Begins (.respHead id status headers)) :
    Hears (.respHead id status headers) d (d.onRespHead relayable source id status headers) := by
  unfold onRespHead
  split
  · rename_i hg
    exact .releases (releases_refl d) fun _ _ => hg
  · rename_i entry hg
    have hwaiting : ∀ n, entry.opening = some n → reply d.effects n = .waiting :=
      fun n => hb entry status n hg rfl
    -- The response begins, with a writer or without a body.
    have hpasses : ∀ (writer hasBody : Bool) (fields : List HeaderPair),
        (∀ n, entry.opening = some n → (HttpReply.waiting.next (.respond status fields hasBody) =
          HttpReply.waiting.take (.head status)) ∧
          (writer = true ↔ (HttpReply.waiting.take (.head status)).IsStreaming)) →
        Hears (.respHead id status headers) d
          ((d.setEntry id { entry with timeout := false, writer }).effect entry.opening
            (some source) (.respond status fields hasBody)) := by
      intro writer hasBody fields h
      have hreply : ∀ n, reply ((d.setEntry id { entry with timeout := false, writer }).effect
          entry.opening (some source) (.respond status fields hasBody)).effects n =
          if entry.opening = some n then (reply d.effects n).take (.head status)
          else reply d.effects n := by
        intro n
        unfold effect setEntry
        dsimp only
        rw [reply_concat]
        dsimp only
        split_ifs with ho
        · rw [hwaiting n ho, (h n ho).1]
        · rfl
      refine .passes rfl ⟨hg, fun i e hi => ?_, hreply⟩
      rcases get_of_get_set hi with hi | ⟨rfl, rfl⟩
      · exact .inl hi
      · refine .inr ⟨rfl, rfl, fun n ho => ?_⟩
        rw [hreply, if_pos ho, hwaiting n ho]
        exact (h n ho).2
    dsimp only
    split_ifs with hnull hrelay
    · refine hpasses entry.writer false _ fun n ho => ?_
      rw [show HttpReply.waiting.take (.head status) = .bodiless status from if_pos hnull]
      refine ⟨rfl, ?_⟩
      rw [hd.writer id entry n hg ho, hwaiting n ho]
      exact Iff.rfl
    · refine hpasses true true _ fun n ho => ?_
      rw [show HttpReply.waiting.take (.head status) = .streaming status [] from if_neg hnull]
      exact ⟨rfl, iff_of_true rfl trivial⟩
    · refine .releases (releases_failure hg (fun _ n ho => ?_) _) fun _ _ =>
        OrderedMap.get_erase_self _ _
      rw [hwaiting n ho]
      exact .inr (.inl ⟨rfl, rfl⟩)

theorem take_of_not_isStreaming {v : HttpReply} (h : ¬ v.IsStreaming) {p : Part}
    (hp : ∀ status, p ≠ .head status) : v.take p = v := by
  cases v with
  | streaming status body => exact absurd trivial h
  | waiting =>
    cases p with
    | head status => exact absurd rfl (hp status)
    | _ => rfl
  | _ => cases p <;> rfl

theorem hears_onBodyChunk (hd : d.Tended) (source id : ℕ) (data : Bytes) :
    Hears (.bodyChunk id data) d (d.onBodyChunk source id data) := by
  unfold onBodyChunk
  split
  · rename_i entry hg
    split_ifs with hw
    · have hreply : ∀ n, reply (d.effect entry.opening (some source) (.write data)).effects n =
          if entry.opening = some n then (reply d.effects n).take (.data data)
          else reply d.effects n := by
        intro n
        unfold effect
        dsimp only
        rw [reply_concat]
        dsimp only
        split_ifs
        · cases reply d.effects n <;> rfl
        · rfl
      refine .passes rfl ⟨hg, fun i e hi => ?_, hreply⟩
      rcases eq_or_ne i id with rfl | hne
      · obtain rfl := Option.some.inj (hg.symm.trans hi)
        refine .inr ⟨rfl, rfl, fun n ho => ?_⟩
        have hs := (hd.writer i entry n hg ho).mp hw
        rw [hreply, if_pos ho]
        refine iff_of_true hw ?_
        revert hs
        cases reply d.effects n <;> exact fun h => h
      · exact .inl ⟨hne, hi⟩
    · refine .passes rfl ⟨hg, fun i e hi => ?_, fun n => ?_⟩
      · rcases eq_or_ne i id with rfl | hne
        · obtain rfl := Option.some.inj (hg.symm.trans hi)
          exact .inr ⟨rfl, rfl, fun n ho => hd.writer i entry n hg ho⟩
        · exact .inl ⟨hne, hi⟩
      · split_ifs with ho
        · exact (take_of_not_isStreaming (fun hs => hw ((hd.writer id entry n hg ho).mpr hs))
            (by simp)).symm
        · rfl
  · rename_i hg
    exact .releases (releases_refl d) fun _ _ => hg

theorem hears_onBodyEnd (hd : d.Tended) (source id : ℕ) :
    Hears (.bodyEnd id) d (d.onBodyEnd source id) := by
  unfold onBodyEnd
  split
  · rename_i entry hg
    dsimp only
    split_ifs with hw
    · refine .passes rfl ⟨hg, fun i e hi => .inl (get_of_get_erase hi), fun n => ?_⟩
      unfold effect
      dsimp only
      rw [reply_concat]
      dsimp only
      split_ifs
      · cases reply d.effects n <;> rfl
      · rfl
    · refine .passes rfl ⟨hg, fun i e hi => .inl (get_of_get_erase hi), fun n => ?_⟩
      split_ifs with ho
      · exact (take_of_not_isStreaming (fun hs => hw ((hd.writer id entry n hg ho).mpr hs))
          (by simp)).symm
      · rfl
  · rename_i hg
    exact .releases (releases_refl d) fun _ _ => hg

/-- **Frame rule.** What a frame of a session does to the responses. -/
theorem hears_onTunnelFrame (relayable : Relayable) (hd : d.Tended) (source : ℕ) {f : Frame}
    (hb : d.Begins f) : Hears f d (d.onTunnelFrame relayable source f) := by
  cases f with
  | respHead id status headers => exact hears_onRespHead relayable hd hb
  | bodyChunk id data => exact hears_onBodyChunk hd source id data
  | bodyEnd id => exact hears_onBodyEnd hd source id
  | closeStream id code reason =>
    refine hears_of_none ?_ rfl
    unfold onTunnelFrame onCloseStream
    dsimp only
    split_ifs
    · exact releases_failHttpStream d _ _ _ _
    · split
      · exact releases_closeVisitor d _ _ _ _
      · exact releases_refl d
  | wsData id isBinary data =>
    refine hears_of_none ?_ rfl
    unfold onTunnelFrame onWsData
    dsimp only
    split
    · split_ifs
      · exact releases_refl d
      · exact releases_effect _ _ _ fun v => v.next_message isBinary data
    · exact releases_refl d
  | wsOpenAck id protocol => exact hears_of_none (releases_refl d) rfl
  | openHttp id info => exact hears_of_none (releases_refl d) rfl
  | openWs id info => exact hears_of_none (releases_refl d) rfl

theorem Passes.tended {id : ℕ} {p : Part} {entry : PendingHttp} (h : Passes id p entry d t)
    (hd : d.Tended) : t.Tended where
  distinct i j e e' n hi hj ho ho' := by
    rcases h.entries i e hi with ⟨-, hi⟩ | ⟨rfl, he, -⟩
    · rcases h.entries j e' hj with ⟨-, hj⟩ | ⟨rfl, he', -⟩
      · exact hd.distinct i j e e' n hi hj ho ho'
      · exact hd.distinct i j e entry n hi h.get ho (he' ▸ ho')
    · rcases h.entries j e' hj with ⟨-, hj⟩ | ⟨rfl, -, -⟩
      · exact hd.distinct i j entry e' n h.get hj (he ▸ ho) ho'
      · rfl
  writer i e n hi ho := by
    rcases h.entries i e hi with ⟨hne, hi⟩ | ⟨-, he, hw⟩
    · have hother : entry.opening ≠ some n := fun ho' =>
        hne (hd.distinct i id e entry n hi h.get ho ho')
      rw [h.reply, if_neg hother]
      exact hd.writer i e n hi ho
    · exact hw n (he ▸ ho)

variable {f : Frame}

theorem Hears.tended (h : Hears f d t) (hd : d.Tended) : t.Tended := by
  cases h with
  | passes _ h => exact h.tended hd
  | releases h _ => exact h.tended hd

/-- What is held has its response as far as it was, and the part of the frame if it is under its
id. -/
theorem Hears.entries (h : Hears f d t) (hd : d.Tended) {i n : ℕ} {e : PendingHttp}
    (hi : t.pendingHttp.get i = some e) (ho : e.opening = some n) :
    ∃ e', d.pendingHttp.get i = some e' ∧ e'.opening = some n ∧ reply t.effects n =
      if i = f.streamId then f.part.elim (reply d.effects n) (reply d.effects n).take
      else reply d.effects n := by
  cases h with
  | @passes p entry hp h =>
    rcases h.entries i e hi with ⟨hne, hi⟩ | ⟨rfl, he, -⟩
    · refine ⟨e, hi, ho, ?_⟩
      have hother : entry.opening ≠ some n := fun ho' =>
        hne (hd.distinct i _ e entry n hi h.get ho ho')
      rw [if_neg hne, h.reply, if_neg hother]
    · refine ⟨entry, h.get, he ▸ ho, ?_⟩
      rw [if_pos rfl, h.reply, if_pos (he ▸ ho), hp]
      rfl
  | releases h hg =>
    refine ⟨e, h.entries i e hi, ho, ?_⟩
    rw [h.kept hd i e n hi ho]
    split_ifs with hid
    · cases hp : f.part with
      | none => rfl
      | some p =>
        have hnone := hg p hp
        rw [← hid, hi] at hnone
        cases hnone
    · rfl

/-- A response is spoilt, or has the part of the frame. -/
theorem Hears.reply (h : Hears f d t) (hd : d.Tended) (n : ℕ) :
    (BbShared.reply d.effects n).Spoils (BbShared.reply t.effects n) ∨
      ∃ e p, d.pendingHttp.get f.streamId = some e ∧ e.opening = some n ∧ f.part = some p ∧
        BbShared.reply t.effects n = (BbShared.reply d.effects n).take p := by
  cases h with
  | @passes p entry hp h =>
    by_cases ho : entry.opening = some n
    · exact .inr ⟨entry, p, h.get, ho, hp, by rw [h.reply, if_pos ho]⟩
    · exact .inl (.inl (by rw [h.reply, if_neg ho]))
  | releases h _ => exact .inl (h.spoils hd n)

theorem Hears.others (h : Hears f d t) {n : ℕ}
    (hn : ∀ i e, d.pendingHttp.get i = some e → e.opening ≠ some n) :
    BbShared.reply t.effects n = BbShared.reply d.effects n := by
  cases h with
  | @passes p entry hp h => rw [h.reply, if_neg (hn _ entry h.get)]
  | releases h _ => exact h.others n hn

end TunnelDO

end BbShared
