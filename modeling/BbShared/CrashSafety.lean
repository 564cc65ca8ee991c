import BbShared.InvitationCalls

/-!
# Crashes and restarts

The invitations over any number of processes.  A process may end at any moment, in the middle of a
call or of the write of its record; the next one loads what the store then holds, hashes the bearers
under a key of its own, and may find the device key locked.

The record is the list that the committed calls make, one after another.  `issued`, `committed`,
`past` and `overtaken` are what the runs are judged by: the calls of the owner, those whose record
was written, those that earlier processes fulfilled, and those that a crash kept from being told so.
-/

namespace BbShared

open Js
open scoped List

variable {hmac : Hmac} {aes : Aes} {key : RandomKey}

/-! ## The record -/

/-- The record is that of the invitations; without a record there are none. -/
def Holds (aes : Aes) (key : RandomKey) (kv : Option Json) (l : List TokenSnapshot) : Prop :=
  ¬ Recorded kv ∧ l = [] ∨
    ∃ raw, kv = some raw ∧ raw ≠ .null ∧ readShares aes key.1 raw = some (l, false)

theorem holds_sharesRecord (nonce : Nonce) {l : List TokenSnapshot}
    (h : validState (stateJson l) = some l) : Holds aes key (sharesRecord aes key nonce l) l := by
  obtain ⟨raw, hraw, hne, hread⟩ := readShares_sharesRecord aes key nonce h
  exact .inr ⟨raw, hraw, hne, hread⟩

/-- What the next process loads. -/
theorem Holds.load {kv : Option Json} {l : List TokenSnapshot} (h : Holds aes key kv l)
    (keyed : Bool) (migration : Option Nonce) :
    (loadShares aes (if keyed then some key else none) migration kv).kv = kv ∧
      ((loadShares aes (if keyed then some key else none) migration kv).recoveryRequired = false →
        (loadShares aes (if keyed then some key else none) migration kv).tokens = l ∧
          (l.map TokenSnapshot.id).Nodup) := by
  rcases h with ⟨hnone, rfl⟩ | ⟨raw, rfl, hne, hread⟩
  · have hload : ∀ k, loadShares aes k migration kv = ⟨[], false, kv⟩ := by
      intro k
      unfold loadShares
      split
      · rfl
      · rfl
      · rename_i raw hraw
        exact absurd ⟨by simp, fun h0 => hraw (Option.some.inj h0)⟩ hnone
    rw [hload]
    exact ⟨rfl, fun _ => ⟨rfl, List.nodup_nil⟩⟩
  · cases keyed with
    | true =>
      rw [if_pos rfl, loadShares_of_readShares hne hread]
      exact ⟨rfl, fun _ => ⟨rfl, nodup_of_readShares hread⟩⟩
    | false =>
      have hload : loadShares aes none migration (some raw) = ⟨[], true, some raw⟩ := by
        unfold loadShares
        cases raw with
        | null => exact absurd rfl hne
        | _ => rfl
      rw [if_neg (by decide), hload]
      exact ⟨rfl, nofun⟩

/-! ## One process -/

namespace ShareQueue

variable {q q' : ShareQueue} {l : List TokenSnapshot}

/-- What the call that runs has come to, on the list it found. -/
def Tracks (q : ShareQueue) (op : ShareOperation) (l : List TokenSnapshot) : Prop :=
  match op.phase with
  | .operating => True
  | .attaching id share => ∃ label t, op.call = .mintToken label (some share) ∧ t.id = id ∧
      t.shares = [] ∧ id ∉ l.map TokenSnapshot.id ∧ (∀ x ∈ label, t.label = x) ∧
      q.live.invitations = l ++ [t]
  | .persisting => Does op.call l q.live.invitations
  | .writing tokens => Does op.call l tokens

/-- The record holds `l`, and so does the memory between the calls, unless the record could not be
opened; then nothing is written. -/
structure Faithful (hmac : Hmac) (aes : Aes) (key : RandomKey) (q : ShareQueue)
    (l : List TokenSnapshot) : Prop where
  restorable : Restorable hmac q
  holds : Holds aes key q.kv l
  locked : q.recoveryRequired = true → ∀ op ∈ q.running, ∀ tokens, op.phase ≠ .writing tokens
  live : q.recoveryRequired = false →
    q.baseline.invitations = l ∧ ∀ op ∈ q.running, q.Tracks op l

/-- The calls that an event commits. -/
def commits (q : ShareQueue) : ShareEvent → List ShareCall
  | .write (.ok _) => (q.running.map (·.call)).toList
  | _ => []

namespace Faithful

/-- The call has settled, and its change is undone. -/
theorem undone (h : Faithful hmac aes key q l) {op : ShareOperation} (hr : q.running = some op)
    (message : Text)
    (ht : Restorable hmac ({ q with live := op.began.1 }.settle op (.error message))) :
    Faithful hmac aes key ({ q with live := op.began.1 }.settle op (.error message)) l := by
  refine ⟨ht, h.holds, (fun _ op' hop' => by cases hop'),
    fun hrec => ⟨?_, fun op' hop' => by cases hop'⟩⟩
  rw [← (h.live hrec).1, baseline_of_running hr]
  rfl

theorem rollback (h : Faithful hmac aes key q l) {op : ShareOperation} (hr : q.running = some op)
    (message : Text) : Faithful hmac aes key (q.rollback op message) l := by
  have ht := h.restorable.rollback hr message
  rw [h.restorable.rollback_eq hr] at ht ⊢
  exact h.undone hr message ht

/-- The call goes on. -/
theorem proceed (h : Faithful hmac aes key q l) {op : ShareOperation} (hr : q.running = some op)
    {live : LiveShares} {phase : SharePhase}
    (ht : Restorable hmac ({ q with live }.run op phase))
    (hphase : q.recoveryRequired = true → ∀ tokens, phase ≠ .writing tokens)
    (htracks : q.recoveryRequired = false → Tracks { q with live } { op with phase } l) :
    Faithful hmac aes key ({ q with live }.run op phase) l := by
  refine ⟨ht, h.holds, fun hrec op' hop' => ?_, fun hrec => ⟨?_, fun op' hop' => ?_⟩⟩
  · obtain rfl := Option.some.inj hop'
    exact hphase hrec
  · rw [← (h.live hrec).1, baseline_of_running hr]
    rfl
  · obtain rfl := Option.some.inj hop'
    exact htracks hrec

theorem operate (h : Faithful hmac aes key q l) {op : ShareOperation} (hr : q.running = some op)
    (hp : op.phase = .operating) {now : ℕ} {draws : InMemoryStore.MintDraws}
    {changed : Except StoreError (LiveShares × Attachment)}
    (hchange : q.live.change hmac now draws op.call = some changed)
    (ht : Restorable hmac (q.operated op changed)) :
    Faithful hmac aes key (q.operated op changed) l := by
  have hlive : q.live = op.began.1 := by
    have hphase := (h.restorable.running op hr).phase
    unfold PhaseOk at hphase
    rw [hp] at hphase
    exact hphase
  have hbegan : q.recoveryRequired = false → q.live.invitations = l := fun hrec => by
    rw [← (h.live hrec).1, baseline_of_running hr, hlive]
  cases changed with
  | error e =>
    have heq : q.operated op (.error e) =
        { q with live := op.began.1 }.settle op (.error (mapStoreError e)) := by
      rw [← hlive]
      rfl
    rw [heq] at ht ⊢
    exact h.undone hr _ ht
  | ok result =>
    obtain ⟨live, attachment⟩ := result
    have hdoes := LiveShares.change_does hchange
    cases attachment with
    | none =>
      refine h.proceed hr ht (fun _ tokens => nofun) fun hrec => ?_
      rw [hbegan hrec] at hdoes
      exact hdoes
    | some a =>
      refine h.proceed hr ht (fun _ tokens => nofun) fun hrec => ?_
      rw [hbegan hrec] at hdoes
      exact hdoes

theorem attach (h : Faithful hmac aes key q l) {op : ShareOperation} (hr : q.running = some op)
    {tokenId : Text} {share : InMemoryStore.AddShareInput}
    (hp : op.phase = .attaching tokenId share) (now : ℕ)
    (ht : Restorable hmac (q.operated op ((q.live.store.addShare tokenId share now).map
      fun store => ({ q.live with store }, none)))) :
    Faithful hmac aes key (q.operated op ((q.live.store.addShare tokenId share now).map
      fun store => ({ q.live with store }, none))) l := by
  obtain ⟨store, hstore, -⟩ := h.restorable.attached hr hp now
  rw [hstore] at ht ⊢
  refine h.proceed hr ht (fun _ tokens => nofun) fun hrec => ?_
  have htracks := (h.live hrec).2 op hr
  unfold Tracks at htracks
  rw [hp] at htracks
  obtain ⟨label, t, hcall, rfl, hshares, hfresh, hlabel, hlist⟩ := htracks
  obtain ⟨t', hlist', hid, hname, hnow⟩ := LiveShares.invitations_attach hlist hshares hstore
  show Does op.call l (LiveShares.invitations { q.live with store })
  rw [hcall, hlist']
  exact .mint (by rw [hid]; exact hfresh) (fun x hx => hname.trans (hlabel x hx)) ⟨now, hnow⟩

theorem persist (h : Faithful hmac aes key q l) {op : ShareOperation} (hr : q.running = some op)
    (hp : op.phase = .persisting) (ht : Restorable hmac (q.persist op)) :
    Faithful hmac aes key (q.persist op) l := by
  unfold ShareQueue.persist at ht ⊢
  rw [h.restorable.hashed.snapshot] at ht ⊢
  simp only [Except.bind] at ht ⊢
  unfold prepareShares at ht ⊢
  by_cases hrec : q.recoveryRequired = true
  · rw [if_pos hrec]
    exact h.rollback hr _
  · rw [if_neg hrec] at ht ⊢
    cases hvalid : validState (stateJson q.live.invitations) with
    | none => exact h.rollback hr _
    | some validated =>
      rw [hvalid] at ht
      refine h.proceed hr ht (fun hrec' => absurd hrec' hrec) fun hrec' => ?_
      have htracks := (h.live hrec').2 op hr
      unfold Tracks at htracks
      rw [hp] at htracks
      show Does op.call l validated
      rw [validState_eq_some hvalid]
      exact htracks

/-- The record is written, and what it holds is in memory. -/
theorem write (h : Faithful hmac aes key q l) {op : ShareOperation} (hr : q.running = some op)
    {tokens : List TokenSnapshot} (hp : op.phase = .writing tokens) (nonce : Nonce)
    (ht : Restorable hmac (q.write aes op tokens (.ok (key, nonce)))) :
    Faithful hmac aes key (q.write aes op tokens (.ok (key, nonce))) tokens ∧
      Does op.call l tokens := by
  have hrec : q.recoveryRequired = false := by
    by_contra hlocked
    exact h.locked (by simpa using hlocked) op hr tokens hp
  have hphase := (h.restorable.running op hr).phase
  unfold PhaseOk at hphase
  rw [hp] at hphase
  have htracks := (h.live hrec).2 op hr
  unfold Tracks at htracks
  rw [hp] at htracks
  refine ⟨⟨ht, holds_sharesRecord nonce hphase.2, (fun _ op' hop' => by cases hop'),
    fun _ => ⟨?_, fun op' hop' => by cases hop'⟩⟩, htracks⟩
  exact Except.ok.inj (h.restorable.hashed.snapshot.symm.trans hphase.1)

/-- **Step lemma.** An event that commits a call does in the record what the call does; every other
leaves the record. -/
theorem step (h : Faithful hmac aes key q l) {e : ShareEvent} (hkey : KeyIs key q e)
    (hs : q.step hmac aes e = some q') :
    (q.commits e = [] ∧ Faithful hmac aes key q' l) ∨
      ∃ call tokens, q.commits e = [call] ∧ Does call l tokens ∧
        Faithful hmac aes key q' tokens := by
  have ht := h.restorable.step hs
  cases Step.of_step hs with
  | call call => exact .inl ⟨rfl, ht, h.holds, h.locked, h.live⟩
  | begin hr hw =>
    refine .inl ⟨rfl, ht, h.holds, fun hrec op hop => ?_, fun hrec => ⟨?_, fun op hop => ?_⟩⟩
    · obtain rfl := Option.some.inj hop
      exact fun tokens => nofun
    · rw [← (h.live hrec).1, baseline_of_idle hr]
      rfl
    · obtain rfl := Option.some.inj hop
      trivial
  | operate hr hp hchange => exact .inl ⟨rfl, h.operate hr hp hchange ht⟩
  | attach hr hp => exact .inl ⟨rfl, h.attach hr hp _ ht⟩
  | persist hr hp => exact .inl ⟨rfl, h.persist hr hp ht⟩
  | @write op tokens written hr hp =>
    cases written with
    | error message => exact .inl ⟨rfl, h.rollback hr message⟩
    | ok w =>
      obtain ⟨key', nonce⟩ := w
      obtain rfl : key' = key := hkey
      obtain ⟨hfaithful, hdoes⟩ := h.write hr hp nonce ht
      refine .inr ⟨op.call, tokens, ?_, hdoes, hfaithful⟩
      unfold commits
      rw [hr]
      rfl

end Faithful

end ShareQueue

/-! ## Any number of processes -/

structure ShareService where
  queue : ShareQueue
  issued : List ShareCall
  committed : List ShareCall
  past : List ShareCall
  overtaken : List ShareCall

/-- A process restarts with a bearer key, and with the device key or without it.  `landed` is the
nonce of a write in flight that the store had taken, `migration` that of a record saved again. -/
inductive ServiceEvent where
  | share (e : ShareEvent)
  | restart (hmacKey : Bytes) (keyed : Bool) (migration landed : Option Nonce)

/-- The calls that the process fulfilled. -/
def ShareQueue.fulfilled (q : ShareQueue) : List ShareCall :=
  (q.settled.filter fun c => c.result.toBool).map (·.call)

/-- What the store holds when the process ends, and the call of a write in flight that it took. -/
def ShareQueue.crash (aes : Aes) (key : RandomKey) (q : ShareQueue) (landed : Option Nonce) :
    Option Json × List ShareCall :=
  match q.running, landed with
  | some op, some nonce =>
    match op.phase with
    | .writing tokens => (sharesRecord aes key nonce tokens, [op.call])
    | _ => (q.kv, [])
  | _, _ => (q.kv, [])

namespace ShareService

def new (queue : ShareQueue) : ShareService := ⟨queue, [], [], [], []⟩

def fulfilled (s : ShareService) : List ShareCall := s.past ++ s.queue.fulfilled

/-- The call that the owner makes. -/
def issues : ShareEvent → List ShareCall
  | .call call => [call]
  | _ => []

section Step

variable (hmac aes key)

def step (s : ShareService) : ServiceEvent → Option ShareService
  | .share e =>
    (s.queue.step hmac aes e).map fun queue =>
      { s with
        queue
        issued := s.issued ++ issues e
        committed := s.committed ++ s.queue.commits e }
  | .restart hmacKey keyed migration landed =>
    let (kv, calls) := s.queue.crash aes key landed
    some
      { queue := .start hmac hmacKey
          (loadShares aes (if keyed then some key else none) migration kv)
        issued := s.issued
        committed := s.committed ++ calls
        past := s.fulfilled
        overtaken := s.overtaken ++ calls }

/-- The record is written under the device key. -/
def KeyHeld (s : ShareService) : ServiceEvent → Prop
  | .share e => ShareQueue.KeyIs key s.queue e
  | .restart .. => True

instance decidableKeyHeld (s : ShareService) (e : ServiceEvent) : Decidable (KeyHeld key s e) := by
  unfold KeyHeld
  split <;> infer_instance

end Step

/-! ### The calls -/

/-- The calls that are fulfilled are committed, and those that are committed were issued, each once
and in the order of the others. -/
structure Ordered (s : ShareService) : Prop where
  issued : s.committed ++ ((s.queue.running.map (·.call)).toList ++ s.queue.waiting) <+ s.issued
  fulfilled : s.fulfilled <+ s.committed
  perm : s.committed ~ s.fulfilled ++ s.overtaken

section Calls

variable {q : ShareQueue} {op : ShareOperation}

theorem fulfilled_settle (q : ShareQueue) (op : ShareOperation) (result : Except Text Unit) :
    (q.settle op result).fulfilled =
      q.fulfilled ++ if result.toBool then [op.call] else [] := by
  unfold ShareQueue.fulfilled ShareQueue.settle
  rw [List.filter_append, List.map_append]
  congr 1
  cases h : result.toBool <;> simp [h]

/-- A call that runs goes on, or has settled without being committed. -/
structure Proceeds (q q' : ShareQueue) : Prop where
  waiting : q'.waiting = q.waiting
  running : (q'.running.map (·.call)).toList <+ (q.running.map (·.call)).toList
  fulfilled : q'.fulfilled = q.fulfilled

theorem proceeds_run (hr : q.running = some op) (live : LiveShares) (phase : SharePhase) :
    Proceeds q ({ q with live }.run op phase) :=
  ⟨rfl, by rw [hr]; exact .refl _, rfl⟩

theorem proceeds_reject (live : LiveShares) (message : Text) :
    Proceeds q ({ q with live }.settle op (.error message)) := by
  refine ⟨rfl, List.nil_sublist _, ?_⟩
  rw [fulfilled_settle]
  exact List.append_nil _

theorem proceeds_operated (hr : q.running = some op)
    (changed : Except StoreError (LiveShares × Attachment)) :
    Proceeds q (q.operated op changed) := by
  cases changed with
  | error e => exact proceeds_reject (q := q) q.live _
  | ok result =>
    obtain ⟨live, attachment⟩ := result
    cases attachment <;> exact proceeds_run hr live _

theorem proceeds_persist (hr : q.running = some op) : Proceeds q (q.persist op) := by
  unfold ShareQueue.persist
  cases q.live.snapshot.bind (prepareShares q.recoveryRequired) with
  | error message => exact proceeds_reject _ _
  | ok tokens => exact proceeds_run hr q.live _

/-- What a step of a process does to the calls. -/
theorem calls_step {q q' : ShareQueue} {e : ShareEvent} (hs : q.step hmac aes e = some q') :
    q.commits e ++ ((q'.running.map (·.call)).toList ++ q'.waiting) <+
        (q.running.map (·.call)).toList ++ q.waiting ++ issues e ∧
      q'.fulfilled = q.fulfilled ++ q.commits e := by
  have of_proceeds : q.commits e = [] → Proceeds q q' →
      q.commits e ++ ((q'.running.map (·.call)).toList ++ q'.waiting) <+
        (q.running.map (·.call)).toList ++ q.waiting ++ issues e ∧
      q'.fulfilled = q.fulfilled ++ q.commits e := by
    intro hc h
    rw [hc, h.waiting, h.fulfilled, List.append_nil]
    exact ⟨(h.running.append (.refl _)).trans (List.sublist_append_left _ _), rfl⟩
  cases ShareQueue.Step.of_step hs with
  | call call =>
    refine ⟨?_, (List.append_nil _).symm⟩
    show (q.running.map (·.call)).toList ++ (q.waiting ++ [call]) <+
      (q.running.map (·.call)).toList ++ q.waiting ++ [call]
    rw [List.append_assoc]
  | @begin call waiting hr hw =>
    refine ⟨?_, (List.append_nil _).symm⟩
    rw [hr, hw]
    exact List.sublist_append_left (call :: waiting) []
  | operate hr hp hchange => exact of_proceeds rfl (proceeds_operated hr _)
  | attach hr hp => exact of_proceeds rfl (proceeds_operated hr _)
  | persist hr hp => exact of_proceeds rfl (proceeds_persist hr)
  | @write op tokens written hr hp =>
    cases written with
    | error message => exact of_proceeds rfl (proceeds_reject _ _)
    | ok w =>
      have hcommits : q.commits (.write (.ok w)) = [op.call] := by
        unfold ShareQueue.commits
        rw [hr]
        rfl
      rw [hcommits, hr]
      exact ⟨List.sublist_append_left _ _, fulfilled_settle _ _ _⟩

end Calls

namespace Ordered

variable {s : ShareService}

theorem share (h : s.Ordered) {e : ShareEvent} {q : ShareQueue}
    (hs : s.queue.step hmac aes e = some q) :
    Ordered { s with
      queue := q
      issued := s.issued ++ issues e
      committed := s.committed ++ s.queue.commits e } := by
  obtain ⟨hcalls, hfulfilled⟩ := calls_step hs
  refine ⟨?_, ?_, ?_⟩
  · calc s.committed ++ s.queue.commits e ++ ((q.running.map (·.call)).toList ++ q.waiting)
        = s.committed ++ (s.queue.commits e ++ ((q.running.map (·.call)).toList ++ q.waiting)) :=
          List.append_assoc _ _ _
      _ <+ s.committed ++ ((s.queue.running.map (·.call)).toList ++ s.queue.waiting ++ issues e) :=
          (List.Sublist.refl _).append hcalls
      _ = s.committed ++ ((s.queue.running.map (·.call)).toList ++ s.queue.waiting) ++ issues e :=
          (List.append_assoc _ _ _).symm
      _ <+ s.issued ++ issues e := h.issued.append (.refl _)
  · show s.past ++ q.fulfilled <+ s.committed ++ s.queue.commits e
    rw [hfulfilled, ← List.append_assoc]
    exact h.fulfilled.append (.refl _)
  · show s.committed ++ s.queue.commits e ~ s.past ++ q.fulfilled ++ s.overtaken
    rw [hfulfilled, ← List.append_assoc]
    calc s.committed ++ s.queue.commits e
        ~ s.fulfilled ++ s.overtaken ++ s.queue.commits e := h.perm.append_right _
      _ = s.fulfilled ++ (s.overtaken ++ s.queue.commits e) := List.append_assoc _ _ _
      _ ~ s.fulfilled ++ (s.queue.commits e ++ s.overtaken) :=
          List.perm_append_comm.append_left _
      _ = s.fulfilled ++ s.queue.commits e ++ s.overtaken := (List.append_assoc _ _ _).symm

/-- A call in flight may be committed by the crash; the others are lost. -/
theorem restart (h : s.Ordered) (hmacKey : Bytes) (loaded : LoadedShares) (landed : Option Nonce) :
    Ordered
      { queue := .start hmac hmacKey loaded
        issued := s.issued
        committed := s.committed ++ (s.queue.crash aes key landed).2
        past := s.fulfilled
        overtaken := s.overtaken ++ (s.queue.crash aes key landed).2 } := by
  have hcrash : (s.queue.crash aes key landed).2 <+ (s.queue.running.map (·.call)).toList := by
    unfold ShareQueue.crash
    cases s.queue.running with
    | none => exact .refl _
    | some op =>
      cases landed with
      | none => exact List.nil_sublist _
      | some nonce =>
        simp only
        cases op.phase <;> first | exact List.nil_sublist _ | exact .refl _
  refine ⟨?_, ?_, ?_⟩
  · have hnone : s.committed ++ (s.queue.crash aes key landed).2 ++ ([] ++ []) <+ s.issued := by
      rw [List.append_nil, List.append_nil]
      exact ((List.Sublist.refl _).append (hcrash.trans (List.sublist_append_left _ _))).trans
        h.issued
    exact hnone
  · show s.fulfilled ++ [] <+ s.committed ++ (s.queue.crash aes key landed).2
    rw [List.append_nil]
    exact h.fulfilled.trans (List.sublist_append_left _ _)
  · show _ ~ s.fulfilled ++ [] ++ (s.overtaken ++ (s.queue.crash aes key landed).2)
    rw [List.append_nil, ← List.append_assoc]
    exact h.perm.append_right _

end Ordered

/-! ### The record -/

variable {l₀ : List TokenSnapshot} {s t : ShareService}

/-- The record is what the committed calls make. -/
structure Kept (hmac : Hmac) (aes : Aes) (key : RandomKey) (l₀ : List TokenSnapshot)
    (s : ShareService) (l : List TokenSnapshot) : Prop where
  performed : Machine.Performed Does l₀ s.committed l
  faithful : s.queue.Faithful hmac aes key l

/-- A process that has loaded the record. -/
theorem faithful_start {kv : Option Json} {l : List TokenSnapshot} (h : Holds aes key kv l)
    (hmacKey : Bytes) (keyed : Bool) (migration : Option Nonce) :
    ShareQueue.Faithful hmac aes key (.start hmac hmacKey
      (loadShares aes (if keyed then some key else none) migration kv)) l := by
  obtain ⟨hkv, htokens⟩ := h.load keyed migration
  have hids := nodup_loadShares aes (if keyed then some key else none) migration kv
  have hhashed := LiveShares.hashed_ofLoaded hmac hmacKey hids
  refine ⟨⟨hhashed, nofun⟩, ?_, fun _ => nofun, fun hrec => ⟨?_, nofun⟩⟩
  · show Holds aes key (loadShares aes _ migration kv).kv l
    rw [hkv]
    exact h
  · refine Eq.trans ?_ (htokens hrec).1
    exact Except.ok.inj (hhashed.snapshot.symm.trans (LiveShares.snapshot_ofLoaded hmacKey hids))

/-- **Step lemma.** -/
theorem Kept.step {l : List TokenSnapshot} (h : Kept hmac aes key l₀ s l) {e : ServiceEvent}
    (hkey : KeyHeld key s e) (hs : s.step hmac aes key e = some t) :
    ∃ l', Kept hmac aes key l₀ t l' := by
  cases e with
  | share e =>
    obtain ⟨q, hq, rfl⟩ := Option.map_eq_some_iff.mp hs
    rcases h.faithful.step hkey hq with ⟨hnone, hq⟩ | ⟨call, tokens, hcall, hdoes, hq⟩
    · refine ⟨l, ?_, hq⟩
      show Machine.Performed Does l₀ (s.committed ++ s.queue.commits e) l
      rw [hnone, List.append_nil]
      exact h.performed
    · refine ⟨tokens, ?_, hq⟩
      show Machine.Performed Does l₀ (s.committed ++ s.queue.commits e) tokens
      rw [hcall]
      exact .concat h.performed hdoes
  | restart hmacKey keyed migration landed =>
    obtain rfl := Option.some.inj hs
    have hcrash : ∃ l', Holds aes key (s.queue.crash aes key landed).1 l' ∧
        Machine.Performed Does l₀ (s.committed ++ (s.queue.crash aes key landed).2) l' := by
      have hkept : Holds aes key s.queue.kv l ∧ Machine.Performed Does l₀ (s.committed ++ []) l :=
        ⟨h.faithful.holds, by rw [List.append_nil]; exact h.performed⟩
      unfold ShareQueue.crash
      cases hr : s.queue.running with
      | none => exact ⟨l, hkept⟩
      | some op =>
        cases landed with
        | none => exact ⟨l, hkept⟩
        | some nonce =>
          simp only
          cases hp : op.phase with
          | writing tokens =>
            have ht : ShareQueue.Restorable hmac (s.queue.write aes op tokens (.ok (key, nonce))) :=
              h.faithful.restorable.write hr tokens _
            obtain ⟨hfaithful, hdoes⟩ := h.faithful.write hr hp nonce ht
            exact ⟨tokens, hfaithful.holds, .concat h.performed hdoes⟩
          | _ => exact ⟨l, hkept⟩
    obtain ⟨l', hholds, hperformed⟩ := hcrash
    exact ⟨l', hperformed, faithful_start hholds hmacKey keyed migration⟩

/-- **Crash safety.** Whatever the owner calls, whichever writes fail, and wherever processes end
and restart: the record holds exactly the invitations that some of the calls make, done one after
another in the order they were issued.  These are the calls that were fulfilled and those whose
write a crash overtook.  A process that could open the record has the same invitations in memory
between the calls. -/
theorem crash_safe {kv : Option Json} (hl : Holds aes key kv l₀) (hmacKey : Bytes) (keyed : Bool)
    (migration : Option Nonce)
    (h : Machine.Reaches (step hmac aes key) (KeyHeld key) (new (.start hmac hmacKey
      (loadShares aes (if keyed then some key else none) migration kv))) s) :
    s.fulfilled <+ s.committed ∧ s.committed ~ s.fulfilled ++ s.overtaken ∧
      s.committed <+ s.issued ∧
      ∃ l, Machine.Performed Does l₀ s.committed l ∧ Holds aes key s.queue.kv l ∧
        (s.queue.recoveryRequired = false → s.queue.running = none →
          s.queue.live.snapshot = .ok l) := by
  have hinv := h.invariant (I := fun s => s.Ordered ∧ ∃ l, Kept hmac aes key l₀ s l)
    ⟨⟨.refl _, .refl _, .refl _⟩, l₀, .nil l₀, faithful_start hl hmacKey keyed migration⟩
    fun s e t hs hkey hstep => by
      obtain ⟨hordered, l, hkept⟩ := hs
      refine ⟨?_, hkept.step hkey hstep⟩
      cases e with
      | share e =>
        obtain ⟨q, hq, rfl⟩ := Option.map_eq_some_iff.mp hstep
        exact hordered.share hq
      | restart hmacKey keyed migration landed =>
        obtain rfl := Option.some.inj hstep
        exact hordered.restart hmacKey _ landed
  obtain ⟨hordered, l, hkept⟩ := hinv
  refine ⟨hordered.fulfilled, hordered.perm,
    (List.sublist_append_left _ _).trans hordered.issued, l, hkept.performed,
    hkept.faithful.holds, fun hrec hidle => ?_⟩
  rw [hkept.faithful.restorable.hashed.snapshot, ← (hkept.faithful.live hrec).1,
    ShareQueue.baseline_of_idle hidle]

/-- An invitation is made; the process ends while its new label is written, and the next one finds
the label. -/
theorem crash_safe_relabelled :
    ∃ (s : ShareService) (l : List TokenSnapshot), s.fulfilled.length = 1 ∧
      s.committed.length = 2 ∧ Machine.Performed Does [] s.committed l ∧
      Holds .plain (repeatedKey 7) s.queue.kv l ∧ s.queue.live.snapshot = .ok l := by
  let events : List ServiceEvent :=
    ([.call (.mintToken none (some ⟨['u'], ['p'], .read⟩)), .begin,
      .operate 0 ShareQueue.firstDraws, .attach 0, .persist, .write (.ok ShareQueue.firstWrite),
      .call (.renameToken ShareQueue.mintedId ['x']), .begin, .operate 0 ShareQueue.firstDraws,
      .persist] : List ShareEvent).map .share ++
    [.restart [] true none (some (repeatedNonce 1))]
  have hrun : (Machine.exec (step .plain .plain (repeatedKey 7)) (KeyHeld (repeatedKey 7))
      (new (.start .plain [] (loadShares .plain (some (repeatedKey 7)) none none))) events).map
      (fun s => (s.fulfilled.length, s.committed.length, s.queue.recoveryRequired,
        s.queue.running.isNone)) = some (1, 2, false, true) := by decide +kernel
  obtain ⟨s, hs, heq⟩ := Option.map_eq_some_iff.mp hrun
  simp only [Prod.mk.injEq] at heq
  obtain ⟨hfulfilled, hcommitted, hrec, hidle⟩ := heq
  have hnone : Holds .plain (repeatedKey 7) none [] := .inl ⟨fun h => h.1 rfl, rfl⟩
  obtain ⟨-, -, -, l, hperformed, hholds, hlive⟩ :=
    crash_safe hnone [] true none (Machine.reaches_of_exec hs)
  exact ⟨s, l, hfulfilled, hcommitted, hperformed, hholds,
    hlive hrec (Option.isNone_iff_eq_none.mp hidle)⟩

end ShareService

end BbShared
