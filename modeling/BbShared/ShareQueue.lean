import BbShared.Machine
import BbShared.ShareRecord

/-!
# Changes of the invitations, one after another

`server.ts`: `mutateShares`, `persistShares` and the calls of the owner.  A call changes the live
store and the bearers first, and writes the record after that; if it cannot be written, both are put
back.  Calls wait for the one before them, whatever becomes of it.

1. `begin`: the tokens and the bearers are kept for later.
2. `operate`: the change itself; a new invitation takes its first thread in a second step, `attach`.
3. `persist`: the snapshot is taken and checked.
4. `write`: the record is written, or the key or the write fails.
-/

namespace BbShared

open Js

/-! ## The live invitations -/

/-- The store, and the bearers of its tokens. -/
structure LiveShares where
  store : InMemoryStore
  rawTokenById : OrderedMap Text Text

/-- The durable form of a token. -/
def Token.snapshot (t : Token) (rawToken : Text) : TokenSnapshot :=
  ⟨t.id, t.label, t.shares, t.createdAt, rawToken, t.nodup⟩

namespace LiveShares

/-- What `plugin` makes of the loaded invitations. -/
def ofLoaded (hmac : Hmac) (hmacKey : Bytes) (tokens : List TokenSnapshot) : LiveShares :=
  ⟨.ofSnapshots hmac hmacKey tokens, .ofEntries (tokens.map fun t => (t.id, t.rawToken))⟩

def snapshotOf (live : LiveShares) (t : Token) : Except Text TokenSnapshot :=
  match live.rawTokenById.get t.id with
  | none => .error ("Missing bearer for shared link ".toList ++ t.id ++ ['.'])
  | some rawToken => .ok (t.snapshot rawToken)

/-- The snapshot that `persistShares` takes. -/
def snapshot (live : LiveShares) : Except Text (List TokenSnapshot) :=
  live.store.listTokens.mapM live.snapshotOf

/-- What is put back when the record cannot be written. -/
def restore (live : LiveShares) (priorTokens : List Token) (priorRawTokens : OrderedMap Text Text) :
    LiveShares :=
  ⟨live.store.restoreTokens priorTokens, .ofEntries priorRawTokens.entries⟩

end LiveShares

/-- `ShareStateRecordStore.save` up to the key. -/
def prepareShares (recoveryRequired : Bool) (tokens : List TokenSnapshot) :
    Except Text (List TokenSnapshot) :=
  if recoveryRequired then
    .error "Saved share state needs manual recovery before it can be changed.".toList
  else
    match validState (stateJson tokens) with
    | none => .error "Refusing to save invalid shared link state.".toList
    | some validated => .ok validated

/-! ## Calls -/

inductive ShareCall where
  | mintToken (label : Option Text) (firstThread : Option InMemoryStore.AddShareInput)
  | renameToken (id label : Text)
  | deleteToken (id : Text)
  | addShare (tokenId : Text) (share : InMemoryStore.AddShareInput)
  | removeShare (tokenId threadId : Text)
  | updateShare (tokenId threadId : Text) (perm : Perm)

/-- `mapStoreError`. -/
def mapStoreError : StoreError → Text
  | .tokenNotFound tokenId =>
    "Token not found (".toList ++ tokenId ++ "). It may have been deleted.".toList
  | .shareNotFound _ _ => "Thread is not shared on this token.".toList
  | .duplicateShare _ _ => "Thread is already shared on this token.".toList

/-- The first thread that a mint goes on to share. -/
abbrev Attachment := Option (Text × InMemoryStore.AddShareInput)

/-- The change of a call; `none` while every id drawn so far is in use. -/
def LiveShares.change (hmac : Hmac) (live : LiveShares) (now : ℕ)
    (draws : InMemoryStore.MintDraws) :
    ShareCall → Option (Except StoreError (LiveShares × Attachment))
  | .mintToken label firstThread =>
    (live.store.mintToken hmac label now draws).map fun (store, token, rawToken) =>
      .ok (⟨store, live.rawTokenById.set token.id rawToken⟩, firstThread.map fun f => (token.id, f))
  | .renameToken id label =>
    some ((live.store.renameToken id label).map fun store => ({ live with store }, none))
  | .deleteToken id =>
    some ((live.store.deleteToken id).map fun store =>
      (⟨store, live.rawTokenById.erase id⟩, none))
  | .addShare tokenId share =>
    some ((live.store.addShare tokenId share now).map fun store => ({ live with store }, none))
  | .removeShare tokenId threadId =>
    some ((live.store.removeShare tokenId threadId).map fun store => ({ live with store }, none))
  | .updateShare tokenId threadId perm =>
    some ((live.store.updateShare tokenId threadId perm).map fun store =>
      ({ live with store }, none))

/-! ## State -/

inductive SharePhase where
  | operating
  /-- The token is minted, and takes its first thread. -/
  | attaching (tokenId : Text) (share : InMemoryStore.AddShareInput)
  | persisting
  /-- The snapshot is checked, and goes to the record. -/
  | writing (tokens : List TokenSnapshot)

/-- What a call may change: the live invitations and the record. -/
abbrev ShareView := LiveShares × Option Json

/-- A call that runs.  `began` is what it found; the program does not keep it. -/
structure ShareOperation where
  call : ShareCall
  priorTokens : List Token
  priorRawTokens : OrderedMap Text Text
  phase : SharePhase
  began : ShareView

structure SettledShareCall where
  call : ShareCall
  result : Except Text Unit
  began : ShareView
  ended : ShareView

/-- The invitations of a process.  `settled` records the calls; the program does not read it. -/
structure ShareQueue where
  live : LiveShares
  kv : Option Json
  recoveryRequired : Bool
  waiting : List ShareCall
  running : Option ShareOperation
  settled : List SettledShareCall

inductive ShareEvent where
  | call (call : ShareCall)
  | begin
  | operate (now : ℕ) (draws : InMemoryStore.MintDraws)
  | attach (now : ℕ)
  | persist
  /-- The record is written under the key, or the key or the write fails. -/
  | write (written : Except Text (RandomKey × Nonce))

namespace ShareQueue

variable (hmac : Hmac) (aes : Aes)

/-! ## Steps -/

/-- The call settles, and the next one may begin. -/
def settle (s : ShareQueue) (op : ShareOperation) (result : Except Text Unit) : ShareQueue :=
  { s with running := none, settled := s.settled ++ [⟨op.call, result, op.began, (s.live, s.kv)⟩] }

def run (s : ShareQueue) (op : ShareOperation) (phase : SharePhase) : ShareQueue :=
  { s with running := some { op with phase } }

/-- The `catch` of `mutateShares`. -/
def rollback (s : ShareQueue) (op : ShareOperation) (message : Text) : ShareQueue :=
  { s with live := s.live.restore op.priorTokens op.priorRawTokens }.settle op (.error message)

/-- The end of the change.  What it throws is not caught. -/
def operated (s : ShareQueue) (op : ShareOperation) :
    Except StoreError (LiveShares × Attachment) → ShareQueue
  | .error e => s.settle op (.error (mapStoreError e))
  | .ok (live, none) => { s with live }.run op .persisting
  | .ok (live, some (tokenId, share)) => { s with live }.run op (.attaching tokenId share)

/-- `persistShares` up to the key. -/
def persist (s : ShareQueue) (op : ShareOperation) : ShareQueue :=
  match s.live.snapshot.bind (prepareShares s.recoveryRequired) with
  | .error message => s.rollback op message
  | .ok tokens => s.run op (.writing tokens)

/-- The end of the write. -/
def write (s : ShareQueue) (op : ShareOperation) (tokens : List TokenSnapshot) :
    Except Text (RandomKey × Nonce) → ShareQueue
  | .error message => s.rollback op message
  | .ok (key, nonce) => { s with kv := sharesRecord aes key nonce tokens }.settle op (.ok ())

/-- `none` where the event cannot happen. -/
def step (s : ShareQueue) : ShareEvent → Option ShareQueue
  | .call call => some { s with waiting := s.waiting ++ [call] }
  | .begin =>
    match s.running, s.waiting with
    | none, call :: waiting =>
      let op : ShareOperation :=
        ⟨call, s.live.store.listTokens, s.live.rawTokenById, .operating, (s.live, s.kv)⟩
      some { s with waiting, running := some op }
    | _, _ => none
  | .operate now draws =>
    match s.running with
    | some op =>
      match op.phase with
      | .operating => (s.live.change hmac now draws op.call).map (s.operated op)
      | _ => none
    | none => none
  | .attach now =>
    match s.running with
    | some op =>
      match op.phase with
      | .attaching tokenId share =>
        some (s.operated op ((s.live.store.addShare tokenId share now).map fun store =>
          ({ s.live with store }, none)))
      | _ => none
    | none => none
  | .persist =>
    match s.running with
    | some op =>
      match op.phase with
      | .persisting => some (s.persist op)
      | _ => none
    | none => none
  | .write written =>
    match s.running with
    | some op =>
      match op.phase with
      | .writing tokens => some (s.write aes op tokens written)
      | _ => none
    | none => none

/-- The steps, one constructor for each event. -/
inductive Step : ShareQueue → ShareEvent → ShareQueue → Prop
  | call (s : ShareQueue) (call : ShareCall) :
    Step s (.call call) { s with waiting := s.waiting ++ [call] }
  | begin {s : ShareQueue} {call : ShareCall} {waiting : List ShareCall} :
    s.running = none → s.waiting = call :: waiting →
      Step s .begin { s with waiting, running := some ⟨call, s.live.store.listTokens,
        s.live.rawTokenById, .operating, (s.live, s.kv)⟩ }
  | operate {s : ShareQueue} {now : ℕ} {draws : InMemoryStore.MintDraws} {op : ShareOperation}
    {changed : Except StoreError (LiveShares × Attachment)} :
    s.running = some op → op.phase = .operating →
      s.live.change hmac now draws op.call = some changed →
      Step s (.operate now draws) (s.operated op changed)
  | attach {s : ShareQueue} {now : ℕ} {op : ShareOperation} {tokenId : Text}
    {share : InMemoryStore.AddShareInput} :
    s.running = some op → op.phase = .attaching tokenId share →
      Step s (.attach now) (s.operated op ((s.live.store.addShare tokenId share now).map fun store =>
        ({ s.live with store }, none)))
  | persist {s : ShareQueue} {op : ShareOperation} :
    s.running = some op → op.phase = .persisting → Step s .persist (s.persist op)
  | write {s : ShareQueue} {op : ShareOperation} {tokens : List TokenSnapshot}
    {written : Except Text (RandomKey × Nonce)} :
    s.running = some op → op.phase = .writing tokens →
      Step s (.write written) (s.write aes op tokens written)

variable {hmac aes}

theorem Step.of_step {s t : ShareQueue} {e : ShareEvent} (h : s.step hmac aes e = some t) :
    Step hmac aes s e t := by
  unfold step at h
  cases e with
  | call call =>
    obtain rfl := Option.some.inj h
    exact .call s call
  | begin =>
    simp only at h
    split at h
    · rename_i hr hw
      obtain rfl := Option.some.inj h
      exact .begin hr hw
    · cases h
  | operate now draws =>
    simp only at h
    split at h
    · rename_i hr
      split at h
      · rename_i hp
        obtain ⟨changed, hc, rfl⟩ := Option.map_eq_some_iff.mp h
        exact .operate hr hp hc
      · cases h
    · cases h
  | attach now =>
    simp only at h
    split at h
    · rename_i hr
      split at h
      · rename_i hp
        obtain rfl := Option.some.inj h
        exact .attach hr hp
      · cases h
    · cases h
  | persist =>
    simp only at h
    split at h
    · rename_i hr
      split at h
      · rename_i hp
        obtain rfl := Option.some.inj h
        exact .persist hr hp
      · cases h
    · cases h
  | write written =>
    simp only at h
    split at h
    · rename_i hr
      split at h
      · rename_i hp
        obtain rfl := Option.some.inj h
        exact .write hr hp
      · cases h
    · cases h

/-- A process that has loaded its record. -/
def start (hmac : Hmac) (hmacKey : Bytes) (loaded : LoadedShares) : ShareQueue where
  live := .ofLoaded hmac hmacKey loaded.tokens
  kv := loaded.kv
  recoveryRequired := loaded.recoveryRequired
  waiting := []
  running := none
  settled := []

/-! ## The record -/

theorem kv_operated (s : ShareQueue) (op : ShareOperation)
    (changed : Except StoreError (LiveShares × Attachment)) : (s.operated op changed).kv = s.kv := by
  cases changed with
  | error e => rfl
  | ok result =>
    obtain ⟨live, attachment⟩ := result
    cases attachment <;> rfl

theorem kv_persist (s : ShareQueue) (op : ShareOperation) : (s.persist op).kv = s.kv := by
  unfold persist
  cases s.live.snapshot.bind (prepareShares s.recoveryRequired) <;> rfl

/-- **Writers.** Only the end of a write changes the record. -/
theorem kv_step {s t : ShareQueue} {e : ShareEvent} (h : s.step hmac aes e = some t) :
    t.kv = s.kv ∨ ∃ (op : ShareOperation) (tokens : List TokenSnapshot) (key : RandomKey)
      (nonce : Nonce), s.running = some op ∧ op.phase = .writing tokens ∧
        e = .write (.ok (key, nonce)) ∧ t.kv = sharesRecord aes key nonce tokens := by
  cases Step.of_step h with
  | call call => exact .inl rfl
  | begin hr hw => exact .inl rfl
  | operate hr hp hchange => exact .inl (kv_operated s _ _)
  | attach hr hp => exact .inl (kv_operated s _ _)
  | persist hr hp => exact .inl (kv_persist s _)
  | @write op tokens written hr hp =>
    cases written with
    | error message => exact .inl rfl
    | ok w => exact .inr ⟨op, tokens, w.1, w.2, hr, hp, rfl, rfl⟩

end ShareQueue

end BbShared
