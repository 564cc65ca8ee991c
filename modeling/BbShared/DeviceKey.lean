import BbShared.Js.Json
import BbShared.Js.Base64
import BbShared.Machine

/-!
# The device key

`lib/device-key/key-provider.ts`: the two providers that keep the device key outside the plugin.

One `getKey` of a provider without a cached key reads the secure store; where the read gives
nothing, it draws a key and stores it over whatever is there.  What the store does on each attempt
comes from outside: a `ReadFailure` or a `Refusal` is one attempt that failed.  `Kept` is a run in
which a stored key survives every step; `storedKey_kept_iff` says which runs are.
-/

namespace BbShared

open Js

def SECRET_KEY_BYTES : ℕ := 32

def DEVICE_KEY_SERVICE : Text := "bb-shared-device-key".toList

def DEVICE_KEY_ACCOUNT : Text := "bb-shared".toList

/-- What 32 random bytes are drawn from. -/
abbrev RandomKey := { key : Bytes // key.length = SECRET_KEY_BYTES }

/-- The key that a stored text denotes: `none` where the text is blank. -/
def parseKey (describe : ℕ → Text) (text : Text) : Except Text (Option Bytes) :=
  let b64 := trim text
  if b64 = [] then .ok none
  else
    let key := ofBase64 b64
    if key.length = SECRET_KEY_BYTES then .ok (some key) else .error (describe key.length)

/-- The valid key in a stored text. -/
def keyOfText (text : Text) : Option Bytes :=
  match parseKey (fun _ => []) text with
  | .ok key => key
  | .error _ => none

theorem keyOfText_eq_some {text : Text} {key : Bytes} (h : keyOfText text = some key)
    (describe : ℕ → Text) : parseKey describe text = .ok (some key) := by
  unfold keyOfText parseKey at *
  by_cases hb : trim text = []
  · simp [hb] at h
  · by_cases hl : (ofBase64 (trim text)).length = SECRET_KEY_BYTES
    · simpa [hb, hl] using h
    · simp [hb, hl] at h

/-- What is written for a key reads back as it. -/
theorem keyOfText_base64 (key : RandomKey) : keyOfText (base64 key.1) = some key.1 := by
  have hne : base64 key.1 ≠ [] := base64_ne_nil (by
    intro h
    have hlen := key.2
    rw [h] at hlen
    exact absurd hlen (by decide))
  have htrim : trim (base64 key.1) = base64 key.1 := trim_eq_self fun _ => isSpace_of_mem_base64
  unfold keyOfText parseKey
  rw [htrim, if_neg hne, ofBase64_base64]
  simp [key.2]

/-! ## The keychain -/

/-- The exit of a spawned `security`: no status when it did not run or was killed. -/
structure SecurityResult where
  status : Option ℕ
  stdout : Text
  stderr : Text

/-- The two command lines that the provider runs. -/
inductive SecurityArgs where
  | findGenericPassword (service account : Text)
  | addGenericPassword (service account password : Text)

/-- The generic passwords of a keychain, by service and account. -/
abbrev Keychain := Text → Text → Option Text

/-- A command that failed without effect. -/
structure Refusal where
  status : Option ℕ
  stderr : Text
  nonzero : status ≠ some 0

/-- A lookup that failed although it did not find the item to be missing. -/
structure ReadFailure extends Refusal where
  notMissing : status ≠ some 44

/-- `security`, as the provider uses it: `-w` prints the password and a newline, and `-U` replaces
an item that exists. -/
def security (keychain : Keychain) (refusal : Option Refusal) (args : SecurityArgs) :
    SecurityResult × Keychain :=
  match refusal, args with
  | some refusal, _ => (⟨refusal.status, [], refusal.stderr⟩, keychain)
  | none, .findGenericPassword service account =>
    match keychain service account with
    | some password => (⟨some 0, password ++ ['\n'], []⟩, keychain)
    | none => (⟨some 44, [], "The specified item could not be found in the keychain.".toList⟩,
        keychain)
  | none, .addGenericPassword service account password =>
    (⟨some 0, [], []⟩,
      fun s a => if s = service ∧ a = account then some password else keychain s a)

structure KeychainKeyProvider where
  service : Text
  account : Text
  cached : Option Bytes

/-- `KeychainKeyProvider.read`, after the command. -/
def KeychainKeyProvider.read (r : SecurityResult) : Except Text (Option Bytes) :=
  if r.status ≠ some 0 then .ok none
  else parseKey (fun n => "keychain: stored device key is ".toList ++ Nat.toDigits 10 n ++
    " bytes, expected 32".toList) r.stdout

/-- `KeychainKeyProvider.write`, after the command. -/
def KeychainKeyProvider.write (r : SecurityResult) : Except Text Unit :=
  if r.status ≠ some 0 then
    .error ("keychain: failed to store device key (status ".toList ++
      (match r.status with
        | some status => Nat.toDigits 10 status
        | none => "null".toList) ++ "): ".toList ++ trim r.stderr)
  else .ok ()

/-- A provider and the keychain it uses. -/
structure KeychainDevice where
  provider : KeychainKeyProvider
  keychain : Keychain

/-- How the attempts of one `getKey` go, and the key it would draw. -/
structure KeychainCall where
  firstRead : Option ReadFailure
  random : RandomKey
  write : Option Refusal
  readBack : Option ReadFailure

/-- `KeychainKeyProvider.getKey`. -/
def KeychainDevice.getKey (d : KeychainDevice) (io : KeychainCall) :
    KeychainDevice × Except Text Bytes :=
  let find : SecurityArgs := .findGenericPassword d.provider.service d.provider.account
  match d.provider.cached with
  | some key => (d, .ok key)
  | none =>
    match KeychainKeyProvider.read
        (security d.keychain (io.firstRead.map (·.toRefusal)) find).1 with
    | .error e => (d, .error e)
    | .ok (some existing) =>
      ({ d with provider := { d.provider with cached := some existing } }, .ok existing)
    | .ok none =>
      let key := io.random.1
      let added := security d.keychain io.write
        (.addGenericPassword d.provider.service d.provider.account (base64 key))
      let d := { d with keychain := added.2 }
      match KeychainKeyProvider.write added.1 with
      | .error e => (d, .error e)
      | .ok () =>
        match KeychainKeyProvider.read
            (security d.keychain (io.readBack.map (·.toRefusal)) find).1 with
        | .error e => (d, .error e)
        | .ok confirmed =>
          if confirmed = some key then
            ({ d with provider := { d.provider with cached := some key } }, .ok key)
          else (d, .error "keychain: wrote device key but could not read it back".toList)

/-! ## The file -/

structure FileKeyProvider where
  path : Text
  cached : Option Bytes

/-- A provider and the content of its file. -/
structure FileDevice where
  provider : FileKeyProvider
  content : Option Bytes

/-- What `writeFileSync` does: it may fail before it opens the file, or after it has emptied the
file and written some of the bytes. -/
inductive FileWrite where
  | done
  | refused (error : Text)
  | cutShort (kept : ℕ) (error : Text)

/-- The content of the file after the write. -/
def FileWrite.leaves (content : Option Bytes) (data : Bytes) : FileWrite → Option Bytes
  | done => some data
  | refused _ => content
  | cutShort kept _ => some (data.take kept)

/-- How the system calls of one `getKey` go, and the key it would draw.  `readFails` is an error
other than a missing file. -/
structure FileCall where
  readFails : Bool
  random : RandomKey
  mkdir : Except Text Unit
  write : FileWrite
  chmod : Except Text Unit

/-- `FileKeyProvider.read`: an error of any kind gives `null`. -/
def FileDevice.read (d : FileDevice) (readFails : Bool) : Except Text (Option Bytes) :=
  match readFails, d.content with
  | false, some bytes =>
    parseKey (fun n => "device key file ".toList ++ d.provider.path ++ " is ".toList ++
      Nat.toDigits 10 n ++ " bytes, expected 32".toList) (utf8Decode bytes)
  | _, _ => .ok none

/-- `FileKeyProvider.getKey`. -/
def FileDevice.getKey (d : FileDevice) (io : FileCall) : FileDevice × Except Text Bytes :=
  match d.provider.cached with
  | some key => (d, .ok key)
  | none =>
    match d.read io.readFails with
    | .error e => (d, .error e)
    | .ok (some existing) =>
      ({ d with provider := { d.provider with cached := some existing } }, .ok existing)
    | .ok none =>
      let key := io.random.1
      match io.mkdir with
      | .error e => (d, .error e)
      | .ok () =>
        let d := { d with content := io.write.leaves d.content (utf8Encode (base64 key)) }
        match io.write with
        | .refused e | .cutShort _ e => (d, .error e)
        | .done =>
          match io.chmod with
          | .error e => (d, .error e)
          | .ok () => ({ d with provider := { d.provider with cached := some key } }, .ok key)

/-! ## Runs -/

/-- A key or a rejection. -/
def AnswersWith (key : Bytes) (answer : Except Text Bytes) : Prop := ∀ k, answer = .ok k → k = key

/-- What the two providers have in common: a call, a new process over the same store, the cache,
and the valid key in the store. -/
structure KeyProvider (σ Call : Type) where
  getKey : σ → Call → σ × Except Text Bytes
  restart : σ → σ
  cached : σ → Option Bytes
  storedKey : σ → Option Bytes

/-- A call, or the end of the process and the start of the next one. -/
inductive KeyEvent (Call : Type) where
  | getKey (call : Call)
  | restart

namespace KeyProvider

variable {σ Call : Type} (p : KeyProvider σ Call)

def step (d : σ) : KeyEvent Call → σ
  | .getKey io => (p.getKey d io).1
  | .restart => p.restart d

/-- The store holds the key, and the provider has cached nothing else. -/
def Holds (key : Bytes) (d : σ) : Prop :=
  p.storedKey d = some key ∧ ∀ k ∈ p.cached d, k = key

/-- Every step of the run leaves the stored key as it is, and no call returns another one. -/
def Kept (key : Bytes) : σ → List (KeyEvent Call) → Prop :=
  Machine.Always p.step fun d e => p.storedKey (p.step d e) = some key ∧
    ∀ io, e = .getKey io → AnswersWith key (p.getKey d io).2

/-- `ok` of every call of the run. -/
def EachCall (ok : σ → Call → Prop) : σ → List (KeyEvent Call) → Prop :=
  Machine.Always p.step fun d e => ∀ io, e = .getKey io → ok d io

variable {p}

/-- A condition on calls that decides whether one call keeps the key decides it for runs. -/
theorem kept_iff {key : Bytes} {ok : σ → Call → Prop}
    (restart : ∀ d, p.storedKey (p.restart d) = p.storedKey d ∧ p.cached (p.restart d) = none)
    (kept : ∀ d io, p.Holds key d → ok d io →
      p.Holds key (p.getKey d io).1 ∧ AnswersWith key (p.getKey d io).2)
    (lost : ∀ d io, ¬ ok d io → p.storedKey (p.getKey d io).1 ≠ some key)
    {d : σ} {es : List (KeyEvent Call)} (hd : p.Holds key d) :
    p.Kept key d es ↔ p.EachCall ok d es := by
  refine Machine.always_congr ?_ ?_ hd
  · intro d e hd
    cases e with
    | restart =>
      refine ⟨fun _ io h => (by cases h), fun _ => ⟨?_, fun io h => (by cases h)⟩⟩
      exact (restart d).1.trans hd.1
    | getKey io =>
      simp only [KeyEvent.getKey.injEq, forall_eq']
      constructor
      · intro h
        by_contra hok
        exact lost d io hok h.1
      · intro hok
        exact ⟨(kept d io hd hok).1.1, (kept d io hd hok).2⟩
  · intro d e hd hok
    cases e with
    | restart =>
      refine ⟨(restart d).1.trans hd.1, fun k hk => ?_⟩
      have hnone : p.cached (p.step d .restart) = none := (restart d).2
      rw [hnone] at hk
      cases hk
    | getKey io => exact (kept d io hd (hok io rfl)).1

end KeyProvider

/-- The valid key that the keychain holds for the provider. -/
def KeychainDevice.storedKey (d : KeychainDevice) : Option Bytes :=
  (d.keychain d.provider.service d.provider.account).bind keyOfText

/-- The valid key that the file holds. -/
def FileDevice.storedKey (d : FileDevice) : Option Bytes :=
  d.content.bind fun bytes => keyOfText (utf8Decode bytes)

def keychainKeyProvider : KeyProvider KeychainDevice KeychainCall where
  getKey := KeychainDevice.getKey
  restart d := { d with provider := { d.provider with cached := none } }
  cached d := d.provider.cached
  storedKey := KeychainDevice.storedKey

def fileKeyProvider : KeyProvider FileDevice FileCall where
  getKey := FileDevice.getKey
  restart d := { d with provider := { d.provider with cached := none } }
  cached d := d.provider.cached
  storedKey := FileDevice.storedKey

/-- The call finds a cached key, or its first read does not fail, or the keychain refuses the write
that follows, or the key drawn is the stored one. -/
def KeychainDevice.ReadHolds (key : Bytes) (d : KeychainDevice) (io : KeychainCall) : Prop :=
  d.provider.cached ≠ none ∨ io.firstRead = none ∨ io.write ≠ none ∨ io.random.1 = key

/-- The call finds a cached key, or its read does not fail, or the directory cannot be made, or
what the write leaves in the file is the stored key. -/
def FileDevice.ReadHolds (key : Bytes) (d : FileDevice) (io : FileCall) : Prop :=
  d.provider.cached ≠ none ∨ io.readFails = false ∨ (∃ error, io.mkdir = .error error) ∨
    ((io.write.leaves d.content (utf8Encode (base64 io.random.1))).bind
      fun bytes => keyOfText (utf8Decode bytes)) = some key

/-! ## One call -/

/-- Trimming drops a final newline. -/
theorem trim_append_newline (s : Text) : trim (s ++ ['\n']) = trim s := by
  unfold trim
  rw [List.dropWhile_append]
  by_cases h : s.dropWhile isSpace = []
  · rw [h]; rfl
  · rw [if_neg (by simpa using h), List.rdropWhile_concat_pos _ _ _ (by rfl)]

theorem parseKey_append_newline (describe : ℕ → Text) (s : Text) :
    parseKey describe (s ++ ['\n']) = parseKey describe s := by
  unfold parseKey
  rw [trim_append_newline]

namespace KeychainDevice

variable {d : KeychainDevice} {key : Bytes}

/-- A read that succeeds finds the stored key. -/
theorem read_found {k : Keychain} {s a : Text} (h : (k s a).bind keyOfText = some key) :
    KeychainKeyProvider.read (security k none (.findGenericPassword s a)).1 = .ok (some key) := by
  obtain ⟨text, ht, hk⟩ := Option.bind_eq_some_iff.mp h
  unfold security KeychainKeyProvider.read
  simp only [ht, ne_eq, not_true_eq_false, if_false]
  rw [parseKey_append_newline]
  exact keyOfText_eq_some hk _

/-- A read that fails finds nothing. -/
theorem read_failed (k : Keychain) (failure : Refusal) (args : SecurityArgs) :
    KeychainKeyProvider.read (security k (some failure) args).1 = .ok none := by
  have := failure.nonzero
  simp [security, KeychainKeyProvider.read, this]

theorem write_refused (k : Keychain) (refusal : Refusal) (args : SecurityArgs) :
    ∃ e, KeychainKeyProvider.write (security k (some refusal) args).1 = .error e := by
  have := refusal.nonzero
  simp [security, KeychainKeyProvider.write, this]

theorem getKey_cached {k : Bytes} (h : d.provider.cached = some k) (io : KeychainCall) :
    d.getKey io = (d, .ok k) := by
  simp [getKey, h]

/-- With the key stored and the first read working, the key is returned. -/
theorem getKey_read (hd : d.storedKey = some key) (hc : d.provider.cached = none)
    {io : KeychainCall} (hr : io.firstRead = none) :
    d.getKey io = ({ d with provider := { d.provider with cached := some key } }, .ok key) := by
  unfold getKey
  simp only [hc, hr, Option.map_none, read_found hd]

/-- A refused write leaves the keychain alone. -/
theorem getKey_refused (hc : d.provider.cached = none) {io : KeychainCall} {failure : ReadFailure}
    (hr : io.firstRead = some failure) {refusal : Refusal} (hw : io.write = some refusal) :
    ∃ e, d.getKey io = (d, .error e) := by
  obtain ⟨e, he⟩ := write_refused d.keychain refusal
    (.addGenericPassword d.provider.service d.provider.account (base64 io.random.1))
  refine ⟨e, ?_⟩
  unfold getKey
  simp only [hc, hr, Option.map_some, read_failed, hw, he]
  rfl

theorem write_accepted (k : Keychain) (s a password : Text) :
    KeychainKeyProvider.write (security k none (.addGenericPassword s a password)).1 = .ok () := by
  simp [security, KeychainKeyProvider.write]

/-- After a failed first read an accepted write puts the drawn key in the place of the stored
one, whether or not it can be read back. -/
theorem getKey_replaced (hc : d.provider.cached = none) {io : KeychainCall} {failure : ReadFailure}
    (hr : io.firstRead = some failure) (hw : io.write = none) :
    keychainKeyProvider.Holds io.random.1 (d.getKey io).1 ∧
      AnswersWith io.random.1 (d.getKey io).2 := by
  have hstored : ((security d.keychain none (.addGenericPassword d.provider.service
      d.provider.account (base64 io.random.1))).2 d.provider.service d.provider.account).bind
      keyOfText = some io.random.1 := by
    simp [security, keyOfText_base64]
  unfold getKey
  simp only [hc, hr, Option.map_some, read_failed, hw, write_accepted]
  cases hb : io.readBack with
  | none =>
    simp only [Option.map_none, read_found hstored, if_true]
    refine ⟨⟨hstored, ?_⟩, ?_⟩
    · intro k hk
      exact (Option.some.inj hk).symm
    · intro k hk
      exact (Except.ok.inj hk).symm
  | some failure =>
    simp only [Option.map_some, read_failed, reduceCtorEq, if_false]
    refine ⟨⟨hstored, ?_⟩, ?_⟩
    · intro k hk
      simp [keychainKeyProvider, hc] at hk
    · intro k hk
      cases hk

theorem getKey_kept (hd : keychainKeyProvider.Holds key d) {io : KeychainCall}
    (hok : ReadHolds key d io) :
    keychainKeyProvider.Holds key (d.getKey io).1 ∧ AnswersWith key (d.getKey io).2 := by
  cases hc : d.provider.cached with
  | some k =>
    rw [getKey_cached hc]
    refine ⟨hd, fun k' h => ?_⟩
    rw [← Except.ok.inj h]
    exact hd.2 k hc
  | none =>
    cases hr : io.firstRead with
    | none =>
      rw [getKey_read hd.1 hc hr]
      refine ⟨⟨hd.1, fun k hk => ?_⟩, fun k hk => ?_⟩
      · exact (Option.some.inj hk).symm
      · exact (Except.ok.inj hk).symm
    | some failure =>
      cases hw : io.write with
      | some refusal =>
        obtain ⟨e, he⟩ := getKey_refused hc hr hw
        rw [he]
        exact ⟨hd, fun k h => (by cases h)⟩
      | none =>
        have hk : io.random.1 = key := by
          unfold ReadHolds at hok
          simpa [hc, hr, hw] using hok
        rw [← hk]
        exact getKey_replaced hc hr hw

theorem getKey_lost {io : KeychainCall} (hok : ¬ ReadHolds key d io) :
    (d.getKey io).1.storedKey ≠ some key := by
  unfold ReadHolds at hok
  push Not at hok
  obtain ⟨hc, hr, hw, hne⟩ := hok
  obtain ⟨failure, hr⟩ := Option.ne_none_iff_exists'.mp hr
  have hstored : (d.getKey io).1.storedKey = some io.random.1 := (getKey_replaced hc hr hw).1.1
  rw [hstored]
  exact fun h => hne (Option.some.inj h)

end KeychainDevice

namespace FileDevice

variable {d : FileDevice} {key : Bytes}

theorem getKey_cached {k : Bytes} (h : d.provider.cached = some k) (io : FileCall) :
    d.getKey io = (d, .ok k) := by
  simp [getKey, h]

/-- With the key stored and the read working, the key is returned. -/
theorem getKey_read (hd : d.storedKey = some key) (hc : d.provider.cached = none) {io : FileCall}
    (hr : io.readFails = false) :
    d.getKey io = ({ d with provider := { d.provider with cached := some key } }, .ok key) := by
  obtain ⟨bytes, hb, hk⟩ := Option.bind_eq_some_iff.mp hd
  have hread : d.read false = .ok (some key) := by
    unfold read
    simp only [hb]
    exact keyOfText_eq_some hk _
  unfold getKey
  simp only [hc, hr, hread]

/-- A read that fails finds nothing. -/
theorem read_failed (d : FileDevice) : d.read true = .ok none := rfl

theorem getKey_mkdir (hc : d.provider.cached = none) {io : FileCall} (hr : io.readFails = true)
    {error : Text} (hm : io.mkdir = .error error) : d.getKey io = (d, .error error) := by
  unfold getKey
  simp only [hc, hr, read_failed, hm]

/-- After a failed read the file is what the write leaves; a key is returned where the write was
done, and it is the one drawn. -/
theorem getKey_written (hc : d.provider.cached = none) {io : FileCall} (hr : io.readFails = true)
    (hm : io.mkdir = .ok ()) :
    (d.getKey io).1.content = io.write.leaves d.content (utf8Encode (base64 io.random.1)) ∧
      (∀ k ∈ (d.getKey io).1.provider.cached, io.write = .done ∧ k = io.random.1) ∧
      ∀ k, (d.getKey io).2 = .ok k → io.write = .done ∧ k = io.random.1 := by
  unfold getKey
  simp only [hc, hr, read_failed, hm]
  cases io.write with
  | refused e => exact ⟨rfl, fun k h => (by simp [hc] at h), fun k h => (by cases h)⟩
  | cutShort kept e => exact ⟨rfl, fun k h => (by simp [hc] at h), fun k h => (by cases h)⟩
  | done =>
    cases io.chmod with
    | error e => exact ⟨rfl, fun k h => (by simp [hc] at h), fun k h => (by cases h)⟩
    | ok =>
      exact ⟨rfl, fun k h => ⟨rfl, (Option.some.inj h).symm⟩,
        fun k h => ⟨rfl, (Except.ok.inj h).symm⟩⟩

/-- A complete write holds the key drawn. -/
theorem leaves_done (content : Option Bytes) (random : RandomKey) :
    ((FileWrite.done.leaves content (utf8Encode (base64 random.1))).bind
      fun bytes => keyOfText (utf8Decode bytes)) = some random.1 := by
  simp [FileWrite.leaves, keyOfText_base64]

theorem getKey_kept (hd : fileKeyProvider.Holds key d) {io : FileCall} (hok : ReadHolds key d io) :
    fileKeyProvider.Holds key (d.getKey io).1 ∧ AnswersWith key (d.getKey io).2 := by
  cases hc : d.provider.cached with
  | some k =>
    rw [getKey_cached hc]
    refine ⟨hd, fun k' h => ?_⟩
    rw [← Except.ok.inj h]
    exact hd.2 k hc
  | none =>
    cases hr : io.readFails with
    | false =>
      rw [getKey_read hd.1 hc hr]
      refine ⟨⟨hd.1, fun k hk => ?_⟩, fun k hk => ?_⟩
      · exact (Option.some.inj hk).symm
      · exact (Except.ok.inj hk).symm
    | true =>
      cases hm : io.mkdir with
      | error e =>
        rw [getKey_mkdir hc hr hm]
        exact ⟨hd, fun k h => (by cases h)⟩
      | ok =>
        have hleft : ((io.write.leaves d.content (utf8Encode (base64 io.random.1))).bind
            fun bytes => keyOfText (utf8Decode bytes)) = some key := by
          unfold ReadHolds at hok
          simpa [hc, hr, hm] using hok
        have hdrawn : io.write = .done → io.random.1 = key := by
          intro hw
          rw [hw, leaves_done] at hleft
          exact Option.some.inj hleft
        obtain ⟨hcontent, hcached, hanswer⟩ := getKey_written hc hr hm
        refine ⟨⟨?_, ?_⟩, ?_⟩
        · show (d.getKey io).1.storedKey = some key
          unfold storedKey
          rw [hcontent]; exact hleft
        · intro k hk
          exact (hcached k hk).2.trans (hdrawn (hcached k hk).1)
        · intro k hk
          have := hanswer k hk
          exact this.2.trans (hdrawn this.1)

theorem getKey_lost {io : FileCall} (hok : ¬ ReadHolds key d io) :
    (d.getKey io).1.storedKey ≠ some key := by
  unfold ReadHolds at hok
  push Not at hok
  obtain ⟨hc, hr, hm, hleft⟩ := hok
  have hm' : io.mkdir = .ok () := by
    cases h : io.mkdir with
    | error e => exact absurd h (hm e)
    | ok => rfl
  unfold storedKey
  rw [(getKey_written hc (by simpa using hr) hm').1]
  exact hleft

end FileDevice

/-! ## A locked keychain, and a file that cannot be opened -/

def repeatedKey (b : UInt8) : RandomKey := ⟨List.replicate 32 b, by simp [SECRET_KEY_BYTES]⟩

/-- A new process over a keychain that holds the key of sevens. -/
def storedSevens : KeychainDevice :=
  ⟨⟨DEVICE_KEY_SERVICE, DEVICE_KEY_ACCOUNT, none⟩, fun _ _ => some (base64 (repeatedKey 7).1)⟩

/-- A new process over a file that holds the key of sevens. -/
def fileOfSevens : FileDevice :=
  ⟨⟨"bb-shared-device-key".toList, none⟩, some (utf8Encode (base64 (repeatedKey 7).1))⟩

theorem storedSevens_storedKey : storedSevens.storedKey = some (repeatedKey 7).1 := by
  unfold KeychainDevice.storedKey storedSevens
  rw [Option.bind_some]
  exact keyOfText_base64 _

theorem fileOfSevens_storedKey : fileOfSevens.storedKey = some (repeatedKey 7).1 := by
  unfold FileDevice.storedKey fileOfSevens
  rw [Option.bind_some, utf8Decode_encode]
  exact keyOfText_base64 _

theorem storedSevens_holds : keychainKeyProvider.Holds (repeatedKey 7).1 storedSevens :=
  ⟨storedSevens_storedKey, fun _ h => by cases h⟩

theorem fileOfSevens_holds : fileKeyProvider.Holds (repeatedKey 7).1 fileOfSevens :=
  ⟨fileOfSevens_storedKey, fun _ h => by cases h⟩

/-- The exit of `security` where it may not ask the user to unlock the keychain. -/
def interactionNotAllowed : ReadFailure where
  status := some 36
  stderr := "User interaction is not allowed.".toList
  nonzero := by simp
  notMissing := by simp

/-- The first read fails, and the next write is accepted. -/
def lockedOnce : KeychainCall := ⟨some interactionNotAllowed, repeatedKey 9, none, none⟩

def unreadableOnce : FileCall := ⟨true, repeatedKey 9, .ok (), .done, .ok ()⟩

/-- One failed read replaces the stored key, in the keychain and in the file. -/
theorem stored_key_replaced :
    keychainKeyProvider.Holds (repeatedKey 7).1 storedSevens ∧
    ¬ keychainKeyProvider.Kept (repeatedKey 7).1 storedSevens [.getKey lockedOnce] ∧
    fileKeyProvider.Holds (repeatedKey 7).1 fileOfSevens ∧
    ¬ fileKeyProvider.Kept (repeatedKey 7).1 fileOfSevens [.getKey unreadableOnce] := by
  refine ⟨storedSevens_holds, ?_, fileOfSevens_holds, ?_⟩
  · intro h
    have hkept : (storedSevens.getKey lockedOnce).1.storedKey = some (repeatedKey 7).1 := h.1.1
    refine KeychainDevice.getKey_lost ?_ hkept
    rintro (h | h | h | h)
    · exact h rfl
    · cases h
    · exact h rfl
    · exact absurd h (by decide)
  · intro h
    have hkept : (fileOfSevens.getKey unreadableOnce).1.storedKey = some (repeatedKey 7).1 := h.1.1
    refine FileDevice.getKey_lost ?_ hkept
    rintro (h | h | ⟨_, h⟩ | h)
    · exact h rfl
    · cases h
    · cases h
    · have hleft : some (repeatedKey 9).1 = some (repeatedKey 7).1 :=
        (FileDevice.leaves_done _ _).symm.trans h
      exact absurd hleft (by decide)

/-- **Which runs keep a stored key.** A run of either provider from a state that holds a key keeps
it, and returns no other, exactly when no call that finds nothing cached turns a failed read into a
write of another key. -/
theorem storedKey_kept_iff (key : Bytes) :
    (∀ (d : KeychainDevice) (es : List (KeyEvent KeychainCall)), keychainKeyProvider.Holds key d →
      (keychainKeyProvider.Kept key d es ↔
        keychainKeyProvider.EachCall (KeychainDevice.ReadHolds key) d es)) ∧
    ∀ (d : FileDevice) (es : List (KeyEvent FileCall)), fileKeyProvider.Holds key d →
      (fileKeyProvider.Kept key d es ↔
        fileKeyProvider.EachCall (FileDevice.ReadHolds key) d es) := by
  constructor
  · intro d es hd
    exact KeyProvider.kept_iff (fun _ => ⟨rfl, rfl⟩)
      (fun _ _ hd hok => KeychainDevice.getKey_kept hd hok)
      (fun _ _ hok => KeychainDevice.getKey_lost hok) hd
  · intro d es hd
    exact KeyProvider.kept_iff (fun _ => ⟨rfl, rfl⟩)
      (fun _ _ hd hok => FileDevice.getKey_kept hd hok)
      (fun _ _ hok => FileDevice.getKey_lost hok) hd

/-- Reads that work keep the key across restarts. -/
theorem storedKey_kept_iff_sevens :
    keychainKeyProvider.Kept (repeatedKey 7).1 storedSevens
      [.getKey { lockedOnce with firstRead := none }, .getKey lockedOnce, .restart] ∧
    fileKeyProvider.Kept (repeatedKey 7).1 fileOfSevens
      [.getKey { unreadableOnce with readFails := false }, .restart] := by
  constructor
  · refine ((storedKey_kept_iff _).1 _ _ storedSevens_holds).mpr ⟨?_, ?_, ?_, trivial⟩
    · rintro io ⟨⟩
      exact Or.inr (Or.inl rfl)
    · rintro io ⟨⟩
      refine Or.inl ?_
      rw [show keychainKeyProvider.step storedSevens (.getKey { lockedOnce with firstRead := none })
        = (storedSevens.getKey { lockedOnce with firstRead := none }).1 from rfl,
        KeychainDevice.getKey_read storedSevens_storedKey rfl rfl]
      simp
    · rintro io ⟨⟩
  · refine ((storedKey_kept_iff _).2 _ _ fileOfSevens_holds).mpr ⟨?_, ?_, trivial⟩
    · rintro io ⟨⟩
      exact Or.inr (Or.inl rfl)
    · rintro io ⟨⟩

end BbShared
