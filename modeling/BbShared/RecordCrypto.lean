import BbShared.SecretRecord

/-!
# Records with secret fields

`lib/device-key/record-crypto.ts`: the fields of a record that are named by dot-paths are sealed one
after the other, and opened again one after the other.  What is sealed or opened are the record's own
values, and the paths of a list in which none is the beginning of another lead apart.
-/

namespace BbShared

open Js Property

namespace RecordCrypto

/-- The names of a dot-path. -/
def segments (path : Text) : List Text := path.splitOn '.'

def getByPath (obj : Json) (path : Text) : Found := walk (segments path) (.json obj)

def setByPath (obj : Json) (path : Text) (value : Json) : Json := setAt value (segments path) obj

/-! ## Sealing and opening -/

variable (aes : Aes)

/-- The loop of `encryptRecord`, with the nonce that is drawn for each path. -/
def sealPaths (key : Bytes) (nonce : Text → Nonce) : List Text → Json → Option Json
  | [], out => some out
  | path :: paths, out =>
    match getByPath out path with
    | .json (.str s) =>
      match sealSecret aes key (nonce path) s with
      | some e => sealPaths key nonce paths (setByPath out path e.json)
      | none => none
    | _ => sealPaths key nonce paths out

/-- `encryptRecord`; `none` where it throws.  What `clone` gives is the record as it is printed. -/
def encryptRecord (key : Bytes) (nonce : Text → Nonce) (record : Json) (paths : List Text) :
    Option Json :=
  sealPaths aes key nonce paths record.reprint

/-- The loop of `decryptRecord`. -/
def openPaths (key : Bytes) : List Text → Json → Bool → Option DecryptRecordResult
  | [], out, migrated => some ⟨out, migrated⟩
  | path :: paths, out, migrated =>
    match getByPath out path with
    | .undefined => openPaths key paths out migrated
    | .json .null => openPaths key paths out migrated
    | .json value =>
      match secretEnvelope? value with
      | some e =>
        match openSecret aes key e with
        | some text => openPaths key paths (setByPath out path (.str text)) migrated
        | none => none
      | none =>
        match value with
        | .str _ => openPaths key paths out true
        | _ => none
    | _ => none

/-- `decryptRecord`; `none` where it throws. -/
def decryptRecord (key : Bytes) (atRest : Json) (paths : List Text) : Option DecryptRecordResult :=
  openPaths aes key paths atRest.reprint false

/-- An envelope stays one in a clone. -/
theorem secretEnvelope?_reprint (e : SecretEnvelope) : secretEnvelope? e.json.reprint = some e := by
  have hmember : ∀ k, Json.member k e.json.reprint = (Json.member k e.json).map Json.reprint :=
    fun k => Json.child_reprint (.name k) e.json
  have henv := secretEnvelope?_json e
  unfold secretEnvelope? at henv ⊢
  simp only [hmember]
  have hv : Json.member "v".toList e.json = some (.num (.ofNat 1)) := rfl
  have ha : Json.member "alg".toList e.json = some (.str SECRET_ENVELOPE_ALG) := rfl
  have hnonce : Json.member "nonce".toList e.json = some (.str e.nonce) := rfl
  have hct : Json.member "ct".toList e.json = some (.str e.ct) := rfl
  have htag : Json.member "tag".toList e.json = some (.str e.tag) := rfl
  rw [hv, ha, hnonce, hct, htag] at henv ⊢
  simp only [Option.map_some, Json.reprint, Number.print_one] at henv ⊢
  exact henv

/-! ## The sealing loop -/

/-- What the sealing of paths makes of a record. -/
structure SealedFrom (key : Bytes) (nonce : Text → Nonce) (paths : List Text) (out out' : Json) :
    Prop where
  sealed : ∀ p ∈ paths, ∀ q s, locate (segments p) out = some (q, .str s) →
    ∃ e, sealSecret aes key (nonce p) s = some e ∧ locate (segments p) out' = some (q, e.json)
  kept : ∀ p ∈ paths, (∀ s, getByPath out p ≠ .json (.str s)) → getByPath out' p = getByPath out p
  apart : ∀ segs, (∀ p ∈ paths, Apart (segments p) segs) →
    walk segs (.json out') = walk segs (.json out) ∧ locate segs out' = locate segs out
  look : ∀ ps, (∀ p ∈ paths, ∀ q s, locate (segments p) out = some (q, .str s) → ¬ q <+: ps) →
    Json.look ps out' = Json.look ps out

variable {aes}

variable (aes) in
theorem sealSecret_isSome (key : RandomKey) (nonce : Nonce) (s : Text) :
    ∃ e, sealSecret aes key.1 nonce s = some e := by
  unfold sealSecret
  rw [if_pos key.2]
  exact ⟨_, rfl⟩

theorem sealPaths_of_string {key : RandomKey} {nonce : Text → Nonce} {p : Text} {paths : List Text}
    {out : Json} {s : Text} {e : SecretEnvelope} (h : getByPath out p = .json (.str s))
    (he : sealSecret aes key.1 (nonce p) s = some e) :
    sealPaths aes key.1 nonce (p :: paths) out =
      sealPaths aes key.1 nonce paths (setByPath out p e.json) := by
  rw [sealPaths, h]
  simp only [he]

theorem sealPaths_of_other {key : Bytes} {nonce : Text → Nonce} {p : Text} {paths : List Text}
    {out : Json} (h : ∀ s, getByPath out p ≠ .json (.str s)) :
    sealPaths aes key nonce (p :: paths) out = sealPaths aes key nonce paths out := by
  rw [sealPaths]
  split
  · rename_i s hs
    exact absurd hs (h s)
  · rfl

variable (aes) in
/-- **The sealing loop.** -/
theorem sealPaths_spec (key : RandomKey) (nonce : Text → Nonce) {paths : List Text}
    (hapart : paths.Pairwise fun p p' => Apart (segments p) (segments p')) (out : Json) :
    ∃ out', sealPaths aes key.1 nonce paths out = some out' ∧
      SealedFrom aes key.1 nonce paths out out' := by
  induction paths generalizing out with
  | nil => exact ⟨out, rfl, by simp, by simp, fun _ _ => ⟨rfl, rfl⟩, fun _ _ => rfl⟩
  | cons p paths ih =>
    obtain ⟨hp, hrest⟩ := List.pairwise_cons.mp hapart
    by_cases hstring : ∃ s, getByPath out p = .json (.str s)
    · obtain ⟨s, hs⟩ := hstring
      obtain ⟨q, hloc⟩ := locate_of_walk (by simp) hs
      obtain ⟨e, he⟩ := sealSecret_isSome aes key (nonce p) s
      obtain ⟨out', hout, hsealed⟩ := ih hrest (setByPath out p e.json)
      have hframe : ∀ p' ∈ paths, walk (segments p') (.json (setByPath out p e.json)) =
          walk (segments p') (.json out) ∧
          locate (segments p') (setByPath out p e.json) = locate (segments p') out :=
        fun p' hp' => walk_setAt hloc _ (hp p' hp')
      refine ⟨out', (sealPaths_of_string hs he).trans hout, ?_, ?_, ?_, ?_⟩
      · intro p' hp' q' s' hloc'
        rcases List.mem_cons.mp hp' with rfl | hp'
        · rw [hloc] at hloc'
          cases hloc'
          refine ⟨e, he, ?_⟩
          rw [(hsealed.apart (segments p') fun p'' hp'' => (hp p'' hp'').symm).2]
          exact locate_setAt hloc _
        · exact hsealed.sealed p' hp' q' s' ((hframe p' hp').2.trans hloc')
      · intro p' hp' hno
        rcases List.mem_cons.mp hp' with rfl | hp'
        · exact absurd hs (hno s)
        · have hwalk : getByPath (setByPath out p e.json) p' = getByPath out p' := (hframe p' hp').1
          rw [← hwalk] at hno ⊢
          exact hsealed.kept p' hp' hno
      · intro segs hsegs
        obtain ⟨hwalk, hlocate⟩ :=
          hsealed.apart segs fun p' hp' => hsegs p' (List.mem_cons_of_mem p hp')
        obtain ⟨hwalk', hlocate'⟩ :=
          walk_setAt hloc e.json (hsegs p List.mem_cons_self)
        exact ⟨hwalk.trans hwalk', hlocate.trans hlocate'⟩
      · intro ps hps
        rw [hsealed.look ps fun p' hp' q' s' hloc' => hps p' (List.mem_cons_of_mem p hp') q' s'
          ((hframe p' hp').2.symm.trans hloc')]
        exact look_setAt hloc _ (hps p List.mem_cons_self q s hloc)
    · have hno : ∀ s, getByPath out p ≠ .json (.str s) := fun s hs => hstring ⟨s, hs⟩
      obtain ⟨out', hout, hsealed⟩ := ih hrest out
      refine ⟨out', (sealPaths_of_other hno).trans hout, ?_, ?_, ?_, ?_⟩
      · intro p' hp' q' s' hloc'
        rcases List.mem_cons.mp hp' with rfl | hp'
        · exact absurd (walk_of_locate hloc') (hno s')
        · exact hsealed.sealed p' hp' q' s' hloc'
      · intro p' hp' hno'
        rcases List.mem_cons.mp hp' with rfl | hp'
        · exact (hsealed.apart (segments p') fun p'' hp'' => (hp p'' hp'').symm).1
        · exact hsealed.kept p' hp' hno'
      · exact fun segs hsegs =>
          hsealed.apart segs fun p' hp' => hsegs p' (List.mem_cons_of_mem p hp')
      · exact fun ps hps => hsealed.look ps fun p' hp' => hps p' (List.mem_cons_of_mem p hp')

/-! ## The opening loop -/

variable (aes) in
/-- An envelope that opens to a text, at the end of a path. -/
def Holds (key : Bytes) (out : Json) (p : Text) (q : List Step) (text : Text) : Prop :=
  ∃ w e, locate (segments p) out = some (q, w) ∧ secretEnvelope? w = some e ∧
    openSecret aes key e = some text

variable (aes) in
/-- What stands at a path of a record that can be opened. -/
def Opens (key : Bytes) (out : Json) (p : Text) : Prop :=
  (∃ q text, Holds aes key out p q text) ∨ (∃ s, getByPath out p = .json (.str s)) ∨
    getByPath out p = .undefined ∨ getByPath out p = .json .null

variable (aes) in
/-- What the opening of paths makes of a record. -/
structure OpenedFrom (key : Bytes) (paths : List Text) (out out' : Json) : Prop where
  opened : ∀ p ∈ paths, ∀ q text, Holds aes key out p q text →
    locate (segments p) out' = some (q, .str text)
  apart : ∀ segs, (∀ p ∈ paths, Apart (segments p) segs) →
    locate segs out' = locate segs out
  look : ∀ ps, (∀ p ∈ paths, ∀ q text, Holds aes key out p q text → ¬ q <+: ps) →
    Json.look ps out' = Json.look ps out

/-- Some path holds a string. -/
def SomeString (out : Json) (paths : List Text) : Prop :=
  ∃ p ∈ paths, ∃ s, getByPath out p = .json (.str s)

theorem Holds.value {key : Bytes} {out : Json} {p : Text} {q : List Step} {text : Text}
    (h : Holds aes key out p q text) :
    ∃ w e, w ≠ .null ∧ getByPath out p = .json w ∧ secretEnvelope? w = some e ∧
      openSecret aes key e = some text := by
  obtain ⟨w, e, hloc, henv, hopen⟩ := h
  refine ⟨w, e, ?_, walk_of_locate hloc, henv, hopen⟩
  rintro rfl
  cases henv

theorem openPaths_of_holds {key : Bytes} {p : Text} {paths : List Text} {out : Json}
    {migrated : Bool} {q : List Step} {text : Text} (h : Holds aes key out p q text) :
    openPaths aes key (p :: paths) out migrated =
      openPaths aes key paths (setByPath out p (.str text)) migrated := by
  obtain ⟨w, e, hne, hget, henv, hopen⟩ := h.value
  rw [openPaths, hget]
  cases w with
  | null => exact absurd rfl hne
  | _ => simp only [henv, hopen]

variable (aes) in
/-- **The opening loop.** -/
theorem openPaths_spec (key : Bytes) {paths : List Text}
    (hapart : paths.Pairwise fun p p' => Apart (segments p) (segments p')) (out : Json)
    (migrated : Bool) (hpaths : ∀ p ∈ paths, Opens aes key out p) :
    ∃ r, openPaths aes key paths out migrated = some r ∧ OpenedFrom aes key paths out r.record ∧
      (r.migrated = true ↔ migrated = true ∨ SomeString out paths) := by
  induction paths generalizing out migrated with
  | nil =>
    refine ⟨_, rfl, ⟨by simp, fun _ _ => rfl, fun _ _ => rfl⟩, ?_⟩
    simp [SomeString]
  | cons p paths ih =>
    obtain ⟨hp, hrest⟩ := List.pairwise_cons.mp hapart
    rcases hpaths p List.mem_cons_self with ⟨q, text, hholds⟩ | hother
    · obtain ⟨w, e, hne, hget, henv, hopen⟩ := hholds.value
      obtain ⟨w', e', hloc, henv', hopen'⟩ := id hholds
      have hframe : ∀ p' ∈ paths, walk (segments p') (.json (setByPath out p (.str text))) =
          walk (segments p') (.json out) ∧
          locate (segments p') (setByPath out p (.str text)) = locate (segments p') out :=
        fun p' hp' => walk_setAt hloc _ (hp p' hp')
      have hholds_iff : ∀ p' ∈ paths, ∀ q' text', Holds aes key (setByPath out p (.str text)) p' q'
          text' ↔ Holds aes key out p' q' text' := by
        intro p' hp' q' text'
        unfold Holds
        rw [(hframe p' hp').2]
      have hget_eq : ∀ p' ∈ paths, getByPath (setByPath out p (.str text)) p' = getByPath out p' :=
        fun p' hp' => (hframe p' hp').1
      obtain ⟨r, hr, hopened, hmigrated⟩ := ih hrest (setByPath out p (.str text)) migrated
        fun p' hp' => by
          unfold Opens
          rw [hget_eq p' hp']
          simp only [hholds_iff p' hp']
          exact hpaths p' (List.mem_cons_of_mem p hp')
      refine ⟨r, (openPaths_of_holds hholds).trans hr, ⟨?_, ?_, ?_⟩, ?_⟩
      · intro p' hp' q' text' h'
        rcases List.mem_cons.mp hp' with rfl | hp'
        · obtain ⟨w'', e'', hloc'', henv'', hopen''⟩ := h'
          rw [hloc] at hloc''
          cases hloc''
          rw [henv'] at henv''
          cases henv''
          rw [hopen'] at hopen''
          cases hopen''
          rw [hopened.apart (segments p') fun p'' hp'' => (hp p'' hp'').symm]
          exact locate_setAt hloc _
        · exact hopened.opened p' hp' q' text' ((hholds_iff p' hp' q' text').mpr h')
      · intro segs hsegs
        rw [hopened.apart segs fun p' hp' => hsegs p' (List.mem_cons_of_mem p hp')]
        exact (walk_setAt hloc (.str text) (hsegs p List.mem_cons_self)).2
      · intro ps hps
        rw [hopened.look ps fun p' hp' q' text' h' => hps p' (List.mem_cons_of_mem p hp') q' text'
          ((hholds_iff p' hp' q' text').mp h')]
        exact look_setAt hloc _ (hps p List.mem_cons_self q text hholds)
      · have hsome : SomeString (setByPath out p (.str text)) paths ↔
            SomeString out (p :: paths) := by
          unfold SomeString
          constructor
          · rintro ⟨p', hp', s, hs⟩
            exact ⟨p', List.mem_cons_of_mem p hp', s, (hget_eq p' hp').symm.trans hs⟩
          · rintro ⟨p', hp', s, hs⟩
            rcases List.mem_cons.mp hp' with rfl | hp'
            · rw [hget] at hs
              cases hs
              cases henv
            · exact ⟨p', hp', s, (hget_eq p' hp').trans hs⟩
        rw [hmigrated, hsome]
    · have hnone : ∀ q text, ¬ Holds aes key out p q text := by
        intro q text h
        obtain ⟨w, e, hne, hget, henv, -⟩ := h.value
        rcases hother with ⟨s, hs⟩ | hs | hs <;> rw [hget] at hs <;> cases hs
        · cases henv
        · exact hne rfl
      have hpass : ∃ m, openPaths aes key (p :: paths) out migrated =
          openPaths aes key paths out m ∧
          (m = true ↔ migrated = true ∨ ∃ s, getByPath out p = .json (.str s)) := by
        rcases hother with ⟨s, hs⟩ | hs | hs
        · refine ⟨true, by rw [openPaths, hs]; rfl, ?_⟩
          simp [hs]
        · exact ⟨migrated, by rw [openPaths, hs], by simp [hs]⟩
        · exact ⟨migrated, by rw [openPaths, hs], by simp [hs]⟩
      obtain ⟨m, hm, hm_iff⟩ := hpass
      obtain ⟨r, hr, hopened, hmigrated⟩ :=
        ih hrest out m fun p' hp' => hpaths p' (List.mem_cons_of_mem p hp')
      refine ⟨r, hm.trans hr, ⟨?_, ?_, ?_⟩, ?_⟩
      · intro p' hp' q text h
        rcases List.mem_cons.mp hp' with rfl | hp'
        · exact absurd h (hnone q text)
        · exact hopened.opened p' hp' q text h
      · exact fun segs hsegs =>
          hopened.apart segs fun p' hp' => hsegs p' (List.mem_cons_of_mem p hp')
      · exact fun ps hps => hopened.look ps fun p' hp' => hps p' (List.mem_cons_of_mem p hp')
      · rw [hmigrated, hm_iff, or_assoc]
        refine or_congr_right ?_
        unfold SomeString
        rw [List.exists_mem_cons_iff]

/-! ## The round trip -/

/-- Every number is finite, as the numbers of JSON are. -/
def Finite (j : Json) : Prop := ∀ ps, Json.look ps j ≠ some (.num none)

/-- The same JSON: at each place the same stands. -/
def Same (j j' : Json) : Prop := ∀ ps, Json.look ps j = Json.look ps j'

/-- A path that comes to a string, to `null` or to nothing. -/
def Resolves (record : Json) (p : Text) : Prop :=
  (∃ s, getByPath record p = .json (.str s)) ∨ getByPath record p = .json .null ∨
    getByPath record p = .undefined

theorem look_clone {j : Json} (h : Finite j) (ps : List Step) :
    Json.look ps j.reprint = Json.look ps j := by
  rw [Json.look_reprint]
  cases hl : Json.look ps j with
  | none => rfl
  | some leaf =>
    cases leaf with
    | num d =>
      cases d with
      | none => exact absurd hl (h ps)
      | some d => rfl
    | _ => rfl

theorem getByPath_reprint (j : Json) (p : Text) :
    getByPath j.reprint p = (getByPath j p).reprint :=
  walk_reprint _ (.json j)

theorem string_reprint {j : Json} {p s : Text} :
    getByPath j.reprint p = .json (.str s) ↔ getByPath j p = .json (.str s) := by
  rw [getByPath_reprint]
  cases getByPath j p with
  | json w =>
    show Found.json w.reprint = .json (.str s) ↔ _
    constructor
    · intro h
      rw [reprint_eq_str (Found.json.inj h)]
    · intro h
      rw [Found.json.inj h, Json.reprint]
  | _ => exact Iff.rfl

theorem segments_injective : Function.Injective segments := by
  intro p p' h
  have hjoin : ∀ p : Text, ['.'].intercalate (segments p) = p :=
    fun p => List.intercalate_splitOn '.'
  rw [← hjoin p, h, hjoin p']

/-- Distinct paths, none of which begins another, are apart. -/
theorem pairwise_apart {paths : List Text} (hnodup : paths.Nodup)
    (hbegin : ∀ p ∈ paths, ∀ p' ∈ paths, segments p <+: segments p' → segments p = segments p') :
    paths.Pairwise fun p p' => Apart (segments p) (segments p') := by
  apply List.Pairwise.imp_of_mem _ hnodup
  intro p p' hp hp' hne
  exact ⟨fun h => hne (segments_injective (hbegin p hp p' hp' h)),
    fun h => hne (segments_injective (hbegin p' hp' p hp h)).symm⟩

section Sealed

variable {key : RandomKey} {nonce : Text → Nonce} {record atRest : Json} {paths : List Text}

/-- A path that held a string holds its envelope. -/
theorem SealedFrom.at_string (h : SealedFrom aes key.1 nonce paths record.reprint atRest)
    {p s : Text} (hp : p ∈ paths) (hs : getByPath record p = .json (.str s)) :
    ∃ q e, locate (segments p) record = some (q, .str s) ∧
      sealSecret aes key.1 (nonce p) s = some e ∧
        locate (segments p) atRest = some (q, e.json) := by
  obtain ⟨q, hloc⟩ := locate_of_walk (by simp) hs
  obtain ⟨e, he, hrest⟩ := h.sealed p hp q s (locate_string_reprint.mpr hloc)
  exact ⟨q, e, hloc, he, hrest⟩

/-- A path that held nothing, or `null`, holds it. -/
theorem SealedFrom.at_other (h : SealedFrom aes key.1 nonce paths record.reprint atRest) {p : Text}
    (hp : p ∈ paths) (hpath : getByPath record p = .json .null ∨ getByPath record p = .undefined) :
    getByPath atRest p = getByPath record p := by
  have hclone : getByPath record.reprint p = getByPath record p := by
    rw [getByPath_reprint]
    rcases hpath with hpath | hpath <;> rw [hpath] <;> rfl
  rw [h.kept p hp, hclone]
  intro s hs
  rw [hclone] at hs
  rcases hpath with hpath | hpath <;> rw [hpath] at hs <;> cases hs

theorem SealedFrom.holds (h : SealedFrom aes key.1 nonce paths record.reprint atRest) {p s : Text}
    (hp : p ∈ paths) (hs : getByPath record p = .json (.str s)) :
    ∃ q, locate (segments p) record = some (q, .str s) ∧
      Holds aes key.1 atRest.reprint p q s := by
  obtain ⟨q, e, hloc, he, hrest⟩ := h.at_string hp hs
  refine ⟨q, hloc, e.json.reprint, e, ?_, secretEnvelope?_reprint e, openSecret_sealSecret aes he⟩
  rw [locate_reprint, hrest]
  rfl

theorem SealedFrom.nothing (h : SealedFrom aes key.1 nonce paths record.reprint atRest) {p : Text}
    (hp : p ∈ paths) (hpath : getByPath record p = .json .null ∨ getByPath record p = .undefined) :
    getByPath atRest.reprint p = .json .null ∨ getByPath atRest.reprint p = .undefined := by
  rw [getByPath_reprint, h.at_other hp hpath]
  rcases hpath with hpath | hpath <;> rw [hpath]
  · exact .inl rfl
  · exact .inr rfl

/-- What opens at rest was a string. -/
theorem SealedFrom.string_of_holds (h : SealedFrom aes key.1 nonce paths record.reprint atRest)
    {p : Text} (hp : p ∈ paths) (hpath : Resolves record p) {q : List Step} {text : Text}
    (hholds : Holds aes key.1 atRest.reprint p q text) :
    ∃ s, locate (segments p) record = some (q, .str s) := by
  rcases hpath with ⟨s, hs⟩ | hpath
  · obtain ⟨q', hloc, w, e, hrest, -, -⟩ := h.holds hp hs
    obtain ⟨w', e', hrest', -, -⟩ := hholds
    rw [hrest] at hrest'
    cases hrest'
    exact ⟨s, hloc⟩
  · obtain ⟨w, e, hne, hget, -, -⟩ := hholds.value
    rcases h.nothing hp hpath with hnone | hnone <;> rw [hget] at hnone <;> cases hnone
    exact absurd rfl hne

end Sealed

/-- **Records round-trip, and only secret fields change.** -/
theorem record_round_trip (aes : Aes) (key : RandomKey) (nonce : Text → Nonce) (record : Json)
    (paths : List Text) (hfinite : Finite record) (hnodup : paths.Nodup)
    (hbegin : ∀ p ∈ paths, ∀ p' ∈ paths, segments p <+: segments p' → segments p = segments p')
    (hpaths : ∀ p ∈ paths, Resolves record p) :
    ∃ atRest, encryptRecord aes key.1 nonce record paths = some atRest ∧
      (∃ restored, decryptRecord aes key.1 atRest paths = some ⟨restored, false⟩ ∧
        Same restored record) ∧
      (∀ p ∈ paths,
        (∀ s, getByPath record p = .json (.str s) →
          ∃ e, sealSecret aes key.1 (nonce p) s = some e ∧ getByPath atRest p = .json e.json) ∧
        ((∀ s, getByPath record p ≠ .json (.str s)) → getByPath atRest p = getByPath record p)) ∧
      (∀ ps, (∀ p ∈ paths, ∀ q s, locate (segments p) record = some (q, .str s) → ¬ q <+: ps) →
        Json.look ps atRest = Json.look ps record) ∧
      ∃ r, decryptRecord aes key.1 record paths = some r ∧ Same r.record record ∧
        (r.migrated = true ↔ ∃ p ∈ paths, ∃ s, getByPath record p = .json (.str s)) := by
  have hapart := pairwise_apart hnodup hbegin
  obtain ⟨atRest, hencrypt, hsealed⟩ := sealPaths_spec aes key nonce hapart record.reprint
  have hlook : ∀ ps, (∀ p ∈ paths, ∀ q s, locate (segments p) record = some (q, .str s) →
      ¬ q <+: ps) → Json.look ps atRest = Json.look ps record := by
    intro ps hps
    rw [hsealed.look ps fun p hp q s h => hps p hp q s (locate_string_reprint.mp h),
      look_clone hfinite]
  refine ⟨atRest, hencrypt, ?_, ?_, hlook, ?_⟩
  · obtain ⟨⟨restored, migrated⟩, hdecrypt, hopened, hmigrated⟩ :=
      openPaths_spec aes key.1 hapart atRest.reprint false fun p hp => by
        rcases hpaths p hp with ⟨s, hs⟩ | hpath
        · obtain ⟨q, -, hholds⟩ := hsealed.holds hp hs
          exact .inl ⟨q, s, hholds⟩
        · rcases hsealed.nothing hp hpath with h | h
          · exact .inr (.inr (.inr h))
          · exact .inr (.inr (.inl h))
    have hfresh : migrated = false := by
      rw [← Bool.not_eq_true, hmigrated]
      rintro (h | ⟨p, hp, s, hs⟩)
      · cases h
      · rcases hpaths p hp with ⟨s', hs'⟩ | hpath
        · obtain ⟨q, -, hholds⟩ := hsealed.holds hp hs'
          obtain ⟨w, e, -, hget, henv, -⟩ := hholds.value
          rw [hget] at hs
          cases hs
          cases henv
        · rcases hsealed.nothing hp hpath with h | h <;> rw [h] at hs <;> cases hs
    subst hfresh
    refine ⟨restored, hdecrypt, fun ps => ?_⟩
    by_cases hbelow : ∃ p ∈ paths, ∃ q s, locate (segments p) record = some (q, .str s) ∧ q <+: ps
    · obtain ⟨p, hp, q, s, hloc, r, rfl⟩ := hbelow
      obtain ⟨q', hloc', hholds⟩ := hsealed.holds hp (walk_of_locate hloc)
      rw [hloc] at hloc'
      cases hloc'
      exact look_below (hopened.opened p hp q s hholds) hloc r
    · have hoff : ∀ p ∈ paths, ∀ q s, locate (segments p) record = some (q, .str s) → ¬ q <+: ps :=
        fun p hp q s hloc hq => hbelow ⟨p, hp, q, s, hloc, hq⟩
      have hrest : Json.look ps restored = Json.look ps atRest.reprint := by
        apply hopened.look
        intro p hp q text hholds
        obtain ⟨s, hloc⟩ := hsealed.string_of_holds hp (hpaths p hp) hholds
        exact hoff p hp q s hloc
      rw [hrest, Json.look_reprint, hlook ps hoff, ← Json.look_reprint, look_clone hfinite]
  · intro p hp
    constructor
    · intro s hs
      obtain ⟨q, e, -, he, hrest⟩ := hsealed.at_string hp hs
      exact ⟨e, he, walk_of_locate hrest⟩
    · intro hno
      rcases hpaths p hp with ⟨s, hs⟩ | hpath
      · exact absurd hs (hno s)
      · exact hsealed.at_other hp hpath
  · obtain ⟨r, hdecrypt, hopened, hmigrated⟩ :=
      openPaths_spec aes key.1 hapart record.reprint false fun p hp => by
        rcases hpaths p hp with ⟨s, hs⟩ | hpath
        · exact .inr (.inl ⟨s, string_reprint.mpr hs⟩)
        · right
          right
          rw [getByPath_reprint]
          rcases hpath with h | h <;> rw [h]
          · exact .inr rfl
          · exact .inl rfl
    refine ⟨r, hdecrypt, fun ps => ?_, ?_⟩
    · rw [← look_clone hfinite ps]
      apply hopened.look
      intro p hp q text hholds
      obtain ⟨w, e, hne, hget, henv, -⟩ := hholds.value
      rcases hpaths p hp with ⟨s, hs⟩ | hpath
      · rw [string_reprint.mpr hs] at hget
        cases hget
        cases henv
      · rw [getByPath_reprint] at hget
        rcases hpath with h | h <;> rw [h] at hget <;> cases hget
        exact absurd rfl hne
    · rw [hmigrated]
      unfold SomeString
      simp only [string_reprint, Bool.false_eq_true, false_or]

/-- A worker record with a token, and without a claim. -/
def workerRecord : Json := .obj [("apiToken".toList, .str ['t']), ("claim".toList, .null)]

def workerPaths : List Text := ["apiToken".toList, "claim.url".toList]

theorem finite_workerRecord : Finite workerRecord := by
  intro ps h
  unfold Json.look at h
  obtain ⟨j, hj, hleaf⟩ := Option.map_eq_some_iff.mp h
  rcases ps with _ | ⟨st, ps⟩
  · cases hj
    cases hleaf
  · obtain ⟨c, hc, hj⟩ := Option.bind_eq_some_iff.mp hj
    have hplain : c = .str ['t'] ∨ c = .null := by
      cases st with
      | name k =>
        obtain ⟨e, he, rfl⟩ := Option.map_eq_some_iff.mp hc
        have hmem := List.mem_reverse.mp (List.mem_of_find?_eq_some he)
        rcases List.mem_cons.mp hmem with rfl | hmem
        · exact .inl rfl
        · rcases List.mem_singleton.mp hmem with rfl
          exact .inr rfl
      | index i => cases hc
    have hstop : ∀ st' c, (c = .str ['t'] ∨ c = .null) → Json.child st' c = none := by
      rintro (k | i) c (rfl | rfl) <;> rfl
    cases ps with
    | nil =>
      cases hj
      rcases hplain with rfl | rfl <;> cases hleaf
    | cons st' ps =>
      rw [Json.descend, hstop st' c hplain] at hj
      cases hj

theorem record_round_trip_worker :
    ∃ atRest, encryptRecord .plain (repeatedKey 7).1 (fun _ => repeatedNonce 0) workerRecord
        workerPaths = some atRest ∧
      (∃ restored,
        decryptRecord .plain (repeatedKey 7).1 atRest workerPaths = some ⟨restored, false⟩ ∧
          Same restored workerRecord) ∧
      (∀ p ∈ workerPaths,
        (∀ s, getByPath workerRecord p = .json (.str s) →
          ∃ e, sealSecret .plain (repeatedKey 7).1 (repeatedNonce 0) s = some e ∧
            getByPath atRest p = .json e.json) ∧
        ((∀ s, getByPath workerRecord p ≠ .json (.str s)) →
          getByPath atRest p = getByPath workerRecord p)) ∧
      (∀ ps, (∀ p ∈ workerPaths, ∀ q s, locate (segments p) workerRecord = some (q, .str s) →
          ¬ q <+: ps) →
        Json.look ps atRest = Json.look ps workerRecord) ∧
      ∃ r, decryptRecord .plain (repeatedKey 7).1 workerRecord workerPaths = some r ∧
        Same r.record workerRecord ∧
        (r.migrated = true ↔
          ∃ p ∈ workerPaths, ∃ s, getByPath workerRecord p = .json (.str s)) := by
  refine record_round_trip .plain (repeatedKey 7) (fun _ => repeatedNonce 0) workerRecord
    workerPaths finite_workerRecord (by decide) (by decide) ?_
  intro p hp
  rcases List.mem_cons.mp hp with rfl | hp
  · exact .inl ⟨['t'], by rfl⟩
  · rcases List.mem_singleton.mp hp with rfl
    exact .inr (.inr (by rfl))

/-! ## Records with a payload -/

theorem segments_payload : segments PAYLOAD = [PAYLOAD] := by decide

theorem property_payload (j : Json) :
    Property.property PAYLOAD (.json j) = ((j.member PAYLOAD).map Found.json).getD .undefined := by
  have hindex : Json.arrayIndex? PAYLOAD = none := by decide
  have hobject : inherited objectMethods .objectPrototype PAYLOAD = .undefined := by
    unfold inherited
    rw [if_neg (by decide), if_neg (by decide)]
  have harray : inherited (arrayMethods ++ objectMethods) .arrayPrototype PAYLOAD = .undefined := by
    unfold inherited
    rw [if_neg (by decide), if_neg (by decide)]
  cases j with
  | obj l =>
    rw [Property.property, own_obj]
    cases Json.member PAYLOAD (.obj l) with
    | some c => rfl
    | none => exact hobject
  | arr l =>
    rw [Property.property, own_arr, hindex]
    exact harray
  | _ => rfl

theorem getByPath_payload (j : Json) :
    getByPath j PAYLOAD = ((j.member PAYLOAD).map Found.json).getD .undefined := by
  unfold getByPath
  rw [segments_payload]
  exact property_payload j

theorem setByPath_payload {j c : Json} (h : j.member PAYLOAD = some c) (v : Json) :
    setByPath j PAYLOAD v = setMember PAYLOAD v j := by
  unfold setByPath
  rw [segments_payload]
  cases j with
  | obj l =>
    have hown : own PAYLOAD (.obj l) = some (.name PAYLOAD, c) := by
      rw [own_obj, h]
      rfl
    rw [setAt_cons hown]
    rfl
  | _ => cases h

/-- The stores' records have one secret field, and are sealed in it. -/
theorem encryptRecord_payload (aes : Aes) (key : Bytes) (nonce : Text → Nonce) (record : Json) :
    encryptRecord aes key nonce record [PAYLOAD] =
      BbShared.encryptRecord aes key (nonce PAYLOAD) PAYLOAD record.reprint := by
  have hget := getByPath_payload record.reprint
  unfold encryptRecord BbShared.encryptRecord
  cases hm : record.reprint.member PAYLOAD with
  | none =>
    rw [hm] at hget
    rw [sealPaths_of_other (by rw [hget]; simp)]
    rfl
  | some c =>
    rw [hm] at hget
    cases c with
    | str s =>
      rw [sealPaths, hget]
      simp only [Option.map_some, Option.getD_some]
      cases sealSecret aes key (nonce PAYLOAD) s with
      | none => rfl
      | some e => exact congrArg some (setByPath_payload hm _)
    | _ =>
      rw [sealPaths_of_other (by rw [hget]; simp)]
      rfl

/-- They are opened in it. -/
theorem decryptRecord_payload (aes : Aes) (key : Bytes) (atRest : Json) :
    decryptRecord aes key atRest [PAYLOAD] =
      BbShared.decryptRecord aes key PAYLOAD atRest.reprint := by
  have hget := getByPath_payload atRest.reprint
  unfold decryptRecord BbShared.decryptRecord
  rw [openPaths, hget]
  cases hm : atRest.reprint.member PAYLOAD with
  | none => rfl
  | some c =>
    have hset := fun v => setByPath_payload hm v
    cases he : secretEnvelope? c with
    | none =>
      cases c with
      | null => rfl
      | _ => simp only [Option.map_some, Option.getD_some, he, openPaths]
    | some e =>
      cases c with
      | null => cases he
      | _ =>
        simp only [Option.map_some, Option.getD_some, he, hset]
        cases openSecret aes key e <;> rfl

end RecordCrypto

end BbShared
