import BbShared.Js.Text
import Mathlib.Data.Rat.Defs
import Mathlib.Algebra.Order.Ring.Unbundled.Rat

/-!
# Connection records

`worker-lifecycle/worker-record.ts`: what is kept of a relay, and the schema of the snapshot that
holds all of them.

The URL parser is a parameter.  `normalizeConnectionUrl` is taken to be idempotent: the origin of a
URL is the origin of itself.
-/

namespace BbShared

open Js

/-- The parts of a parsed URL that are looked at. -/
structure ParsedUrl where
  protocol : Text
  username : Text
  password : Text
  pathname : Text
  search : Text
  hash : Text
  origin : Text
  deriving DecidableEq

/-- A canonical HTTPS origin, never a redirect or a URL credential. -/
def normalizeConnectionUrl (parse : Text → Option ParsedUrl) (value : Text) : Except Text Text :=
  let input := trim value
  match parse (if "://".toList <:+: input then input else "https://".toList ++ input) with
  | none => .error "Invalid URL".toList
  | some url =>
    if url.protocol ≠ "https:".toList ∨ url.username ≠ [] ∨ url.password ≠ [] ∨
        url.pathname ≠ "/".toList ∨ url.search ≠ [] ∨ url.hash ≠ [] then
      .error "Enter an HTTPS hostname without a path, query, or username.".toList
    else .ok url.origin

/-- What is accepted is the origin of a URL. -/
theorem normalizeConnectionUrl_ok {parse : Text → Option ParsedUrl} {value origin : Text}
    (h : normalizeConnectionUrl parse value = .ok origin) :
    ∃ input url, parse input = some url ∧ url.origin = origin := by
  unfold normalizeConnectionUrl at h
  simp only at h
  split at h
  · cases h
  · rename_i url hp
    split at h
    · cases h
    · exact ⟨_, url, hp, Except.ok.inj h⟩

/-- `new URL`, with an origin normalising to itself. -/
structure UrlParser where
  parse : Text → Option ParsedUrl
  idempotent : ∀ value origin, normalizeConnectionUrl parse value = .ok origin →
    normalizeConnectionUrl parse origin = .ok origin

/-- The parser that knows the origin `https://share.example` only. -/
def UrlParser.shareExample : UrlParser where
  parse value :=
    if value = "https://share.example".toList then
      some ⟨"https:".toList, [], [], "/".toList, [], [], "https://share.example".toList⟩
    else none
  idempotent := by
    intro value origin h
    obtain ⟨input, url, hp, rfl⟩ := normalizeConnectionUrl_ok h
    obtain ⟨_, hp⟩ := Option.ite_none_right_eq_some.mp hp
    obtain rfl := Option.some.inj hp
    decide +kernel

structure Claim where
  url : Text
  expiresAt : Option ℚ
  deriving DecidableEq

structure ConnectionRecord where
  id : Text
  relayId : Text
  url : Text
  tunnelSecret : Text
  claim : Option Claim
  createdAt : ℚ
  deriving DecidableEq

structure ConnectionSnapshot where
  defaultId : Option Text
  connections : List ConnectionRecord
  deriving DecidableEq

/-- The characters of `[A-Za-z0-9_-]`. -/
def isTokenChar (c : Char) : Bool := c.isAlphanum || c = '_' || c = '-'

/-- `/^[A-Za-z0-9_-]{32,256}$/`. -/
def isTunnelSecret (s : Text) : Bool := 32 ≤ s.length && s.length ≤ 256 && s.all isTokenChar

/-- `z.string().url()`. -/
def UrlParser.Accepts (parser : UrlParser) (url : Text) : Prop := (parser.parse url).isSome = true

instance (parser : UrlParser) (url : Text) : Decidable (parser.Accepts url) :=
  inferInstanceAs (Decidable (_ = _))

/-- The default is one of the connections, or there are none. -/
def DefaultOk : Option Text → List ConnectionRecord → Prop
  | none, l => l = []
  | some id, l => ∃ r ∈ l, r.id = id

instance : ∀ (d : Option Text) (l : List ConnectionRecord), Decidable (DefaultOk d l)
  | none, l => inferInstanceAs (Decidable (l = []))
  | some id, l => inferInstanceAs (Decidable (∃ r ∈ l, r.id = id))

section Schema

variable (parser : UrlParser) (claimUrl : Text → Prop)

/-- `connectionRecordSchema`, with `claimUrl` for what it asks of a claim's URL. -/
structure ConnectionRecord.Fits (r : ConnectionRecord) : Prop where
  id : r.id ≠ []
  relayId : r.relayId ≠ [] ∧ units r.relayId ≤ 128
  url : normalizeConnectionUrl parser.parse r.url = .ok r.url
  tunnelSecret : isTunnelSecret r.tunnelSecret = true
  claim : ∀ c ∈ r.claim, claimUrl c.url

/-- `snapshotSchema`, of a snapshot of version 1, with `claimUrl` for what it asks of the URLs of
claims. -/
structure ConnectionSnapshot.Fits (s : ConnectionSnapshot) : Prop where
  records : ∀ r ∈ s.connections, r.Fits parser claimUrl
  size : s.connections.length ≤ 16
  ids : (s.connections.map (·.id)).Nodup
  relayIds : (s.connections.map (·.relayId)).Nodup
  urls : (s.connections.map (·.url)).Nodup
  default : DefaultOk s.defaultId s.connections

/-- `snapshotSchema`, of a snapshot of version 1. -/
abbrev ConnectionSnapshot.Valid (s : ConnectionSnapshot) : Prop := s.Fits parser parser.Accepts

variable [DecidablePred claimUrl]

instance (r : ConnectionRecord) : Decidable (r.Fits parser claimUrl) :=
  decidable_of_iff (r.id ≠ [] ∧ (r.relayId ≠ [] ∧ units r.relayId ≤ 128) ∧
      normalizeConnectionUrl parser.parse r.url = .ok r.url ∧ isTunnelSecret r.tunnelSecret = true ∧
      ∀ c ∈ r.claim, claimUrl c.url)
    ⟨fun ⟨a, b, c, d, e⟩ => ⟨a, b, c, d, e⟩, fun ⟨a, b, c, d, e⟩ => ⟨a, b, c, d, e⟩⟩

instance (s : ConnectionSnapshot) : Decidable (s.Fits parser claimUrl) :=
  decidable_of_iff ((∀ r ∈ s.connections, r.Fits parser claimUrl) ∧ s.connections.length ≤ 16 ∧
      (s.connections.map (·.id)).Nodup ∧ (s.connections.map (·.relayId)).Nodup ∧
      (s.connections.map (·.url)).Nodup ∧ DefaultOk s.defaultId s.connections)
    ⟨fun ⟨a, b, c, d, e, f⟩ => ⟨a, b, c, d, e, f⟩, fun ⟨a, b, c, d, e, f⟩ => ⟨a, b, c, d, e, f⟩⟩

end Schema

/-- What `save` keeps of a record: a claim that has expired is dropped. -/
def ConnectionRecord.expire (now : ℚ) (r : ConnectionRecord) : ConnectionRecord :=
  { r with claim := r.claim.filter fun c => match c.expiresAt with
      | some t => ¬ t ≤ now
      | none => true }

@[simp] theorem ConnectionRecord.expire_id (now : ℚ) (r : ConnectionRecord) :
    (r.expire now).id = r.id := rfl

@[simp] theorem ConnectionRecord.expire_relayId (now : ℚ) (r : ConnectionRecord) :
    (r.expire now).relayId = r.relayId := rfl

@[simp] theorem ConnectionRecord.expire_url (now : ℚ) (r : ConnectionRecord) :
    (r.expire now).url = r.url := rfl

variable {parser : UrlParser} {claimUrl : Text → Prop}

theorem ConnectionRecord.Fits.expire {r : ConnectionRecord} (h : r.Fits parser claimUrl) (now : ℚ) :
    (r.expire now).Fits parser claimUrl where
  id := h.id
  relayId := h.relayId
  url := h.url
  tunnelSecret := h.tunnelSecret
  claim := by
    intro c hc
    exact h.claim c (Option.mem_filter_iff.mp hc).1

namespace ConnectionSnapshot.Fits

theorem mono {s : ConnectionSnapshot} (h : s.Fits parser claimUrl) {claimUrl' : Text → Prop}
    (himp : ∀ url, claimUrl url → claimUrl' url) : s.Fits parser claimUrl' :=
  { h with
    records := fun r hr =>
      { h.records r hr with claim := fun c hc => himp _ ((h.records r hr).claim c hc) } }

theorem expire {d : Option Text} {l : List ConnectionRecord} (h : Fits parser claimUrl ⟨d, l⟩)
    (now : ℚ) : Fits parser claimUrl ⟨d, l.map (·.expire now)⟩ where
  records := by
    intro r hr
    obtain ⟨r', hr', rfl⟩ := List.mem_map.mp hr
    exact (h.records r' hr').expire now
  size := by simpa using h.size
  ids := by simpa [Function.comp_def] using h.ids
  relayIds := by simpa [Function.comp_def] using h.relayIds
  urls := by simpa [Function.comp_def] using h.urls
  default := by
    have hd := h.default
    cases d with
    | none => simpa [DefaultOk] using hd
    | some id =>
      obtain ⟨r, hr, he⟩ := hd
      exact ⟨r.expire now, List.mem_map_of_mem hr, he⟩

theorem empty : Fits parser claimUrl ⟨none, []⟩ where
  records := by simp
  size := by simp
  ids := by simp
  relayIds := by simp
  urls := by simp
  default := rfl

/-- A new record with a url, a relay and an id of its own. -/
theorem append {d : Option Text} {l : List ConnectionRecord} (h : Fits parser claimUrl ⟨d, l⟩)
    {r : ConnectionRecord} (hr : r.Fits parser claimUrl) (hsize : l.length < 16)
    (hid : r.id ∉ l.map (·.id)) (hrelay : r.relayId ∉ l.map (·.relayId))
    (hurl : r.url ∉ l.map (·.url)) :
    Fits parser claimUrl ⟨some (d.getD r.id), l ++ [r]⟩ where
  records := by
    intro s hs
    rcases List.mem_append.mp hs with hs | hs
    · exact h.records s hs
    · rw [List.mem_singleton.mp hs]; exact hr
  size := by simp only [List.length_append, List.length_singleton]; omega
  ids := by
    rw [List.map_append]
    exact h.ids.append (List.nodup_singleton _) (by simpa using hid)
  relayIds := by
    rw [List.map_append]
    exact h.relayIds.append (List.nodup_singleton _) (by simpa using hrelay)
  urls := by
    rw [List.map_append]
    exact h.urls.append (List.nodup_singleton _) (by simpa using hurl)
  default := by
    have hd := h.default
    cases d with
    | none => exact ⟨r, by simp, rfl⟩
    | some id =>
      obtain ⟨s, hs, he⟩ := hd
      exact ⟨s, List.mem_append_left _ hs, he⟩

/-- Some of the records, with a default among them. -/
theorem sublist {d d' : Option Text} {l l' : List ConnectionRecord}
    (h : Fits parser claimUrl ⟨d, l⟩) (hl : l'.Sublist l) (hd : DefaultOk d' l') :
    Fits parser claimUrl ⟨d', l'⟩ where
  records := fun r hr => h.records r (hl.subset hr)
  size := hl.length_le.trans h.size
  ids := h.ids.sublist (hl.map _)
  relayIds := h.relayIds.sublist (hl.map _)
  urls := h.urls.sublist (hl.map _)
  default := hd

end ConnectionSnapshot.Fits

end BbShared
