import BbShared.Js.Url
import BbShared.Machine

/-!
# References

`new URL(reference, base)` for the base of an `http` or `https` page, with the parser of hosts and
ports as a parameter, and what a resolved path begins with.

`pathOf_doubled`: a path begins with two slashes when one of its segments is empty, the segments
before it cancel out, and no later `..` removes it.
-/

namespace Js

open Machine

/-! ## Segments -/

/-- The segments of a path without its leading slash. -/
def pathSegments (s : Text) : List Text :=
  (s.splitOnP fun c => c == '/' || c == '\\').map (percentEncode pathSet)

/-- The pathname of a path. -/
def pathOf (segments : List Text) : Text := (resolveDots [] segments).flatMap ('/' :: ·)

theorem parsePath_eq (s : Text) : parsePath s = pathOf (pathSegments s.tail) := rfl

/-- The segments of a path-absolute reference. -/
def targetSegments (raw : Text) : List Text :=
  pathSegments ((raw.takeWhile (· != '#')).takeWhile (· != '?')).tail

theorem pathSegments_ne_nil (s : Text) : pathSegments s ≠ [] := by
  unfold pathSegments
  simp [List.splitOnP_ne_nil]

/-! ## How deep a path is -/

/-- The segments that stand, the last one first, after one that is not the last of all. -/
def stack (path : List Text) (seg : Text) : List Text :=
  if isDoubleDot seg then path.tail else if isSingleDot seg then path else seg :: path

/-- The segments that stand after the last one. -/
def finish (path : List Text) (seg : Text) : List Text :=
  if isDoubleDot seg then [] :: path.tail else if isSingleDot seg then [] :: path else seg :: path

/-- How many segments stand after these. -/
def depth (segments : List Text) : ℕ :=
  segments.foldl
    (fun d seg => if isDoubleDot seg then d - 1 else if isSingleDot seg then d else d + 1) 0

theorem depth_concat (segments : List Text) (seg : Text) :
    depth (segments ++ [seg]) =
      if isDoubleDot seg then depth segments - 1
      else if isSingleDot seg then depth segments else depth segments + 1 :=
  List.foldl_concat _ _ _ _

theorem length_stack (segments : List Text) : (segments.foldl stack []).length = depth segments := by
  induction segments using List.reverseRecOn with
  | nil => rfl
  | append_singleton segments seg ih =>
    rw [List.foldl_concat, depth_concat, ← ih]
    unfold stack
    split_ifs
    · exact List.length_tail
    · rfl
    · rfl

theorem resolveDots_concat (path init : List Text) (last : Text) :
    resolveDots path (init ++ [last]) = (finish (init.foldl stack path) last).reverse := by
  induction init generalizing path with
  | nil => rfl
  | cons seg init ih =>
    rcases hinit : init ++ [last] with _ | ⟨seg', segs⟩
    · simp at hinit
    · rw [List.cons_append, hinit, resolveDots, ← hinit, ih]
      rfl

/-- Every `..` removes one of these segments. -/
def Stays (segments : List Text) : Prop :=
  Along (fun before seg => isDoubleDot seg = true → 0 < depth before) segments

/-- An empty segment comes first: those before it cancel out, and it stays. -/
def Escapes (segments : List Text) : Prop :=
  ∃ pre post, segments = pre ++ [] :: post ∧ depth pre = 0 ∧ post ≠ [] ∧ Stays post

/-- What stands at the bottom came in when nothing else stood, and has stayed. -/
theorem stack_bottom (init : List Text) :
    init.foldl stack [] = [] ∨
      ∃ pre b post, init = pre ++ b :: post ∧ depth pre = 0 ∧ Stays post ∧
        init.foldl stack [] = post.foldl stack [] ++ [b] := by
  induction init using List.reverseRecOn with
  | nil => exact .inl rfl
  | append_singleton init seg ih =>
    rw [List.foldl_concat]
    rcases ih with hnil | ⟨pre, b, post, rfl, hpre, hpost, hstack⟩
    · rw [hnil]
      unfold stack
      split_ifs
      · exact .inl rfl
      · exact .inl rfl
      · refine .inr ⟨init, seg, [], rfl, ?_, along_nil, rfl⟩
        rw [← length_stack, hnil]
        rfl
    · rw [hstack]
      by_cases hgone : isDoubleDot seg = true ∧ post.foldl stack [] = []
      · left
        rw [hgone.2]
        unfold stack
        rw [if_pos hgone.1]
        rfl
      · right
        refine ⟨pre, b, post ++ [seg], by simp, hpre, along_concat.mpr ⟨hpost, fun hseg => ?_⟩, ?_⟩
        · rw [← length_stack]
          exact List.length_pos_iff.mpr fun h => hgone ⟨hseg, h⟩
        · rw [List.foldl_concat]
          unfold stack
          split_ifs with h₁
          · exact List.tail_append_of_ne_nil fun h => hgone ⟨h₁, h⟩
          · rfl
          · rfl

/-- A segment that stays is at the bottom. -/
theorem stack_of_stays {post : List Text} (h : Stays post) (b : Text) :
    post.foldl stack [b] = post.foldl stack [] ++ [b] := by
  induction post using List.reverseRecOn with
  | nil => rfl
  | append_singleton post seg ih =>
    obtain ⟨hpost, hseg⟩ := along_concat.mp h
    rw [List.foldl_concat, List.foldl_concat, ih hpost]
    unfold stack
    split_ifs with h₁
    · have hpos := hseg h₁
      rw [← length_stack] at hpos
      exact List.tail_append_of_ne_nil (List.length_pos_iff.mp hpos)
    · rfl
    · rfl

theorem finish_bottom {path : List Text} {last : Text} (b : Text)
    (h : isDoubleDot last = true → path ≠ []) :
    ∃ above, above ≠ [] ∧ finish (path ++ [b]) last = above ++ [b] := by
  unfold finish
  split_ifs with h₁
  · exact ⟨[] :: path.tail, List.cons_ne_nil _ _, by rw [List.tail_append_of_ne_nil (h h₁)]; rfl⟩
  · exact ⟨[] :: path, List.cons_ne_nil _ _, rfl⟩
  · exact ⟨last :: path, List.cons_ne_nil _ _, rfl⟩

theorem length_finish_nil (last : Text) : (finish [] last).length = 1 := by
  unfold finish
  split_ifs <;> rfl

theorem length_finish_singleton {b last : Text} (h : isDoubleDot last = true) :
    (finish [b] last).length = 1 := by
  unfold finish
  rw [if_pos h]
  rfl

theorem escapes_iff (segments : List Text) :
    (∃ seg segs, resolveDots [] segments = [] :: seg :: segs) ↔ Escapes segments := by
  constructor
  · rintro ⟨seg, segs, h⟩
    rcases List.eq_nil_or_concat' segments with rfl | ⟨init, last, rfl⟩
    · cases h
    rw [resolveDots_concat] at h
    have hlen : 2 ≤ (finish (init.foldl stack []) last).length := by
      rw [← List.length_reverse, h]
      simp
    rcases stack_bottom init with hnil | ⟨pre, b, post, rfl, hpre, hpost, hstack⟩
    · rw [hnil, length_finish_nil] at hlen
      omega
    · rw [hstack] at h hlen
      have hstays : isDoubleDot last = true → post.foldl stack [] ≠ [] := by
        intro hdd hnil
        rw [hnil, List.nil_append, length_finish_singleton hdd] at hlen
        omega
      obtain ⟨above, -, habove⟩ := finish_bottom b hstays
      rw [habove, List.reverse_concat] at h
      obtain rfl := (List.cons.inj h).1
      refine ⟨pre, post ++ [last], by simp, hpre, by simp, along_concat.mpr ⟨hpost, fun hdd => ?_⟩⟩
      rw [← length_stack]
      exact List.length_pos_iff.mpr (hstays hdd)
  · rintro ⟨pre, post, rfl, hpre, hne, hstays⟩
    rcases List.eq_nil_or_concat' post with rfl | ⟨post, last, rfl⟩
    · exact absurd rfl hne
    obtain ⟨hpost, hlast⟩ := along_concat.mp hstays
    have hpre' : pre.foldl stack [] = [] := by
      rw [← List.length_eq_zero_iff, length_stack, hpre]
    have hstack : (pre ++ [] :: post).foldl stack [] = post.foldl stack [] ++ [[]] := by
      rw [List.foldl_append, hpre', List.foldl_cons]
      exact stack_of_stays hpost []
    have hdd : isDoubleDot last = true → post.foldl stack [] ≠ [] := by
      intro hdd hnil
      have hpos := hlast hdd
      rw [← length_stack, hnil] at hpos
      exact absurd hpos (by decide)
    obtain ⟨above, hne, habove⟩ := finish_bottom [] hdd
    have hsplit : pre ++ [] :: (post ++ [last]) = (pre ++ [] :: post) ++ [last] := by simp
    rw [hsplit, resolveDots_concat, hstack, habove, List.reverse_concat]
    rcases hrev : above.reverse with _ | ⟨seg, segs⟩
    · exact absurd (List.reverse_eq_nil_iff.mp hrev) hne
    · exact ⟨seg, segs, rfl⟩

/-- A path that begins with two slashes. -/
theorem pathOf_doubled {segments : List Text} (h : ∀ seg ∈ segments, '/' ∉ seg) :
    (∃ r, pathOf segments = '/' :: '/' :: r) ↔ Escapes segments := by
  rw [← escapes_iff]
  unfold pathOf
  constructor
  · rintro ⟨r, hr⟩
    rcases hout : resolveDots [] segments with _ | ⟨x, _ | ⟨y, l⟩⟩
    · rw [hout] at hr
      cases hr
    all_goals
      rw [hout, List.flatMap_cons, List.cons_append] at hr
      have hx : x = [] := by
        rcases x with _ | ⟨c, x⟩
        · rfl
        · obtain rfl : c = '/' := (List.cons.inj (List.cons.inj hr).2).1
          have hmem : ('/' :: x) ∈ resolveDots [] segments := hout ▸ List.mem_cons_self
          rcases mem_resolveDots _ _ _ hmem with h' | h' | h'
          · cases h'
          · cases h'
          · exact absurd List.mem_cons_self (h _ h')
      subst hx
    · cases hr
    · exact ⟨y, l, rfl⟩
  · rintro ⟨seg, segs, hout⟩
    rw [hout]
    exact ⟨_, rfl⟩

theorem slash_not_mem_pathSegments (s : Text) : ∀ seg ∈ pathSegments s, '/' ∉ seg := by
  intro seg hseg hmem
  obtain ⟨t, ht, rfl⟩ := List.mem_map.mp hseg
  refine not_mem_percentEncode (by decide) (fun hm => ?_) hmem
  exact absurd (not_sep_of_mem_splitOnP _ _ t ht _ hm) (by decide)

/-! ## Resolving -/

def isSlash (c : Char) : Bool := c == '/' || c == '\\'

/-- The characters that the parser strips from both ends. -/
def isPadding (c : Char) : Bool := c.toNat ≤ 0x20

/-- The reference without its padding, and without tabs and newlines. -/
def strip (s : Text) : Text :=
  ((s.dropWhile isPadding).rdropWhile isPadding).filter fun c => c.toNat ∉ [0x9, 0xA, 0xD]

def isSchemeChar (c : Char) : Bool := c.isAlphanum || c == '+' || c == '-' || c == '.'

/-- The scheme of a reference and what follows its colon. -/
def scheme? (s : Text) : Option (Text × Text) :=
  if (s.head?).any Char.isAlpha then
    match s.dropWhile isSchemeChar with
    | ':' :: rest => some (lower (s.takeWhile isSchemeChar), rest)
    | _ => none
  else none

def networkSchemes : List Text := ["http", "https", "ws", "wss", "ftp"].map String.toList

/-- The URL of a page, with the segments of its pathname. -/
structure BaseUrl where
  scheme : Text
  origin : Text
  segments : List Text
  query : Option Text
  rooted : segments ≠ []
  segments_clean : ∀ seg ∈ segments, ∀ c ∈ seg, pathChar c = true ∧ c ≠ '/'
  query_clean : ∀ q ∈ query, ∀ c ∈ q, queryChar c = true

/-- The page of an origin. -/
def BaseUrl.ofOrigin (scheme origin : Text) : BaseUrl :=
  ⟨scheme, origin, [[]], none, by simp, by simp, nofun⟩

/-- A reference without its fragment, taken apart. -/
inductive Reference where
  /-- A path of the base's origin, its dot segments still in it. -/
  | onBase (segments : List Text) (query : Option Text)
  | network (scheme authority : Text) (segments : List Text) (query : Option Text)
  | other (scheme rest : Text)

/-- A reference from its authority on. -/
def networkReference (scheme s : Text) : Reference :=
  let s := s.dropWhile isSlash
  let rest := s.dropWhile fun c => !(isSlash c || c == '?')
  .network scheme (s.takeWhile fun c => !(isSlash c || c == '?'))
    (pathSegments (rest.takeWhile (· != '?')).tail) (Url.parseQuery rest)

/-- A reference without a scheme. -/
def relativeReference (base : BaseUrl) (s : Text) : Reference :=
  match s with
  | [] => .onBase base.segments base.query
  | c :: r =>
    if isSlash c then
      if (r.head?).any isSlash then networkReference base.scheme r
      else .onBase (pathSegments (r.takeWhile (· != '?'))) (Url.parseQuery r)
    else if c = '?' then .onBase base.segments (Url.parseQuery s)
    else .onBase (base.segments.dropLast ++ pathSegments (s.takeWhile (· != '?'))) (Url.parseQuery s)

def splitReference (base : BaseUrl) (s : Text) : Reference :=
  match scheme? s with
  | none => relativeReference base s
  | some (scheme, rest) =>
    if scheme ∉ networkSchemes then .other scheme rest
    else if scheme = base.scheme ∧ ¬ ['/', '/'].isPrefixOf rest then relativeReference base rest
    else networkReference scheme rest

/-- A resolved reference, of an origin with a host. -/
structure Target where
  origin : Text
  pathname : Text
  search : Text
  hash : Text

def fragmentSet (c : Char) : Bool :=
  c0ControlSet c || c == ' ' || c == '"' || c == '<' || c == '>' || c == Char.ofNat 0x60

/-- A part of a URL after its mark, nothing where it is empty. -/
def marked (mark : Char) : Text → Text
  | [] => []
  | c :: s => mark :: c :: s

def hashOf (s : Text) : Text :=
  marked '#' (percentEncode fragmentSet (s.dropWhile (· != '#')).tail)

section Resolve

-- The origin of a scheme and an authority, where the authority is one.
variable (authority : Text → Text → Option Text)

/-- The origin of the URL that a `blob:` URL holds. -/
def blobOrigin (pathname : Text) : Option Text :=
  match scheme? (strip pathname) with
  | some (scheme, rest) =>
    if scheme ∈ ["http", "https"].map String.toList then
      match networkReference scheme rest with
      | .network scheme a _ _ => authority scheme a
      | _ => none
    else none
  | none => none

/-- `new URL(input, base)`; `none` where it fails, or has no origin. -/
def resolveReference (base : BaseUrl) (input : Text) : Option Target :=
  let s := strip input
  match splitReference base (s.takeWhile (· != '#')) with
  | .onBase segments query =>
    some ⟨base.origin, pathOf segments, marked '?' (query.getD []), hashOf s⟩
  | .network scheme a segments query => (authority scheme a).map fun origin =>
    ⟨origin, pathOf segments, marked '?' (query.getD []), hashOf s⟩
  | .other scheme rest =>
    if scheme = "blob".toList ∧ rest.head? ≠ some '/' then
      let pathname := percentEncode c0ControlSet (rest.takeWhile (· != '?'))
      (blobOrigin authority pathname).map fun origin =>
        ⟨origin, pathname,
          marked '?' (percentEncode querySet (rest.dropWhile (· != '?')).tail), hashOf s⟩
    else none

end Resolve

/-! ## Path-absolute references -/

/-- A reference that starts with exactly one slash. -/
def PathAbsolute (location : Text) : Prop :=
  ∃ r, location = '/' :: r ∧ (r.head?).any isSlash = false

theorem strip_eq_self {s : Text} (h : ∀ c ∈ s, 0x20 < c.toNat) : strip s = s := by
  have hpad : ∀ c ∈ s, isPadding c = false := by
    intro c hc
    have := h c hc
    unfold isPadding
    exact decide_eq_false (by omega)
  have hfront : s.dropWhile isPadding = s := by
    rw [List.dropWhile_eq_self_iff]
    intro hl
    simp [hpad _ (List.getElem_mem hl)]
  have hback : s.rdropWhile isPadding = s := by
    rw [List.rdropWhile_eq_self_iff]
    intro hl
    simp [hpad _ (List.getLast_mem hl)]
  unfold strip
  rw [hfront, hback, List.filter_eq_self]
  intro c hc
  have := h c hc
  simp
  omega

/-- A path-absolute reference stays on the origin of the page. -/
theorem origin_of_pathAbsolute {location : Text} (h : PathAbsolute location)
    (hchars : ∀ c ∈ location, 0x20 < c.toNat) (authority : Text → Text → Option Text)
    (base : BaseUrl) :
    ∃ t, resolveReference authority base location = some t ∧ t.origin = base.origin := by
  obtain ⟨r, rfl, hr⟩ := h
  have hcut : ('/' :: r).takeWhile (· != '#') = '/' :: r.takeWhile (· != '#') := rfl
  have hhead : ((r.takeWhile (· != '#')).head?).any isSlash = false := by
    cases r with
    | nil => rfl
    | cons c r =>
      rw [List.takeWhile_cons]
      split_ifs
      · exact hr
      · rfl
  have hsplit : splitReference base (('/' :: r).takeWhile (· != '#')) =
      .onBase (pathSegments ((r.takeWhile (· != '#')).takeWhile (· != '?')))
        (Url.parseQuery (r.takeWhile (· != '#'))) := by
    rw [hcut]
    unfold splitReference scheme? relativeReference
    simp [isSlash, hhead]
  unfold resolveReference
  rw [strip_eq_self hchars]
  simp only [hsplit]
  exact ⟨_, rfl, rfl⟩

/-! ## What the parts are made of -/

theorem visible_of_not {c : Char} (hc : c0ControlSet c = false) (hs : c ≠ ' ') :
    0x20 < c.toNat := by
  unfold c0ControlSet at hc
  simp only [Bool.or_eq_false_iff, decide_eq_false_iff_not] at hc
  by_contra h
  have hn : c.toNat = 0x20 := by omega
  apply hs
  rw [← Char.ofNat_toNat c, hn]

theorem visible_of_querySet {c : Char} (h : querySet c = false) : 0x20 < c.toNat := by
  unfold querySet at h
  simp only [Bool.or_eq_false_iff, beq_eq_false_iff_ne] at h
  exact visible_of_not h.1.1.1.1.1 h.1.1.1.1.2

theorem visible_of_pathChar {c : Char} (h : pathChar c = true) : 0x20 < c.toNat := by
  apply visible_of_querySet
  unfold pathChar pathSet at h
  cases hq : querySet c
  · rfl
  · rw [hq] at h
    simp at h

theorem visible_of_queryChar {c : Char} (h : queryChar c = true) : 0x20 < c.toNat := by
  apply visible_of_querySet
  unfold queryChar specialQuerySet at h
  cases hq : querySet c
  · rfl
  · rw [hq] at h
    simp at h

theorem visible_hashOf (s : Text) : ∀ c ∈ hashOf s, 0x20 < c.toNat := by
  intro c hc
  have hclean := @percentEncode_clean fragmentSet (by decide) (s.dropWhile (· != '#')).tail
  unfold hashOf at hc
  cases he : percentEncode fragmentSet (s.dropWhile (· != '#')).tail with
  | nil =>
    rw [he] at hc
    cases hc
  | cons d l =>
    rw [he] at hc hclean
    rcases List.mem_cons.mp hc with rfl | hc
    · decide
    · have hfrag := hclean c hc
      unfold fragmentSet at hfrag
      simp only [Bool.or_eq_false_iff, beq_eq_false_iff_ne] at hfrag
      exact visible_of_not hfrag.1.1.1.1.1 hfrag.1.1.1.1.2

/-- Segments as the parser leaves them. -/
structure CleanSegments (segments : List Text) : Prop where
  ne : segments ≠ []
  clean : ∀ seg ∈ segments, ∀ c ∈ seg, pathChar c = true ∧ c ≠ '/'

theorem cleanSegments_pathSegments (s : Text) : CleanSegments (pathSegments s) := by
  refine ⟨pathSegments_ne_nil s, fun seg hseg c hc => ⟨?_, ?_⟩⟩
  · obtain ⟨t, ht, rfl⟩ := List.mem_map.mp hseg
    have hset := @percentEncode_clean pathSet (by decide) t c hc
    have hback : '\\' ∉ t := by
      intro hm
      exact absurd (not_sep_of_mem_splitOnP _ _ t ht _ hm) (by decide)
    have hne : c ≠ '\\' := by
      rintro rfl
      exact not_mem_percentEncode (by decide) hback hc
    unfold pathChar
    rw [hset]
    simpa using hne
  · rintro rfl
    exact slash_not_mem_pathSegments s seg hseg hc

namespace CleanSegments

variable {segments segments' : List Text}

theorem append (h : CleanSegments segments') (hpre : ∀ seg ∈ segments, ∀ c ∈ seg,
    pathChar c = true ∧ c ≠ '/') : CleanSegments (segments ++ segments') := by
  refine ⟨fun hnil => h.ne (List.append_eq_nil_iff.mp hnil).2, fun seg hseg => ?_⟩
  rcases List.mem_append.mp hseg with hseg | hseg
  · exact hpre seg hseg
  · exact h.clean seg hseg

theorem pathChar (h : CleanSegments segments) : ∀ c ∈ pathOf segments, pathChar c = true := by
  intro c hc
  obtain ⟨seg, hseg, hc⟩ := List.mem_flatMap.mp hc
  rcases List.mem_cons.mp hc with rfl | hc
  · decide
  · rcases mem_resolveDots _ _ seg hseg with rfl | hseg | hseg
    · cases hc
    · cases hseg
    · exact (h.clean seg hseg c hc).1

theorem rooted (h : CleanSegments segments) : ∃ r, pathOf segments = '/' :: r := by
  unfold pathOf
  rcases hout : resolveDots [] segments with _ | ⟨seg, segs⟩
  · exact absurd hout (resolveDots_ne_nil [] h.ne)
  · exact ⟨_, rfl⟩

/-- **One slash.** A path with a query and a fragment is path-absolute unless it escapes. -/
theorem pathAbsolute_iff (h : CleanSegments segments) {rest : Text}
    (hrest : (rest.head?).any isSlash = false) :
    PathAbsolute (pathOf segments ++ rest) ↔ ¬ Escapes segments := by
  rw [← pathOf_doubled fun seg hseg hmem => (h.clean seg hseg _ hmem).2 rfl]
  obtain ⟨r, hr⟩ := h.rooted
  have hchars := h.pathChar
  rw [hr] at hchars ⊢
  constructor
  · rintro ⟨r', heq, hhead⟩ ⟨r'', hdouble⟩
    obtain rfl := (List.cons.inj heq).2
    obtain rfl := (List.cons.inj hdouble).2
    exact Bool.noConfusion hhead
  · intro hno
    refine ⟨r ++ rest, rfl, ?_⟩
    cases r with
    | nil => exact hrest
    | cons c r =>
      have hslash : c ≠ '/' := by
        rintro rfl
        exact hno ⟨r, rfl⟩
      have hback : c ≠ '\\' := by
        rintro rfl
        exact absurd (hchars '\\' (by simp)) (by decide)
      simp [isSlash, hslash, hback]

end CleanSegments

/-- What the parts of a reference are made of. -/
def Reference.Clean : Reference → Prop
  | .onBase segments query => CleanSegments segments ∧ ∀ q ∈ query, ∀ c ∈ q, queryChar c = true
  | .network _ _ segments query =>
    CleanSegments segments ∧ ∀ q ∈ query, ∀ c ∈ q, queryChar c = true
  | .other _ _ => True

theorem clean_networkReference (scheme s : Text) : (networkReference scheme s).Clean :=
  ⟨cleanSegments_pathSegments _, Url.parseQuery_clean _⟩

theorem clean_relativeReference (base : BaseUrl) (s : Text) : (relativeReference base s).Clean := by
  unfold relativeReference
  cases s with
  | nil => exact ⟨⟨base.rooted, base.segments_clean⟩, base.query_clean⟩
  | cons c r =>
    simp only
    split_ifs
    · exact clean_networkReference _ _
    · exact ⟨cleanSegments_pathSegments _, Url.parseQuery_clean _⟩
    · exact ⟨⟨base.rooted, base.segments_clean⟩, Url.parseQuery_clean _⟩
    · refine ⟨(cleanSegments_pathSegments _).append fun seg hseg => ?_, Url.parseQuery_clean _⟩
      exact base.segments_clean seg (List.mem_of_mem_dropLast hseg)

theorem clean_splitReference (base : BaseUrl) (s : Text) : (splitReference base s).Clean := by
  unfold splitReference
  cases scheme? s with
  | none => exact clean_relativeReference _ _
  | some p =>
    simp only
    split_ifs
    · exact clean_relativeReference _ _
    · exact clean_networkReference _ _
    · exact trivial

/-! ## Plain paths -/

theorem percentEncode_eq_self {encoded : Char → Bool} {s : Text}
    (h : ∀ c ∈ s, encoded c = false) : percentEncode encoded s = s := by
  unfold percentEncode
  induction s with
  | nil => rfl
  | cons c s ih =>
    rw [List.flatMap_cons, ih fun d hd => h d (List.mem_cons_of_mem _ hd), h c List.mem_cons_self]
    rfl

theorem splitOnP_congr {α : Type*} {p q : α → Bool} {s : List α} (h : ∀ c ∈ s, p c = q c) :
    s.splitOnP p = s.splitOnP q := by
  induction s with
  | nil => rfl
  | cons c s ih =>
    rw [List.splitOnP_cons_eq_if_modifyHead, List.splitOnP_cons_eq_if_modifyHead,
      h c List.mem_cons_self, ih fun d hd => h d (List.mem_cons_of_mem _ hd)]

/-- A segment that the parser leaves as it is. -/
structure PlainSegment (seg : Text) : Prop where
  chars : ∀ c ∈ seg, pathChar c = true ∧ c ≠ '/'
  double : isDoubleDot seg = false
  single : isSingleDot seg = false

theorem resolveDots_plain {segments : List Text} (h : ∀ seg ∈ segments, PlainSegment seg)
    (path : List Text) : resolveDots path segments = path.reverse ++ segments := by
  induction path, segments using resolveDots.induct with
  | case1 path => simp [resolveDots]
  | case2 path seg =>
    have hseg := h seg List.mem_cons_self
    simp [resolveDots, hseg.double, hseg.single]
  | case3 path seg seg' segs ih =>
    have hseg := h seg List.mem_cons_self
    rw [resolveDots, hseg.double, hseg.single]
    simp only [hseg.double, hseg.single, Bool.false_eq_true, if_false] at ih ⊢
    rw [ih fun t ht => h t (List.mem_cons_of_mem _ ht)]
    simp

theorem tail_flatMap_slash (segments : List Text) :
    (segments.flatMap ('/' :: ·)).tail = List.intercalate ['/'] segments := by
  cases segments with
  | nil => rfl
  | cons seg segments =>
    induction segments generalizing seg with
    | nil => simp
    | cons seg' segments ih =>
      rw [List.intercalate_cons_cons, ← ih seg', List.flatMap_cons, List.flatMap_cons]
      simp

/-- The segments of a path that is printed. -/
theorem pathSegments_printed {segments : List Text} (hne : segments ≠ [])
    (h : ∀ seg ∈ segments, PlainSegment seg) :
    pathSegments (segments.flatMap ('/' :: ·)).tail = segments := by
  have hback : ∀ c ∈ List.intercalate ['/'] segments, (c == '/' || c == '\\') = (c == '/') := by
    intro c hc
    have hmem : c ∈ segments.flatMap ('/' :: ·) := by
      rw [← tail_flatMap_slash] at hc
      exact List.mem_of_mem_tail hc
    obtain ⟨seg, hseg, hc⟩ := List.mem_flatMap.mp hmem
    rcases List.mem_cons.mp hc with rfl | hc
    · rfl
    · have hchar := ((h seg hseg).chars c hc).1
      have hne : c ≠ '\\' := by
        rintro rfl
        exact absurd hchar (by decide)
      simp [hne]
  have hencode : segments.map (percentEncode pathSet) = segments := by
    conv_rhs => rw [← List.map_id segments]
    refine List.map_congr_left fun seg hseg => percentEncode_eq_self fun c hc => ?_
    have hchar := ((h seg hseg).chars c hc).1
    unfold pathChar at hchar
    simp only [Bool.and_eq_true, Bool.not_eq_true'] at hchar
    exact hchar.1
  unfold pathSegments
  rw [tail_flatMap_slash, splitOnP_congr hback]
  have hsplit :=
    List.splitOn_intercalate '/' (fun seg hseg hm => ((h seg hseg).chars '/' hm).2 rfl) hne
  exact (congrArg (List.map (percentEncode pathSet)) hsplit).trans hencode

/-- A path of plain segments is parsed as it is. -/
theorem parsePath_plain {segments : List Text} (hne : segments ≠ [])
    (h : ∀ seg ∈ segments, PlainSegment seg) :
    parsePath (segments.flatMap ('/' :: ·)) = segments.flatMap ('/' :: ·) := by
  rw [parsePath_eq, pathSegments_printed hne h, pathOf, resolveDots_plain h]
  rfl

end Js
