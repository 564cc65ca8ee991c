import BbShared.Authz
import BbShared.Js.Units

/-!
# The guest shim

`guest-gateway/chrome-selectors.ts` and `chrome.ts`: the script and the style that every page of a
guest begins with.  The ids of the threads that the guest may only read stand in the script, as an
array of strings in which each `<` is replaced by its escape.  The replacement is made on the text
that `JSON.stringify` wrote, where `<` stands for itself only.

`read_threads_embedded`: the script holds the ids of the read-only threads, and no `<` of theirs.
-/

namespace BbShared

open Js

/-! ## Selectors -/

def GUEST_ROOT_ATTR : Text := "data-bb-guest".toList

def GUEST_ROOT_FLAG : Text := "1".toList

def PERM_ROOT_ATTR : Text := "data-bb-guest-perm".toList

def PERM_READ_FLAG : Text := "read".toList

/-- What is hidden from every guest, or on a read-only thread. -/
structure ChromeSelector where
  css : Text
  readOnly : Bool

def CHROME_SELECTORS : List ChromeSelector :=
  [⟨"[data-testid=\"app-sidebar-primary-actions\"]".toList, false⟩,
    ⟨"[aria-label^=\"Settings\"]".toList, false⟩,
    ⟨"[data-testid=\"plugin-nav-sidebar-items\"]".toList, false⟩,
    ⟨"[aria-label^=\"New thread\"]".toList, false⟩,
    ⟨"[data-app-composer]".toList, true⟩]

/-- A rule that hides the selectors below a root; no rule without selectors. -/
def hideBelow (root : Text) (selectors : List ChromeSelector) : List Text :=
  if selectors.isEmpty then []
  else
    [List.intercalate ",\n  ".toList (selectors.map fun s => root ++ ' ' :: s.css) ++
      " \x7b display: none !important; \x7d".toList]

def buildShimCss (selectors : List ChromeSelector) : Text :=
  let ownerRoot := '[' :: GUEST_ROOT_ATTR ++ [']']
  let readRoot := '[' :: GUEST_ROOT_ATTR ++ "][".toList ++ PERM_ROOT_ATTR ++ "=\"".toList ++
    PERM_READ_FLAG ++ "\"]".toList
  List.intercalate "\n  ".toList
    (hideBelow ownerRoot (selectors.filter fun s => !s.readOnly) ++
      hideBelow readRoot (selectors.filter fun s => s.readOnly))

/-! ## The script -/

/-- `replace(/</g, "\\u003c")`. -/
def escapeLt (s : Text) : Text := s.flatMap fun c => if c = '<' then "\\u003c".toList else [c]

def encodeReadThreads (readThreadIds : List Units) : Text :=
  escapeLt (Units.stringify readThreadIds)

/-- The script up to the ids. -/
def scriptHead : Text :=
  "<script>(function()\x7b".toList ++
  "var d=document.documentElement;".toList ++
  "d.dataset.bbGuest=".toList ++ Json.quote GUEST_ROOT_FLAG ++ ";".toList ++
  "var r=new Set(".toList

/-- The script after the ids. -/
def scriptTail : Text :=
  ");".toList ++
  "function apply()\x7btry\x7b".toList ++
  "var m=/\\/threads\\/([^/?#]+)/.exec(location.pathname);".toList ++
  "var t=m?decodeURIComponent(m[1]):null;".toList ++
  "if(t&&r.has(t))d.setAttribute(".toList ++ Json.quote PERM_ROOT_ATTR ++ ",".toList ++
    Json.quote PERM_READ_FLAG ++ ");".toList ++
  "else d.removeAttribute(".toList ++ Json.quote PERM_ROOT_ATTR ++ ");".toList ++
  "\x7dcatch(e)\x7b\x7d\x7d".toList ++
  "apply();".toList ++
  "try\x7b[\"pushState\",\"replaceState\"].forEach(function(n)\x7b".toList ++
  "var o=history[n];if(typeof o===\"function\")\x7bhistory[n]=function()\x7b".toList ++
  "var v=o.apply(this,arguments);apply();return v;\x7d;\x7d\x7d);".toList ++
  "addEventListener(\"popstate\",apply);addEventListener(\"hashchange\",apply);".toList ++
  "\x7dcatch(e)\x7b\x7d".toList ++
  "\x7d)();</script>".toList

def buildShimScript (readThreadIds : List Units) : Text :=
  scriptHead ++ encodeReadThreads readThreadIds ++ scriptTail

def buildShimHtml (selectors : List ChromeSelector) (readThreadIds : List Units) : Text :=
  List.intercalate ['\n']
    [buildShimScript readThreadIds, "<style>".toList, "  ".toList ++ buildShimCss selectors,
      "</style>".toList]

/-! ## The shim of a request -/

def SHIM_HTML : Text := buildShimHtml CHROME_SELECTORS []

structure ThreadPerm where
  threadId : Units
  mode : Perm

/-- The ids of the threads that a guest may only read. -/
def readIds (perms : List ThreadPerm) : List Units :=
  (perms.filter fun p => p.mode = .read).map ThreadPerm.threadId

def shimForPerms (perms : Option (List ThreadPerm)) : Text :=
  match perms with
  | none => SHIM_HTML
  | some perms =>
    if perms.isEmpty then SHIM_HTML
    else if (readIds perms).isEmpty then SHIM_HTML
    else buildShimHtml CHROME_SELECTORS (readIds perms)

/-- The permissions that the gateway makes the shim of a page for. -/
def AuthzResult.threadPerms (decision : AuthzResult) : List ThreadPerm :=
  decision.perms.map fun p => ⟨Units.ofText p.threadId, p.mode⟩

/-- The list that the script of a shim makes its set of. -/
def readSet (shim : Text) : Option (List Units) :=
  match shim.dropPrefix? scriptHead with
  | none => none
  | some rest =>
    match Units.stringArray rest with
    | none => none
    | some (ids, after) => if scriptTail.isPrefixOf after then some ids else none

/-! ## The replacement -/

theorem lt_not_mem_escapeLt (s : Text) : '<' ∉ escapeLt s := by
  intro h
  obtain ⟨c, -, hc⟩ := List.mem_flatMap.mp h
  split_ifs at hc with heq
  · revert hc
    decide
  · exact heq (List.mem_singleton.mp hc).symm

theorem escapeLt_append (s t : Text) : escapeLt (s ++ t) = escapeLt s ++ escapeLt t :=
  List.flatMap_append

theorem escapeLt_cons {c : Char} (h : c ≠ '<') (s : Text) :
    escapeLt (c :: s) = c :: escapeLt s := by
  unfold escapeLt
  rw [List.flatMap_cons, if_neg h, List.singleton_append]

theorem escapeLt_eq_self {s : Text} (h : '<' ∉ s) : escapeLt s = s := by
  induction s with
  | nil => rfl
  | cons c s ih =>
    rw [List.mem_cons, not_or] at h
    rw [escapeLt_cons (Ne.symm h.1), ih h.2]

theorem hexDigit_ne_lt {n : ℕ} (h : n < 16) : Json.hexDigit n ≠ '<' := by
  have hall : ∀ n < 16, Json.hexDigit n ≠ '<' := by decide
  exact hall n h

/-- No escape sequence has a `<` in it. -/
theorem lt_not_mem_escape {c : Char} (h : c ≠ '<') : '<' ∉ Json.escape c := by
  unfold Json.escape
  split_ifs with h1 h2 h3 h4 h5 h6 h7 h8
  · decide
  · decide
  · decide
  · decide
  · decide
  · decide
  · decide
  · have hhigh := hexDigit_ne_lt (n := c.toNat / 16) (by omega)
    have hlow := hexDigit_ne_lt (n := c.toNat % 16) (by omega)
    simp [hhigh.symm, hlow.symm]
  · rw [List.mem_singleton]
    exact Ne.symm h

theorem lt_not_mem_unicodeEscape (u : UInt16) : '<' ∉ Units.unicodeEscape u := by
  have hu : u.toNat < 65536 := u.toNat_lt
  have h1 := hexDigit_ne_lt (n := u.toNat / 4096) (by omega)
  have h2 := hexDigit_ne_lt (n := u.toNat / 256 % 16) (by omega)
  have h3 := hexDigit_ne_lt (n := u.toNat / 16 % 16) (by omega)
  have h4 := hexDigit_ne_lt (n := u.toNat % 16) (by omega)
  unfold Units.unicodeEscape
  simp [h1.symm, h2.symm, h3.symm, h4.symm]

/-- A `<` that stands for itself reads back from its escape. -/
theorem reads_escapeLt_escape (c : Char) :
    Units.Reads (escapeLt (Json.escape c)) ((toUtf16 c).map UInt16.ofNat) := by
  by_cases h : c = '<'
  · subst h
    intro r
    rfl
  · rw [escapeLt_eq_self (lt_not_mem_escape h)]
    exact Units.reads_escape c

theorem reads_escapeLt_quoteUnit (u : UInt16) : Units.Reads (escapeLt (Units.quoteUnit u)) [u] := by
  have hread := Units.reads_quoteUnit u
  unfold Units.quoteUnit at hread ⊢
  cases h : Units.isHigh u || Units.isLow u with
  | true =>
    rw [if_pos rfl, escapeLt_eq_self (lt_not_mem_unicodeEscape u)]
    exact Units.reads_unicodeEscape u
  | false =>
    have hc := reads_escapeLt_escape (Char.ofNat u.toNat)
    rw [Units.toUtf16_bmp h, List.map_singleton, UInt16.ofNat_toNat] at hc
    exact hc

/-- **The induction over the written string.** Each piece reads back after the replacement. -/
theorem reads_escapeLt_quoteBody (s : Units) : Units.Reads (escapeLt (Units.quoteBody s)) s := by
  fun_induction Units.quoteBody s with
  | case1 => exact Units.reads_nil
  | case2 u => exact reads_escapeLt_quoteUnit u
  | case3 u v r h ih =>
    have hne : Units.pair u v ≠ '<' := by
      intro heq
      have hn := Units.toNat_pair h
      rw [heq] at hn
      have hcode : '<'.toNat = 60 := rfl
      omega
    rw [escapeLt_cons hne]
    exact (Units.reads_pair h).append ih
  | case4 u v r h ih =>
    rw [escapeLt_append]
    exact (reads_escapeLt_quoteUnit u).append ih

theorem escapeLt_quotedTail (l : List Text) :
    escapeLt (Units.quotedTail l) = Units.quotedTail (l.map escapeLt) := by
  induction l with
  | nil => rfl
  | cons b l ih =>
    rw [List.map_cons, Units.quotedTail, Units.quotedTail, escapeLt_cons (by decide),
      escapeLt_cons (by decide), escapeLt_append, escapeLt_cons (by decide), ih]

/-- Between the strings there is nothing to replace. -/
theorem escapeLt_quotedArray (l : List Text) :
    escapeLt (Units.quotedArray l) = Units.quotedArray (l.map escapeLt) := by
  cases l with
  | nil => rfl
  | cons b l =>
    rw [List.map_cons, Units.quotedArray, Units.quotedArray, escapeLt_cons (by decide),
      escapeLt_cons (by decide), escapeLt_append, escapeLt_cons (by decide), escapeLt_append,
      escapeLt_quotedTail]
    rfl

theorem encodeReadThreads_eq (ids : List Units) :
    encodeReadThreads ids =
      Units.quotedArray (ids.map fun id => escapeLt (Units.quoteBody id)) := by
  unfold encodeReadThreads Units.stringify
  rw [escapeLt_quotedArray, List.map_map]
  rfl

theorem bodies_read (ids : List Units) :
    List.Forall₂ Units.Reads (ids.map fun id => escapeLt (Units.quoteBody id)) ids := by
  rw [List.forall₂_map_left_iff, List.forall₂_same]
  exact fun id _ => reads_escapeLt_quoteBody id

theorem parseStrings_encodeReadThreads (ids : List Units) :
    Units.parseStrings (encodeReadThreads ids) = some ids := by
  rw [encodeReadThreads_eq]
  exact Units.parseStrings_quotedArray (bodies_read ids)

/-! ## The set of the script -/

theorem readSet_buildShimHtml (selectors : List ChromeSelector) (ids : List Units) :
    readSet (buildShimHtml selectors ids) = some ids := by
  obtain ⟨rest, hjoin⟩ : ∃ rest, buildShimHtml selectors ids = buildShimScript ids ++ rest :=
    ⟨_, List.intercalate_cons_cons.trans (List.append_assoc _ _ _)⟩
  have hrest : buildShimHtml selectors ids =
      scriptHead ++ (encodeReadThreads ids ++ (scriptTail ++ rest)) := by
    rw [hjoin]
    unfold buildShimScript
    rw [List.append_assoc, List.append_assoc]
  have hdrop : (scriptHead ++ (encodeReadThreads ids ++ (scriptTail ++ rest))).dropPrefix?
      scriptHead = some (encodeReadThreads ids ++ (scriptTail ++ rest)) := dropPrefix?_append _ _
  have harray : Units.stringArray (encodeReadThreads ids ++ (scriptTail ++ rest)) =
      some (ids, scriptTail ++ rest) := by
    rw [encodeReadThreads_eq]
    exact Units.stringArray_quotedArray (bodies_read ids) _
  have htail : scriptTail.isPrefixOf (scriptTail ++ rest) = true :=
    List.isPrefixOf_iff_prefix.mpr (List.prefix_append _ _)
  unfold readSet
  rw [hrest, hdrop]
  dsimp only
  rw [harray]
  dsimp only
  rw [if_pos htail]

/-- The shim of any permissions is the one of their read-only threads. -/
theorem shimForPerms_eq (perms : Option (List ThreadPerm)) :
    shimForPerms perms = buildShimHtml CHROME_SELECTORS (readIds (perms.getD [])) := by
  cases perms with
  | none => rfl
  | some perms =>
    unfold shimForPerms
    dsimp only [Option.getD_some]
    split_ifs with h h'
    · rw [List.isEmpty_iff.mp h]
      rfl
    · rw [List.isEmpty_iff.mp h']
      rfl
    · rfl

theorem mem_readIds {perms : List ThreadPerm} {id : Units} :
    id ∈ readIds perms ↔ ∃ p ∈ perms, p.mode = .read ∧ p.threadId = id := by
  unfold readIds
  simp only [List.mem_map, List.mem_filter, decide_eq_true_eq, and_assoc]

theorem perms_computeAuthz (token : Token) (path : Text) (method : Method) :
    (computeAuthz (some token) path method).perms = token.perms := by
  unfold computeAuthz
  dsimp only
  by_cases h : upper method.name ∉ supportedMethods
  · rw [if_pos h]
    rfl
  · rw [if_neg h]
    cases classifyPath path <;> rfl

theorem ofText_injective : Function.Injective Units.ofText := by
  intro s t h
  rw [← Units.text_ofText s, h, Units.text_ofText]

/-- The read-only threads of a session, by the shares of its token. -/
theorem mem_readIds_threadPerms {token : Token} {path : Text} {method : Method} {id : Text} :
    Units.ofText id ∈ readIds (computeAuthz (some token) path method).threadPerms ↔
      ∃ s ∈ token.shares, s.perm = .read ∧ s.threadId = id := by
  unfold AuthzResult.threadPerms
  rw [mem_readIds, perms_computeAuthz]
  unfold Token.perms
  simp only [List.mem_map]
  constructor
  · rintro ⟨_, ⟨_, ⟨s, hs, rfl⟩, rfl⟩, hread, hid⟩
    exact ⟨s, hs, hread, ofText_injective hid⟩
  · rintro ⟨s, hs, hread, rfl⟩
    exact ⟨_, ⟨_, ⟨s, hs, rfl⟩, rfl⟩, hread, rfl⟩

/-- **Thread ids stay in the script.** What the script holds of the ids has no `<` and parses to
them, and its set is the set of the threads that the guest may only read. -/
theorem read_threads_embedded :
    (∀ ids : List Units, '<' ∉ encodeReadThreads ids ∧
      Units.parseStrings (encodeReadThreads ids) = some ids ∧
      Json.parse (encodeReadThreads ids) = some (.arr (ids.map Units.json))) ∧
    (∀ ids : List Text,
      Json.parse (encodeReadThreads (ids.map Units.ofText)) = some (.arr (ids.map .str))) ∧
    (∀ perms : Option (List ThreadPerm), ∃ ids, readSet (shimForPerms perms) = some ids ∧
      ∀ id, id ∈ ids ↔ ∃ p ∈ perms.getD [], p.mode = .read ∧ p.threadId = id) ∧
    ∀ (token : Token) (path : Text) (method : Method), ∃ ids,
      readSet (shimForPerms (some (computeAuthz (some token) path method).threadPerms)) = some ids ∧
      ∀ id : Text, Units.ofText id ∈ ids ↔
        ∃ s ∈ token.shares, s.perm = .read ∧ s.threadId = id := by
  refine ⟨fun ids => ?_, fun ids => ?_, fun perms => ?_, fun token path method => ?_⟩
  · have hparse := parseStrings_encodeReadThreads ids
    exact ⟨lt_not_mem_escapeLt _, hparse, Units.parse_of_parseStrings hparse⟩
  · have hparse := Units.parse_of_parseStrings
      (parseStrings_encodeReadThreads (ids.map Units.ofText))
    rw [hparse, List.map_map]
    refine congrArg some (congrArg Json.arr (List.map_congr_left fun id _ => ?_))
    exact congrArg Json.str (Units.text_ofText id)
  · refine ⟨readIds (perms.getD []), ?_, fun id => mem_readIds⟩
    rw [shimForPerms_eq]
    exact readSet_buildShimHtml _ _
  · refine ⟨readIds (computeAuthz (some token) path method).threadPerms, ?_,
      fun id => mem_readIds_threadPerms⟩
    rw [shimForPerms_eq]
    exact readSet_buildShimHtml _ _

/-! ## Pages -/

/-- The class `\w`. -/
def isWordChar (c : Char) : Bool := c.isAlphanum || c == '_'

/-- An opening tag that a text starts with, and what follows it. -/
def openTag (name html : Text) : Option (Text × Text) :=
  let opening := html.take (name.length + 1)
  let rest := html.drop (name.length + 1)
  if lower opening ≠ '<' :: name ∨ (rest.head?).any isWordChar then none
  else match rest.dropWhile (· != '>') with
    | [] => none
    | c :: after => some (opening ++ rest.takeWhile (· != '>') ++ [c], after)

/-- A text up to the end of its first opening tag of this name, and from there on. -/
def splitAtTag (name : Text) : Text → Option (Text × Text)
  | [] => none
  | c :: html =>
    match openTag name (c :: html) with
    | some split => some split
    | none => (splitAtTag name html).map fun split => (c :: split.1, split.2)

def insertShimIntoHtml (html shim : Text) : Text :=
  match splitAtTag "head".toList html with
  | some (before, after) => before ++ '\n' :: shim ++ after
  | none =>
    match splitAtTag "html".toList html with
    | some (before, after) => before ++ "\n<head>".toList ++ shim ++ "</head>".toList ++ after
    | none => shim ++ '\n' :: html

theorem openTag_append {name html before after : Text}
    (h : openTag name html = some (before, after)) : before ++ after = html := by
  unfold openTag at h
  simp only at h
  split_ifs at h
  cases hrest : (html.drop (name.length + 1)).dropWhile (· != '>') with
  | nil => rw [hrest] at h; cases h
  | cons c tail =>
    rw [hrest] at h
    obtain ⟨rfl, rfl⟩ := Prod.mk.inj (Option.some.inj h)
    have hsplit :=
      List.takeWhile_append_dropWhile (p := (· != '>')) (l := html.drop (name.length + 1))
    rw [hrest] at hsplit
    rw [List.append_assoc, List.append_assoc, List.singleton_append, hsplit, List.take_append_drop]

theorem splitAtTag_append {name html before after : Text}
    (h : splitAtTag name html = some (before, after)) : before ++ after = html := by
  induction html generalizing before with
  | nil => cases h
  | cons c html ih =>
    unfold splitAtTag at h
    cases htag : openTag name (c :: html) with
    | some split =>
      rw [htag] at h
      obtain rfl := Option.some.inj h
      exact openTag_append htag
    | none =>
      rw [htag] at h
      obtain ⟨split, hsplit, heq⟩ := Option.map_eq_some_iff.mp h
      obtain ⟨rfl, rfl⟩ := Prod.mk.inj heq
      exact congrArg (c :: ·) (ih hsplit)

/-- **Insertion.** A page takes in its shim, and loses nothing. -/
theorem insertShimIntoHtml_eq (html shim : Text) :
    ∃ before after front back, before ++ after = html ∧
      insertShimIntoHtml html shim = before ++ front ++ shim ++ back ++ after := by
  unfold insertShimIntoHtml
  cases hhead : splitAtTag "head".toList html with
  | some split =>
    exact ⟨split.1, split.2, ['\n'], [], splitAtTag_append hhead, by simp⟩
  | none =>
    cases hhtml : splitAtTag "html".toList html with
    | some split =>
      exact ⟨split.1, split.2, "\n<head>".toList, "</head>".toList, splitAtTag_append hhtml, by simp⟩
    | none => exact ⟨[], html, [], ['\n'], rfl, by simp⟩

end BbShared
