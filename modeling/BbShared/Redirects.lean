import BbShared.Gateway
import BbShared.Js.Reference

/-!
# Redirects

The two `location` headers that the gateway sends: of a redeemed invitation, and of a response of
BB.  Both are written from a parsed pathname, which starts with two slashes where the path escapes
its root: `redirects_iff`.
-/

namespace BbShared

open Js

/-- The `location` sent for one of BB's; `none` where the answer is another or there is none. -/
def upstreamLocation (authority : Text → Text → Option Text) (base : BaseUrl) (location : Text) :
    Option Text :=
  if location = [] then none else
    (resolveReference authority base location).bind fun target =>
      if target.origin ≠ base.origin then none
      else some (target.pathname ++ target.search ++ target.hash)

/-! ## Purpose -/

/-- A location that starts with exactly one slash, and leaves a browser on the origin it is at. -/
structure StaysOn (location : Text) : Prop where
  pathAbsolute : PathAbsolute location
  resolves : ∀ (authority : Text → Text → Option Text) (page : BaseUrl),
    ∃ t, resolveReference authority page location = some t ∧ t.origin = page.origin

/-- The location of a redemption: no bearer, and the other parameters. -/
structure Redeemed (raw location : Text) : Prop where
  staysOn : StaysOn location
  bearer : (Url.ofTarget location).hasParam "token".toList = false
  params : (Url.ofTarget location).searchParams =
    (Url.ofTarget raw).searchParams.filter fun p => p.1 ≠ "token".toList

/-- A location whose path does not escape its root, and that holds no URL of another scheme. -/
def Tame (base : BaseUrl) (location : Text) : Prop :=
  match splitReference base ((strip location).takeWhile (· != '#')) with
  | .onBase segments _ => ¬ Escapes segments
  | .network _ _ segments _ => ¬ Escapes segments
  | .other _ _ => False

/-! ## Locations -/

theorem staysOn_iff {segments : List Text} (h : CleanSegments segments) {rest : Text}
    (hrest : (rest.head?).any isSlash = false) (hchars : ∀ c ∈ rest, 0x20 < c.toNat) :
    StaysOn (pathOf segments ++ rest) ↔ ¬ Escapes segments := by
  rw [← h.pathAbsolute_iff hrest]
  refine ⟨StaysOn.pathAbsolute, fun habs => ⟨habs, origin_of_pathAbsolute habs ?_⟩⟩
  intro c hc
  rcases List.mem_append.mp hc with hc | hc
  · exact visible_of_pathChar (h.pathChar c hc)
  · exact hchars c hc

/-- A query and a fragment do not start with a slash, and have no white space. -/
theorem marked_rest {query : Option Text} (hq : ∀ q ∈ query, ∀ c ∈ q, queryChar c = true)
    (s : Text) :
    ((marked '?' (query.getD []) ++ hashOf s).head?).any isSlash = false ∧
      ∀ c ∈ marked '?' (query.getD []) ++ hashOf s, 0x20 < c.toNat := by
  have hhash : ((hashOf s).head?).any isSlash = false := by
    unfold hashOf
    cases percentEncode fragmentSet (s.dropWhile (· != '#')).tail <;> rfl
  rcases query with _ | _ | ⟨c, q⟩
  · exact ⟨hhash, visible_hashOf s⟩
  · exact ⟨hhash, visible_hashOf s⟩
  · refine ⟨rfl, fun d hd => ?_⟩
    rcases List.mem_append.mp hd with hd | hd
    · rcases List.mem_cons.mp hd with rfl | hd
      · decide
      · exact visible_of_queryChar (hq _ rfl d hd)
    · exact visible_hashOf s d hd

theorem head_strip_slash (s : Text) : (strip ('/' :: s)).head? = some '/' := by
  have hfront : ('/' :: s).dropWhile isPadding = '/' :: s := rfl
  have hne : ('/' :: s).rdropWhile isPadding ≠ [] := by
    intro hnil
    exact absurd (List.rdropWhile_eq_nil_iff.mp hnil '/' List.mem_cons_self) (by decide)
  obtain ⟨tail, htail⟩ := List.rdropWhile_prefix isPadding (l := '/' :: s)
  unfold strip
  rw [hfront]
  rcases hback : ('/' :: s).rdropWhile isPadding with _ | ⟨c, l⟩
  · exact absurd hback hne
  · rw [hback, List.cons_append] at htail
    obtain rfl := (List.cons.inj htail).1
    rfl

/-- The path of a `blob:` URL with an origin starts with the scheme of another URL. -/
theorem not_staysOn_blob {authority : Text → Text → Option Text} {pathname : Text} {origin : Text}
    (h : blobOrigin authority pathname = some origin) (rest : Text) :
    ¬ StaysOn (pathname ++ rest) := by
  rintro ⟨⟨r, hr, -⟩, -⟩
  unfold blobOrigin scheme? at h
  rcases pathname with _ | ⟨c, p⟩
  · cases h
  · obtain rfl := (List.cons.inj hr).1
    rw [head_strip_slash] at h
    cases h

/-- **Responses of BB.** -/
theorem upstreamLocation_staysOn {authority : Text → Text → Option Text} {base : BaseUrl}
    {location sent : Text} (h : upstreamLocation authority base location = some sent) :
    StaysOn sent ↔ Tame base location := by
  have hclean := clean_splitReference base ((strip location).takeWhile (· != '#'))
  unfold upstreamLocation at h
  split_ifs at h
  obtain ⟨t, ht, hsent⟩ := Option.bind_eq_some_iff.mp h
  split_ifs at hsent
  obtain rfl := Option.some.inj hsent
  unfold resolveReference at ht
  unfold Tame
  simp only at ht
  cases hr : splitReference base ((strip location).takeWhile (· != '#')) with
  | onBase segments query =>
    rw [hr] at ht hclean
    obtain rfl := Option.some.inj ht
    obtain ⟨hhead, hchars⟩ := marked_rest hclean.2 (strip location)
    rw [List.append_assoc]
    exact staysOn_iff hclean.1 hhead hchars
  | network scheme a segments query =>
    rw [hr] at ht hclean
    obtain ⟨origin, -, rfl⟩ := Option.map_eq_some_iff.mp ht
    obtain ⟨hhead, hchars⟩ := marked_rest hclean.2 (strip location)
    rw [List.append_assoc]
    exact staysOn_iff hclean.1 hhead hchars
  | other scheme rest =>
    rw [hr] at ht
    simp only at ht
    split_ifs at ht
    obtain ⟨origin, hblob, rfl⟩ := Option.map_eq_some_iff.mp ht
    refine iff_of_false ?_ id
    rw [List.append_assoc]
    exact not_staysOn_blob hblob _

/-! ## Redemptions -/

theorem search_eq (u : Url) : u.search = marked '?' (u.query.getD []) := by
  unfold Url.search
  rcases u.query with _ | _ | ⟨c, q⟩ <;> rfl

theorem not_mark_of_mem_pathname (u : Url) {c : Char} (hc : c ∈ u.pathname) : c ≠ '#' ∧ c ≠ '?' := by
  have hclean := u.path_clean c hc
  constructor
  · rintro rfl
    exact absurd hclean (by decide)
  · rintro rfl
    exact absurd hclean (by decide)

/-- A printed URL has no fragment. -/
theorem takeWhile_printed (u : Url) :
    (u.pathname ++ u.search).takeWhile (· != '#') = u.pathname ++ u.search := by
  rw [List.takeWhile_eq_self_iff]
  intro c hc
  rcases List.mem_append.mp hc with hc | hc
  · simpa using (not_mark_of_mem_pathname u hc).1
  · rw [search_eq] at hc
    rcases hq : u.query with _ | _ | ⟨d, q⟩ <;> rw [hq] at hc
    · cases hc
    · cases hc
    · rcases List.mem_cons.mp hc with rfl | hc
      · decide
      · have hclean := u.query_clean _ hq c hc
        have hne : c ≠ '#' := by
          rintro rfl
          exact absurd hclean (by decide)
        simpa using hne

/-- The pathname of a URL that is printed and parsed again. -/
theorem pathname_reprint (u : Url) :
    (Url.ofTarget (u.pathname ++ u.search)).pathname = parsePath u.pathname := by
  have hcut : (u.pathname ++ u.search).takeWhile (· != '?') = u.pathname := by
    rw [List.takeWhile_append_of_pos fun c hc => by simpa using (not_mark_of_mem_pathname u hc).2,
      search_eq]
    rcases u.query with _ | _ | ⟨d, q⟩ <;> exact List.append_nil _
  unfold Url.ofTarget
  simp only [takeWhile_printed, hcut]

/-- A URL that is printed and parsed again has its parameters. -/
theorem searchParams_reprint (u : Url) :
    (Url.ofTarget (u.pathname ++ u.search)).searchParams = u.searchParams := by
  have hquery : (Url.ofTarget (u.pathname ++ u.search)).query.getD [] = u.query.getD [] := by
    unfold Url.ofTarget Url.parseQuery
    simp only [takeWhile_printed]
    have hmark : '?' ∉ u.pathname := fun hmem => (not_mark_of_mem_pathname u hmem).2 rfl
    have hdrop : ∀ l : Text, (u.pathname ++ l).dropWhile (· != '?') = l.dropWhile (· != '?') :=
      fun l => List.dropWhile_append_of_pos fun c hc => by
        simpa using (not_mark_of_mem_pathname u hc).2
    rw [hdrop, search_eq]
    rcases hq : u.query with _ | _ | ⟨d, q⟩
    · simp [marked, hmark]
    · simp [marked, hmark]
    · have hclean : percentEncode specialQuerySet (d :: q) = d :: q := by
        refine percentEncode_eq_self fun c hc => ?_
        have := u.query_clean _ hq c hc
        unfold queryChar at this
        simpa using this
      have hmem : '?' ∈ u.pathname ++ marked '?' ((some (d :: q)).getD []) := by simp [marked]
      rw [if_pos hmem]
      exact hclean
  unfold Url.searchParams
  rw [hquery]

section Redirect

variable {hmac : Hmac} {g : Gateway} {now : ℕ} {random : Bytes} {persisted : Bool} {req : Request}
  {location cookie : Text} {next : Sessions}

theorem forward_ne_redirect (url : Url) (filter : Option Reshape) (token : Token)
    (body : Option Text) : forward g req url filter token body ≠ .redirect location cookie next := by
  unfold forward
  cases fetchMethod req.method body <;> exact nofun

theorem forwardMessage_ne_redirect (url : Url) (filter : Option Reshape) (token : Token) :
    forwardMessage g req url filter token ≠ .redirect location cookie next := by
  intro h
  unfold forwardMessage at h
  split at h
  · cases h
  · cases h
  · split at h
    · cases h
    · split at h
      · cases h
      · split at h
        · cases h
        · exact forward_ne_redirect _ _ _ _ h

theorem admit_ne_redirect (url : Url) (token : Token) :
    admitRequest g req url token ≠ .redirect location cookie next := by
  have hsend : ∀ filter, admitRequest.send g req url token filter ≠
      .redirect location cookie next := by
    intro filter
    unfold admitRequest.send
    split_ifs
    · exact forward_ne_redirect _ _ _ _
    · exact forwardMessage_ne_redirect _ _ _
  have hrefusal : ∀ refusal, (if req.method.isGetOrHead = true then none else writeRefusal req) =
      some refusal → refusal ≠ .redirect location cookie next := by
    rintro refusal h rfl
    split_ifs at h
    unfold writeRefusal at h
    simp only at h
    split_ifs at h <;> cases h
  intro h
  unfold admitRequest at h
  split at h
  · rename_i refusal hw
    exact hrefusal _ hw h
  · split_ifs at h
    · cases h
    · split at h
      · cases h
      · exact hsend _ h
      · exact hsend _ h

theorem redeemRequest_redirect {url : Url}
    (h : redeemRequest hmac g now random persisted req url = .redirect location cookie next) :
    location = url.pathname ++ (url.deleteParam "token".toList).search := by
  unfold redeemRequest at h
  by_cases hget : req.method.name ≠ "GET".toList
  · rw [if_pos hget] at h
    cases h
  rw [if_neg hget] at h
  split at h
  · rename_i raw _
    by_cases hb : (!isBearer raw) = true
    · rw [if_pos hb] at h
      cases h
    rw [if_neg hb] at h
    simp only at h
    split at h
    · cases h
    · cases h
    · by_cases hp : (!persisted) = true
      · rw [if_pos hp] at h
        cases h
      rw [if_neg hp] at h
      exact (Handled.redirect.inj h).1.symm
  · cases h

/-- A redirect answers the redemption of an invitation. -/
theorem handle_redirect
    (h : handle hmac g now random persisted req = .redirect location cookie next) :
    location = (Url.ofTarget req.target).pathname ++
      ((Url.ofTarget req.target).deleteParam "token".toList).search := by
  unfold handle at h
  cases hu : requestUrl req.target with
  | none =>
    rw [hu] at h
    cases h
  | some url =>
    have hurl : url = Url.ofTarget req.target := by
      unfold requestUrl at hu
      split_ifs at hu
      exact (Option.some.inj hu).symm
    rw [hu] at h
    simp only at h
    by_cases hready : url.pathname = readyPath ∧ req.method.name = "GET".toList
    · rw [if_pos hready] at h
      split_ifs at h
      cases h
    rw [if_neg hready] at h
    by_cases htoken : url.hasParam "token".toList = true
    · rw [if_pos htoken] at h
      exact hurl ▸ redeemRequest_redirect h
    · rw [if_neg htoken] at h
      split at h
      · cases h
      · exact absurd h (admit_ne_redirect _ _)

/-- **Redemptions.** -/
theorem redeemed_iff
    (h : handle hmac g now random persisted req = .redirect location cookie next) :
    Redeemed req.target location ↔ ¬ Escapes (targetSegments req.target) := by
  set u := (Url.ofTarget req.target).deleteParam "token".toList with hu
  obtain rfl : location = u.pathname ++ u.search := handle_redirect h
  have hparams : (Url.ofTarget (u.pathname ++ u.search)).searchParams =
      (Url.ofTarget req.target).searchParams.filter fun p => p.1 ≠ "token".toList := by
    rw [searchParams_reprint, hu, Url.searchParams_deleteParam]
  have hbearer : (Url.ofTarget (u.pathname ++ u.search)).hasParam "token".toList = false := by
    unfold Url.hasParam
    rw [hparams, List.any_filter]
    simp
  obtain ⟨hhead, hchars⟩ := marked_rest u.query_clean []
  have hstays : StaysOn (u.pathname ++ u.search) ↔ ¬ Escapes (targetSegments req.target) := by
    rw [search_eq]
    have hrest : marked '?' (u.query.getD []) ++ hashOf [] = marked '?' (u.query.getD []) :=
      List.append_nil _
    rw [hrest] at hhead hchars
    exact staysOn_iff (cleanSegments_pathSegments _) hhead hchars
  exact ⟨fun hr => hstays.mp hr.staysOn, fun hn => ⟨hstays.mpr hn, hbearer, hparams⟩⟩

end Redirect

/-! ## Both -/

/-- **Redirects.** The location of a redemption is as it should be exactly when the path of the
target does not escape, and that of a response exactly when BB's location is tame. -/
theorem redirects_iff (hmac : Hmac) (g : Gateway) (authority : Text → Text → Option Text)
    (base : BaseUrl) :
    (∀ now random persisted req location cookie next,
      handle hmac g now random persisted req = .redirect location cookie next →
        (Redeemed req.target location ↔ ¬ Escapes (targetSegments req.target))) ∧
      ∀ location sent, upstreamLocation authority base location = some sent →
        (StaysOn sent ↔ Tame base location) :=
  ⟨fun _ _ _ _ _ _ _ h => redeemed_iff h, fun _ _ h => upstreamLocation_staysOn h⟩

def guestBearer : Text := rawTokenPrefix ++ List.replicate 43 'A'

/-- A gateway with one invitation. -/
def guestGateway : Gateway :=
  ⟨"http://127.0.0.1:38886".toList, OrderedMap.empty,
    (InMemoryStore.new []).put { writerToken ['a'] ['p'] with hash := guestBearer }⟩

def invitationTarget (pathname : Text) : Text := pathname ++ "?token=".toList ++ guestBearer

/-- The redemption of the invitation at a pathname. -/
def redemptionAt (pathname : Text) : Handled :=
  handle .plain guestGateway 0 [] true ⟨.get, invitationTarget pathname, [], [], true⟩

def Handled.location? : Handled → Option Text
  | .redirect location _ _ => some location
  | _ => none

theorem Handled.location?_eq_some {o : Handled} {location : Text}
    (h : o.location? = some location) : ∃ cookie next, o = .redirect location cookie next := by
  cases o with
  | redirect location' cookie next =>
    obtain rfl := Option.some.inj h
    exact ⟨cookie, next, rfl⟩
  | _ => cases h

def loopbackBase : BaseUrl := .ofOrigin "http".toList "http://127.0.0.1:38886".toList

theorem not_escapes_project : ¬ Escapes ["projects".toList, "p".toList] := by
  rw [← escapes_iff]
  rintro ⟨seg, segs, h⟩
  exact absurd (List.cons.inj h).1 (by decide)

/-- The link of a project, and a redirect of BB to it. -/
theorem redirects_iff_project :
    (∃ location, (redemptionAt "/projects/p".toList).location? = some location ∧
      Redeemed (invitationTarget "/projects/p".toList) location) ∧
      StaysOn "/projects/p".toList := by
  have hmain := redirects_iff .plain guestGateway (fun _ _ => none) loopbackBase
  constructor
  · have hloc : (redemptionAt "/projects/p".toList).location? = some "/projects/p".toList := by
      decide +kernel
    obtain ⟨cookie, next, hredirect⟩ := Handled.location?_eq_some hloc
    refine ⟨_, hloc, (hmain.1 _ _ _ _ _ _ _ hredirect).mpr ?_⟩
    have hsegs : targetSegments (invitationTarget "/projects/p".toList) =
        ["projects".toList, "p".toList] := by decide +kernel
    exact hsegs ▸ not_escapes_project
  · refine (hmain.2 "/projects/p".toList _ (by decide +kernel)).mpr ?_
    have hsplit : splitReference loopbackBase
        ((strip "/projects/p".toList).takeWhile (· != '#')) =
        .onBase ["projects".toList, "p".toList] none := by rfl
    unfold Tame
    rw [hsplit]
    exact not_escapes_project

/-- The link of an invitation to another site, and a redirect of BB to one. -/
theorem not_staysOn_other :
    (redemptionAt "/.//other.example".toList).location? = some "//other.example".toList ∧
      upstreamLocation (fun _ _ => none) loopbackBase "/.//other.example".toList =
        some "//other.example".toList ∧
      ¬ StaysOn "//other.example".toList := by
  refine ⟨by decide +kernel, by decide +kernel, ?_⟩
  rintro ⟨⟨r, hr, hhead⟩, -⟩
  obtain rfl := (List.cons.inj hr).2
  exact Bool.noConfusion hhead

end BbShared
