import BbShared.Responses

/-!
# What a guest's sidebar keeps

The threads that a guest is granted stay in the sidebar, and it is a fixed point of its filter.  The
sections are found from the threads of the listed projects alone, so those of a shared personal
thread stay only where a listed project's thread is in them as well.
-/

namespace BbShared

open Js

namespace Responses

open Json

/-! ## Purpose -/

/-- Equality but for the order of the names. -/
inductive SameJson : Json → Json → Prop
  | refl (j : Json) : SameJson j j
  | arr {l l' : List Json} (length : l.length = l'.length)
      (elems : ∀ (i : ℕ) (x y : Json), l[i]? = some x → l'[i]? = some y → SameJson x y) :
      SameJson (.arr l) (.arr l')
  | obj {l l' : List (Text × Json)}
      (names : ∀ k, (member k (.obj l)).isSome = (member k (.obj l')).isSome)
      (values : ∀ k x y, member k (.obj l) = some x → member k (.obj l') = some y → SameJson x y) :
      SameJson (.obj l) (.obj l')

/-- A project as a guest reads it: its id and its threads. -/
def view (project : Json) : Option Text × List Json :=
  (textAt ID project, elements (project.member THREADS))

/-- The projects of the list that a guest is granted. -/
def grantedProjects (scope : GuestScope) (u : Json) : List Json :=
  (elements (u.member PROJECTS)).filter (idIn scope.projectIds)

/-- The project with the threads that a guest is granted. -/
def granted (scope : GuestScope) (project : Json) : Option Text × List Json :=
  (textAt ID project, (elements (project.member THREADS)).filter (idIn scope.threadIds))

/-- The granted threads of the granted projects, each in its place. -/
structure KeepsThreads (scope : GuestScope) (u out : Json) : Prop where
  projects : (elements (out.member PROJECTS)).map view =
    (grantedProjects scope u).map (granted scope)
  personal : ∀ p, u.member PERSONAL_PROJECT = some p → idIn scope.projectIds p = true →
    ∃ q, out.member PERSONAL_PROJECT = some q ∧ view q = granted scope p

/-- All threads of a sidebar. -/
def sidebarThreads (out : Json) : List Json :=
  (elements (out.member PROJECTS) ++ (out.member PERSONAL_PROJECT).toList).flatMap fun p =>
    (view p).2

/-- Every section that a thread of `out` is in. -/
def KeepsSections (u out : Json) : Prop :=
  ∀ s ∈ elements (u.member SECTIONS), ∀ t ∈ sidebarThreads out, ∀ id,
    textAt ID s = some id → textAt SECTION_ID t = some id → s ∈ elements (out.member SECTIONS)

/-- What the filter of the sidebar is for. -/
structure Complete (scope : GuestScope) (u : Json) : Prop where
  threads : KeepsThreads scope u (filterSidebarBootstrap u scope)
  sections : KeepsSections u (filterSidebarBootstrap u scope)
  stable : SameJson (filterSidebarBootstrap (filterSidebarBootstrap u scope) scope)
    (filterSidebarBootstrap u scope)

/-- The sections of the personal project's granted threads are those of listed ones as well. -/
def PersonalSectionsListed (scope : GuestScope) (u : Json) : Prop :=
  ∀ p, u.member PERSONAL_PROJECT = some p → idIn scope.projectIds p = true →
    ∀ s ∈ elements (u.member SECTIONS), ∀ id, textAt ID s = some id →
      id ∈ sectionIds (granted scope p).2 →
        ∃ q ∈ grantedProjects scope u, id ∈ sectionIds (granted scope q).2

/-! ## Shown projects -/

/-- A project as the filters write it. -/
def shown (p : Json) (threads : List Json) (sections : Option (List Json)) : Json :=
  .obj (projectMetadata p ++ [(THREADS, .arr threads)] ++
    (sections.map fun l => (SECTIONS, Json.arr l)).toList)

variable {scope : GuestScope} {u p : Json} {threads : List Json} {sections : Option (List Json)}

theorem member_pick {keys : List Text} (u : Json) (k : Text) :
    member k (.obj (pick keys u)) = if k ∈ keys then u.member k else none := by
  induction keys with
  | nil => rfl
  | cons key keys ih =>
    have hcons : pick (key :: keys) u = ((u.member key).map (key, ·)).toList ++ pick keys u := by
      unfold pick
      rw [List.filterMap_cons]
      cases u.member key <;> rfl
    have hhead : member k (.obj ((u.member key).map (key, ·)).toList) =
        if k = key then u.member k else none := by
      cases hm : u.member key with
      | none =>
        split_ifs with hk
        · rw [hk, hm]
          rfl
        · rfl
      | some v =>
        have hone : member k (.obj ([] ++ [(key, v)])) = _ := member_concat k [] (key, v)
        refine hone.trans ?_
        by_cases hk : k = key
        · rw [if_pos hk.symm, if_pos hk, hk, hm]
        · rw [if_neg fun h => hk h.symm, if_neg hk]
          rfl
    rw [hcons, member_append, ih, hhead]
    by_cases hk : k = key
    · have hmem : k ∈ key :: keys := hk ▸ List.mem_cons_self
      rw [if_pos hk, if_pos hmem]
      split_ifs
      · exact Option.or_self
      · exact Option.none_or
    · rw [if_neg hk, Option.or_none]
      simp only [List.mem_cons, hk, false_or]

theorem member_threads_shown : (shown p threads sections).member THREADS = some (.arr threads) := by
  unfold shown
  rw [member_append, member_append]
  cases sections with
  | none => rfl
  | some l => rfl

theorem member_sections_shown :
    (shown p threads sections).member SECTIONS = sections.map Json.arr := by
  have hpick : member SECTIONS (.obj (pick metadataKeys p)) = none := by
    rw [member_pick, if_neg (by decide)]
  unfold shown projectMetadata
  rw [member_append, member_append, member_append, hpick]
  cases sections with
  | none => rfl
  | some l => rfl

theorem member_metadata_shown {n : Text} (hn : n ∈ metadataKeys) :
    (shown p threads sections).member n = p.member n := by
  have hpick : member n (.obj (pick metadataKeys p)) = p.member n := by
    rw [member_pick, if_pos hn]
  have hfixed : member n (.obj [(SOURCES, .arr []), (DEFAULT_EXECUTION_OPTIONS, .null)]) = none ∧
      member n (.obj [(THREADS, .arr threads)]) = none ∧
      member n (.obj (sections.map fun l => (SECTIONS, Json.arr l)).toList) = none := by
    simp only [metadataKeys, List.map_cons, List.map_nil, List.mem_cons, List.not_mem_nil,
      or_false] at hn
    rcases hn with rfl | rfl | rfl | rfl | rfl | rfl <;> cases sections <;> exact ⟨rfl, rfl, rfl⟩
  unfold shown projectMetadata
  rw [member_append, member_append, member_append, hpick, hfixed.1, hfixed.2.1, hfixed.2.2]
  simp

theorem metadata_shown : projectMetadata (shown p threads sections) = projectMetadata p := by
  unfold projectMetadata
  rw [pick_congr fun n hn => member_metadata_shown hn]

theorem textAt_shown : textAt ID (shown p threads sections) = textAt ID p := by
  unfold textAt
  rw [member_metadata_shown (by decide)]

theorem idIn_shown (hp : isRecord p = true) (ids : List Text) :
    idIn ids (shown p threads sections) = idIn ids p := by
  unfold idIn
  rw [textAt_shown, hp]
  rfl

theorem view_shown : view (shown p threads sections) = (textAt ID p, threads) := by
  unfold view
  rw [textAt_shown, member_threads_shown]
  rfl

theorem scopedThreads_shown :
    scopedThreads ((shown p threads sections).member THREADS) scope =
      threads.filter (idIn scope.threadIds) := by
  rw [member_threads_shown]
  rfl

/-! ## Filters write shown projects -/

theorem isRecord_of_idIn {ids : List Text} (h : idIn ids p = true) : isRecord p = true := by
  unfold idIn at h
  rw [Bool.and_eq_true] at h
  exact h.1

theorem scopedThreads_eq : scopedThreads (p.member THREADS) scope = (granted scope p).2 := rfl

theorem sidebarProject_eq : sidebarProject scope p = shown p (granted scope p).2 none := by
  unfold sidebarProject shown
  rw [scopedThreads_eq]
  simp

theorem filterProjectDetail_eq_shown (h : idIn scope.projectIds p = true) :
    filterProjectDetail p scope = shown p (granted scope p).2 (shownSections scope p) := by
  have hin : (textAt ID p).any (· ∉ scope.projectIds) = false := by
    unfold idIn at h
    rw [Bool.and_eq_true] at h
    cases hid : textAt ID p with
    | none => rfl
    | some id =>
      rw [hid] at h
      simpa using h.2
  rw [filterProjectDetail_eq (isRecord_of_idIn h), hin]
  rfl

theorem filter_granted (p : Json) :
    (granted scope p).2.filter (idIn scope.threadIds) = (granted scope p).2 := by
  unfold granted
  rw [List.filter_filter]
  simp

theorem sidebarProject_shown (sections : Option (List Json)) :
    sidebarProject scope (shown p (granted scope p).2 sections) = sidebarProject scope p := by
  unfold sidebarProject
  rw [metadata_shown, scopedThreads_shown, filter_granted, scopedThreads_eq]

theorem shownSections_shown (sections : Option (List Json)) :
    shownSections scope (shown p (granted scope p).2 sections) =
      sections.map (·.filter (idIn (sectionIds (granted scope p).2))) := by
  unfold shownSections
  rw [scopedThreads_shown, filter_granted, member_sections_shown]
  cases sections <;> rfl

theorem filterProjectDetail_stable (h : idIn scope.projectIds p = true) :
    filterProjectDetail (filterProjectDetail p scope) scope = filterProjectDetail p scope := by
  have hin : idIn scope.projectIds (shown p (granted scope p).2 (shownSections scope p)) = true :=
    (idIn_shown (isRecord_of_idIn h) _).trans h
  have hthreads : (granted scope (shown p (granted scope p).2 (shownSections scope p))).2 =
      (granted scope p).2 := scopedThreads_shown.trans (filter_granted p)
  have hsections : shownSections scope (shown p (granted scope p).2 (shownSections scope p)) =
      shownSections scope p := by
    rw [shownSections_shown]
    unfold shownSections
    rw [Option.map_map, scopedThreads_eq]
    congr 1
    funext l
    simp
  rw [filterProjectDetail_eq_shown h, filterProjectDetail_eq_shown hin, hthreads, hsections]
  unfold shown
  rw [show projectMetadata (.obj _) = projectMetadata p from metadata_shown]

/-! ## The sidebar -/

section Members

variable (u : Json) (scope : GuestScope)

theorem member_projects : (filterSidebarBootstrap u scope).member PROJECTS =
    some (.arr (sidebarProjects u scope)) := by
  rw [filterSidebarBootstrap_eq]
  rfl

theorem member_personal : (filterSidebarBootstrap u scope).member PERSONAL_PROJECT =
    some (sidebarPersonal u scope) := by
  rw [filterSidebarBootstrap_eq]
  rfl

theorem member_sections : (filterSidebarBootstrap u scope).member SECTIONS =
    some (.arr (sidebarSections u scope)) := by
  rw [filterSidebarBootstrap_eq]
  rfl

theorem sidebarProjects_eq : sidebarProjects u scope =
    (grantedProjects scope u).map fun p => shown p (granted scope p).2 none :=
  List.map_congr_left fun _ _ => sidebarProject_eq

theorem view_sidebarProjects : (sidebarProjects u scope).map view =
    (grantedProjects scope u).map (granted scope) := by
  rw [sidebarProjects_eq, List.map_map]
  exact List.map_congr_left fun _ _ => view_shown

/-- The ids of sections that the listed projects' granted threads are in. -/
theorem mem_allowedSectionIds {id : Text} : id ∈ allowedSectionIds (sidebarProjects u scope) ↔
    ∃ q ∈ grantedProjects scope u, id ∈ sectionIds (granted scope q).2 := by
  unfold allowedSectionIds
  rw [List.mem_flatMap, sidebarProjects_eq]
  constructor
  · rintro ⟨_, hmem, hid⟩
    obtain ⟨q, hq, rfl⟩ := List.mem_map.mp hmem
    rw [member_threads_shown] at hid
    exact ⟨q, hq, hid⟩
  · rintro ⟨q, hq, hid⟩
    refine ⟨_, List.mem_map_of_mem hq, ?_⟩
    rw [member_threads_shown]
    exact hid

theorem keepsThreads : KeepsThreads scope u (filterSidebarBootstrap u scope) := by
  refine ⟨?_, fun p hp hin => ⟨sidebarPersonal u scope, member_personal u scope, ?_⟩⟩
  · rw [member_projects]
    exact view_sidebarProjects u scope
  · unfold sidebarPersonal
    simp only [hp, hin, if_true]
    rw [filterProjectDetail_eq_shown hin, view_shown]
    rfl

theorem sidebarProjects_stable :
    sidebarProjects (filterSidebarBootstrap u scope) scope = sidebarProjects u scope := by
  have hkept :
      (sidebarProjects u scope).filter (idIn scope.projectIds) = sidebarProjects u scope := by
    rw [sidebarProjects_eq, List.filter_eq_self]
    intro _ hmem
    obtain ⟨p, hp, rfl⟩ := List.mem_map.mp hmem
    have hin := (List.mem_filter.mp hp).2
    exact (idIn_shown (isRecord_of_idIn hin) _).trans hin
  calc sidebarProjects (filterSidebarBootstrap u scope) scope
      = ((sidebarProjects u scope).filter (idIn scope.projectIds)).map (sidebarProject scope) := by
        rw [sidebarProjects.eq_def, member_projects]
        rfl
    _ = (sidebarProjects u scope).map (sidebarProject scope) := by rw [hkept]
    _ = sidebarProjects u scope := by
        rw [sidebarProjects_eq, List.map_map]
        refine List.map_congr_left fun p _ => ?_
        exact (sidebarProject_shown none).trans sidebarProject_eq

theorem sidebarSections_stable :
    sidebarSections (filterSidebarBootstrap u scope) scope = sidebarSections u scope := by
  unfold sidebarSections
  rw [sidebarProjects_stable, member_sections]
  exact (List.filter_filter).trans (by simp)

end Members

/-! ## Key order -/

namespace SameJson

theorem of_perm {l l' : List (Text × Json)} (h : l.Perm l') (hn : (l.map Prod.fst).Nodup) :
    SameJson (.obj l) (.obj l') := by
  have hmember : ∀ k, member k (.obj l) = member k (.obj l') := by
    intro k
    apply Option.ext
    intro j
    rw [member_eq_some hn, member_eq_some ((h.map Prod.fst).nodup_iff.mp hn), h.mem_iff]
  refine .obj (fun k => by rw [hmember k]) fun k x y hx hy => ?_
  rw [hmember k, hy] at hx
  obtain rfl := Option.some.inj hx
  exact .refl _

theorem concat {x y : Json} (h : SameJson x y) (l : List (Text × Json)) (k : Text) :
    SameJson (.obj (l ++ [(k, x)])) (.obj (l ++ [(k, y)])) := by
  refine .obj (fun n => ?_) fun n a b ha hb => ?_
  · rw [member_concat, member_concat]
    split_ifs <;> rfl
  · rw [member_concat] at ha hb
    split_ifs at ha hb
    · obtain rfl := Option.some.inj ha
      obtain rfl := Option.some.inj hb
      exact h
    · rw [ha] at hb
      obtain rfl := Option.some.inj hb
      exact .refl _

end SameJson

theorem perm_stub {α : Type*} {a b c : α} {l : List α} :
    ([a, b] ++ l ++ [c]).Perm (l ++ [a, c, b]) := by
  have hfront : ([a, b] ++ l ++ [c]).Perm (l ++ [a, b] ++ [c]) :=
    (List.perm_append_comm).append_right _
  refine hfront.trans ?_
  rw [List.append_assoc]
  exact List.Perm.append_left l (.cons _ (.swap _ _ _))

/-- The stub, where a guest is granted the personal project, but for the order of its names. -/
theorem filterProjectDetail_stub (h : idIn scope.projectIds emptyPersonalProjectStub = true) :
    SameJson (filterProjectDetail emptyPersonalProjectStub scope) emptyPersonalProjectStub := by
  let sources : Text × Json := (SOURCES, .arr [])
  let options : Text × Json := (DEFAULT_EXECUTION_OPTIONS, .null)
  let threads : Text × Json := (THREADS, .arr [])
  have hshown : filterProjectDetail emptyPersonalProjectStub scope = .obj
      ([sources, options] ++ pick metadataKeys emptyPersonalProjectStub ++ [threads]) :=
    filterProjectDetail_eq_shown h
  have hstub : emptyPersonalProjectStub =
      .obj (pick metadataKeys emptyPersonalProjectStub ++ [sources, threads, options]) := rfl
  rw [hshown]
  nth_rewrite 2 [hstub]
  exact SameJson.of_perm perm_stub (by decide)

theorem sidebarPersonal_cases (u : Json) (scope : GuestScope) :
    (∃ p, u.member PERSONAL_PROJECT = some p ∧ idIn scope.projectIds p = true ∧
      sidebarPersonal u scope = filterProjectDetail p scope) ∨
      sidebarPersonal u scope = emptyPersonalProjectStub := by
  unfold sidebarPersonal
  cases hp : u.member PERSONAL_PROJECT with
  | none => exact .inr rfl
  | some p =>
    cases hin : idIn scope.projectIds p
    · exact .inr (by simp [hin])
    · exact .inl ⟨p, rfl, hin, by simp [hin]⟩

theorem sidebarPersonal_stable (u : Json) (scope : GuestScope) :
    SameJson (sidebarPersonal (filterSidebarBootstrap u scope) scope) (sidebarPersonal u scope) := by
  have hread : sidebarPersonal (filterSidebarBootstrap u scope) scope =
      if idIn scope.projectIds (sidebarPersonal u scope) then
        filterProjectDetail (sidebarPersonal u scope) scope
      else emptyPersonalProjectStub := by
    rw [sidebarPersonal.eq_def, member_personal]
  rw [hread]
  rcases sidebarPersonal_cases u scope with ⟨p, hp, hin, heq⟩ | heq
  · rw [heq]
    have hin' : idIn scope.projectIds (filterProjectDetail p scope) = true := by
      rw [filterProjectDetail_eq_shown hin]
      exact (idIn_shown (isRecord_of_idIn hin) _).trans hin
    rw [if_pos hin', filterProjectDetail_stable hin]
    exact .refl _
  · rw [heq]
    split_ifs with hin
    · exact filterProjectDetail_stub hin
    · exact .refl _

theorem stable (u : Json) (scope : GuestScope) :
    SameJson (filterSidebarBootstrap (filterSidebarBootstrap u scope) scope)
      (filterSidebarBootstrap u scope) := by
  rw [filterSidebarBootstrap_eq (filterSidebarBootstrap u scope), sidebarSections_stable,
    sidebarProjects_stable, filterSidebarBootstrap_eq u]
  have hpersonal := sidebarPersonal_stable u scope
  rw [filterSidebarBootstrap_eq u] at hpersonal
  exact hpersonal.concat [(SECTIONS, .arr (sidebarSections u scope)),
    (PROJECTS, .arr (sidebarProjects u scope))] PERSONAL_PROJECT

/-! ## Sections -/

theorem mem_sectionIds {threads : List Json} {id : Text} :
    id ∈ sectionIds threads ↔ ∃ t ∈ threads, textAt SECTION_ID t = some id := List.mem_filterMap

theorem mem_sidebarSections {s : Json} {id : Text} (hid : textAt ID s = some id) :
    s ∈ sidebarSections u scope ↔
      s ∈ elements (u.member SECTIONS) ∧ id ∈ allowedSectionIds (sidebarProjects u scope) := by
  have hrecord : isRecord s = true := by
    cases s <;> first | rfl | cases hid
  unfold sidebarSections
  rw [List.mem_filter]
  unfold idIn
  rw [hrecord, hid]
  simp

/-- The threads of the sidebar come from the listed projects and from the personal one. -/
theorem mem_sidebarThreads {t : Json} :
    t ∈ sidebarThreads (filterSidebarBootstrap u scope) ↔
      (∃ q ∈ grantedProjects scope u, t ∈ (granted scope q).2) ∨
        t ∈ (view (sidebarPersonal u scope)).2 := by
  have hviews := view_sidebarProjects u scope
  unfold sidebarThreads
  rw [member_projects, member_personal, List.flatMap_append, List.mem_append]
  refine or_congr ?_ (by simp)
  have hmap : ((sidebarProjects u scope).map view).flatMap Prod.snd =
      (sidebarProjects u scope).flatMap fun p => (view p).2 := List.flatMap_map _ _ _
  have helements :
      elements (some (Json.arr (sidebarProjects u scope))) = sidebarProjects u scope := rfl
  rw [helements, ← hmap, hviews, List.flatMap_map, List.mem_flatMap]

theorem keepsSections_iff :
    KeepsSections u (filterSidebarBootstrap u scope) ↔ PersonalSectionsListed scope u := by
  constructor
  · intro h p hp hin s hs id hid hmem
    obtain ⟨t, ht, htid⟩ := mem_sectionIds.mp hmem
    have hview : (view (sidebarPersonal u scope)).2 = (granted scope p).2 := by
      obtain ⟨q, hq, hview⟩ := (keepsThreads u scope).personal p hp hin
      rw [member_personal] at hq
      obtain rfl := Option.some.inj hq
      rw [hview]
    have hkept := h s hs t (mem_sidebarThreads.mpr (.inr (hview ▸ ht))) id hid htid
    rw [member_sections] at hkept
    exact (mem_allowedSectionIds u scope).mp ((mem_sidebarSections hid).mp hkept).2
  · intro h s hs t ht id hid htid
    rw [member_sections]
    refine (mem_sidebarSections hid).mpr ⟨hs, (mem_allowedSectionIds u scope).mpr ?_⟩
    rcases mem_sidebarThreads.mp ht with ⟨q, hq, ht⟩ | ht
    · exact ⟨q, hq, mem_sectionIds.mpr ⟨t, ht, htid⟩⟩
    · rcases sidebarPersonal_cases u scope with ⟨p, hp, hin, heq⟩ | heq
      · rw [heq, filterProjectDetail_eq_shown hin, view_shown] at ht
        exact h p hp hin s hs id hid (mem_sectionIds.mpr ⟨t, ht, htid⟩)
      · rw [heq] at ht
        cases ht

/-- **Completeness.** The sidebar keeps what it is for exactly when the personal project's sections
are listed ones as well. -/
theorem complete_iff (scope : GuestScope) (u : Json) :
    Complete scope u ↔ PersonalSectionsListed scope u :=
  ⟨fun h => keepsSections_iff.mp h.sections,
    fun h => ⟨keepsThreads u scope, keepsSections_iff.mpr h, stable u scope⟩⟩

/-- A personal thread that is shared, in a section of its own. -/
theorem not_complete :
    ¬ Complete ⟨["t".toList], [PERSONAL_PROJECT_ID]⟩
      (.obj [(SECTIONS, .arr [.obj [(ID, .str "s".toList)]]), (PROJECTS, .arr []),
        (PERSONAL_PROJECT, .obj [(ID, .str PERSONAL_PROJECT_ID),
          (THREADS, .arr [.obj [(ID, .str "t".toList), (SECTION_ID, .str "s".toList)]])])]) := by
  intro h
  obtain ⟨q, hq, -⟩ := keepsSections_iff.mp h.sections _ rfl (by decide) _ List.mem_cons_self
    "s".toList rfl (by decide)
  cases hq

end Responses

end BbShared
