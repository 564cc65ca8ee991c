import Mathlib.Logic.Relation
import BbShared.Frames
import BbShared.Gateway

/-!
# Projections of BB responses

`guest-gateway/responses.ts`: what a guest is shown of the system configuration, of the sidebar and of
a project, in the scope of a session.

A projection reads the upstream value through `member` and `elements`.  The edits at the end change
what is not the guest's; `projections_independent`: none of them changes a projection.
-/

namespace BbShared

open Js

namespace Responses

open Json

/-! ## Keys -/

def SECTIONS : Text := "sections".toList
def PROJECTS : Text := "projects".toList
def PERSONAL_PROJECT : Text := "personalProject".toList
def THREADS : Text := "threads".toList
def SECTION_ID : Text := "sectionId".toList
def SOURCES : Text := "sources".toList
def DEFAULT_EXECUTION_OPTIONS : Text := "defaultExecutionOptions".toList

def PERSONAL_PROJECT_ID : Text := "proj_personal".toList

/-- The keys of the configuration that a guest is shown. -/
def configKeys : List Text :=
  ["generalSettings", "defaultKeybindings", "experiments", "appearance", "featureFlags"].map
    String.toList

/-- The keys of a project that a guest is shown. -/
def metadataKeys : List Text :=
  ["id", "kind", "name", "gitRemoteUrl", "createdAt", "updatedAt"].map String.toList

/-! ## Reading -/

def isRecord : Json → Bool
  | .obj _ => true
  | _ => false

/-- A record whose `id` is one of these. -/
def idIn (ids : List Text) (value : Json) : Bool :=
  isRecord value && (textAt ID value).any (· ∈ ids)

/-- The elements of an array, none of another value. -/
def elements (value : Option Json) : List Json := (value.bind arr?).getD []

/-- The members of these names, in their order. -/
def pick (keys : List Text) (upstream : Json) : List (Text × Json) :=
  keys.filterMap fun key => (upstream.member key).map (key, ·)

/-! ## Projections -/

/-- What a guest reads in place of the rest of the configuration. -/
def inertConfig : List (Text × Json) :=
  [("keybindings".toList, .arr []), ("keybindingOverrides".toList, .arr []),
    ("customThemes".toList, .arr []), ("pluginThemes".toList, .arr []),
    ("hostDaemonPort".toList, .null), ("serverUrl".toList, .str []),
    ("primaryHostId".toList, .null), ("primaryHostPlatform".toList, .null),
    ("voiceTranscriptionEnabled".toList, .bool false), ("dataDir".toList, .str [])]

def filterSystemConfig (upstream : Json) : Json :=
  if isRecord upstream then .obj (pick configKeys upstream ++ inertConfig) else .obj []

def scopedThreads (threads : Option Json) (scope : GuestScope) : List Json :=
  (elements threads).filter (idIn scope.threadIds)

def emptyPersonalProjectStub : Json :=
  .obj [(ID, .str PERSONAL_PROJECT_ID), (KIND, .str "personal".toList),
    ("name".toList, .str "Personal".toList), ("gitRemoteUrl".toList, .null),
    ("createdAt".toList, .num (.ofNat 0)), ("updatedAt".toList, .num (.ofNat 0)),
    (SOURCES, .arr []), (THREADS, .arr []), (DEFAULT_EXECUTION_OPTIONS, .null)]

def projectMetadata (upstream : Json) : List (Text × Json) :=
  [(SOURCES, .arr []), (DEFAULT_EXECUTION_OPTIONS, .null)] ++ pick metadataKeys upstream

/-- The ids of the sections that the threads are in. -/
def sectionIds (threads : List Json) : List Text := threads.filterMap (textAt SECTION_ID)

def filterProjectDetail (upstream : Json) (scope : GuestScope) : Json :=
  if ¬ isRecord upstream then .obj []
  else if (textAt ID upstream).any (· ∉ scope.projectIds) then .obj []
  else
    let threads := scopedThreads (upstream.member THREADS) scope
    let result := projectMetadata upstream ++ [(THREADS, .arr threads)]
    match (upstream.member SECTIONS).bind arr? with
    | some sections =>
      .obj (result ++ [(SECTIONS, .arr (sections.filter (idIn (sectionIds threads))))])
    | none => .obj result

/-- A project of the sidebar. -/
def sidebarProject (scope : GuestScope) (project : Json) : Json :=
  .obj (projectMetadata project ++ [(THREADS, .arr (scopedThreads (project.member THREADS) scope))])

def sidebarProjects (upstream : Json) (scope : GuestScope) : List Json :=
  ((elements (upstream.member PROJECTS)).filter (idIn scope.projectIds)).map (sidebarProject scope)

/-- `allowedSectionIds`. -/
def allowedSectionIds (projects : List Json) : List Text :=
  projects.flatMap fun project => sectionIds (elements (project.member THREADS))

def sidebarPersonal (upstream : Json) (scope : GuestScope) : Json :=
  match upstream.member PERSONAL_PROJECT with
  | some personal =>
    if idIn scope.projectIds personal then filterProjectDetail personal scope
    else emptyPersonalProjectStub
  | none => emptyPersonalProjectStub

def filterSidebarBootstrap (upstream : Json) (scope : GuestScope) : Json :=
  if isRecord upstream then
    let projects := sidebarProjects upstream scope
    let sections := (elements (upstream.member SECTIONS)).filter (idIn (allowedSectionIds projects))
    .obj [(SECTIONS, .arr sections), (PROJECTS, .arr projects),
      (PERSONAL_PROJECT, sidebarPersonal upstream scope)]
  else
    .obj [(SECTIONS, .arr []), (PROJECTS, .arr []), (PERSONAL_PROJECT, emptyPersonalProjectStub)]

end Responses

open Responses in
/-- The filter of a matched response. -/
def Reshape.apply : Reshape → Json → GuestScope → Json
  | .systemConfig, upstream, _ => filterSystemConfig upstream
  | .sidebarBootstrap, upstream, scope => filterSidebarBootstrap upstream scope
  | .projectDetail, upstream, scope => filterProjectDetail upstream scope

namespace Responses

open Json

variable {scope : GuestScope} {u u' p p' : Json}

/-! ## Edits -/

/-- Some entries are taken out of a list and others put in their place; all of them meet `Free`. -/
inductive Splice {α : Type*} (Free : α → Prop) : List α → List α → Prop
  | mk (before after old new : List α) (hold : ∀ x ∈ old, Free x) (hnew : ∀ x ∈ new, Free x) :
    Splice Free (before ++ old ++ after) (before ++ new ++ after)

theorem Splice.filter {α : Type*} {keep : α → Bool} {l l' : List α}
    (h : Splice (fun x => keep x = false) l l') : l.filter keep = l'.filter keep := by
  have none : ∀ l : List α, (∀ x ∈ l, keep x = false) → l.filter keep = [] := fun l hl =>
    List.filter_eq_nil_iff.mpr fun x hx => by rw [hl x hx]; exact Bool.false_ne_true
  obtain ⟨before, after, old, new, hold, hnew⟩ := h
  simp only [List.filter_append, none old hold, none new hnew]

/-- Two records that read the same under these names. -/
structure AgreeOn (names : List Text) (u u' : Json) : Prop where
  left : isRecord u = true
  right : isRecord u' = true
  member : ∀ n ∈ names, u'.member n = u.member n

/-- Two records that read the same but for one name. -/
structure AgreeOff (name : Text) (u u' : Json) : Prop where
  left : isRecord u = true
  right : isRecord u' = true
  member : ∀ n, n ≠ name → u'.member n = u.member n

/-- A section of the project that no thread the guest sees is in. -/
def Unreferenced (scope : GuestScope) (project entry : Json) : Prop :=
  idIn (sectionIds (scopedThreads (project.member THREADS) scope)) entry = false

/-- One edit of a project, of what is not the guest's. -/
inductive ProjectEdit (scope : GuestScope) (p p' : Json) : Prop
  | threads (h : AgreeOff THREADS p p')
      (hs : Splice (fun t => idIn scope.threadIds t = false) (elements (p.member THREADS))
        (elements (p'.member THREADS)))
  | sections (h : AgreeOff SECTIONS p p') {l l' : List Json}
      (hl : p.member SECTIONS = some (.arr l)) (hl' : p'.member SECTIONS = some (.arr l'))
      (hs : Splice (Unreferenced scope p) l l')
  | fields (h : AgreeOn (metadataKeys ++ [THREADS, SECTIONS]) p p')

/-- A value that is not a project of the guest's. -/
def Foreign (scope : GuestScope) (value : Option Json) : Prop :=
  ∀ p, value = some p → idIn scope.projectIds p = false

/-- One edit of the sidebar, of what is not the guest's. -/
inductive SidebarEdit (scope : GuestScope) (u u' : Json) : Prop
  | projects (h : AgreeOff PROJECTS u u')
      (hs : Splice (fun p => idIn scope.projectIds p = false) (elements (u.member PROJECTS))
        (elements (u'.member PROJECTS)))
  | project (h : AgreeOff PROJECTS u u') (before after : List Json) {p p' : Json}
      (hl : u.member PROJECTS = some (.arr (before ++ p :: after)))
      (hl' : u'.member PROJECTS = some (.arr (before ++ p' :: after))) (hp : ProjectEdit scope p p')
  | personal (h : AgreeOff PERSONAL_PROJECT u u')
      (hf : Foreign scope (u.member PERSONAL_PROJECT))
      (hf' : Foreign scope (u'.member PERSONAL_PROJECT))
  | personalProject (h : AgreeOff PERSONAL_PROJECT u u') {p p' : Json}
      (hp : u.member PERSONAL_PROJECT = some p) (hp' : u'.member PERSONAL_PROJECT = some p')
      (hedit : ProjectEdit scope p p')
  | sections (h : AgreeOff SECTIONS u u')
      (hs : Splice (fun s => idIn (allowedSectionIds (sidebarProjects u scope)) s = false)
        (elements (u.member SECTIONS)) (elements (u'.member SECTIONS)))
  | fields (h : AgreeOn [PROJECTS, PERSONAL_PROJECT, SECTIONS] u u')

/-- An edit of the configuration, but for the keys a guest is shown. -/
def ConfigEdit (u u' : Json) : Prop := AgreeOn configKeys u u'

/-! ## One edit -/

theorem pick_congr {keys : List Text} (h : ∀ n ∈ keys, u'.member n = u.member n) :
    pick keys u' = pick keys u :=
  List.filterMap_congr fun n hn => by rw [h n hn]

/-- What the metadata and the threads of a project depend on. -/
structure SameProject (scope : GuestScope) (p p' : Json) : Prop where
  left : isRecord p = true
  right : isRecord p' = true
  metadata : ∀ n ∈ metadataKeys, p'.member n = p.member n
  threads : scopedThreads (p'.member THREADS) scope = scopedThreads (p.member THREADS) scope

theorem keys_ne : (∀ n ∈ metadataKeys, n ≠ THREADS) ∧ (∀ n ∈ metadataKeys, n ≠ SECTIONS) ∧
    THREADS ≠ SECTIONS := by decide

theorem ProjectEdit.same (h : ProjectEdit scope p p') : SameProject scope p p' := by
  obtain ⟨hthreads, hsections, hne⟩ := keys_ne
  cases h with
  | threads h hs =>
    exact ⟨h.left, h.right, fun n hn => h.member n (hthreads n hn), hs.filter.symm⟩
  | sections h _ _ _ =>
    refine ⟨h.left, h.right, fun n hn => h.member n (hsections n hn), ?_⟩
    rw [h.member THREADS hne]
  | fields h =>
    refine ⟨h.left, h.right, fun n hn => h.member n (List.mem_append_left _ hn), ?_⟩
    rw [h.member THREADS (by simp)]

namespace SameProject

theorem projectMetadata (h : SameProject scope p p') :
    projectMetadata p' = projectMetadata p := by
  unfold Responses.projectMetadata
  rw [pick_congr h.metadata]

theorem sidebarProject (h : SameProject scope p p') :
    sidebarProject scope p' = sidebarProject scope p := by
  unfold Responses.sidebarProject
  rw [h.projectMetadata, h.threads]

theorem textAt_id (h : SameProject scope p p') : textAt ID p' = textAt ID p := by
  unfold textAt
  rw [h.metadata ID (by decide)]

theorem idIn (h : SameProject scope p p') (ids : List Text) : idIn ids p' = idIn ids p := by
  unfold Responses.idIn
  rw [h.left, h.right, h.textAt_id]

end SameProject

/-- The sections that a guest is shown of a project, where it has a list of them. -/
def shownSections (scope : GuestScope) (p : Json) : Option (List Json) :=
  ((p.member SECTIONS).bind arr?).map
    (·.filter (idIn (sectionIds (scopedThreads (p.member THREADS) scope))))

theorem ProjectEdit.shownSections (h : ProjectEdit scope p p') :
    shownSections scope p' = shownSections scope p := by
  have hthreads := h.same.threads
  unfold Responses.shownSections
  rw [hthreads]
  cases h with
  | threads h _ => rw [h.member SECTIONS keys_ne.2.2.symm]
  | sections h hl hl' hs =>
    rw [hl, hl']
    exact congrArg some hs.filter.symm
  | fields h => rw [h.member SECTIONS (by simp)]

theorem filterProjectDetail_eq (h : isRecord p = true) :
    filterProjectDetail p scope =
      if (textAt ID p).any (· ∉ scope.projectIds) then .obj [] else
        .obj (projectMetadata p ++ [(THREADS, .arr (scopedThreads (p.member THREADS) scope))] ++
          ((shownSections scope p).map fun l => (SECTIONS, Json.arr l)).toList) := by
  unfold filterProjectDetail shownSections
  simp only [h, not_true_eq_false, if_false]
  congr 1
  cases (p.member SECTIONS).bind arr? with
  | none => simp
  | some l => rfl

/-- A project is shown as before the edit. -/
theorem ProjectEdit.filterProjectDetail (h : ProjectEdit scope p p') :
    filterProjectDetail p' scope = filterProjectDetail p scope := by
  have hs := h.same
  rw [filterProjectDetail_eq hs.left, filterProjectDetail_eq hs.right, hs.textAt_id,
    hs.projectMetadata, hs.threads, h.shownSections]

/-! ## The sidebar -/

/-- The sections that a guest is shown of the sidebar. -/
def sidebarSections (u : Json) (scope : GuestScope) : List Json :=
  (elements (u.member SECTIONS)).filter (idIn (allowedSectionIds (sidebarProjects u scope)))

/-- A value that is no record reads as one without members. -/
theorem filterSidebarBootstrap_eq (u : Json) (scope : GuestScope) :
    filterSidebarBootstrap u scope =
      .obj [(SECTIONS, .arr (sidebarSections u scope)), (PROJECTS, .arr (sidebarProjects u scope)),
        (PERSONAL_PROJECT, sidebarPersonal u scope)] := by
  cases u <;> rfl

theorem sidebarPersonal_foreign (h : Foreign scope (u.member PERSONAL_PROJECT)) :
    sidebarPersonal u scope = emptyPersonalProjectStub := by
  unfold sidebarPersonal
  cases hp : u.member PERSONAL_PROJECT with
  | none => rfl
  | some p => simp only [h p hp, Bool.false_eq_true, if_false]

namespace SidebarEdit

theorem sidebar_keys_ne :
    PROJECTS ≠ PERSONAL_PROJECT ∧ PROJECTS ≠ SECTIONS ∧ PERSONAL_PROJECT ≠ SECTIONS := by decide

theorem sidebarProjects (h : SidebarEdit scope u u') :
    sidebarProjects u' scope = sidebarProjects u scope := by
  obtain ⟨hpp, hps, -⟩ := sidebar_keys_ne
  unfold Responses.sidebarProjects
  cases h with
  | projects _ hs => rw [hs.filter]
  | project _ before after hl hl' hp =>
    have hsame := hp.same
    rw [hl, hl']
    unfold elements
    simp only [Option.bind_some, arr?, Option.getD_some, List.filter_append, List.filter_cons,
      hsame.idIn]
    split_ifs <;> simp only [List.map_append, List.map_cons, hsame.sidebarProject]
  | personal h _ _ => rw [h.member PROJECTS hpp]
  | personalProject h _ _ _ => rw [h.member PROJECTS hpp]
  | sections h _ => rw [h.member PROJECTS hps]
  | fields h => rw [h.member PROJECTS (by simp)]

theorem sidebarSections (h : SidebarEdit scope u u') :
    sidebarSections u' scope = sidebarSections u scope := by
  obtain ⟨-, hps, hqs⟩ := sidebar_keys_ne
  have hprojects := h.sidebarProjects
  unfold Responses.sidebarSections
  rw [hprojects]
  cases h with
  | projects h _ => rw [h.member SECTIONS hps.symm]
  | project h _ _ _ _ _ => rw [h.member SECTIONS hps.symm]
  | personal h _ _ => rw [h.member SECTIONS hqs.symm]
  | personalProject h _ _ _ => rw [h.member SECTIONS hqs.symm]
  | sections _ hs => exact hs.filter.symm
  | fields h => rw [h.member SECTIONS (by simp)]

theorem sidebarPersonal (h : SidebarEdit scope u u') :
    sidebarPersonal u' scope = sidebarPersonal u scope := by
  obtain ⟨hpp, -, hqs⟩ := sidebar_keys_ne
  have same (hm : u'.member PERSONAL_PROJECT = u.member PERSONAL_PROJECT) :
      Responses.sidebarPersonal u' scope = Responses.sidebarPersonal u scope := by
    unfold Responses.sidebarPersonal
    rw [hm]
  cases h with
  | projects h _ => exact same (h.member _ hpp.symm)
  | project h _ _ _ _ _ => exact same (h.member _ hpp.symm)
  | personal _ hf hf' => rw [sidebarPersonal_foreign hf, sidebarPersonal_foreign hf']
  | personalProject _ hp hp' hedit =>
    unfold Responses.sidebarPersonal
    simp only [hp, hp', hedit.same.idIn, hedit.filterProjectDetail]
  | sections h _ => exact same (h.member _ hqs)
  | fields h => exact same (h.member _ (by simp))

/-- The sidebar is shown as before the edit. -/
theorem filterSidebarBootstrap (h : SidebarEdit scope u u') :
    filterSidebarBootstrap u' scope = filterSidebarBootstrap u scope := by
  rw [filterSidebarBootstrap_eq, filterSidebarBootstrap_eq, h.sidebarSections, h.sidebarProjects,
    h.sidebarPersonal]

end SidebarEdit

theorem ConfigEdit.filterSystemConfig (h : ConfigEdit u u') :
    filterSystemConfig u' = filterSystemConfig u := by
  unfold Responses.filterSystemConfig
  rw [h.left, h.right, pick_congr h.member]

/-! ## Any edits -/

/-- What one edit leaves alone, any number of them does. -/
theorem eq_of_edits {Edit : Json → Json → Prop} {f : Json → Json}
    (step : ∀ u u', Edit u u' → f u' = f u) (h : Relation.ReflTransGen Edit u u') : f u' = f u := by
  induction h with
  | refl => rfl
  | tail _ hedit ih => exact (step _ _ hedit).trans ih

/-- **Independence.** The projections do not depend on what is not the guest's. -/
theorem projections_independent (scope : GuestScope) :
    (∀ u u', Relation.ReflTransGen (SidebarEdit scope) u u' →
      filterSidebarBootstrap u' scope = filterSidebarBootstrap u scope) ∧
    (∀ p p', Relation.ReflTransGen (ProjectEdit scope) p p' →
      filterProjectDetail p' scope = filterProjectDetail p scope) ∧
    (∀ c c', Relation.ReflTransGen ConfigEdit c c' →
      filterSystemConfig c' = filterSystemConfig c) := by
  refine ⟨fun u u' h => ?_, fun p p' h => ?_, fun c c' h => ?_⟩
  · exact eq_of_edits (f := (filterSidebarBootstrap · scope))
      (fun _ _ hedit => SidebarEdit.filterSidebarBootstrap hedit) h
  · exact eq_of_edits (f := (filterProjectDetail · scope))
      (fun _ _ hedit => ProjectEdit.filterProjectDetail hedit) h
  · exact eq_of_edits (fun _ _ hedit => ConfigEdit.filterSystemConfig hedit) h

/-- A sidebar with one project. -/
def sidebarExample (threads sections : List Json) : Json :=
  .obj [(PROJECTS, .arr [.obj [(ID, .str ['p']), (THREADS, .arr threads)]]),
    (SECTIONS, .arr sections)]

def sectionExample (id : Text) : Json := .obj [(ID, .str id)]

/-- A thread in the section `s`. -/
def threadExample (id : Text) : Json := .obj [(ID, .str id), (SECTION_ID, .str ['s'])]

/-- The guest sees the thread `t` of the project `p` and its section, whether or not there are
another thread and another section. -/
theorem projections_independent_project :
    filterSidebarBootstrap (sidebarExample [threadExample ['t']] [sectionExample ['s']])
        ⟨[['t']], [['p']]⟩ =
      filterSidebarBootstrap (sidebarExample [threadExample ['t'], threadExample ['u']]
        [sectionExample ['s'], sectionExample ['v']]) ⟨[['t']], [['p']]⟩ ∧
    (filterSidebarBootstrap (sidebarExample [threadExample ['t']] [sectionExample ['s']])
        ⟨[['t']], [['p']]⟩).member SECTIONS = some (.arr [sectionExample ['s']]) := by
  let scope : GuestScope := ⟨[['t']], [['p']]⟩
  have hthread : SidebarEdit scope
      (sidebarExample [threadExample ['t'], threadExample ['u']]
        [sectionExample ['s'], sectionExample ['v']])
      (sidebarExample [threadExample ['t']] [sectionExample ['s'], sectionExample ['v']]) := by
    refine .project ⟨rfl, rfl, fun n hn => ?_⟩ [] [] rfl rfl
      (.threads ⟨rfl, rfl, fun n hn => ?_⟩ ?_)
    · simp [sidebarExample, member, List.find?_cons, hn.symm]
    · simp [member, List.find?_cons, hn.symm]
    · exact .mk [threadExample ['t']] [] [threadExample ['u']] [] (by decide +kernel)
        fun _ h => absurd h List.not_mem_nil
  have hsection : SidebarEdit scope
      (sidebarExample [threadExample ['t']] [sectionExample ['s'], sectionExample ['v']])
      (sidebarExample [threadExample ['t']] [sectionExample ['s']]) := by
    refine .sections ⟨rfl, rfl, fun n hn => ?_⟩ ?_
    · simp [sidebarExample, member, List.find?_cons, hn.symm]
    · exact .mk [sectionExample ['s']] [] [sectionExample ['v']] [] (by decide +kernel)
        fun _ h => absurd h List.not_mem_nil
  exact ⟨(projections_independent scope).1 _ _ (.tail (.single hthread) hsection), rfl⟩

end Responses

end BbShared
