import BbShared.Js.JsonPath
import BbShared.SecretRecord

/-!
# Realtime frames

`guest-gateway/frames.ts`: which frames of the guest reach BB and which of BB's reach the guest, in
the scope of a session.  A frame that passes is relayed as it is, except that a thread's frame loses
the id of a project outside the scope.

1. `filterClientFrame_forward`, `filterClientFrame_close`: what passes to BB, and what ends the
   bridge.
2. `filterServerFrame_forward`: what passes to the guest, and what it reads.
-/

namespace BbShared

open Js

/-- The ids that a token grants. -/
structure GuestScope where
  threadIds : List Text
  projectIds : List Text
  deriving DecidableEq

inductive ClientFrameDecision where
  | forward (frame : Text)
  | drop (reason : Text)
  | close (code : ℕ) (reason : Text)

inductive ServerFrameDecision where
  | forward (frame : Text)
  | drop (reason : Text)

/-! ## Filters -/

def isRecord : Json → Bool
  | .obj _ => true
  | .arr _ => true
  | _ => false

/-- A property that is a string. -/
def textAt (name : Text) (j : Json) : Option Text := (j.member name).bind Json.str?

def TYPE : Text := "type".toList
def TARGET : Text := "target".toList
def KIND : Text := "kind".toList
def THREAD_ID : Text := "threadId".toList
def PROJECT_ID : Text := "projectId".toList
def ENTITY : Text := "entity".toList
def ID : Text := "id".toList
def METADATA : Text := "metadata".toList

def PING : Text := "ping".toList
def SUBSCRIBE : Text := "subscribe".toList
def UNSUBSCRIBE : Text := "unsubscribe".toList
def THREAD_DETAIL : Text := "thread-detail".toList
def PROJECT_DETAIL : Text := "project-detail".toList
def PONG : Text := "pong".toList
def CHANGED : Text := "changed".toList
def THREAD : Text := "thread".toList
def PROJECT : Text := "project".toList

def invalidMessage : ClientFrameDecision := .close 1008 "invalid-message".toList

/-- The kinds of subscription that the owner's interface makes and a guest may not. -/
def refusedTargets : List Text :=
  ["thread-list".toList, "project-list".toList, "environment-detail".toList,
    "environment-list".toList, "host-detail".toList, "host-list".toList, "system".toList]

/-- A subscription by its target. -/
def filterTarget (raw : Text) (scope : GuestScope) (target : Json) : ClientFrameDecision :=
  match isRecord target, textAt KIND target with
  | true, some kind =>
    if kind = THREAD_DETAIL then
      match textAt THREAD_ID target with
      | some id =>
        if id ∈ scope.threadIds then .forward raw else .drop "thread-detail out of scope".toList
      | none => .drop "thread-detail out of scope".toList
    else if kind = PROJECT_DETAIL then
      match textAt PROJECT_ID target with
      | some id =>
        if id ∈ scope.projectIds then .forward raw else .drop "project-detail out of scope".toList
      | none => .drop "project-detail out of scope".toList
    else if kind ∈ refusedTargets then .drop (kind ++ " not allowed for guest".toList)
    else .drop "unknown subscription target".toList
  | _, _ => invalidMessage

def filterClientFrame (raw : Text) (scope : GuestScope) : ClientFrameDecision :=
  match Json.parse raw with
  | none => invalidMessage
  | some msg =>
    match isRecord msg, textAt TYPE msg with
    | true, some type =>
      if type = PING then .forward raw
      else if type = SUBSCRIBE ∨ type = UNSUBSCRIBE then
        match msg.member TARGET with
        | some target => filterTarget raw scope target
        | none => invalidMessage
      else invalidMessage
    | _, _ => invalidMessage

/-- `Number::toString` of a literal's double. -/
def numberText (n : Number) : Text :=
  match n.print with
  | .num m => m.lit
  | _ => if n.lit.head? = some '-' then "-Infinity".toList else "Infinity".toList

mutual

/-- `String(value)`; `none` where it throws, for an object with a property `toString`. -/
def stringOf : Json → Option Text
  | .null => some "null".toList
  | .bool true => some "true".toList
  | .bool false => some "false".toList
  | .num n => some (numberText n)
  | .str s => some s
  | .arr l => (joinElems l).map fun parts => List.intercalate [','] parts
  | .obj l =>
    if ((Json.obj l).member "toString".toList).isSome then none else some "[object Object]".toList

/-- The elements of an array as it is joined. -/
def joinElems : List Json → Option (List Text)
  | [] => some []
  | .null :: l => (joinElems l).map ([] :: ·)
  | j :: l => (stringOf j).bind fun s => (joinElems l).map (s :: ·)

end

/-- An object without a property. -/
def withoutMember (name : Text) : Json → Json
  | .obj l => .obj (l.filter fun e => e.1 ≠ name)
  | j => j

/-- `relayThreadChanged`: the id of a project outside the scope is taken out. -/
def relayThreadChanged (raw : Text) (msg : Json) (scope : GuestScope) : ServerFrameDecision :=
  match msg.member METADATA with
  | some metadata =>
    match isRecord metadata, textAt PROJECT_ID metadata with
    | true, some projectId =>
      if projectId ∈ scope.projectIds then .forward raw
      else
        let rewritten := setMember METADATA (withoutMember PROJECT_ID metadata) msg
        .forward (Json.stringify rewritten.reprint)
    | _, _ => .forward raw
  | none => .forward raw

/-- `filterServerFrame`; `none` where it throws. -/
def filterServerFrame (raw : Text) (scope : GuestScope) : Option ServerFrameDecision :=
  match Json.parse raw with
  | none => some (.drop "unparseable server frame".toList)
  | some msg =>
    match isRecord msg, textAt TYPE msg with
    | true, some type =>
      if type = PONG then some (.forward raw)
      else if type = CHANGED then
        let entity := msg.member ENTITY
        if entity.bind Json.str? = some THREAD then
          match textAt ID msg with
          | some id =>
            if id ∈ scope.threadIds then some (relayThreadChanged raw msg scope)
            else some (.drop "thread changed out of scope".toList)
          | none => some (.drop "thread changed out of scope".toList)
        else if entity.bind Json.str? = some PROJECT then
          match textAt ID msg with
          | some id =>
            if id ∈ scope.projectIds then some (.forward raw)
            else some (.drop "project changed out of scope".toList)
          | none => some (.drop "project changed out of scope".toList)
        else
          (entity.elim (some "undefined".toList) stringOf).map fun name =>
            .drop ("changed/".toList ++ name ++ " not allowed for guest".toList)
      else if type ∈ ["thread-open".toList, "thread-pane-action".toList, "plugin-signal".toList] then
        some (.drop (type ++ " not allowed for guest".toList))
      else some (.drop "unrecognised server frame type".toList)
    | _, _ => some (.drop "server frame missing type".toList)

/-! ## From the guest -/

/-- A frame that the owner's server would read: a ping, or a subscription with a target. -/
def WellFormed (raw : Text) : Prop :=
  ∃ msg, Json.parse raw = some msg ∧
    (textAt TYPE msg = some PING ∨
      (textAt TYPE msg = some SUBSCRIBE ∨ textAt TYPE msg = some UNSUBSCRIBE) ∧
        ∃ target, msg.member TARGET = some target ∧ (textAt KIND target).isSome = true)

/-- A ping, or a subscription to a thread or a project in scope. -/
def ClientCleared (scope : GuestScope) (frame : Text) : Prop :=
  ∃ msg, Json.parse frame = some msg ∧
    (textAt TYPE msg = some PING ∨
      (textAt TYPE msg = some SUBSCRIBE ∨ textAt TYPE msg = some UNSUBSCRIBE) ∧
        ∃ target, msg.member TARGET = some target ∧
          (textAt KIND target = some THREAD_DETAIL ∧
              (∃ id ∈ scope.threadIds, textAt THREAD_ID target = some id) ∨
            textAt KIND target = some PROJECT_DETAIL ∧
              ∃ id ∈ scope.projectIds, textAt PROJECT_ID target = some id))

/-- Only an object has a property that is a string. -/
theorem isRecord_of_textAt {name s : Text} {j : Json} (h : textAt name j = some s) :
    isRecord j = true := by
  cases j with
  | obj l => rfl
  | _ => cases h

variable {raw frame : Text} {scope : GuestScope}

theorem filterTarget_forward {target : Json} (h : filterTarget raw scope target = .forward frame) :
    frame = raw ∧ (textAt KIND target = some THREAD_DETAIL ∧
        (∃ id ∈ scope.threadIds, textAt THREAD_ID target = some id) ∨
      textAt KIND target = some PROJECT_DETAIL ∧
        ∃ id ∈ scope.projectIds, textAt PROJECT_ID target = some id) := by
  unfold filterTarget at h
  split at h
  · rename_i kind _ hkind
    split_ifs at h with hthread hproject
    · split at h
      · rename_i id hid
        split_ifs at h with hscope
        exact ⟨(ClientFrameDecision.forward.inj h).symm, .inl ⟨hthread ▸ hkind, id, hscope, hid⟩⟩
      · cases h
    · split at h
      · rename_i id hid
        split_ifs at h with hscope
        exact ⟨(ClientFrameDecision.forward.inj h).symm, .inr ⟨hproject ▸ hkind, id, hscope, hid⟩⟩
      · cases h
  · cases h

/-- **From the guest.** What passes is what came, and stays in scope. -/
theorem filterClientFrame_forward (h : filterClientFrame raw scope = .forward frame) :
    frame = raw ∧ ClientCleared scope raw := by
  unfold filterClientFrame at h
  cases hmsg : Json.parse raw with
  | none => rw [hmsg] at h; cases h
  | some msg =>
    rw [hmsg] at h
    simp only at h
    split at h
    · rename_i type _ htype
      split_ifs at h with hping hsub
      · rw [hping] at htype
        exact ⟨(ClientFrameDecision.forward.inj h).symm, msg, hmsg, .inl htype⟩
      · cases htarget : msg.member TARGET with
        | none => rw [htarget] at h; cases h
        | some target =>
          rw [htarget] at h
          obtain ⟨hframe, hscope⟩ := filterTarget_forward h
          refine ⟨hframe, msg, hmsg, .inr ⟨?_, target, htarget, hscope⟩⟩
          rcases hsub with rfl | rfl
          · exact .inl htype
          · exact .inr htype
      · cases h
    · cases h

theorem filterTarget_malformed {target : Json} (h : textAt KIND target = none) :
    filterTarget raw scope target = invalidMessage := by
  unfold filterTarget
  rw [h]
  split
  · rename_i hk
    cases hk
  · rfl

/-- **Malformed frames.** A frame that the owner's server would not read ends the bridge. -/
theorem filterClientFrame_malformed (h : ¬ WellFormed raw) (scope : GuestScope) :
    filterClientFrame raw scope = invalidMessage := by
  unfold filterClientFrame
  cases hmsg : Json.parse raw with
  | none => rfl
  | some msg =>
    simp only
    split
    · rename_i type _ htype
      have hping : type ≠ PING := by
        rintro rfl
        exact h ⟨msg, hmsg, .inl htype⟩
      rw [if_neg hping]
      split_ifs with hsub
      · cases htarget : msg.member TARGET with
        | none => rfl
        | some target =>
          refine filterTarget_malformed ?_
          by_contra hkind
          refine h ⟨msg, hmsg, .inr ⟨?_, target, htarget, ?_⟩⟩
          · rcases hsub with rfl | rfl
            · exact .inl htype
            · exact .inr htype
          · exact Option.isSome_iff_ne_none.mpr hkind
      · rfl
    · rfl

/-! ## From BB -/

/-- A pong, or a change of a thread or a project in scope; for a thread, without the id of a project
outside it. -/
def ServerCleared (scope : GuestScope) (msg : Json) : Prop :=
  textAt TYPE msg = some PONG ∨
    textAt TYPE msg = some CHANGED ∧
      (textAt ENTITY msg = some THREAD ∧ (∃ id ∈ scope.threadIds, textAt ID msg = some id) ∧
          (∀ metadata projectId, msg.member METADATA = some metadata →
            textAt PROJECT_ID metadata = some projectId → projectId ∈ scope.projectIds) ∨
        textAt ENTITY msg = some PROJECT ∧ ∃ id ∈ scope.projectIds, textAt ID msg = some id)

/-- Where the id of the project stands in a frame. -/
def projectPath : List Step := [.name METADATA, .name PROJECT_ID]

/-- What a frame reads when it has been relayed: the same, or without the id of a project outside the
scope; then it was written anew. -/
def Relayed (scope : GuestScope) (bb sent : Json) : Prop :=
  (∀ ps, Json.look ps sent = Json.look ps bb) ∨
    (∃ metadata projectId, bb.member METADATA = some metadata ∧
        textAt PROJECT_ID metadata = some projectId ∧ projectId ∉ scope.projectIds) ∧
      ∀ ps, Json.look ps sent =
        if projectPath <+: ps then none else (Json.look ps bb).map Leaf.written

/-- What may reach the guest for a frame of BB. -/
def ForGuest (scope : GuestScope) (raw frame : Text) : Prop :=
  ∃ bb sent, Json.parse raw = some bb ∧ Json.parse frame = some sent ∧
    ServerCleared scope sent ∧ Relayed scope bb sent

theorem member_withoutMember (name : Text) (l : List (Text × Json)) (k : Text) :
    (withoutMember name (.obj l)).member k =
      if k = name then none else (Json.obj l).member k := by
  unfold withoutMember
  simp only
  induction l using List.reverseRecOn with
  | nil => exact (ite_self _).symm
  | append_singleton l e ih =>
    rw [List.filter_append, List.filter_singleton]
    by_cases hname : e.1 = name
    · rw [show decide (e.1 ≠ name) = false from decide_eq_false (not_not.mpr hname),
        cond_false, List.append_nil, ih, Json.member_concat]
      by_cases hk : k = name
      · rw [if_pos hk, if_pos hk]
      · rw [if_neg hk, if_neg hk, if_neg fun he => hk (he.symm.trans hname)]
    · rw [show decide (e.1 ≠ name) = true from decide_eq_true hname, cond_true,
        Json.member_concat, Json.member_concat, ih]
      by_cases he : e.1 = k
      · rw [if_pos he, if_pos he, if_neg (he ▸ hname)]
      · rw [if_neg he, if_neg he]

/-- What the rewritten frame has at a path. -/
theorem look_rewritten {bb metadata : Json} {projectId : Text}
    (hmeta : bb.member METADATA = some metadata)
    (hproject : textAt PROJECT_ID metadata = some projectId) (ps : List Step) :
    Json.look ps (setMember METADATA (withoutMember PROJECT_ID metadata) bb) =
      if projectPath <+: ps then none else Json.look ps bb := by
  cases bb with
  | obj l =>
    cases metadata with
    | obj m =>
      cases ps with
      | nil => rw [if_neg (by simp [projectPath])]; rfl
      | cons p ps =>
        rw [Json.look_cons, Json.look_cons]
        cases p with
        | index i => rw [if_neg (by simp [projectPath])]; rfl
        | name k =>
          show ((setMember METADATA _ (.obj l)).member k).bind _ = _
          rw [member_setMember]
          by_cases hk : k = METADATA
          · show _ = if projectPath <+: _ then none else ((Json.obj l).member k).bind _
            rw [hk, hmeta, Option.map_some, if_pos rfl, Option.bind_some, Option.bind_some]
            cases ps with
            | nil => rw [if_neg (by simp [projectPath])]; rfl
            | cons p ps =>
              rw [Json.look_cons, Json.look_cons]
              cases p with
              | index i => rw [if_neg (by simp [projectPath])]; rfl
              | name k =>
                show ((withoutMember PROJECT_ID (.obj m)).member k).bind _ =
                  if _ then none else ((Json.obj m).member k).bind _
                rw [member_withoutMember]
                by_cases hk : k = PROJECT_ID
                · rw [if_pos hk, if_pos (by simp [projectPath, hk])]
                  rfl
                · rw [if_neg hk, if_neg (by simp [projectPath, Ne.symm hk])]
          · show _ = if projectPath <+: _ then none else ((Json.obj l).member k).bind _
            rw [if_neg (by simp [projectPath, Ne.symm hk])]
            cases (Json.obj l).member k with
            | none => rfl
            | some v => rw [Option.map_some, if_neg hk]
    | _ => cases hproject
  | _ => cases hmeta

theorem member_reprint (name : Text) (j : Json) :
    j.reprint.member name = (j.member name).map Json.reprint :=
  Json.child_reprint (.name name) j

theorem textAt_reprint {name s : Text} {j : Json} (h : textAt name j = some s) :
    textAt name j.reprint = some s := by
  obtain ⟨v, hv, hs⟩ := Option.bind_eq_some_iff.mp h
  cases v with
  | str s =>
    obtain rfl := Option.some.inj hs
    unfold textAt
    rw [member_reprint, hv]
    rfl
  | _ => cases hs

theorem textAt_setMember {name k : Text} (h : k ≠ name) (value j : Json) :
    textAt k (setMember name value j) = textAt k j := by
  unfold textAt
  cases j with
  | obj l =>
    rw [member_setMember]
    cases (Json.obj l).member k with
    | none => rfl
    | some v => rw [Option.map_some, if_neg h]
  | _ => rfl

/-- A frame that is relayed as it came. -/
theorem forGuest_raw {msg : Json} (hmsg : Json.parse raw = some msg)
    (h : ServerCleared scope msg) : ForGuest scope raw raw :=
  ⟨msg, msg, hmsg, hmsg, h, .inl fun _ => rfl⟩

theorem relayThreadChanged_forward {msg : Json} {id : Text} (hmsg : Json.parse raw = some msg)
    (htype : textAt TYPE msg = some CHANGED) (hentity : textAt ENTITY msg = some THREAD)
    (hid : textAt ID msg = some id) (hscope : id ∈ scope.threadIds)
    (h : relayThreadChanged raw msg scope = .forward frame) : ForGuest scope raw frame := by
  have hraw : (∀ metadata projectId, msg.member METADATA = some metadata →
      textAt PROJECT_ID metadata = some projectId → projectId ∈ scope.projectIds) →
      ForGuest scope raw raw := fun hp =>
    forGuest_raw hmsg (.inr ⟨htype, .inl ⟨hentity, ⟨id, hscope, hid⟩, hp⟩⟩)
  unfold relayThreadChanged at h
  cases hmeta : msg.member METADATA with
  | none =>
    rw [hmeta] at h
    obtain rfl := ServerFrameDecision.forward.inj h
    exact hraw fun metadata _ hm => by rw [hmeta] at hm; cases hm
  | some metadata =>
    rw [hmeta] at h
    simp only at h
    split at h
    · rename_i projectId _ hproject
      split_ifs at h with hin
      · obtain rfl := ServerFrameDecision.forward.inj h
        refine hraw fun metadata' projectId' hm hp => ?_
        obtain rfl := Option.some.inj (hmeta.symm.trans hm)
        obtain rfl := Option.some.inj (hproject.symm.trans hp)
        exact hin
      · obtain rfl := ServerFrameDecision.forward.inj h
        have hkeep : ∀ {name s : Text}, name ≠ METADATA → textAt name msg = some s →
            textAt name (setMember METADATA (withoutMember PROJECT_ID metadata) msg).reprint =
              some s := by
          intro name s hne hs
          apply textAt_reprint
          rwa [textAt_setMember hne]
        refine ⟨msg, _, hmsg, Json.parse_stringify _, .inr ⟨hkeep (by decide) htype,
          .inl ⟨hkeep (by decide) hentity, ⟨id, hscope, hkeep (by decide) hid⟩, ?_⟩⟩,
          .inr ⟨⟨metadata, projectId, hmeta, hproject, hin⟩, fun ps => ?_⟩⟩
        · intro metadata' projectId' hm hp
          have hnone : Json.look projectPath
              (setMember METADATA (withoutMember PROJECT_ID metadata) msg).reprint = none := by
            rw [Json.look_reprint, look_rewritten hmeta hproject, if_pos List.prefix_rfl,
              Option.map_none]
          obtain ⟨v, hv, -⟩ := Option.bind_eq_some_iff.mp hp
          have hlook : Json.look projectPath
              (setMember METADATA (withoutMember PROJECT_ID metadata) msg).reprint =
                some v.leaf := by
            unfold projectPath
            rw [Json.look_cons]
            show (Json.member METADATA _).bind _ = _
            rw [hm, Option.bind_some, Json.look_cons]
            show (Json.member PROJECT_ID metadata').bind _ = _
            rw [hv]
            rfl
          rw [hnone] at hlook
          cases hlook
        · rw [Json.look_reprint, look_rewritten hmeta hproject]
          split_ifs
          · rfl
          · rfl
    · rename_i hno
      obtain rfl := ServerFrameDecision.forward.inj h
      refine hraw fun metadata' projectId' hm hp => ?_
      obtain rfl := Option.some.inj (hmeta.symm.trans hm)
      exact (hno projectId' (isRecord_of_textAt hp) hp).elim

/-- **From BB.** What passes stays in scope, and reads as what came. -/
theorem filterServerFrame_forward (h : filterServerFrame raw scope = some (.forward frame)) :
    ForGuest scope raw frame := by
  unfold filterServerFrame at h
  cases hmsg : Json.parse raw with
  | none => rw [hmsg] at h; cases h
  | some msg =>
    rw [hmsg] at h
    simp only at h
    split at h
    · rename_i type _ htype
      by_cases hpong : type = PONG
      · rw [if_pos hpong] at h
        obtain rfl := ServerFrameDecision.forward.inj (Option.some.inj h)
        exact forGuest_raw hmsg (.inl (hpong ▸ htype))
      rw [if_neg hpong] at h
      by_cases hchanged : type = CHANGED
      · rw [if_pos hchanged] at h
        by_cases hthread : (msg.member ENTITY).bind Json.str? = some THREAD
        · rw [if_pos hthread] at h
          split at h
          · rename_i id hid
            split_ifs at h with hscope
            · exact relayThreadChanged_forward hmsg (hchanged ▸ htype) hthread hid hscope
                (Option.some.inj h)
            · cases h
          · cases h
        rw [if_neg hthread] at h
        by_cases hproject : (msg.member ENTITY).bind Json.str? = some PROJECT
        · rw [if_pos hproject] at h
          split at h
          · rename_i id hid
            split_ifs at h with hscope
            · obtain rfl := ServerFrameDecision.forward.inj (Option.some.inj h)
              exact forGuest_raw hmsg (.inr ⟨hchanged ▸ htype, .inr ⟨hproject, id, hscope, hid⟩⟩)
            · cases h
          · cases h
        · rw [if_neg hproject] at h
          obtain ⟨name, -, hdrop⟩ := Option.map_eq_some_iff.mp h
          cases hdrop
      · rw [if_neg hchanged] at h
        split_ifs at h
        · cases h
        · cases h
    · cases h

end BbShared
