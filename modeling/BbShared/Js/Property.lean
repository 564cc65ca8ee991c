import BbShared.Js.JsonPath

/-!
# Properties by name

Property accesses on JSON values, one name after another.  An access goes on to the prototypes of
objects and arrays, and so can come to a built-in.  Own properties lead to one place of a value
(`locate`); setting the value there leaves every place apart from it as it was.
-/

namespace Js

/-- A member replaced in its place. -/
def setMember (name : Text) (value : Json) : Json → Json
  | .obj l => .obj (l.map fun e => if e.1 = name then (name, value) else e)
  | j => j

theorem member_setMember (name : Text) (value : Json) (l : List (Text × Json)) (k : Text) :
    (setMember name value (.obj l)).member k =
      ((Json.obj l).member k).map fun v => if k = name then value else v := by
  unfold setMember
  simp only
  induction l using List.reverseRecOn with
  | nil => rfl
  | append_singleton l e ih =>
    rw [List.map_append, List.map_singleton, Json.member_concat, Json.member_concat, ih]
    by_cases hname : e.1 = name
    · rw [if_pos hname, ← hname]
      by_cases hk : e.1 = k
      · rw [if_pos hk, if_pos hk, Option.map_some, if_pos hk.symm]
      · rw [if_neg hk, if_neg hk]
    · rw [if_neg hname]
      by_cases hk : e.1 = k
      · rw [if_pos hk, if_pos hk, Option.map_some, if_neg (hk ▸ hname)]
      · rw [if_neg hk, if_neg hk]

namespace Property

/-! ## Property accesses -/

def PROTO : Text := "__proto__".toList

/-- The other names that every object inherits. -/
def objectMethods : List Text :=
  ["constructor", "__defineGetter__", "__defineSetter__", "hasOwnProperty", "__lookupGetter__",
    "__lookupSetter__", "isPrototypeOf", "propertyIsEnumerable", "toString", "valueOf",
    "toLocaleString"].map String.toList

/-- The names that every array has or inherits besides. -/
def arrayMethods : List Text :=
  ["length", "at", "concat", "copyWithin", "fill", "find", "findIndex", "findLast",
    "findLastIndex", "lastIndexOf", "pop", "push", "reverse", "shift", "unshift", "slice", "sort",
    "splice", "includes", "indexOf", "join", "keys", "entries", "values", "forEach", "filter",
    "flat", "flatMap", "map", "every", "some", "reduce", "reduceRight", "toReversed", "toSorted",
    "toSpliced", "with"].map String.toList

/-- What an access comes to.  A `builtin` is a function or a length. -/
inductive Found where
  | undefined
  | json (j : Json)
  | builtin
  | objectPrototype
  | arrayPrototype

/-- An own property, with its place. -/
def own (seg : Text) : Json → Option (Step × Json)
  | .obj l => (Json.member seg (.obj l)).map fun c => (.name seg, c)
  | .arr l => (Json.arrayIndex? seg).bind fun i => l[i]?.map fun c => (.index i, c)
  | _ => none

theorem own_obj (seg : Text) (l : List (Text × Json)) :
    own seg (.obj l) = (Json.member seg (.obj l)).map fun c => (.name seg, c) := rfl

theorem own_arr (seg : Text) (l : List Json) :
    own seg (.arr l) = (Json.arrayIndex? seg).bind fun i => l[i]?.map fun c => (.index i, c) := rfl

/-- What an object has that owns no such property. -/
def inherited (methods : List Text) (proto : Found) (seg : Text) : Found :=
  if seg = PROTO then proto else if seg ∈ methods then .builtin else .undefined

def fromPrototype (seg : Text) : Json → Found
  | .obj _ => inherited objectMethods .objectPrototype seg
  | .arr _ => inherited (arrayMethods ++ objectMethods) .arrayPrototype seg
  | _ => .undefined

/-- `cur[seg]`, where `cur` is an object; `undefined` where it is not. -/
def property (seg : Text) : Found → Found
  | .json j =>
    match own seg j with
    | some (_, c) => .json c
    | none => fromPrototype seg j
  | .objectPrototype => inherited objectMethods (.json .null) seg
  | .arrayPrototype => inherited (arrayMethods ++ objectMethods) .objectPrototype seg
  | .builtin => .undefined
  | .undefined => .undefined

/-- Access after access. -/
def walk (segs : List Text) (cur : Found) : Found :=
  segs.foldl (fun cur seg => property seg cur) cur

/-- An own property takes another value. -/
def replaceOwn (seg : Text) (value : Json) : Json → Json
  | .obj l => setMember seg value (.obj l)
  | .arr l =>
    match Json.arrayIndex? seg with
    | some i => .arr (l.set i value)
    | none => .arr l
  | j => j

/-- `setByPath`, where own properties lead to the value that is replaced. -/
def setAt (value : Json) : List Text → Json → Json
  | [], _ => value
  | seg :: segs, j =>
    match own seg j with
    | some (_, c) => replaceOwn seg (setAt value segs c) j
    | none => j

/-! ## Places -/

/-- The place that own properties lead to, and what stands there. -/
def locate : List Text → Json → Option (List Step × Json)
  | [], j => some ([], j)
  | seg :: segs, j =>
    (own seg j).bind fun p => (locate segs p.2).map fun r => (p.1 :: r.1, r.2)

theorem locate_cons_eq_some {seg : Text} {segs : List Text} {j v : Json} {q : List Step} :
    locate (seg :: segs) j = some (q, v) ↔
      ∃ st c r, own seg j = some (st, c) ∧ locate segs c = some (r, v) ∧ q = st :: r := by
  rw [locate, Option.bind_eq_some_iff]
  constructor
  · rintro ⟨⟨st, c⟩, hown, h⟩
    obtain ⟨⟨r, w⟩, hloc, heq⟩ := Option.map_eq_some_iff.mp h
    cases heq
    exact ⟨st, c, r, hown, hloc, rfl⟩
  · rintro ⟨st, c, r, hown, hloc, rfl⟩
    exact ⟨(st, c), hown, Option.map_eq_some_iff.mpr ⟨(r, v), hloc, rfl⟩⟩

theorem walk_cons (seg : Text) (segs : List Text) (cur : Found) :
    walk (seg :: segs) cur = walk segs (property seg cur) := rfl

theorem property_of_own {seg : Text} {j c : Json} {st : Step} (h : own seg j = some (st, c)) :
    property seg (.json j) = .json c := by
  rw [property, h]

/-- Along own properties an access comes to what stands at the place. -/
theorem walk_of_locate {segs : List Text} {j v : Json} {q : List Step}
    (h : locate segs j = some (q, v)) : walk segs (.json j) = .json v := by
  induction segs generalizing j q with
  | nil => cases h; rfl
  | cons seg segs ih =>
    obtain ⟨st, c, r, hown, hloc, -⟩ := locate_cons_eq_some.mp h
    rw [walk_cons, property_of_own hown, ih hloc]

/-- What is found without own properties. -/
def Foreign : Found → Prop
  | .json j => j = .null
  | _ => True

theorem foreign_inherited {methods : List Text} {proto : Found} (h : Foreign proto) (seg : Text) :
    Foreign (inherited methods proto seg) := by
  unfold inherited
  split_ifs
  · exact h
  · trivial
  · trivial

theorem foreign_property {cur : Found} (h : Foreign cur) (seg : Text) :
    Foreign (property seg cur) := by
  cases cur with
  | json j =>
    obtain rfl : j = .null := h
    trivial
  | objectPrototype => exact foreign_inherited (show Foreign (.json .null) from rfl) seg
  | arrayPrototype => exact foreign_inherited (show Foreign .objectPrototype from trivial) seg
  | _ => trivial

theorem foreign_walk {cur : Found} (h : Foreign cur) (segs : List Text) :
    Foreign (walk segs cur) := by
  induction segs generalizing cur with
  | nil => exact h
  | cons seg segs ih => exact ih (foreign_property h seg)

theorem foreign_property_of_none {seg : Text} {j : Json} (h : own seg j = none) :
    Foreign (property seg (.json j)) := by
  rw [property, h]
  cases j with
  | obj l => exact foreign_inherited (show Foreign .objectPrototype from trivial) seg
  | arr l => exact foreign_inherited (show Foreign .arrayPrototype from trivial) seg
  | _ => trivial

/-- **Own values.** A value other than `null` is found along own properties only. -/
theorem locate_of_walk {segs : List Text} {j v : Json} (hv : v ≠ .null)
    (h : walk segs (.json j) = .json v) : ∃ q, locate segs j = some (q, v) := by
  induction segs generalizing j with
  | nil =>
    cases h
    exact ⟨[], rfl⟩
  | cons seg segs ih =>
    rw [walk_cons] at h
    cases hown : own seg j with
    | none =>
      have hforeign := foreign_walk (foreign_property_of_none hown) segs
      rw [h] at hforeign
      exact absurd hforeign hv
    | some p =>
      obtain ⟨st, c⟩ := p
      rw [property_of_own hown] at h
      obtain ⟨r, hloc⟩ := ih h
      exact ⟨st :: r, locate_cons_eq_some.mpr ⟨st, c, r, hown, hloc, rfl⟩⟩

theorem child_of_own {seg : Text} {j c : Json} {st : Step} (h : own seg j = some (st, c)) :
    Json.child st j = some c := by
  cases j with
  | obj l =>
    obtain ⟨d, hd, heq⟩ := Option.map_eq_some_iff.mp h
    cases heq
    exact hd
  | arr l =>
    obtain ⟨i, -, h⟩ := Option.bind_eq_some_iff.mp h
    obtain ⟨d, hd, heq⟩ := Option.map_eq_some_iff.mp h
    cases heq
    exact hd
  | _ => cases h

theorem descend_of_locate {segs : List Text} {j v : Json} {q : List Step}
    (h : locate segs j = some (q, v)) (r : List Step) :
    Json.descend (q ++ r) j = Json.descend r v := by
  induction segs generalizing j q with
  | nil => cases h; rfl
  | cons seg segs ih =>
    obtain ⟨st, c, q', hown, hloc, rfl⟩ := locate_cons_eq_some.mp h
    rw [List.cons_append, Json.descend, child_of_own hown, Option.bind_some, ih hloc]

/-! ## Setting an own value -/

theorem arrayIndex?_injective {seg seg' : Text} {i : ℕ} (h : Json.arrayIndex? seg = some i)
    (h' : Json.arrayIndex? seg' = some i) : seg = seg' := by
  have hdigits : ∀ s : Text, Json.arrayIndex? s = some i → s = Nat.toDigits 10 i := by
    intro s hs
    unfold Json.arrayIndex? at hs
    dsimp only at hs
    split_ifs at hs with hc
    cases hs
    exact hc.1
  rw [hdigits seg h, hdigits seg' h']

theorem own_replaceOwn_self {seg : Text} {j c : Json} {st : Step} (h : own seg j = some (st, c))
    (v : Json) : own seg (replaceOwn seg v j) = some (st, v) := by
  cases j with
  | obj l =>
    obtain ⟨d, hd, heq⟩ := Option.map_eq_some_iff.mp h
    cases heq
    show (Json.member seg (setMember seg v (.obj l))).map _ = _
    rw [member_setMember, hd, Option.map_some, if_pos rfl]
    rfl
  | arr l =>
    obtain ⟨i, hi, h⟩ := Option.bind_eq_some_iff.mp h
    obtain ⟨d, hd, heq⟩ := Option.map_eq_some_iff.mp h
    cases heq
    have hlt : i < l.length := (List.getElem?_eq_some_iff.mp hd).1
    unfold replaceOwn
    rw [hi]
    show (Json.arrayIndex? seg).bind _ = _
    rw [hi, Option.bind_some, List.getElem?_set_self hlt]
    rfl
  | _ => cases h

theorem own_replaceOwn_ne {seg seg' : Text} (hne : seg ≠ seg') (v j : Json) :
    own seg' (replaceOwn seg v j) = own seg' j := by
  cases j with
  | obj l =>
    show (Json.member seg' (setMember seg v (.obj l))).map _ = (Json.member seg' (.obj l)).map _
    rw [member_setMember]
    cases Json.member seg' (.obj l) with
    | none => rfl
    | some c => rw [Option.map_some, if_neg (Ne.symm hne)]
  | arr l =>
    unfold replaceOwn
    cases hi : Json.arrayIndex? seg with
    | none => rfl
    | some i =>
      show (Json.arrayIndex? seg').bind _ = (Json.arrayIndex? seg').bind _
      cases hi' : Json.arrayIndex? seg' with
      | none => rfl
      | some i' =>
        have hii : i ≠ i' := by
          rintro rfl
          exact hne (arrayIndex?_injective hi hi')
        rw [Option.bind_some, Option.bind_some, List.getElem?_set_ne hii]
  | _ => rfl

theorem leaf_replaceOwn (seg : Text) (v j : Json) : (replaceOwn seg v j).leaf = j.leaf := by
  cases j with
  | arr l =>
    unfold replaceOwn
    cases Json.arrayIndex? seg with
    | none => rfl
    | some i =>
      show Leaf.arr (l.set i v).length = Leaf.arr l.length
      rw [List.length_set]
  | _ => rfl

theorem child_replaceOwn_ne {seg : Text} {j c : Json} {st st' : Step}
    (h : own seg j = some (st, c)) (hne : st ≠ st') (v : Json) :
    Json.child st' (replaceOwn seg v j) = Json.child st' j := by
  cases j with
  | obj l =>
    obtain ⟨d, -, heq⟩ := Option.map_eq_some_iff.mp h
    cases heq
    cases st' with
    | name k =>
      have hk : k ≠ seg := by
        rintro rfl
        exact hne rfl
      show Json.member k (setMember seg v (.obj l)) = Json.member k (.obj l)
      rw [member_setMember]
      cases Json.member k (.obj l) with
      | none => rfl
      | some c => rw [Option.map_some, if_neg hk]
    | index i => rfl
  | arr l =>
    obtain ⟨i, hi, h⟩ := Option.bind_eq_some_iff.mp h
    obtain ⟨d, -, heq⟩ := Option.map_eq_some_iff.mp h
    cases heq
    unfold replaceOwn
    rw [hi]
    cases st' with
    | name k => rfl
    | index i' =>
      have hii : i ≠ i' := by
        rintro rfl
        exact hne rfl
      exact List.getElem?_set_ne hii
  | _ => cases h

/-- What is found besides a replaced property is as before. -/
theorem property_replaceOwn_ne {seg seg' : Text} (hne : seg ≠ seg') (v j : Json) :
    property seg' (.json (replaceOwn seg v j)) = property seg' (.json j) := by
  rw [property, property, own_replaceOwn_ne hne]
  cases own seg' j with
  | some p => rfl
  | none =>
    cases j with
    | arr l =>
      unfold replaceOwn
      cases Json.arrayIndex? seg <;> rfl
    | _ => rfl

theorem setAt_cons {seg : Text} {j c : Json} {st : Step} (h : own seg j = some (st, c)) (v : Json)
    (segs : List Text) : setAt v (seg :: segs) j = replaceOwn seg (setAt v segs c) j := by
  rw [setAt, h]

theorem locate_setAt {segs : List Text} {j w : Json} {q : List Step}
    (h : locate segs j = some (q, w)) (v : Json) : locate segs (setAt v segs j) = some (q, v) := by
  induction segs generalizing j q with
  | nil =>
    cases h
    rfl
  | cons seg segs ih =>
    obtain ⟨st, c, r, hown, hloc, rfl⟩ := locate_cons_eq_some.mp h
    rw [setAt_cons hown]
    exact locate_cons_eq_some.mpr
      ⟨st, setAt v segs c, r, own_replaceOwn_self hown _, ih hloc, rfl⟩

/-- **Frame.** Away from the place that is set, every place is as before. -/
theorem look_setAt {segs : List Text} {j w : Json} {q : List Step}
    (h : locate segs j = some (q, w)) (v : Json) {ps : List Step} (hps : ¬ q <+: ps) :
    Json.look ps (setAt v segs j) = Json.look ps j := by
  induction segs generalizing j q ps with
  | nil =>
    cases h
    exact absurd List.nil_prefix hps
  | cons seg segs ih =>
    obtain ⟨st, c, r, hown, hloc, rfl⟩ := locate_cons_eq_some.mp h
    rw [setAt_cons hown]
    cases ps with
    | nil => rw [Json.look_nil, Json.look_nil, leaf_replaceOwn]
    | cons p ps =>
      rw [Json.look_cons, Json.look_cons]
      by_cases hp : st = p
      · subst hp
        have hr : ¬ r <+: ps := fun hr => hps (List.cons_prefix_cons.mpr ⟨rfl, hr⟩)
        rw [child_of_own (own_replaceOwn_self hown _), child_of_own hown, Option.bind_some,
          Option.bind_some, ih hloc hr]
      · rw [child_replaceOwn_ne hown hp]

/-- Neither path goes on from the other. -/
def Apart (segs segs' : List Text) : Prop := ¬ segs <+: segs' ∧ ¬ segs' <+: segs

theorem Apart.symm {segs segs' : List Text} (h : Apart segs segs') : Apart segs' segs := ⟨h.2, h.1⟩

theorem Apart.tail {seg : Text} {segs segs' : List Text} (h : Apart (seg :: segs) (seg :: segs')) :
    Apart segs segs' :=
  ⟨fun hp => h.1 (List.cons_prefix_cons.mpr ⟨rfl, hp⟩),
    fun hp => h.2 (List.cons_prefix_cons.mpr ⟨rfl, hp⟩)⟩

/-- **Frame.** Along a path apart from it, everything is found as before. -/
theorem walk_setAt {segs segs' : List Text} {j w : Json} {q : List Step}
    (h : locate segs j = some (q, w)) (v : Json) (hapart : Apart segs segs') :
    walk segs' (.json (setAt v segs j)) = walk segs' (.json j) ∧
      locate segs' (setAt v segs j) = locate segs' j := by
  induction segs generalizing j q segs' with
  | nil => exact absurd List.nil_prefix hapart.1
  | cons seg segs ih =>
    obtain ⟨st, c, r, hown, hloc, rfl⟩ := locate_cons_eq_some.mp h
    rw [setAt_cons hown]
    cases segs' with
    | nil => exact absurd List.nil_prefix hapart.2
    | cons seg' segs' =>
      rw [walk_cons, walk_cons]
      by_cases hseg : seg = seg'
      · subst hseg
        have hnew := own_replaceOwn_self hown (setAt v segs c)
        obtain ⟨hwalk, hlocate⟩ := ih hloc hapart.tail
        refine ⟨?_, ?_⟩
        · rw [property_of_own hnew, property_of_own hown, hwalk]
        · rw [locate, locate, hnew, hown, Option.bind_some, Option.bind_some, hlocate]
      · refine ⟨?_, ?_⟩
        · rw [property_replaceOwn_ne hseg]
        · rw [locate, locate, own_replaceOwn_ne hseg]

/-! ## Clones -/

theorem own_reprint (seg : Text) (j : Json) :
    own seg j.reprint = (own seg j).map fun p => (p.1, p.2.reprint) := by
  cases j with
  | num n =>
    rw [Json.reprint]
    rcases n.double_print with ⟨-, hp⟩ | ⟨-, m, hp, -⟩
    · rw [hp]
      rfl
    · rw [hp]
      rfl
  | arr l =>
    have hchild := fun i => Json.child_reprint (.index i) (.arr l)
    rw [Json.reprint] at hchild ⊢
    show (Json.arrayIndex? seg).bind _ = ((Json.arrayIndex? seg).bind _).map _
    cases Json.arrayIndex? seg with
    | none => rfl
    | some i =>
      show (Json.child (.index i) (.arr (Json.reprintElems l))).map _ =
        ((Json.child (.index i) (.arr l)).map _).map _
      rw [hchild i, Option.map_map, Option.map_map]
      rfl
  | obj l =>
    have hchild := Json.child_reprint (.name seg) (.obj l)
    rw [Json.reprint] at hchild ⊢
    show (Json.child (.name seg) (.obj (Json.ownProperties (Json.reprintMembers l)))).map _ =
      ((Json.child (.name seg) (.obj l)).map _).map _
    rw [hchild, Option.map_map, Option.map_map]
    rfl
  | _ => rfl

/-- What is found in a clone. -/
def Found.reprint : Found → Found
  | .json j => .json j.reprint
  | cur => cur

theorem inherited_reprint (methods : List Text) (proto : Found) (seg : Text) :
    (inherited methods proto seg).reprint = inherited methods proto.reprint seg := by
  unfold inherited
  split_ifs <;> rfl

theorem fromPrototype_reprint (seg : Text) (j : Json) :
    fromPrototype seg j.reprint = (fromPrototype seg j).reprint := by
  cases j with
  | num n =>
    rw [Json.reprint]
    rcases n.double_print with ⟨-, hp⟩ | ⟨-, m, hp, -⟩
    · rw [hp]
      rfl
    · rw [hp]
      rfl
  | obj l =>
    rw [Json.reprint]
    exact (inherited_reprint _ .objectPrototype seg).symm
  | arr l =>
    rw [Json.reprint]
    exact (inherited_reprint _ .arrayPrototype seg).symm
  | _ => rfl

theorem property_reprint (seg : Text) (cur : Found) :
    property seg cur.reprint = (property seg cur).reprint := by
  cases cur with
  | json j =>
    show property seg (.json j.reprint) = _
    rw [property, property, own_reprint]
    cases own seg j with
    | none => exact fromPrototype_reprint seg j
    | some p => rfl
  | objectPrototype => exact (inherited_reprint _ (.json .null) seg).symm
  | arrayPrototype => exact (inherited_reprint _ .objectPrototype seg).symm
  | _ => rfl

theorem walk_reprint (segs : List Text) (cur : Found) :
    walk segs cur.reprint = (walk segs cur).reprint := by
  induction segs generalizing cur with
  | nil => rfl
  | cons seg segs ih => rw [walk_cons, walk_cons, property_reprint, ih]

theorem locate_reprint (segs : List Text) (j : Json) :
    locate segs j.reprint = (locate segs j).map fun p => (p.1, p.2.reprint) := by
  induction segs generalizing j with
  | nil => rfl
  | cons seg segs ih =>
    rw [locate, locate, own_reprint]
    cases own seg j with
    | none => rfl
    | some p =>
      rw [Option.map_some, Option.bind_some, Option.bind_some, ih, Option.map_map, Option.map_map]
      rfl

theorem reprint_eq_str {j : Json} {s : Text} (h : j.reprint = .str s) : j = .str s := by
  cases j with
  | num n =>
    rw [Json.reprint] at h
    rcases n.double_print with ⟨-, hp⟩ | ⟨-, m, hp, -⟩ <;> rw [hp] at h <;> cases h
  | _ =>
    rw [Json.reprint] at h
    cases h <;> rfl

/-- The strings of a clone stand where they stood. -/
theorem locate_string_reprint {j : Json} {segs : List Text} {q : List Step} {s : Text} :
    locate segs j.reprint = some (q, .str s) ↔ locate segs j = some (q, .str s) := by
  rw [locate_reprint]
  constructor
  · intro h
    obtain ⟨⟨r, w⟩, hloc, heq⟩ := Option.map_eq_some_iff.mp h
    obtain ⟨rfl, hw⟩ := Prod.mk.inj heq
    obtain rfl : w = .str s := reprint_eq_str hw
    exact hloc
  · intro h
    rw [h, Option.map_some, Json.reprint]

/-- Two values in which a path leads to the same string agree below it. -/
theorem look_below {segs : List Text} {j j' v : Json} {q : List Step}
    (h : locate segs j = some (q, v)) (h' : locate segs j' = some (q, v)) (r : List Step) :
    Json.look (q ++ r) j = Json.look (q ++ r) j' := by
  unfold Json.look
  rw [descend_of_locate h, descend_of_locate h']

end Property

end Js
