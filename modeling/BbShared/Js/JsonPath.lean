import BbShared.Js.Numeral
import BbShared.Js.OrderedMap
import Mathlib.Data.List.Sort

/-!
# JSON values by their paths

A path of names and indices leads to at most one place of a value, and what stands there is a leaf.
Two values that agree on every path are the same JSON, whatever the order of their members.

`look_reprint`: `JSON.stringify` of a parsed value keeps every leaf but the numbers that are not
finite, which become `null`.
-/

namespace Js

/-- What stands at one place of a value. -/
inductive Leaf where
  | null
  | bool (b : Bool)
  | num (d : Option ℤ)
  | str (s : Text)
  | arr (length : ℕ)
  | obj
  deriving DecidableEq

/-- What `JSON.stringify` leaves of it. -/
def Leaf.written : Leaf → Leaf
  | .num none => .null
  | leaf => leaf

inductive Step where
  | name (k : Text)
  | index (i : ℕ)
  deriving DecidableEq

namespace Json

def leaf : Json → Leaf
  | null => .null
  | bool b => .bool b
  | num n => .num n.double
  | str s => .str s
  | arr l => .arr l.length
  | obj _ => .obj

/-- One step into a value. -/
def child : Step → Json → Option Json
  | .name k, j => j.member k
  | .index i, arr l => l[i]?
  | .index _, _ => none

/-- The value at the end of a path. -/
def descend : List Step → Json → Option Json
  | [], j => some j
  | p :: ps, j => (child p j).bind (descend ps)

/-- What stands at the end of a path. -/
def look (ps : List Step) (j : Json) : Option Leaf := (descend ps j).map leaf

theorem look_nil (j : Json) : look [] j = some j.leaf := rfl

theorem look_cons (p : Step) (ps : List Step) (j : Json) :
    look (p :: ps) j = (child p j).bind (look ps) := by
  rw [look, descend, Option.map_bind]
  rfl

/-! ## The members of an object -/

/-- The array index that a name is, such as `0` or `12`. -/
def arrayIndex? (k : Text) : Option ℕ :=
  let n := digitsValue k
  if k = Nat.toDigits 10 n ∧ n < 2 ^ 32 - 1 then some n else none

/-- The own properties of an object in their order: the array indices first, from the least, and the
others as they came.  A name that comes again keeps its place and takes the later value. -/
def ownProperties (l : List (Text × Json)) : List (Text × Json) :=
  let own := (OrderedMap.ofEntries l).entries
  (own.filter fun e => (arrayIndex? e.1).isSome).insertionSort
      (fun e f => (arrayIndex? e.1).getD 0 ≤ (arrayIndex? f.1).getD 0) ++
    own.filter fun e => !(arrayIndex? e.1).isSome

theorem ownProperties_perm (l : List (Text × Json)) :
    (ownProperties l).Perm (OrderedMap.ofEntries l).entries :=
  ((List.perm_insertionSort _ _).append_right _).trans (List.filter_append_perm _ _)

theorem member_obj (k : Text) (l : List (Text × Json)) :
    member k (obj l) = (l.reverse.find? fun e => e.1 = k).map Prod.snd := rfl

theorem member_concat (k : Text) (l : List (Text × Json)) (e : Text × Json) :
    member k (obj (l ++ [e])) = if e.1 = k then some e.2 else member k (obj l) := by
  rw [member_obj, member_obj, List.reverse_append, List.reverse_singleton, List.singleton_append,
    List.find?_cons]
  by_cases h : e.1 = k
  · rw [if_pos h, decide_eq_true h]
    rfl
  · rw [if_neg h, decide_eq_false h]

theorem member_append (k : Text) (l l' : List (Text × Json)) :
    member k (obj (l ++ l')) = (member k (obj l')).or (member k (obj l)) := by
  rw [member_obj, member_obj, member_obj, List.reverse_append, List.find?_append]
  cases l'.reverse.find? fun e => e.1 = k <;> rfl

/-- The map of a member list reads as the list does. -/
theorem get_ofEntries (l : List (Text × Json)) (k : Text) :
    (OrderedMap.ofEntries l).get k = member k (obj l) := by
  unfold OrderedMap.ofEntries
  induction l using List.reverseRecOn with
  | nil => rfl
  | append_singleton l e ih =>
    rw [List.foldl_append, List.foldl_cons, List.foldl_nil, OrderedMap.get_set, member_concat, ih]
    simp only [eq_comm]

/-- A list of distinct names reads as any list of the same members. -/
theorem member_eq_some {l : List (Text × Json)} (h : (l.map Prod.fst).Nodup) {k : Text} {j : Json} :
    member k (obj l) = some j ↔ (k, j) ∈ l := by
  have hentries := OrderedMap.entries_ofEntries h
  rw [← get_ofEntries, OrderedMap.get_eq_some, hentries]

theorem member_ownProperties (l : List (Text × Json)) (k : Text) :
    member k (obj (ownProperties l)) = member k (obj l) := by
  have hperm := ownProperties_perm l
  have hnodup : ((ownProperties l).map Prod.fst).Nodup :=
    ((hperm.map Prod.fst).nodup_iff).mpr (OrderedMap.ofEntries l).nodup
  apply Option.ext
  intro j
  rw [member_eq_some hnodup, hperm.mem_iff, ← get_ofEntries, OrderedMap.get_eq_some]

/-! ## Writing what was read -/

mutual

/-- A parsed value as `JSON.stringify` prints it. -/
def reprint : Json → Json
  | null => null
  | bool b => bool b
  | num n => n.print
  | str s => str s
  | arr l => arr (reprintElems l)
  | obj l => obj (ownProperties (reprintMembers l))

def reprintElems : List Json → List Json
  | [] => []
  | j :: l => reprint j :: reprintElems l

def reprintMembers : List (Text × Json) → List (Text × Json)
  | [] => []
  | (k, j) :: l => (k, reprint j) :: reprintMembers l

end

theorem reprintElems_eq (l : List Json) : reprintElems l = l.map reprint := by
  induction l with
  | nil => rfl
  | cons j l ih => rw [reprintElems, List.map_cons, ih]

theorem reprintMembers_eq (l : List (Text × Json)) :
    reprintMembers l = l.map fun e => (e.1, reprint e.2) := by
  induction l with
  | nil => rfl
  | cons e l ih => rw [reprintMembers, List.map_cons, ih]

theorem member_map (f : Json → Json) (l : List (Text × Json)) (k : Text) :
    member k (obj (l.map fun e => (e.1, f e.2))) = (member k (obj l)).map f := by
  rw [member_obj, member_obj, ← List.map_reverse, List.find?_map, Option.map_map, Option.map_map]
  rfl

theorem leaf_reprint (j : Json) : j.reprint.leaf = j.leaf.written := by
  cases j with
  | null => rfl
  | bool b => rfl
  | num n =>
    rcases n.double_print with ⟨hd, hp⟩ | ⟨hd, m, hp, hm⟩
    · rw [reprint, hp, leaf, leaf, hd]
      rfl
    · obtain ⟨d, hd⟩ := Option.ne_none_iff_exists'.mp hd
      rw [reprint, hp, leaf, leaf, hm, hd]
      rfl
  | str s => rfl
  | arr l => rw [reprint, leaf, leaf, reprintElems_eq, List.length_map]; rfl
  | obj l => rfl

theorem child_reprint (p : Step) (j : Json) : child p j.reprint = (child p j).map reprint := by
  cases j with
  | num n =>
    have hnone : ∀ j, (j = null ∨ ∃ m, j = num m) → child p j = none := by
      rintro j (rfl | ⟨m, rfl⟩) <;> cases p <;> rfl
    rw [reprint, hnone (num n) (.inr ⟨n, rfl⟩), Option.map_none]
    apply hnone
    rcases n.double_print with ⟨-, hp⟩ | ⟨-, m, hp, -⟩
    · exact .inl hp
    · exact .inr ⟨m, hp⟩
  | arr l =>
    cases p with
    | name k => rfl
    | index i =>
      show (reprintElems l)[i]? = l[i]?.map reprint
      rw [reprintElems_eq, List.getElem?_map]
  | obj l =>
    cases p with
    | name k =>
      show member k (obj (ownProperties (reprintMembers l))) = (member k (obj l)).map reprint
      rw [member_ownProperties, reprintMembers_eq, member_map]
    | index i => rfl
  | _ => cases p <;> rfl

/-- **Writing keeps the leaves.** -/
theorem look_reprint (ps : List Step) (j : Json) :
    look ps j.reprint = (look ps j).map Leaf.written := by
  induction ps generalizing j with
  | nil => rw [look_nil, look_nil, leaf_reprint]; rfl
  | cons p ps ih =>
    rw [look_cons, look_cons, child_reprint, Option.bind_map, Option.map_bind]
    exact congrArg _ (funext ih)

end Json

end Js
