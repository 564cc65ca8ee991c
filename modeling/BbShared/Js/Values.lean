import BbShared.Js.Numeral

/-!
# Values read from JSON

`undefined` or a JSON value, as a program meets them that reads a parsed body without checking its
shape: members, truth, conversion to text.  What an engine writes in its own exceptions, and how it
converts arrays and objects, are parameters.
-/

namespace Js

/-- The texts of an engine's exceptions, and its conversion of arrays and objects to text. -/
structure Engine where
  noMember : Text → Option Json → Text
  noMethod : Text → Option Json → Text
  compound : Json → Except Text Text

/-- `String(n)`. -/
def Number.display (n : Number) : Text :=
  match n.print with
  | .num m => m.lit
  | _ => if n.lit.head? = some '-' then "-Infinity".toList else "Infinity".toList

/-- Whether a value counts as true. -/
def truthy : Option Json → Bool
  | none | some .null => false
  | some (.bool b) => b
  | some (.num n) => n.double != some 0
  | some (.str s) => s != []
  | some (.arr _) | some (.obj _) => true

/-- `a ?? b`. -/
def orElse (v w : Option Json) : Option Json :=
  match v with
  | none | some .null => w
  | v => v

/-- `Number.isInteger`, with the integer. -/
def integer? : Option Json → Option ℤ
  | some (.num n) => n.toInt?
  | _ => none

namespace Engine

variable (en : Engine)

/-- `v.name`, of a name that no prototype has. -/
def prop (name : Text) (v : Option Json) : Except Text (Option Json) :=
  match v with
  | none | some .null => .error (en.noMember name v)
  | some j => .ok (j.member name)

/-- A value in a template literal. -/
def template : Option Json → Except Text Text
  | none => .ok "undefined".toList
  | some .null => .ok "null".toList
  | some (.bool b) => .ok (if b then "true".toList else "false".toList)
  | some (.num n) => .ok n.display
  | some (.str s) => .ok s
  | some j => en.compound j

/-- `(v ?? []).map(f).join(separator)`, for a function to texts. -/
def mapJoin (v : Option Json) (f : Json → Except Text Text) (separator : Text) :
    Except Text Text :=
  match orElse v (some (.arr [])) with
  | some (.arr l) => (l.mapM f).map (List.intercalate separator)
  | v => .error (en.noMethod "map".toList v)

theorem prop_ok {name : Text} {v w : Option Json} (h : en.prop name v = .ok w) :
    ∃ j, v = some j ∧ j.member name = w := by
  unfold prop at h
  split at h
  · cases h
  · cases h
  · exact ⟨_, rfl, Except.ok.inj h⟩

end Engine

end Js
