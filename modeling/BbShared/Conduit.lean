import Mathlib.Data.List.Basic

/-!
# Conduits

A stage that hands a sequence on.  What has come out is a beginning of what has gone in, and all of
it while the stage works.  Once a stage has failed it may swallow anything, but it never reorders,
repeats or makes up an element.
-/

/-- What has come out of a stage, against what has gone in. -/
structure Conduit {α : Type*} (works : Prop) (input output : List α) : Prop where
  first : output <+: input
  whole : works → output = input

namespace Conduit

variable {α β : Type*} {works works' : Prop} {input middle output : List α}

theorem refl (l : List α) : Conduit works l l := ⟨List.prefix_rfl, fun _ => rfl⟩

theorem mono (h : Conduit works input output) (hw : works' → works) :
    Conduit works' input output := ⟨h.first, fun hw' => h.whole (hw hw')⟩

/-- Stages one after the other. -/
theorem trans (h : Conduit works input middle) (h' : Conduit works' middle output) :
    Conduit (works ∧ works') input output :=
  ⟨h'.first.trans h.first, fun hw => (h'.whole hw.2).trans (h.whole hw.1)⟩

/-- **Passing rule.** A stage that works hands on what it is given. -/
theorem pass (h : Conduit works input output) (hw : works) (l : List α) :
    Conduit works' (input ++ l) (output ++ l) := by
  rw [h.whole hw]
  exact refl _

/-- **Failure rule.** A stage that fails may swallow what it is given. -/
theorem swallow (h : Conduit works input output) (hw : ¬ works') (l : List α) :
    Conduit works' (input ++ l) output :=
  ⟨h.first.trans (List.prefix_append _ _), fun hw' => absurd hw' hw⟩

/-- A queue, of which `k` elements have come out. -/
theorem take (l : List α) (k : ℕ) : Conduit (l.length ≤ k) l (l.take k) :=
  ⟨List.take_prefix _ _, fun hk => List.take_of_length_le hk⟩

/-- A queue whose elements are read one by one. -/
theorem filterMap (h : Conduit works input output) (f : α → Option β) :
    Conduit works (input.filterMap f) (output.filterMap f) :=
  ⟨h.first.filterMap f, fun hw => congrArg _ (h.whole hw)⟩

end Conduit
