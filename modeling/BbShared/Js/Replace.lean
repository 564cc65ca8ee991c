import Mathlib.Data.List.Infix

/-!
# Replacing every occurrence

`replaceAll` with a pattern that is a plain text: the occurrences from left to right, each after the
end of the last.  A mark that starts and ends with what the pattern has not leaves no occurrence.
-/

namespace Js

variable {α : Type*}

/-- A text without `c` does not lie across it. -/
theorem infix_append_cons {w a b : List α} {c : α} (hc : c ∉ w) (h : w <:+: a ++ c :: b) :
    w <:+: a ∨ w <:+: b := by
  rcases List.infix_append_iff.mp h with ha | hb | ⟨l₁, l₂, rfl, ha, hb⟩
  · exact .inl ha
  · rcases List.infix_cons_iff.mp hb with hp | hi
    · cases w with
      | nil => exact .inl List.nil_infix
      | cons d w => exact absurd ((List.cons_prefix_cons.mp hp).1 ▸ List.mem_cons_self) hc
    · exact .inr hi
  · cases l₂ with
    | nil => exact .inl (by rw [List.append_nil]; exact ha.isInfix)
    | cons d l₂ =>
      obtain rfl := (List.cons_prefix_cons.mp hb).1
      exact absurd (List.mem_append_right _ List.mem_cons_self) hc

/-- A replacement, from left to right. -/
inductive Replaces (pattern mark : List α) : List α → List α → Prop
  | nil : Replaces pattern mark [] []
  | keep {c : α} {s t : List α} : ¬ pattern <+: c :: s → Replaces pattern mark s t →
      Replaces pattern mark (c :: s) (c :: t)
  | mark {s t : List α} : Replaces pattern mark s t →
      Replaces pattern mark (pattern ++ s) (mark ++ t)

namespace Replaces

variable {pattern m s t w : List α} {a b : α}

/-- Up to the first mark the text is what it was. -/
theorem prefix_source (h : Replaces pattern (a :: m) s t) (ha : a ∉ w) (hw : w <+: t) :
    w <+: s := by
  induction h generalizing w with
  | nil => exact hw
  | @keep c s t _ _ ih =>
    cases w with
    | nil => exact List.nil_prefix
    | cons d w =>
      obtain ⟨rfl, hwt⟩ := List.cons_prefix_cons.mp hw
      exact List.cons_prefix_cons.mpr ⟨rfl, ih (List.not_mem_of_not_mem_cons ha) hwt⟩
  | mark _ _ =>
    cases w with
    | nil => exact List.nil_prefix
    | cons d w => exact absurd ((List.cons_prefix_cons.mp hw).1 ▸ List.mem_cons_self) ha

/-- **No occurrence is left.** -/
theorem pattern_absent (h : Replaces pattern (a :: (m ++ [b])) s t) (hne : pattern ≠ [])
    (ha : a ∉ pattern) (hb : b ∉ pattern) (hm : ¬ pattern <:+: m) : ¬ pattern <:+: t := by
  induction h with
  | nil => exact fun hi => hne (List.infix_nil.mp hi)
  | @keep c s t hfree hrest ih =>
    intro hi
    rcases List.infix_cons_iff.mp hi with hp | hi
    · cases pattern with
      | nil => exact hne rfl
      | cons d pattern =>
        obtain ⟨rfl, hpt⟩ := List.cons_prefix_cons.mp hp
        exact hfree (List.cons_prefix_cons.mpr
          ⟨rfl, hrest.prefix_source (List.not_mem_of_not_mem_cons ha) hpt⟩)
    · exact ih hi
  | @mark s t _ ih =>
    intro hi
    -- an occurrence lies within the mark or after it
    have hsplit : a :: (m ++ [b]) ++ t = [] ++ a :: (m ++ b :: t) := by simp
    rw [hsplit] at hi
    rcases infix_append_cons ha hi with h | h
    · exact hne (List.infix_nil.mp h)
    · rcases infix_append_cons hb h with h | h
      · exact hm h
      · exact ih h

end Replaces

/-! ## The program -/

variable [DecidableEq α]

/-- `replaceAll`, with a bound on the length of the text as fuel. -/
def replaceFrom (pattern mark : List α) : ℕ → List α → List α
  | 0, s => s
  | _ + 1, [] => []
  | n + 1, c :: s =>
    match (c :: s).dropPrefix? pattern with
    | some r => mark ++ replaceFrom pattern mark n r
    | none => c :: replaceFrom pattern mark n s

/-- `replaceAll`, for a pattern that is not empty. -/
def replaceAll (pattern mark s : List α) : List α := replaceFrom pattern mark s.length s

theorem replaces_replaceFrom {pattern : List α} (hne : pattern ≠ []) (mark : List α) {n : ℕ}
    {s : List α} (hs : s.length ≤ n) : Replaces pattern mark s (replaceFrom pattern mark n s) := by
  induction n generalizing s with
  | zero =>
    obtain rfl := List.eq_nil_of_length_eq_zero (Nat.le_zero.mp hs)
    exact .nil
  | succ n ih =>
    cases s with
    | nil => exact .nil
    | cons c s =>
      unfold replaceFrom
      cases hd : (c :: s).dropPrefix? pattern with
      | none =>
        refine .keep (fun hp => ?_) (ih (Nat.le_of_succ_le_succ hs))
        obtain ⟨r, hr⟩ := hp
        have := List.dropPrefix?_eq_some_iff.mpr ⟨pattern, hr.symm, beq_self_eq_true _⟩
        rw [hd] at this
        cases this
      | some r =>
        obtain ⟨p, hp, he⟩ := List.dropPrefix?_eq_some_iff.mp hd
        obtain rfl := eq_of_beq he
        have hlen : r.length ≤ n := by
          have hpos := List.length_pos_iff.mpr hne
          have := congrArg List.length hp
          simp only [List.length_append, List.length_cons] at this hs
          omega
        simp only
        rw [hp]
        exact .mark (ih hlen)

theorem replaces_replaceAll {pattern : List α} (hne : pattern ≠ []) (mark s : List α) :
    Replaces pattern mark s (replaceAll pattern mark s) :=
  replaces_replaceFrom hne mark le_rfl

end Js
