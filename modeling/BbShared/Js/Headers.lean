import BbShared.Js.OrderedMap
import BbShared.Js.Text
import Mathlib.Data.Char
import Mathlib.Data.List.Lex
import Mathlib.Data.List.Sort

/-!
# Header lists

Header lists as pairs of a name and a value, and the `Headers` object of the Fetch standard: names
in lower case and in order, the values of one name combined.

`bindings l k` lists the values of the name `k`; each operation on headers is described by what it
does to the bindings.
-/

namespace Js

/-! ## Bindings -/

/-- The values bound to `k`, in order. -/
def bindings (l : List (Text × Text)) (k : Text) : List Text :=
  (l.filter fun p => p.1 = k).map Prod.snd

@[simp] theorem bindings_nil (k : Text) : bindings [] k = [] := rfl

theorem bindings_cons (p : Text × Text) (l : List (Text × Text)) (k : Text) :
    bindings (p :: l) k = if p.1 = k then p.2 :: bindings l k else bindings l k := by
  unfold bindings
  rw [List.filter_cons]
  split_ifs with h h' h'
  · rfl
  · exact absurd (of_decide_eq_true h) h'
  · exact absurd (decide_eq_true h') h
  · rfl

@[simp] theorem bindings_append (l l' : List (Text × Text)) (k : Text) :
    bindings (l ++ l') k = bindings l k ++ bindings l' k := by
  simp [bindings]

theorem bindings_flatMap {α : Type*} (l : List α) (f : α → List (Text × Text)) (k : Text) :
    bindings (l.flatMap f) k = l.flatMap fun a => bindings (f a) k := by
  induction l with
  | nil => rfl
  | cons a l ih => rw [List.flatMap_cons, List.flatMap_cons, bindings_append, ih]

theorem bindings_filter {p : Text × Text → Bool} {k : Text} (h : ∀ v, p (k, v) = true)
    (l : List (Text × Text)) : bindings (l.filter p) k = bindings l k := by
  induction l with
  | nil => rfl
  | cons e l ih =>
    rw [List.filter_cons, bindings_cons]
    split_ifs with hp he he
    · rw [bindings_cons, if_pos he, ih]
    · rw [bindings_cons, if_neg he, ih]
    · obtain ⟨n, v⟩ := e
      obtain rfl : n = k := he
      exact absurd (h v) hp
    · exact ih

theorem lookup_eq_head (l : List (Text × Text)) (k : Text) : l.lookup k = (bindings l k).head? := by
  induction l with
  | nil => rfl
  | cons p l ih =>
    rw [bindings_cons, List.lookup_cons]
    by_cases h : p.1 = k
    · rw [if_pos h, beq_iff_eq.mpr h.symm]
      rfl
    · rw [if_neg h, beq_false_of_ne fun hk => h hk.symm, ih]

/-- Assigning the pairs to an object in turn leaves each name its last value. -/
theorem get_foldl_set (l : List (Text × Text)) (m : OrderedMap Text Text) (k : Text) :
    (l.foldl (fun m p => m.set p.1 p.2) m).get k = ((bindings l k).getLast?).or (m.get k) := by
  induction l generalizing m with
  | nil => rfl
  | cons p l ih =>
    rw [List.foldl_cons, ih, OrderedMap.get_set, bindings_cons]
    by_cases h : p.1 = k
    · rw [if_pos h.symm, if_pos h]
      cases bindings l k with
      | nil => rfl
      | cons v vs => rw [List.getLast?_cons_cons, List.getLast?_cons]; rfl
    · rw [if_neg fun hk => h hk.symm, if_neg h]

/-! ## The `Headers` object -/

/-- A value without the white space around it. -/
def normalizeValue (v : Text) : Text :=
  let isHttpSpace (c : Char) : Bool := c = ' ' || c = '\t'
  (v.dropWhile isHttpSpace).rdropWhile isHttpSpace

def SET_COOKIE : Text := "set-cookie".toList

/-- The values under a name in any letter case. -/
def valuesOf (raw : List (Text × Text)) (name : Text) : List Text :=
  (raw.filter fun p => lower p.1 = name).map fun p => normalizeValue p.2

/-- The pairs of one name: its values in one, cookies apart. -/
def combined (raw : List (Text × Text)) (name : Text) : List (Text × Text) :=
  if name = SET_COOKIE then (valuesOf raw name).map fun v => (name, v)
  else [(name, List.intercalate ", ".toList (valuesOf raw name))]

/-- The pairs that `forEach` visits on a `Headers` object made of the raw headers. -/
def headersForEach (raw : List (Text × Text)) : List (Text × Text) :=
  ((raw.map fun p => lower p.1).dedup.insertionSort (· ≤ ·)).flatMap (combined raw)

/-- `headers.get(name)`, for a name in lower case. -/
def headersGet (raw : List (Text × Text)) (name : Text) : Option Text :=
  if valuesOf raw name = [] then none else some (List.intercalate ", ".toList (valuesOf raw name))

theorem mem_combined {raw : List (Text × Text)} {name : Text} {p : Text × Text}
    (h : p ∈ combined raw name) : p.1 = name := by
  unfold combined at h
  split_ifs at h
  · obtain ⟨v, _, rfl⟩ := List.mem_map.mp h
    rfl
  · rw [List.mem_singleton.mp h]

theorem bindings_combined_ne {raw : List (Text × Text)} {name k : Text} (h : name ≠ k) :
    bindings (combined raw name) k = [] := by
  unfold bindings
  rw [List.map_eq_nil_iff, List.filter_eq_nil_iff]
  intro p hp hk
  exact h ((mem_combined hp).symm.trans (of_decide_eq_true hk))

theorem flatMap_eq_of_nodup {α β : Type*} [DecidableEq α] {l : List α} {f : α → List β} {a : α}
    (hl : l.Nodup) (hne : ∀ b ∈ l, b ≠ a → f b = []) :
    l.flatMap f = if a ∈ l then f a else [] := by
  induction l with
  | nil => rfl
  | cons b l ih =>
    have hl' := List.nodup_cons.mp hl
    rw [List.flatMap_cons, ih hl'.2 fun c hc => hne c (List.mem_cons_of_mem b hc)]
    by_cases h : b = a
    · subst h
      rw [if_neg hl'.1, if_pos List.mem_cons_self, List.append_nil]
    · rw [hne b List.mem_cons_self h, List.nil_append]
      simp only [List.mem_cons, Ne.symm h, false_or]

/-- A `Headers` object binds each name at most once, to all the values given for it. -/
theorem bindings_headersForEach (raw : List (Text × Text)) {k : Text} (h : k ≠ SET_COOKIE) :
    bindings (headersForEach raw) k = (headersGet raw k).toList := by
  unfold headersForEach
  rw [bindings_flatMap, flatMap_eq_of_nodup (a := k)
    ((List.perm_insertionSort _ _).nodup_iff.mpr (List.nodup_dedup _))
    fun name _ hname => bindings_combined_ne hname]
  have hmem : k ∈ (raw.map fun p => lower p.1).dedup.insertionSort (· ≤ ·) ↔ valuesOf raw k ≠ [] := by
    rw [(List.perm_insertionSort _ _).mem_iff, List.mem_dedup, List.mem_map]
    unfold valuesOf
    rw [ne_eq, List.map_eq_nil_iff, List.filter_eq_nil_iff]
    push Not
    exact exists_congr fun p => and_congr_right fun _ => by simp
  unfold headersGet combined
  rw [if_neg h]
  by_cases hv : valuesOf raw k = []
  · rw [if_neg fun hk => hmem.mp hk hv, if_pos hv]
    rfl
  · rw [if_pos (hmem.mpr hv), if_neg hv, bindings_cons, if_pos rfl]
    rfl

theorem toLower_toLower (c : Char) : c.toLower.toLower = c.toLower := by
  by_cases h : c.toNat < 128
  · exact forall_char_lt (P := fun c => c.toLower.toLower = c.toLower) (by decide +kernel) h
  · rw [toLower_eq_self h, toLower_eq_self h]

@[simp] theorem lower_lower (s : Text) : lower (lower s) = lower s := by
  unfold lower
  rw [List.map_map]
  exact List.map_congr_left fun c _ => toLower_toLower c

/-- The names of a `Headers` object are in lower case. -/
theorem lower_of_mem_headersForEach {raw : List (Text × Text)} {p : Text × Text}
    (h : p ∈ headersForEach raw) : lower p.1 = p.1 := by
  obtain ⟨name, hname, hp⟩ := List.mem_flatMap.mp h
  rw [(List.perm_insertionSort _ _).mem_iff, List.mem_dedup, List.mem_map] at hname
  obtain ⟨q, _, rfl⟩ := hname
  rw [mem_combined hp, lower_lower]

/-- What holds of the characters of the raw headers, of the comma and of the space holds of the
characters of a `Headers` object. -/
theorem forall_mem_headersForEach {P : Char → Prop} (hlower : ∀ c, P c → P c.toLower)
    (hsep : ∀ c ∈ ", ".toList, P c) {raw : List (Text × Text)}
    (hraw : ∀ p ∈ raw, (∀ c ∈ p.1, P c) ∧ ∀ c ∈ p.2, P c) {p : Text × Text}
    (h : p ∈ headersForEach raw) : (∀ c ∈ p.1, P c) ∧ ∀ c ∈ p.2, P c := by
  obtain ⟨name, hname, hp⟩ := List.mem_flatMap.mp h
  have hvalues : ∀ v ∈ valuesOf raw name, ∀ c ∈ v, P c := by
    intro v hv c hc
    obtain ⟨q, hq, rfl⟩ := List.mem_map.mp hv
    refine (hraw q (List.mem_of_mem_filter hq)).2 c ?_
    exact (List.dropWhile_sublist _).subset ((List.rdropWhile_prefix _ _).subset hc)
  refine ⟨?_, ?_⟩
  · rw [mem_combined hp]
    rw [(List.perm_insertionSort _ _).mem_iff, List.mem_dedup, List.mem_map] at hname
    obtain ⟨q, hq, rfl⟩ := hname
    intro c hc
    obtain ⟨d, hd, rfl⟩ := List.mem_map.mp hc
    exact hlower d ((hraw q hq).1 d hd)
  · unfold combined at hp
    split_ifs at hp
    · obtain ⟨v, hv, rfl⟩ := List.mem_map.mp hp
      exact hvalues v hv
    · rw [List.mem_singleton.mp hp]
      intro c hc
      have key : ∀ l : List Text, (∀ v ∈ l, ∀ c ∈ v, P c) →
          ∀ c ∈ List.intercalate ", ".toList l, P c := by
        intro l
        induction l with
        | nil => intro _ c hc; cases hc
        | cons v l ih =>
          intro hl c hc
          cases l with
          | nil => exact hl v (by simp) c (by simpa using hc)
          | cons w l =>
            rw [List.intercalate_cons_cons, List.append_assoc, List.mem_append,
              List.mem_append] at hc
            rcases hc with hc | hc | hc
            · exact hl v (by simp) c hc
            · exact hsep c hc
            · exact ih (fun v hv => hl v (List.mem_cons_of_mem _ hv)) c hc
      exact key _ hvalues c hc

end Js
