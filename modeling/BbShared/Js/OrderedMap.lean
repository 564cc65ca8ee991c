import Mathlib.Algebra.BigOperators.Group.List.Basic
import Mathlib.Data.List.Nodup
import Mathlib.Tactic

/-!
# Ordered maps

The `Map` of JavaScript: entries in insertion order, with distinct keys.  `set` on a present key
keeps its place, on an absent key appends; `erase` closes the gap.  `total` sums a measure over
the values, which is how byte counters and population counts over a map are stated.
-/

namespace Js

/-- A map with its entries in insertion order. -/
structure OrderedMap (κ α : Type*) where
  entries : List (κ × α)
  nodup : (entries.map Prod.fst).Nodup

namespace OrderedMap

variable {κ α β : Type*}

/-- The map without entries. -/
def empty : OrderedMap κ α := ⟨[], List.nodup_nil⟩

instance : Inhabited (OrderedMap κ α) := ⟨empty⟩

def keys (m : OrderedMap κ α) : List κ := m.entries.map Prod.fst

def values (m : OrderedMap κ α) : List α := m.entries.map Prod.snd

def size (m : OrderedMap κ α) : ℕ := m.entries.length

@[ext] theorem ext {m n : OrderedMap κ α} (h : m.entries = n.entries) : m = n := by
  cases m; cases n; cases h; rfl

instance [DecidableEq κ] [DecidableEq α] : DecidableEq (OrderedMap κ α) := fun m n =>
  decidable_of_iff (m.entries = n.entries) ⟨ext, fun h => h ▸ rfl⟩

@[simp] theorem entries_empty : (empty : OrderedMap κ α).entries = [] := rfl

/-- A key has one value. -/
theorem value_unique {m : OrderedMap κ α} {k : κ} {v w : α} (hv : (k, v) ∈ m.entries)
    (hw : (k, w) ∈ m.entries) : v = w := by
  have h := List.inj_on_of_nodup_map m.nodup hv hw rfl
  exact congrArg Prod.snd h

section Lookup

variable [DecidableEq κ]

/-- `get`. -/
def get (m : OrderedMap κ α) (k : κ) : Option α :=
  (m.entries.find? fun e => e.1 = k).map Prod.snd

/-- `has`. -/
def has (m : OrderedMap κ α) (k : κ) : Bool := (m.get k).isSome

theorem get_eq_some {m : OrderedMap κ α} {k : κ} {v : α} :
    m.get k = some v ↔ (k, v) ∈ m.entries := by
  unfold get
  constructor
  · intro h
    obtain ⟨e, he, rfl⟩ := Option.map_eq_some_iff.mp h
    have hk : e.1 = k := by simpa using List.find?_some he
    have hm := List.mem_of_find?_eq_some he
    rw [← hk]; exact hm
  · intro h
    have hs : (m.entries.find? fun e => e.1 = k).isSome :=
      List.find?_isSome.mpr ⟨_, h, by simp⟩
    obtain ⟨e, he⟩ := Option.isSome_iff_exists.mp hs
    have hk : e.1 = k := by simpa using List.find?_some he
    have hm : (k, e.2) ∈ m.entries := by rw [← hk]; exact List.mem_of_find?_eq_some he
    rw [he, Option.map_some, value_unique hm h]

theorem get_eq_none {m : OrderedMap κ α} {k : κ} : m.get k = none ↔ k ∉ m.keys := by
  unfold get keys
  rw [Option.map_eq_none_iff, List.find?_eq_none]
  simp only [decide_eq_true_eq, List.mem_map, not_exists, not_and]

theorem has_iff {m : OrderedMap κ α} {k : κ} : m.has k = true ↔ k ∈ m.keys := by
  unfold has
  rw [Option.isSome_iff_ne_none, ne_eq, get_eq_none, not_not]

theorem mem_keys_of_get {m : OrderedMap κ α} {k : κ} {v : α} (h : m.get k = some v) :
    k ∈ m.keys :=
  List.mem_map_of_mem (f := Prod.fst) (get_eq_some.mp h)

theorem mem_values_of_get {m : OrderedMap κ α} {k : κ} {v : α} (h : m.get k = some v) :
    v ∈ m.values :=
  List.mem_map_of_mem (f := Prod.snd) (get_eq_some.mp h)

theorem mem_keys_iff {m : OrderedMap κ α} {k : κ} : k ∈ m.keys ↔ ∃ v, m.get k = some v := by
  rw [← Option.ne_none_iff_exists', ne_eq, get_eq_none, not_not]

@[simp] theorem get_empty (k : κ) : (empty : OrderedMap κ α).get k = none := rfl

theorem eq_empty_of_get {m : OrderedMap κ α} (h : ∀ k, m.get k = none) : m = empty :=
  ext (List.eq_nil_iff_forall_not_mem.mpr fun e he => by
    have hs := get_eq_some.mpr he
    rw [h] at hs
    cases hs)

/-- Two maps with the same order of keys and the same lookups are equal. -/
theorem ext_get {m n : OrderedMap κ α} (hk : m.keys = n.keys) (hg : ∀ k, m.get k = n.get k) :
    m = n := by
  apply ext
  have key : ∀ (l l' : List (κ × α)), l.map Prod.fst = l'.map Prod.fst →
      (∀ e ∈ l, e ∈ m.entries) → (∀ e ∈ l', e ∈ n.entries) → l = l' := by
    intro l
    induction l with
    | nil => intro l' h _ _; simpa using h
    | cons e l ih =>
      intro l' h hl hl'
      rcases l' with _ | ⟨e', l'⟩
      · simp at h
      · simp only [List.map_cons, List.cons.injEq] at h
        have he : (e.1, e.2) ∈ m.entries := hl e (by simp)
        have he' : (e.1, e'.2) ∈ n.entries := by rw [h.1]; exact hl' e' (by simp)
        have h2 : e.2 = e'.2 := by
          have := get_eq_some.mpr he
          rw [hg, get_eq_some.mpr he'] at this
          exact (Option.some.inj this).symm
        rw [ih l' h.2 (fun x hx => hl x (by simp [hx])) (fun x hx => hl' x (by simp [hx])),
          Prod.ext h.1 h2]
  exact key _ _ hk (fun _ h => h) (fun _ h => h)

end Lookup

section Update

variable [DecidableEq κ]

/-- `set`. -/
def set (m : OrderedMap κ α) (k : κ) (v : α) : OrderedMap κ α :=
  if h : k ∈ m.keys then
    ⟨m.entries.map fun e => if e.1 = k then (k, v) else e, by
      have : (m.entries.map fun e => if e.1 = k then (k, v) else e).map Prod.fst =
          m.entries.map Prod.fst := by
        rw [List.map_map]
        refine List.map_congr_left fun e _ => ?_
        by_cases he : e.1 = k <;> simp [he]
      rw [this]; exact m.nodup⟩
  else
    ⟨m.entries ++ [(k, v)], by
      rw [List.map_append, List.nodup_append]
      refine ⟨m.nodup, by simp, ?_⟩
      intro a ha b hb
      simp only [List.map_cons, List.map_nil, List.mem_singleton] at hb
      rw [hb]
      rintro rfl
      exact h ha⟩

/-- `delete`. -/
def erase (m : OrderedMap κ α) (k : κ) : OrderedMap κ α :=
  ⟨m.entries.filter fun e => e.1 ≠ k, m.nodup.sublist (List.filter_sublist.map _)⟩

theorem entries_set_of_mem {m : OrderedMap κ α} {k : κ} (h : k ∈ m.keys) (v : α) :
    (m.set k v).entries = m.entries.map fun e => if e.1 = k then (k, v) else e := by
  unfold set; rw [dif_pos h]

theorem entries_set_of_not_mem {m : OrderedMap κ α} {k : κ} (h : k ∉ m.keys) (v : α) :
    (m.set k v).entries = m.entries ++ [(k, v)] := by
  unfold set; rw [dif_neg h]

theorem mem_entries_set {m : OrderedMap κ α} {k : κ} {v : α} {e : κ × α} :
    e ∈ (m.set k v).entries ↔ e = (k, v) ∨ e ∈ m.entries ∧ e.1 ≠ k := by
  by_cases h : k ∈ m.keys
  · rw [entries_set_of_mem h, List.mem_map]
    constructor
    · rintro ⟨e', he', rfl⟩
      by_cases hk : e'.1 = k
      · simp [hk]
      · exact Or.inr (by simp [hk, he'])
    · rintro (rfl | ⟨he, hk⟩)
      · obtain ⟨e', he', hk⟩ := List.mem_map.mp h
        exact ⟨e', he', by simp [hk]⟩
      · exact ⟨e, he, by simp [hk]⟩
  · rw [entries_set_of_not_mem h, List.mem_append, List.mem_singleton]
    constructor
    · rintro (he | rfl)
      · exact Or.inr ⟨he, fun hk => h (hk ▸ List.mem_map_of_mem (f := Prod.fst) he)⟩
      · exact Or.inl rfl
    · rintro (rfl | ⟨he, _⟩)
      · exact Or.inr rfl
      · exact Or.inl he

theorem mem_entries_erase {m : OrderedMap κ α} {k : κ} {e : κ × α} :
    e ∈ (m.erase k).entries ↔ e ∈ m.entries ∧ e.1 ≠ k := by
  simp [erase, List.mem_filter]

@[simp] theorem get_set_self (m : OrderedMap κ α) (k : κ) (v : α) : (m.set k v).get k = some v :=
  get_eq_some.mpr (mem_entries_set.mpr (Or.inl rfl))

theorem get_set_of_ne (m : OrderedMap κ α) {k k' : κ} (h : k' ≠ k) (v : α) :
    (m.set k v).get k' = m.get k' := by
  ext w
  rw [get_eq_some, get_eq_some, mem_entries_set]
  simp [h]

theorem get_set (m : OrderedMap κ α) (k k' : κ) (v : α) :
    (m.set k v).get k' = if k' = k then some v else m.get k' := by
  by_cases h : k' = k
  · rw [if_pos h, h, get_set_self]
  · rw [if_neg h, get_set_of_ne m h]

@[simp] theorem get_erase_self (m : OrderedMap κ α) (k : κ) : (m.erase k).get k = none := by
  rw [get_eq_none]
  intro h
  obtain ⟨e, he, rfl⟩ := List.mem_map.mp h
  exact (mem_entries_erase.mp he).2 rfl

theorem get_erase_of_ne (m : OrderedMap κ α) {k k' : κ} (h : k' ≠ k) :
    (m.erase k).get k' = m.get k' := by
  ext w
  rw [get_eq_some, get_eq_some, mem_entries_erase]
  simp [h]

theorem get_erase (m : OrderedMap κ α) (k k' : κ) :
    (m.erase k).get k' = if k' = k then none else m.get k' := by
  by_cases h : k' = k
  · rw [if_pos h, h, get_erase_self]
  · rw [if_neg h, get_erase_of_ne m h]

theorem keys_set_of_mem {m : OrderedMap κ α} {k : κ} (h : k ∈ m.keys) (v : α) :
    (m.set k v).keys = m.keys := by
  unfold keys
  rw [entries_set_of_mem h, List.map_map]
  refine List.map_congr_left fun e _ => ?_
  by_cases he : e.1 = k <;> simp [he]

theorem keys_set_of_not_mem {m : OrderedMap κ α} {k : κ} (h : k ∉ m.keys) (v : α) :
    (m.set k v).keys = m.keys ++ [k] := by
  unfold keys
  rw [entries_set_of_not_mem h]
  simp

theorem mem_keys_set {m : OrderedMap κ α} {k k' : κ} {v : α} :
    k' ∈ (m.set k v).keys ↔ k' = k ∨ k' ∈ m.keys := by
  by_cases h : k ∈ m.keys
  · rw [keys_set_of_mem h]
    exact ⟨Or.inr, fun hk => hk.elim (fun e => e ▸ h) id⟩
  · rw [keys_set_of_not_mem h, List.mem_append, List.mem_singleton, or_comm]

theorem mem_keys_erase {m : OrderedMap κ α} {k k' : κ} :
    k' ∈ (m.erase k).keys ↔ k' ≠ k ∧ k' ∈ m.keys := by
  rw [mem_keys_iff, mem_keys_iff]
  by_cases h : k' = k
  · simp [h]
  · simp [get_erase_of_ne m h, h]

theorem set_set (m : OrderedMap κ α) (k : κ) (v w : α) : (m.set k v).set k w = m.set k w := by
  apply ext_get
  · rw [keys_set_of_mem (mem_keys_set.mpr (.inl rfl))]
    by_cases h : k ∈ m.keys
    · rw [keys_set_of_mem h, keys_set_of_mem h]
    · rw [keys_set_of_not_mem h, keys_set_of_not_mem h]
  · intro k'
    by_cases h : k' = k
    · subst h
      rw [get_set_self, get_set_self]
    · rw [get_set_of_ne _ h, get_set_of_ne _ h, get_set_of_ne _ h]

theorem mem_values_set {m : OrderedMap κ α} {k : κ} {v w : α} (h : w ∈ (m.set k v).values) :
    w = v ∨ w ∈ m.values := by
  obtain ⟨e, he, rfl⟩ := List.mem_map.mp h
  rcases mem_entries_set.mp he with rfl | ⟨he, _⟩
  · exact Or.inl rfl
  · exact Or.inr (List.mem_map_of_mem (f := Prod.snd) he)

theorem mem_values_erase {m : OrderedMap κ α} {k : κ} {w : α} (h : w ∈ (m.erase k).values) :
    w ∈ m.values := by
  obtain ⟨e, he, rfl⟩ := List.mem_map.mp h
  exact List.mem_map_of_mem (f := Prod.snd) (mem_entries_erase.mp he).1

/-- Every value is one of these. -/
def Within (m : OrderedMap κ α) (values : Set α) : Prop := ∀ v ∈ m.values, v ∈ values

namespace Within

variable {m : OrderedMap κ α} {values : Set α}

theorem set (h : m.Within values) (k : κ) {v : α} (hv : v ∈ values) : (m.set k v).Within values := by
  intro w hw
  rcases mem_values_set hw with rfl | hw
  · exact hv
  · exact h w hw

theorem erase (h : m.Within values) (k : κ) : (m.erase k).Within values :=
  fun w hw => h w (mem_values_erase hw)

end Within

end Update

/-! ## Building from entries -/

section OfEntries

variable [DecidableEq κ]

/-- `new Map(entries)`. -/
def ofEntries (l : List (κ × α)) : OrderedMap κ α :=
  l.foldl (fun m e => m.set e.1 e.2) empty

theorem entries_foldl_set (l : List (κ × α)) :
    ∀ m : OrderedMap κ α, (m.keys ++ l.map Prod.fst).Nodup →
      (l.foldl (fun m e => m.set e.1 e.2) m).entries = m.entries ++ l := by
  induction l with
  | nil => intro m _; simp
  | cons e l ih =>
    intro m hn
    have hk : e.1 ∉ m.keys := by
      intro hm
      rw [List.nodup_append] at hn
      exact hn.2.2 _ hm _ (by simp) rfl
    have hn' : ((m.set e.1 e.2).keys ++ l.map Prod.fst).Nodup := by
      rw [keys_set_of_not_mem hk]
      simpa using hn
    rw [List.foldl_cons, ih _ hn', entries_set_of_not_mem hk]
    simp

/-- A list with distinct keys is the entry list of its map. -/
theorem entries_ofEntries {l : List (κ × α)} (h : (l.map Prod.fst).Nodup) :
    (ofEntries l).entries = l := by
  unfold ofEntries
  rw [entries_foldl_set l empty (by simpa [keys] using h)]
  rfl

/-- A map is rebuilt from its entries. -/
theorem ofEntries_entries (m : OrderedMap κ α) : ofEntries m.entries = m :=
  ext (entries_ofEntries m.nodup)

end OfEntries

/-! ## Sums over the values -/

section Total

variable {M : Type*} [AddCommMonoid M]

/-- The sum of a measure over the values. -/
def total (m : OrderedMap κ α) (f : α → M) : M := (m.entries.map fun e => f e.2).sum

@[simp] theorem total_empty (f : α → M) : (empty : OrderedMap κ α).total f = 0 := rfl

theorem size_eq_total (m : OrderedMap κ α) : m.size = m.total fun _ => 1 := by
  simp [size, total]

variable [DecidableEq κ]

theorem total_erase {m : OrderedMap κ α} {k : κ} {v : α} (h : m.get k = some v) (f : α → M) :
    (m.erase k).total f + f v = m.total f := by
  have key : ∀ l : List (κ × α), (l.map Prod.fst).Nodup → (k, v) ∈ l →
      ((l.filter fun e => e.1 ≠ k).map fun e => f e.2).sum + f v = (l.map fun e => f e.2).sum := by
    intro l
    induction l with
    | nil => intro _ hm; simp at hm
    | cons e l ih =>
      intro hn hm
      rw [List.map_cons, List.nodup_cons] at hn
      rcases List.mem_cons.mp hm with rfl | hm'
      · have hl : (l.filter fun e => e.1 ≠ k) = l := by
          rw [List.filter_eq_self]
          intro e' he'
          simp only [ne_eq, decide_not, Bool.not_eq_eq_eq_not, Bool.not_true,
            decide_eq_false_iff_not]
          intro hk
          exact hn.1 (List.mem_map.mpr ⟨e', he', hk⟩)
        rw [List.filter_cons_of_neg (by simp), hl, List.map_cons, List.sum_cons, add_comm]
      · have hne : e.1 ≠ k := by
          rintro rfl
          exact hn.1 (List.mem_map.mpr ⟨_, hm', rfl⟩)
        rw [List.filter_cons_of_pos (by simp [hne]), List.map_cons, List.sum_cons, List.map_cons,
          List.sum_cons, add_assoc, ih hn.2 hm']
  exact key _ m.nodup (get_eq_some.mp h)

theorem total_set_of_not_mem {m : OrderedMap κ α} {k : κ} (h : k ∉ m.keys) (v : α) (f : α → M) :
    (m.set k v).total f = m.total f + f v := by
  unfold total
  rw [entries_set_of_not_mem h, List.map_append, List.sum_append]
  simp

theorem total_set_of_get {m : OrderedMap κ α} {k : κ} {v : α} (h : m.get k = some v) (w : α)
    (f : α → M) : (m.set k w).total f + f v = m.total f + f w := by
  have hset : (m.set k w).get k = some w := get_set_self m k w
  have herase : (m.set k w).erase k = m.erase k := by
    apply ext
    unfold erase
    simp only
    rw [entries_set_of_mem (mem_keys_of_get h), List.filter_map]
    have : (fun e : κ × α => decide (e.1 ≠ k)) ∘ (fun e => if e.1 = k then (k, w) else e) =
        fun e => decide (e.1 ≠ k) := by
      funext e
      by_cases he : e.1 = k <;> simp [he]
    rw [this]
    conv_rhs => rw [← List.map_id (m.entries.filter fun e => decide (e.1 ≠ k))]
    refine List.map_congr_left fun e he => ?_
    have : e.1 ≠ k := by simpa using (List.mem_filter.mp he).2
    simp [this]
  rw [← total_erase hset f, ← total_erase h f, herase, add_assoc, add_assoc, add_comm (f w)]

end Total

theorem total_nonneg {m : OrderedMap κ α} {f : α → ℤ} (h : ∀ v ∈ m.values, 0 ≤ f v) :
    0 ≤ m.total f := by
  refine List.sum_nonneg fun x hx => ?_
  obtain ⟨e, he, rfl⟩ := List.mem_map.mp hx
  exact h _ (List.mem_map_of_mem (f := Prod.snd) he)

section Order

variable [DecidableEq κ]

theorem size_erase_le (m : OrderedMap κ α) (k : κ) : (m.erase k).size ≤ m.size :=
  List.length_filter_le _ _

theorem size_set_of_not_mem {m : OrderedMap κ α} {k : κ} (h : k ∉ m.keys) (v : α) :
    (m.set k v).size = m.size + 1 := by
  rw [size_eq_total, size_eq_total]; exact total_set_of_not_mem h v _

theorem size_set_of_mem {m : OrderedMap κ α} {k : κ} (h : k ∈ m.keys) (v : α) :
    (m.set k v).size = m.size := by
  unfold size; rw [entries_set_of_mem h, List.length_map]

end Order

/-! ## One value per key

A fold that files each element under its own key.  The first element of a key is kept until a
preferred one replaces it. -/

section Preferred

variable [DecidableEq κ] (key : α → κ) (pref : α → Bool)

/-- File `a` under its key unless a value is there and `a` is not preferred. -/
def insertPreferred (m : OrderedMap κ α) (a : α) : OrderedMap κ α :=
  if (m.get (key a)).isNone || pref a then m.set (key a) a else m

/-- The last preferred element of a key, or without one the first element of the key. -/
def preferred (l : List α) (k : κ) : Option α :=
  match (l.filter fun a => key a = k && pref a).getLast? with
  | some a => some a
  | none => l.find? fun a => key a = k

theorem preferred_eq_some {l : List α} {k : κ} {a : α} (h : preferred key pref l k = some a) :
    a ∈ l ∧ key a = k := by
  unfold preferred at h
  rcases hl : (l.filter fun a => key a = k && pref a).getLast? with _ | b
  · rw [hl] at h
    exact ⟨List.mem_of_find?_eq_some h, by simpa using List.find?_some h⟩
  · rw [hl] at h
    cases h
    have hm := List.mem_filter.mp (List.mem_of_getLast? hl)
    simp only [Bool.and_eq_true, decide_eq_true_eq] at hm
    exact ⟨hm.1, hm.2.1⟩

theorem preferred_isSome {l : List α} {a : α} (h : a ∈ l) :
    (preferred key pref l (key a)).isSome := by
  unfold preferred
  rcases (l.filter fun b => key b = key a && pref b).getLast? with _ | b
  · exact List.find?_isSome.mpr ⟨a, h, by simp⟩
  · rfl

/-- A preferred element of the key is deposed by preferred elements only. -/
theorem preferred_of_pref {l : List α} {a : α} (h : a ∈ l) (hp : pref a = true) :
    ∃ b, preferred key pref l (key a) = some b ∧ pref b = true := by
  have hm : a ∈ l.filter fun b => key b = key a && pref b :=
    List.mem_filter.mpr ⟨h, by simp [hp]⟩
  unfold preferred
  rcases hl : (l.filter fun b => key b = key a && pref b).getLast? with _ | b
  · rw [List.getLast?_eq_none_iff.mp hl] at hm; simp at hm
  · have hb := (List.mem_filter.mp (List.mem_of_getLast? hl)).2
    simp only [Bool.and_eq_true] at hb
    exact ⟨b, rfl, hb.2⟩

theorem preferred_append_singleton (l : List α) (a : α) (k : κ) :
    preferred key pref (l ++ [a]) k =
      if key a = k ∧ (preferred key pref l k = none ∨ pref a = true) then some a
      else preferred key pref l k := by
  unfold preferred
  rw [List.filter_append, List.find?_append]
  generalize l.filter (fun a => key a = k && pref a) = f
  generalize l.find? (fun a => key a = k) = o
  by_cases hk : key a = k
  · by_cases hp : pref a = true
    · simp [hk, hp]
    · rcases hf : f.getLast? with _ | b
      · cases o <;> simp [hk, hp, hf]
      · simp [hp, hf]
  · rcases hf : f.getLast? with _ | b
    · cases o <;> simp [hk, hf]
    · simp [hk, hf]

theorem get_insertPreferred (m : OrderedMap κ α) (a : α) (k : κ) :
    (insertPreferred key pref m a).get k =
      if key a = k ∧ (m.get k = none ∨ pref a = true) then some a else m.get k := by
  unfold insertPreferred
  by_cases hk : key a = k
  · subst hk
    by_cases h : m.get (key a) = none ∨ pref a = true
    · rw [if_pos (by simpa using h), if_pos ⟨rfl, h⟩, get_set_self]
    · rw [if_neg (by simpa using h), if_neg (not_and_of_not_right _ h)]
  · rw [if_neg (not_and_of_not_left _ hk)]
    split_ifs
    · exact get_set_of_ne _ (Ne.symm hk) a
    · rfl

/-- The fold files under each key its preferred element. -/
theorem get_foldl_insertPreferred (l : List α) (k : κ) :
    (l.foldl (insertPreferred key pref) empty).get k = preferred key pref l k := by
  induction l using List.reverseRecOn with
  | nil => rfl
  | append_singleton l a ih =>
    rw [List.foldl_append, List.foldl_cons, List.foldl_nil, get_insertPreferred,
      preferred_append_singleton, ih]

/-- The values of the fold are filed under their keys. -/
theorem map_values_insertPreferred (l : List α) :
    (l.foldl (insertPreferred key pref) empty).values.map key =
      (l.foldl (insertPreferred key pref) empty).keys := by
  unfold values keys
  rw [List.map_map]
  refine List.map_congr_left fun e he => ?_
  have hg := get_eq_some.mpr he
  rw [get_foldl_insertPreferred] at hg
  exact (preferred_eq_some key pref hg).2

theorem mem_values_insertPreferred (l : List α) (a : α) :
    a ∈ (l.foldl (insertPreferred key pref) empty).values ↔
      preferred key pref l (key a) = some a := by
  rw [← get_foldl_insertPreferred]
  constructor
  · intro h
    obtain ⟨e, he, rfl⟩ := List.mem_map.mp h
    have hg := get_eq_some.mpr he
    have hk : key e.2 = e.1 := by
      rw [get_foldl_insertPreferred] at hg
      exact (preferred_eq_some key pref hg).2
    rw [hk]; exact hg
  · exact mem_values_of_get

end Preferred

end OrderedMap

end Js
