import Mathlib.Algebra.BigOperators.Group.Finset.Basic
import Mathlib.Data.List.Forall2
import Mathlib.Tactic.Ring

/-!
# Scripts

A sequential program that asks the outside and goes on with the answer, tells it things, and ends
with a value or an exception.  A run is the list of what has been asked, answered and told; it may
stop anywhere, and nothing is assumed of the answers.

`runs_retry`: the runs of a program that repeats an attempt until one succeeds, fails for good or is
the last.  `Mirrors.runs`: programs that ask alike run alike.
-/

inductive Script (Ask Ans Tell ε α : Type*) where
  | done (r : Except ε α)
  | ask (q : Ask) (next : Ans → Script Ask Ans Tell ε α)
  | tell (n : Tell) (next : Script Ask Ans Tell ε α)

namespace Script

variable {Ask Ans Tell ε ε' α β : Type*}

/-- One step of a run. -/
inductive Entry (Ask Ans Tell : Type*) where
  | asked (q : Ask) (x : Ans)
  | told (n : Tell)
  deriving DecidableEq

/-- Go on with how a script has ended. -/
def settle : Script Ask Ans Tell ε α → (Except ε α → Script Ask Ans Tell ε' β) →
    Script Ask Ans Tell ε' β
  | done r, k => k r
  | ask q next, k => ask q fun x => (next x).settle k
  | tell n next, k => tell n (next.settle k)

/-- Go on with the value; an exception ends both. -/
def bind (s : Script Ask Ans Tell ε α) (k : α → Script Ask Ans Tell ε β) :
    Script Ask Ans Tell ε β :=
  s.settle fun
    | .ok a => k a
    | .error e => done (.error e)

/-- `try` and `catch`. -/
def rescue (s : Script Ask Ans Tell ε α) (handle : ε → Script Ask Ans Tell ε' α) :
    Script Ask Ans Tell ε' α :=
  s.settle fun
    | .ok a => done (.ok a)
    | .error e => handle e

def tells (l : List Tell) (s : Script Ask Ans Tell ε α) : Script Ask Ans Tell ε α := l.foldr tell s

/-- What a script does on a list of answers, as far as they go. -/
def exec : Script Ask Ans Tell ε α → List Ans → List (Entry Ask Ans Tell) × Option (Except ε α)
  | done r, _ => ([], some r)
  | ask _ _, [] => ([], none)
  | ask q next, x :: xs =>
    let (t, o) := exec (next x) xs
    (.asked q x :: t, o)
  | tell n next, xs =>
    let (t, o) := exec next xs
    (.told n :: t, o)

/-! ## Runs -/

/-- The runs of a script, with how they end; `none` if they are not at the end. -/
inductive Runs : Script Ask Ans Tell ε α → List (Entry Ask Ans Tell) → Option (Except ε α) → Prop
  | stop {s : Script Ask Ans Tell ε α} : Runs s [] none
  | done (r : Except ε α) : Runs (done r) [] (some r)
  | ask {q : Ask} {next : Ans → Script Ask Ans Tell ε α} {x : Ans} {t : List (Entry Ask Ans Tell)}
      {o : Option (Except ε α)} : Runs (next x) t o → Runs (ask q next) (.asked q x :: t) o
  | tell {n : Tell} {next : Script Ask Ans Tell ε α} {t : List (Entry Ask Ans Tell)}
      {o : Option (Except ε α)} : Runs next t o → Runs (tell n next) (.told n :: t) o

section Runs

variable {s : Script Ask Ans Tell ε α} {t t' : List (Entry Ask Ans Tell)}

theorem runs_exec (s : Script Ask Ans Tell ε α) (xs : List Ans) :
    Runs s (s.exec xs).1 (s.exec xs).2 := by
  induction s generalizing xs with
  | done r => exact .done r
  | ask q next ih =>
    cases xs with
    | nil => exact .stop
    | cons x xs => exact .ask (ih x xs)
  | tell n next ih => exact .tell (ih xs)

/-- Every run goes on to an end. -/
theorem Runs.finish [Inhabited Ans] {o : Option (Except ε α)} (h : Runs s t o) :
    ∃ t' r, Runs s (t ++ t') (some r) := by
  induction h with
  | @stop s =>
    induction s with
    | done r => exact ⟨[], r, .done r⟩
    | ask q next ih =>
      obtain ⟨t', r, h⟩ := ih default
      exact ⟨.asked q default :: t', r, .ask h⟩
    | tell n next ih =>
      obtain ⟨t', r, h⟩ := ih
      exact ⟨.told n :: t', r, .tell h⟩
  | done r => exact ⟨[], r, .done r⟩
  | ask _ ih =>
    obtain ⟨t', r, h⟩ := ih
    exact ⟨t', r, .ask h⟩
  | tell _ ih =>
    obtain ⟨t', r, h⟩ := ih
    exact ⟨t', r, .tell h⟩

@[simp] theorem runs_done {r r' : Except ε α} :
    Runs (Script.done r : Script Ask Ans Tell ε α) t (some r') ↔ t = [] ∧ r' = r := by
  constructor
  · rintro ⟨⟩
    exact ⟨rfl, rfl⟩
  · rintro ⟨rfl, rfl⟩
    exact .done _

theorem runs_ask {q : Ask} {next : Ans → Script Ask Ans Tell ε α} {r : Except ε α} :
    Runs (Script.ask q next) t (some r) ↔
      ∃ x t', t = .asked q x :: t' ∧ Runs (next x) t' (some r) := by
  constructor
  · rintro ⟨⟩
    exact ⟨_, _, rfl, ‹_›⟩
  · rintro ⟨x, t', rfl, h⟩
    exact .ask h

theorem runs_tells {l : List Tell} {r : Except ε α} :
    Runs (tells l s) t (some r) ↔ ∃ t', t = l.map .told ++ t' ∧ Runs s t' (some r) := by
  induction l generalizing t with
  | nil => exact ⟨fun h => ⟨t, rfl, h⟩, fun ⟨_, ht, h⟩ => ht ▸ h⟩
  | cons n l ih =>
    constructor
    · rintro ⟨⟩
      rename_i _ hrest
      obtain ⟨t', rfl, hs⟩ := ih.mp hrest
      exact ⟨t', rfl, hs⟩
    · rintro ⟨t', rfl, h⟩
      exact .tell (ih.mpr ⟨t', rfl, h⟩)

theorem runs_tells_done {l : List Tell} {r r' : Except ε α} :
    Runs (tells l (Script.done r : Script Ask Ans Tell ε α)) t (some r') ↔
      t = l.map .told ∧ r' = r := by
  rw [runs_tells]
  constructor
  · rintro ⟨t', rfl, h⟩
    obtain ⟨rfl, rfl⟩ := runs_done.mp h
    exact ⟨List.append_nil _, rfl⟩
  · rintro ⟨rfl, rfl⟩
    exact ⟨[], (List.append_nil _).symm, .done _⟩

/-- **Sequence rule.** -/
theorem runs_settle {k : Except ε α → Script Ask Ans Tell ε' β} {r : Except ε' β} :
    Runs (s.settle k) t (some r) ↔
      ∃ t₁ t₂ r', t = t₁ ++ t₂ ∧ Runs s t₁ (some r') ∧ Runs (k r') t₂ (some r) := by
  constructor
  · intro h
    induction s generalizing t with
    | done r' => exact ⟨[], t, r', rfl, .done r', h⟩
    | ask q next ih =>
      obtain ⟨x, t', rfl, hx⟩ := runs_ask.mp h
      obtain ⟨t₁, t₂, r', rfl, h₁, h₂⟩ := ih x hx
      exact ⟨.asked q x :: t₁, t₂, r', rfl, .ask h₁, h₂⟩
    | tell n next ih =>
      cases h with
      | tell h =>
        obtain ⟨t₁, t₂, r', rfl, h₁, h₂⟩ := ih h
        exact ⟨.told n :: t₁, t₂, r', rfl, .tell h₁, h₂⟩
  · rintro ⟨t₁, t₂, r', rfl, h₁, h₂⟩
    generalize ho : some r' = o at h₁
    induction h₁ with
    | stop => cases ho
    | done _ =>
      obtain rfl := Option.some.inj ho
      exact h₂
    | ask _ ih => exact .ask (ih ho)
    | tell _ ih => exact .tell (ih ho)

theorem runs_bind {k : α → Script Ask Ans Tell ε β} {r : Except ε β} :
    Runs (s.bind k) t (some r) ↔
      (∃ e, r = .error e ∧ Runs s t (some (.error e))) ∨
        ∃ t₁ t₂ a, t = t₁ ++ t₂ ∧ Runs s t₁ (some (.ok a)) ∧ Runs (k a) t₂ (some r) := by
  unfold bind
  rw [runs_settle]
  constructor
  · rintro ⟨t₁, t₂, r', rfl, h₁, h₂⟩
    cases r' with
    | ok a => exact .inr ⟨t₁, t₂, a, rfl, h₁, h₂⟩
    | error e =>
      obtain ⟨rfl, rfl⟩ := runs_done.mp h₂
      exact .inl ⟨e, rfl, by rwa [List.append_nil]⟩
  · rintro (⟨e, rfl, h⟩ | ⟨t₁, t₂, a, rfl, h₁, h₂⟩)
    · exact ⟨t, [], .error e, (List.append_nil t).symm, h, .done _⟩
    · exact ⟨t₁, t₂, .ok a, rfl, h₁, h₂⟩

theorem runs_bind_ok {k : α → Script Ask Ans Tell ε β} {b : β} :
    Runs (s.bind k) t (some (.ok b)) ↔
      ∃ t₁ t₂ a, t = t₁ ++ t₂ ∧ Runs s t₁ (some (.ok a)) ∧ Runs (k a) t₂ (some (.ok b)) := by
  rw [runs_bind]
  constructor
  · rintro (⟨e, he, -⟩ | h)
    · cases he
    · exact h
  · exact .inr

theorem runs_rescue {handle : ε → Script Ask Ans Tell ε' α} {r : Except ε' α} :
    Runs (s.rescue handle) t (some r) ↔
      (∃ a, r = .ok a ∧ Runs s t (some (.ok a))) ∨
        ∃ t₁ t₂ e, t = t₁ ++ t₂ ∧ Runs s t₁ (some (.error e)) ∧ Runs (handle e) t₂ (some r) := by
  unfold rescue
  rw [runs_settle]
  constructor
  · rintro ⟨t₁, t₂, r', rfl, h₁, h₂⟩
    cases r' with
    | ok a =>
      obtain ⟨rfl, rfl⟩ := runs_done.mp h₂
      exact .inl ⟨a, rfl, by rwa [List.append_nil]⟩
    | error e => exact .inr ⟨t₁, t₂, e, rfl, h₁, h₂⟩
  · rintro (⟨a, rfl, h⟩ | ⟨t₁, t₂, e, rfl, h₁, h₂⟩)
    · exact ⟨t, [], .ok a, (List.append_nil t).symm, h, .done _⟩
    · exact ⟨t₁, t₂, .error e, rfl, h₁, h₂⟩

end Runs

/-! ## What every run meets -/

/-- Each entry of each run meets `P`. -/
def All (P : Entry Ask Ans Tell → Prop) (s : Script Ask Ans Tell ε α) : Prop :=
  ∀ ⦃t o⦄, Runs s t o → ∀ e ∈ t, P e

section All

variable {P : Entry Ask Ans Tell → Prop} {s : Script Ask Ans Tell ε α}

theorem all_done (r : Except ε α) : All P (done r : Script Ask Ans Tell ε α) := by
  rintro t o h e he
  cases h <;> cases he

theorem all_ask {q : Ask} {next : Ans → Script Ask Ans Tell ε α} (hq : ∀ x, P (.asked q x))
    (h : ∀ x, All P (next x)) : All P (ask q next) := by
  intro t o hr e he
  cases hr with
  | stop => cases he
  | ask hr =>
    rcases List.mem_cons.mp he with rfl | he
    · exact hq _
    · exact h _ hr e he

theorem all_tell {n : Tell} (hn : P (.told n)) (h : All P s) : All P (tell n s) := by
  intro t o hr e he
  cases hr with
  | stop => cases he
  | tell hr =>
    rcases List.mem_cons.mp he with rfl | he
    · exact hn
    · exact h hr e he

theorem all_tells {l : List Tell} (hl : ∀ n ∈ l, P (.told n)) (h : All P s) :
    All P (tells l s) := by
  induction l with
  | nil => exact h
  | cons n l ih =>
    exact all_tell (hl n List.mem_cons_self) (ih fun m hm => hl m (List.mem_cons_of_mem _ hm))

theorem All.settle {k : Except ε α → Script Ask Ans Tell ε' β} (h : All P s)
    (hk : ∀ r, All P (k r)) : All P (s.settle k) := by
  induction s with
  | done r => exact hk r
  | ask q next ih =>
    exact all_ask (fun x => h (.ask .stop) _ List.mem_cons_self) fun x =>
      ih x fun _ _ hr e he => h (.ask hr) e (List.mem_cons_of_mem _ he)
  | tell n next ih =>
    exact all_tell (h (.tell .stop) _ List.mem_cons_self)
      (ih fun _ _ hr e he => h (.tell hr) e (List.mem_cons_of_mem _ he))

theorem All.bind {k : α → Script Ask Ans Tell ε β} (h : All P s) (hk : ∀ a, All P (k a)) :
    All P (s.bind k) :=
  h.settle fun
    | .ok a => hk a
    | .error _ => all_done _

theorem All.rescue {handle : ε → Script Ask Ans Tell ε' α} (h : All P s)
    (hh : ∀ e, All P (handle e)) : All P (s.rescue handle) :=
  h.settle fun
    | .ok _ => all_done _
    | .error e => hh e

end All

/-! ## What comes before what -/

/-- Each entry that `needs` one has an entry before it that it `follows`, and none that `gives`
another comes between them. -/
def Preceded {E : Type*} (needs gives : E → Prop) (follows : E → E → Prop) (t : List E) : Prop :=
  ∀ ⦃l e r⦄, t = l ++ e :: r → needs e →
    ∃ l₁ d l₂, l = l₁ ++ d :: l₂ ∧ follows d e ∧ ∀ c ∈ l₂, ¬ gives c

namespace Preceded

variable {E : Type*} {needs gives : E → Prop} {follows : E → E → Prop} {t u : List E}

theorem of_none (h : ∀ e ∈ t, ¬ needs e) : Preceded needs gives follows t := by
  rintro l e r rfl hn
  exact absurd hn (h e (by simp))

theorem cons {d : E} (hd : ¬ needs d) (hf : ∀ e ∈ t, needs e → follows d e)
    (hg : ∀ e ∈ t, ¬ gives e) : Preceded needs gives follows (d :: t) := by
  intro l e r ht hn
  cases l with
  | nil =>
    obtain rfl := (List.cons.inj ht).1
    exact absurd hn hd
  | cons d' l =>
    obtain ⟨rfl, rfl⟩ := List.cons.inj ht
    exact ⟨[], d, l, rfl, hf e (by simp) hn, fun c hc => hg c (List.mem_append_left _ hc)⟩

theorem append (ht : Preceded needs gives follows t) (hu : Preceded needs gives follows u) :
    Preceded needs gives follows (t ++ u) := by
  intro l e r h hn
  rcases List.append_eq_append_iff.mp h with ⟨m, rfl, hm⟩ | ⟨m, rfl, hm⟩
  · obtain ⟨l₁, d, l₂, rfl, hd, hl⟩ := hu hm hn
    exact ⟨t ++ l₁, d, l₂, by rw [List.append_assoc], hd, hl⟩
  · cases m with
    | nil =>
      obtain ⟨l₁, d, l₂, hl, -⟩ := hu (l := []) hm.symm hn
      simp at hl
    | cons _ m =>
      obtain ⟨rfl, rfl⟩ := List.cons.inj hm
      exact ht rfl hn

theorem of_append (h : Preceded needs gives follows (t ++ u)) : Preceded needs gives follows t := by
  rintro l e r rfl hn
  exact h (r := r ++ u) (by simp) hn

end Preceded

/-! ## What runs cost -/

/-- No run costs more than `n`, entry by entry. -/
def Within (cost : Entry Ask Ans Tell → ℕ) (n : ℕ) (s : Script Ask Ans Tell ε α) : Prop :=
  ∀ ⦃t o⦄, Runs s t o → (t.map cost).sum ≤ n

section Within

variable {cost : Entry Ask Ans Tell → ℕ} {s : Script Ask Ans Tell ε α} {m n : ℕ}

theorem within_done (r : Except ε α) :
    Within cost n (done r : Script Ask Ans Tell ε α) := by
  intro t o h
  cases h <;> exact Nat.zero_le _

theorem Within.mono (h : Within cost m s) (hmn : m ≤ n) : Within cost n s :=
  fun _ _ hr => (h hr).trans hmn

theorem within_ask {q : Ask} {next : Ans → Script Ask Ans Tell ε α}
    (hq : ∀ x, cost (.asked q x) ≤ m) (h : ∀ x, Within cost n (next x)) :
    Within cost (m + n) (ask q next) := by
  intro t o hr
  cases hr with
  | stop => exact Nat.zero_le _
  | ask hr =>
    rw [List.map_cons, List.sum_cons]
    exact Nat.add_le_add (hq _) (h _ hr)

theorem within_tells (l : List Tell) (h : Within cost n s) :
    Within cost ((l.map fun a => cost (.told a)).sum + n) (tells l s) := by
  induction l with
  | nil => exact fun _ _ hr => (h hr).trans (Nat.le_add_left _ _)
  | cons a l ih =>
    intro t o hr
    cases hr with
    | stop => exact Nat.zero_le _
    | tell hr =>
      have := ih hr
      rw [List.map_cons, List.sum_cons, List.map_cons, List.sum_cons]
      omega

/-- **Cost rule.** -/
theorem Within.settle {k : Except ε α → Script Ask Ans Tell ε' β} (h : Within cost m s)
    (hk : ∀ r, Within cost n (k r)) : Within cost (m + n) (s.settle k) := by
  induction s generalizing m with
  | done r => exact fun _ _ hr => (hk r hr).trans (Nat.le_add_left _ _)
  | ask q next ih =>
    intro t o hr
    cases hr with
    | stop => exact Nat.zero_le _
    | @ask _ _ x t _ hr =>
      have hx : cost (.asked q x) ≤ m := h (.ask .stop)
      have hnext : Within cost (m - cost (.asked q x)) (next x) := fun t o hr => by
        have := h (.ask hr)
        rw [List.map_cons, List.sum_cons] at this
        omega
      have := ih x hnext hr
      rw [List.map_cons, List.sum_cons]
      omega
  | tell a next ih =>
    intro t o hr
    cases hr with
    | stop => exact Nat.zero_le _
    | tell hr =>
      have ha : cost (.told a) ≤ m := h (.tell .stop)
      have hnext : Within cost (m - cost (.told a)) next := fun t o hr => by
        have := h (.tell hr)
        rw [List.map_cons, List.sum_cons] at this
        omega
      have := ih hnext hr
      rw [List.map_cons, List.sum_cons]
      omega

theorem Within.bind {k : α → Script Ask Ans Tell ε β} (h : Within cost m s)
    (hk : ∀ a, Within cost n (k a)) : Within cost (m + n) (s.bind k) :=
  h.settle fun
    | .ok a => hk a
    | .error _ => within_done _

theorem Within.rescue {handle : ε → Script Ask Ans Tell ε' α} (h : Within cost m s)
    (hh : ∀ e, Within cost n (handle e)) : Within cost (m + n) (s.rescue handle) :=
  h.settle fun
    | .ok _ => within_done _
    | .error e => hh e

end Within

/-! ## Asking alike -/

/-- Two scripts that differ in what they ask only, up to `R`. -/
inductive Mirrors (R : Ask → Ask → Prop) :
    Script Ask Ans Tell ε α → Script Ask Ans Tell ε α → Prop
  | done (r : Except ε α) : Mirrors R (done r) (done r)
  | ask {q q' : Ask} {next next' : Ans → Script Ask Ans Tell ε α} : R q q' →
      (∀ x, Mirrors R (next x) (next' x)) → Mirrors R (ask q next) (ask q' next')
  | tell (n : Tell) {s s' : Script Ask Ans Tell ε α} : Mirrors R s s' →
      Mirrors R (tell n s) (tell n s')

inductive Entry.Mirrors (R : Ask → Ask → Prop) : Entry Ask Ans Tell → Entry Ask Ans Tell → Prop
  | asked {q q' : Ask} (x : Ans) : R q q' → Entry.Mirrors R (.asked q x) (.asked q' x)
  | told (n : Tell) : Entry.Mirrors R (.told n) (.told n)

section Mirrors

variable {R : Ask → Ask → Prop} {s s' : Script Ask Ans Tell ε α}

theorem Mirrors.refl (hR : ∀ q, R q q) (s : Script Ask Ans Tell ε α) : Mirrors R s s := by
  induction s with
  | done r => exact .done r
  | ask q next ih => exact .ask (hR q) ih
  | tell n next ih => exact .tell n ih

theorem Mirrors.settle {k k' : Except ε α → Script Ask Ans Tell ε' β} (h : Mirrors R s s')
    (hk : ∀ r, Mirrors R (k r) (k' r)) : Mirrors R (s.settle k) (s'.settle k') := by
  induction h with
  | done r => exact hk r
  | ask hq _ ih => exact .ask hq ih
  | tell n _ ih => exact .tell n ih

theorem Mirrors.bind {k k' : α → Script Ask Ans Tell ε β} (h : Mirrors R s s')
    (hk : ∀ a, Mirrors R (k a) (k' a)) : Mirrors R (s.bind k) (s'.bind k') :=
  h.settle fun
    | .ok a => hk a
    | .error _ => .done _

theorem Mirrors.rescue {handle handle' : ε → Script Ask Ans Tell ε' α} (h : Mirrors R s s')
    (hh : ∀ e, Mirrors R (handle e) (handle' e)) :
    Mirrors R (s.rescue handle) (s'.rescue handle') :=
  h.settle fun
    | .ok _ => .done _
    | .error e => hh e

theorem Mirrors.tells {l : List Tell} (h : Mirrors R s s') :
    Mirrors R (tells l s) (tells l s') := by
  induction l with
  | nil => exact h
  | cons n l ih => exact .tell n ih

/-- **Simulation rule.** On the same answers, scripts that mirror each other tell the same things,
end alike and ask alike. -/
theorem Mirrors.runs (h : Mirrors R s s') {t : List (Entry Ask Ans Tell)}
    {o : Option (Except ε α)} (hr : Runs s t o) :
    ∃ t', Runs s' t' o ∧ List.Forall₂ (Entry.Mirrors R) t t' := by
  induction hr generalizing s' with
  | stop => exact ⟨[], .stop, .nil⟩
  | done r =>
    cases h
    exact ⟨[], .done r, .nil⟩
  | ask _ ih =>
    cases h with
    | ask hq hnext =>
      obtain ⟨t', hr, ht⟩ := ih (hnext _)
      exact ⟨_, .ask hr, .cons (.asked _ hq) ht⟩
  | tell _ ih =>
    cases h with
    | tell n hnext =>
      obtain ⟨t', hr, ht⟩ := ih hnext
      exact ⟨_, .tell hr, .cons (.told _) ht⟩

end Mirrors

/-! ## Repeated attempts -/

section Retry

variable (attempt : Script Ask Ans Tell ε α) (again : ε → Bool) (between giveUp : ℕ → ε → List Tell)

/-- At most `left + 1` attempts, numbered from `n`.  An exception that `again` takes leads to the
next one. -/
def retry (n : ℕ) : ℕ → Script Ask Ans Tell ε α
  | 0 => attempt.rescue fun e => tells (giveUp n e) (done (.error e))
  | left + 1 => attempt.rescue fun e =>
    if again e then tells (between n e) (retry (n + 1) left)
    else tells (giveUp n e) (done (.error e))

/-- The runs of attempts that have failed, with their exceptions, and what was told after each. -/
def rounds (n : ℕ) : List (List (Entry Ask Ans Tell) × ε) → List (Entry Ask Ans Tell)
  | [] => []
  | f :: fails => f.1 ++ (between n f.2).map .told ++ rounds (n + 1) fails

/-- What is told at the end. -/
def ending (n : ℕ) : Except ε α → List (Entry Ask Ans Tell)
  | .ok _ => []
  | .error e => (giveUp n e).map .told

/-- A run of attempts: the failed ones, the last one, and what is told after each.  Only an
exception that may not lead to another attempt is not followed by one. -/
structure Retried (n left : ℕ) (t : List (Entry Ask Ans Tell)) (r : Except ε α)
    (fails : List (List (Entry Ask Ans Tell) × ε)) (last : List (Entry Ask Ans Tell)) : Prop where
  trace : t = rounds between n fails ++ (last ++ ending giveUp (n + fails.length) r)
  failed : ∀ f ∈ fails, Runs attempt f.1 (some (.error f.2)) ∧ again f.2 = true
  decided : Runs attempt last (some r)
  few : fails.length ≤ left
  spent : ∀ e, r = .error e → again e = true → fails.length = left

variable {attempt again between giveUp}

theorem Retried.ok {n left : ℕ} {t : List (Entry Ask Ans Tell)} {a : α}
    (h : Runs attempt t (some (.ok a))) :
    Retried attempt again between giveUp n left t (.ok a) [] t :=
  ⟨(List.append_nil t).symm, by simp, h, Nat.zero_le _, fun e he => by cases he⟩

theorem Retried.error {n left : ℕ} {t : List (Entry Ask Ans Tell)} {e : ε}
    (h : Runs attempt t (some (.error e))) (ha : again e = true → left = 0) :
    Retried attempt again between giveUp n left (t ++ (giveUp n e).map .told) (.error e) [] t := by
  refine ⟨rfl, by simp, h, Nat.zero_le _, fun e' he ha' => ?_⟩
  obtain rfl := Except.error.inj he
  exact (ha ha').symm

theorem Retried.cons {n left : ℕ} {t t' last : List (Entry Ask Ans Tell)} {e : ε} {r : Except ε α}
    {fails : List (List (Entry Ask Ans Tell) × ε)} (h : Runs attempt t (some (.error e)))
    (ha : again e = true)
    (hr : Retried attempt again between giveUp (n + 1) left t' r fails last) :
    Retried attempt again between giveUp n (left + 1) (t ++ ((between n e).map .told ++ t')) r
      ((t, e) :: fails) last where
  trace := by
    rw [hr.trace, List.length_cons, show n + (fails.length + 1) = n + 1 + fails.length by ring]
    simp only [rounds, List.append_assoc]
  failed f hf := by
    rcases List.mem_cons.mp hf with rfl | hf
    · exact ⟨h, ha⟩
    · exact hr.failed f hf
  decided := hr.decided
  few := Nat.succ_le_succ hr.few
  spent e' he ha' := by rw [List.length_cons, hr.spent e' he ha']

/-- **Retry rule.** All attempts but the last have failed with exceptions that allow another, and
the last one decides. -/
theorem runs_retry {n left : ℕ} {t : List (Entry Ask Ans Tell)} {r : Except ε α}
    (h : Runs (retry attempt again between giveUp n left) t (some r)) :
    ∃ fails last, Retried attempt again between giveUp n left t r fails last := by
  induction left generalizing n t with
  | zero =>
    rcases runs_rescue.mp h with ⟨a, rfl, ha⟩ | ⟨t₁, t₂, e, rfl, h₁, h₂⟩
    · exact ⟨[], t, .ok ha⟩
    · obtain ⟨rfl, rfl⟩ := runs_tells_done.mp h₂
      exact ⟨[], t₁, .error h₁ fun _ => rfl⟩
  | succ left ih =>
    rcases runs_rescue.mp h with ⟨a, rfl, ha⟩ | ⟨t₁, t₂, e, rfl, h₁, h₂⟩
    · exact ⟨[], t, .ok ha⟩
    by_cases ha : again e = true
    · rw [if_pos ha] at h₂
      obtain ⟨t', rfl, hrest⟩ := runs_tells.mp h₂
      obtain ⟨fails, last, hr⟩ := ih hrest
      exact ⟨(t₁, e) :: fails, last, .cons h₁ ha hr⟩
    · rw [if_neg ha] at h₂
      obtain ⟨rfl, rfl⟩ := runs_tells_done.mp h₂
      exact ⟨[], t₁, .error h₁ fun ha' => absurd ha' ha⟩

/-- What is needed before entries of attempts is there in every run. -/
theorem preceded_retry [Inhabited Ans] {needs gives : Entry Ask Ans Tell → Prop}
    {follows : Entry Ask Ans Tell → Entry Ask Ans Tell → Prop} (hn : ∀ m, ¬ needs (.told m))
    (h : ∀ t r, Runs attempt t (some r) → Preceded needs gives follows t) {n left : ℕ}
    {t : List (Entry Ask Ans Tell)} {o : Option (Except ε α)}
    (ht : Runs (retry attempt again between giveUp n left) t o) :
    Preceded needs gives follows t := by
  have hnotes : ∀ l : List Tell, Preceded needs gives follows (l.map Entry.told) := fun l =>
    .of_none fun e he => by
      obtain ⟨m, -, rfl⟩ := List.mem_map.mp he
      exact hn m
  obtain ⟨t', r, hr⟩ := ht.finish
  obtain ⟨fails, last, htrace, hfails, hlast, -, -⟩ := runs_retry hr
  refine .of_append (u := t') ?_
  rw [htrace]
  refine .append ?_ (.append (h _ _ hlast) ?_)
  · clear htrace hlast
    generalize n = m
    induction fails generalizing m with
    | nil => exact .of_none (by simp [rounds])
    | cons f fails ih =>
      exact .append (.append (h _ _ (hfails f List.mem_cons_self).1) (hnotes _))
        (ih (fun g hg => hfails g (List.mem_cons_of_mem _ hg)) _)
  · cases r with
    | ok a => exact .of_none (by simp [ending])
    | error e => exact hnotes _

/-- What every attempt meets and every note between them, every run meets. -/
theorem all_retry {P : Entry Ask Ans Tell → Prop} (h : All P attempt) {n left : ℕ}
    (hb : ∀ i ≤ left, ∀ e, ∀ m ∈ between (n + i) e, P (.told m))
    (hg : ∀ i ≤ left, ∀ e, ∀ m ∈ giveUp (n + i) e, P (.told m)) :
    All P (retry attempt again between giveUp n left) := by
  induction left generalizing n with
  | zero => exact h.rescue fun e => all_tells (hg 0 le_rfl e) (all_done _)
  | succ left ih =>
    have hshift : ∀ i, n + 1 + i = n + (i + 1) := fun i => by ring
    refine h.rescue fun e => ?_
    split_ifs
    · refine all_tells (hb 0 (Nat.zero_le _) e) (ih (fun i hi => ?_) fun i hi => ?_)
      · rw [hshift]
        exact hb (i + 1) (Nat.succ_le_succ hi)
      · rw [hshift]
        exact hg (i + 1) (Nat.succ_le_succ hi)
    · exact all_tells (hg 0 (Nat.zero_le _) e) (all_done _)

/-- What attempts and the notes between them cost. -/
theorem Within.retry {cost : Entry Ask Ans Tell → ℕ} {m g : ℕ} {w : ℕ → ℕ}
    (h : Within cost m attempt)
    (hb : ∀ n e, ((between n e).map fun a => cost (.told a)).sum ≤ w n)
    (hg : ∀ n e, ((giveUp n e).map fun a => cost (.told a)).sum ≤ g) (n left : ℕ) :
    Within cost ((left + 1) * m + ∑ i ∈ Finset.range left, w (n + i) + g)
      (retry attempt again between giveUp n left) := by
  have last : ∀ n e, Within cost g (tells (giveUp n e) (done (.error e : Except ε α))) :=
    fun n e _ _ hr => (within_tells _ (within_done (n := 0) _) hr).trans (hg n e)
  induction left generalizing n with
  | zero => exact fun _ _ hr => (h.rescue (last n) hr).trans (by simp)
  | succ left ih =>
    rw [Finset.sum_range_succ']
    intro t o hr
    have hnext : ∀ e, Within cost (w n + ((left + 1) * m +
        ∑ i ∈ Finset.range left, w (n + 1 + i) + g))
        (if again e then
            tells (between n e) (Script.retry attempt again between giveUp (n + 1) left)
          else tells (giveUp n e) (done (.error e))) := by
      intro e
      split_ifs
      · exact fun _ _ hr => (within_tells _ (ih (n + 1)) hr).trans (Nat.add_le_add_right (hb n e) _)
      · exact fun _ _ hr => (last n e hr).trans (by omega)
    refine (h.rescue hnext hr).trans (le_of_eq ?_)
    have hshift : ∀ i, n + 1 + i = n + (i + 1) := fun i => by ring
    simp only [hshift, Nat.add_zero]
    ring

theorem Mirrors.retry {R : Ask → Ask → Prop} {attempt' : Script Ask Ans Tell ε α}
    (h : Mirrors R attempt attempt') (n left : ℕ) :
    Mirrors R (retry attempt again between giveUp n left)
      (retry attempt' again between giveUp n left) := by
  induction left generalizing n with
  | zero => exact h.rescue fun e => Mirrors.tells (.done _)
  | succ left ih =>
    refine h.rescue fun e => ?_
    split_ifs
    · exact Mirrors.tells (ih (n + 1))
    · exact Mirrors.tells (.done _)

end Retry

end Script
