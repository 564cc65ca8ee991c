import Mathlib.Data.List.Basic
import Mathlib.Logic.Basic
import Mathlib.Control.Basic

/-!
# Runs of a machine

A partial step function over states and events, the states its runs reach, and the two ways to
use them: an invariant holds of every reached state, and a list of events reaches one.  An observer
keeps a record beside the state.  What is said of each entry of a history is said with the entries
before it.
-/

namespace Machine

variable {σ ε : Type*} (step : σ → ε → Option σ)

/-- The states that runs from `s` reach when each step meets `ok` beforehand. -/
inductive Reaches (ok : σ → ε → Prop) (s : σ) : σ → Prop
  | refl : Reaches ok s s
  | tail {t u : σ} {e : ε} : Reaches ok s t → ok t e → step t e = some u → Reaches ok s u

variable {step}

/-- One more step, named by its event. -/
theorem Reaches.next {ok : σ → ε → Prop} {s t u : σ} (h : Reaches step ok s t) (e : ε)
    (hok : ok t e) (hstep : step t e = some u) : Reaches step ok s u :=
  h.tail hok hstep

/-- One run after the other. -/
theorem Reaches.trans {ok : σ → ε → Prop} {s t u : σ} (h : Reaches step ok s t)
    (h' : Reaches step ok t u) : Reaches step ok s u := by
  induction h' with
  | refl => exact h
  | tail _ hok hstep ih => exact ih.tail hok hstep

/-- **Invariant rule.** What holds at the start and across each step holds in every state
reached. -/
theorem Reaches.invariant {ok : σ → ε → Prop} {s t : σ} {I : σ → Prop} (h : Reaches step ok s t)
    (start : I s) (next : ∀ ⦃t e u⦄, I t → ok t e → step t e = some u → I u) : I t := by
  induction h with
  | refl => exact start
  | tail _ hok hstep ih => exact next ih hok hstep

/-- Steps that another machine takes, under their own events and condition. -/
theorem Reaches.map {ε' : Type*} {step' : σ → ε' → Option σ} {ok : σ → ε → Prop}
    {ok' : σ → ε' → Prop} {s t : σ} (event : ε' → ε) (h : Reaches step' ok' s t)
    (himp : ∀ t e u, ok' t e → step' t e = some u → ok t (event e) ∧ step t (event e) = some u) :
    Reaches step ok s t := by
  induction h with
  | refl => exact .refl
  | tail _ hok hstep ih =>
    obtain ⟨hok, hstep⟩ := himp _ _ _ hok hstep
    exact ih.tail hok hstep

theorem Reaches.mono {ok ok' : σ → ε → Prop} {s t : σ} (h : Reaches step ok s t)
    (himp : ∀ t e, ok t e → ok' t e) : Reaches step ok' s t :=
  h.map id fun t e _ hok hstep => ⟨himp t e hok, hstep⟩

section Exec

variable (step) (ok : σ → ε → Prop) [∀ s e, Decidable (ok s e)]

/-- Take the events one by one, as long as each meets `ok` and is possible. -/
def exec (s : σ) (es : List ε) : Option σ :=
  es.foldlM (fun t e => if ok t e then step t e else none) s

variable {step ok}

theorem exec_cons_eq_some {s t : σ} {e : ε} {es : List ε} :
    exec step ok s (e :: es) = some t ↔
      ok s e ∧ ∃ u, step s e = some u ∧ exec step ok u es = some t := by
  unfold exec
  rw [List.foldlM_cons]
  by_cases hok : ok s e
  · rw [if_pos hok]
    exact Option.bind_eq_some_iff.trans (and_iff_right hok).symm
  · rw [if_neg hok]
    exact ⟨nofun, fun h => absurd h.1 hok⟩

theorem reaches_of_exec {s t : σ} {es : List ε} (h : exec step ok s es = some t) :
    Reaches step ok s t := by
  have key : ∀ (es : List ε) (u : σ), Reaches step ok s u → exec step ok u es = some t →
      Reaches step ok s t := by
    intro es
    induction es with
    | nil =>
      intro u hu he
      obtain rfl := Option.some.inj he
      exact hu
    | cons e es ih =>
      intro u hu he
      obtain ⟨hok, v, hv, he⟩ := exec_cons_eq_some.mp he
      exact ih v (.tail hu hok hv) he
  exact key es s .refl h

end Exec

/-! ## Calls one after another -/

/-- The calls, each on what the one before it left. -/
inductive Performed {κ : Type*} (does : κ → σ → σ → Prop) : σ → List κ → σ → Prop
  | nil (s : σ) : Performed does s [] s
  | concat {s t u : σ} {calls : List κ} {call : κ} :
      Performed does s calls t → does call t u → Performed does s (calls ++ [call]) u

/-! ## Observers -/

section Observed

variable {η : Type*} (note : σ → ε → σ → η → η)

variable (step) in
/-- The machine with a record of its run, which it does not read. -/
def observed (p : σ × η) (e : ε) : Option (σ × η) := (step p.1 e).map fun t => (t, note p.1 e t p.2)

variable {note}

theorem observed_eq_some {p q : σ × η} {e : ε} :
    observed step note p e = some q ↔ step p.1 e = some q.1 ∧ q.2 = note p.1 e q.1 p.2 := by
  unfold observed
  rw [Option.map_eq_some_iff]
  constructor
  · rintro ⟨t, ht, rfl⟩
    exact ⟨ht, rfl⟩
  · rintro ⟨ht, hq⟩
    exact ⟨q.1, ht, Prod.ext rfl hq.symm⟩

end Observed

/-! ## Total machines -/

section Total

variable (next : σ → ε → σ)

/-- `P` holds of every step of the run over these events. -/
def Always (P : σ → ε → Prop) : σ → List ε → Prop
  | _, [] => True
  | s, e :: es => P s e ∧ Always P (next s e) es

variable {next}

instance decidableAlways {P : σ → ε → Prop} [∀ s e, Decidable (P s e)] :
    ∀ (s : σ) (es : List ε), Decidable (Always next P s es)
  | _, [] => .isTrue trivial
  | s, e :: es =>
    have : Decidable (Always next P (next s e) es) := decidableAlways (next s e) es
    inferInstanceAs (Decidable (P s e ∧ Always next P (next s e) es))

theorem always_concat {P : σ → ε → Prop} {s : σ} {es : List ε} {e : ε} :
    Always next P s (es ++ [e]) ↔ Always next P s es ∧ P (es.foldl next s) e := by
  induction es generalizing s with
  | nil => exact ⟨fun h => ⟨trivial, h.1⟩, fun h => ⟨h.2, trivial⟩⟩
  | cons e' es ih =>
    rw [List.cons_append, List.foldl_cons]
    unfold Always
    rw [ih, and_assoc]

/-- Two properties of steps that agree on the good states agree on runs, if the steps with the
second one stay there.  All steps may be taken to meet a third. -/
theorem always_congr_of {E P Q : σ → ε → Prop} {Good : σ → Prop}
    (same : ∀ s e, Good s → E s e → (P s e ↔ Q s e))
    (stay : ∀ s e, Good s → E s e → Q s e → Good (next s e)) {s : σ} {es : List ε} (hs : Good s)
    (hE : Always next E s es) : Always next P s es ↔ Always next Q s es := by
  induction es generalizing s with
  | nil => exact Iff.rfl
  | cons e es ih =>
    unfold Always at hE ⊢
    rw [same s e hs hE.1]
    exact and_congr_right fun hq => ih (stay s e hs hE.1 hq) hE.2

theorem always_true {s : σ} {es : List ε} : Always next (fun _ _ => True) s es := by
  induction es generalizing s with
  | nil => trivial
  | cons e es ih => exact ⟨trivial, ih⟩

theorem always_congr {P Q : σ → ε → Prop} {Good : σ → Prop}
    (same : ∀ s e, Good s → (P s e ↔ Q s e)) (stay : ∀ s e, Good s → Q s e → Good (next s e))
    {s : σ} {es : List ε} (hs : Good s) : Always next P s es ↔ Always next Q s es :=
  always_congr_of (fun s e hs _ => same s e hs) (fun s e hs _ => stay s e hs) hs always_true

end Total

/-! ## Histories -/

/-- `P` holds of each entry and the entries before it. -/
def Along {α : Type*} (P : List α → α → Prop) (as : List α) : Prop :=
  ∀ before a, before ++ [a] <+: as → P before a

section Along

variable {α : Type*} {P : List α → α → Prop} {as : List α} {a : α}

theorem along_nil : Along P [] := by
  intro before a h
  have hlen := h.length_le
  simp at hlen

theorem along_concat : Along P (as ++ [a]) ↔ Along P as ∧ P as a := by
  constructor
  · exact fun h => ⟨fun before b hb => h before b (hb.trans (List.prefix_append _ _)),
      h as a List.prefix_rfl⟩
  · rintro ⟨h, ha⟩ before b hb
    rcases List.prefix_concat_iff.mp hb with heq | hb
    · obtain ⟨rfl, hlast⟩ := List.append_inj' heq rfl
      obtain rfl := List.singleton_inj.mp hlast
      exact ha
    · exact h before b hb

end Along

end Machine
