import BbShared.WorkerLifecycle

/-!
# Redaction

What `redactSecrets` leaves of a text.  A replacement looks at runs of `[A-Za-z0-9_-]` only, and the
brackets around `[redacted]` end every run: no replacement leaves a match of its own, makes one of
another, or touches what another has put in.
-/

namespace BbShared

open Js

def redactedMark : Text := "[redacted]".toList

/-- `pre[A-Za-z0-9_-]{least,}` matches at the start of the text. -/
def MatchesAt (pre : Text) (least : ℕ) (s : Text) : Prop :=
  ∃ w r, s = pre ++ w ++ r ∧ w.length = least ∧ ∀ c ∈ w, isTokenChar c = true

/-- It matches nowhere. -/
def MatchFree (pre : Text) (least : ℕ) (s : Text) : Prop := ∀ v, v <:+ s → ¬ MatchesAt pre least v

/-- A replacement, from left to right. -/
inductive Redacts (pre : Text) (least : ℕ) : Text → Text → Prop
  | nil : Redacts pre least [] []
  | keep {c : Char} {s t : Text} : ¬ MatchesAt pre least (c :: s) → Redacts pre least s t →
      Redacts pre least (c :: s) (c :: t)
  | mark {w r t : Text} : least ≤ w.length → (∀ c ∈ w, isTokenChar c = true) →
      Redacts pre least r t → Redacts pre least (pre ++ w ++ r) (redactedMark ++ t)

theorem tokens_append {s t : Text} (hs : ∀ c ∈ s, isTokenChar c = true)
    (ht : ∀ c ∈ t, isTokenChar c = true) : ∀ c ∈ s ++ t, isTokenChar c = true := by
  intro c hc
  rcases List.mem_append.mp hc with hc | hc
  · exact hs c hc
  · exact ht c hc

section Pass

variable {pre pre' : Text} {least least' : ℕ} {s t : Text}

theorem matchesAt_iff : MatchesAt pre least s ↔
    ∃ r, s.dropPrefix? pre = some r ∧ least ≤ (r.takeWhile isTokenChar).length := by
  constructor
  · rintro ⟨w, r, rfl, rfl, hw⟩
    refine ⟨w ++ r, by rw [List.append_assoc, dropPrefix?_append], ?_⟩
    rw [List.takeWhile_append_of_pos hw, List.length_append]
    omega
  · rintro ⟨r, hr, hl⟩
    obtain rfl := dropPrefix?_eq_some.mp hr
    refine ⟨(r.takeWhile isTokenChar).take least, (r.takeWhile isTokenChar).drop least ++
      r.dropWhile isTokenChar, ?_, ?_, fun c hc => ?_⟩
    · rw [List.append_assoc, ← List.append_assoc (List.take _ _), List.take_append_drop,
        List.takeWhile_append_dropWhile]
    · rw [List.length_take]
      omega
    · exact List.mem_takeWhile_imp (List.mem_of_mem_take hc)

theorem matchesAt_run {w r : Text} (hl : least ≤ w.length)
    (hw : ∀ c ∈ w, isTokenChar c = true) : MatchesAt pre least (pre ++ w ++ r) := by
  refine ⟨w.take least, w.drop least ++ r, ?_, ?_, fun c hc => hw c (List.mem_of_mem_take hc)⟩
  · rw [List.append_assoc, List.append_assoc, ← List.append_assoc (List.take _ _),
      List.take_append_drop]
  · rw [List.length_take]
    omega

/-- The program's loop is a replacement. -/
theorem redacts_redactRuns (hpos : 0 < pre.length + least) :
    ∀ {n : ℕ} {s : Text}, s.length ≤ n → Redacts pre least s (redactRuns pre least n s) := by
  intro n
  induction n with
  | zero =>
    intro s hs
    obtain rfl := List.eq_nil_of_length_eq_zero (Nat.le_zero.mp hs)
    exact .nil
  | succ n ih =>
    intro s hs
    cases s with
    | nil => exact .nil
    | cons c s =>
      have hle : s.length ≤ n := Nat.le_of_succ_le_succ hs
      unfold redactRuns
      cases hd : (c :: s).dropPrefix? pre with
      | none =>
        refine .keep (fun hm => ?_) (ih hle)
        obtain ⟨r, hr, -⟩ := matchesAt_iff.mp hm
        rw [hd] at hr
        cases hr
      | some r =>
        simp only
        split_ifs with hl
        · have hsplit : c :: s = pre ++ r.takeWhile isTokenChar ++ r.dropWhile isTokenChar := by
            rw [List.append_assoc, List.takeWhile_append_dropWhile]
            exact dropPrefix?_eq_some.mp hd
          have hlen : (r.dropWhile isTokenChar).length ≤ n := by
            have := congrArg List.length hsplit
            simp only [List.length_append, List.length_cons] at this
            omega
          rw [hsplit]
          exact .mark hl (fun d hm => List.mem_takeWhile_imp hm) (ih hlen)
        · refine .keep (fun hm => ?_) (ih hle)
          obtain ⟨r', hr', hl'⟩ := matchesAt_iff.mp hm
          rw [hd] at hr'
          obtain rfl := Option.some.inj hr'
          exact hl hl'

/-- Where nothing matches, nothing is replaced. -/
theorem Redacts.eq_self (h : Redacts pre least s t) (hfree : MatchFree pre least s) : t = s := by
  induction h with
  | nil => rfl
  | keep _ _ ih => rw [ih fun v hv => hfree v (hv.trans (List.suffix_cons _ _))]
  | @mark w r t hl hw _ _ =>
    exact absurd (matchesAt_run hl hw) (hfree _ List.suffix_rfl)

theorem Redacts.eq_nil (hpos : 0 < pre.length + least) (h : Redacts pre least [] t) : t = [] := by
  generalize hsrc : ([] : Text) = src at h
  cases h with
  | nil => rfl
  | keep _ _ => cases hsrc
  | @mark w r t hl _ _ =>
    have := congrArg List.length hsrc
    simp only [List.length_append, List.length_nil] at this
    omega

/-- The run at the start of the result was there before. -/
theorem Redacts.takeWhile_prefix (h : Redacts pre least s t) : t.takeWhile isTokenChar <+: s := by
  induction h with
  | nil => exact List.nil_prefix
  | @keep c s t _ _ ih =>
    rw [List.takeWhile_cons]
    split_ifs
    · exact List.cons_prefix_cons.mpr ⟨rfl, ih⟩
    · exact List.nil_prefix
  | mark _ _ _ _ => exact List.nil_prefix

/-- A match looks at one run. -/
theorem MatchesAt.mono {c : Char} (hpre : ∀ c ∈ pre, isTokenChar c = true)
    (h : MatchesAt pre least (c :: t)) (hrun : t.takeWhile isTokenChar <+: s) :
    MatchesAt pre least (c :: s) := by
  obtain ⟨w, r, hsplit, hl, hw⟩ := h
  have htok : ∀ d ∈ pre ++ w, isTokenChar d = true := tokens_append hpre hw
  cases hm : pre ++ w with
  | nil =>
    refine ⟨w, c :: s, ?_, hl, hw⟩
    rw [hm]
    rfl
  | cons d u =>
    rw [hm] at hsplit htok
    rw [List.cons_append] at hsplit
    obtain ⟨rfl, rfl⟩ := List.cons.inj hsplit
    have hu : u <+: s := by
      refine List.IsPrefix.trans ?_ hrun
      rw [List.takeWhile_append_of_pos fun x hx => htok x (List.mem_cons_of_mem _ hx)]
      exact List.prefix_append _ _
    obtain ⟨r', rfl⟩ := hu
    exact ⟨w, r', by rw [hm]; rfl, hl, hw⟩

/-- The mark is no part of a match. -/
def Quiet (pre : Text) (least : ℕ) : Prop :=
  ∀ m, m <:+ redactedMark → m ≠ [] → ∀ s, ¬ MatchesAt pre least (m ++ s)

theorem suffix_append {a v : Text} (h : v <:+ a ++ t) :
    v <:+ t ∨ ∃ m, m <:+ a ∧ m ≠ [] ∧ v = m ++ t := by
  induction a with
  | nil => exact .inl h
  | cons c a ih =>
    rcases List.suffix_cons_iff.mp h with rfl | h
    · exact .inr ⟨c :: a, List.suffix_rfl, by simp, rfl⟩
    · exact (ih h).imp_right fun ⟨m, hm, hne, hv⟩ => ⟨m, hm.trans (List.suffix_cons _ _), hne, hv⟩

/-- **Step lemma.** A replacement keeps a text free of the matches of a pattern, and frees it of its
own. -/
theorem Redacts.matchFree (h : Redacts pre least s t) (hpre : ∀ c ∈ pre', isTokenChar c = true)
    (hquiet : Quiet pre' least')
    (hfree : MatchFree pre' least' s ∨ pre' = pre ∧ least' = least) :
    MatchFree pre' least' t := by
  induction h with
  | nil =>
    rcases hfree with hfree | ⟨rfl, rfl⟩
    · exact hfree
    · rintro v hv ⟨w, r, hsplit, hl, hw⟩
      -- an empty match would match at the mark as well
      obtain rfl := List.suffix_nil.mp hv
      obtain ⟨hp, rfl, -⟩ : pre' = [] ∧ w = [] ∧ r = [] := by simpa using hsplit.symm
      exact hquiet redactedMark List.suffix_rfl (by decide) [] ⟨[], _, by rw [hp]; rfl, hl, hw⟩
  | @keep c s t hno hst ih =>
    intro v hv
    rcases List.suffix_cons_iff.mp hv with rfl | hv
    · intro hm
      have hs := hm.mono hpre hst.takeWhile_prefix
      rcases hfree with hfree | ⟨rfl, rfl⟩
      · exact hfree _ List.suffix_rfl hs
      · exact hno hs
    · exact ih (hfree.imp_left fun hf v hv => hf v (hv.trans (List.suffix_cons _ _))) v hv
  | @mark w r t hl hw _ ih =>
    intro v hv
    rcases suffix_append hv with hv | ⟨m, hm, hne, rfl⟩
    · exact ih (hfree.imp_left fun hf v hv => hf v (hv.trans (List.suffix_append _ _))) v hv
    · exact hquiet m hm hne _

/-- A replacement passes over the mark. -/
theorem Redacts.of_mark (hquiet : Quiet pre least) (h : Redacts pre least (redactedMark ++ s) t) :
    ∃ u, t = redactedMark ++ u ∧ Redacts pre least s u := by
  have key : ∀ m, m <:+ redactedMark → ∀ t, Redacts pre least (m ++ s) t →
      ∃ u, t = m ++ u ∧ Redacts pre least s u := by
    intro m
    induction m with
    | nil => exact fun _ t h => ⟨t, rfl, h⟩
    | cons c m ih =>
      intro hm t h
      have hno := hquiet (c :: m) hm (by simp) s
      generalize hsrc : c :: m ++ s = src at h hno
      cases h with
      | nil => cases hsrc
      | keep _ hrest =>
        obtain ⟨rfl, rfl⟩ := List.cons.inj hsrc
        obtain ⟨u, rfl, hu⟩ := ih ((List.suffix_cons _ _).trans hm) _ hrest
        exact ⟨u, rfl, hu⟩
      | @mark w r t hl hw _ =>
        exact absurd (matchesAt_run hl hw) hno
  exact key _ List.suffix_rfl _ h

end Pass

/-! ## What is hidden -/

/-- A character that stays, or a run with the mark in its place. -/
inductive Piece where
  | kept (c : Char)
  | hidden (run : Text)

def Piece.source : Piece → Text
  | .kept c => [c]
  | .hidden run => run

def Piece.shown : Piece → Text
  | .kept c => [c]
  | .hidden _ => redactedMark

/-- A handle, a bearer or a credential, or a run of at least 32 characters. -/
def SecretShaped (run : Text) : Prop :=
  (∀ c ∈ run, isTokenChar c = true) ∧
    ((∃ c w, run = "bbsh_".toList ++ c :: w) ∨ (∃ c w, run = "bbcm_".toList ++ c :: w) ∨
      32 ≤ run.length)

/-- The characters of a run stay together. -/
theorem pieces_of_run {run r : Text} (hrun : ∀ c ∈ run, isTokenChar c = true) :
    ∀ pieces : List Piece, pieces.flatMap Piece.shown = run ++ r →
      ∃ rest, pieces = run.map .kept ++ rest ∧ rest.flatMap Piece.shown = r := by
  induction run with
  | nil => exact fun pieces h => ⟨pieces, rfl, h⟩
  | cons c run ih =>
    intro pieces h
    cases pieces with
    | nil => cases h
    | cons p pieces =>
      rw [List.flatMap_cons] at h
      cases p with
      | kept d =>
        obtain ⟨rfl, htail⟩ := List.cons.inj h
        obtain ⟨rest, rfl, hr⟩ := ih (fun d hd => hrun d (List.mem_cons_of_mem _ hd)) pieces htail
        exact ⟨rest, rfl, hr⟩
      | hidden run' =>
        -- the mark begins with a bracket
        have hc : '[' = c := (List.cons.inj h).1
        exact absurd (hrun c (by simp)) (hc ▸ by decide)

theorem source_kept (run : Text) : (run.map Piece.kept).flatMap Piece.source = run := by
  induction run with
  | nil => rfl
  | cons c run ih =>
    rw [List.map_cons, List.flatMap_cons, ih]
    rfl

theorem shown_kept (run : Text) : (run.map Piece.kept).flatMap Piece.shown = run := by
  induction run with
  | nil => rfl
  | cons c run ih =>
    rw [List.map_cons, List.flatMap_cons, ih]
    rfl

/-- A replacement hides more of the same text. -/
theorem pieces_of_redacts {pre : Text} {least : ℕ} (hpre : ∀ c ∈ pre, isTokenChar c = true)
    (hpos : 0 < pre.length + least) (hquiet : Quiet pre least)
    (hshape : ∀ w, least ≤ w.length → (∀ c ∈ w, isTokenChar c = true) → SecretShaped (pre ++ w)) :
    ∀ (n : ℕ) (ps : List Piece) (t : Text), ps.length ≤ n →
      Redacts pre least (ps.flatMap Piece.shown) t →
      ∃ qs : List Piece, qs.flatMap Piece.source = ps.flatMap Piece.source ∧
        qs.flatMap Piece.shown = t ∧
        ∀ run, .hidden run ∈ qs → .hidden run ∈ ps ∨ SecretShaped run := by
  intro n
  induction n with
  | zero =>
    intro ps t hn h
    obtain rfl := List.eq_nil_of_length_eq_zero (Nat.le_zero.mp hn)
    obtain rfl := h.eq_nil hpos
    exact ⟨[], rfl, rfl, fun run hm => .inl hm⟩
  | succ n ih =>
    intro ps t hn h
    cases ps with
    | nil =>
      obtain rfl := h.eq_nil hpos
      exact ⟨[], rfl, rfl, fun run hm => .inl hm⟩
    | cons p ps =>
      have hle : ps.length ≤ n := Nat.le_of_succ_le_succ hn
      rw [List.flatMap_cons] at h
      cases p with
      | hidden run =>
        obtain ⟨u, rfl, hu⟩ := h.of_mark hquiet
        obtain ⟨qs, hsource, hshown, hq⟩ := ih ps u hle hu
        refine ⟨.hidden run :: qs, ?_, ?_, fun run' hm => ?_⟩
        · rw [List.flatMap_cons, List.flatMap_cons, hsource]
        · rw [List.flatMap_cons, hshown]
          rfl
        · rcases List.mem_cons.mp hm with hm | hm
          · exact .inl (hm ▸ List.mem_cons_self ..)
          · exact (hq run' hm).imp_left (List.mem_cons_of_mem _)
      | kept c =>
        generalize hsrc : Piece.shown (.kept c) ++ ps.flatMap Piece.shown = src at h
        cases h with
        | nil => cases hsrc
        | keep _ hrest =>
          obtain ⟨rfl, rfl⟩ := List.cons.inj hsrc
          obtain ⟨qs, hsource, hshown, hq⟩ := ih ps _ hle hrest
          refine ⟨.kept c :: qs, ?_, ?_, fun run hm => ?_⟩
          · rw [List.flatMap_cons, List.flatMap_cons, hsource]
          · rw [List.flatMap_cons, hshown]
            rfl
          · rcases List.mem_cons.mp hm with hm | hm
            · cases hm
            · exact (hq run hm).imp_left (List.mem_cons_of_mem _)
        | @mark w r t hl hw hrest =>
          obtain ⟨rest, hps, rfl⟩ := pieces_of_run (tokens_append hpre hw) (.kept c :: ps) hsrc
          have hlen : rest.length ≤ n := by
            have := congrArg List.length hps
            simp only [List.length_cons, List.length_append, List.length_map] at this
            omega
          obtain ⟨qs, hsource, hshown, hq⟩ := ih rest t hlen hrest
          refine ⟨.hidden (pre ++ w) :: qs, ?_, ?_, fun run hm => ?_⟩
          · rw [hps, List.flatMap_cons, List.flatMap_append, source_kept, hsource]
            rfl
          · rw [List.flatMap_cons, hshown]
            rfl
          · rcases List.mem_cons.mp hm with hm | hm
            · obtain rfl := Piece.hidden.inj hm
              exact .inr (hshape w hl hw)
            · refine (hq run hm).imp_left fun hm => ?_
              rw [hps]
              exact List.mem_append_right _ hm

/-! ## The three patterns -/

theorem quiet_of_head {c : Char} {pre : Text} (hc : c ∉ redactedMark) (least : ℕ) :
    Quiet (c :: pre) least := by
  rintro m hm hne s ⟨w, r, hsplit, -, -⟩
  cases m with
  | nil => exact hne rfl
  | cons d m =>
    have hd : d = c := (List.cons.inj hsplit).1
    exact hc (hd ▸ hm.subset (List.mem_cons_self ..))

/-- A run of 32 characters is longer than the mark. -/
theorem quiet_nil : Quiet [] 32 := by
  rintro m hm hne s ⟨w, r, hsplit, hl, hw⟩
  have hlen : m.length ≤ 10 := hm.length_le
  obtain ⟨m, c, rfl⟩ := (List.eq_nil_or_concat' m).resolve_left hne
  have hc : c = ']' := by
    have hlast : (m ++ [c]).getLast (by simp) = redactedMark.getLast (by decide) :=
      hm.getLast (by simp)
    rw [List.getLast_concat] at hlast
    exact hlast
  have hmem : c ∈ w := by
    have htake : (m ++ [c] ++ s).take 32 = w := by
      rw [hsplit, List.nil_append, ← hl, List.take_left]
    rw [← htake, List.append_assoc, List.take_append]
    refine List.mem_append_right _ ?_
    simp only [List.length_append, List.length_singleton] at hlen
    obtain ⟨k, hk⟩ : ∃ k, 32 - m.length = k + 1 := ⟨31 - m.length, by omega⟩
    rw [hk]
    simp
  exact absurd (hw c hmem) (hc ▸ by decide)

theorem token_bbsh : ∀ c ∈ "bbsh_".toList, isTokenChar c = true := by decide

theorem token_bbcm : ∀ c ∈ "bbcm_".toList, isTokenChar c = true := by decide

theorem quiet_bbsh : Quiet "bbsh_".toList 1 := quiet_of_head (by decide) 1

theorem quiet_bbcm : Quiet "bbcm_".toList 1 := quiet_of_head (by decide) 1

theorem shaped_bbsh (w : Text) (hl : 1 ≤ w.length) (hw : ∀ c ∈ w, isTokenChar c = true) :
    SecretShaped ("bbsh_".toList ++ w) := by
  obtain ⟨c, w, rfl⟩ := List.exists_cons_of_length_pos hl
  exact ⟨tokens_append token_bbsh hw, .inl ⟨c, w, rfl⟩⟩

theorem shaped_bbcm (w : Text) (hl : 1 ≤ w.length) (hw : ∀ c ∈ w, isTokenChar c = true) :
    SecretShaped ("bbcm_".toList ++ w) := by
  obtain ⟨c, w, rfl⟩ := List.exists_cons_of_length_pos hl
  exact ⟨tokens_append token_bbcm hw, .inr (.inl ⟨c, w, rfl⟩)⟩

theorem shaped_long (w : Text) (hl : 32 ≤ w.length) (hw : ∀ c ∈ w, isTokenChar c = true) :
    SecretShaped ([] ++ w) :=
  ⟨hw, .inr (.inr hl)⟩

/-- The passes of `redactSecrets`. -/
theorem redactSecrets_passes (text : Text) : ∃ a b, Redacts "bbsh_".toList 1 text a ∧
    Redacts "bbcm_".toList 1 a b ∧ Redacts [] 32 b (redactSecrets text) :=
  ⟨_, _, redacts_redactRuns (by decide) le_rfl, redacts_redactRuns (by decide) le_rfl,
    redacts_redactRuns (by decide) le_rfl⟩

/-- No pattern matches in the result. -/
theorem matchFree_redactSecrets (text : Text) :
    MatchFree "bbsh_".toList 1 (redactSecrets text) ∧
      MatchFree "bbcm_".toList 1 (redactSecrets text) ∧ MatchFree [] 32 (redactSecrets text) := by
  obtain ⟨a, b, h₁, h₂, h₃⟩ := redactSecrets_passes text
  have hbbsh := h₁.matchFree token_bbsh quiet_bbsh (.inr ⟨rfl, rfl⟩)
  have hbbcm := h₂.matchFree token_bbcm quiet_bbcm (.inr ⟨rfl, rfl⟩)
  exact ⟨h₃.matchFree token_bbsh quiet_bbsh (.inl (h₂.matchFree token_bbsh quiet_bbsh (.inl hbbsh))),
    h₃.matchFree token_bbcm quiet_bbcm (.inl hbbcm),
    h₃.matchFree (by simp) quiet_nil (.inr ⟨rfl, rfl⟩)⟩

theorem not_infix_of_matchFree {pre : Text} {least : ℕ} {w t : Text}
    (hfree : MatchFree pre least t) (hl : least ≤ w.length)
    (hw : ∀ c ∈ w, isTokenChar c = true) : ¬ pre ++ w <:+: t := by
  rintro ⟨u, r, rfl⟩
  refine hfree (pre ++ w ++ r) ?_ (matchesAt_run hl hw)
  rw [List.append_assoc u]
  exact List.suffix_append _ _

/-- What redaction makes of a text. -/
structure Redacted (text out : Text) : Prop where
  short : ∀ run, run <:+: out → (∀ c ∈ run, isTokenChar c = true) → run.length < 32
  handles : ∀ pre ∈ ["bbsh_".toList, "bbcm_".toList], ∀ c, isTokenChar c = true →
    ¬ pre ++ [c] <:+: out
  stable : redactSecrets out = out
  pieces : ∃ ps : List Piece, ps.flatMap Piece.source = text ∧ ps.flatMap Piece.shown = out ∧
    ∀ run, .hidden run ∈ ps → SecretShaped run
  secrets : ∀ secret, isTunnelSecret secret = true → ¬ secret <:+: out

/-- **Redaction.** The result holds no secret, is what redacting it again gives, and differs from the
text in secret-shaped runs only. -/
theorem redactSecrets_redacted (text : Text) : Redacted text (redactSecrets text) := by
  obtain ⟨hbbsh, hbbcm, hlong⟩ := matchFree_redactSecrets text
  have hshort : ∀ run, run <:+: redactSecrets text → (∀ c ∈ run, isTokenChar c = true) →
      run.length < 32 := by
    intro run hr hrun
    by_contra hl
    exact not_infix_of_matchFree hlong (Nat.le_of_not_lt hl) hrun hr
  refine ⟨hshort, ?_, ?_, ?_, ?_⟩
  · intro pre hpre c hc
    have htok : ∀ d ∈ [c], isTokenChar d = true := by simpa using hc
    rcases List.mem_pair.mp hpre with rfl | rfl
    · exact not_infix_of_matchFree hbbsh le_rfl htok
    · exact not_infix_of_matchFree hbbcm le_rfl htok
  · obtain ⟨a, b, h₁, h₂, h₃⟩ := redactSecrets_passes (redactSecrets text)
    obtain rfl := h₁.eq_self hbbsh
    obtain rfl := h₂.eq_self hbbcm
    exact h₃.eq_self hlong
  · obtain ⟨a, b, h₁, h₂, h₃⟩ := redactSecrets_passes text
    obtain ⟨p, hp, rfl, hpq⟩ := pieces_of_redacts token_bbsh (by decide) quiet_bbsh shaped_bbsh _
      (text.map .kept) a le_rfl (by rw [shown_kept]; exact h₁)
    obtain ⟨q, hq, rfl, hqr⟩ :=
      pieces_of_redacts token_bbcm (by decide) quiet_bbcm shaped_bbcm _ p b le_rfl h₂
    obtain ⟨r, hr, hout, hrs⟩ :=
      pieces_of_redacts (by simp) (by decide) quiet_nil shaped_long _ q _ le_rfl h₃
    refine ⟨r, by rw [hr, hq, hp, source_kept], hout, fun run hm => ?_⟩
    rcases hrs run hm with hm | hs
    · rcases hqr run hm with hm | hs
      · rcases hpq run hm with hm | hs
        · simp at hm
        · exact hs
      · exact hs
    · exact hs
  · intro secret hs hin
    unfold isTunnelSecret at hs
    simp only [Bool.and_eq_true, decide_eq_true_eq, List.all_eq_true] at hs
    exact absurd (hshort secret hin hs.2) (Nat.not_lt.mpr hs.1.1)

end BbShared
