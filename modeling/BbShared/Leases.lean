import Mathlib.Data.List.Nodup
import Mathlib.Data.List.Perm.Subperm

/-!
# Leases

A table whose slots are held by tickets, and the jobs that tickets have started.  Tickets are drawn
from a counter.  A slot is busy once its ticket has a job, and a job lives as long as its ticket
holds the slot: no job outlives its slot, no busy slot is without its job, and there are never more
live jobs than slots.
-/

/-- A job, for the ticket that started it and the slot that it works for. -/
structure Lease (κ : Type*) where
  ticket : ℕ
  slot : κ
  live : Bool

/-- The jobs of a table: `owner` are the tickets of its slots, below `next`, and `busy` the slots
whose job has started. -/
structure Leased {κ : Type*} (next : ℕ) (owner : κ → Option ℕ) (busy : κ → Prop)
    (jobs : List (Lease κ)) : Prop where
  drawn : ∀ k n, owner k = some n → n < next
  known : ∀ j ∈ jobs, j.ticket < next
  single : ∀ k k' n, owner k = some n → owner k' = some n → k = k'
  distinct : (jobs.map Lease.ticket).Nodup
  current : ∀ j ∈ jobs, j.live = true → owner j.slot = some j.ticket
  served : ∀ k n, owner k = some n → busy k → ⟨n, k, true⟩ ∈ jobs
  idle : ∀ k n, owner k = some n → ¬ busy k → ∀ j ∈ jobs, j.ticket ≠ n

namespace Lease

variable {κ : Type*}

/-- The ticket's job is told to stop. -/
def stop (n : ℕ) (j : Lease κ) : Lease κ := if j.ticket = n then { j with live := false } else j

@[simp] theorem ticket_stop (n : ℕ) (j : Lease κ) : (j.stop n).ticket = j.ticket := by
  unfold stop
  split_ifs <;> rfl

@[simp] theorem slot_stop (n : ℕ) (j : Lease κ) : (j.stop n).slot = j.slot := by
  unfold stop
  split_ifs <;> rfl

theorem stop_of_ne {n : ℕ} {j : Lease κ} (h : j.ticket ≠ n) : j.stop n = j := if_neg h

theorem live_stop {n : ℕ} {j : Lease κ} :
    (j.stop n).live = true ↔ j.live = true ∧ j.ticket ≠ n := by
  unfold stop
  split_ifs with h
  · exact ⟨nofun, fun hj => absurd h hj.2⟩
  · exact ⟨fun hj => ⟨hj, h⟩, fun hj => hj.1⟩

end Lease

namespace Leased

variable {κ : Type*} {next next' n : ℕ} {owner owner' : κ → Option ℕ} {busy busy' : κ → Prop}
  {jobs jobs' : List (Lease κ)} {k₀ : κ}

theorem empty (h : ∀ k, owner k = none) : Leased next owner busy [] where
  drawn k _ hk := by rw [h k] at hk; cases hk
  known := nofun
  single k _ _ hk := by rw [h k] at hk; cases hk
  distinct := .nil
  current := nofun
  served k _ hk := by rw [h k] at hk; cases hk
  idle _ _ _ _ := nofun

theorem mono (h : Leased next owner busy jobs) (hn : next ≤ next') :
    Leased next' owner busy jobs :=
  { h with
    drawn := fun k n hk => Nat.lt_of_lt_of_le (h.drawn k n hk) hn
    known := fun j hj => Nat.lt_of_lt_of_le (h.known j hj) hn }

/-- The tickets of the slots are the same, and so are the busy ones. -/
theorem congr (h : Leased next owner busy jobs) (ho : ∀ k, owner' k = owner k)
    (hb : ∀ k n, owner k = some n → (busy' k ↔ busy k)) : Leased next owner' busy' jobs := by
  obtain rfl : owner' = owner := funext ho
  exact { h with
    served := fun k n hk hbusy => h.served k n hk ((hb k n hk).mp hbusy)
    idle := fun k n hk hidle => h.idle k n hk fun hbusy => hidle ((hb k n hk).mpr hbusy) }

/-- **Drawing rule.** A free slot is taken with the next ticket, and is not busy yet. -/
theorem draw (h : Leased next owner busy jobs) (hfree : owner k₀ = none)
    (h₀ : owner' k₀ = some next) (ho : ∀ k, k ≠ k₀ → owner' k = owner k)
    (hb : ∀ k, k ≠ k₀ → (busy' k ↔ busy k)) (hidle : ¬ busy' k₀) :
    Leased (next + 1) owner' busy' jobs := by
  have hold : ∀ k m, owner' k = some m → k = k₀ ∧ m = next ∨ k ≠ k₀ ∧ owner k = some m := by
    intro k m hk
    by_cases hne : k = k₀
    · subst hne
      exact .inl ⟨rfl, (Option.some.inj (h₀.symm.trans hk)).symm⟩
    · exact .inr ⟨hne, (ho k hne).symm.trans hk⟩
  refine ⟨fun k m hk => ?_, fun j hj => Nat.lt_succ_of_lt (h.known j hj),
    fun k k' m hk hk' => ?_, h.distinct, fun j hj hl => ?_, fun k m hk hbusy => ?_,
    fun k m hk hn j hj => ?_⟩
  · rcases hold k m hk with ⟨-, rfl⟩ | ⟨-, hk⟩
    · exact Nat.lt_succ_self _
    · exact Nat.lt_succ_of_lt (h.drawn k m hk)
  · rcases hold k m hk with ⟨rfl, rfl⟩ | ⟨-, hk⟩
    · rcases hold k' m hk' with ⟨rfl, -⟩ | ⟨-, hk'⟩
      · rfl
      · exact absurd (h.drawn k' m hk') (Nat.lt_irrefl _)
    · rcases hold k' m hk' with ⟨rfl, rfl⟩ | ⟨-, hk'⟩
      · exact absurd (h.drawn k m hk) (Nat.lt_irrefl _)
      · exact h.single k k' m hk hk'
  · have hslot := h.current j hj hl
    refine (ho _ ?_).trans hslot
    rintro hk
    rw [hk, hfree] at hslot
    cases hslot
  · rcases hold k m hk with ⟨rfl, rfl⟩ | ⟨hne, hk⟩
    · exact absurd hbusy hidle
    · exact h.served k m hk ((hb k hne).mp hbusy)
  · rcases hold k m hk with ⟨rfl, rfl⟩ | ⟨hne, hk⟩
    · exact Nat.ne_of_lt (h.known j hj)
    · exact h.idle k m hk (fun hbusy => hn ((hb k hne).mpr hbusy)) j hj

/-- **Starting rule.** The job of an idle slot starts. -/
theorem start (h : Leased next owner busy jobs) (hk : owner k₀ = some n) (hidle : ¬ busy k₀)
    (ho : ∀ k, owner' k = owner k) (hb : ∀ k, busy' k ↔ k = k₀ ∨ busy k) :
    Leased next owner' busy' (jobs ++ [⟨n, k₀, true⟩]) := by
  obtain rfl : owner' = owner := funext ho
  have hnew : ∀ j ∈ jobs, j.ticket ≠ n := h.idle k₀ n hk hidle
  refine ⟨h.drawn, fun j hj => ?_, h.single, ?_, fun j hj hl => ?_, fun k m hk' hbusy => ?_,
    fun k m hk' hn j hj => ?_⟩
  · rcases List.mem_append.mp hj with hj | hj
    · exact h.known j hj
    · rw [List.mem_singleton.mp hj]
      exact h.drawn k₀ n hk
  · rw [List.map_append]
    refine List.nodup_append.mpr ⟨h.distinct, List.nodup_singleton _, ?_⟩
    rintro m hm l hl rfl
    obtain ⟨j, hj, rfl⟩ := List.mem_map.mp hm
    exact hnew j hj (List.mem_singleton.mp hl)
  · rcases List.mem_append.mp hj with hj | hj
    · exact h.current j hj hl
    · rw [List.mem_singleton.mp hj]
      exact hk
  · rcases (hb k).mp hbusy with rfl | hbusy
    · obtain rfl := Option.some.inj (hk.symm.trans hk')
      exact List.mem_append_right _ List.mem_cons_self
    · exact List.mem_append_left _ (h.served k m hk' hbusy)
  · rcases List.mem_append.mp hj with hj | hj
    · exact h.idle k m hk' (fun hbusy => hn ((hb k).mpr (.inr hbusy))) j hj
    · rw [List.mem_singleton.mp hj]
      rintro rfl
      exact hn ((hb k).mpr (.inl (h.single k k₀ n hk' hk)))

/-- **Eviction rule.** A ticket gives up its slot, if it has one, and its job is told to stop. -/
theorem evict (h : Leased next owner busy jobs)
    (ho : ∀ k m, owner' k = some m ↔ owner k = some m ∧ m ≠ n)
    (hb : ∀ k m, owner' k = some m → (busy' k ↔ busy k)) :
    Leased next owner' busy' (jobs.map (Lease.stop n)) where
  drawn k m hk := h.drawn k m ((ho k m).mp hk).1
  known j hj := by
    obtain ⟨i, hi, rfl⟩ := List.mem_map.mp hj
    rw [Lease.ticket_stop]
    exact h.known i hi
  single k k' m hk hk' := h.single k k' m ((ho k m).mp hk).1 ((ho k' m).mp hk').1
  distinct := by
    rw [List.map_map, show Lease.ticket ∘ Lease.stop n = (Lease.ticket : Lease κ → ℕ) from
      funext fun j => Lease.ticket_stop n j]
    exact h.distinct
  current j hj hl := by
    obtain ⟨i, hi, rfl⟩ := List.mem_map.mp hj
    obtain ⟨hl, hne⟩ := Lease.live_stop.mp hl
    rw [Lease.ticket_stop, Lease.slot_stop]
    exact (ho _ _).mpr ⟨h.current i hi hl, hne⟩
  served k m hk hbusy :=
    List.mem_map.mpr ⟨_, h.served k m ((ho k m).mp hk).1 ((hb k m hk).mp hbusy),
      Lease.stop_of_ne ((ho k m).mp hk).2⟩
  idle k m hk hn j hj := by
    obtain ⟨i, hi, rfl⟩ := List.mem_map.mp hj
    rw [Lease.ticket_stop]
    exact h.idle k m ((ho k m).mp hk).1 (fun hbusy => hn ((hb k m hk).mpr hbusy)) i hi

/-- **Finishing rule.** The job of a ticket that holds no slot is done. -/
theorem finish (h : Leased next owner busy jobs) (hn : ∀ k, owner k ≠ some n) :
    Leased next owner busy (jobs.filter fun j => j.ticket ≠ n) where
  drawn := h.drawn
  known j hj := h.known j (List.mem_of_mem_filter hj)
  single := h.single
  distinct := h.distinct.sublist (List.filter_sublist.map _)
  current j hj := h.current j (List.mem_of_mem_filter hj)
  served k m hk hbusy :=
    List.mem_filter.mpr ⟨h.served k m hk hbusy, decide_eq_true fun he => hn k (he ▸ hk)⟩
  idle k m hk hidle j hj := h.idle k m hk hidle j (List.mem_of_mem_filter hj)

/-- The slot of a job's ticket is the one that the job works for. -/
theorem slot_eq (h : Leased next owner busy jobs) {j : Lease κ} (hj : j ∈ jobs) {k : κ}
    (hk : owner k = some j.ticket) : k = j.slot := by
  by_cases hbusy : busy k
  · have hserved := h.served k _ hk hbusy
    exact congrArg Lease.slot (List.inj_on_of_nodup_map h.distinct hserved hj rfl)
  · exact absurd rfl (h.idle k _ hk hbusy j hj)

/-- **Release rule.** A ticket gives up its slot, if it has one, and its job is done. -/
theorem release (h : Leased next owner busy jobs)
    (ho : ∀ k m, owner' k = some m ↔ owner k = some m ∧ m ≠ n)
    (hb : ∀ k m, owner' k = some m → (busy' k ↔ busy k)) :
    Leased next owner' busy' (jobs.filter fun j => j.ticket ≠ n) := by
  have hfilter : (jobs.map (Lease.stop n)).filter (fun j => j.ticket ≠ n) =
      jobs.filter fun j => j.ticket ≠ n := by
    rw [List.filter_map]
    refine (List.map_congr_left fun j hj => ?_).trans
      ((List.map_id _).trans (List.filter_congr fun j _ => ?_))
    · have hne : (j.stop n).ticket ≠ n := by simpa using (List.mem_filter.mp hj).2
      exact Lease.stop_of_ne (Lease.ticket_stop n j ▸ hne)
    · rw [Function.comp_apply, Lease.ticket_stop]
  exact hfilter ▸ (h.evict ho hb).finish fun k hk => ((ho k n).mp hk).2 rfl

/-- **Closing rule.** No slot is held any more, and every job is told to stop. -/
theorem close (h : Leased next owner busy jobs) (ho : ∀ k, owner' k = none)
    (ht : jobs'.map Lease.ticket = jobs.map Lease.ticket) (hl : ∀ j ∈ jobs', j.live = false) :
    Leased next owner' busy' jobs' where
  drawn k _ hk := by rw [ho k] at hk; cases hk
  known j hj := by
    have hmem : j.ticket ∈ jobs.map Lease.ticket := ht ▸ List.mem_map_of_mem hj
    obtain ⟨i, hi, he⟩ := List.mem_map.mp hmem
    exact he ▸ h.known i hi
  single k _ _ hk := by rw [ho k] at hk; cases hk
  distinct := ht ▸ h.distinct
  current j hj hlive := by rw [hl j hj] at hlive; cases hlive
  served k _ hk := by rw [ho k] at hk; cases hk
  idle k _ hk := by rw [ho k] at hk; cases hk

/-- There are no more live jobs than slots that are held. -/
theorem length_live_le (h : Leased next owner busy jobs) {keys : List κ}
    (hk : ∀ k n, owner k = some n → k ∈ keys) : (jobs.filter Lease.live).length ≤ keys.length := by
  have hnodup : ((jobs.filter Lease.live).map Lease.slot).Nodup := by
    refine List.Nodup.map_on (fun i hi j hj hslot => ?_) (h.distinct.of_map.filter _)
    obtain ⟨hi, hil⟩ := List.mem_filter.mp hi
    obtain ⟨hj, hjl⟩ := List.mem_filter.mp hj
    have ht : i.ticket = j.ticket := Option.some.inj
      ((h.current i hi hil).symm.trans (hslot ▸ h.current j hj hjl))
    exact List.inj_on_of_nodup_map h.distinct hi hj ht
  have hsub : (jobs.filter Lease.live).map Lease.slot ⊆ keys := fun k hmem => by
    obtain ⟨j, hj, rfl⟩ := List.mem_map.mp hmem
    obtain ⟨hj, hl⟩ := List.mem_filter.mp hj
    exact hk _ _ (h.current j hj hl)
  have hle := (hnodup.subperm hsub).length_le
  rwa [List.length_map] at hle

end Leased
