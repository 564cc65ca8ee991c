import BbShared.Js.Text
import BbShared.Machine

/-!
# The heartbeat

`TunnelSession.start` of `tunnel-client/src/session.ts` with its timer, and the relay's side of the
heartbeat, `setWebSocketAutoResponse` in `worker/src/tunnel/tunnel-do.ts`.  Both sides read the
clock of the session's process.

The texts in flight are told with the time at which the session sent its request: `up` to the
relay, oldest first, and `down` from it.  The platform answers a text that matches the pair and
gives any other to `webSocketMessage`, which drops it.
-/

namespace BbShared

open Js

/-! ## Requests in flight -/

section Chain

variable {gap : ℕ}

/-- A chain whose steps are at most `gap` ends at most that much later for each step. -/
theorem getLast_le_of_isChain {a : ℕ} {l : List ℕ}
    (h : (a :: l).IsChain fun a b => b ≤ a + gap) :
    (a :: l).getLast (List.cons_ne_nil _ _) ≤ a + l.length * gap := by
  induction l generalizing a with
  | nil => simp
  | cons b l ih =>
    obtain ⟨hgap, hrest⟩ := List.isChain_cons_cons.mp h
    have hlast := ih hrest
    rw [List.getLast_cons (List.cons_ne_nil _ _), List.length_cons, Nat.succ_mul]
    omega

/-- A chain whose steps are at least `gap` ends at least that much later for each step. -/
theorem le_getLast_of_isChain {a : ℕ} {l : List ℕ}
    (h : (a :: l).IsChain fun a b => a + gap ≤ b) :
    a + l.length * gap ≤ (a :: l).getLast (List.cons_ne_nil _ _) := by
  induction l generalizing a with
  | nil => simp
  | cons b l ih =>
    obtain ⟨hgap, hrest⟩ := List.isChain_cons_cons.mp h
    have hlast := ih hrest
    rw [List.getLast_cons (List.cons_ne_nil _ _), List.length_cons, Nat.succ_mul]
    omega

end Chain

/-- The longest that a request answered within `delay` can be in flight when another one is made,
if requests are at least `least` and at most `most` apart. -/
def longest (least most delay : ℕ) : ℕ := min delay (delay / least * most)

/-- Requests at these times, oldest first, are unanswered: the first came at most `most` after
`heard`, each other one at least `least` and at most `most` after the one before, and the last one
is `latest`, or `latest` was answered. -/
structure Beats (least most heard latest : ℕ) (asked : List ℕ) : Prop where
  gaps : (heard :: asked).IsChain fun a b => b ≤ a + most
  apart : asked.IsChain fun a b => a + least ≤ b
  recent : ∀ τ ∈ asked, τ ≤ latest
  latest : latest ≤ (heard :: asked).getLast (List.cons_ne_nil _ _)

namespace Beats

variable {least most heard latest now τ : ℕ} {asked : List ℕ}

theorem start (least most now : ℕ) : Beats least most now now [] :=
  ⟨.singleton _, .nil, nofun, le_rfl⟩

/-- When the next request is made, the last answer was not long ago: the requests in flight are
`least` apart, so few of them fit into `delay`, and the first came soon after the answer. -/
theorem due {delay : ℕ} (h : Beats least most heard latest asked) (hleast : 0 < least)
    (hafter : latest + least ≤ now) (hbefore : now ≤ latest + most)
    (hprompt : ∀ τ ∈ asked, now ≤ τ + delay) : now ≤ heard + (most + longest least most delay) := by
  cases asked with
  | nil =>
    have hlatest : latest ≤ heard := h.latest
    omega
  | cons τ asked =>
    obtain ⟨hfirst, hrest⟩ := List.isChain_cons_cons.mp h.gaps
    have hlatest : latest ≤ (τ :: asked).getLast (List.cons_ne_nil _ _) := h.latest
    have hrecent := h.recent _ (List.getLast_mem (List.cons_ne_nil τ asked))
    have hlong := getLast_le_of_isChain hrest
    have hshort := le_getLast_of_isChain h.apart
    have hτ := hprompt τ List.mem_cons_self
    have hcount : asked.length + 1 ≤ delay / least := by
      rw [Nat.le_div_iff_mul_le hleast, Nat.succ_mul]
      omega
    have hmost : (asked.length + 1) * most ≤ delay / least * most := Nat.mul_le_mul_right _ hcount
    rw [Nat.succ_mul] at hmost
    unfold longest
    omega

/-- One more request. -/
theorem ask (h : Beats least most heard latest asked) (hafter : latest + least ≤ now)
    (hbefore : now ≤ latest + most) : Beats least most heard now (asked ++ [now]) where
  gaps := by
    rw [← List.cons_append]
    refine h.gaps.append (.singleton _) fun a ha b hb => ?_
    rw [List.getLast?_eq_getLast_of_ne_nil (List.cons_ne_nil _ _), Option.mem_some_iff] at ha
    rw [List.head?_cons, Option.mem_some_iff] at hb
    have hlatest := h.latest
    subst ha hb
    omega
  apart := by
    refine h.apart.append (.singleton _) fun a ha b hb => ?_
    rw [List.head?_cons, Option.mem_some_iff] at hb
    have hrecent := h.recent a (List.mem_of_mem_getLast? ha)
    subst hb
    omega
  recent := by
    intro τ hτ
    rcases List.mem_append.mp hτ with hτ | hτ
    · have hrecent := h.recent τ hτ
      omega
    · exact (List.mem_singleton.mp hτ).le
  latest := by simp

/-- The answer to the oldest request. -/
theorem hear (h : Beats least most heard latest (τ :: asked)) (hτ : τ ≤ now) :
    Beats least most now latest asked := by
  have hgaps := (List.isChain_cons_cons.mp h.gaps).2
  have hlatest : latest ≤ (τ :: asked).getLast (List.cons_ne_nil _ _) := h.latest
  have hrecent : ∀ υ ∈ asked, υ ≤ latest := fun υ hυ => h.recent υ (.tail _ hυ)
  cases asked with
  | nil => exact ⟨.singleton _, .nil, hrecent, hlatest.trans hτ⟩
  | cons υ asked =>
    obtain ⟨hgap, hrest⟩ := List.isChain_cons_cons.mp hgaps
    exact ⟨.cons_cons (hgap.trans (Nat.add_le_add_right hτ _)) hrest,
      (List.isChain_cons_cons.mp h.apart).2, hrecent, hlatest⟩

end Beats

/-! ## The session and the relay -/

def HEARTBEAT_REQUEST : Text := "bbt:hb".toList

def HEARTBEAT_RESPONSE : Text := "bbt:hb-ack".toList

def HEARTBEAT_INTERVAL_MS : ℕ := 20000

def HEARTBEAT_DEADLINE_MS : ℕ := 60000

structure Heartbeat where
  now : ℕ
  lastAck : ℕ
  /-- When the timer that is set fired last; at first, when it was set. -/
  heartbeat : Option ℕ
  terminated : Bool
  /-- Whether the session told of a missed heartbeat. -/
  missed : Bool
  up : List (Text × ℕ)
  down : List (Text × ℕ)

inductive HeartbeatEvent where
  | tick (now : ℕ)
  | answer (now : ℕ)
  | arrive (now : ℕ)
  /-- A frame that is malformed or too large. -/
  | malformed (now : ℕ)
  | close (now : ℕ)

def HeartbeatEvent.now : HeartbeatEvent → ℕ
  | .tick now => now
  | .answer now => now
  | .arrive now => now
  | .malformed now => now
  | .close now => now

namespace Heartbeat

/-- A session that is constructed and started. -/
def start (now : ℕ) : Heartbeat :=
  { now, lastAck := now, heartbeat := some now, terminated := false, missed := false,
    up := [], down := [] }

/-- A terminated socket sends nothing. -/
def send (s : Heartbeat) (data : Text) : Heartbeat :=
  if s.terminated then s else { s with up := s.up ++ [(data, s.now)] }

def terminate (s : Heartbeat) : Heartbeat := { s with terminated := true }

/-- The callback of the timer. -/
def onInterval (s : Heartbeat) : Heartbeat :=
  if HEARTBEAT_DEADLINE_MS < s.now - s.lastAck then { s with missed := true }.terminate
  else s.send HEARTBEAT_REQUEST

/-- A message that is text. -/
def onText (s : Heartbeat) (data : Text) : Heartbeat :=
  if data = HEARTBEAT_RESPONSE then { s with lastAck := s.now } else s

/-- What is left of the heartbeat. -/
def dispose (s : Heartbeat) : Heartbeat := { s with heartbeat := none }

/-- The pair of the relay's constructor, as the platform matches it. -/
def autoResponse (data : Text) : Option Text :=
  if data = HEARTBEAT_REQUEST then some HEARTBEAT_RESPONSE else none

def step (s : Heartbeat) (e : HeartbeatEvent) : Option Heartbeat :=
  let s := { s with now := e.now }
  match e with
  | .tick now =>
    match s.heartbeat with
    | some last =>
      if last + HEARTBEAT_INTERVAL_MS ≤ now then some { s with heartbeat := some now }.onInterval
      else none
    | none => none
  | .answer _ =>
    match s.up with
    | [] => none
    | (data, asked) :: up =>
      some { s with up, down := s.down ++ ((autoResponse data).map fun r => (r, asked)).toList }
  | .arrive _ =>
    match s.down with
    | [] => none
    | (data, _) :: down => some ({ s with down }.onText data)
  | .malformed _ => some s.dispose.terminate
  | .close _ => some s.dispose

/-! ## Runs -/

/-- The clock does not go back, and a timer that is set fires at most `slack` later than its
interval after its last time. -/
def OnTime (slack : ℕ) (s : Heartbeat) (e : HeartbeatEvent) : Prop :=
  s.now ≤ e.now ∧ ∀ last ∈ s.heartbeat, e.now ≤ last + (HEARTBEAT_INTERVAL_MS + slack)

/-- As long as the session listens for them, answers arrive within `delay` of their requests. -/
def Prompt (delay : ℕ) (s : Heartbeat) (e : HeartbeatEvent) : Prop :=
  s.heartbeat.isSome = true → ∀ m ∈ s.down ++ s.up, e.now ≤ m.2 + delay

instance decidableOnTime (slack : ℕ) (s : Heartbeat) (e : HeartbeatEvent) :
    Decidable (OnTime slack s e) := inferInstanceAs (Decidable (_ ∧ _))

instance decidablePrompt (delay : ℕ) (s : Heartbeat) (e : HeartbeatEvent) :
    Decidable (Prompt delay s e) := inferInstanceAs (Decidable (_ → _))

/-- The timer fires if it is set and its interval has passed. -/
theorem step_tick_eq_some {s t : Heartbeat} {n : ℕ} : s.step (.tick n) = some t ↔
    ∃ last, s.heartbeat = some last ∧ last + HEARTBEAT_INTERVAL_MS ≤ n ∧
      ({ s with now := n, heartbeat := some n } : Heartbeat).onInterval = t := by
  unfold step
  cases hs : s.heartbeat with
  | none => simp
  | some last =>
    simp only [HeartbeatEvent.now, Option.some.injEq]
    constructor
    · intro h
      obtain ⟨hafter, ht⟩ := Option.ite_none_right_eq_some.mp h
      exact ⟨last, rfl, hafter, Option.some.inj ht⟩
    · rintro ⟨_, rfl, hafter, rfl⟩
      rw [if_pos hafter]

/-- The times of the requests in flight, oldest first. -/
def asked (s : Heartbeat) : List ℕ := (s.down ++ s.up).map Prod.snd

/-- As long as its timer is set and has not missed a heartbeat, the session has its requests in
flight, and the last time of the timer is within the deadline. -/
structure Sound (slack : ℕ) (s : Heartbeat) : Prop where
  requests : ∀ m ∈ s.up, m.1 = HEARTBEAT_REQUEST
  responses : ∀ m ∈ s.down, m.1 = HEARTBEAT_RESPONSE
  past : ∀ τ ∈ s.asked, τ ≤ s.now
  acked : s.lastAck ≤ s.now
  timer : ∀ last ∈ s.heartbeat, s.now ≤ last + (HEARTBEAT_INTERVAL_MS + slack)
  open' : s.heartbeat.isSome = true → s.missed = false → s.terminated = false
  deadline : ∀ last ∈ s.heartbeat, s.missed = false → last ≤ s.lastAck + HEARTBEAT_DEADLINE_MS
  beats : ∀ last ∈ s.heartbeat, s.missed = false →
    Beats HEARTBEAT_INTERVAL_MS (HEARTBEAT_INTERVAL_MS + slack) s.lastAck last s.asked

variable {slack delay : ℕ} {s t : Heartbeat} {e : HeartbeatEvent}

theorem sound_start (slack now : ℕ) : (start now).Sound slack where
  requests := by simp [start]
  responses := by simp [start]
  past := by simp [start, asked]
  acked := le_rfl
  timer := by simp [start]
  open' _ _ := rfl
  deadline := by simp [start]
  beats last hlast _ := by
    obtain rfl := Option.some.inj hlast
    exact .start _ _ now

namespace Sound

/-- Time passes. -/
theorem elapse (h : s.Sound slack) (hok : OnTime slack s e) :
    ({ s with now := e.now } : Heartbeat).Sound slack :=
  { h with
    past := fun τ hτ => (h.past τ hτ).trans hok.1
    acked := h.acked.trans hok.1
    timer := hok.2 }

/-- The timer is no longer set. -/
theorem dispose (h : s.Sound slack) : s.dispose.Sound slack :=
  { h with
    timer := nofun
    open' := nofun
    deadline := nofun
    beats := nofun }

theorem terminate (h : s.Sound slack) (hm : s.heartbeat.isSome = true → s.missed = true) :
    s.terminate.Sound slack :=
  { h with open' := fun hs hf => absurd (hm hs) (by rw [show s.missed = false from hf]; decide) }

/-- The timer fires. -/
theorem onInterval {last : ℕ} (h : s.Sound slack) (hlast : s.heartbeat = some last)
    (hafter : last + HEARTBEAT_INTERVAL_MS ≤ s.now) :
    ({ s with heartbeat := some s.now } : Heartbeat).onInterval.Sound slack := by
  have htimer := h.timer last hlast
  unfold Heartbeat.onInterval
  by_cases hlate : HEARTBEAT_DEADLINE_MS < s.now - s.lastAck
  · rw [if_pos hlate]
    refine terminate { h with
      timer := fun τ hτ => ?_
      open' := nofun
      deadline := nofun
      beats := nofun } fun _ => rfl
    obtain rfl := Option.some.inj hτ
    exact Nat.le_add_right _ _
  · rw [if_neg hlate]
    unfold Heartbeat.send
    by_cases hterm : s.terminated = true
    · -- a heartbeat was missed before
      have hmissed : s.missed = true := by
        by_contra hm
        have hopen := h.open' (by rw [hlast]; rfl) (by simpa using hm)
        exact absurd (hopen.symm.trans hterm) (by decide)
      rw [if_pos hterm]
      refine { h with
        timer := fun τ hτ => ?_
        open' := fun _ hm => absurd (hmissed.symm.trans hm) (by decide)
        deadline := fun _ _ hm => absurd (hmissed.symm.trans hm) (by decide)
        beats := fun _ _ hm => absurd (hmissed.symm.trans hm) (by decide) }
      obtain rfl := Option.some.inj hτ
      exact Nat.le_add_right _ _
    · rw [if_neg hterm]
      have hasked : ({ s with
          heartbeat := some s.now, up := s.up ++ [(HEARTBEAT_REQUEST, s.now)] } : Heartbeat).asked =
          s.asked ++ [s.now] := by
        unfold asked
        rw [← List.append_assoc, List.map_append]
        rfl
      refine ⟨fun m hm => ?_, h.responses, fun τ hτ => ?_, h.acked, fun τ hτ => ?_,
        fun _ _ => Bool.eq_false_of_not_eq_true hterm, fun τ hτ _ => ?_, fun τ hτ hm => ?_⟩
      · rcases List.mem_append.mp hm with hm | hm
        · exact h.requests m hm
        · rw [List.mem_singleton.mp hm]
      · rw [hasked] at hτ
        rcases List.mem_append.mp hτ with hτ | hτ
        · exact h.past τ hτ
        · exact (List.mem_singleton.mp hτ).le
      · obtain rfl := Option.some.inj hτ
        exact Nat.le_add_right _ _
      · obtain rfl := Option.some.inj hτ
        show s.now ≤ s.lastAck + HEARTBEAT_DEADLINE_MS
        omega
      · obtain rfl := Option.some.inj hτ
        rw [hasked]
        exact (h.beats last hlast hm).ask hafter htimer

/-- The platform answers the oldest request that it has not answered. -/
theorem answer {data : Text} {τ : ℕ} {up : List (Text × ℕ)} (h : s.Sound slack)
    (hup : s.up = (data, τ) :: up) :
    ({ s with
      up, down := s.down ++ ((autoResponse data).map fun r => (r, τ)).toList } : Heartbeat).Sound
        slack := by
  obtain rfl : data = HEARTBEAT_REQUEST := h.requests (data, τ) (by rw [hup]; exact .head _)
  have hasked : ({ s with up, down := s.down ++ [(HEARTBEAT_RESPONSE, τ)] } : Heartbeat).asked =
      s.asked := by
    simp [asked, hup]
  rw [show autoResponse HEARTBEAT_REQUEST = some HEARTBEAT_RESPONSE from rfl, Option.map_some,
    Option.toList_some]
  refine ⟨fun m hm => h.requests m (by rw [hup]; exact .tail _ hm), fun m hm => ?_,
    hasked ▸ h.past, h.acked, h.timer, h.open', h.deadline, hasked ▸ h.beats⟩
  rcases List.mem_append.mp hm with hm | hm
  · exact h.responses m hm
  · rw [List.mem_singleton.mp hm]

/-- The oldest answer arrives. -/
theorem arrive {data : Text} {τ : ℕ} {down : List (Text × ℕ)} (h : s.Sound slack)
    (hdown : s.down = (data, τ) :: down) :
    (({ s with down } : Heartbeat).onText data).Sound slack := by
  obtain rfl : data = HEARTBEAT_RESPONSE := h.responses (data, τ) (by rw [hdown]; exact .head _)
  have hasked : s.asked = τ :: ({ s with down } : Heartbeat).asked := by
    unfold asked
    rw [hdown]
    rfl
  have hτ : τ ≤ s.now := h.past τ (by rw [hasked]; exact .head _)
  unfold Heartbeat.onText
  rw [if_pos rfl]
  refine ⟨h.requests, fun m hm => h.responses m (by rw [hdown]; exact .tail _ hm),
    fun υ hυ => h.past υ (by rw [hasked]; exact .tail _ hυ), le_rfl, h.timer, h.open',
    fun last hlast hm => ?_, fun last hlast hm => ?_⟩
  · exact (h.deadline last hlast hm).trans (Nat.add_le_add_right h.acked _)
  · have hbeats := h.beats last hlast hm
    rw [hasked] at hbeats
    exact hbeats.hear hτ

theorem step (h : s.Sound slack) (hok : OnTime slack s e) (ht : s.step e = some t) :
    t.Sound slack := by
  have hnow := h.elapse hok
  cases e with
  | tick now =>
    obtain ⟨last, hlast, hafter, rfl⟩ := step_tick_eq_some.mp ht
    exact hnow.onInterval hlast hafter
  | answer now =>
    simp only [Heartbeat.step] at ht
    cases hup : s.up with
    | nil => rw [hup] at ht; cases ht
    | cons m up =>
      rw [hup] at ht
      obtain rfl := Option.some.inj ht
      exact hnow.answer hup
  | arrive now =>
    simp only [Heartbeat.step] at ht
    cases hdown : s.down with
    | nil => rw [hdown] at ht; cases ht
    | cons m down =>
      rw [hdown] at ht
      obtain rfl := Option.some.inj ht
      exact hnow.arrive hdown
  | malformed now =>
    obtain rfl := Option.some.inj ht
    exact hnow.dispose.terminate nofun
  | close now =>
    obtain rfl := Option.some.inj ht
    exact hnow.dispose

end Sound

theorem Reaches.sound {t₀ : ℕ} (h : Machine.Reaches step (OnTime slack) (start t₀) s) :
    s.Sound slack :=
  h.invariant (sound_start slack t₀) fun _ _ _ hs hok ht => hs.step hok ht

@[simp] theorem missed_send (s : Heartbeat) (data : Text) : (s.send data).missed = s.missed := by
  unfold send
  split <;> rfl

@[simp] theorem missed_onText (s : Heartbeat) (data : Text) :
    (s.onText data).missed = s.missed := by
  unfold onText
  split <;> rfl

theorem onInterval_of_le (h : s.now ≤ s.lastAck + HEARTBEAT_DEADLINE_MS) :
    s.onInterval = s.send HEARTBEAT_REQUEST :=
  if_neg (by omega)

/-- A timer that fires before the deadline misses no heartbeat. -/
theorem missed_step (ht : s.step e = some t)
    (hle : ∀ n last, e = .tick n → s.heartbeat = some last → last + HEARTBEAT_INTERVAL_MS ≤ n →
      n ≤ s.lastAck + HEARTBEAT_DEADLINE_MS) :
    t.missed = s.missed := by
  cases e with
  | tick n =>
    obtain ⟨last, hlast, hafter, rfl⟩ := step_tick_eq_some.mp ht
    rw [onInterval_of_le (hle n last rfl hlast hafter), missed_send]
  | answer n =>
    simp only [step] at ht
    split at ht
    · cases ht
    · obtain rfl := Option.some.inj ht
      rfl
  | arrive n =>
    simp only [step] at ht
    split at ht
    · cases ht
    · obtain rfl := Option.some.inj ht
      rw [missed_onText]
  | malformed n =>
    obtain rfl := Option.some.inj ht
    rfl
  | close n =>
    obtain rfl := Option.some.inj ht
    rfl

/-- The runs whose answers are prompt as well. -/
def Prompted (slack delay : ℕ) (s : Heartbeat) (e : HeartbeatEvent) : Prop :=
  OnTime slack s e ∧ Prompt delay s e

instance decidablePrompted (slack delay : ℕ) (s : Heartbeat) (e : HeartbeatEvent) :
    Decidable (Prompted slack delay s e) := inferInstanceAs (Decidable (_ ∧ _))

/-- The longest time from an answer to a firing of the timer in a run whose answers are prompt:
until the next request, and as long as that one can be in flight. -/
def longestSilence (slack delay : ℕ) : ℕ :=
  HEARTBEAT_INTERVAL_MS + slack +
    longest HEARTBEAT_INTERVAL_MS (HEARTBEAT_INTERVAL_MS + slack) delay

/-- No heartbeat is missed in a run whose answers are prompt. -/
theorem not_missed_of_prompted {t₀ : ℕ} (hle : longestSilence slack delay ≤ HEARTBEAT_DEADLINE_MS)
    (h : Machine.Reaches step (Prompted slack delay) (start t₀) s) : s.missed = false := by
  have key : s.Sound slack ∧ s.missed = false := by
    refine h.invariant (I := fun s => s.Sound slack ∧ s.missed = false)
      ⟨sound_start slack t₀, rfl⟩ ?_
    intro s e t ⟨hs, hm⟩ ⟨hok, hprompt⟩ ht
    refine ⟨hs.step hok ht, (missed_step ht fun n last he hlast hafter => ?_).trans hm⟩
    subst he
    have hdue := (hs.beats last hlast hm).due (by decide) hafter (hok.2 last hlast) fun τ hτ => by
      obtain ⟨m, hm, rfl⟩ := List.mem_map.mp hτ
      exact hprompt (Option.isSome_of_eq_some hlast) m hm
    unfold longestSilence at hle
    omega
  exact key.2

/-! ## A run that gives up -/

/-- A state that has heard nothing since the start, and asks for the first time after `first`. -/
structure Unanswered (first : ℕ) (s : Heartbeat) : Prop where
  lastAck : s.lastAck = 0
  heartbeat : s.heartbeat = some s.now
  terminated : s.terminated = false
  asked : ∀ τ ∈ s.asked, first ≤ τ

/-- The timer fires before the deadline: one more request. -/
theorem Unanswered.ask {first n : ℕ} (h : s.Unanswered first) (hfirst : first ≤ n)
    (hafter : s.now + HEARTBEAT_INTERVAL_MS ≤ n) (hle : n ≤ HEARTBEAT_DEADLINE_MS) :
    ∃ t, s.step (.tick n) = some t ∧ t.now = n ∧ t.Unanswered first := by
  refine ⟨{ s with now := n, heartbeat := some n, up := s.up ++ [(HEARTBEAT_REQUEST, n)] },
    step_tick_eq_some.mpr ⟨s.now, h.heartbeat, hafter, ?_⟩, rfl, h.lastAck, rfl, h.terminated, ?_⟩
  · rw [onInterval_of_le (by simp only [h.lastAck]; omega)]
    unfold send
    rw [if_neg (by simp [h.terminated])]
  · intro τ hτ
    unfold Heartbeat.asked at hτ
    rw [← List.append_assoc, List.map_append] at hτ
    rcases List.mem_append.mp hτ with hτ | hτ
    · exact h.asked τ hτ
    · rw [List.mem_singleton.mp hτ]
      exact hfirst

/-- The timer fires after the deadline: the relay is given up. -/
theorem Unanswered.giveUp {first n : ℕ} (h : s.Unanswered first)
    (hafter : s.now + HEARTBEAT_INTERVAL_MS ≤ n) (hlt : HEARTBEAT_DEADLINE_MS < n) :
    ∃ t, s.step (.tick n) = some t ∧ t.missed = true := by
  refine ⟨_, step_tick_eq_some.mpr ⟨s.now, h.heartbeat, hafter, rfl⟩, ?_⟩
  unfold onInterval
  rw [if_pos (by simp only [h.lastAck]; omega)]
  rfl

/-- Nothing is late yet. -/
theorem Unanswered.prompted {first n : ℕ} (h : s.Unanswered first) (hnow : s.now ≤ n)
    (hbefore : n ≤ s.now + (HEARTBEAT_INTERVAL_MS + slack)) (hle : n ≤ first + delay) :
    Prompted slack delay s (.tick n) := by
  refine ⟨⟨hnow, fun last hlast => ?_⟩, fun _ m hm => ?_⟩
  · obtain rfl := Option.some.inj (h.heartbeat.symm.trans hlast)
    exact hbefore
  · have hτ := h.asked m.2 (List.mem_map_of_mem hm)
    exact hle.trans (Nat.add_le_add_right hτ _)

/-- Where the timer can fire at `late` after a number of intervals, it finds the deadline passed
there or before. -/
theorem Unanswered.reaches_missed {first late : ℕ} (hlate : HEARTBEAT_DEADLINE_MS < late)
    (hdelay : late ≤ first + delay) (count : ℕ)
    (hs : Machine.Reaches step (Prompted slack delay) (start 0) s) (h : s.Unanswered first)
    (hfirst : first ≤ s.now) (hnow : s.now ≤ HEARTBEAT_DEADLINE_MS)
    (hleast : s.now + count * HEARTBEAT_INTERVAL_MS ≤ late)
    (hmost : late ≤ s.now + count * (HEARTBEAT_INTERVAL_MS + slack)) :
    ∃ t, Machine.Reaches step (Prompted slack delay) (start 0) t ∧ t.missed = true := by
  induction count generalizing s with
  | zero => omega
  | succ count ih =>
    rw [Nat.succ_mul] at hleast hmost
    have hmono : count * HEARTBEAT_INTERVAL_MS ≤ count * (HEARTBEAT_INTERVAL_MS + slack) :=
      Nat.mul_le_mul_left _ (Nat.le_add_right _ _)
    -- as late as the timer may fire, unless the intervals that are left need more time
    obtain ⟨n, hn⟩ : ∃ n, n = min (s.now + (HEARTBEAT_INTERVAL_MS + slack))
      (late - count * HEARTBEAT_INTERVAL_MS) := ⟨_, rfl⟩
    have hok : Prompted slack delay s (.tick n) := h.prompted (by omega) (by omega) (by omega)
    by_cases hle : n ≤ HEARTBEAT_DEADLINE_MS
    · obtain ⟨t, ht, rfl, hun⟩ := h.ask (n := n) (by omega) (by omega) hle
      exact ih (hs.next _ hok ht) hun (by omega) hle (by omega) (by omega)
    · obtain ⟨t, ht, hm⟩ := h.giveUp (n := n) (by omega) (by omega)
      exact ⟨t, hs.next _ hok ht, hm⟩

theorem unanswered_start (slack : ℕ) :
    (start 0).Unanswered (HEARTBEAT_INTERVAL_MS + slack) := ⟨rfl, rfl, rfl, nofun⟩

/-- The timer fires as late as it may for the first time, and its answer comes as late. -/
theorem exists_missed (hlate : HEARTBEAT_DEADLINE_MS < longestSilence slack delay) :
    ∃ s, Machine.Reaches step (Prompted slack delay) (start 0) s ∧ s.missed = true := by
  have hok : Prompted slack delay (start 0) (.tick (HEARTBEAT_INTERVAL_MS + slack)) :=
    (unanswered_start slack).prompted (Nat.zero_le _) (Nat.le_add_left _ _) (Nat.le_add_right _ _)
  have hafter : (start 0).now + HEARTBEAT_INTERVAL_MS ≤ HEARTBEAT_INTERVAL_MS + slack := by
    simp [start]
  by_cases hle : HEARTBEAT_INTERVAL_MS + slack ≤ HEARTBEAT_DEADLINE_MS
  · obtain ⟨s, hs, hnow, hun⟩ := (unanswered_start slack).ask le_rfl hafter hle
    have hdiv : delay / HEARTBEAT_INTERVAL_MS * HEARTBEAT_INTERVAL_MS ≤ delay :=
      Nat.div_mul_le_self _ _
    have hmono : delay / HEARTBEAT_INTERVAL_MS * HEARTBEAT_INTERVAL_MS ≤
        delay / HEARTBEAT_INTERVAL_MS * (HEARTBEAT_INTERVAL_MS + slack) :=
      Nat.mul_le_mul_left _ (Nat.le_add_right _ _)
    refine hun.reaches_missed hlate ?_ (delay / HEARTBEAT_INTERVAL_MS)
      (Machine.Reaches.refl.next _ hok hs) hnow.ge (hnow.le.trans hle) ?_ ?_
    · exact Nat.add_le_add_left (Nat.min_le_left _ _) _
    · rw [hnow]
      exact Nat.add_le_add_left (le_min hdiv hmono) _
    · rw [hnow]
      exact Nat.add_le_add_left (Nat.min_le_right _ _) _
  · obtain ⟨s, hs, hm⟩ := (unanswered_start slack).giveUp hafter (Nat.lt_of_not_le hle)
    exact ⟨s, Machine.Reaches.refl.next _ hok hs, hm⟩

/-- **Heartbeats.** A session whose timer is set and that missed no heartbeat was answered within
the deadline, an interval and the slack of the timer: a relay that falls silent is given up by
then.  In the runs whose answers arrive within `delay` no heartbeat is missed, exactly if the
longest silence that these allow stays within the deadline. -/
theorem heartbeats_judge :
    (∀ t₀ s, Machine.Reaches step (OnTime slack) (start t₀) s →
      s.heartbeat.isSome = true → s.missed = false → s.terminated = false ∧
        s.now ≤ s.lastAck + HEARTBEAT_DEADLINE_MS + (HEARTBEAT_INTERVAL_MS + slack)) ∧
    ((∀ t₀ s, Machine.Reaches step (Prompted slack delay) (start t₀) s → s.missed = false) ↔
      longestSilence slack delay ≤ HEARTBEAT_DEADLINE_MS) := by
  refine ⟨fun t₀ s h hset hm => ?_, fun hall => ?_, fun hle t₀ s => not_missed_of_prompted hle⟩
  · have hsound := Reaches.sound h
    obtain ⟨last, hlast⟩ := Option.isSome_iff_exists.mp hset
    have htimer := hsound.timer last hlast
    have hdeadline := hsound.deadline last hlast hm
    exact ⟨hsound.open' hset hm, by omega⟩
  · by_contra hlate
    obtain ⟨s, hs, hm⟩ := exists_missed (Nat.lt_of_not_le hlate)
    exact Bool.noConfusion (hm.symm.trans (hall 0 s hs))

/-- A timer that is never late leaves the relay just under a minute. -/
theorem heartbeats_judge_interval :
    (∃ s, Machine.Reaches step (OnTime 0) (start 0) s ∧
      s.heartbeat = some HEARTBEAT_INTERVAL_MS ∧ s.terminated = false ∧
      s.now ≤ s.lastAck + HEARTBEAT_DEADLINE_MS + (HEARTBEAT_INTERVAL_MS + 0)) ∧
    (∀ t₀ s, Machine.Reaches step (Prompted 0 59999) (start t₀) s → s.missed = false) ∧
    ¬ ∀ t₀ s, Machine.Reaches step (Prompted 0 60000) (start t₀) s → s.missed = false := by
  have h₀ : Machine.Reaches step (OnTime 0) (start 0) (start 0) := .refl
  have h₁ := h₀.next (.tick HEARTBEAT_INTERVAL_MS) (by decide) rfl
  refine ⟨⟨_, h₁, rfl, (@heartbeats_judge 0 0).1 0 _ h₁ rfl rfl⟩,
    (@heartbeats_judge 0 59999).2.mpr (by decide), fun hall => ?_⟩
  exact absurd ((@heartbeats_judge 0 60000).2.mp hall) (by decide)

end Heartbeat

end BbShared
