import BbShared.TunnelSystem

/-!
# Messages of guests

What the origin sockets of a guest are given, against what the guest said on its own sockets.  A
message that cannot be sent ends its tunnel for good, so no later message overtakes it; and a limit
ends its stream, so no later message follows the one refused.
-/

namespace BbShared

open Js

namespace TunnelSystem

/-- What the visitors said, by the openings of their sockets. -/
def note (_ : TunnelSystem) (e : SystemEvent) (_ : TunnelSystem)
    (said : ℕ → List (Bool × Bytes)) :
    ℕ → List (Bool × Bytes) :=
  match e with
  | .relay (.visitorMessage n isBinary data _) => hear said n (isBinary, data)
  | _ => said

variable {secret : Text} {relayable : TunnelDO.Relayable} {co : Coercion} {s t : TunnelSystem}
  {e : SystemEvent} {said : ℕ → List (Bool × Bytes)}

/-! ## What was sent over a tunnel -/

/-- The frames sent until the tunnel was replaced. -/
def segment (s : TunnelSystem) (i : ℕ) : List Frame := s.frames.take (s.limit i)

/-- What was sent of a visitor's messages is a beginning of what it said, and all of it while the
tunnel is usable. -/
structure Faithful (s : TunnelSystem) (said : ℕ → List (Bool × Bytes)) : Prop where
  unborn : ∀ n, s.relay.relay.sent ≤ n → said n = []
  carried : ∀ (i : ℕ) (c : Client) (n id : ℕ), s.clients[i]? = some c → c.start ≤ n → n < s.limit i →
    wsId s.frames n = some id →
      spoken (s.segment i) id <+: said n ∧ (s.Usable i → spoken (s.segment i) id = said n)

theorem faithful_new : new.Faithful fun _ => [] where
  unborn _ _ := rfl
  carried _ _ _ _ h := by cases h

/-- Nothing changes for the openings. -/
theorem Faithful.of_same (h : s.Faithful said) (hf : t.frames = s.frames)
    (hs : t.relay.relay.sent = s.relay.relay.sent) (hl : ∀ i, t.limit i = s.limit i)
    (hc : ∀ (i : ℕ) (c : Client), t.clients[i]? = some c →
      ∃ c', s.clients[i]? = some c' ∧ c'.start = c.start)
    (hu : ∀ i, t.Usable i → s.Usable i) : t.Faithful said where
  unborn n hn := h.unborn n (hs ▸ hn)
  carried i c n id hi hn hlt hid := by
    obtain ⟨c', hi', hstart⟩ := hc i c hi
    unfold segment
    rw [hf, hl]
    obtain ⟨hpre, heq⟩ := h.carried i c' n id hi' (hstart ▸ hn) (hl i ▸ hlt) (hf ▸ hid)
    exact ⟨hpre, fun hus => heq (hu i hus)⟩

theorem usable_of_dwindles {relay : TunnelRelay} {b : Bool} {i : ℕ}
    (ht : TunnelRelay.Dwindles s.relay.tunnels relay.tunnels)
    (hu : ({ s with relay, broken := s.broken || b } : TunnelSystem).Usable i) : s.Usable i :=
  ⟨(Bool.or_eq_false_iff.mp hu.1).1, ht.2 i hu.2⟩

/-- Over the last tunnel, what is sent comes after the rest. -/
theorem segment_grow {relay : TunnelRelay} {b : Bool} (h : s.Sound) {l : List Frame}
    (hf : relay.relay.frames = s.relay.relay.frames ++ l)
    (hs : relay.relay.sent = s.relay.relay.sent + l.length) (i : ℕ) :
    ({ s with relay, broken := b } : TunnelSystem).segment i =
      s.segment i ++ if s.clients.length ≤ i + 1 then l else [] := by
  have hlen : s.frames.length = s.relay.relay.sent := h.wired.sent
  have hle : s.limit i ≤ s.frames.length := hlen.symm ▸ h.limit_le i
  unfold segment
  rw [limit_eq]
  dsimp only
  show (relay.relay.frames).take _ = _
  rw [hf]
  split_ifs with hi
  · rw [limit_eq, List.getElem?_eq_none hi]
    show List.take relay.relay.sent _ = List.take s.relay.relay.sent s.relay.relay.frames ++ l
    rw [hs, ← h.wired.sent, List.take_length, ← List.length_append, List.take_length]
  · obtain ⟨c, hc⟩ : ∃ c, s.clients[i + 1]? = some c :=
      ⟨_, List.getElem?_eq_getElem (by omega)⟩
    have hlimit : s.limit i = c.start := by rw [limit_eq, hc]; rfl
    rw [hlimit] at hle ⊢
    rw [hc, List.append_nil]
    exact List.take_append_of_le_length hle

theorem limit_of_last {i : ℕ} (h : s.clients.length ≤ i + 1) : s.limit i = s.relay.relay.sent := by
  rw [limit_eq, List.getElem?_eq_none h]
  rfl

theorem limit_of_not_last {relay : TunnelRelay} {b : Bool} {i : ℕ}
    (h : ¬ s.clients.length ≤ i + 1) :
    ({ s with relay, broken := b } : TunnelSystem).limit i = s.limit i := by
  obtain ⟨c, hc⟩ : ∃ c, s.clients[i + 1]? = some c := ⟨_, List.getElem?_eq_getElem (by omega)⟩
  rw [limit_eq, limit_eq]
  dsimp only
  rw [hc]
  rfl

/-- **Growth rule.** It is enough to look at the last tunnel and at a new opening. -/
theorem Faithful.grow (h : s.Faithful said) (hs : s.Sound) {relay : TunnelRelay} {b : Bool}
    {l : List Frame} {said' : ℕ → List (Bool × Bytes)}
    (hf : relay.relay.frames = s.relay.relay.frames ++ l)
    (hsent : relay.relay.sent = s.relay.relay.sent + l.length)
    (ht : TunnelRelay.Dwindles s.relay.tunnels relay.tunnels)
    (unborn : ∀ n, relay.relay.sent ≤ n → said' n = []) (more : ∀ n, said n <+: said' n)
    (last : ∀ i n id x, i + 1 = s.relay.tunnels.length → wsId s.frames n = some id →
      x <+: said n → (s.Usable i → x = said n) →
        x ++ spoken l id <+: said' n ∧
          (({ s with relay, broken := b } : TunnelSystem).Usable i → x ++ spoken l id = said' n))
    (opening : ∀ (n id : ℕ) (info : OpenWs), s.relay.relay.sent ≤ n →
      relay.relay.frames[n]? = some (.openWs id info) →
        said' n = [] ∧ spoken relay.relay.frames id = []) :
    ({ s with relay, broken := b } : TunnelSystem).Faithful said' where
  unborn := unborn
  carried i c n id hi hn hlt hid := by
    have hlen : s.relay.relay.frames.length = s.relay.relay.sent := hs.wired.sent
    have hlast : ({ s with relay, broken := b } : TunnelSystem).Usable i →
        i + 1 = s.relay.tunnels.length := fun hu => hs.last i (ht.2 i hu.2)
    have hil : i < s.relay.tunnels.length := by
      rw [← hs.clients]
      exact (List.getElem?_eq_some_iff.mp hi).1
    rw [segment_grow hs hf hsent, spoken_append]
    obtain ⟨info, hid⟩ := wsId_eq_some.mp hid
    have hold : ∀ {f}, (s.relay.relay.frames ++ l)[n]? = some f → n < s.relay.relay.sent →
        s.relay.relay.frames[n]? = some f := fun hm hlt => by
      rwa [List.getElem?_append_left (hlen ▸ hlt)] at hm
    have hid' : (s.relay.relay.frames ++ l)[n]? = some (.openWs id info) := hf ▸ hid
    by_cases hi' : s.clients.length ≤ i + 1
    · rw [if_pos hi']
      rcases lt_or_ge n s.relay.relay.sent with hlt' | hge
      · obtain ⟨hpre, heq⟩ := h.carried i c n id hi hn (limit_of_last hi' ▸ hlt')
          (wsId_eq_some.mpr ⟨info, hold hid' hlt'⟩)
        exact last i n id _ (by rw [hs.clients] at hi'; omega)
          (wsId_eq_some.mpr ⟨info, hold hid' hlt'⟩) hpre heq
      · obtain ⟨hsaid, hnone⟩ := opening n id info hge hid
        have hall : s.segment i = s.relay.relay.frames := by
          unfold segment
          rw [limit_of_last hi', ← hlen]
          exact List.take_length
        rw [hall, ← spoken_append, ← hf, hnone, hsaid]
        exact ⟨List.prefix_rfl, fun _ => rfl⟩
    · rw [if_neg hi', limit_of_not_last hi'] at *
      have hlt' : n < s.relay.relay.sent := hlt.trans_le (hs.limit_le i)
      obtain ⟨hpre, -⟩ := h.carried i c n id hi hn hlt (wsId_eq_some.mpr ⟨info, hold hid' hlt'⟩)
      show spoken _ id ++ [] <+: _ ∧ _
      rw [List.append_nil]
      refine ⟨hpre.trans (more n), fun hu => absurd (hlast hu) ?_⟩
      rw [← hs.clients]
      omega

/-- Frames that say nothing. -/
theorem spoken_eq_nil {l : List Frame} (hl : ∀ f ∈ l, ∀ id, f.message id = none) (id : ℕ) :
    spoken l id = [] := List.filterMap_eq_nil_iff.mpr fun f hf => hl f hf id

/-- **Silent rule.** Frames that say nothing keep the histories, if openings are new. -/
theorem Faithful.silent (h : s.Faithful said) (hs : s.Sound) {relay : TunnelRelay} {e : RelayEvent}
    (hsend : s.relay.Sends e relay) {l : List Frame}
    (hf : relay.relay.frames = s.relay.relay.frames ++ l)
    (hsent : relay.relay.sent = s.relay.relay.sent + l.length)
    (hl : ∀ f ∈ l, ∀ id, f.message id = none)
    (hw : ∀ (n id : ℕ) (info : OpenWs), s.relay.relay.sent ≤ n →
      relay.relay.frames[n]? = some (.openWs id info) → spoken relay.relay.frames id = []) :
    ({ s with relay, broken := s.broken || s.fails e } : TunnelSystem).Faithful said := by
  refine h.grow hs hf hsent hsend.dwindles (fun n hn => ?_) (fun n => List.prefix_rfl) ?_ ?_
  · exact h.unborn n ((Nat.le_add_right _ _).trans (hsent ▸ hn))
  · intro i n id x _ _ hpre heq
    rw [spoken_eq_nil hl, List.append_nil]
    exact ⟨hpre, fun hu => heq (usable_of_dwindles hsend.dwindles hu)⟩
  · exact fun n id info hn hm => ⟨h.unborn n hn, hw n id info hn hm⟩

/-- The last tunnel is the active one as long as it is OPEN. -/
theorem active_of_usable (hs : s.Sound) {i : ℕ} (hi : s.relay.tunnels.getD i false = true) :
    TunnelRelay.activeTunnelSocket s.relay.tunnels = some i := by
  cases ha : TunnelRelay.activeTunnelSocket s.relay.tunnels with
  | none =>
    rw [TunnelRelay.activeTunnelSocket_eq_none] at ha
    rw [List.getD_eq_getElem?_getD] at hi
    cases hg : s.relay.tunnels[i]? with
    | none => rw [hg] at hi; cases hi
    | some b =>
      rw [hg] at hi
      obtain rfl : b = true := hi
      exact absurd (List.mem_of_getElem? hg) ha
  | some k =>
    have hk := hs.last k (TunnelRelay.open_of_activeTunnelSocket ha)
    have hi' := hs.last i hi
    rw [show k = i by omega]

/-- **Message rule.** A message is sent over the tunnel of its socket, or that tunnel is done. -/
theorem Faithful.message (h : s.Faithful said) (hs : s.Sound) {n : ℕ} {isBinary : Bool}
    {data : Bytes} {sends : Bool} {v : VisitorSocket} (hv : s.relay.visitor n = some v)
    (hok : s.RelayOk (.visitorMessage n isBinary data sends)) :
    ({ s with
      relay := { s.relay with
        relay := s.relay.relay.visitorMessage (s.relay.link sends) v isBinary data }
      broken := s.broken || s.fails (.visitorMessage n isBinary data sends) } :
        TunnelSystem).Faithful (hear said n (isBinary, data)) := by
  obtain ⟨hmem, rfl⟩ := TunnelRelay.visitor_eq_some hv
  obtain ⟨info, hopening⟩ := hs.wired.visitors v hmem
  have hlen : s.relay.relay.frames.length = s.relay.relay.sent := hs.wired.sent
  have hlt : v.opening < s.relay.relay.sent :=
    hlen ▸ (List.getElem?_eq_some_iff.mp hopening).1
  have hfits : v.streamId ≤ 0xffffffff :=
    (hs.legible 0).small v.opening _ (wsId_eq_some.mpr ⟨info, hopening⟩)
  have hunborn : ∀ k, s.relay.relay.sent ≤ k → hear said v.opening (isBinary, data) k = [] :=
    fun k hk => (TunnelSession.hear_of_ne (by omega) _).trans (h.unborn k hk)
  have hmore := TunnelSession.prefix_hear said v.opening (isBinary, data)
  rcases TunnelDO.visitorMessage_cases s.relay.relay (s.relay.link sends) v isBinary data with
    ⟨hactive, hsends, hp⟩ | ⟨hfail, hp⟩
  · -- the message goes over the last tunnel, which has carried all that was said
    obtain rfl : sends = true := hsends
    obtain ⟨k, hk, hus⟩ := hok.1 rfl
    have hklast := hs.last k hus.2
    refine h.grow hs hp.frames hp.sent (TunnelRelay.dwindles_refl _)
      (fun m hm => hunborn m ((Nat.le_add_right _ _).trans (hp.sent ▸ hm))) hmore ?_ ?_
    · intro i m id x hi hid hpre heq
      have hx : x = said m := heq (by rwa [show i = k by omega])
      obtain ⟨info', hm⟩ := wsId_eq_some.mp hid
      rw [spoken_singleton, hx]
      by_cases hmv : m = v.opening
      · subst hmv
        obtain ⟨rfl, -⟩ := Frame.openWs.inj (Option.some.inj (hopening.symm.trans hm))
        rw [TunnelSession.hear_self, Frame.message, if_pos rfl]
        exact ⟨List.prefix_rfl, fun _ => rfl⟩
      · have hne : v.streamId ≠ id := by
          rintro rfl
          exact hmv (hs.wired.distinct m v.opening _ _ hm hopening trivial trivial rfl)
        rw [TunnelSession.hear_of_ne hmv, Frame.message, if_neg hne, Option.toList_none,
          List.append_nil]
        exact ⟨List.prefix_rfl, fun _ => rfl⟩
    · intro m id info' hm hframe
      rw [hp.frames] at hframe
      rcases getElem?_append_eq_some hframe with hframe | ⟨-, hframe⟩
      · have := (List.getElem?_eq_some_iff.mp hframe).1
        omega
      · cases List.mem_singleton.mp hframe
  · -- the message is lost, and with it the tunnel
    refine h.grow hs (hp.frames.trans rfl) hp.sent (TunnelRelay.dwindles_refl _)
      (fun m hm => hunborn m ((Nat.le_add_right _ _).trans (hp.sent.symm.le.trans hm))) hmore ?_ ?_
    · intro i m id x hi hid hpre heq
      show x ++ [] <+: _ ∧ _
      rw [List.append_nil]
      refine ⟨hpre.trans (hmore m), fun hu => ?_⟩
      obtain ⟨hb, hf⟩ := Bool.or_eq_false_iff.mp hu.1
      have hactive := active_of_usable hs hu.2
      cases sends with
      | true =>
        have hbig := hfail (by rw [TunnelRelay.link, hactive]; rfl) rfl
        omega
      | false =>
        unfold fails TunnelRelay.target at hf
        dsimp only at hf
        rw [hactive, Option.any_some] at hf
        rw [show s.relay.tunnels.getD i false = true from hu.2] at hf
        exact absurd (show true = false from hf) (by decide)
    · intro m id info' hm hframe
      rw [hp.frames, List.append_nil] at hframe
      have := (List.getElem?_eq_some_iff.mp hframe).1
      omega

theorem Faithful.sends (h : s.Faithful said) (hs : s.Sound) {e : RelayEvent} {relay : TunnelRelay}
    (hok : s.RelayOk e) (hsend : s.relay.Sends e relay) :
    ({ s with relay, broken := s.broken || s.fails e } : TunnelSystem).Faithful
      (note s (.relay e) t said) := by
  have hlen : s.relay.relay.frames.length = s.relay.relay.sent := hs.wired.sent
  have hold : ∀ {l : List Frame} {n : ℕ} {f : Frame}, s.relay.relay.sent ≤ n →
      (s.relay.relay.frames ++ l)[n]? = some f → f ∈ l := fun hn hf => by
    rcases getElem?_append_eq_some hf with hf | ⟨-, hf⟩
    · have := (List.getElem?_eq_some_iff.mp hf).1
      omega
    · exact hf
  cases hsend with
  | plain hm hp ht =>
    have hnote : note s (.relay e) t said = said := by
      cases e with
      | visitorMessage n b data sends => exact absurd rfl (hm n b data sends)
      | _ => rfl
    rw [hnote]
    have hsends : s.relay.Sends e relay := .plain hm hp ht
    obtain ⟨l, hl, hplain, -⟩ := hp
    refine h.silent hs hsends hl.frames hl.sent (fun f hf id => ?_) ?_
    · have hp := hplain f hf
      cases f <;> first | rfl | exact absurd hp fun h => h
    · intro n id info hn hframe
      rw [hl.frames] at hframe
      exact absurd (hplain _ (hold hn hframe)) fun h => h
  | idle ho ht =>
    refine h.silent hs (.idle ho ht) (ho.frames.trans (List.append_nil _).symm) ho.sent (by simp) ?_
    intro n id info hn hframe
    rw [ho.frames, ← List.append_nil s.relay.relay.frames] at hframe
    cases hold hn hframe
  | @opened r frame t ho ht =>
    have hsends : s.relay.Sends (.fetch r true) relay := .opened ho ht
    have hwired := hsends.wired hs.wired nofun
    refine h.silent hs hsends ho.frames ho.sent (fun f hf id => ?_) ?_
    · obtain rfl := List.mem_singleton.mp hf
      have hopens := ho.opens
      cases f <;> first | rfl | exact absurd hopens fun h => h
    · intro n id info hn hframe
      have hframe' := hframe
      rw [ho.frames] at hframe
      obtain rfl := List.mem_singleton.mp (hold hn hframe)
      have hn' : n = s.relay.relay.frames.length := by
        have := (List.getElem?_eq_some_iff.mp hframe).1
        rw [List.length_append, List.length_singleton] at this
        omega
      have hnone := spoken_take_opening hwired hframe'
      rw [ho.frames, hn', List.take_left] at hnone
      rw [ho.frames, spoken_append, hnone, List.nil_append]
      exact spoken_singleton _ _
  | @message n v isBinary data sends hv => exact h.message hs hv hok

/-- A client that keeps its start. -/
theorem Faithful.setClient (h : s.Faithful said) {i : ℕ} {c c' : Client}
    (hc : s.clients[i]? = some c) (hs : c'.start = c.start) : (s.setClient i c').Faithful said := by
  refine h.of_same rfl rfl (limit_setClient hc hs) (fun j d hd => ?_) fun _ hu => hu
  have hstart := start_setClient hc hs j
  rw [hd, Option.map_some] at hstart
  exact Option.map_eq_some_iff.mp hstart.symm

theorem Faithful.accept (h : s.Faithful said) (hs : s.Sound) : s.accept.Faithful said where
  unborn n hn := h.unborn n (sent_accept s ▸ hn)
  carried i c n id hi hn hlt hid := by
    rw [limit_accept] at hlt
    rcases getElem?_append_eq_some hi with hi | ⟨-, hi⟩
    · unfold segment
      rw [frames_accept] at hid ⊢
      rw [limit_accept]
      refine ⟨(h.carried i c n id hi hn hlt hid).1, fun hu => ?_⟩
      -- the tunnels accepted before are closed
      have hlast := TunnelRelay.last_acceptTunnel hu.2
      have hlt := (List.getElem?_eq_some_iff.mp hi).1
      have hlen := hs.clients
      unfold TunnelRelay.acceptTunnel at hlast
      dsimp only at hlast
      rw [List.length_append, List.length_map, List.length_singleton] at hlast
      omega
    · obtain rfl := List.mem_singleton.mp hi
      have hle := hs.limit_le i
      have hstart : s.relay.relay.sent ≤ n := hn
      omega

/-- **Step lemma.** -/
theorem Faithful.step (h : s.Faithful said) (hs : s.Sound) (hok : s.Ok e)
    (ht : step secret relayable co s e = some t) : t.Faithful (note s e t said) := by
  cases Step.of_step ht with
  | accept => exact h.accept hs
  | relay hsend => exact h.sends hs hok hsend
  | deliver hc => exact h.setClient hc rfl
  | origin hc => exact h.setClient hc rfl
  | @arrive tunnel c sent hc =>
    have hp := TunnelDO.posts_onTunnelFrame relayable s.relay.relay sent.uid sent.frame
    have hr : (s.arriveFrame relayable sent).Faithful said := by
      refine h.of_same (hp.frames.trans (List.append_nil _)) hp.sent (fun i => ?_)
        (fun i c hc => ⟨c, hc, rfl⟩) fun _ hu => hu
      rw [limit_eq, limit_eq]
      exact congrArg _ hp.sent
    exact hr.setClient hc rfl
  | drop hc => exact h.setClient hc rfl

/-- In every reachable state, with what the visitors have said. -/
theorem faithful_of_reaches {p : TunnelSystem × (ℕ → List (Bool × Bytes))}
    (h : Machine.Reaches (Machine.observed (step secret relayable co) note) (fun p e => p.1.Ok e)
      (new, fun _ => []) p) : p.1.Sound ∧ p.1.Faithful p.2 := by
  refine h.invariant (I := fun p => p.1.Sound ∧ p.1.Faithful p.2) ⟨sound_new, faithful_new⟩ ?_
  rintro p e q ⟨hs, hf⟩ hok hstep
  obtain ⟨ht, hq⟩ := Machine.observed_eq_some.mp hstep
  exact ⟨hs.step hok ht, hq ▸ hf.step hs hok ht⟩

/-! ## What the origin sockets are given -/

theorem spoken_mono {l l' : List Frame} (h : l <+: l') (id : ℕ) : spoken l id <+: spoken l' id := by
  obtain ⟨x, rfl⟩ := h
  rw [spoken_append]
  exact List.prefix_append _ _

/-- **Order.** Every origin socket is given a beginning of what its visitor said. -/
theorem Faithful.given (h : s.Faithful said) (hs : s.Sound) {i : ℕ} {c : Client}
    (hc : s.clients[i]? = some c) (n : ℕ) : sentTo c.session.effects n <+: said n := by
  have hcs := hs.client i c hc
  by_cases hn : n < c.start ∨ c.session.received ≤ n
  · rw [(hcs.strangers n hn).2]
    exact List.nil_prefix
  · cases hid : wsId s.frames n with
    | none =>
      rw [hcs.orders.unopened n hid]
      exact List.nil_prefix
    | some id =>
      have hbounded := hcs.bounded
      have hsegment : spoken (s.segment i) id <+: said n :=
        (h.carried i c n id hc (by omega) (by omega) hid).1
      exact ((hcs.orders.order n id hid).trans
        (spoken_mono (List.take_prefix_take_left hcs.bounded) id)).trans hsegment

/-! ## Limits -/

/-- The session of a tunnel has lost the stream that began with `n`, after it was given `given`. -/
def Lost (s : TunnelSystem) (i n : ℕ) (given : List (Bool × Bytes)) : Prop :=
  ∃ c, s.clients[i]? = some c ∧ n < c.session.received ∧ c.session.Silent n ∧
    sentTo c.session.effects n = given

theorem getElem?_setClient {i : ℕ} {c : Client} (hc : s.clients[i]? = some c) (c' : Client)
    (j : ℕ) :
    (s.setClient i c').clients[j]? = if j = i then some c' else s.clients[j]? := by
  unfold setClient
  dsimp only
  rw [List.getElem?_set]
  obtain ⟨hlt, -⟩ := List.getElem?_eq_some_iff.mp hc
  split_ifs with hi hi' hi'
  · rfl
  · exact absurd hi.symm hi'
  · exact absurd hi'.symm hi
  · rfl

/-- **Loss rule.** A stream that is lost stays lost, and its socket is given nothing more. -/
theorem Lost.step (hs : s.Sound) (ht : step secret relayable co s e = some t) {i n : ℕ}
    {given : List (Bool × Bytes)} (h : s.Lost i n given) : t.Lost i n given := by
  obtain ⟨c, hc, hn, hsilent, rfl⟩ := h
  have hcs := hs.client i c hc
  cases Step.of_step ht with
  | accept => exact ⟨c, getElem?_append_of_eq_some hc _, hn, hsilent, rfl⟩
  | relay hsend => exact ⟨c, hc, hn, hsilent, rfl⟩
  | @deliver tunnel io d m hd hlt hm =>
    have hget := getElem?_setClient hd { d with session := d.session.onMessage co io m.bytes } i
    by_cases hi : i = tunnel
    · subst hi
      obtain rfl := Option.some.inj (hc.symm.trans hd)
      have hid := streamId_le_of_encoded m.encoded
      have hmute : TunnelSession.Mute n c.session (c.session.onMessage co io m.bytes) :=
        hsilent.onMessage m.encoded hid (by omega)
      refine ⟨_, hget.trans (if_pos rfl), ?_, hmute.silent, hmute.sent⟩
      show n < (c.session.onMessage co io m.bytes).received
      rw [TunnelSession.received_onMessage m.encoded hid]
      omega
    · exact ⟨c, (hget.trans (if_neg hi)).trans hc, hn, hsilent, rfl⟩
  | @origin tunnel io e d session hd hl =>
    have hget := getElem?_setClient hd { d with session } i
    by_cases hi : i = tunnel
    · subst hi
      obtain rfl := Option.some.inj (hc.symm.trans hd)
      have hmute := hsilent.onLocal hcs.orders (hs.legible _) hl
      refine ⟨_, hget.trans (if_pos rfl), ?_, hmute.silent, hmute.sent⟩
      show n < session.received
      rw [(hcs.orders.onLocal (hs.legible _) hl).2]
      exact hn
    · exact ⟨c, (hget.trans (if_neg hi)).trans hc, hn, hsilent, rfl⟩
  | @arrive tunnel d sent hd ha =>
    have hd' : (s.arriveFrame relayable sent).clients[tunnel]? = some d := hd
    have hget := getElem?_setClient hd' { d with arrived := d.arrived + 1 } i
    by_cases hi : i = tunnel
    · subst hi
      obtain rfl := Option.some.inj (hc.symm.trans hd)
      exact ⟨_, hget.trans (if_pos rfl), hn, hsilent, rfl⟩
    · exact ⟨c, (hget.trans (if_neg hi)).trans hc, hn, hsilent, rfl⟩
  | @drop tunnel d hd =>
    have hget := getElem?_setClient hd { d with down := true } i
    by_cases hi : i = tunnel
    · subst hi
      obtain rfl := Option.some.inj (hc.symm.trans hd)
      exact ⟨_, hget.trans (if_pos rfl), hn, hsilent, rfl⟩
    · exact ⟨c, (hget.trans (if_neg hi)).trans hc, hn, hsilent, rfl⟩

theorem Lost.reaches (hs : s.Sound)
    (h : Machine.Reaches (TunnelSystem.step secret relayable co) Ok s t)
    {i n : ℕ} {given : List (Bool × Bytes)} (hl : s.Lost i n given) : t.Lost i n given := by
  have hboth : t.Sound ∧ t.Lost i n given :=
    h.invariant (I := fun t => t.Sound ∧ t.Lost i n given) ⟨hs, hl⟩ fun _ _ _ hi hok ht =>
      ⟨hi.1.step hok ht, hi.2.step hi.1 ht⟩
  exact hboth.2

open TunnelSession in
/-- In a step, the session of a tunnel calls `onFrame` in `u` on the frame of a message, or on one
that it kept until the socket opened. -/
inductive Calls (co : Coercion) (s : TunnelSystem) :
    SystemEvent → ℕ → Io → TunnelSession → ℕ → RawFrame → Prop
  | message {tunnel : ℕ} {io : Io} {c : Client} {m : Posted} {f : RawFrame}
      (hc : s.clients[tunnel]? = some c)
      (hm : s.relay.relay.outbox[c.session.received]? = some m)
      (hsize : m.bytes.length ≤ MAX_CHUNK_BYTES + 6) (hf : decodeFrame m.bytes = some f) :
      Calls co s (.deliver tunnel io) tunnel io c.session.count c.session.received f
  | kept {tunnel : ℕ} {io : Io} {c : Client} {k : OriginSocket} {w : WsStream}
      {protocol : Option Text} {before after : List RawFrame} {f : RawFrame} {u : TunnelSession}
      (hc : s.clients[tunnel]? = some c)
      (hk : c.session.sockets.find? (fun k => k.uid = w.uid ∧ k.opened = false) = some k)
      (hg : c.session.wsStreams.get k.streamId = some w) (hb : w.buffered = before ++ f :: after)
      (hr : replay co io (drain co (acknowledge io (c.session.markOpened w.uid) k.streamId w protocol)
        k.streamId w) w.uid before = some u) :
      Calls co s (.origin tunnel io (.socketOpen w.uid protocol)) tunnel io u w.uid f

/-- The frame is a message for the stream `w` that is over a limit. -/
structure OverLimit (co : Coercion) (io : Io) (u : TunnelSession) (f : RawFrame) (id : ℕ)
    (w : WsStream) : Prop where
  live : u.disposed = false
  streamId : f.id = some id
  message : f.frameType = some .wsData
  stream : u.wsStreams.get id = some w
  limit : TunnelSession.messageOverLimit co io u w f.data = some true

/-- The relay is told of the limit by a close-stream if the tunnel is OPEN and has room.  A congested
tunnel ends with its session. -/
structure Told (io : Io) (u v : TunnelSession) (uid id : ℕ) : Prop where
  sent : io.link u.outbox.length = .isOpen → v.outbox =
    u.outbox ++ [⟨uid, .closeStream id 1013 "WebSocket buffer limit reached".toList⟩]
  ended : io.link u.outbox.length = .congested → v.disposed = true
  unsent : io.link u.outbox.length = .closed → v.outbox = u.outbox

namespace OverLimit

variable {io : Io} {u : TunnelSession} {f : RawFrame} {id : ℕ} {w : WsStream}

theorem onFrame (h : OverLimit co io u f id w) (uid : ℕ) :
    u.onFrame co io uid f = some (TunnelSession.afterLimit co io u id w.uid) := by
  unfold TunnelSession.onFrame
  rw [if_neg (by simp [h.live]), h.streamId]
  dsimp only
  rw [h.message]
  exact TunnelSession.onWsData_over h.stream h.limit

theorem told (h : OverLimit co io u f id w) :
    Told io u (TunnelSession.afterLimit co io u id w.uid) w.uid id := by
  have hforget : ∀ s : TunnelSession, (TunnelSession.forgetWsStream co s id w.uid).disposed =
      s.disposed ∧ (TunnelSession.forgetWsStream co s id w.uid).outbox = s.outbox := by
    intro s
    unfold TunnelSession.forgetWsStream
    split
    · rename_i v hv
      by_cases hu : v.uid = w.uid
      · rw [if_pos hu]
        exact ⟨rfl, rfl⟩
      · rw [if_neg hu]
        exact ⟨rfl, rfl⟩
    · exact ⟨rfl, rfl⟩
  obtain ⟨hd, ho⟩ := hforget { u with effects := u.effects ++ [.terminate w.uid] }
  dsimp only at hd ho
  unfold TunnelSession.afterLimit
  generalize TunnelSession.forgetWsStream co _ id w.uid = g at hd ho ⊢
  unfold TunnelSession.send
  rw [if_neg (by rw [hd, h.live]; decide), ho]
  refine ⟨fun hl => ?_, fun hl => ?_, fun hl => ?_⟩
  · rw [hl]
  · rw [hl]
    exact TunnelSession.disposed_dispose g
  · rw [hl]
    exact ho

theorem silent (h : OverLimit co io u f id w) {idOf : ℕ → Option ℕ}
    {heard : ℕ → List (Bool × Bytes)} (ho : u.Orders idOf heard) :
    (TunnelSession.afterLimit co io u id w.uid).Silent w.uid := by
  intro i x hx hu
  have hx' := (TunnelSession.quiet_afterLimit u id w.uid).streams i x hx
  have hi : i = id := Option.some.inj
    (((hu ▸ ho.known i x hx').symm.trans (ho.known id w h.stream)))
  subst hi
  rw [TunnelSession.get_afterLimit h.stream] at hx
  cases hx

end OverLimit

theorem lt_of_stream (hs : s.Sound) {i id : ℕ} {c : Client} {w : WsStream}
    (hc : s.clients[i]? = some c) (hg : c.session.wsStreams.get id = some w) :
    w.uid < c.session.received := by
  by_contra hn
  exact ((hs.client i c hc).strangers w.uid (.inr (Nat.le_of_not_lt hn))).1 id w hg rfl

/-- The rest of a flush, after a message over a limit. -/
theorem mute_of_kept (hs : s.Sound) {i : ℕ} {io : Io} {c : Client} {k : OriginSocket} {w v : WsStream}
    {protocol : Option Text} {before after : List RawFrame} {f : RawFrame} {u t : TunnelSession}
    {id : ℕ} (hc : s.clients[i]? = some c)
    (hk : c.session.sockets.find? (fun k => k.uid = w.uid ∧ k.opened = false) = some k)
    (hg : c.session.wsStreams.get k.streamId = some w) (hb : w.buffered = before ++ f :: after)
    (hr : TunnelSession.replay co io (TunnelSession.drain co (TunnelSession.acknowledge io
      (c.session.markOpened w.uid) k.streamId w protocol) k.streamId w) w.uid before = some u)
    (ht : c.session.onLocal co io (.socketOpen w.uid protocol) = some t)
    (ho : OverLimit co io u f id v) :
    v.uid = w.uid ∧ TunnelSession.Mute v.uid u t := by
  have hcs := hs.client i c hc
  have horders : (c.session.markOpened w.uid).Orders _ _ :=
    hcs.orders.quiet (TunnelSession.quiet_markOpened _ w.uid)
  have hlegible := hs.legible c.session.received
  -- the frames kept carry messages of the stream
  obtain ⟨l, hbuf, hall⟩ := hcs.orders.buffered hg
  obtain ⟨l₁, l₂, rfl, hbefore, hrest⟩ := List.map_eq_append_iff.mp (hbuf.symm.trans hb)
  obtain ⟨m, l₃, rfl, rfl, hafter⟩ := List.map_eq_cons_iff.mp hrest
  have hspoken : ∀ x ∈ l₁, Spoken x := fun x hx =>
    hlegible.spoken k.streamId x (hall ▸ List.mem_append_right _ (List.mem_append_left _ hx))
  have hfits := hlegible.small w.uid k.streamId (hcs.orders.known k.streamId w hg)
  obtain ⟨hdrain, -⟩ := horders.drain hlegible hg protocol
  rw [← hbefore] at hr
  obtain ⟨hu, -⟩ := hdrain.replay hfits hspoken hr
  -- the stream over its limit is the one whose socket opened
  have hid : k.streamId = id := by
    have := ho.streamId
    rw [Frame.id_raw (f := .wsData k.streamId m.1 m.2) hfits] at this
    exact Option.some.inj this
  have huid : v.uid = w.uid := hlegible.injective v.uid w.uid id (hu.known id v ho.stream)
    (hid ▸ hcs.orders.known k.streamId w hg)
  refine ⟨huid, ?_⟩
  have hflush : TunnelSession.flush co io (c.session.markOpened w.uid) k.streamId w protocol =
      some t := by
    rw [← ht]
    unfold TunnelSession.onLocal TunnelSession.socketOpen
    dsimp only
    rw [hk]
    dsimp only
    rw [show (c.session.markOpened w.uid).wsStreams.get k.streamId = some w from hg]
    exact (if_pos rfl).symm
  rw [TunnelSession.flush_eq, hb, TunnelSession.replay_append, ← hbefore, hr, Option.bind_some,
    TunnelSession.replay_cons, ho.onFrame, Option.bind_some, ← hafter] at hflush
  have hmute : TunnelSession.Mute v.uid u (TunnelSession.afterLimit co io u id v.uid) :=
    ⟨(TunnelSession.quiet_afterLimit u id v.uid).sent v.uid, ho.silent hu⟩
  exact hmute.trans (hmute.silent.replay hfits hflush)

/-- What comes after a message over a limit, in its step. -/
theorem lost_of_limit (hs : s.Sound) (ht : step secret relayable co s e = some t) {i uid id : ℕ}
    {io : Io} {u : TunnelSession} {f : RawFrame} {w : WsStream} (hcall : Calls co s e i io u uid f)
    (ho : OverLimit co io u f id w) : t.Lost i w.uid (sentTo u.effects w.uid) := by
  cases hcall with
  | @message tunnel io c m f hc hm hsize hf =>
    have hcs := hs.client i c hc
    have hframe := ho.onFrame c.session.received
    have hsession : c.session.onMessage co io m.bytes =
        TunnelSession.afterLimit co io c.session.count id w.uid := by
      unfold TunnelSession.onMessage TunnelSession.process
      rw [if_neg (Nat.not_lt.mpr hsize), hf]
      dsimp only
      unfold TunnelSession.count at hframe
      rw [hframe]
      rfl
    cases Step.of_step ht with
    | @deliver tunnel io c' m' hc' hlt hm' =>
      obtain rfl := Option.some.inj (hc.symm.trans hc')
      obtain rfl := Option.some.inj (hm.symm.trans hm')
      refine ⟨_, (getElem?_setClient hc _ i).trans (if_pos rfl), ?_, ?_, ?_⟩
      · show w.uid < (c.session.onMessage co io m.bytes).received
        rw [TunnelSession.received_onMessage m.encoded (streamId_le_of_encoded m.encoded)]
        exact (lt_of_stream hs hc ho.stream).trans (Nat.lt_succ_self _)
      · show (c.session.onMessage co io m.bytes).Silent w.uid
        rw [hsession]
        exact ho.silent hcs.orders.count
      · show sentTo (c.session.onMessage co io m.bytes).effects w.uid = _
        rw [hsession]
        exact (TunnelSession.quiet_afterLimit _ _ _).sent w.uid
  | @kept tunnel io c k w' protocol before after f u hc hk hg hb hr =>
    cases Step.of_step ht with
    | @origin tunnel io e c' session hc' hlocal =>
      obtain rfl := Option.some.inj (hc.symm.trans hc')
      obtain ⟨huid, hmute⟩ := mute_of_kept hs hc hk hg hb hr hlocal ho
      refine ⟨_, (getElem?_setClient hc _ i).trans (if_pos rfl), ?_, hmute.silent, hmute.sent⟩
      show w.uid < session.received
      rw [((hs.client i c hc).orders.onLocal (hs.legible _) hlocal).2, huid]
      exact lt_of_stream hs hc hg

/-! ## The law -/

/-- **Delivery.** In every run, each origin socket is given a beginning of what the visitor of its
opening said.  A message over a limit ends its stream: the relay is told where the tunnel allows it,
and the socket is given nothing more. -/
theorem messages_delivered {p : TunnelSystem × (ℕ → List (Bool × Bytes))}
    (h : Machine.Reaches (Machine.observed (step secret relayable co) note) (fun p e => p.1.Ok e)
      (new, fun _ => []) p) :
    (∀ (i : ℕ) (c : Client), p.1.clients[i]? = some c →
        ∀ n, sentTo c.session.effects n <+: p.2 n) ∧
      ∀ e t, p.1.Ok e → step secret relayable co p.1 e = some t →
        ∀ i io u uid f id w, Calls co p.1 e i io u uid f → OverLimit co io u f id w →
          ∃ v, u.onFrame co io uid f = some v ∧ v.wsStreams.get id = none ∧
            Told io u v w.uid id ∧
            ∀ t', Machine.Reaches (step secret relayable co) Ok t t' →
              t'.Lost i w.uid (sentTo u.effects w.uid) := by
  obtain ⟨hs, hf⟩ := faithful_of_reaches h
  refine ⟨fun i c hc n => hf.given hs hc n, fun e t hok ht i io u uid f id w hcall ho => ?_⟩
  exact ⟨_, ho.onFrame uid, TunnelSession.get_afterLimit ho.stream, ho.told, fun t' ht' =>
    (lost_of_limit hs ht hcall ho).reaches (hs.step hok ht) ht'⟩

/-! ## A message over a limit -/

def upgradeVisit : VisitorRequest :=
  { TunnelRelay.plainVisit with
    headers := [("upgrade".toList, "websocket".toList)]
    headers_clean := by unfold HeaderText; decide }

/-- The tunnel is congested and the origin socket is full. -/
def crowded : Io := ⟨fun _ => .congested, fun _ => MAX_WS_BUFFER_BYTES, true⟩

def guestStep (s : TunnelSystem) (e : SystemEvent) : Option TunnelSystem :=
  step ['s'] (fun _ _ => true) TunnelSession.emptyArrays s e

theorem linkOk_of_up {i : ℕ} {io : Io} (hdown : (s.clients[i]?.map fun c => c.down) = some false)
    (hlink : ∀ n, io.link n ≠ .closed) : s.LinkOk i io := by
  intro c hc n
  rw [hc] at hdown
  have hup : c.down = false := Option.some.inj hdown
  rw [hup]
  exact ⟨fun h => absurd h (hlink n), nofun⟩

/-- An event of a run over the first tunnel, which stays open. -/
inductive PlainEvent where
  | relay (e : RelayEvent)
  | deliver
  | origin (e : TunnelSession.LocalEvent)
  | arrive

def PlainEvent.event : PlainEvent → SystemEvent
  | relay e => .relay e
  | deliver => .deliver 0 TunnelSession.calm
  | origin e => .origin 0 TunnelSession.calm e
  | arrive => .arrive 0

def usesFirst (s : TunnelSystem) (e : RelayEvent) : Bool :=
  s.relay.target e = some 0 && !s.broken && s.relay.tunnels.getD 0 false

theorem usable_of_usesFirst {e : RelayEvent} (h : s.usesFirst e) :
    ∃ tunnel, s.relay.target e = some tunnel ∧ s.Usable tunnel := by
  unfold usesFirst at h
  rw [Bool.and_eq_true, Bool.and_eq_true, Bool.not_eq_true', decide_eq_true_iff] at h
  exact ⟨0, h.1.1, h.1.2, h.2⟩

/-- A check of the conditions on visits and binary messages. -/
def visitOk (s : TunnelSystem) : PlainEvent → Bool
  | .relay (.dial _) => true
  | .relay (.fetch r sends) => s.usesFirst (.fetch r sends)
  | .relay (.visitorMessage n true data sends) => s.usesFirst (.visitorMessage n true data sends)
  | .relay _ => false
  | .deliver => (s.clients[0]?.map fun c => c.down) = some false
  | .origin _ => (s.clients[0]?.map fun c => c.down) = some false
  | .arrive => true

theorem ok_of_visitOk {e : PlainEvent} (h : s.visitOk e) : s.Ok e.event := by
  cases e with
  | relay e =>
    cases e with
    | dial r => exact ⟨nofun, trivial⟩
    | fetch r sends => exact ⟨fun _ => usable_of_usesFirst h, trivial⟩
    | visitorMessage n isBinary data sends =>
      cases isBinary with
      | true => exact ⟨fun _ => usable_of_usesFirst h, trivial⟩
      | false => cases h
    | _ => cases h
  | deliver => exact linkOk_of_up (of_decide_eq_true h) fun _ => nofun
  | origin e => exact linkOk_of_up (of_decide_eq_true h) fun _ => nofun
  | arrive => exact trivial

def plainNote (p : TunnelSystem × (ℕ → List (Bool × Bytes))) (e : PlainEvent) :
    Option (TunnelSystem × (ℕ → List (Bool × Bytes))) :=
  Machine.observed guestStep note p e.event

/-- A guest's origin socket opens and is given a message; another one is on its way. -/
def guestEvents : List PlainEvent :=
  [.relay (.dial TunnelRelay.plainDial), .relay (.fetch upgradeVisit true), .deliver,
    .origin (.socketOpen 0 none), .relay (.visitorMessage 0 true [1] true), .deliver,
    .relay (.visitorMessage 0 true [2] true)]

def guestSpoken : TunnelSystem × (ℕ → List (Bool × Bytes)) :=
  (Machine.exec plainNote (fun p e => p.1.visitOk e) (new, fun _ => []) guestEvents).get
    (by decide +kernel)

theorem reaches_guestSpoken :
    Machine.Reaches (Machine.observed guestStep note) (fun p e => p.1.Ok e) (new, fun _ => [])
      guestSpoken := by
  have hexec : Machine.exec plainNote (fun p e => p.1.visitOk e) (new, fun _ => []) guestEvents =
      some guestSpoken := (Option.some_get _).symm
  exact (Machine.reaches_of_exec hexec).map PlainEvent.event fun _ _ _ hok hstep =>
    ⟨ok_of_visitOk hok, hstep⟩

def guestClient : Client := (guestSpoken.1.clients[0]?).get (by decide +kernel)

def guestPosted : Posted := (guestSpoken.1.relay.relay.outbox[2]?).get (by decide +kernel)

def guestFrame : RawFrame := (decodeFrame guestPosted.bytes).get (by decide +kernel)

def guestStream : WsStream :=
  (guestClient.session.count.wsStreams.get 1).get (by decide +kernel)

/-- What the session finds when it takes the second message. -/
theorem guestClient_facts : guestClient.session.received = 2 ∧ guestClient.down = false ∧
    guestStream.uid = 0 ∧ sentTo guestClient.session.count.effects 0 = [(true, [1])] := by
  decide +kernel

theorem ok_guestSpoken : guestSpoken.1.Ok (.deliver 0 crowded) := by
  refine linkOk_of_up ?_ fun _ => nofun
  have hc : guestSpoken.1.clients[0]? = some guestClient := (Option.some_get _).symm
  rw [hc, Option.map_some, guestClient_facts.2.1]

/-- The session refuses the second message. -/
theorem calls_guestSpoken : Calls TunnelSession.emptyArrays guestSpoken.1 (.deliver 0 crowded) 0
    crowded guestClient.session.count guestClient.session.received guestFrame := by
  have hc : guestSpoken.1.clients[0]? = some guestClient := (Option.some_get _).symm
  have hm : guestSpoken.1.relay.relay.outbox[2]? = some guestPosted := (Option.some_get _).symm
  have hf : decodeFrame guestPosted.bytes = some guestFrame := (Option.some_get _).symm
  exact .message hc (guestClient_facts.1 ▸ hm) (by decide +kernel) hf

theorem overLimit_guestSpoken : OverLimit TunnelSession.emptyArrays crowded
    guestClient.session.count guestFrame 1 guestStream where
  live := by decide +kernel
  streamId := by decide +kernel
  message := by decide +kernel
  stream := (Option.some_get _).symm
  limit := by decide +kernel

/-- The guest has said two messages; the first is all that the origin's socket is given. -/
theorem messages_delivered_guest :
    Machine.Reaches (Machine.observed guestStep note) (fun p e => p.1.Ok e) (new, fun _ => [])
        guestSpoken ∧
      guestSpoken.2 0 = [(true, [1]), (true, [2])] ∧
      ∃ t, guestStep guestSpoken.1 (.deliver 0 crowded) = some t ∧ t.Lost 0 0 [(true, [1])] := by
  obtain ⟨t, ht⟩ : ∃ t, guestStep guestSpoken.1 (.deliver 0 crowded) = some t :=
    Option.isSome_iff_exists.mp (by decide +kernel)
  obtain ⟨v, -, -, -, hlost⟩ := (messages_delivered reaches_guestSpoken).2 _ _ ok_guestSpoken ht
    _ _ _ _ _ _ _ calls_guestSpoken overLimit_guestSpoken
  have hlost' := hlost _ .refl
  rw [guestClient_facts.2.2.1, guestClient_facts.2.2.2] at hlost'
  exact ⟨reaches_guestSpoken, by decide +kernel, t, ht, hlost'⟩

/-- A congested tunnel carries no close-stream. -/
theorem not_always_told : ¬ ∀ (secret : Text) (relayable : TunnelDO.Relayable) (co : Coercion)
    (p : TunnelSystem × (ℕ → List (Bool × Bytes))),
    Machine.Reaches (Machine.observed (step secret relayable co) note) (fun p e => p.1.Ok e)
      (new, fun _ => []) p →
      ∀ e t, p.1.Ok e → step secret relayable co p.1 e = some t →
        ∀ i io u uid f id w, Calls co p.1 e i io u uid f → OverLimit co io u f id w →
          ∀ v, u.onFrame co io uid f = some v → v.outbox =
            u.outbox ++ [⟨w.uid, .closeStream id 1013 "WebSocket buffer limit reached".toList⟩] := by
  intro h
  obtain ⟨t, ht⟩ : ∃ t, guestStep guestSpoken.1 (.deliver 0 crowded) = some t :=
    Option.isSome_iff_exists.mp (by decide +kernel)
  have htold := h _ _ _ _ reaches_guestSpoken _ _ ok_guestSpoken ht _ _ _ _ _ _ _
    calls_guestSpoken overLimit_guestSpoken _ (overLimit_guestSpoken.onFrame _)
  have hsame : (TunnelSession.afterLimit TunnelSession.emptyArrays crowded
      guestClient.session.count 1 guestStream.uid).outbox.length =
        guestClient.session.count.outbox.length := by decide +kernel
  rw [htold, List.length_append] at hsame
  exact absurd hsame (by simp)

end TunnelSystem

end BbShared
