import BbShared.Js.Units
import BbShared.Replacement
import BbShared.SharedTunnel

/-!
# The tunnel and its relay

`lib/shared-tunnel.ts` dials `acceptTunnel` of `worker/src/tunnel/tunnel-do.ts`.  A dial is a
request with a secret and a protocol version; the relay answers it once, at any time, and the answer
comes back at any later time or never.  The network in between may answer in the relay's place, and
the sockets of other clients dial as well.

`verdict` is the relay's answer to the tunnel.  It depends on the secret and the version only, so
that the tunnel's state says which of them is wrong.
-/

namespace BbShared

open Js

/-! ## The comparison of secrets -/

/-- `timingSafeEqual`, with its loop, by code units. -/
def timingSafeEqualUnits (a b : Units) : Bool :=
  if a.length = 0 then false
  else if a.length ≠ b.length then false
  else (List.range a.length).foldl (fun diff i => diff ||| (a.getD i 0 ^^^ b.getD i 0)) 0 == 0

/-- The loop finds no difference if there is none at any place. -/
theorem foldl_diff_eq_zero {f g : ℕ → UInt16} {l : List ℕ} {diff : UInt16} :
    l.foldl (fun diff i => diff ||| (f i ^^^ g i)) diff = 0 ↔ diff = 0 ∧ ∀ i ∈ l, f i = g i := by
  induction l generalizing diff with
  | nil => simp
  | cons i l ih =>
    rw [List.foldl_cons, ih, UInt16.or_eq_zero_iff, UInt16.xor_eq_zero_iff, List.forall_mem_cons,
      and_assoc]

theorem timingSafeEqualUnits_eq (a b : Units) :
    timingSafeEqualUnits a b = (a ≠ [] && a = b) := by
  unfold timingSafeEqualUnits
  by_cases hne : a = []
  · rw [if_pos (List.length_eq_zero_iff.mpr hne), hne]
    rfl
  rw [if_neg (fun h => hne (List.length_eq_zero_iff.mp h)), decide_eq_true hne, Bool.true_and]
  by_cases hlen : a.length = b.length
  · rw [if_neg (fun h => h hlen), Bool.eq_iff_iff, beq_iff_eq, decide_eq_true_iff,
      foldl_diff_eq_zero]
    constructor
    · rintro ⟨-, hall⟩
      refine List.ext_getElem hlen fun i ha hb => ?_
      have hi := hall i (List.mem_range.mpr ha)
      simpa [ha, hb] using hi
    · rintro rfl
      exact ⟨rfl, fun _ _ => rfl⟩
  · rw [if_pos hlen, decide_eq_false fun h => hlen (congrArg List.length h)]

/-- **The loop decides equality.** -/
theorem timingSafeEqual_eq_units (a b : Text) :
    timingSafeEqual a b = timingSafeEqualUnits (Units.ofText a) (Units.ofText b) := by
  have hinj : Units.ofText a = Units.ofText b ↔ a = b :=
    (Function.LeftInverse.injective Units.text_ofText).eq_iff
  have hnil : Units.ofText a = [] ↔ a = [] :=
    (Function.LeftInverse.injective Units.text_ofText).eq_iff (b := [])
  rw [timingSafeEqualUnits_eq]
  unfold timingSafeEqual
  simp only [hinj, hnil, ne_eq]

/-! ## Dials of the tunnel -/

/-- The request of `open`, as the relay reads it. -/
def tunnelDial (secret version : Text) : DialRequest :=
  ⟨some "websocket".toList, some ("Bearer ".toList ++ secret), some version⟩

theorem isSpace_tokenChar {c : Char} (h : isTokenChar c = true) : isSpace c = false := by
  have hsafe : formSafe c = true := by
    unfold isTokenChar at h
    unfold formSafe
    simp only [Bool.or_eq_true, decide_eq_true_iff, beq_iff_eq] at h ⊢
    tauto
  exact forall_char_lt (P := fun c => isTokenChar c = true → isSpace c = false) (by decide)
    (lt_of_formSafe hsafe) h

theorem bearerFrom_secret {secret : Text} (hs : isTunnelSecret secret = true) :
    bearerFrom (some ("Bearer ".toList ++ secret)) = some secret := by
  unfold isTunnelSecret at hs
  rw [Bool.and_eq_true, Bool.and_eq_true, decide_eq_true_iff, List.all_eq_true] at hs
  have htrim : trim secret = secret := trim_eq_self fun c hc => isSpace_tokenChar (hs.2 c hc)
  have hne : secret ≠ [] := by
    rintro rfl
    exact absurd hs.1.1 (by decide)
  unfold bearerFrom
  simp only
  rw [dropPrefix?_append]
  simp only
  rw [htrim, if_neg hne]

/-- **What the relay answers.** -/
theorem dialRefusal_tunnelDial {secret : Text} (hs : isTunnelSecret secret = true)
    (tunnelSecret version : Text) :
    dialRefusal tunnelSecret (tunnelDial secret version) =
      if secret = tunnelSecret then if version = ['1'] then none else some 426 else some 401 := by
  have hne : secret ≠ [] := by
    rintro rfl
    exact absurd hs (by decide)
  unfold dialRefusal tunnelDial
  simp only
  rw [if_neg (by decide), bearerFrom_secret hs]
  simp only
  unfold timingSafeEqual
  by_cases h : secret = tunnelSecret
  · subst h
    by_cases hv : version = ['1'] <;> simp [hne, hv]
  · rw [if_neg h, if_pos]
    simp [Ne.symm h]

/-- What the relay accepts has its secret. -/
theorem bearer_of_dialRefusal {tunnelSecret : Text} {r : DialRequest}
    (h : dialRefusal tunnelSecret r = none) : bearerFrom r.authorization = some tunnelSecret := by
  unfold dialRefusal at h
  by_cases hu : r.upgrade.map lower ≠ some "websocket".toList
  · rw [if_pos hu] at h
    cases h
  rw [if_neg hu] at h
  cases hb : bearerFrom r.authorization with
  | none => rw [hb] at h; cases h
  | some presented =>
    rw [hb] at h
    simp only at h
    split_ifs at h with heq
    have hsame : timingSafeEqual tunnelSecret presented = true := by simpa using heq
    unfold timingSafeEqual at hsame
    rw [of_decide_eq_true (Bool.and_eq_true_iff.mp hsame).2]

/-! ## Sockets that open -/

namespace SharedTunnel

/-- The sockets that are open in `t` were so in `s`, but for those of `P`. -/
def Opens (P : ℕ → Prop) (s t : SharedTunnel) : Prop :=
  ∀ (i : ℕ) (k : TunnelSocket), t.sockets[i]? = some k → k.opened = true →
    P i ∨ ∃ k₀ : TunnelSocket, s.sockets[i]? = some k₀ ∧ k₀.opened = true

variable {P : ℕ → Prop} {s t u : SharedTunnel} {e : TunnelEvent} {i : ℕ}

namespace Opens

theorem of_sockets (h : t.sockets = s.sockets) : Opens P s t :=
  fun _ k hk ho => .inr ⟨k, h ▸ hk, ho⟩

theorem trans (h : Opens P s t) (h' : Opens P t u) : Opens P s u := by
  intro i k hk ho
  rcases h' i k hk ho with hp | ⟨k', hk', ho'⟩
  · exact .inl hp
  · exact h i k' hk' ho'

theorem setSocket {k k' : TunnelSocket} (hk : s.sockets[i]? = some k)
    (ho : k'.opened = true → P i ∨ k.opened = true) : Opens P s (s.setSocket i k') := by
  intro j k₁ hj hj'
  rw [getElem?_setSocket hk] at hj
  split_ifs at hj with hji
  · subst hji
    obtain rfl := Option.some.inj hj
    exact (ho hj').imp_right fun hk' => ⟨k, hk, hk'⟩
  · exact .inr ⟨k₁, hj, hj'⟩

theorem dial : Opens P s s.dial := by
  unfold SharedTunnel.dial
  split_ifs
  · exact of_sockets rfl
  · intro i k hk ho
    replace hk : (s.sockets ++ [⟨true, false, false⟩])[i]? = some k := hk
    rw [List.getElem?_append] at hk
    split_ifs at hk with hlt
    · exact .inr ⟨k, hk, ho⟩
    · obtain rfl := List.mem_singleton.mp (List.mem_of_getElem? hk)
      cases ho

theorem teardownSocket : Opens P s s.teardownSocket := by
  unfold SharedTunnel.teardownSocket unlisten
  cases s.socket with
  | none => exact of_sockets rfl
  | some i =>
    simp only
    cases hk : s.sockets[i]? with
    | none => exact of_sockets rfl
    | some k =>
      have hset : Opens P s (s.setSocket i { k with listens := false }) := setSocket hk .inr
      exact hset

theorem scheduleReconnect (now : ℕ) : Opens P s (s.scheduleReconnect now) := by
  unfold SharedTunnel.scheduleReconnect
  split_ifs <;> exact of_sockets rfl

theorem stop : Opens P s s.stop := by
  have hteardown : Opens P s { s with stopped := true, retryTimer := none }.teardownSocket :=
    teardownSocket
  exact hteardown

theorem onUnexpectedResponse (status now : ℕ) : Opens P s (s.onUnexpectedResponse status now) := by
  have hteardown : Opens P s { s.teardownSocket with lastError := some (rejected status) } :=
    teardownSocket
  unfold SharedTunnel.onUnexpectedResponse
  simp only
  split_ifs
  · exact hteardown
  · exact hteardown.trans stop
  · exact hteardown.trans (scheduleReconnect now)

theorem emit {next : TunnelSocket → Option TunnelSocket} {handler : SharedTunnel → SharedTunnel}
    (h : s.emit i next handler = some t)
    (hnext : ∀ k k', next k = some k' → k'.opened = true → P i ∨ k.opened = true)
    (hhandler : ∀ u, Opens P u (handler u)) : Opens P s t := by
  obtain ⟨k, k', hk, -, hnext', hcase⟩ := emit_eq_some h
  have hset : Opens P s (s.setSocket i k') := setSocket hk (hnext k k' hnext')
  rcases hcase with ⟨-, rfl⟩ | ⟨-, rfl⟩
  · exact hset.trans (hhandler _)
  · exact hset

/-- A socket opens in its `open` event. -/
theorem step (h : s.step e = some t) : Opens (fun i => ∃ now, e = .socketOpen i now) s t := by
  cases e with
  | start =>
    obtain rfl := Option.some.inj h
    show Opens _ s s.start
    unfold SharedTunnel.start
    split_ifs
    · exact dial
    · exact of_sockets rfl
  | stop =>
    obtain rfl := Option.some.inj h
    exact stop
  | socketOpen i now =>
    unfold SharedTunnel.step at h
    exact emit h (fun _ _ _ _ => .inl ⟨now, rfl⟩) fun _ => of_sockets rfl
  | unexpectedResponse i status now =>
    unfold SharedTunnel.step at h
    refine emit h (fun k k' hk ho => ?_) fun _ => onUnexpectedResponse status now
    split_ifs at hk
    obtain rfl := Option.some.inj hk
    exact .inr ho
  | socketError i message =>
    unfold SharedTunnel.step at h
    refine emit h (fun k k' hk ho => ?_) fun _ => of_sockets rfl
    obtain rfl := Option.some.inj hk
    exact .inr ho
  | socketClose i now =>
    unfold SharedTunnel.step at h
    refine emit h (fun k k' hk ho => ?_) fun _ => scheduleReconnect now
    obtain rfl := Option.some.inj hk
    exact .inr ho
  | retry =>
    obtain ⟨_, -, rfl⟩ := Option.map_eq_some_iff.mp h
    exact dial
  | remoteClientsChange n =>
    unfold SharedTunnel.step at h
    simp only at h
    split_ifs at h
    obtain rfl := Option.some.inj h
    exact of_sockets rfl

end Opens

/-! ## Steps that stop it -/

/-- A refusal after which the tunnel dials no more, and the state that tells of it. -/
inductive Final : ℕ → TunnelState → Prop
  | protocol {status : ℕ} (h : status = 409 ∨ status = 426) : Final status .incompatible
  | credential {status : ℕ} (h : status = 401 ∨ status = 403) : Final status .stopped

theorem stopped_scheduleReconnect (s : SharedTunnel) (now : ℕ) :
    (s.scheduleReconnect now).stopped = s.stopped := by
  unfold scheduleReconnect
  split_ifs <;> rfl

theorem stopped_dial (s : SharedTunnel) : s.dial.stopped = s.stopped := by
  unfold dial
  split_ifs <;> rfl

theorem state_scheduleReconnect (s : SharedTunnel) (now : ℕ) :
    (s.scheduleReconnect now).state = s.state ∨
      (s.scheduleReconnect now).state = .reconnecting := by
  unfold scheduleReconnect
  split_ifs
  · exact .inl rfl
  · exact .inl rfl
  · exact .inr rfl

theorem state_dial (s : SharedTunnel) : s.dial.state = s.state ∨ s.dial.state = .connecting := by
  unfold dial
  split_ifs
  · exact .inl rfl
  · exact .inr rfl

/-- Only the owner and a final refusal stop a tunnel. -/
theorem stopped_of_step (h : s.step e = some t) (hs : s.stopped = false)
    (ht : t.stopped = true) :
    e = .stop ∨ ∃ i status now, e = .unexpectedResponse i status now ∧ Final status t.state := by
  have hne : t.stopped ≠ s.stopped := by
    rw [hs, ht]
    decide
  cases Step.of_step h with
  | start =>
    refine absurd ?_ hne
    unfold SharedTunnel.start
    rw [if_neg (by simp [hs])]
  | stop => exact .inl rfl
  | ignored _ hk hl hl' => exact absurd rfl hne
  | opened hk hl hc => exact absurd rfl hne
  | @refused i status now hi =>
    refine .inr ⟨i, status, now, rfl, ?_⟩
    unfold onUnexpectedResponse at hne ⊢
    simp only at hne ⊢
    split_ifs at hne ⊢ with hp hc
    · exact .protocol hp
    · exact .credential hc
    · rw [stopped_scheduleReconnect] at hne
      exact absurd (teardownSocket_frame s).1 hne
  | failed _ => exact absurd rfl hne
  | @closed i now k hk hl hc =>
    exact absurd (stopped_scheduleReconnect { s.setSocket i { k with closed := true } with
      session := false, remoteClients := 0 } now) hne
  | retry hd => exact absurd (stopped_dial { s with retryTimer := none }) hne
  | clients => exact absurd rfl hne

/-- Only a final refusal of the protocol makes a tunnel incompatible. -/
theorem incompatible_of_step (h : s.step e = some t) (ht : t.state = .incompatible) :
    s.state = .incompatible ∨
      ∃ i status now, e = .unexpectedResponse i status now ∧ Final status .incompatible := by
  cases Step.of_step h with
  | start =>
    unfold SharedTunnel.start at ht
    split_ifs at ht
    · rcases state_dial { s with stopped := false, backoff := s.backoff.reset } with hd | hd
      · exact .inl (hd.symm.trans ht)
      · rw [hd] at ht
        cases ht
    · exact .inl ht
  | stop => cases ht
  | ignored _ hk hl hl' => exact .inl ht
  | opened hk hl hc => cases ht
  | @refused i status now hi =>
    unfold onUnexpectedResponse at ht
    simp only at ht
    split_ifs at ht with hp hc
    · exact .inr ⟨i, status, now, rfl, .protocol hp⟩
    · cases ht
    · rcases state_scheduleReconnect { s.teardownSocket with lastError := some (rejected status) }
        now with hd | hd
      · exact .inl ((teardownSocket_frame s).2.2.1.symm.trans (hd.symm.trans ht))
      · rw [hd] at ht
        cases ht
  | failed _ => exact .inl ht
  | @closed i now k hk hl hc =>
    rcases state_scheduleReconnect { s.setSocket i { k with closed := true } with
      session := false, remoteClients := 0 } now with hd | hd
    · exact .inl (hd.symm.trans ht)
    · exact absurd (hd.symm.trans ht) (by decide)
  | retry hd =>
    rcases state_dial { s with retryTimer := none } with hd | hd
    · exact .inl (hd.symm.trans ht)
    · rw [hd] at ht
      cases ht
  | clients => exact .inl ht

end SharedTunnel

/-! ## Tunnels of the relay -/

/-- The relay accepts a tunnel in a dial that it does not refuse. -/
theorem TunnelRelay.length_tunnels {secret : Text} {relayable : TunnelDO.Relayable}
    {s t : TunnelRelay} {e : RelayEvent} (h : TunnelRelay.step secret relayable s e = some t) :
    (∃ r, e = .dial r ∧ dialRefusal secret r = none ∧ t = s.acceptTunnel) ∨
      t.tunnels.length = s.tunnels.length := by
  unfold TunnelRelay.step at h
  cases e with
  | dial r =>
    obtain rfl := Option.some.inj h
    cases hr : dialRefusal secret r with
    | none => exact .inl ⟨r, rfl, hr, if_neg (by simp)⟩
    | some status => exact .inr rfl
  | lose tunnel =>
    obtain rfl := Option.some.inj h
    exact .inr List.length_set
  | tunnelFrame tunnel source frame =>
    simp only at h
    split_ifs at h
    obtain rfl := Option.some.inj h
    exact .inr rfl
  | tunnelClose tunnel =>
    simp only at h
    split_ifs at h
    obtain rfl := Option.some.inj h
    exact .inr List.length_set
  | fetch r sends =>
    obtain rfl := Option.some.inj h
    refine .inr ?_
    split_ifs <;> rfl
  | pumpChunk streamId value sends =>
    obtain rfl := Option.some.inj h
    exact .inr rfl
  | pumpEnd streamId sends =>
    obtain rfl := Option.some.inj h
    exact .inr rfl
  | pumpError streamId sends =>
    obtain rfl := Option.some.inj h
    exact .inr rfl
  | visitorMessage opening isBinary data sends =>
    obtain ⟨v, -, rfl⟩ := Option.map_eq_some_iff.mp h
    exact .inr rfl
  | visitorClose opening code reason sends =>
    obtain ⟨v, -, rfl⟩ := Option.map_eq_some_iff.mp h
    exact .inr rfl
  | visitorGone opening =>
    obtain rfl := Option.some.inj h
    exact .inr rfl
  | headTimeout streamId =>
    obtain ⟨relay, -, rfl⟩ := Option.map_eq_some_iff.mp h
    exact .inr rfl
  | cancel streamId sends =>
    simp only at h
    cases hg : s.relay.pendingHttp.get streamId with
    | none => rw [hg] at h; cases h
    | some entry =>
      rw [hg] at h
      simp only at h
      split_ifs at h
      obtain rfl := Option.some.inj h
      exact .inr rfl

/-! ## The two parties -/

inductive DialAnswer where
  /-- The tunnel that the relay accepted. -/
  | accepted (tunnel : ℕ)
  | refused (status : ℕ)

structure Pairing where
  client : SharedTunnel
  relay : TunnelRelay
  /-- The answers to the dials of the tunnel's sockets. -/
  answers : ℕ → Option DialAnswer

inductive PairingEvent where
  /-- The owner, the timer, a failure of a socket, or its session. -/
  | tunnel (e : TunnelEvent)
  /-- The relay gets the dial of a socket and answers it. -/
  | dialed (socket : ℕ)
  /-- The network answers it. -/
  | intercepted (socket status : ℕ)
  /-- The answer arrives at the socket. -/
  | answered (socket now : ℕ)
  /-- Everything else that the relay does. -/
  | relay (e : RelayEvent)

/-- The events of a socket that an answer causes. -/
def TunnelEvent.OfAnswer : TunnelEvent → Prop
  | .socketOpen _ _ => True
  | .unexpectedResponse _ _ _ => True
  | _ => False

instance decidableOfAnswer : (e : TunnelEvent) → Decidable e.OfAnswer
  | .start => .isFalse id
  | .stop => .isFalse id
  | .socketOpen _ _ => .isTrue trivial
  | .unexpectedResponse _ _ _ => .isTrue trivial
  | .socketError _ _ => .isFalse id
  | .socketClose _ _ => .isFalse id
  | .retry => .isFalse id
  | .remoteClientsChange _ => .isFalse id

/-- The event of a socket whose answer arrives. -/
def DialAnswer.event (i now : ℕ) : DialAnswer → TunnelEvent
  | .accepted _ => .socketOpen i now
  | .refused status => .unexpectedResponse i status now

namespace Pairing

def new : Pairing := ⟨.new, .new, fun _ => none⟩

/-- The dial of the socket is under way. -/
def Dials (p : Pairing) (i : ℕ) : Prop := i < p.client.sockets.length ∧ p.answers i = none

instance decidableDials (p : Pairing) (i : ℕ) : Decidable (p.Dials i) :=
  inferInstanceAs (Decidable (_ ∧ p.answers i = none))

def answer (p : Pairing) (i : ℕ) (a : DialAnswer) : Pairing :=
  { p with answers := Function.update p.answers i (some a) }

variable (secret version tunnelSecret : Text) (relayable : TunnelDO.Relayable)

/-- The relay's answer to a dial. -/
def verdict : Option ℕ := dialRefusal tunnelSecret (tunnelDial secret version)

/-- `none` where the event cannot happen. -/
def step (p : Pairing) : PairingEvent → Option Pairing
  | .tunnel e =>
    if e.OfAnswer then none else (p.client.step e).map fun client => { p with client }
  | .dialed i =>
    if p.Dials i then
      (p.relay.step tunnelSecret relayable (.dial (tunnelDial secret version))).map fun relay =>
        { p with relay }.answer i <|
          match verdict secret version tunnelSecret with
          | none => .accepted p.relay.tunnels.length
          | some status => .refused status
    else none
  | .intercepted i status => if p.Dials i then some (p.answer i (.refused status)) else none
  | .answered i now =>
    (p.answers i).bind fun a => (p.client.step (a.event i now)).map fun client => { p with client }
  | .relay e => (p.relay.step tunnelSecret relayable e).map fun relay => { p with relay }

/-- The network does not refuse for good, and only the tunnel has the secret of the relay. -/
def Ok (_ : Pairing) : PairingEvent → Prop
  | .intercepted _ status => status ∉ [401, 403, 409, 426]
  | .relay (.dial r) => bearerFrom r.authorization ≠ some tunnelSecret
  | _ => True

/-! ## Invariant -/

structure Sound (p : Pairing) : Prop where
  client : p.client.Sound
  accepted : ∀ i n, p.answers i = some (.accepted n) →
    verdict secret version tunnelSecret = none ∧ n < p.relay.tunnels.length
  /-- A refusal for good is the relay's. -/
  refused : ∀ i status state, p.answers i = some (.refused status) →
    SharedTunnel.Final status state → verdict secret version tunnelSecret = some status
  opened : ∀ (i : ℕ) (k : TunnelSocket), p.client.sockets[i]? = some k → k.opened = true →
    ∃ n, p.answers i = some (.accepted n)
  dialed : ∀ n < p.relay.tunnels.length, ∃ i, p.answers i = some (.accepted n)
  distinct : ∀ i j n, p.answers i = some (.accepted n) → p.answers j = some (.accepted n) → i = j
  incompatible : p.client.state = .incompatible →
    ∃ status, SharedTunnel.Final status .incompatible ∧
      verdict secret version tunnelSecret = some status

variable {secret version tunnelSecret relayable} {p q : Pairing} {e : PairingEvent}

theorem sound_new : new.Sound secret version tunnelSecret where
  client := SharedTunnel.sound_new
  accepted _ _ h := by cases h
  refused _ _ _ h := by cases h
  opened _ _ h := by cases h
  dialed _ h := absurd h (Nat.not_lt_zero _)
  distinct _ _ _ h := by cases h
  incompatible h := by cases h

namespace Sound

/-- The relay does not accept tunnels of others. -/
theorem setRelay (h : p.Sound secret version tunnelSecret) {relay : TunnelRelay}
    (hlen : relay.tunnels.length = p.relay.tunnels.length) :
    ({ p with relay } : Pairing).Sound secret version tunnelSecret :=
  { h with
    accepted := fun i n ha => ⟨(h.accepted i n ha).1, (h.accepted i n ha).2.trans_eq hlen.symm⟩
    dialed := fun n hn => h.dialed n (hn.trans_eq hlen) }

/-- The tunnel takes a step. -/
theorem setClient (h : p.Sound secret version tunnelSecret) {e : TunnelEvent}
    {client : SharedTunnel} (ht : p.client.step e = some client)
    (hopen : ∀ i now, e = .socketOpen i now → ∃ n, p.answers i = some (.accepted n))
    (hrefused : ∀ i status now, e = .unexpectedResponse i status now →
      p.answers i = some (.refused status)) :
    ({ p with client } : Pairing).Sound secret version tunnelSecret :=
  { h with
    client := h.client.step ht
    opened := fun i k hk ho => by
      rcases SharedTunnel.Opens.step ht i k hk ho with ⟨now, rfl⟩ | ⟨k₀, hk₀, ho₀⟩
      · exact hopen i now rfl
      · exact h.opened i k₀ hk₀ ho₀
    incompatible := fun hi => by
      rcases SharedTunnel.incompatible_of_step ht hi with hs | ⟨i, status, now, rfl, hfinal⟩
      · exact h.incompatible hs
      · exact ⟨status, hfinal, h.refused i status _ (hrefused i status now rfl) hfinal⟩ }

/-- A dial is refused. -/
theorem refuse (h : p.Sound secret version tunnelSecret) {i status : ℕ} (hi : p.answers i = none)
    (hfinal : ∀ state, SharedTunnel.Final status state →
      verdict secret version tunnelSecret = some status) :
    (p.answer i (.refused status)).Sound secret version tunnelSecret := by
  have hkept : ∀ j n, (p.answer i (.refused status)).answers j = some (.accepted n) ↔
      p.answers j = some (.accepted n) := by
    intro j n
    show Function.update p.answers i _ j = _ ↔ _
    by_cases hj : j = i
    · rw [hj, Function.update_self, hi]
      exact ⟨(fun h => by cases h), (fun h => by cases h)⟩
    · rw [Function.update_of_ne hj]
  refine { h with
    accepted := fun j n ha => h.accepted j n ((hkept j n).mp ha)
    refused := fun j status' state ha hf => ?_
    opened := fun j k hk ho => ?_
    dialed := fun n hn => ?_
    distinct := fun j j' n ha ha' => h.distinct j j' n ((hkept j n).mp ha) ((hkept j' n).mp ha') }
  · replace ha : Function.update p.answers i (some (.refused status)) j = some (.refused status') :=
      ha
    by_cases hj : j = i
    · rw [hj, Function.update_self] at ha
      obtain rfl : status = status' := DialAnswer.refused.inj (Option.some.inj ha)
      exact hfinal state hf
    · rw [Function.update_of_ne hj] at ha
      exact h.refused j status' state ha hf
  · obtain ⟨n, ha⟩ := h.opened j k hk ho
    exact ⟨n, (hkept j n).mpr ha⟩
  · obtain ⟨j, ha⟩ := h.dialed n hn
    exact ⟨j, (hkept j n).mpr ha⟩

/-- A dial is accepted. -/
theorem accept (h : p.Sound secret version tunnelSecret) {i : ℕ} (hi : p.answers i = none)
    (hv : verdict secret version tunnelSecret = none) :
    (({ p with relay := p.relay.acceptTunnel } : Pairing).answer i
      (.accepted p.relay.tunnels.length)).Sound secret version tunnelSecret := by
  have hlen : p.relay.acceptTunnel.tunnels.length = p.relay.tunnels.length + 1 := by
    simp [TunnelRelay.acceptTunnel]
  have hself : Function.update p.answers i (some (.accepted p.relay.tunnels.length)) i =
      some (.accepted p.relay.tunnels.length) := Function.update_self ..
  -- the answers to the other dials stay
  have hother : ∀ {j : ℕ} {a : DialAnswer}, p.answers j = some a →
      Function.update p.answers i (some (.accepted p.relay.tunnels.length)) j = some a := by
    intro j a ha
    rw [Function.update_of_ne (by rintro rfl; rw [hi] at ha; cases ha)]
    exact ha
  have hcases : ∀ {j : ℕ} {a : DialAnswer},
      Function.update p.answers i (some (.accepted p.relay.tunnels.length)) j = some a →
      j = i ∧ a = .accepted p.relay.tunnels.length ∨ p.answers j = some a := by
    intro j a ha
    by_cases hj : j = i
    · rw [hj, Function.update_self] at ha
      exact .inl ⟨hj, (Option.some.inj ha).symm⟩
    · rw [Function.update_of_ne hj] at ha
      exact .inr ha
  refine ⟨h.client, fun j n ha => ?_, fun j status state ha hf => ?_, fun j k hk ho => ?_,
    fun n hn => ?_, fun j j' n ha ha' => ?_, h.incompatible⟩
  · refine ⟨hv, ?_⟩
    rcases hcases ha with ⟨-, heq⟩ | ha
    · obtain rfl := DialAnswer.accepted.inj heq
      exact hlen.symm ▸ Nat.lt_succ_self _
    · exact hlen.symm ▸ Nat.lt_succ_of_lt (h.accepted j n ha).2
  · rcases hcases ha with ⟨-, heq⟩ | ha
    · cases heq
    · exact h.refused j status state ha hf
  · obtain ⟨n, ha⟩ := h.opened j k hk ho
    exact ⟨n, hother ha⟩
  · rcases Nat.lt_succ_iff_lt_or_eq.mp (hlen ▸ hn) with hn | rfl
    · obtain ⟨j, ha⟩ := h.dialed n hn
      exact ⟨j, hother ha⟩
    · exact ⟨i, hself⟩
  · rcases hcases ha with ⟨hj, heq⟩ | hold
    · obtain rfl := DialAnswer.accepted.inj heq
      rcases hcases ha' with ⟨hj', -⟩ | hold'
      · exact hj.trans hj'.symm
      · exact absurd (h.accepted _ _ hold').2 (lt_irrefl _)
    · rcases hcases ha' with ⟨-, heq⟩ | hold'
      · obtain rfl := DialAnswer.accepted.inj heq
        exact absurd (h.accepted _ _ hold).2 (lt_irrefl _)
      · exact h.distinct j j' n hold hold'

theorem step (h : p.Sound secret version tunnelSecret) (hok : Ok tunnelSecret p e)
    (hq : Pairing.step secret version tunnelSecret relayable p e = some q) :
    q.Sound secret version tunnelSecret := by
  unfold Pairing.step at hq
  cases e with
  | tunnel e =>
    simp only at hq
    split_ifs at hq with he
    obtain ⟨client, ht, rfl⟩ := Option.map_eq_some_iff.mp hq
    exact h.setClient ht (fun i now heq => absurd (heq ▸ trivial) he)
      fun i status now heq => absurd (heq ▸ trivial) he
  | dialed i =>
    simp only at hq
    split_ifs at hq with hdials
    obtain ⟨relay, ht, rfl⟩ := Option.map_eq_some_iff.mp hq
    obtain rfl := Option.some.inj ht
    unfold verdict
    cases hv : dialRefusal tunnelSecret (tunnelDial secret version) with
    | none => exact h.accept hdials.2 hv
    | some status => exact h.refuse hdials.2 fun _ _ => hv
  | intercepted i status =>
    simp only at hq
    split_ifs at hq with hdials
    obtain rfl := Option.some.inj hq
    refine h.refuse hdials.2 fun state hf => absurd ?_ hok
    cases hf with
    | protocol hs => simp; tauto
    | credential hs => simp; tauto
  | answered i now =>
    obtain ⟨a, ha, hq⟩ := Option.bind_eq_some_iff.mp hq
    obtain ⟨client, ht, rfl⟩ := Option.map_eq_some_iff.mp hq
    refine h.setClient ht (fun j now' heq => ?_) fun j status now' heq => ?_
    · cases a with
      | accepted n =>
        obtain ⟨rfl, -⟩ := TunnelEvent.socketOpen.inj heq
        exact ⟨n, ha⟩
      | refused status => cases heq
    · cases a with
      | accepted n => cases heq
      | refused status' =>
        obtain ⟨rfl, rfl, -⟩ := TunnelEvent.unexpectedResponse.inj heq
        exact ha
  | relay e =>
    obtain ⟨relay, ht, rfl⟩ := Option.map_eq_some_iff.mp hq
    rcases TunnelRelay.length_tunnels ht with ⟨r, rfl, hr, -⟩ | hlen
    · exact absurd (bearer_of_dialRefusal hr) hok
    · exact h.setRelay hlen

end Sound

/-! ## Runs -/

/-- What the two parties say of each other. -/
structure Diagnosed (secret version tunnelSecret : Text) (relayable : TunnelDO.Relayable)
    (p : Pairing) : Prop where
  /-- A socket that opened is one that the relay accepted. -/
  opened : ∀ (i : ℕ) (k : TunnelSocket), p.client.sockets[i]? = some k → k.opened = true →
    ∃ n < p.relay.tunnels.length, p.answers i = some (.accepted n)
  /-- Each tunnel of the relay is the dial of one socket. -/
  dialed : ∀ n < p.relay.tunnels.length, ∃! i, p.answers i = some (.accepted n)
  /-- With the relay's secret and version the tunnel never gives up. -/
  paired : secret = tunnelSecret → version = ['1'] → p.client.state ≠ .incompatible ∧
    (p.client.stopped = false → (∃ i, p.client.Live i) ∨ p.client.retryTimer.isSome = true) ∧
    ∀ e q, step secret version tunnelSecret relayable p e = some q →
      p.client.stopped = false → q.client.stopped = true → e = .tunnel .stop
  /-- Otherwise it never connects, and its state tells which of them is wrong. -/
  unpaired : secret ≠ tunnelSecret ∨ version ≠ ['1'] →
    p.relay.tunnels = [] ∧ p.client.state ≠ .connected ∧
    (∀ i now status q, p.client.Live i → p.answers i = some (.refused status) →
      verdict secret version tunnelSecret = some status →
      step secret version tunnelSecret relayable p (.answered i now) = some q →
        q.client.stopped = true) ∧
    (p.client.state = .incompatible → secret = tunnelSecret) ∧
    ∀ e q, step secret version tunnelSecret relayable p e = some q →
      p.client.stopped = false → q.client.stopped = true → e ≠ .tunnel .stop →
        q.client.state = if secret = tunnelSecret then .incompatible else .stopped

/-- A step that stops the tunnel is the owner's, or a refusal for good. -/
theorem Sound.stops (h : p.Sound secret version tunnelSecret)
    (hq : Pairing.step secret version tunnelSecret relayable p e = some q)
    (hp : p.client.stopped = false) (hs : q.client.stopped = true) :
    e = .tunnel .stop ∨ ∃ status, SharedTunnel.Final status q.client.state ∧
      verdict secret version tunnelSecret = some status := by
  have hsame : ∀ {client : SharedTunnel}, client = p.client → client.stopped = true → False := by
    rintro _ rfl hs
    rw [hp] at hs
    cases hs
  unfold Pairing.step at hq
  cases e with
  | tunnel e =>
    simp only at hq
    split_ifs at hq with he
    obtain ⟨client, ht, rfl⟩ := Option.map_eq_some_iff.mp hq
    rcases SharedTunnel.stopped_of_step ht hp hs with rfl | ⟨i, status, now, rfl, -⟩
    · exact .inl rfl
    · exact absurd trivial he
  | dialed i =>
    simp only at hq
    split_ifs at hq
    obtain ⟨relay, -, rfl⟩ := Option.map_eq_some_iff.mp hq
    exact absurd hs fun hs => hsame rfl hs
  | intercepted i status =>
    simp only at hq
    split_ifs at hq
    obtain rfl := Option.some.inj hq
    exact absurd hs fun hs => hsame rfl hs
  | answered i now =>
    obtain ⟨a, ha, hq⟩ := Option.bind_eq_some_iff.mp hq
    obtain ⟨client, ht, rfl⟩ := Option.map_eq_some_iff.mp hq
    rcases SharedTunnel.stopped_of_step ht hp hs with heq | ⟨j, status, now', heq, hfinal⟩
    · cases a <;> cases heq
    · cases a with
      | accepted n => cases heq
      | refused status' =>
        obtain ⟨-, rfl, -⟩ := TunnelEvent.unexpectedResponse.inj heq
        exact .inr ⟨status', hfinal, h.refused i status' _ ha hfinal⟩
  | relay e =>
    obtain ⟨relay, -, rfl⟩ := Option.map_eq_some_iff.mp hq
    exact absurd hs fun hs => hsame rfl hs

/-- **Pairing.** In every run, however dials, answers and failures are interleaved, the sockets that
open and the tunnels of the relay are the same dials.  With the relay's secret and version only the
owner stops the tunnel; with another secret it is refused for good at the first answer of the
relay, and with another version it is incompatible. -/
theorem pairing_diagnosed (hs : isTunnelSecret secret = true)
    (h : Machine.Reaches (step secret version tunnelSecret relayable) (Ok tunnelSecret) new p) :
    p.Diagnosed secret version tunnelSecret relayable := by
  have hsound : p.Sound secret version tunnelSecret :=
    h.invariant sound_new fun _ _ _ hp hok hq => hp.step hok hq
  have hverdict : verdict secret version tunnelSecret = _ :=
    dialRefusal_tunnelDial hs tunnelSecret version
  refine ⟨fun i k hk ho => ?_, fun n hn => ?_,
    fun hsecret hversion => ⟨fun hi => ?_, hsound.client.running, ?_⟩, fun hne => ?_⟩
  · obtain ⟨n, ha⟩ := hsound.opened i k hk ho
    exact ⟨n, (hsound.accepted i n ha).2, ha⟩
  · obtain ⟨i, ha⟩ := hsound.dialed n hn
    exact ⟨i, ha, fun j hj => hsound.distinct j i n hj ha⟩
  · obtain ⟨status, -, hv⟩ := hsound.incompatible hi
    rw [hverdict, if_pos hsecret, if_pos hversion] at hv
    cases hv
  · intro e q hq hp hstop
    rcases hsound.stops hq hp hstop with rfl | ⟨status, -, hv⟩
    · rfl
    · rw [hverdict, if_pos hsecret, if_pos hversion] at hv
      cases hv
  · have hsome : verdict secret version tunnelSecret ≠ none := by
      rw [hverdict]
      rcases hne with hne | hne
      · rw [if_neg hne]
        exact Option.some_ne_none _
      · rw [if_neg hne]
        split_ifs <;> exact Option.some_ne_none _
    have htunnels : p.relay.tunnels = [] := by
      by_contra hnil
      obtain ⟨i, ha⟩ := hsound.dialed 0 (List.length_pos_iff.mpr hnil)
      exact hsome (hsound.accepted i 0 ha).1
    refine ⟨htunnels, fun hc => ?_, fun i now status q hi ha hv hq => ?_, fun hi => ?_,
      fun e q hq hp hstop howner => ?_⟩
    · obtain ⟨i, k, hk, -, -, ho⟩ := hsound.client.connected.mp hc
      obtain ⟨n, ha⟩ := hsound.opened i k hk ho
      exact hsome (hsound.accepted i n ha).1
    · have hstep : (p.answers i).bind (fun a => (p.client.step (a.event i now)).map fun client =>
          { p with client }) = some q := hq
      rw [ha, Option.bind_some] at hstep
      obtain ⟨client, ht, rfl⟩ := Option.map_eq_some_iff.mp hstep
      have hfinal : status ∈ [401, 403, 409, 426] := by
        rw [hverdict] at hv
        split_ifs at hv <;> simp [← Option.some.inj hv]
      have hhalts : p.client.Halts (.unexpectedResponse i status now) := ⟨hi, hfinal⟩
      exact (SharedTunnel.stopped_of_halts hhalts ht).1
    · by_contra hsecret
      obtain ⟨status, hfinal, hv⟩ := hsound.incompatible hi
      rw [hverdict, if_neg hsecret] at hv
      obtain rfl := Option.some.inj hv
      cases hfinal with
      | protocol h => omega
    · rcases hsound.stops hq hp hstop with rfl | ⟨status, hfinal, hv⟩
      · exact absurd rfl howner
      · rw [hverdict] at hv
        split_ifs at hv with hsecret hversion
        · obtain rfl := Option.some.inj hv
          rw [if_pos hsecret]
          generalize q.client.state = state at hfinal ⊢
          cases hfinal with
          | protocol _ => rfl
          | credential h => omega
        · obtain rfl := Option.some.inj hv
          rw [if_neg hsecret]
          generalize q.client.state = state at hfinal ⊢
          cases hfinal with
          | protocol h => omega
          | credential _ => rfl

def plainSecret : Text := List.replicate 43 's'

def otherSecret : Text := List.replicate 43 't'

/-- A tunnel that dials and connects; one with the secret of another relay and one of another
version, which the relay's answer stops. -/
theorem pairing_diagnosed_connected :
    (∃ p, Machine.Reaches (step plainSecret ['1'] plainSecret fun _ _ => true) (Ok plainSecret)
        new p ∧
      p.client.state = .connected ∧ p.relay.tunnels = [true] ∧
      ∃! i, p.answers i = some (.accepted 0)) ∧
    (∃ p q, Machine.Reaches (step otherSecret ['1'] plainSecret fun _ _ => true) (Ok plainSecret)
        new p ∧ p.relay.tunnels = [] ∧ p.answers 0 = some (.refused 401) ∧
      step otherSecret ['1'] plainSecret (fun _ _ => true) p (.answered 0 5) = some q ∧
      q.client.stopped = true ∧ q.client.state = .stopped) ∧
    ∃ p q, Machine.Reaches (step plainSecret ['2'] plainSecret fun _ _ => true) (Ok plainSecret)
        new p ∧ p.relay.tunnels = [] ∧ p.answers 0 = some (.refused 426) ∧
      step plainSecret ['2'] plainSecret (fun _ _ => true) p (.answered 0 5) = some q ∧
      q.client.stopped = true ∧ q.client.state = .incompatible := by
  refine ⟨?_, ?_, ?_⟩
  · have h₀ : Machine.Reaches (step plainSecret ['1'] plainSecret fun _ _ => true)
        (Ok plainSecret) new new := .refl
    have h₁ := h₀.next (.tunnel .start) trivial rfl
    have h₂ := h₁.next (.dialed 0) trivial rfl
    have h₃ := h₂.next (.answered 0 5) trivial rfl
    have hmain := pairing_diagnosed (by decide) h₃
    exact ⟨_, h₃, rfl, rfl, hmain.dialed 0 (by decide)⟩
  · have h₀ : Machine.Reaches (step otherSecret ['1'] plainSecret fun _ _ => true)
        (Ok plainSecret) new new := .refl
    have h₁ := h₀.next (.tunnel .start) trivial rfl
    have h₂ := h₁.next (.dialed 0) trivial rfl
    obtain ⟨htunnels, -, hstop, -, hstate⟩ :=
      (pairing_diagnosed (by decide) h₂).unpaired (.inl (by decide))
    have hstopped := hstop 0 5 401 _ ⟨_, rfl, rfl, rfl⟩ rfl rfl rfl
    exact ⟨_, _, h₂, htunnels, rfl, rfl, hstopped, hstate (.answered 0 5) _ rfl rfl hstopped nofun⟩
  · have h₀ : Machine.Reaches (step plainSecret ['2'] plainSecret fun _ _ => true)
        (Ok plainSecret) new new := .refl
    have h₁ := h₀.next (.tunnel .start) trivial rfl
    have h₂ := h₁.next (.dialed 0) trivial rfl
    obtain ⟨htunnels, -, hstop, -, hstate⟩ :=
      (pairing_diagnosed (by decide) h₂).unpaired (.inr (by decide))
    have hstopped := hstop 0 5 426 _ ⟨_, rfl, rfl, rfl⟩ rfl rfl rfl
    exact ⟨_, _, h₂, htunnels, rfl, rfl, hstopped, hstate (.answered 0 5) _ rfl rfl hstopped nofun⟩

end Pairing

end BbShared
