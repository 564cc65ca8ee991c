import BbShared.GuestMessages
import BbShared.RequestBodies

/-!
# Requests and responses, end to end

The relay of `tunnel-do.ts` and the sessions of `session.ts`, with a record of what visitors ask for
and what the origin answers.  `Exact` is the invariant of their runs: a call is made once, of a
request that has come whole, and what a visitor has of its response are the first parts of what the
origin answered to that call, or an error.
-/

namespace BbShared

open Js

/-! ## The record -/

/-- Requests are numbered by their openings.  `made` are the calls that sessions make at the origin,
and `answer` what there is of the origin's answers. -/
structure Exchange where
  asked : ℕ → Option VisitorRequest
  rest : TunnelDO.Rest
  made : List Running
  answer : ℕ → Option OriginAnswer

namespace Exchange

def new : Exchange := ⟨fun _ => none, fun _ => none, [], fun _ => none⟩

/-- The calls that were made, by their numbers. -/
def ids (x : Exchange) : List ℕ := x.made.map fun m => m.uid

theorem ids_congr {x y : Exchange} (h : y.made = x.made) : y.ids = x.ids := by
  unfold ids
  rw [h]

/-- A visitor's request waits for its answer. -/
def ask (x : Exchange) (d : TunnelDO) (r : VisitorRequest) : Exchange :=
  { x with
    asked := Function.update x.asked d.sent (some r)
    rest := Function.update x.rest d.nextStreamId r.body }

/-- The calls that a session makes in a step. -/
def calls (s t : TunnelSystem) (tunnel : ℕ) : List Running :=
  match s.clients[tunnel]?, t.clients[tunnel]? with
  | some c, some c' => TunnelSession.started c.session c'.session
  | _, _ => []

def note (s : TunnelSystem) (e : SystemEvent) (t : TunnelSystem) (x : Exchange) : Exchange :=
  match e with
  | .relay (.fetch r _) =>
    if t.relay.requests = s.relay.requests then x else x.ask s.relay.relay r
  | .relay e => { x with rest := x.rest.after e }
  | .deliver tunnel _ => { x with made := x.made ++ calls s t tunnel }
  | .origin _ _ e => { x with answer := e.answered x.answer }
  | .arrive _ => x
  | .drop _ => x

/-- A request body is read in order. -/
def Ok (x : Exchange) : SystemEvent → Prop
  | .relay e => x.rest.Ok e
  | _ => True

/-- The call is what the visitor asked for, with the whole of its body. -/
def Asks (x : Exchange) (m : Running) : Prop :=
  ∃ r, x.asked m.uid = some r ∧ m.info.method = r.method ∧ m.info.path = r.path ∧
    m.body = r.body.map (fun b => b.1.flatten) ∧ ∀ b, r.body = some b → b.2 = true

/-- Each request is made once and as it was asked, and each response is its answer or an error. -/
structure Faithful (x : Exchange) (effects : List VisitorEffect) : Prop where
  once : x.ids.Nodup
  asks : ∀ m ∈ x.made, x.Asks m
  answers : ∀ n a, x.answer n = some a → n ∈ x.ids
  replies : ∀ n, (reply effects n).Carries (x.answer n)

end Exchange

namespace TunnelSystem

variable {s t : TunnelSystem} {x y : Exchange} {i : ℕ} {c : Client}

/-! ## The invariant -/

/-- The message of this number opens the stream, and the session has taken it. -/
def Opened (s : TunnelSystem) (start stop n id : ℕ) : Prop :=
  start ≤ n ∧ n < stop ∧ ∃ f, s.frames[n]? = some f ∧ f.Opens ∧ f.streamId = id

/-- The message of this number carries the request. -/
def Carried (s : TunnelSystem) (n : ℕ) (info : OpenHttp) : Prop :=
  ∃ id, s.frames[n]? = some (.openHttp id info)

/-- A client repeats the answers to the calls it made, and the relay has passed on what has come of
them to the requests that it holds. -/
structure Repeats (s : TunnelSystem) (x : Exchange) (i : ℕ) (c : Client) : Prop where
  named : c.session.Named (s.Opened c.start c.session.received) s.Carried c.session.received
  arrived : c.arrived ≤ c.session.outbox.length
  repeats : c.session.Repeats c.down x.answer
  gathers : c.session.Gathers (bodyOf (s.frames.take c.session.received)) x.ids
  unmade : ∀ n ∈ x.ids, c.session.received ≤ n → s.limit i ≤ n
  passed : ∀ id e n, s.relay.relay.pendingHttp.get id = some e → e.opening = some n → c.start ≤ n →
    n < s.limit i → reply s.relay.relay.effects n =
      replyOf (partsFor (c.session.outbox.take c.arrived) n)

structure Exact (s : TunnelSystem) (x : Exchange) : Prop where
  sound : s.Sound
  reads : s.relay.relay.Reads x.asked x.rest
  tended : s.relay.relay.Tended
  opened : ∀ id e n, s.relay.relay.pendingHttp.get id = some e → e.opening = some n →
    ∃ info, s.frames[n]? = some (.openHttp id info)
  unopened : ∀ n, s.relay.relay.sent ≤ n → reply s.relay.relay.effects n = .waiting
  once : x.ids.Nodup
  asks : ∀ m ∈ x.made, m.uid < s.relay.relay.sent ∧ x.Asks m
  answers : ∀ n a, x.answer n = some a → n ∈ x.ids
  replies : ∀ n, (reply s.relay.relay.effects n).Carries (x.answer n)
  client : ∀ i c, s.clients[i]? = some c → s.Repeats x i c

theorem exact_new : new.Exact .new where
  sound := sound_new
  reads := TunnelDO.reads_new _ _
  tended := ⟨nofun, nofun⟩
  opened _ _ _ h := by cases h
  unopened _ _ := rfl
  once := .nil
  asks _ h := by cases h
  answers _ _ h := by cases h
  replies _ := trivial
  client _ _ h := by cases h

theorem Exact.faithful (h : s.Exact x) : x.Faithful s.relay.relay.effects :=
  ⟨h.once, fun m hm => (h.asks m hm).2, h.answers, h.replies⟩

/-! ## Steps of the relay -/

/-- What a session opened is an opening of the longer list of frames. -/
theorem Opened.append {l : List Frame} (hf : t.frames = s.frames ++ l) {start stop n id : ℕ}
    (h : s.Opened start stop n id) : t.Opened start stop n id := by
  obtain ⟨hstart, hstop, f, hn, ho⟩ := h
  exact ⟨hstart, hstop, f, hf ▸ getElem?_append_of_eq_some hn l, ho⟩

theorem Carried.append {l : List Frame} (hf : t.frames = s.frames ++ l) {n : ℕ} {info : OpenHttp}
    (h : s.Carried n info) : t.Carried n info := by
  obtain ⟨id, hn⟩ := h
  exact ⟨id, hf ▸ getElem?_append_of_eq_some hn l⟩

/-- Nothing was sent for a message that the session has not taken. -/
theorem Repeats.partsFor_eq_nil (h : s.Repeats x i c) {n : ℕ}
    (hn : n < c.start ∨ c.session.received ≤ n) : partsFor c.session.outbox n = [] := by
  refine partsFor_of_ne fun m hm he => ?_
  obtain ⟨hstart, hstop, -⟩ := h.named.outbox m hm
  omega

theorem partsFor_take_eq_nil {sent : List Sent} {n : ℕ} (h : partsFor sent n = []) (k : ℕ) :
    partsFor (sent.take k) n = [] := by
  rw [← List.take_append_drop k sent, partsFor_append] at h
  exact (List.append_eq_nil_iff.mp h).1

theorem Exact.lt_sent (h : s.Exact x) {id n : ℕ} {e : PendingHttp}
    (hg : s.relay.relay.pendingHttp.get id = some e) (ho : e.opening = some n) :
    n < s.relay.relay.sent := by
  obtain ⟨info, hn⟩ := h.opened id e n hg ho
  exact h.sound.wired.sent ▸ (List.getElem?_eq_some_iff.mp hn).1

/-- A step of the relay: what is held was held, with its response as it is, or was just opened. -/
structure Moves (s t : TunnelSystem) : Prop where
  frames : ∃ l, t.frames = s.frames ++ l
  sent : s.relay.relay.sent ≤ t.relay.relay.sent
  entries : ∀ id e n, t.relay.relay.pendingHttp.get id = some e → e.opening = some n →
    s.relay.relay.pendingHttp.get id = some e ∧
        reply t.relay.relay.effects n = reply s.relay.relay.effects n ∨
      n = s.relay.relay.sent ∧ reply t.relay.relay.effects n = .waiting
  limit : ∀ i n, n < s.relay.relay.sent → n < t.limit i → n < s.limit i

theorem Repeats.moves (h : s.Repeats x i c) (hx : s.Exact x) (hc : s.clients[i]? = some c)
    (hm : s.Moves t) (hids : y.ids = x.ids) (hanswer : y.answer = x.answer) : t.Repeats y i c := by
  obtain ⟨l, hf⟩ := hm.frames
  have hlen := hx.sound.wired.sent
  have hr : c.session.received ≤ s.frames.length := hx.sound.received_le hc
  refine ⟨h.named.mono (fun _ _ => Opened.append hf) fun _ _ => Carried.append hf, h.arrived,
    hanswer ▸ h.repeats, ?_, fun n hn hle => ?_, fun id e n hg ho hstart hlim => ?_⟩
  · rw [hf, List.take_append_of_le_length hr, hids]
    exact h.gathers
  · rw [hids] at hn
    by_contra hlt
    obtain ⟨m, hmem, rfl⟩ := List.mem_map.mp hn
    have hlt' := hm.limit i m.uid (hx.asks m hmem).1 (Nat.lt_of_not_le hlt)
    exact absurd (h.unmade m.uid hn hle) (Nat.not_le.mpr hlt')
  · rcases hm.entries id e n hg ho with ⟨hg, hreply⟩ | ⟨rfl, hreply⟩
    · rw [hreply]
      exact h.passed id e n hg ho hstart (hm.limit i n (hx.lt_sent hg ho) hlim)
    · have hnone := h.partsFor_eq_nil (n := s.relay.relay.sent) (.inr (hr.trans_eq hlen))
      rw [hreply, partsFor_take_eq_nil hnone]
      rfl

/-- **Relay rule.** -/
theorem Exact.moves (h : s.Exact x) (hm : s.Moves t) (hsound : t.Sound)
    (hreads : t.relay.relay.Reads y.asked y.rest) (htended : t.relay.relay.Tended)
    (hspoils : ∀ n, (reply s.relay.relay.effects n).Spoils (reply t.relay.relay.effects n))
    (hunopened : ∀ n, t.relay.relay.sent ≤ n → reply t.relay.relay.effects n = .waiting)
    (hopened : ∀ id e, t.relay.relay.pendingHttp.get id = some e →
      e.opening = some s.relay.relay.sent →
        ∃ info, t.frames[s.relay.relay.sent]? = some (.openHttp id info))
    (hmade : y.made = x.made) (hanswer : y.answer = x.answer)
    (hasked : ∀ n < s.relay.relay.sent, y.asked n = x.asked n)
    (hclients : ∀ i c, t.clients[i]? = some c → s.clients[i]? = some c ∨ t.Repeats y i c) :
    t.Exact y where
  sound := hsound
  reads := hreads
  tended := htended
  opened id e n hg ho := by
    rcases hm.entries id e n hg ho with ⟨hg', -⟩ | ⟨rfl, -⟩
    · obtain ⟨info, hn⟩ := h.opened id e n hg' ho
      obtain ⟨l, hf⟩ := hm.frames
      exact ⟨info, hf ▸ getElem?_append_of_eq_some hn l⟩
    · exact hopened id e hg ho
  unopened := hunopened
  once := (Exchange.ids_congr hmade).symm ▸ h.once
  asks m hmem := by
    rw [hmade] at hmem
    obtain ⟨hlt, r, hr, hcall⟩ := h.asks m hmem
    exact ⟨hlt.trans_le hm.sent, r, (hasked _ hlt).trans hr, hcall⟩
  answers n a ha := by
    rw [hanswer] at ha
    rw [Exchange.ids_congr hmade]
    exact h.answers n a ha
  replies n := by
    rw [hanswer]
    exact (h.replies n).spoils (hspoils n)
  client i c hc := by
    rcases hclients i c hc with hc | hr
    · exact (h.client i c hc).moves h hc hm (Exchange.ids_congr hmade) hanswer
    · exact hr

/-- Requests are held or given up. -/
theorem Exact.released (h : s.Exact x) (hr : TunnelDO.Releases s.relay.relay t.relay.relay)
    (hf : ∃ l, t.frames = s.frames ++ l) (hs : s.relay.relay.sent ≤ t.relay.relay.sent)
    (hlim : ∀ i n, n < s.relay.relay.sent → n < t.limit i → n < s.limit i) (hsound : t.Sound)
    (hreads : t.relay.relay.Reads y.asked y.rest) (hmade : y.made = x.made)
    (hanswer : y.answer = x.answer) (hasked : y.asked = x.asked)
    (hclients : ∀ i c, t.clients[i]? = some c → s.clients[i]? = some c ∨ t.Repeats y i c) :
    t.Exact y := by
  refine h.moves ⟨hf, hs,
    fun id e n hg ho => .inl ⟨hr.entries id e hg, hr.kept h.tended id e n hg ho⟩,
    hlim⟩ hsound hreads (hr.tended h.tended) (hr.spoils h.tended) (fun n hn => ?_)
    (fun id e hg ho => absurd (h.lt_sent (hr.entries id e hg) ho) (Nat.lt_irrefl _)) hmade hanswer
    (fun _ _ => by rw [hasked]) hclients
  have hle := hs.trans hn
  rw [hr.others n fun id e hg ho => absurd (h.lt_sent hg ho) (Nat.not_lt.mpr hle)]
  exact h.unopened n hle

/-- A dial that is accepted. -/
theorem Exact.accept (h : s.Exact x) : s.accept.Exact x := by
  have hr : TunnelDO.Releases s.relay.relay s.accept.relay.relay :=
    TunnelDO.releases_abandonStreams _ _ _
  have hf : s.accept.frames = s.frames := frames_accept s
  have hs : s.accept.relay.relay.sent = s.relay.relay.sent := sent_accept s
  refine h.released hr ⟨[], by rw [hf, List.append_nil]⟩ hs.ge
    (fun i n _ hlt => limit_accept s i ▸ hlt) h.sound.accept ?_ rfl rfl rfl fun i c hc => ?_
  · exact h.reads.aside (l := []) (hf.trans (List.append_nil _).symm) (by simp)
      (TunnelDO.pumps_abandonStreams _ _ _)
  · rcases getElem?_append_eq_some hc with hc | ⟨hlen, hc⟩
    · exact .inl hc
    · obtain rfl := List.mem_singleton.mp hc
      have hlimit : s.accept.limit i = s.relay.relay.sent := by
        rw [limit_accept, limit_eq, List.getElem?_eq_none (by omega)]
        rfl
      refine .inr ⟨⟨rfl, nofun, nofun, nofun, nofun, nofun⟩, Nat.le_refl _,
        ⟨.nil, nofun, fun _ => List.nil_prefix, nofun⟩, ⟨nofun, nofun, nofun⟩,
        fun n hn hle => hlimit.trans_le hle, fun id e n hg ho hstart hlim => ?_⟩
      have hle : s.relay.relay.sent ≤ n := hstart
      exact absurd (hlimit ▸ hlim) (Nat.not_lt.mpr hle)

/-- Between accepted dials, the tunnels that are replaced stay as they are. -/
theorem lt_limit_of_relay {relay : TunnelRelay} {broken : Bool} {n : ℕ}
    (hn : n < s.relay.relay.sent) (h : n < ({ s with relay, broken } : TunnelSystem).limit i) :
    n < s.limit i := by
  rw [limit_eq] at h ⊢
  dsimp only at h
  cases hc : s.clients[i + 1]? with
  | none => exact hn
  | some c =>
    rw [hc] at h
    exact h

/-- A step that takes no request and no frame. -/
theorem Exact.relay {secret : Text} {relayable : TunnelDO.Relayable} (h : s.Exact x)
    {e : RelayEvent} {relay : TunnelRelay} (hfetch : ∀ r sends, e ≠ .fetch r sends)
    (hf : ∀ tunnel source f, e ≠ .tunnelFrame tunnel source f)
    (hstep : TunnelRelay.step secret relayable s.relay e = some relay)
    (hsends : s.relay.Sends e relay)
    (hok : s.RelayOk e) (hrest : x.rest.Ok e)
    (hsound : ({ s with relay, broken := s.broken || s.fails e } : TunnelSystem).Sound) :
    ({ s with relay, broken := s.broken || s.fails e } : TunnelSystem).Exact
      { x with rest := x.rest.after e } := by
  have hid : ∀ id v sends, e = .pumpChunk id v sends → id ≤ 0xffffffff := by
    rintro id v sends rfl
    obtain ⟨n, r, cs, rs, b, ha, -⟩ := h.reads.reading id hok.2
    obtain ⟨m, -, hm⟩ := List.mem_map.mp (List.mem_of_getElem? ha.1)
    have hle := streamId_le_of_encoded m.encoded
    rwa [hm] at hle
  obtain ⟨hfeeds, hreleases⟩ := TunnelRelay.feeds_of_step hfetch hf hid hstep
  obtain ⟨l, hl, hsent⟩ := hsends.grows
  refine h.released hreleases ⟨l, hl⟩ (hsent ▸ Nat.le_add_right _ _)
    (fun i n => lt_limit_of_relay) hsound (h.reads.feeds hfeeds ?_ hrest) rfl rfl rfl
    fun i c hc => .inl hc
  cases e with
  | pumpChunk => exact hok.2
  | pumpEnd => exact hok.2
  | pumpError => exact hok.2
  | _ => trivial

/-- A visitor is turned away, or gets a socket. -/
theorem Exact.turnedAway (h : s.Exact x) {relay : TunnelRelay} {broken : Bool} {l : List Frame}
    (he : relay.relay.effects = s.relay.relay.effects)
    (hf : relay.relay.frames = s.relay.relay.frames ++ l) (hl : ∀ f ∈ l, f.Aside)
    (hs : s.relay.relay.sent ≤ relay.relay.sent) (hp : relay.relay.pumps = s.relay.relay.pumps)
    (hg : ∀ i e, relay.relay.pendingHttp.get i = some e →
      s.relay.relay.pendingHttp.get i = some e ∨ e.opening = none)
    (hsound : ({ s with relay, broken } : TunnelSystem).Sound) :
    ({ s with relay, broken } : TunnelSystem).Exact x := by
  have hget : ∀ id e n, relay.relay.pendingHttp.get id = some e → e.opening = some n →
      s.relay.relay.pendingHttp.get id = some e := fun id e n hi ho =>
    (hg id e hi).resolve_right fun hnone => absurd (hnone.symm.trans ho) nofun
  have hreply : ∀ n, reply relay.relay.effects n = reply s.relay.relay.effects n := fun n => by
    rw [he]
  refine h.moves ⟨⟨l, hf⟩, hs, fun id e n hi ho => .inl ⟨hget id e n hi ho, hreply n⟩,
    fun i n => lt_limit_of_relay⟩ hsound (h.reads.aside hf hl hp) ⟨?_, ?_⟩ (fun n => .inl (hreply n))
    (fun n hn => (hreply n).trans (h.unopened n (hs.trans hn))) (fun id e hi ho => ?_) rfl rfl
    (fun _ _ => rfl) fun i c hc => .inl hc
  · exact fun i j e e' n hi hj ho ho' =>
      h.tended.distinct i j e e' n (hget i e n hi ho) (hget j e' n hj ho') ho ho'
  · intro i e n hi ho
    rw [hreply]
    exact h.tended.writer i e n (hget i e n hi ho) ho
  · exact absurd (h.lt_sent (hget id e _ hi ho) ho) (Nat.lt_irrefl _)

/-- **Opening rule.** A request is sent, and waits for its answer. -/
theorem Exact.ask (h : s.Exact x) {r : VisitorRequest} {relay : TunnelRelay} {broken : Bool}
    (he : relay.relay.effects = s.relay.relay.effects)
    (hf : relay.relay.frames = s.relay.relay.frames ++
      [.openHttp s.relay.relay.nextStreamId r.withOrigin.openHttp])
    (hs : relay.relay.sent = s.relay.relay.sent + 1)
    (hp : relay.relay.pumps = s.relay.relay.pumps ++
      if r.body.isSome then [s.relay.relay.nextStreamId] else [])
    (hg : ∀ i e, relay.relay.pendingHttp.get i = some e →
      s.relay.relay.pendingHttp.get i = some e ∨ i = s.relay.relay.nextStreamId ∧
        e = { opening := some s.relay.relay.sent, writer := false, timeout := true })
    (hsound : ({ s with relay, broken } : TunnelSystem).Sound) :
    ({ s with relay, broken } : TunnelSystem).Exact (x.ask s.relay.relay r) := by
  have hreply : ∀ n, reply relay.relay.effects n = reply s.relay.relay.effects n := fun n => by
    rw [he]
  have hwaiting : reply s.relay.relay.effects s.relay.relay.sent = .waiting :=
    h.unopened _ (Nat.le_refl _)
  -- What is held under the opening that is sent now is the new request.
  have hnew : ∀ i e, relay.relay.pendingHttp.get i = some e →
      e.opening = some s.relay.relay.sent → i = s.relay.relay.nextStreamId ∧ e.writer = false := by
    intro i e hi ho
    rcases hg i e hi with hi | ⟨rfl, rfl⟩
    · exact absurd (h.lt_sent hi ho) (Nat.lt_irrefl _)
    · exact ⟨rfl, rfl⟩
  have hold : ∀ i e n, relay.relay.pendingHttp.get i = some e → e.opening = some n →
      n ≠ s.relay.relay.sent → s.relay.relay.pendingHttp.get i = some e := by
    intro i e n hi ho hne
    rcases hg i e hi with hi | ⟨-, rfl⟩
    · exact hi
    · exact absurd (Option.some.inj ho).symm hne
  refine h.moves ⟨⟨_, hf⟩, hs ▸ Nat.le_succ _, fun id e n hi ho => ?_, fun i n => lt_limit_of_relay⟩
    hsound (h.reads.request h.sound.wired hf hp) ⟨?_, ?_⟩ (fun n => .inl (hreply n))
    (fun n hn => (hreply n).trans (h.unopened n ?_)) (fun id e hi ho => ?_) rfl rfl (fun n hn => ?_)
    fun i c hc => .inl hc
  · rcases eq_or_ne n s.relay.relay.sent with rfl | hne
    · exact .inr ⟨rfl, (hreply _).trans hwaiting⟩
    · exact .inl ⟨hold id e n hi ho hne, hreply n⟩
  · intro i j e e' n hi hj ho ho'
    rcases eq_or_ne n s.relay.relay.sent with rfl | hne
    · exact (hnew i e hi ho).1.trans (hnew j e' hj ho').1.symm
    · exact h.tended.distinct i j e e' n (hold i e n hi ho hne) (hold j e' n hj ho' hne) ho ho'
  · intro i e n hi ho
    rw [hreply]
    rcases eq_or_ne n s.relay.relay.sent with rfl | hne
    · rw [(hnew i e hi ho).2, hwaiting]
      exact iff_of_false nofun id
    · exact h.tended.writer i e n (hold i e n hi ho hne) ho
  · have hle : relay.relay.sent ≤ n := hn
    rw [hs] at hle
    exact Nat.le_of_succ_le hle
  · refine ⟨r.withOrigin.openHttp, ?_⟩
    have hlen : s.relay.relay.frames.length = s.relay.relay.sent := h.sound.wired.sent
    show relay.relay.frames[s.relay.relay.sent]? = _
    rw [hf, ← hlen, List.getElem?_concat_length, (hnew id e hi ho).1]
  · exact Function.update_of_ne hn.ne _ _

/-- A visitor comes. -/
theorem Exact.fetch (h : s.Exact x) {r : VisitorRequest} {sends : Bool} {broken : Bool}
    (hsends : s.relay.Sends (.fetch r sends) (s.relay.fetch r sends))
    (hsound : ({ s with relay := s.relay.fetch r sends, broken } : TunnelSystem).Sound) :
    ({ s with relay := s.relay.fetch r sends, broken } : TunnelSystem).Exact
      (if (s.relay.fetch r sends).requests = s.relay.requests then x
        else x.ask s.relay.relay r) := by
  obtain ⟨l, hl, hsent⟩ := hsends.grows
  have hadmits := TunnelDO.admits_proxyGuestRequest s.relay.relay (s.relay.link sends) r.withOrigin
  have hrequests : (s.relay.fetch r sends).requests = if (s.relay.relay.proxyGuestRequest
      (s.relay.link sends) r.withOrigin).2 = .waiting then s.relay.requests ++ [s.relay.relay.sent]
      else s.relay.requests := rfl
  rw [show (s.relay.relay.proxyGuestRequest (s.relay.link sends) r.withOrigin).1 =
    (s.relay.fetch r sends).relay from rfl] at hadmits
  generalize (s.relay.relay.proxyGuestRequest (s.relay.link sends) r.withOrigin).2 = a at *
  generalize s.relay.fetch r sends = relay at *
  cases hadmits with
  | aside ha he hf hasides hp hg =>
    rw [if_neg ha] at hrequests
    rw [if_pos hrequests]
    exact h.turnedAway he hf hasides (hsent ▸ Nat.le_add_right _ _) hp hg hsound
  | request he hf hp hg =>
    rw [if_pos rfl] at hrequests
    rw [if_neg (by rw [hrequests]; simp)]
    refine h.ask he hf ?_ hp hg hsound
    have hone : l.length = 1 := congrArg List.length (List.append_cancel_left (hl.symm.trans hf))
    rw [hsent, hone]

theorem note_relay {e : RelayEvent} (hfetch : ∀ r sends, e ≠ .fetch r sends) (s t : TunnelSystem)
    (x : Exchange) : x.note s (.relay e) t = { x with rest := x.rest.after e } := by
  cases e with
  | fetch r sends => exact absurd rfl (hfetch r sends)
  | _ => rfl

theorem fetch_of_step {secret : Text} {relayable : TunnelDO.Relayable} {r : VisitorRequest}
    {sends : Bool} {relay : TunnelRelay}
    (h : TunnelRelay.step secret relayable s.relay (.fetch r sends) = some relay) :
    relay = s.relay ∨ relay = s.relay.fetch r sends := by
  obtain rfl := Option.some.inj h
  exact ite_eq_or_eq _ _ _

/-- **Relay step.** -/
theorem Exact.relayStep {secret : Text} {relayable : TunnelDO.Relayable} {co : Coercion}
    (h : s.Exact x) {e : RelayEvent} (hok : s.Ok (.relay e)) (hrest : x.rest.Ok e)
    (ht : step secret relayable co s (.relay e) = some t) :
    t.Exact (x.note s (.relay e) t) := by
  have hsound := h.sound.step hok ht
  obtain ⟨hne, relay, hstep, rfl⟩ := step_relay_eq_some ht
  rcases TunnelRelay.Sends.of_step hstep hne with ⟨⟨r, rfl⟩, rfl⟩ | hsends
  · rw [setRelay_acceptTunnel]
    exact h.accept
  · rw [setRelay_of_sends hsends] at hsound ⊢
    by_cases hfetch : ∀ r sends, e ≠ .fetch r sends
    · rw [note_relay hfetch]
      exact h.relay hfetch hne hstep hsends hok hrest hsound
    · push Not at hfetch
      obtain ⟨r, sends, rfl⟩ := hfetch
      unfold Exchange.note
      rcases fetch_of_step hstep with rfl | rfl
      · dsimp only
        rw [if_pos rfl]
        exact h.turnedAway (l := []) rfl (List.append_nil _).symm (by simp) (Nat.le_refl _) rfl
          (fun _ _ => .inl) hsound
      · exact h.fetch hsends hsound

/-! ## Steps of the sessions -/

/-- The clients have their own messages. -/
theorem Sound.limit_le_start (h : s.Sound) {i j : ℕ} {d : Client} (hij : i < j)
    (hd : s.clients[j]? = some d) : s.limit i ≤ d.start := by
  obtain ⟨hj, rfl⟩ := List.getElem?_eq_some_iff.mp hd
  have hi : i + 1 < s.clients.length := lt_of_le_of_lt hij hj
  have hlimit : s.limit i = (s.clients[i + 1]).start := by
    rw [limit_eq, List.getElem?_eq_getElem hi]
    rfl
  rw [hlimit]
  rcases Nat.lt_or_eq_of_le (Nat.succ_le_of_lt hij) with hlt | rfl
  · exact List.pairwise_iff_getElem.mp h.starts (i + 1) j hi hj hlt
  · exact Nat.le_refl _

/-- The messages of a client. -/
def Owns (s : TunnelSystem) (i : ℕ) (c : Client) (n : ℕ) : Prop := c.start ≤ n ∧ n < s.limit i

theorem Sound.disjoint (h : s.Sound) {i j n : ℕ} {c d : Client} (hc : s.clients[i]? = some c)
    (hd : s.clients[j]? = some d) (hn : s.Owns i c n) (hn' : s.Owns j d n) : i = j := by
  rcases lt_trichotomy i j with hlt | heq | hgt
  · have := h.limit_le_start hlt hd
    exact absurd (hn.2.trans_le (this.trans hn'.1)) (Nat.lt_irrefl _)
  · exact heq
  · have := h.limit_le_start hgt hc
    exact absurd (hn'.2.trans_le (this.trans hn.1)) (Nat.lt_irrefl _)

theorem Opened.owns (hx : s.Sound) (hc : s.clients[i]? = some c) {n id : ℕ}
    (h : s.Opened c.start c.session.received n id) : s.Owns i c n :=
  ⟨h.1, h.2.1.trans_le (hx.client i c hc).bounded⟩

/-- A call's number is one of the client's messages. -/
theorem Repeats.owns_call (h : s.Repeats x i c) (hx : s.Sound) (hc : s.clients[i]? = some c)
    {k : ℕ × Bool} (hk : k ∈ c.session.calls) : s.Owns i c k.1 := by
  obtain ⟨r, hr, rfl⟩ := List.mem_map.mp hk
  exact (h.named.running r hr).1.owns hx hc

/-- **Frame rule.** A step of one client leaves what is said of another one. -/
theorem Repeats.other (h : s.Repeats x i c) (hx : s.Sound) (hc : s.clients[i]? = some c) {j : ℕ}
    {d d' : Client} (hd : s.clients[j]? = some d) (hne : i ≠ j) (hs : d'.start = d.start)
    (hids : ∀ n ∈ y.ids, n ∈ x.ids ∨ s.Owns j d n) (hsub : ∀ n ∈ x.ids, n ∈ y.ids)
    (hgrows : ∀ n, OriginAnswer.Grows (x.answer n) (y.answer n))
    (hsame : ∀ n, ¬ s.Owns j d n → y.answer n = x.answer n) : (s.setClient j d').Repeats y i c := by
  have hnot : ∀ n, s.Owns i c n → ¬ s.Owns j d n := fun n hn hn' =>
    hne (hx.disjoint hc hd hn hn')
  have hlimit : (s.setClient j d').limit i = s.limit i := limit_setClient hd hs i
  refine ⟨h.named, h.arrived, h.repeats.grows hgrows fun k hk =>
    hsame _ (hnot _ (h.owns_call hx hc hk)), ⟨h.gathers.chunks, fun id g hg he hmem => ?_,
      fun k hk => hsub _ (h.gathers.calls k hk)⟩, fun n hn hle => ?_, fun id e n hg ho hstart hlim =>
        h.passed id e n hg ho hstart (hlimit ▸ hlim)⟩
  · rcases hids _ hmem with hmem | howns
    · exact h.gathers.fresh id g hg he hmem
    · exact hnot _ ((h.named.get_http hg).1.owns hx hc) howns
  · rw [hlimit]
    rcases hids n hn with hn | howns
    · exact h.unmade n hn hle
    · by_contra hlt
      exact hnot n ⟨(hx.client i c hc).started.trans hle, Nat.lt_of_not_le hlt⟩ howns

/-- A step of a client. -/
theorem Exact.setClient (h : s.Exact x) (hc : s.clients[i]? = some c) {c' : Client}
    (hs : c'.start = c.start) (hsound : (s.setClient i c').Sound) (hasked : y.asked = x.asked)
    (hrest : y.rest = x.rest) (honce : y.ids.Nodup)
    (hids : ∀ n ∈ y.ids, n ∈ x.ids ∨ s.Owns i c n) (hsub : ∀ n ∈ x.ids, n ∈ y.ids)
    (hasks : ∀ m ∈ y.made, m ∈ x.made ∨ m.uid < s.relay.relay.sent ∧ x.Asks m)
    (hanswers : ∀ n a, y.answer n = some a → n ∈ y.ids)
    (hgrows : ∀ n, OriginAnswer.Grows (x.answer n) (y.answer n))
    (hsame : ∀ n, ¬ s.Owns i c n → y.answer n = x.answer n)
    (hown : (s.setClient i c').Repeats y i c') : (s.setClient i c').Exact y where
  sound := hsound
  reads := hasked ▸ hrest ▸ h.reads
  tended := h.tended
  opened := h.opened
  unopened := h.unopened
  once := honce
  asks m hm := by
    have hold : m.uid < s.relay.relay.sent ∧ x.Asks m := (hasks m hm).elim (h.asks m) id
    refine ⟨hold.1, ?_⟩
    unfold Exchange.Asks
    rw [hasked]
    exact hold.2
  answers := hanswers
  replies n := (h.replies n).grows (hgrows n)
  client j d hd := by
    have hd' : (s.clients.set i c')[j]? = some d := hd
    rw [List.getElem?_set] at hd'
    split_ifs at hd' with hij
    · obtain rfl := Option.some.inj hd'
      exact hij ▸ hown
    · exact (h.client j d hd').other h.sound hd' hc (Ne.symm hij) hs hids hsub hgrows hsame

theorem take_prefix_eq {α : Type*} {l l' : List α} (h : l <+: l') {k : ℕ} (hk : k ≤ l.length) :
    l'.take k = l.take k := by
  obtain ⟨r, rfl⟩ := h
  exact List.take_append_of_le_length hk

/-- **Origin rule.** What the origin answers goes to the relay. -/
theorem Exact.origin {co : Coercion} {io : Io} {e : TunnelSession.LocalEvent}
    {session : TunnelSession} (h : s.Exact x) (hc : s.clients[i]? = some c) (hlink : s.LinkOk i io)
    (hs : c.session.onLocal co io e = some session)
    (hsound : (s.setClient i { c with session }).Sound) :
    (s.setClient i { c with session }).Exact { x with answer := e.answered x.answer } := by
  have hr := h.client i c hc
  have hnamed := hr.named.onLocal hs
  have hreceived : session.received = c.session.received := hnamed.received
  obtain ⟨hrepeats, hfollows⟩ := hr.repeats.onLocal (hlink c hc)
    (fun id w hg => (hr.named.get_ws hg).2) hs
  have hcalls : ∀ n, n ∈ c.session.calls.map Prod.fst → s.Owns i c n ∧ n ∈ x.ids := by
    intro n hn
    obtain ⟨k, hk, rfl⟩ := List.mem_map.mp hn
    exact ⟨hr.owns_call h.sound hc hk, hr.gathers.calls k hk⟩
  refine h.setClient hc rfl hsound rfl rfl h.once (fun n hn => .inl hn) (fun n hn => hn)
    (fun m hm => .inl hm) (fun n a ha => ?_) hfollows.grows
    (fun n hn => hfollows.same n fun hmem => hn (hcalls n hmem).1) ⟨?_, ?_, hrepeats, ?_, ?_, ?_⟩
  · by_cases hn : n ∈ c.session.calls.map Prod.fst
    · exact (hcalls n hn).2
    · exact h.answers n a ((hfollows.same n hn).symm.trans ha)
  · show session.Named (s.Opened c.start session.received) s.Carried session.received
    rw [hreceived]
    exact hnamed
  · exact hr.arrived.trans hfollows.outbox.length_le
  · show session.Gathers (bodyOf (s.frames.take session.received)) x.ids
    rw [hreceived]
    exact hr.gathers.follows hfollows fun _ _ _ _ => rfl
  · intro n hn hle
    rw [limit_setClient hc (show ({ c with session } : Client).start = c.start from rfl)]
    exact hr.unmade n hn (hreceived ▸ hle)
  · intro id e' n hg ho hstart hlim
    rw [limit_setClient hc (show ({ c with session } : Client).start = c.start from rfl)] at hlim
    show _ = replyOf (partsFor (session.outbox.take c.arrived) n)
    rw [take_prefix_eq hfollows.outbox hr.arrived]
    exact hr.passed id e' n hg ho hstart hlim

/-- The session's socket dies. -/
theorem Exact.drop (h : s.Exact x) (hc : s.clients[i]? = some c)
    (hsound : (s.setClient i { c with down := true }).Sound) :
    (s.setClient i { c with down := true }).Exact x := by
  have hr := h.client i c hc
  have hlimit := limit_setClient hc (show ({ c with down := true } : Client).start = c.start from rfl)
  exact h.setClient hc rfl hsound rfl rfl h.once (fun n hn => .inl hn) (fun n hn => hn)
    (fun m hm => .inl hm) h.answers (fun _ => .same _) (fun _ _ => rfl)
    ⟨hr.named, hr.arrived, hr.repeats.drop, hr.gathers, fun n hn hle => hlimit i ▸ hr.unmade n hn hle,
      fun id e n hg ho hstart hlim => hr.passed id e n hg ho hstart (hlimit i ▸ hlim)⟩

/-- What an opening carries was asked for. -/
theorem Exact.asked_of_opening (h : s.Exact x) {n id : ℕ} {info : OpenHttp}
    (hn : s.frames[n]? = some (.openHttp id info)) :
    ∃ r, x.asked n = some r ∧ info = r.withOrigin.openHttp := by
  obtain ⟨r, ha, hr⟩ := h.reads.opened n id info hn
  have he : s.frames[n]? = some (.openHttp id r.withOrigin.openHttp) := ha
  exact ⟨r, hr, (Frame.openHttp.inj (Option.some.inj (hn.symm.trans he))).2⟩

/-- A stream of a session carries the request of its opening. -/
theorem Repeats.stream (hr : s.Repeats x i c) {id : ℕ} {g : HttpStream}
    (hg : c.session.httpStreams.get id = some g) :
    s.frames[g.uid]? = some (.openHttp id g.info) ∧ g.uid < c.session.received := by
  obtain ⟨⟨-, hlt, f, hf, -, rfl⟩, id', hf'⟩ := hr.named.get_http hg
  obtain rfl := Option.some.inj (hf.symm.trans hf')
  exact ⟨hf, hlt⟩

/-- What a call is made of is what the visitor asked for. -/
theorem Exact.asks_of_makes (h : s.Exact x) (hr : s.Repeats x i c) {f : Frame} {m : Running}
    (hf : s.frames[c.session.received]? = some f)
    (hm : TunnelSession.Makes c.session.received (bodyOf (s.frames.take c.session.received))
      c.session f m) : m.uid ≤ c.session.received ∧ x.Asks m := by
  rcases hm with ⟨id, rfl, huid, hnone, hbody⟩ | ⟨id, g, rfl, hg, huid, hinfo, hbody⟩
  · obtain ⟨r, ha, hr⟩ := h.asked_of_opening hf
    have hempty : r.body = none := by
      rw [hr] at hnone
      exact Option.not_isSome_iff_eq_none.mp (ne_true_of_eq_false hnone)
    refine ⟨huid.le, r, huid ▸ ha, congrArg OpenHttp.method hr, congrArg OpenHttp.path hr, ?_, ?_⟩
    · rw [hbody, hempty]
      rfl
    · rw [hempty]
      nofun
  · obtain ⟨hn, hlt⟩ := hr.stream hg
    obtain ⟨n, -, r, cs, hasked, hwhole, hsent⟩ := h.reads.ended _ id hf
    obtain rfl := h.sound.wired.distinct n g.uid _ _ hasked.1 hn trivial trivial rfl
    have he : g.info = r.withOrigin.openHttp :=
      (Frame.openHttp.inj (Option.some.inj (hn.symm.trans hasked.1))).2
    have hinfo' := hinfo.trans he
    refine ⟨huid.trans_le hlt.le, r, huid ▸ hasked.2, congrArg OpenHttp.method hinfo',
      congrArg OpenHttp.path hinfo', ?_, ?_⟩
    · have hflag : m.info.hasBody = true := by
        rw [hinfo']
        show r.body.isSome = true
        rw [hwhole]
        rfl
      rw [hbody, if_pos hflag, hwhole]
      exact congrArg some hsent
    · rintro b hb
      rw [hwhole] at hb
      obtain rfl := Option.some.inj hb
      rfl

/-- What a session has opened once it takes its next message. -/
theorem Repeats.deliver (hr : s.Repeats x i c) (h : s.Exact x) (hc : s.clients[i]? = some c)
    {co : Coercion} {io : Io} {m : Message} (hf : s.frames[c.session.received]? = some m.frame) :
    (c.session.onMessage co io m.bytes).Named (s.Opened c.start (c.session.received + 1)) s.Carried
      (c.session.received + 1) := by
  have hmono : c.session.Named (s.Opened c.start (c.session.received + 1)) s.Carried
      c.session.received :=
    hr.named.mono (fun _ _ ⟨hstart, hstop, ho⟩ => ⟨hstart, Nat.lt_succ_of_lt hstop, ho⟩) fun _ _ => id
  refine hmono.onMessage fun f hd => ?_
  rw [decodeFrame_encodeFrame m.encoded] at hd
  obtain rfl := Option.some.inj hd
  refine ⟨fun ho i hi => ?_, fun ho info hv => ?_⟩
  · rw [Frame.id_raw (streamId_le_of_encoded m.encoded)] at hi
    obtain rfl := Option.some.inj hi
    refine ⟨(h.sound.client _ c hc).started, Nat.lt_succ_self _, m.frame, hf, ?_, rfl⟩
    rw [Frame.frameType_raw] at ho
    revert ho
    cases m.frame <;> simp [Frame.frameType, Frame.Opens]
  · rw [Frame.frameType_raw] at ho
    cases hframe : m.frame with
    | openHttp id info' =>
      rw [hframe] at hf hv
      obtain ⟨r, -, hr⟩ := h.asked_of_opening hf
      have hclean : HeadersClean info'.headers := by
        rw [hr]
        exact VisitorRequest.headersClean_forwardable _
      obtain rfl := validateOpenFrame_openHttp hclean hv
      exact ⟨id, hf⟩
    | _ => rw [hframe] at ho; cases ho

/-- **Delivery rule.** A session takes its next message. -/
theorem Exact.deliver {co : Coercion} {io : Io} {m : Posted} (h : s.Exact x)
    (hc : s.clients[i]? = some c) (hlt : c.session.received < s.limit i)
    (hm : s.relay.relay.outbox[c.session.received]? = some m)
    (hsound : (s.setClient i { c with session := c.session.onMessage co io m.bytes }).Sound) :
    (s.setClient i { c with session := c.session.onMessage co io m.bytes }).Exact
      { x with
        made := x.made ++
          (TunnelSession.started c.session (c.session.onMessage co io m.bytes)) } := by
  have hr := h.client i c hc
  have hf : s.frames[c.session.received]? = some m.frame := by
    unfold frames TunnelDO.frames
    rw [List.getElem?_map, hm]
    rfl
  have hid := streamId_le_of_encoded m.encoded
  have hopening : TunnelSession.Asks m.frame := by
    intro id info he
    rw [he] at hf
    obtain ⟨r, -, rfl⟩ := h.asked_of_opening hf
    exact ⟨VisitorRequest.headersClean_forwardable _, rfl⟩
  have htarget : ∀ id g, c.session.httpStreams.get id = some g → g.info.target = none := by
    intro id g hg
    obtain ⟨r, -, hr⟩ := h.asked_of_opening (hr.stream hg).1
    rw [hr]
    rfl
  have hunmade : c.session.received ∉ x.ids := fun hmem =>
    absurd (hr.unmade _ hmem (Nat.le_refl _)) (Nat.not_le.mpr hlt)
  have hexpects : TunnelSession.Expects c.session.received x.answer
      (bodyOf (s.frames.take c.session.received)) x.ids c.session.count m.frame := by
    refine ⟨fun id info he => bodyOf_eq_nil fun data hmem => ?_, fun _ _ _ => hunmade,
      fun j g hg => (hr.stream hg).2.ne, fun j k g w hg hw hu => ?_, fun n hn =>
        Option.eq_none_iff_forall_ne_some.mpr fun a ha => hn (h.answers n a ha)⟩
    · obtain ⟨k, hk⟩ := List.mem_iff_getElem?.mp hmem
      rw [List.getElem?_take] at hk
      split_ifs at hk with hkr
      obtain ⟨n, hn, r, ha⟩ := h.reads.chunk k id data hk
      rw [he] at hf
      have := h.sound.wired.distinct n _ _ _ ha.1 hf trivial trivial rfl
      omega
    · have hg' := (hr.stream hg).1
      rw [hu, (hr.stream hw).1] at hg'
      exact (Frame.openHttp.inj (Option.some.inj hg')).1.symm
  have hhandled : TunnelSession.Handled c.session.received c.session.count m.frame
      (c.session.onMessage co io m.bytes) :=
    TunnelSession.handled_onMessage m.encoded hid hopening htarget
  have hnamed : (c.session.onMessage co io m.bytes).Named
      (s.Opened c.start (c.session.received + 1)) s.Carried (c.session.received + 1) :=
    hr.deliver h hc hf
  generalize c.session.onMessage co io m.bytes = u at *
  have hreceived : u.received = c.session.received + 1 := hnamed.received
  obtain ⟨hrepeats, hprefix, hgathers, hdistinct, hmakes⟩ := hhandled.step (s := c.session.count)
    ⟨hr.repeats.distinct, hr.repeats.status, hr.repeats.first, hr.repeats.whole⟩
    ⟨hr.gathers.chunks, hr.gathers.fresh, hr.gathers.calls⟩ hexpects
  have hstarted : TunnelSession.started c.session.count u = TunnelSession.started c.session u := rfl
  rw [hstarted] at hgathers hdistinct hmakes
  have hcalls : ∀ m ∈ TunnelSession.started c.session u,
      m.uid ≤ c.session.received ∧ c.start ≤ m.uid ∧ x.Asks m := fun m hm => by
    have hmake := (hmakes m hm).2
    obtain ⟨hle, hasks⟩ := h.asks_of_makes hr hf hmake
    refine ⟨hle, ?_, hasks⟩
    rcases hmake with ⟨-, -, huid, -⟩ | ⟨id, g, -, hg, huid, -⟩
    · exact (h.sound.client i c hc).started.trans huid.ge
    · exact (hr.named.get_http hg).1.1.trans huid.ge
  have hids : ∀ n, n ∈ (x.made ++ TunnelSession.started c.session u).map (fun m => m.uid) →
      n ∈ x.ids ∨ c.start ≤ n ∧ n ≤ c.session.received := fun n hn => by
    rw [List.map_append] at hn
    refine (List.mem_append.mp hn).imp id fun hn => ?_
    obtain ⟨m, hm, rfl⟩ := List.mem_map.mp hn
    exact ⟨(hcalls m hm).2.1, (hcalls m hm).1⟩
  have hsub : ∀ n ∈ x.ids,
      n ∈ (x.made ++ TunnelSession.started c.session u).map (fun m => m.uid) := fun n hn => by
    rw [List.map_append]
    exact List.mem_append_left _ hn
  have hlimit : (s.setClient i { c with session := u }).limit i = s.limit i :=
    limit_setClient hc (show ({ c with session := u } : Client).start = c.start from rfl) i
  refine h.setClient hc rfl hsound rfl rfl ?_ (fun n hn => (hids n hn).imp_right fun hn =>
    ⟨hn.1, hn.2.trans_lt hlt⟩) hsub (fun m hm => ?_) (fun n a ha => hsub n (h.answers n a ha))
    (fun _ => .same _) (fun _ _ => rfl) ⟨?_, ?_, hrepeats, ?_, fun n hn hle => ?_, ?_⟩
  · show ((x.made ++ TunnelSession.started c.session u).map fun m => m.uid).Nodup
    rw [List.map_append]
    refine List.nodup_append.mpr ⟨h.once, hdistinct, ?_⟩
    rintro n hn k hk rfl
    obtain ⟨m, hm, rfl⟩ := List.mem_map.mp hk
    exact (hmakes m hm).1 hn
  · refine (List.mem_append.mp hm).imp id fun hm => ⟨?_, (hcalls m hm).2.2⟩
    exact (hcalls m hm).1.trans_lt (hlt.trans_le (h.sound.limit_le i))
  · show u.Named (s.Opened c.start u.received) s.Carried u.received
    rw [hreceived]
    exact hnamed
  · exact hr.arrived.trans hprefix.length_le
  · show u.Gathers (bodyOf (s.frames.take u.received))
      ((x.made ++ TunnelSession.started c.session u).map fun m => m.uid)
    rw [hreceived, List.map_append, bodyOf_take_succ hf]
    exact hgathers
  · rw [hlimit]
    have hle' : c.session.received + 1 ≤ n := hreceived ▸ hle
    rcases hids n hn with hn | ⟨-, hn⟩
    · exact hr.unmade n hn (Nat.le_of_succ_le hle')
    · omega
  · intro id e n hg ho hstart hlim
    rw [hlimit] at hlim
    show _ = replyOf (partsFor (u.outbox.take c.arrived) n)
    rw [take_prefix_eq hprefix hr.arrived]
    exact hr.passed id e n hg ho hstart hlim

/-! ## Frames of the sessions -/

/-- Two openings of one stream are one. -/
theorem Exact.opening_unique (h : s.Exact x) {id m n : ℕ} {info : OpenHttp}
    (hm : s.frames[m]? = some (.openHttp id info)) {f : Frame} (hn : s.frames[n]? = some f)
    (ho : f.Opens) (hid : f.streamId = id) : m = n :=
  h.sound.wired.distinct m n _ _ hm hn trivial ho hid.symm

theorem partsFor_take_succ {sent : List Sent} {k : ℕ} {m : Sent} (hm : sent[k]? = some m) (n : ℕ) :
    partsFor (sent.take (k + 1)) n =
      partsFor (sent.take k) n ++ (if n = m.uid then m.frame.part else none).toList := by
  rw [List.take_add_one, hm, partsFor_append]
  refine congrArg _ ?_
  unfold partsFor
  rw [Option.toList_some, List.filterMap_cons]
  by_cases hn : m.uid = n
  · rw [if_pos hn, if_pos hn.symm]
    cases m.frame.part <;> rfl
  · rw [if_neg hn, if_neg (Ne.symm hn)]
    rfl

/-- The parts that have come are first parts of the answer. -/
theorem Repeats.come (hr : s.Repeats x i c) (k n : ℕ) :
    partsFor (c.session.outbox.take k) n <+: partsOf (x.answer n) := by
  refine List.IsPrefix.trans ?_ (hr.repeats.first n)
  conv_rhs => rw [← List.take_append_drop k c.session.outbox, partsFor_append]
  exact List.prefix_append _ _

/-- What the relay holds under the id of a frame is the request that the frame answers. -/
theorem Exact.holds (h : s.Exact x) (hr : s.Repeats x i c) {sent : Sent}
    (hm : sent ∈ c.session.outbox) {id n : ℕ} {e : PendingHttp}
    (hg : s.relay.relay.pendingHttp.get id = some e) (ho : e.opening = some n) :
    id = sent.frame.streamId ↔ n = sent.uid := by
  obtain ⟨info, hn⟩ := h.opened id e n hg ho
  obtain ⟨-, -, f, hf, hopens, hid⟩ := hr.named.outbox sent hm
  constructor
  · rintro rfl
    exact h.opening_unique hn hf hopens hid
  · rintro rfl
    have he := Option.some.inj (hn.symm.trans hf)
    rw [← hid, ← he]
    rfl

/-- What the relay holds has the parts that have come. -/
theorem Repeats.arrive (hr : s.Repeats x i c) (hf : t.frames = s.frames)
    (hlimit : t.limit i = s.limit i) {k : ℕ} (hk : k ≤ c.session.outbox.length)
    (hpassed : ∀ id e n, t.relay.relay.pendingHttp.get id = some e → e.opening = some n →
      s.Owns i c n → reply t.relay.relay.effects n =
        replyOf (partsFor (c.session.outbox.take k) n)) :
    t.Repeats x i { c with arrived := k } := by
  have hf' : t.frames = s.frames ++ [] := hf.trans (List.append_nil _).symm
  refine ⟨hr.named.mono (fun _ _ => Opened.append hf') fun _ _ => Carried.append hf', hk, hr.repeats,
    ?_, fun n hn hle => hlimit ▸ hr.unmade n hn hle, fun id e n hg ho hstart hlim =>
      hpassed id e n hg ho ⟨hstart, hlimit ▸ hlim⟩⟩
  rw [hf]
  exact hr.gathers

/-- **Arrival rule.** A part of a response is passed on. -/
theorem Exact.arrive {relayable : TunnelDO.Relayable} (h : s.Exact x)
    (hc : s.clients[i]? = some c) {sent : Sent} (hs : c.session.outbox[c.arrived]? = some sent)
    (hsound : ((s.arriveFrame relayable sent).setClient i
      { c with arrived := c.arrived + 1 }).Sound) :
    ((s.arriveFrame relayable sent).setClient i { c with arrived := c.arrived + 1 }).Exact x := by
  have hr := h.client i c hc
  have hmem := List.mem_of_getElem? hs
  have howns : s.Owns i c sent.uid := (hr.named.outbox sent hmem).owns h.sound hc
  have hposts := TunnelDO.posts_onTunnelFrame relayable s.relay.relay sent.uid sent.frame
  have hframes : ((s.arriveFrame relayable sent).setClient i
      { c with arrived := c.arrived + 1 }).frames = s.frames :=
    hposts.frames.trans (List.append_nil _)
  -- A response that begins has had no part.
  have hbegins : s.relay.relay.Begins sent.frame := by
    intro entry status n hg hp ho
    obtain rfl := (h.holds hr hmem hg ho).mp rfl
    have hcome := hr.come (c.arrived + 1) sent.uid
    rw [partsFor_take_succ hs, if_pos rfl, hp] at hcome
    rw [hr.passed _ entry _ hg ho howns.1 howns.2, eq_nil_of_head hcome]
    rfl
  have hhears := TunnelDO.hears_onTunnelFrame relayable h.tended sent.uid hbegins
  have hsent : (s.relay.relay.onTunnelFrame relayable sent.uid sent.frame).sent =
      s.relay.relay.sent := hposts.sent
  have hlimit : ∀ j, ((s.arriveFrame relayable sent).setClient i
      { c with arrived := c.arrived + 1 }).limit j = s.limit j := fun j => by
    have hset : ((s.arriveFrame relayable sent).setClient i
        { c with arrived := c.arrived + 1 }).limit j = (s.arriveFrame relayable sent).limit j :=
      limit_setClient (s := s.arriveFrame relayable sent) hc
        (show ({ c with arrived := c.arrived + 1 } : Client).start = c.start from rfl) j
    rw [hset, limit_eq, limit_eq]
    exact congrArg _ hsent
  have hclients : ∀ j d, (s.clients.set i { c with arrived := c.arrived + 1 })[j]? = some d →
      i = j ∧ d = { c with arrived := c.arrived + 1 } ∨ i ≠ j ∧ s.clients[j]? = some d := by
    intro j d hd
    rw [List.getElem?_set] at hd
    split_ifs at hd with hij
    · exact .inl ⟨hij, (Option.some.inj hd).symm⟩
    · exact .inr ⟨hij, hd⟩
  refine ⟨hsound, ?_, hhears.tended h.tended, fun id e n hg ho => ?_, fun n hn => ?_, h.once,
    fun m hm => ?_, h.answers, fun n => ?_, fun j d hd => ?_⟩
  · exact h.reads.aside (l := []) hposts.frames (by simp) (TunnelDO.pumps_onTunnelFrame _ _ _ _)
  · obtain ⟨e', hg', ho', -⟩ := hhears.entries h.tended hg ho
    obtain ⟨info, hn⟩ := h.opened id e' n hg' ho'
    exact ⟨info, hframes.symm ▸ hn⟩
  · have hle : s.relay.relay.sent ≤ n := hsent.ge.trans hn
    refine (hhears.others fun id e hg ho => ?_).trans (h.unopened n hle)
    exact absurd (h.lt_sent hg ho) (Nat.not_lt.mpr hle)
  · exact ⟨(h.asks m hm).1.trans_eq hsent.symm, (h.asks m hm).2⟩
  · rcases hhears.reply h.tended n with hspoils | ⟨e, p, hg, ho, hp, hreply⟩
    · exact (h.replies n).spoils hspoils
    · obtain rfl := (h.holds hr hmem hg ho).mp rfl
      have hcome := hr.come (c.arrived + 1) sent.uid
      rw [partsFor_take_succ hs, if_pos rfl] at hcome
      have hcarries := carries_of_prefix hcome
      rw [replyOf_append, hp, ← hr.passed _ e _ hg ho howns.1 howns.2] at hcarries
      exact hreply.symm ▸ hcarries
  · rcases hclients j d hd with ⟨rfl, rfl⟩ | ⟨hne, hj⟩
    · refine hr.arrive hframes (hlimit i) (List.getElem?_eq_some_iff.mp hs).1
        fun id e n hg ho hn => ?_
      obtain ⟨e', hg', ho', hreply⟩ := hhears.entries h.tended hg ho
      refine hreply.trans ?_
      rw [hr.passed id e' n hg' ho' hn.1 hn.2, partsFor_take_succ hs, replyOf_append]
      by_cases hid : id = sent.frame.streamId
      · rw [if_pos hid, if_pos ((h.holds hr hmem hg' ho').mp hid)]
      · rw [if_neg hid, if_neg fun hu => hid ((h.holds hr hmem hg' ho').mpr hu)]
        rfl
    · have hr' := h.client j d hj
      refine hr'.arrive hframes (hlimit j) hr'.arrived fun id e n hg ho hn => ?_
      obtain ⟨e', hg', ho', hreply⟩ := hhears.entries h.tended hg ho
      refine hreply.trans ?_
      rw [← hr'.passed id e' n hg' ho' hn.1 hn.2]
      refine if_neg fun hid => ?_
      obtain rfl := (h.holds hr hmem hg' ho').mp hid
      exact hne (h.sound.disjoint hc hj howns hn)

/-! ## The law -/

/-- **Step lemma.** -/
theorem Exact.step {secret : Text} {relayable : TunnelDO.Relayable} {co : Coercion}
    {e : SystemEvent} (h : s.Exact x) (hok : s.Ok e) (hrest : x.Ok e)
    (ht : step secret relayable co s e = some t) : t.Exact (x.note s e t) := by
  have hsound := h.sound.step hok ht
  cases e with
  | relay e => exact h.relayStep hok hrest ht
  | deliver tunnel io =>
    cases Step.of_step ht with
    | @deliver tunnel io c m hc hlt hm =>
      have hcalls : Exchange.calls s (s.setClient tunnel
          { c with session := c.session.onMessage co io m.bytes }) tunnel =
          TunnelSession.started c.session (c.session.onMessage co io m.bytes) := by
        unfold Exchange.calls
        rw [hc, getElem?_setClient hc, if_pos rfl]
      unfold Exchange.note
      dsimp only
      rw [hcalls]
      exact h.deliver hc hlt hm hsound
  | origin tunnel io e =>
    cases Step.of_step ht with
    | origin hc hs => exact h.origin hc hok hs hsound
  | arrive tunnel =>
    cases Step.of_step ht with
    | arrive hc hs => exact h.arrive hc hs hsound
  | drop tunnel =>
    cases Step.of_step ht with
    | drop hc => exact h.drop hc hsound

variable {secret : Text} {relayable : TunnelDO.Relayable} {co : Coercion}

/-- **Fidelity.** In every run of an instance, over any tunnels, the origin gets every request at
most once, whole and as it was asked, and a visitor gets its answer or an error. -/
theorem exchanges_faithful {p : TunnelSystem × Exchange}
    (h : Machine.Reaches (Machine.observed (step secret relayable co) fun s e t x => x.note s e t)
      (fun p e => p.1.Ok e ∧ p.2.Ok e) (new, .new) p) :
    p.2.Faithful p.1.relay.relay.effects := by
  have hexact : p.1.Exact p.2 := by
    refine h.invariant (I := fun p => p.1.Exact p.2) exact_new ?_
    intro p e q hp hok ht
    obtain ⟨hstep, hnote⟩ := Machine.observed_eq_some.mp ht
    rw [hnote]
    exact hp.step hok.1 hok.2 hstep
  exact hexact.faithful

/-! ## A request over one tunnel -/

def plainExchange (p : TunnelSystem × Exchange) (e : PlainEvent) :
    Option (TunnelSystem × Exchange) :=
  Machine.observed guestStep (fun s e t x => x.note s e t) p e.event

/-- A check of the conditions on visits and on the pump. -/
def plainOk (p : TunnelSystem × Exchange) : PlainEvent → Bool
  | .relay (.pumpChunk id value sends) => p.1.usesFirst (.pumpChunk id value sends) &&
      id ∈ p.1.relay.relay.pumps && (p.2.rest id).map (fun b => b.1.head?) = some (some value)
  | .relay (.pumpEnd id sends) => p.1.usesFirst (.pumpEnd id sends) &&
      id ∈ p.1.relay.relay.pumps && p.2.rest id = some ([], true)
  | e => p.1.visitOk e

theorem ok_of_plainOk {p : TunnelSystem × Exchange} {e : PlainEvent} (h : plainOk p e) :
    p.1.Ok e.event ∧ p.2.Ok e.event := by
  cases e with
  | relay e =>
    cases e with
    | dial r => exact ⟨ok_of_visitOk h, trivial⟩
    | fetch r sends => exact ⟨ok_of_visitOk h, trivial⟩
    | visitorMessage n isBinary data sends => exact ⟨ok_of_visitOk h, trivial⟩
    | pumpChunk id value sends =>
      unfold plainOk at h
      rw [Bool.and_eq_true, Bool.and_eq_true, decide_eq_true_iff, decide_eq_true_iff] at h
      obtain ⟨⟨huses, hpump⟩, hrest⟩ := h
      obtain ⟨⟨rs, b⟩, hrs, hhead⟩ := Option.map_eq_some_iff.mp hrest
      obtain ⟨rs', rfl⟩ := List.head?_eq_some_iff.mp hhead
      exact ⟨⟨fun _ => usable_of_usesFirst huses, hpump⟩, rs', b, hrs⟩
    | pumpEnd id sends =>
      unfold plainOk at h
      rw [Bool.and_eq_true, Bool.and_eq_true, decide_eq_true_iff, decide_eq_true_iff] at h
      obtain ⟨⟨huses, hpump⟩, hrest⟩ := h
      exact ⟨⟨fun _ => usable_of_usesFirst huses, hpump⟩, hrest⟩
    | _ => cases h
  | deliver => exact ⟨ok_of_visitOk h, trivial⟩
  | origin e => exact ⟨ok_of_visitOk h, trivial⟩
  | arrive => exact ⟨trivial, trivial⟩

theorem reaches_of_plain {p q : TunnelSystem × Exchange}
    (h : Machine.Reaches plainExchange (fun p e => plainOk p e) p q) :
    Machine.Reaches (Machine.observed guestStep fun s e t x => x.note s e t)
      (fun p e => p.1.Ok e ∧ p.2.Ok e) p q :=
  h.map PlainEvent.event fun _ _ _ hok hstep => ⟨ok_of_plainOk hok, hstep⟩

def uploadVisit : VisitorRequest :=
  { TunnelRelay.plainVisit with
    method := "POST".toList
    body := some ([[1, 2]], true) }

/-- A request with a body, whose answer comes to its end. -/
def uploadEvents : List PlainEvent :=
  [.relay (.dial TunnelRelay.plainDial), .relay (.fetch uploadVisit true),
    .relay (.pumpChunk 1 [1, 2] true), .relay (.pumpEnd 1 true), .deliver, .deliver, .deliver,
    .origin (.originResponse 0 (some 200) [] []), .origin (.originChunk 0 [5, 6]),
    .origin (.originEnd 0), .arrive, .arrive, .arrive]

def uploaded : TunnelSystem × Exchange :=
  (Machine.exec plainExchange (fun p e => plainOk p e) (new, .new) uploadEvents).get
    (by decide +kernel)

theorem exchanges_faithful_uploaded :
    Machine.Reaches (Machine.observed guestStep fun s e t x => x.note s e t)
        (fun p e => p.1.Ok e ∧ p.2.Ok e) (new, .new) uploaded ∧
      reply uploaded.1.relay.relay.effects 0 = .finished 200 [5, 6] ∧
      uploaded.2.Faithful uploaded.1.relay.relay.effects := by
  have hexec : Machine.exec plainExchange (fun p e => plainOk p e) (new, .new) uploadEvents =
      some uploaded :=
    (Option.some_get _).symm
  have hreach := reaches_of_plain (Machine.reaches_of_exec hexec)
  exact ⟨hreach, by decide +kernel, exchanges_faithful hreach⟩

end TunnelSystem

end BbShared
