import BbShared.TunnelDO

/-!
# Responses, from the origin to the visitor

What a visitor has of its response, what the origin answers, and the parts that carry the answer
over the tunnel.  A response that has taken the first parts of an answer carries that answer: its
status, and no other bytes than the first of its body; a body that is finished is the whole one.
-/

namespace BbShared

open Js

/-! ## What a visitor has -/

/-- A body that is `detached` has lost its writer and is not ended any more. -/
inductive HttpReply where
  | waiting
  | failed
  | bodiless (status : ℕ)
  | streaming (status : ℕ) (body : Bytes)
  | finished (status : ℕ) (body : Bytes)
  | aborted
  | detached
deriving DecidableEq

/-- A request is answered once, and a body is ended by the writer it was made with. -/
def HttpReply.next : HttpReply → VisitorAction → HttpReply
  | .waiting, .respond status _ hasBody => if hasBody then .streaming status [] else .bodiless status
  | .waiting, .fail _ _ => .failed
  | .streaming status body, .respond _ _ hasBody =>
    if hasBody then .detached else .streaming status body
  | .streaming _ _, .fail _ _ => .detached
  | .streaming status body, .write data => .streaming status (body ++ data)
  | .streaming status body, .finish => .finished status body
  | .streaming _ _, .abort _ => .aborted
  | v, _ => v

/-- The response to the request that the opening `n` began, after these effects. -/
def reply (effects : List VisitorEffect) (n : ℕ) : HttpReply :=
  effects.foldl (fun v e => if e.opening = some n then v.next e.action else v) .waiting

theorem reply_append (effects x : List VisitorEffect) (n : ℕ) :
    reply (effects ++ x) n =
      x.foldl (fun v e => if e.opening = some n then v.next e.action else v) (reply effects n) := by
  unfold reply
  rw [List.foldl_append]

theorem reply_concat (effects : List VisitorEffect) (e : VisitorEffect) (n : ℕ) :
    reply (effects ++ [e]) n =
      if e.opening = some n then (reply effects n).next e.action else reply effects n := by
  rw [reply_append]
  rfl

namespace HttpReply

def IsStreaming : HttpReply → Prop
  | .streaming _ _ => True
  | _ => False

/-- What giving a request up makes of its response. -/
def Spoils (v w : HttpReply) : Prop :=
  w = v ∨ v = .waiting ∧ w = .failed ∨ v.IsStreaming ∧ w = .aborted

theorem Spoils.trans {u v w : HttpReply} (h : u.Spoils v) (h' : v.Spoils w) : u.Spoils w := by
  rcases h' with rfl | ⟨rfl, rfl⟩ | ⟨hs, rfl⟩
  · exact h
  · rcases h with rfl | ⟨-, h⟩ | ⟨-, h⟩
    · exact .inr (.inl ⟨rfl, rfl⟩)
    · cases h
    · cases h
  · rcases h with rfl | ⟨-, rfl⟩ | ⟨-, rfl⟩
    · exact .inr (.inr ⟨hs, rfl⟩)
    · exact absurd hs fun h => h
    · exact absurd hs fun h => h

theorem spoils_fail {v : HttpReply} (h : ¬ v.IsStreaming) (status : ℕ) (message : Text) :
    v.Spoils (v.next (.fail status message)) := by
  cases v with
  | waiting => exact .inr (.inl ⟨rfl, rfl⟩)
  | streaming status body => exact absurd trivial h
  | _ => exact .inl rfl

theorem spoils_abort (v : HttpReply) (message : Text) : v.Spoils (v.next (.abort message)) := by
  cases v with
  | streaming status body => exact .inr (.inr ⟨trivial, rfl⟩)
  | _ => exact .inl rfl

end HttpReply

/-! ## What the origin answers -/

/-- The origin's response as far as it has come. -/
structure OriginAnswer where
  status : ℕ
  chunks : List Bytes
  ended : Bool

/-- A frame of a response, without its stream. -/
inductive Part where
  | head (status : ℕ)
  | data (bytes : Bytes)
  | finish

def Frame.part : Frame → Option Part
  | respHead _ status _ => some (.head status)
  | bodyChunk _ data => some (.data data)
  | bodyEnd _ => some .finish
  | _ => none

def Part.bytes : Part → Bytes
  | data bytes => bytes
  | _ => []

/-- The parts that carry a buffer. -/
def dataParts (data : Bytes) : List Part := (chunks data).map .data

namespace OriginAnswer

def body (a : OriginAnswer) : Bytes := a.chunks.flatten

def dataParts (a : OriginAnswer) : List Part := a.chunks.flatMap BbShared.dataParts

/-- The parts that carry the answer over the tunnel. -/
def parts (a : OriginAnswer) : List Part :=
  .head a.status :: a.dataParts ++ if a.ended then [.finish] else []

end OriginAnswer

/-- The parts of what there is of an answer. -/
def partsOf : Option OriginAnswer → List Part
  | some a => a.parts
  | none => []

theorem flatten_chunks (data : Bytes) : (chunks data).flatten = data := by
  induction data using chunks.induct with
  | case1 =>
    unfold chunks
    rfl
  | case2 data h ih =>
    unfold chunks
    rw [if_neg h, List.flatten_cons, ih, List.take_append_drop]

theorem bytes_dataParts (data : Bytes) : (dataParts data).flatMap Part.bytes = data := by
  unfold dataParts
  rw [List.flatMap_map]
  exact List.flatMap_id'.trans (flatten_chunks data)

/-! ## What a visitor is given of it -/

/-- What the relay makes of a response with a part, as long as it holds the request. -/
def HttpReply.take : HttpReply → Part → HttpReply
  | .waiting, .head status =>
    if status = 204 ∨ status = 205 ∨ status = 304 then .bodiless status else .streaming status []
  | .streaming status body, .data bytes => .streaming status (body ++ bytes)
  | .streaming status body, .finish => .finished status body
  | v, _ => v

def replyOf (parts : List Part) : HttpReply := parts.foldl HttpReply.take .waiting

/-- The response is the answer's as far as it goes, or an error. -/
def HttpReply.Carries (answer : Option OriginAnswer) : HttpReply → Prop
  | .waiting => True
  | .failed => True
  | .bodiless status => (status = 204 ∨ status = 205 ∨ status = 304) ∧
      ∃ a, answer = some a ∧ a.status = status
  | .streaming status body => ∃ a, answer = some a ∧ a.status = status ∧ body <+: a.body
  | .finished status body =>
      ∃ a, answer = some a ∧ a.status = status ∧ a.ended = true ∧ body = a.body
  | .aborted => True
  | .detached => False

theorem foldl_take_bodiless (status : ℕ) (parts : List Part) :
    parts.foldl HttpReply.take (.bodiless status) = .bodiless status := by
  induction parts with
  | nil => rfl
  | cons p parts ih => exact ih

/-- Data parts add their bytes. -/
theorem foldl_take_data {parts : List Part} (h : ∀ p ∈ parts, ∃ b, p = .data b) (status : ℕ)
    (body : Bytes) : parts.foldl HttpReply.take (.streaming status body) =
      .streaming status (body ++ parts.flatMap Part.bytes) := by
  induction parts generalizing body with
  | nil => rw [List.flatMap_nil, List.append_nil]; rfl
  | cons p parts ih =>
    obtain ⟨b, rfl⟩ := h p List.mem_cons_self
    rw [List.foldl_cons, List.flatMap_cons, ← List.append_assoc]
    exact ih (fun q hq => h q (List.mem_cons_of_mem _ hq)) _

namespace OriginAnswer

variable (a : OriginAnswer)

theorem data_of_mem_dataParts {p : Part} (h : p ∈ a.dataParts) : ∃ b, p = .data b := by
  obtain ⟨c, -, hp⟩ := List.mem_flatMap.mp h
  obtain ⟨b, -, rfl⟩ := List.mem_map.mp hp
  exact ⟨b, rfl⟩

theorem bytes_dataParts : a.dataParts.flatMap Part.bytes = a.body := by
  unfold dataParts body
  rw [List.flatMap_assoc, List.flatMap_congr fun c _ => BbShared.bytes_dataParts c]
  exact List.flatMap_id'

end OriginAnswer

/-- The first data parts of a body, for a status that has one. -/
theorem carries_of_prefix_dataParts {parts : List Part} {a : OriginAnswer}
    (h : parts <+: a.dataParts) :
    (parts.foldl HttpReply.take (.streaming a.status [])).Carries (some a) := by
  obtain ⟨rest, hrest⟩ := h
  have hdata : ∀ p ∈ parts, ∃ b, p = .data b := fun p hp =>
    a.data_of_mem_dataParts (hrest ▸ List.mem_append_left rest hp)
  rw [foldl_take_data hdata, List.nil_append]
  refine ⟨a, rfl, rfl, rest.flatMap Part.bytes, ?_⟩
  rw [← List.flatMap_append, hrest]
  exact a.bytes_dataParts

/-- All parts of a body. -/
theorem carries_of_finish {a : OriginAnswer} (h : a.ended = true) :
    ((a.dataParts ++ [Part.finish]).foldl HttpReply.take (.streaming a.status [])).Carries
      (some a) := by
  rw [List.foldl_append, foldl_take_data fun p hp => a.data_of_mem_dataParts hp, List.nil_append,
    a.bytes_dataParts]
  exact ⟨a, rfl, rfl, h, rfl⟩

/-- **Prefix rule.** A response made of the first parts of an answer carries the answer. -/
theorem carries_of_prefix {parts : List Part} {answer : Option OriginAnswer}
    (h : parts <+: partsOf answer) : (replyOf parts).Carries answer := by
  cases answer with
  | none =>
    obtain rfl := List.prefix_nil.mp h
    trivial
  | some a =>
    cases parts with
    | nil => trivial
    | cons p parts =>
      unfold partsOf OriginAnswer.parts at h
      dsimp only at h
      rw [List.cons_append] at h
      obtain ⟨hp, htail⟩ := List.cons_prefix_cons.mp h
      subst hp
      unfold replyOf
      rw [List.foldl_cons]
      by_cases hnull : a.status = 204 ∨ a.status = 205 ∨ a.status = 304
      · rw [show HttpReply.take .waiting (.head a.status) = .bodiless a.status from if_pos hnull,
          foldl_take_bodiless]
        exact ⟨hnull, a, rfl, rfl⟩
      · rw [show HttpReply.take .waiting (.head a.status) = .streaming a.status [] from if_neg hnull]
        cases hended : a.ended with
        | false =>
          rw [hended, if_neg (by decide), List.append_nil] at htail
          exact carries_of_prefix_dataParts htail
        | true =>
          rw [hended, if_pos rfl] at htail
          rcases List.prefix_concat_iff.mp htail with rfl | hdata
          · exact carries_of_finish hended
          · exact carries_of_prefix_dataParts hdata

/-- A response begins where nothing of the answer has come. -/
theorem eq_nil_of_head {parts : List Part} {status : ℕ} {answer : Option OriginAnswer}
    (h : parts ++ [.head status] <+: partsOf answer) : parts = [] := by
  cases answer with
  | none => exact absurd (List.prefix_nil.mp h) (by simp)
  | some a =>
    cases parts with
    | nil => rfl
    | cons p parts =>
      obtain ⟨rest, hrest⟩ := h
      have htail : parts ++ [.head status] ++ rest =
          a.dataParts ++ if a.ended then [.finish] else [] :=
        (List.cons.inj hrest).2
      have hmem : Part.head status ∈ a.dataParts ++ if a.ended then [.finish] else [] :=
        htail ▸ List.mem_append_left _ (List.mem_append_right _ (List.mem_singleton_self _))
      rcases List.mem_append.mp hmem with hmem | hmem
      · obtain ⟨b, hb⟩ := a.data_of_mem_dataParts hmem
        cases hb
      · split_ifs at hmem
        · cases List.mem_singleton.mp hmem
        · cases hmem

/-- What one more frame makes of a response. -/
theorem replyOf_append (parts : List Part) (p : Option Part) :
    replyOf (parts ++ p.toList) = p.elim (replyOf parts) (replyOf parts).take := by
  unfold replyOf
  cases p with
  | none => exact congrArg _ (List.append_nil parts)
  | some p => exact List.foldl_append

/-! ## Answers that go on -/

/-- What becomes of an answer: it begins, it goes on, or it ends. -/
inductive OriginAnswer.Grows : Option OriginAnswer → Option OriginAnswer → Prop
  | same (answer : Option OriginAnswer) : Grows answer answer
  | begins (a : OriginAnswer) : Grows none (some a)
  | chunk {a : OriginAnswer} (data : Bytes) (h : a.ended = false) :
      Grows (some a) (some { a with chunks := a.chunks ++ [data] })
  | ends {a : OriginAnswer} (h : a.ended = false) : Grows (some a) (some { a with ended := true })

variable {answer answer' : Option OriginAnswer}

namespace OriginAnswer

theorem partsOf_chunk {a : OriginAnswer} (data : Bytes) (h : a.ended = false) :
    BbShared.partsOf (some { a with chunks := a.chunks ++ [data] }) =
      BbShared.partsOf (some a) ++ BbShared.dataParts data := by
  unfold BbShared.partsOf parts dataParts
  dsimp only
  rw [h, if_neg (by decide), List.append_nil, List.append_nil, List.flatMap_append,
    List.flatMap_singleton, List.cons_append]

theorem partsOf_ended {a : OriginAnswer} (h : a.ended = false) :
    BbShared.partsOf (some { a with ended := true }) = BbShared.partsOf (some a) ++ [.finish] := by
  unfold BbShared.partsOf parts dataParts
  dsimp only
  rw [h, if_pos rfl, if_neg (by decide), List.append_nil]

theorem Grows.partsOf (h : Grows answer answer') :
    BbShared.partsOf answer <+: BbShared.partsOf answer' := by
  cases h with
  | same => exact List.prefix_rfl
  | begins a => exact List.nil_prefix
  | chunk data h => exact ⟨_, (partsOf_chunk data h).symm⟩
  | ends h => exact ⟨_, (partsOf_ended h).symm⟩

end OriginAnswer

theorem OriginAnswer.Grows.of_some {a : OriginAnswer} (h : OriginAnswer.Grows (some a) answer') :
    ∃ a', answer' = some a' ∧ a'.status = a.status ∧ a.body <+: a'.body ∧
      (a.ended = true → a' = a) := by
  cases h with
  | same => exact ⟨a, rfl, rfl, List.prefix_rfl, fun _ => rfl⟩
  | chunk data h =>
    refine ⟨_, rfl, rfl, ?_, fun he => absurd (h.symm.trans he) (by decide)⟩
    unfold OriginAnswer.body
    dsimp only
    rw [List.flatten_append]
    exact List.prefix_append _ _
  | ends h => exact ⟨_, rfl, rfl, List.prefix_rfl, fun he => absurd (h.symm.trans he) (by decide)⟩

/-- **Frame rule.** A response carries an answer that goes on. -/
theorem HttpReply.Carries.grows {v : HttpReply} (h : v.Carries answer)
    (hg : OriginAnswer.Grows answer answer') : v.Carries answer' := by
  cases v with
  | bodiless status =>
    obtain ⟨hnull, a, rfl, rfl⟩ := h
    obtain ⟨a', rfl, hs, -, -⟩ := hg.of_some
    exact ⟨hnull, a', rfl, hs⟩
  | streaming status body =>
    obtain ⟨a, rfl, rfl, hb⟩ := h
    obtain ⟨a', rfl, hs, hb', -⟩ := hg.of_some
    exact ⟨a', rfl, hs, hb.trans hb'⟩
  | finished status body =>
    obtain ⟨a, rfl, rfl, he, rfl⟩ := h
    obtain ⟨a', rfl, -, -, hsame⟩ := hg.of_some
    obtain rfl := hsame he
    exact ⟨a', rfl, rfl, he, rfl⟩
  | _ => exact h

theorem HttpReply.Carries.spoils {v w : HttpReply} (h : v.Carries answer) (hs : v.Spoils w) :
    w.Carries answer := by
  rcases hs with rfl | ⟨-, rfl⟩ | ⟨-, rfl⟩
  · exact h
  · trivial
  · trivial

end BbShared
