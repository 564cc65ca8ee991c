import BbShared.Js.Base64
import BbShared.Js.Values

/-!
# Proof of work

`worker-lifecycle/pow.ts`: the answer to the challenge that stands before a temporary account, a
chain of hashes with every `g`-th one shown.  The hash function and what `Buffer.from` makes of a
seed that is no string are parameters.
-/

namespace BbShared

open Js

/-- `POW_MAX_ITERATIONS`. -/
def POW_MAX_ITERATIONS : ℕ := 64000000

structure PowSolution where
  challengeToken : Option Json
  checkpoints : Text

/-- A number of rounds or segments: `Number.isInteger(v)` and not `v < 0`. -/
def natural? (v : Option Json) : Option ℕ :=
  (integer? v).bind fun n => if n < 0 then none else some n.toNat

section Solve

variable (en : Engine) (sha256 : Bytes → Bytes) (buffer : Option Json → Except Text Bytes)

/-- `iterate`. -/
def iterate (cur : Bytes) : ℕ → Bytes
  | 0 => cur
  | rounds + 1 => iterate (sha256 cur) rounds

/-- The checkpoints after `cur`, the loop of `solvePow`. -/
def segments (g : ℕ) (cur : Bytes) : ℕ → List Bytes
  | 0 => []
  | k + 1 => iterate sha256 cur g :: segments g (iterate sha256 cur g) k

/-- An exception that ends in a value. -/
def refuse {α : Type} (head : Text) (v : Option Json) : Except Text α :=
  match en.template v with
  | .ok t => .error (head ++ t)
  | .error e => .error e

def solvePow (seed : Bytes) (k g : Option Json) : Except Text Text :=
  match natural? k, natural? g with
  | none, _ => refuse en "PoW: invalid segment count k=".toList k
  | some _, none => refuse en "PoW: invalid rounds-per-segment g=".toList g
  | some k, some g =>
    if POW_MAX_ITERATIONS < k * g then
      .error ("PoW: difficulty k*g=".toList ++ (Number.ofNat (k * g)).display ++
        " exceeds the 64000000 cap".toList)
    else .ok (base64 (sha256 seed :: segments sha256 g (sha256 seed) k).flatten)

/-- `Buffer.from(seed, "base64url")`. -/
def seedBytes (seed : Option Json) : Except Text Bytes :=
  match seed with
  | some (.str s) => .ok (ofBase64 s)
  | v => buffer v

def solveChallenge (challenge : Option Json) : Except Text PowSolution := do
  let seed ← seedBytes buffer (← en.prop "seed".toList challenge)
  if seed = [] then .error "PoW: challenge seed decoded to zero bytes".toList
  else
    let token ← en.prop "challengeToken".toList challenge
    let k ← en.prop "k".toList challenge
    let g ← en.prop "g".toList challenge
    return ⟨token, ← solvePow en sha256 seed k g⟩

end Solve

/-! ## The chain -/

section Chain

variable {en : Engine} {sha256 : Bytes → Bytes} {buffer : Option Json → Except Text Bytes}

/-- An engine that says little. -/
def plainEngine : Engine := ⟨fun _ _ => [], fun _ _ => [], fun _ => .ok []⟩

/-- A hash function that is none, but has its length. -/
def paddedHash (b : Bytes) : Bytes := (b ++ List.replicate 32 0).take 32

def plainChallenge : Json :=
  .obj [("challengeToken".toList, .str "token".toList), ("seed".toList, .str "AQ".toList),
    ("k".toList, .num (.ofNat 2)), ("g".toList, .num (.ofNat 3))]

end Chain

end BbShared
