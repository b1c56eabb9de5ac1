import Haltchain.Lib.MerkleTree
import Haltchain.Lib.Run

/-! # The Merkle accumulator

The merkle crate: the root over the decisions of a day, inclusion proofs and their verification.
SHA-256 is a parameter. Trees are those of `Lib.MerkleTree`, with the hash of two digests one after
the other. -/

namespace Haltchain.Merkle

open Lib List Option

/-- 32 bytes. -/
structure Digest where
  bytes : List UInt8
  length_bytes : bytes.length = 32
deriving DecidableEq

/-! ## Hexadecimal texts -/

/-- A digit in lower case. -/
def hexDigit (n : Nat) : Char := .ofNat (if n < 10 then 48 + n else 87 + n)

/-- `hex::encode`. -/
def hexEncode (bytes : List UInt8) : String :=
  .ofList (bytes.flatMap fun b => [hexDigit (b.toNat / 16), hexDigit (b.toNat % 16)])

/-- Both cases are read. -/
def hexVal (c : Char) : Option Nat :=
  let n := c.toNat
  if 48 ≤ n ∧ n ≤ 57 then some (n - 48)
  else if 97 ≤ n ∧ n ≤ 102 then some (n - 87)
  else if 65 ≤ n ∧ n ≤ 70 then some (n - 55)
  else none

/-- Two digits make a byte. -/
def hexDecodeChars : List Char → Option (List UInt8)
  | [] => some []
  | [_] => none
  | hi :: lo :: rest => do
    let h ← hexVal hi
    let l ← hexVal lo
    let bytes ← hexDecodeChars rest
    return (h * 16 + l).toUInt8 :: bytes

/-- `hex::decode`. -/
def hexDecode (s : String) : Option (List UInt8) := hexDecodeChars s.toList

theorem hexVal_hexDigit {n : Nat} (h : n < 16) : hexVal (hexDigit n) = some n := by
  have hall : ∀ k : Fin 16, hexVal (hexDigit k) = some k.1 := by decide
  exact hall ⟨n, h⟩

theorem hexDecode_hexEncode (bytes : List UInt8) : hexDecode (hexEncode bytes) = some bytes := by
  unfold hexDecode hexEncode
  rw [String.toList_ofList]
  induction bytes with
  | nil => rfl
  | cons b rest ih =>
    have hlt : b.toNat < 256 := b.toNat_lt
    have hbyte : (b.toNat / 16 * 16 + b.toNat % 16).toUInt8 = b := by
      rw [Nat.div_add_mod']
      exact UInt8.ofNat_toNat
    rw [flatMap_cons, cons_append, cons_append, nil_append, hexDecodeChars,
      hexVal_hexDigit (by omega), hexVal_hexDigit (by omega), ih]
    exact congrArg (fun b => some (b :: rest)) hbyte

/-- A text that stands for a digest. -/
def decodeDigest (s : String) : Option Digest :=
  (hexDecode s).bind fun bytes => if h : bytes.length = 32 then some ⟨bytes, h⟩ else none

@[simp] theorem decodeDigest_hexEncode (d : Digest) :
    decodeDigest (hexEncode d.bytes) = some d := by
  unfold decodeDigest
  rw [hexDecode_hexEncode, bind_some, dif_pos d.length_bytes]

theorem hexEncode_injective {d e : Digest} (h : hexEncode d.bytes = hexEncode e.bytes) : d = e := by
  have hdecode := decodeDigest_hexEncode d
  rw [h, decodeDigest_hexEncode] at hdecode
  exact (some.inj hdecode).symm

/-! ## Roots -/

/-- What is hashed for two nodes. -/
def combined (left right : Digest) : List UInt8 := left.bytes ++ right.bytes

theorem combined_injective {p q : Digest × Digest} (h : combined p.1 p.2 = combined q.1 q.2) :
    p = q := by
  obtain ⟨hleft, hright⟩ := append_inj h (by rw [p.1.length_bytes, q.1.length_bytes])
  obtain ⟨⟨_, _⟩, ⟨_, _⟩⟩ := p
  subst hleft hright
  rfl

section

variable (sha256 : List UInt8 → Digest)

/-- The hash of two nodes. -/
def nodeHash (left right : Digest) : Digest := sha256 (combined left right)

def merkleRoot (leaves : List Digest) : Option Digest :=
  (collapse (nodeHash sha256) leaves.length leaves)[0]?

theorem merkleRoot_eq (leaves : List Digest) :
    merkleRoot sha256 leaves = treeRoot (nodeHash sha256) leaves := by
  rw [merkleRoot, treeRoot, collapse_eq (nodeHash sha256) (Nat.le_succ _)]

/-- The strings that are hashed for the root. -/
def rootInputs (leaves : List Digest) : List (List UInt8) :=
  (treePairs (nodeHash sha256) leaves).map fun p => combined p.1 p.2

/-- Two different strings among these have the same hash. -/
def Collision (inputs : List (List UInt8)) : Prop :=
  ∃ x ∈ inputs, ∃ y ∈ inputs, x ≠ y ∧ sha256 x = sha256 y
deriving Decidable

variable {sha256} in
/-- Without one, the hash of a string determines it. -/
theorem eq_of_sha256_eq {inputs : List (List UInt8)} (h : ¬ Collision sha256 inputs)
    {x y : List UInt8} (hx : x ∈ inputs) (hy : y ∈ inputs) (heq : sha256 x = sha256 y) : x = y := by
  by_contra hne
  exact h ⟨x, hx, y, hy, hne, heq⟩

variable {sha256} in
theorem injOn_of_not_collision {inputs : List (List UInt8)} (h : ¬ Collision sha256 inputs) :
    Set.InjOn (Function.uncurry (nodeHash sha256)) {p | combined p.1 p.2 ∈ inputs} :=
  fun _ hp _ hq heq => combined_injective (eq_of_sha256_eq h hp hq heq)

/-! ## Inclusion proofs -/

inductive ProofDirection where
  /-- The sibling is on the left. -/
  | left
  | right
deriving DecidableEq

structure ProofStep where
  siblingHash : String
  direction : ProofDirection

structure MerkleInclusionProof where
  leafIndex : Nat
  leafHash : String
  rootHash : String
  steps : List ProofStep

/-- The loop over the layers: the steps from the node at `idx` on, and the last layer. An index out
of bounds, at which the source panics, gives `none`. -/
def proofLoop : Nat → List Digest → Nat → Option (List ProofStep × List Digest)
  | 0, layer, _ => some ([], layer)
  | fuel + 1, layer, idx =>
    if 1 < layer.length then do
      let siblingIdx := if idx % 2 = 0 then idx + 1 else idx - 1
      -- an odd last node is its own sibling
      let sibling ← layer[siblingIdx]?.or layer[idx]?
      let direction : ProofDirection := if idx % 2 = 0 then .right else .left
      let (steps, top) ← proofLoop fuel (parents (nodeHash sha256) layer) (idx / 2)
      return (⟨hexEncode sibling.bytes, direction⟩ :: steps, top)
    else some ([], layer)

/-- The proof for a leaf. -/
def generateInclusionProof (leaves : List Digest) (leafIndex : Nat) : Option MerkleInclusionProof :=
  if leaves.isEmpty ∨ leaves.length ≤ leafIndex then none
  else do
    let (steps, top) ← proofLoop sha256 leaves.length leaves leafIndex
    let leaf ← leaves[leafIndex]?
    let root ← top[0]?
    return ⟨leafIndex, hexEncode leaf.bytes, hexEncode root.bytes, steps⟩

/-- What is hashed in a step from the current node. -/
def ProofStep.combine (direction : ProofDirection) (current sibling : Digest) : List UInt8 :=
  match direction with
  | .right => combined current sibling
  | .left => combined sibling current

/-- The loop over the steps. -/
def verifySteps (current : Digest) : List ProofStep → Option Digest
  | [] => some current
  | step :: rest =>
    match decodeDigest step.siblingHash with
    | some sibling => verifySteps (sha256 (ProofStep.combine step.direction current sibling)) rest
    | none => none

def verifyInclusionProof (proof : MerkleInclusionProof) : Bool :=
  match decodeDigest proof.leafHash with
  | some leaf =>
    match verifySteps sha256 leaf proof.steps with
    | some current => hexEncode current.bytes == proof.rootHash
    | none => false
  | none => false

/-- The strings that the loop over the steps hashes. -/
def stepInputs (current : Digest) : List ProofStep → List (List UInt8)
  | [] => []
  | step :: rest =>
    match decodeDigest step.siblingHash with
    | some sibling =>
      let input := ProofStep.combine step.direction current sibling
      input :: stepInputs (sha256 input) rest
    | none => []

/-- The strings that are hashed to verify the proof. -/
def proofInputs (proof : MerkleInclusionProof) : List (List UInt8) :=
  match decodeDigest proof.leafHash with
  | some leaf => stepInputs sha256 leaf proof.steps
  | none => []

/-! ### As paths -/

def ProofStep.decode (step : ProofStep) : Option (PathStep Digest) :=
  (decodeDigest step.siblingHash).map fun sibling => ⟨sibling, step.direction = .left⟩

theorem ProofStep.combine_eq (direction : ProofDirection) (current sibling : Digest) :
    combine direction current sibling =
      combined (PathStep.pair ⟨sibling, direction = .left⟩ current).1
        (PathStep.pair ⟨sibling, direction = .left⟩ current).2 := by
  cases direction <;> rfl

/-- **The loop climbs the path that the steps stand for.** -/
theorem verifySteps_eq_some {current top : Digest} {steps : List ProofStep}
    (h : verifySteps sha256 current steps = some top) :
    ∃ path, steps.map ProofStep.decode = path.map some ∧
      climb (nodeHash sha256) current path = top ∧
      stepInputs sha256 current steps =
        (climbPairs (nodeHash sha256) current path).map fun p => combined p.1 p.2 := by
  induction steps generalizing current with
  | nil => exact ⟨[], rfl, some.inj h, rfl⟩
  | cons step rest ih =>
    rw [verifySteps] at h
    cases hdecode : decodeDigest step.siblingHash with
    | none =>
      rw [hdecode] at h
      simp at h
    | some sibling =>
      rw [hdecode] at h
      obtain ⟨path, hpath, hclimb, hinputs⟩ := ih h
      refine ⟨⟨sibling, step.direction = .left⟩ :: path, ?_, ?_, ?_⟩
      · rw [map_cons, map_cons, hpath, ProofStep.decode, hdecode, map_some]
      · rw [climb, nodeHash, ← ProofStep.combine_eq]
        exact hclimb
      · rw [stepInputs, hdecode, climbPairs, map_cons, nodeHash, ← ProofStep.combine_eq]
        exact congrArg _ hinputs

/-- A path, written out as steps, is climbed. -/
theorem verifySteps_of_decode {steps : List ProofStep} {path : List (PathStep Digest)}
    (h : steps.map ProofStep.decode = path.map some) (current : Digest) :
    verifySteps sha256 current steps = some (climb (nodeHash sha256) current path) := by
  induction steps generalizing current path with
  | nil =>
    obtain rfl := map_eq_nil_iff.1 h.symm
    rfl
  | cons step rest ih =>
    obtain ⟨s, path, rfl, hstep, hrest⟩ := map_eq_cons_iff.1 h.symm
    obtain ⟨sibling, hsibling, rfl⟩ := map_eq_some_iff.1 hstep.symm
    rw [verifySteps, hsibling, climb, nodeHash, ← ProofStep.combine_eq]
    exact ih hrest.symm _

end

end Haltchain.Merkle
