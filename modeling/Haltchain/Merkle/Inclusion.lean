import Haltchain.Merkle.Tree

/-! # Inclusion proofs

A generated proof is accepted, and leads to where the leaf is. Conversely, whoever made a proof
chose its length, its directions and its index, which the verifier does not look at; nor does it
know how high the tree is. -/

namespace Haltchain.Merkle

open Lib List Option

variable (sha256 : List UInt8 → Digest)

/-! ## Proofs that were generated -/

/-- **The loop collects a path from the node to the root**, with the turns that lead to the node. -/
theorem proofLoop_spec {fuel : Nat} {layer : List Digest} (hfuel : layer.length ≤ fuel + 1)
    {idx : Nat} {a : Digest} (ha : layer[idx]? = some a) : ∃ steps path,
      proofLoop sha256 fuel layer idx = some (steps, collapse (nodeHash sha256) fuel layer) ∧
      steps.map ProofStep.decode = path.map some ∧
      turns path = turnsTo (height layer.length) idx ∧
      (collapse (nodeHash sha256) fuel layer)[0]? = some (climb (nodeHash sha256) a path) := by
  induction fuel generalizing layer idx a with
  | zero =>
    have hidx : idx = 0 := by
      have := (List.getElem?_eq_some_iff.1 ha).1
      omega
    subst hidx
    refine ⟨[], [], rfl, rfl, ?_, ha⟩
    rw [height_of_le_one hfuel]
    rfl
  | succ fuel ih =>
    have hidx := (List.getElem?_eq_some_iff.1 ha).1
    by_cases hlong : 1 < layer.length
    · obtain ⟨sibling, hsibling⟩ : ∃ sibling,
          layer[if idx % 2 = 0 then idx + 1 else idx - 1]?.or layer[idx]? = some sibling := by
        rw [ha]
        cases layer[if idx % 2 = 0 then idx + 1 else idx - 1]? with
        | none => exact ⟨a, rfl⟩
        | some b => exact ⟨b, rfl⟩
      have hlen := length_parents (nodeHash sha256) layer
      obtain ⟨steps, path, hloop, hsteps, hturns, htop⟩ := ih (by omega)
        (getElem?_parents_of_step (nodeHash sha256) ha hsibling)
      refine ⟨⟨hexEncode sibling.bytes, if idx % 2 = 0 then .right else .left⟩ :: steps,
        ⟨sibling, idx % 2 == 1⟩ :: path, ?_, ?_, ?_, ?_⟩
      · rw [proofLoop, if_pos hlong, collapse, if_pos hlong]
        simp [hsibling, hloop]
      · rw [map_cons, hsteps, ProofStep.decode]
        rcases Nat.mod_two_eq_zero_or_one idx with heven | hodd
        · simp [heven]
        · simp [hodd]
      · rw [height_step hlong, turnsTo, ← hlen, ← hturns]
        rfl
      · rw [collapse, if_pos hlong]
        exact htop
    · have hzero : idx = 0 := by omega
      subst hzero
      refine ⟨[], [], ?_, rfl, ?_, ?_⟩
      · rw [proofLoop, if_neg hlong, collapse, if_neg hlong]
      · rw [height_of_le_one (not_lt.1 hlong)]
        rfl
      · rw [collapse, if_neg hlong]
        exact ha

/-- The turns down the path of the proof. -/
def MerkleInclusionProof.turns (proof : MerkleInclusionProof) : List Bool :=
  proof.steps.map fun step => step.direction = .left

theorem turns_of_decode {steps : List ProofStep} {path : List (PathStep Digest)}
    (h : steps.map ProofStep.decode = path.map some) :
    (steps.map fun step => decide (step.direction = .left)) = Lib.turns path := by
  induction steps generalizing path with
  | nil =>
    obtain rfl := map_eq_nil_iff.1 h.symm
    rfl
  | cons step rest ih =>
    obtain ⟨s, path, rfl, hstep, hrest⟩ := map_eq_cons_iff.1 h.symm
    obtain ⟨sibling, -, rfl⟩ := map_eq_some_iff.1 hstep.symm
    rw [map_cons, ih hrest.symm]
    rfl

/-- **The proof for a leaf**: it starts from the leaf, climbs to the root and leads to its place. -/
theorem generateInclusionProof_spec {leaves : List Digest} {i : Nat} {leaf : Digest}
    (hleaf : leaves[i]? = some leaf) : ∃ root steps path, merkleRoot sha256 leaves = some root ∧
      generateInclusionProof sha256 leaves i =
        some ⟨i, hexEncode leaf.bytes, hexEncode root.bytes, steps⟩ ∧
      verifySteps sha256 leaf steps = some root ∧
      steps.map ProofStep.decode = path.map some ∧
      Lib.turns path = turnsTo (height leaves.length) i := by
  have hi := (List.getElem?_eq_some_iff.1 hleaf).1
  obtain ⟨steps, path, hloop, hsteps, hturns, htop⟩ :=
    proofLoop_spec sha256 (Nat.le_succ leaves.length) hleaf
  refine ⟨climb (nodeHash sha256) leaf path, steps, path, htop, ?_,
    verifySteps_of_decode sha256 hsteps leaf, hsteps, hturns⟩
  have hne : ¬ (leaves.isEmpty ∨ leaves.length ≤ i) := by
    rw [isEmpty_iff_length_eq_zero]
    omega
  rw [generateInclusionProof, if_neg hne]
  simp [hloop, hleaf, htop]

/-- **Completeness.** The proof generated for a leaf is accepted; it carries the leaf and the
root. -/
theorem inclusion_complete (leaves : List Digest) (i : Nat) (hi : i < leaves.length) :
    ∃ proof root, generateInclusionProof sha256 leaves i = some proof ∧
      merkleRoot sha256 leaves = some root ∧
      verifyInclusionProof sha256 proof = true ∧
      hexDecode proof.leafHash = some leaves[i].bytes ∧
      hexDecode proof.rootHash = some root.bytes := by
  obtain ⟨root, steps, -, hroot, hproof, hverify, -⟩ :=
    generateInclusionProof_spec sha256 (getElem?_eq_getElem hi)
  refine ⟨_, root, hproof, hroot, ?_, hexDecode_hexEncode _, hexDecode_hexEncode _⟩
  simp [verifyInclusionProof, hverify]

/-- A hash for examples: the two halves of 64 bytes are added up. -/
def toyHash (bytes : List UInt8) : Digest where
  bytes := (range 32).map fun i =>
    bytes.getD i 0 + bytes.getD (i + 32) 0 + if bytes.length = 64 then 1 else 0
  length_bytes := by simp

/-- The same byte 32 times. -/
def digestOf (b : UInt8) : Digest := ⟨replicate 32 b, length_replicate⟩

theorem inclusion_complete_three :
    let leaves := [digestOf 1, digestOf 2, digestOf 3]
    2 < leaves.length ∧ ∃ proof root, generateInclusionProof toyHash leaves 2 = some proof ∧
      merkleRoot toyHash leaves = some root ∧ verifyInclusionProof toyHash proof = true ∧
      hexDecode proof.leafHash = some (digestOf 3).bytes ∧
      hexDecode proof.rootHash = some root.bytes :=
  ⟨by decide, inclusion_complete toyHash [digestOf 1, digestOf 2, digestOf 3] 2 (by decide)⟩

/-- **What a generated proof says about the tree**: it has one step per layer, and leads to its
index. -/
theorem locate_of_generate {leaves : List Digest} {i : Nat} {proof : MerkleInclusionProof}
    (h : generateInclusionProof sha256 leaves i = some proof) :
    proof.steps.length = height leaves.length ∧
      locate leaves.length proof.turns = proof.leafIndex := by
  have hi : i < leaves.length := by
    by_contra hout
    rw [generateInclusionProof, if_pos (.inr (not_lt.1 hout))] at h
    simp at h
  obtain ⟨root, steps, path, -, hproof, -, hsteps, hturns⟩ :=
    generateInclusionProof_spec sha256 (getElem?_eq_getElem hi)
  obtain rfl := some.inj (hproof.symm.trans h)
  have hproofTurns : (steps.map fun step => decide (step.direction = .left)) =
      turnsTo (height leaves.length) i := (turns_of_decode hsteps).trans hturns
  constructor
  · have hlength := congrArg length hproofTurns
    rwa [length_map, length_turnsTo] at hlength
  · rw [MerkleInclusionProof.turns, hproofTurns]
    exact locate_turnsTo hi (le_two_pow_height _)

theorem locate_of_third :
    ∃ proof, generateInclusionProof toyHash [digestOf 1, digestOf 2, digestOf 3] 2 = some proof ∧
      proof.steps.length = height 3 ∧ locate 3 proof.turns = proof.leafIndex := by
  obtain ⟨proof, h⟩ := isSome_iff_exists.1 (show (generateInclusionProof toyHash
    [digestOf 1, digestOf 2, digestOf 3] 2).isSome = true by decide +kernel)
  exact ⟨proof, h, locate_of_generate toyHash h⟩

/-! ## Proofs from anywhere -/

/-- What an accepted proof is made of. -/
theorem path_of_verify {proof : MerkleInclusionProof}
    (h : verifyInclusionProof sha256 proof = true) :
    ∃ leaf path, decodeDigest proof.leafHash = some leaf ∧
      hexEncode (climb (nodeHash sha256) leaf path).bytes = proof.rootHash ∧
      path.length = proof.steps.length ∧ Lib.turns path = proof.turns ∧
      proofInputs sha256 proof =
        (climbPairs (nodeHash sha256) leaf path).map fun p => combined p.1 p.2 := by
  unfold verifyInclusionProof at h
  unfold proofInputs
  split at h
  · next leaf hleaf =>
    rw [hleaf]
    split at h
    · next top htop =>
      obtain ⟨path, hpath, rfl, hinputs⟩ := verifySteps_eq_some sha256 htop
      refine ⟨leaf, path, rfl, beq_iff_eq.1 h, ?_, (turns_of_decode hpath).symm, hinputs⟩
      have hlength := congrArg length hpath
      rw [length_map, length_map] at hlength
      exact hlength.symm
    · simp at h
  · simp at h

/-- **Soundness.** A proof accepted for the root of the leaves starts from the leaf to which its
directions lead, if it has as many steps as the tree has layers above the leaves. With fewer it
starts from the node there; with more, one leaf is the hash of two nodes. Or else two different
strings that were hashed have the same hash. -/
theorem inclusion_sound (leaves : List Digest) (proof : MerkleInclusionProof)
    (hverify : verifyInclusionProof sha256 proof = true)
    (hroot : (merkleRoot sha256 leaves).map (fun root => hexEncode root.bytes) =
      some proof.rootHash) :
    Collision sha256 (rootInputs sha256 leaves ++ proofInputs sha256 proof) ∨
      (proof.steps.length = height leaves.length ∧
        locate leaves.length proof.turns < leaves.length ∧
        decodeDigest proof.leafHash = leaves[locate leaves.length proof.turns]?) ∨
      (proof.steps.length < height leaves.length ∧
        decodeDigest proof.leafHash = nodeAt (nodeHash sha256) leaves proof.turns ∧
        ∃ input ∈ rootInputs sha256 leaves, decodeDigest proof.leafHash = some (sha256 input)) ∨
      (height leaves.length < proof.steps.length ∧
        ∃ leaf ∈ leaves, ∃ input ∈ proofInputs sha256 proof, leaf = sha256 input) := by
  obtain ⟨root, htree, hhex⟩ := map_eq_some_iff.1 hroot
  obtain ⟨leaf, path, hleaf, htop, hlength, hturns, hinputs⟩ := path_of_verify sha256 hverify
  have htop : climb (nodeHash sha256) leaf path = root := hexEncode_injective (htop.trans hhex.symm)
  rw [merkleRoot_eq] at htree
  have hne : leaves ≠ [] := by
    rintro rfl
    simp [treeRoot, height, layer] at htree
  by_cases hcol : Collision sha256 (rootInputs sha256 leaves ++ proofInputs sha256 proof)
  · exact .inl hcol
  refine .inr ?_
  have hinj := injOn_of_not_collision hcol
  have htreeIn : ∀ p ∈ treePairs (nodeHash sha256) leaves,
      combined p.1 p.2 ∈ rootInputs sha256 leaves ++ proofInputs sha256 proof :=
    fun p hp => mem_append_left _ (mem_map_of_mem hp)
  have hpathIn : ∀ p ∈ climbPairs (nodeHash sha256) leaf path,
      combined p.1 p.2 ∈ rootInputs sha256 leaves ++ proofInputs sha256 proof :=
    fun p hp => mem_append_right _ (hinputs ▸ mem_map_of_mem hp)
  rw [← hlength, ← hturns]
  -- the verifier does not know the height, so the path may end above the leaves or below them
  rcases Nat.lt_trichotomy path.length (height leaves.length) with hshort | hfull | hlong
  · have hnode := nodeAt_of_climb hinj htreeIn hpathIn (le_of_lt hshort) (htop ▸ htree)
    obtain ⟨p, hp, hparent, -⟩ := exists_children (nodeHash sha256)
      (by rwa [Lib.turns, length_map] : (Lib.turns path).length < height leaves.length)
    refine .inr (.inl ⟨hshort, hleaf.trans hnode.symm, _, mem_map_of_mem hp, ?_⟩)
    exact hleaf.trans (hnode.symm.trans hparent)
  · have hnode := nodeAt_of_climb hinj htreeIn hpathIn (Nat.le_of_eq hfull) (htop ▸ htree)
    rw [nodeAt_of_length (nodeHash sha256) (by rwa [Lib.turns, length_map])] at hnode
    exact .inl ⟨hfull, locate_lt (length_pos_iff.2 hne) _, hleaf.trans hnode.symm⟩
  · obtain ⟨p, hp, hmem⟩ := exists_leaf_of_climb hinj htreeIn hpathIn hlong (htop ▸ htree)
    exact .inr (.inr ⟨hlong, _, hmem, _, hinputs ▸ mem_map_of_mem hp, rfl⟩)

/-- The leaf of the proof is where its index says. -/
def MerkleInclusionProof.Names (proof : MerkleInclusionProof) (leaves : List Digest) : Prop :=
  proof.leafIndex < leaves.length ∧ decodeDigest proof.leafHash = leaves[proof.leafIndex]?
deriving Decidable

/-- The proof is accepted without any collision, and names another leaf, or none. -/
def Forged (leaves : List Digest) (proof : MerkleInclusionProof) : Prop :=
  verifyInclusionProof sha256 proof = true ∧
    (merkleRoot sha256 leaves).map (fun root => hexEncode root.bytes) = some proof.rootHash ∧
    ¬ Collision sha256 (rootInputs sha256 leaves ++ proofInputs sha256 proof) ∧
    ¬ proof.Names leaves
deriving Decidable

/-- Over two leaves, the proof for the second passes as one for the first, and the root passes as a
leaf. Over one leaf that is the hash of two, either passes as that leaf. -/
theorem forged_proofs_accepted :
    let root := toyHash (combined (digestOf 1) (digestOf 2))
    let relabelled : MerkleInclusionProof := ⟨0, hexEncode (digestOf 2).bytes, hexEncode root.bytes,
      [⟨hexEncode (digestOf 1).bytes, .left⟩]⟩
    Forged toyHash [digestOf 1, digestOf 2] relabelled ∧
      Forged toyHash [digestOf 1, digestOf 2] ⟨0, hexEncode root.bytes, hexEncode root.bytes, []⟩ ∧
      Forged toyHash [root] relabelled := by
  decide +kernel

/-- The proof for the last of three leaves leads there. -/
theorem honest_proof_sound :
    let leaves := [digestOf 1, digestOf 2, digestOf 3]
    let proof := (generateInclusionProof toyHash leaves 2).getD ⟨0, "", "", []⟩
    locate leaves.length proof.turns = 2 ∧
      decodeDigest proof.leafHash = leaves[locate leaves.length proof.turns]? := by
  intro leaves proof
  refine ⟨by decide +kernel, ?_⟩
  rcases inclusion_sound toyHash leaves proof (by decide +kernel) (by decide +kernel) with
    hcol | ⟨-, -, hleaf⟩ | ⟨hshort, -⟩ | ⟨hlong, -⟩
  · exact absurd hcol (by decide +kernel)
  · exact hleaf
  · exact absurd hshort (by decide +kernel)
  · exact absurd hlong (by decide +kernel)

end Haltchain.Merkle
