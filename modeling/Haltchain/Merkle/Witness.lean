import Haltchain.Lib.Base64
import Haltchain.Lib.Run
import Haltchain.Signing.Ed25519
import Mathlib.Data.Finset.Card
import Mathlib.Data.List.AList

/-! # Witnesses of a root

`DistributedMerkleVerifier`: a root is verified if enough of the registered witnesses have signed
it. The loop notes a witness as seen before it has looked at the signature, so the first attestation
with its name decides. -/

namespace Haltchain.Merkle

open Lib Signing List

structure RootAttestation where
  witnessId : String
  signatureB64 : String

structure WitnessVerification where
  witnessId : String
  verified : Bool
  reason : Option String

/-- What the verification came to. -/
structure DistributedVerificationStatus where
  verified : Bool
  threshold : Nat
  validAttestations : Nat
  results : List WitnessVerification

/-- The registered witnesses. -/
structure DistributedMerkleVerifier (κ : Type) where
  witnesses : AList fun _ : String => κ
  threshold : Nat

variable {κ : Type}

/-- What the witnesses sign. -/
def rootMessage (rootHex : String) (dayOfYear : Nat) : List UInt8 :=
  bytesOf s!"{rootHex}:{dayOfYear}"

namespace DistributedMerkleVerifier

variable (ed : Ed25519 κ) (v : DistributedMerkleVerifier κ) (message : List UInt8)

/-- Why the attestation is not valid, if it is not. -/
def objection (a : RootAttestation) : Option String :=
  match v.witnesses.lookup a.witnessId with
  | none => some "unknown witness"
  | some key =>
    match Base64.decode a.signatureB64 with
    | none => some "invalid base64 signature"
    | some sigBytes =>
      match Signature.fromSlice sigBytes with
      | none => some "invalid signature bytes"
      | some sig => if ed.verify key message sig then none else some "signature mismatch"

/-- The variables of the loop. -/
structure Tally where
  validAttestations : Nat
  results : List WitnessVerification
  seenWitnesses : List String

/-- Nothing is counted. -/
def Tally.start : Tally := ⟨0, [], []⟩

/-- One attestation. -/
def attest (t : Tally) (a : RootAttestation) : Tally :=
  if a.witnessId ∈ t.seenWitnesses then
    { t with
      results := t.results ++ [⟨a.witnessId, false, some "duplicate witness attestation"⟩] }
  else
    -- seen from here on, whatever the signature is worth
    let t := { t with seenWitnesses := a.witnessId :: t.seenWitnesses }
    match v.objection ed message a with
    | some reason => { t with results := t.results ++ [⟨a.witnessId, false, some reason⟩] }
    | none =>
      { t with
        validAttestations := t.validAttestations + 1
        results := t.results ++ [⟨a.witnessId, true, none⟩] }

def verify (rootHex : String) (dayOfYear : Nat) (attestations : List RootAttestation) :
    DistributedVerificationStatus :=
  let t := run (v.attest ed (rootMessage rootHex dayOfYear)) .start attestations
  { verified := v.threshold ≤ t.validAttestations
    threshold := v.threshold
    validAttestations := t.validAttestations
    results := t.results }

/-! ## Which witnesses are counted -/

/-- The registered witnesses with a valid attestation in the list. -/
def validWitnesses (attestations : List RootAttestation) : Finset String :=
  ((attestations.filter fun a => v.objection ed message a = none).map (·.witnessId)).toFinset

/-- The first attestation with the name of `w`. -/
def firstOf (w : String) (attestations : List RootAttestation) : Option RootAttestation :=
  attestations.find? (·.witnessId == w)

/-- The witnesses whose first attestation is valid. -/
def countedWitnesses (attestations : List RootAttestation) : Finset String :=
  ((attestations.map (·.witnessId)).toFinset).filter fun w =>
    (firstOf w attestations).any fun a => v.objection ed message a = none

/-- Every witness with a valid attestation has a valid one in front. -/
def FirstCounts (attestations : List RootAttestation) : Prop :=
  ∀ a ∈ attestations, v.objection ed message a = none →
    a.witnessId ∈ v.countedWitnesses ed message attestations
deriving Decidable

variable {ed v message} {attestations : List RootAttestation}

theorem mem_of_firstOf {w : String} {a : RootAttestation} (h : firstOf w attestations = some a) :
    a ∈ attestations ∧ a.witnessId = w :=
  ⟨mem_of_find?_eq_some h, by simpa using find?_some h⟩

theorem firstOf_eq_none {w : String} :
    firstOf w attestations = none ↔ w ∉ attestations.map (·.witnessId) := by
  simp [firstOf]

theorem mem_validWitnesses {w : String} : w ∈ v.validWitnesses ed message attestations ↔
      ∃ a ∈ attestations, v.objection ed message a = none ∧ a.witnessId = w := by
  simp [validWitnesses, and_assoc]

theorem mem_countedWitnesses {w : String} : w ∈ v.countedWitnesses ed message attestations ↔
      ∃ a, firstOf w attestations = some a ∧ v.objection ed message a = none := by
  rw [countedWitnesses, Finset.mem_filter, mem_toFinset]
  constructor
  · rintro ⟨-, h⟩
    obtain ⟨a, hfirst, ha⟩ := (Option.any_eq_true _ _).1 h
    exact ⟨a, hfirst, of_decide_eq_true ha⟩
  · rintro ⟨a, hfirst, ha⟩
    obtain ⟨hmem, rfl⟩ := mem_of_firstOf hfirst
    exact ⟨mem_map_of_mem hmem, by simp [hfirst, ha]⟩

theorem firstOf_concat (w : String) (a : RootAttestation) : firstOf w (attestations ++ [a]) =
      (firstOf w attestations).or (if a.witnessId = w then some a else none) := by
  simp [firstOf]

/-- A witness already seen is not counted again, nor does it fall out. -/
theorem countedWitnesses_concat_of_seen {a : RootAttestation}
    (hseen : a.witnessId ∈ attestations.map (·.witnessId)) :
    v.countedWitnesses ed message (attestations ++ [a]) =
      v.countedWitnesses ed message attestations := by
  ext w
  rw [mem_countedWitnesses, mem_countedWitnesses, firstOf_concat]
  cases hfirst : firstOf w attestations with
  | some b => simp
  | none =>
    have hne : a.witnessId ≠ w := fun h => firstOf_eq_none.1 hfirst (h ▸ hseen)
    simp [hne]

theorem countedWitnesses_concat_of_not_seen {a : RootAttestation}
    (hseen : a.witnessId ∉ attestations.map (·.witnessId)) :
    v.countedWitnesses ed message (attestations ++ [a]) =
      if v.objection ed message a = none then
        insert a.witnessId (v.countedWitnesses ed message attestations)
      else v.countedWitnesses ed message attestations := by
  have hmem : ∀ w, w ∈ v.countedWitnesses ed message (attestations ++ [a]) ↔
      w ∈ v.countedWitnesses ed message attestations ∨
        a.witnessId = w ∧ v.objection ed message a = none := by
    intro w
    rw [mem_countedWitnesses, mem_countedWitnesses, firstOf_concat]
    by_cases hw : a.witnessId = w
    · rw [firstOf_eq_none.2 (hw ▸ hseen)]
      simp
    · simp [hw]
  ext w
  rw [hmem]
  split
  · rename_i ha
    rw [Finset.mem_insert]
    tauto
  · rename_i ha
    simp [ha]

/-- **The loop counts the witnesses whose first attestation is valid.** -/
theorem run_attest (attestations : List RootAttestation) :
    let t := run (v.attest ed message) .start attestations
    (∀ w, w ∈ t.seenWitnesses ↔ w ∈ attestations.map (·.witnessId)) ∧
    t.validAttestations = (v.countedWitnesses ed message attestations).card := by
  induction attestations using reverseRecOn with
  | nil => exact ⟨fun w => .rfl, rfl⟩
  | append_singleton attestations a ih =>
    obtain ⟨hseen, hvalid⟩ := ih
    rw [run_concat]
    obtain ⟨t, ht⟩ : ∃ t, t = run (v.attest ed message) .start attestations := ⟨_, rfl⟩
    rw [← ht] at hseen hvalid ⊢
    by_cases hdup : a.witnessId ∈ t.seenWitnesses
    · rw [attest, if_pos hdup, countedWitnesses_concat_of_seen ((hseen _).1 hdup)]
      refine ⟨fun w => ?_, hvalid⟩
      rw [hseen w, map_append, mem_append]
      refine ⟨Or.inl, fun h => h.elim id fun h => ?_⟩
      rw [mem_singleton.1 h]
      exact (hseen _).1 hdup
    · have hnew := mt (hseen _).2 hdup
      rw [attest, if_neg hdup, countedWitnesses_concat_of_not_seen hnew]
      have hcons : ∀ w, w ∈ a.witnessId :: t.seenWitnesses ↔
          w ∈ (attestations ++ [a]).map (·.witnessId) := by
        intro w
        simp [hseen w, or_comm]
      cases hobj : v.objection ed message a with
      | some reason => exact ⟨hcons, hvalid⟩
      | none =>
        refine ⟨hcons, ?_⟩
        rw [if_pos rfl, Finset.card_insert_of_notMem, ← hvalid]
        intro hcounted
        obtain ⟨b, hb, -⟩ := mem_countedWitnesses.1 hcounted
        obtain ⟨hbmem, hbid⟩ := mem_of_firstOf hb
        exact hnew (hbid ▸ mem_map_of_mem hbmem)

theorem countedWitnesses_subset :
    v.countedWitnesses ed message attestations ⊆ v.validWitnesses ed message attestations := by
  intro w hw
  obtain ⟨a, hfirst, ha⟩ := mem_countedWitnesses.1 hw
  obtain ⟨hmem, hid⟩ := mem_of_firstOf hfirst
  exact mem_validWitnesses.2 ⟨a, hmem, ha, hid⟩

theorem firstCounts_iff : v.FirstCounts ed message attestations ↔
      v.countedWitnesses ed message attestations = v.validWitnesses ed message attestations := by
  constructor
  · intro h
    refine countedWitnesses_subset.antisymm fun w hw => ?_
    obtain ⟨a, hmem, ha, rfl⟩ := mem_validWitnesses.1 hw
    exact h a hmem ha
  · intro h a hmem ha
    rw [h]
    exact mem_validWitnesses.2 ⟨a, hmem, ha, rfl⟩

theorem validWitnesses_mono {attestations' : List RootAttestation}
    (h : attestations ⊆ attestations') :
    v.validWitnesses ed message attestations ⊆ v.validWitnesses ed message attestations' := by
  intro w hw
  obtain ⟨a, hmem, ha⟩ := mem_validWitnesses.1 hw
  exact mem_validWitnesses.2 ⟨a, h hmem, ha⟩

theorem validAttestations_verify (rootHex : String) (dayOfYear : Nat) :
    (v.verify ed rootHex dayOfYear attestations).validAttestations =
      (v.countedWitnesses ed (rootMessage rootHex dayOfYear) attestations).card :=
  (run_attest attestations).2

theorem verified_verify (rootHex : String) (dayOfYear : Nat) :
    (v.verify ed rootHex dayOfYear attestations).verified = true ↔
      v.threshold ≤ (v.verify ed rootHex dayOfYear attestations).validAttestations :=
  decide_eq_true_iff

variable (ed v attestations) in
/-- **Witnesses are counted exactly if no attestation that does not hold is in front of one that
does.** Among such lists the order does not matter, and an extension stays verified. -/
theorem verify_counts_witnesses_iff (rootHex : String) (dayOfYear : Nat) :
    let message := rootMessage rootHex dayOfYear
    let verify := v.verify ed rootHex dayOfYear
    ((verify attestations).validAttestations = (v.validWitnesses ed message attestations).card ↔
      v.FirstCounts ed message attestations) ∧
    (∀ attestations', attestations.Perm attestations' →
      v.FirstCounts ed message attestations → v.FirstCounts ed message attestations' →
      (verify attestations').validAttestations = (verify attestations).validAttestations ∧
      (verify attestations').verified = (verify attestations).verified) ∧
    ∀ attestations', attestations ⊆ attestations' → v.FirstCounts ed message attestations' →
      (verify attestations).verified = true → (verify attestations').verified = true := by
  intro message verify
  refine ⟨?_, ?_, ?_⟩
  · rw [validAttestations_verify, firstCounts_iff]
    exact ⟨fun h => Finset.eq_of_subset_of_card_le countedWitnesses_subset h.ge,
      fun h => congrArg Finset.card h⟩
  · intro attestations' hperm hfirst hfirst'
    have hvalid : (verify attestations').validAttestations =
        (verify attestations).validAttestations := by
      rw [validAttestations_verify, validAttestations_verify, firstCounts_iff.1 hfirst,
        firstCounts_iff.1 hfirst']
      exact congrArg Finset.card ((validWitnesses_mono hperm.symm.subset).antisymm
        (validWitnesses_mono hperm.subset))
    refine ⟨hvalid, Bool.eq_iff_iff.2 ?_⟩
    rw [verified_verify, verified_verify, hvalid]
  · intro attestations' hsub hfirst' hverified
    rw [verified_verify, validAttestations_verify] at hverified ⊢
    calc v.threshold ≤ (v.countedWitnesses ed message attestations).card := hverified
      _ ≤ (v.validWitnesses ed message attestations).card :=
          Finset.card_le_card countedWitnesses_subset
      _ ≤ (v.validWitnesses ed message attestations').card :=
          Finset.card_le_card (validWitnesses_mono hsub)
      _ = (v.countedWitnesses ed message attestations').card := by rw [firstCounts_iff.1 hfirst']

/-- A scheme for examples: a key is a byte, and fills its signatures. -/
def byteScheme : Ed25519 UInt8 where
  fromBytes bytes := bytes.head?
  verify key _ sig := sig.bytes = replicate 64 key

def byteAttestation (witnessId : String) (key : UInt8) : RootAttestation :=
  ⟨witnessId, Base64.encode (replicate 64 key)⟩

/-- Anyone can write this one. -/
def emptyAttestation (witnessId : String) : RootAttestation := ⟨witnessId, ""⟩

def twoWitnesses : DistributedMerkleVerifier UInt8 where
  witnesses := (AList.singleton "w1" 1).insert "w2" 2
  threshold := 2

theorem verified_after_late_forgery :
    let attestations := [byteAttestation "w1" 1, byteAttestation "w2" 2]
    let extended := attestations ++ [emptyAttestation "w1"]
    (twoWitnesses.verify byteScheme "ab" 7 attestations).verified = true ∧
    (twoWitnesses.verify byteScheme "ab" 7 extended).verified = true ∧
    (twoWitnesses.verify byteScheme "ab" 7 attestations.reverse).validAttestations =
      (twoWitnesses.verify byteScheme "ab" 7 attestations).validAttestations := by
  have h := verify_counts_witnesses_iff byteScheme twoWitnesses
    [byteAttestation "w1" 1, byteAttestation "w2" 2] "ab" 7
  have hverified : (twoWitnesses.verify byteScheme "ab" 7
      [byteAttestation "w1" 1, byteAttestation "w2" 2]).verified = true := by decide +kernel
  refine ⟨hverified, h.2.2 _ (by simp) (by decide +kernel) hverified, ?_⟩
  exact (h.2.1 _ (reverse_perm _).symm (by decide +kernel) (by decide +kernel)).1

/-- An attestation without a signature in front of the valid one takes the witness out of the count,
and nothing is verified any more. -/
theorem forgery_in_front_removes_witness :
    let attestations := [byteAttestation "w1" 1, byteAttestation "w2" 2]
    let extended := emptyAttestation "w1" :: attestations
    (twoWitnesses.validWitnesses byteScheme (rootMessage "ab" 7) extended).card = 2 ∧
    (twoWitnesses.verify byteScheme "ab" 7 extended).validAttestations = 1 ∧
    (twoWitnesses.verify byteScheme "ab" 7 attestations).verified = true ∧
    (twoWitnesses.verify byteScheme "ab" 7 extended).verified = false ∧
    (twoWitnesses.verify byteScheme "ab" 7 extended.reverse).verified = true := by
  decide +kernel

end DistributedMerkleVerifier

end Haltchain.Merkle
