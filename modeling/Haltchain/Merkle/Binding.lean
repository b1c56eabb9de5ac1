import Haltchain.Lib.Separated
import Haltchain.Lib.Utf8
import Haltchain.Merkle.Inclusion
import Haltchain.Signing.Ed25519
import Mathlib.Data.List.DropRight
import Mathlib.Data.List.Nodup

/-! # What the root of a day commits to

The accumulator collects the hashes of the decisions of a day; the root over them is published, with
their number. Odd layers duplicate a node, and leaves and nodes are hashed in the same way, so that
lists of different lengths may share a root. If no decision is repeated and all are longer than two
nodes, which a signature sees to, the root determines them. -/

namespace Haltchain.Merkle

open Lib List Option

/-- The fields of a decision that go into its leaf. -/
structure SignedDecision where
  transactionId : String
  timestamp : String
  decision : String
  signature : String
deriving DecidableEq

namespace SignedDecision

/-- The text the leaf is made from. -/
def text (d : SignedDecision) : String :=
  d.transactionId ++ "\x00" ++ d.timestamp ++ "\x00" ++ d.decision ++ "\x00" ++ d.signature

/-- What is hashed for the decision. -/
def leafData (d : SignedDecision) : List UInt8 := d.text.toUTF8.toList

theorem leafData_eq (d : SignedDecision) : d.leafData = Signing.bytesOf d.text := by
  rw [leafData, byteArray_toList]
  rfl

/-- The fields of a leaf. -/
def fields (d : SignedDecision) : List (List Char) :=
  [d.transactionId.toList, d.timestamp.toList, d.decision.toList, d.signature.toList]

/-- No field contains the separator. -/
def Plain (d : SignedDecision) : Prop := ∀ x ∈ d.fields, '\x00' ∉ x
deriving Decidable

/-- A decision without the separator in its fields is known from what is hashed. -/
theorem leafData_inj {d d' : SignedDecision} (hd : d.Plain) (h : d.leafData = d'.leafData) :
    d = d' := by
  have hjoin (d : SignedDecision) : d.text.toList = sepJoin '\x00' d.fields := by
    simp [text, fields, sepJoin]
  have htext : d.text = d'.text := by
    rw [leafData_eq, leafData_eq] at h
    exact Signing.bytesOf_injective h
  have hfields : d.fields = d'.fields := sepJoin_inj rfl hd (by rw [← hjoin, ← hjoin, htext])
  cases d
  cases d'
  simpa [fields, String.toList_inj] using hfields

theorem signature_lt_leafData (d : SignedDecision) :
    d.signature.utf8ByteSize < d.leafData.length := by
  have hlen : d.leafData.length = d.text.utf8ByteSize := by
    rw [leafData_eq]
    exact String.size_toByteArray
  have hsep : "\x00".utf8ByteSize = 1 := by decide
  simp only [hlen, text, String.utf8ByteSize_append]
  omega

end SignedDecision

section

variable (sha256 : List UInt8 → Digest)

/-- The hash of a decision. -/
def SignedDecision.leaf (d : SignedDecision) : Digest := sha256 d.leafData

/-! ## The accumulator -/

/-- The leaves of a day. -/
structure MerkleAccumulator where
  leaves : List Digest
  /-- The day of the year. -/
  day : Nat

structure MerkleStatus where
  rootHex : Option String
  leafCount : Nat
  dayOfYear : Nat

namespace MerkleAccumulator

/-- An empty day. -/
def new (today : Nat) : MerkleAccumulator := ⟨[], today⟩

/-- A decision, with the day of its push. The first of another day starts a new tree. -/
def push (acc : MerkleAccumulator) (e : Nat × SignedDecision) : MerkleAccumulator :=
  if acc.day ≠ e.1 then ⟨[e.2.leaf sha256], e.1⟩
  else { acc with leaves := acc.leaves ++ [e.2.leaf sha256] }

def status (acc : MerkleAccumulator) : MerkleStatus where
  rootHex := (merkleRoot sha256 acc.leaves).map fun root => hexEncode root.bytes
  leafCount := acc.leaves.length
  dayOfYear := acc.day

/-- The decisions of the last one's day, since the day before it. -/
def ofLastDay (es : List (Nat × SignedDecision)) : List SignedDecision :=
  match es.getLast? with
  | none => []
  | some e => (es.rtakeWhile fun e' => e'.1 = e.1).map Prod.snd

theorem ofLastDay_suffix (es : List (Nat × SignedDecision)) : ofLastDay es <:+ es.map Prod.snd := by
  unfold ofLastDay
  split
  · exact nil_suffix
  · exact (rtakeWhile_suffix _ es).map Prod.snd

theorem ofLastDay_concat (es : List (Nat × SignedDecision)) (e : Nat × SignedDecision) :
    ofLastDay (es ++ [e]) =
      (if ∀ e' ∈ es.getLast?, e'.1 = e.1 then ofLastDay es else []) ++ [e.2] := by
  have hconcat : ofLastDay (es ++ [e]) =
      (es.rtakeWhile fun e' => e'.1 = e.1).map Prod.snd ++ [e.2] := by
    simp [ofLastDay]
  rw [hconcat]
  cases es using reverseRecOn with
  | nil => rfl
  | append_singleton es e' =>
    by_cases hday : e'.1 = e.1
    · simp [ofLastDay, hday]
    · simp [hday]

theorem ofLastDay_eq_nil {es : List (Nat × SignedDecision)} (h : ofLastDay es = []) : es = [] := by
  cases es using reverseRecOn with
  | nil => rfl
  | append_singleton es e => simp [ofLastDay_concat] at h

/-- **The leaves are those of the decisions of the last day.** -/
theorem leaves_run_eq (today : Nat) (es : List (Nat × SignedDecision)) :
    (run (push sha256) (new today) es).leaves = (ofLastDay es).map (SignedDecision.leaf sha256) ∧
      ∀ e ∈ es.getLast?, (run (push sha256) (new today) es).day = e.1 := by
  induction es using reverseRecOn with
  | nil => exact ⟨rfl, fun _ h => absurd h (by simp)⟩
  | append_singleton es e ih =>
    obtain ⟨hleaves, hday⟩ := ih
    rw [run_concat, ofLastDay_concat, push]
    generalize run (push sha256) (new today) es = acc at hleaves hday
    by_cases hsame : acc.day = e.1
    · rw [if_neg (not_not.2 hsame), if_pos fun e' he' => (hday e' he').symm.trans hsame]
      exact ⟨by simp [hleaves], by simp [hsame]⟩
    have hnone : (if ∀ e' ∈ es.getLast?, e'.1 = e.1 then ofLastDay es else []) = [] := by
      split
      · next hall =>
        cases hlast : es.getLast? with
        | none => rw [ofLastDay, hlast]
        | some e' => exact absurd ((hday e' hlast).trans (hall e' hlast)) hsame
      · rfl
    rw [if_pos hsame, hnone]
    exact ⟨rfl, by simp⟩

/-- The leaves are those of the last decisions pushed. -/
theorem leaves_run (today : Nat) (es : List (Nat × SignedDecision)) : ∃ ds, ds <:+ es.map Prod.snd ∧
      (run (push sha256) (new today) es).leaves = ds.map (SignedDecision.leaf sha256) :=
  ⟨ofLastDay es, ofLastDay_suffix es, (leaves_run_eq sha256 today es).1⟩

end MerkleAccumulator

/-! ## Binding -/

def leavesOf (ds : List SignedDecision) : List Digest := ds.map (SignedDecision.leaf sha256)

/-- What is hashed for the decisions and the root over them. -/
def decisionInputs (ds : List SignedDecision) : List (List UInt8) :=
  ds.map SignedDecision.leafData ++ rootInputs sha256 (leavesOf sha256 ds)

theorem merkleRoot_isSome_iff (leaves : List Digest) :
    (merkleRoot sha256 leaves).isSome ↔ 0 < leaves.length := by
  rw [merkleRoot_eq, treeRoot]
  cases leaves with
  | nil => simp [height_of_le_one, layer]
  | cons a rest =>
    have hpos : 0 < (a :: rest).length := Nat.succ_pos _
    simpa using length_layer_pos (nodeHash sha256) _ hpos

variable {sha256} {inputs : List (List UInt8)} {ds₁ ds₂ : List SignedDecision}

theorem leafData_mem (h : decisionInputs sha256 ds₁ ⊆ inputs) {d : SignedDecision} (hd : d ∈ ds₁) :
    d.leafData ∈ inputs :=
  h (mem_append_left _ (mem_map_of_mem hd))

theorem combined_mem (h : decisionInputs sha256 ds₁ ⊆ inputs) {p : Digest × Digest}
    (hp : p ∈ treePairs (nodeHash sha256) (leavesOf sha256 ds₁)) : combined p.1 p.2 ∈ inputs :=
  h (mem_append_right _ (mem_map_of_mem hp))

/-- Two lists with one root, without a collision among what was hashed. -/
structure SameRoot (sha256 : List UInt8 → Digest) (inputs : List (List UInt8))
    (ds₁ ds₂ : List SignedDecision) : Prop where
  free : ¬ Collision sha256 inputs
  left : decisionInputs sha256 ds₁ ⊆ inputs
  right : decisionInputs sha256 ds₂ ⊆ inputs
  root : merkleRoot sha256 (leavesOf sha256 ds₁) = merkleRoot sha256 (leavesOf sha256 ds₂)

section

variable (h : SameRoot sha256 inputs ds₁ ds₂)

include h

theorem SameRoot.symm : SameRoot sha256 inputs ds₂ ds₁ :=
  ⟨h.free, h.right, h.left, h.root.symm⟩

/-- Below one root the nodes are the same, as deep as both trees go. -/
theorem SameRoot.nodeAt_eq {turns : List Bool}
    (h₁ : turns.length ≤ height (leavesOf sha256 ds₁).length)
    (h₂ : turns.length ≤ height (leavesOf sha256 ds₂).length) :
    nodeAt (nodeHash sha256) (leavesOf sha256 ds₁) turns =
      nodeAt (nodeHash sha256) (leavesOf sha256 ds₂) turns := by
  have hroot := h.root
  rw [merkleRoot_eq, merkleRoot_eq] at hroot
  exact nodeAt_of_treeRoot (injOn_of_not_collision h.free) (fun _ => combined_mem h.left)
    (fun _ => combined_mem h.right) hroot h₁ h₂

/-- A decision of the lower tree is a pair of nodes of the other. -/
theorem exists_decision_of_lower
    (hlt : height (leavesOf sha256 ds₁).length < height (leavesOf sha256 ds₂).length) :
    ∃ d ∈ ds₁, d.leafData ∈ rootInputs sha256 (leavesOf sha256 ds₂) := by
  -- any way down will do
  obtain ⟨turns, hturns⟩ : ∃ turns : List Bool,
      turns.length = height (leavesOf sha256 ds₁).length :=
    ⟨replicate _ false, length_replicate⟩
  have hlower : turns.length < height (leavesOf sha256 ds₂).length := by rwa [hturns]
  have hagree := h.nodeAt_eq (Nat.le_of_eq hturns) (le_of_lt hlower)
  obtain ⟨p, hp, hnode, -⟩ := exists_children (nodeHash sha256) hlower
  rw [hnode, nodeAt_of_length (nodeHash sha256) hturns] at hagree
  obtain ⟨d, hd, hleaf⟩ := mem_map.1 (mem_of_getElem? hagree)
  have hdata : d.leafData = combined p.1 p.2 :=
    eq_of_sha256_eq h.free (leafData_mem h.left hd) (combined_mem h.right hp) hleaf
  exact ⟨d, hd, hdata ▸ mem_map_of_mem hp⟩

/-- Trees of one height have the same leaves in the same places. -/
theorem getElem?_of_height_eq
    (heq : height (leavesOf sha256 ds₁).length = height (leavesOf sha256 ds₂).length)
    {turns : List Bool} (hturns : turns.length = height (leavesOf sha256 ds₁).length) :
    (leavesOf sha256 ds₁)[locate (leavesOf sha256 ds₁).length turns]? =
      (leavesOf sha256 ds₂)[locate (leavesOf sha256 ds₂).length turns]? := by
  rw [← nodeAt_of_length (nodeHash sha256) hturns,
    ← nodeAt_of_length (nodeHash sha256) (hturns.trans heq)]
  exact h.nodeAt_eq (Nat.le_of_eq hturns) (Nat.le_of_eq (hturns.trans heq))

end

/-- Lists of one length with the same leaves in place are equal. -/
theorem eq_of_places {l₁ l₂ : List Digest} (hlen : l₁.length = l₂.length)
    (h : ∀ turns : List Bool, turns.length = height l₁.length →
      l₁[locate l₁.length turns]? = l₂[locate l₂.length turns]?) : l₁ = l₂ := by
  refine ext_getElem? fun i => ?_
  by_cases hi : i < l₁.length
  · have hplace := h _ (length_turnsTo (height l₁.length) i)
    rwa [← hlen, locate_turnsTo hi (le_two_pow_height _)] at hplace
  · rw [getElem?_eq_none (not_lt.1 hi), getElem?_eq_none (by omega)]

section

variable (h : SameRoot sha256 inputs ds₁ ds₂)

include h

/-- Without a collision, the same leaves are those of the same strings. -/
theorem leafData_of_leaves (heq : leavesOf sha256 ds₁ = leavesOf sha256 ds₂) :
    ds₁.map SignedDecision.leafData = ds₂.map SignedDecision.leafData := by
  have hlen : ds₁.length = ds₂.length := by simpa [leavesOf] using congrArg length heq
  refine ext_getElem (by simpa using hlen) fun i hi₁ hi₂ => ?_
  rw [length_map] at hi₁ hi₂
  rw [getElem_map, getElem_map]
  refine eq_of_sha256_eq h.free (leafData_mem h.left (getElem_mem hi₁))
    (leafData_mem h.right (getElem_mem hi₂)) ?_
  have hleaf := congrArg (fun l => l[i]?) heq
  simpa [leavesOf, SignedDecision.leaf, hi₁, hi₂] using hleaf

/-- The root over a known number of decisions determines them. -/
theorem eq_of_root_of_length (hlen : ds₁.length = ds₂.length) :
    leavesOf sha256 ds₁ = leavesOf sha256 ds₂ ∧
      ds₁.map SignedDecision.leafData = ds₂.map SignedDecision.leafData := by
  have hleaves : (leavesOf sha256 ds₁).length = (leavesOf sha256 ds₂).length := by
    rw [leavesOf, leavesOf, length_map, length_map, hlen]
  have heq := eq_of_places hleaves fun _ hturns =>
    getElem?_of_height_eq h (congrArg height hleaves) hturns
  exact ⟨heq, leafData_of_leaves h heq⟩

/-- What is hashed for a node is two digests long. -/
theorem not_lower_of_long (hlong : ∀ d ∈ ds₁, 64 < d.leafData.length) :
    ¬ height (leavesOf sha256 ds₁).length < height (leavesOf sha256 ds₂).length := by
  intro hlt
  obtain ⟨d, hd, hmem⟩ := exists_decision_of_lower h hlt
  obtain ⟨p, -, hp⟩ := mem_map.1 hmem
  have hlen : (combined p.1 p.2).length = 64 := by
    rw [combined, length_append, p.1.length_bytes, p.2.length_bytes]
  have := hlong d hd
  rw [← hp, hlen] at this
  exact lt_irrefl _ this

end

/-- A list without repetitions is no longer than another with its leaves in place. -/
theorem length_le_of_places {l₁ l₂ : List Digest} (hpos : 0 < l₁.length)
    (heq : height l₁.length = height l₂.length) (hnodup : l₂.Nodup)
    (h : ∀ turns : List Bool, turns.length = height l₁.length →
      l₁[locate l₁.length turns]? = l₂[locate l₂.length turns]?) : l₂.length ≤ l₁.length := by
  by_contra hlonger
  have hlt : l₁.length < l₂.length := not_le.1 hlonger
  -- what is in the first place beyond `l₁` is also in one of its places
  have hplace (i : Nat) := h _ (length_turnsTo (height l₁.length) i)
  have hbeyond := hplace l₁.length
  have hj := locate_lt hpos (turnsTo (height l₁.length) l₁.length)
  obtain ⟨j, hjdef⟩ : ∃ j, j = locate l₁.length (turnsTo (height l₁.length) l₁.length) := ⟨_, rfl⟩
  rw [← hjdef] at hbeyond hj
  have hthere := hplace j
  rw [locate_turnsTo hj (le_two_pow_height _), heq, locate_turnsTo (lt_trans hj hlt)
    (le_two_pow_height _)] at hthere
  rw [heq, locate_turnsTo hlt (le_two_pow_height _), hthere] at hbeyond
  exact ne_of_lt hj ((getElem?_inj (lt_trans hj hlt) hnodup).1 hbeyond)

/-- Decisions that can be told from each other and from nodes. -/
structure Separate (ds : List SignedDecision) : Prop where
  nodup : ds.Nodup
  plain : ∀ d ∈ ds, d.Plain
  long : ∀ d ∈ ds, 64 < d.leafData.length

theorem Separate.nodup_leaves (hds : Separate ds₁) (hcol : ¬ Collision sha256 inputs)
    (h : decisionInputs sha256 ds₁ ⊆ inputs) : (leavesOf sha256 ds₁).Nodup :=
  List.Nodup.map_on (fun d hd _ hd' hleaf => SignedDecision.leafData_inj (hds.plain d hd)
    (eq_of_sha256_eq hcol (leafData_mem h hd) (leafData_mem h hd') hleaf)) hds.nodup

/-- **Decisions that can be told apart are determined by the root.** -/
theorem eq_of_root_of_separate (h : SameRoot sha256 inputs ds₁ ds₂)
    (hds₁ : Separate ds₁) (hds₂ : Separate ds₂) : ds₁ = ds₂ := by
  have hheight : height (leavesOf sha256 ds₁).length = height (leavesOf sha256 ds₂).length :=
    le_antisymm (not_lt.1 (not_lower_of_long h.symm hds₂.long))
      (not_lt.1 (not_lower_of_long h hds₁.long))
  have hplaces₁ : ∀ turns : List Bool, turns.length = height (leavesOf sha256 ds₁).length → _ :=
    fun _ hturns => getElem?_of_height_eq h hheight hturns
  have hplaces₂ : ∀ turns : List Bool, turns.length = height (leavesOf sha256 ds₂).length → _ :=
    fun _ hturns => getElem?_of_height_eq h.symm hheight.symm hturns
  have hlen : (leavesOf sha256 ds₁).length = (leavesOf sha256 ds₂).length := by
    have hiff : 0 < (leavesOf sha256 ds₁).length ↔ 0 < (leavesOf sha256 ds₂).length := by
      rw [← merkleRoot_isSome_iff sha256, ← merkleRoot_isSome_iff sha256, h.root]
    rcases Nat.eq_zero_or_pos (leavesOf sha256 ds₁).length with hzero | hpos
    · omega
    · exact le_antisymm
        (length_le_of_places (hiff.1 hpos) hheight.symm (hds₁.nodup_leaves h.free h.left) hplaces₂)
        (length_le_of_places hpos hheight (hds₂.nodup_leaves h.free h.right) hplaces₁)
  have hdata := leafData_of_leaves h (eq_of_places hlen hplaces₁)
  refine ext_getElem (by simpa using congrArg length hdata) fun i hi₁ hi₂ => ?_
  have hi := congrArg (fun l => l[i]?) hdata
  simp only [getElem?_map, getElem?_eq_getElem hi₁, getElem?_eq_getElem hi₂,
    map_some, some.injEq] at hi
  exact SignedDecision.leafData_inj (hds₁.plain _ (getElem_mem hi₁)) hi

variable (sha256) (ds₁ ds₂)

/-- **Binding.** Two lists of decisions with the same root have, unless two different strings that
were hashed have the same hash, the same leaves in the same places, and are the same if of the same
length; or one tree is higher, and a decision of the other list is a string hashed for one of its
nodes. -/
theorem root_binding
    (hroot : merkleRoot sha256 (leavesOf sha256 ds₁) = merkleRoot sha256 (leavesOf sha256 ds₂)) :
    let l₁ := leavesOf sha256 ds₁
    let l₂ := leavesOf sha256 ds₂
    Collision sha256 (decisionInputs sha256 ds₁ ++ decisionInputs sha256 ds₂) ∨
      (height l₁.length = height l₂.length ∧
        (∀ turns : List Bool, turns.length = height l₁.length →
          l₁[locate l₁.length turns]? = l₂[locate l₂.length turns]?) ∧
        (ds₁.length = ds₂.length → l₁ = l₂ ∧
          ds₁.map SignedDecision.leafData = ds₂.map SignedDecision.leafData)) ∨
      (height l₁.length < height l₂.length ∧ ∃ d ∈ ds₁, d.leafData ∈ rootInputs sha256 l₂) ∨
      (height l₂.length < height l₁.length ∧ ∃ d ∈ ds₂, d.leafData ∈ rootInputs sha256 l₁) := by
  intro l₁ l₂
  by_cases hcol : Collision sha256 (decisionInputs sha256 ds₁ ++ decisionInputs sha256 ds₂)
  · exact .inl hcol
  have h : SameRoot sha256 _ ds₁ ds₂ :=
    ⟨hcol, subset_append_left _ _, subset_append_right _ _, hroot⟩
  rcases Nat.lt_trichotomy (height l₁.length) (height l₂.length) with hlt | heq | hgt
  · exact .inr (.inr (.inl ⟨hlt, exists_decision_of_lower h hlt⟩))
  · exact .inr (.inl ⟨heq, fun _ => getElem?_of_height_eq h heq, eq_of_root_of_length h⟩)
  · exact .inr (.inr (.inr ⟨hgt, exists_decision_of_lower h.symm hgt⟩))

/-- The same root over different leaves, without a collision. -/
def Ambiguous : Prop :=
  merkleRoot sha256 (leavesOf sha256 ds₁) = merkleRoot sha256 (leavesOf sha256 ds₂) ∧
    ¬ Collision sha256 (decisionInputs sha256 ds₁ ++ decisionInputs sha256 ds₂) ∧
    leavesOf sha256 ds₁ ≠ leavesOf sha256 ds₂
deriving Decidable

end

/-- A decision with this transaction and signature. -/
def decisionOf (transactionId signature : String) : SignedDecision :=
  ⟨transactionId, "", "", signature⟩

/-- Pushing the last of three decisions again keeps the root; and a single decision has the root of
two, if its text is that of their leaves. -/
theorem root_shared : Ambiguous toyHash [decisionOf "1" "", decisionOf "2" "", decisionOf "3" ""]
        [decisionOf "1" "", decisionOf "2" "", decisionOf "3" "", decisionOf "3" ""] ∧
      Ambiguous toyHash
        [decisionOf "1" (String.ofList (replicate 28 '\x00' ++ '2' :: replicate 31 '\x00'))]
        [decisionOf "1" "", decisionOf "2" ""] := by
  decide +kernel

/-- Three decisions and the same with the last one twice. -/
theorem root_binding_three :
    let l₁ := leavesOf toyHash [decisionOf "1" "", decisionOf "2" "", decisionOf "3" ""]
    let l₂ := leavesOf toyHash
      [decisionOf "1" "", decisionOf "2" "", decisionOf "3" "", decisionOf "3" ""]
    locate l₁.length [true, true] = 2 ∧ locate l₂.length [true, true] = 3 ∧
      l₁[locate l₁.length [true, true]]? = l₂[locate l₂.length [true, true]]? := by
  intro l₁ l₂
  refine ⟨by decide +kernel, by decide +kernel, ?_⟩
  rcases root_binding toyHash [decisionOf "1" "", decisionOf "2" "", decisionOf "3" ""]
      [decisionOf "1" "", decisionOf "2" "", decisionOf "3" "", decisionOf "3" ""]
      (by decide +kernel) with hcol | ⟨-, hplaces, -⟩ | ⟨hlt, -⟩ | ⟨hgt, -⟩
  · exact absurd hcol (by decide +kernel)
  · exact hplaces [true, true] (by decide +kernel)
  · exact absurd hlt (by decide +kernel)
  · exact absurd hgt (by decide +kernel)

/-! ## What is published -/

/-- **The status commits to the decisions of the day.** It has their number beside the root, so
two accumulators with the same status took the same strings, in order, since their trees were
started. -/
theorem MerkleAccumulator.leafData_of_status (sha256 : List UInt8 → Digest) (today₁ today₂ : Nat)
    (es₁ es₂ : List (Nat × SignedDecision))
    (h : status sha256 (run (push sha256) (new today₁) es₁) =
      status sha256 (run (push sha256) (new today₂) es₂)) :
    ∃ ds₁ ds₂, ds₁ <:+ es₁.map Prod.snd ∧ ds₂ <:+ es₂.map Prod.snd ∧
      (run (push sha256) (new today₁) es₁).leaves = leavesOf sha256 ds₁ ∧
      (run (push sha256) (new today₂) es₂).leaves = leavesOf sha256 ds₂ ∧
      (Collision sha256 (decisionInputs sha256 ds₁ ++ decisionInputs sha256 ds₂) ∨
        ds₁.map SignedDecision.leafData = ds₂.map SignedDecision.leafData) := by
  obtain ⟨ds₁, hsuffix₁, hleaves₁⟩ := leaves_run sha256 today₁ es₁
  obtain ⟨ds₂, hsuffix₂, hleaves₂⟩ := leaves_run sha256 today₂ es₂
  refine ⟨ds₁, ds₂, hsuffix₁, hsuffix₂, hleaves₁, hleaves₂, ?_⟩
  by_cases hcol : Collision sha256 (decisionInputs sha256 ds₁ ++ decisionInputs sha256 ds₂)
  · exact .inl hcol
  have hhex := congrArg MerkleStatus.rootHex h
  have hcount := congrArg MerkleStatus.leafCount h
  simp only [status, hleaves₁, hleaves₂] at hhex hcount
  have hroot := map_injective (fun _ _ => hexEncode_injective) hhex
  exact .inr (eq_of_root_of_length ⟨hcol, subset_append_left _ _,
    subset_append_right _ _, hroot⟩ (by simpa using hcount)).2

theorem started_on_other_day :
    ∃ ds, ds <:+ [decisionOf "2" "", decisionOf "1" ""] ∧
      (run (MerkleAccumulator.push toyHash) (.new 3)
        [(3, decisionOf "2" ""), (5, decisionOf "1" "")]).leaves = leavesOf toyHash ds := by
  obtain ⟨-, ds, -, hsuffix, -, hleaves, -⟩ :=
    MerkleAccumulator.leafData_of_status toyHash 4 3 [(5, decisionOf "1" "")]
      [(3, decisionOf "2" ""), (5, decisionOf "1" "")] rfl
  exact ⟨ds, hsuffix, hleaves⟩

end Haltchain.Merkle
