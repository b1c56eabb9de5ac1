import Haltchain.Merkle.Binding
import Haltchain.Signing.Service
import Haltchain.Validator.System

/-! # Signed decisions

`validate`: the response of `validate_inner` is signed and becomes a leaf of the tree of the day
(`finalize_response`): the transaction id and the timestamp that the call drew, the decision, and
the signature, which is over these and the agent, a nonce and the time. -/

namespace Haltchain.Validator

open Lib Option List
open Merkle (Digest MerkleAccumulator SignedDecision)
open Signing (KeyBackend Signature SignedEnvelope SigningService)

/-- The text of a decision. -/
def Decision.asStr : Decision → String
  | .allow => "ALLOW"
  | .deny => "DENY"
  | .circuitBreak => "CIRCUIT_BREAK"
  | .goalClarificationRequired => "GOAL_CLARIFICATION_REQUIRED"

variable {σ ε γ : Type}

/-! ## The id and the timestamp of a response -/

/-- The response has the id and timestamp that the call drew. -/
def ValidationResponse.Stamped (stamp : Stamp) (resp : ValidationResponse) : Prop :=
  resp.transactionId = stamp.transactionId ∧ resp.timestamp = stamp.timestamp

section

variable (cfg : Config) (stamp : Stamp) (clk : Readings) (req : ValidationRequest)
  (v : Verdicts σ) (anomaly : Option AnomalyResult) (a : AgentState σ)

theorem admission_stamped {unregistered : Option String} {mcp : McpVerdict}
    {resp : ValidationResponse} (h : admission stamp unregistered mcp = some resp) :
    resp.Stamped stamp := by
  unfold admission at h
  split at h
  · cases h
    exact ⟨rfl, rfl⟩
  · split at h <;> cases h <;> exact ⟨rfl, rfl⟩

theorem screenSection_stamped (rateLimit : Nat) :
    (screenSection cfg stamp clk req v anomaly rateLimit a).response.Stamped stamp := by
  unfold screenSection
  dsimp only
  split
  · exact ⟨rfl, rfl⟩
  · split
    · exact ⟨rfl, rfl⟩
    · split <;> exact ⟨rfl, rfl⟩

theorem limitSection_stamped :
    (limitSection cfg stamp clk req v anomaly a).response.Stamped stamp := by
  unfold limitSection
  dsimp only
  split
  · exact ⟨rfl, rfl⟩
  · split
    · exact ⟨rfl, rfl⟩
    · split
      · exact ⟨rfl, rfl⟩
      · exact screenSection_stamped cfg stamp clk req v anomaly _ _

theorem scanSection_stamped :
    (scanSection cfg stamp clk req v anomaly a).response.Stamped stamp := by
  unfold scanSection
  split
  case h_5 => exact limitSection_stamped cfg stamp clk req v anomaly a
  all_goals exact ⟨rfl, rfl⟩

theorem ruleSection_stamped :
    (ruleSection cfg stamp clk req v anomaly a).response.Stamped stamp := by
  unfold ruleSection
  split
  · exact scanSection_stamped cfg stamp clk req v anomaly a
  · dsimp only
    split
    · exact scanSection_stamped cfg stamp clk req v anomaly _
    · exact ⟨rfl, rfl⟩
    · exact ⟨rfl, rfl⟩

theorem mainSection_stamped : (mainSection cfg stamp clk req v a).response.Stamped stamp := by
  unfold mainSection
  split
  · exact ⟨rfl, rfl⟩
  · split
    · exact ruleSection_stamped cfg stamp clk req v _ _
    · exact ruleSection_stamped cfg stamp clk req v none _

theorem cachedSection_stamped (cached : Cache.CachedDecision) :
    (cachedSection stamp clk cached a).response.Stamped stamp := by
  unfold cachedSection
  split <;> exact ⟨rfl, rfl⟩

theorem AppState.decision_stamped (call : PendingCall) (cached : Option Cache.CachedDecision) :
    (AppState.decision cfg call cached clk v a).response.Stamped call.stamp := by
  unfold AppState.decision
  split
  · split
    · exact cachedSection_stamped call.stamp clk a _
    · exact mainSection_stamped cfg call.stamp clk call.req v a
  · exact mainSection_stamped cfg call.stamp clk call.req v a

end

/-- **Every response has the id and the timestamp that its call drew.** -/
theorem System.validateInner_stamped [Inhabited σ] (cfg : Config) (digest : List UInt8 → String)
    (m : Evaluators σ ε γ) {s : System σ ε γ} {inp : Input σ} {resp : ValidationResponse}
    (h : s.validateInner cfg digest m inp = some resp) : resp.Stamped inp.stamp := by
  unfold validateInner at h
  split at h
  · next hadm =>
    cases h
    exact admission_stamped inp.stamp hadm
  dsimp only at h
  split at h
  · cases h
    exact AppState.decision_stamped cfg _ _ _ (inp.turn digest s).call _
  · split at h
    · cases h
    · cases h
      exact AppState.decision_stamped cfg _ _ _ (inp.turn digest s).call _

/-! ## The node -/

/-- What `finalize_response` draws: nonce and time signed along, and the leaf's day. -/
structure Draw where
  nonce : String
  signedAt : String
  day : Nat

/-- The decision as `sign_decision` puts it into a token. -/
structure DecisionPayload where
  txn : String
  decision : String
  agentId : String
  timestamp : String
  policyVersion : String

/-- The validator with its key and the day's tree. `pushed`, for the proofs, is all that was
pushed. -/
structure Node (σ ε γ : Type) where
  system : System σ ε γ
  signing : SigningService
  merkle : MerkleAccumulator
  pushed : List (Nat × SignedDecision)

/-- An identifier that no call has. -/
def AppState.freshId (s : AppState σ) : Nat := s.calls.keys.foldr max 0 + 1

theorem AppState.lookup_freshId (s : AppState σ) : s.calls.lookup s.freshId = none := by
  have hle (ids : List Nat) : ∀ id ∈ ids, id ≤ ids.foldr max 0 := by
    induction ids with
    | nil => exact fun _ h => absurd h not_mem_nil
    | cons a ids ih =>
      intro id hid
      rcases mem_cons.1 hid with rfl | hid
      · exact le_max_left _ _
      · exact le_trans (ih id hid) (le_max_right _ _)
  refine AList.lookup_eq_none.2 fun hmem => ?_
  exact absurd (hle _ _ (AList.mem_keys.1 hmem)) (Nat.not_le_of_lt (Nat.lt_succ_self _))

namespace Node

/-- The leaf of a response. -/
def decisionOf (resp : ValidationResponse) (signature : String) : SignedDecision :=
  ⟨resp.transactionId, resp.timestamp, resp.decision.asStr, signature⟩

/-- A node at its start. -/
def start (system : System σ ε γ) (keyId : String) (backend : KeyBackend) (today : Nat) :
    Node σ ε γ :=
  ⟨system, .withBackend keyId backend, .new today, []⟩

-- `toVec` is `serde_json::to_vec` of a `DecisionPayload`
variable (sha256 : List UInt8 → Digest) (toVec : DecisionPayload → List UInt8)

/-- Pushes a leaf. -/
def push (n : Node σ ε γ) (e : Nat × SignedDecision) : Node σ ε γ :=
  { n with merkle := n.merkle.push sha256 e, pushed := n.pushed ++ [e] }

/-- The envelope, unless the backend fails and the call panics: before the leaf is pushed, or after
it if the second signature fails. -/
def finalizeResponse (n : Node σ ε γ) (agentId : String) (resp : ValidationResponse)
    (draw : Draw) : Option SignedEnvelope × Node σ ε γ :=
  let decision := resp.decision.asStr
  let payload := SigningService.canonicalDecisionPayload resp.transactionId decision agentId
    resp.timestamp
  match n.signing.sign draw.nonce draw.signedAt payload with
  | none => (none, n)
  | some envelope =>
    let n := n.push sha256 (draw.day, decisionOf resp envelope.signature)
    let policyVersion := (n.system.env.policy.map (·.version)).getD "0.0.0"
    let signed := n.signing.signDecision
      (toVec ⟨resp.transactionId, decision, agentId, resp.timestamp, policyVersion⟩)
    (signed.map fun _ => envelope, n)

/-- The key makes the signature that goes into the leaf. -/
def Signs (n : Node σ ε γ) (agentId : String) (resp : ValidationResponse) (draw : Draw) : Prop :=
  (n.signing.sign draw.nonce draw.signedAt (SigningService.canonicalDecisionPayload
    resp.transactionId resp.decision.asStr agentId resp.timestamp)).isSome
deriving Decidable

theorem finalizeResponse_cases (n : Node σ ε γ) (agentId : String) (resp : ValidationResponse)
    (draw : Draw) : (¬ n.Signs agentId resp draw ∧
      n.finalizeResponse sha256 toVec agentId resp draw = (none, n)) ∨
    (n.Signs agentId resp draw ∧
      ∃ sig : Signature, (n.finalizeResponse sha256 toVec agentId resp draw).2 =
        n.push sha256 (draw.day, decisionOf resp (Base64.encode sig.bytes))) := by
  unfold finalizeResponse Signs
  dsimp only
  split
  · next hsign => exact .inl ⟨by simp [hsign], rfl⟩
  · next hsign =>
    obtain ⟨sig, -, rfl⟩ := map_eq_some_iff.1 hsign
    exact .inr ⟨by simp [hsign], sig, rfl⟩

variable [Inhabited σ] (cfg : Config) (digest : List UInt8 → String) (m : Evaluators σ ε γ)

/-- A whole call. Nothing is returned if it panics. -/
def validate (n : Node σ ε γ) (inp : System.Input σ) (draw : Draw) :
    Option (ValidationResponse × SignedEnvelope) × Node σ ε γ :=
  let called := { n with
    system := run (System.exec cfg digest m) n.system (inp.events n.system.app.freshId) }
  match n.system.validateInner cfg digest m inp with
  | none => (none, called)
  | some resp =>
    let (envelope, finalized) :=
      called.finalizeResponse sha256 toVec inp.req.agentId resp draw
    (envelope.map (resp, ·), finalized)

/-- The call gets to its signature: `validate_inner` does not panic, and the key signs. -/
def Records (n : Node σ ε γ) (inp : System.Input σ) (draw : Draw) : Prop :=
  ∃ resp ∈ n.system.validateInner cfg digest m inp, n.Signs inp.req.agentId resp draw
deriving Decidable

/-- **What a call does to the tree.** It panics before its signature, or pushes one leaf, with the
id and timestamp it drew. -/
theorem validate_cases (n : Node σ ε γ) (inp : System.Input σ) (draw : Draw) : ∃ system,
      (¬ n.Records cfg digest m inp draw ∧
        n.validate sha256 toVec cfg digest m inp draw = (none, { n with system })) ∨
      (n.Records cfg digest m inp draw ∧
        ∃ (resp : ValidationResponse) (sig : Signature), resp.Stamped inp.stamp ∧
          (n.validate sha256 toVec cfg digest m inp draw).2 = { n with system }.push sha256
            (draw.day, decisionOf resp (Base64.encode sig.bytes))) := by
  refine ⟨run (System.exec cfg digest m) n.system (inp.events n.system.app.freshId), ?_⟩
  unfold validate Records
  dsimp only
  split
  · next hnone => exact .inl ⟨by simp [hnone], rfl⟩
  · next resp hresp =>
    rcases finalizeResponse_cases sha256 toVec { n with
      system := run (System.exec cfg digest m) n.system (inp.events n.system.app.freshId) }
      inp.req.agentId resp draw with ⟨hsigns, hnone⟩ | ⟨hsigns, sig, hpush⟩
    · rw [hnone]
      refine .inl ⟨?_, rfl⟩
      rintro ⟨resp', hresp', hsigns'⟩
      cases hresp.symm.trans hresp'
      exact hsigns hsigns'
    · exact .inr ⟨⟨resp, hresp, hsigns⟩, resp, sig,
        System.validateInner_stamped cfg digest m hresp, hpush⟩

/-- **A call returns what its steps come to**, and has pushed a leaf for it. -/
theorem validate_some {n : Node σ ε γ} {inp : System.Input σ} {draw : Draw}
    {resp : ValidationResponse} {envelope : SignedEnvelope}
    (h : (n.validate sha256 toVec cfg digest m inp draw).1 = some (resp, envelope)) :
    let n' := (n.validate sha256 toVec cfg digest m inp draw).2
    (n'.system.app.trace.getLast?).bind Observation.response = some resp ∧
      n'.pushed = n.pushed ++ [(draw.day, ⟨inp.stamp.transactionId, inp.stamp.timestamp,
        resp.decision.asStr, envelope.signature⟩)] := by
  unfold validate at h ⊢
  split at h
  · simp at h
  · next hresp =>
    obtain ⟨envelope', henvelope, hpair⟩ := map_eq_some_iff.1 h
    cases hpair
    obtain ⟨hid, htime⟩ := System.validateInner_stamped cfg digest m hresp
    have hlast := System.run_events cfg digest m n.system.app.lookup_freshId hresp
    rw [← hid, ← htime]
    unfold finalizeResponse at henvelope ⊢
    dsimp only at henvelope ⊢
    split at henvelope
    · cases henvelope
    · obtain ⟨-, -, rfl⟩ := map_eq_some_iff.1 henvelope
      exact ⟨hlast, rfl⟩

/-! ## The tree of a run -/

/-- A leaf as `finalize_response` makes it. -/
def Issued (d : SignedDecision) : Prop :=
  ∃ (resp : ValidationResponse) (sig : Signature), d = decisionOf resp (Base64.encode sig.bytes)

/-- The tree is that of what was pushed. -/
structure Kept (today : Nat) (n : Node σ ε γ) : Prop where
  merkle : n.merkle = run (MerkleAccumulator.push sha256) (.new today) n.pushed
  issued : ∀ e ∈ n.pushed, Issued e.2

variable {sha256} {today : Nat} {n : Node σ ε γ}

omit [Inhabited σ] in
theorem Kept.push (h : n.Kept sha256 today) {e : Nat × SignedDecision} (he : Issued e.2) :
    (n.push sha256 e).Kept sha256 today where
  merkle := by rw [Node.push, run_concat, ← h.merkle]
  issued e' he' := by
    rcases mem_append.1 he' with he' | he'
    · exact h.issued e' he'
    · rwa [mem_singleton.1 he']

omit [Inhabited σ] in
theorem Kept.congr (h : n.Kept sha256 today) (system : System σ ε γ) (signing : SigningService) :
    Kept sha256 today { n with system, signing } :=
  ⟨h.merkle, h.issued⟩

omit [Inhabited σ] in
theorem Kept.issued_lastDay (h : n.Kept sha256 today) :
    ∀ d ∈ MerkleAccumulator.ofLastDay n.pushed, Issued d := by
  intro d hd
  obtain ⟨e, he, rfl⟩ := mem_map.1 ((MerkleAccumulator.ofLastDay_suffix n.pushed).mem hd)
  exact h.issued e he

def stampOf (d : SignedDecision) : Stamp := ⟨d.transactionId, d.timestamp⟩

/-- What is drawn is all different and free of the leaves' separator. -/
structure Distinct (stamps : List Stamp) : Prop where
  nodup : stamps.Nodup
  plain : ∀ stamp ∈ stamps, '\x00' ∉ stamp.transactionId.toList ∧ '\x00' ∉ stamp.timestamp.toList

theorem Distinct.sublist {stamps stamps' : List Stamp} (h : Distinct stamps)
    (hsub : stamps'.Sublist stamps) : Distinct stamps' :=
  ⟨h.nodup.sublist hsub, fun stamp hstamp => h.plain stamp (hsub.subset hstamp)⟩

/-- Leaves with such stamps can be told apart: what is hashed is longer than two digests, and only
the id and timestamp could contain the separator. -/
theorem Issued.separate {ds : List SignedDecision} (hissued : ∀ d ∈ ds, Issued d)
    (hdistinct : Distinct (ds.map stampOf)) : Merkle.Separate ds where
  nodup := List.Nodup.of_map _ hdistinct.nodup
  plain d hd x hx := by
    obtain ⟨resp, sig, rfl⟩ := hissued d hd
    obtain ⟨hid, htime⟩ := hdistinct.plain _ (mem_map_of_mem hd)
    have hdecision : ∀ decision : Decision, '\x00' ∉ decision.asStr.toList := by
      intro decision
      cases decision <;> decide
    have hsig := Base64.notMem_encode (c := '\x00') (by decide) (by decide) sig.bytes
    simp only [SignedDecision.fields, mem_cons, not_mem_nil, or_false] at hx
    rcases hx with rfl | rfl | rfl | rfl
    · exact hid
    · exact htime
    · exact hdecision resp.decision
    · exact hsig
  long d hd := by
    obtain ⟨resp, sig, rfl⟩ := hissued d hd
    have hsize := Base64.length_le_utf8ByteSize_encode sig.bytes
    rw [sig.length_bytes] at hsize
    exact lt_of_le_of_lt hsize (SignedDecision.signature_lt_leafData
      (decisionOf resp (Base64.encode sig.bytes)))

end Node

end Haltchain.Validator
