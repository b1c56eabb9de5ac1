import Haltchain.Api.Headers
import Haltchain.Validator.CacheSoundness
import Haltchain.Validator.Finalize

/-! # The Tendermint bridge

`TendermintBridge` offers the validator as an ABCI application: `check_tx` and `deliver_tx` validate
the request in a transaction, and `commit` returns the root of the tree of the day as the hash of
the application.

`deliver_tx` puts the vote of the node and no other into its tracker, which is always pending. A
leaf has the id, the time and the signature that each instance made up for itself, and `check_tx`
pushes leaves too. -/

namespace Haltchain.Tendermint

open Lib Consensus Validator List
open Merkle (Collision Digest MerkleAccumulator SignedDecision decisionInputs hexEncode leavesOf
  merkleRoot)
open Signing (KeyBackend SignedEnvelope)

/-! ## Readiness -/

/-- A validator of the chain. -/
structure TendermintValidator where
  nodeId : String
  address : String
  region : String

structure TendermintBridgeConfig where
  chainId : String
  appVersion : String
  validators : List TendermintValidator

/-- The variables `HALTCHAIN_TM_…`, read when a call needs them. -/
structure TmEnv where
  nodeId : Option String
  minValidators : Option String
  minRegions : Option String

structure BftReadinessReport where
  ready : Bool
  validatorCount : Nat
  uniqueRegions : Nat
  minValidators : Nat
  minRegions : Nat
  reasons : List String

def bftReadinessReport (config : TendermintBridgeConfig) (env : TmEnv) : BftReadinessReport :=
  let minValidators := (env.minValidators.bind (Api.parseUnsigned 64)).getD 3
  let minRegions := (env.minRegions.bind (Api.parseUnsigned 64)).getD 2
  let validatorCount := config.validators.length
  let uniqueRegions := (config.validators.map (·.region)).dedup.length
  let reasons :=
    (if validatorCount < minValidators then
      [s!"insufficient validators: have {validatorCount}, need >= {minValidators}"] else []) ++
    (if uniqueRegions < minRegions then
      [s!"insufficient region diversity: have {uniqueRegions}, need >= {minRegions}"] else [])
  ⟨reasons.isEmpty, validatorCount, uniqueRegions, minValidators, minRegions, reasons⟩

def localNodeId (env : TmEnv) : Nat := (Api.parseUnsigned 64 (env.nodeId.getD "1")).getD 1

/-! ## Responses -/

/-- The errors of the bridge. -/
inductive TendermintBridgeError where
  | invalidPayload (msg : String)

/-- The answer to a check. -/
structure CheckTxResponse where
  code : Nat
  log : String
  info : String

/-- The answer to a delivery. -/
structure DeliverTxResponse where
  code : Nat
  log : String
  data : Value

/-- The answer to a commit. -/
structure CommitResponse where
  appHash : String
  retainedHeight : Int
deriving DecidableEq

/-- The code of a decision that is executed as it is. -/
def decisionCode : Decision → Nat
  | .allow => 0
  | .deny => 1
  | .circuitBreak => 2
  | .goalClarificationRequired => 3

/-- The answer to a check. -/
def asCheckTxResponse (resp : ValidationResponse) : CheckTxResponse where
  code := decisionCode resp.decision
  log := resp.reason.getD "validation completed"
  info := match resp.decision with
    | .allow => "allowed"
    | .deny => "denied"
    | .circuitBreak => "circuit_break"
    | .goalClarificationRequired => "goal_clarification_required"

/-- Null for none. -/
def ofOption (text : Option String) : Value :=
  match text with
  | some s => .string s
  | none => .null

/-- The fields that the data of executed transactions share. -/
def decisionData (resp : ValidationResponse) (sig : SignedEnvelope) (appTime : String) :
    List (String × Value) :=
  [("decision", .string resp.decision.asStr), ("transaction_id", .string resp.transactionId),
   ("timestamp", .string resp.timestamp), ("policy", ofOption resp.policy),
   ("reason", ofOption resp.reason),
   ("sig", .object [("nonce", .string sig.nonce), ("signed_at", .string sig.signedAt),
     ("key_id", .string sig.keyId), ("signature", .string sig.signature)]),
   ("app_time", .string appTime)]

/-- The answer to a delivery. -/
def asDeliverTxResponse (resp : ValidationResponse) (sig : SignedEnvelope) (appTime : String) :
    DeliverTxResponse where
  code := decisionCode resp.decision
  log := resp.reason.getD "decision executed"
  data := .object (decisionData resp sig appTime)

/-- `{:?}`. -/
def debugQuorum : QuorumDecision → String
  | .approved => "Approved"
  | .rejected => "Rejected"
  | .pending => "Pending"
  | .unavailable => "Unavailable"

/-! ## The bridge -/

/-- Configuration and environment, and what the validator behind it is made with. -/
structure TendermintBridge (σ ε γ : Type) where
  config : TendermintBridgeConfig
  env : TmEnv
  cfg : Config
  evaluators : Evaluators σ ε γ
  digest : List UInt8 → String
  toVec : DecisionPayload → List UInt8
  /-- `serde_json::from_slice`, or the text of its error. -/
  fromSlice : List UInt8 → Except String Request

/-- A call with a transaction, whose request replaces that in `inp`. -/
structure TxCall (σ : Type) where
  tx : List UInt8
  inp : System.Input σ
  draw : Draw
  appTime : String

/-- What decides whether the transaction is high-stakes. -/
def quorumCheck (req : Request) : QuorumRequest :=
  ⟨req.sessionId.getD req.agentId, req.agentId, amountCents req.amount, false⟩

namespace TendermintBridge

variable {σ ε γ : Type} (b : TendermintBridge σ ε γ)

/-! ### High-stakes transactions -/

/-- The tracker with the vote of the node. -/
def tracker (resp : ValidationResponse) : QuorumTracker :=
  (QuorumTracker.new resp.transactionId).vote (localNodeId b.env)
    (if resp.decision = .allow then .approve else .reject)

/-- The response to a high-stakes transaction. -/
def quorumResponse (resp : ValidationResponse) (sig : SignedEnvelope) (appTime : String) :
    DeliverTxResponse :=
  let readiness := bftReadinessReport b.config b.env
  if ¬ readiness.ready ∨ b.config.validators.length < 2 then
    { code := 10
      log := s!"quorum unavailable: need {readiness.minValidators} validators across " ++
        s!"{readiness.minRegions} regions, have {readiness.validatorCount} validators across " ++
        s!"{readiness.uniqueRegions} regions"
      data := .object [("decision", .string "DENY"), ("transaction_id", .string resp.transactionId),
        ("timestamp", .string resp.timestamp), ("quorum", .string "Unavailable"),
        ("quorum_enforced", .bool true),
        ("reason", .string "BFT cluster not ready for high-stakes consensus")] }
  else
    let quorum := (b.tracker resp).decision
    { code := match quorum with
        | .rejected | .unavailable => 10
        | .approved | .pending => decisionCode resp.decision
      log := resp.reason.getD "high-stakes decision executed with quorum"
      data := .object (decisionData resp sig appTime ++
        [("quorum", .string (debugQuorum quorum)), ("quorum_enforced", .bool true)]) }

/-- **One vote of three decides nothing.** -/
theorem tracker_pending (resp : ValidationResponse) : (b.tracker resp).decision = .pending := by
  unfold tracker
  split <;> rfl

theorem quorumResponse_code_eq_zero_iff (resp : ValidationResponse) (sig : SignedEnvelope)
    (appTime : String) : (b.quorumResponse resp sig appTime).code = 0 ↔
      (bftReadinessReport b.config b.env).ready = true ∧ 2 ≤ b.config.validators.length ∧
        resp.decision = .allow := by
  unfold quorumResponse
  dsimp only
  split
  · next hnot =>
    refine iff_of_false (Nat.succ_ne_zero 9) fun h => ?_
    rcases hnot with hready | hfew
    · exact hready h.1
    · exact Nat.not_le_of_lt hfew h.2.1
  · next hready =>
    rw [not_or, not_not, not_lt] at hready
    rw [tracker_pending]
    have hcode : decisionCode resp.decision = 0 ↔ resp.decision = .allow := by
      cases resp.decision <;> decide
    exact hcode.trans ⟨fun h => ⟨hready.1, hready.2, h⟩, fun h => h.2.2⟩

/-! ### Calls -/

def decodeRequest (tx : List UInt8) : Except TendermintBridgeError Request :=
  (b.fromSlice tx).mapError .invalidPayload

variable (sha256 : List UInt8 → Digest)

/-- The hash without a tree. -/
def noHash : String := .ofList (replicate 64 '0')

/-- The root of the day. -/
def commit (n : Node σ ε γ) : CommitResponse where
  appHash := (n.merkle.status sha256).rootHex.getD noHash
  retainedHeight := 0

variable [Inhabited σ]

/-- `state.validate`. -/
def validate (n : Node σ ε γ) (c : TxCall σ) (req : Request) :
    Option (ValidationResponse × SignedEnvelope) × Node σ ε γ :=
  n.validate sha256 b.toVec b.cfg b.digest b.evaluators { c.inp with req } c.draw

/-- A call that panics returns nothing. -/
def checkTx (n : Node σ ε γ) (c : TxCall σ) :
    Except TendermintBridgeError (Option CheckTxResponse) × Node σ ε γ :=
  match b.decodeRequest c.tx with
  | .error e => (.error e, n)
  | .ok req =>
    let (out, n) := b.validate sha256 n c req
    (.ok (out.map fun r => asCheckTxResponse r.1), n)

def deliverTx (n : Node σ ε γ) (c : TxCall σ) :
    Except TendermintBridgeError (Option DeliverTxResponse) × Node σ ε γ :=
  match b.decodeRequest c.tx with
  | .error e => (.error e, n)
  | .ok req =>
    let (out, n) := b.validate sha256 n c req
    (.ok (out.map fun r =>
      if (quorumCheck req).requiresQuorum then b.quorumResponse r.1 r.2 c.appTime
      else asDeliverTxResponse r.1 r.2 c.appTime), n)

/-- A high-stakes transaction is executed only with the tracker's approval. -/
def RequiresQuorum : Prop :=
  ∀ (sha256 : List UInt8 → Digest) (n : Node σ ε γ) (c : TxCall σ) (req : Request)
    (resp : ValidationResponse) (sig : SignedEnvelope) (out : DeliverTxResponse),
    b.decodeRequest c.tx = .ok req → (quorumCheck req).requiresQuorum = true →
    (b.validate sha256 n c req).1 = some (resp, sig) → (b.deliverTx sha256 n c).1 = .ok (some out) →
    out.code = 0 → (b.tracker resp).decision = .approved

/-- A high-stakes transaction with a response gets `quorumResponse`. -/
theorem deliverTx_of_requiresQuorum {sha256 : List UInt8 → Digest} {n : Node σ ε γ} {c : TxCall σ}
    {req : Request} {resp : ValidationResponse} {sig : SignedEnvelope}
    (hreq : b.decodeRequest c.tx = .ok req) (hquorum : (quorumCheck req).requiresQuorum = true)
    (hresp : (b.validate sha256 n c req).1 = some (resp, sig)) :
    (b.deliverTx sha256 n c).1 = .ok (some (b.quorumResponse resp sig c.appTime)) := by
  rw [deliverTx, hreq]
  simp only [hquorum, if_true, hresp, Option.map_some]

/-- A bridge to a node on its own; every nonempty transaction is the request. -/
def toNode (config : TendermintBridgeConfig) (env : TmEnv) (req : Request) :
    TendermintBridge Unit Unit Unit where
  config := config
  env := env
  cfg := ⟨1, 1⟩
  evaluators := System.quietEvaluators
  digest := AppState.plainDigest
  toVec _ := []
  fromSlice tx := if tx = [] then .error "EOF" else .ok req

/-- With validators in these regions. -/
def toRegions (regions : List String) : Request → TendermintBridge Unit Unit Unit :=
  toNode ⟨"haltchain-local", "0.1.0", regions.map fun region => ⟨region, region, region⟩⟩
    ⟨none, none, none⟩

/-- A thousand to be transferred. -/
def largeTransfer : Request :=
  ⟨⟨"bot", "transfer", some 1000, some "alice", .systemGenerated⟩, none, none, none, none, none,
    none, .null⟩

/-- A node at its start. -/
def newNode : Node Unit Unit Unit := .start (.new none false ()) "key" Signing.Calls.constantKey 1

/-- A call on the first day. -/
def callWith (tx : List UInt8) (transactionId : String) : TxCall Unit where
  tx := tx
  inp := { System.readFor "alice" 100 with stamp := ⟨transactionId, "noon"⟩ }
  draw := ⟨"nonce", "noon", 1⟩
  appTime := "noon"

/-- What the node says does not depend on the bridge's configuration. -/
theorem toNode_validate (config : TendermintBridgeConfig) (env : TmEnv) :
    ((toNode config env largeTransfer).validate Merkle.toyHash newNode (callWith [1] "tx")
      largeTransfer).1.map (·.1.decision) = some .allow :=
  show ((toRegions [] largeTransfer).validate Merkle.toyHash newNode (callWith [1] "tx")
    largeTransfer).1.map (·.1.decision) = _ by decide +kernel

/-- **Which configurations require a quorum.** With validators that do not count as ready, or fewer
than two, no bridge executes a high-stakes transaction without the approval of the tracker; with any
other configuration a bridge does, on the vote of its node alone. -/
theorem code_zero_approved_iff (config : TendermintBridgeConfig) (env : TmEnv) :
    (∀ (σ ε γ : Type) [Inhabited σ] (b : TendermintBridge σ ε γ), b.config = config → b.env = env →
        b.RequiresQuorum) ↔
      ¬ ((bftReadinessReport config env).ready = true ∧ 2 ≤ config.validators.length) := by
  constructor
  · rintro happroved ⟨hready, htwo⟩
    let b := toNode config env largeTransfer
    obtain ⟨⟨resp, sig⟩, hresp, hallow⟩ := Option.map_eq_some_iff.1 (toNode_validate config env)
    have hquorum : (quorumCheck largeTransfer).requiresQuorum = true := by decide +kernel
    have hzero := (b.quorumResponse_code_eq_zero_iff resp sig "noon").2 ⟨hready, htwo, hallow⟩
    have hpending := happroved Unit Unit Unit b rfl rfl Merkle.toyHash newNode
      (callWith [1] "tx") largeTransfer resp sig _ rfl hquorum hresp
      (b.deliverTx_of_requiresQuorum rfl hquorum hresp) hzero
    rw [tracker_pending] at hpending
    cases hpending
  · rintro hnot σ ε γ _ b rfl rfl sha256 n c req resp sig out hreq hquorum hresp hout hzero
    cases hout.symm.trans (b.deliverTx_of_requiresQuorum hreq hquorum hresp)
    have hcode := (b.quorumResponse_code_eq_zero_iff resp sig c.appTime).1 hzero
    exact absurd ⟨hcode.1, hcode.2.1⟩ hnot

/-- With three validators in two regions the transfer is executed on the node's vote alone. -/
theorem executed_while_pending :
    let b := toRegions ["us-east-1", "us-east-1", "eu-west-1"] largeTransfer
    let c := callWith [1] "tx"
    (quorumCheck largeTransfer).requiresQuorum = true ∧
      ((b.deliverTx Merkle.toyHash newNode c).1.toOption.join.map (·.code)) = some 0 ∧
      ((b.validate Merkle.toyHash newNode c largeTransfer).1.map fun r =>
        (b.tracker r.1).decision) = some .pending := by
  decide +kernel

/-! ## Agreement -/

/-- Calls of the bridge, and whatever else happens to its validator. -/
inductive Event (σ ε : Type) where
  | checkTx (c : TxCall σ)
  | deliverTx (c : TxCall σ)
  | step (e : System.Event σ ε)
  /-- Another call comes to its end, with any response. -/
  | finalize (agentId : String) (resp : ValidationResponse) (draw : Draw)
  | rotate (keyId : String) (backend : KeyBackend)

/-- One event. -/
def exec (n : Node σ ε γ) : Event σ ε → Node σ ε γ
  | .checkTx c => (b.checkTx sha256 n c).2
  | .deliverTx c => (b.deliverTx sha256 n c).2
  | .step e => { n with system := n.system.exec b.cfg b.digest b.evaluators e }
  | .finalize agentId resp draw =>
    (n.finalizeResponse sha256 b.toVec agentId resp draw).2
  | .rotate keyId backend => { n with signing := n.signing.rotate keyId backend }

/-- The transactions that are delivered. -/
def delivered (es : List (Event σ ε)) : List (List UInt8) :=
  es.filterMap fun
    | .deliverTx c => some c.tx
    | _ => none

/-- **A check changes the node as the delivery does.** -/
theorem checkTx_snd (n : Node σ ε γ) (c : TxCall σ) :
    (b.checkTx sha256 n c).2 = (b.deliverTx sha256 n c).2 := by
  unfold checkTx deliverTx
  split <;> rfl

/-- The id and the timestamp that the event brings. -/
def Event.drawn : Event σ ε → Option Stamp
  | .checkTx c | .deliverTx c => some c.inp.stamp
  | .finalize _ resp _ => some ⟨resp.transactionId, resp.timestamp⟩
  | .step _ | .rotate _ _ => none

/-- The event gets to a signature: its transaction decodes, and nothing panics. -/
def Records (n : Node σ ε γ) : Event σ ε → Prop
  | .checkTx c | .deliverTx c => ∃ req, b.decodeRequest c.tx = .ok req ∧
      n.Records b.cfg b.digest b.evaluators { c.inp with req } c.draw
  | .finalize agentId resp draw => n.Signs agentId resp draw
  | .step _ | .rotate _ _ => False

/-- **What an event does to the tree**: nothing, or it pushes a leaf with what it brings. -/
theorem exec_cases (n : Node σ ε γ) (e : Event σ ε) :
    ∃ system signing, (¬ b.Records n e ∧ b.exec sha256 n e = { n with system, signing }) ∨
      (b.Records n e ∧ ∃ p : Nat × SignedDecision, Node.Issued p.2 ∧
        e.drawn = some (Node.stampOf p.2) ∧
        b.exec sha256 n e = { n with system, signing }.push sha256 p) := by
  have hcall (c : TxCall σ) : ∃ system signing,
      (¬ b.Records n (.deliverTx c) ∧ (b.deliverTx sha256 n c).2 = { n with system, signing }) ∨
      (b.Records n (.deliverTx c) ∧ ∃ p : Nat × SignedDecision, Node.Issued p.2 ∧
        some c.inp.stamp = some (Node.stampOf p.2) ∧
        (b.deliverTx sha256 n c).2 = { n with system, signing }.push sha256 p) := by
    unfold deliverTx
    simp only [Records]
    split
    · next hreq => exact ⟨n.system, n.signing, .inl ⟨by simp [hreq], rfl⟩⟩
    · next req hreq =>
      obtain ⟨system, hcases⟩ := Node.validate_cases sha256 b.toVec b.cfg b.digest
        b.evaluators n { c.inp with req } c.draw
      refine ⟨system, n.signing, ?_⟩
      rcases hcases with ⟨hnot, hpanic⟩ | ⟨hrecords, resp, sig, ⟨hid, htime⟩, hpush⟩
      · refine .inl ⟨?_, congrArg Prod.snd hpanic⟩
        rintro ⟨req', hreq', hrecords⟩
        cases hreq.symm.trans hreq'
        exact hnot hrecords
      · have hstamp : c.inp.stamp = ⟨resp.transactionId, resp.timestamp⟩ := by rw [hid, htime]
        exact .inr ⟨⟨req, hreq, hrecords⟩,
          (c.draw.day, Node.decisionOf resp (Base64.encode sig.bytes)),
          ⟨resp, sig, rfl⟩, congrArg some hstamp, hpush⟩
  cases e with
  | checkTx c =>
    rw [exec, checkTx_snd]
    exact hcall c
  | deliverTx c => exact hcall c
  | step e => exact ⟨_, n.signing, .inl ⟨id, rfl⟩⟩
  | finalize agentId resp draw =>
    refine ⟨n.system, n.signing, ?_⟩
    rcases Node.finalizeResponse_cases sha256 b.toVec n agentId resp draw with
      ⟨hnot, hnone⟩ | ⟨hsigns, sig, hpush⟩
    · exact .inl ⟨hnot, congrArg Prod.snd hnone⟩
    · exact .inr ⟨hsigns, _, ⟨resp, sig, rfl⟩, rfl, hpush⟩
  | rotate keyId backend => exact ⟨n.system, _, .inl ⟨id, rfl⟩⟩

variable {sha256} {today : Nat}

theorem exec_kept {n : Node σ ε γ} (h : n.Kept sha256 today) (e : Event σ ε) :
    (b.exec sha256 n e).Kept sha256 today := by
  obtain ⟨system, signing, ⟨-, heq⟩ | ⟨-, p, hissued, -, heq⟩⟩ := b.exec_cases sha256 n e
  · rw [heq]
    exact h.congr system signing
  · rw [heq]
    exact (h.congr system signing).push hissued

section

variable (s : System σ ε γ) (keyId : String) (key : KeyBackend) (today : Nat)

theorem run_kept (es : List (Event σ ε)) :
    (run (b.exec sha256) (.start s keyId key today) es).Kept sha256 today :=
  run_invariant (I := Node.Kept sha256 today) ⟨rfl, fun _ he => absurd he not_mem_nil⟩
    (fun _ e h => b.exec_kept h e) es

/-- **The leaves have the ids and timestamps that were drawn**, for checks as for deliveries. -/
theorem stamps_sublist (es : List (Event σ ε)) :
    ((run (b.exec sha256) (.start s keyId key today) es).pushed.map fun p =>
      Node.stampOf p.2).Sublist (es.filterMap Event.drawn) := by
  induction es using reverseRecOn with
  | nil => exact .refl _
  | append_singleton es e ih =>
    rw [run_concat, filterMap_append]
    obtain ⟨system, signing, ⟨-, heq⟩ | ⟨-, p, -, hdrawn, heq⟩⟩ := b.exec_cases sha256
      (run (b.exec sha256) (.start s keyId key today) es) e
    · rw [heq]
      exact ih.trans (sublist_append_left _ _)
    · rw [heq, Node.push, map_append]
      exact ih.append (by simp [hdrawn])

/-- The instance has no leaf until an event gets to a signature. -/
theorem pushed_eq_nil_iff (es : List (Event σ ε)) :
    (run (b.exec sha256) (.start s keyId key today) es).pushed = [] ↔
      Throughout (b.exec sha256) (fun n e => ¬ b.Records n e) (.start s keyId key today) es := by
  induction es using reverseRecOn with
  | nil => exact iff_of_true rfl trivial
  | append_singleton es e ih =>
    rw [run_concat, throughout_concat, ← ih]
    obtain ⟨system, signing, ⟨hnot, heq⟩ | ⟨hrecords, p, -, -, heq⟩⟩ := b.exec_cases sha256
      (run (b.exec sha256) (.start s keyId key today) es) e
    · rw [heq]
      exact ⟨fun h => ⟨h, hnot⟩, And.left⟩
    · rw [heq]
      exact iff_of_false (by simp [Node.push]) fun h => h.2 hrecords

/-- The last day's decisions have ids and timestamps that were drawn. -/
theorem lastDay_drawn (es : List (Event σ ε)) {d : SignedDecision} (hd : d ∈
    MerkleAccumulator.ofLastDay (run (b.exec sha256) (.start s keyId key today) es).pushed) :
    Node.stampOf d ∈ es.filterMap Event.drawn := by
  obtain ⟨p, hp, rfl⟩ := mem_map.1 ((MerkleAccumulator.ofLastDay_suffix _).mem hd)
  exact (b.stamps_sublist s keyId key today es).subset (mem_map_of_mem hp)

theorem separate_run {es : List (Event σ ε)} (hdrawn : Node.Distinct (es.filterMap Event.drawn)) :
    Merkle.Separate (MerkleAccumulator.ofLastDay
      (run (b.exec sha256) (.start s keyId key today) es).pushed) := by
  have hsuffix := ((MerkleAccumulator.ofLastDay_suffix
    (run (b.exec sha256) (.start s keyId key today) es).pushed).map Node.stampOf).sublist
  rw [map_map] at hsuffix
  exact Node.Issued.separate (b.run_kept s keyId key today es).issued_lastDay
    (hdrawn.sublist (hsuffix.trans (b.stamps_sublist s keyId key today es)))

/-- **Every decision can be proved.** Whatever an instance has gone through, the decision of a call
is the last leaf after it, with a proof for the hash a commit returns. -/
theorem decision_provable (es : List (Event σ ε)) (c : TxCall σ) (req : Request)
    {resp : ValidationResponse} {envelope : SignedEnvelope} (h : (b.validate sha256
      (run (b.exec sha256) (.start s keyId key today) es) c req).1 = some (resp, envelope)) :
    let n := (b.validate sha256 (run (b.exec sha256) (.start s keyId key today) es) c req).2
    let d : SignedDecision := ⟨c.inp.stamp.transactionId, c.inp.stamp.timestamp,
      resp.decision.asStr, envelope.signature⟩
    ∃ proof, Merkle.generateInclusionProof sha256 n.merkle.leaves (n.merkle.leaves.length - 1) =
        some proof ∧ Merkle.verifyInclusionProof sha256 proof = true ∧
      proof.leafHash = hexEncode (d.leaf sha256).bytes ∧
      proof.rootHash = (commit sha256 n).appHash := by
  intro n d
  have hkept : n.Kept sha256 today := by
    obtain ⟨system, ⟨-, hpanic⟩ | ⟨-, resp', sig, -, hpush⟩⟩ := Node.validate_cases sha256
      b.toVec b.cfg b.digest b.evaluators _ { c.inp with req } c.draw
    · exact absurd ((congrArg Prod.fst hpanic).symm.trans h) (by simp)
    · rw [show n = _ from hpush]
      exact ((b.run_kept s keyId key today es).congr system _).push ⟨resp', sig, rfl⟩
  obtain ⟨-, hpushed⟩ := Node.validate_some sha256 b.toVec b.cfg b.digest b.evaluators h
  obtain ⟨before, hleaves⟩ : ∃ before, n.merkle.leaves = before ++ [d.leaf sha256] := by
    rw [hkept.merkle, show n.pushed = _ from hpushed, run_concat, MerkleAccumulator.push]
    split
    · exact ⟨[], rfl⟩
    · exact ⟨_, rfl⟩
  obtain ⟨root, steps, -, hroot, hproof, hverify, -⟩ := Merkle.generateInclusionProof_spec sha256
    (show n.merkle.leaves[n.merkle.leaves.length - 1]? = some (d.leaf sha256) by simp [hleaves])
  refine ⟨_, hproof, ?_, rfl, ?_⟩
  · simp [Merkle.verifyInclusionProof, hverify]
  · simp [commit, MerkleAccumulator.status, hroot]

theorem transfer_provable :
    let b := toRegions ["us-east-1"] largeTransfer
    let n := (b.validate Merkle.toyHash newNode (callWith [1] "tx") largeTransfer).2
    ∃ proof, Merkle.verifyInclusionProof Merkle.toyHash proof = true ∧
      proof.rootHash = (commit Merkle.toyHash n).appHash := by
  intro b n
  obtain ⟨r, h⟩ := Option.isSome_iff_exists.1 (show (b.validate Merkle.toyHash newNode
    (callWith [1] "tx") largeTransfer).1.isSome = true by decide +kernel)
  obtain ⟨proof, -, hverify, -, hroot⟩ := b.decision_provable _ _ _ _ [] (callWith [1] "tx") _ h
  exact ⟨proof, hverify, hroot⟩

end

omit [Inhabited σ] in
theorem appHash_eq {n : Node σ ε γ} (h : n.Kept sha256 today) : (commit sha256 n).appHash =
      ((merkleRoot sha256 (leavesOf sha256 (MerkleAccumulator.ofLastDay n.pushed))).map fun root =>
        hexEncode root.bytes).getD noHash := by
  have hleaves : n.merkle.leaves = leavesOf sha256 (MerkleAccumulator.ofLastDay n.pushed) := by
    rw [h.merkle, (MerkleAccumulator.leaves_run_eq sha256 today n.pushed).1]
    rfl
  rw [commit, MerkleAccumulator.status, hleaves]

/-- A root that reads like the hash without a tree. -/
def ZeroRoot (sha256 : List UInt8 → Digest) (ds : List SignedDecision) : Prop :=
  (merkleRoot sha256 (leavesOf sha256 ds)).map (fun root => hexEncode root.bytes) = some noHash

theorem root_eq_of_getD {r₁ r₂ : Option Digest}
    (h₁ : r₁.map (fun r => hexEncode r.bytes) ≠ some noHash)
    (h₂ : r₂.map (fun r => hexEncode r.bytes) ≠ some noHash)
    (h : (r₁.map fun r => hexEncode r.bytes).getD noHash =
      (r₂.map fun r => hexEncode r.bytes).getD noHash) : r₁ = r₂ := by
  cases r₁ <;> cases r₂
  · rfl
  · exact absurd (congrArg some h.symm) h₂
  · exact absurd (congrArg some h) h₁
  · exact congrArg some (Merkle.hexEncode_injective h)

variable (sha256) (b₁ b₂ : TendermintBridge σ ε γ)

/-- **When two instances agree.** Whatever they are delivered, they commit to the same hash as long
as nothing comes to a signature on either. As soon as something does, they disagree, if no id is
drawn twice and no two strings with the same hash are found, nor one that hashes to zeros: each leaf
has an id and a time its instance made up. -/
theorem appHash_agreement (s₁ s₂ : System σ ε γ) (keyId₁ keyId₂ : String) (key₁ key₂ : KeyBackend)
    (today₁ today₂ : Nat) (es₁ es₂ : List (Event σ ε)) :
    let n₁ := run (b₁.exec sha256) (.start s₁ keyId₁ key₁ today₁) es₁
    let n₂ := run (b₂.exec sha256) (.start s₂ keyId₂ key₂ today₂) es₂
    let ds₁ := MerkleAccumulator.ofLastDay n₁.pushed
    let ds₂ := MerkleAccumulator.ofLastDay n₂.pushed
    let silent :=
      Throughout (b₁.exec sha256) (fun n e => ¬ b₁.Records n e) (.start s₁ keyId₁ key₁ today₁) es₁ ∧
      Throughout (b₂.exec sha256) (fun n e => ¬ b₂.Records n e) (.start s₂ keyId₂ key₂ today₂) es₂
    (silent → commit sha256 n₁ = commit sha256 n₂) ∧
      (commit sha256 n₁ = commit sha256 n₂ →
        Node.Distinct ((es₁ ++ es₂).filterMap Event.drawn) →
        silent ∨ Collision sha256 (decisionInputs sha256 ds₁ ++ decisionInputs sha256 ds₂) ∨
          ZeroRoot sha256 ds₁ ∨ ZeroRoot sha256 ds₂) := by
  intro n₁ n₂ ds₁ ds₂ silent
  have hkept₁ : n₁.Kept sha256 today₁ := b₁.run_kept s₁ keyId₁ key₁ today₁ es₁
  have hkept₂ : n₂.Kept sha256 today₂ := b₂.run_kept s₂ keyId₂ key₂ today₂ es₂
  have hsilent : silent ↔ n₁.pushed = [] ∧ n₂.pushed = [] :=
    (and_congr (b₁.pushed_eq_nil_iff s₁ keyId₁ key₁ today₁ es₁)
      (b₂.pushed_eq_nil_iff s₂ keyId₂ key₂ today₂ es₂)).symm
  constructor
  · intro h
    obtain ⟨hnil₁, hnil₂⟩ := hsilent.1 h
    have happ : (commit sha256 n₁).appHash = (commit sha256 n₂).appHash := by
      rw [appHash_eq hkept₁, appHash_eq hkept₂, hnil₁, hnil₂]
    exact congrArg (CommitResponse.mk · 0) happ
  · intro hcommit hdrawn
    by_contra hnone
    simp only [not_or] at hnone
    obtain ⟨hne, hcol, hzero₁, hzero₂⟩ := hnone
    have happ := congrArg CommitResponse.appHash hcommit
    rw [appHash_eq hkept₁, appHash_eq hkept₂] at happ
    have hroot := root_eq_of_getD hzero₁ hzero₂ happ
    rw [filterMap_append] at hdrawn
    have hds : ds₁ = ds₂ := Merkle.eq_of_root_of_separate
      ⟨hcol, subset_append_left _ _, subset_append_right _ _, hroot⟩
      (b₁.separate_run s₁ keyId₁ key₁ today₁ (hdrawn.sublist (sublist_append_left _ _)))
      (b₂.separate_run s₂ keyId₂ key₂ today₂ (hdrawn.sublist (sublist_append_right _ _)))
    -- a decision that both have recorded would have an id that both have drawn
    have hnil : ds₁ = [] := by
      refine eq_nil_iff_forall_not_mem.2 fun d hd => ?_
      have hd₂ : d ∈ ds₂ := hds ▸ hd
      exact (nodup_append.1 hdrawn.nodup).2.2 _ (b₁.lastDay_drawn s₁ keyId₁ key₁ today₁ es₁ hd) _
        (b₂.lastDay_drawn s₂ keyId₂ key₂ today₂ es₂ hd₂) rfl
    exact hne (hsilent.2 ⟨MerkleAccumulator.ofLastDay_eq_nil hnil,
      MerkleAccumulator.ofLastDay_eq_nil (hds.symm.trans hnil)⟩)

/-- An instance after these events; all start in the same way. -/
def instanceAfter (es : List (Event Unit Unit)) : Node Unit Unit Unit :=
  run ((toRegions ["us-east-1"] (System.readFor "alice" 100).req).exec Merkle.toyHash) newNode es

/-- Two instances get the same transaction: one draws another id, or has checked it before. -/
theorem instances_disagree :
    let es₁ := [Event.deliverTx (callWith [1] "a")]
    let es₂ := [Event.deliverTx (callWith [1] "b")]
    let es₃ := [Event.checkTx (callWith [1] "b"), Event.deliverTx (callWith [1] "a")]
    delivered es₁ = delivered es₂ ∧ delivered es₁ = delivered es₃ ∧
      commit Merkle.toyHash (instanceAfter es₁) ≠ commit Merkle.toyHash (instanceAfter es₂) ∧
      commit Merkle.toyHash (instanceAfter es₁) ≠ commit Merkle.toyHash (instanceAfter es₃) := by
  decide +kernel

/-- They agree if nothing checked or delivered is a transaction. -/
theorem instances_agree_after_errors :
    let es₁ := [Event.deliverTx (callWith [] "a")]
    let es₂ := [Event.checkTx (callWith [] "b"), Event.deliverTx (callWith [] "c")]
    commit Merkle.toyHash (instanceAfter es₁) = commit Merkle.toyHash (instanceAfter es₂) := by
  refine (appHash_agreement Merkle.toyHash _ _ _ _ _ _ _ _ _ _ [.deliverTx (callWith [] "a")]
    [.checkTx (callWith [] "b"), .deliverTx (callWith [] "c")]).1 ⟨⟨?_, trivial⟩, ?_, ?_, trivial⟩
  all_goals
    rintro ⟨req, hreq, -⟩
    cases hreq

end TendermintBridge

end Haltchain.Tendermint
