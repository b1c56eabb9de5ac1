import Haltchain.Api.AuditLog
import Haltchain.McpGuard.Inventory
import Haltchain.Cache.DragonflyClient
import Haltchain.Merkle.Binding

/-! # The checks of the full guard

What `McpGuard::inspect_tool_call` tests a call against: the policies of the organisation, the
patterns of the firewall, and the kinds of tools that it tells apart by name. What `serde_json`
makes of a value is a parameter. -/

namespace Haltchain.McpGuard

open Api (toAsciiLowercase)
open Cache (CachedDecision DragonflyClient)
open Db (Uuid)
open Merkle (Digest MerkleAccumulator SignedDecision)
open Validator (Value trim)

/-- `str::contains`. -/
def contains (text part : String) : Bool := part.toList <:+: text.toList

/-! ## The firewall -/

/-- `HALTCHAIN_MCP_BLOCKED_TOOLS` as both guards read it. -/
def extraPatterns (blockedTools : String) : List String :=
  (((blockedTools.toList.splitOn ',').map fun s => trim (.ofList s)).filter (!·.isEmpty)).map
    toAsciiLowercase

def firewallPatterns (blockedTools : String) : List String :=
  ["exec", "shell", "sudo", "curl", "bash", "rm -rf", "drop database", "token_exfiltration",
    "credential_dump"] ++ extraPatterns blockedTools

def Lite.firewallPatterns (blockedTools : String) : List String :=
  ["exec", "shell", "sudo", "curl", "bash", "rm -rf", "drop database"] ++ extraPatterns blockedTools

/-- `AhoCorasick::find(..).is_some()`: one of the patterns occurs. -/
def poisoned (patterns : List String) (text : String) : Bool := patterns.any (contains text)

/-! ## Policies -/

/-- A policy for tools. -/
structure ToolPolicy where
  toolNamePattern : Option String
  requiredArgs : List String
  deniedArgPatterns : List String
  decision : Option String
  reason : Option String

/-- A row of `mcp_tool_policies`. -/
structure PolicyRecord where
  orgId : Uuid
  agentId : Option Uuid
  enabled : Bool
  priority : Int
  createdAt : Int
  policyName : String
  policy : Value

/-- What a policy says. -/
inductive PolicyAction where
  | allow
  | block
  | quarantine

/-- The policy that applies. -/
structure PolicyOutcome where
  action : PolicyAction
  reason : String

section

variable (jsonText : Value → String) (parsePolicy : Value → Option ToolPolicy)

def policyMatches (policy : ToolPolicy) (call : McpToolCall) : Bool :=
  let named := match policy.toolNamePattern with
    | some pattern =>
      wildcardMatches (toAsciiLowercase call.toolName).toList (toAsciiLowercase pattern).toList
    | none => true
  let equipped := match policy.requiredArgs, call.toolArgs with
    | [], _ => true
    | keys, .object fields => keys.all fun key => (fields.map Prod.fst).contains key
    | _, _ => false
  named && equipped &&
    (policy.deniedArgPatterns.isEmpty ||
      (policy.deniedArgPatterns.map toAsciiLowercase).any fun p =>
        !p.isEmpty && contains (toAsciiLowercase (jsonText call.toolArgs)) p)

/-- The organisation's rows for the agent, highest priority first, then oldest first. -/
def policyRows (table : List PolicyRecord) (call : McpToolCall) : List PolicyRecord :=
  (table.filter fun r =>
    r.orgId = call.orgId && r.enabled && (r.agentId = none || r.agentId = some call.agentId))
    |>.insertionSort fun a b =>
      b.priority < a.priority ∨ a.priority = b.priority ∧ a.createdAt ≤ b.createdAt

/-- The outcome of a policy that matches. -/
def PolicyRecord.outcome (row : PolicyRecord) (policy : ToolPolicy) : PolicyOutcome :=
  let decision := toAsciiLowercase (policy.decision.getD "quarantine")
  { action :=
      if decision = "allow" then .allow
      else if decision = "block" ∨ decision = "deny" then .block
      else .quarantine
    reason := policy.reason.getD ("mcp-policy:" ++ row.policyName) }

/-- The loop over the rows: the first that parses and matches decides. -/
def firstPolicy (call : McpToolCall) : List PolicyRecord → Option PolicyOutcome
  | [] => none
  | row :: rows =>
    match parsePolicy row.policy with
    | none => firstPolicy call rows
    | some policy =>
      if policyMatches jsonText policy call then some (row.outcome policy)
      else firstPolicy call rows

end

/-! ## Kinds of tools -/

/-- The tool reads data. -/
def isDataAccessTool (toolName : String) : Bool :=
  ["read", "query", "select", "fetch", "download", "secret"].any
    (contains (toAsciiLowercase toolName))

def isExfiltrationTool (jsonText : Value → String) (toolName : String) (args : Value) : Bool :=
  ["http", "post", "upload", "webhook", "send", "curl", "socket"].any
      (contains (toAsciiLowercase toolName)) &&
    ["http://", "https://", "external", "webhook"].any (contains (toAsciiLowercase (jsonText args)))

/-! ## The pipeline of the full guard

`McpGuard::inspect_tool_call`: the checks in their order, with the database work of each and the
audit at every exit. The audit appends a leaf to the accumulator in memory and then inserts a row in
a transaction, which may fail. Failures, the answers of the embedding service, ids and times come
with the call. The drift score, the JSON texts, SHA-256 and the signing are parameters. Containment,
whose failures are only logged, is left out. -/

inductive Decision where
  | allow
  | block (reason : String) (intent : Option String)
  | quarantine (reviewId : Uuid) (reason : String) (intent : Option String)
deriving DecidableEq

/-- The text of a decision. -/
def decisionText : Decision → String
  | .allow => "ALLOW"
  | .block .. => "BLOCK"
  | .quarantine .. => "QUARANTINE"

def Decision.reviewId : Decision → Option Uuid
  | .quarantine reviewId .. => some reviewId
  | _ => none

/-! ## Transactions -/

/-- `sqlx::Error`: the code, if the error comes from the database. -/
structure SqlxError where
  code : Option String
deriving DecidableEq

/-- The table does not exist. -/
def isMissingRelation (e : SqlxError) : Bool := e.code = some "42P01"

/-- The errors of the guard. -/
inductive McpGuardError where
  | sqlx (e : SqlxError)
deriving DecidableEq

/-- What goes wrong in a transaction of one statement. A failed commit may have happened. -/
structure TxFailures where
  begin : Option SqlxError
  setLocalOrg : Option SqlxError
  statement : Option SqlxError
  commit : Option (SqlxError × Bool)

/-- How a transaction ends. -/
inductive TxOutcome where
  | committed
  | lost (e : SqlxError)
  | rejected (e : SqlxError)
  | aborted (e : SqlxError)
deriving DecidableEq

/-- The first thing that goes wrong. The organisation is only set if enforced. -/
def TxFailures.outcome (orgEnforcement : Bool) (f : TxFailures) : TxOutcome :=
  match f.begin, if orgEnforcement then f.setLocalOrg else none, f.statement, f.commit with
  | some e, _, _, _ => .aborted e
  | none, some e, _, _ => .aborted e
  | none, none, some e, _ => .rejected e
  | none, none, none, some (e, true) => .lost e
  | none, none, none, some (e, false) => .aborted e
  | none, none, none, none => .committed

/-- The result of a query. -/
def TxOutcome.read {α : Type} (found : α) : TxOutcome → Except McpGuardError α
  | .committed => .ok found
  | .lost e | .rejected e | .aborted e => .error (.sqlx e)

/-- The result of an insertion, and the state it leaves. -/
def TxOutcome.write {σ : Type} (before after : σ) : TxOutcome → Except McpGuardError Unit × σ
  | .committed => (.ok (), after)
  | .lost e => (.error (.sqlx e), after)
  | .rejected e | .aborted e => (.error (.sqlx e), before)

/-! ## State -/

/-- A row of `mcp_tool_history`. -/
structure HistoryRow (F E : Type) where
  id : Uuid
  orgId : Uuid
  agentId : Uuid
  toolName : String
  toolArgs : Value
  argsHash : Digest
  argsEmbedding : Option (List F)
  decision : String
  reason : Option String
  contextHash : String
  reviewId : Option Uuid
  envelope : E
  merkleRoot : Option String
  timestamp : Int

/-- A row of `mcp_review_queue`. -/
structure ReviewRow (D : Type) where
  id : Uuid
  toolCall : McpToolCall
  zeddScore : Option D
  reason : String

/-- The three tables. -/
structure Database (F D E : Type) where
  policies : List PolicyRecord
  history : List (HistoryRow F E)
  reviewQueue : List (ReviewRow D)

/-- What the guard changes. -/
structure GuardState (F D E : Type) where
  merkle : MerkleAccumulator
  db : Database F D E
  cache : DragonflyClient

/-- What the guard is built with: `F` are embedding numbers, `D` scores, `E` envelopes. -/
structure Toolkit (F D E : Type) where
  sha256 : List UInt8 → Digest
  jsonText : Value → String
  parsePolicy : Value → Option ToolPolicy
  uuidText : Uuid → String
  ofF64 : Rat → F
  widen : F → D
  zero : D
  fallbackEmbed : Value → List F
  coreDistance : List D → List (List D) → Nat → D
  zeddDriftScore : List D → List (List D) → List D → Nat → D
  /-- `drift_score > self.zedd_threshold`. -/
  exceeds : D → Bool
  scoreText : D → String
  classifyIntent : D → String → String
  signDecision : (transactionId decision agentId timestamp policyVersion : String) → E
  contentHash : E → String

structure Settings where
  blockedTools : String
  baseline : Option BaselineInventory
  orgEnforcement : Bool
  minBaseline : Nat
  crossAgentWindowMinutes : Int
  hasCache : Bool

/-- The database work of a call. -/
inductive Stage where
  | policies
  | drift
  | correlation
  | consistency
  | review
  | audit

/-- What a call meets. -/
structure World where
  tx : Stage → TxFailures
  /-- `NOW()` in microseconds. -/
  now : Stage → Int
  /-- The answer of `pgai.embed`, if there is one. -/
  pgai : Option Value
  reviewId : Uuid
  transactionId : Uuid
  rowId : Uuid
  timestamp : String
  today : Nat
  cacheGetAt : Nat
  cacheGetReachable : Bool
  cacheSetAt : Nat
  cacheSetReachable : Bool

variable {F D E : Type} (k : Toolkit F D E) (g : Settings) (w : World)

def World.outcome (stage : Stage) : TxOutcome := (w.tx stage).outcome g.orgEnforcement

/-! ## Stages -/

/-- The hash of the arguments. -/
def hashArgs (args : Value) : Digest := k.sha256 (Signing.bytesOf (k.jsonText args))

def evaluatePolicies (call : McpToolCall) (db : Database F D E) :
    Except McpGuardError (Option PolicyOutcome) :=
  match w.outcome g .policies with
  | .rejected e => if isMissingRelation e then .ok none else .error (.sqlx e)
  | o => o.read (firstPolicy k.jsonText k.parsePolicy call (policyRows db.policies call))

def jsonToEmbedding : Value → Option (List F)
  | .array items =>
    let out := items.filterMap fun item => item.asF64.map k.ofF64
    if out.isEmpty then none else some out
  | _ => none

def embedArgs (args : Value) : List F :=
  (w.pgai.bind (jsonToEmbedding k)).getD (k.fallbackEmbed args)

/-- The newest rows first. -/
def newestFirst (rows : List (HistoryRow F E)) : List (HistoryRow F E) :=
  rows.insertionSort fun a b => b.timestamp ≤ a.timestamp

def checkDrift (call : McpToolCall) (embedding : List F) (db : Database F D E) :
    Except McpGuardError D :=
  if embedding.isEmpty then .ok k.zero
  else
    let refs := ((newestFirst (db.history.filter fun r =>
      r.agentId = call.agentId && r.orgId = call.orgId && r.argsEmbedding.isSome &&
        w.now .drift - 24 * 3600000000 < r.timestamp)).take 64).filterMap (·.argsEmbedding)
    let refVecs := refs.map (·.map k.widen)
    let nearest := min 5 (max (refVecs.length - 1) 1)
    let historical := refVecs.mapIdx fun i emb => k.coreDistance emb (refVecs.eraseIdx i) nearest
    (w.outcome g .drift).read <|
      if refVecs.length < g.minBaseline then k.zero
      else k.zeddDriftScore (embedding.map k.widen) refVecs historical nearest

def detectCrossAgentCorrelation (call : McpToolCall) (db : Database F D E) :
    Except McpGuardError (Option Uuid) :=
  if !isExfiltrationTool k.jsonText call.toolName call.toolArgs then .ok none
  else
    let rows := (newestFirst (db.history.filter fun r =>
      r.orgId = call.orgId && r.agentId ≠ call.agentId && r.argsHash = hashArgs k call.toolArgs &&
        w.now .correlation - g.crossAgentWindowMinutes * 60000000 < r.timestamp)).take 16
    (w.outcome g .correlation).read
      ((rows.find? fun r => isDataAccessTool r.toolName).map (·.agentId))

/-- Whether the last hour had this tool only. -/
def historicalConsistency (call : McpToolCall) (db : Database F D E) : Except McpGuardError Bool :=
  (w.outcome g .consistency).read <|
    (db.history.filter fun r => r.agentId = call.agentId && r.orgId = call.orgId &&
      w.now .consistency - 3600000000 < r.timestamp).all fun r => r.toolName = call.toolName

/-- Stores a review. -/
def logReview (call : McpToolCall) (reason : String) (driftScore : Option D)
    (s : GuardState F D E) : Except McpGuardError Uuid × GuardState F D E :=
  let row : ReviewRow D := ⟨w.reviewId, call, driftScore, reason⟩
  let (result, s) := (w.outcome g .review).write s
    { s with db := { s.db with reviewQueue := s.db.reviewQueue ++ [row] } }
  (result.map fun _ => w.reviewId, s)

/-! ## The audit -/

/-- The envelope over the decision. -/
def envelopeOf (call : McpToolCall) (decision : Decision) : E :=
  k.signDecision (k.uuidText w.transactionId) (decisionText decision) (k.uuidText call.agentId)
    w.timestamp "phase1b"

/-- What is pushed for the decision. -/
def leafOf (call : McpToolCall) (decision : Decision) : SignedDecision where
  transactionId := k.uuidText w.transactionId
  timestamp := w.timestamp
  decision := decisionText decision
  signature := k.contentHash (envelopeOf k w call decision)

/-- The row of a decision. -/
def historyRow (call : McpToolCall) (decision : Decision) (reason : Option String)
    (embedding : Option (List F)) (merkleRoot : Option String) : HistoryRow F E where
  id := w.rowId
  orgId := call.orgId
  agentId := call.agentId
  toolName := call.toolName
  toolArgs := call.toolArgs
  argsHash := hashArgs k call.toolArgs
  argsEmbedding := embedding
  decision := decisionText decision
  reason := reason
  contextHash := call.contextHash
  reviewId := decision.reviewId
  envelope := envelopeOf k w call decision
  merkleRoot := merkleRoot
  timestamp := w.now .audit

def auditDecision (call : McpToolCall) (decision : Decision) (reason : Option String)
    (embedding : Option (List F)) (s : GuardState F D E) :
    Except McpGuardError Unit × GuardState F D E :=
  let s := { s with merkle := s.merkle.push k.sha256 (w.today, leafOf k w call decision) }
  let row := historyRow k w call decision reason embedding (s.merkle.status k.sha256).rootHex
  (w.outcome g .audit).write s { s with db := { s.db with history := s.db.history ++ [row] } }

/-- A decision is audited and returned. -/
def audited (call : McpToolCall) (decision : Decision) (reason : Option String)
    (embedding : Option (List F)) (s : GuardState F D E) :
    Except McpGuardError Decision × GuardState F D E :=
  let (result, s) := auditDecision k g w call decision reason embedding s
  (result.map fun _ => decision, s)

/-- A call is put up for review; the quarantine is audited and returned. -/
def quarantined (call : McpToolCall) (reason : String) (driftScore : Option D)
    (intent : Option String) (embedding : Option (List F)) (s : GuardState F D E) :
    Except McpGuardError Decision × GuardState F D E :=
  match logReview g w call reason driftScore s with
  | (.error e, s) => (.error e, s)
  | (.ok reviewId, s) =>
    audited k g w call (.quarantine reviewId reason intent) (some reason) embedding s

/-! ## The pipeline, from its end -/

def cacheKey (call : McpToolCall) : String :=
  "mcp:allow:" ++ k.uuidText call.agentId ++ ":" ++ call.contextHash

def allowEntry : CachedDecision := ⟨"ALLOW", false, none, some "MCP_GUARD", 0⟩

/-- Nothing speaks against the call. -/
def allowSection (call : McpToolCall) (embedding : List F) (s : GuardState F D E) :
    Except McpGuardError Decision × GuardState F D E :=
  if g.hasCache then
    let (found, cache) := s.cache.get w.cacheGetAt w.cacheGetReachable (cacheKey k call)
    let s := { s with cache := cache }
    if found.isSome then (.ok .allow, s)
    else
      match audited k g w call .allow none (some embedding) s with
      | (.error e, s) => (.error e, s)
      | (.ok decision, s) =>
        let cache := s.cache.set w.cacheSetAt w.cacheSetReachable (cacheKey k call) allowEntry
          .dynamic
        (.ok decision, { s with cache := cache })
  else audited k g w call .allow none (some embedding) s

def consistencySection (call : McpToolCall) (embedding : List F) (s : GuardState F D E) :
    Except McpGuardError Decision × GuardState F D E :=
  match historicalConsistency g w call s.db with
  | .error e => (.error e, s)
  | .ok false =>
    quarantined k g w call "behavioral-anomaly" none (some "reconnaissance") (some embedding) s
  | .ok true => allowSection k g w call embedding s

/-- The check of other agents. -/
def correlationSection (call : McpToolCall) (embedding : List F) (s : GuardState F D E) :
    Except McpGuardError Decision × GuardState F D E :=
  match detectCrossAgentCorrelation k g w call s.db with
  | .error e => (.error e, s)
  | .ok (some sourceAgentId) =>
    quarantined k g w call ("cross-agent-correlation:source=" ++ k.uuidText sourceAgentId) none
      (some "data_exfiltration") (some embedding) s
  | .ok none => consistencySection k g w call embedding s

/-- The check of drift. -/
def driftSection (call : McpToolCall) (s : GuardState F D E) :
    Except McpGuardError Decision × GuardState F D E :=
  let embedding := embedArgs k w call.toolArgs
  match checkDrift k g w call embedding s.db with
  | .error e => (.error e, s)
  | .ok score =>
    if k.exceeds score then
      quarantined k g w call ("zedd-drift:" ++ k.scoreText score) (some score)
        (some (k.classifyIntent score (call.toolName ++ " " ++ k.jsonText call.toolArgs)))
        (some embedding) s
    else correlationSection k g w call embedding s

/-- The check of the firewall. -/
def firewallSection (call : McpToolCall) (s : GuardState F D E) :
    Except McpGuardError Decision × GuardState F D E :=
  if poisoned (firewallPatterns g.blockedTools) (toAsciiLowercase call.toolName) then
    audited k g w call (.block "known-poisoned-tool" (some "privilege_escalation"))
      (some "pattern-firewall") none s
  else driftSection k g w call s

/-- The check of the policies. -/
def policySection (call : McpToolCall) (s : GuardState F D E) :
    Except McpGuardError Decision × GuardState F D E :=
  match evaluatePolicies k g w call s.db with
  | .error e => (.error e, s)
  | .ok (some ⟨.allow, reason⟩) => audited k g w call .allow (some reason) none s
  | .ok (some ⟨.block, reason⟩) => audited k g w call (.block reason none) (some reason) none s
  | .ok (some ⟨.quarantine, reason⟩) => quarantined k g w call reason none none none s
  | .ok none => firewallSection k g w call s

/-- The inventory approves of the call, or there is none. -/
def Settings.approves (call : McpToolCall) : Bool := g.baseline.all (·.isApproved call)

def inspectToolCall (call : McpToolCall) (s : GuardState F D E) :
    Except McpGuardError Decision × GuardState F D E :=
  if g.approves call then policySection k g w call s
  else
    audited k g w call (.block "unapproved-tool-inventory" (some "unknown"))
      (some "unapproved-tool-inventory") none s

/-! ## Where a call leaves the pipeline -/

/-- An error before the audit, the allow cache, or a decision that is audited. -/
inductive Exit (F : Type) where
  | stopped (e : McpGuardError)
  | cached
  | decided (decision : Decision) (reason : Option String) (embedding : Option (List F))

/-- The quarantine, if the call can be put up for review. -/
def reviewExit (reason : String) (intent : Option String) (embedding : Option (List F)) : Exit F :=
  match (w.outcome g .review).read w.reviewId with
  | .error e => .stopped e
  | .ok reviewId => .decided (.quarantine reviewId reason intent) (some reason) embedding

/-- The allow cache has an entry for the call. -/
def cacheHolds (call : McpToolCall) (s : GuardState F D E) : Bool :=
  g.hasCache && (s.cache.get w.cacheGetAt w.cacheGetReachable (cacheKey k call)).1.isSome

/-- From the drift check on. -/
def scoredExit (call : McpToolCall) (s : GuardState F D E) : Exit F :=
  let embedding := embedArgs k w call.toolArgs
  match checkDrift k g w call embedding s.db with
  | .error e => .stopped e
  | .ok score =>
    if k.exceeds score then
      reviewExit g w ("zedd-drift:" ++ k.scoreText score)
        (some (k.classifyIntent score (call.toolName ++ " " ++ k.jsonText call.toolArgs)))
        (some embedding)
    else
      match detectCrossAgentCorrelation k g w call s.db with
      | .error e => .stopped e
      | .ok (some sourceAgentId) =>
        reviewExit g w ("cross-agent-correlation:source=" ++ k.uuidText sourceAgentId)
          (some "data_exfiltration") (some embedding)
      | .ok none =>
        match historicalConsistency g w call s.db with
        | .error e => .stopped e
        | .ok false =>
          reviewExit g w "behavioral-anomaly" (some "reconnaissance") (some embedding)
        | .ok true =>
          if cacheHolds k g w call s then .cached else .decided .allow none (some embedding)

/-- The exit of a call, from the results of the checks. -/
def exit (call : McpToolCall) (s : GuardState F D E) : Exit F :=
  if g.approves call then
    match evaluatePolicies k g w call s.db with
    | .error e => .stopped e
    | .ok (some ⟨.allow, reason⟩) => .decided .allow (some reason) none
    | .ok (some ⟨.block, reason⟩) => .decided (.block reason none) (some reason) none
    | .ok (some ⟨.quarantine, reason⟩) => reviewExit g w reason none none
    | .ok none =>
      if poisoned (firewallPatterns g.blockedTools) (toAsciiLowercase call.toolName) then
        .decided (.block "known-poisoned-tool" (some "privilege_escalation"))
          (some "pattern-firewall") none
      else scoredExit k g w call s
  else
    .decided (.block "unapproved-tool-inventory" (some "unknown"))
      (some "unapproved-tool-inventory") none

/-- Neither a leaf nor a row has been added. -/
structure Untouched (s s' : GuardState F D E) : Prop where
  merkle : s'.merkle = s.merkle
  history : s'.db.history = s.db.history

/-- The result and the state of a call that leaves by this exit. -/
def Leaves (call : McpToolCall) (s : GuardState F D E)
    (o : Except McpGuardError Decision × GuardState F D E) : Exit F → Prop
  | .stopped e => o.1 = .error e ∧ Untouched s o.2
  | .cached => o.1 = .ok .allow ∧ Untouched s o.2
  | .decided decision reason embedding =>
    ∃ s₁, Untouched s s₁ ∧ o.1 = (audited k g w call decision reason embedding s₁).1 ∧
      Untouched (audited k g w call decision reason embedding s₁).2 o.2

variable {k g w}

theorem Untouched.refl (s : GuardState F D E) : Untouched s s := ⟨rfl, rfl⟩

section

variable (call : McpToolCall)

theorem leaves_audited (decision : Decision) (reason : Option String)
    (embedding : Option (List F)) (s : GuardState F D E) :
    Leaves k g w call s (audited k g w call decision reason embedding s)
      (.decided decision reason embedding) :=
  ⟨s, .refl s, rfl, .refl _⟩

theorem leaves_quarantined (reason : String) (driftScore : Option D) (intent : Option String)
    (embedding : Option (List F)) (s : GuardState F D E) :
    Leaves k g w call s (quarantined k g w call reason driftScore intent embedding s)
      (reviewExit g w reason intent embedding) := by
  unfold quarantined logReview reviewExit
  cases w.outcome g .review with
  | committed =>
    let queue := s.db.reviewQueue ++ [⟨w.reviewId, call, driftScore, reason⟩]
    exact ⟨{ s with db := { s.db with reviewQueue := queue } }, ⟨rfl, rfl⟩, rfl, .refl _⟩
  | lost e | rejected e | aborted e => exact ⟨rfl, rfl, rfl⟩

theorem leaves_allowSection (embedding : List F) (s : GuardState F D E) :
    Leaves k g w call s (allowSection k g w call embedding s)
      (if cacheHolds k g w call s then .cached else .decided .allow none (some embedding)) := by
  unfold allowSection cacheHolds
  cases g.hasCache with
  | false => exact leaves_audited call .allow none (some embedding) s
  | true =>
    simp only [Bool.true_and, if_true]
    split
    · exact ⟨rfl, rfl, rfl⟩
    -- the cache is filled after the audit
    let read := (s.cache.get w.cacheGetAt w.cacheGetReachable (cacheKey k call)).2
    refine ⟨{ s with cache := read }, ⟨rfl, rfl⟩, ?_⟩
    generalize audited k g w call .allow none (some embedding) { s with cache := read } = o
    obtain ⟨result, s'⟩ := o
    cases result with
    | error e => exact ⟨rfl, .refl _⟩
    | ok decision => exact ⟨rfl, rfl, rfl⟩

theorem leaves_driftSection (s : GuardState F D E) :
    Leaves k g w call s (driftSection k g w call s) (scoredExit k g w call s) := by
  unfold driftSection scoredExit
  dsimp only
  cases checkDrift k g w call (embedArgs k w call.toolArgs) s.db with
  | error e => exact ⟨rfl, .refl s⟩
  | ok score =>
    dsimp only
    by_cases hscore : k.exceeds score
    · rw [if_pos hscore, if_pos hscore]
      exact leaves_quarantined call _ _ _ _ s
    rw [if_neg hscore, if_neg hscore, correlationSection]
    cases detectCrossAgentCorrelation k g w call s.db with
    | error e => exact ⟨rfl, .refl s⟩
    | ok source =>
      cases source with
      | some sourceAgentId => exact leaves_quarantined call _ _ _ _ s
      | none =>
        rw [consistencySection]
        cases historicalConsistency g w call s.db with
        | error e => exact ⟨rfl, .refl s⟩
        | ok consistent =>
          cases consistent with
          | false => exact leaves_quarantined call _ _ _ _ s
          | true => exact leaves_allowSection call _ s

/-- **A call leaves by its exit.** -/
theorem leaves_exit (s : GuardState F D E) :
    Leaves k g w call s (inspectToolCall k g w call s) (exit k g w call s) := by
  unfold inspectToolCall exit
  split
  · rw [policySection]
    cases evaluatePolicies k g w call s.db with
    | error e => exact ⟨rfl, .refl s⟩
    | ok outcome =>
      cases outcome with
      | none =>
        dsimp only
        rw [firewallSection]
        split
        · exact leaves_audited call _ _ _ s
        · exact leaves_driftSection call s
      | some outcome =>
        obtain ⟨action, reason⟩ := outcome
        cases action with
        | allow | block => exact leaves_audited call _ _ _ s
        | quarantine => exact leaves_quarantined call _ _ _ _ s
  · exact leaves_audited call _ _ _ s

end

/-! ## The exits that allow -/

variable (k g w)

/-- No check speaks against the call. -/
structure Passes (call : McpToolCall) (s : GuardState F D E) : Prop where
  approved : g.approves call
  policies : evaluatePolicies k g w call s.db = .ok none
  unpoisoned : ¬poisoned (firewallPatterns g.blockedTools) (toAsciiLowercase call.toolName)
  drift : ∃ score, checkDrift k g w call (embedArgs k w call.toolArgs) s.db = .ok score ∧
    ¬k.exceeds score
  correlation : detectCrossAgentCorrelation k g w call s.db = .ok none
  consistent : historicalConsistency g w call s.db = .ok true

/-- A policy allows the call before it comes to the firewall. -/
def PolicyAllows (call : McpToolCall) (s : GuardState F D E) : Prop :=
  g.approves call ∧ ∃ reason, evaluatePolicies k g w call s.db = .ok (some ⟨.allow, reason⟩)

/-- Database work before the audit fails. -/
def Stops (call : McpToolCall) (s : GuardState F D E) : Prop :=
  ∃ e, exit k g w call s = .stopped e

/-- The exits by which a call is not allowed. -/
def Exit.refuses : Exit F → Prop
  | .stopped _ => True
  | .cached => False
  | .decided decision _ _ => decision ≠ .allow

variable {k g w}

theorem refuses_reviewExit (reason : String) (intent : Option String)
    (embedding : Option (List F)) : (reviewExit g w reason intent embedding).refuses := by
  unfold reviewExit
  split
  · trivial
  · exact Decision.noConfusion

theorem exit_of_passes {call : McpToolCall} {s : GuardState F D E} (h : Passes k g w call s) :
    exit k g w call s = if cacheHolds k g w call s then .cached
      else .decided .allow none (some (embedArgs k w call.toolArgs)) := by
  obtain ⟨score, hdrift, hscore⟩ := h.drift
  simp only [exit, scoredExit, if_pos h.approved, h.policies, if_neg h.unpoisoned, hdrift,
    if_neg hscore, h.correlation, h.consistent]

theorem exit_of_policyAllows {call : McpToolCall} {s : GuardState F D E}
    (h : PolicyAllows k g w call s) :
    ∃ reason, exit k g w call s = .decided .allow (some reason) none := by
  obtain ⟨happroved, reason, hpolicy⟩ := h
  exact ⟨reason, by simp only [exit, if_pos happroved, hpolicy]⟩

/-- A call not refused is allowed by a policy or has passed all checks. -/
theorem exit_cases (call : McpToolCall) (s : GuardState F D E) :
    Passes k g w call s ∨ PolicyAllows k g w call s ∨ (exit k g w call s).refuses := by
  by_contra hnot
  rw [not_or, not_or] at hnot
  obtain ⟨hpasses, hpolicy, hrefuses⟩ := hnot
  unfold exit at hrefuses
  split at hrefuses
  · next happroved =>
    split at hrefuses
    · exact hrefuses trivial
    · next reason heq => exact hpolicy ⟨happroved, reason, heq⟩
    · exact hrefuses Decision.noConfusion
    · exact hrefuses (refuses_reviewExit _ _ _)
    · next hpolicies =>
      split at hrefuses
      · exact hrefuses Decision.noConfusion
      next hpoison =>
      unfold scoredExit at hrefuses
      dsimp only at hrefuses
      split at hrefuses
      · exact hrefuses trivial
      next score hdrift =>
      split at hrefuses
      · exact hrefuses (refuses_reviewExit _ _ _)
      next hscore =>
      split at hrefuses
      · exact hrefuses trivial
      · exact hrefuses (refuses_reviewExit _ _ _)
      next hcorrelation =>
      split at hrefuses
      · exact hrefuses trivial
      · exact hrefuses (refuses_reviewExit _ _ _)
      next hconsistent =>
      exact hpasses ⟨happroved, hpolicies, hpoison, ⟨score, hdrift, hscore⟩, hcorrelation,
        hconsistent⟩
  · exact hrefuses Decision.noConfusion

theorem exit_eq_cached_iff (call : McpToolCall) (s : GuardState F D E) :
    exit k g w call s = .cached ↔ Passes k g w call s ∧ cacheHolds k g w call s := by
  constructor
  · intro h
    have hcases : Passes k g w call s ∨ PolicyAllows k g w call s ∨ (exit k g w call s).refuses :=
      exit_cases call s
    rcases hcases with hpasses | hpolicy | hrefuses
    · refine ⟨hpasses, ?_⟩
      by_contra hcache
      rw [exit_of_passes hpasses, if_neg hcache] at h
      cases h
    · obtain ⟨reason, heq⟩ := exit_of_policyAllows hpolicy
      rw [heq] at h
      cases h
    · rw [h] at hrefuses
      exact hrefuses.elim
  · rintro ⟨hpasses, hcache⟩
    rw [exit_of_passes hpasses, if_pos hcache]

/-! ## Every decision is audited -/

variable (k w) in
/-- One leaf and one row for a returned decision, neither for an error. -/
def AuditedOnce (call : McpToolCall) (s : GuardState F D E)
    (o : Except McpGuardError Decision × GuardState F D E) : Prop :=
  match o.1 with
  | .ok decision =>
    o.2.merkle = s.merkle.push k.sha256 (w.today, leafOf k w call decision) ∧
      ∃ reason embedding merkleRoot, o.2.db.history =
        s.db.history ++ [historyRow k w call decision reason embedding merkleRoot]
  | .error _ => Untouched s o.2

theorem push_ne (sha256 : List UInt8 → Digest) (acc : MerkleAccumulator)
    (e : Nat × SignedDecision) : acc.push sha256 e ≠ acc := by
  intro h
  unfold MerkleAccumulator.push at h
  split at h
  · next hday => exact hday (congrArg MerkleAccumulator.day h).symm
  · have hlen := congrArg (·.leaves.length) h
    simp at hlen

section

variable (call : McpToolCall) (decision : Decision) (reason : Option String)
  (embedding : Option (List F)) (s : GuardState F D E)

theorem audited_merkle : (audited k g w call decision reason embedding s).2.merkle =
    s.merkle.push k.sha256 (w.today, leafOf k w call decision) := by
  rw [audited, auditDecision]
  cases w.outcome g .audit <;> rfl

theorem audited_committed (h : w.outcome g .audit = .committed) :
    (audited k g w call decision reason embedding s).1 = .ok decision ∧
      ∃ merkleRoot, (audited k g w call decision reason embedding s).2.db.history =
        s.db.history ++ [historyRow k w call decision reason embedding merkleRoot] := by
  rw [audited, auditDecision, h]
  exact ⟨rfl, _, rfl⟩

theorem audited_failed (h : w.outcome g .audit ≠ .committed) :
    ∃ e, (audited k g w call decision reason embedding s).1 = .error e := by
  rw [audited, auditDecision]
  cases houtcome : w.outcome g .audit with
  | committed => exact absurd houtcome h
  | lost e | rejected e | aborted e => exact ⟨.sqlx e, rfl⟩

end

/-- At the exits with an audit all depends on its transaction. -/
theorem auditedOnce_audited_iff {call : McpToolCall} {decision : Decision} {reason : Option String}
    {embedding : Option (List F)} {s s₁ : GuardState F D E} (hsame : Untouched s s₁)
    {o : Except McpGuardError Decision × GuardState F D E}
    (hresult : o.1 = (audited k g w call decision reason embedding s₁).1)
    (hstate : Untouched (audited k g w call decision reason embedding s₁).2 o.2) :
    AuditedOnce k w call s o ↔ w.outcome g .audit = .committed := by
  have hmerkle : o.2.merkle = s.merkle.push k.sha256 (w.today, leafOf k w call decision) := by
    rw [hstate.merkle, audited_merkle, hsame.merkle]
  by_cases hcommitted : w.outcome g .audit = .committed
  · obtain ⟨hok, merkleRoot, hrow⟩ :=
      audited_committed (k := k) call decision reason embedding s₁ hcommitted
    refine iff_of_true ?_ hcommitted
    simp only [AuditedOnce, hresult, hok]
    exact ⟨hmerkle, reason, embedding, merkleRoot, by rw [hstate.history, hrow, hsame.history]⟩
  · obtain ⟨e, herror⟩ := audited_failed (k := k) call decision reason embedding s₁ hcommitted
    refine iff_of_false (fun honce => ?_) hcommitted
    simp only [AuditedOnce, hresult, herror] at honce
    exact push_ne _ _ _ (hmerkle.symm.trans honce.merkle)

/-- **Every decision is audited once**, but for those from the allow cache and those whose audit
fails after its leaf was pushed. -/
theorem inspect_auditedOnce_iff (k : Toolkit F D E) (g : Settings) (w : World) (call : McpToolCall)
    (s : GuardState F D E) : AuditedOnce k w call s (inspectToolCall k g w call s) ↔
      ¬(Passes k g w call s ∧ cacheHolds k g w call s) ∧
        (Stops k g w call s ∨ w.outcome g .audit = .committed) := by
  have hleaves : Leaves k g w call s (inspectToolCall k g w call s) (exit k g w call s) :=
    leaves_exit call s
  rw [← exit_eq_cached_iff, Stops]
  cases hexit : exit k g w call s with
  | stopped e =>
    rw [hexit] at hleaves
    obtain ⟨hresult, hsame⟩ := hleaves
    refine iff_of_true ?_ ⟨by simp, .inl ⟨e, rfl⟩⟩
    simp only [AuditedOnce, hresult]
    exact hsame
  | cached =>
    rw [hexit] at hleaves
    obtain ⟨hresult, hsame⟩ := hleaves
    refine iff_of_false ?_ fun h => h.1 rfl
    simp only [AuditedOnce, hresult, hsame.merkle]
    exact fun honce => push_ne _ _ _ honce.1.symm
  | decided decision reason embedding =>
    rw [hexit] at hleaves
    obtain ⟨s₁, hsame, hresult, hstate⟩ := hleaves
    rw [auditedOnce_audited_iff hsame hresult hstate]
    constructor
    · exact fun hcommitted => ⟨by simp, .inr hcommitted⟩
    · rintro ⟨-, ⟨e, he⟩ | hcommitted⟩
      · cases he
      · exact hcommitted

/-- JSON texts for the arguments of the examples. -/
def scalarText : Value → String
  | .string s => "\"" ++ s ++ "\""
  | _ => "null"

/-- Nothing in the other parameters matters for the examples. -/
def plainKit : Toolkit Unit Unit Unit where
  sha256 _ := Api.zeroHead
  jsonText := scalarText
  parsePolicy _ := none
  uuidText _ := "id"
  ofF64 _ := ()
  widen _ := ()
  zero := ()
  fallbackEmbed _ := []
  coreDistance _ _ _ := ()
  zeddDriftScore _ _ _ _ := ()
  exceeds _ := false
  scoreText _ := "0.0000"
  classifyIntent _ _ := "benign"
  signDecision _ _ _ _ _ := ()
  contentHash _ := ""

/-- Nothing fails. -/
def noFailures : TxFailures := ⟨none, none, none, none⟩

/-- The transaction of the audit cannot begin. -/
def auditFails : Stage → TxFailures
  | .audit => { noFailures with begin := some ⟨none⟩ }
  | _ => noFailures

def calmWorld : World where
  tx _ := noFailures
  now _ := 0
  pgai := none
  reviewId := .fromU128 7
  transactionId := .fromU128 8
  rowId := .fromU128 9
  timestamp := "2026-01-01T00:00:00+00:00"
  today := 1
  cacheGetAt := 0
  cacheGetReachable := true
  cacheSetAt := 0
  cacheSetReachable := true

def defaultSettings : Settings := ⟨"", none, true, 3, 60, true⟩

/-- A call of `search`. -/
def searchCall : McpToolCall := ⟨.fromU128 1, .fromU128 2, "search", .null, "ctx", 0⟩

/-- Nothing has happened. -/
def emptyState : GuardState Unit Unit Unit := ⟨.new 1, ⟨[], [], []⟩, .new⟩

/-- The audit cannot begin its transaction: an error is returned, and the leaf is in the
accumulator. The same call with an entry in the allow cache is allowed without a trace. -/
theorem orphan_leaf_and_silent_allow :
    let broken : World := { calmWorld with tx := auditFails }
    let failed := inspectToolCall plainKit defaultSettings broken searchCall emptyState
    let server := emptyState.cache.server.insert (cacheKey plainKit searchCall) (allowEntry, 5)
    let filled := { emptyState with cache := { emptyState.cache with server := server } }
    let cached := inspectToolCall plainKit defaultSettings calmWorld searchCall filled
    (failed.1 = .error (.sqlx ⟨none⟩) ∧ failed.2.merkle.leaves.length = 1 ∧
        failed.2.db.history.length = 0) ∧
      cached.1 = .ok .allow ∧ cached.2.merkle.leaves.length = 0 ∧
        cached.2.db.history.length = 0 := by
  decide

end Haltchain.McpGuard
