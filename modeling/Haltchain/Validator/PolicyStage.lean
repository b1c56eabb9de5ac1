import Haltchain.Policy.Breakers
import Haltchain.Validator.Pii

/-! # The aggregate policy stage

The section of `validate_inner` that fills the context of the seven policy domains and asks the
aggregate breaker, with `scope.rs` and `geo.rs`.

The limits on tokens, compute seconds and egress, and whether the payload has personal data, can be
named in the metadata of the request. A limit of the operator comes before those; there is none for
egress. So a request that names more can get past the stage: if that lifts a check (`Lifted`) and
trips none (`Clear`). -/

namespace Haltchain.Validator

open List Option

open Policy

/-! ## The context -/

/-- What the stage takes from libraries and the environment. -/
structure PolicyDeps extends TextPatterns where
  toUppercase : String → String
  /-- `{:?}` of a string. -/
  quote : String → String
  jwtSecret : Option String
  /-- Of the key and the message. -/
  hmacSha256 : String → String → List UInt8
  /-- `URL_SAFE_NO_PAD.decode`. -/
  decodeNoPad : String → Option (List UInt8)
  /-- `URL_SAFE.decode`. -/
  decodePadded : String → Option (List UInt8)
  /-- `serde_json::from_slice`. -/
  fromSlice : List UInt8 → Option Value

/-- Countries blocked for data transfers. -/
def restrictedJurisdictions : List String :=
  ["KP", "IR", "SY", "CU", "SD", "RU", "BY", "CN", "MM", "VE"]

/-- The first three parts of `splitn(3, '.')`, if there are. -/
def splitThree (token : List Char) : Option (String × String × String) :=
  match token.dropWhile (· ≠ '.') with
  | [] => none
  | _ :: rest =>
    match rest.dropWhile (· ≠ '.') with
    | [] => none
    | _ :: last =>
      some (.ofList (token.takeWhile (· ≠ '.')), .ofList (rest.takeWhile (· ≠ '.')), .ofList last)

/-- The words of a text. -/
def splitWhitespace (s : String) : List String :=
  ((s.toList.splitOnP isWhitespace).filter (· ≠ [])).map .ofList

namespace PolicyDeps

variable (d : PolicyDeps)

def isRestricted (countryCode : String) : Bool :=
  d.toUppercase (trim countryCode) ∈ restrictedJurisdictions

/-- Without padding first, then with the padding filled up. -/
def decodePart (part : String) : Option (List UInt8) :=
  let rem := part.utf8ByteSize % 4
  let padded := if rem = 0 then part else part ++ "".pushn '=' (4 - rem)
  (d.decodeNoPad part).or (d.decodePadded padded)

/-- The scopes of a signed token. -/
def extractScopes (authHeader : String) : List String :=
  let token := trim authHeader
  let bearer := "Bearer ".toList
  let token :=
    if bearer <+: token.toList then trim (.ofList (token.toList.drop bearer.length)) else token
  if token = "" then []
  else
    match splitThree token.toList, d.jwtSecret with
    | some (header, payload, sig), some secret =>
      if secret = "" then []
      else if d.hmacSha256 secret s!"{header}.{payload}" ≠ (d.decodePart sig).getD [] then []
      else
        match (d.decodePart payload).bind d.fromSlice with
        | none => []
        | some claims =>
          match (claims.get "scope").or (claims.get "scp") with
          | some (.string s) => splitWhitespace s
          | some (.array items) => items.filterMap Value.asStr
          | _ => []
    | _, _ => []

end PolicyDeps

namespace Request

variable (r : Request)

/-- A number in the metadata. -/
def number (field : String) : Option Rat := (r.metadata.get field).bind Value.asF64

def whole (field : String) : Option Nat := (r.metadata.get field).bind Value.asU64

def boolean (field : String) : Option Bool := (r.metadata.get field).bind Value.asBool

/-- A text in the metadata. -/
def text (field : String) : Option String := (r.metadata.get field).bind Value.asStr

/-- The strings of an array. -/
def texts (field : String) : Option (List String) :=
  ((r.metadata.get field).bind Value.asArray).map fun items => items.filterMap Value.asStr

/-- The service accessed is not one of those declared. -/
def undeclaredByManifest : Bool :=
  match r.texts "declared_services", (r.text "accessed_service").or r.endpoint with
  | some declared, some service => !declared.isEmpty && service ∉ declared
  | _, _ => false

/-- The fields of the payload, or else those the scan has flagged. -/
def payloadFields (pii : PiiScanResult) : Option (List String) :=
  (r.texts "payload_fields").or (if pii.flaggedFields = [] then none else some pii.flaggedFields)

/-- What the breakers are asked about, with the operator's limits. -/
def actionContext (d : PolicyDeps) (maxTpm maxCs : Option Rat) : ActionContext :=
  let pii := scanValue d.toTextPatterns r.metadata
  let authStr :=
    (((r.metadata.get "auth_token").or (r.metadata.get "authorization")).bind Value.asStr).getD ""
  let extractedScopes := d.extractScopes authStr
  let destCountry := r.text "destination_country"
  { agentId := r.agentId
    transferAmountUsd := r.amount
    -- the rate limit has had its own section
    actionsPerMinute := none
    piiFieldCount := some pii.fieldCount
    requestedColumns := r.whole "requested_columns"
    taskNecessaryColumns := r.whole "task_necessary_columns"
    crossBorderRestricted := destCountry.map d.isRestricted
    declaredScopes := r.texts "declared_scopes"
    requestedScopes := if extractedScopes = [] then none else some extractedScopes
    accessingUndeclaredService :=
      some (r.flag "accessing_undeclared_service" || r.undeclaredByManifest)
    cpuPercent := r.number "cpu_percent"
    memoryPercent := r.number "memory_percent"
    dependencyCascadeDepth := r.whole "dependency_cascade_depth"
    destinationJurisdiction := destCountry
    registeredSchemaFields := r.texts "registered_schema_fields"
    payloadFields := r.payloadFields pii
    payloadContainsPii := some ((r.boolean "payload_contains_pii").getD pii.containsPii)
    gdprDeletionRequested := r.boolean "gdpr_deletion_requested"
    -- cut to 32 bits
    retentionDaysRequested := (r.whole "retention_days_requested").map (· % 2 ^ 32)
    tokensPerMinute := r.number "tokens_per_minute"
    computeSecondsPerHour := r.number "compute_seconds_per_hour"
    maxTokensPerMinute := maxTpm.or (r.number "max_tokens_per_minute")
    maxComputeSecondsPerHour := maxCs.or (r.number "max_compute_seconds_per_hour")
    apiRateLimitPct := r.number "api_rate_limit_pct"
    egressBytes := r.whole "egress_bytes"
    maxEgressBytesPerMinute := r.whole "max_egress_bytes_per_minute" }

end Request

/-! ## The stage -/

/-- Reason and policy of a denial. -/
def objection : PolicyResult → Option (String × String)
  | .pass => none
  | .deny reason policy => some (reason, policy)

@[simp] theorem isSome_objection (res : PolicyResult) : (objection res).isSome ↔ res.Denies := by
  cases res <;> simp [objection, PolicyResult.Denies]

/-- The section, as the chain of checks takes it. -/
def aggregatePolicies (d : PolicyDeps) (r : Request) (maxTpm maxCs : Option Rat) :
    Option (String × String) :=
  objection ((AggregateBreaker.defaultAny d.quote).evaluate (r.actionContext d maxTpm maxCs))

namespace Env

variable {σ ε γ : Type} (env : Env ε γ) (d : PolicyDeps)

/-- The stage, with the limits of the operator for the agent. -/
def aggregateStage (r : Request) : Option (String × String) :=
  aggregatePolicies d r (env.maxTokens r.agentId) (env.maxComputeSeconds r.agentId)

theorem consult_policy (m : Evaluators σ ε γ) (r : Request) (a : AgentState σ) (clk : Readings)
    (oracle : Verdicts σ) (taskId : String) :
    (env.consult { m with aggregate := aggregatePolicies d } r a clk oracle taskId).policy =
      env.aggregateStage d r := rfl

end Env

/-! ## Requests that name more of the limits -/

/-- The fields by which a request names its own limits, or denies personal data. -/
def limitKeys : List String :=
  ["max_tokens_per_minute", "max_compute_seconds_per_hour", "max_egress_bytes_per_minute",
    "payload_contains_pii"]

/-- `r'` differs from `r` only in that its metadata, null if missing, also carry some of `keys`. -/
structure AlsoCarries (keys : List String) (r r' : Request) : Prop where
  keys_subset : keys ⊆ limitKeys
  extended : ∃ fields', r' = { r with metadata := .object fields' } ∧
    ∃ fields, fields'.filter (fun f => f.1 ∉ keys) = fields ∧
      (r.metadata = .object fields ∨ fields = [] ∧ r.metadata = .null)

namespace AlsoCarries

variable {keys : List String} {r r' : Request}

theorem rest (h : AlsoCarries keys r r') :
    r'.agentId = r.agentId ∧ r'.amount = r.amount ∧ r'.endpoint = r.endpoint := by
  obtain ⟨fields', rfl, -⟩ := h.extended
  exact ⟨rfl, rfl, rfl⟩

variable {k : String}

theorem find?_filter_notMem (fields : List (String × Value)) (hk : k ∉ keys) :
    ((fields.filter fun f => f.1 ∉ keys).find? fun f => f.1 = k) =
      fields.find? fun f => f.1 = k := by
  rw [find?_filter]
  congr 1
  funext f
  by_cases hf : f.1 = k <;> simp [hf, hk]

theorem get_eq (h : AlsoCarries keys r r') (hk : k ∉ keys) :
    r'.metadata.get k = r.metadata.get k := by
  obtain ⟨fields', rfl, fields, hfields, hr | ⟨rfl, hr⟩⟩ := h.extended
  · simp only [hr, Value.get, ← hfields, find?_filter_notMem fields' hk]
  · rw [hr]
    simp only [Value.get, ← find?_filter_notMem fields' hk, hfields, find?_nil, map_none]

theorem get_eq_none (h : AlsoCarries keys r r') (hk : k ∈ keys) : r.metadata.get k = none := by
  obtain ⟨fields', -, fields, hfields, hr | ⟨-, hr⟩⟩ := h.extended
  · have hnone : (fields.find? fun f => f.1 = k) = none := by
      rw [find?_eq_none]
      rintro f hf hfk
      rw [← hfields, mem_filter] at hf
      obtain rfl : f.1 = k := by simpa using hfk
      exact absurd hk (by simpa using hf.2)
    simp [hr, Value.get, hnone]
  · simp [hr, Value.get]

theorem read_added {α : Type} (h : AlsoCarries keys r r') (read : Value → Option α)
    (hk : k ∈ keys) : (r.metadata.get k).bind read = none := by
  rw [h.get_eq_none hk, bind_none]

theorem read_kept {α : Type} (h : AlsoCarries keys r r') (read : Value → Option α) (hk : k ∉ keys) :
    (r'.metadata.get k).bind read = (r.metadata.get k).bind read := by
  rw [h.get_eq hk]

section

variable (h : AlsoCarries keys r r')

include h

theorem scan_within (t : TextPatterns) :
    (scanValue t r.metadata).Within (scanValue t r'.metadata) := by
  apply scanValue_within
  obtain ⟨fields', rfl, fields, hfields, hr | ⟨-, hr⟩⟩ := h.extended
  · rw [hr, ← hfields]
    exact scanFields_sublist t "" filter_sublist
  · rw [hr]
    exact nil_sublist _

theorem get_other (k : String) (hk : k ∉ limitKeys) : r'.metadata.get k = r.metadata.get k :=
  h.get_eq fun hmem => hk (h.keys_subset hmem)

/-- The fields of the context without a limit stay as they are. -/
theorem unreported_eq (d : PolicyDeps) (maxTpm maxCs : Option Rat) :
    (r'.actionContext d maxTpm maxCs).unreported = (r.actionContext d maxTpm maxCs).unreported := by
  obtain ⟨hid, hamount, hendpoint⟩ := h.rest
  simp (disch := decide) only [Request.actionContext, ActionContext.unreported, Request.texts,
    Request.text, Request.whole, Request.number, Request.boolean, Request.flag,
    Request.undeclaredByManifest, h.get_other, hid, hamount, hendpoint]

theorem texts_eq (hk : k ∉ limitKeys) : r'.texts k = r.texts k := by
  unfold Request.texts
  rw [h.get_other k hk]

theorem reports_eq :
    r'.number "tokens_per_minute" = r.number "tokens_per_minute" ∧
      r'.number "compute_seconds_per_hour" = r.number "compute_seconds_per_hour" ∧
      r'.whole "egress_bytes" = r.whole "egress_bytes" := by
  simp (disch := decide) only [Request.number, Request.whole, h.get_other, and_self]

end

end AlsoCarries

/-! ## Limits -/

/-- The operator's limit, or else the request's, or else the default. -/
def limitOf {α : Type} (operator named : Option α) (default : α) : α :=
  (operator.or named).getD default

/-- A figure within the new limit was above the old one only if the limit is new, nobody has set
one, and the figure is above the default. -/
theorem limitOf_lt_iff {α : Type} [LinearOrder α] {operator named named' : Option α}
    {default x : α} {added : Prop} (hadded : added → named = none)
    (hkept : ¬ added → named' = named) (hx : x ≤ limitOf operator named' default) :
    limitOf operator named default < x ↔ added ∧ operator = none ∧ default < x := by
  cases operator with
  | some limit => simpa [limitOf] using hx
  | none =>
    by_cases hnew : added
    · simp [limitOf, hadded hnew, hnew]
    · rw [hkept hnew] at hx
      simpa [hnew] using hx

namespace Env

variable {ε γ : Type} (env : Env ε γ) (d : PolicyDeps) (keys : List String) (r r' : Request)

/-- A check that `r` trips by the breaker's default, and `keys` has a field for. -/
inductive Lifted : Prop
  | tokens (x : Rat) (hkey : "max_tokens_per_minute" ∈ keys)
      (hoperator : env.maxTokens r.agentId = none)
      (hx : r.number "tokens_per_minute" = some x) (hover : 100000 < x)
  | compute (x : Rat) (hkey : "max_compute_seconds_per_hour" ∈ keys)
      (hoperator : env.maxComputeSeconds r.agentId = none)
      (hx : r.number "compute_seconds_per_hour" = some x) (hover : 3600 < x)
  | egress (n : Nat) (hkey : "max_egress_bytes_per_minute" ∈ keys)
      (hn : r.whole "egress_bytes" = some n) (hover : 50 * 1024 * 1024 < n)
  /-- There are personal data, and unregistered fields. -/
  | schema (hkey : "payload_contains_pii" ∈ keys)
      (hpii : (scanValue d.toTextPatterns r.metadata).containsPii = true)
      (hextras : undeclared (r.texts "registered_schema_fields")
        (r.payloadFields (scanValue d.toTextPatterns r.metadata)) ≠ [])

/-- With the limits of `r'` and the scan of its metadata, `r` trips no check. -/
structure Clear : Prop where
  others : ¬ ((AggregateBreaker.defaultAny d.quote).evaluate
    (r.actionContext d none none).unreported).Denies
  tokens : ∀ x ∈ r.number "tokens_per_minute",
    x ≤ limitOf (env.maxTokens r.agentId) (r'.number "max_tokens_per_minute") 100000
  compute : ∀ x ∈ r.number "compute_seconds_per_hour",
    x ≤ limitOf (env.maxComputeSeconds r.agentId) (r'.number "max_compute_seconds_per_hour") 3600
  egress : ∀ n ∈ r.whole "egress_bytes",
    n ≤ limitOf none (r'.whole "max_egress_bytes_per_minute") (50 * 1024 * 1024)
  pii : (scanValue d.toTextPatterns r'.metadata).fieldCount ≤ 10
  schema : (r'.boolean "payload_contains_pii").getD
      (scanValue d.toTextPatterns r'.metadata).containsPii = true →
    undeclared (r.texts "registered_schema_fields")
      (r'.payloadFields (scanValue d.toTextPatterns r'.metadata)) = []

/-- **What the stage denies**, in terms of the request. -/
theorem isSome_aggregateStage : (env.aggregateStage d r).isSome ↔
      ((AggregateBreaker.defaultAny d.quote).evaluate
        (r.actionContext d none none).unreported).Denies ∨
      (∃ x ∈ r.number "tokens_per_minute",
        limitOf (env.maxTokens r.agentId) (r.number "max_tokens_per_minute") 100000 < x) ∨
      (∃ x ∈ r.number "compute_seconds_per_hour",
        limitOf (env.maxComputeSeconds r.agentId) (r.number "max_compute_seconds_per_hour") 3600
          < x) ∨
      (∃ n ∈ r.whole "egress_bytes",
        limitOf none (r.whole "max_egress_bytes_per_minute") (50 * 1024 * 1024) < n) ∨
      10 < (scanValue d.toTextPatterns r.metadata).fieldCount ∨
      ((r.boolean "payload_contains_pii").getD
          (scanValue d.toTextPatterns r.metadata).containsPii = true ∧
        undeclared (r.texts "registered_schema_fields")
          (r.payloadFields (scanValue d.toTextPatterns r.metadata)) ≠ []) := by
  rw [aggregateStage, aggregatePolicies, isSome_objection, AggregateBreaker.denies_defaultAny]
  have hcount : (∃ n ∈ (r.actionContext d (env.maxTokens r.agentId)
      (env.maxComputeSeconds r.agentId)).piiFieldCount, 10 < n) ↔
      10 < (scanValue d.toTextPatterns r.metadata).fieldCount := by simp [Request.actionContext]
  rw [hcount, ActionContext.ViolatesSchema]
  simp only [Request.actionContext, some.injEq]
  rfl

variable {env d keys r r'}

theorem payloadFields_mono (h : AlsoCarries keys r r') (t : TextPatterns) {f : String}
    {fields : List String} (hr : r.payloadFields (scanValue t r.metadata) = some fields)
    (hf : f ∈ fields) : ∃ fields', r'.payloadFields (scanValue t r'.metadata) = some fields' ∧
      f ∈ fields' := by
  unfold Request.payloadFields at hr ⊢
  rw [h.texts_eq (by decide)]
  cases hdeclared : r.texts "payload_fields" with
  | some declared =>
    exact ⟨declared, rfl, by simp_all⟩
  | none =>
    -- the flags stand in for the fields
    rw [hdeclared, none_or] at hr
    split_ifs at hr with hnil
    cases hr
    have hmem := (h.scan_within t).flaggedFields hf
    exact ⟨_, by rw [none_or, if_neg (ne_nil_of_mem hmem)], hmem⟩

/-- More flags leave no less of the payload undeclared. -/
theorem undeclared_ne_nil (h : AlsoCarries keys r r') {t : TextPatterns}
    {registered : Option (List String)}
    (hne : undeclared registered (r.payloadFields (scanValue t r.metadata)) ≠ []) :
    undeclared registered (r'.payloadFields (scanValue t r'.metadata)) ≠ [] := by
  cases registered with
  | none => exact absurd rfl hne
  | some registered =>
    cases hr : r.payloadFields (scanValue t r.metadata) with
    | none => exact absurd (by rw [hr]; rfl) hne
    | some fields =>
      rw [hr] at hne
      obtain ⟨f, hf⟩ := exists_mem_of_ne_nil _ hne
      obtain ⟨hf, hout⟩ := mem_filter.mp hf
      obtain ⟨fields', hr', hf'⟩ := payloadFields_mono h t hr hf
      rw [hr']
      exact ne_nil_of_mem (mem_filter.mpr ⟨hf', hout⟩)

theorem not_isSome_aggregateStage_iff (h : AlsoCarries keys r r') :
    ¬ (env.aggregateStage d r').isSome ↔ env.Clear d r r' := by
  obtain ⟨hid, -, -⟩ := h.rest
  obtain ⟨htokens, hcompute, hegress⟩ := h.reports_eq
  have hschema : r'.texts "registered_schema_fields" = r.texts "registered_schema_fields" :=
    h.texts_eq (by decide)
  rw [isSome_aggregateStage, h.unreported_eq, htokens, hcompute, hegress, hschema, hid]
  simp only [not_or, not_exists, not_and, not_lt, not_not]
  exact ⟨fun ⟨h₁, h₂, h₃, h₄, h₅, h₆⟩ => ⟨h₁, h₂, h₃, h₄, h₅, h₆⟩,
    fun ⟨h₁, h₂, h₃, h₄, h₅, h₆⟩ => ⟨h₁, h₂, h₃, h₄, h₅, h₆⟩⟩

/-- A request that passes with undeclared fields has answered for personal data. -/
theorem Clear.schema_iff (hc : env.Clear d r r') (h : AlsoCarries keys r r')
    (hextras : undeclared (r.texts "registered_schema_fields")
      (r.payloadFields (scanValue d.toTextPatterns r.metadata)) ≠ []) :
    (r.boolean "payload_contains_pii").getD
        (scanValue d.toTextPatterns r.metadata).containsPii = true ↔
      "payload_contains_pii" ∈ keys ∧
        (scanValue d.toTextPatterns r.metadata).containsPii = true := by
  by_cases hkey : "payload_contains_pii" ∈ keys
  · have hnone : r.boolean "payload_contains_pii" = none := h.read_added _ hkey
    simp [hnone, hkey]
  have hsame : r'.boolean "payload_contains_pii" = r.boolean "payload_contains_pii" :=
    h.read_kept _ hkey
  have hfalse := mt hc.schema (undeclared_ne_nil h hextras)
  rw [hsame] at hfalse
  simp only [hkey, false_and, iff_false]
  cases hb : r.boolean "payload_contains_pii" with
  | some b => simpa [hb] using hfalse
  | none =>
    rw [hb] at hfalse
    exact mt (h.scan_within d.toTextPatterns).containsPii hfalse

/-- **Where `r'` passes, `r` is denied exactly for what `r'` lifts.** -/
theorem Clear.isSome_aggregateStage_iff (hc : env.Clear d r r') (h : AlsoCarries keys r r') :
    (env.aggregateStage d r).isSome ↔ env.Lifted d keys r := by
  have htokens := fun x hx => limitOf_lt_iff (h.read_added _) (h.read_kept _) (hc.tokens x hx)
  have hcompute := fun x hx => limitOf_lt_iff (h.read_added _) (h.read_kept _) (hc.compute x hx)
  have hegress := fun n hn => limitOf_lt_iff (h.read_added _) (h.read_kept _) (hc.egress n hn)
  rw [isSome_aggregateStage]
  constructor
  · rintro (hothers | ⟨x, hx, hlt⟩ | ⟨x, hx, hlt⟩ | ⟨n, hn, hlt⟩ | hcount | ⟨hpii, hextras⟩)
    · exact absurd hothers hc.others
    · obtain ⟨hkey, hoperator, hover⟩ := (htokens x hx).mp hlt
      exact .tokens x hkey hoperator hx hover
    · obtain ⟨hkey, hoperator, hover⟩ := (hcompute x hx).mp hlt
      exact .compute x hkey hoperator hx hover
    · obtain ⟨hkey, -, hover⟩ := (hegress n hn).mp hlt
      exact .egress n hkey hn hover
    · have hle := (h.scan_within d.toTextPatterns).fieldCount.trans hc.pii
      omega
    · obtain ⟨hkey, hpii⟩ := (hc.schema_iff h hextras).mp hpii
      exact .schema hkey hpii hextras
  · intro hl
    cases hl with
    | tokens x hkey hoperator hx hover =>
      exact .inr (.inl ⟨x, hx, (htokens x hx).mpr ⟨hkey, hoperator, hover⟩⟩)
    | compute x hkey hoperator hx hover =>
      exact .inr (.inr (.inl ⟨x, hx, (hcompute x hx).mpr ⟨hkey, hoperator, hover⟩⟩))
    | egress n hkey hn hover =>
      exact .inr (.inr (.inr (.inl ⟨n, hn, (hegress n hn).mpr ⟨hkey, rfl, hover⟩⟩)))
    | schema hkey hpii hextras =>
      exact .inr (.inr (.inr (.inr (.inr ⟨(hc.schema_iff h hextras).mpr ⟨hkey, hpii⟩, hextras⟩))))

/-- **A denial is kept** by a request that names more of the limits, unless what it names lifts a
check that the default trips and leaves none that it trips itself. -/
theorem denial_kept_iff (h : AlsoCarries keys r r') :
    ((env.aggregateStage d r).isSome → (env.aggregateStage d r').isSome) ↔
      ¬ (env.Lifted d keys r ∧ env.Clear d r r') := by
  have hpasses : ¬ (env.aggregateStage d r').isSome ↔ env.Clear d r r' :=
    not_isSome_aggregateStage_iff h
  constructor
  · rintro hkept ⟨hlifted, hclear⟩
    exact hpasses.mpr hclear (hkept ((hclear.isSome_aggregateStage_iff h).mpr hlifted))
  · intro hnot hdenied
    by_contra hpass
    have hclear := hpasses.mp hpass
    exact hnot ⟨(hclear.isSome_aggregateStage_iff h).mp hdenied, hclear⟩

/-- Libraries that find nothing. -/
def noFindings : PolicyDeps where
  emailRe _ := false
  ssnRe _ := false
  cardRe _ := false
  phoneRe _ := false
  toLowercase s := s
  toUppercase s := s
  quote s := s
  jwtSecret := none
  hmacSha256 _ _ := []
  decodeNoPad _ := none
  decodePadded _ := none
  fromSlice _ := none

/-- An export with the given metadata. -/
def exportWith (fields : List (String × Value)) : Request :=
  ⟨⟨"bot", "export", none, none, .systemGenerated⟩, none, none, none, none, none, none,
    .object fields⟩

/-- 60 MB. -/
def sixtyMegabytes : String × Value := ("egress_bytes", .number (.posInt 60000000))

/-- A limit of 1 GB, which the request sets for itself. -/
def ownLimit : String × Value := ("max_egress_bytes_per_minute", .number (.posInt 1000000000))

/-- No policy, no thresholds. -/
def untuned : Env Unit Unit := ⟨none, .new, fun _ => none, (), fun _ => .new⟩

theorem own_limit_also_carried :
    AlsoCarries ["max_egress_bytes_per_minute"] (exportWith [sixtyMegabytes])
      (exportWith [sixtyMegabytes, ownLimit]) where
  keys_subset := by decide
  extended := ⟨_, rfl, _, rfl, .inl rfl⟩

/-- The export is above the limit of 50 MB. -/
theorem export_denial_kept_iff :
    ((untuned.aggregateStage noFindings (exportWith [sixtyMegabytes])).isSome →
        (untuned.aggregateStage noFindings (exportWith [sixtyMegabytes, ownLimit])).isSome) ↔
      ¬ (untuned.Lifted noFindings ["max_egress_bytes_per_minute"] (exportWith [sixtyMegabytes]) ∧
        untuned.Clear noFindings (exportWith [sixtyMegabytes])
          (exportWith [sixtyMegabytes, ownLimit])) :=
  denial_kept_iff own_limit_also_carried

/-- An export of 60 MB is denied, and passes with its own limit. -/
theorem own_limit_lifts_denial :
    AlsoCarries ["max_egress_bytes_per_minute"] (exportWith [sixtyMegabytes])
        (exportWith [sixtyMegabytes, ownLimit]) ∧
      (untuned.aggregateStage noFindings (exportWith [sixtyMegabytes])).isSome = true ∧
      untuned.aggregateStage noFindings (exportWith [sixtyMegabytes, ownLimit]) = none :=
  ⟨own_limit_also_carried, by decide +kernel, by decide +kernel⟩

end Env

end Haltchain.Validator
