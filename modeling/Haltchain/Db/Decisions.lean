import Haltchain.Lib.Cbor
import Haltchain.Lib.Separated
import Haltchain.Merkle.Inclusion
import Haltchain.Signing.Ed25519
import Mathlib.Data.List.Chain
import Mathlib.Data.List.MinMax

/-! # The chain of decisions

The table `decisions_hot` of the db crate: each decision is inserted with a hash of its contents,
the hash of the row before it and a hash of the two, in a serializable transaction that is tried
again if it collides. A transaction takes its id after it has seen the row before it; aborted ones
leave gaps. SHA-256 is a parameter.

The contents hashed have the time that the caller gives or that of the call, in nanoseconds; the
column `decided_at` holds the time of the transaction. -/

namespace Haltchain.Db

open Lib Merkle List Option
open Signing (bytesOf)

/-! ## Columns -/

/-- An id of 16 bytes. -/
structure Uuid where
  bytes : List UInt8
  length_bytes : bytes.length = 16
deriving DecidableEq

/-- The bytes of a number. -/
def Uuid.fromU128 (n : Nat) : Uuid := ⟨Cbor.toBeBytes 16 n, Cbor.length_toBeBytes 16 n⟩

/-- The type `policy_result` of the database. -/
inductive PolicyResult where
  | allow
  | deny
  | circuitBreak
  | goalClarificationRequired

/-- The label in the database. -/
def PolicyResult.label : PolicyResult → String
  | .allow => "ALLOW"
  | .deny => "DENY"
  | .circuitBreak => "CIRCUIT_BREAK"
  | .goalClarificationRequired => "GOAL_CLARIFICATION_REQUIRED"

/-- The type `breaker_domain` of the database. -/
inductive BreakerDomain where
  | financial
  | privacy
  | security
  | operational
  | compliance
  | resource

/-- The label in the database. -/
def BreakerDomain.label : BreakerDomain → String
  | .financial => "financial"
  | .privacy => "privacy"
  | .security => "security"
  | .operational => "operational"
  | .compliance => "compliance"
  | .resource => "resource"

/-- A text is cast to the value that has it for its label. -/
def castLabel {α : Type} (label : α → String) (values : List α) (s : String) : Option α :=
  values.find? fun v => label v = s

def castPolicyResult : String → Option PolicyResult :=
  castLabel PolicyResult.label [.allow, .deny, .circuitBreak, .goalClarificationRequired]

def castBreakerDomain : String → Option BreakerDomain :=
  castLabel BreakerDomain.label
    [.financial, .privacy, .security, .operational, .compliance, .resource]

/-- The database does not store a text with a zero byte. -/
def storable (s : String) : Bool := ¬ '\x00' ∈ s.toList

/-! ## Times

In nanoseconds since 1970. The database keeps microseconds. -/

/-- Decimal digits, at least `width`. -/
def padded (width n : Nat) : String :=
  let digits := toString n
  .ofList (replicate (width - digits.length) '0' ++ digits.toList)

/-- Year, month and day, from the number of days since 1970. -/
def civil (days : Int) : Int × Nat × Nat :=
  let z := days + 719468
  let era := z.fdiv 146097
  let doe := (z - era * 146097).toNat
  let yoe := (doe - doe / 1460 + doe / 36524 - doe / 146096) / 365
  let doy := doe - (365 * yoe + yoe / 4 - yoe / 100)
  let mp := (5 * doy + 2) / 153
  let month := if mp < 10 then mp + 3 else mp - 9
  (yoe + era * 400 + if month ≤ 2 then 1 else 0, month, doy - (153 * mp + 2) / 5 + 1)

/-- The part after the seconds, with as many groups of three digits as needed. -/
def fraction (nanos : Nat) : String :=
  if nanos = 0 then ""
  else if nanos % 1000000 = 0 then "." ++ padded 3 (nanos / 1000000)
  else if nanos % 1000 = 0 then "." ++ padded 6 (nanos / 1000)
  else "." ++ padded 9 nanos

def year (y : Int) : String :=
  if y < 0 then "-" ++ padded 4 y.natAbs
  else if 9999 < y then "+" ++ padded 4 y.natAbs
  else padded 4 y.natAbs

/-- `to_rfc3339` of a time in UTC. -/
def toRfc3339 (nanos : Int) : String :=
  let secs := nanos.fdiv 1000000000
  let (y, month, day) := civil (secs.fdiv 86400)
  let s := (secs.fmod 86400).toNat
  year y ++ "-" ++ padded 2 month ++ "-" ++ padded 2 day ++ "T" ++ padded 2 (s / 3600) ++ ":" ++
    padded 2 (s / 60 % 60) ++ ":" ++ padded 2 (s % 60) ++ fraction (nanos.fmod 1000000000).toNat ++
    "+00:00"

/-! ## Rows -/

/-- A decision to be stored. -/
structure DecisionRecord where
  transactionId : Uuid
  orgId : Option Uuid
  agentId : String
  decision : String
  domain : Option String
  policyCode : Option String
  reason : Option String
  sigNonce : Option String
  sigSignedAt : Option Int
  sigB64 : Option String
  requestNonce : Option String
  requestSig : Option String
  decidedAt : Option Int

structure DriftLogRecord where
  agentId : String
  conversationId : String
  semanticDrift : Rat
  driftVelocity : Rat
  windowLen : Int
  baselineLen : Int
  recommendation : String

/-- A row of `decisions_hot`, `decided_at` in microseconds. Older rows have no hashes. -/
structure DecisionRow where
  id : Nat
  transactionId : Uuid
  orgId : Option Uuid
  agentId : String
  decision : PolicyResult
  domain : Option BreakerDomain
  policyCode : Option String
  reason : Option String
  sigNonce : Option String
  sigSignedAt : Option Int
  sigB64 : Option String
  requestNonce : Option String
  requestSig : Option String
  decidedAt : Int
  contentHash : Option String
  prevHash : Option String
  rowHash : Option String

/-- The tables, with the rows of `decisions_hot` as they were committed. -/
structure DecisionDb where
  rows : List DecisionRow
  nextId : Nat
  driftLog : List DriftLogRecord

/-- The errors of the crate. -/
inductive DbError where
  | misconfigured (message : String)
  | serializationFailure
  | sqlx (message : String)

/-! ## Tenants -/

def defaultOrgIdFallback : Uuid := .fromU128 1

def ensureWriteOrgId (strict : Bool) (orgId : Option Uuid) : Except DbError Unit :=
  if strict && orgId.isNone then
    .error (.misconfigured
      "database write missing org_id while HALTCHAIN_REQUIRE_TENANT_ORG is enabled")
  else .ok ()

def normalizeWriteOrgId (strict : Bool) (orgId : Option Uuid) : Option Uuid :=
  if orgId.isSome then orgId
  else if strict then none
  else some defaultOrgIdFallback

/-- Whether this tenant sees the row. Row level security is forced, but does not bind some roles. -/
def DecisionRow.seenBy (bypassRls : Bool) (orgId : Option Uuid) (row : DecisionRow) : Bool :=
  bypassRls || (row.orgId.isSome && row.orgId = orgId)

/-- The rows a tenant sees. -/
def DecisionDb.visible (db : DecisionDb) (bypassRls : Bool) (orgId : Option Uuid) :
    List DecisionRow :=
  db.rows.filter (DecisionRow.seenBy bypassRls orgId)

/-- Those of the chain. -/
def DecisionDb.chained (db : DecisionDb) (bypassRls : Bool) (orgId : Option Uuid) :
    List DecisionRow :=
  (db.visible bypassRls orgId).filter fun row => row.rowHash.isSome

/-! ## Insertion -/

/-- 32 zero bytes. -/
def genesis : List UInt8 := replicate 32 0

/-- `ORDER BY id DESC LIMIT 1`. -/
def DecisionDb.tip (db : DecisionDb) (bypassRls : Bool) (orgId : Option Uuid) : Option String :=
  ((db.chained bypassRls orgId).argmax (·.id)).bind (·.rowHash)

/-- What is hashed for the contents. -/
def contents (transactionId : Uuid) (agentId decision decidedAt : String) : List UInt8 :=
  sepJoin 0 [transactionId.bytes, bytesOf agentId, bytesOf decision, bytesOf decidedAt]

section

variable (sha256 : List UInt8 → Digest) (bypassRls : Bool)

/-- One attempt at a transaction: the clocks of process and, in microseconds, database, the ids used
up by aborted transactions, and what makes it fail. -/
structure Attempt where
  utcNow : Int
  dbNow : Int
  burnt : Nat
  failure : Option DbError

/-- The time that is hashed. -/
def decidedAt (r : DecisionRecord) (a : Attempt) : Int := r.decidedAt.getD a.utcNow

def storableRecord (r : DecisionRecord) (drift : Option DriftLogRecord) : Bool :=
  storable r.agentId &&
    [r.policyCode, r.reason, r.sigNonce, r.sigB64, r.requestNonce, r.requestSig].all
      (·.all storable) &&
    drift.all fun d => storable d.agentId && storable d.conversationId && storable d.recommendation

/-- The row inserted. The database's time comes from the default of the column. -/
def decisionRow (db : DecisionDb) (a : Attempt) (r : DecisionRecord) (orgId : Option Uuid)
    (decision : PolicyResult) (domain : Option BreakerDomain) : DecisionRow :=
  let prevHashHex := db.tip bypassRls orgId
  let prevHashBytes := (prevHashHex.bind hexDecode).getD genesis
  let contentHash :=
    sha256 (contents r.transactionId r.agentId r.decision (toRfc3339 (decidedAt r a)))
  { id := db.nextId
    transactionId := r.transactionId
    orgId
    agentId := r.agentId
    decision
    domain
    policyCode := r.policyCode
    reason := r.reason
    sigNonce := r.sigNonce
    sigSignedAt := r.sigSignedAt
    sigB64 := r.sigB64
    requestNonce := r.requestNonce
    requestSig := r.requestSig
    decidedAt := a.dbNow
    contentHash := some (hexEncode contentHash.bytes)
    prevHash := some (prevHashHex.getD (hexEncode genesis))
    rowHash := some (hexEncode (sha256 (prevHashBytes ++ contentHash.bytes)).bytes) }

/-- `insert_decision_once` and `insert_decision_with_drift_once`. -/
def insertOnce (strict : Bool) (r : DecisionRecord) (drift : Option DriftLogRecord)
    (db : DecisionDb) (a : Attempt) : Except DbError Nat × DecisionDb :=
  match ensureWriteOrgId strict r.orgId with
  | .error e => (.error e, db)
  | .ok () =>
    let orgId := normalizeWriteOrgId strict r.orgId
    let db := { db with nextId := db.nextId + a.burnt }
    match a.failure with
    | some e => (.error e, db)
    | none =>
      match castPolicyResult r.decision with
      | none => (.error (.sqlx "invalid input value for enum policy_result"), db)
      | some decision =>
        match r.domain.map castBreakerDomain with
        | some none => (.error (.sqlx "invalid input value for enum breaker_domain"), db)
        | domain =>
          if storableRecord r drift then
            let row := decisionRow sha256 bypassRls db a r orgId decision domain.join
            (.ok row.id,
              { db with
                rows := db.rows ++ [row]
                nextId := db.nextId + 1
                driftLog := db.driftLog ++ drift.toList })
          else (.error (.sqlx "invalid byte sequence for encoding"), db)

def serializableMaxAttempts : Nat := 5

/-- The attempts from one on, with the number that may still follow. -/
def insertFrom (strict : Bool) (r : DecisionRecord) (drift : Option DriftLogRecord)
    (attempts : Nat → Attempt) : Nat → Nat → DecisionDb → Except DbError Nat × DecisionDb
  | 0, i, db => insertOnce sha256 bypassRls strict r drift db (attempts i)
  | left + 1, i, db =>
    match insertOnce sha256 bypassRls strict r drift db (attempts i) with
    | (.error .serializationFailure, db) => insertFrom strict r drift attempts left (i + 1) db
    | result => result

def insertDecision (strict : Bool) (r : DecisionRecord) (attempts : Nat → Attempt)
    (db : DecisionDb) : Except DbError Nat × DecisionDb :=
  insertFrom sha256 bypassRls strict r none attempts (serializableMaxAttempts - 1) 0 db

/-- With a drift log. -/
def insertDecisionWithDrift (strict : Bool) (r : DecisionRecord) (drift : DriftLogRecord)
    (attempts : Nat → Attempt) (db : DecisionDb) : Except DbError Nat × DecisionDb :=
  insertFrom sha256 bypassRls strict r (some drift) attempts (serializableMaxAttempts - 1) 0 db

/-- A call of one of the two functions, with the attempts it makes. -/
structure InsertCall where
  strict : Bool
  record : DecisionRecord
  drift : Option DriftLogRecord
  attempts : Nat → Attempt

/-- One call. -/
def exec (db : DecisionDb) (c : InsertCall) : DecisionDb :=
  match c.drift with
  | none => (insertDecision sha256 bypassRls c.strict c.record c.attempts db).2
  | some drift =>
    (insertDecisionWithDrift sha256 bypassRls c.strict c.record drift c.attempts db).2

/-! ## What an auditor checks -/

/-- The hash of the contents, from the columns. -/
def DecisionRow.ContentVerifies (row : DecisionRow) : Prop :=
  row.contentHash = some (hexEncode (sha256 (contents row.transactionId row.agentId
    row.decision.label (toRfc3339 (row.decidedAt * 1000)))).bytes)
deriving Decidable

/-- The hash of the row, from the columns. -/
def DecisionRow.RowHashVerifies (row : DecisionRow) : Prop :=
  ∃ prev content, row.prevHash.bind hexDecode = some prev ∧
    row.contentHash.bind hexDecode = some content ∧
    row.rowHash = some (hexEncode (sha256 (prev ++ content)).bytes)

/-- The rows of a chain, from the first to the last. -/
structure Linked (rows : List DecisionRow) : Prop where
  ordered : rows.Pairwise (·.id < ·.id)
  first : ∀ row ∈ rows.head?, row.prevHash = some (hexEncode genesis)
  links : rows.IsChain fun row next => next.prevHash = row.rowHash
  hashes : ∀ row ∈ rows, row.RowHashVerifies sha256

theorem argmax_eq_getLast {rows : List DecisionRow} (h : rows.Pairwise (·.id < ·.id)) :
    rows.argmax (·.id) = rows.getLast? := by
  induction rows using reverseRecOn with
  | nil => rfl
  | append_singleton rows row ih =>
    obtain ⟨hrows, -, hlast⟩ := pairwise_append.1 h
    rw [argmax_concat, ih hrows, getLast?_concat]
    cases hprev : rows.getLast? with
    | none => rfl
    | some prev =>
      have hlt := hlast prev (mem_of_getLast? hprev) row (mem_singleton_self row)
      exact if_pos hlt

/-! ## One insertion -/

/-- A row put on a tip. -/
structure PutOn (tip : Option String) (row : DecisionRow) : Prop where
  prevHash : row.prevHash = some (tip.getD (hexEncode genesis))
  hashes : ∃ content : Digest, row.contentHash = some (hexEncode content.bytes) ∧
    row.rowHash = some (hexEncode
      (sha256 ((tip.bind hexDecode).getD genesis ++ content.bytes)).bytes)

variable {sha256 bypassRls}

variable {row : DecisionRow}

/-- The tip is a hash, or there is none: what is stored decodes to what is hashed. -/
theorem PutOn.rowHashVerifies {tip : Option String} (h : PutOn sha256 tip row)
    (htip : ∀ hex ∈ tip, ∃ d : Digest, hex = hexEncode d.bytes) : row.RowHashVerifies sha256 := by
  obtain ⟨content, hcontent, hrow⟩ := h.hashes
  refine ⟨(tip.bind hexDecode).getD genesis, content.bytes, ?_, ?_, hrow⟩
  · rw [h.prevHash, bind_some]
    cases tip with
    | none => exact hexDecode_hexEncode genesis
    | some hex =>
      obtain ⟨d, rfl⟩ := htip hex rfl
      simp [hexDecode_hexEncode]
  · rw [hcontent, bind_some, hexDecode_hexEncode]

theorem Linked.concat {rows : List DecisionRow} (h : Linked sha256 rows)
    (hid : ∀ r ∈ rows, r.id < row.id)
    (hrow : PutOn sha256 ((rows.argmax (·.id)).bind (·.rowHash)) row) :
    Linked sha256 (rows ++ [row]) := by
  rw [argmax_eq_getLast h.ordered] at hrow
  -- the last row, if there is one, has a hash
  have hlast : ∀ last ∈ rows.getLast?, ∃ d : Digest, last.rowHash = some (hexEncode d.bytes) := by
    intro last hmem
    obtain ⟨prev, content, -, -, hhash⟩ := h.hashes last (mem_of_getLast? hmem)
    exact ⟨_, hhash⟩
  refine ⟨?_, ?_, ?_, ?_⟩
  · refine pairwise_append.2 ⟨h.ordered, pairwise_singleton _ _, ?_⟩
    intro r hr r' hr'
    rw [mem_singleton.1 hr']
    exact hid r hr
  · intro first hfirst
    cases rows with
    | nil =>
      obtain rfl : row = first := by simpa using hfirst
      simpa using hrow.prevHash
    | cons r rows => exact h.first first (by simpa using hfirst)
  · refine isChain_append.2 ⟨h.links, isChain_singleton _, ?_⟩
    intro last hmem next hnext
    obtain rfl : row = next := by simpa using hnext
    obtain ⟨d, hd⟩ := hlast last hmem
    rw [hrow.prevHash, mem_def.1 hmem, bind_some, hd, getD_some]
  · intro r hr
    rcases mem_append.1 hr with hr | hr
    · exact h.hashes r hr
    rw [mem_singleton.1 hr]
    refine hrow.rowHashVerifies ?_
    intro hex hhex
    obtain ⟨last, hmem, hhash⟩ := bind_eq_some_iff.1 hhex
    obtain ⟨d, hd⟩ := hlast last hmem
    exact ⟨d, some.inj (hhash.symm.trans hd)⟩

/-- The text of the time hashed is that of the time stored. -/
def Timely (r : DecisionRecord) (a : Attempt) : Prop :=
  toRfc3339 (decidedAt r a) = toRfc3339 (a.dbNow * 1000)
deriving Decidable

variable (sha256 bypassRls) in
/-- A transaction is aborted, using up ids, or inserts a row on the tip it has seen. -/
inductive Commits (r : DecisionRecord) (a : Attempt) (db : DecisionDb) :
    Except DbError Nat × DecisionDb → Prop
  | aborted (e : DbError) (n : Nat) : Commits r a db (.error e, { db with nextId := db.nextId + n })
  | inserted (row : DecisionRow) (driftLog : List DriftLogRecord) (hid : db.nextId ≤ row.id)
      (hputOn : PutOn sha256 (db.tip bypassRls row.orgId) row)
      (hcontent : Timely r a → row.ContentVerifies sha256) :
      Commits r a db (.ok row.id, ⟨db.rows ++ [row], row.id + 1, driftLog⟩)

variable {strict : Bool} {r : DecisionRecord} {drift : Option DriftLogRecord}

theorem commits_insertOnce (db : DecisionDb) (a : Attempt) :
    Commits sha256 bypassRls r a db (insertOnce sha256 bypassRls strict r drift db a) := by
  unfold insertOnce
  split
  · exact .aborted _ 0
  split
  · exact .aborted _ a.burnt
  split
  · exact .aborted _ a.burnt
  next decision hdecision =>
    split
    · exact .aborted _ a.burnt
    split
    · refine .inserted _ _ (Nat.le_add_right _ _) ⟨rfl, _, rfl, rfl⟩ ?_
      intro htime
      have hlabel : decision.label = r.decision := by simpa using List.find?_some hdecision
      simp only [DecisionRow.ContentVerifies, decisionRow, hlabel]
      rw [htime]
    · exact .aborted _ a.burnt

variable {db : DecisionDb}

/-- Ids that were used up before make no difference. -/
theorem Commits.of_burnt {a : Attempt} {n : Nat} {result : Except DbError Nat × DecisionDb}
    (h : Commits sha256 bypassRls r a { db with nextId := db.nextId + n } result) :
    Commits sha256 bypassRls r a db result := by
  cases h with
  | aborted e m =>
    rw [show db.nextId + n + m = db.nextId + (n + m) from add_assoc _ _ _]
    exact .aborted e (n + m)
  | inserted row driftLog hid hputOn hcontent =>
    exact .inserted row driftLog (Nat.le_of_add_right_le hid) hputOn hcontent

/-- A call ends as one of its attempts does. -/
theorem exists_commits_insertFrom (attempts : Nat → Attempt) (left i : Nat) (db : DecisionDb) :
    ∃ j, j ≤ i + left ∧ Commits sha256 bypassRls r (attempts j) db
      (insertFrom sha256 bypassRls strict r drift attempts left i db) := by
  induction left generalizing i db with
  | zero => exact ⟨i, le_rfl, commits_insertOnce db (attempts i)⟩
  | succ left ih =>
    have honce : Commits sha256 bypassRls r (attempts i) db
        (insertOnce sha256 bypassRls strict r drift db (attempts i)) :=
      commits_insertOnce db (attempts i)
    unfold insertFrom
    split
    · next db' hfailed =>
      rw [hfailed] at honce
      cases honce with
      | aborted e n =>
        obtain ⟨j, hj, hcommits⟩ := ih (i + 1) { db with nextId := db.nextId + n }
        exact ⟨j, by omega, hcommits.of_burnt⟩
    · exact ⟨i, by omega, honce⟩

/-! ## Every run -/

/-- Any attempt of the call would store the time that it hashes. -/
def InsertCall.Timely (c : InsertCall) : Prop :=
  ∀ i < serializableMaxAttempts, Db.Timely c.record (c.attempts i)

instance (c : InsertCall) : Decidable c.Timely :=
  inferInstanceAs (Decidable (∀ i < serializableMaxAttempts, _))

/-- Ids are given out in order. -/
structure Numbered (db : DecisionDb) : Prop where
  ordered : db.rows.Pairwise (·.id < ·.id)
  bounded : ∀ row ∈ db.rows, row.id < db.nextId

/-- The table from before the chain. -/
structure Unchained (db : DecisionDb) : Prop extends Numbered db where
  rowHash : ∀ row ∈ db.rows, row.rowHash = none

theorem Numbered.append (h : Numbered db) (hid : db.nextId ≤ row.id)
    (driftLog : List DriftLogRecord) : Numbered ⟨db.rows ++ [row], row.id + 1, driftLog⟩ where
  ordered := by
    refine pairwise_append.2 ⟨h.ordered, pairwise_singleton _ _, ?_⟩
    intro r hr r' hr'
    rw [mem_singleton.1 hr']
    exact (h.bounded r hr).trans_le hid
  bounded := by
    intro r hr
    rcases mem_append.1 hr with hr | hr
    · exact (h.bounded r hr).trans_le (hid.trans (Nat.le_succ _))
    · rw [mem_singleton.1 hr]
      exact Nat.lt_succ_self _

variable (bypassRls) in
/-- A new row ends the chain of those who see it: they see what its transaction saw. -/
theorem chained_append (db : DecisionDb) (hrow : row.rowHash.isSome) (nextId : Nat)
    (driftLog : List DriftLogRecord) (orgId : Option Uuid) :
    let db' : DecisionDb := ⟨db.rows ++ [row], nextId, driftLog⟩
    db'.chained bypassRls orgId = db.chained bypassRls orgId ∨
      (db'.chained bypassRls orgId = db.chained bypassRls orgId ++ [row] ∧
        db.chained bypassRls row.orgId = db.chained bypassRls orgId) := by
  intro db'
  by_cases hsees : row.seenBy bypassRls orgId
  · refine .inr ⟨?_, ?_⟩
    · simp [db', DecisionDb.chained, DecisionDb.visible, hsees, hrow]
    · cases bypassRls with
      | true => rfl
      | false =>
        have horg : row.orgId.isSome = true ∧ row.orgId = orgId := by
          simpa [DecisionRow.seenBy] using hsees
        rw [horg.2]
  · exact .inl (by simp [db', DecisionDb.chained, DecisionDb.visible, hsees])

variable (sha256 bypassRls) in
/-- What every tenant sees of the chain is linked. -/
structure Chained (db : DecisionDb) : Prop extends Numbered db where
  linked : ∀ orgId, Linked sha256 (db.chained bypassRls orgId)

theorem Unchained.chained (h : Unchained db) : Chained sha256 bypassRls db where
  toNumbered := h.toNumbered
  linked := by
    intro orgId
    have hnil : db.chained bypassRls orgId = [] := by
      refine filter_eq_nil_iff.2 fun row hrow => ?_
      rw [h.rowHash row (mem_of_mem_filter hrow)]
      exact Bool.false_ne_true
    rw [hnil]
    exact ⟨List.Pairwise.nil, by simp, isChain_nil, by simp⟩

theorem PutOn.isSome {tip : Option String} (h : PutOn sha256 tip row) : row.rowHash.isSome := by
  obtain ⟨content, -, hrow⟩ := h.hashes
  rw [hrow]
  rfl

theorem Chained.commits {a : Attempt} (h : Chained sha256 bypassRls db)
    {result : Except DbError Nat × DecisionDb} (hcommits : Commits sha256 bypassRls r a db result) :
    Chained sha256 bypassRls result.2 := by
  cases hcommits with
  | aborted e n =>
    exact ⟨⟨h.ordered, fun row hrow => (h.bounded row hrow).trans_le (Nat.le_add_right _ _)⟩,
      h.linked⟩
  | inserted row driftLog hid hputOn hcontent =>
    refine ⟨h.toNumbered.append hid driftLog, fun orgId => ?_⟩
    rcases chained_append bypassRls db hputOn.isSome (row.id + 1) driftLog orgId with
      hsame | ⟨happend, hseen⟩
    · rw [hsame]
      exact h.linked orgId
    · rw [happend]
      refine (h.linked orgId).concat ?_ ?_
      · intro row' hrow'
        have hmem : row' ∈ db.rows := mem_of_mem_filter (mem_of_mem_filter hrow')
        exact (h.bounded row' hmem).trans_le hid
      · rw [← hseen]
        exact hputOn

variable (sha256) in
def ContentsVerify (db : DecisionDb) : Prop :=
  ∀ row ∈ db.rows, row.rowHash.isSome → row.ContentVerifies sha256

theorem ContentsVerify.commits {a : Attempt} (h : ContentsVerify sha256 db) (htimely : Timely r a)
    {result : Except DbError Nat × DecisionDb} (hcommits : Commits sha256 bypassRls r a db result) :
    ContentsVerify sha256 result.2 := by
  cases hcommits with
  | aborted e n => exact h
  | inserted row driftLog hid hputOn hcontent =>
    intro row' hrow' hsome
    rcases mem_append.1 hrow' with hrow' | hrow'
    · exact h row' hrow' hsome
    · rw [mem_singleton.1 hrow']
      exact hcontent htimely

/-- Both functions make attempts. -/
theorem exists_commits_exec (db : DecisionDb) (c : InsertCall) :
    ∃ i < serializableMaxAttempts, ∃ result,
      Commits sha256 bypassRls c.record (c.attempts i) db result ∧
      exec sha256 bypassRls db c = result.2 := by
  unfold exec insertDecision insertDecisionWithDrift
  split
  all_goals
    obtain ⟨i, hi, hcommits⟩ :=
      exists_commits_insertFrom c.attempts (serializableMaxAttempts - 1) 0 db
    exact ⟨i, by unfold serializableMaxAttempts at *; omega, _, hcommits, rfl⟩

variable (sha256 bypassRls) in
/-- **The chain of decisions**: after any calls by any tenants, the rows of the chain that a tenant
sees are linked and have the right hashes. If the calls store the times they hash, the content
hashes can be recomputed too. -/
theorem decisions_verify_of_timely {db : DecisionDb} (hdb : Unchained db) (calls : List InsertCall)
    (orgId : Option Uuid) :
    let rows := (run (exec sha256 bypassRls) db calls).chained bypassRls orgId
    Linked sha256 rows ∧
      ((∀ c ∈ calls, c.Timely) → ∀ row ∈ rows, row.ContentVerifies sha256) := by
  intro rows
  refine ⟨?_, ?_⟩
  · have hchained : Chained sha256 bypassRls (run (exec sha256 bypassRls) db calls) := by
      refine run_invariant hdb.chained ?_ calls
      intro db c h
      obtain ⟨i, -, result, hcommits, hexec⟩ := exists_commits_exec db c
      rw [hexec]
      exact h.commits hcommits
    exact hchained.linked orgId
  · intro htimely
    have hcontents : ContentsVerify sha256 (run (exec sha256 bypassRls) db calls) := by
      refine run_invariant_of_mem ?_ ?_
      · intro row hrow hsome
        rw [hdb.rowHash row hrow] at hsome
        exact absurd hsome Bool.false_ne_true
      · intro db c hc h
        obtain ⟨i, hi, result, hcommits, hexec⟩ := exists_commits_exec db c
        rw [hexec]
        exact h.commits (htimely c hc i hi) hcommits
    intro row hrow
    obtain ⟨hvisible, hsome⟩ := mem_filter.1 hrow
    exact hcontents row (mem_of_mem_filter hvisible) hsome

end

/-- A decision of one tenant, decided at a second of 2026. -/
def decisionAt (second : Int) : DecisionRecord :=
  ⟨.fromU128 7, some (.fromU128 2), "a", "ALLOW", none, none, none, none, none, none, none, none,
    some ((1767225600 + second) * 1000000000)⟩

/-- The first attempt fails; the second is at this second of the database's clock. -/
def retriedAt (second : Int) (i : Nat) : Attempt :=
  ⟨0, (1767225600 + second) * 1000000, 1, if i = 0 then some .serializationFailure else none⟩

/-- An empty database. -/
def emptyDb : DecisionDb := ⟨[], 1, []⟩

def timelyCalls : List InsertCall :=
  [⟨true, decisionAt 1, none, retriedAt 1⟩,
    ⟨true, decisionAt 2, some ⟨"a", "c", 0, 0, 1, 1, "Maintain"⟩, retriedAt 2⟩]

theorem timely_decisions_verify :
    let rows := (run (exec toyHash false) emptyDb timelyCalls).chained false (some (.fromU128 2))
    rows.map (·.id) = [3, 6] ∧ Linked toyHash rows ∧
      ∀ row ∈ rows, row.ContentVerifies toyHash := by
  have hempty : Unchained emptyDb := ⟨⟨List.Pairwise.nil, by simp [emptyDb]⟩, by simp [emptyDb]⟩
  obtain ⟨hlinked, hcontents⟩ :=
    decisions_verify_of_timely toyHash false hempty timelyCalls (some (.fromU128 2))
  exact ⟨by decide +kernel, hlinked, hcontents (by decide +kernel)⟩

/-- The transaction's time is stored, not the decision's a second before. -/
theorem late_decision_does_not_verify :
    let rows := (run (exec toyHash false) emptyDb
      [⟨true, decisionAt 1, none, retriedAt 2⟩]).chained false (some (.fromU128 2))
    rows.map (fun row => toRfc3339 (row.decidedAt * 1000)) = ["2026-01-01T00:00:02+00:00"] ∧
      rows.map (fun row => decide (row.ContentVerifies toyHash)) = [false] := by
  decide +kernel

end Haltchain.Db
