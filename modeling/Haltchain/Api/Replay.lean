import Haltchain.Api.Headers
import Haltchain.Lib.Base64
import Haltchain.Lib.Expiry
import Haltchain.Merkle.Inclusion
import Haltchain.Signing.Ed25519
import Haltchain.Validator.Mediation

/-! # Replay protection of the api

A signed request carries a nonce and a timestamp. The timestamp may be 300 seconds away from the
clock, in either direction, and the nonce must not be in the store, where it is put for 300 seconds.
The store is shared by the two kinds of requests: Ed25519 over headers and body, with the timestamp
in whole seconds, and HMAC over fields of the body, with one in RFC 3339. It is swept at most once a
minute.

There is one clock here, in nanoseconds, read once a request. Parsing of RFC 3339 and the hashes are
parameters. -/

namespace Haltchain.Api

open Lib Merkle Signing Validator Option

/-- A reading of the clock: before the end of the calendar of chrono. -/
structure Moment where
  nanos : Nat
  nanos_lt : nanos < secs 8210266876800

/-- The whole seconds since 1970. -/
def Moment.timestamp (t : Moment) : Int := (t.nanos / 1000000000 : Nat)

/-! ## The store of nonces -/

def nonceTtlSecs : Nat := 300

def nonceSweepSecs : Nat := 60

def maxNonceEntries : Nat := 50000

structure NonceStore where
  nonces : Stamps String
  /-- Set by the first request. -/
  lastSweep : Option Nat

namespace NonceStore

/-- The empty store. -/
def new : NonceStore := ⟨∅, none⟩

/-- What happens under the first lock. -/
def sweep (s : NonceStore) (now : Nat) : NonceStore :=
  let last := s.lastSweep.getD now
  if secs nonceSweepSecs < now - last then ⟨s.nonces.expire (secs nonceTtlSecs) now, some now⟩
  else { s with lastSweep := some last }

/-- Whether the nonce is new, with the store after it. -/
def checkAndInsertNonce (s : NonceStore) (now : Nat) (nonce : String) : Bool × NonceStore :=
  let s := s.sweep now
  if nonce ∈ s.nonces then (false, s)
  else if maxNonceEntries ≤ s.nonces.entries.length then (false, s)
  else (true, { s with nonces := s.nonces.insert nonce now })

/-- The nonce is new after the sweep, and there is room for it. -/
def Free (s : NonceStore) (now : Nat) (nonce : String) : Prop :=
  nonce ∉ (s.sweep now).nonces ∧ (s.sweep now).nonces.entries.length < maxNonceEntries
deriving Decidable

variable {s : NonceStore} {now t : Nat} {nonce a : String}

theorem checkAndInsertNonce_of_free (h : s.Free now nonce) : s.checkAndInsertNonce now nonce =
      (true, { s.sweep now with nonces := (s.sweep now).nonces.insert nonce now }) := by
  unfold checkAndInsertNonce
  rw [if_neg h.1, if_neg (not_le.2 h.2)]

theorem checkAndInsertNonce_of_not_free (h : ¬ s.Free now nonce) :
    s.checkAndInsertNonce now nonce = (false, s.sweep now) := by
  unfold checkAndInsertNonce
  dsimp only
  split
  · rfl
  · next hnew => rw [if_pos (not_lt.1 fun hroom => h ⟨hnew, hroom⟩)]

/-- Either the nonce is refused, or it is new and put in, at the time of the check. -/
theorem checkAndInsertNonce_cases (s : NonceStore) (now : Nat) (nonce : String) :
    s.checkAndInsertNonce now nonce = (false, s.sweep now) ∨
    nonce ∉ (s.sweep now).nonces ∧
      s.checkAndInsertNonce now nonce =
        (true, { s.sweep now with nonces := (s.sweep now).nonces.insert nonce now }) := by
  by_cases hfree : s.Free now nonce
  · exact .inr ⟨hfree.1, checkAndInsertNonce_of_free hfree⟩
  · exact .inl (checkAndInsertNonce_of_not_free hfree)

section

variable (ha : s.nonces.lookup a = some t) (hage : now - t < secs nonceTtlSecs)

include ha hage

theorem lookup_sweep : (s.sweep now).nonces.lookup a = some t := by
  unfold sweep
  dsimp only
  split
  · exact Stamps.lookup_expire.2 ⟨ha, hage⟩
  · exact ha

/-- A nonce that has not expired stays in the store. -/
theorem lookup_checkAndInsertNonce :
    (s.checkAndInsertNonce now nonce).2.nonces.lookup a = some t := by
  have hsweep := lookup_sweep ha hage
  rcases checkAndInsertNonce_cases s now nonce with h | ⟨hnew, h⟩
  · rw [h, hsweep]
  · rw [h]
    exact Stamps.lookup_insert_of_notMem hnew hsweep

theorem checkAndInsertNonce_of_lookup : (s.checkAndInsertNonce now a).1 = false := by
  rcases checkAndInsertNonce_cases s now a with h | ⟨hnew, -⟩
  · rw [h]
  · exact absurd (Stamps.mem_iff_lookup.2 ⟨t, lookup_sweep ha hage⟩) hnew

end

theorem lookup_of_checkAndInsertNonce (h : (s.checkAndInsertNonce now nonce).1 = true) :
    (s.checkAndInsertNonce now nonce).2.nonces.lookup nonce = some now := by
  rcases checkAndInsertNonce_cases s now nonce with heq | ⟨-, heq⟩
  · rw [heq] at h
    simp at h
  · rw [heq]
    exact AList.lookup_insert _

/-- Nothing in the store is later than `t`. -/
structure Until (t : Nat) (s : NonceStore) : Prop where
  nonces : ∀ a u, s.nonces.lookup a = some u → u ≤ t
  lastSweep : ∀ u, s.lastSweep = some u → u ≤ t

theorem until_new (t : Nat) : new.Until t :=
  ⟨fun _ _ h => absurd h (by simp [new]), fun _ h => absurd h (by simp [new])⟩

theorem Until.sweep (h : s.Until t) (hnow : now ≤ t) : (s.sweep now).Until t := by
  unfold NonceStore.sweep
  dsimp only
  split
  · refine ⟨fun a u ha => h.nonces a u (Stamps.lookup_expire.1 ha).1, ?_⟩
    rintro u ⟨⟩
    exact hnow
  · refine ⟨h.nonces, ?_⟩
    rintro u ⟨⟩
    cases hlast : s.lastSweep with
    | none => exact hnow
    | some last => exact h.lastSweep last hlast

theorem Until.checkAndInsertNonce (h : s.Until t) (hnow : now ≤ t) (nonce : String) :
    (s.checkAndInsertNonce now nonce).2.Until t := by
  have hsweep := h.sweep hnow
  rcases checkAndInsertNonce_cases s now nonce with heq | ⟨-, heq⟩
  · rw [heq]
    exact hsweep
  · rw [heq]
    refine ⟨fun a u ha => ?_, hsweep.lastSweep⟩
    rcases of_lookup_insert ha with ⟨-, rfl⟩ | ⟨-, ha⟩
    · exact hnow
    · exact hsweep.nonces a u ha

theorem isSome_lastSweep_checkAndInsertNonce :
    (s.checkAndInsertNonce now nonce).2.lastSweep.isSome := by
  have hsweep : (s.sweep now).lastSweep.isSome := by
    unfold sweep
    dsimp only
    split <;> rfl
  rcases checkAndInsertNonce_cases s now nonce with heq | ⟨-, heq⟩
  · rw [heq]
    exact hsweep
  · rw [heq]
    exact hsweep

/-- After the time to live, the next check sweeps the store and takes every nonce. -/
theorem checkAndInsertNonce_of_until (h : s.Until t) (hlast : s.lastSweep.isSome)
    (hnow : t + secs nonceTtlSecs ≤ now) : (s.checkAndInsertNonce now nonce).1 = true := by
  obtain ⟨last, hlast⟩ := isSome_iff_exists.1 hlast
  have hle := h.lastSweep last hlast
  have hempty : (s.sweep now).nonces = ∅ := by
    have hdue : secs nonceSweepSecs < now - last := by
      simp only [secs, nonceSweepSecs, nonceTtlSecs] at hnow ⊢
      omega
    have hexpire : s.nonces.expire (secs nonceTtlSecs) now = ∅ := by
      refine AList.ext (List.filter_eq_nil_iff.2 fun e he => ?_)
      have := h.nonces e.1 e.2 (AList.mem_lookup_iff.2 he)
      simp only [decide_eq_true_eq]
      omega
    simp [sweep, hlast, hdue, hexpire]
  have hfree : s.Free now nonce := by simp [Free, hempty, maxNonceEntries]
  rw [checkAndInsertNonce_of_free hfree]

end NonceStore

/-! ## Timestamps -/

def requestSigMaxAgeSecs : Int := 300

/-- Arithmetic of `i64` as it is compiled for release. -/
def wrap64 (x : Int) : Int := (x + 2 ^ 63) % 2 ^ 64 - 2 ^ 63

/-- The timestamp of a request, in seconds or nanoseconds. -/
inductive Timestamp where
  | unix (ts : Int)
  | rfc3339 (ts : Int)
deriving DecidableEq

def Timestamp.fresh (now : Moment) : Timestamp → Bool
  | .unix ts => wrap64 (wrap64 (now.timestamp - ts)).natAbs ≤ requestSigMaxAgeSecs
  -- `num_seconds` drops the fraction
  | .rfc3339 ts => (((now.nanos : Int) - ts).tdiv 1000000000).natAbs ≤ requestSigMaxAgeSecs

/-- A second has passed since, at least. -/
def Timestamp.Past (now : Moment) : Timestamp → Prop
  | .unix ts => ts < now.timestamp
  | .rfc3339 ts => ts + 1000000000 ≤ now.nanos

instance (now : Moment) (ts : Timestamp) : Decidable (ts.Past now) := by
  unfold Timestamp.Past
  split <;> infer_instance

/-- It is a number of 64 bits. -/
def Timestamp.InRange : Timestamp → Prop
  | .unix ts => -2 ^ 63 ≤ ts ∧ ts < 2 ^ 63
  | .rfc3339 _ => True

namespace Timestamp

theorem fresh_unix {now : Moment} {ts : Int} (hrange : (unix ts).InRange) :
    (unix ts).fresh now = true ↔
      (now.timestamp - ts).natAbs ≤ 300 ∨ now.timestamp - ts = 2 ^ 63 := by
  obtain ⟨hmin, hmax⟩ : -2 ^ 63 ≤ ts ∧ ts < 2 ^ 63 := hrange
  have hend := now.nanos_lt
  rw [fresh, decide_eq_true_iff, wrap64, wrap64, Moment.timestamp, requestSigMaxAgeSecs]
  unfold secs at hend
  omega

theorem fresh_rfc3339 {now : Moment} {ts : Int} :
    (rfc3339 ts).fresh now = true ↔ ((now.nanos : Int) - ts).natAbs < 301 * 1000000000 := by
  rw [fresh, decide_eq_true_iff, Int.natAbs_tdiv]
  change ((_ / 1000000000 : Nat) : Int) ≤ 300 ↔ _
  omega

variable {t t' : Moment} {ts : Timestamp}

/-- Such a timestamp is stale when the nonce expires. -/
theorem not_fresh_of_past (hrange : ts.InRange) (hpast : ts.Past t) (hfresh : ts.fresh t = true)
    (hlater : t.nanos + secs nonceTtlSecs ≤ t'.nanos) : ¬ ts.fresh t' = true := by
  have hend := t'.nanos_lt
  unfold secs nonceTtlSecs at *
  cases ts with
  | unix ts =>
    rw [fresh_unix hrange] at hfresh ⊢
    unfold Past at hpast
    unfold Moment.timestamp at *
    omega
  | rfc3339 ts =>
    rw [fresh_rfc3339] at hfresh ⊢
    unfold Past at hpast
    omega

theorem fresh_of_not_past (hrange : ts.InRange) (hpast : ¬ ts.Past t) (hfresh : ts.fresh t = true)
    (hlater : t'.nanos = t.nanos + secs nonceTtlSecs) : ts.fresh t' = true := by
  unfold secs nonceTtlSecs at hlater
  cases ts with
  | unix ts =>
    rw [fresh_unix hrange] at hfresh ⊢
    unfold Past at hpast
    unfold Moment.timestamp at *
    omega
  | rfc3339 ts =>
    rw [fresh_rfc3339] at hfresh ⊢
    unfold Past at hpast
    omega

end Timestamp

/-! ## The two kinds of requests -/

/-- What the checks are given from outside. -/
structure Keys (κ : Type) where
  ed25519 : Ed25519 κ
  clientPubkeys : AList fun _ : String => κ
  sha256 : List UInt8 → Digest
  hmacSha256 : List UInt8 → List UInt8 → Digest
  parseRfc3339 : String → Option Int

variable {κ : Type} (keys : Keys κ)

/-- Why a request is rejected. -/
inductive SignatureError where
  | missingHeader
  | invalidTimestamp
  | unknownKey
  | invalidSignature
deriving DecidableEq

structure SignatureHeaders where
  sigB64 : String
  timestamp : String
  nonce : String
  keyId : String

def readSignatureHeaders (headers : HeaderMap) : Option SignatureHeaders := do
  let sigB64 ← headers.getStr "x-haltchain-signature"
  let timestamp ← headers.getStr "x-haltchain-timestamp"
  let nonce ← headers.getStr "x-haltchain-nonce"
  let keyId ← headers.getStr "x-haltchain-key-id"
  return ⟨sigB64, timestamp, nonce, keyId⟩

/-- The signature, after the checks of timestamp and nonce. -/
def verifySignatureHeaders (h : SignatureHeaders) (body : List UInt8) :
    Except SignatureError Bool :=
  match keys.clientPubkeys.lookup h.keyId with
  | none => .error .unknownKey
  | some pubkey =>
    match (Base64.decode h.sigB64).bind Signature.fromSlice with
    | none => .error .invalidSignature
    | some sig =>
      let bodyHash := hexEncode (keys.sha256 body).bytes
      .ok (keys.ed25519.verify pubkey (bytesOf s!"{h.timestamp}:{h.nonce}:{bodyHash}") sig)

def verifyEd25519RequestSig (s : NonceStore) (now : Moment) (headers : HeaderMap)
    (body : List UInt8) : Except SignatureError Bool × NonceStore :=
  match readSignatureHeaders headers with
  | none => (.error .missingHeader, s)
  | some h =>
    match parseI64 h.timestamp with
    | none => (.error .invalidTimestamp, s)
    | some ts =>
      if (Timestamp.unix ts).fresh now then
        match s.checkAndInsertNonce now.nanos h.nonce with
        | (false, s) => (.ok false, s)
        | (true, s) => (verifySignatureHeaders keys h body, s)
      else (.ok false, s)

/-- The fields of a request that the legacy checks look at. -/
structure LegacyRequest where
  agentId : String
  apiKey : String
  requestNonce : String
  requestTimestamp : String
  requestSig : String

def verifyRequestSig (r : LegacyRequest) : Bool :=
  let canonical := s!"{r.agentId}\x00{r.requestNonce}\x00{r.requestTimestamp}"
  let expected := (keys.hmacSha256 (bytesOf r.apiKey) (bytesOf canonical)).bytes
  match hexDecode r.requestSig with
  | none => false
  | some provided =>
    if provided.length ≠ expected.length then false
    else (expected.zip provided).foldl (fun diff p => diff ||| (p.1 ^^^ p.2)) 0 == 0

/-- The timestamp of a legacy request, if it can be read. -/
def LegacyRequest.timestamp (r : LegacyRequest) : Option Timestamp :=
  (keys.parseRfc3339 r.requestTimestamp).map .rfc3339

def timestampFresh (now : Moment) (r : LegacyRequest) : Bool :=
  match r.timestamp keys with
  | some ts => ts.fresh now
  | none => false

/-- The checks in the handler, each with its message. -/
def legacyChecks (s : NonceStore) (now : Moment) (r : LegacyRequest) :
    Except String Unit × NonceStore :=
  if trim r.requestNonce = "" ∨ trim r.requestTimestamp = "" ∨ trim r.requestSig = "" then
    (.error "request_nonce, request_timestamp, and request_sig are required", s)
  else if timestampFresh keys now r then
    match s.checkAndInsertNonce now.nanos r.requestNonce with
    | (false, s) => (.error "replayed request_nonce", s)
    | (true, s) =>
      (if verifyRequestSig keys r then .ok () else .error "invalid request_sig", s)
  else (.error "request_timestamp outside freshness window", s)

/-- A signed request as it is presented. -/
inductive SignedRequest where
  | ed25519 (headers : HeaderMap) (body : List UInt8)
  | legacy (r : LegacyRequest)

namespace SignedRequest

/-- Whether the request is accepted, with the store after it. -/
def handle (s : NonceStore) (now : Moment) : SignedRequest → Bool × NonceStore
  | .ed25519 headers body =>
    match verifyEd25519RequestSig keys s now headers body with
    | (.ok valid, s) => (valid, s)
    | (.error _, s) => (false, s)
  | .legacy r =>
    match legacyChecks keys s now r with
    | (.ok _, s) => (true, s)
    | (.error _, s) => (false, s)

/-- The nonce and timestamp of a request that reaches the two checks. -/
def stamp : SignedRequest → Option (String × Timestamp)
  | .ed25519 headers _ => do
    let h ← readSignatureHeaders headers
    let ts ← parseI64 h.timestamp
    return (h.nonce, .unix ts)
  | .legacy r =>
    if trim r.requestNonce = "" ∨ trim r.requestTimestamp = "" ∨ trim r.requestSig = "" then none
    else (r.timestamp keys).map (r.requestNonce, ·)

/-- The two checks alone, without the signature. -/
def check (s : NonceStore) (now : Moment) (r : SignedRequest) : Bool × NonceStore :=
  match r.stamp keys with
  | some (nonce, ts) =>
    if ts.fresh now then s.checkAndInsertNonce now.nanos nonce else (false, s)
  | none => (false, s)

/-- Whether the signature is good, whatever timestamp and nonce are. -/
def signed : SignedRequest → Bool
  | .ed25519 headers body =>
    match (readSignatureHeaders headers).map (verifySignatureHeaders keys · body) with
    | some (.ok valid) => valid
    | _ => false
  | .legacy r => verifyRequestSig keys r

variable {keys}

/-- **A request is accepted** if it passes the two checks and is signed; only the checks change the
store. -/
theorem handle_eq (s : NonceStore) (now : Moment) (r : SignedRequest) :
    r.handle keys s now = ((r.check keys s now).1 && r.signed keys, (r.check keys s now).2) := by
  cases r with
  | ed25519 headers body =>
    cases hread : readSignatureHeaders headers with
    | none => simp [handle, check, stamp, verifyEd25519RequestSig, hread]
    | some h =>
      cases hts : parseI64 h.timestamp with
      | none => simp [handle, check, stamp, verifyEd25519RequestSig, hread, hts]
      | some ts =>
        cases hfresh : (Timestamp.unix ts).fresh now with
        | false => simp [handle, check, stamp, verifyEd25519RequestSig, hread, hts, hfresh]
        | true =>
          simp only [handle, check, stamp, verifyEd25519RequestSig, hread, hts, hfresh,
            bind_eq_bind, bind_some, pure_def, signed,
            map_some]
          rcases s.checkAndInsertNonce now.nanos h.nonce with ⟨_ | _, s'⟩
          · simp
          · cases verifySignatureHeaders keys h body <;> simp
  | legacy r =>
    by_cases hempty :
        trim r.requestNonce = "" ∨ trim r.requestTimestamp = "" ∨ trim r.requestSig = ""
    · simp [handle, check, stamp, legacyChecks, hempty]
    · cases hts : r.timestamp keys with
      | none => simp [handle, check, stamp, legacyChecks, timestampFresh, hempty, hts]
      | some ts =>
        cases hfresh : ts.fresh now with
        | false =>
          simp [handle, check, stamp, legacyChecks, timestampFresh, hempty, hts, hfresh]
        | true =>
          simp only [handle, check, stamp, legacyChecks, timestampFresh, hempty, hts, hfresh,
            map_some, if_false, signed]
          rcases s.checkAndInsertNonce now.nanos r.requestNonce with ⟨_ | _, s'⟩
          · simp
          · cases verifyRequestSig keys r <;> simp

theorem stamp_inRange {r : SignedRequest} {nonce : String} {ts : Timestamp}
    (h : r.stamp keys = some (nonce, ts)) : ts.InRange := by
  cases r with
  | ed25519 headers body =>
    obtain ⟨h', -, hparse⟩ := bind_eq_some_iff.1 h
    obtain ⟨ts', hts, heq⟩ := bind_eq_some_iff.1 hparse
    obtain ⟨-, rfl⟩ := Prod.mk.inj (some.inj heq)
    exact parseI64_range hts
  | legacy r =>
    unfold stamp at h
    dsimp only at h
    split at h
    · simp at h
    · obtain ⟨ts', hts, heq⟩ := map_eq_some_iff.1 h
      obtain ⟨n, -, rfl⟩ := map_eq_some_iff.1 hts
      obtain ⟨-, rfl⟩ := Prod.mk.inj heq
      trivial

/-- What a request that passes has. -/
theorem of_check {s : NonceStore} {now : Moment} {r : SignedRequest}
    (h : (r.check keys s now).1 = true) :
    ∃ nonce ts, r.stamp keys = some (nonce, ts) ∧ ts.fresh now = true ∧
      (s.checkAndInsertNonce now.nanos nonce).1 = true ∧
      (r.check keys s now).2 = (s.checkAndInsertNonce now.nanos nonce).2 := by
  unfold check at h ⊢
  cases hstamp : r.stamp keys with
  | none =>
    rw [hstamp] at h
    simp at h
  | some stamp =>
    obtain ⟨nonce, ts⟩ := stamp
    rw [hstamp] at h
    dsimp only at h ⊢
    split at h
    · rename_i hfresh
      exact ⟨nonce, ts, rfl, hfresh, h, by rw [if_pos hfresh]⟩
    · simp at h

/-! ## Runs -/

variable (keys) in
/-- The store after a request. -/
def handled (s : NonceStore) (p : Moment × SignedRequest) : NonceStore := (p.2.handle keys s p.1).2

/-- The clock does not go back. -/
def InOrder (requests : List (Moment × SignedRequest)) : Prop :=
  requests.Pairwise fun p q => p.1.nanos ≤ q.1.nanos
deriving Decidable

theorem InOrder.le_last {before between : List (Moment × SignedRequest)}
    {p q : Moment × SignedRequest} (h : InOrder (before ++ p :: (between ++ [q]))) :
    ∀ p' ∈ between, p'.1.nanos ≤ q.1.nanos := by
  intro p' hp'
  obtain ⟨-, hfrom, -⟩ := List.pairwise_append.1 h
  obtain ⟨-, hrest⟩ := List.pairwise_cons.1 hfrom
  exact (List.pairwise_append.1 hrest).2.2 p' hp' q (List.mem_singleton_self q)

variable (keys) in
/-- A request leaves the store as it is, or a nonce is checked. -/
theorem handled_cases (s : NonceStore) (p : Moment × SignedRequest) : handled keys s p = s ∨
    ∃ nonce, handled keys s p = (s.checkAndInsertNonce p.1.nanos nonce).2 := by
  rw [handled, handle_eq, check]
  dsimp only
  split
  · split
    · exact .inr ⟨_, rfl⟩
    · exact .inl rfl
  · exact .inl rfl

theorem lookup_run_handled {s : NonceStore} {a : String} {t : Nat}
    (ha : s.nonces.lookup a = some t) {requests : List (Moment × SignedRequest)}
    (hage : ∀ p ∈ requests, p.1.nanos - t < secs nonceTtlSecs) :
    (run (handled keys) s requests).nonces.lookup a = some t := by
  refine run_invariant_of_mem (I := fun s : NonceStore => s.nonces.lookup a = some t) ha ?_
  intro s p hp hs
  rcases handled_cases keys s p with h | ⟨nonce, h⟩
  · rw [h, hs]
  · rw [h, NonceStore.lookup_checkAndInsertNonce hs (hage p hp)]

theorem until_run_handled {t : Nat} {requests : List (Moment × SignedRequest)}
    (hle : ∀ p ∈ requests, p.1.nanos ≤ t) : (run (handled keys) .new requests).Until t := by
  refine run_invariant_of_mem (NonceStore.until_new t) ?_
  intro s p hp hs
  rcases handled_cases keys s p with h | ⟨nonce, h⟩
  · rwa [h]
  · rw [h]
    exact hs.checkAndInsertNonce (hle p hp) nonce

variable (keys) in
/-- The timestamp of the request is a second old. -/
def Past (now : Moment) (r : SignedRequest) : Prop :=
  ∀ p ∈ r.stamp keys, p.2.Past now
deriving Decidable

/-- **A request is taken once if its timestamp was in the past when it was taken.** If not, it can
be taken again once the time to live of its nonce is over. -/
theorem replay_refused_iff_past (before : List (Moment × SignedRequest)) {t : Moment}
    {r : SignedRequest} (horder : InOrder (before ++ [(t, r)]))
    (hpass : (r.check keys (run (handled keys) .new before) t).1 = true) :
    (r.Past keys t → ∀ between t', InOrder (before ++ (t, r) :: (between ++ [(t', r)])) →
      (r.check keys (run (handled keys) .new (before ++ (t, r) :: between)) t').1 = false) ∧
    (¬ r.Past keys t → ∀ t', t'.nanos = t.nanos + secs nonceTtlSecs →
      (r.check keys (run (handled keys) .new (before ++ [(t, r)])) t').1 = true) := by
  obtain ⟨nonce, ts, hstamp, hfresh, hnew, hstore⟩ := of_check hpass
  have hrange := stamp_inRange hstamp
  have hafter : handled keys (run (handled keys) .new before) (t, r) =
      ((run (handled keys) .new before).checkAndInsertNonce t.nanos nonce).2 := by
    rw [handled, handle_eq, hstore]
  refine ⟨fun hpast between t' horder' => ?_, fun hpast t' ht' => ?_⟩
  · replace hpast : ts.Past t := hpast _ hstamp
    rw [check, hstamp]
    dsimp only
    split
    · rename_i hfresh'
      -- fresh, so the nonce has not expired
      have hsoon : t'.nanos - t.nanos < secs nonceTtlSecs := by
        by_contra hlate
        refine Timestamp.not_fresh_of_past hrange hpast hfresh ?_ hfresh'
        unfold secs nonceTtlSecs at *
        omega
      have hbetween : ∀ p ∈ between, p.1.nanos - t.nanos < secs nonceTtlSecs := by
        intro p hp
        exact lt_of_le_of_lt (Nat.sub_le_sub_right (horder'.le_last p hp) _) hsoon
      refine NonceStore.checkAndInsertNonce_of_lookup (t := t.nanos) ?_ hsoon
      rw [run_append, run_cons, hafter]
      exact lookup_run_handled (NonceStore.lookup_of_checkAndInsertNonce hnew) hbetween
    · rfl
  · replace hpast : ¬ ts.Past t := by
      intro h
      refine hpast fun p hp => ?_
      rw [hstamp] at hp
      exact mem_some_iff.1 hp ▸ h
    rw [check, hstamp]
    dsimp only
    rw [if_pos (Timestamp.fresh_of_not_past hrange hpast hfresh ht')]
    refine NonceStore.checkAndInsertNonce_of_until (t := t.nanos) (until_run_handled ?_) ?_ ht'.ge
    · intro p hp
      rcases List.mem_append.1 hp with hp | hp
      · exact (List.pairwise_append.1 horder).2.2 p hp _ (.head _)
      · rw [List.mem_singleton.1 hp]
    · rw [run_concat, hafter]
      exact NonceStore.isSome_lastSweep_checkAndInsertNonce

/-- For examples: every signature is good, and every text is the time 1000 s. -/
def openKeys : Keys Unit where
  ed25519 := ⟨fun _ => some (), fun _ _ _ => true⟩
  clientPubkeys := AList.singleton "client" ()
  sha256 _ := digestOf 0
  hmacSha256 _ _ := digestOf 0
  parseRfc3339 _ := some (secs 1000)

/-- Signed for the time 1000 s. -/
def signedHeaders : SignedRequest :=
  .ed25519 [("x-haltchain-signature", bytesOf (Base64.encode Signature.zeros.bytes)),
    ("x-haltchain-timestamp", bytesOf "1000"), ("x-haltchain-nonce", bytesOf "n"),
    ("x-haltchain-key-id", bytesOf "client")] []

def signedFields : SignedRequest :=
  .legacy ⟨"bot", "key", "n", "1970-01-01T00:16:40Z", hexEncode (digestOf 0).bytes⟩

theorem refused_when_past : (signedHeaders.check openKeys (run (handled openKeys) .new
      [(⟨secs 1001, by decide⟩, signedHeaders), (⟨secs 1200, by decide⟩, signedFields)])
      ⟨secs 1300, by decide⟩).1 = false :=
  (replay_refused_iff_past [] (by decide +kernel) (by decide +kernel)).1
    (by decide +kernel) [(⟨secs 1200, by decide⟩, signedFields)] _ (by decide +kernel)

/-- A request of either kind, presented in time and again 300 seconds later, is accepted twice. -/
theorem accepted_again_after_ttl :
    let s := signedHeaders.handle openKeys .new ⟨secs 1000, by decide⟩
    let s' := signedFields.handle openKeys .new ⟨secs 1000, by decide⟩
    (s.1 = true ∧ (signedHeaders.handle openKeys s.2 ⟨secs 1300, by decide⟩).1 = true) ∧
      (s'.1 = true ∧ (signedFields.handle openKeys s'.2 ⟨secs 1300, by decide⟩).1 = true) := by
  decide +kernel

/-! ## The one timestamp that wraps -/

/-- **When freshness says what it should.** For every reading of the clock one `i64` far away
passes: the difference does not fit, and its absolute value is negative. -/
theorem fresh_exact_iff (now : Moment) (ts : Int) (hrange : (Timestamp.unix ts).InRange) :
    ((Timestamp.unix ts).fresh now = true → (now.timestamp - ts).natAbs ≤ 300) ↔
      now.timestamp - ts ≠ 2 ^ 63 := by
  rw [Timestamp.fresh_unix hrange]
  omega

theorem fresh_exact_at_thousand :
    let now : Moment := ⟨secs 1000, by decide⟩
    (Timestamp.unix 1300).fresh now = true ∧ (now.timestamp - 1300).natAbs ≤ 300 :=
  ⟨by decide, (fresh_exact_iff _ 1300 (show _ ∧ _ by decide)).2 (by decide) (by decide)⟩

/-- Sent a thousand seconds after 1970, and accepted. -/
theorem distant_timestamp_accepted : (verifyEd25519RequestSig openKeys .new ⟨secs 1000, by decide⟩
      [("x-haltchain-signature", bytesOf (Base64.encode Signature.zeros.bytes)),
        ("x-haltchain-timestamp", bytesOf "-9223372036854774808"),
        ("x-haltchain-nonce", bytesOf "n"), ("x-haltchain-key-id", bytesOf "client")] []).1 =
          .ok true ∧ 300 < (1000 - (-9223372036854774808) : Int).natAbs := by
  decide +kernel

end SignedRequest

end Haltchain.Api
