import Haltchain.Signing.Ed25519
import Haltchain.Validator.Evaluators

/-! # The Python client

`_post_validate` of the Python SDK with all that it keeps: the verifier, made from the first public
key that is trusted, its nonces, the pinned id, and the cache of decisions. The server's answers are
any JSON. What the language and its libraries do with values (equality, texts, dates, Base64,
Ed25519, hashing an action) is a parameter. -/

namespace Haltchain.Sdk

open Lib List Option
open Signing (bytesOf)
open Validator (Value)

/-! ## Values -/

/-- What counts as true in a condition. -/
def truthy : Value → Bool
  | .null => false
  | .bool b => b
  | .number n => (Value.number n).asF64 ≠ some 0
  | .string s => s ≠ ""
  | .array items => !items.isEmpty
  | .object fields => !fields.isEmpty

/-- What may be the key of a dictionary. -/
def hashable : Value → Bool
  | .array _ | .object _ => false
  | _ => true

/-- `d.get(name, "")`. -/
def getText (v : Value) (name : String) : Value := (v.get name).getD (.string "")

/-- Language and libraries: `κ` are public keys, `A` the actions, `K` their hashes. -/
structure Runtime (κ A K : Type) where
  pyEq : Value → Value → Bool
  pyEq_string : ∀ v s, pyEq v (.string s) = true ↔ v = .string s
  str : Value → String
  b64decode : Value → Option (List UInt8)
  fromPublicBytes : List UInt8 → Option κ
  verify : κ → List UInt8 → List UInt8 → Bool
  /-- How far a time is from now, in either direction. -/
  age : Int → String → Option Int
  /-- `PolicyCache.key_for`, where the action can be hashed. -/
  keyFor : String → A → Option K

variable {κ A K : Type} (r : Runtime κ A K)

/-! ## The store of nonces -/

/-- Times are in nanoseconds. -/
def nonceTtl : Int := 300 * 1000000000

def nonceMax : Nat := 50000

abbrev NonceStore := List (Value × Int)

/-- `_evict`: the oldest are dropped while they are too old or too many. -/
def NonceStore.evict (now : Int) : NonceStore → NonceStore
  | [] => []
  | (nonce, ts) :: seen =>
    if ts < now - nonceTtl ∨ nonceMax < seen.length + 1 then evict now seen
    else (nonce, ts) :: seen

/-- `check_and_insert`, and whether it raises (`none`). -/
def NonceStore.checkAndInsert (now utc : Int) (nonce signedAt : Value) (seen : NonceStore) :
    Option Bool × NonceStore :=
  let seen := seen.evict now
  if !hashable nonce then (none, seen)
  else if seen.any fun e => r.pyEq e.1 nonce then (some false, seen)
  else
    match signedAt with
    | .null => (some true, seen ++ [(nonce, now)])
    | .string s =>
      if (r.age utc s).any (· ≤ nonceTtl) then (some true, seen ++ [(nonce, now)])
      else (some false, seen)
    | _ => (none, seen)

/-! ## The verifier -/

/-- The verifier of one key. -/
structure Verifier (κ : Type) where
  publicKey : κ
  keyId : Value
  nonces : NonceStore

def canonicalDecisionPayload (transactionId decision agentId timestamp : String) : String :=
  transactionId ++ "\x00" ++ decision ++ "\x00" ++ agentId ++ "\x00" ++ timestamp

/-- What is signed of a response. -/
def canonicalMessage (agentId : String) (response sig : Value) : List UInt8 :=
  let payload := canonicalDecisionPayload (r.str (getText response "transaction_id"))
    (r.str (getText response "decision")) agentId (r.str (getText response "timestamp"))
  bytesOf (payload ++ "\x00" ++ r.str ((sig.get "nonce").getD .null) ++ "\x00" ++
    r.str ((sig.get "signed_at").getD .null))

/-- The signature of the response is one of this key. -/
def signedBy (key : κ) (agentId : String) (response : Value) : Bool :=
  (response.get "sig").any fun sig =>
    ((sig.get "signature").bind r.b64decode).any fun signature =>
      r.verify key signature (canonicalMessage r agentId response sig)

/-- Whether it returns. The nonce is spent before the signature is tried. -/
def Verifier.verifyResponse (v : Verifier κ) (now utc : Int) (response : Value)
    (agentId : String) : Bool × Verifier κ :=
  match response.get "sig" with
  | some (.object fields) =>
    let sig : Value := .object fields
    match sig.get "nonce", sig.get "signed_at", sig.get "signature" with
    | some nonce, some signedAt, some _ =>
      let envelopeKeyId := getText sig "key_id"
      if truthy v.keyId && truthy envelopeKeyId && !r.pyEq envelopeKeyId v.keyId then (false, v)
      else
        let (fresh, nonces) := v.nonces.checkAndInsert r now utc nonce signedAt
        let v := { v with nonces := nonces }
        if fresh = some true then (signedBy r v.publicKey agentId response, v) else (false, v)
    | _, _, _ => (false, v)
  | _ => (false, v)

/-! ## The cache -/

/-- A response with its time. -/
structure CachedDecision where
  decision : Value
  reason : Value
  policy : Value
  cachedAt : Int

/-- The oldest entry first. -/
structure PolicyCache (K : Type) where
  ttl : Int
  maxSize : Int
  store : List (K × CachedDecision)

section

variable [DecidableEq K]

/-- An action that cannot be hashed raises, which the caller takes for a miss. -/
def PolicyCache.get (c : PolicyCache K) (now : Int) (key : Option K) :
    Option CachedDecision × PolicyCache K :=
  match key with
  | none => (none, c)
  | some key =>
    match c.store.find? fun e => e.1 = key with
    | none => (none, c)
    | some (_, entry) =>
      let others := c.store.filter fun e => e.1 ≠ key
      if now - entry.cachedAt < c.ttl then
        (some entry, { c with store := others ++ [(key, entry)] })
      else (none, { c with store := others })

/-- With the loop that drops the oldest. What it raises the caller ignores. -/
def PolicyCache.put (c : PolicyCache K) (key : Option K) (entry : CachedDecision) : PolicyCache K :=
  match key with
  | none => c
  | some key =>
    let store := (c.store.filter fun e => e.1 ≠ key) ++ [(key, entry)]
    { c with store := store.drop (store.length - c.maxSize.toNat) }

end

/-! ## The client -/

/-- What the client keeps. -/
structure Client (κ K : Type) where
  agentId : String
  verifySignatures : Bool
  strictSignatures : Bool
  trustOnRotation : Bool
  /-- `None` is null. -/
  trustedKeyId : Value
  verifier : Option (Verifier κ)
  cache : Option (PolicyCache K)

/-- `_apply_key_trust`; `none` is `KeyRotationError`. -/
def Client.applyKeyTrust (c : Client κ K) (fetchedKeyId : Value) : Option (Client κ K) :=
  if !truthy c.trustedKeyId || !truthy fetchedKeyId then some c
  else if r.pyEq fetchedKeyId c.trustedKeyId then some c
  else if !c.trustOnRotation then none
  else some { c with verifier := none }

/-- `SignatureVerifier(data["public_key_b64"], key_id=...)`, if that works. -/
def newVerifier (data : Value) : Option (Verifier κ) :=
  (((data.get "public_key_b64").bind r.b64decode).bind r.fromPublicBytes).map fun key =>
    ⟨key, getText data "key_id", []⟩

/-- `document` is the server's key document, if it can be fetched. `none` is an exception. -/
def Client.getVerifier (c : Client κ K) (document : Option Value) :
    Option (Option (Verifier κ)) × Client κ K :=
  match c.verifier with
  | some v => (some (some v), c)
  | none =>
    let failed : Option (Option (Verifier κ)) := if c.strictSignatures then none else some none
    match document with
    | some (.object fields) =>
      let data : Value := .object fields
      match c.applyKeyTrust r (getText data "key_id") with
      | none => (none, c)
      | some c =>
        match newVerifier r data with
        | none => (failed, c)
        | some v =>
          (some (some v),
            { c with verifier := some v, trustedKeyId := getText data "key_id" })
    | _ => (failed, c)

/-- No connection, an error status, or a body, which may fail to be JSON. -/
inductive Reply where
  | requestError
  | statusError
  | body (result : Option Value)

/-- A call of `_post_validate`, with what it meets and when. -/
structure Call (A M : Type) where
  action : A
  metadata : M
  sessionId : Option String
  reply : Reply
  keyDocument : Option Value
  /-- The monotonic clock. -/
  now : Int
  utc : Int

inductive Result where
  | raised
  | cached (entry : CachedDecision)
  | returned (result : Value)

variable {M : Type}

/-- The response's signature, if it is verified; whether the call goes on. -/
def Client.verified (c : Client κ K) (call : Call A M) (result : Value) : Bool × Client κ K :=
  if !c.verifySignatures then (true, c)
  else
    match c.getVerifier r call.keyDocument with
    | (none, c) => (false, c)
    | (some none, c) => (true, c)
    | (some (some v), c) =>
      let (ok, v) := v.verifyResponse r call.now call.utc result c.agentId
      (ok, { c with verifier := some v })

variable [DecidableEq K]

/-- `_offline_fallback`. -/
def Client.offlineFallback (c : Client κ K) (call : Call A M) : Result × Client κ K :=
  match c.cache with
  | none => (.raised, c)
  | some cache =>
    match cache.get call.now (r.keyFor c.agentId call.action) with
    | (none, cache) => (.raised, { c with cache := some cache })
    | (some entry, cache) => (.cached entry, { c with cache := some cache })

/-- The response is put into the cache, if it is an object. -/
def Client.remember (c : Client κ K) (call : Call A M) (result : Value) : Client κ K :=
  match c.cache, result with
  | some cache, .object fields =>
    let entry : CachedDecision :=
      { decision := ((Value.object fields).get "decision").getD (.string "DENY")
        reason := getText (.object fields) "reason"
        policy := getText (.object fields) "policy"
        cachedAt := call.now }
    { c with cache := some (cache.put (r.keyFor c.agentId call.action) entry) }
  | _, _ => c

/-- One call of the server. -/
def Client.postValidate (c : Client κ K) (call : Call A M) : Result × Client κ K :=
  match call.reply with
  | .statusError => (.raised, c)
  | .requestError => c.offlineFallback r call
  | .body none => (.raised, c)
  | .body (some result) =>
    match c.verified r call result with
    | (false, c) => (.raised, c)
    | (true, c) => (.returned result, c.remember r call result)

/-- The client after some calls. -/
def Client.after (c : Client κ K) (calls : List (Call A M)) : Client κ K :=
  run (fun c call => (Client.postValidate r c call).2) c calls

/-! ## The pinned key -/

/-- A client that is given an id to pin, and is strict. -/
def Client.pinnedTo (agentId pin : String) (cache : Option (PolicyCache K)) : Client κ K :=
  ⟨agentId, true, true, false, .string pin, none, cache⟩

/-- The document advertises the key under the id. -/
def Advertises (document : Value) (pin : String) (key : κ) : Prop :=
  document.get "key_id" = some (.string pin) ∧
    ((document.get "public_key_b64").bind r.b64decode).bind r.fromPublicBytes = some key

/-- A document that is offered has an id. -/
def HasKeyId (document : Option Value) : Prop :=
  ∀ fields, document = some (.object fields) → truthy (getText (.object fields) "key_id") = true

/-- The id is still pinned, and the verifier's key was advertised under it. -/
structure Client.KeepsPin (agentId pin : String) (documents : List Value) (c : Client κ K) :
    Prop where
  agentId : c.agentId = agentId
  verifies : c.verifySignatures = true
  strict : c.strictSignatures = true
  noRotation : c.trustOnRotation = false
  trusted : c.trustedKeyId = .string pin
  advertised : ∀ v, c.verifier = some v → ∃ d ∈ documents, Advertises r d pin v.publicKey

variable {r} {agentId pin : String} {documents : List Value} {c : Client κ K}

theorem get_of_getText (hpin : pin ≠ "") {v : Value} {name : String}
    (h : getText v name = .string pin) : v.get name = some (.string pin) := by
  unfold getText at h
  cases hget : v.get name with
  | none =>
    rw [hget] at h
    cases h
    exact absurd rfl hpin
  | some found =>
    rw [hget] at h
    exact congrArg some h

omit [DecidableEq K] in
/-- A response let through is signed with the key of the verifier, which stays. -/
theorem Verifier.verifyResponse_spec (r : Runtime κ A K) (v : Verifier κ) (now utc : Int)
    (response : Value) (agentId : String) :
    (v.verifyResponse r now utc response agentId).2.publicKey = v.publicKey ∧
      ((v.verifyResponse r now utc response agentId).1 = true →
        signedBy r v.publicKey agentId response = true) := by
  unfold Verifier.verifyResponse
  split
  · dsimp only
    split
    · split
      · exact ⟨rfl, by simp⟩
      · split
        · exact ⟨rfl, id⟩
        · exact ⟨rfl, by simp⟩
    · exact ⟨rfl, by simp⟩
  · exact ⟨rfl, by simp⟩

section

variable (h : c.KeepsPin r agentId pin documents)

include h

omit [DecidableEq K] in
theorem Client.KeepsPin.mono {documents' : List Value}
    (hsub : ∀ d ∈ documents, d ∈ documents') : c.KeepsPin r agentId pin documents' :=
  { h with
    advertised := fun v hv => by
      obtain ⟨d, hd, hadv⟩ := h.advertised v hv
      exact ⟨d, hsub d hd, hadv⟩ }

omit [DecidableEq K] in
theorem Client.KeepsPin.withVerifier {v v' : Verifier κ}
    (hv : c.verifier = some v) (hkey : v'.publicKey = v.publicKey) :
    { c with verifier := some v' }.KeepsPin r agentId pin documents :=
  { h with
    advertised := fun v'' hv'' => by
      obtain rfl := some.inj hv''
      rw [hkey]
      exact h.advertised v hv }

omit [DecidableEq K] in
theorem Client.KeepsPin.withCache
    (cache : Option (PolicyCache K)) :
    { c with cache := cache }.KeepsPin r agentId pin documents := { h with }

theorem Client.KeepsPin.remember (call : Call A M)
    (result : Value) : (c.remember r call result).KeepsPin r agentId pin documents := by
  unfold Client.remember
  split
  · exact h.withCache _
  · exact h

omit [DecidableEq K] in
/-- With an id on both sides, trust is their equality. -/
theorem applyKeyTrust_eq_some (hpin : pin ≠ "")
    {fetched : Value} (hid : truthy fetched = true) {c' : Client κ K}
    (heq : c.applyKeyTrust r fetched = some c') : fetched = .string pin ∧ c' = c := by
  have htrusted : truthy c.trustedKeyId = true := by
    rw [h.trusted]
    simpa [truthy] using hpin
  simp only [Client.applyKeyTrust, htrusted, hid, h.noRotation, Bool.not_true, Bool.or_self,
    Bool.false_eq_true, if_false, Bool.not_false, if_true] at heq
  split at heq
  · next hsame =>
    rw [h.trusted, r.pyEq_string] at hsame
    exact ⟨hsame, (some.inj heq).symm⟩
  · cases heq

omit [DecidableEq K] in
/-- **The first key.** A verifier is only made from a document with the pinned id. -/
theorem Client.KeepsPin.getVerifier (hpin : pin ≠ "")
    {document : Option Value} (hid : HasKeyId document) :
    (c.getVerifier r document).2.KeepsPin r agentId pin (documents ++ document.toList) ∧
      ∀ found, (c.getVerifier r document).1 = some found →
        found ≠ none ∧ (c.getVerifier r document).2.verifier = found := by
  have hkept := h.mono fun d hd => mem_append_left document.toList hd
  unfold Client.getVerifier
  cases hv : c.verifier with
  | some v => exact ⟨hkept, by rintro found ⟨⟩; exact ⟨by simp, hv⟩⟩
  | none =>
    simp only [h.strict, if_true]
    split
    · next fields =>
      cases htrust : c.applyKeyTrust r (getText (.object fields) "key_id") with
      | none => exact ⟨hkept, by simp⟩
      | some c' =>
        obtain ⟨hfetched, rfl⟩ := applyKeyTrust_eq_some h hpin (hid fields rfl) htrust
        dsimp only
        cases hnew : newVerifier r (.object fields) with
        | none => exact ⟨hkept, by simp⟩
        | some v =>
          refine ⟨{ hkept with trusted := hfetched, advertised := ?_ }, ?_⟩
          · rintro v' ⟨⟩
            obtain ⟨key, hkey, rfl⟩ := map_eq_some_iff.1 hnew
            exact ⟨.object fields, by simp, get_of_getText hpin hfetched, hkey⟩
          · rintro found ⟨⟩
            exact ⟨by simp, rfl⟩
    · exact ⟨hkept, by simp⟩

omit [DecidableEq K] in
/-- A response let through is signed with a key advertised under the pinned id. -/
theorem Client.KeepsPin.verified (hpin : pin ≠ "")
    {call : Call A M} (hid : HasKeyId call.keyDocument) (result : Value) :
    (c.verified r call result).2.KeepsPin r agentId pin (documents ++ call.keyDocument.toList) ∧
      ((c.verified r call result).1 = true →
        ∃ d ∈ documents ++ call.keyDocument.toList, ∃ key,
          Advertises r d pin key ∧ signedBy r key agentId result = true) := by
  obtain ⟨hkept, hfound⟩ := h.getVerifier hpin hid
  unfold Client.verified
  simp only [h.verifies, Bool.not_true, Bool.false_eq_true, if_false]
  cases hget : c.getVerifier r call.keyDocument with
  | mk found c' =>
    rw [hget] at hkept hfound
    dsimp only at hkept hfound ⊢
    cases found with
    | none => exact ⟨hkept, by simp⟩
    | some found =>
      obtain ⟨hsome, hverifier⟩ := hfound found rfl
      cases found with
      | none => exact absurd rfl hsome
      | some v =>
        dsimp only
        obtain ⟨hkey, hsigned⟩ :=
          v.verifyResponse_spec r call.now call.utc result c'.agentId
        refine ⟨hkept.withVerifier hverifier hkey, fun hok => ?_⟩
        obtain ⟨d, hd, hadv⟩ := hkept.advertised v hverifier
        have hsigned := hsigned hok
        rw [hkept.agentId] at hsigned
        exact ⟨d, hd, v.publicKey, hadv, hsigned⟩

/-- **One call.** -/
theorem Client.KeepsPin.postValidate (hpin : pin ≠ "")
    {call : Call A M} (hid : HasKeyId call.keyDocument) :
    (c.postValidate r call).2.KeepsPin r agentId pin (documents ++ call.keyDocument.toList) ∧
      ∀ result, (c.postValidate r call).1 = .returned result →
        ∃ d ∈ documents ++ call.keyDocument.toList, ∃ key,
          Advertises r d pin key ∧ signedBy r key agentId result = true := by
  have hkept := h.mono fun d hd => mem_append_left call.keyDocument.toList hd
  unfold Client.postValidate
  split
  · exact ⟨hkept, by simp⟩
  · unfold Client.offlineFallback
    split
    · exact ⟨hkept, by simp⟩
    · split
      · exact ⟨hkept.withCache _, by simp⟩
      · exact ⟨hkept.withCache _, by simp⟩
  · exact ⟨hkept, by simp⟩
  · next result _ =>
    obtain ⟨hkept', hsigned⟩ := h.verified hpin hid result
    cases hverified : c.verified r call result with
    | mk ok c' =>
      rw [hverified] at hkept' hsigned
      cases ok with
      | false => exact ⟨hkept', by simp⟩
      | true =>
        refine ⟨hkept'.remember call result, ?_⟩
        rintro result' ⟨⟩
        exact hsigned rfl

end

/-- **All calls.** -/
theorem keepsPin_after (r : Runtime κ A K) (agentId : String) (hpin : pin ≠ "")
    (cache : Option (PolicyCache K)) (calls : List (Call A M))
    (hids : ∀ call ∈ calls, HasKeyId call.keyDocument) :
    ((Client.pinnedTo agentId pin cache).after r calls).KeepsPin r agentId pin
      (calls.filterMap (·.keyDocument)) := by
  induction calls using reverseRecOn with
  | nil => exact ⟨rfl, rfl, rfl, rfl, rfl, by simp [Client.after, Client.pinnedTo]⟩
  | append_singleton calls call ih =>
    have hkept := ih fun call' hmem => hids call' (mem_append_left _ hmem)
    have hstep := (hkept.postValidate hpin (hids call (by simp))).1
    rw [Client.after, run_concat, filterMap_append]
    exact hstep

/-- **The pin holds.** If every key document has an id, a response is only accepted if verified with
a key advertised under the pinned id. -/
theorem accepted_under_pinned_key (r : Runtime κ A K) (agentId pin : String) (hpin : pin ≠ "")
    (cache : Option (PolicyCache K)) (calls : List (Call A M)) (call : Call A M)
    (hids : ∀ call' ∈ calls ++ [call], HasKeyId call'.keyDocument) (result : Value)
    (haccepted : (((Client.pinnedTo agentId pin cache).after r calls).postValidate r call).1 =
      .returned result) :
    ∃ call' ∈ calls ++ [call], ∃ document key, call'.keyDocument = some document ∧
      Advertises r document pin key ∧ signedBy r key agentId result = true := by
  have hkept := keepsPin_after r agentId hpin cache calls fun call' hmem =>
    hids call' (mem_append_left _ hmem)
  obtain ⟨d, hd, key, hadv, hsigned⟩ :=
    (hkept.postValidate hpin (hids call (by simp))).2 result haccepted
  rcases mem_append.1 hd with hd | hd
  · obtain ⟨call', hmem, hdoc⟩ := mem_filterMap.1 hd
    exact ⟨call', mem_append_left _ hmem, d, key, hdoc, hadv, hsigned⟩
  · exact ⟨call, by simp, d, key, mem_toList.1 hd, hadv, hsigned⟩

/-! A runtime in which the signatures of a key are the key itself. -/

/-- Equality, where it is needed: of texts. -/
def sameText : Value → Value → Bool
  | .string s, .string t => s = t
  | _, _ => false

/-- The text of a value. -/
def textOf : Value → String
  | .string s => s
  | _ => ""

/-- A runtime for examples. -/
def toyRuntime : Runtime (List UInt8) Bool Bool where
  pyEq := sameText
  pyEq_string v s := by cases v <;> simp [sameText]
  str := textOf
  b64decode v := some (bytesOf (textOf v))
  fromPublicBytes := some
  verify key signature _ := key = signature
  age _ _ := some 0
  keyFor _ action := some action

/-- A document with the fields `fields` besides the key. -/
def keyDocument (key : String) (fields : List (String × Value)) : Value :=
  .object (("public_key_b64", .string key) :: fields)

def responseSignedBy (key : String) : Value :=
  .object [("decision", .string "ALLOW"), ("sig", .object
    [("nonce", .string "n"), ("signed_at", .string "t"), ("signature", .string key)])]

/-- A response signed with the key of the document offered with it. -/
def callSignedBy (key : String) (fields : List (String × Value)) : Call Bool Unit :=
  ⟨true, (), none, .body (some (responseSignedBy key)), some (keyDocument key fields), 0, 0⟩

/-- A response under a key of another id is refused, the next one accepted. -/
theorem accepted_under_pinned_key_once :
    let foreign := callSignedBy "evil" [("key_id", .string "k2")]
    let call := callSignedBy "key" [("key_id", .string "k1")]
    ((Client.pinnedTo "bot" "k1" none).postValidate toyRuntime foreign).1 = .raised ∧
      ∃ call' ∈ [foreign] ++ [call], ∃ document key, call'.keyDocument = some document ∧
        Advertises toyRuntime document "k1" key ∧
          signedBy toyRuntime key "bot" (responseSignedBy "key") = true := by
  intro foreign call
  refine ⟨rfl, accepted_under_pinned_key toyRuntime "bot" "k1" (by decide) none [foreign] call ?_ _
    rfl⟩
  intro call' hmem
  rcases mem_cons.1 hmem with rfl | hmem
  · rintro fields ⟨⟩
    rfl
  · obtain rfl := mem_singleton.1 hmem
    rintro fields ⟨⟩
    rfl

/-- A document without an id: its key is trusted despite the pin, and takes its place. -/
theorem document_without_id_replaces_pin :
    let call := callSignedBy "evil" []
    let client : Client (List UInt8) Bool := .pinnedTo "bot" "k1" none
    (client.postValidate toyRuntime call).1 = .returned (responseSignedBy "evil") ∧
      (keyDocument "evil" []).get "key_id" = none ∧
      (client.postValidate toyRuntime call).2.trustedKeyId = .string "" := by
  exact ⟨rfl, rfl, rfl⟩

end Haltchain.Sdk
