import Haltchain.Lib.Base64
import Haltchain.Lib.Expiry
import Haltchain.Lib.Run
import Haltchain.Signing.Cose
import Mathlib.Data.Fintype.Basic

/-! # The signing service

`SigningService` signs payloads into envelopes, each with a nonce of its own, and verifies an
envelope once. Its nonce is kept for 300 seconds; the time at which it was signed is never looked
at. The test for the nonce and its insertion are two operations on a shared map.

The calls are taken apart into their operations on the map, and rotations of the key. Time is
counted in nanoseconds. -/

namespace Haltchain.Signing

open Lib Function

/-- `KeyBackend`. Its answers may be errors. -/
structure KeyBackend where
  sign : List UInt8 → Option Signature
  publicKey : Option (List UInt8)

structure SignedEnvelope where
  nonce : String
  signedAt : String
  keyId : String
  signature : String
deriving DecidableEq

/-- The time to live of a nonce, 300 seconds. -/
def nonceTtl : Nat := 300 * 1000000000

structure SigningService where
  keyId : String
  backend : KeyBackend
  /-- `seen`. -/
  nonces : Stamps String

namespace SigningService

/-- No nonces seen. -/
def withBackend (keyId : String) (backend : KeyBackend) : SigningService := ⟨keyId, backend, ∅⟩

/-- The text of a decision. -/
def canonicalDecisionPayload (transactionId decision agentId timestamp : String) : String :=
  s!"{transactionId}\x00{decision}\x00{agentId}\x00{timestamp}"

/-- The text that is signed. -/
def canonicalMessage (payload nonce signedAt : String) : String :=
  s!"{payload}\x00{nonce}\x00{signedAt}"

/-- `nonce` is a random UUID, `signedAt` the time. Without a signature the call panics. -/
def sign (s : SigningService) (nonce signedAt payload : String) : Option SignedEnvelope :=
  (s.backend.sign (bytesOf (canonicalMessage payload nonce signedAt))).map fun sigBytes =>
    ⟨nonce, signedAt, s.keyId, Base64.encode sigBytes.bytes⟩

/-- As far as it can fail: the token's signature over the JSON of the decision. Without one the call
panics. -/
def signDecision (s : SigningService) (payload : List UInt8) : Option Signature :=
  s.backend.sign (coseSigStructure (coseProtectedHeader s.keyId) payload)

variable {κ : Type} (ed : Ed25519 κ)

/-- What is verified after the nonce has been taken. -/
def verifies (s : SigningService) (payload : String) (envelope : SignedEnvelope) : Bool :=
  let message := canonicalMessage payload envelope.nonce envelope.signedAt
  match (Base64.decode envelope.signature).bind Signature.fromSlice with
  | none => false
  | some sig =>
    match s.backend.publicKey.bind ed.fromBytes with
    | none => false
    | some vk => ed.verify vk (bytesOf message) sig

def evictStale (s : SigningService) (now : Nat) : SigningService :=
  { s with nonces := s.nonces.expire nonceTtl now }

/-- A call that is not interrupted. -/
def verifyAndConsume (s : SigningService) (now : Nat) (payload : String)
    (envelope : SignedEnvelope) : Bool × SigningService :=
  let s := s.evictStale now
  if envelope.nonce ∈ s.nonces then (false, s)
  else
    let s := { s with nonces := s.nonces.insert envelope.nonce now }
    (s.verifies ed payload envelope, s)

/-- Another key. -/
def rotate (s : SigningService) (keyId : String) (backend : KeyBackend) : SigningService :=
  { s with keyId, backend }

end SigningService

/-! ## Calls in parallel -/

/-- What `verify_and_consume` was called with. -/
structure Call where
  payload : String
  envelope : SignedEnvelope

/-- How far a call has come. -/
inductive Phase where
  | idle
  | evicted
  /-- The nonce was not there. -/
  | checked
  | inserted
  | returned (accepted : Bool)
deriving DecidableEq

/-- The call has found its nonce new, and not failed since. -/
def Phase.pastCheck : Phase → Bool
  | .checked | .inserted | .returned true => true
  | .idle | .evicted | .returned false => false

/-- The service with the calls that are made of it. -/
structure Calls (ι : Type) where
  service : SigningService
  phase : ι → Phase

/-- A step of a call. -/
inductive Step (ι : Type) where
  | evictStale (c : ι) (now : Nat)
  | containsKey (c : ι)
  | insert (c : ι) (now : Nat)
  | verify (c : ι)
  | rotate (keyId : String) (backend : KeyBackend)

namespace Calls

variable {κ ι : Type} [DecidableEq ι] (ed : Ed25519 κ) (call : ι → Call)

/-- Before all calls. -/
def start (service : SigningService) : Calls ι := ⟨service, fun _ => .idle⟩

def goTo (s : Calls ι) (c : ι) (p : Phase) : Calls ι :=
  { s with phase := update s.phase c p }

/-- One operation. A call makes them in order; otherwise nothing happens. -/
def exec (s : Calls ι) : Step ι → Calls ι
  | .evictStale c now =>
    if s.phase c = .idle then { s with service := s.service.evictStale now }.goTo c .evicted
    else s
  | .containsKey c =>
    if s.phase c = .evicted then
      if (call c).envelope.nonce ∈ s.service.nonces then s.goTo c (.returned false)
      else s.goTo c .checked
    else s
  | .insert c now =>
    if s.phase c = .checked then
      let nonces := s.service.nonces.insert (call c).envelope.nonce now
      { s with service := { s.service with nonces } }.goTo c .inserted
    else s
  | .verify c =>
    if s.phase c = .inserted then
      s.goTo c (.returned (s.service.verifies ed (call c).payload (call c).envelope))
    else s
  | .rotate keyId backend => { s with service := s.service.rotate keyId backend }

/-- The call has returned `true`. -/
def Accepted (s : Calls ι) (c : ι) : Prop := s.phase c = .returned true
deriving Decidable

/-- A call whose operations are not interrupted is `verify_and_consume`. -/
theorem run_uninterrupted {s : Calls ι} {c : ι} (hidle : s.phase c = .idle) (now : Nat) :
    let s' := run (exec ed call) s [.evictStale c now, .containsKey c, .insert c now, .verify c]
    let result := s.service.verifyAndConsume ed now (call c).payload (call c).envelope
    s'.phase c = .returned result.1 ∧ s'.service = result.2 := by
  simp only [SigningService.verifyAndConsume]
  by_cases hmem : (call c).envelope.nonce ∈ (s.service.evictStale now).nonces
  · simp [exec, goTo, hidle, hmem]
  · simp [exec, goTo, hidle, hmem]

/-- A scheme for examples, in which every signature is good. -/
def openScheme : Ed25519 Unit := ⟨fun _ => some (), fun _ _ _ => true⟩

/-- A key whose signatures are all the same. -/
def constantKey : KeyBackend := ⟨fun _ => some .zeros, some []⟩

def openService : SigningService := .withBackend "key" constantKey

/-- Every call presents the same envelope. -/
def sameEnvelope (_ : Fin 2) : Call :=
  ⟨"payload", "nonce", "2026-01-01T00:00:00+00:00", "key", Base64.encode Signature.zeros.bytes⟩

/-! ## Which calls get past the check -/

/-- For one nonce: stale nonces are not evicted when it is one of them, and it is not looked for
while another call has found it new and not yet inserted it. -/
def Orderly (nonce : String) (s : Calls ι) : Step ι → Prop
  | .evictStale _ now => ∀ t ∈ s.service.nonces.lookup nonce, now - t < nonceTtl
  | .containsKey c =>
    (call c).envelope.nonce = nonce →
      ∀ c', (call c').envelope.nonce = nonce → s.phase c' ≠ .checked
  | .insert .. | .verify .. | .rotate .. => True

instance [Fintype ι] (nonce : String) (s : Calls ι) (step : Step ι) :
    Decidable (Orderly call nonce s step) := by
  unfold Orderly
  split <;> infer_instance

/-- At most one call with the nonce is past the check, having inserted it or about to. -/
structure Taken (nonce : String) (s : Calls ι) : Prop where
  unique : ∀ c c', (call c).envelope.nonce = nonce → (call c').envelope.nonce = nonce →
    (s.phase c).pastCheck = true → (s.phase c').pastCheck = true → c = c'
  present : ∀ c, (call c).envelope.nonce = nonce → (s.phase c).pastCheck = true →
    s.phase c ≠ .checked → nonce ∈ s.service.nonces

variable {ed call} {nonce : String} {s : Calls ι}

omit [DecidableEq ι] in
theorem taken_start (service : SigningService) : Taken call nonce (start service) :=
  ⟨fun _ _ _ _ h => absurd h (by simp [start, Phase.pastCheck]),
    fun _ _ h => absurd h (by simp [start, Phase.pastCheck])⟩

/-- A call goes on: what its new phase needs, if it has the nonce. -/
theorem Taken.goTo (h : Taken call nonce s) {service : SigningService}
    (hkeep : nonce ∈ s.service.nonces → nonce ∈ service.nonces) {c : ι} {p : Phase}
    (hunique : (call c).envelope.nonce = nonce → p.pastCheck = true →
      ∀ c', (call c').envelope.nonce = nonce → (s.phase c').pastCheck = true → c' = c)
    (hpresent : (call c).envelope.nonce = nonce → p.pastCheck = true → p ≠ .checked →
      nonce ∈ service.nonces) : Taken call nonce ({ s with service }.goTo c p) := by
  have hself : ({ s with service }.goTo c p).phase c = p := update_self ..
  have hother : ∀ c', c' ≠ c → ({ s with service }.goTo c p).phase c' = s.phase c' :=
    fun c' hne => update_of_ne hne ..
  constructor
  · intro c₁ c₂ hn₁ hn₂ hp₁ hp₂
    by_cases h₁ : c₁ = c
    · by_cases h₂ : c₂ = c
      · rw [h₁, h₂]
      · subst h₁
        rw [hself] at hp₁
        rw [hother c₂ h₂] at hp₂
        exact (hunique hn₁ hp₁ c₂ hn₂ hp₂).symm
    · rw [hother c₁ h₁] at hp₁
      by_cases h₂ : c₂ = c
      · subst h₂
        rw [hself] at hp₂
        exact hunique hn₂ hp₂ c₁ hn₁ hp₁
      · rw [hother c₂ h₂] at hp₂
        exact h.unique c₁ c₂ hn₁ hn₂ hp₁ hp₂
  · intro c' hn hp hne
    by_cases hc : c' = c
    · subst hc
      rw [hself] at hp hne
      exact hpresent hn hp hne
    · rw [hother c' hc] at hp hne
      exact hkeep (h.present c' hn hp hne)

theorem Taken.exec (h : Taken call nonce s) {step : Step ι} (horderly : Orderly call nonce s step) :
    Taken call nonce (exec ed call s step) := by
  cases step with
  | evictStale c now =>
    unfold Calls.exec
    dsimp only
    split
    · refine h.goTo (fun hmem => ?_) (fun _ hp => absurd hp (by simp [Phase.pastCheck]))
        (fun _ hp => absurd hp (by simp [Phase.pastCheck]))
      obtain ⟨t, ht⟩ := Stamps.mem_iff_lookup.1 hmem
      exact Stamps.mem_iff_lookup.2 ⟨t, Stamps.lookup_expire.2 ⟨ht, horderly t ht⟩⟩
    · exact h
  | containsKey c =>
    unfold Calls.exec
    dsimp only
    split
    · split
      · exact h.goTo id (fun _ hp => absurd hp (by simp [Phase.pastCheck]))
          (fun _ hp => absurd hp (by simp [Phase.pastCheck]))
      · rename_i hnew
        refine h.goTo id (fun hn _ c' hn' hp' => ?_) (fun _ _ hne => absurd rfl hne)
        -- a call that is past the check has put the nonce in
        rw [hn] at hnew
        exact absurd (h.present c' hn' hp' (horderly hn c' hn')) hnew
    · exact h
  | insert c now =>
    unfold Calls.exec
    dsimp only
    split
    · rename_i hphase
      refine h.goTo (fun hmem => ?_) (fun hn _ c' hn' hp' => ?_) (fun hn _ _ => ?_)
      · exact (AList.mem_insert _).2 (.inr hmem)
      · exact h.unique c' c hn' hn hp' (by rw [hphase]; rfl)
      · exact (AList.mem_insert _).2 (.inl hn.symm)
    · exact h
  | verify c =>
    unfold Calls.exec
    dsimp only
    split
    · rename_i hphase
      have hpast : (s.phase c).pastCheck = true := by rw [hphase]; rfl
      refine h.goTo id (fun hn _ c' hn' hp' => h.unique c' c hn' hn hp' hpast) (fun hn _ _ => ?_)
      exact h.present c hn hpast (by rw [hphase]; simp)
    · exact h
  | rotate keyId backend => exact ⟨h.unique, h.present⟩

/-- **An envelope is used once** in a run in which calls with its nonce do not check it at the same
time and none comes when the nonce has expired. -/
theorem single_use_of_orderly (service : SigningService) {steps : List (Step ι)} (p : Call)
    (h : Throughout (exec ed call) (Orderly call p.envelope.nonce) (start service) steps) :
    ∀ c c', call c = p → call c' = p → (run (exec ed call) (start service) steps).Accepted c →
      (run (exec ed call) (start service) steps).Accepted c' → c = c' := by
  intro c c' hc hc' haccepted haccepted'
  have htaken := h.invariant (taken_start service) fun s step hs hstep => hs.exec hstep
  refine htaken.unique c c' (by rw [hc]) (by rw [hc']) ?_ ?_
  · rw [haccepted]
    rfl
  · rw [haccepted']
    rfl

theorem second_call_refused :
    let s := run (exec openScheme sameEnvelope) (start openService)
      [.evictStale 0 0, .containsKey 0, .insert 0 0, .verify 0, .evictStale 1 7, .containsKey 1]
    s.Accepted 0 ∧ (s.Accepted 1 → (0 : Fin 2) = 1) := by
  refine ⟨by decide +kernel, fun h => ?_⟩
  exact single_use_of_orderly openService (sameEnvelope 0) (by decide +kernel) 0 1 rfl rfl
    (by decide +kernel) h

/-- An envelope is accepted again 300 seconds later, and twice if two calls look for the nonce
before they insert it. -/
theorem accepted_twice :
    let sequential := run (exec openScheme sameEnvelope) (start openService)
      [.evictStale 0 0, .containsKey 0, .insert 0 0, .verify 0,
        .evictStale 1 nonceTtl, .containsKey 1, .insert 1 nonceTtl, .verify 1]
    let parallel := run (exec openScheme sameEnvelope) (start openService)
      [.evictStale 0 0, .evictStale 1 0, .containsKey 0, .containsKey 1, .insert 0 0, .insert 1 0,
        .verify 0, .verify 1]
    openService.sign "nonce" "2026-01-01T00:00:00+00:00" "payload" =
      some (sameEnvelope 0).envelope ∧
    sequential.Accepted 0 ∧ sequential.Accepted 1 ∧ parallel.Accepted 0 ∧ parallel.Accepted 1 := by
  decide +kernel

end Calls

end Haltchain.Signing
