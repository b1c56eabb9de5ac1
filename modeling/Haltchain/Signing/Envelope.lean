import Haltchain.Signing.Delegation
import Haltchain.Signing.Service

/-! # What an envelope stands for

The service signs a decision as one text: its fields, the nonce and the time, with NUL between them.
The id of the agent may contain NUL, but the others do not, so that the text can be taken apart from
both ends.

The same key signs tokens for auditors, whose bytes are no text. -/

namespace Haltchain.Signing

open Lib Option List

/-- A decision that is signed, with what `sign` adds to it. -/
structure SignedDecision where
  transactionId : String
  decision : String
  agentId : String
  timestamp : String
  nonce : String
  signedAt : String
deriving DecidableEq

namespace SignedDecision

/-- The text of the decision. -/
def payload (d : SignedDecision) : String :=
  SigningService.canonicalDecisionPayload d.transactionId d.decision d.agentId d.timestamp

def message (d : SignedDecision) : String :=
  SigningService.canonicalMessage d.payload d.nonce d.signedAt

/-- The fields before the id of the agent. -/
def front (d : SignedDecision) : List (List Char) :=
  [d.transactionId, d.decision].map String.toList

/-- The fields after it. -/
def back (d : SignedDecision) : List (List Char) :=
  [d.timestamp, d.nonce, d.signedAt].map String.toList

/-- No field but the id of the agent contains NUL. -/
def NulFree (d : SignedDecision) : Prop := ∀ x ∈ d.front ++ d.back, nul ∉ x
deriving Decidable

theorem toList_message (d : SignedDecision) :
    d.message.toList = sepJoin nul (d.front ++ d.agentId.toList :: d.back) := by
  have hnul : "\x00".toList = [nul] := by decide
  have hmessage : d.message = d.transactionId ++ "\x00" ++ d.decision ++ "\x00" ++ d.agentId ++
      "\x00" ++ d.timestamp ++ "\x00" ++ d.nonce ++ "\x00" ++ d.signedAt := rfl
  rw [hmessage]
  simp only [String.toList_append]
  rw [hnul]
  simp [front, back, sepJoin]

theorem eq_of_message_eq {d d' : SignedDecision} (hd : d.NulFree) (hd' : d'.NulFree)
    (h : d.message = d'.message) : d = d' := by
  have hjoin : sepJoin nul (d.front ++ d.agentId.toList :: d.back) =
      sepJoin nul (d'.front ++ d'.agentId.toList :: d'.back) := by
    rw [← toList_message, ← toList_message, h]
  have hlen : d.front.length = d'.front.length := rfl
  have hlen' : d.back.length = d'.back.length := rfl
  obtain ⟨hfront, hagent, hback⟩ := sepJoin_append_cons_inj hlen hlen' hd hd' hjoin
  cases d
  simp only [front, back, map_cons, cons.injEq, String.toList_inj,
    and_true] at hfront hagent hback
  obtain ⟨rfl, rfl⟩ := hfront
  obtain ⟨rfl, rfl, rfl⟩ := hback
  subst hagent
  rfl

end SignedDecision

/-- The envelope is accepted for the decision, as far as the signature goes, with its nonce and
time. -/
def SigningService.authenticates {κ : Type} (ed : Ed25519 κ) (s : SigningService)
    (envelope : SignedEnvelope) (d : SignedDecision) : Prop :=
  envelope.nonce = d.nonce ∧ envelope.signedAt = d.signedAt ∧ s.verifies ed d.payload envelope
deriving Decidable

/-- What the key of the service is used for: decisions, and the tokens for auditors. -/
inductive SignedMessage where
  | decision (d : SignedDecision)
  | token (protectedHeader payload : List UInt8)

def SignedMessage.bytes : SignedMessage → List UInt8
  | .decision d => bytesOf d.message
  | .token protectedHeader payload => coseSigStructure protectedHeader payload

/-- Nobody else can sign: a signature the key accepts for a message is one the service made for it.
`madeFor` says what the service has made a signature for. -/
def Unforgeable {κ : Type} (ed : Ed25519 κ) (s : SigningService)
    (madeFor : Signature → Option SignedMessage) : Prop :=
  ∀ key, s.backend.publicKey.bind ed.fromBytes = some key → ∀ m sig, ed.verify key m sig = true →
    ∃ x, madeFor sig = some x ∧ x.bytes = m

section

variable {κ : Type} {ed : Ed25519 κ} {s : SigningService} {envelope : SignedEnvelope}
  {madeFor : Signature → Option SignedMessage}

/-- What a verifying envelope was made for is a decision, not a token, with its message. -/
theorem madeFor_of_verifies (hunforgeable : Unforgeable ed s madeFor) {payload : String}
    (h : s.verifies ed payload envelope = true) :
    ∃ sig d, (Base64.decode envelope.signature).bind Signature.fromSlice = some sig ∧
      madeFor sig = some (.decision d) ∧
      d.message = SigningService.canonicalMessage payload envelope.nonce envelope.signedAt := by
  unfold SigningService.verifies at h
  dsimp only at h
  split at h
  · cases h
  · next sig hsig =>
    split at h
    · cases h
    · next key hkey =>
      obtain ⟨x, hmade, hbytes⟩ := hunforgeable key hkey _ sig h
      cases x with
      | decision d => exact ⟨sig, d, hsig, hmade, bytesOf_injective hbytes⟩
      | token protectedHeader payload =>
        exact absurd hbytes (coseSigStructure_ne_bytesOf protectedHeader payload _)

/-- A payload, a nonce and a time without NUL are known from the message. -/
theorem SignedDecision.of_canonicalMessage_eq {d : SignedDecision} (hd : d.NulFree)
    {payload nonce signedAt : String} (hnonce : nul ∉ nonce.toList)
    (hsignedAt : nul ∉ signedAt.toList)
    (h : d.message = SigningService.canonicalMessage payload nonce signedAt) :
    d.payload = payload ∧ d.nonce = nonce ∧ d.signedAt = signedAt := by
  have hjoin (payload nonce signedAt : String) :
      (SigningService.canonicalMessage payload nonce signedAt).toList =
        sepJoin nul [payload.toList, nonce.toList, signedAt.toList] := by
    have hnul : "\x00".toList = [nul] := by decide
    have hmessage : SigningService.canonicalMessage payload nonce signedAt =
        payload ++ "\x00" ++ nonce ++ "\x00" ++ signedAt := rfl
    rw [hmessage]
    simp only [String.toList_append]
    rw [hnul]
    simp [sepJoin]
  have hlists := (hjoin d.payload d.nonce d.signedAt).symm.trans
    ((congrArg String.toList h).trans (hjoin payload nonce signedAt))
  have hback : ∀ x ∈ [d.nonce.toList, d.signedAt.toList], nul ∉ x := by
    intro x hx
    refine hd x (mem_append_right _ ?_)
    simp only [back, map_cons, map_nil, mem_cons] at hx ⊢
    exact .inr hx
  have hback' : ∀ x ∈ [nonce.toList, signedAt.toList], nul ∉ x := by simp [hnonce, hsignedAt]
  obtain ⟨hpayload, hrest⟩ := sepJoin_cons_inj (by rfl) hback hback' hlists
  simpa [String.toList_inj] using And.intro hpayload hrest

end

/-- **The text that is signed determines the decision**, the nonce and the time, when no field but
the agent's id contains NUL. So an envelope that verifies, for whatever payload, stands for exactly
one decision: one signed with its nonce and its time. -/
theorem authenticated_decision_unique : (∀ d d' : SignedDecision, d.NulFree → d'.NulFree →
      bytesOf d.message = bytesOf d'.message → d = d') ∧
    ∀ (κ : Type) (ed : Ed25519 κ) (s : SigningService)
      (madeFor : Signature → Option SignedMessage), Unforgeable ed s madeFor →
      (∀ sig d, madeFor sig = some (.decision d) → d.NulFree) →
      ∀ (payload : String) (envelope : SignedEnvelope), nul ∉ envelope.nonce.toList →
        nul ∉ envelope.signedAt.toList → s.verifies ed payload envelope = true →
        ∃ sig d, madeFor sig = some (.decision d) ∧ d.payload = payload ∧
          ∀ d', d'.NulFree → (s.authenticates ed envelope d' ↔ d' = d) := by
  refine ⟨fun d d' hd hd' h => SignedDecision.eq_of_message_eq hd hd' (bytesOf_injective h), ?_⟩
  intro κ ed s madeFor hunforgeable hfree payload envelope hnonce hsignedAt hverifies
  obtain ⟨sig, d, hsig, hmade, hmessage⟩ := madeFor_of_verifies hunforgeable hverifies
  have hd := hfree sig d hmade
  obtain ⟨hpayload, hnonce', hsignedAt'⟩ :=
    SignedDecision.of_canonicalMessage_eq hd hnonce hsignedAt hmessage
  refine ⟨sig, d, hmade, hpayload, fun d' hd' => ⟨?_, ?_⟩⟩
  · -- the signature was made for one message only
    rintro ⟨hn, ht, hverifies'⟩
    obtain ⟨sig', d'', hsig', hmade', hmessage'⟩ := madeFor_of_verifies hunforgeable hverifies'
    obtain rfl := some.inj (hsig.symm.trans hsig')
    cases hmade.symm.trans hmade'
    refine SignedDecision.eq_of_message_eq hd' hd ?_
    rw [hmessage', hn, ht]
    rfl
  · rintro rfl
    exact ⟨hnonce'.symm, hsignedAt'.symm, hpayload ▸ hverifies⟩

/-- An agent whose id is made to look like other fields. -/
def nulAgent : SignedDecision :=
  ⟨"tx-1", "ALLOW", "a\x00b\x002026-01-01T00:00:00+00:00", "2026-01-02T00:00:00+00:00", "nonce",
    "2026-01-02T00:00:01+00:00"⟩

/-- The service has signed the decision and a token. -/
def madeForAgent (sig : Signature) : Option SignedMessage :=
  if sig.bytes = Signature.zeros.bytes then some (.decision nulAgent)
  else if sig.bytes = replicate 64 1 then some (.token [] [])
  else none

/-- The key accepts what was signed, and nothing else. -/
def acceptsMade : Ed25519 Unit :=
  ⟨fun _ => some (), fun _ m sig => (madeForAgent sig).any fun x => x.bytes = m⟩

/-- An envelope for the agent is accepted, for no decision of another agent. -/
theorem nul_agent_authenticated :
    let envelope : SignedEnvelope :=
      ⟨nulAgent.nonce, nulAgent.signedAt, "key", Base64.encode Signature.zeros.bytes⟩
    let other := { nulAgent with agentId := "a", timestamp := "b" }
    Calls.openService.authenticates acceptsMade envelope nulAgent ∧
    ¬ Calls.openService.authenticates acceptsMade envelope other := by
  intro envelope other
  have hunforgeable : Unforgeable acceptsMade Calls.openService madeForAgent := by
    intro _ _ m sig hverify
    obtain ⟨x, hx, hbytes⟩ := (any_eq_true _ _).1 hverify
    exact ⟨x, hx, of_decide_eq_true hbytes⟩
  have hfree : ∀ sig d, madeForAgent sig = some (.decision d) → d.NulFree := by
    intro sig d h
    unfold madeForAgent at h
    split_ifs at h
    · cases h
      decide
    · cases h
  have hauthentic : Calls.openService.authenticates acceptsMade envelope nulAgent := by
    decide +kernel
  obtain ⟨sig, d, -, -, honly⟩ := authenticated_decision_unique.2 Unit _ _ _ hunforgeable hfree
    nulAgent.payload envelope (by decide) (by decide) hauthentic.2.2
  refine ⟨hauthentic, fun hother => ?_⟩
  have heq : other = nulAgent :=
    ((honly other (by decide)).1 hother).trans ((honly nulAgent (by decide)).1 hauthentic).symm
  exact absurd heq (by decide)

/-! ## Forged envelopes and the nonces they burn

`verify_and_consume` takes the nonce of an envelope before it looks at the signature, so that a
forged call makes the genuine envelope a replay for 300 seconds. -/

/-- What the backend signs verifies under its public key. -/
def KeyBackend.Correct {κ : Type} (ed : Ed25519 κ) (backend : KeyBackend) : Prop :=
  ∀ message sig, backend.sign message = some sig →
    ∃ vk, backend.publicKey.bind ed.fromBytes = some vk ∧ ed.verify vk message sig = true

namespace SigningService

variable {κ : Type} {ed : Ed25519 κ} {s : SigningService} {now : Nat} {payload : String}
  {envelope : SignedEnvelope}

theorem verifies_of_sign (hcorrect : s.backend.Correct ed) {nonce signedAt : String}
    (h : s.sign nonce signedAt payload = some envelope) :
    envelope.nonce = nonce ∧ s.verifies ed payload envelope = true := by
  obtain ⟨sig, hsig, rfl⟩ := map_eq_some_iff.1 h
  obtain ⟨vk, hvk, hverify⟩ := hcorrect _ sig hsig
  refine ⟨rfl, ?_⟩
  have hslice : Signature.fromSlice sig.bytes = some sig := dif_pos sig.length_bytes
  rw [verifies]
  rw [Base64.decode_encode, bind_some, hslice, hvk]
  exact hverify

/-- The nonce was recorded less than 300 seconds ago. -/
def Seen (s : SigningService) (now : Nat) (nonce : String) : Prop :=
  ∃ t ∈ s.nonces.lookup nonce, now - t < nonceTtl
deriving Decidable

theorem mem_evictStale_iff {nonce : String} :
    nonce ∈ (s.evictStale now).nonces ↔ s.Seen now nonce := by
  rw [Stamps.mem_iff_lookup]
  exact exists_congr fun t => Stamps.lookup_expire

/-- A call is accepted if its nonce is new and it verifies; a new nonce is recorded. -/
theorem verifyAndConsume_eq (ed : Ed25519 κ) (s : SigningService) (now : Nat) (payload : String)
    (envelope : SignedEnvelope) : s.verifyAndConsume ed now payload envelope =
      if s.Seen now envelope.nonce then (false, s.evictStale now)
      else (s.verifies ed payload envelope,
        { s.evictStale now with
          nonces := (s.evictStale now).nonces.insert envelope.nonce now }) := by
  simp only [verifyAndConsume, mem_evictStale_iff]
  rfl

variable (ed) in
/-- The service after a call. -/
def consumed (s : SigningService) (c : Nat × Call) : SigningService :=
  (s.verifyAndConsume ed c.1 c.2.payload c.2.envelope).2

/-- What a call leaves: the key, and of each nonce the old stamp or its own. -/
theorem consumed_spec (s : SigningService) (c : Nat × Call) :
    (consumed ed s c).backend = s.backend ∧
      ∀ nonce t, (consumed ed s c).nonces.lookup nonce = some t →
        s.nonces.lookup nonce = some t ∨ (c.2.envelope.nonce = nonce ∧ c.1 = t) := by
  rw [consumed, verifyAndConsume_eq]
  split
  · exact ⟨rfl, fun nonce t ht => .inl (Stamps.lookup_expire.1 ht).1⟩
  · refine ⟨rfl, fun nonce t ht => ?_⟩
    rcases of_lookup_insert ht with ⟨rfl, rfl⟩ | ⟨-, ht⟩
    · exact .inr ⟨rfl, rfl⟩
    · exact .inl (Stamps.lookup_expire.1 ht).1

theorem backend_run (s : SigningService) (calls : List (Nat × Call)) :
    (run (consumed ed) s calls).backend = s.backend := by
  refine run_invariant (I := fun s' : SigningService => s'.backend = s.backend) rfl ?_ calls
  exact fun s' c h => (consumed_spec s' c).1.trans h

theorem lookup_run {nonce : String} {t : Nat} (calls : List (Nat × Call))
    (h : (run (consumed ed) s calls).nonces.lookup nonce = some t) :
    s.nonces.lookup nonce = some t ∨ ∃ c ∈ calls, c.2.envelope.nonce = nonce ∧ c.1 = t := by
  induction calls using reverseRecOn with
  | nil => exact .inl h
  | append_singleton calls c ih =>
    rw [run_concat] at h
    rcases (consumed_spec _ c).2 nonce t h with h | hself
    · refine (ih h).imp_right fun ⟨c', hc', hnonce⟩ => ?_
      exact ⟨c', mem_append_left _ hc', hnonce⟩
    · exact .inr ⟨c, mem_append_right _ (mem_singleton_self c), hself⟩

/-- **When a genuine envelope is accepted.** After any run of calls, an envelope the service has
signed for the payload is accepted exactly if its nonce was not recorded in the last 300 seconds, by
whatever call; it is if no call of the run had the nonce in this time. -/
theorem genuine_accepted_iff (ed : Ed25519 κ) (s : SigningService)
    (hcorrect : s.backend.Correct ed) (nonce signedAt payload : String) (envelope : SignedEnvelope)
    (hsign : s.sign nonce signedAt payload = some envelope) (calls : List (Nat × Call))
    (now : Nat) : (((run (consumed ed) s calls).verifyAndConsume ed now payload envelope).1 = true ↔
      ¬ (run (consumed ed) s calls).Seen now nonce) ∧
    (¬ s.Seen now nonce → (∀ c ∈ calls, c.2.envelope.nonce = nonce → nonceTtl ≤ now - c.1) →
      ((run (consumed ed) s calls).verifyAndConsume ed now payload envelope).1 = true) := by
  obtain ⟨rfl, hverifies⟩ := verifies_of_sign hcorrect hsign
  have hverifies' : (run (consumed ed) s calls).verifies ed payload envelope = true := by
    rw [← hverifies]
    unfold verifies
    rw [backend_run]
  have hiff : ((run (consumed ed) s calls).verifyAndConsume ed now payload envelope).1 = true ↔
      ¬ (run (consumed ed) s calls).Seen now envelope.nonce := by
    rw [verifyAndConsume_eq]
    split
    · next hseen => simp [hseen]
    · next hseen => simp [hseen, hverifies']
  refine ⟨hiff, fun hbefore hcalls => hiff.2 ?_⟩
  rintro ⟨t, ht, hyoung⟩
  rcases lookup_run calls ht with ht | ⟨c, hc, hnonce, rfl⟩
  · exact hbefore ⟨t, ht, hyoung⟩
  · exact absurd (hcalls c hc hnonce) (not_le.2 hyoung)

open Calls (openScheme constantKey openService sameEnvelope)

/-- A call with the nonce of the envelope and no signature. -/
def unsigned (nonce : String) : Call := ⟨"payload", nonce, "2026-01-01T00:00:00+00:00", "key", ""⟩

/-- After a forged call with another nonce the envelope is accepted. -/
theorem genuine_accepted_after_other :
    ((run (consumed openScheme) openService [(0, unsigned "other")]).verifyAndConsume openScheme 1
      "payload" (sameEnvelope 0).envelope).1 = true :=
  (genuine_accepted_iff openScheme openService (fun _ _ _ => ⟨(), rfl, rfl⟩) "nonce"
    "2026-01-01T00:00:00+00:00" "payload" (sameEnvelope 0).envelope rfl [(0, unsigned "other")] 1).2
    (by decide) (by decide)

/-- A call without a signature is rejected; the envelope signed with the same nonce is then rejected
on its first presentation, and would have been accepted before. -/
theorem forged_call_burns_envelope :
    openService.sign "nonce" "2026-01-01T00:00:00+00:00" "payload" =
        some (sameEnvelope 0).envelope ∧
      let r := openService.verifyAndConsume openScheme 0 "payload" (unsigned "nonce").envelope
      r.1 = false ∧
        (r.2.verifyAndConsume openScheme 1 "payload" (sameEnvelope 0).envelope).1 = false ∧
        (openService.verifyAndConsume openScheme 1 "payload" (sameEnvelope 0).envelope).1 =
          true := by
  decide +kernel

end SigningService

end Haltchain.Signing
