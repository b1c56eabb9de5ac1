import Haltchain.Signing.Ed25519
import Haltchain.Validator.Evaluators

/-! # The TypeScript client

`check` and `guard` of the TypeScript SDK, and `verifyResponse`. The server's answers are any JSON,
read as JavaScript reads them: a missing property is `undefined`, and a property of `null` throws.
What the platform does (texts of values, Base64, keys, Ed25519) is a parameter. `none` stands for an
exception. -/

namespace Haltchain.Sdk.Typescript

open Option

open Signing (bytesOf)
open Validator (Value)

/-! ## Values -/

/-- A value of the language: `none` is `undefined`. -/
abbrev Js := Option Value

/-- `v.name`, for names that no prototype has. -/
def prop (v : Value) (name : String) : Option Js :=
  match v with
  | .null => none
  | v => some (v.get name)

/-- What counts as true in a condition. -/
def truthy : Js → Bool
  | none => false
  | some .null => false
  | some (.bool b) => b
  | some (.number n) => (Value.number n).asF64 ≠ some 0
  | some (.string s) => s ≠ ""
  | some (.array _) => true
  | some (.object _) => true

/-- `v === text`. -/
def isText (v : Js) (text : String) : Bool :=
  match v with
  | some (.string s) => s = text
  | _ => false

/-- What the platform does. -/
structure Platform (κ : Type) where
  /-- A value in a template string. An object may refuse. -/
  toText : Js → Option String
  atob : String → Option (List UInt8)
  importKey : List UInt8 → Option κ
  verify : κ → List UInt8 → List UInt8 → Option Bool

/-! ## Verification -/

def canonicalDecisionPayload (transactionId decision agentId timestamp : String) : String :=
  transactionId ++ "\x00" ++ decision ++ "\x00" ++ agentId ++ "\x00" ++ timestamp

def buildVerifyMessage (payload nonce signedAt : String) : List UInt8 :=
  bytesOf (payload ++ "\x00" ++ nonce ++ "\x00" ++ signedAt)

section

variable {κ : Type} (p : Platform κ)

/-- The bytes of a text. -/
def base64Decode (b64 : Js) : Option (List UInt8) := (p.toText b64).bind p.atob

/-- The part of `verifyResponse` within `try`. -/
def signatureValid (response sig : Value) (agentId : String) (publicKeyB64 : Js) : Option Bool := do
  let key ← p.importKey (← base64Decode p publicKeyB64)
  let payload := canonicalDecisionPayload (← p.toText (response.get "transaction_id"))
    (← p.toText (response.get "decision")) agentId (← p.toText (response.get "timestamp"))
  let message := buildVerifyMessage payload (← p.toText (sig.get "nonce"))
    (← p.toText (sig.get "signed_at"))
  p.verify key (← base64Decode p (sig.get "signature")) message

def verifyResponse (response : Value) (agentId : String) (publicKeyB64 : Js) : Bool :=
  match response.get "sig" with
  | none => false
  | some sig =>
    if truthy (sig.get "nonce") && truthy (sig.get "signed_at") && truthy (sig.get "signature")
    then (signatureValid p response sig agentId publicKeyB64).getD false
    else false

/-! ## The client -/

/-- What the client keeps. -/
structure Client where
  agentId : String
  verifySignatures : Bool
  publicKeyCache : Js

/-- `fetched` is what the server has under `/public-key`, if it can be fetched. -/
def getPublicKey (c : Client) (fetched : Option Value) : Option Value × Client :=
  match c.publicKeyCache.filter fun key => truthy (some key) with
  | some key => (some key, c)
  | none =>
    match fetched with
    | none => (none, c)
    | some key => (some key, { c with publicKeyCache := some key })

/-- `answer` is what the server says under `/validate`. -/
def check (c : Client) (answer fetched : Option Value) : Option Value × Client :=
  match answer with
  | none => (none, c)
  | some res =>
    if !c.verifySignatures then (some res, c)
    else
      match prop res "sig" with
      | none => (none, c)
      | some sig =>
        if !truthy sig then (some res, c)
        else
          match getPublicKey c fetched with
          | (none, c) => (none, c)
          | (some pubkey, c) =>
            match prop pubkey "public_key_b64" with
            | none => (none, c)
            | some publicKeyB64 =>
              if verifyResponse p res c.agentId publicKeyB64 then (some res, c)
              else (none, c)

inductive Outcome where
  | threw
  | called
deriving DecidableEq

/-- Whether a function wrapped by `guard` is called. -/
def guard (c : Client) (answer fetched : Option Value) : Outcome × Client :=
  match check p c answer fetched with
  | (none, c) => (.threw, c)
  | (some res, c) =>
    match prop res "decision" with
    | none => (.threw, c)
    | some decision =>
      if isText decision "DENY" || isText decision "CIRCUIT_BREAK" then (.threw, c)
      else (.called, c)

/-! ## When the function is called -/

/-- The response is accepted under the server's public key. -/
def accepted (c : Client) (fetched : Option Value) (res : Value) : Bool :=
  ((getPublicKey c fetched).1.bind (prop · "public_key_b64")).any (verifyResponse p res c.agentId)

variable {p}

theorem getPublicKey_agentId (c : Client) (fetched : Option Value) :
    (getPublicKey c fetched).2.agentId = c.agentId := by
  unfold getPublicKey
  split
  · rfl
  · split <;> rfl

theorem prop_eq_some_iff {v : Value} {name : String} {found : Js} :
    prop v name = some found ↔ v ≠ .null ∧ found = v.get name := by
  cases v <;> simp [prop, eq_comm]

section

variable {c : Client} (hverify : c.verifySignatures = true)

include hverify

/-- A response with a signature is returned if it is accepted. -/
theorem check_of_signed {fetched : Option Value} {res : Value} (hnull : res ≠ .null)
    (hsig : truthy (res.get "sig") = true) :
    (check p c (some res) fetched).1 = if accepted p c fetched res then some res else none := by
  have hagent := getPublicKey_agentId c fetched
  unfold check accepted
  simp only [hverify, prop_eq_some_iff.2 ⟨hnull, rfl⟩, hsig, Bool.not_true, Bool.false_eq_true,
    if_false]
  cases hkey : getPublicKey c fetched with
  | mk found c' =>
    rw [hkey] at hagent
    cases found with
    | none => rfl
    | some pubkey =>
      dsimp only at hagent
      rcases eq_none_or_eq_some (prop pubkey "public_key_b64") with hnone | ⟨b64, hsome⟩
      · simp [hnone]
      · simp only [hsome, hagent, bind_some, any_some]
        split <;> rfl

/-- With signatures on, a response is returned if it has none or is accepted. -/
theorem check_eq_some_iff {answer fetched : Option Value} {res : Value} :
    (check p c answer fetched).1 = some res ↔
      answer = some res ∧ res ≠ .null ∧
        (truthy (res.get "sig") = false ∨ accepted p c fetched res = true) := by
  cases answer with
  | none => simp [check]
  | some body =>
    by_cases hnull : body = .null
    · subst hnull
      have hthrows : (check p c (some .null) fetched).1 = none := by
        simp [check, prop, hverify]
      rw [hthrows]
      exact iff_of_false (by simp) fun h => h.2.1 (some.inj h.1).symm
    cases hsig : truthy (body.get "sig") with
    | false =>
      have hreturns : (check p c (some body) fetched).1 = some body := by
        simp [check, prop_eq_some_iff.2 ⟨hnull, rfl⟩, hsig]
      rw [hreturns]
      refine ⟨fun h => ?_, fun h => h.1⟩
      cases h
      exact ⟨rfl, hnull, .inl hsig⟩
    | true =>
      rw [check_of_signed hverify hnull hsig]
      constructor
      · intro h
        split at h
        · next hvalid =>
          cases h
          exact ⟨rfl, hnull, .inr hvalid⟩
        · cases h
      · rintro ⟨heq, -, hunsigned | hvalid⟩
        · cases heq
          rw [hsig] at hunsigned
          cases hunsigned
        · cases heq
          rw [if_pos hvalid]

/-- The function is called unless the decision is one of two. -/
theorem guard_called_iff {answer fetched : Option Value} : (guard p c answer fetched).1 = .called ↔
      ∃ res, answer = some res ∧ res ≠ .null ∧
        (truthy (res.get "sig") = false ∨ accepted p c fetched res = true) ∧
        ¬(isText (res.get "decision") "DENY" ∨ isText (res.get "decision") "CIRCUIT_BREAK") := by
  unfold guard
  cases hcheck : check p c answer fetched with
  | mk found c' =>
    have hfound : (check p c answer fetched).1 = found := by rw [hcheck]
    cases found with
    | none =>
      refine iff_of_false (by simp) ?_
      rintro ⟨res, hanswer, hnull, hsig, -⟩
      rw [(check_eq_some_iff hverify).2 ⟨hanswer, hnull, hsig⟩] at hfound
      cases hfound
    | some res =>
      obtain ⟨hanswer, hnull, hsig⟩ := (check_eq_some_iff hverify).1 hfound
      simp only [prop_eq_some_iff.2 ⟨hnull, rfl⟩]
      split
      · next hblocked =>
        refine iff_of_false (by simp) ?_
        rintro ⟨res', hanswer', -, -, hfree⟩
        obtain rfl := some.inj (hanswer.symm.trans hanswer')
        rw [Bool.or_eq_true] at hblocked
        exact hfree hblocked
      · next hfree =>
        rw [Bool.or_eq_true] at hfree
        exact iff_of_true rfl ⟨res, hanswer, hnull, hsig, hfree⟩

end

/-- **Fail-closed?** The function is called for an `ALLOW` that is signed and accepted only, if the
decision is one that throws, or there is a signature and the decision is `ALLOW` or the signature is
not accepted. -/
theorem guard_fail_closed_iff (p : Platform κ) (agentId : String) (cached : Js)
    (answer fetched : Option Value) :
    let c : Client := ⟨agentId, true, cached⟩
    ((guard p c answer fetched).1 = .called →
        ∃ res, answer = some res ∧ isText (res.get "decision") "ALLOW" ∧
          truthy (res.get "sig") ∧ accepted p c fetched res) ↔
      ∀ res, answer = some res → res ≠ .null →
        (isText (res.get "decision") "DENY" ∨ isText (res.get "decision") "CIRCUIT_BREAK") ∨
          (truthy (res.get "sig") ∧
            (isText (res.get "decision") "ALLOW" ∨ ¬accepted p c fetched res)) := by
  intro c
  rw [guard_called_iff (c := c) rfl]
  constructor
  · intro h res hanswer hnull
    by_cases hblocked :
        isText (res.get "decision") "DENY" ∨ isText (res.get "decision") "CIRCUIT_BREAK"
    · exact .inl hblocked
    by_cases hcalled : truthy (res.get "sig") = false ∨ accepted p c fetched res = true
    · obtain ⟨res', hanswer', hallow, hsig, -⟩ := h ⟨res, hanswer, hnull, hcalled, hblocked⟩
      obtain rfl := some.inj (hanswer.symm.trans hanswer')
      exact .inr ⟨hsig, .inl hallow⟩
    · rw [not_or, Bool.not_eq_false] at hcalled
      exact .inr ⟨hcalled.1, .inr hcalled.2⟩
  · rintro h ⟨res, hanswer, hnull, hsig, hfree⟩
    obtain ⟨hsigned, hallow⟩ := (h res hanswer hnull).resolve_left hfree
    have haccepted := hsig.resolve_left (by simp [hsigned])
    exact ⟨res, hanswer, hallow.resolve_right (not_not.2 haccepted), hsigned, haccepted⟩

/-- A platform on which every signature is good. -/
def credulous : Platform Unit where
  toText _ := some ""
  atob _ := some []
  importKey _ := some ()
  verify _ _ _ := some true

/-- `ALLOW` without a signature is enough; so is a signed request for clarification. -/
theorem unsigned_allow_calls :
    let c : Client := ⟨"agent", true, none⟩
    let unsigned : Value := .object [("decision", .string "ALLOW")]
    let envelope : Value :=
      .object [("nonce", .string "n"), ("signed_at", .string "t"), ("signature", .string "s")]
    let unclear : Value :=
      .object [("decision", .string "GOAL_CLARIFICATION_REQUIRED"), ("sig", envelope)]
    (guard credulous c (some unsigned) none).1 = .called ∧
      truthy (unsigned.get "sig") = false ∧
      (guard credulous c (some unclear)
        (some (.object [("public_key_b64", .string "k")]))).1 = .called ∧
      isText (unclear.get "decision") "ALLOW" = false := by
  decide

end

end Haltchain.Sdk.Typescript
