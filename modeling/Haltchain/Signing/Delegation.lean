import Haltchain.Lib.Base64
import Haltchain.Lib.Separated
import Haltchain.Signing.Ed25519
import Mathlib.Algebra.Ring.Nat
import Mathlib.Data.Set.Basic

/-! # Delegation between agents

`DelegationToken` and `DelegationChain`: an agent hands a task to another with a signed token. The
fields of a token are signed as one text with NUL between them, but may contain NUL. And a token is
verified with the key it brings along.

Ed25519 and chrono are parameters; times are counted in nanoseconds since 1970. -/

namespace Haltchain.Signing

open Lib List Option

/-- The separator. -/
def nul : Char := .ofNat 0

/-- What the tokens use of chrono. -/
structure Calendar where
  toRfc3339 : Int → String
  parseRfc3339 : String → Option Int
  toRfc3339_noNul : ∀ t, nul ∉ (toRfc3339 t).toList
  parseRfc3339_noNul : ∀ text t, parseRfc3339 text = some t → nul ∉ text.toList

/-- The times that chrono can represent. -/
def inCalendar (t : Int) : Bool :=
  -8334601228800 * 1000000000 ≤ t && t < 8210266876800 * 1000000000

/-- A delegation from one agent to another. -/
structure DelegationToken where
  delegator : String
  delegatee : String
  issuedAt : String
  expiresAt : String
  scope : String
  signature : String
  delegatorPubkey : String
deriving DecidableEq

inductive DelegationError where
  | emptyChain
  | invalidKey
  | invalidSignature
  | expired
  | depthExceeded (depth max : Nat)
  | brokenChain (expected got : String)
deriving DecidableEq

namespace DelegationToken

/-- The text that is signed. -/
def canonical (delegator delegatee issuedAt expiresAt scope : String) : String :=
  s!"A2A\x00{delegator}\x00{delegatee}\x00{issuedAt}\x00{expiresAt}\x00{scope}"

variable {σ κ : Type} (scheme : SigningScheme σ κ) (ed : Ed25519 κ) (cal : Calendar)

/-- The lifetime is a signed number. A token that outlives the calendar panics. -/
def sign (now : Int) (delegator delegatee scope : String) (ttlSecs : UInt64) (signingKey : σ) :
    Option DelegationToken :=
  let expires := now + ttlSecs.toInt64.toInt * 1000000000
  if inCalendar expires then
    let issuedAt := cal.toRfc3339 now
    let expiresAt := cal.toRfc3339 expires
    let message := canonical delegator delegatee issuedAt expiresAt scope
    some
      { delegator, delegatee, issuedAt, expiresAt, scope
        signature := Base64.encode (scheme.sign signingKey (bytesOf message)).bytes
        delegatorPubkey :=
          Base64.encode (scheme.toBytes (scheme.verifyingKey signingKey)) }
  else none

/-- What the signature of the token is for. -/
def message (t : DelegationToken) : String :=
  canonical t.delegator t.delegatee t.issuedAt t.expiresAt t.scope

/-- The key the token brings along. -/
def pubkey (t : DelegationToken) : Option κ :=
  (Base64.decode t.delegatorPubkey).bind fun bytes =>
    if bytes.length = 32 then ed.fromBytes bytes else none

/-- Checks key, signature and time. -/
def verify (now : Int) (t : DelegationToken) : Except DelegationError Unit :=
  match t.pubkey ed with
  | none => .error .invalidKey
  | some verifyingKey =>
    match (Base64.decode t.signature).bind Signature.fromSlice with
    | none => .error .invalidSignature
    | some sig =>
      if ed.verify verifyingKey (bytesOf t.message) sig then
        match cal.parseRfc3339 t.expiresAt with
        | none => .error .expired
        | some expires => if expires < now then .error .expired else .ok ()
      else .error .invalidSignature

/-- The text is a time that is not over yet. -/
def Live (now : Int) (text : List Char) : Prop :=
  ∃ expires ∈ cal.parseRfc3339 (.ofList text), now ≤ expires
deriving Decidable

variable {ed cal} {now : Int} {t : DelegationToken}

/-- A verified token has a signature under its own key, and some time left. -/
theorem verify_ok_iff : t.verify ed cal now = .ok () ↔
    (∃ key sig, t.pubkey ed = some key ∧
      (Base64.decode t.signature).bind Signature.fromSlice = some sig ∧
      ed.verify key (bytesOf t.message) sig = true) ∧ Live cal now t.expiresAt.toList := by
  rw [Live, String.ofList_toList]
  unfold verify
  cases t.pubkey ed with
  | none => simp
  | some key =>
    cases (Base64.decode t.signature).bind Signature.fromSlice with
    | none => simp
    | some sig =>
      cases hsig : ed.verify key (bytesOf t.message) sig with
      | false => simp [hsig]
      | true =>
        cases cal.parseRfc3339 t.expiresAt with
        | none => simp [hsig]
        | some expires => by_cases hlt : expires < now <;> simp [hsig, hlt, not_lt.1]

/-! ## The fields of a token -/

/-- The fields that are signed. -/
def fields (t : DelegationToken) : List (List Char) :=
  [t.delegator, t.delegatee, t.issuedAt, t.expiresAt, t.scope].map String.toList

theorem toList_message (t : DelegationToken) :
    t.message.toList = sepJoin nul ("A2A".toList :: t.fields) := by
  have hnul : "\x00".toList = [nul] := by decide
  have htag : "A2A\x00".toList = "A2A".toList ++ [nul] := by decide
  have hmessage : t.message = "A2A\x00" ++ t.delegator ++ "\x00" ++ t.delegatee ++ "\x00" ++
      t.issuedAt ++ "\x00" ++ t.expiresAt ++ "\x00" ++ t.scope := rfl
  rw [hmessage]
  simp only [String.toList_append]
  rw [htag, hnul]
  simp [fields, sepJoin]

/-- What follows the tag. -/
def body (t : DelegationToken) : List Char := sepJoin nul t.fields

theorem message_eq_iff {t' : DelegationToken} : t.message = t'.message ↔ t.body = t'.body := by
  rw [← String.toList_inj, toList_message, toList_message, sepJoin_cons _ (by simp [fields]),
    sepJoin_cons _ (by simp [fields])]
  simp [body]

variable (cal) in
/-- No other unexpired token has this one's text. If it has not expired, the two agents contain no
NUL, and no part of the scope that NUL ends is a time not over. If it has, there is no such time
from the fourth part of the text on. -/
def Whole (now : Int) (t : DelegationToken) : Prop :=
  (Live cal now t.expiresAt.toList → nul ∉ t.delegator.toList ∧ nul ∉ t.delegatee.toList ∧
    ∀ part ∈ (t.scope.toList.splitOn nul).dropLast, ¬ Live cal now part) ∧
  (¬ Live cal now t.expiresAt.toList →
    ∀ part ∈ ((t.body.splitOn nul).drop 3).dropLast, ¬ Live cal now part)
deriving Decidable

/-- The same signature with other fields. -/
def recut (t : DelegationToken) (delegator delegatee issuedAt expiresAt scope : List Char) :
    DelegationToken :=
  { t with
    delegator := .ofList delegator, delegatee := .ofList delegatee, issuedAt := .ofList issuedAt
    expiresAt := .ofList expiresAt, scope := .ofList scope }

theorem Live.noNul {text : List Char} (h : Live cal now text) : nul ∉ text := by
  obtain ⟨expires, hparse, -⟩ := h
  simpa using cal.parseRfc3339_noNul _ expires hparse

/-- A text cut into five pieces of which the fourth is a time. -/
theorem splitOn_pieces (d e i s : List Char) {x : List Char} (hx : nul ∉ x) :
    (sepJoin nul [d, e, i, x, s]).splitOn nul =
      (d.splitOn nul ++ (e.splitOn nul ++ i.splitOn nul)) ++ x :: s.splitOn nul := by
  rw [splitOn_sepJoin (cons_ne_nil _ _)]
  simp [splitOn_eq_singleton hx]

theorem eq_of_splitOn {text text' : List Char} (h : text.splitOn nul = text'.splitOn nul) :
    text = text' := by
  rw [← sepJoin_splitOn nul text, h, sepJoin_splitOn]

/-- **A token that is whole is the only reading of its text.** -/
theorem Whole.fields_eq (h : t.Whole cal now) (hissued : nul ∉ t.issuedAt.toList)
    (hexpires : nul ∉ t.expiresAt.toList) {t' : DelegationToken} (hmessage : t'.message = t.message)
    (hlive : Live cal now t'.expiresAt.toList) : t'.fields = t.fields := by
  have hbody : t'.body.splitOn nul = t.body.splitOn nul := by rw [message_eq_iff.1 hmessage]
  rw [show t'.body.splitOn nul = _ from splitOn_pieces _ _ _ _ hlive.noNul] at hbody
  have hd := length_pos_iff.2 (splitOn_ne_nil nul t'.delegator.toList)
  have he := length_pos_iff.2 (splitOn_ne_nil nul t'.delegatee.toList)
  have hi := length_pos_iff.2 (splitOn_ne_nil nul t'.issuedAt.toList)
  by_cases hcurrent : Live cal now t.expiresAt.toList
  · obtain ⟨hdelegator, hdelegatee, hscope⟩ := h.1 hcurrent
    rw [show t.body.splitOn nul = _ from splitOn_pieces _ _ _ _ hexpires] at hbody
    have hparts : t.delegator.toList.splitOn nul ++ (t.delegatee.toList.splitOn nul ++
        t.issuedAt.toList.splitOn nul) = [t.delegator.toList, t.delegatee.toList,
          t.issuedAt.toList] := by
      rw [splitOn_eq_singleton hdelegator, splitOn_eq_singleton hdelegatee,
        splitOn_eq_singleton hissued]
      rfl
    by_cases hthree : (t'.delegator.toList.splitOn nul).length = 1 ∧
      (t'.delegatee.toList.splitOn nul).length = 1 ∧ (t'.issuedAt.toList.splitOn nul).length = 1
    · obtain ⟨hd, he, hi⟩ := hthree
      obtain ⟨hfront, hback⟩ := append_inj hbody (by simp [hparts, hd, he, hi])
      obtain ⟨hdelegator', hfront⟩ := append_inj hfront
        (by rw [hd, splitOn_eq_singleton hdelegator]; rfl)
      obtain ⟨hdelegatee', hissued'⟩ := append_inj hfront
        (by rw [he, splitOn_eq_singleton hdelegatee]; rfl)
      obtain ⟨hexpires', hscope'⟩ := cons.inj hback
      simp only [fields, map_cons, map_nil, eq_of_splitOn hdelegator', eq_of_splitOn hdelegatee',
        eq_of_splitOn hissued', hexpires', eq_of_splitOn hscope']
    · -- the time is then in the scope of the token that was signed
      rw [hparts] at hbody
      have hmem := mem_dropLast_drop_iff (n := 4).2 ⟨_, _, hbody.symm, by
        rw [length_append, length_append]
        omega, splitOn_ne_nil _ _⟩
      exact absurd hlive (hscope _ hmem)
  · refine absurd hlive (h.2 hcurrent _ ?_)
    rw [← hbody]
    refine mem_dropLast_drop_iff.2 ⟨_, _, rfl, ?_, splitOn_ne_nil _ _⟩
    rw [length_append, length_append]
    omega

theorem sepJoin_pieces (d e x : List Char) {ls ls' : List (List Char)} (hne : ls ≠ [])
    (hne' : ls' ≠ []) : sepJoin nul [d, e, sepJoin nul ls, x, sepJoin nul ls'] =
      sepJoin nul (d :: e :: (ls ++ x :: ls')) := by
  rw [sepJoin_cons d (cons_ne_nil e _), sepJoin_cons d (cons_ne_nil e _),
    sepJoin_cons e (append_ne_nil_of_left_ne_nil hne (x :: ls')), sepJoin_append hne (by simp),
    sepJoin_cons x hne']
  rfl

/-- **A token that is the only reading of its text is whole.** -/
theorem whole_of_fields_eq
    (h : ∀ d e i x s, sepJoin nul [d, e, i, x, s] = t.body → Live cal now x →
      [d, e, i, x, s] = t.fields) : t.Whole cal now := by
  have hbody : t.body = sepJoin nul t.fields := rfl
  constructor
  · intro hcurrent
    refine ⟨fun hnul => ?_, fun hnul => ?_, fun part hpart hlive => ?_⟩
    · obtain ⟨d, e, hde⟩ := append_of_mem hnul
      have := h d e (t.delegatee.toList ++ nul :: t.issuedAt.toList) t.expiresAt.toList
        t.scope.toList (by simp [hbody, fields, hde, sepJoin]) hcurrent
      simp [fields, hde] at this
    · obtain ⟨e, i, hei⟩ := append_of_mem hnul
      have := h t.delegator.toList e (i ++ nul :: t.issuedAt.toList) t.expiresAt.toList
        t.scope.toList (by simp [hbody, fields, hei, sepJoin]) hcurrent
      simp [fields, hei] at this
    · obtain ⟨l₁, l₂, hsplit, -, hne⟩ := mem_dropLast_drop_iff (n := 0).1 hpart
      have hscope : sepJoin nul (l₁ ++ part :: l₂) = t.scope.toList := by
        rw [← hsplit]
        exact sepJoin_splitOn nul _
      have hpieces := h t.delegator.toList t.delegatee.toList
        (sepJoin nul (t.issuedAt.toList :: t.expiresAt.toList :: l₁)) part (sepJoin nul l₂) (by
          rw [sepJoin_pieces _ _ _ (cons_ne_nil _ _) hne, body, fields, cons_append, cons_append]
          simp only [sepJoin, map_cons, map_nil, sepJoin_cons t.expiresAt.toList
            (append_ne_nil_of_right_ne_nil l₁ (cons_ne_nil part l₂)), hscope]) hlive
      simp [fields, sepJoin] at hpieces
  · intro hnot part hpart hlive
    obtain ⟨l₁, l₂, hsplit, hthree, hne⟩ := mem_dropLast_drop_iff.1 hpart
    obtain ⟨d, e, i, l, rfl⟩ : ∃ d e i l, l₁ = d :: e :: i :: l := by
      match l₁, hthree with
      | d :: e :: i :: l, _ => exact ⟨d, e, i, l, rfl⟩
    have hpieces := h d e (sepJoin nul (i :: l)) part (sepJoin nul l₂) (by
      rw [sepJoin_pieces _ _ _ (cons_ne_nil _ _) hne, ← sepJoin_splitOn nul t.body, hsplit]
      rfl) hlive
    simp only [fields, map_cons, cons.injEq] at hpieces
    exact hnot (hpieces.2.2.2.1 ▸ hlive)

variable {scheme} {key : σ}

/-- A signed token: no NUL in the times, the issuer's signature and key. -/
theorem of_sign {delegator delegatee scope : String} {ttlSecs : UInt64}
    (h : sign scheme cal now delegator delegatee scope ttlSecs key = some t) :
    nul ∉ t.issuedAt.toList ∧ nul ∉ t.expiresAt.toList ∧
      t.signature = Base64.encode (scheme.sign key (bytesOf t.message)).bytes ∧
      t.delegatorPubkey = Base64.encode (scheme.toBytes (scheme.verifyingKey key)) := by
  unfold sign at h
  dsimp only at h
  split at h
  · cases h
    exact ⟨cal.toRfc3339_noNul _, cal.toRfc3339_noNul _, rfl, rfl⟩
  · cases h

variable (scheme cal) in
/-- A token verified with the key has the fields of a signed one. -/
def Integrity (now : Int) (key : σ) (signed : Set DelegationToken) : Prop :=
  ∀ t : DelegationToken, t.pubkey scheme.toEd25519 = some (scheme.verifyingKey key) →
    t.verify scheme.toEd25519 cal now = .ok () → ∃ t' ∈ signed, t.fields = t'.fields

/-- **Integrity.** If the tokens signed with a key are whole, a token verified with the key has the
fields of one of them. And if one is not whole, another reading of it is verified, which is nobody's
token unless two of them have the same text. -/
theorem integrity_iff_whole {signed : Set DelegationToken}
    (hsigned : ∀ t ∈ signed, ∃ now delegator delegatee scope ttlSecs,
      sign scheme cal now delegator delegatee scope ttlSecs key = some t)
    (hunforgeable : ∀ m sig, scheme.verify (scheme.verifyingKey key) m sig = true →
      ∃ t ∈ signed, m = bytesOf t.message)
    (hcorrect : ∀ t ∈ signed, scheme.verify (scheme.verifyingKey key) (bytesOf t.message)
      (scheme.sign key (bytesOf t.message)) = true)
    (hbytes : (scheme.toBytes (scheme.verifyingKey key)).length = 32 ∧
      scheme.fromBytes (scheme.toBytes (scheme.verifyingKey key)) =
        some (scheme.verifyingKey key)) :
    ((∀ t ∈ signed, t.Whole cal now) → Integrity scheme cal now key signed) ∧
    ((∀ t ∈ signed, ∀ t' ∈ signed, t.message = t'.message → t.fields = t'.fields) →
      Integrity scheme cal now key signed → ∀ t ∈ signed, t.Whole cal now) := by
  constructor
  · intro hwhole t hkey hverify
    obtain ⟨⟨key', sig, hkey', -, hsig⟩, hlive⟩ := verify_ok_iff.1 hverify
    cases hkey.symm.trans hkey'
    obtain ⟨t', ht', hmessage⟩ := hunforgeable _ sig hsig
    obtain ⟨_, _, _, _, _, hsign⟩ := hsigned t' ht'
    obtain ⟨hissued, hexpires, -⟩ := of_sign hsign
    exact ⟨t', ht', (hwhole t' ht').fields_eq hissued hexpires (bytesOf_injective hmessage) hlive⟩
  · intro hunique h t ht
    obtain ⟨_, _, _, _, _, hsign⟩ := hsigned t ht
    obtain ⟨-, -, hsignature, hpubkey⟩ := of_sign hsign
    refine whole_of_fields_eq fun d e i x s hbody hlive => ?_
    let t' := t.recut d e i x s
    have hfields : t'.fields = [d, e, i, x, s] := by simp [t', recut, fields]
    have hmessage : t'.message = t.message := message_eq_iff.2 (by rw [body, hfields, hbody])
    have hkey : t'.pubkey scheme.toEd25519 = some (scheme.verifyingKey key) := by
      simp [t', recut, pubkey, hpubkey, hbytes]
    have hverify : t'.verify scheme.toEd25519 cal now = .ok () := by
      refine verify_ok_iff.2 ⟨⟨_, scheme.sign key (bytesOf t.message), hkey, ?_, ?_⟩, ?_⟩
      · simp [t', recut, hsignature, Signature.fromSlice, Signature.length_bytes]
      · rw [hmessage]
        exact hcorrect t ht
      · simpa [t', recut] using hlive
    obtain ⟨t'', ht'', heq⟩ := h t' hkey hverify
    have hsame : t.message = t''.message :=
      hmessage.symm.trans (message_eq_iff.2 (congrArg (sepJoin nul) heq))
    rw [hunique t ht t'' ht'' hsame, ← heq, hfields]

/-- A calendar for examples, with one time. -/
def oneDay : Calendar where
  toRfc3339 _ := "2026-01-01T00:00:00+00:00"
  parseRfc3339 text := if text = "2026-01-01T00:00:00+00:00" then some 1000000000 else none
  toRfc3339_noNul _ := by decide
  parseRfc3339_noNul text t h := by
    split at h
    · next heq =>
      rw [heq]
      decide
    · cases h

/-- A scheme for examples: one key, with one message signed. -/
def signsOnly (m : String) : SigningScheme Unit Unit where
  fromBytes _ := some ()
  verify _ m' _ := m' = bytesOf m
  verifyingKey _ := ()
  toBytes _ := replicate 32 0
  sign _ _ := .zeros

/-- A token in the calendar with one time. -/
def tokenOf (delegator delegatee : String) : DelegationToken :=
  { delegator, delegatee, issuedAt := oneDay.toRfc3339 0, expiresAt := oneDay.toRfc3339 0
    scope := "validate", signature := Base64.encode Signature.zeros.bytes
    delegatorPubkey := Base64.encode (replicate 32 0) }

/-- A scope with NUL does no harm if its parts are no times. -/
theorem integrity_alice :
    let t := { tokenOf "alice" "bob" with scope := "read\x00write" }
    Integrity (signsOnly t.message) oneDay 0 () {t} := by
  intro t
  refine (integrity_iff_whole ?_ ?_ ?_ ⟨rfl, rfl⟩).1 ?_
  · rintro t' rfl
    exact ⟨0, "alice", "bob", "read\x00write", 300, by decide +kernel⟩
  · intro m sig h
    exact ⟨t, rfl, of_decide_eq_true h⟩
  · rintro t' rfl
    simp [signsOnly]
  · rintro t' rfl
    decide +kernel

/-- A token from `"a\0b"` to `"c"` was signed. A token from `"a"` to `"b\0c"` is verified. -/
theorem fields_shifted :
    let scheme := signsOnly (tokenOf "a\x00b" "c").message
    sign scheme oneDay 0 "a\x00b" "c" "validate" 300 () = some (tokenOf "a\x00b" "c") ∧
    (∀ key m sig, scheme.verify key m sig = true → m = bytesOf (tokenOf "a\x00b" "c").message) ∧
    (tokenOf "a" "b\x00c").pubkey scheme.toEd25519 = some (scheme.verifyingKey ()) ∧
    (tokenOf "a" "b\x00c").verify scheme.toEd25519 oneDay 0 = .ok () ∧
    (tokenOf "a" "b\x00c").delegator ≠ (tokenOf "a\x00b" "c").delegator := by
  refine ⟨by decide +kernel, fun _ _ _ h => of_decide_eq_true h, by decide +kernel, ?_, ?_⟩
  · decide +kernel
  · decide +kernel

end DelegationToken

/-- Delegations, one after the other. -/
structure DelegationChain where
  tokens : List DelegationToken

namespace DelegationChain

variable {κ : Type} (ed : Ed25519 κ) (cal : Calendar) (now : Int)

/-- The loop, with the token before the next one. -/
def validateFrom : Option DelegationToken → List DelegationToken → Except DelegationError Unit
  | _, [] => .ok ()
  | previous, t :: tokens =>
    match t.verify ed cal now with
    | .error e => .error e
    | .ok () =>
      match previous.filter (·.delegatee ≠ t.delegator) with
      | some p => .error (.brokenChain p.delegatee t.delegator)
      | none => validateFrom (some t) tokens

/-- `as u32`. -/
def depth (chain : DelegationChain) : Nat := chain.tokens.length % 2 ^ 32

def validate (chain : DelegationChain) (maxDepth : Nat) : Except DelegationError Unit :=
  if chain.tokens = [] then .error .emptyChain
  else if maxDepth < chain.depth then .error (.depthExceeded chain.depth maxDepth)
  else validateFrom ed cal now none chain.tokens

variable {ed cal now} {chain : DelegationChain} {maxDepth : Nat}

/-- The loop goes through if every token is verified and starts where the last ended. -/
theorem validateFrom_ok_iff (previous : Option DelegationToken) (tokens : List DelegationToken) :
    validateFrom ed cal now previous tokens = .ok () ↔
      (∀ t ∈ tokens, t.verify ed cal now = .ok ()) ∧
      (previous.toList ++ tokens).IsChain fun p t => p.delegatee = t.delegator := by
  induction tokens generalizing previous with
  | nil => cases previous <;> simp [validateFrom]
  | cons t tokens ih =>
    rw [validateFrom, forall_mem_cons]
    cases hverify : t.verify ed cal now with
    | error e => simp
    | ok _ =>
      have hcons := ih (some t)
      rw [toList_some, singleton_append] at hcons
      cases previous with
      | none =>
        simp only [filter_none, hcons, toList_none, nil_append, true_and]
      | some p =>
        by_cases hlink : p.delegatee = t.delegator
        · simp [filter_some, hlink, hcons]
        · simp [filter_some, hlink]

theorem validate_ok_iff : chain.validate ed cal now maxDepth = .ok () ↔
      chain.tokens ≠ [] ∧ chain.depth ≤ maxDepth ∧
      (∀ t ∈ chain.tokens, t.verify ed cal now = .ok ()) ∧
      chain.tokens.IsChain fun p t => p.delegatee = t.delegator := by
  unfold validate
  split
  · simp_all
  · split
    · simp_all
    · rw [validateFrom_ok_iff]
      simp_all

/-- **Authenticity.** If no honest agent has signed a token, the delegators of a valid chain are all
corrupted exactly if every token that names an honest one brings along that agent's key. -/
theorem delegators_corrupted_iff {σ : Type} {scheme : SigningScheme σ κ} {keyOf : String → σ}
    {corrupted : Set String} {signedBy : String → List UInt8 → Prop}
    (hunforgeable : ∀ a ∉ corrupted, ∀ m sig,
      scheme.verify (scheme.verifyingKey (keyOf a)) m sig = true → signedBy a m)
    (hhonest : ∀ a ∉ corrupted, ∀ t : DelegationToken, ¬ signedBy a (bytesOf t.message))
    (hvalid : chain.validate scheme.toEd25519 cal now maxDepth = .ok ()) :
    (∀ t ∈ chain.tokens, t.delegator ∈ corrupted) ↔
    ∀ t ∈ chain.tokens, t.delegator ∉ corrupted →
      t.pubkey scheme.toEd25519 = some (scheme.verifyingKey (keyOf t.delegator)) := by
  constructor
  · intro h t ht hnot
    exact absurd (h t ht) hnot
  · intro hbound t ht
    by_contra hnot
    have hverify := (validate_ok_iff.1 hvalid).2.2.1 t ht
    obtain ⟨⟨key, sig, hkey, -, hsig⟩, -⟩ := DelegationToken.verify_ok_iff.1 hverify
    rw [hbound t ht hnot] at hkey
    rw [← some.inj hkey] at hsig
    exact hhonest _ hnot t (hunforgeable _ hnot _ sig hsig)

/-- A scheme for examples: keys are bytes, and only key 9 has been used. -/
def onlyNine : SigningScheme UInt8 UInt8 where
  fromBytes bytes := bytes.head?
  verify key _ _ := key = 9
  verifyingKey key := key
  toBytes key := replicate 32 key
  sign _ _ := .zeros

/-- A token that brings along the key 9. -/
def withNine (delegator delegatee : String) : DelegationToken :=
  { DelegationToken.tokenOf delegator delegatee with
    delegatorPubkey := Base64.encode (replicate 32 9) }

/-- The keys of the agents, if 9 is the one of `"mallory"`. -/
def keyOfAgent (a : String) : UInt8 := if a = "mallory" then 9 else 1

theorem mallory_corrupted :
    (⟨[withNine "mallory" "bob"]⟩ : DelegationChain).validate onlyNine.toEd25519
        DelegationToken.oneDay 0 3 = .ok () ∧
      (withNine "mallory" "bob").delegator ∈ ({"mallory"} : Set String) := by
  have hunforgeable : ∀ a ∉ ({"mallory"} : Set String), ∀ m sig,
      onlyNine.verify (onlyNine.verifyingKey (keyOfAgent a)) m sig = true →
        (fun (_ : String) (_ : List UInt8) => False) a m := by
    intro a ha m sig h
    have hnine : keyOfAgent a = 9 := of_decide_eq_true h
    rw [keyOfAgent, if_neg (by exact ha)] at hnine
    exact absurd hnine (by decide)
  have hvalid : (⟨[withNine "mallory" "bob"]⟩ : DelegationChain).validate onlyNine.toEd25519
      DelegationToken.oneDay 0 3 = .ok () := by decide +kernel
  refine ⟨hvalid, (delegators_corrupted_iff hunforgeable (fun _ _ _ h => h) hvalid).2
    (fun t ht hnot => ?_) _ (.head _)⟩
  obtain rfl := mem_singleton.1 ht
  exact absurd rfl hnot

/-- All agents have the unused key 1, and nobody is corrupted. With the key 9, anyone makes a chain
from `"alice"`. -/
theorem alice_impersonated :
    (∀ m sig, onlyNine.verify (onlyNine.verifyingKey 1) m sig = false) ∧
    (⟨[withNine "alice" "eve"]⟩ : DelegationChain).validate onlyNine.toEd25519
      DelegationToken.oneDay 0 3 = .ok () ∧
    ∃ t ∈ [withNine "alice" "eve"], t.delegator ∉ (∅ : Set String) :=
  ⟨fun _ _ => rfl, by decide +kernel, _, mem_singleton_self _, fun h => h⟩

end DelegationChain

end Haltchain.Signing
