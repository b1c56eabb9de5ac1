import Haltchain.Api.Headers
import Haltchain.Merkle.Tree
import Haltchain.Signing.Ed25519
import Haltchain.Validator.Mediation

/-! # Admin authentication

`require_admin_mfa`: the admin key, a one-time code if a secret is configured, and the client's
address if a list is. A session token is accepted in place of the key, and skips the rest. HMAC-SHA1
and the decoding of tokens are parameters. -/

namespace Haltchain.Api

open Merkle (hexDecode)
open Signing (bytesOf)
open Validator (trim)

/-! ## Configuration -/

/-- `split(',')`. -/
def splitComma : List Char → List (List Char)
  | [] => [[]]
  | c :: cs =>
    if c = ',' then [] :: splitComma cs
    else
      match splitComma cs with
      | [] => [[c]]
      | field :: fields => (c :: field) :: fields

/-- The entries of a list, trimmed; empty ones are left out. -/
def entriesOf (raw : String) : List String :=
  ((splitComma raw.toList).map fun field => trim (.ofList field)).filter (· ≠ "")

/-- The variables of the environment, if they are set. -/
structure AdminEnv where
  adminKeys : Option String
  adminTotpSecret : Option String
  adminIpAllowlist : Option String

namespace AdminEnv

def configuredAdminKeys (env : AdminEnv) : List String :=
  entriesOf (env.adminKeys.getD "dev-admin-key")

def configuredAdminIpAllowlist (env : AdminEnv) : Option (List String) :=
  env.adminIpAllowlist.map entriesOf

end AdminEnv

theorem empty_notMem_entriesOf (raw : String) : "" ∉ entriesOf raw := by
  intro h
  exact of_decide_eq_true (List.mem_filter.1 h).2 rfl

/-! ## One-time codes -/

/-- The eight bytes of a counter, highest first. -/
def toBeBytes (n : Nat) : List UInt8 := (List.range 8).map fun k => (n >>> (8 * (7 - k))).toUInt8

/-- Four bytes from where the last one points, as six digits. -/
def dynamicTruncation (hs : Fin 20 → UInt8) : UInt32 :=
  let offset : Fin 16 := ⟨(hs 19).toNat % 16, Nat.mod_lt _ (by decide)⟩
  let byte (k : Fin 4) : UInt32 := (hs ⟨offset + k, by omega⟩).toUInt32
  let code := ((byte 0 &&& 0x7f) <<< 24) ||| (byte 1 <<< 16) ||| (byte 2 <<< 8) ||| byte 3
  code % 1000000

variable (hmacSha1 : List UInt8 → List UInt8 → Fin 20 → UInt8)

/-- The six digits for a time. -/
def generateTotp (secretHex : String) (unixSecs : Nat) : Option UInt32 :=
  (hexDecode secretHex).map fun key =>
    dynamicTruncation (hmacSha1 key (toBeBytes (unixSecs / 30)))

/-- The bits of a difference, folded into the lowest byte. -/
def diffBits (diff : UInt32) : UInt32 :=
  let diff := diff ||| (diff >>> 16)
  let diff := diff ||| (diff >>> 8)
  diff &&& 0xff

/-- The times with accepted codes: now, and 30 seconds before and after. -/
def totpTimes (now : Nat) : List Nat :=
  [-1, 0, 1].map fun window : Int => (max ((now : Int) + window * 30) 0).toNat

/-- `now` in seconds since 1970. -/
def verifyTotp (now : Nat) (secretHex providedCode : String) : Bool :=
  match parseUnsigned 32 (trim providedCode) with
  | none => false
  | some code =>
    (totpTimes now).any fun t =>
      match generateTotp hmacSha1 secretHex t with
      | none => false
      | some expected => diffBits (expected ^^^ code.toUInt32) == 0

/-- The comparison in constant time is a comparison. -/
theorem diffBits_eq_zero_iff {diff : UInt32} : diffBits diff = 0 ↔ diff = 0 := by
  refine ⟨fun h => ?_, fun h => by rw [h]; rfl⟩
  apply UInt32.toBitVec_inj.1
  apply BitVec.eq_of_getLsbD_eq
  intro j hj
  -- bit `j` has been moved to bit `j % 8`
  have hmask : ∀ i : Fin 8, (255#32).getLsbD i = true := by decide
  have hbit := congrArg (fun x : UInt32 => x.toBitVec.getLsbD (j % 8)) h
  have hlt : j % 8 < 8 := by omega
  simp [diffBits, hmask ⟨j % 8, hlt⟩] at hbit
  obtain ⟨⟨h₀, h₂⟩, h₁, h₃⟩ := hbit
  obtain hj | hj | hj | hj :
      j = j % 8 ∨ j = 8 + j % 8 ∨ j = 16 + j % 8 ∨ j = 16 + (8 + j % 8) := by omega
  · rw [hj, h₀]
    simp
  · rw [hj, h₁]
    simp
  · rw [hj, h₂]
    simp
  · rw [hj, h₃]
    simp

/-- The text is, as a number, the code of an accepted time. -/
def CarriesCode (now : Nat) (secretHex provided : String) : Prop :=
  ∃ code t, parseUnsigned 32 (trim provided) = some code ∧ t ∈ totpTimes now ∧
    generateTotp hmacSha1 secretHex t = some code.toUInt32

theorem verifyTotp_iff {now : Nat} {secretHex provided : String} :
    verifyTotp hmacSha1 now secretHex provided = true ↔
      CarriesCode hmacSha1 now secretHex provided := by
  have hcompare : ∀ (t : Nat) (code : UInt32),
      (match generateTotp hmacSha1 secretHex t with
        | none => false
        | some expected => diffBits (expected ^^^ code) == 0) = true ↔
      generateTotp hmacSha1 secretHex t = some code := by
    intro t code
    cases generateTotp hmacSha1 secretHex t with
    | none => simp
    | some expected => simp [diffBits_eq_zero_iff]
  unfold verifyTotp CarriesCode
  cases parseUnsigned 32 (trim provided) with
  | none => simp
  | some code =>
    simp only [List.any_eq_true, hcompare, Option.some.injEq]
    constructor
    · rintro ⟨t, ht, hcode⟩
      exact ⟨code, t, rfl, ht, hcode⟩
    · rintro ⟨code', t, rfl, ht, hcode⟩
      exact ⟨t, ht, hcode⟩

/-! ## The checks -/

structure AdminSessionClaims where
  sub : String
  exp : Nat
  iat : Nat
  typ : String

/-- What the checks are given. `decodeSession` decodes a token and verifies signature and expiry. -/
structure AdminContext where
  env : AdminEnv
  decodeSession : String → Option AdminSessionClaims
  hmacSha1 : List UInt8 → List UInt8 → Fin 20 → UInt8
  /-- Seconds since 1970. -/
  now : Nat

/-- A refusal, with the status and the `error` of its body. -/
structure Refusal where
  status : Nat
  error : String
deriving DecidableEq

variable (ctx : AdminContext) (headers : HeaderMap)

def verifyAdminSessionJwt (token : String) : Option String :=
  ((ctx.decodeSession token).filter (·.typ = "admin_session")).map (·.sub)

/-- `strip_prefix("Bearer ")`. -/
def stripBearer (s : String) : Option String :=
  if "Bearer ".toList.isPrefixOf s.toList then some (.ofList (s.toList.drop 7)) else none

/-- A session token that is valid is presented. -/
def hasSession : Bool :=
  match (headers.getStr "authorization").bind stripBearer with
  | none => false
  | some token => (verifyAdminSessionJwt ctx token).isSome

/-- The first layer: the key or a session. -/
def requireAdmin : Except Refusal Unit :=
  let provided := (headers.getStr "x-admin-key").getD ""
  if provided ∈ ctx.env.configuredAdminKeys then .ok ()
  else if hasSession ctx headers then .ok ()
  else .error ⟨403, "admin access required"⟩

/-- The address of the client, empty if it cannot be read. -/
def clientIp : String :=
  match ((headers.get "x-forwarded-for").or (headers.get "x-real-ip")).bind HeaderMap.toStr with
  | none => ""
  | some s => trim (.ofList (s.toList.takeWhile (· ≠ ',')))

/-- The second layer, if a secret is configured. -/
def requireTotp : Except Refusal Unit :=
  match ctx.env.adminTotpSecret with
  | none => .ok ()
  | some secret =>
    let provided := (headers.getStr "x-admin-totp").getD ""
    if verifyTotp ctx.hmacSha1 ctx.now secret provided then .ok ()
    else .error ⟨403, "MFA verification required"⟩

/-- The third layer, if a list is configured. -/
def requireAllowedIp : Except Refusal Unit :=
  match ctx.env.configuredAdminIpAllowlist with
  | none => .ok ()
  | some allowlist =>
    if clientIp headers ≠ "" ∧ clientIp headers ∉ allowlist then
      .error ⟨403, "Access denied from this network"⟩
    else .ok ()

def requireAdminMfa : Except Refusal Unit :=
  if hasSession ctx headers then requireAdmin ctx headers
  else do
    requireAdmin ctx headers
    requireTotp ctx headers
    requireAllowedIp ctx headers

/-! ## Who gets in -/

/-- The header holds a configured key. -/
def HasAdminKey : Prop :=
  ∃ key ∈ ctx.env.configuredAdminKeys, headers.getStr "x-admin-key" = some key

/-- If a secret is configured, the header carries a code of it. -/
def HasTotp : Prop :=
  ∀ secret, ctx.env.adminTotpSecret = some secret →
    ∃ provided, headers.getStr "x-admin-totp" = some provided ∧
      CarriesCode ctx.hmacSha1 ctx.now secret provided

/-- If a list is configured, the address of the client is in it. -/
def HasAllowedIp : Prop :=
  ∀ allowlist, ctx.env.configuredAdminIpAllowlist = some allowlist → clientIp headers ∈ allowlist

variable {ctx headers}

theorem requireAdmin_ok_iff : requireAdmin ctx headers = .ok () ↔
      HasAdminKey ctx headers ∨ hasSession ctx headers = true := by
  have hkey : (headers.getStr "x-admin-key").getD "" ∈ ctx.env.configuredAdminKeys ↔
      HasAdminKey ctx headers := by
    unfold HasAdminKey AdminEnv.configuredAdminKeys
    cases headers.getStr "x-admin-key" with
    | none => simpa using empty_notMem_entriesOf _
    | some key => simp
  rw [← hkey]
  unfold requireAdmin
  dsimp only
  split
  · rename_i hin
    simp only [hin, true_or]
  rename_i hout
  split
  · rename_i hsession
    simp only [hsession, or_true]
  · rename_i hsession
    simp only [hout, hsession, or_self, reduceCtorEq]

theorem requireTotp_ok_iff : requireTotp ctx headers = .ok () ↔ HasTotp ctx headers := by
  unfold requireTotp HasTotp
  cases ctx.env.adminTotpSecret with
  | none => simp
  | some secret =>
    have hcode : verifyTotp ctx.hmacSha1 ctx.now secret
          ((headers.getStr "x-admin-totp").getD "") = true ↔
        ∃ provided, headers.getStr "x-admin-totp" = some provided ∧
          CarriesCode ctx.hmacSha1 ctx.now secret provided := by
      rw [verifyTotp_iff]
      cases headers.getStr "x-admin-totp" with
      | none =>
        -- the empty text is no number
        have hempty : parseUnsigned 32 (trim "") = none := by decide
        simp [CarriesCode, hempty]
      | some provided => simp
    simp only [Option.some.injEq, forall_eq', ← hcode]
    split
    · simp [*]
    · simp [*]

/-- An address that cannot be read passes any list. -/
theorem requireAllowedIp_ok_iff : requireAllowedIp ctx headers = .ok () ↔ ∀ allowlist,
      ctx.env.configuredAdminIpAllowlist = some allowlist →
        clientIp headers = "" ∨ clientIp headers ∈ allowlist := by
  unfold requireAllowedIp
  cases ctx.env.configuredAdminIpAllowlist with
  | none => simp
  | some allowlist =>
    simp only [Option.some.injEq, forall_eq']
    split
    · next hout => simpa using hout
    · next hin =>
      rw [not_and_or, not_not, not_not] at hin
      simpa using hin

/-- Who gets in: a session alone, or all layers, the last of them as it is. -/
theorem requireAdminMfa_ok_iff :
    requireAdminMfa ctx headers = .ok () ↔ hasSession ctx headers = true ∨
      HasAdminKey ctx headers ∧ HasTotp ctx headers ∧
        requireAllowedIp ctx headers = .ok () := by
  unfold requireAdminMfa
  split
  · next hsession => simp [requireAdmin_ok_iff, hsession]
  · next hsession =>
    have hadmin : requireAdmin ctx headers = .ok () ↔ HasAdminKey ctx headers := by
      rw [requireAdmin_ok_iff, or_iff_left hsession]
    rw [← hadmin, ← requireTotp_ok_iff, or_iff_right hsession]
    rcases requireAdmin ctx headers with e | ⟨⟩
    · simp [bind, Except.bind]
    · rcases requireTotp ctx headers with e | ⟨⟩
      · simp [bind, Except.bind]
      · simp [bind, Except.bind]

/-- **Who is let in has passed all three layers** exactly if a session comes with them, and a client
without one that has key and code shows its address where a list is configured. -/
theorem requireAdminMfa_layers_iff (ctx : AdminContext) (headers : HeaderMap) :
    (requireAdminMfa ctx headers = .ok () →
      HasAdminKey ctx headers ∧ HasTotp ctx headers ∧ HasAllowedIp ctx headers) ↔
    (hasSession ctx headers = true →
      HasAdminKey ctx headers ∧ HasTotp ctx headers ∧ HasAllowedIp ctx headers) ∧
    (hasSession ctx headers = false → HasAdminKey ctx headers → HasTotp ctx headers →
      ctx.env.adminIpAllowlist ≠ none → clientIp headers ≠ "") := by
  rw [requireAdminMfa_ok_iff, requireAllowedIp_ok_iff]
  constructor
  · intro h
    refine ⟨fun hsession => h (.inl hsession), fun _ hkey hcode hlist hempty => ?_⟩
    obtain ⟨raw, hraw⟩ := Option.ne_none_iff_exists'.1 hlist
    have hallowed := (h (.inr ⟨hkey, hcode, fun _ _ => .inl hempty⟩)).2.2 (entriesOf raw)
      (by rw [AdminEnv.configuredAdminIpAllowlist, hraw]; rfl)
    exact empty_notMem_entriesOf raw (hempty ▸ hallowed)
  · rintro ⟨hwith, hwithout⟩ hok
    cases hsession : hasSession ctx headers with
    | true => exact hwith hsession
    | false =>
      obtain ⟨hkey, hcode, haddress⟩ := hok.resolve_left (by simp [hsession])
      refine ⟨hkey, hcode, fun allowlist hlist => ?_⟩
      have hraw : ctx.env.adminIpAllowlist ≠ none := by
        intro hnone
        simp [AdminEnv.configuredAdminIpAllowlist, hnone] at hlist
      exact (haddress allowlist hlist).resolve_left (hwithout hsession hkey hcode hraw)

/-- A configuration with all layers: every code is 0, and `"jwt"` is the token of a session. -/
def strictContext : AdminContext where
  env := ⟨some "k1, k2", some "00ff", some "10.0.0.1"⟩
  decodeSession token :=
    if token = "jwt" then some ⟨"admin@example.com", 2000, 1000, "admin_session"⟩ else none
  hmacSha1 _ _ _ := 0
  now := 1000

/-- The session token alone gets in; so does the key alone, without an address, despite a list. -/
theorem layers_skipped :
    let session : HeaderMap := [("authorization", bytesOf "Bearer jwt")]
    let keyOnly : HeaderMap := [("x-admin-key", bytesOf "k1")]
    let noTotp := { strictContext with env.adminTotpSecret := none }
    requireAdminMfa strictContext session = .ok () ∧ session.getStr "x-admin-key" = none ∧
    session.getStr "x-admin-totp" = none ∧
    requireAdminMfa noTotp keyOnly = .ok () ∧ clientIp keyOnly ∉ entriesOf "10.0.0.1" := by
  decide +kernel

end Haltchain.Api
