
/-! # Ed25519

What the crates use of ed25519-dalek. The arithmetic of the curve is a parameter: a scheme says
which byte strings are verifying keys and which signatures a key accepts for a message. -/

namespace Haltchain.Signing

/-- 64 bytes. -/
structure Signature where
  bytes : List UInt8
  length_bytes : bytes.length = 64

/-- `Signature::from_slice`, which looks at the length alone. -/
def Signature.fromSlice (bytes : List UInt8) : Option Signature :=
  if h : bytes.length = 64 then some ⟨bytes, h⟩ else none

/-- The signature that the keys for examples put under everything. -/
def Signature.zeros : Signature := ⟨List.replicate 64 0, List.length_replicate⟩

/-- The scheme, with `κ` for the verifying keys. -/
structure Ed25519 (κ : Type) where
  /-- `VerifyingKey::from_bytes`, of 32 bytes. -/
  fromBytes : List UInt8 → Option κ
  verify : κ → List UInt8 → Signature → Bool

/-- A scheme that can sign, with `σ` for the signing keys. -/
structure SigningScheme (σ κ : Type) extends Ed25519 κ where
  verifyingKey : σ → κ
  /-- `VerifyingKey::as_bytes`. -/
  toBytes : κ → List UInt8
  sign : σ → List UInt8 → Signature

/-- The UTF-8 bytes of a text. -/
def bytesOf (s : String) : List UInt8 := s.toUTF8.data.toList

theorem bytesOf_injective {s s' : String} (h : bytesOf s = bytesOf s') : s = s' :=
  String.toByteArray_inj.1 (ByteArray.ext (Array.toList_inj.1 h))

end Haltchain.Signing
