import Haltchain.Lib.Cbor
import Haltchain.Lib.Utf8
import Haltchain.Signing.Ed25519

/-! # COSE envelopes

`cose_sign1_bytes` and `cose_sig_structure`: what a decision is signed as for auditors, and the
token they get. Both are written with a small CBOR encoder of the crate, which knows heads for
arguments of up to 32 bits. A CBOR decoder reads from a token what was put into it. -/

namespace Haltchain.Signing

open Lib Lib.Cbor List

namespace Cbor

/-- The major type and the argument, cut off at 32 bits. -/
def encodeHead (major : UInt8) (value : Nat) : List UInt8 :=
  let m := major <<< 5
  if value ≤ 23 then [m ||| value.toUInt8]
  else if value ≤ 0xff then [m ||| 24, value.toUInt8]
  else if value ≤ 0xffff then (m ||| 25) :: toBeBytes 2 value
  else (m ||| 26) :: toBeBytes 4 value

/-- A byte string. -/
def encodeBstr (data : List UInt8) : List UInt8 := encodeHead 2 data.length ++ data

/-- A text string. -/
def encodeTstr (s : String) : List UInt8 := encodeHead 3 (bytesOf s).length ++ bytesOf s

/-- The head of an array. -/
def encodeArrayHead (len : Nat) : List UInt8 := encodeHead 4 len

/-- The head of a map. -/
def encodeMapHead (pairs : Nat) : List UInt8 := encodeHead 5 pairs

/-- An unsigned number. -/
def encodeUint (v : Nat) : List UInt8 := encodeHead 0 v

/-- The number `-1 - n`. -/
def encodeNint (n : Nat) : List UInt8 := encodeHead 1 n

end Cbor

open Cbor

/-- `{1: -8, 4: kid}`: EdDSA, and the id of the key. -/
def coseProtectedHeader (kid : String) : List UInt8 :=
  encodeMapHead 2 ++ encodeUint 1 ++ encodeNint 7 ++ encodeUint 4 ++ encodeBstr (bytesOf kid)

/-- What is signed. -/
def coseSigStructure (protectedHeader payload : List UInt8) : List UInt8 :=
  encodeArrayHead 4 ++ encodeTstr "Signature1" ++ encodeBstr protectedHeader ++ encodeBstr [] ++
    encodeBstr payload

/-- The signed envelope. -/
def coseSign1Bytes (protectedHeader payload sig : List UInt8) : List UInt8 :=
  encodeArrayHead 4 ++ encodeBstr protectedHeader ++ encodeMapHead 0 ++ encodeBstr payload ++
    encodeBstr sig

/-- What is signed for a token begins with a byte that no character begins with. -/
theorem coseSigStructure_ne_bytesOf (protectedHeader payload : List UInt8) (s : String) :
    coseSigStructure protectedHeader payload ≠ bytesOf s := by
  intro h
  have hhead : bytesOf s = 0x84 :: _ := h.symm
  exact absurd (head_toUTF8 hhead) (by decide)

/-! ## Reading it back -/

/-- The bits of the major type are above those of the argument. -/
theorem toNat_head {major info : Nat} (hmajor : major < 8) (hinfo : info < 32) :
    (major.toUInt8 <<< 5 ||| info.toUInt8 : UInt8).toNat = 32 * major + info := by
  have hall : ∀ major : Nat, major < 8 → ∀ info : Nat, info < 32 →
      (major.toUInt8 <<< 5 ||| info.toUInt8 : UInt8).toNat = 32 * major + info := by decide
  exact hall major hmajor info hinfo

/-- **A head is read back**, in each of its four sizes. -/
theorem readHead_encodeHead {major value : Nat} (hmajor : major < 8) (hvalue : value < 2 ^ 32)
    (rest : List UInt8) : ∃ info, readHead (encodeHead major.toUInt8 value ++ rest) =
      some (⟨major, info, some value⟩, rest) := by
  unfold encodeHead
  dsimp only
  split
  · exact ⟨value, readHead_short (toNat_head hmajor (by omega)) (by omega) rest⟩
  split
  · have hread := readHead_long (k := 0) (n := value)
      (toNat_head hmajor (by decide : 24 < 32)) (by decide) (by omega) rest
    exact ⟨24, hread⟩
  split
  · have hread := readHead_long (k := 1) (n := value)
      (toNat_head hmajor (by decide : 25 < 32)) (by decide) (by omega) rest
    exact ⟨25, hread⟩
  · have hread := readHead_long (k := 2) (n := value)
      (toNat_head hmajor (by decide : 26 < 32)) (by decide) (by omega) rest
    exact ⟨26, hread⟩

theorem length_encodeHead_pos (major : UInt8) (value : Nat) :
    0 < (encodeHead major value).length := by
  unfold encodeHead
  dsimp only
  split_ifs <;> exact Nat.succ_pos _

section

variable (fuel : Nat) (rest : List UInt8)

theorem readItem_encodeBstr {data : List UInt8} (h : data.length < 2 ^ 32) :
    readItem (fuel + 1) (encodeBstr data ++ rest) = some (.bytes data, rest) := by
  obtain ⟨info, hread⟩ := readHead_encodeHead (by decide : 2 < 8) h (data ++ rest)
  rw [encodeBstr, append_assoc]
  exact readItem_bytes fuel hread

theorem readItem_encodeTstr {s : String} (h : (bytesOf s).length < 2 ^ 32) :
    readItem (fuel + 1) (encodeTstr s ++ rest) = some (.text (bytesOf s), rest) := by
  obtain ⟨info, hread⟩ := readHead_encodeHead (by decide : 3 < 8) h (bytesOf s ++ rest)
  rw [encodeTstr, append_assoc]
  exact readItem_text fuel hread

theorem readItem_emptyMap :
    readItem (fuel + 1) (encodeMapHead 0 ++ rest) = some (.map [], rest) := by
  obtain ⟨info, hread⟩ := readHead_encodeHead (by decide : 5 < 8) (by decide : 0 < 2 ^ 32) rest
  exact readItem_map fuel hread rfl rfl

/-- An item with a head and contents is nested two levels deep at least. -/
theorem decode_encodeHead_append {major : UInt8} {value : Nat} {bytes : List UInt8} {item : Item}
    (hne : bytes ≠ [])
    (h : ∀ fuel, readItem (fuel + 1 + 1) (encodeHead major value ++ bytes) = some (item, [])) :
    decode (encodeHead major value ++ bytes) = some item := by
  have hhead := length_encodeHead_pos major value
  have hbytes := length_pos_iff.2 hne
  obtain ⟨fuel, hfuel⟩ : ∃ fuel, (encodeHead major value ++ bytes).length = fuel + 1 + 1 := by
    refine ⟨(encodeHead major value).length + bytes.length - 2, ?_⟩
    rw [length_append]
    omega
  refine decode_eq_some ?_
  rw [hfuel]
  exact h fuel

/-- An array of four items, with nothing after it. -/
theorem decode_array_four {bytes b₁ b₂ b₃ : List UInt8} {i₁ i₂ i₃ i₄ : Item}
    (h₁ : ∀ fuel, readItem (fuel + 1) bytes = some (i₁, b₁))
    (h₂ : ∀ fuel, readItem (fuel + 1) b₁ = some (i₂, b₂))
    (h₃ : ∀ fuel, readItem (fuel + 1) b₂ = some (i₃, b₃))
    (h₄ : ∀ fuel, readItem (fuel + 1) b₃ = some (i₄, [])) :
    decode (encodeArrayHead 4 ++ bytes) = some (.array [i₁, i₂, i₃, i₄]) := by
  obtain ⟨info, hread⟩ := readHead_encodeHead (by decide : 4 < 8) (by decide : 4 < 2 ^ 32) bytes
  have hne : bytes ≠ [] := by
    rintro rfl
    exact absurd (h₁ 0) (by simp [readItem, readHead])
  refine decode_encodeHead_append hne fun fuel => readItem_array (fuel + 1) hread ?_
  exact readMany_cons (h₁ fuel) (readMany_cons (h₂ fuel)
    (readMany_cons (h₃ fuel) (readMany_cons (h₄ fuel) rfl)))

end

theorem decode_coseSign1Bytes {protectedHeader payload sig : List UInt8}
    (hprotected : protectedHeader.length < 2 ^ 32) (hpayload : payload.length < 2 ^ 32)
    (hsig : sig.length < 2 ^ 32) : decode (coseSign1Bytes protectedHeader payload sig) =
      some (.array [.bytes protectedHeader, .map [], .bytes payload, .bytes sig]) := by
  have hlast := fun fuel => readItem_encodeBstr fuel [] hsig
  simp only [append_nil] at hlast
  unfold coseSign1Bytes
  simp only [append_assoc]
  exact decode_array_four (fun fuel => readItem_encodeBstr fuel _ hprotected)
    (fun fuel => readItem_emptyMap fuel _) (fun fuel => readItem_encodeBstr fuel _ hpayload) hlast

theorem decode_coseSigStructure {protectedHeader payload : List UInt8}
    (hprotected : protectedHeader.length < 2 ^ 32) (hpayload : payload.length < 2 ^ 32) :
    decode (coseSigStructure protectedHeader payload) =
      some (.array [.text (bytesOf "Signature1"), .bytes protectedHeader, .bytes [],
        .bytes payload]) := by
  have hlast := fun fuel => readItem_encodeBstr fuel [] hpayload
  simp only [append_nil] at hlast
  unfold coseSigStructure
  simp only [append_assoc]
  exact decode_array_four (fun fuel => readItem_encodeTstr fuel _ (by decide))
    (fun fuel => readItem_encodeBstr fuel _ hprotected)
    (fun fuel => readItem_encodeBstr fuel _ (by decide)) hlast

/-- **A token decodes to what was put into it**; what is signed determines header and payload. -/
theorem cose_sign1_decodes_and_sig_structure_injective :
    (∀ protectedHeader payload sig : List UInt8, protectedHeader.length < 2 ^ 32 →
      payload.length < 2 ^ 32 → sig.length < 2 ^ 32 →
      decode (coseSign1Bytes protectedHeader payload sig) =
        some (.array [.bytes protectedHeader, .map [], .bytes payload, .bytes sig])) ∧
    ∀ protectedHeader payload protectedHeader' payload' : List UInt8,
      protectedHeader.length < 2 ^ 32 → payload.length < 2 ^ 32 →
      protectedHeader'.length < 2 ^ 32 → payload'.length < 2 ^ 32 →
      coseSigStructure protectedHeader payload = coseSigStructure protectedHeader' payload' →
      protectedHeader = protectedHeader' ∧ payload = payload' := by
  refine ⟨fun _ _ _ => decode_coseSign1Bytes, ?_⟩
  intro protectedHeader payload protectedHeader' payload' h₁ h₂ h₁' h₂' heq
  have hdecode := decode_coseSigStructure h₁ h₂
  rw [heq, decode_coseSigStructure h₁' h₂'] at hdecode
  simp only [Option.some.injEq, Cbor.Item.array.injEq, cons.injEq,
    Cbor.Item.bytes.injEq, and_true, true_and] at hdecode
  exact ⟨hdecode.1.symm, hdecode.2.symm⟩

/-- Lengths on both sides of a change of the head's size. -/
theorem cose_token_of_longer_payloads :
    decode (coseSign1Bytes (replicate 23 1) (replicate 24 2) (replicate 256 3)) =
      some (.array [.bytes (replicate 23 1), .map [], .bytes (replicate 24 2),
        .bytes (replicate 256 3)]) ∧
    coseSigStructure [0] (replicate 255 1) ≠ coseSigStructure [0] (replicate 256 1) := by
  refine ⟨cose_sign1_decodes_and_sig_structure_injective.1 _ _ _ (by decide +kernel)
    (by decide +kernel) (by decide +kernel), fun h => ?_⟩
  have heq := (cose_sign1_decodes_and_sig_structure_injective.2 _ _ _ _ (by decide +kernel)
    (by decide +kernel) (by decide +kernel) (by decide +kernel) h).2
  exact absurd (congrArg length heq) (by decide +kernel)

end Haltchain.Signing
