
/-! # Base64

The standard alphabet with padding. A text is decoded only if it is the encoding of what it decodes
to: the padding has to be there, it may stand at the end alone, and the bits that it leaves over
have to be zero. -/

namespace Haltchain.Lib.Base64

open List Option

def digit (n : Nat) : Char :=
  .ofNat (if n < 26 then 65 + n else if n < 52 then 71 + n else if n < 62 then n - 4
    else if n = 62 then 43 else 47)

def val (c : Char) : Option Nat :=
  let n := c.toNat
  if 65 ≤ n ∧ n ≤ 90 then some (n - 65)
  else if 97 ≤ n ∧ n ≤ 122 then some (n - 71)
  else if 48 ≤ n ∧ n ≤ 57 then some (n + 4)
  else if n = 43 then some 62
  else if n = 47 then some 63
  else none

def encodeBytes : List UInt8 → List Char
  | [] => []
  | [a] => [digit (a.toNat / 4), digit (a.toNat % 4 * 16), '=', '=']
  | [a, b] =>
    [digit (a.toNat / 4), digit (a.toNat % 4 * 16 + b.toNat / 16), digit (b.toNat % 16 * 4), '=']
  | a :: b :: c :: rest =>
    digit (a.toNat / 4) :: digit (a.toNat % 4 * 16 + b.toNat / 16) ::
      digit (b.toNat % 16 * 4 + c.toNat / 64) :: digit (c.toNat % 64) :: encodeBytes rest

/-- The text of the bytes. -/
def encode (bytes : List UInt8) : String := .ofList (encodeBytes bytes)

/-- Four digits are three bytes. -/
def decodeQuad (p q r s : Char) : Option (List UInt8) := do
  let w ← val p
  let x ← val q
  let y ← val r
  let z ← val s
  return [(w * 4 + x / 16).toUInt8, (x % 16 * 16 + y / 4).toUInt8, (y % 4 * 64 + z).toUInt8]

/-- The last four characters, where padding may be. -/
def decodeLast (p q r s : Char) : Option (List UInt8) :=
  if s ≠ '=' then decodeQuad p q r s
  else do
    let w ← val p
    let x ← val q
    if r = '=' then
      if x % 16 = 0 then some [(w * 4 + x / 16).toUInt8] else none
    else
      let y ← val r
      if y % 4 = 0 then some [(w * 4 + x / 16).toUInt8, (x % 16 * 16 + y / 4).toUInt8] else none

def decodeChars : List Char → Option (List UInt8)
  | [] => some []
  | [p, q, r, s] => decodeLast p q r s
  | p :: q :: r :: s :: rest => do
    let bytes ← decodeQuad p q r s
    let bytes' ← decodeChars rest
    return bytes ++ bytes'
  | _ => none

/-- The bytes of a text. -/
def decode (s : String) : Option (List UInt8) := decodeChars s.toList

/-! ## Round trip -/

theorem val_digit {n : Nat} (h : n < 64) : val (digit n) = some n := by
  have hall : ∀ k : Fin 64, val (digit k) = some k.1 := by decide
  exact hall ⟨n, h⟩

theorem ne_of_val_digit {n : Nat} (h : n < 64) {c : Char} (hc : val c = none) : digit n ≠ c := by
  rintro rfl
  rw [val_digit h] at hc
  simp at hc

theorem digit_ne_pad {n : Nat} (h : n < 64) : digit n ≠ '=' := ne_of_val_digit h (by decide)

theorem toUInt8_of_toNat {n : Nat} {a : UInt8} (h : n = a.toNat) : n.toUInt8 = a := by
  rw [h]
  exact UInt8.ofNat_toNat

/-- Three bytes are cut into four digits and put together again. -/
theorem decodeQuad_digits (a b c : UInt8) :
    decodeQuad (digit (a.toNat / 4)) (digit (a.toNat % 4 * 16 + b.toNat / 16))
      (digit (b.toNat % 16 * 4 + c.toNat / 64)) (digit (c.toNat % 64)) = some [a, b, c] := by
  have ha := a.toNat_lt
  have hb := b.toNat_lt
  have hc := c.toNat_lt
  unfold decodeQuad
  rw [val_digit (by omega), val_digit (by omega), val_digit (by omega), val_digit (by omega)]
  simp only [bind_eq_bind, bind_some, Option.pure_def]
  rw [toUInt8_of_toNat (a := a) (by omega), toUInt8_of_toNat (a := b) (by omega),
    toUInt8_of_toNat (a := c) (by omega)]

theorem decodeChars_encodeBytes (bytes : List UInt8) :
    decodeChars (encodeBytes bytes) = some bytes := by
  fun_induction encodeBytes bytes with
  | case1 => rfl
  | case2 a =>
    have ha := a.toNat_lt
    rw [decodeChars, decodeLast, if_neg (by simp), val_digit (by omega), val_digit (by omega)]
    simp only [bind_eq_bind, bind_some, if_true, Nat.mul_mod_left]
    rw [toUInt8_of_toNat (a := a) (by omega)]
  | case3 a b =>
    have ha := a.toNat_lt
    have hb := b.toNat_lt
    rw [decodeChars, decodeLast, if_neg (by simp), val_digit (by omega), val_digit (by omega),
      val_digit (by omega)]
    simp only [bind_eq_bind, bind_some, if_true, Nat.mul_mod_left]
    rw [if_neg (digit_ne_pad (by omega)), toUInt8_of_toNat (a := a) (by omega),
      toUInt8_of_toNat (a := b) (by omega)]
  | case4 a b c rest ih =>
    have hquad := decodeQuad_digits a b c
    cases hrest : encodeBytes rest with
    | nil =>
      -- the last four characters, without padding
      rw [hrest] at ih
      obtain rfl : [] = rest := some.inj ih
      rw [decodeChars, decodeLast, if_pos (digit_ne_pad (Nat.mod_lt _ (by decide))), hquad]
    | cons d ds =>
      rw [hrest] at ih
      rw [decodeChars, hquad, ih]
      · rfl
      · exact fun h => cons_ne_nil _ _ h

@[simp] theorem decode_encode (bytes : List UInt8) : decode (encode bytes) = some bytes := by
  rw [decode, encode, String.toList_ofList, decodeChars_encodeBytes]

/-- A character that is neither a digit nor the padding does not occur. -/
theorem notMem_encode {c : Char} (hval : val c = none) (hpad : c ≠ '=') (bytes : List UInt8) :
    c ∉ (encode bytes).toList := by
  have hdigit : ∀ {n : Nat}, n < 64 → c ≠ digit n := fun h => (ne_of_val_digit h hval).symm
  rw [encode, String.toList_ofList]
  fun_induction encodeBytes bytes with
  | case1 => exact not_mem_nil
  | case2 a =>
    have ha := a.toNat_lt
    simp only [mem_cons, not_mem_nil, or_false, not_or]
    exact ⟨hdigit (by omega), hdigit (by omega), hpad, hpad⟩
  | case3 a b =>
    have ha := a.toNat_lt
    have hb := b.toNat_lt
    simp only [mem_cons, not_mem_nil, or_false, not_or]
    exact ⟨hdigit (by omega), hdigit (by omega), hdigit (by omega), hpad⟩
  | case4 a b d rest ih =>
    have ha := a.toNat_lt
    have hb := b.toNat_lt
    have hd := d.toNat_lt
    simp only [mem_cons, not_or]
    exact ⟨hdigit (by omega), hdigit (by omega), hdigit (by omega), hdigit (by omega), ih⟩

theorem notMem_of_decodeQuad {c p q r s : Char} (hval : val c = none) {bytes : List UInt8}
    (h : decodeQuad p q r s = some bytes) : c ∉ [p, q, r, s] := by
  intro hc
  simp only [mem_cons, not_mem_nil, or_false] at hc
  unfold decodeQuad at h
  rcases hc with rfl | rfl | rfl | rfl <;> simp [hval] at h

theorem notMem_of_decodeLast {c p q r s : Char} (hval : val c = none) (hpad : c ≠ '=')
    {bytes : List UInt8} (h : decodeLast p q r s = some bytes) : c ∉ [p, q, r, s] := by
  unfold decodeLast at h
  split at h
  · exact notMem_of_decodeQuad hval h
  rename_i hs
  intro hc
  simp only [mem_cons, not_mem_nil, or_false] at hc
  rcases hc with rfl | rfl | rfl | rfl
  · simp [hval] at h
  · simp [hval] at h
  · simp [hval, hpad] at h
  · exact hs hpad

/-- Such a character does not occur in what can be decoded. -/
theorem notMem_of_decode {c : Char} (hval : val c = none) (hpad : c ≠ '=') {s : String}
    {bytes : List UInt8} (h : decode s = some bytes) : c ∉ s.toList := by
  unfold decode at h
  generalize s.toList = cs at h
  fun_induction decodeChars cs generalizing bytes with
  | case1 => exact not_mem_nil
  | case2 p q r s => exact notMem_of_decodeLast hval hpad h
  | case3 p q r s rest _ ih =>
    simp only [bind_eq_bind, bind_eq_some_iff] at h
    obtain ⟨quad, hquad, bytes', hrest, -⟩ := h
    have hfront := notMem_of_decodeQuad hval hquad
    have hback := ih hrest
    simp only [mem_cons, not_mem_nil, or_false, not_or] at hfront ⊢
    exact ⟨hfront.1, hfront.2.1, hfront.2.2.1, hfront.2.2.2, hback⟩
  | case4 => simp at h

/-- A text is not shorter than what it encodes. -/
theorem length_le_utf8ByteSize_encode (bytes : List UInt8) :
    bytes.length ≤ (encode bytes).utf8ByteSize := by
  have hchars (cs : List Char) : cs.length ≤ (String.ofList cs).utf8ByteSize := by
    induction cs with
    | nil => exact Nat.zero_le _
    | cons c cs ih =>
      have hpos := c.utf8Size_pos
      rw [← singleton_append, String.ofList_append, String.utf8ByteSize_append,
        ← String.singleton_eq_ofList, String.utf8ByteSize_singleton, length_append,
        length_singleton]
      omega
  refine Nat.le_trans ?_ (hchars (encodeBytes bytes))
  fun_induction encodeBytes bytes with
  | case1 => exact Nat.le_refl _
  | case2 a => simp
  | case3 a b => simp
  | case4 a b d rest ih =>
    simp only [length_cons]
    omega

end Haltchain.Lib.Base64
