import Mathlib.Algebra.Ring.Nat

/-! # CBOR

A decoder for the data items of RFC 8949. The head of an item has three bits for the major type and
five that hold a small argument or say in how many bytes it follows. Strings, arrays and maps may be
of indefinite length, up to a break. Text is left as its UTF-8 bytes. -/

namespace Haltchain.Lib.Cbor

open Option List

/-! ## Numbers in bytes -/

/-- A number in `width` bytes, most significant first. -/
def toBeBytes : Nat → Nat → List UInt8
  | 0, _ => []
  | width + 1, n => toBeBytes width (n / 256) ++ [n.toUInt8]

def ofBeBytes (bytes : List UInt8) : Nat := bytes.foldl (fun n b => n * 256 + b.toNat) 0

@[simp] theorem length_toBeBytes (width n : Nat) : (toBeBytes width n).length = width := by
  induction width generalizing n with
  | zero => rfl
  | succ width ih => rw [toBeBytes, length_append, ih, length_singleton]

variable {n : Nat}

theorem ofBeBytes_toBeBytes {width : Nat} (h : n < 256 ^ width) :
    ofBeBytes (toBeBytes width n) = n := by
  induction width generalizing n with
  | zero =>
    have : n = 0 := by simpa using h
    rw [this]
    rfl
  | succ width ih =>
    have hdiv : n / 256 < 256 ^ width := Nat.div_lt_of_lt_mul (by rwa [← Nat.pow_succ'])
    have hbyte : n.toUInt8.toNat = n % 256 := UInt8.toNat_ofNat'
    rw [toBeBytes, ofBeBytes, foldl_append]
    change ofBeBytes (toBeBytes width (n / 256)) * 256 + n.toUInt8.toNat = n
    rw [ih hdiv]
    omega

/-! ## Heads -/

structure Head where
  major : Nat
  /-- The five bits. -/
  info : Nat
  /-- None if the length is indefinite. -/
  argument : Option Nat

/-- So many bytes, and what is left. -/
def readBytes (n : Nat) (bytes : List UInt8) : Option (List UInt8 × List UInt8) :=
  if n ≤ bytes.length then some (bytes.take n, bytes.drop n) else none

/-- Values of 28, 29 and 30 for the five bits are reserved. -/
def readHead : List UInt8 → Option (Head × List UInt8)
  | [] => none
  | b :: bytes =>
    let major := b.toNat / 32
    let info := b.toNat % 32
    if info < 24 then some (⟨major, info, some info⟩, bytes)
    else if info < 28 then
      (readBytes (2 ^ (info - 24)) bytes).map fun (arg, rest) =>
        (⟨major, info, some (ofBeBytes arg)⟩, rest)
    else if info = 31 then some (⟨major, info, none⟩, bytes)
    else none

@[simp] theorem readBytes_append {bytes : List UInt8} (h : bytes.length = n) (rest : List UInt8) :
    readBytes n (bytes ++ rest) = some (bytes, rest) := by
  unfold readBytes
  rw [if_pos (by rw [length_append]; omega), take_left' h, drop_left' h]

/-- An argument below 24 is part of the first byte. -/
theorem readHead_short {b : UInt8} {major : Nat} (hb : b.toNat = 32 * major + n) (hn : n < 24)
    (rest : List UInt8) : readHead (b :: rest) = some (⟨major, n, some n⟩, rest) := by
  have hmajor : b.toNat / 32 = major := by omega
  have hinfo : b.toNat % 32 = n := by omega
  unfold readHead
  simp only [hmajor, hinfo, if_pos hn]

/-- Others follow in 1, 2, 4 or 8 bytes. -/
theorem readHead_long {b : UInt8} {major k : Nat} (hb : b.toNat = 32 * major + (24 + k))
    (hk : k < 4) (hn : n < 256 ^ 2 ^ k) (rest : List UInt8) :
    readHead (b :: (toBeBytes (2 ^ k) n ++ rest)) = some (⟨major, 24 + k, some n⟩, rest) := by
  have hmajor : b.toNat / 32 = major := by omega
  have hinfo : b.toNat % 32 = 24 + k := by omega
  have hwidth : 24 + k - 24 = k := by omega
  unfold readHead
  simp only [hmajor, hinfo, hwidth]
  rw [if_neg (by omega), if_pos (by omega), readBytes_append (length_toBeBytes _ _)]
  simp only [map_some, ofBeBytes_toBeBytes hn]

/-! ## Items -/

/-- A data item. -/
inductive Item where
  | uint (n : Nat)
  /-- The number `-1 - n`. -/
  | nint (n : Nat)
  | bytes (b : List UInt8)
  | text (b : List UInt8)
  | array (items : List Item)
  | map (entries : List (Item × Item))
  | tagged (tag : Nat) (item : Item)
  | simple (n : Nat)
  /-- The bits of a floating-point number of so many bytes. -/
  | float (width bits : Nat)

/-- So many items. -/
def readMany (read : List UInt8 → Option (Item × List UInt8)) :
    Nat → List UInt8 → Option (List Item × List UInt8)
  | 0, bytes => some ([], bytes)
  | n + 1, bytes => do
    let (item, bytes) ← read bytes
    let (items, bytes) ← readMany read n bytes
    return (item :: items, bytes)

/-- Items up to a break. -/
def readUntilBreak (read : List UInt8 → Option (Item × List UInt8)) :
    Nat → List UInt8 → Option (List Item × List UInt8)
  | 0, _ => none
  | _ + 1, [] => none
  | fuel + 1, b :: bytes =>
    if b = 0xff then some ([], bytes)
    else do
      let (item, bytes) ← read (b :: bytes)
      let (items, bytes) ← readUntilBreak read fuel bytes
      return (item :: items, bytes)

/-- A string of the type and of definite length, as chunks are. -/
def readChunk (major : Nat) (bytes : List UInt8) : Option (Item × List UInt8) := do
  let (head, bytes) ← readHead bytes
  if head.major = major then
    let n ← head.argument
    let (b, bytes) ← readBytes n bytes
    return (.bytes b, bytes)
  else none

/-- The bytes of a chunk. -/
def chunkBytes : Item → List UInt8
  | .bytes b => b
  | _ => []

/-- The items of a map are its keys and values in turn. -/
def pairUp : List Item → Option (List (Item × Item))
  | [] => some []
  | [_] => none
  | key :: value :: items => (pairUp items).map ((key, value) :: ·)

/-- Values up to 23 stand in the head, others, from 32 on, in a byte after it. -/
def readSimple (info n : Nat) : Option Item :=
  if info < 24 then some (.simple n)
  else if info = 24 then if n < 32 then none else some (.simple n)
  else some (.float (2 ^ (info - 24)) n)

/-- An item, and what is left. Items are no longer than `fuel`, nor nested deeper. -/
def readItem : Nat → List UInt8 → Option (Item × List UInt8)
  | 0, _ => none
  | fuel + 1, bytes => do
    let (head, bytes) ← readHead bytes
    match head.major, head.argument with
    | 0, some n => some (.uint n, bytes)
    | 1, some n => some (.nint n, bytes)
    | 2, some n => (readBytes n bytes).map fun (b, rest) => (.bytes b, rest)
    | 2, none =>
      (readUntilBreak (readChunk 2) (fuel + 1) bytes).map fun (chunks, rest) =>
        (.bytes (chunks.flatMap chunkBytes), rest)
    | 3, some n => (readBytes n bytes).map fun (b, rest) => (.text b, rest)
    | 3, none =>
      (readUntilBreak (readChunk 3) (fuel + 1) bytes).map fun (chunks, rest) =>
        (.text (chunks.flatMap chunkBytes), rest)
    | 4, some n =>
      (readMany (readItem fuel) n bytes).map fun (items, rest) => (.array items, rest)
    | 4, none =>
      (readUntilBreak (readItem fuel) (fuel + 1) bytes).map fun (items, rest) =>
        (.array items, rest)
    | 5, some n =>
      (readMany (readItem fuel) (2 * n) bytes).bind fun (items, rest) =>
        (pairUp items).map fun entries => (.map entries, rest)
    | 5, none =>
      (readUntilBreak (readItem fuel) (fuel + 1) bytes).bind fun (items, rest) =>
        (pairUp items).map fun entries => (.map entries, rest)
    | 6, some n => (readItem fuel bytes).map fun (item, rest) => (.tagged n item, rest)
    | 7, some n => (readSimple head.info n).map fun item => (item, bytes)
    | _, _ => none

/-- The item the bytes encode, with nothing after it. -/
def decode (bytes : List UInt8) : Option Item :=
  (readItem bytes.length bytes).bind fun (item, rest) => if rest = [] then some item else none

/-! ### What a head is followed by -/

section

variable {bytes rest : List UInt8} {info : Nat} (fuel : Nat)

theorem readItem_bytes {b : List UInt8}
    (h : readHead bytes = some (⟨2, info, some b.length⟩, b ++ rest)) :
    readItem (fuel + 1) bytes = some (.bytes b, rest) := by
  simp only [readItem, h, bind_eq_bind, bind_some, readBytes_append rfl, map_some]

theorem readItem_text {b : List UInt8}
    (h : readHead bytes = some (⟨3, info, some b.length⟩, b ++ rest)) :
    readItem (fuel + 1) bytes = some (.text b, rest) := by
  simp only [readItem, h, bind_eq_bind, bind_some, readBytes_append rfl, map_some]

theorem readItem_array {bytes' : List UInt8} {items : List Item}
    (h : readHead bytes = some (⟨4, info, some n⟩, bytes'))
    (hitems : readMany (readItem fuel) n bytes' = some (items, rest)) :
    readItem (fuel + 1) bytes = some (.array items, rest) := by
  simp only [readItem, h, bind_eq_bind, bind_some, hitems, map_some]

theorem readItem_map {bytes' : List UInt8} {items : List Item} {entries : List (Item × Item)}
    (h : readHead bytes = some (⟨5, info, some n⟩, bytes'))
    (hitems : readMany (readItem fuel) (2 * n) bytes' = some (items, rest))
    (hpair : pairUp items = some entries) :
    readItem (fuel + 1) bytes = some (.map entries, rest) := by
  simp only [readItem, h, bind_eq_bind, bind_some, hitems, hpair, map_some]

end

theorem readMany_cons {read : List UInt8 → Option (Item × List UInt8)}
    {bytes bytes' rest : List UInt8} {item : Item} {items : List Item}
    (hitem : read bytes = some (item, bytes'))
    (hitems : readMany read n bytes' = some (items, rest)) :
    readMany read (n + 1) bytes = some (item :: items, rest) := by
  simp only [readMany, hitem, hitems, bind_eq_bind, bind_some]
  rfl

theorem decode_eq_some {bytes : List UInt8} {item : Item}
    (h : readItem bytes.length bytes = some (item, [])) : decode bytes = some item := by
  rw [decode, h]
  rfl

end Haltchain.Lib.Cbor
