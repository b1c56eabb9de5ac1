import Mathlib.Tactic.Common

/-! # The bytes of a text

`String.toUTF8` as a list of bytes: it determines the text, joins as the text does, and does not
begin in the middle of a character. -/

namespace Haltchain.Lib

open List

theorem toList_loop (b : ByteArray) (i : Nat) (r : List UInt8) :
    ByteArray.toList.loop b i r = r.reverse ++ b.data.toList.drop i := by
  fun_induction ByteArray.toList.loop b i r with
  | case1 i r hi ih =>
    have hget : b.get! i = b.data.toList[i] := getElem!_pos b.data i hi
    rw [ih, hget, reverse_cons, append_assoc, singleton_append, getElem_cons_drop]
  | case2 i r hi =>
    have hlen : b.data.toList.length ≤ i := Nat.le_of_not_lt hi
    rw [drop_of_length_le hlen, append_nil]

theorem byteArray_toList (b : ByteArray) : b.toList = b.data.toList := by
  rw [ByteArray.toList, toList_loop, reverse_nil, nil_append, drop_zero]

theorem toUTF8_append (s t : String) :
    (s ++ t).toUTF8.toList = s.toUTF8.toList ++ t.toUTF8.toList := by
  simp only [byteArray_toList]
  show (s ++ t).toByteArray.data.toList = _
  rfl

theorem toUTF8_inj {s t : String} (h : s.toUTF8.toList = t.toUTF8.toList) : s = t := by
  rw [byteArray_toList, byteArray_toList] at h
  exact String.toByteArray_inj.1 (ByteArray.ext (Array.toList_inj.1 h))

/-- The first byte of a character does not continue one. -/
theorem utf8EncodeChar_eq_cons (c : Char) :
    ∃ b rest, String.utf8EncodeChar c = b :: rest ∧ (b.toNat < 128 ∨ 192 ≤ b.toNat) := by
  unfold String.utf8EncodeChar
  dsimp only
  split_ifs
  all_goals
    refine ⟨_, _, rfl, ?_⟩
    rw [UInt8.toNat_ofNat']
    omega

theorem head_toUTF8 {s : String} {b : UInt8} {rest : List UInt8}
    (h : s.toUTF8.data.toList = b :: rest) : b.toNat < 128 ∨ 192 ≤ b.toNat := by
  have hbytes : s.toUTF8.data.toList = s.toList.flatMap String.utf8EncodeChar := by
    rw [show s.toUTF8 = s.toList.utf8Encode from String.utf8Encode_toList.symm]
    simp [utf8Encode]
  rw [hbytes] at h
  cases hs : s.toList with
  | nil => simp [hs] at h
  | cons c cs =>
    obtain ⟨b', rest', hc, hb⟩ := utf8EncodeChar_eq_cons c
    rw [hs, flatMap_cons, hc, cons_append] at h
    exact (cons.inj h).1 ▸ hb

end Haltchain.Lib
