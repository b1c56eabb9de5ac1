import Mathlib.Algebra.Ring.Int.Defs
import Mathlib.Algebra.Ring.Nat

/-! # What is read from a request

Headers and the numbers in them. -/

namespace Haltchain.Api

open Option

/-- The headers in the order they came, the names in lower case. -/
abbrev HeaderMap := List (String × List UInt8)

namespace HeaderMap

/-- The first value under the name. -/
def get (headers : HeaderMap) (name : String) : Option (List UInt8) := headers.lookup name

/-- `HeaderValue::to_str`: visible ASCII, blank and tab. -/
def toStr (value : List UInt8) : Option String :=
  if value.all fun b => (32 ≤ b && b < 127) || b == 9 then
    some (.ofList (value.map fun b => .ofNat b.toNat))
  else none

/-- A header that is a text. -/
def getStr (headers : HeaderMap) (name : String) : Option String := (headers.get name).bind toStr

end HeaderMap

/-! ## Numbers -/

/-- The value of a digit. -/
def digitVal (c : Char) : Option Nat :=
  if 48 ≤ c.toNat ∧ c.toNat ≤ 57 then some (c.toNat - 48) else none

def parseDigits (cs : List Char) : Option Nat :=
  if cs = [] then none else cs.foldlM (fun n c => (digitVal c).map (n * 10 + ·)) 0

/-- `parse` into an unsigned integer of the given width. Only a plus is a sign. -/
def parseUnsigned (width : Nat) (s : String) : Option Nat :=
  let value := match s.toList with
    | '+' :: cs => parseDigits cs
    | cs => parseDigits cs
  value.filter (· < 2 ^ width)

/-- `parse::<i64>`. -/
def parseI64 (s : String) : Option Int :=
  match s.toList with
  | '-' :: cs => ((parseDigits cs).filter (· ≤ 2 ^ 63)).map fun n : Nat => -(n : Int)
  | _ => (parseUnsigned 63 s).map fun n : Nat => (n : Int)

theorem parseUnsigned_lt {width n : Nat} {s : String} (h : parseUnsigned width s = some n) :
    n < 2 ^ width := by
  obtain ⟨-, hlt⟩ := filter_eq_some_iff.1 h
  exact of_decide_eq_true hlt

theorem parseI64_range {s : String} {n : Int} (h : parseI64 s = some n) :
    -2 ^ 63 ≤ n ∧ n < 2 ^ 63 := by
  unfold parseI64 at h
  split at h
  · obtain ⟨m, hm, rfl⟩ := map_eq_some_iff.1 h
    obtain ⟨-, hle⟩ := filter_eq_some_iff.1 hm
    have := of_decide_eq_true hle
    omega
  · obtain ⟨m, hm, rfl⟩ := map_eq_some_iff.1 h
    have := parseUnsigned_lt hm
    omega

end Haltchain.Api
