import Haltchain.Validator.Evaluators
import Mathlib.Data.List.Destutter

/-! # Personal data in the metadata of a request

`crates/validator/src/pii.rs`: the walk over a JSON value that flags the paths of field names and of
strings that look like personal data. The four regular expressions and the lower case of Unicode are
parameters. -/

namespace Haltchain.Validator

open List

/-- The regular expressions and the library's text functions. -/
structure TextPatterns where
  emailRe : String → Bool
  ssnRe : String → Bool
  cardRe : String → Bool
  phoneRe : String → Bool
  toLowercase : String → String

/-- Parts of field names that indicate personal data whatever the value. -/
def piiFieldNames : List String := [
  "ssn", "social_security", "passport", "date_of_birth", "dob", "birth_date", "credit_card",
  "card_number", "cvv", "cvc", "password", "secret", "private_key", "api_key", "access_token",
  "refresh_token", "national_id", "tax_id", "tin", "nhs_number", "driver_license", "ip_address"]

structure PiiScanResult where
  fieldCount : Nat
  containsPii : Bool
  flaggedFields : List String

section

variable (t : TextPatterns)

def valueContainsPii (s : String) : Bool := t.emailRe s || t.ssnRe s || t.cardRe s || t.phoneRe s

def isPiiFieldName (name : String) : Bool :=
  piiFieldNames.any fun p => p.toList <:+: (t.toLowercase name).toList

/-- The path of a field of the object at `path`. -/
def childPath (path k : String) : String := if path = "" then k else s!"{path}.{k}"

mutual

/-- What the walk flags, in its order. -/
def scanRecursive (path : String) : Value → List String
  | .string s => if valueContainsPii t s then [path] else []
  | .object fields => scanFields path fields
  | .array items => scanItems path 0 items
  | _ => []

/-- The fields of an object. -/
def scanFields (path : String) : List (String × Value) → List String
  | [] => []
  | (k, v) :: rest =>
    (if isPiiFieldName t k then [childPath path k] else []) ++
      scanRecursive (childPath path k) v ++ scanFields path rest

/-- The items of an array. -/
def scanItems (path : String) (i : Nat) : List Value → List String
  | [] => []
  | v :: rest => scanRecursive s!"{path}[{i}]" v ++ scanItems path (i + 1) rest

end

/-- `Vec::dedup`, which drops repetitions only of neighbours. -/
def dedup (flagged : List String) : List String := flagged.destutter (· ≠ ·)

/-- What is found in a value. -/
def scanValue (value : Value) : PiiScanResult :=
  let flagged := dedup (scanRecursive t "" value)
  ⟨flagged.length, !flagged.isEmpty, flagged⟩

/-! ## More fields, more flags -/

theorem mem_dedup {x : String} (flagged : List String) : x ∈ dedup flagged ↔ x ∈ flagged := by
  constructor
  · exact fun h => (destutter_sublist (· ≠ ·) flagged).mem h
  · cases flagged with
    | nil => exact id
    | cons a rest =>
      -- the walk remembers the last flag that it kept
      intro h
      show x ∈ rest.destutter' (· ≠ ·) a
      induction rest generalizing a with
      | nil => exact h
      | cons b rest ih =>
        rw [destutter'_cons]
        split
        next hab =>
          rcases mem_cons.mp h with rfl | h
          · exact mem_cons_self
          · exact mem_cons_of_mem _ (ih b h)
        next hab =>
          obtain rfl : a = b := not_not.mp hab
          exact ih a (by simpa using h)

/-- Runs do not grow when elements are taken out. -/
theorem length_dedup_le {flagged flagged' : List String} (h : flagged.Sublist flagged') :
    (dedup flagged).length ≤ (dedup flagged').length :=
  (isChain_destutter (· ≠ ·) flagged).length_le_length_destutter_ne
    ((destutter_sublist (· ≠ ·) flagged).trans h)

theorem scanFields_sublist (path : String) {fields fields' : List (String × Value)}
    (h : fields.Sublist fields') :
    (scanFields t path fields).Sublist (scanFields t path fields') := by
  induction h with
  | slnil => exact .refl _
  | cons f _ ih =>
    exact ih.trans (sublist_append_right _ _)
  | cons_cons f _ ih =>
    exact (List.Sublist.refl _).append ih

/-- What one scan found, another found too. -/
structure PiiScanResult.Within (a b : PiiScanResult) : Prop where
  fieldCount : a.fieldCount ≤ b.fieldCount
  containsPii : a.containsPii = true → b.containsPii = true
  flaggedFields : a.flaggedFields ⊆ b.flaggedFields

theorem scanValue_within {value value' : Value}
    (h : (scanRecursive t "" value).Sublist (scanRecursive t "" value')) :
    (scanValue t value).Within (scanValue t value') where
  fieldCount := length_dedup_le h
  containsPii := by
    intro hpii
    have hne : dedup (scanRecursive t "" value) ≠ [] := by simpa [scanValue] using hpii
    have hlen := length_pos_iff.mpr hne
    have hlen' := hlen.trans_le (length_dedup_le h)
    simpa [scanValue] using length_pos_iff.mp hlen'
  flaggedFields := fun x hx => (mem_dedup _).mpr (h.mem ((mem_dedup _).mp hx))

end

end Haltchain.Validator
