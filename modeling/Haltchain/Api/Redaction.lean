import Haltchain.Validator.Evaluators

/-! # Redaction of audit events

`redact_json` of the audit log: the values of sensitive fields are overwritten, at any depth, before
an event is chained, encrypted and appended. Two events that differ in such values only leave the
same line, and everything else stays as it is. -/

namespace Haltchain.Api

open Validator (Value)

/-- `str::to_ascii_lowercase`. -/
def toAsciiLowercase (s : String) : String := .ofList (s.toList.map Char.toLower)

/-- The keys whose values are hidden. -/
def sensitiveKeys : List String := [
  "x-api-key", "authorization", "x-haltchain-signature", "request_sig", "api_key", "token",
  "password", "secret", "sig", "nonce", "request_nonce", "session_token", "cookie"]

/-- A key is compared in lower case. -/
def isSensitiveKey (key : String) : Bool := sensitiveKeys.contains (toAsciiLowercase key)

/-- What stands for a hidden value. -/
def redacted : Value := .string "[REDACTED]"

mutual

/-- Hides the values under sensitive keys. -/
def redactJson : Value → Value
  | .object fields => .object (redactFields fields)
  | .array items => .array (redactItems items)
  | v => v

/-- The fields of an object, redacted. -/
def redactFields : List (String × Value) → List (String × Value)
  | [] => []
  | (k, v) :: fields =>
    (k, if isSensitiveKey k then redacted else redactJson v) :: redactFields fields

/-- The items of an array, redacted. -/
def redactItems : List Value → List Value
  | [] => []
  | v :: items => redactJson v :: redactItems items

end

/-! ## Values that differ in sensitive fields only -/

mutual

/-- Equal, but for the values of sensitive fields. -/
def EqualExcept : Value → Value → Prop
  | .object fields, .object fields' => FieldsEqualExcept fields fields'
  | .array items, .array items' => ItemsEqualExcept items items'
  | v, w => v = w

/-- So for the fields of an object. -/
def FieldsEqualExcept : List (String × Value) → List (String × Value) → Prop
  | [], [] => True
  | (k, v) :: fields, (k', v') :: fields' =>
    k = k' ∧ (isSensitiveKey k ∨ EqualExcept v v') ∧ FieldsEqualExcept fields fields'
  | _, _ => False

/-- So for the items of an array. -/
def ItemsEqualExcept : List Value → List Value → Prop
  | [], [] => True
  | v :: items, v' :: items' => EqualExcept v v' ∧ ItemsEqualExcept items items'
  | _, _ => False

end

mutual

/-- **What is under a sensitive key does not matter.** -/
theorem redactJson_eq_of_equalExcept {v w : Value} (h : EqualExcept v w) :
    redactJson v = redactJson w := by
  cases v with
  | object fields =>
    cases w with
    | object fields' =>
      rw [redactJson, redactJson, redactFields_eq_of_equalExcept h]
    | _ => exact congrArg redactJson h
  | array items =>
    cases w with
    | array items' =>
      rw [redactJson, redactJson, redactItems_eq_of_equalExcept h]
    | _ => exact congrArg redactJson h
  | _ => exact congrArg redactJson h

theorem redactFields_eq_of_equalExcept {fields fields' : List (String × Value)}
    (h : FieldsEqualExcept fields fields') : redactFields fields = redactFields fields' := by
  cases fields with
  | nil =>
    cases fields' with
    | nil => rfl
    | cons f fields' => exact h.elim
  | cons f fields =>
    cases fields' with
    | nil => exact h.elim
    | cons f' fields' =>
      obtain ⟨k, v⟩ := f
      obtain ⟨k', v'⟩ := f'
      obtain ⟨rfl, hvalue, hrest⟩ := h
      rw [redactFields, redactFields, redactFields_eq_of_equalExcept hrest]
      rcases hvalue with hsensitive | hvalue
      · rw [if_pos hsensitive, if_pos hsensitive]
      · rw [redactJson_eq_of_equalExcept hvalue]

theorem redactItems_eq_of_equalExcept {items items' : List Value}
    (h : ItemsEqualExcept items items') : redactItems items = redactItems items' := by
  cases items with
  | nil =>
    cases items' with
    | nil => rfl
    | cons v items' => exact h.elim
  | cons v items =>
    cases items' with
    | nil => exact h.elim
    | cons v' items' =>
      rw [redactItems, redactItems, redactJson_eq_of_equalExcept h.1,
        redactItems_eq_of_equalExcept h.2]

end

mutual

/-- **Nothing else changes.** -/
theorem equalExcept_redactJson (v : Value) : EqualExcept v (redactJson v) := by
  cases v with
  | object fields =>
    rw [redactJson]
    exact equalExcept_redactFields fields
  | array items =>
    rw [redactJson]
    exact equalExcept_redactItems items
  | _ => exact rfl

theorem equalExcept_redactFields (fields : List (String × Value)) :
    FieldsEqualExcept fields (redactFields fields) := by
  cases fields with
  | nil => trivial
  | cons f fields =>
    obtain ⟨k, v⟩ := f
    rw [redactFields]
    refine ⟨rfl, ?_, equalExcept_redactFields fields⟩
    split
    · next hsensitive => exact .inl hsensitive
    · exact .inr (equalExcept_redactJson v)

theorem equalExcept_redactItems (items : List Value) :
    ItemsEqualExcept items (redactItems items) := by
  cases items with
  | nil => trivial
  | cons v items => exact ⟨equalExcept_redactJson v, equalExcept_redactItems items⟩

end

/-! ## The parts of a value -/

/-- A step into a value. -/
inductive PathStep where
  | field (key : String)
  | item (i : Nat)

/-- The part of a value at a path. -/
def part : List PathStep → Value → Option Value
  | [], v => some v
  | .field key :: path, v => (v.get key).bind (part path)
  | .item i :: path, v => (v.asArray.bind fun items => items[i]?).bind (part path)

/-- The step is to no sensitive key. -/
def PathStep.isOpen : PathStep → Bool
  | .field key => !isSensitiveKey key
  | .item _ => true

theorem getElem?_redactItems (items : List Value) (i : Nat) :
    (redactItems items)[i]? = items[i]?.map redactJson := by
  induction items generalizing i with
  | nil => rfl
  | cons v items ih =>
    cases i with
    | zero => rfl
    | succ i => exact ih i

theorem find?_redactFields {key : String} (hopen : isSensitiveKey key = false)
    (fields : List (String × Value)) :
    ((redactFields fields).find? fun f => f.1 = key).map Prod.snd =
      ((fields.find? fun f => f.1 = key).map Prod.snd).map redactJson := by
  induction fields with
  | nil => rfl
  | cons f fields ih =>
    obtain ⟨k, v⟩ := f
    rw [redactFields]
    by_cases hkey : k = key
    · subst hkey
      simp [hopen]
    · simpa [hkey] using ih

theorem part_redactJson {path : List PathStep} (hopen : path.all PathStep.isOpen) (v : Value) :
    part path (redactJson v) = (part path v).map redactJson := by
  induction path generalizing v with
  | nil => rfl
  | cons step path ih =>
    obtain ⟨hstep, hrest⟩ : step.isOpen = true ∧ path.all PathStep.isOpen = true := by
      simpa using hopen
    cases step with
    | field key =>
      have hkey : isSensitiveKey key = false := by simpa [PathStep.isOpen] using hstep
      have hget : (redactJson v).get key = (v.get key).map redactJson := by
        cases v with
        | object fields => rw [redactJson]; exact find?_redactFields hkey fields
        | array items => rw [redactJson]; rfl
        | _ => rfl
      rw [part, part, hget]
      cases v.get key with
      | none => rfl
      | some w => exact ih hrest w
    | item i =>
      have hitem : ((redactJson v).asArray.bind fun items => items[i]?) =
          (v.asArray.bind fun items => items[i]?).map redactJson := by
        cases v with
        | array items => rw [redactJson]; exact getElem?_redactItems items i
        | object fields => rw [redactJson]; rfl
        | _ => rfl
      rw [part, part, hitem]
      cases v.asArray.bind fun items => items[i]? with
      | none => rfl
      | some w => exact ih hrest w

/-- **Redaction is complete and exact.** Values that differ only under sensitive keys are redacted
alike. A value differs from its redaction only there: the part at a path without such keys is the
same, but for what is under such keys inside it. Redacting again changes nothing. -/
theorem redaction_complete_and_exact :
    (∀ v w, EqualExcept v w → redactJson v = redactJson w) ∧
    (∀ v, EqualExcept v (redactJson v) ∧
      ∀ path : List PathStep, path.all PathStep.isOpen →
        part path (redactJson v) = (part path v).map redactJson) ∧
    ∀ v, redactJson (redactJson v) = redactJson v := by
  refine ⟨fun v w h => redactJson_eq_of_equalExcept h, fun v => ⟨?_, ?_⟩, fun v => ?_⟩
  · exact equalExcept_redactJson v
  · exact fun path hopen => part_redactJson hopen v
  · exact (redactJson_eq_of_equalExcept (equalExcept_redactJson v)).symm

end Haltchain.Api
