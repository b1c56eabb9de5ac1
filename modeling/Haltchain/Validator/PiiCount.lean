import Haltchain.Api.Redaction
import Haltchain.Lib.Stutter
import Haltchain.Validator.Pii
import Mathlib.Data.Set.Card

/-! # How much personal data is counted

`scan_value` counts the paths that it has flagged, without repetitions of neighbours. But paths are
texts in which the keys are joined without being escaped, so that two fields can share one. -/

namespace Haltchain.Validator

open Api (PathStep part)
open Lib List

/-! ## Documents -/

mutual

/-- The keys of every object are distinct, as in a `serde_json::Map`. -/
def Value.DistinctKeys : Value → Prop
  | .object fields => (fields.map Prod.fst).Nodup ∧ DistinctKeysIn fields
  | .array items => DistinctKeysInItems items
  | _ => True

/-- So in the fields. -/
def DistinctKeysIn : List (String × Value) → Prop
  | [] => True
  | (_, v) :: fields => v.DistinctKeys ∧ DistinctKeysIn fields

/-- So in the items. -/
def DistinctKeysInItems : List Value → Prop
  | [] => True
  | v :: items => v.DistinctKeys ∧ DistinctKeysInItems items

end

structure Document where
  value : Value
  distinctKeys : value.DistinctKeys

section

variable (t : TextPatterns)

def holdsPii : Value → Bool
  | .string s => valueContainsPii t s
  | _ => false

/-- The locations with a telling name or a telling string. -/
def piiLocations (v : Value) : Set (List PathStep) :=
  {path | ∃ w, part path v = some w ∧
    (holdsPii t w = true ∨ ∃ k, path.getLast? = some (.field k) ∧ isPiiFieldName t k = true)}

/-! ## The locations in the order of the walk -/

mutual

/-- The locations below a value. -/
def flaggedBelow : Value → List (List PathStep)
  | .object fields => flaggedFields fields
  | .array items => flaggedItems 0 items
  | _ => []

def flaggedFields : List (String × Value) → List (List PathStep)
  | [] => []
  | (k, v) :: fields =>
    ((if isPiiFieldName t k || holdsPii t v then [[]] else []) ++ flaggedBelow v).map
        (.field k :: ·) ++ flaggedFields fields

def flaggedItems (i : Nat) : List Value → List (List PathStep)
  | [] => []
  | v :: items =>
    ((if holdsPii t v then [[]] else []) ++ flaggedBelow v).map (.item i :: ·) ++
      flaggedItems (i + 1) items

end

/-- The locations in a value, which may have a telling name itself. -/
def flaggedIn (named : Bool) (v : Value) : List (List PathStep) :=
  (if named || holdsPii t v then [[]] else []) ++ flaggedBelow t v

/-- The path the walk writes for a location below `path`. -/
def spell (path : String) : List PathStep → String
  | [] => path
  | .field k :: steps => spell (childPath path k) steps
  | .item i :: steps => spell s!"{path}[{i}]" steps

theorem flaggedFields_cons (k : String) (v : Value) (fields : List (String × Value)) :
    flaggedFields t ((k, v) :: fields) =
      (flaggedIn t (isPiiFieldName t k) v).map (.field k :: ·) ++ flaggedFields t fields := by
  rw [flaggedFields, flaggedIn]

theorem flaggedItems_cons (i : Nat) (v : Value) (items : List Value) :
    flaggedItems t i (v :: items) =
      (flaggedIn t false v).map (.item i :: ·) ++ flaggedItems t (i + 1) items := by
  rw [flaggedItems, flaggedIn, Bool.false_or]

/-! ### The walk writes their paths, some of them twice -/

theorem map_spell_field (path k : String) (l : List (List PathStep)) :
    (l.map (.field k :: ·)).map (spell path) = l.map (spell (childPath path k)) := by
  rw [map_map]
  rfl

theorem map_spell_item (path : String) (i : Nat) (l : List (List PathStep)) :
    (l.map (.item i :: ·)).map (spell path) = l.map (spell s!"{path}[{i}]") := by
  rw [map_map]
  rfl

/-- What is flagged for the name comes before what is below. -/
theorem stutter_of_below {path : String} {named : Bool} {l : List (List PathStep)}
    {flagged : List String} (h : Stutter (l.map (spell path)) flagged) :
    Stutter (((if named || false then [[]] else []) ++ l).map (spell path))
      ((if named then [path] else []) ++ flagged) := by
  cases named with
  | false => exact h
  | true => exact (Stutter.once path).append h

mutual

theorem stutter_scan (path : String) (named : Bool) (v : Value) :
    Stutter ((flaggedIn t named v).map (spell path))
      ((if named then [path] else []) ++ scanRecursive t path v) := by
  cases v with
  | string s =>
    by_cases hpii : valueContainsPii t s = true
    · have hflagged : flaggedIn t named (.string s) = [[]] := by
        simp [flaggedIn, holdsPii, flaggedBelow, hpii]
      rw [hflagged, scanRecursive, if_pos hpii]
      cases named with
      | false => exact .once path
      | true => exact .twice path
    · simp only [flaggedIn, holdsPii, flaggedBelow, scanRecursive, hpii]
      exact stutter_of_below .nil
  | object fields =>
    simp only [flaggedIn, holdsPii, flaggedBelow, scanRecursive]
    exact stutter_of_below (stutter_scanFields path fields)
  | array items =>
    simp only [flaggedIn, holdsPii, flaggedBelow, scanRecursive]
    exact stutter_of_below (stutter_scanItems path 0 items)
  | null | bool b | number n =>
    simp only [flaggedIn, holdsPii, flaggedBelow, scanRecursive]
    exact stutter_of_below .nil

theorem stutter_scanFields (path : String) (fields : List (String × Value)) :
    Stutter ((flaggedFields t fields).map (spell path)) (scanFields t path fields) := by
  cases fields with
  | nil => exact .nil
  | cons f fields =>
    obtain ⟨k, v⟩ := f
    rw [flaggedFields_cons, scanFields, map_append, map_spell_field]
    exact (stutter_scan (childPath path k) (isPiiFieldName t k) v).append
      (stutter_scanFields path fields)

theorem stutter_scanItems (path : String) (i : Nat) (items : List Value) :
    Stutter ((flaggedItems t i items).map (spell path)) (scanItems t path i items) := by
  cases items with
  | nil => exact .nil
  | cons v items =>
    rw [flaggedItems_cons, scanItems, map_append, map_spell_item]
    exact (stutter_scan s!"{path}[{i}]" false v).append (stutter_scanItems path (i + 1) items)

end

/-- The paths kept are those of the locations, but for equal neighbours. -/
theorem dedup_scanRecursive (v : Value) :
    dedup (scanRecursive t "" v) = dedup ((flaggedIn t false v).map (spell "")) :=
  (stutter_scan t "" false v).destutter

/-! ### They are the locations, each once -/

theorem mem_flaggedFields {path : List PathStep} (fields : List (String × Value)) :
    path ∈ flaggedFields t fields ↔ ∃ k v steps, (k, v) ∈ fields ∧ path = .field k :: steps ∧
      steps ∈ flaggedIn t (isPiiFieldName t k) v := by
  induction fields with
  | nil => simp [flaggedFields]
  | cons f fields ih =>
    obtain ⟨k, v⟩ := f
    rw [flaggedFields_cons, mem_append, ih, mem_map]
    constructor
    · rintro (⟨steps, hsteps, rfl⟩ | ⟨k', v', steps, hmem, rfl, hsteps⟩)
      · exact ⟨k, v, steps, mem_cons_self, rfl, hsteps⟩
      · exact ⟨k', v', steps, mem_cons_of_mem _ hmem, rfl, hsteps⟩
    · rintro ⟨k', v', steps, hmem, rfl, hsteps⟩
      rcases mem_cons.1 hmem with heq | hmem
      · obtain ⟨rfl, rfl⟩ := Prod.mk.inj heq
        exact .inl ⟨steps, hsteps, rfl⟩
      · exact .inr ⟨k', v', steps, hmem, rfl, hsteps⟩

theorem mem_flaggedItems {path : List PathStep} (i : Nat) (items : List Value) :
    path ∈ flaggedItems t i items ↔ ∃ j v steps, items[j]? = some v ∧
      path = .item (i + j) :: steps ∧ steps ∈ flaggedIn t false v := by
  induction items generalizing i with
  | nil => simp [flaggedItems]
  | cons v items ih =>
    rw [flaggedItems_cons, mem_append, ih, mem_map]
    constructor
    · rintro (⟨steps, hsteps, rfl⟩ | ⟨j, v', steps, hget, rfl, hsteps⟩)
      · exact ⟨0, v, steps, rfl, rfl, hsteps⟩
      · exact ⟨j + 1, v', steps, hget, by rw [Nat.add_right_comm, add_assoc], hsteps⟩
    · rintro ⟨j, v', steps, hget, rfl, hsteps⟩
      cases j with
      | zero =>
        cases hget
        exact .inl ⟨steps, hsteps, rfl⟩
      | succ j =>
        exact .inr ⟨j, v', steps, hget, by rw [Nat.add_right_comm, add_assoc], hsteps⟩

theorem nil_notMem_flaggedBelow (v : Value) : [] ∉ flaggedBelow t v := by
  cases v with
  | object fields => simp [flaggedBelow, mem_flaggedFields]
  | array items => simp [flaggedBelow, mem_flaggedItems]
  | _ => simp [flaggedBelow]

theorem distinctKeys_of_mem {k : String} {v : Value} {fields : List (String × Value)}
    (h : DistinctKeysIn fields) (hmem : (k, v) ∈ fields) : v.DistinctKeys := by
  induction fields with
  | nil => exact absurd hmem not_mem_nil
  | cons f fields ih =>
    rcases mem_cons.1 hmem with rfl | hmem
    · exact h.1
    · exact ih h.2 hmem

theorem distinctKeys_of_getElem? {i : Nat} {v : Value} {items : List Value}
    (h : DistinctKeysInItems items) (hget : items[i]? = some v) : v.DistinctKeys := by
  induction items generalizing i with
  | nil => cases hget
  | cons w items ih =>
    cases i with
    | zero =>
      cases hget
      exact h.1
    | succ i => exact ih h.2 hget

theorem get_object_eq_some_iff {fields : List (String × Value)}
    (hkeys : (fields.map Prod.fst).Nodup) (k : String) (v : Value) :
    (Value.object fields).get k = some v ↔ (k, v) ∈ fields := by
  rw [Value.get]
  induction fields with
  | nil => simp
  | cons f fields ih =>
    obtain ⟨k', v'⟩ := f
    obtain ⟨hnew, hrest⟩ := nodup_cons.1 hkeys
    rw [find?_cons]
    by_cases hk : k' = k
    · subst hk
      have hnot : (k', v) ∉ fields := fun hmem => hnew (mem_map.2 ⟨_, hmem, rfl⟩)
      simp [hnot, eq_comm]
    · simp only [hk, decide_false]
      rw [ih hrest]
      simp [Ne.symm hk]

/-- Whether a location is telling, in a value that is `named` so or not. -/
def Telling (named : Bool) (path : List PathStep) (w : Value) : Prop :=
  holdsPii t w = true ∨ (path = [] ∧ named = true) ∨
    ∃ k, path.getLast? = some (.field k) ∧ isPiiFieldName t k = true

theorem telling_field (named : Bool) (k : String) (steps : List PathStep) (w : Value) :
    Telling t named (.field k :: steps) w ↔ Telling t (isPiiFieldName t k) steps w := by
  unfold Telling
  cases steps <;> simp

theorem telling_item (named : Bool) (i : Nat) (steps : List PathStep) (w : Value) :
    Telling t named (.item i :: steps) w ↔ Telling t false steps w := by
  unfold Telling
  cases steps <;> simp

theorem mem_flaggedIn {v : Value} (hv : v.DistinctKeys) (named : Bool) (path : List PathStep) :
    path ∈ flaggedIn t named v ↔ ∃ w, part path v = some w ∧ Telling t named path w := by
  -- by the first step of the path: only an object has fields, and only an array has items
  induction path generalizing v named with
  | nil =>
    have hroot : [] ∈ flaggedIn t named v ↔ named = true ∨ holdsPii t v = true := by
      rw [flaggedIn, mem_append, ← Bool.or_eq_true]
      split
      · next h => exact iff_of_true (.inl (.head _)) h
      · next h =>
        exact iff_of_false (not_or.2 ⟨not_mem_nil, nil_notMem_flaggedBelow t v⟩) h
    rw [hroot]
    simp [part, Telling, or_comm]
  | cons step steps ih =>
    have hbelow : step :: steps ∈ flaggedIn t named v ↔ step :: steps ∈ flaggedBelow t v := by
      rw [flaggedIn]
      split <;> simp
    rw [hbelow]
    cases step with
    | field k =>
      simp only [telling_field]
      cases v with
      | object fields =>
        simp only [flaggedBelow, mem_flaggedFields, part, cons.injEq,
          PathStep.field.injEq, Option.bind_eq_some_iff, get_object_eq_some_iff hv.1]
        constructor
        · rintro ⟨k', v, steps', hmem, ⟨rfl, rfl⟩, hsteps⟩
          obtain ⟨w, hw⟩ := (ih (distinctKeys_of_mem hv.2 hmem) _).1 hsteps
          exact ⟨w, ⟨v, hmem, hw.1⟩, hw.2⟩
        · rintro ⟨w, ⟨v, hmem, hpart⟩, htelling⟩
          exact ⟨k, v, steps, hmem, ⟨rfl, rfl⟩,
            (ih (distinctKeys_of_mem hv.2 hmem) _).2 ⟨w, hpart, htelling⟩⟩
      | array items => simp [flaggedBelow, mem_flaggedItems, part, Value.get]
      | _ => simp [flaggedBelow, part, Value.get]
    | item i =>
      simp only [telling_item]
      cases v with
      | array items =>
        simp only [flaggedBelow, mem_flaggedItems, part, cons.injEq, PathStep.item.injEq,
          zero_add, Value.asArray, Option.bind_some, Option.bind_eq_some_iff]
        constructor
        · rintro ⟨i', v, steps', hget, ⟨rfl, rfl⟩, hsteps⟩
          obtain ⟨w, hw⟩ := (ih (distinctKeys_of_getElem? hv hget) _).1 hsteps
          exact ⟨w, ⟨v, hget, hw.1⟩, hw.2⟩
        · rintro ⟨w, ⟨v, hget, hpart⟩, htelling⟩
          exact ⟨i, v, steps, hget, ⟨rfl, rfl⟩,
            (ih (distinctKeys_of_getElem? hv hget) _).2 ⟨w, hpart, htelling⟩⟩
      | object fields => simp [flaggedBelow, mem_flaggedFields, part, Value.asArray]
      | _ => simp [flaggedBelow, part, Value.asArray]

theorem nodup_flaggedIn {v : Value} (named : Bool) (h : (flaggedBelow t v).Nodup) :
    (flaggedIn t named v).Nodup := by
  rw [flaggedIn]
  split
  · exact nodup_cons.2 ⟨nil_notMem_flaggedBelow t v, h⟩
  · exact h

theorem nodup_map_cons {step : PathStep} {l : List (List PathStep)} (h : l.Nodup) :
    (l.map (step :: ·)).Nodup :=
  h.map fun _ _ heq => (cons.inj heq).2

mutual

theorem nodup_flaggedBelow {v : Value} (hv : v.DistinctKeys) : (flaggedBelow t v).Nodup := by
  cases v with
  | object fields =>
    rw [flaggedBelow]
    exact nodup_flaggedFields hv.1 hv.2
  | array items =>
    rw [flaggedBelow]
    exact nodup_flaggedItems 0 hv
  | _ =>
    simp only [flaggedBelow]
    exact nodup_nil

theorem nodup_flaggedFields {fields : List (String × Value)} (hkeys : (fields.map Prod.fst).Nodup)
    (h : DistinctKeysIn fields) : (flaggedFields t fields).Nodup := by
  cases fields with
  | nil => exact nodup_nil
  | cons f fields =>
    obtain ⟨k, v⟩ := f
    obtain ⟨hnew, hrest⟩ := nodup_cons.1 hkeys
    rw [flaggedFields_cons, nodup_append]
    refine ⟨nodup_map_cons (nodup_flaggedIn t _ (nodup_flaggedBelow h.1)),
      nodup_flaggedFields hrest h.2, ?_⟩
    -- the two paths begin with different keys
    intro path hpath path' hpath' heq
    obtain ⟨steps, -, rfl⟩ := mem_map.1 hpath
    obtain ⟨k', v', steps', hmem, rfl, -⟩ := (mem_flaggedFields t fields).1 hpath'
    obtain ⟨rfl, -⟩ : k = k' ∧ steps = steps' := by simpa using heq
    exact hnew (mem_map.2 ⟨_, hmem, rfl⟩)

theorem nodup_flaggedItems (i : Nat) {items : List Value} (h : DistinctKeysInItems items) :
    (flaggedItems t i items).Nodup := by
  cases items with
  | nil => exact nodup_nil
  | cons v items =>
    rw [flaggedItems_cons, nodup_append]
    refine ⟨nodup_map_cons (nodup_flaggedIn t _ (nodup_flaggedBelow h.1)),
      nodup_flaggedItems (i + 1) h.2, ?_⟩
    intro path hpath path' hpath' heq
    obtain ⟨steps, -, rfl⟩ := mem_map.1 hpath
    obtain ⟨j, v', steps', -, rfl, -⟩ := (mem_flaggedItems t (i + 1) items).1 hpath'
    obtain ⟨hi, -⟩ : i = i + 1 + j ∧ steps = steps' := by simpa using heq
    omega

end

/-! ## What is counted -/

theorem piiLocations_eq (doc : Document) :
    piiLocations t doc.value = {path | path ∈ flaggedIn t false doc.value} := by
  ext path
  rw [Set.mem_ofPred_eq, mem_flaggedIn t doc.distinctKeys]
  simp [piiLocations, Telling]

theorem ncard_piiLocations (doc : Document) :
    (piiLocations t doc.value).ncard = (flaggedIn t false doc.value).length := by
  classical
  have hnodup := nodup_flaggedIn t false (nodup_flaggedBelow t doc.distinctKeys)
  rw [piiLocations_eq, ← toFinset_card_of_nodup hnodup, ← Set.ncard_coe_finset]
  simp

/-- **When personal data is counted right.** Whether there is any is always told, and the number
exactly if no two locations flagged in a row have the same path. -/
theorem scanValue_counts_iff (doc : Document) :
    ((scanValue t doc.value).containsPii = true ↔ 0 < (piiLocations t doc.value).ncard) ∧
    ((scanValue t doc.value).fieldCount = (piiLocations t doc.value).ncard ↔
      ((flaggedIn t false doc.value).map (spell "")).IsChain (· ≠ ·)) := by
  rw [ncard_piiLocations, scanValue, dedup_scanRecursive, dedup]
  constructor
  · simp [length_pos_iff]
  · rw [← length_destutter_eq_iff, length_map]

end

/-- Nothing looks like personal data but the names of fields. -/
def namesOnly : TextPatterns :=
  ⟨fun _ => false, fun _ => false, fun _ => false, fun _ => false, id⟩

/-- A field of an object, and one whose name is written like its path. -/
def dottedName : Document where
  value := .object [("a", .object [("ssn", .null)]), ("a.ssn", .null)]
  distinctKeys := by simp [Value.DistinctKeys, DistinctKeysIn]

theorem dotted_name_counts_once :
    (scanValue namesOnly dottedName.value).fieldCount = 1 ∧
      (piiLocations namesOnly dottedName.value).ncard = 2 := by
  rw [ncard_piiLocations]
  decide +kernel

end Haltchain.Validator
