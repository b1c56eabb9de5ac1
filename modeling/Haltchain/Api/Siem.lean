import Haltchain.Lib.Escaped
import Haltchain.Validator.Mediation

/-! # Lines for the SIEM

`format_cef_line` of `crates/api/src/siem.rs`: a decision as one line of the Common Event Format,
with seven header fields and an extension of escaped keys and values. -/

namespace Haltchain.Api

open Lib List
open Validator (trim)

/-- `str::to_ascii_uppercase`. -/
def toAsciiUppercase (s : String) : String := .ofList (s.toList.map Char.toUpper)

def cefSeverity (decision : String) : Nat :=
  match toAsciiUppercase decision with
  | "DENY" => 8
  | "CIRCUIT_BREAK" => 9
  | "GOAL_CLARIFICATION_REQUIRED" => 5
  | _ => 2

/-- `str::replace` of one character. -/
def replaceChar (s : String) (c : Char) (new : String) : String :=
  .ofList (s.toList.flatMap fun d => if d = c then new.toList else [d])

def cefEscape (s : String) : String :=
  let s := replaceChar s '\\' "\\\\"
  let s := replaceChar s '=' "\\="
  let s := replaceChar s '\n' "\\n"
  replaceChar s '\r' "\\r"

def cefSigId (decision : String) : String :=
  match toAsciiUppercase decision with
  | "DENY" => "HC002"
  | "CIRCUIT_BREAK" => "HC003"
  | "GOAL_CLARIFICATION_REQUIRED" => "HC004"
  | _ => "HC001"

/-- The name of a decision. -/
def cefName (decision : String) : String :=
  match toAsciiUppercase decision with
  | "DENY" => "Agent Action Denied"
  | "CIRCUIT_BREAK" => "Agent Circuit Breaker Tripped"
  | "GOAL_CLARIFICATION_REQUIRED" => "Goal Clarification Required"
  | _ => "Agent Action Allowed"

/-- The version in each line. -/
def cargoPkgVersion : String := "0.1.0"

/-- The part before the extension. -/
def cefHeader (decision : String) : String :=
  "CEF:0|HaltChain|Validator|" ++ cargoPkgVersion ++ "|" ++ cefSigId decision ++ "|" ++
    cefName decision ++ "|" ++ toString (cefSeverity decision) ++ "|"

/-- An intent label of nothing but white space is left out. -/
def cefExtension (transactionId agentId decision : String) (policyCode : Option String)
    (timestamp : String) (merkleRoot intentLabel : Option String) : String :=
  let ext := "rt=" ++ cefEscape timestamp ++ " src=" ++ cefEscape agentId ++ " act=" ++
    cefEscape decision ++ " externalId=" ++ cefEscape transactionId
  let ext :=
    match policyCode with
    | some pc => ext ++ " reason=" ++ cefEscape pc
    | none => ext
  let ext :=
    match merkleRoot with
    | some root => ext ++ " cs1=" ++ cefEscape root ++ " cs1Label=merkleRoot"
    | none => ext
  match intentLabel.filter fun s => trim s ≠ "" with
  | some intent => ext ++ " cs2=" ++ cefEscape intent ++ " cs2Label=intentLabel"
  | none => ext

/-- The line of a decision. -/
def formatCefLine (transactionId agentId decision : String) (policyCode : Option String)
    (timestamp : String) (merkleRoot intentLabel : Option String) : String :=
  cefHeader decision ++
    cefExtension transactionId agentId decision policyCode timestamp merkleRoot intentLabel

/-! ## How a line is read -/

/-- What comes after so many pipes. -/
def afterPipes : Nat → List Char → Option (List Char)
  | 0, l => some l
  | _ + 1, [] => none
  | n + 1, c :: l => if c = '|' then afterPipes n l else afterPipes (n + 1) l

/-- The escapes of an extension. -/
def cefEscaping : Escaping Char where
  esc := '\\'
  code c :=
    if c = '\\' then some '\\' else if c = '=' then some '='
    else if c = '\n' then some 'n' else if c = '\r' then some 'r' else none
  char d := if d = 'n' then '\n' else if d = 'r' then '\r' else d
  esc_coded := rfl
  char_code c d h := by
    split at h
    · next hc => cases h; exact hc.symm
    split at h
    · next hc => cases h; exact hc.symm
    split at h
    · next hc => cases h; exact hc.symm
    split at h
    · next hc => cases h; exact hc.symm
    · cases h

/-- Split at the unescaped equals signs; the key is what follows the last space. -/
def parseExtension (extension : List Char) : List (String × String) :=
  (cefEscaping.parseFields '=' ' ' extension).map fun f => (.ofList f.1, .ofList f.2)

/-- The four replacements do not get in each other's way. -/
theorem toList_cefEscape (s : String) : (cefEscape s).toList = cefEscaping.escape s.toList := by
  simp only [cefEscape, replaceChar, String.toList_ofList, flatMap_assoc]
  congr 1
  funext c
  by_cases hbackslash : c = '\\'
  · subst hbackslash
    rfl
  by_cases hequals : c = '='
  · subst hequals
    rfl
  by_cases hnewline : c = '\n'
  · subst hnewline
    rfl
  by_cases hreturn : c = '\r'
  · subst hreturn
    rfl
  simp [cefEscaping, hbackslash, hequals, hnewline, hreturn]

theorem notMem_cefEscape (s : String) :
    '\r' ∉ (cefEscape s).toList ∧ '\n' ∉ (cefEscape s).toList := by
  have hcode : ∀ a c, cefEscaping.code a = some c → c ≠ '\r' ∧ c ≠ '\n' := by
    intro a c h
    have hchar := cefEscaping.char_code a c h
    constructor
    · rintro rfl
      subst hchar
      exact absurd h (by decide)
    · rintro rfl
      subst hchar
      exact absurd h (by decide)
  rw [toList_cefEscape]
  constructor
  · intro h
    rcases Escaping.of_mem_escape h with h | ⟨a, ha⟩ | h
    · exact absurd h (by decide)
    · exact (hcode a _ ha).1 rfl
    · exact absurd h (by decide)
  · intro h
    rcases Escaping.of_mem_escape h with h | ⟨a, ha⟩ | h
    · exact absurd h (by decide)
    · exact (hcode a _ ha).2 rfl
    · exact absurd h (by decide)

/-- The headers. -/
def cefHeaders : List String := [
  "CEF:0|HaltChain|Validator|0.1.0|HC002|Agent Action Denied|8|",
  "CEF:0|HaltChain|Validator|0.1.0|HC003|Agent Circuit Breaker Tripped|9|",
  "CEF:0|HaltChain|Validator|0.1.0|HC004|Goal Clarification Required|5|",
  "CEF:0|HaltChain|Validator|0.1.0|HC001|Agent Action Allowed|2|"]

theorem cefHeader_mem (decision : String) : cefHeader decision ∈ cefHeaders := by
  unfold cefHeader cefSigId cefName cefSeverity
  split
  all_goals decide

theorem afterPipes_append {n : Nat} {front : List Char} (h : afterPipes n front = some [])
    (l : List Char) : afterPipes n (front ++ l) = some l := by
  induction front generalizing n with
  | nil =>
    cases n with
    | zero => rw [nil_append, afterPipes]
    | succ n => cases h
  | cons c front ih =>
    cases n with
    | zero => cases h
    | succ n =>
      rw [afterPipes] at h
      rw [cons_append, afterPipes]
      split at h
      · next hpipe => rw [if_pos hpipe, ih h]
      · next hpipe => rw [if_neg hpipe, ih h]

/-- A header has seven pipes, the last at its end, and no line breaks. -/
theorem of_mem_cefHeaders :
    ∀ h ∈ cefHeaders, afterPipes 7 h.toList = some [] ∧ '\r' ∉ h.toList ∧ '\n' ∉ h.toList := by
  decide +kernel

theorem afterPipes_cefHeader (decision : String) (l : List Char) :
    afterPipes 7 ((cefHeader decision).toList ++ l) = some l :=
  afterPipes_append (of_mem_cefHeaders _ (cefHeader_mem decision)).1 l

/-! ## The fields of a line -/

/-- A custom string and its label. -/
def labelled (key label : String) : Option String → List (String × String)
  | some value => [(key, value), (key ++ "Label", label)]
  | none => []

/-- The fields for some arguments. -/
def cefFields (transactionId agentId decision : String) (policyCode : Option String)
    (timestamp : String) (merkleRoot intentLabel : Option String) : List (String × String) :=
  [("rt", timestamp), ("src", agentId), ("act", decision), ("externalId", transactionId)] ++
    (policyCode.map fun pc => ("reason", pc)).toList ++ labelled "cs1" "merkleRoot" merkleRoot ++
    labelled "cs2" "intentLabel" intentLabel

def characters (f : String × String) : List Char × List Char := (f.1.toList, f.2.toList)

section

variable (transactionId agentId decision : String) (policyCode : Option String)
  (timestamp : String) (merkleRoot intentLabel : Option String)

theorem toList_cefExtension :
    (cefExtension transactionId agentId decision policyCode timestamp merkleRoot
        intentLabel).toList =
      cefEscaping.renderFields '=' ' ' ((cefFields transactionId agentId decision policyCode
        timestamp merkleRoot (intentLabel.filter fun s => trim s ≠ "")).map characters) := by
  -- which of the optional parts are there decides on the shape of both sides
  unfold cefExtension
  cases policyCode <;> cases merkleRoot <;> cases intentLabel.filter fun s => trim s ≠ "" <;>
    simp [cefFields, labelled, characters, Escaping.renderFields, sepJoin, toList_cefEscape,
      Escaping.escape, cefEscaping]

theorem cefFields_keys :
    ∀ f ∈ (cefFields transactionId agentId decision policyCode timestamp merkleRoot
        intentLabel).map characters,
      cefEscaping.esc ∉ f.1 ∧ '=' ∉ f.1 ∧ ' ' ∉ f.1 := by
  cases policyCode <;> cases merkleRoot <;> cases intentLabel <;>
    simp [cefFields, labelled, characters, cefEscaping]

theorem parseExtension_cefExtension :
    parseExtension (cefExtension transactionId agentId decision policyCode timestamp merkleRoot
        intentLabel).toList =
      cefFields transactionId agentId decision policyCode timestamp merkleRoot
        (intentLabel.filter fun s => trim s ≠ "") := by
  have hkeys := cefFields_keys transactionId agentId decision policyCode timestamp merkleRoot
    (intentLabel.filter fun s => trim s ≠ "")
  rw [parseExtension, toList_cefExtension,
    Escaping.parseFields_renderFields (by decide) (by decide) (by decide) hkeys
      (by simp [cefFields])]
  simp [Function.comp_def, characters]

theorem notMem_cefExtension :
    '\r' ∉ (cefExtension transactionId agentId decision policyCode timestamp merkleRoot
        intentLabel).toList ∧
      '\n' ∉ (cefExtension transactionId agentId decision policyCode timestamp merkleRoot
        intentLabel).toList := by
  unfold cefExtension
  cases policyCode <;> cases merkleRoot <;> cases intentLabel.filter fun s => trim s ≠ "" <;>
    simp [notMem_cefEscape]

/-- **No argument can add to a line.** A line has no line breaks, and its extension reads back as
the fields for the arguments, where a blank intent label counts as none. -/
theorem cef_line_reads_back :
    let line := (formatCefLine transactionId agentId decision policyCode timestamp merkleRoot
      intentLabel).toList
    ('\r' ∉ line ∧ '\n' ∉ line) ∧
      (afterPipes 7 line).map parseExtension = some (cefFields transactionId agentId decision
        policyCode timestamp merkleRoot (intentLabel.filter fun s => trim s ≠ "")) := by
  intro line
  have hline : line = (cefHeader decision).toList ++ _ := String.toList_append
  have hheader := (of_mem_cefHeaders _ (cefHeader_mem decision)).2
  have hext := notMem_cefExtension transactionId agentId decision policyCode timestamp merkleRoot
    intentLabel
  rw [hline]
  refine ⟨⟨?_, ?_⟩, ?_⟩
  · exact not_mem_append hheader.1 hext.1
  · exact not_mem_append hheader.2 hext.2
  · rw [afterPipes_cefHeader, Option.map_some, parseExtension_cefExtension]

end

/-- A label is given, but there is no field for it. -/
theorem blank_label_left_out :
    (afterPipes 7 (formatCefLine "t" "a" "ALLOW" none "now" none (some " ")).toList).map
        parseExtension =
      some [("rt", "now"), ("src", "a"), ("act", "ALLOW"), ("externalId", "t")] := by
  decide +kernel

/-- An agent that would write a field of its own. -/
example :
    (afterPipes 7 (formatCefLine "t" "a| act=ALLOW\n\\ " "DENY" none "now" none none).toList).map
        parseExtension =
      some [("rt", "now"), ("src", "a| act=ALLOW\n\\ "), ("act", "DENY"), ("externalId", "t")] := by
  decide +kernel

end Haltchain.Api
