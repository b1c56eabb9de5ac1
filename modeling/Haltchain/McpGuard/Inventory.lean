import Haltchain.Api.Redaction
import Haltchain.Db.Decisions
import Haltchain.McpGuard.Wildcard

/-! # The tool inventory of the two guards

The full guard (`lib.rs`) and the lite one (`lite.rs`) of the mcp-guard crate load the same
inventory file and look for the patterns of a call in the same order, but each compares a name with
a pattern in its own way. -/

namespace Haltchain.McpGuard

open Lib List
open Api (toAsciiLowercase)
open Db (Uuid)
open Validator (Value trim)

/-- A call of a tool. -/
structure McpToolCall where
  agentId : Uuid
  orgId : Uuid
  toolName : String
  toolArgs : Value
  contextHash : String
  timestamp : Int

/-- The parsed file, the scopes in the order of the loop, which is random. -/
structure BaselineInventoryFile where
  approvedTools : List String
  orgs : AList fun _ : String => List String
  agents : AList fun _ : String => List String

structure BaselineInventory where
  globalPatterns : List String
  orgPatterns : AList fun _ : Uuid => List String
  agentPatterns : AList fun _ : Uuid => List String

/-! ## Loading the file -/

section

variable (parseStr : String → Option Uuid)

/-- The loops of `from_env`: a scope whose name is not a UUID is skipped. -/
def insertScopes (scopes : List (Sigma fun _ : String => List String)) :
    AList fun _ : Uuid => List String :=
  scopes.foldl (fun m e =>
    match parseStr e.1 with
    | some id => m.insert id e.2
    | none => m) ∅

/-- The scopes of the file. -/
def BaselineInventory.ofFile (parsed : BaselineInventoryFile) : BaselineInventory where
  globalPatterns := parsed.approvedTools
  orgPatterns := insertScopes parseStr parsed.orgs.entries
  agentPatterns := insertScopes parseStr parsed.agents.entries

end

/-! ## Comparing names with patterns -/

/-- `wildcard_match` of the lite guard. -/
def Lite.wildcardMatch (value pattern : List Char) : Bool :=
  if pattern = ['*'] then true
  else if pattern.getLast? = some '*' then pattern.dropLast <+: value
  else if pattern.head? = some '*' then pattern.tail <:+ value
  else value = pattern

/-- `pattern_matches` of the lite guard. -/
def Lite.patternMatches (patterns : List String) (toolName : String) : Bool :=
  let name := (toAsciiLowercase toolName).toList
  patterns.any fun p =>
    let pat := (toAsciiLowercase p).toList
    if '*' ∈ pat then Lite.wildcardMatch name pat else name = pat

/-- `pattern_set_matches` of the full guard. -/
def patternSetMatches (patterns : List String) (toolName : String) : Bool :=
  if patterns.isEmpty then false
  else
    let tool := (toAsciiLowercase toolName).toList
    ((patterns.map fun p => (toAsciiLowercase (trim p)).toList).filter (!·.isEmpty)).any fun p =>
      wildcardMatches tool p

/-- `is_approved`, the same in both guards but for the comparison. -/
def BaselineInventory.isApprovedBy (patternsMatch : List String → String → Bool)
    (b : BaselineInventory) (call : McpToolCall) : Bool :=
  match b.agentPatterns.lookup call.agentId with
  | some patterns => patternsMatch patterns call.toolName
  | none =>
    match b.orgPatterns.lookup call.orgId with
    | some patterns => patternsMatch patterns call.toolName
    | none =>
      if b.globalPatterns ≠ [] then patternsMatch b.globalPatterns call.toolName else true

def BaselineInventory.isApproved : BaselineInventory → McpToolCall → Bool :=
  BaselineInventory.isApprovedBy patternSetMatches

def Lite.isApproved : BaselineInventory → McpToolCall → Bool :=
  BaselineInventory.isApprovedBy Lite.patternMatches

/-! ## How each guard reads a pattern -/

/-- The lite guard: a star at the end, or else at the beginning, is a wildcard. -/
def Lite.names (pattern : String) : Language Char :=
  edgeLanguage '*' (toAsciiLowercase pattern).toList

/-- The full guard: every star is a wildcard, the pattern is trimmed, and an empty one names no
tool. -/
def names (pattern : String) : Language Char :=
  if trim pattern = "" then 0 else globLanguage '*' (toAsciiLowercase (trim pattern)).toList

theorem Lite.wildcardMatch_iff (value pattern : List Char) :
    Lite.wildcardMatch value pattern = true ↔ value ∈ edgeLanguage '*' pattern := by
  unfold Lite.wildcardMatch edgeLanguage
  split
  · next h =>
    subst h
    simp [Language.mem_mul]
  split
  · rw [decide_eq_true_iff]
    constructor
    · rintro ⟨w, rfl⟩
      exact ⟨_, rfl, w, trivial, rfl⟩
    · rintro ⟨_, rfl, w, -, rfl⟩
      exact ⟨w, rfl⟩
  split
  · rw [decide_eq_true_iff]
    constructor
    · rintro ⟨u, rfl⟩
      exact ⟨u, trivial, _, rfl, rfl⟩
    · rintro ⟨u, -, _, rfl, rfl⟩
      exact ⟨u, rfl⟩
  · exact decide_eq_true_iff

theorem Lite.patternMatches_iff (patterns : List String) (toolName : String) :
    Lite.patternMatches patterns toolName = true ↔
      ∃ p ∈ patterns, (toAsciiLowercase toolName).toList ∈ Lite.names p := by
  unfold Lite.patternMatches Lite.names
  rw [any_eq_true]
  refine exists_congr fun p => and_congr_right fun _ => ?_
  dsimp only
  split
  · exact Lite.wildcardMatch_iff _ _
  · next hfree =>
    have hcount := count_eq_zero.2 hfree
    rw [edgeLanguage_eq_globLanguage (by rw [hcount]; exact Nat.zero_le _),
      globLanguage_of_not_mem hfree]
    exact decide_eq_true_iff

theorem toList_toAsciiLowercase (s : String) :
    (toAsciiLowercase s).toList = s.toList.map Char.toLower := String.toList_ofList

theorem patternSetMatches_iff (patterns : List String) (toolName : String) :
    patternSetMatches patterns toolName = true ↔
      ∃ p ∈ patterns, (toAsciiLowercase toolName).toList ∈ names p := by
  have hany : patternSetMatches patterns toolName = true ↔ ∃ p ∈ patterns,
      (toAsciiLowercase (trim p)).toList ≠ [] ∧
        wildcardMatches (toAsciiLowercase toolName).toList (toAsciiLowercase (trim p)).toList := by
    unfold patternSetMatches
    cases patterns with
    | nil => simp
    | cons p patterns => simp [or_and_right, exists_or]
  rw [hany]
  refine exists_congr fun p => and_congr_right fun _ => ?_
  have hnil : (toAsciiLowercase (trim p)).toList = [] ↔ trim p = "" := by
    rw [toList_toAsciiLowercase, map_eq_nil_iff, String.toList_eq_nil_iff]
  rw [names, ne_eq, hnil]
  by_cases hempty : trim p = ""
  · rw [if_pos hempty]
    exact iff_of_false (fun h => h.1 hempty) (Language.notMem_zero _)
  rw [if_neg hempty]
  by_cases hstar : '*' ∈ (toAsciiLowercase (trim p)).toList
  · rw [wildcardMatches_of_mem hstar]
    exact and_iff_right hempty
  · rw [wildcardMatches_of_not_mem hstar, globLanguage_of_not_mem hstar]
    exact and_iff_right hempty

/-! ## Where the two readings agree -/

/-- No space around the pattern, and no star in it but one at an end. -/
def Plain (pattern : String) : Prop :=
  trim pattern = pattern ∧ pattern ≠ "" ∧
    pattern.toList.count '*' ≤ if AtEdge '*' pattern.toList then 1 else 0
deriving Decidable

theorem toLower_eq_star_iff (c : Char) : c.toLower = '*' ↔ c = '*' := by
  unfold Char.toLower
  split
  · next h =>
    -- the upper case letters are mapped to the lower case ones
    have hlow : 65 ≤ c.toNat := UInt32.le_iff_toNat_le.1 h.1
    have hhigh : c.toNat ≤ 90 := UInt32.le_iff_toNat_le.1 h.2
    constructor
    · intro heq
      have hnat := congrArg Char.toNat heq
      simp at hnat
      omega
    · rintro rfl
      simp at hlow
  · exact .rfl

theorem count_toAsciiLowercase (s : String) :
    (toAsciiLowercase s).toList.count '*' = s.toList.count '*' := by
  rw [toList_toAsciiLowercase, count_eq_countP, countP_map]
  refine countP_congr fun c _ => ?_
  simp [toLower_eq_star_iff]

theorem atEdge_toAsciiLowercase (s : String) :
    AtEdge '*' (toAsciiLowercase s).toList ↔ AtEdge '*' s.toList := by
  simp [AtEdge, toList_toAsciiLowercase, toLower_eq_star_iff]

theorem trim_sublist (s : String) : (trim s).toList.Sublist s.toList := by
  rw [trim, String.toList_ofList]
  refine List.Sublist.trans ?_ (dropWhile_sublist Validator.isWhitespace)
  rw [← reverse_sublist, reverse_reverse]
  exact dropWhile_sublist _

theorem mem_dropWhile {c : Char} {l : List Char} (hc : Validator.isWhitespace c = false)
    (h : c ∈ l) : c ∈ l.dropWhile Validator.isWhitespace := by
  have hsplit : l.takeWhile Validator.isWhitespace ++ l.dropWhile Validator.isWhitespace = l :=
    takeWhile_append_dropWhile
  rw [← hsplit] at h
  rcases mem_append.1 h with h | h
  · have hspace := all_eq_true.1 all_takeWhile c h
    rw [hc] at hspace
    cases hspace
  · exact h

theorem mem_trim {c : Char} {s : String} (hc : Validator.isWhitespace c = false)
    (h : c ∈ s.toList) : c ∈ (trim s).toList := by
  rw [trim, String.toList_ofList, mem_reverse]
  exact mem_dropWhile hc (mem_reverse.2 (mem_dropWhile hc h))

/-- The name in which every star of the pattern stands for nothing. -/
def starless (pattern : String) : String := .ofList ((trim pattern).toList.filter (· ≠ '*'))

theorem toList_starless (p : String) : (toAsciiLowercase (starless p)).toList =
      (toAsciiLowercase (trim p)).toList.filter (· ≠ '*') := by
  rw [toList_toAsciiLowercase, toList_toAsciiLowercase, starless, String.toList_ofList, filter_map]
  refine congrArg (map Char.toLower) (filter_congr fun c _ => ?_)
  simp [toLower_eq_star_iff]

theorem length_starless (p : String) :
    (trim p).toList.length = (starless p).toList.length + (trim p).toList.count '*' := by
  rw [starless, String.toList_ofList]
  generalize (trim p).toList = text
  rw [length_eq_length_filter_add (· ≠ '*'), count_eq_length_filter]
  have hstars : (text.filter fun c => !decide (c ≠ '*')) = text.filter (· == '*') :=
    filter_congr fun c _ => by rw [Bool.eq_iff_iff]; simp
  rw [hstars]

/-- The lite guard reads this name only from a plain pattern. -/
theorem plain_of_starless_mem {p : String} (hne : trim p ≠ "")
    (h : (toAsciiLowercase (starless p)).toList ∈ Lite.names p) : Plain p := by
  have hlen := length_le_of_mem_edgeLanguage h
  simp only [atEdge_toAsciiLowercase] at hlen
  rw [toList_toAsciiLowercase, toList_toAsciiLowercase, length_map, length_map] at hlen
  have hparts := length_starless p
  have hsub := (trim_sublist p).length_le
  have hstar : AtEdge '*' p.toList → 0 < (trim p).toList.count '*' := by
    intro hedge
    refine count_pos_iff.2 (mem_trim (by decide) ?_)
    rcases hedge with hhead | hlast
    · exact mem_of_mem_head? hhead
    · exact mem_of_mem_getLast? hlast
  have htrim : trim p = p := by
    refine String.toList_inj.1 ((trim_sublist p).eq_of_length ?_)
    split at hlen
    · next hedge =>
      have := hstar hedge
      omega
    · omega
  refine ⟨htrim, htrim ▸ hne, ?_⟩
  rw [htrim] at hparts
  omega

/-- **The readings of one pattern.** The guards agree on all names for plain patterns, and no
others. -/
theorem names_agree_iff (p : String) :
    (∀ toolName : String, (toAsciiLowercase toolName).toList ∈ Lite.names p ↔
        (toAsciiLowercase toolName).toList ∈ names p) ↔ Plain p := by
  constructor
  · intro h
    have hne : trim p ≠ "" := by
      intro hempty
      have hself : (toAsciiLowercase p).toList ∈ Lite.names p := mem_edgeLanguage_self _
      rw [h p, names, if_pos hempty] at hself
      exact Language.notMem_zero _ hself
    have hmem : (toAsciiLowercase (starless p)).toList ∈ names p := by
      rw [names, if_neg hne, toList_starless]
      generalize (toAsciiLowercase (trim p)).toList = pattern
      exact filter_mem_globLanguage pattern
    exact plain_of_starless_mem hne ((h (starless p)).2 hmem)
  · rintro ⟨htrim, hne, hcount⟩ toolName
    have hcount' : (toAsciiLowercase p).toList.count '*' ≤
        if AtEdge '*' (toAsciiLowercase p).toList then 1 else 0 := by
      rw [count_toAsciiLowercase]
      simpa only [atEdge_toAsciiLowercase] using hcount
    rw [Lite.names, names, htrim, if_neg hne, edgeLanguage_eq_globLanguage hcount']

/-! ## The patterns that apply to a call -/

section

variable (parseStr : String → Option Uuid)

/-- The pattern lists under a name of this id, of which there may be several. -/
def scopesOf (id : Uuid) (scopes : List (Sigma fun _ : String => List String)) :
    List (List String) :=
  (scopes.filter fun e => parseStr e.1 = some id).map (·.2)

/-- The lists of which one decides, depending on the order of the maps. -/
def BaselineInventoryFile.applicable (file : BaselineInventoryFile) (call : McpToolCall) :
    List (List String) :=
  if scopesOf parseStr call.agentId file.agents.entries ≠ [] then
    scopesOf parseStr call.agentId file.agents.entries
  else if scopesOf parseStr call.orgId file.orgs.entries ≠ [] then
    scopesOf parseStr call.orgId file.orgs.entries
  else if file.approvedTools ≠ [] then [file.approvedTools]
  else []

/-- The same content, with the maps in another order. -/
structure SameContent (file file' : BaselineInventoryFile) : Prop where
  approvedTools : file'.approvedTools = file.approvedTools
  orgs : file'.orgs.entries.Perm file.orgs.entries
  agents : file'.agents.entries.Perm file.agents.entries

variable {parseStr}

/-- The last of the scopes of an id is the one that is kept. -/
theorem lookup_insertScopes (id : Uuid) (scopes : List (Sigma fun _ : String => List String)) :
    (insertScopes parseStr scopes).lookup id = (scopesOf parseStr id scopes).getLast? := by
  unfold insertScopes scopesOf
  induction scopes using reverseRecOn with
  | nil => rfl
  | append_singleton scopes e ih =>
    rw [foldl_concat]
    cases hparse : parseStr e.1 with
    | none => simp [hparse, ih]
    | some id' =>
      simp only [lookup_insert_eq]
      by_cases hid : id = id'
      · subst hid
        simp [hparse]
      · rw [if_neg hid, ih]
        simp [hparse, Ne.symm hid]

section

variable {id : Uuid} {scopes scopes' : List (Sigma fun _ : String => List String)}
  (h : scopes'.Perm scopes)

include h

theorem scopesOf_perm : (scopesOf parseStr id scopes').Perm (scopesOf parseStr id scopes) :=
  (h.filter _).map _

theorem scopesOf_eq_nil_iff :
    scopesOf parseStr id scopes' = [] ↔ scopesOf parseStr id scopes = [] := by
  rw [← length_eq_zero_iff, (scopesOf_perm h).length_eq, length_eq_zero_iff]

end

/-- Any of the scopes of an id is the last one in some order. -/
theorem exists_perm_last {id : Uuid} {m : AList fun _ : String => List String}
    {patterns : List String} (h : patterns ∈ scopesOf parseStr id m.entries) :
    ∃ m' : AList fun _ : String => List String, m'.entries.Perm m.entries ∧
      (insertScopes parseStr m'.entries).lookup id = some patterns := by
  obtain ⟨e, hmem, rfl⟩ := mem_map.1 h
  obtain ⟨hmem, hid⟩ := mem_filter.1 hmem
  obtain ⟨front, back, heq⟩ := append_of_mem hmem
  have hperm : (front ++ back ++ [e]).Perm m.entries := by
    rw [heq, append_assoc]
    exact (perm_append_singleton e back).append_left front
  refine ⟨⟨front ++ back ++ [e], (perm_nodupKeys hperm).2 m.nodupKeys⟩, hperm, ?_⟩
  rw [lookup_insertScopes, scopesOf]
  simp [of_decide_eq_true hid]

/-- One of the applicable lists decides; without any, the call is approved. -/
theorem isApprovedBy_cases {file file' : BaselineInventoryFile} (hsame : SameContent file file')
    (patternsMatch : List String → String → Bool) (call : McpToolCall) :
    (∃ patterns ∈ file.applicable parseStr call,
      (BaselineInventory.ofFile parseStr file').isApprovedBy patternsMatch call =
        patternsMatch patterns call.toolName) ∨
    (file.applicable parseStr call = [] ∧
      (BaselineInventory.ofFile parseStr file').isApprovedBy patternsMatch call = true) := by
  unfold BaselineInventoryFile.applicable BaselineInventory.isApprovedBy BaselineInventory.ofFile
  rw [lookup_insertScopes, lookup_insertScopes, hsame.approvedTools]
  by_cases hagents : scopesOf parseStr call.agentId file.agents.entries = []
  · have hagents' := (scopesOf_eq_nil_iff hsame.agents).2 hagents
    rw [if_neg (not_not.2 hagents), hagents']
    by_cases horgs : scopesOf parseStr call.orgId file.orgs.entries = []
    · have horgs' := (scopesOf_eq_nil_iff hsame.orgs).2 horgs
      rw [if_neg (not_not.2 horgs), horgs']
      by_cases hglobal : file.approvedTools = []
      · exact .inr ⟨if_neg (not_not.2 hglobal), if_neg (not_not.2 hglobal)⟩
      · refine .inl ⟨file.approvedTools, ?_, if_pos hglobal⟩
        rw [if_pos hglobal]
        exact mem_singleton_self _
    · have horgs' := mt (scopesOf_eq_nil_iff hsame.orgs).1 horgs
      rw [if_pos horgs, getLast?_eq_some_getLast horgs']
      exact .inl ⟨_, (scopesOf_perm hsame.orgs).mem_iff.1 (getLast_mem horgs'), rfl⟩
  · have hagents' := mt (scopesOf_eq_nil_iff hsame.agents).1 hagents
    rw [if_pos hagents, getLast?_eq_some_getLast hagents']
    exact .inl ⟨_, (scopesOf_perm hsame.agents).mem_iff.1 (getLast_mem hagents'), rfl⟩

/-- Any of the applicable lists decides for some order of the maps. -/
theorem exists_isApprovedBy {file : BaselineInventoryFile} {call : McpToolCall}
    {patterns : List String} (h : patterns ∈ file.applicable parseStr call) :
    ∃ file', SameContent file file' ∧ ∀ patternsMatch : List String → String → Bool,
      (BaselineInventory.ofFile parseStr file').isApprovedBy patternsMatch call =
        patternsMatch patterns call.toolName := by
  unfold BaselineInventoryFile.applicable at h
  split at h
  · obtain ⟨m, hperm, hlookup⟩ := exists_perm_last h
    refine ⟨{ file with agents := m }, ⟨rfl, .refl _, hperm⟩, fun patternsMatch => ?_⟩
    simp only [BaselineInventory.isApprovedBy, BaselineInventory.ofFile, hlookup]
  next hagents =>
  have hagents := not_not.1 hagents
  split at h
  · obtain ⟨m, hperm, hlookup⟩ := exists_perm_last h
    refine ⟨{ file with orgs := m }, ⟨rfl, hperm, .refl _⟩, fun patternsMatch => ?_⟩
    simp only [BaselineInventory.isApprovedBy, BaselineInventory.ofFile, hlookup,
      lookup_insertScopes call.agentId, hagents, getLast?_nil]
  next horgs =>
  have horgs := not_not.1 horgs
  split at h
  · next hglobal =>
    obtain rfl := mem_singleton.1 h
    refine ⟨file, ⟨rfl, .refl _, .refl _⟩, fun patternsMatch => ?_⟩
    simp only [BaselineInventory.isApprovedBy, BaselineInventory.ofFile, lookup_insertScopes,
      hagents, horgs]
    exact if_pos hglobal
  · cases h

end

/-- **Two guards, one inventory.** They agree on a call when the patterns that apply name the tool
in both readings or in neither. On a pattern that is not plain they differ for some name. -/
theorem guards_agree_iff (parseStr : String → Option Uuid) :
    (∀ (file : BaselineInventoryFile) (call : McpToolCall),
      (∀ file' file'', SameContent file file' → SameContent file file'' →
        Lite.isApproved (.ofFile parseStr file') call =
          (BaselineInventory.ofFile parseStr file'').isApproved call) ↔
      ∀ patterns ∈ file.applicable parseStr call, ∀ patterns' ∈ file.applicable parseStr call,
        ((∃ p ∈ patterns, (toAsciiLowercase call.toolName).toList ∈ Lite.names p) ↔
          ∃ p ∈ patterns', (toAsciiLowercase call.toolName).toList ∈ names p)) ∧
    ∀ p : String,
      (∀ toolName : String, (toAsciiLowercase toolName).toList ∈ Lite.names p ↔
        (toAsciiLowercase toolName).toList ∈ names p) ↔ Plain p := by
  refine ⟨fun file call => ⟨fun h patterns hmem patterns' hmem' => ?_, fun h => ?_⟩,
    names_agree_iff⟩
  · obtain ⟨file', hsame, hlite⟩ := exists_isApprovedBy hmem
    obtain ⟨file'', hsame', hfull⟩ := exists_isApprovedBy hmem'
    have heq := h file' file'' hsame hsame'
    rw [Lite.isApproved, BaselineInventory.isApproved, hlite, hfull] at heq
    rw [← Lite.patternMatches_iff, ← patternSetMatches_iff, heq]
  · intro file' file'' hsame hsame'
    rw [Lite.isApproved, BaselineInventory.isApproved]
    rcases isApprovedBy_cases hsame Lite.patternMatches call with ⟨p, hp, hlite⟩ | ⟨hnil, hlite⟩ <;>
      rcases isApprovedBy_cases hsame' patternSetMatches call with ⟨q, hq, hfull⟩ | ⟨hnil', hfull⟩
    · rw [hlite, hfull, Bool.eq_iff_iff, Lite.patternMatches_iff, patternSetMatches_iff]
      exact h p hp q hq
    · rw [hnil'] at hp
      cases hp
    · rw [hnil] at hq
      cases hq
    · rw [hlite, hfull]

/-- A star in the middle: only the full guard approves `db.users.read` for `db.*.read`. -/
theorem inner_star_divides :
    let file : BaselineInventoryFile := ⟨["db.*.read"], ∅, ∅⟩
    let call : McpToolCall := ⟨.fromU128 1, .fromU128 2, "db.users.read", .null, "", 0⟩
    (BaselineInventory.ofFile (fun _ => none) file).isApproved call = true ∧
      Lite.isApproved (.ofFile (fun _ => none) file) call = false := by
  decide

end Haltchain.McpGuard
