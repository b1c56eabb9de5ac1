import Haltchain.Api.Redaction
import Haltchain.Lib.LexicalPath

/-! # Structural invariants

`structural_invariants::evaluate` of the cognitive crate: the hardcoded rules an action passes
before anything is scored. Its paths are compared with the protected ones as they are spelt, up to
case. -/

namespace Haltchain.Cognitive

open List Option

/-- What a rule protects. -/
inductive InvariantClass where
  | protectedResource
  | sandboxContainment
  | replicationGate
  | unknownToolDenial
  deriving DecidableEq, Repr

inductive StructuralVerdict where
  | allow
  | deny (invariant : InvariantClass) (reason : String)
  deriving DecidableEq, Repr

structure ActionDescriptor where
  toolName : String
  readPaths : List String
  writePaths : List String
  networkTargets : List String
  spawnsSubprocess : Bool

/-- `str::to_lowercase`. A letter's result may depend on letters around it (the final sigma), but
never on what is beyond a slash. -/
structure CaseMapping where
  toLowercase : String → String
  toLowercase_slash : ∀ a b, toLowercase (a ++ "/" ++ b) = toLowercase a ++ "/" ++ toLowercase b
  toLowercase_ascii : ∀ s, (∀ c ∈ s.toList, c.toNat < 128) →
    toLowercase s = Api.toAsciiLowercase s

/-! ## The rules -/

/-- The tools that are known. -/
def knownTools : List String := [
  "read_file", "write_file", "list_directory", "http_get", "http_post", "query_database",
  "insert_record", "update_record", "send_email", "send_notification", "calculate", "summarize",
  "translate", "search", "embed_text"]

/-- Nothing is written there. -/
def protectedWritePaths : List String := [
  "/etc/", "/var/spool/cron", "/usr/lib/systemd", "/proc/", "/sys/", "~/.ssh/",
  "~/.config/systemd", ".git/hooks", "Dockerfile", "docker-compose", "Cargo.toml", ".env"]

def protectedReadPaths : List String := [
  "/etc/shadow", "/etc/passwd", "~/.ssh/id_", "~/.aws/credentials", "~/.config/gcloud", ".env"]

def blockedNetworkTargets : List String := [
  "169.254.169.254", "metadata.google", "100.100.100.200", "localhost", "127.0.0.1", "0.0.0.0",
  "[::1]"]

variable (c : CaseMapping)

/-- `normalised.contains(&protected.to_lowercase())` for one of the entries. -/
def mentions (entries : List String) (path : String) : Bool :=
  entries.any fun e => (c.toLowercase e).toList <:+: (c.toLowercase path).toList

/-- A loop of `check_protected_resources`: the first path with an entry in it. -/
def checkPaths (entries : List String) (message : String) (paths : List String) :
    Option StructuralVerdict :=
  (paths.find? (mentions c entries)).map fun path => .deny .protectedResource (message ++ path)

def checkProtectedResources (action : ActionDescriptor) : Option StructuralVerdict :=
  (checkPaths c protectedWritePaths "Write to protected path denied: " action.writePaths).or
    (checkPaths c protectedReadPaths "Read from protected path denied: " action.readPaths)

/-- Denies blocked hosts. -/
def checkSandboxContainment (action : ActionDescriptor) : Option StructuralVerdict :=
  (action.networkTargets.find? fun target =>
    blockedNetworkTargets.any fun blocked =>
      blocked.toList <:+: (c.toLowercase target).toList).map fun target =>
    .deny .sandboxContainment ("Network access to blocked target denied: " ++ target)

/-- Denies subprocesses. -/
def checkReplicationGate (action : ActionDescriptor) : Option StructuralVerdict :=
  if action.spawnsSubprocess then
    some (.deny .replicationGate "Sub-process / sub-agent spawn requires explicit human approval")
  else none

/-- Denies unknown tools. -/
def checkUnknownTool (action : ActionDescriptor) : Option StructuralVerdict :=
  if knownTools.contains (c.toLowercase action.toolName) then none
  else some (.deny .unknownToolDenial
    ("Unknown tool '" ++ action.toolName ++ "' denied by default-deny policy"))

/-- The rules in their order; the first one violated denies. -/
def evaluate (action : ActionDescriptor) : StructuralVerdict :=
  match checkProtectedResources c action with
  | some v => v
  | none =>
    match checkSandboxContainment c action with
    | some v => v
    | none =>
      match checkReplicationGate action with
      | some v => v
      | none =>
        match checkUnknownTool c action with
        | some v => v
        | none => .allow

/-! ## When an action is denied as touching a protected resource -/

/-- `evaluate` denies the action with `ProtectedResource`. -/
def DeniedAsProtected (action : ActionDescriptor) : Prop :=
  ∃ reason, evaluate c action = .deny .protectedResource reason

variable {c}

variable {entries : List String}

theorem checkPaths_eq_some {message : String} {paths : List String} {v : StructuralVerdict}
    (h : checkPaths c entries message paths = some v) :
    ∃ path ∈ paths, mentions c entries path ∧ v = .deny .protectedResource (message ++ path) := by
  obtain ⟨path, hfind, rfl⟩ := map_eq_some_iff.1 h
  exact ⟨path, mem_of_find?_eq_some hfind, find?_some hfind, rfl⟩

theorem checkPaths_eq_none {message : String} {paths : List String} :
    checkPaths c entries message paths = none ↔ ∀ path ∈ paths, ¬mentions c entries path := by
  rw [checkPaths, map_eq_none_iff, find?_eq_none]

/-- The rules after the first one deny for other reasons. -/
theorem evaluate_of_not_protected {action : ActionDescriptor}
    (h : checkProtectedResources c action = none) : ¬DeniedAsProtected c action := by
  rintro ⟨reason, hdeny⟩
  rw [evaluate, h] at hdeny
  simp only [checkReplicationGate, checkUnknownTool] at hdeny
  split at hdeny
  · next v hv =>
    obtain ⟨target, -, rfl⟩ := map_eq_some_iff.1 hv
    cases hdeny
  split at hdeny
  · next v hv =>
    split at hv
    · cases hv
      cases hdeny
    · cases hv
  · split at hdeny
    · next v hv =>
      split at hv
      · cases hv
      · cases hv
        cases hdeny
    · cases hdeny

/-- Denied as protected exactly for an entry in a path as it is spelt. -/
theorem deniedAsProtected_iff {action : ActionDescriptor} : DeniedAsProtected c action ↔
      (∃ path ∈ action.writePaths, mentions c protectedWritePaths path) ∨
        ∃ path ∈ action.readPaths, mentions c protectedReadPaths path := by
  constructor
  · intro h
    by_contra hnone
    push Not at hnone
    refine evaluate_of_not_protected ?_ h
    rw [checkProtectedResources, or_eq_none_iff, checkPaths_eq_none, checkPaths_eq_none]
    simpa using hnone
  · intro h
    cases hcheck : checkProtectedResources c action with
    | none =>
      rw [checkProtectedResources, or_eq_none_iff, checkPaths_eq_none,
        checkPaths_eq_none] at hcheck
      rcases h with ⟨path, hmem, hment⟩ | ⟨path, hmem, hment⟩
      · exact absurd hment (hcheck.1 path hmem)
      · exact absurd hment (hcheck.2 path hmem)
    | some v =>
      rw [DeniedAsProtected, evaluate, hcheck]
      rcases or_eq_some_iff.1 hcheck with hv | ⟨-, hv⟩
      · obtain ⟨path, -, -, rfl⟩ := checkPaths_eq_some hv
        exact ⟨_, rfl⟩
      · obtain ⟨path, -, -, rfl⟩ := checkPaths_eq_some hv
        exact ⟨_, rfl⟩

/-! ## Spellings of a path -/

/-- The path starts at the root. -/
def isAbsolute (path : String) : Bool := path.toList.head? = some '/'

/-- The normal form of an absolute path: no empty segment, no `.`, no `..`. -/
def normalForm (path : String) : String :=
  .ofList (Lib.normalText '/' '.' (path.toList.tail.splitOn '/'))

/-- The action with its absolute paths in normal form. -/
def ActionDescriptor.normalised (action : ActionDescriptor) : ActionDescriptor :=
  let spell := fun path => if isAbsolute path then normalForm path else path
  { action with
    readPaths := action.readPaths.map spell
    writePaths := action.writePaths.map spell }

/-- The normal form of an absolute path shows an entry that goes over a slash. -/
def Leads (c : CaseMapping) (entries : List String) (path : String) : Prop :=
  isAbsolute path ∧ ∃ e ∈ entries, ¬Lib.OneSegment '/' e.toList ∧
    (c.toLowercase e).toList <:+: (c.toLowercase (normalForm path)).toList

theorem toLowercase_empty : c.toLowercase "" = "" := c.toLowercase_ascii "" (by simp)

/-- The lower case of a path is that of its segments. -/
theorem toLowercase_pathText (segments : List (List Char)) :
    (c.toLowercase (.ofList (Lib.pathText '/' segments))).toList =
      Lib.pathText '/' (segments.map fun s => (c.toLowercase (.ofList s)).toList) := by
  have hcons : ∀ text : List Char, (c.toLowercase (.ofList ('/' :: text))).toList =
      '/' :: (c.toLowercase (.ofList text)).toList := by
    intro text
    have h := c.toLowercase_slash "" (.ofList text)
    rw [toLowercase_empty] at h
    have htext : "" ++ "/" ++ String.ofList text = String.ofList ('/' :: text) := by
      simp
    rw [htext] at h
    rw [h]
    simp
  induction segments with
  | nil => simp [Lib.pathText, toLowercase_empty]
  | cons s segments ih =>
    rw [Lib.pathText_cons, cons_append, hcons, map_cons, Lib.pathText_cons, ← ih]
    cases segments with
    | nil => simp [Lib.pathText, toLowercase_empty]
    | cons next segments =>
      rw [Lib.pathText_cons, cons_append, hcons]
      have h := c.toLowercase_slash (.ofList s) (.ofList (next ++ Lib.pathText '/' segments))
      have htext : String.ofList s ++ "/" ++
          String.ofList (next ++ Lib.pathText '/' segments) =
          String.ofList (s ++ '/' :: (next ++ Lib.pathText '/' segments)) := by
        rw [← String.toList_inj]
        simp
      rw [htext] at h
      rw [h]
      simp

variable {path : String}

theorem eq_pathText_of_isAbsolute (h : isAbsolute path) :
    path = .ofList (Lib.pathText '/' (path.toList.tail.splitOn '/')) := by
  rw [← String.toList_inj, String.toList_ofList, Lib.pathText_splitOn]
  obtain ⟨rest, hrest⟩ := head?_eq_some_iff.1 (of_decide_eq_true h)
  rw [hrest, tail_cons]

/-- **Within one segment.** What the normal form of an absolute path shows of a segment, the path
shows. -/
theorem infix_of_infix_normalForm (habs : isAbsolute path) {part : List Char}
    (hone : Lib.OneSegment '/' part) (h : part <:+: (c.toLowercase (normalForm path)).toList) :
    part <:+: (c.toLowercase path).toList := by
  have hpath := eq_pathText_of_isAbsolute habs
  set segments := path.toList.tail.splitOn '/' with hseg
  rw [hpath, toLowercase_pathText]
  rw [normalForm, Lib.normalText] at h
  split at h
  · -- the root: its only text is a slash, which every absolute path begins with
    have hroot : ['/'] = Lib.pathText '/' [[]] := rfl
    rw [hroot, toLowercase_pathText, map_singleton, toLowercase_empty] at h
    obtain ⟨s, rest, hcons⟩ := exists_cons_of_ne_nil (splitOn_ne_nil '/' path.toList.tail)
    rw [hseg, hcons]
    exact h.trans ⟨[], _, rfl⟩
  · rw [toLowercase_pathText] at h
    refine Lib.infix_pathText_of_sublist hone ((Lib.foldl_resolve_sublist [] segments).map _) ?_ h
    rwa [ne_eq, map_eq_nil_iff]

/-- Protected entries are plain text: their lower case keeps the slashes. -/
theorem oneSegment_toLowercase {e : String} (he : e ∈ protectedWritePaths ++ protectedReadPaths)
    (hone : Lib.OneSegment '/' e.toList) : Lib.OneSegment '/' (c.toLowercase e).toList := by
  have hascii : ∀ e ∈ protectedWritePaths ++ protectedReadPaths, e.toList.all (·.toNat < 128) := by
    decide
  have hlower : ∀ e ∈ protectedWritePaths ++ protectedReadPaths, Lib.OneSegment '/' e.toList →
      Lib.OneSegment '/' (Api.toAsciiLowercase e).toList := by
    decide
  rw [c.toLowercase_ascii e (by simpa using hascii e he)]
  exact hlower e he hone

/-- A protected entry in the normal form is in the path as spelt, or goes over a slash. -/
theorem mentions_or_leads (hsub : ∀ e ∈ entries, e ∈ protectedWritePaths ++ protectedReadPaths)
    (habs : isAbsolute path) (h : mentions c entries (normalForm path)) :
    mentions c entries path ∨ Leads c entries path := by
  obtain ⟨e, hmem, he⟩ := any_eq_true.1 h
  have he := of_decide_eq_true he
  by_cases hone : Lib.OneSegment '/' e.toList
  · have hspelt := infix_of_infix_normalForm habs (oneSegment_toLowercase (hsub e hmem) hone) he
    exact .inl (any_eq_true.2 ⟨e, hmem, decide_eq_true hspelt⟩)
  · exact .inr ⟨habs, e, hmem, hone, he⟩

theorem Leads.mentions (h : Leads c entries path) : mentions c entries (normalForm path) := by
  obtain ⟨-, e, hmem, -, he⟩ := h
  exact any_eq_true.2 ⟨e, hmem, decide_eq_true he⟩

/-- Whether an action is denied as protected does not depend on the spelling of its absolute paths,
unless one leads to an entry over a slash. -/
theorem protected_by_spelling_iff (c : CaseMapping) (action : ActionDescriptor) :
    ((∀ path ∈ action.writePaths, isAbsolute path →
          mentions c protectedWritePaths (normalForm path) → DeniedAsProtected c action) ∧
        (∀ path ∈ action.readPaths, isAbsolute path →
          mentions c protectedReadPaths (normalForm path) → DeniedAsProtected c action) ∧
        (DeniedAsProtected c action.normalised → DeniedAsProtected c action)) ↔
      ((∃ path ∈ action.writePaths, Leads c protectedWritePaths path) ∨
          (∃ path ∈ action.readPaths, Leads c protectedReadPaths path) →
        (∃ path ∈ action.writePaths, mentions c protectedWritePaths path) ∨
          ∃ path ∈ action.readPaths, mentions c protectedReadPaths path) := by
  rw [← deniedAsProtected_iff]
  constructor
  · rintro ⟨hwrite, hread, -⟩ (⟨path, hmem, hleads⟩ | ⟨path, hmem, hleads⟩)
    · exact hwrite path hmem hleads.1 hleads.mentions
    · exact hread path hmem hleads.1 hleads.mentions
  · intro h
    have hwrite : ∀ path ∈ action.writePaths, isAbsolute path →
        mentions c protectedWritePaths (normalForm path) → DeniedAsProtected c action := by
      intro path hmem habs hment
      rcases mentions_or_leads (fun e he => mem_append_left _ he) habs hment with hspelt | hleads
      · exact deniedAsProtected_iff.2 (.inl ⟨path, hmem, hspelt⟩)
      · exact h (.inl ⟨path, hmem, hleads⟩)
    have hread : ∀ path ∈ action.readPaths, isAbsolute path →
        mentions c protectedReadPaths (normalForm path) → DeniedAsProtected c action := by
      intro path hmem habs hment
      rcases mentions_or_leads (fun e he => mem_append_right _ he) habs hment with hspelt | hleads
      · exact deniedAsProtected_iff.2 (.inr ⟨path, hmem, hspelt⟩)
      · exact h (.inr ⟨path, hmem, hleads⟩)
    refine ⟨hwrite, hread, fun hdenied => ?_⟩
    rcases deniedAsProtected_iff.1 hdenied with ⟨path', hmem', hment⟩ | ⟨path', hmem', hment⟩
    · obtain ⟨path, hmem, rfl⟩ := mem_map.1 hmem'
      split at hment
      · next habs => exact hwrite path hmem habs hment
      · exact deniedAsProtected_iff.2 (.inl ⟨path, hmem, hment⟩)
    · obtain ⟨path, hmem, rfl⟩ := mem_map.1 hmem'
      split at hment
      · next habs => exact hread path hmem habs hment
      · exact deniedAsProtected_iff.2 (.inr ⟨path, hmem, hment⟩)

/-- Lower case of the ASCII letters only. -/
def asciiCase : CaseMapping where
  toLowercase := Api.toAsciiLowercase
  toLowercase_slash a b := by
    rw [← String.toList_inj]
    simp [Api.toAsciiLowercase]
  toLowercase_ascii _ _ := rfl

/-- `/etc//shadow` is the file `/etc/shadow`, and reading it is allowed. -/
theorem shadow_file_read :
    evaluate asciiCase ⟨"read_file", ["/etc//shadow"], [], [], false⟩ = .allow ∧
      isAbsolute "/etc//shadow" ∧ normalForm "/etc//shadow" = "/etc/shadow" ∧
        mentions asciiCase protectedReadPaths (normalForm "/etc//shadow") := by
  decide

end Haltchain.Cognitive
