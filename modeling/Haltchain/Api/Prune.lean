import Haltchain.Api.AuditLog
import Mathlib.Data.Fintype.Basic

/-! # Pruning the audit log

`prune_expired_audit_events_with_cutoff` reads the log, writes the lines it keeps to a second file
and renames that over the log. Appending does not wait for it.

Appending is taken apart into the opening of the file and the single writes, pruning into the
opening, the reading and the renaming. What was written is recorded apart from the files. -/

namespace Haltchain.Api

open Lib Function List Option

/-! ## Lines that are kept -/

/-- What is read from the plaintext of a line, by serde_json and chrono. -/
structure EventReader (ε : Type) where
  fromSlice : List UInt8 → Option ε
  /-- The text in the field `logged_at`. -/
  loggedAt : ε → Option String
  /-- In seconds. -/
  parseFromRfc3339 : String → Option Int

/-- What pruning reports. -/
structure PruneReport where
  totalLines : Nat
  keptLines : Nat
  removedLines : Nat
  skippedLines : Nat
deriving DecidableEq

section

variable {ε : Type} (cipher : Cipher) (reader : EventReader ε) (cutoffTs : Int)

/-- The event of a line. -/
def decryptLine (line : String) : Option ε := (plaintextOf cipher line).bind reader.fromSlice

/-- When the event was logged. -/
def parseLoggedAtEpoch (event : ε) : Option Int :=
  (reader.loggedAt event).bind reader.parseFromRfc3339

/-- The event was logged before the cutoff. An event without a time was not. -/
def isExpired (event : ε) : Bool := (parseLoggedAtEpoch reader event).any fun ts => ts < cutoffTs

/-- The lines kept, and how many are removed and skipped. -/
def pruneLines : List String → List String × Nat × Nat
  | [] => ([], 0, 0)
  | line :: lines =>
    let (kept, removed, skipped) := pruneLines lines
    match decryptLine cipher reader line with
    | none => (kept, removed, skipped + 1)
    | some event =>
      if isExpired reader cutoffTs event then (kept, removed + 1, skipped)
      else (line :: kept, removed, skipped)

/-- The line decrypts to an event that was logged before the cutoff. -/
def lineExpired (line : String) : Bool :=
  (decryptLine cipher reader line).any (isExpired reader cutoffTs)

variable {cipher reader cutoffTs}

theorem pruneLines_of_decrypts {lines : List String}
    (h : ∀ line ∈ lines, (decryptLine cipher reader line).isSome) :
    (pruneLines cipher reader cutoffTs lines).1 =
      lines.filter fun line => !lineExpired cipher reader cutoffTs line := by
  induction lines with
  | nil => rfl
  | cons line lines ih =>
    rw [forall_mem_cons] at h
    obtain ⟨event, hevent⟩ := isSome_iff_exists.1 h.1
    rw [pruneLines, filter_cons, lineExpired, hevent, ← ih h.2]
    dsimp only [any_some]
    split
    · rename_i hexpired
      rw [if_neg (by simp [hexpired])]
    · rename_i hexpired
      rw [if_pos (by simpa using hexpired)]

/-- A line that can be decrypted has no end of a line in it. -/
theorem noNewline_of_decrypts {line : String} (h : (decryptLine cipher reader line).isSome = true) :
    '\n' ∉ line.toList ∧ '\r' ∉ line.toList := by
  obtain ⟨event, hevent⟩ := isSome_iff_exists.1 h
  obtain ⟨plaintext, hplain, -⟩ := bind_eq_some_iff.1 hevent
  obtain ⟨packed, hdecode, -⟩ := bind_eq_some_iff.1 hplain
  exact ⟨Base64.notMem_of_decode (by decide) (by decide) hdecode,
    Base64.notMem_of_decode (by decide) (by decide) hdecode⟩

end

/-- What is written to the second file. -/
def textOf (lines : List String) : List Char := lines.flatMap fun line => line.toList ++ ['\n']

/-- The lines come out again, and what is written after them. -/
theorem linesFrom_textOf_append {lines : List String}
    (h : ∀ line ∈ lines, '\n' ∉ line.toList ∧ '\r' ∉ line.toList) (rest : List Char) :
    linesFrom [] (textOf lines ++ rest) = lines ++ linesFrom [] rest := by
  induction lines with
  | nil => rfl
  | cons line lines ih =>
    rw [forall_mem_cons] at h
    obtain ⟨⟨hnewline, hreturn⟩, hlines⟩ := h
    have hlast : line.toList.getLast? ≠ some '\r' := fun h => hreturn (mem_of_getLast? h)
    have htext : textOf (line :: lines) ++ rest =
        line.toList ++ '\n' :: (textOf lines ++ rest) := by
      simp [textOf]
    rw [htext, linesFrom_append hnewline, nil_append, linesFrom, if_pos rfl, if_neg hlast,
      String.ofList_toList, ih hlines, cons_append]

/-! ## Files -/

/-- How far a call of `append_encrypted_line` has come. -/
inductive AppendCall where
  | idle
  /-- The file it has opened, and what it has to write. -/
  | writing (file : Nat) (rest : List Char)
  | returned (ok : Bool)
deriving DecidableEq

def AppendCall.isWriting : AppendCall → Bool
  | .writing .. => true
  | .idle | .returned _ => false

/-- How far the pruning has come. -/
inductive PruneCall where
  | idle
  | opened (file : Nat)
  | read (lines : List String)
  /-- Without a report if there was an error. -/
  | returned (report : Option PruneReport)
deriving DecidableEq

/-- The file it is about to read. -/
def PruneCall.toRead : PruneCall → Option Nat
  | .opened file => some file
  | .idle | .read _ | .returned _ => none

/-- It has read the log and not replaced it. -/
def PruneCall.hasRead : PruneCall → Bool
  | .read _ => true
  | .idle | .opened _ | .returned _ => false

/-- The files, the one that has the name of the log, and the calls. -/
structure LogDir (ι : Type) where
  files : Nat → List Char
  path : Option Nat
  nextFile : Nat
  append : ι → AppendCall
  prune : PruneCall
  /-- What was in the log at first, and what was written until the pruning returned. -/
  before : List Char
  /-- What has been written since. -/
  since : List Char

inductive PruneStep (ι : Type) where
  | openAppend (c : ι)
  | write (c : ι) (n : Nat)
  | failAppend (c : ι)
  | openPrune
  | readPrune
  | renamePrune
  | failPrune

namespace LogDir

section

variable {ι ε : Type} [DecidableEq ι] (cipher : Cipher) (reader : EventReader ε) (cutoffTs : Int)
  (line : ι → String)

/-- The log, if there is one, before any of the calls. -/
def start (file : Option (List Char)) : LogDir ι where
  files _ := file.getD []
  path := file.map fun _ => 0
  nextFile := 1
  append _ := .idle
  prune := .idle
  before := file.getD []
  since := []

/-- What is in the file with the name of the log. -/
def contents (s : LogDir ι) : List Char := (s.path.map s.files).getD []

def setAppend (s : LogDir ι) (c : ι) (a : AppendCall) : LogDir ι :=
  { s with append := update s.append c a }

/-- The pruning has returned, with a report. -/
def Pruned (s : LogDir ι) : Prop := ∃ report, s.prune = .returned (some report)

instance (s : LogDir ι) : Decidable s.Pruned :=
  match h : s.prune with
  | .returned (some report) => isTrue ⟨report, h⟩
  | .returned none | .idle | .opened _ | .read _ => isFalse (by rintro ⟨_, h'⟩; simp [h] at h')

/-- The calls have written this. -/
def record (s : LogDir ι) (text : List Char) : LogDir ι :=
  if s.Pruned then { s with since := s.since ++ text } else { s with before := s.before ++ text }

/-- One step. -/
def exec (s : LogDir ι) : PruneStep ι → LogDir ι
  | .openAppend c =>
    match s.append c, s.path with
    | .idle, some file => s.setAppend c (.writing file ((line c).toList ++ ['\n']))
    | .idle, none =>
      -- the file is created
      { s with
        files := update s.files s.nextFile []
        path := some s.nextFile
        nextFile := s.nextFile + 1 }.setAppend c (.writing s.nextFile ((line c).toList ++ ['\n']))
    | _, _ => s
  | .write c n =>
    match s.append c with
    | .writing file rest =>
      let s := { s with files := update s.files file (s.files file ++ rest.take n) }
      (s.record (rest.take n)).setAppend c
        (if rest.drop n = [] then .returned true else .writing file (rest.drop n))
    | _ => s
  | .failAppend c =>
    match s.append c with
    | .returned _ => s
    | _ => s.setAppend c (.returned false)
  | .openPrune =>
    match s.prune, s.path with
    | .idle, none => { s with prune := .returned (some ⟨0, 0, 0, 0⟩) }
    | .idle, some file => { s with prune := .opened file }
    | _, _ => s
  | .readPrune =>
    match s.prune with
    | .opened file => { s with prune := .read (linesFrom [] (s.files file)) }
    | _ => s
  | .renamePrune =>
    match s.prune with
    | .read lines =>
      let (kept, removed, skipped) := pruneLines cipher reader cutoffTs lines
      { s with
        files := update s.files s.nextFile (textOf kept)
        path := some s.nextFile
        nextFile := s.nextFile + 1
        prune := .returned (some ⟨lines.length, kept.length, removed, skipped⟩) }
    | _ => s
  | .failPrune =>
    match s.prune with
    | .returned _ => s
    | _ => { s with prune := .returned none }

/-! ## Exactness -/

/-- After a report the log has its lines, without those of expired events, and the lines written
since. -/
def Exact (s : LogDir ι) : Prop :=
  s.Pruned → linesFrom [] s.contents =
    ((linesFrom [] s.before).filter fun line => !lineExpired cipher reader cutoffTs line) ++
      linesFrom [] s.since
deriving Decidable

/-- The lines read can be decrypted, nothing is written between reading and renaming, and no call
has the log open when it is renamed. -/
def Undisturbed (s : LogDir ι) : PruneStep ι → Prop
  | .readPrune =>
    ∀ file ∈ s.prune.toRead, ∀ line ∈ linesFrom [] (s.files file),
      (decryptLine cipher reader line).isSome
  | .write .. => s.prune.hasRead = false
  | .renamePrune => ∀ c, (s.append c).isWriting = false
  | .openAppend _ | .failAppend _ | .openPrune | .failPrune => True

instance [Fintype ι] (s : LogDir ι) (step : PruneStep ι) :
    Decidable (s.Undisturbed cipher reader step) := by
  unfold Undisturbed
  split <;> infer_instance

/-- Calls write to the log's file. Until the pruning is done it has all that was written; then the
lines kept and what was written since. -/
structure Tracked (s : LogDir ι) : Prop where
  fresh : ∀ file, s.path = some file → file < s.nextFile
  handles : ∀ c file rest, s.append c = .writing file rest → s.path = some file
  absent : s.path = none → s.before = [] ∧ s.since = []
  opened : ∀ file, s.prune = .opened file → s.path = some file
  read : ∀ lines, s.prune = .read lines →
    lines = linesFrom [] s.before ∧ ∀ line ∈ lines, (decryptLine cipher reader line).isSome
  unpruned : ¬ s.Pruned → s.contents = s.before ∧ s.since = []
  pruned : s.Pruned → ∃ kept : List String,
    (∀ line ∈ kept, '\n' ∉ line.toList ∧ '\r' ∉ line.toList) ∧
    kept = ((linesFrom [] s.before).filter fun line => !lineExpired cipher reader cutoffTs line) ∧
    s.contents = textOf kept ++ s.since

end

variable {ι ε : Type} {cipher : Cipher} {reader : EventReader ε} {cutoffTs : Int} {s : LogDir ι}

theorem tracked_start (file : Option (List Char)) :
    Tracked cipher reader cutoffTs (start file : LogDir ι) := by
  have hunpruned : ¬ (start file : LogDir ι).Pruned := by
    rintro ⟨report, h⟩
    simp [start] at h
  refine ⟨?_, ?_, ?_, ?_, ?_, ?_, fun h => absurd h hunpruned⟩
  · intro i h
    cases file with
    | none => simp [start] at h
    | some text =>
      cases h
      exact Nat.zero_lt_one
  · intro c i rest h
    simp [start] at h
  · intro h
    cases file with
    | none => exact ⟨rfl, rfl⟩
    | some text => simp [start] at h
  · intro i h
    simp [start] at h
  · intro lines h
    simp [start] at h
  · intro _
    refine ⟨?_, rfl⟩
    cases file with
    | none => rfl
    | some text => rfl

namespace Tracked

variable (h : Tracked cipher reader cutoffTs s)

include h

/-- A run that is not disturbed prunes exactly. -/
theorem exact : s.Exact cipher reader cutoffTs := by
  intro hpruned
  obtain ⟨kept, hlines, rfl, hcontents⟩ := h.pruned hpruned
  rw [hcontents, linesFrom_textOf_append hlines]

theorem create (hpath : s.path = none) : Tracked cipher reader cutoffTs
      { s with
        files := update s.files s.nextFile []
        path := some s.nextFile
        nextFile := s.nextFile + 1 } := by
  obtain ⟨hbefore, hsince⟩ := h.absent hpath
  have hempty : s.contents = [] := by
    rw [contents, hpath]
    rfl
  have hnew : ({ s with
      files := update s.files s.nextFile []
      path := some s.nextFile
      nextFile := s.nextFile + 1 } : LogDir ι).contents = [] :=
    update_self (f := s.files) ..
  refine ⟨?_, fun c file rest hc => ?_, fun h => absurd h (by simp), fun file hfile => ?_, h.read,
    fun hpruned => ?_, fun hpruned => ?_⟩
  · rintro file ⟨⟩
    exact Nat.lt_succ_self _
  · exact absurd (h.handles c file rest hc) (by simp [hpath])
  · exact absurd (h.opened file hfile) (by simp [hpath])
  · rw [hnew]
    exact ⟨hbefore.symm, hsince⟩
  · obtain ⟨kept, hlines, hkept, hcontents⟩ := h.pruned hpruned
    refine ⟨kept, hlines, hkept, ?_⟩
    rw [hnew, ← hempty, hcontents]

theorem write {file : Nat}
    (hpath : s.path = some file) (hread : ∀ lines, s.prune ≠ .read lines) (text : List Char) :
    Tracked cipher reader cutoffTs
      ({ s with files := update s.files file (s.files file ++ text) }.record text) := by
  have hcontents : ({ s with files := update s.files file (s.files file ++ text) } :
      LogDir ι).contents = s.contents ++ text := by
    simp [contents, hpath]
  have hpresent : ∀ {p : Prop}, s.path = none → p := fun hnone => by
    rw [hpath] at hnone
    simp at hnone
  by_cases hpruned : s.Pruned
  · rw [record, if_pos (by exact hpruned)]
    refine ⟨h.fresh, h.handles, fun hnone => hpresent hnone, h.opened,
      fun lines hlines => absurd hlines (hread lines), fun hnot => absurd hpruned hnot, fun _ => ?_⟩
    obtain ⟨kept, hlines, hkept, hold⟩ := h.pruned hpruned
    refine ⟨kept, hlines, hkept, ?_⟩
    exact hcontents.trans (by rw [hold, append_assoc])
  · rw [record, if_neg (by exact hpruned)]
    obtain ⟨hold, hsince⟩ := h.unpruned hpruned
    refine ⟨h.fresh, h.handles, fun hnone => hpresent hnone, h.opened,
      fun lines hlines => absurd hlines (hread lines), fun _ => ⟨?_, hsince⟩,
      fun hnot => absurd hnot hpruned⟩
    exact hcontents.trans (by rw [hold])

/-- The pruning goes on, without a report. -/
theorem setPrune (hpruned : ¬ s.Pruned)
    {p : PruneCall} (hopened : ∀ file, p = .opened file → s.path = some file)
    (hread : ∀ lines, p = .read lines →
      lines = linesFrom [] s.before ∧ ∀ line ∈ lines, (decryptLine cipher reader line).isSome)
    (hreport : ∀ report, p ≠ .returned (some report)) :
    Tracked cipher reader cutoffTs { s with prune := p } :=
  ⟨h.fresh, h.handles, h.absent, hopened, hread, fun _ => h.unpruned hpruned,
    fun ⟨report, hp⟩ => absurd hp (hreport report)⟩

theorem rename {lines : List String}
    (hread : s.prune = .read lines) (hidle : ∀ c, (s.append c).isWriting = false)
    (report : PruneReport) : Tracked cipher reader cutoffTs
      { s with
        files := update s.files s.nextFile (textOf (pruneLines cipher reader cutoffTs lines).1)
        path := some s.nextFile
        nextFile := s.nextFile + 1
        prune := .returned (some report) } := by
  obtain ⟨hlines, hdecrypts⟩ := h.read lines hread
  have hunpruned : ¬ s.Pruned := by
    rintro ⟨report, hp⟩
    exact absurd (hread.symm.trans hp) (by simp)
  have hkept : (pruneLines cipher reader cutoffTs lines).1 =
      lines.filter fun line => !lineExpired cipher reader cutoffTs line :=
    pruneLines_of_decrypts hdecrypts
  refine ⟨?_, fun c file rest hc => ?_, fun h => absurd h (by simp), fun file hfile => ?_,
    fun lines hlines => ?_, fun hnot => absurd ⟨report, rfl⟩ hnot, fun _ => ?_⟩
  · rintro file ⟨⟩
    exact Nat.lt_succ_self _
  · have := hidle c
    rw [show s.append c = _ from hc] at this
    simp [AppendCall.isWriting] at this
  · simp at hfile
  · simp at hlines
  · refine ⟨(pruneLines cipher reader cutoffTs lines).1, fun line hline => ?_,
      by rw [hkept, hlines], ?_⟩
    · rw [hkept] at hline
      exact noNewline_of_decrypts (hdecrypts line (mem_of_mem_filter hline))
    · rw [(h.unpruned hunpruned).2, append_nil]
      exact update_self (f := s.files) ..

theorem pruneAbsent (hpath : s.path = none) (report : PruneReport) :
    Tracked cipher reader cutoffTs { s with prune := .returned (some report) } := by
  obtain ⟨hbefore, hsince⟩ := h.absent hpath
  refine ⟨h.fresh, h.handles, h.absent, fun file hfile => absurd hfile (by simp),
    fun lines hlines => absurd hlines (by simp), fun hnot => absurd ⟨_, rfl⟩ hnot,
    fun _ => ⟨[], by simp, ?_, ?_⟩⟩
  · rw [hbefore]
    rfl
  · rw [hsince, hpath]
    rfl

/-- The log is read: what is in it is all that was ever written. -/
theorem readLog {file : Nat} (hopened : s.prune = .opened file)
    (hdecrypts : ∀ line ∈ linesFrom [] (s.files file), (decryptLine cipher reader line).isSome) :
    Tracked cipher reader cutoffTs { s with prune := .read (linesFrom [] (s.files file)) } := by
  have hunpruned : ¬ s.Pruned := fun ⟨report, hp⟩ => absurd (hopened.symm.trans hp) (by simp)
  have hcontents : s.files file = s.before := by
    rw [← (h.unpruned hunpruned).1, contents, h.opened file hopened]
    rfl
  refine h.setPrune hunpruned (fun file' hfile => absurd hfile (by simp)) ?_ (fun report => by simp)
  rintro lines ⟨⟩
  exact ⟨by rw [hcontents], hdecrypts⟩

variable [DecidableEq ι] {line : ι → String}

theorem setAppend {c : ι} {a : AppendCall}
    (ha : ∀ file rest, a = .writing file rest → s.path = some file) :
    Tracked cipher reader cutoffTs (s.setAppend c a) := by
  refine ⟨h.fresh, fun c' file rest hc' => ?_, h.absent, h.opened, h.read, h.unpruned, h.pruned⟩
  rw [LogDir.setAppend] at hc'
  dsimp only at hc'
  rcases eq_or_ne c' c with rfl | hne
  · rw [update_self] at hc'
    exact ha file rest hc'
  · rw [update_of_ne hne] at hc'
    exact h.handles c' file rest hc'

theorem writePart {c : ι} {file : Nat} {rest : List Char} (hc : s.append c = .writing file rest)
    (hread : ∀ lines, s.prune ≠ .read lines) (n : Nat) : Tracked cipher reader cutoffTs
      (({ s with files := update s.files file (s.files file ++ rest.take n) }.record
        (rest.take n)).setAppend c
          (if rest.drop n = [] then .returned true else .writing file (rest.drop n))) := by
  have hpath := h.handles c file rest hc
  refine (h.write hpath hread (rest.take n)).setAppend ?_
  intro file' rest' hrest
  have hsame : file = file' := by
    split at hrest
    · simp at hrest
    · exact (AppendCall.writing.inj hrest).1
  rw [← hsame, record]
  split
  · exact hpath
  · exact hpath

theorem exec {step : PruneStep ι} (hstep : s.Undisturbed cipher reader step) :
    Tracked cipher reader cutoffTs (s.exec cipher reader cutoffTs line step) := by
  unfold LogDir.exec
  cases step with
  | openAppend c =>
    dsimp only
    split
    · rename_i file hpath
      refine h.setAppend ?_
      rintro file' rest ⟨⟩
      exact hpath
    · rename_i hpath
      refine (h.create hpath).setAppend ?_
      rintro file rest ⟨⟩
      rfl
    · exact h
  | write c n =>
    dsimp only
    split
    · rename_i file rest hc
      refine h.writePart hc (fun lines hlines => ?_) n
      simp [Undisturbed, hlines, PruneCall.hasRead] at hstep
    · exact h
  | failAppend c =>
    dsimp only
    split
    · exact h
    · refine h.setAppend ?_
      rintro file rest ⟨⟩
  | openPrune =>
    dsimp only
    split
    · rename_i hidle hpath
      exact h.pruneAbsent hpath _
    · rename_i file hidle hpath
      refine h.setPrune (fun ⟨report, hp⟩ => ?_) ?_ (fun lines hlines => ?_) (fun report => ?_)
      · exact absurd (hidle.symm.trans hp) (by simp)
      · rintro file' ⟨⟩
        exact hpath
      · simp at hlines
      · simp
    · exact h
  | readPrune =>
    dsimp only
    split
    · rename_i file hopened
      refine h.readLog hopened (hstep file ?_)
      rw [hopened]
      rfl
    · exact h
  | renamePrune =>
    dsimp only
    split
    · rename_i lines hread
      exact h.rename hread hstep _
    · exact h
  | failPrune =>
    dsimp only
    split
    · exact h
    rename_i hreturned
    refine h.setPrune (fun ⟨report, hp⟩ => hreturned _ hp) ?_ ?_ (fun report => by simp)
    · intro file hfile
      simp at hfile
    · intro lines hlines
      simp at hlines

end Tracked

variable [DecidableEq ι] {line : ι → String}

/-- **Pruning is exact** in a run in which all lines decrypt and no call appends between the reading
and the renaming: the log loses the lines of events before the cutoff and keeps all others, in
order, with what is written after it. -/
theorem prune_exact_of_undisturbed (file : Option (List Char)) {steps : List (PruneStep ι)}
    (h : Throughout (exec cipher reader cutoffTs line) (Undisturbed cipher reader) (start file)
      steps) :
    (run (exec cipher reader cutoffTs line) (start file) steps).Exact cipher reader cutoffTs := by
  have hstart : Tracked cipher reader cutoffTs (start file : LogDir ι) := tracked_start file
  have htracked := h.invariant hstart fun s step hs hstep => hs.exec hstep
  exact htracked.exact

/-- For examples, an event is one byte, 0 if it has no time. -/
def byteReader : EventReader UInt8 where
  fromSlice bytes := bytes.head?
  loggedAt event := if event = 0 then none else some (if event = 1 then "early" else "late")
  parseFromRfc3339 s := if s = "early" then some 5 else some 50

/-- The line of an event. -/
def lineOf (event : UInt8) : String := Base64.encode (AuditLog.zeroNonce.bytes ++ [event])

/-- The calls append an early and a late event. -/
def earlyAndLate (c : Fin 2) : String := if c = 0 then lineOf 1 else lineOf 2

/-- One line is appended before the log is read, one after it is replaced. -/
theorem pruned_between_appends :
    let s := run (exec AuditLog.plainCipher byteReader 10 earlyAndLate)
      (start (some (textOf [lineOf 1, lineOf 0, lineOf 2])))
      [.openAppend 0, .write 0 20, .write 0 20, .openPrune, .readPrune, .renamePrune, .openAppend 1,
        .write 1 40]
    s.Pruned ∧ s.Exact AuditLog.plainCipher byteReader 10 :=
  ⟨by decide +kernel, prune_exact_of_undisturbed _ (by decide +kernel)⟩

/-- Three lines are lost: one that cannot be decrypted, one appended after the log was read, and one
appended after it was replaced, to a file opened before. -/
theorem prune_loses_lines :
    let undecryptable := run (exec AuditLog.plainCipher byteReader 10 earlyAndLate)
      (start (some (textOf [lineOf 2, "not base64"]))) [.openPrune, .readPrune, .renamePrune]
    let meanwhile := run (exec AuditLog.plainCipher byteReader 10 earlyAndLate)
      (start (some (textOf [lineOf 2])))
      [.openPrune, .readPrune, .openAppend 1, .write 1 99, .renamePrune]
    let later := run (exec AuditLog.plainCipher byteReader 10 earlyAndLate)
      (start (some (textOf [lineOf 2])))
      [.openPrune, .openAppend 1, .readPrune, .renamePrune, .write 1 99]
    (¬ undecryptable.Exact AuditLog.plainCipher byteReader 10 ∧
      linesFrom [] undecryptable.contents = [lineOf 2]) ∧
    (¬ meanwhile.Exact AuditLog.plainCipher byteReader 10 ∧
      meanwhile.append 1 = .returned true ∧ linesFrom [] meanwhile.contents = [lineOf 2]) ∧
    (¬ later.Exact AuditLog.plainCipher byteReader 10 ∧
      later.append 1 = .returned true ∧ linesFrom [] later.contents = [lineOf 2]) := by
  decide +kernel

end LogDir

end Haltchain.Api
