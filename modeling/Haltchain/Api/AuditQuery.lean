import Haltchain.Api.Prune
import Mathlib.Data.List.DropRight

/-! # Queries of the audit log

`query_audit_events` and `read_recent_audit_events` answer with the newest events first. Both read
the first 500000 lines of the file, and turn these around. A file is given by the results of reading
its lines; the JSON of an event is a parameter. -/

namespace Haltchain.Api

open Lib List

/-- The lines read at most. -/
def maxAuditLogLines : Nat := 500000

/-- What else a query reads from an event. -/
structure QueryReader (ε : Type) extends EventReader ε where
  /-- The text in the field `agent_id`. -/
  agentId : ε → Option String
  /-- The text in the field `decision`. -/
  decision : ε → Option String
  /-- `{"status": "empty"}`. -/
  statusEmpty : ε

/-- What is asked for. -/
structure AuditQueryFilter where
  timeFrom : Option Int
  timeTo : Option Int
  agentId : Option String
  decision : Option String
  limit : Nat

structure AuditQueryResult (ε : Type) where
  events : List ε
  scanned : Nat

/-- What a call finds when it opens the file and reads the key. -/
structure LogAccess where
  openFile : Except String (List (Except String String))
  encryptionKey : Except String Cipher

def eqIgnoreAsciiCase (a b : String) : Bool := a.toList.map Char.toLower = b.toList.map Char.toLower

/-- `collect` into a `Result`: the first error, if there is one. -/
def collectLines : List (Except String String) → Except String (List String)
  | [] => .ok []
  | .error e :: _ => .error e
  | .ok line :: lines => (collectLines lines).map (line :: ·)

def LogAccess.readLines (access : LogAccess) : Except String (List String) :=
  match access.openFile with
  | .error e => .error s!"open log file failed: {e}"
  | .ok lines =>
    match collectLines (lines.take maxAuditLogLines) with
    | .error e => .error s!"read log failed: {e}"
    | .ok lines => .ok lines

section

variable {ε : Type} (reader : QueryReader ε)

def AuditQueryFilter.selects (filter : AuditQueryFilter) (event : ε) : Bool :=
  (filter.timeFrom.all fun t => (parseLoggedAtEpoch reader.toEventReader event).any (t ≤ ·)) &&
    (filter.timeTo.all fun t => (parseLoggedAtEpoch reader.toEventReader event).any (· ≤ t)) &&
    (filter.agentId.all fun id => (reader.agentId event).any (· = id)) &&
    filter.decision.all fun d => (reader.decision event).any (eqIgnoreAsciiCase · d)

/-- The loop over the lines, newest first. -/
def scanLines (cipher : Cipher) (filter : AuditQueryFilter) (limit : Nat) :
    List ε → List String → List ε
  | out, [] => out
  | out, line :: lines =>
    if limit ≤ out.length then out
    else
      match decryptLine cipher reader.toEventReader line with
      | none => scanLines cipher filter limit out lines
      | some event =>
        if filter.selects reader event then scanLines cipher filter limit (out ++ [event]) lines
        else scanLines cipher filter limit out lines

def queryAuditEvents (access : LogAccess) (filter : AuditQueryFilter) :
    Except String (AuditQueryResult ε) :=
  let limit := if filter.limit = 0 then 100 else filter.limit
  match access.readLines with
  | .error e => .error e
  | .ok lines =>
    match access.encryptionKey with
    | .error e => .error e
    | .ok cipher => .ok ⟨scanLines reader cipher filter limit [] lines.reverse, lines.length⟩

/-- The newest events first. -/
def readRecentAuditEvents (access : LogAccess) (limit : Nat) : Except String (List ε) :=
  match access.readLines with
  | .error e => .error e
  | .ok lines =>
    match access.encryptionKey with
    | .error e => .error e
    | .ok cipher =>
      let out := (lines.reverse.take limit).filterMap (decryptLine cipher reader.toEventReader)
      .ok (if out = [] then [reader.statusEmpty] else out)

/-! ## What is answered -/

variable {reader}

/-- The loop stops when it has enough. -/
theorem scanLines_eq (cipher : Cipher) (filter : AuditQueryFilter) (limit : Nat) (out : List ε)
    (lines : List String) : scanLines reader cipher filter limit out lines =
      out ++ ((lines.filterMap (decryptLine cipher reader.toEventReader)).filter
        (filter.selects reader)).take (limit - out.length) := by
  induction lines generalizing out with
  | nil => simp [scanLines]
  | cons line lines ih =>
    rw [scanLines]
    split
    · next hfull => rw [Nat.sub_eq_zero_of_le hfull, take_zero, append_nil]
    cases hline : decryptLine cipher reader.toEventReader line with
    | none => rw [filterMap_cons_none hline, ih]
    | some event =>
      rw [filterMap_cons_some hline]
      by_cases hselects : filter.selects reader event = true
      · have hleft : limit - out.length = limit - (out ++ [event]).length + 1 := by
          rw [length_append, length_singleton]
          omega
        rw [filter_cons_of_pos hselects, hleft, take_succ_cons]
        simp only [hselects, if_true]
        rw [ih, append_assoc, singleton_append]
      · rw [filter_cons_of_neg hselects]
        simp only [hselects, Bool.false_eq_true, if_false]
        rw [ih]

/-- File and key can be read, and the lines decrypt to these events. -/
def Holds (reader : QueryReader ε) (access : LogAccess) (events : List ε) : Prop :=
  ∃ (cipher : Cipher) (lines : List String), access.openFile = .ok (lines.map .ok) ∧
    access.encryptionKey = .ok cipher ∧
    lines.map (decryptLine cipher reader.toEventReader) = events.map some

theorem collectLines_map_ok (lines : List String) : collectLines (lines.map .ok) = .ok lines := by
  induction lines with
  | nil => rfl
  | cons line lines ih =>
    rw [map_cons, collectLines, ih]
    rfl

/-- What is read of such a log. -/
theorem Holds.readLines {access : LogAccess} {events : List ε} (h : Holds reader access events) :
    ∃ cipher lines, access.readLines = .ok lines ∧ access.encryptionKey = .ok cipher ∧
      lines.map (decryptLine cipher reader.toEventReader) =
        (events.take maxAuditLogLines).map some := by
  obtain ⟨cipher, lines, hopen, hkey, hevents⟩ := h
  refine ⟨cipher, lines.take maxAuditLogLines, ?_, hkey, ?_⟩
  · rw [LogAccess.readLines, hopen]
    dsimp only
    rw [← map_take, collectLines_map_ok]
  · rw [map_take, hevents, map_take]

theorem filterMap_of_map_some {α : Type} {f : α → Option ε} {l : List α} {events : List ε}
    (h : l.map f = events.map some) : l.filterMap f = events := by
  have hid : l.filterMap f = (l.map f).filterMap id := by
    rw [filterMap_map]
    rfl
  rw [hid, h, filterMap_map, Function.id_comp, filterMap_some]

/-- The last events, newest first. -/
def newestFirst (n : Nat) (events : List ε) : List ε := (events.rtake n).reverse

theorem newestFirst_eq (n : Nat) (events : List ε) :
    newestFirst n events = events.reverse.take n := by
  rw [newestFirst, rtake_eq_reverse_take_reverse, reverse_reverse]

variable {access : LogAccess} {events : List ε}

/-- The answers are about the first lines of the file. -/
theorem queryAuditEvents_eq (h : Holds reader access events) {filter : AuditQueryFilter}
    (hlimit : 1 ≤ filter.limit) : queryAuditEvents reader access filter = .ok
      ⟨newestFirst filter.limit ((events.take maxAuditLogLines).filter (filter.selects reader)),
        (events.take maxAuditLogLines).length⟩ := by
  obtain ⟨cipher, lines, hread, hkey, hlines⟩ := Holds.readLines h
  have hlength : lines.length = (events.take maxAuditLogLines).length := by
    simpa using congrArg length hlines
  have hevents : lines.reverse.filterMap (decryptLine cipher reader.toEventReader) =
      (events.take maxAuditLogLines).reverse := by
    rw [filterMap_reverse, filterMap_of_map_some hlines]
  unfold queryAuditEvents
  rw [hread, hkey]
  dsimp only
  rw [if_neg (Nat.one_le_iff_ne_zero.1 hlimit), scanLines_eq, hevents, hlength, newestFirst_eq,
    filter_reverse, length_nil, Nat.sub_zero, nil_append]

theorem readRecentAuditEvents_eq (h : Holds reader access events) (hne : events ≠ []) {n : Nat}
    (hn : 1 ≤ n) :
    readRecentAuditEvents reader access n = .ok (newestFirst n (events.take maxAuditLogLines)) := by
  obtain ⟨cipher, lines, hread, hkey, hlines⟩ := Holds.readLines h
  have hevents : (lines.reverse.take n).filterMap (decryptLine cipher reader.toEventReader) =
      newestFirst n (events.take maxAuditLogLines) := by
    rw [newestFirst_eq]
    apply filterMap_of_map_some
    rw [map_take, map_reverse, hlines, ← map_reverse, ← map_take]
  have hsome : newestFirst n (events.take maxAuditLogLines) ≠ [] := by
    rw [newestFirst_eq]
    simp [hne, maxAuditLogLines, Nat.one_le_iff_ne_zero.1 hn]
  unfold readRecentAuditEvents
  rw [hread, hkey]
  dsimp only
  rw [hevents, if_neg hsome]

/-- **When the newest events are found.** For a log whose lines all decrypt, the answers are the
newest events first, of the last lines that may be read, exactly if the first lines have the same
events as the last; so for every log that is not too long. -/
theorem newest_events_iff (reader : QueryReader ε) (access : LogAccess) (events : List ε)
    (h : Holds reader access events) (hne : events ≠ []) :
    ((∀ filter : AuditQueryFilter, 1 ≤ filter.limit →
        (queryAuditEvents reader access filter).map (·.events) =
          .ok (newestFirst filter.limit
            ((events.rtake maxAuditLogLines).filter (filter.selects reader)))) ∧
      ∀ n, 1 ≤ n → readRecentAuditEvents reader access n =
        .ok (newestFirst (min n maxAuditLogLines) events)) ↔
    events.take maxAuditLogLines = events.rtake maxAuditLogLines := by
  constructor
  · rintro ⟨-, hrecent⟩
    have hall := hrecent maxAuditLogLines (by decide)
    rw [readRecentAuditEvents_eq h hne (by decide)] at hall
    have hall := Except.ok.inj hall
    rw [newestFirst_eq, take_of_length_le (by simp)] at hall
    exact reverse_inj.1 hall
  · intro hsame
    refine ⟨fun filter hlimit => ?_, fun n hn => ?_⟩
    · rw [queryAuditEvents_eq h hlimit, hsame]
      rfl
    · rw [readRecentAuditEvents_eq h hne hn, hsame, newestFirst_eq, newestFirst_eq,
        rtake_eq_reverse_take_reverse, reverse_reverse, take_take]

/-- A log that is not too long is read from its first line to its last. -/
theorem take_eq_rtake (hlength : events.length ≤ maxAuditLogLines) :
    events.take maxAuditLogLines = events.rtake maxAuditLogLines := by
  rw [take_of_length_le hlength, rtake, Nat.sub_eq_zero_of_le hlength, drop_zero]

end

/-- A reader for examples: an event is its bytes. -/
def bytesReader : QueryReader (List UInt8) where
  fromSlice := some
  loggedAt _ := none
  parseFromRfc3339 _ := none
  agentId _ := none
  decision _ := none
  statusEmpty := []

/-- The line of an event of one byte. -/
def byteLine (b : UInt8) : String := Base64.encode (replicate 24 0 ++ [b])

/-- A log of such lines. -/
def bytesLog (bytes : List UInt8) : LogAccess :=
  ⟨.ok ((bytes.map byteLine).map .ok), .ok AuditLog.plainCipher⟩

theorem holds_bytesLog (bytes : List UInt8) :
    Holds bytesReader (bytesLog bytes) (bytes.map fun b => [b]) := by
  refine ⟨AuditLog.plainCipher, bytes.map byteLine, rfl, rfl, ?_⟩
  simp [decryptLine, plaintextOf, byteLine, AuditLog.plainCipher, bytesReader]

/-- Of two events the second one is the newest. -/
theorem newest_of_two : readRecentAuditEvents bytesReader (bytesLog [1, 2]) 1 = .ok [[2]] :=
  ((newest_events_iff bytesReader _ _ (holds_bytesLog [1, 2]) (by simp)).2
    (take_eq_rtake (by decide))).2 1 (by decide)

theorem newestFirst_replicate {ε : Type} (event : ε) :
    newestFirst 1 (replicate maxAuditLogLines event) = [event] := by
  rw [newestFirst_eq, reverse_replicate]
  rfl

/-- The event that is appended to a log of 500000 is not found. -/
theorem newest_event_not_found :
    let bytes : List UInt8 := replicate maxAuditLogLines 1 ++ [2]
    readRecentAuditEvents bytesReader (bytesLog bytes) 1 = .ok [[1]] ∧
      (queryAuditEvents bytesReader (bytesLog bytes) ⟨none, none, none, none, 1⟩).map (·.events) =
        .ok [[1]] ∧
      newestFirst 1 (bytes.map fun b => [b]) = [[2]] := by
  intro bytes
  have hholds := holds_bytesLog bytes
  have hfirst : (bytes.map fun b => [b]).take maxAuditLogLines =
      replicate maxAuditLogLines [1] := by
    rw [map_append, map_replicate, take_left' length_replicate]
  have hne : (bytes.map fun b => [b]) ≠ [] := by simp [bytes]
  refine ⟨?_, ?_, ?_⟩
  · rw [readRecentAuditEvents_eq hholds hne (Nat.le_refl 1), hfirst, newestFirst_replicate]
  · have hselects :
        AuditQueryFilter.selects bytesReader ⟨none, none, none, none, 1⟩ [1] = true := rfl
    rw [queryAuditEvents_eq hholds (Nat.le_refl 1), hfirst, filter_replicate, if_pos hselects,
      Except.map, newestFirst_replicate]
  · rw [newestFirst_eq, map_append, reverse_append]
    rfl

end Haltchain.Api
