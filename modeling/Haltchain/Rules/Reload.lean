import Haltchain.Lib.Run
import Haltchain.Rules.Watcher
import Haltchain.Signing.Ed25519

/-! # Loading a signed policy

`watcher.rs`: `verify_rules_signature` reads the rules file and the signature beside it, and
`PolicyFile::from_file` then reads the rules file again. Other processes may replace both in
between: `disk k` is what the `k`-th operation finds.

Ed25519 and the YAML reader are parameters. How the key is found is not looked at. -/

namespace Haltchain.Rules

open Lib Signing List Option

/-- A file as an operation finds it. -/
inductive File where
  | missing
  | unreadable
  | bytes (b : List UInt8)
deriving DecidableEq

/-- The rules file and its signature file. -/
structure Disk where
  rules : File
  signature : File

structure ReloadConfig (κ π : Type) where
  scheme : Ed25519 κ
  /-- The admin key, if one is configured. -/
  pubkey : Option κ
  /-- `HALTCHAIN_STRICT_SIGNATURES` is set. -/
  strict : Bool
  /-- `PolicyFile::from_yaml` over the text of the bytes. -/
  fromYaml : List UInt8 → Option PolicyFile
  path : π
  /-- `Path::file_name`. -/
  fileName : π → Option String

/-- The outcome of the check. -/
inductive Verdict where
  | failed
  /-- Let through without a signature. -/
  | unsigned
  /-- The admin key's signature over these bytes is good. -/
  | verified (rules : List UInt8)
deriving DecidableEq

variable {κ π : Type}

/-- The verdict, and the number of file operations made for it. -/
def verifyRulesSignature (cfg : ReloadConfig κ π) (pubkey : κ) (disk : Nat → Disk) (op : Nat) :
    Verdict × Nat :=
  match (disk op).rules with
  | .bytes rules =>
    if (disk (op + 1)).signature = .missing then
      (if cfg.strict then .failed else .unsigned, 2)
    else
      match (disk (op + 2)).signature with
      | .bytes sigBytes =>
        match Signature.fromSlice sigBytes with
        | none => (.failed, 3)
        | some signature =>
          (if cfg.scheme.verify pubkey rules signature then .verified rules else .failed, 3)
      | _ => (.failed, 3)
  | _ => (.failed, 1)

/-- The policy in the file. -/
def fromFile (cfg : ReloadConfig κ π) (disk : Nat → Disk) (op : Nat) : Option PolicyFile :=
  match (disk op).rules with
  | .bytes text => cfg.fromYaml text
  | _ => none

/-- One try to load: what the check said, what was loaded, and the number of file operations. -/
structure Try where
  verdict : Verdict
  parsed : Option PolicyFile
  ops : Nat

def Try.attempt (t : Try) : Attempt := ⟨t.verdict ≠ .failed, t.parsed⟩

/-- The bytes whose signature was verified. -/
def Try.verified (t : Try) : Option (List UInt8) :=
  match t.verdict with
  | .verified rules => some rules
  | _ => none

/-- Check the signature, if there is a key, and load if it passes. -/
def tryLoad (cfg : ReloadConfig κ π) (disk : Nat → Disk) (op : Nat) : Try :=
  let (verdict, ops) :=
    match cfg.pubkey with
    | some pubkey => verifyRulesSignature cfg pubkey disk op
    | none => (.unsigned, 0)
  match verdict with
  | .failed => ⟨.failed, none, ops⟩
  | verdict => ⟨verdict, fromFile cfg disk (op + ops), ops + 1⟩

/-- Where the tries after a change begin: a file that passes and does not parse is tried again, up
to so many times. -/
def tryStarts (cfg : ReloadConfig κ π) (disk : Nat → Disk) : Nat → Nat → List Nat
  | 0, _ => []
  | n + 1, op =>
    let t := tryLoad cfg disk op
    op :: if t.verdict ≠ .failed ∧ t.parsed = none then tryStarts cfg disk n (op + t.ops) else []

def tries (cfg : ReloadConfig κ π) (disk : Nat → Disk) (op : Nat) : List Try :=
  (tryStarts cfg disk reloadAttempts op).map (tryLoad cfg disk)

/-! ## The watcher -/

/-- `notify::EventKind`. -/
inductive EventKind where
  | any | access | create | modify | remove | other
deriving DecidableEq

/-- What the watcher thread receives. -/
inductive Message (π : Type) where
  | event (kind : EventKind) (paths : List π)
  | error

/-- The message is about a write to the watched file; one without paths may be. -/
def affectsTarget [DecidableEq π] (cfg : ReloadConfig κ π) : Message π → Bool
  | .error => false
  | .event kind paths =>
    (kind = .modify ∨ kind = .create) ∧
      (paths = [] ∨ ∃ p ∈ paths, p = cfg.path ∨
        ((cfg.fileName cfg.path).isSome ∧ cfg.fileName p = cfg.fileName cfg.path))

/-- The handle, the file operations so far, and two records: the bytes that passed, and the policies
handed out or stored. -/
structure WatcherState where
  handle : PolicyHandle
  ops : Nat
  verified : List (List UInt8)
  held : List PolicyFile
deriving DecidableEq

/-- The first load. -/
def watchPolicy (cfg : ReloadConfig κ π) (disk : Nat → Disk) : Option WatcherState :=
  let t := tryLoad cfg disk 0
  if t.verdict = .failed then none
  else t.parsed.map fun initial => ⟨.new initial, t.ops, t.verified.toList, [initial]⟩

/-- What the watcher does with a message. -/
def onMessage [DecidableEq π] (cfg : ReloadConfig κ π) (disk : Nat → Disk) (w : WatcherState)
    (msg : Message π) : WatcherState :=
  if affectsTarget cfg msg then
    let ts := tries cfg disk w.ops
    { handle := w.handle.onChange (ts.map (·.attempt))
      ops := w.ops + (ts.map (·.ops)).sum
      verified := w.verified ++ ts.filterMap (·.verified)
      held := w.held ++ (reload ((ts.map (·.attempt)).take reloadAttempts)).toList }
  else w

/-! ## What is held was verified -/

/-- The rules file is not replaced between a passed check and its load. -/
def Undisturbed (cfg : ReloadConfig κ π) (disk : Nat → Disk) (op : Nat) : Prop :=
  (tryLoad cfg disk op).verdict ≠ .failed → (disk (op + 3)).rules = (disk op).rules
deriving Decidable

/-- None of the tries that the message leads to is disturbed. -/
def Quiet [DecidableEq π] (cfg : ReloadConfig κ π) (disk : Nat → Disk) (w : WatcherState)
    (msg : Message π) : Prop :=
  affectsTarget cfg msg = true →
    ∀ op ∈ tryStarts cfg disk reloadAttempts w.ops, Undisturbed cfg disk op
deriving Decidable

section

variable {cfg : ReloadConfig κ π} {disk : Nat → Disk} {pubkey : κ}

/-- The admin key's signature over the bytes was found beside them. -/
def SignedOnDisk (cfg : ReloadConfig κ π) (pubkey : κ) (disk : Nat → Disk) (b : List UInt8) :
    Prop :=
  ∃ op signature, (disk op).rules = .bytes b ∧
    (disk (op + 2)).signature = .bytes signature.bytes ∧
    cfg.scheme.verify pubkey b signature = true

theorem fromSlice_bytes {raw : List UInt8} {signature : Signature}
    (h : Signature.fromSlice raw = some signature) : signature.bytes = raw := by
  unfold Signature.fromSlice at h
  split at h
  · rw [← some.inj h]
  · cases h

/-- With strict signatures a check that passes verified the bytes it read. -/
theorem verifyRulesSignature_ok (hstrict : cfg.strict = true) {op : Nat}
    (h : (verifyRulesSignature cfg pubkey disk op).1 ≠ .failed) :
    ∃ rules, (disk op).rules = .bytes rules ∧ SignedOnDisk cfg pubkey disk rules ∧
      verifyRulesSignature cfg pubkey disk op = (.verified rules, 3) := by
  unfold verifyRulesSignature at h ⊢
  cases hrules : (disk op).rules with
  | missing | unreadable => simp [hrules] at h
  | bytes rules =>
    simp only [hrules] at h ⊢
    by_cases hexists : (disk (op + 1)).signature = .missing
    · simp [hexists, hstrict] at h
    rw [if_neg hexists] at h ⊢
    cases hsig : (disk (op + 2)).signature with
    | missing | unreadable => simp [hsig] at h
    | bytes raw =>
      simp only [hsig] at h ⊢
      cases hslice : Signature.fromSlice raw with
      | none => simp [hslice] at h
      | some signature =>
        simp only [hslice] at h ⊢
        by_cases hverify : cfg.scheme.verify pubkey rules signature = true
        · refine ⟨rules, rfl, ⟨op, signature, hrules, ?_, hverify⟩, by rw [if_pos hverify]⟩
          rw [hsig, fromSlice_bytes hslice]
        · simp [hverify] at h

section

variable (hkey : cfg.pubkey = some pubkey) (hstrict : cfg.strict = true) {op : Nat}

include hkey hstrict

theorem tryLoad_ok (h : (tryLoad cfg disk op).verdict ≠ .failed) :
    ∃ rules, (disk op).rules = .bytes rules ∧ SignedOnDisk cfg pubkey disk rules ∧
      tryLoad cfg disk op = ⟨.verified rules, fromFile cfg disk (op + 3), 4⟩ := by
  unfold tryLoad at h ⊢
  simp only [hkey] at h ⊢
  have hok : (verifyRulesSignature cfg pubkey disk op).1 ≠ .failed := by
    intro hfailed
    simp [hfailed] at h
  obtain ⟨rules, hrules, hsigned, heq⟩ := verifyRulesSignature_ok hstrict hok
  exact ⟨rules, hrules, hsigned, by rw [heq]⟩

/-- An undisturbed try loads what it has verified. -/
theorem Undisturbed.loads (h : Undisturbed cfg disk op) {pf : PolicyFile}
    (hok : (tryLoad cfg disk op).verdict ≠ .failed)
    (hparsed : (tryLoad cfg disk op).parsed = some pf) :
    ∃ b, (tryLoad cfg disk op).verified = some b ∧ cfg.fromYaml b = some pf := by
  have hsame := h hok
  obtain ⟨rules, hrules, -, heq⟩ := tryLoad_ok hkey hstrict hok
  rw [heq] at hparsed ⊢
  refine ⟨rules, rfl, ?_⟩
  simpa only [fromFile, hsame, hrules] using hparsed

theorem signed_of_verified {b : List UInt8} (h : (tryLoad cfg disk op).verified = some b) :
    SignedOnDisk cfg pubkey disk b := by
  have hok : (tryLoad cfg disk op).verdict ≠ .failed := by
    intro hfailed
    simp [Try.verified, hfailed] at h
  obtain ⟨rules, -, hsigned, heq⟩ := tryLoad_ok hkey hstrict hok
  rw [heq] at h
  obtain rfl : rules = b := by simpa [Try.verified] using h
  exact hsigned

end

theorem mem_of_reload {ts : List Attempt} {pf : PolicyFile} (h : reload ts = some pf) :
    ∃ t ∈ ts, t.signatureOk = true ∧ t.parsed = some pf := by
  induction ts with
  | nil => cases h
  | cons t ts ih =>
    unfold reload at h
    split at h
    · next hok =>
      rcases or_eq_some_iff.1 h with hp | ⟨-, hrest⟩
      · exact ⟨t, mem_cons_self, hok, hp⟩
      · obtain ⟨t', ht', hfound⟩ := ih hrest
        exact ⟨t', mem_cons_of_mem _ ht', hfound⟩
    · cases h

/-- Every policy handed out or stored was parsed from bytes that passed; the handle has one. -/
structure Genuine (cfg : ReloadConfig κ π) (pubkey : κ) (disk : Nat → Disk) (w : WatcherState) :
    Prop where
  current : w.handle.policy ∈ w.held
  parsed : ∀ pf ∈ w.held, ∃ b ∈ w.verified, cfg.fromYaml b = some pf
  signed : ∀ b ∈ w.verified, SignedOnDisk cfg pubkey disk b

theorem genuine_watchPolicy (hkey : cfg.pubkey = some pubkey) (hstrict : cfg.strict = true)
    (hquiet : Undisturbed cfg disk 0) {w : WatcherState} (h : watchPolicy cfg disk = some w) :
    Genuine cfg pubkey disk w := by
  unfold watchPolicy at h
  by_cases hok : (tryLoad cfg disk 0).verdict = .failed
  · rw [if_pos hok] at h
    cases h
  rw [if_neg hok] at h
  obtain ⟨pf, hparsed, rfl⟩ := map_eq_some_iff.1 h
  obtain ⟨b, hb, hyaml⟩ := hquiet.loads hkey hstrict hok hparsed
  refine ⟨mem_singleton_self _, fun pf' hpf => ?_, fun b' hb' => ?_⟩
  · obtain rfl := mem_singleton.1 hpf
    exact ⟨b, by simp [hb], hyaml⟩
  · exact signed_of_verified hkey hstrict (mem_toList.1 hb')

section

variable [DecidableEq π] (hkey : cfg.pubkey = some pubkey) (hstrict : cfg.strict = true)
  {w : WatcherState}

include hkey hstrict

/-- What a change stores was parsed from bytes that a try has verified. -/
theorem Quiet.stored {msg : Message π} (hquiet : Quiet cfg disk w msg)
    (haffects : affectsTarget cfg msg = true) {pf : PolicyFile}
    (hpf : reload (((tries cfg disk w.ops).map (·.attempt)).take reloadAttempts) = some pf) :
    ∃ b ∈ (tries cfg disk w.ops).filterMap (·.verified), cfg.fromYaml b = some pf := by
  obtain ⟨a, ha, hok, hparsed⟩ := mem_of_reload hpf
  obtain ⟨t, ht, rfl⟩ := mem_map.1 (mem_of_mem_take ha)
  obtain ⟨op, hop, rfl⟩ := mem_map.1 ht
  obtain ⟨b, hb, hyaml⟩ :=
    (hquiet haffects op hop).loads hkey hstrict (by simpa [Try.attempt] using hok) hparsed
  exact ⟨b, mem_filterMap.2 ⟨_, ht, hb⟩, hyaml⟩

theorem Genuine.onMessage (h : Genuine cfg pubkey disk w) {msg : Message π}
    (hquiet : Quiet cfg disk w msg) : Genuine cfg pubkey disk (onMessage cfg disk w msg) := by
  unfold Rules.onMessage
  split
  · next haffects =>
    refine ⟨?_, fun pf hpf => ?_, fun b hb => ?_⟩
    · show (w.handle.onChange _).policy ∈ w.held ++ _
      unfold PolicyHandle.onChange
      cases reload (((tries cfg disk w.ops).map (·.attempt)).take reloadAttempts) with
      | none => exact mem_append_left _ h.current
      | some pf => exact mem_append_right _ (mem_singleton_self _)
    · rcases mem_append.1 hpf with hold | hnew
      · obtain ⟨b, hb, hyaml⟩ := h.parsed pf hold
        exact ⟨b, mem_append_left _ hb, hyaml⟩
      · obtain ⟨b, hb, hyaml⟩ :=
          hquiet.stored hkey hstrict haffects (mem_toList.1 hnew)
        exact ⟨b, mem_append_right _ hb, hyaml⟩
    · rcases mem_append.1 hb with hold | hnew
      · exact h.signed b hold
      · obtain ⟨t, ht, hv⟩ := mem_filterMap.1 hnew
        obtain ⟨op, -, rfl⟩ := mem_map.1 ht
        exact signed_of_verified hkey hstrict hv
  · exact h

end

end

/-- **Only verified policies**, with an admin key and strict signatures, as long as nobody
replaces the rules file between the check of a try and its load: whatever messages the watcher
gets, every policy it holds or has held was parsed from bytes that had passed the check against
the admin key. -/
theorem held_policies_verified [DecidableEq π] (cfg : ReloadConfig κ π) (disk : Nat → Disk)
    {pubkey : κ} (hkey : cfg.pubkey = some pubkey) (hstrict : cfg.strict = true)
    {w : WatcherState} (hstart : watchPolicy cfg disk = some w) (hfirst : Undisturbed cfg disk 0)
    (msgs : List (Message π)) (hquiet : Throughout (onMessage cfg disk) (Quiet cfg disk) w msgs) :
    let w' := run (onMessage cfg disk) w msgs
    w'.handle.policy ∈ w'.held ∧
      ∀ pf ∈ w'.held, ∃ b ∈ w'.verified, SignedOnDisk cfg pubkey disk b ∧
        cfg.fromYaml b = some pf := by
  intro w'
  have hgenuine : Genuine cfg pubkey disk w' :=
    hquiet.invariant (genuine_watchPolicy hkey hstrict hfirst hstart)
      fun _ _ h hq => h.onMessage hkey hstrict hq
  refine ⟨hgenuine.current, fun pf hpf => ?_⟩
  obtain ⟨b, hb, hyaml⟩ := hgenuine.parsed pf hpf
  exact ⟨b, hb, hgenuine.signed b hb, hyaml⟩

/-! ### Two rules files, one of them signed -/

/-- A policy without rules, under the given version. -/
def emptyPolicy (version : String) : PolicyFile := ⟨version, [], none, .enforce⟩

/-- Strict signatures, with an admin key that has signed the byte 1 only. -/
def oneSigned : ReloadConfig Unit String where
  scheme := ⟨fun _ => none, fun _ rules _ => rules = [1]⟩
  pubkey := some ()
  strict := true
  fromYaml := fun text => some (emptyPolicy (if text = [1] then "signed" else "unsigned"))
  path := "rules.yaml"
  fileName := some

/-- A signed file. -/
def signedDisk : Disk := ⟨.bytes [1], .bytes Signature.zeros.bytes⟩

/-- The signature file stays and the rules file is another one. -/
def swappedDisk : Disk := ⟨.bytes [2], .bytes Signature.zeros.bytes⟩

/-- The signed file is put back before the file is checked again. -/
theorem unread_swap_harmless :
    let disk : Nat → Disk := fun op => if op = 1 then swappedDisk else signedDisk
    let w := run (onMessage oneSigned disk)
      ⟨.new (emptyPolicy "signed"), 4, [[1]], [emptyPolicy "signed"]⟩
      [.event .modify ["rules.yaml"]]
    w.handle.policy ∈ w.held ∧ ∀ pf ∈ w.held, ∃ b ∈ w.verified,
      SignedOnDisk oneSigned () disk b ∧ oneSigned.fromYaml b = some pf :=
  held_policies_verified oneSigned _ rfl rfl (by decide) (by decide) _ (by decide)

/-- The rules file is replaced between check and load, at the start and, in the second case, at a
reload: the policy held was parsed from bytes that no signature was verified for. -/
theorem swapped_after_check :
    (watchPolicy oneSigned fun op => if op < 3 then signedDisk else swappedDisk).map
        (fun w => (w.verified, w.handle.policy)) = some ([[1]], emptyPolicy "unsigned") ∧
      (watchPolicy oneSigned fun op => if op < 7 then signedDisk else swappedDisk).map
        (fun w => (w.verified, w.handle.policy)) = some ([[1]], emptyPolicy "signed") ∧
      (let w := onMessage oneSigned (fun op => if op < 7 then signedDisk else swappedDisk)
        ⟨.new (emptyPolicy "signed"), 4, [[1]], [emptyPolicy "signed"]⟩
        (.event .modify ["rules.yaml"])
      w.verified = [[1], [1]] ∧ w.handle.policy = emptyPolicy "unsigned" ∧
        ¬ ∃ b ∈ w.verified, oneSigned.fromYaml b = some w.handle.policy) := by
  decide

end Haltchain.Rules
