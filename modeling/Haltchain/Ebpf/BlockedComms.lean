import Haltchain.Lib.Assoc
import Haltchain.Signing.Ed25519

/-! # The blocked process names

`block_comm` of the ebpf crate writes the name of a process into a map with keys of 16 bytes, in
which the probes look up the name the kernel gives them. The kernel keeps 15 bytes of a name. -/

namespace Haltchain.Ebpf

open Signing (bytesOf)

/-- `[u8; 16]`. -/
abbrev Comm := Vector UInt8 16

/-- A buffer of zeros into which the bytes have been copied. -/
def Comm.copy (bytes : List UInt8) : Comm := .ofFn fun i => bytes.getD i 0

/-- What `bpf_get_current_comm` gives for a process of that name. -/
def kernelComm (name : List UInt8) : Comm := .copy (name.take 15)

/-- The key that `block_comm` builds. -/
def blockKey (comm : List UInt8) : Comm := .copy (comm.take (min comm.length 16))

/-- The map of blocked names. -/
abbrev BlockedComms := AList fun _ : Comm => UInt8

/-- The size of the map. -/
def maxEntries : Nat := 256

/-- The `insert` of a map in the kernel: a new key needs room. -/
def BlockedComms.insertEntry (blocked : BlockedComms) (key : Comm) (value : UInt8) :
    Option BlockedComms :=
  if key ∈ blocked ∨ blocked.keys.length < maxEntries then some (blocked.insert key value) else none

/-- `check_policy`: whether the probes allow a call of the process. -/
def checkPolicy (blocked : BlockedComms) (comm : Comm) : Bool := (blocked.lookup comm).isNone

/-! ## The probe manager -/

/-- The errors of the probes. -/
inductive ProbeError where
  | kernelFeatureDisabled
  | load (text : String)
  | enforcementDisabled
deriving DecidableEq

/-- An event for the monitor. -/
structure ProbeEvent where
  syscall : String
  pid : Nat
  comm : String
  decision : List UInt8
  tsNs : Nat

/-- What `block_comm` uses of it. The map is there once the probes have been loaded. -/
structure ProbeManager where
  enforceDeny : Bool
  bpf : Option BlockedComms
  eventQueue : List ProbeEvent

/-- The errors of aya, if any; the last one says that the map is full. -/
structure Aya where
  map : Option String
  cast : Option String
  insert : Option String
  full : String

namespace ProbeManager

def pushEvent (m : ProbeManager) (now : Nat) (syscall : String) (decision : List UInt8) :
    ProbeManager :=
  { m with eventQueue := m.eventQueue ++ [⟨syscall, 0, "probe_manager", decision, now⟩] }

/-- `kernel`: the build has that feature and is for Linux. -/
def blockComm (kernel : Bool) (aya : Aya) (now : Nat) (m : ProbeManager) (comm : List UInt8) :
    Except ProbeError Unit × ProbeManager :=
  if m.enforceDeny = false then
    (.error .enforcementDisabled,
      m.pushEvent now "probe_manager" (bytesOf "BLOCK_COMM_REFUSED:" ++ comm))
  else if kernel = false then (.error .kernelFeatureDisabled, m)
  else
    match m.bpf, aya.map, aya.cast, aya.insert with
    | none, _, _, _ => (.error (.load "probe not loaded"), m)
    | some _, some e, _, _ => (.error (.load ("blocked_comms map: " ++ e)), m)
    | some _, none, some e, _ => (.error (.load ("blocked_comms cast: " ++ e)), m)
    | some _, none, none, some e => (.error (.load ("map insert: " ++ e)), m)
    | some blocked, none, none, none =>
      match blocked.insertEntry (blockKey comm) 1 with
      | none => (.error (.load ("map insert: " ++ aya.full)), m)
      | some blocked =>
        (.ok (), { m with bpf := some blocked }.pushEvent now "probe_manager"
          (bytesOf "BLOCK_COMM:" ++ comm))

/-- The probes find an entry for the processes of that name. -/
def Finds (m : ProbeManager) (name : List UInt8) : Prop :=
  ∃ blocked ∈ m.bpf, checkPolicy blocked (kernelComm name) = false

instance (m : ProbeManager) (name : List UInt8) : Decidable (m.Finds name) :=
  match h : m.bpf with
  | none => isFalse (by simp [Finds, h])
  | some blocked =>
    decidable_of_iff (checkPolicy blocked (kernelComm name) = false) (by simp [Finds, h])

variable {kernel : Bool} {aya : Aya} {now : Nat} {m m' : ProbeManager} {name : List UInt8}

/-- On success the key is in the map that was there, and nothing else is new. -/
theorem of_blockComm (h : m.blockComm kernel aya now name = (.ok (), m')) :
    ∃ blocked, m.bpf = some blocked ∧ m'.bpf = some (blocked.insert (blockKey name) 1) := by
  unfold blockComm BlockedComms.insertEntry at h
  split_ifs at h with henforce hkernel
  · cases h
  · cases h
  · cases hbpf : m.bpf with
    | none => simp [hbpf] at h
    | some blocked =>
      refine ⟨blocked, rfl, ?_⟩
      rw [hbpf] at h
      split at h
      · cases h
      · cases h
      · cases h
      · cases h
      · next hblocked _ _ _ =>
        cases hblocked
        split_ifs at h with hroom
        · obtain ⟨-, rfl⟩ := Prod.mk.inj h
          rfl
        · cases h

end ProbeManager

/-! ## Which keys the probes can find -/

variable {name other : List UInt8}

/-- A key is the kernel's name of a process only if it has at most 15 bytes. -/
theorem blockKey_eq_kernelComm_iff (hnul : 0 ∉ name) :
    blockKey name = kernelComm other ↔ name.length ≤ 15 ∧ kernelComm name = kernelComm other := by
  have hshort : name.length ≤ 15 → blockKey name = kernelComm name := by
    intro hle
    rw [blockKey, kernelComm, List.take_of_length_le hle, List.take_of_length_le (by omega)]
  constructor
  · intro heq
    have hle : name.length ≤ 15 := by
      by_contra hlong
      have hlt : 15 < name.length := by omega
      -- the last byte of the key is one of the name, and that of the kernel is zero
      have hlast : (blockKey name)[15] = (kernelComm other)[15] := by rw [heq]
      simp only [blockKey, kernelComm, Comm.copy, Vector.getElem_ofFn, List.getD_eq_getElem?_getD,
        List.getElem?_take, List.getElem?_eq_getElem hlt] at hlast
      rw [if_pos (by omega), if_neg (by omega), Option.getD_none] at hlast
      exact hnul (hlast ▸ List.getElem_mem hlt)
    exact ⟨hle, (hshort hle).symm.trans heq⟩
  · rintro ⟨hle, heq⟩
    exact (hshort hle).trans heq

/-- **When a blocked process is found.** After a successful `block_comm`, on any map, the probes
find the processes of that name exactly if it has at most 15 bytes or they found them before. For
other names in the kernel nothing changes. -/
theorem blocked_comm_found_iff (kernel : Bool) (aya : Aya) (now : Nat) (m m' : ProbeManager)
    (name : List UInt8) (hnul : 0 ∉ name) (h : m.blockComm kernel aya now name = (.ok (), m')) :
    (m'.Finds name ↔ name.length ≤ 15 ∨ m.Finds name) ∧
      ∀ other, kernelComm other ≠ kernelComm name → (m'.Finds other ↔ m.Finds other) := by
  obtain ⟨blocked, hm, hm'⟩ := ProbeManager.of_blockComm h
  have hfinds : ∀ other, m'.Finds other ↔
      name.length ≤ 15 ∧ kernelComm name = kernelComm other ∨ m.Finds other := by
    intro other
    rw [← blockKey_eq_kernelComm_iff hnul]
    simp only [ProbeManager.Finds, hm, hm', Option.mem_some_iff, exists_eq_left', checkPolicy,
      Lib.lookup_insert_eq]
    split
    · next heq => simp [heq]
    · next hne => simp [Ne.symm hne]
  refine ⟨by simp [hfinds], fun other hne => ?_⟩
  rw [hfinds]
  exact or_iff_right fun hsame => hne hsame.2.symm

/-- Enforcement is on, and nothing is blocked. -/
def armed : ProbeManager := ⟨true, some ∅, []⟩

/-- A short name, and another one. -/
theorem short_name_blocked :
    let m := (armed.blockComm true ⟨none, none, none, ""⟩ 0 (bytesOf "rogue_agent")).2
    m.Finds (bytesOf "rogue_agent") ∧ ¬ m.Finds (bytesOf "bash") := by
  have h := blocked_comm_found_iff true ⟨none, none, none, ""⟩ 0 armed _ (bytesOf "rogue_agent")
    (by decide) rfl
  refine ⟨h.1.2 (.inl (by decide)), fun hfinds => ?_⟩
  exact absurd ((h.2 (bytesOf "bash") (by decide)).1 hfinds) (by decide)

/-- A name of 16 bytes: the call succeeds, and the probes miss the process. -/
theorem long_name_not_found :
    let name := bytesOf "haltchain-worker"
    let r := armed.blockComm true ⟨none, none, none, ""⟩ 0 name
    0 ∉ name ∧ name.length = 16 ∧ r.1 = .ok () ∧ ¬ r.2.Finds name := by
  decide +kernel

end Haltchain.Ebpf
