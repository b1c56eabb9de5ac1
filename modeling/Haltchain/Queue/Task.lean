import Mathlib.Order.Lattice

/-! # Tasks for the deep scan

`DeepScanTask` of `crates/queue/src/lib.rs`. A task has a priority, may expire, and is put back if
its scan fails, for as long as it has attempts left. These are counted in eight bits, up to 255.

Random ids and the time, in nanoseconds, come with the call. -/

namespace Haltchain.Queue

/-- The priority of a task. -/
inductive QueuePriority where
  | high
  | normal
  | low
deriving DecidableEq

namespace QueuePriority

/-- The order in which the levels are served. -/
def rank : QueuePriority → Nat
  | .high => 0
  | .normal => 1
  | .low => 2

theorem rank_injective : Function.Injective rank := by
  intro p q h
  cases p <;> cases q <;> first | rfl | cases h

instance : LinearOrder QueuePriority := LinearOrder.lift' rank rank_injective

/-- In order. -/
def all : List QueuePriority := [.high, .normal, .low]

theorem mem_all (p : QueuePriority) : p ∈ all := by
  cases p <;> decide

theorem pairwise_all : all.Pairwise (· < ·) := by
  decide

end QueuePriority

/-- One value for each priority. -/
structure Levels (α : Type) where
  high : α
  normal : α
  low : α

namespace Levels

variable {α : Type}

/-- The value of a level. -/
def get (l : Levels α) : QueuePriority → α
  | .high => l.high
  | .normal => l.normal
  | .low => l.low

def set (l : Levels α) (p : QueuePriority) (a : α) : Levels α :=
  match p with
  | .high => { l with high := a }
  | .normal => { l with normal := a }
  | .low => { l with low := a }

@[simp] theorem get_set (l : Levels α) (p q : QueuePriority) (a : α) :
    (l.set p a).get q = if q = p then a else l.get q := by
  cases p <;> cases q <;> rfl

end Levels

/-- A task for the deep scan. -/
structure DeepScanTask where
  taskId : String
  agentId : String
  sessionId : String
  reasoningTrace : String
  callbackUrl : Option String
  enqueuedAt : Int
  priority : QueuePriority
  attempts : UInt8
  maxAttempts : UInt8
  expiresAt : Option Int
deriving DecidableEq

def defaultMaxAttempts : UInt8 := 3

/-- `u8::saturating_add`. -/
def saturatingAdd (a b : UInt8) : UInt8 := if a.toNat + b.toNat < 256 then a + b else 255

theorem toNat_saturatingAdd_one (a : UInt8) :
    (saturatingAdd a 1).toNat = min (a.toNat + 1) 255 := by
  unfold saturatingAdd
  split
  · next h =>
    rw [UInt8.toNat_add]
    simp only [UInt8.toNat_one] at h ⊢
    omega
  · next h =>
    simp only [UInt8.toNat_one] at h
    rw [min_eq_right (by omega)]
    rfl

namespace DeepScanTask

/-- A new task. -/
def new (taskId : String) (now : Int) (agentId sessionId reasoningTrace : String)
    (callbackUrl : Option String) : DeepScanTask where
  taskId
  agentId
  sessionId
  reasoningTrace
  callbackUrl
  enqueuedAt := now
  priority := .normal
  attempts := 0
  maxAttempts := defaultMaxAttempts
  expiresAt := none

def withControls (task : DeepScanTask) (priority : QueuePriority) (maxAttempts : UInt8)
    (ttlSeconds : Option Int) (now : Int) : DeepScanTask :=
  { task with
    priority
    maxAttempts := max maxAttempts 1
    expiresAt := ttlSeconds.map fun s => now + s * 1000000000 }

def isExpired (task : DeepScanTask) (now : Int) : Bool :=
  (task.expiresAt.map fun expiresAt => decide (expiresAt < now)).getD false

/-- What `retry_or_dead_letter` decides: the task with one more attempt, or none if it had all. -/
def retry (task : DeepScanTask) : Option DeepScanTask :=
  if task.maxAttempts < saturatingAdd task.attempts 1 then none
  else some { task with attempts := saturatingAdd task.attempts 1 }

variable {task task' : DeepScanTask}

theorem isExpired_mono {now now' : Int} (h : task.isExpired now = true) (hle : now ≤ now') :
    task.isExpired now' = true := by
  unfold isExpired at *
  cases hexpires : task.expiresAt with
  | none => simp [hexpires] at h
  | some e =>
    simp only [hexpires, Option.map_some, Option.getD_some, decide_eq_true_eq] at h ⊢
    omega

theorem retry_eq_none_iff :
    task.retry = none ↔ task.maxAttempts.toNat < min (task.attempts.toNat + 1) 255 := by
  rw [← toNat_saturatingAdd_one, ← UInt8.lt_iff_toNat_lt, retry]
  split
  · next h => simp [h]
  · next h => simp [h]

theorem of_retry (h : task.retry = some task') :
    task' = { task with attempts := saturatingAdd task.attempts 1 } := by
  unfold retry at h
  split at h
  · cases h
  · exact (Option.some.inj h).symm

end DeepScanTask

/-- The task has this id. -/
def named (id : String) (task : DeepScanTask) : Bool := task.taskId = id

/-- A task that is built at time 0. -/
def taskFor (id : String) (priority : QueuePriority) (maxAttempts : UInt8)
    (ttlSeconds : Option Int) : DeepScanTask :=
  (DeepScanTask.new id 0 "agent" "session" "trace" none).withControls priority maxAttempts
    ttlSeconds 0

/-- A task that was given up. -/
structure DeadLetterTask where
  task : DeepScanTask
  failedAt : Int
  reason : String

/-- The errors of a queue. -/
inductive QueueError where
  | queueClosed
deriving DecidableEq

/-- Of a task that has expired when it is taken. -/
def expiredReason : String := "task expired before processing"

end Haltchain.Queue
