import Haltchain.Lib.Assoc
import Haltchain.Lib.PriorityLine
import Haltchain.Lib.Run
import Haltchain.Queue.Task

/-! # The queue in memory

`TokioChannelQueue`: a bounded channel for each priority, with a counter of the tasks pending in it.
`enqueue` adds to the counter and then sends, for which it waits until there is room. The consumer
takes from the first channel with a task, subtracts from its counter, and goes on if this one has
expired.

Any number of calls of `enqueue` may be under way; the consumer is one. A step for which a call
would have to wait does nothing. A scan of the channels is one step. The counters are not bounded
here. -/

namespace Haltchain.Queue

open Lib

structure TokioChannelQueue where
  cap : Nat
  channels : Levels (List DeepScanTask)
  deadLetter : AList (fun _ : String => DeadLetterTask)
  pending : Levels Nat
  deadLetterCount : Nat
  retriedCount : Nat

namespace TokioChannelQueue

/-- Empty channels. -/
def new (buffer : Nat) : TokioChannelQueue where
  cap := max buffer 1
  channels := ⟨[], [], []⟩
  deadLetter := ∅
  pending := ⟨0, 0, 0⟩
  deadLetterCount := 0
  retriedCount := 0

def pendingCounter (q : TokioChannelQueue) (priority : QueuePriority) : Nat :=
  q.pending.get priority

/-- `fetch_add(1)` on a counter. -/
def incrementPending (q : TokioChannelQueue) (priority : QueuePriority) : TokioChannelQueue :=
  { q with pending := q.pending.set priority (q.pendingCounter priority + 1) }

/-- Counts a retry. -/
def incrementRetried (q : TokioChannelQueue) : TokioChannelQueue :=
  { q with retriedCount := q.retriedCount + 1 }

/-- Counts a task less. -/
def decrementPending (q : TokioChannelQueue) (priority : QueuePriority) : TokioChannelQueue :=
  { q with pending := q.pending.set priority (q.pendingCounter priority - 1) }

/-- Stores a dead letter. -/
def moveToDeadLetter (q : TokioChannelQueue) (task : DeepScanTask) (now : Int) (reason : String) :
    TokioChannelQueue :=
  { q with
    deadLetter := q.deadLetter.insert task.taskId ⟨task, now, reason⟩
    deadLetterCount := q.deadLetterCount + 1 }

/-- `send`, if there is room. -/
def send (q : TokioChannelQueue) (task : DeepScanTask) : Option TokioChannelQueue :=
  let channel := q.channels.get task.priority
  if channel.length < q.cap then
    some { q with channels := q.channels.set task.priority (channel ++ [task]) }
  else none

/-- The `select!` over the three receivers, tried in order. -/
def select (q : TokioChannelQueue) : Option (DeepScanTask × TokioChannelQueue) :=
  match q.channels.high, q.channels.normal, q.channels.low with
  | task :: rest, _, _ => some (task, { q with channels := q.channels.set .high rest })
  | [], task :: rest, _ => some (task, { q with channels := q.channels.set .normal rest })
  | [], [], task :: rest => some (task, { q with channels := q.channels.set .low rest })
  | [], [], [] => none

end TokioChannelQueue

/-- Where the consumer is. -/
inductive Consumer where
  | idle
  /-- At the head of the loop of `dequeue`. -/
  | dequeuing
  /-- A task has been received. -/
  | received (task : DeepScanTask)
  /-- And its counter been decremented. -/
  | decremented (task : DeepScanTask)
  /-- A task is to be sent again. -/
  | retrying (task : DeepScanTask)
deriving DecidableEq

/-- The queue, the calls of `enqueue` yet to send, the consumer and what it was given. -/
structure System where
  queue : TokioChannelQueue
  sending : List DeepScanTask
  consumer : Consumer
  handed : List DeepScanTask

inductive Event where
  /-- A call of `enqueue` begins. -/
  | enqueue (task : DeepScanTask)
  /-- The call at this position sends. -/
  | send (i : Nat)
  /-- The consumer calls `dequeue`. -/
  | dequeue
  | select
  | decrement
  | check (now : Int)
  /-- The consumer calls `retry_or_dead_letter` for the task at this position. -/
  | retryOrDeadLetter (i : Nat) (reason : String) (now : Int)
  /-- And the task is sent. -/
  | resend
deriving DecidableEq

/-- The id of the task with which a call of `enqueue` begins. -/
def Event.enqueued : Event → List String
  | .enqueue task => [task.taskId]
  | _ => []

namespace System

/-- Nothing is under way. -/
def new (buffer : Nat) : System := ⟨.new buffer, [], .idle, []⟩

/-- One step. -/
def exec (s : System) : Event → System
  | .enqueue task =>
    { s with
      queue := s.queue.incrementPending task.priority
      sending := s.sending ++ [task] }
  | .send i =>
    match s.sending[i]? with
    | some task =>
      match s.queue.send task with
      | some queue => { s with queue, sending := s.sending.eraseIdx i }
      | none => s
    | none => s
  | .dequeue =>
    match s.consumer with
    | .idle => { s with consumer := .dequeuing }
    | _ => s
  | .select =>
    match s.consumer with
    | .dequeuing =>
      match s.queue.select with
      | some (task, queue) => { s with queue, consumer := .received task }
      | none => s
    | _ => s
  | .decrement =>
    match s.consumer with
    | .received task =>
      { s with
        queue := s.queue.decrementPending task.priority
        consumer := .decremented task }
    | _ => s
  | .check now =>
    match s.consumer with
    | .decremented task =>
      if task.isExpired now then
        { s with
          queue := s.queue.moveToDeadLetter task now expiredReason
          consumer := .dequeuing }
      else { s with consumer := .idle, handed := s.handed ++ [task] }
    | _ => s
  | .retryOrDeadLetter i reason now =>
    match s.consumer, s.handed[i]? with
    | .idle, some task =>
      match task.retry with
      | none =>
        { s with
          queue := s.queue.moveToDeadLetter task now reason
          handed := s.handed.eraseIdx i }
      | some task =>
        { s with
          queue := s.queue.incrementRetried.incrementPending task.priority
          consumer := .retrying task
          handed := s.handed.eraseIdx i }
    | _, _ => s
  | .resend =>
    match s.consumer with
    | .retrying task =>
      match s.queue.send task with
      | some queue => { s with queue, consumer := .idle }
      | none => s
    | _ => s

/-- Who comes into a channel with a step, or leaves it. -/
def move (s : System) : Event → Option (Move DeepScanTask)
  | .send i => s.sending[i]?.bind fun task => (s.queue.send task).map fun _ => .arrive task
  | .select =>
    match s.consumer with
    | .dequeuing => s.queue.select.map fun r => .leave r.1
    | _ => none
  | .resend =>
    match s.consumer with
    | .retrying task => (s.queue.send task).map fun _ => .arrive task
    | _ => none
  | _ => none

/-- The task for which the consumer calls `retry_or_dead_letter`. -/
def called (s : System) : Event → Option DeepScanTask
  | .retryOrDeadLetter i _ _ =>
    match s.consumer with
    | .idle => s.handed[i]?
    | _ => none
  | _ => none

/-! ## What a step can do -/

inductive Step (s : System) : Event → Option (Move DeepScanTask) → System → Prop where
  | wait (e : Event) (h : e.enqueued = []) (hcalled : s.called e = none) : Step s e none s
  | enqueue (task : DeepScanTask) :
      Step s (.enqueue task) none
        { s with
          queue := s.queue.incrementPending task.priority
          sending := s.sending ++ [task] }
  | send {i : Nat} {task : DeepScanTask} {queue : TokioChannelQueue}
      (hi : s.sending[i]? = some task) (hsend : s.queue.send task = some queue) :
      Step s (.send i) (some (.arrive task)) { s with queue, sending := s.sending.eraseIdx i }
  | dequeue (h : s.consumer = .idle) : Step s .dequeue none { s with consumer := .dequeuing }
  | select {task : DeepScanTask} {queue : TokioChannelQueue} (h : s.consumer = .dequeuing)
      (hselect : s.queue.select = some (task, queue)) :
      Step s .select (some (.leave task)) { s with queue, consumer := .received task }
  | decrement {task : DeepScanTask} (h : s.consumer = .received task) :
      Step s .decrement none
        { s with
          queue := s.queue.decrementPending task.priority
          consumer := .decremented task }
  | expire {task : DeepScanTask} {now : Int} (h : s.consumer = .decremented task)
      (hexpired : task.isExpired now = true) :
      Step s (.check now) none
        { s with
          queue := s.queue.moveToDeadLetter task now expiredReason
          consumer := .dequeuing }
  | hand {task : DeepScanTask} {now : Int} (h : s.consumer = .decremented task)
      (hexpired : task.isExpired now = false) :
      Step s (.check now) none { s with consumer := .idle, handed := s.handed ++ [task] }
  | giveUp {i : Nat} {task : DeepScanTask} {reason : String} {now : Int} (h : s.consumer = .idle)
      (hi : s.handed[i]? = some task) (hretry : task.retry = none) :
      Step s (.retryOrDeadLetter i reason now) none
        { s with
          queue := s.queue.moveToDeadLetter task now reason
          handed := s.handed.eraseIdx i }
  | retry {i : Nat} {task task' : DeepScanTask} {reason : String} {now : Int}
      (h : s.consumer = .idle) (hi : s.handed[i]? = some task)
      (hretry : task.retry = some task') :
      Step s (.retryOrDeadLetter i reason now) none
        { s with
          queue := s.queue.incrementRetried.incrementPending task'.priority
          consumer := .retrying task'
          handed := s.handed.eraseIdx i }
  | resend {task : DeepScanTask} {queue : TokioChannelQueue} (h : s.consumer = .retrying task)
      (hsend : s.queue.send task = some queue) :
      Step s .resend (some (.arrive task)) { s with queue, consumer := .idle }

theorem step_exec (s : System) (e : Event) : Step s e (s.move e) (s.exec e) := by
  have hwait : e.enqueued = [] → s.called e = none → s.exec e = s → s.move e = none →
      Step s e (s.move e) (s.exec e) := by
    intro h hcalled hexec hmove
    rw [hexec, hmove]
    exact .wait e h hcalled
  cases e with
  | enqueue task => exact .enqueue task
  | send i =>
    cases hi : s.sending[i]? with
    | none => exact hwait rfl rfl (by simp only [exec, hi]) (by simp [move, hi])
    | some task =>
      cases hsend : s.queue.send task with
      | none =>
        exact hwait rfl rfl (by simp only [exec, hi, hsend]) (by simp [move, hi, hsend])
      | some queue =>
        simp only [exec, move, hi, hsend, Option.bind_some]
        exact .send hi hsend
  | dequeue =>
    cases h : s.consumer with
    | idle =>
      simp only [exec, h]
      exact .dequeue h
    | _ => exact hwait rfl rfl (by simp only [exec, h]) rfl
  | select =>
    cases h : s.consumer with
    | dequeuing =>
      cases hselect : s.queue.select with
      | none =>
        exact hwait rfl rfl (by simp only [exec, h, hselect]) (by simp [move, h, hselect])
      | some r =>
        simp only [exec, move, h, hselect]
        exact .select h hselect
    | _ => exact hwait rfl rfl (by simp only [exec, h]) (by simp only [move, h])
  | decrement =>
    cases h : s.consumer with
    | received task =>
      simp only [exec, h]
      exact .decrement h
    | _ => exact hwait rfl rfl (by simp only [exec, h]) rfl
  | check now =>
    cases h : s.consumer with
    | decremented task =>
      simp only [exec, h]
      split
      · next hexpired => exact .expire h hexpired
      · next hexpired => exact .hand h (Bool.not_eq_true _ ▸ hexpired)
    | _ => exact hwait rfl rfl (by simp only [exec, h]) rfl
  | retryOrDeadLetter i reason now =>
    cases h : s.consumer with
    | idle =>
      cases hi : s.handed[i]? with
      | none => exact hwait rfl (by simp only [called, h, hi]) (by simp only [exec, h, hi]) rfl
      | some task =>
        cases hretry : task.retry with
        | none =>
          simp only [exec, h, hi, hretry]
          rw [← h]
          exact .giveUp h hi hretry
        | some task' =>
          simp only [exec, h, hi, hretry]
          exact .retry h hi hretry
    | _ => exact hwait rfl (by simp only [called, h]) (by simp only [exec, h]) rfl
  | resend =>
    cases h : s.consumer with
    | retrying task =>
      cases hsend : s.queue.send task with
      | none => exact hwait rfl rfl (by simp only [exec, h, hsend]) (by simp [move, h, hsend])
      | some queue =>
        simp only [exec, move, h, hsend]
        exact .resend h hsend
    | _ => exact hwait rfl rfl (by simp only [exec, h]) (by simp only [move, h])

end System

/-! ## Sending and receiving -/

namespace TokioChannelQueue

variable {q q' : TokioChannelQueue} {task : DeepScanTask}

theorem channels_incrementPending (q : TokioChannelQueue) (p : QueuePriority) :
    (q.incrementPending p).channels = q.channels :=
  rfl

theorem channels_decrementPending (q : TokioChannelQueue) (p : QueuePriority) :
    (q.decrementPending p).channels = q.channels :=
  rfl

theorem of_send (h : q.send task = some q') : q' = { q with
      channels := q.channels.set task.priority (q.channels.get task.priority ++ [task]) } := by
  unfold send at h
  dsimp only at h
  split at h
  · exact (Option.some.inj h).symm
  · cases h

/-- The three channels, one after the other. -/
def tasks (q : TokioChannelQueue) : List DeepScanTask := QueuePriority.all.flatMap q.channels.get

theorem tasks_eq (q : TokioChannelQueue) :
    q.tasks = q.channels.high ++ (q.channels.normal ++ q.channels.low) := by
  simp [tasks, QueuePriority.all, Levels.get]

theorem tasks_incrementPending (q : TokioChannelQueue) (p : QueuePriority) :
    (q.incrementPending p).tasks = q.tasks := rfl

theorem tasks_incrementRetried (q : TokioChannelQueue) : q.incrementRetried.tasks = q.tasks := rfl

theorem tasks_moveToDeadLetter (q : TokioChannelQueue) (task : DeepScanTask) (now : Int)
    (reason : String) : (q.moveToDeadLetter task now reason).tasks = q.tasks := rfl

theorem select_eq_none_iff : q.select = none ↔ q.tasks = [] := by
  rw [tasks_eq, select]
  split <;> simp_all

theorem of_select (h : q.select = some (task, q')) : ∃ p rest, q.channels.get p = task :: rest ∧
      q' = { q with channels := q.channels.set p rest } ∧ q.tasks = task :: q'.tasks := by
  unfold select at h
  split at h
  · next rest hhigh =>
    cases h
    refine ⟨.high, rest, hhigh, rfl, ?_⟩
    simp [tasks_eq, hhigh, Levels.set]
  · next rest hhigh hnormal =>
    cases h
    refine ⟨.normal, rest, hnormal, rfl, ?_⟩
    simp [tasks_eq, hhigh, hnormal, Levels.set]
  · next rest hhigh hnormal hlow =>
    cases h
    refine ⟨.low, rest, hlow, rfl, ?_⟩
    simp [tasks_eq, hhigh, hnormal, hlow, Levels.set]
  · cases h

theorem countP_tasks_of_send (h : q.send task = some q') (P : DeepScanTask → Bool) :
    q'.tasks.countP P = q.tasks.countP P + [task].countP P := by
  rw [of_send h, tasks_eq, tasks_eq]
  cases task.priority
  all_goals
    simp only [Levels.set, Levels.get, List.countP_append]
    omega

/-- Whether there is a dead letter for a task. -/
def deadCopies (q : TokioChannelQueue) (id : String) : Nat := if id ∈ q.deadLetter then 1 else 0

theorem deadLetter_of_send (h : q.send task = some q') : q'.deadLetter = q.deadLetter := by
  rw [of_send h]

end TokioChannelQueue

end Haltchain.Queue
