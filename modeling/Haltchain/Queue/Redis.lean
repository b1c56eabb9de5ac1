import Haltchain.Lib.Assoc
import Haltchain.Queue.Task

/-! # The queue in Redis

`RedisScanQueue` of `crates/queue/src/redis_queue.rs`: a list of texts for each priority, a hash of
dead letters and one of metrics. A call is a sequence of commands, each of which may fail, and then
does nothing; a connection is one too. How a task is written as text is a parameter. -/

namespace Haltchain.Queue

open Lib List

/-- Tasks and dead letters as texts. -/
structure Codec (T : Type) where
  encode : DeepScanTask → T
  decode : T → Option DeepScanTask
  encodeLetter : DeadLetterTask → T
  decode_encode : ∀ task, decode (encode task) = some task

/-- What the server has under the queue's keys. The left end of a list is its head. -/
structure RedisStore (T : Type) where
  lists : Levels (List T)
  deadLetter : AList (fun _ : String => T)
  metrics : AList (fun _ : String => Int)

/-! ## Which commands fail -/

/-- What fails of a metric. -/
structure MetricFailures where
  conn : Bool
  hincr : Bool

structure EnqueueFailures where
  conn : Bool
  lpush : Bool
  metric : MetricFailures

structure DeadLetterFailures where
  conn : Bool
  hset : Bool
  metric : MetricFailures

/-- Of one turn of the loop. -/
structure DequeueFailures where
  conn : Bool
  brpop : Bool
  metric : MetricFailures
  deadLetter : DeadLetterFailures

/-- What fails of a retry. -/
structure RetryFailures where
  metric : MetricFailures
  enqueue : EnqueueFailures
  deadLetter : DeadLetterFailures

/-- Nothing fails. -/
def MetricFailures.none : MetricFailures := ⟨false, false⟩

/-- Nothing fails. -/
def EnqueueFailures.none : EnqueueFailures := ⟨false, false, .none⟩

/-- Nothing fails. -/
def DeadLetterFailures.none : DeadLetterFailures := ⟨false, false, .none⟩

/-- Nothing fails. -/
def DequeueFailures.none : DequeueFailures := ⟨false, false, .none, .none⟩

/-- Nothing fails. -/
def RetryFailures.none : RetryFailures := ⟨.none, .none, .none⟩

/-- The failures of a turn of the loop, and its time. -/
structure Turn where
  fails : DequeueFailures
  now : Int

/-- The metric of a priority. -/
def pendingMetric : QueuePriority → String
  | .high => "pending_high"
  | .normal => "pending_normal"
  | .low => "pending_low"

namespace RedisStore

variable {T : Type}

/-- The empty store. -/
def empty : RedisStore T := ⟨⟨[], [], []⟩, ∅, ∅⟩

/-- Adds to a metric. -/
def metricInc (fails : MetricFailures) (s : RedisStore T) (field : String) (amount : Int) :
    Except QueueError Unit × RedisStore T :=
  if fails.conn then (.error .queueClosed, s)
  else if fails.hincr then (.error .queueClosed, s)
  else
    let value := (s.metrics.lookup field).getD 0 + amount
    (.ok (), { s with metrics := s.metrics.insert field value })

/-- The texts in the order in which they are taken. -/
def line (s : RedisStore T) : List T :=
  s.lists.high.reverse ++ (s.lists.normal.reverse ++ s.lists.low.reverse)

/-- The right end of the first list that has one, with its priority. -/
def brpop (s : RedisStore T) : Option (QueuePriority × T × RedisStore T) :=
  let pop (p : QueuePriority) := (s.lists.get p).getLast?.map fun payload =>
    (p, payload, { s with lists := s.lists.set p (s.lists.get p).dropLast })
  (pop .high).or ((pop .normal).or (pop .low))

end RedisStore

namespace Codec

variable {T : Type} (C : Codec T)

def putDeadLetter (fails : DeadLetterFailures) (s : RedisStore T) (task : DeepScanTask) (now : Int)
    (reason : String) : Except QueueError Unit × RedisStore T :=
  if fails.conn then (.error .queueClosed, s)
  else if fails.hset then (.error .queueClosed, s)
  else
    let letter := C.encodeLetter ⟨task, now, reason⟩
    let s := { s with deadLetter := s.deadLetter.insert task.taskId letter }
    s.metricInc fails.metric "dead_lettered" 1

/-- The task is in its list before the metric is counted. -/
def enqueue (fails : EnqueueFailures) (s : RedisStore T) (task : DeepScanTask) :
    Except QueueError String × RedisStore T :=
  if fails.conn then (.error .queueClosed, s)
  else if fails.lpush then (.error .queueClosed, s)
  else
    let list := C.encode task :: s.lists.get task.priority
    let s := { s with lists := s.lists.set task.priority list }
    match s.metricInc fails.metric (pendingMetric task.priority) 1 with
    | (.error e, s) => (.error e, s)
    | (.ok _, s) => (.ok task.taskId, s)

/-- The loop of `dequeue`, for so many turns. -/
def dequeueLoop (turns : Nat → Turn) : Nat → Nat → RedisStore T → Option DeepScanTask × RedisStore T
  | 0, _, s => (none, s)
  | fuel + 1, i, s =>
    let turn := turns i
    if turn.fails.conn then (none, s)
    else if turn.fails.brpop then (none, s)
    else
      match s.brpop with
      | none => (none, s)
      | some (priority, payload, s) =>
        match C.decode payload with
        | none => (none, s)
        | some task =>
          let s := (s.metricInc turn.fails.metric (pendingMetric priority) (-1)).2
          if task.isExpired turn.now then
            let s :=
              (C.putDeadLetter turn.fails.deadLetter s task turn.now expiredReason).2
            dequeueLoop turns fuel (i + 1) s
          else (some task, s)

/-- Each turn takes a text; one more finds none. -/
def dequeue (turns : Nat → Turn) (s : RedisStore T) : Option DeepScanTask × RedisStore T :=
  C.dequeueLoop turns (s.line.length + 1) 0 s

def retryOrDeadLetter (fails : RetryFailures) (s : RedisStore T) (task : DeepScanTask) (now : Int)
    (reason : String) : Except QueueError Unit × RedisStore T :=
  match task.retry with
  | none => C.putDeadLetter fails.deadLetter s task now reason
  | some task =>
    match s.metricInc fails.metric "retried" 1 with
    | (.error e, s) => (.error e, s)
    | (.ok _, s) =>
      match C.enqueue fails.enqueue s task with
      | (.error e, s) => (.error e, s)
      | (.ok _, s) => (.ok (), s)

end Codec

/-! ## What the commands do -/

/-- The dead letter is stored, whether or not it is counted. -/
def DeadLetterFailures.Stores (fails : DeadLetterFailures) : Prop :=
  fails.conn = false ∧ fails.hset = false

/-- The task is in its list, and then its metric fails. -/
def EnqueueFailures.Late (fails : EnqueueFailures) : Prop :=
  fails.conn = false ∧ fails.lpush = false ∧
    (fails.metric.conn = true ∨ fails.metric.hincr = true)

namespace RedisStore

variable {T : Type} {s s' : RedisStore T}

theorem metricInc_frame (fails : MetricFailures) (s : RedisStore T) (field : String)
    (amount : Int) : (s.metricInc fails field amount).2.lists = s.lists ∧
      (s.metricInc fails field amount).2.deadLetter = s.deadLetter := by
  unfold metricInc
  split
  · exact ⟨rfl, rfl⟩
  split <;> exact ⟨rfl, rfl⟩

theorem line_of_lists (h : s'.lists = s.lists) : s'.line = s.line := by
  rw [line, line, h]

theorem brpop_eq_none_iff : s.brpop = none ↔ s.line = [] := by
  simp [brpop, line, Levels.get]

theorem of_brpop {p : QueuePriority} {payload : T} (h : s.brpop = some (p, payload, s')) :
    s.line = payload :: s'.line ∧ s'.deadLetter = s.deadLetter := by
  unfold brpop at h
  rw [Option.or_eq_some_iff, Option.or_eq_some_iff] at h
  simp only [Option.map_eq_some_iff, Option.map_eq_none_iff, getLast?_eq_none_iff] at h
  rcases h with ⟨x, hx, h⟩ | ⟨hhigh, ⟨x, hx, h⟩ | ⟨hnormal, x, hx, h⟩⟩
  · cases h
    obtain ⟨init, hinit⟩ := getLast?_eq_some_iff.1 hx
    simp only [Levels.get] at hinit
    simp [line, Levels.get, Levels.set, hinit]
  · cases h
    obtain ⟨init, hinit⟩ := getLast?_eq_some_iff.1 hx
    simp only [Levels.get] at hinit hhigh
    simp [line, Levels.get, Levels.set, hinit, hhigh]
  · cases h
    obtain ⟨init, hinit⟩ := getLast?_eq_some_iff.1 hx
    simp only [Levels.get] at hinit hhigh hnormal
    simp [line, Levels.get, Levels.set, hinit, hhigh, hnormal]

end RedisStore

namespace Codec

variable {T : Type} {C : Codec T}

theorem putDeadLetter_frame (fails : DeadLetterFailures) (s : RedisStore T) (task : DeepScanTask)
    (now : Int) (reason : String) : (C.putDeadLetter fails s task now reason).2.lists = s.lists ∧
      ∀ id, id ∈ (C.putDeadLetter fails s task now reason).2.deadLetter ↔
        id ∈ s.deadLetter ∨ (fails.Stores ∧ task.taskId = id) := by
  unfold putDeadLetter DeadLetterFailures.Stores
  cases hconn : fails.conn with
  | true => simp
  | false =>
    cases hhset : fails.hset with
    | true => simp
    | false =>
      simp only [Bool.false_eq_true, if_false, true_and]
      refine ⟨(RedisStore.metricInc_frame ..).1, ?_⟩
      intro id
      rw [(RedisStore.metricInc_frame ..).2]
      rw [AList.mem_insert, eq_comm, or_comm]

/-! ## What a call of `dequeue` takes -/

variable (C) in
/-- The turns of a call that take a task and find it expired. -/
def expiredTurns (turns : Nat → Turn) : Nat → List T → List (Nat × DeepScanTask)
  | _, [] => []
  | i, payload :: rest =>
    if (turns i).fails.conn then []
    else if (turns i).fails.brpop then []
    else
      match C.decode payload with
      | none => []
      | some task =>
        if task.isExpired (turns i).now then (i, task) :: expiredTurns turns (i + 1) rest
        else []

variable (C) in
/-- What a call takes from the given turn on: the texts of expired tasks, for which its dead letters
are, and the one it returns. -/
def Takes (turns : Nat → Turn) (i : Nat) (s : RedisStore T)
    (out : Option DeepScanTask × RedisStore T) : Prop :=
  (∃ taken, s.line = taken ++ out.2.line ∧
    taken.filterMap C.decode = (C.expiredTurns turns i s.line).map Prod.snd ++ out.1.toList) ∧
  ∀ id, id ∈ out.2.deadLetter ↔ id ∈ s.deadLetter ∨
    ∃ x ∈ C.expiredTurns turns i s.line, (turns x.1).fails.deadLetter.Stores ∧ x.2.taskId = id

section

variable {turns : Nat → Turn} {i : Nat} {s s' : RedisStore T} {payload : T}

theorem takes_nothing (h : C.expiredTurns turns i s.line = []) : C.Takes turns i s (none, s) := by
  refine ⟨⟨[], rfl, ?_⟩, ?_⟩
  · rw [h]
    rfl
  · simp [h]

/-- A text is returned as a task, or lost if it is not one. -/
theorem takes_one {r : Option DeepScanTask} (hline : s.line = payload :: s'.line)
    (hdecode : C.decode payload = r) (hdead : s'.deadLetter = s.deadLetter)
    (h : C.expiredTurns turns i s.line = []) : C.Takes turns i s (r, s') := by
  refine ⟨⟨[payload], hline, ?_⟩, ?_⟩
  · rw [h, filterMap_cons, hdecode]
    cases r <;> rfl
  · simp [h, hdead]

theorem takes_expired {task : DeepScanTask} {out : Option DeepScanTask × RedisStore T}
    (hline : s.line = payload :: s'.line)
    (h : C.expiredTurns turns i s.line = (i, task) :: C.expiredTurns turns (i + 1) s'.line)
    (hdecode : C.decode payload = some task) (hdead : ∀ id, id ∈ s'.deadLetter ↔ id ∈ s.deadLetter ∨
      ((turns i).fails.deadLetter.Stores ∧ task.taskId = id))
    (htakes : C.Takes turns (i + 1) s' out) : C.Takes turns i s out := by
  obtain ⟨⟨taken, htaken, htasks⟩, hstored⟩ := htakes
  refine ⟨⟨payload :: taken, ?_, ?_⟩, ?_⟩
  · rw [hline, htaken]
    rfl
  · rw [h, filterMap_cons_some hdecode, htasks]
    rfl
  · intro id
    rw [hstored, hdead, h]
    simp [or_assoc]

end

theorem takes_dequeueLoop (turns : Nat → Turn) {fuel i : Nat} {s : RedisStore T}
    (hfuel : s.line.length < fuel) : C.Takes turns i s (C.dequeueLoop turns fuel i s) := by
  induction fuel generalizing i s with
  | zero => omega
  | succ fuel ih =>
    rw [dequeueLoop]
    cases hbrpop : s.brpop with
    | none =>
      have hline := RedisStore.brpop_eq_none_iff.1 hbrpop
      have hnothing : C.Takes turns i s (none, s) := takes_nothing (by rw [hline]; rfl)
      simpa using hnothing
    | some popped =>
      obtain ⟨p, payload, s₁⟩ := popped
      obtain ⟨hline, hdead⟩ := RedisStore.of_brpop hbrpop
      have hexpired := congrArg (C.expiredTurns turns i) hline
      rw [expiredTurns] at hexpired
      cases hconn : (turns i).fails.conn with
      | true => exact takes_nothing (by rw [hexpired, if_pos hconn])
      | false =>
      cases hpop : (turns i).fails.brpop with
      | true => exact takes_nothing (by rw [hexpired, hconn, hpop]; rfl)
      | false =>
      simp only [hconn, hpop, Bool.false_eq_true, if_false] at hexpired ⊢
      cases hdecode : C.decode payload with
      | none =>
        rw [hdecode] at hexpired
        exact takes_one hline hdecode hdead hexpired
      | some task =>
        simp only [hdecode] at hexpired ⊢
        obtain ⟨hlists, hdead'⟩ := s₁.metricInc_frame (turns i).fails.metric (pendingMetric p) (-1)
        cases hnow : task.isExpired (turns i).now with
        | false =>
          rw [hnow] at hexpired
          refine takes_one ?_ hdecode (hdead'.trans hdead) hexpired
          rw [hline, RedisStore.line_of_lists hlists]
        | true =>
          rw [hnow, if_pos rfl] at hexpired
          obtain ⟨hlists', hput⟩ := C.putDeadLetter_frame (turns i).fails.deadLetter
            (s₁.metricInc (turns i).fails.metric (pendingMetric p) (-1)).2 task
            (turns i).now expiredReason
          have hrest := RedisStore.line_of_lists (hlists'.trans hlists)
          refine takes_expired (hline.trans (by rw [hrest]))
            (hexpired.trans (by rw [hrest])) hdecode ?_ (ih ?_)
          · intro id
            rw [hput, hdead', hdead]
          · rw [hrest]
            rw [hline, length_cons] at hfuel
            omega

theorem takes_dequeue (C : Codec T) (turns : Nat → Turn) (s : RedisStore T) :
    C.Takes turns 0 s (C.dequeue turns s) :=
  takes_dequeueLoop turns (Nat.lt_succ_self _)

/-- A call returns the first task, if it has not expired. -/
theorem dequeue_of_cons (C : Codec T) (turns : Nat → Turn) {s : RedisStore T} {payload : T}
    {rest : List T} {task : DeepScanTask}
    (hfails : (turns 0).fails.conn = false ∧ (turns 0).fails.brpop = false)
    (hline : s.line = payload :: rest) (hdecode : C.decode payload = some task)
    (hexpired : task.isExpired (turns 0).now = false) :
    (C.dequeue turns s).1 = some task ∧ (C.dequeue turns s).2.line = rest := by
  cases hbrpop : s.brpop with
  | none =>
    rw [RedisStore.brpop_eq_none_iff.1 hbrpop] at hline
    cases hline
  | some popped =>
    have hline' := (RedisStore.of_brpop hbrpop).1
    rw [hline] at hline'
    obtain ⟨rfl, rfl⟩ := cons.inj hline'
    rw [dequeue, dequeueLoop]
    simp only [hfails, hbrpop, hdecode, hexpired, Bool.false_eq_true, if_false, true_and]
    exact RedisStore.line_of_lists (RedisStore.metricInc_frame ..).1

variable (C) in
/-- Each task a call takes is returned, or has a dead letter. -/
def Accounted (turns : Nat → Turn) (s : RedisStore T) : Prop :=
  let out := C.dequeue turns s
  let taken := s.line.take (s.line.length - out.2.line.length)
  ∀ task, task.taskId ∉ out.2.deadLetter →
    (taken.filterMap C.decode).count task ≤ if out.1 = some task then 1 else 0

/-- What has expired has to be a dead letter. -/
theorem accounted_iff (turns : Nat → Turn) (s : RedisStore T) :
    C.Accounted turns s ↔ ∀ x ∈ C.expiredTurns turns 0 s.line,
      x.2.taskId ∈ s.deadLetter ∨ ∃ y ∈ C.expiredTurns turns 0 s.line,
        (turns y.1).fails.deadLetter.Stores ∧ y.2.taskId = x.2.taskId := by
  obtain ⟨⟨taken, hline, htaken⟩, hstored⟩ := C.takes_dequeue turns s
  have htake : s.line.take (s.line.length - (C.dequeue turns s).2.line.length) = taken := by
    rw [hline, length_append, Nat.add_sub_cancel, take_left]
  have hcount : ∀ task, (taken.filterMap C.decode).count task =
      ((C.expiredTurns turns 0 s.line).map Prod.snd).count task +
        if (C.dequeue turns s).1 = some task then 1 else 0 := by
    intro task
    rw [htaken, count_append]
    cases (C.dequeue turns s).1 with
    | none => rfl
    | some r => simp [count_singleton]
  simp only [Accounted, htake, hcount, ← hstored]
  constructor
  · intro h x hx
    by_contra hnot
    have hpos : 0 < ((C.expiredTurns turns 0 s.line).map Prod.snd).count x.2 :=
      count_pos_iff.2 (mem_map.2 ⟨x, hx, rfl⟩)
    have hle := h x.2 hnot
    omega
  · intro h task hnot
    have hzero : ((C.expiredTurns turns 0 s.line).map Prod.snd).count task = 0 := by
      rw [count_eq_zero]
      intro hmem
      obtain ⟨x, hx, rfl⟩ := mem_map.1 hmem
      exact hnot (h x hx)
    omega

/-! ## Errors of `enqueue` -/

variable (C) in
/-- The lists with one text more. -/
def pushed (s : RedisStore T) (task : DeepScanTask) : Levels (List T) :=
  s.lists.set task.priority (C.encode task :: s.lists.get task.priority)

theorem pushed_ne (s : RedisStore T) (task : DeepScanTask) : C.pushed s task ≠ s.lists := by
  intro h
  have hget := congrArg (fun l => (l.get task.priority).length) h
  simp [pushed] at hget

/-- It fails before the task is in its list, or after, or not at all. -/
theorem enqueue_cases (C : Codec T) (fails : EnqueueFailures) (s : RedisStore T)
    (task : DeepScanTask) :
    (∃ s', C.enqueue fails s task = (.error .queueClosed, s') ∧ s'.lists = s.lists ∧
      ¬ fails.Late) ∨
    (∃ s', C.enqueue fails s task = (.error .queueClosed, s') ∧ s'.lists = C.pushed s task ∧
      fails.Late) ∨
    ∃ s', C.enqueue fails s task = (.ok task.taskId, s') ∧ s'.lists = C.pushed s task ∧
      ¬ fails.Late := by
  obtain ⟨conn, lpush, ⟨metricConn, hincr⟩⟩ := fails
  cases conn with
  | true => exact .inl ⟨s, rfl, rfl, by simp [EnqueueFailures.Late]⟩
  | false =>
  cases lpush with
  | true => exact .inl ⟨s, rfl, rfl, by simp [EnqueueFailures.Late]⟩
  | false =>
  cases metricConn with
  | true => exact .inr (.inl ⟨_, rfl, rfl, by simp [EnqueueFailures.Late]⟩)
  | false =>
  cases hincr with
  | true => exact .inr (.inl ⟨_, rfl, rfl, by simp [EnqueueFailures.Late]⟩)
  | false => exact .inr (.inr ⟨_, rfl, rfl, by simp [EnqueueFailures.Late]⟩)

variable (C) in
/-- A caller that goes on until there is no error or no attempt left. -/
def enqueueUntilOk (s : RedisStore T) (task : DeepScanTask) : List EnqueueFailures → RedisStore T
  | [] => s
  | fails :: attempts =>
    match C.enqueue fails s task with
    | (.ok _, s) => s
    | (.error _, s) => enqueueUntilOk s task attempts

theorem lists_enqueueUntilOk (s : RedisStore T) (task : DeepScanTask)
    {attempts : List EnqueueFailures} (h : ∀ fails ∈ attempts, ¬ fails.Late) :
    (C.enqueueUntilOk s task attempts).lists = s.lists ∨
      (C.enqueueUntilOk s task attempts).lists = C.pushed s task := by
  induction attempts generalizing s with
  | nil => exact .inl rfl
  | cons fails attempts ih =>
    have hrest := fun s => ih s fun f hf => h f (mem_cons_of_mem _ hf)
    rcases C.enqueue_cases fails s task with ⟨s', heq, hlists, -⟩ | ⟨s', heq, -, hlate⟩ |
      ⟨s', heq, hlists, -⟩
    · simp only [enqueueUntilOk, heq]
      have hs' := hrest s'
      rw [pushed, hlists] at hs'
      exact hs'
    · exact absurd hlate (h fails mem_cons_self)
    · simp only [enqueueUntilOk, heq]
      exact .inr hlists

/-- **When an error loses and doubles nothing.** A failed `enqueue` leaves the lists as they are
exactly if it is not the metric that fails after the push. A `dequeue` accounts for each task it
takes exactly if there is a dead letter for each expired one. And a caller whose attempts do not
fail late puts the task into its list at most once. -/
theorem redis_errors_iff (C : Codec T) (s : RedisStore T) (task : DeepScanTask)
    (fails : EnqueueFailures) (turns : Nat → Turn) :
    ((∀ e s', C.enqueue fails s task = (.error e, s') → s'.lists = s.lists) ↔ ¬ fails.Late) ∧
    (C.Accounted turns s ↔ ∀ x ∈ C.expiredTurns turns 0 s.line,
      x.2.taskId ∈ s.deadLetter ∨ ∃ y ∈ C.expiredTurns turns 0 s.line,
        (turns y.1).fails.deadLetter.Stores ∧ y.2.taskId = x.2.taskId) ∧
    ∀ attempts : List EnqueueFailures, (∀ fails ∈ attempts, ¬ fails.Late) →
      (C.enqueueUntilOk s task attempts).lists = s.lists ∨
        (C.enqueueUntilOk s task attempts).lists = C.pushed s task := by
  refine ⟨?_, accounted_iff turns s, fun attempts h => lists_enqueueUntilOk s task h⟩
  rcases C.enqueue_cases fails s task with ⟨s', heq, hlists, hlate⟩ | ⟨s', heq, hlists, hlate⟩ |
    ⟨s', heq, -, hlate⟩
  · refine iff_of_true ?_ hlate
    intro e s'' h
    rw [heq] at h
    cases h
    exact hlists
  · refine iff_of_false ?_ (not_not.2 hlate)
    intro h
    exact C.pushed_ne s task (hlists.symm.trans (h _ _ heq))
  · refine iff_of_true ?_ hlate
    intro e s'' h
    rw [heq] at h
    cases h

/-- Texts that are what they stand for. -/
def plain : Codec (DeepScanTask ⊕ DeadLetterTask) where
  encode := .inl
  decode := Sum.getLeft?
  encodeLetter := .inr
  decode_encode _ := rfl

/-- The metric of an `enqueue` fails: the caller tries again, and the task is delivered twice. And
an expired task is gone when its dead letter cannot be stored. -/
theorem errors_double_and_lose :
    let task := taskFor "t" .normal 1 none
    let failed := plain.enqueue { EnqueueFailures.none with metric := ⟨false, true⟩ } .empty task
    let again := plain.enqueue .none failed.2 task
    let first := plain.dequeue (fun _ => ⟨.none, 0⟩) again.2
    let second := plain.dequeue (fun _ => ⟨.none, 0⟩) first.2
    let expired := plain.enqueue .none .empty (taskFor "e" .high 1 (some (-1)))
    let lost := plain.dequeue
      (fun _ => ⟨{ DequeueFailures.none with deadLetter := ⟨false, true, .none⟩ }, 0⟩) expired.2
    (failed.1 = .error .queueClosed ∧ again.1 = .ok "t" ∧ first.1 = some task ∧
      second.1 = some task) ∧
    expired.1 = .ok "e" ∧ lost.1 = none ∧ lost.2.line = [] ∧ "e" ∉ lost.2.deadLetter := by
  decide +kernel

end Codec

end Haltchain.Queue
