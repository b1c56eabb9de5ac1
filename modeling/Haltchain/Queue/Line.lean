import Haltchain.Queue.Channels

/-! # The channels are a line

Those who wait in the three channels are a line, in which the next one is the oldest of the highest
level. This holds in whatever order the steps of calls come, and so does that each task is in one
place and each counter right. -/

namespace Haltchain.Queue

open Lib TokioChannelQueue List Option

namespace Consumer

/-- What it has in its hands in a call. -/
def tasks : Consumer → List DeepScanTask
  | .received task => [task]
  | .decremented task => [task]
  | .retrying task => [task]
  | _ => []

/-- What is counted as pending, but is not in a channel. -/
def counted : Consumer → List DeepScanTask
  | .received task => [task]
  | .retrying task => [task]
  | _ => []

end Consumer

/-! ## What holds in every run -/

namespace System

/-- With the consumer. -/
def held (s : System) : List DeepScanTask := s.consumer.tasks ++ s.handed

/-- In how many places a task is: channels, consumer, dead letters. -/
def places (s : System) (id : String) : Nat :=
  s.queue.tasks.countP (named id) + s.held.countP (named id) + s.queue.deadCopies id

/-- Why a task is a dead letter. -/
def Justified (d : DeadLetterTask) : Prop :=
  d.task.isExpired d.failedAt = true ∨ d.task.retry = none

/-- The state, given the ids that were enqueued and the line of those that wait. -/
structure Sound (ids : List String) (waiting : List DeepScanTask) (s : System) : Prop where
  line : ∀ p, s.queue.channels.get p = waiting.filter (·.priority = p)
  counted : ∀ p, s.queue.pendingCounter p =
    (s.queue.channels.get p).length + (s.sending ++ s.consumer.counted).countP (·.priority = p)
  placed : ∀ id, s.sending.countP (named id) + s.places id = ids.count id
  justified : ∀ id d, s.queue.deadLetter.lookup id = some d → d.task.taskId = id ∧ Justified d

theorem sound_new (buffer : Nat) : Sound [] [] (new buffer) where
  line p := by cases p <;> rfl
  counted p := by cases p <;> rfl
  placed id := rfl
  justified id d h := by simp [new, TokioChannelQueue.new] at h

/-! ## One step -/

variable {task : DeepScanTask}

section

variable {s s' : System} {e : Event} {m : Option (Move DeepScanTask)} {ids : List String}
  {waiting : List DeepScanTask}

/-- The task taken is first in the channel of its priority. -/
theorem of_select_line (hline : ∀ p, s.queue.channels.get p = waiting.filter (·.priority = p))
    {queue : TokioChannelQueue} (hselect : s.queue.select = some (task, queue)) :
    ∃ rest, s.queue.channels.get task.priority = task :: rest ∧
      queue = { s.queue with channels := s.queue.channels.set task.priority rest } := by
  obtain ⟨p, rest, hchannel, hqueue, -⟩ := of_select hselect
  have hmem : task ∈ waiting.filter (·.priority = p) := by
    rw [← hline, hchannel]
    exact mem_cons_self
  have hp : task.priority = p := of_decide_eq_true (mem_filter.1 hmem).2
  subst hp
  exact ⟨rest, hchannel, hqueue⟩

theorem line_step (h : Step s e m s')
    (hline : ∀ p, s.queue.channels.get p = waiting.filter (·.priority = p)) (p : QueuePriority) :
    s'.queue.channels.get p = (run Move.exec waiting m.toList).filter (·.priority = p) := by
  cases h with
  | wait | enqueue | dequeue | decrement | expire | hand | giveUp | retry => exact hline p
  | send _ hsend | resend _ hsend =>
    have hqueue := of_send hsend
    rw [toList_some, run_cons, run_nil, filter_arrive, hqueue]
    simp only [Levels.get_set, hline]
    split
    · next hp => rw [hp]
    · rfl
  | select _ hselect =>
    obtain ⟨rest, hchannel, hqueue⟩ := of_select_line hline hselect
    rw [toList_some, run_cons, run_nil, filter_leave ((hline _).symm.trans hchannel), hqueue]
    simp only [Levels.get_set, hline]

theorem pendingCounter_increment (q : TokioChannelQueue) (task : DeepScanTask) (p : QueuePriority) :
    (q.incrementPending task.priority).pendingCounter p =
      q.pendingCounter p + [task].countP (·.priority = p) := by
  rw [pendingCounter, incrementPending]
  rcases eq_or_ne p task.priority with rfl | hp
  · simp
  · simp [hp, Ne.symm hp, pendingCounter]

theorem pendingCounter_decrement (q : TokioChannelQueue) (task : DeepScanTask) (p : QueuePriority) :
    (q.decrementPending task.priority).pendingCounter p =
      q.pendingCounter p - [task].countP (·.priority = p) := by
  rw [pendingCounter, decrementPending]
  rcases eq_or_ne p task.priority with rfl | hp
  · simp
  · simp [hp, Ne.symm hp, pendingCounter]

theorem length_get_of_send {q q' : TokioChannelQueue} (h : q.send task = some q')
    (p : QueuePriority) :
    (q'.channels.get p).length = (q.channels.get p).length + [task].countP (·.priority = p) ∧
      q'.pendingCounter p = q.pendingCounter p := by
  rw [of_send h]
  refine ⟨?_, rfl⟩
  rcases eq_or_ne p task.priority with rfl | hp
  · simp
  · simp [hp, Ne.symm hp]

/-- And with one less. -/
theorem length_get_of_select
    (hline : ∀ p, s.queue.channels.get p = waiting.filter (·.priority = p))
    {queue : TokioChannelQueue} (hselect : s.queue.select = some (task, queue))
    (p : QueuePriority) : (queue.channels.get p).length + [task].countP (·.priority = p) =
        (s.queue.channels.get p).length ∧
      queue.pendingCounter p = s.queue.pendingCounter p := by
  obtain ⟨rest, hchannel, rfl⟩ := of_select_line hline hselect
  refine ⟨?_, rfl⟩
  rcases eq_or_ne p task.priority with rfl | hp
  · simp [hchannel]
  · simp [hp, Ne.symm hp]

/-- Each counter is right, counting those yet to send or just received. -/
theorem counted_step (h : Step s e m s') (hs : Sound ids waiting s) (p : QueuePriority) :
    s'.queue.pendingCounter p = (s'.queue.channels.get p).length +
      (s'.sending ++ s'.consumer.counted).countP (·.priority = p) := by
  have hcounted := hs.counted p
  rw [countP_append] at hcounted ⊢
  cases h with
  | wait | giveUp => exact hcounted
  | enqueue task =>
    have hpending := pendingCounter_increment s.queue task p
    rw [countP_append]
    simp only [channels_incrementPending]
    omega
  | send hi hsend =>
    obtain ⟨hlength, hpending⟩ := length_get_of_send hsend p
    have hsending := countP_eraseIdx hi (·.priority = p)
    dsimp only
    omega
  | dequeue hconsumer | hand hconsumer _ | expire hconsumer _ =>
    rw [hconsumer] at hcounted
    exact hcounted
  | select hconsumer hselect =>
    obtain ⟨hlength, hpending⟩ := length_get_of_select hs.line hselect p
    rw [hconsumer] at hcounted
    simp only [Consumer.counted, countP_nil] at hcounted ⊢
    omega
  | decrement hconsumer =>
    rw [hconsumer] at hcounted
    simp only [Consumer.counted, countP_nil] at hcounted ⊢
    rw [pendingCounter_decrement, channels_decrementPending]
    omega
  | retry hconsumer hi hretry =>
    rw [hconsumer] at hcounted
    simp only [Consumer.counted, countP_nil] at hcounted ⊢
    have hpending : s.queue.incrementRetried.pendingCounter p = s.queue.pendingCounter p := rfl
    have hchannels : s.queue.incrementRetried.channels = s.queue.channels := rfl
    rw [pendingCounter_increment, channels_incrementPending, hchannels]
    omega
  | resend hconsumer hsend =>
    obtain ⟨hlength, hpending⟩ := length_get_of_send hsend p
    rw [hconsumer] at hcounted
    simp only [Consumer.counted, countP_nil] at hcounted ⊢
    omega

/-- Not sent yet, in a channel, or with the consumer. -/
def underWay (s : System) : List DeepScanTask := s.sending ++ (s.queue.tasks ++ s.held)

/-- What a step does to the tasks under way and to the dead letters. -/
inductive Flow (s s' : System) (e : Event) : Prop where
  | move (h : s'.underWay.Perm s.underWay) (hdead : s'.queue.deadLetter = s.queue.deadLetter)
      (he : e.enqueued = []) (hcalled : s.called e = none)
  | arrive {task : DeepScanTask} (h : s'.underWay.Perm (task :: s.underWay))
      (hdead : s'.queue.deadLetter = s.queue.deadLetter) (he : e = .enqueue task)
  | die {task : DeepScanTask} {now : Int} {reason : String}
      (h : s.underWay.Perm (task :: s'.underWay))
      (hdead : s'.queue.deadLetter = s.queue.deadLetter.insert task.taskId ⟨task, now, reason⟩)
      (he : e.enqueued = [])
      (hwhy : s.called e = none ∧ task.isExpired now = true ∨
        s.called e = some task ∧ task.retry = none)
  | retry {task task' : DeepScanTask} (rest : List DeepScanTask)
      (h : s.underWay.Perm (task :: rest)) (h' : s'.underWay.Perm (task' :: rest))
      (hdead : s'.queue.deadLetter = s.queue.deadLetter) (he : e.enqueued = [])
      (hcalled : s.called e = some task) (hretry : task.retry = some task')

theorem called_of_handed {i : Nat} {reason : String} {now : Int} (hidle : s.consumer = .idle)
    (hi : s.handed[i]? = some task) : s.called (.retryOrDeadLetter i reason now) = some task := by
  simp only [called, hidle, hi]

theorem flow_step (h : Step s e m s') : Flow s s' e := by
  cases h with
  | wait e he hcalled => exact .move (.refl _) rfl he hcalled
  | enqueue task =>
    refine .arrive (perm_of_countP fun P => ?_) rfl rfl
    simp only [underWay, held, tasks_incrementPending, countP_append, countP_cons, countP_nil]
    omega
  | send hi hsend =>
    refine .move (perm_of_countP fun P => ?_) (deadLetter_of_send hsend) rfl rfl
    have hsending := countP_eraseIdx hi P
    have htasks := countP_tasks_of_send hsend P
    simp only [underWay, held, countP_append]
    omega
  | dequeue hconsumer =>
    refine .move (perm_of_countP fun P => ?_) rfl rfl rfl
    simp only [underWay, held, hconsumer, Consumer.tasks]
  | select hconsumer hselect =>
    obtain ⟨p, rest, -, rfl, htasks⟩ := of_select hselect
    refine .move (perm_of_countP fun P => ?_) rfl rfl rfl
    simp only [underWay, held, hconsumer, htasks, Consumer.tasks, countP_append,
      countP_cons, countP_nil]
    omega
  | decrement hconsumer =>
    refine .move (perm_of_countP fun P => ?_) rfl rfl rfl
    simp only [underWay, held, hconsumer]
    rfl
  | expire hconsumer hexpired =>
    refine .die (perm_of_countP fun P => ?_) rfl rfl (.inl ⟨rfl, hexpired⟩)
    simp only [underWay, held, hconsumer, tasks_moveToDeadLetter, Consumer.tasks,
      countP_append, countP_cons, countP_nil]
    omega
  | hand hconsumer hexpired =>
    refine .move (perm_of_countP fun P => ?_) rfl rfl rfl
    simp only [underWay, held, hconsumer, Consumer.tasks, countP_append, countP_nil]
    omega
  | giveUp hconsumer hi hretry =>
    refine .die (perm_of_countP fun P => ?_) rfl rfl (.inr ⟨called_of_handed hconsumer hi, hretry⟩)
    have hhanded := countP_eraseIdx hi P
    simp only [underWay, held, tasks_moveToDeadLetter, countP_append,
      countP_cons, countP_nil] at hhanded ⊢
    omega
  | @retry i task task' reason now hconsumer hi hretry =>
    refine .retry (s.sending ++ (s.queue.tasks ++ s.handed.eraseIdx i))
      (perm_of_countP fun P => ?_) (perm_of_countP fun P => ?_) rfl rfl
      (called_of_handed hconsumer hi) hretry
    · have hhanded := countP_eraseIdx hi P
      simp only [underWay, held, hconsumer, Consumer.tasks, countP_append, countP_cons,
        countP_nil] at hhanded ⊢
      omega
    · simp only [underWay, held, tasks_incrementPending, tasks_incrementRetried, Consumer.tasks,
        countP_append, countP_cons, countP_nil]
      omega
  | resend hconsumer hsend =>
    refine .move (perm_of_countP fun P => ?_) (deadLetter_of_send hsend) rfl rfl
    have htasks := countP_tasks_of_send hsend P
    simp only [underWay, held, hconsumer, Consumer.tasks, countP_append, countP_nil]
    omega

theorem countP_underWay (s : System) (id : String) : s.sending.countP (named id) + s.places id =
      s.underWay.countP (named id) + s.queue.deadCopies id := by
  simp only [places, underWay, countP_append]
  omega

section

variable (h : Step s e m s') (hs : Sound ids waiting s)

include h hs

theorem placed_step (hids : ids.Nodup) (id : String) :
    s'.sending.countP (named id) + s'.places id = (ids ++ e.enqueued).count id := by
  have hplaced := hs.placed id
  rw [countP_underWay] at hplaced ⊢
  rw [count_append]
  unfold deadCopies at hplaced ⊢
  cases flow_step h with
  | move hperm hdead he =>
    rw [hperm.countP_eq, hdead, he]
    exact hplaced
  | arrive hperm hdead he =>
    subst he
    rw [hperm.countP_eq, hdead, countP_cons]
    simp only [named, Event.enqueued, count_singleton, beq_iff_eq, decide_eq_true_eq]
    omega
  | die hperm hdead he =>
    -- there was no dead letter yet for a task that was under way
    rw [hperm.countP_eq, countP_cons] at hplaced
    rw [hdead]
    simp only [named, AList.mem_insert] at hplaced ⊢
    grind
  | retry rest hperm hperm' hdead he hcalled hretry =>
    rw [hperm.countP_eq, countP_cons] at hplaced
    rw [hperm'.countP_eq, countP_cons, hdead, he, DeepScanTask.of_retry hretry]
    exact hplaced

theorem justified_step (id : String) (d : DeadLetterTask)
    (hd : s'.queue.deadLetter.lookup id = some d) : d.task.taskId = id ∧ Justified d := by
  cases flow_step h with
  | move _ hdead | arrive _ hdead | retry _ _ _ hdead =>
    rw [hdead] at hd
    exact hs.justified id d hd
  | die _ hdead _ hwhy =>
    rw [hdead] at hd
    rcases of_lookup_insert hd with ⟨rfl, rfl⟩ | ⟨-, hd⟩
    · exact ⟨rfl, hwhy.imp (·.2) (·.2)⟩
    · exact hs.justified id d hd

theorem Sound.step (hids : ids.Nodup) :
    Sound (ids ++ e.enqueued) (run Move.exec waiting m.toList) s' where
  line := line_step h hs.line
  counted := counted_step h hs
  placed := placed_step h hs hids
  justified := justified_step h hs

end

end

/-! ## A call of `dequeue` -/

/-- Once round the loop. -/
def round (now : Int) : List Event := [.select, .decrement, .check now]

section

variable {s : System} (now : Int)

theorem run_round_of_idle (h : s.consumer = .idle) : run exec s (round now) = s := by
  simp [round, exec, h]

theorem run_rounds_of_idle (h : s.consumer = .idle) (nows : List Int) :
    run exec s (nows.flatMap round) = s := by
  induction nows with
  | nil => rfl
  | cons now nows ih => rw [flatMap_cons, run_append, run_round_of_idle now h, ih]

theorem run_round_of_nil (h : s.consumer = .dequeuing) (htasks : s.queue.tasks = []) :
    run exec s (round now) = s := by
  have hselect := select_eq_none_iff.2 htasks
  simp [round, exec, h, hselect]

theorem run_round_of_cons {rest : List DeepScanTask} (h : s.consumer = .dequeuing)
    (htasks : s.queue.tasks = task :: rest) :
    let s' := run exec s (round now)
    s'.queue.tasks = rest ∧
      (task.isExpired now = true → s'.consumer = .dequeuing ∧ s'.handed = s.handed) ∧
      (task.isExpired now = false → s'.consumer = .idle ∧ s'.handed = s.handed ++ [task]) := by
  cases hselect : s.queue.select with
  | none =>
    rw [select_eq_none_iff.1 hselect] at htasks
    cases htasks
  | some r =>
    obtain ⟨task', queue⟩ := r
    obtain ⟨-, -, -, -, htasks'⟩ := of_select hselect
    rw [htasks] at htasks'
    obtain ⟨rfl, rfl⟩ := cons.inj htasks'
    have hround : run exec s (round now) =
        exec ⟨queue.decrementPending task.priority, s.sending, .decremented task, s.handed⟩
          (.check now) := by
      simp only [round, run_cons, run_nil, exec, h, hselect]
    simp only [hround, exec]
    cases task.isExpired now with
    | true =>
      refine ⟨rfl, fun _ => ⟨rfl, rfl⟩, ?_⟩
      intro hnot
      cases hnot
    | false =>
      refine ⟨rfl, ?_, fun _ => ⟨rfl, rfl⟩⟩
      intro hnot
      cases hnot

/-- The call hands over the first unexpired task, or waits if there is none. -/
theorem run_rounds {nows : List Int} (hclock : nows.Pairwise (· ≤ ·))
    (h : s.consumer = .dequeuing) (hlong : s.queue.tasks.length ≤ nows.length) :
    let s' := run exec s (nows.flatMap round)
    (∃ now ∈ nows, ∃ task, s.queue.tasks.find? (fun t => !t.isExpired now) = some task ∧
      s'.consumer = .idle ∧ s'.handed = s.handed ++ [task]) ∨
    (s'.consumer = .dequeuing ∧ s'.handed = s.handed ∧
      ∀ task ∈ s.queue.tasks, ∃ now ∈ nows, task.isExpired now = true) := by
  induction nows generalizing s with
  | nil =>
    have hnil : s.queue.tasks = [] := eq_nil_of_length_eq_zero (by simpa using hlong)
    exact .inr ⟨h, rfl, by simp [hnil]⟩
  | cons now nows ih =>
    obtain ⟨hle, hclock⟩ := pairwise_cons.1 hclock
    rw [flatMap_cons, run_append]
    cases htasks : s.queue.tasks with
    | nil =>
      have hstays := ih hclock h (by simp [htasks])
      rw [run_round_of_nil now h htasks]
      simpa [htasks] using hstays
    | cons task rest =>
      obtain ⟨hrest, hexpired, hfresh⟩ := run_round_of_cons now h htasks
      cases hnow : task.isExpired now with
      | false =>
        obtain ⟨hconsumer, hhanded⟩ := hfresh hnow
        rw [run_rounds_of_idle hconsumer]
        exact .inl ⟨now, mem_cons_self, task, by simp [hnow], hconsumer, hhanded⟩
      | true =>
        obtain ⟨hconsumer, hhanded⟩ := hexpired hnow
        have hlong' : (run exec s (round now)).queue.tasks.length ≤ nows.length := by
          rw [hrest]
          simpa [htasks] using hlong
        rcases ih hclock hconsumer hlong' with ⟨now', hmem, task', hfind, hdone⟩ |
          ⟨hwaiting, hsame, hall⟩
        · rw [hhanded] at hdone
          refine .inl ⟨now', mem_cons_of_mem _ hmem, task', ?_, hdone⟩
          -- the first one is still expired at the later time
          have hlater := DeepScanTask.isExpired_mono hnow (hle now' hmem)
          rw [find?_cons, hlater, ← hrest]
          exact hfind
        · refine .inr ⟨hwaiting, hsame.trans hhanded, ?_⟩
          intro t ht
          rcases mem_cons.1 ht with rfl | ht
          · exact ⟨now, mem_cons_self, hnow⟩
          · obtain ⟨now', hmem, ht⟩ := hall t (hrest ▸ ht)
            exact ⟨now', mem_cons_of_mem _ hmem, ht⟩

end

/-! ## The queue is a line -/

/-- Those that wait in a channel after a run, in order of arrival. -/
def line (buffer : Nat) (es : List Event) : List DeepScanTask :=
  run Move.exec [] (outputs exec move (new buffer) es)

theorem sound_run (buffer : Nat) {es : List Event} (hids : (es.flatMap Event.enqueued).Nodup) :
    Sound (es.flatMap Event.enqueued) (line buffer es) (run exec (new buffer) es) := by
  induction es using reverseRecOn with
  | nil => exact sound_new buffer
  | append_singleton es e ih =>
    have happend : (es ++ [e]).flatMap Event.enqueued =
        es.flatMap Event.enqueued ++ e.enqueued := by
      simp
    rw [happend] at hids ⊢
    have hids' := (nodup_append.1 hids).1
    have hstep := (ih hids').step (step_exec _ e) hids'
    rw [line, outputs_concat, run_append, run_concat]
    exact hstep

theorem of_move_select {s : System} (h : s.move .select = some (.leave task)) :
    ∃ queue, s.queue.select = some (task, queue) := by
  simp only [move] at h
  split at h
  · obtain ⟨r, hr, hleave⟩ := map_eq_some_iff.1 h
    cases hleave
    exact ⟨r.2, hr⟩
  · cases h

section

variable {ids : List String} {waiting : List DeepScanTask} {s : System} (hs : Sound ids waiting s)

include hs

/-- The channels hold the line, by priority. -/
theorem Sound.find?_tasks (ok : DeepScanTask → Bool) :
    s.queue.tasks.find? ok = firstInLine (·.priority) ok waiting := by
  have hget : s.queue.channels.get = fun p => waiting.filter (·.priority = p) := funext hs.line
  rw [tasks, hget]
  exact find?_ranks QueuePriority.pairwise_all fun _ _ _ => QueuePriority.mem_all _

theorem Sound.mem_tasks (h : task ∈ waiting) : task ∈ s.queue.tasks := by
  refine mem_flatMap.2 ⟨task.priority, QueuePriority.mem_all _, ?_⟩
  rw [hs.line]
  exact mem_filter.2 ⟨h, decide_eq_true rfl⟩

end

/-- A call of `dequeue` at the given times: it hands over the oldest unexpired task of the highest
level with one, or waits on if all have expired. -/
def Serves (s : System) (waiting : List DeepScanTask) (nows : List Int) : Prop :=
  let s' := run exec s (nows.flatMap round)
  (∃ now ∈ nows, ∃ task,
    firstInLine (·.priority) (fun t : DeepScanTask => !t.isExpired now) waiting = some task ∧
      s'.consumer = .idle ∧ s'.handed = s.handed ++ [task]) ∨
  (s'.consumer = .dequeuing ∧ s'.handed = s.handed ∧
    ∀ task ∈ waiting, ∃ now ∈ nows, task.isExpired now = true)

/-- **The channels are a line with three levels.** Let the steps of calls come in any order, for
tasks with distinct ids. Whatever is taken out is the oldest task of the highest level, and
`dequeue` hands over the oldest one not expired. A task whose `enqueue` has returned is in exactly
one place, and a dead letter only if it expired or had all its attempts. When no call that counts or
sends is under way, each counter is the size of its channel. -/
theorem channels_are_a_line (buffer : Nat) (es : List Event)
    (hids : (es.flatMap Event.enqueued).Nodup) :
    let s := run exec (new buffer) es
    let waiting := line buffer es
    (∀ task, s.move .select = some (.leave task) →
      firstInLine (·.priority) (fun _ => true) waiting = some task) ∧
    (s.consumer = .dequeuing → ∀ nows : List Int, nows.Pairwise (· ≤ ·) →
      s.queue.tasks.length ≤ nows.length → Serves s waiting nows) ∧
    (∀ task, .enqueue task ∈ es → task.taskId ∉ s.sending.map (·.taskId) →
      s.places task.taskId = 1) ∧
    (∀ id d, s.queue.deadLetter.lookup id = some d → d.task.taskId = id ∧ Justified d) ∧
    (s.sending = [] → s.consumer = .idle ∨ s.consumer = .dequeuing →
      ∀ p, s.queue.pendingCounter p = (s.queue.channels.get p).length) := by
  intro s waiting
  have hs : Sound _ waiting s := sound_run buffer hids
  refine ⟨?_, ?_, ?_, hs.justified, ?_⟩
  · intro task hmove
    obtain ⟨queue, hselect⟩ := of_move_select hmove
    obtain ⟨-, -, -, -, htasks⟩ := of_select hselect
    rw [← hs.find?_tasks, htasks, find?_cons_of_pos rfl]
  · intro hconsumer nows hclock hlong
    rcases run_rounds hclock hconsumer hlong with ⟨now, hmem, task, hfind, hdone⟩ |
      ⟨hwaiting, hhanded, hall⟩
    · rw [hs.find?_tasks] at hfind
      exact .inl ⟨now, hmem, task, hfind, hdone⟩
    · exact .inr ⟨hwaiting, hhanded, fun task htask => hall task (hs.mem_tasks htask)⟩
  · intro task henqueue hsent
    have hplaced := hs.placed task.taskId
    have hmem : task.taskId ∈ es.flatMap Event.enqueued :=
      mem_flatMap.2 ⟨_, henqueue, mem_singleton_self _⟩
    have hsending : s.sending.countP (named task.taskId) = 0 := by
      rw [countP_eq_zero]
      intro t ht hname
      exact hsent (mem_map.2 ⟨t, ht, of_decide_eq_true hname⟩)
    rw [count_eq_one_of_mem hids hmem] at hplaced
    omega
  · intro hsending hconsumer p
    have hcounted := hs.counted p
    have hnone : s.consumer.counted = [] := by
      rcases hconsumer with h | h <;> rw [h] <;> rfl
    rw [hsending, hnone] at hcounted
    exact hcounted

/-- An expired task of the highest level is passed over for one of the next, which returns. -/
def twoLevels : List Event := [
  .enqueue (taskFor "a" .high 1 (some (-1))), .enqueue (taskFor "b" .normal 1 none),
  .enqueue (taskFor "c" .normal 1 none), .send 1, .send 0, .send 0, .dequeue, .select, .decrement,
  .check 0, .select, .decrement, .check 0, .retryOrDeadLetter 0 "failed" 0, .resend, .dequeue]

theorem two_levels_in_line :
    let s := run exec (new 2) twoLevels
    (line 2 twoLevels).map (·.taskId) = ["c", "b"] ∧ s.consumer = .dequeuing ∧
      Serves s (line 2 twoLevels) [0, 0] ∧ s.places "a" = 1 := by
  have h := channels_are_a_line 2 twoLevels (by decide)
  exact ⟨by decide +kernel, by decide +kernel,
    h.2.1 (by decide +kernel) [0, 0] (by decide) (by decide +kernel),
    h.2.2.1 (taskFor "a" .high 1 (some (-1))) (by decide) (by decide +kernel)⟩

end System

end Haltchain.Queue
