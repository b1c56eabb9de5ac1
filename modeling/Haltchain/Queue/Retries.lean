import Haltchain.Queue.Line
import Haltchain.Queue.Redis

/-! # How often a task is tried again

A consumer may give back a task once more than it has attempts; but the count of attempts stops at
255. This is the same for both queues: seen from outside, a queue is a bag of tasks and a set of
dead letters. -/

namespace Haltchain.Queue

open Lib List Option

/-! ## The life of a task -/

inductive Life where
  | absent
  | live (task : DeepScanTask)
  | dead

/-- Where a task may be after so many calls of `retry_or_dead_letter`. -/
inductive Lived (first : DeepScanTask) : Nat → Life → Prop where
  | absent : Lived first 0 .absent
  | arrive : Lived first 0 (.live first)
  | retry {n : Nat} {task task' : DeepScanTask} (h : Lived first n (.live task))
      (hretry : task.retry = some task') : Lived first (n + 1) (.live task')
  | giveUp {n : Nat} {task : DeepScanTask} (h : Lived first n (.live task))
      (hretry : task.retry = none) : Lived first (n + 1) .dead
  | expire {n : Nat} {task : DeepScanTask} (h : Lived first n (.live task)) : Lived first n .dead

/-- The calls made, if the count of attempts does not stop too early. -/
def Bounded (first : DeepScanTask) (n : Nat) : Life → Prop
  | .absent => n = 0
  | .live task => task.maxAttempts = first.maxAttempts ∧ task.attempts.toNat = n ∧
      n ≤ first.maxAttempts.toNat
  | .dead => n ≤ first.maxAttempts.toNat + 1

variable {first : DeepScanTask}

theorem Lived.bounded (hattempts : first.attempts = 0) (hmax : first.maxAttempts.toNat < 255)
    {n : Nat} {life : Life} (h : Lived first n life) : Bounded first n life := by
  induction h with
  | absent => rfl
  | arrive => exact ⟨rfl, by rw [hattempts]; rfl, Nat.zero_le _⟩
  | @retry n task task' _ hretry ih =>
    obtain ⟨hsame, hn, hle⟩ := ih
    have hsome : task.retry ≠ none := by rw [hretry]; exact some_ne_none _
    rw [Ne, DeepScanTask.retry_eq_none_iff, hsame] at hsome
    rw [DeepScanTask.of_retry hretry]
    refine ⟨hsame, ?_, by omega⟩
    rw [toNat_saturatingAdd_one]
    omega
  | giveUp _ _ ih => exact Nat.succ_le_succ ih.2.2
  | expire _ ih => exact Nat.le_succ_of_le ih.2.2

/-! ## A queue from outside -/

/-- The tasks in the queue or with the consumer, and the dead letters. -/
structure Bag where
  tasks : List DeepScanTask
  dead : String → Prop

/-- What a step does to a bag, with the task that arrives and the one retried. -/
inductive Bag.Change (b b' : Bag) : Option DeepScanTask → Option DeepScanTask → Prop where
  | arrive {task : DeepScanTask} (h : b'.tasks.Perm (task :: b.tasks)) :
      Change b b' (some task) none
  | expire (tasks : List DeepScanTask) (h : b.tasks.Perm (tasks ++ b'.tasks))
      (hdead : ∀ task ∈ tasks, b'.dead task.taskId) : Change b b' none none
  | giveUp {task : DeepScanTask} (h : b.tasks.Perm (task :: b'.tasks))
      (hdead : b'.dead task.taskId) (hretry : task.retry = none) : Change b b' none (some task)
  | retry {task task' : DeepScanTask} (rest : List DeepScanTask)
      (h : b.tasks.Perm (task :: rest)) (h' : b'.tasks.Perm (task' :: rest))
      (hretry : task.retry = some task') : Change b b' none (some task)

/-- What a bag says of the life of a task, if the given ids have arrived. -/
def Tells (ids : List String) (id : String) (b : Bag) : Life → Prop
  | .absent => id ∉ ids ∧ b.tasks.filter (named id) = []
  | .live task => id ∈ ids ∧ b.tasks.filter (named id) = [task]
  | .dead => id ∈ ids ∧ b.tasks.filter (named id) = [] ∧ b.dead id

variable {task : DeepScanTask}

section

variable {ids : List String} {id : String} {b b' : Bag} {life : Life}

theorem Tells.of_perm (h : Tells ids id b life)
    (hperm : (b'.tasks.filter (named id)).Perm (b.tasks.filter (named id)))
    (hdead : b.dead id → b'.dead id) {ids' : List String} (hids : id ∈ ids' ↔ id ∈ ids) :
    Tells ids' id b' life := by
  cases life with
  | absent =>
    rw [h.2] at hperm
    exact ⟨fun hmem => h.1 (hids.1 hmem), hperm.eq_nil⟩
  | live task =>
    rw [h.2] at hperm
    exact ⟨hids.2 h.1, perm_singleton.1 hperm⟩
  | dead =>
    rw [h.2.1] at hperm
    exact ⟨hids.2 h.1, hperm.eq_nil, hdead h.2.2⟩

theorem Tells.eq_live {rest : List DeepScanTask} (h : Tells ids id b life)
    (hperm : b.tasks.Perm (task :: rest)) (hname : task.taskId = id) :
    life = .live task ∧ id ∈ ids ∧ rest.filter (named id) = [] := by
  have hfilter := hperm.filter (named id)
  rw [filter_cons_of_pos (by simpa [named] using hname)] at hfilter
  cases life with
  | absent =>
    rw [h.2] at hfilter
    cases hfilter.symm.eq_nil
  | live task' =>
    rw [h.2] at hfilter
    have hsingle := singleton_perm.1 hfilter
    obtain ⟨rfl, hrest⟩ := cons.inj hsingle
    exact ⟨rfl, h.1, hrest.symm⟩
  | dead =>
    rw [h.2.1] at hfilter
    cases hfilter.symm.eq_nil

theorem filter_named_cons (hname : task.taskId ≠ id) (rest : List DeepScanTask) :
    (task :: rest).filter (named id) = rest.filter (named id) :=
  filter_cons_of_neg (by simpa [named] using hname)

theorem Tells.of_other {rest : List DeepScanTask} (h : Tells ids id b life)
    (hperm : b.tasks.Perm (task :: rest)) (hname : task.taskId ≠ id)
    (hrest : (b'.tasks.filter (named id)).Perm (rest.filter (named id)))
    (hdead : b.dead id → b'.dead id) : Tells ids id b' life := by
  have hfilter := hperm.filter (named id)
  rw [filter_named_cons hname] at hfilter
  exact h.of_perm (hrest.trans hfilter.symm) hdead .rfl

theorem countP_named_some (task : DeepScanTask) :
    (some task).toList.countP (named id) = if task.taskId = id then 1 else 0 := by
  simp [named]

variable {n : Nat} {first : DeepScanTask} {arrival called : Option DeepScanTask}

/-- One step in the life of a task. -/
theorem Tells.step (hlived : Lived first n life) (h : Tells ids id b life)
    (hchange : b.Change b' arrival called) (hdead : ∀ id, b.dead id → b'.dead id)
    (hids : (ids ++ arrival.toList.map (·.taskId)).Nodup)
    (hfirst : ∀ task ∈ arrival, task.taskId = id → task = first) :
    ∃ life', Lived first (n + called.toList.countP (named id)) life' ∧
      Tells (ids ++ arrival.toList.map (·.taskId)) id b' life' := by
  cases hchange with
  | @arrive task hperm =>
    by_cases hname : task.taskId = id
    · -- it is new
      obtain rfl := hfirst task rfl hname
      subst hname
      have hnew : task.taskId ∉ ids := by
        intro hmem
        exact (nodup_append.1 hids).2.2 _ hmem _ (mem_singleton_self _) rfl
      cases life with
      | absent =>
        obtain rfl : n = 0 := by cases hlived; rfl
        refine ⟨.live task, .arrive, mem_append_right _ (mem_singleton_self _), ?_⟩
        have hfilter := hperm.filter (named task.taskId)
        rw [filter_cons_of_pos (by simp [named]), h.2] at hfilter
        exact perm_singleton.1 hfilter
      | live | dead => exact absurd h.1 hnew
    · refine ⟨life, hlived, h.of_perm ?_ (hdead id) ?_⟩
      · have hfilter := hperm.filter (named id)
        rwa [filter_named_cons hname] at hfilter
      · simp [Ne.symm hname]
  | @expire tasks hperm hexpired =>
    rw [toList_none, map_nil, append_nil, countP_nil, Nat.add_zero]
    by_cases hmem : ∃ task ∈ tasks, task.taskId = id
    · obtain ⟨task, hmem, hname⟩ := hmem
      obtain ⟨front, back, rfl⟩ := append_of_mem hmem
      have hperm' : b.tasks.Perm (task :: (front ++ (back ++ b'.tasks))) := by
        refine hperm.trans ?_
        rw [append_assoc]
        exact perm_middle
      obtain ⟨rfl, hid, hrest⟩ := h.eq_live hperm' hname
      refine ⟨.dead, .expire hlived, hid, ?_, hname ▸ hexpired task hmem⟩
      rw [filter_append, filter_append] at hrest
      exact (append_eq_nil_iff.1 (append_eq_nil_iff.1 hrest).2).2
    · refine ⟨life, hlived, h.of_perm ?_ (hdead id) .rfl⟩
      have hnone : tasks.filter (named id) = [] := by
        rw [filter_eq_nil_iff]
        intro task htask hname
        exact hmem ⟨task, htask, of_decide_eq_true hname⟩
      have hfilter := hperm.filter (named id)
      rw [filter_append, hnone] at hfilter
      exact hfilter.symm
  | @giveUp task hperm hgone hretry =>
    rw [toList_none, map_nil, append_nil, countP_named_some]
    by_cases hname : task.taskId = id
    · obtain ⟨rfl, hid, hrest⟩ := h.eq_live hperm hname
      rw [if_pos hname]
      exact ⟨.dead, .giveUp hlived hretry, hid, hrest, hname ▸ hgone⟩
    · rw [if_neg hname]
      exact ⟨life, hlived, h.of_other hperm hname (.refl _) (hdead id)⟩
  | @retry task task' rest hperm hperm' hretry =>
    rw [toList_none, map_nil, append_nil, countP_named_some]
    have hsame : task'.taskId = task.taskId := by rw [DeepScanTask.of_retry hretry]
    have hfilter := hperm'.filter (named id)
    by_cases hname : task.taskId = id
    · obtain ⟨rfl, hid, hrest⟩ := h.eq_live hperm hname
      rw [if_pos hname]
      refine ⟨.live task', .retry hlived hretry, hid, ?_⟩
      rw [filter_cons_of_pos (by simp [named, hsame, hname]), hrest] at hfilter
      exact perm_singleton.1 hfilter
    · rw [if_neg hname]
      rw [filter_named_cons (hsame ▸ hname)] at hfilter
      exact ⟨life, hlived, h.of_other hperm hname hfilter (hdead id)⟩

end

/-! ## Every run of a queue -/

variable {now : Int}

section

variable {S E : Type} {f : S → E → S} (bag : S → Bag) {arrival : E → Option DeepScanTask}
  {called : S → E → Option DeepScanTask}

/-- A run of a queue whose steps change its bag so is a life of each task. -/
theorem lived_run (hchange : ∀ s e, (bag s).Change (bag (f s e)) (arrival e) (called s e))
    (hdead : ∀ s e id, (bag s).dead id → (bag (f s e)).dead id) {s : S} (hs : (bag s).tasks = [])
    {es : List E} (hids : ((es.filterMap arrival).map (·.taskId)).Nodup)
    (hfirst : ∀ task ∈ es.filterMap arrival, task.taskId = first.taskId → task = first) :
    ∃ life, Lived first ((outputs f called s es).countP (named first.taskId)) life ∧
      Tells ((es.filterMap arrival).map (·.taskId)) first.taskId (bag (run f s es)) life := by
  induction es using reverseRecOn with
  | nil => exact ⟨.absent, .absent, not_mem_nil, by rw [run_nil, hs]; rfl⟩
  | append_singleton es e ih =>
    rw [filterMap_append, map_append] at hids ⊢
    rw [filterMap_append] at hfirst
    obtain ⟨life, hlived, htells⟩ := ih (nodup_append.1 hids).1
      fun task htask => hfirst task (mem_append_left _ htask)
    rw [outputs_concat, countP_append, run_concat]
    refine htells.step hlived (hchange _ e) (hdead _ e) hids fun task htask => ?_
    exact hfirst task (mem_append_right _ (mem_toList.2 htask))

/-- At most as many calls as the task has attempts, and one more for its dead letter. -/
def CallsBounded (first : DeepScanTask) (calls : Nat) (dead : Prop) : Prop :=
  calls ≤ first.maxAttempts.toNat + 1 ∧ (¬ dead → calls ≤ first.maxAttempts.toNat)

theorem callsBounded_of_lived (hattempts : first.attempts = 0)
    (hmax : first.maxAttempts.toNat < 255) {calls : Nat} {life : Life}
    (h : Lived first calls life) {ids : List String} {b : Bag}
    (htells : Tells ids first.taskId b life) : CallsBounded first calls (b.dead first.taskId) := by
  have hbounded := h.bounded hattempts hmax
  cases life with
  | absent =>
    have hzero : calls = 0 := hbounded
    exact ⟨by omega, fun _ => by omega⟩
  | live task => exact ⟨Nat.le_succ_of_le hbounded.2.2, fun _ => hbounded.2.2⟩
  | dead => exact ⟨hbounded, fun hnot => absurd htells.2.2 hnot⟩

/-- The calls in a run for a task that has arrived in it. -/
theorem callsBounded_run (hchange : ∀ s e, (bag s).Change (bag (f s e)) (arrival e) (called s e))
    (hdead : ∀ s e id, (bag s).dead id → (bag (f s e)).dead id) {s : S} (hs : (bag s).tasks = [])
    (hattempts : first.attempts = 0) (hmax : first.maxAttempts.toNat < 255) {es : List E}
    (hids : ((es.filterMap arrival).map (·.taskId)).Nodup) (hmem : first ∈ es.filterMap arrival) :
    CallsBounded first ((outputs f called s es).countP (named first.taskId))
      ((bag (run f s es)).dead first.taskId) := by
  obtain ⟨life, hlived, htells⟩ := lived_run bag hchange hdead hs hids
    fun t ht hname => inj_on_of_nodup_map hids ht hmem hname
  exact callsBounded_of_lived hattempts hmax hlived htells

/-! ### A task that is tried for ever -/

/-- With 255 attempts there is always one more. -/
theorem exists_retry (hmax : task.maxAttempts.toNat = 255) : ∃ task', task.retry = some task' := by
  refine ne_none_iff_exists'.1 ?_
  rw [Ne, DeepScanTask.retry_eq_none_iff]
  omega

theorem exists_unexpired (task : DeepScanTask) : ∃ now, task.isExpired now = false := by
  cases h : task.expiresAt with
  | none => exact ⟨0, by simp [DeepScanTask.isExpired, h]⟩
  | some e => exact ⟨e, by simp [DeepScanTask.isExpired, h]⟩

theorem mem_of_mem_cycles {cycle : List E} {n : Nat} {e : E}
    (h : e ∈ (replicate n cycle).flatten) : e ∈ cycle := by
  obtain ⟨l, hl, he⟩ := mem_flatten.1 h
  rwa [eq_of_mem_replicate hl] at he

/-- If a consumer can take a task and give it back, it can do so any number of times. -/
theorem countP_cycles (holds : DeepScanTask → S → Prop) {cycle : List E}
    (hcycle : ∀ task task' s, task.isExpired now = false → task.retry = some task' → holds task s →
      holds task' (run f s cycle) ∧ outputs f called s cycle = [task])
    {s : S} (hmax : task.maxAttempts.toNat = 255) (hnow : task.isExpired now = false)
    (hs : holds task s) (n : Nat) :
    (outputs f called s (replicate n cycle).flatten).countP (named task.taskId) = n := by
  induction n generalizing task s with
  | zero => rfl
  | succ n ih =>
    obtain ⟨task', hretry⟩ := exists_retry hmax
    obtain ⟨hrun, houtputs⟩ := hcycle task task' s hnow hretry hs
    have hsame := DeepScanTask.of_retry hretry
    have hname : task'.taskId = task.taskId := by rw [hsame]
    have hrest := ih (by rw [hsame]; exact hmax) (by rw [hsame]; exact hnow) hrun
    rw [replicate_succ, flatten_cons, outputs_append, houtputs, countP_append, ← hname, hrest]
    simp [named, hname, Nat.add_comm]

theorem not_callsBounded (hmax : task.maxAttempts.toNat = 255) {calls : Nat}
    (hcalls : calls = 257) (dead : Prop) : ¬ CallsBounded task calls dead := by
  rintro ⟨hle, -⟩
  omega

end

/-! ## The queue in memory -/

namespace System

/-- The task with which a call of `enqueue` begins. -/
def arrival : Event → Option DeepScanTask
  | .enqueue task => some task
  | _ => none

/-- The tasks that are under way, and the dead letters. -/
def bag (s : System) : Bag := ⟨s.underWay, fun id => id ∈ s.queue.deadLetter⟩

variable {s : System}

theorem arrival_of_enqueued {e : Event} (h : e.enqueued = []) : arrival e = none := by
  cases e with
  | enqueue task => cases h
  | _ => rfl

section

variable {s' : System} {e : Event} {m : Option (Move DeepScanTask)}

theorem change_step (hstep : Step s e m s') : s.bag.Change s'.bag (arrival e) (s.called e) := by
  cases flow_step hstep with
  | move h _ he hcalled =>
    rw [arrival_of_enqueued he, hcalled]
    exact .expire [] h.symm nofun
  | arrive h _ he =>
    subst he
    exact .arrive h
  | @die task now reason h hdead he hwhy =>
    have hgone : s'.bag.dead task.taskId := by
      simp only [bag, hdead, AList.mem_insert, true_or]
    rw [arrival_of_enqueued he]
    rcases hwhy with ⟨hcalled, -⟩ | ⟨hcalled, hretry⟩
    · rw [hcalled]
      refine .expire [task] h fun t ht => ?_
      rwa [mem_singleton.1 ht]
    · rw [hcalled]
      exact .giveUp h hgone hretry
  | retry rest h h' _ he hcalled hretry =>
    rw [arrival_of_enqueued he, hcalled]
    exact .retry rest h h' hretry

theorem dead_step (hstep : Step s e m s') (id : String) (h : s.bag.dead id) : s'.bag.dead id := by
  cases flow_step hstep with
  | move _ hdead | arrive _ hdead | retry _ _ _ hdead => simpa only [bag, hdead] using h
  | die _ hdead =>
    simp only [bag, hdead]
    exact (AList.mem_insert _).2 (.inr h)

end

theorem flatMap_enqueued (es : List Event) :
    es.flatMap Event.enqueued = (es.filterMap arrival).map (·.taskId) := by
  induction es with
  | nil => rfl
  | cons e es ih =>
    rw [flatMap_cons, ih]
    cases e <;> rfl

/-- In no run are there too many calls for a task. -/
def RetriesBounded (task : DeepScanTask) : Prop :=
  ∀ (buffer : Nat) (es : List Event), (es.flatMap Event.enqueued).Nodup → .enqueue task ∈ es →
    CallsBounded task ((outputs exec called (new buffer) es).countP (named task.taskId))
      (task.taskId ∈ (run exec (new buffer) es).queue.deadLetter)

theorem retriesBounded (hattempts : task.attempts = 0) (hmax : task.maxAttempts.toNat < 255) :
    RetriesBounded task := by
  intro buffer es hids hmem
  rw [flatMap_enqueued] at hids
  exact callsBounded_run bag (fun s e => change_step (step_exec s e))
    (fun s e => dead_step (step_exec s e)) rfl hattempts hmax hids
    (mem_filterMap.2 ⟨_, hmem, rfl⟩)

/-- The consumer takes a task and gives it back. -/
def cycle (now : Int) : List Event :=
  [.dequeue, .select, .decrement, .check now, .retryOrDeadLetter 0 "failed" now, .resend]

/-- There is one task. -/
def alone (task : DeepScanTask) (retried : Nat) : System where
  queue :=
    { cap := 1
      channels := (⟨[], [], []⟩ : Levels (List DeepScanTask)).set task.priority [task]
      deadLetter := ∅
      pending := (⟨0, 0, 0⟩ : Levels Nat).set task.priority 1
      deadLetterCount := 0
      retriedCount := retried }
  sending := []
  consumer := .idle
  handed := []

theorem run_start (task : DeepScanTask) : run exec (new 1) [.enqueue task, .send 0] = alone task 0 ∧
      outputs exec called (new 1) [.enqueue task, .send 0] = [] := by
  obtain ⟨_, _, _, _, _, _, priority, _, _, _⟩ := task
  cases priority <;> exact ⟨rfl, rfl⟩

/-- The queue while the consumer has the task. -/
def emptied (retried : Nat) : TokioChannelQueue :=
  { TokioChannelQueue.new 1 with retriedCount := retried }

theorem run_cycle {task' : DeepScanTask} (h : task.isExpired now = false)
    (hretry : task.retry = some task') (n : Nat) :
    run exec (alone task n) (cycle now) = alone task' (n + 1) ∧
      outputs exec called (alone task n) (cycle now) = [task] := by
  have htake : run exec (alone task n) [.dequeue, .select, .decrement] =
      ⟨emptied n, [], .decremented task, []⟩ ∧
      outputs exec called (alone task n) [.dequeue, .select, .decrement] = [] := by
    obtain ⟨_, _, _, _, _, _, priority, _, _, _⟩ := task
    cases priority <;> exact ⟨rfl, rfl⟩
  have hcheck : exec ⟨emptied n, [], .decremented task, []⟩ (.check now) =
      ⟨emptied n, [], .idle, [task]⟩ := by
    simp [exec, h]
  have hgive : exec ⟨emptied n, [], .idle, [task]⟩ (.retryOrDeadLetter 0 "failed" now) =
      ⟨(emptied n).incrementRetried.incrementPending task'.priority, [], .retrying task', []⟩ := by
    simp [exec, hretry]
  have hresend : exec
      ⟨(emptied n).incrementRetried.incrementPending task'.priority, [], .retrying task', []⟩
      .resend = alone task' (n + 1) := by
    obtain ⟨_, _, _, _, _, _, priority, _, _, _⟩ := task'
    cases priority <;> rfl
  have hsplit : cycle now = [.dequeue, .select, .decrement] ++
      [.check now, .retryOrDeadLetter 0 "failed" now, .resend] := rfl
  rw [hsplit, run_append, outputs_append, htake.1, htake.2]
  refine ⟨?_, ?_⟩
  · rw [run_cons, run_cons, run_cons, run_nil, hcheck, hgive, hresend]
  · rw [outputs, hcheck]
    rfl

/-- A task with 255 attempts may be given back any number of times. -/
theorem exists_run (hmax : task.maxAttempts.toNat = 255) (n : Nat) :
    ∃ es : List Event, (es.flatMap Event.enqueued).Nodup ∧ .enqueue task ∈ es ∧
      (outputs exec called (new 1) es).countP (named task.taskId) = n := by
  obtain ⟨now, hnow⟩ := exists_unexpired task
  have hnone : (replicate n (cycle now)).flatten.flatMap Event.enqueued = [] := by
    rw [flatMap_eq_nil_iff]
    intro e he
    have he := mem_of_mem_cycles he
    simp only [cycle, mem_cons, not_mem_nil, or_false] at he
    rcases he with rfl | rfl | rfl | rfl | rfl | rfl <;> rfl
  refine ⟨[.enqueue task, .send 0] ++ (replicate n (cycle now)).flatten, ?_,
    mem_append_left _ mem_cons_self, ?_⟩
  · rw [flatMap_append, hnone]
    exact nodup_singleton _
  · rw [outputs_append, (run_start task).1]
    refine countP_cycles (fun task s => ∃ n, s = alone task n) ?_ hmax hnow ⟨0, rfl⟩ n
    rintro task task' s hnow hretry ⟨n, rfl⟩
    obtain ⟨hrun, houtputs⟩ := run_cycle hnow hretry n
    exact ⟨⟨n + 1, hrun⟩, houtputs⟩

theorem not_retriesBounded (hmax : task.maxAttempts.toNat = 255) : ¬ RetriesBounded task := by
  intro hbounded
  obtain ⟨es, hids, hmem, hcalls⟩ := exists_run hmax 257
  exact not_callsBounded hmax hcalls _ (hbounded 1 es hids hmem)

end System

/-! ## The queue in Redis -/

/-- The server, and what the consumer has been given. -/
structure RedisSystem (T : Type) where
  store : RedisStore T
  handed : List DeepScanTask

/-- A call of the queue. -/
inductive RedisEvent where
  | enqueue (task : DeepScanTask)
  | dequeue (clock : Nat → Int)
  | retryOrDeadLetter (i : Nat) (reason : String) (now : Int)

namespace RedisSystem

variable {T : Type} (C : Codec T)

/-- Nothing is in the queue. -/
def new : RedisSystem T := ⟨.empty, []⟩

def succeeding (clock : Nat → Int) (i : Nat) : Turn := ⟨.none, clock i⟩

/-- All commands succeed. -/
def exec (s : RedisSystem T) : RedisEvent → RedisSystem T
  | .enqueue task => { s with store := (C.enqueue .none s.store task).2 }
  | .dequeue clock =>
    let out := C.dequeue (succeeding clock) s.store
    ⟨out.2, s.handed ++ out.1.toList⟩
  | .retryOrDeadLetter i reason now =>
    match s.handed[i]? with
    | some task =>
      ⟨(C.retryOrDeadLetter .none s.store task now reason).2, s.handed.eraseIdx i⟩
    | none => s

def arrival : RedisEvent → Option DeepScanTask
  | .enqueue task => some task
  | _ => none

def called (s : RedisSystem T) : RedisEvent → Option DeepScanTask
  | .retryOrDeadLetter i _ _ => s.handed[i]?
  | _ => none

def bag (s : RedisSystem T) : Bag :=
  ⟨s.store.line.filterMap C.decode ++ s.handed, fun id => id ∈ s.store.deadLetter⟩

variable {C} {s : RedisSystem T}

theorem perm_line_push (store : RedisStore T) (p : QueuePriority) (x : T) :
    ({ store with lists := store.lists.set p (x :: store.lists.get p) } : RedisStore T).line.Perm
      (x :: store.line) := by
  cases p
  all_goals
    simp only [RedisStore.line, Levels.set, Levels.get, reverse_cons, append_assoc]
  · exact perm_middle
  · exact (perm_middle.append_left _).trans perm_middle
  · have hlast := perm_append_singleton x store.line
    simpa only [RedisStore.line, append_assoc] using hlast

theorem countP_enqueue (store : RedisStore T) (task : DeepScanTask) (P : DeepScanTask → Bool) :
    ((C.enqueue .none store task).2.line.filterMap C.decode).countP P =
      (store.line.filterMap C.decode).countP P + [task].countP P := by
  have hline : (C.enqueue .none store task).2.line = ({ store with
    lists := store.lists.set task.priority (C.encode task :: store.lists.get task.priority) } :
      RedisStore T).line := rfl
  have hperm := (perm_line_push store task.priority (C.encode task)).filterMap C.decode
  rw [filterMap_cons_some (C.decode_encode task)] at hperm
  rw [hline, hperm.countP_eq, countP_cons, countP_singleton]

theorem change_enqueue (task : DeepScanTask) :
    (s.bag C).Change ((s.exec C (.enqueue task)).bag C) (some task) none := by
  refine .arrive (perm_of_countP fun P => ?_)
  have hcount := countP_enqueue (C := C) s.store task P
  simp only [bag, exec, countP_append, countP_cons, countP_nil] at hcount ⊢
  omega

theorem change_dequeue (clock : Nat → Int) :
    (s.bag C).Change ((s.exec C (.dequeue clock)).bag C) none none := by
  obtain ⟨⟨taken, hline, htaken⟩, hstored⟩ := C.takes_dequeue (succeeding clock) s.store
  refine .expire ((C.expiredTurns (succeeding clock) 0 s.store.line).map Prod.snd)
    (perm_of_countP fun P => ?_) ?_
  · simp only [bag, exec]
    conv_lhs => rw [hline]
    rw [filterMap_append, htaken]
    simp only [countP_append]
    omega
  · intro task htask
    obtain ⟨x, hx, rfl⟩ := mem_map.1 htask
    exact (hstored _).2 (.inr ⟨x, hx, ⟨rfl, rfl⟩, rfl⟩)

theorem change_retryOrDeadLetter (i : Nat) (reason : String) (now : Int) :
    (s.bag C).Change ((s.exec C (.retryOrDeadLetter i reason now)).bag C) none s.handed[i]? := by
  cases hi : s.handed[i]? with
  | none =>
    simp only [exec, hi]
    exact .expire [] (.refl _) nofun
  | some task =>
    simp only [exec, hi]
    cases hretry : task.retry with
    | none =>
      have hput : C.retryOrDeadLetter .none s.store task now reason =
          C.putDeadLetter .none s.store task now reason := by
        simp only [Codec.retryOrDeadLetter, hretry]
        rfl
      obtain ⟨hlists, hdead⟩ := C.putDeadLetter_frame .none s.store task now reason
      rw [hput]
      refine .giveUp (perm_of_countP fun P => ?_) ((hdead _).2 (.inr ⟨⟨rfl, rfl⟩, rfl⟩)) hretry
      have hhanded := countP_eraseIdx hi P
      simp only [bag, RedisStore.line_of_lists hlists, countP_append, countP_cons,
        countP_nil] at hhanded ⊢
      omega
    | some task' =>
      have hput : (C.retryOrDeadLetter .none s.store task now reason).2 =
          (C.enqueue .none (s.store.metricInc .none "retried" 1).2 task').2 := by
        simp only [Codec.retryOrDeadLetter, hretry]
        rfl
      rw [hput]
      refine .retry (s.store.line.filterMap C.decode ++ s.handed.eraseIdx i)
        (perm_of_countP fun P => ?_) (perm_of_countP fun P => ?_) hretry
      · have hhanded := countP_eraseIdx hi P
        simp only [bag, countP_append, countP_cons, countP_nil] at hhanded ⊢
        omega
      · have hcount := countP_enqueue (C := C) (s.store.metricInc .none "retried" 1).2 task' P
        have hline : (s.store.metricInc .none "retried" 1).2.line = s.store.line := rfl
        rw [hline] at hcount
        simp only [bag, countP_append, countP_cons, countP_nil] at hcount ⊢
        omega

theorem change_exec (s : RedisSystem T) (e : RedisEvent) :
    (s.bag C).Change ((s.exec C e).bag C) (arrival e) (s.called e) := by
  cases e with
  | enqueue task => exact change_enqueue task
  | dequeue clock => exact change_dequeue clock
  | retryOrDeadLetter i reason now => exact change_retryOrDeadLetter i reason now

theorem dead_exec (s : RedisSystem T) (e : RedisEvent) (id : String) (h : (s.bag C).dead id) :
    ((s.exec C e).bag C).dead id := by
  cases e with
  | enqueue task => exact h
  | dequeue clock => exact ((C.takes_dequeue (succeeding clock) s.store).2 id).2 (.inl h)
  | retryOrDeadLetter i reason now =>
    cases hi : s.handed[i]? with
    | none =>
      simp only [exec, hi]
      exact h
    | some task =>
      simp only [exec, hi, Codec.retryOrDeadLetter]
      cases task.retry with
      | none => exact ((C.putDeadLetter_frame .none s.store task now reason).2 id).2 (.inl h)
      | some task' => exact h

variable (C) in
/-- In no run are there too many calls for a task. -/
def RetriesBounded (task : DeepScanTask) : Prop :=
  ∀ es : List RedisEvent, ((es.filterMap arrival).map (·.taskId)).Nodup → .enqueue task ∈ es →
    CallsBounded task ((outputs (exec C) called new es).countP (named task.taskId))
      (task.taskId ∈ (run (exec C) new es).store.deadLetter)

theorem retriesBounded (hattempts : task.attempts = 0) (hmax : task.maxAttempts.toNat < 255) :
    RetriesBounded C task := by
  intro es hids hmem
  exact callsBounded_run (bag C) change_exec dead_exec rfl hattempts hmax hids
    (mem_filterMap.2 ⟨_, hmem, rfl⟩)

def cycle (now : Int) : List RedisEvent :=
  [.dequeue fun _ => now, .retryOrDeadLetter 0 "failed" now]

variable (C) in
/-- There is one task. -/
def Alone (task : DeepScanTask) (s : RedisSystem T) : Prop :=
  s.store.line = [C.encode task] ∧ s.handed = []

theorem alone_enqueue {store : RedisStore T} (h : store.line = []) (task : DeepScanTask) :
    Alone C task ⟨(C.enqueue .none store task).2, []⟩ := by
  have hperm : (C.enqueue .none store task).2.line.Perm (C.encode task :: store.line) :=
    perm_line_push store task.priority (C.encode task)
  rw [h] at hperm
  exact ⟨perm_singleton.1 hperm, rfl⟩

theorem run_cycle {task' : DeepScanTask} (h : task.isExpired now = false)
    (hretry : task.retry = some task') (hs : Alone C task s) :
    Alone C task' (run (exec C) s (cycle now)) ∧
      outputs (exec C) called s (cycle now) = [task] := by
  obtain ⟨hline, hhanded⟩ := hs
  obtain ⟨hreturned, hempty⟩ := C.dequeue_of_cons (succeeding fun _ => now) ⟨rfl, rfl⟩ hline
    (C.decode_encode task) h
  have hdequeue : s.exec C (.dequeue fun _ => now) =
      ⟨(C.dequeue (succeeding fun _ => now) s.store).2, [task]⟩ := by
    simp only [exec, hreturned, hhanded]
    rfl
  rw [cycle, run_cons, outputs, hdequeue]
  refine ⟨?_, rfl⟩
  have hput : (C.retryOrDeadLetter .none (C.dequeue (succeeding fun _ => now) s.store).2 task now
      "failed").2 = (C.enqueue .none ((C.dequeue (succeeding fun _ => now) s.store).2.metricInc
        .none "retried" 1).2 task').2 := by
    simp only [Codec.retryOrDeadLetter, hretry]
    rfl
  rw [run_cons]
  simp only [exec, getElem?_cons_zero, hput]
  exact alone_enqueue hempty task'

theorem exists_run (hmax : task.maxAttempts.toNat = 255) (n : Nat) :
    ∃ es : List RedisEvent, ((es.filterMap arrival).map (·.taskId)).Nodup ∧ .enqueue task ∈ es ∧
      (outputs (exec C) called new es).countP (named task.taskId) = n := by
  obtain ⟨now, hnow⟩ := exists_unexpired task
  have hnone : (replicate n (cycle now)).flatten.filterMap arrival = [] := by
    rw [filterMap_eq_nil_iff]
    intro e he
    have he := mem_of_mem_cycles he
    simp only [cycle, mem_cons, not_mem_nil, or_false] at he
    rcases he with rfl | rfl <;> rfl
  refine ⟨[.enqueue task] ++ (replicate n (cycle now)).flatten, ?_,
    mem_append_left _ mem_cons_self, ?_⟩
  · rw [filterMap_append, hnone]
    exact nodup_singleton _
  · have hstart : Alone C task (run (exec C) new [.enqueue task]) := alone_enqueue rfl task
    exact countP_cycles (Alone C) (fun _ _ _ => run_cycle) hmax hnow hstart n

theorem not_retriesBounded (hmax : task.maxAttempts.toNat = 255) : ¬ RetriesBounded C task := by
  intro hbounded
  obtain ⟨es, hids, hmem, hcalls⟩ := exists_run (C := C) hmax 257
  exact not_callsBounded hmax hcalls _ (hbounded es hids hmem)

end RedisSystem

/-! ## Both queues -/

theorem toNat_max_one_eq_iff (m : UInt8) : (max m 1).toNat = 255 ↔ m = 255 := by
  have hmax : max m 1 = if m ≤ 1 then 1 else m := rfl
  rw [hmax, ← UInt8.toNat_inj]
  split
  · next h =>
    have hle := UInt8.le_iff_toNat_le.1 h
    simp only [UInt8.reduceToNat] at hle ⊢
    omega
  · rfl

/-- **When the retries of a task come to an end.** In every run of either queue in which a task is
enqueued, the consumer calls `retry_or_dead_letter` for it at most once more than it has attempts,
and is then rid of it, exactly if it does not have 255 attempts. -/
theorem retries_bounded_iff {T : Type} (C : Codec T) (taskId agentId sessionId trace : String)
    (callbackUrl : Option String) (priority : QueuePriority) (maxAttempts : UInt8)
    (ttlSeconds : Option Int) (built now : Int) :
    let task := (DeepScanTask.new taskId built agentId sessionId trace callbackUrl).withControls
      priority maxAttempts ttlSeconds now
    (System.RetriesBounded task ↔ maxAttempts ≠ 255) ∧
      (RedisSystem.RetriesBounded C task ↔ maxAttempts ≠ 255) := by
  intro task
  have hattempts : task.attempts = 0 := rfl
  have hmax : task.maxAttempts.toNat = 255 ↔ maxAttempts = 255 := toNat_max_one_eq_iff maxAttempts
  by_cases h255 : maxAttempts = 255
  · have hmax := hmax.2 h255
    exact ⟨iff_of_false (System.not_retriesBounded hmax) (not_not.2 h255),
      iff_of_false (RedisSystem.not_retriesBounded hmax) (not_not.2 h255)⟩
  have hlt : task.maxAttempts.toNat < 255 := by
    have hle := task.maxAttempts.toNat_lt
    have hne := mt hmax.1 h255
    omega
  exact ⟨iff_of_true (System.retriesBounded hattempts hlt) h255,
    iff_of_true (RedisSystem.retriesBounded hattempts hlt) h255⟩

/-- With 255 attempts, a task is given back 257 times in some run of each queue. -/
theorem tried_once_too_often :
    let task := taskFor "t" .normal 255 none
    task.maxAttempts.toNat + 1 = 256 ∧
    (∃ es : List Event, (es.flatMap Event.enqueued).Nodup ∧ .enqueue task ∈ es ∧
      (outputs System.exec System.called (.new 1) es).countP (named "t") = 257) ∧
    ∃ es : List RedisEvent, ((es.filterMap RedisSystem.arrival).map (·.taskId)).Nodup ∧
      .enqueue task ∈ es ∧
      (outputs (RedisSystem.exec .plain) RedisSystem.called .new es).countP (named "t") = 257 :=
  ⟨by decide, System.exists_run (by decide) 257, RedisSystem.exists_run (by decide) 257⟩

end Haltchain.Queue
