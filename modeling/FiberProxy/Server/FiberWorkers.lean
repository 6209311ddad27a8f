/-
  FiberProxy.Server.FiberWorkers

  The workers of a fiber pool one by one: `FiberPool::schedule_task_from_fiber`
  and `FiberPool::run_fiber` (`fiber-server/FiberPool.hpp`) on one thread, with
  every order in which the scheduler may resume the fibers and every choice of
  the waiter that `notify_one` wakes.

  All fibers share a thread, so what a fiber does between two suspensions is one
  step: a new fiber is only made ready, and nobody holds `task_lock_` while
  another fiber runs.  Tasks return normally, and `need_stop_` stays false.

  The workers refine the counts of `FiberPool` (`counts_step`), and what the
  counting pool carries in its fields is read off them: no wake-up is lost
  (`kept_of_run`), and workers left to themselves end with every task taken
  (`length_le_of_workers`, `Counted.tasks_of_stuck`).
-/

import FiberProxy.Lib.Lists
import FiberProxy.Lib.Run
import FiberProxy.Server.FiberPool

namespace FiberProxy.FiberWorkers

open Lib FiberPool

variable {τ : Type}

/-- Where a fiber is in `run_fiber`. -/
inductive Worker (τ : Type) where
  /-- On its way to look at the list: just created, or back from a task. -/
  | looking
  /-- In `cond_.wait`. -/
  | waiting
  /-- Notified, not resumed yet. -/
  | notified
  /-- In `task()`. -/
  | inside (t : τ)
deriving DecidableEq, Repr

namespace Worker

def isInside : Worker τ → Bool
  | inside _ => true
  | _ => false

def isWaiting : Worker τ → Bool
  | waiting => true
  | _ => false

/-- Idle, and ready to run. -/
def isRunnable : Worker τ → Bool
  | looking | notified => true
  | _ => false

end Worker

/-- The pool, and what has been put in and taken out. -/
structure State (τ : Type) where
  /-- `fiber_pool_`. -/
  workers : List (Worker τ) := []
  /-- `fiber_task_list_`. -/
  tasks : List τ := []
  runningFiberNum : Nat := 0
  scheduled : List τ := []
  /-- The tasks taken, each with its worker. -/
  taken : List (Nat × τ) := []
deriving DecidableEq, Repr

/-- The fibers that `schedule_task_from_fiber` creates. -/
def State.growth (s : State τ) : Nat :=
  if s.workers.isEmpty then growSize
  else if s.runningFiberNum ≥ s.workers.length - 1 then
    if s.workers.length > maxGrowSize then 0 else s.workers.length
  else 0

/-- `cond_.notify_one()`: one of the waiters is woken, if there is one. -/
def notifyOne (workers : List (Worker τ)) : Option Nat → Option (List (Worker τ))
  | none => if workers.any Worker.isWaiting then none else some workers
  | some i =>
    match workers[i]? with
    | some .waiting => some (workers.set i .notified)
    | _ => none

/-- `schedule_task_from_fiber`, up to its `yield`. -/
def State.scheduleTaskFromFiber (s : State τ) (t : τ) (woken : Option Nat) : Option (State τ) :=
  (notifyOne (s.workers ++ List.replicate s.growth .looking) woken).map fun workers =>
    { s with
      workers := workers
      tasks := s.tasks ++ [t]
      scheduled := s.scheduled ++ [t] }

/-- What happens on the thread. -/
inductive Event (τ : Type) where
  /-- Some fiber schedules a task; `woken` is the waiter that is notified. -/
  | schedule (t : τ) (woken : Option Nat)
  /-- A worker looks at the list. -/
  | look (i : Nat)
  /-- A worker's task returns. -/
  | finish (i : Nat)
deriving DecidableEq, Repr

/-- A step of a worker, not of a caller. -/
def Event.ofWorker : Event τ → Bool
  | .schedule _ _ => false
  | .look _ | .finish _ => true

section Machine

-- `if (task)`: the function is not empty
variable (callable : τ → Bool)

/-- The worker has the lock and looks: it waits, or takes the first task. -/
def State.lookAt (s : State τ) (i : Nat) : State τ :=
  match s.tasks with
  | [] => { s with workers := s.workers.set i .waiting }
  | t :: tasks =>
    if callable t then
      { s with
        workers := s.workers.set i (.inside t)
        tasks := tasks
        runningFiberNum := s.runningFiberNum + 1
        taken := s.taken ++ [(i, t)] }
    else
      { s with
        workers := s.workers.set i .looking
        tasks := tasks
        taken := s.taken ++ [(i, t)] }

def step (s : State τ) : Event τ → Option (State τ)
  | .schedule t woken => s.scheduleTaskFromFiber t woken
  | .look i =>
    match s.workers[i]? with
    | some .looking | some .notified => some (s.lookAt callable i)
    | _ => none
  | .finish i =>
    match s.workers[i]? with
    | some (.inside _) =>
      some { s with
        workers := s.workers.set i .looking
        runningFiberNum := s.runningFiberNum - 1 }
    | _ => none

/-! ## What a step can do -/

inductive Stepped (s : State τ) : Event τ → State τ → Prop where
  | scheduled {t : τ} {woken : Option Nat} {workers : List (Worker τ)}
      (hnotify : notifyOne (s.workers ++ List.replicate s.growth .looking) woken = some workers) :
      Stepped s (.schedule t woken)
        { s with
          workers := workers
          tasks := s.tasks ++ [t]
          scheduled := s.scheduled ++ [t] }
  | slept {i : Nat} {w : Worker τ} (hi : s.workers[i]? = some w) (hw : w.isRunnable = true)
      (htasks : s.tasks = []) :
      Stepped s (.look i) { s with workers := s.workers.set i .waiting }
  | took {i : Nat} {w : Worker τ} {t : τ} {tasks : List τ} (hi : s.workers[i]? = some w)
      (hw : w.isRunnable = true) (htasks : s.tasks = t :: tasks) (ht : callable t = true) :
      Stepped s (.look i)
        { s with
          workers := s.workers.set i (.inside t)
          tasks := tasks
          runningFiberNum := s.runningFiberNum + 1
          taken := s.taken ++ [(i, t)] }
  /-- An empty function is taken and dropped. -/
  | dropped {i : Nat} {w : Worker τ} {t : τ} {tasks : List τ} (hi : s.workers[i]? = some w)
      (hw : w.isRunnable = true) (htasks : s.tasks = t :: tasks) :
      Stepped s (.look i)
        { s with
          workers := s.workers.set i .looking
          tasks := tasks
          taken := s.taken ++ [(i, t)] }
  | finished {i : Nat} {t : τ} (hi : s.workers[i]? = some (.inside t)) :
      Stepped s (.finish i)
        { s with
          workers := s.workers.set i .looking
          runningFiberNum := s.runningFiberNum - 1 }

variable {callable}

theorem stepped_lookAt {s : State τ} {i : Nat} {w : Worker τ} (hi : s.workers[i]? = some w)
    (hw : w.isRunnable = true) : Stepped callable s (.look i) (s.lookAt callable i) := by
  unfold State.lookAt
  split
  · rename_i htasks
    exact .slept hi hw htasks
  · rename_i t tasks htasks
    split
    · rename_i ht
      exact .took hi hw htasks ht
    · exact .dropped hi hw htasks

theorem stepped_of_step {s s' : State τ} {e : Event τ} (h : step callable s e = some s') :
    Stepped callable s e s' := by
  cases e with
  | schedule t woken =>
    obtain ⟨workers, hnotify, rfl⟩ := Option.map_eq_some_iff.mp h
    exact .scheduled hnotify
  | look i =>
    simp only [step] at h
    split at h
    · obtain rfl := Option.some.inj h
      exact stepped_lookAt ‹_› rfl
    · obtain rfl := Option.some.inj h
      exact stepped_lookAt ‹_› rfl
    · cases h
  | finish i =>
    simp only [step] at h
    split at h
    · obtain rfl := Option.some.inj h
      exact .finished ‹_›
    · cases h

end Machine

/-! ## The counts of the workers -/

/-- The counting pool that stands for the workers. -/
structure Counts (s : State τ) (p : FiberPool τ) : Prop where
  running : p.running = s.runningFiberNum
  inside : p.running = s.workers.countP Worker.isInside
  awake : p.awake = s.workers.countP Worker.isRunnable
  asleep : p.asleep = s.workers.countP Worker.isWaiting
  tasks : p.tasks = s.tasks

theorem length_workers (workers : List (Worker τ)) :
    workers.length = workers.countP Worker.isInside + workers.countP Worker.isRunnable +
      workers.countP Worker.isWaiting := by
  induction workers with
  | nil => rfl
  | cons w workers ih =>
    simp only [List.length_cons, List.countP_cons, ih]
    cases w <;> simp [Worker.isInside, Worker.isRunnable, Worker.isWaiting] <;> omega

theorem Counts.size {s : State τ} {p : FiberPool τ} (h : Counts s p) :
    s.workers.length = p.size := by
  rw [length_workers, ← h.inside, ← h.awake, ← h.asleep]
  rfl

theorem Counts.growth {s : State τ} {p : FiberPool τ} (h : Counts s p) :
    s.growth = p.grown := by
  unfold State.growth FiberPool.grown
  rw [← h.size, h.running]
  simp [List.isEmpty_iff, List.length_eq_zero_iff]

/-- `notify_one` moves one waiter, if there is one. -/
theorem countP_notifyOne {workers workers' : List (Worker τ)} {woken : Option Nat}
    (h : notifyOne workers woken = some workers') :
    workers'.countP Worker.isInside = workers.countP Worker.isInside ∧
      workers'.countP Worker.isRunnable = workers.countP Worker.isRunnable +
        (if workers.countP Worker.isWaiting = 0 then 0 else 1) ∧
      workers'.countP Worker.isWaiting = workers.countP Worker.isWaiting - 1 := by
  unfold notifyOne at h
  split at h
  · obtain ⟨hnone, heq⟩ := Option.ite_none_left_eq_some.mp h
    obtain rfl := Option.some.inj heq
    have hzero : workers.countP Worker.isWaiting = 0 := by
      rw [List.countP_eq_zero]
      simpa using hnone
    exact ⟨rfl, by rw [if_pos hzero]; rfl, by rw [hzero]⟩
  · split at h
    · rename_i i hi
      obtain rfl := Option.some.inj h
      have hin := countP_set_add hi .notified Worker.isInside
      have hrun := countP_set_add hi .notified Worker.isRunnable
      have hwait := countP_set_add hi .notified Worker.isWaiting
      simp only [Worker.isInside, Worker.isRunnable, Worker.isWaiting, if_true, if_false,
        Bool.false_eq_true] at hin hrun hwait
      have hpos : workers.countP Worker.isWaiting ≠ 0 := by omega
      rw [if_neg hpos]
      exact ⟨by omega, by omega, by omega⟩
    · cases h

theorem Counts.schedule {s : State τ} {p : FiberPool τ} (h : Counts s p) {t : τ}
    {woken : Option Nat} {workers : List (Worker τ)}
    (hnotify : notifyOne (s.workers ++ List.replicate s.growth .looking) woken = some workers) :
    Counts { s with
      workers := workers
      tasks := s.tasks ++ [t]
      scheduled := s.scheduled ++ [t] } (p.scheduleTaskFromFiber t) := by
  obtain ⟨hin, hrun, hwait⟩ := countP_notifyOne hnotify
  simp only [List.countP_append, List.countP_replicate, Worker.isInside, Worker.isRunnable,
    Worker.isWaiting, if_true, if_false, Bool.false_eq_true, Nat.add_zero] at hin hrun hwait
  refine ⟨h.running, h.inside.trans hin.symm, ?_, ?_, ?_⟩
  · show p.awake + p.grown + (if p.asleep = 0 then 0 else 1) = workers.countP _
    rw [hrun, h.awake, h.asleep, h.growth]
  · show p.asleep - 1 = workers.countP _
    rw [hwait, h.asleep]
  · show p.tasks ++ [t] = s.tasks ++ [t]
    rw [h.tasks]

/-- How a worker counts. -/
theorem Worker.toNat_runnable {w : Worker τ} (h : w.isRunnable = true) :
    w.isInside.toNat = 0 ∧ w.isRunnable.toNat = 1 ∧ w.isWaiting.toNat = 0 := by
  cases w with
  | looking | notified => exact ⟨rfl, rfl, rfl⟩
  | waiting | inside => cases h

section Simulation

variable {s s' : State τ} {p p' : FiberPool τ} {i : Nat} {w w' : Worker τ}

/-- One worker changes, and the counting pool with it. -/
theorem Counts.set (h : Counts s p) (hi : s.workers[i]? = some w)
    (hworkers : s'.workers = s.workers.set i w')
    (hinside : p'.running + w.isInside.toNat = p.running + w'.isInside.toNat)
    (hawake : p'.awake + w.isRunnable.toNat = p.awake + w'.isRunnable.toNat)
    (hasleep : p'.asleep + w.isWaiting.toNat = p.asleep + w'.isWaiting.toNat)
    (hrunning : p'.running = s'.runningFiberNum) (htasks : p'.tasks = s'.tasks) :
    Counts s' p' := by
  have hcount (q : Worker τ → Bool) :
      s'.workers.countP q + (q w).toNat = s.workers.countP q + (q w').toNat := by
    have hset := countP_set_add hi w' q
    rw [hworkers]
    revert hset
    cases q w <;> cases q w' <;> simp
  have hin := hcount Worker.isInside
  have hrun := hcount Worker.isRunnable
  have hwait := hcount Worker.isWaiting
  rw [← h.inside] at hin
  rw [← h.awake] at hrun
  rw [← h.asleep] at hwait
  exact ⟨hrunning, by omega, by omega, by omega, htasks⟩

theorem Counts.awake_pos (h : Counts s p) (hi : s.workers[i]? = some w)
    (hw : w.isRunnable = true) : 0 < p.awake := by
  rw [h.awake, List.countP_pos_iff]
  exact ⟨w, List.mem_of_getElem? hi, hw⟩

theorem Counts.sleep (h : Counts s p) (hi : s.workers[i]? = some w) (hw : w.isRunnable = true)
    (htasks : s.tasks = []) :
    ∃ p', p.sleep = some p' ∧ Counts { s with workers := s.workers.set i .waiting } p' := by
  obtain ⟨p', hsleep⟩ := exists_sleep (h.tasks.trans htasks) (h.awake_pos hi hw)
  obtain ⟨htasks', hrunning⟩ := sleep_eq_some hsleep
  obtain ⟨hawake, hasleep⟩ := sleep_awake hsleep
  obtain ⟨hin, hrun, hwait⟩ := Worker.toNat_runnable hw
  refine ⟨p', hsleep, h.set hi rfl ?_ ?_ ?_ (hrunning.trans h.running) (htasks'.trans h.tasks)⟩
  · show _ = _ + 0
    omega
  · show _ = _ + 0
    omega
  · show _ = _ + 1
    omega

/-- A task is taken: the worker is inside it. -/
theorem Counts.take (h : Counts s p) (hi : s.workers[i]? = some w) (hw : w.isRunnable = true)
    {t : τ} {tasks : List τ} (htasks : s.tasks = t :: tasks) :
    ∃ p', p.take = some (t, p') ∧ Counts { s with
      workers := s.workers.set i (.inside t)
      tasks := tasks
      runningFiberNum := s.runningFiberNum + 1
      taken := s.taken ++ [(i, t)] } p' := by
  obtain ⟨p', htake, -⟩ := exists_take (h.tasks.trans htasks) (h.awake_pos hi hw)
  obtain ⟨htasks', hrunning⟩ := take_eq_some htake
  obtain ⟨hawake, hasleep⟩ := take_awake htake
  obtain ⟨hin, hrun, hwait⟩ := Worker.toNat_runnable hw
  refine ⟨p', htake, h.set hi rfl ?_ ?_ ?_ (by rw [hrunning, h.running]) ?_⟩
  · show _ = _ + 1
    omega
  · show _ = _ + 0
    omega
  · show _ = _ + 0
    omega
  · exact (List.cons.inj ((h.tasks.trans htasks).symm.trans htasks')).2.symm

theorem Counts.finish (h : Counts s p) {t : τ} (hi : s.workers[i]? = some (.inside t)) :
    ∃ p', p.finish = some p' ∧ Counts { s with
      workers := s.workers.set i .looking
      runningFiberNum := s.runningFiberNum - 1 } p' := by
  have hpos : 0 < p.running := by
    rw [h.inside, List.countP_pos_iff]
    exact ⟨.inside t, List.mem_of_getElem? hi, rfl⟩
  obtain ⟨p', hfinish⟩ := exists_finish hpos
  obtain ⟨htasks, hrunning⟩ := finish_eq_some hfinish
  obtain ⟨hawake, hasleep⟩ := finish_awake hfinish
  have hnum := h.running
  refine ⟨p', hfinish, h.set hi rfl ?_ ?_ ?_ ?_ (htasks.trans h.tasks)⟩
  · show p'.running + 1 = p.running + 0
    omega
  · show p'.awake + 0 = p.awake + 1
    omega
  · show p'.asleep + 0 = p.asleep + 0
    omega
  · show p'.running = s.runningFiberNum - 1
    omega

variable {callable : τ → Bool}

/-- **The workers refine the counts**: every step is one of the counting pool, or two where
    an empty function is dropped. -/
theorem counts_step (h : Counts s p) {e : Event τ}
    (hstep : step callable s e = some s') :
    ∃ p', Relation.ReflTransGen Step p p' ∧ Counts s' p' := by
  cases stepped_of_step hstep with
  | scheduled hnotify => exact ⟨_, .single (.schedule p _), h.schedule hnotify⟩
  | slept hi hw htasks =>
    obtain ⟨p', hsleep, hcounts⟩ := h.sleep hi hw htasks
    exact ⟨p', .single (.sleep hsleep), hcounts⟩
  | took hi hw htasks =>
    obtain ⟨p', htake, hcounts⟩ := h.take hi hw htasks
    exact ⟨p', .single (.take htake), hcounts⟩
  | @dropped i w t tasks hi hw htasks =>
    -- the task is taken and returns at once
    obtain ⟨p₁, htake, hcounts⟩ := h.take hi hw htasks
    have hlt : i < s.workers.length := (List.getElem?_eq_some_iff.mp hi).1
    obtain ⟨p₂, hfinish, hcounts₂⟩ := hcounts.finish (i := i) (t := t)
      (by rw [List.getElem?_set_self hlt])
    refine ⟨p₂, .tail (.single (.take htake)) (.finish hfinish), ?_⟩
    simpa [List.set_set] using hcounts₂
  | finished hi =>
    obtain ⟨p', hfinish, hcounts⟩ := h.finish hi
    exact ⟨p', .single (.finish hfinish), hcounts⟩

end Simulation

/-- The counts of a state, with a size that the pool goes through. -/
def Counted (s : State τ) : Prop := ∃ p : FiberPool τ, Counts s p ∧ Grows p.size

theorem counted_init : Counted ({} : State τ) :=
  ⟨FiberPool.empty, ⟨rfl, rfl, rfl, rfl, rfl⟩, .inl rfl⟩

theorem grows_of_steps {p p' : FiberPool τ} (h : Grows p.size)
    (hsteps : Relation.ReflTransGen Step p p') : Grows p'.size := by
  induction hsteps with
  | refl => exact h
  | tail _ hlast ih => exact ih.step hlast

variable {callable : τ → Bool} {s s' : State τ} {e : Event τ}

theorem counted_step (h : Counted s) (hstep : step callable s e = some s') : Counted s' := by
  obtain ⟨p, hcounts, hgrows⟩ := h
  obtain ⟨p', hsteps, hcounts'⟩ := counts_step hcounts hstep
  exact ⟨p', hcounts', grows_of_steps hgrows hsteps⟩

/-! ## Tasks -/

/-- The tasks taken, then those in the list, are the tasks scheduled, in their order. -/
def State.Fifo (s : State τ) : Prop := s.taken.map Prod.snd ++ s.tasks = s.scheduled

theorem fifo_init : ({} : State τ).Fifo := rfl

theorem fifo_step (h : s.Fifo) (hstep : step callable s e = some s') : s'.Fifo := by
  unfold State.Fifo at h ⊢
  cases stepped_of_step hstep with
  | scheduled => rw [← h, List.append_assoc]
  | slept | finished => exact h
  | took _ _ htasks | dropped _ _ htasks => simpa [htasks] using h

/-! ## Workers on their own -/

/-- The steps a worker has left when nobody schedules a task. -/
def Worker.work : Worker τ → Nat
  | inside _ => 2
  | looking | notified => 1
  | waiting => 0

/-- What the workers still have to do: a task in the list is taken, finished and followed by
    another look. -/
def State.work (s : State τ) : Nat := 3 * s.tasks.length + (s.workers.map Worker.work).sum

theorem Worker.work_runnable {w : Worker τ} (h : w.isRunnable = true) : w.work = 1 := by
  cases w with
  | looking | notified => rfl
  | waiting | inside => cases h

theorem work_lt_of_set {i : Nat} {w w' : Worker τ} (hi : s.workers[i]? = some w)
    (hworkers : s'.workers = s.workers.set i w')
    (h : 3 * s'.tasks.length + w'.work < 3 * s.tasks.length + w.work) : s'.work < s.work := by
  have hsum := sum_map_set_add hi w' Worker.work
  unfold State.work
  rw [hworkers]
  omega

theorem work_lt (hstep : step callable s e = some s') (he : e.ofWorker = true) :
    s'.work < s.work := by
  cases stepped_of_step hstep with
  | scheduled => cases he
  | slept hi hw =>
    refine work_lt_of_set hi rfl ?_
    rw [Worker.work_runnable hw]
    exact Nat.lt_succ_self _
  | took hi hw htasks =>
    refine work_lt_of_set hi rfl ?_
    rw [Worker.work_runnable hw, htasks, List.length_cons]
    simp only [Worker.work]
    omega
  | dropped hi hw htasks =>
    refine work_lt_of_set hi rfl ?_
    rw [Worker.work_runnable hw, htasks, List.length_cons]
    simp only [Worker.work]
    omega
  | finished hi => exact work_lt_of_set hi rfl (Nat.lt_succ_self _)

/-- Workers left to themselves come to an end. -/
theorem length_le_of_workers {es : List (Event τ)} (hes : ∀ e ∈ es, e.ofWorker = true)
    (hrun : run (step callable) s es = some s') : es.length + s'.work ≤ s.work := by
  induction es generalizing s with
  | nil =>
    obtain rfl : s = s' := by simpa using hrun
    simp
  | cons e es ih =>
    obtain ⟨s₁, hstep, hrest⟩ := run_cons_eq_some.mp hrun
    have hlt := work_lt hstep (hes e List.mem_cons_self)
    have hle := ih (fun e he => hes e (List.mem_cons_of_mem _ he)) hrest
    rw [List.length_cons]
    omega

/-- Where no worker can move, all of them are waiting. -/
theorem eq_waiting_of_stuck (hstuck : ∀ e : Event τ, e.ofWorker = true → step callable s e = none)
    {w : Worker τ} (hw : w ∈ s.workers) : w = .waiting := by
  obtain ⟨i, hi⟩ := List.mem_iff_getElem?.mp hw
  cases w with
  | waiting => rfl
  | looking | notified =>
    have hnone := hstuck (.look i) rfl
    simp [step, hi] at hnone
  | inside t =>
    have hnone := hstuck (.finish i) rfl
    simp [step, hi] at hnone

/-- A task in the list has a worker that can move. -/
theorem Counted.tasks_of_stuck (h : Counted s)
    (hstuck : ∀ e : Event τ, e.ofWorker = true → step callable s e = none) : s.tasks = [] := by
  obtain ⟨p, hcounts, -⟩ := h
  have hinside : p.running = 0 := by
    rw [hcounts.inside, List.countP_eq_zero]
    intro w hw
    rw [eq_waiting_of_stuck hstuck hw]
    exact Bool.false_ne_true
  have hawake : p.awake = 0 := by
    rw [hcounts.awake, List.countP_eq_zero]
    intro w hw
    rw [eq_waiting_of_stuck hstuck hw]
    exact Bool.false_ne_true
  rw [← hcounts.tasks]
  cases htasks : p.tasks with
  | nil => rfl
  | cons t tasks =>
    rcases take_or_busy htasks with ⟨p', htake⟩ | hbusy
    · have := (take_awake htake).1
      omega
    · rw [hinside] at hbusy
      exact absurd hbusy (by decide)

/-! ## Every interleaving -/

/-- What holds of the pool in every state. -/
structure State.Kept (s : State τ) : Prop where
  fifo : s.taken.map Prod.snd ++ s.tasks = s.scheduled
  running : s.runningFiberNum = s.workers.countP Worker.isInside
  size : s.workers.length = 0 ∨ ∃ j, s.workers.length = growSize * 2 ^ j
  bounded : s.workers.length ≤ 2 * maxGrowSize
  awake : .waiting ∈ s.workers → s.tasks.length ≤ s.workers.countP Worker.isRunnable

theorem Counted.kept (h : Counted s) (hfifo : s.Fifo) : s.Kept := by
  obtain ⟨p, hcounts, hgrows⟩ := h
  rw [← hcounts.size] at hgrows
  refine ⟨hfifo, hcounts.running.symm.trans hcounts.inside, ?_, hgrows.le, fun hwait => ?_⟩
  · rcases hgrows with hzero | ⟨j, -, hj⟩
    · exact .inl hzero
    · exact .inr ⟨j, hj⟩
  · rw [← hcounts.tasks, ← hcounts.awake]
    rcases p.served with hserved | hasleep
    · exact hserved
    · rw [hcounts.asleep, List.countP_eq_zero] at hasleep
      exact absurd rfl (hasleep _ hwait)

/-- **No task and no wake-up is lost**, in whatever order tasks are scheduled and workers
    resumed.  Each task is taken once, in the order of scheduling: the workers left to
    themselves come to an end, and there every task has been taken. -/
theorem kept_of_run (callable : τ → Bool) {es : List (Event τ)} {s : State τ}
    (hrun : run (step callable) {} es = some s) :
    s.Kept ∧
      (∀ es' s', (∀ e ∈ es', e.ofWorker = true) → run (step callable) s es' = some s' →
        es'.length ≤ s.work) ∧
      ((∀ e : Event τ, e.ofWorker = true → step callable s e = none) →
        s.taken.map Prod.snd = s.scheduled) := by
  have hcounted : Counted s :=
    run_inv (fun _ _ _ hs hstep => counted_step hs hstep) counted_init hrun
  have hfifo : s.Fifo := run_inv (fun _ _ _ hs hstep => fifo_step hs hstep) fifo_init hrun
  refine ⟨hcounted.kept hfifo, fun es' s' hes hrun' => ?_, fun hstuck => ?_⟩
  · have hle := length_le_of_workers hes hrun'
    omega
  · have hkept := hfifo
    unfold State.Fifo at hkept
    rwa [hcounted.tasks_of_stuck hstuck, List.append_nil] at hkept

/-- Three tasks: a worker goes to sleep before the third is scheduled and is woken for it,
    but the worker that returns from the first task takes it. -/
def stolenTask : List (Event Nat) :=
  [.schedule 1 none, .schedule 2 none, .look 0, .look 1, .look 2, .schedule 3 (some 2),
    .finish 0, .look 0, .look 2]

theorem stolenTask_kept :
    ∃ s, run (step fun _ => true) {} stolenTask = some s ∧
      s.taken = [(0, 1), (1, 2), (0, 3)] ∧ s.workers[2]? = some .waiting ∧ s.Kept := by
  have hview : (run (step fun _ => true) {} stolenTask).map (fun s => (s.taken, s.workers[2]?)) =
      some ([(0, 1), (1, 2), (0, 3)], some .waiting) := by decide +kernel
  obtain ⟨s, hrun, hs⟩ := Option.map_eq_some_iff.mp hview
  obtain ⟨htaken, hwaits⟩ := Prod.mk.inj hs
  exact ⟨s, hrun, htaken, hwaits, (kept_of_run _ hrun).1⟩

end FiberProxy.FiberWorkers
