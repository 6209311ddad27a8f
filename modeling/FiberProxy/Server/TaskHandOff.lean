/-
  FiberProxy.Server.TaskHandOff

  How a request gets from the thread that read it to a fiber that serves it:
  `FiberPool::schedule_task`, `check_task_fiber_fun`, `run_fiber` and `stop`
  (`fiber-server/FiberPool.hpp`), with the pool as `init` makes it, some workers
  (`run_fiber`) and one fiber that looks after the list of the threads.

  The fibers share one thread, so that what a fiber does between two suspensions is one
  step.  Other threads come in between any two steps: `schedule_task` and `stop` take the
  locks for one assignment.  They also come in while `thread_cond_.timed_wait` has given
  the lock of the threads back, but then no fiber runs: a task that is added there stays in
  the list until the next step of the fiber, so it may as well come after the step, and a
  `stop` is seen right behind the wait, so it may as well come before.  Tasks return
  normally.

  Over every run:

    * each task is handed over and taken once, in the order of `schedule_task`
      (`order_of_run`);
    * a task that has been handed over does not wait for a worker that sleeps
      (`served_of_run`);
    * after `stop` a pool with workers begins no further task: all stay in the lists, in
      order (`stopped_run`); without workers the fiber still hands out what it finds;
    * after `stop` the fibers come to their end (`ended_of_stopped`).
-/

import FiberProxy.Lib.Lists
import FiberProxy.Lib.Run

namespace FiberProxy.TaskHandOff

open Lib

variable {τ : Type}

/-- Where a worker is in `run_fiber`. -/
inductive Worker (τ : Type) where
  /-- On its way to look at the list. -/
  | looking
  /-- In `cond_.wait`. -/
  | waiting
  /-- Notified, not resumed yet. -/
  | notified
  /-- In `task()`. -/
  | inside (t : τ)
  | returned
deriving DecidableEq, Repr

namespace Worker

/-- Idle, and ready to run. -/
def isRunnable : Worker τ → Bool
  | looking | notified => true
  | _ => false

def isInside : Worker τ → Bool
  | inside _ => true
  | _ => false

theorem isInside_of_runnable {w : Worker τ} (h : w.isRunnable = true) : w.isInside = false := by
  cases w <;> first | rfl | cases h

/-- What `notify_all` does to a worker. -/
def notify : Worker τ → Worker τ
  | waiting => notified
  | w => w

end Worker

/-- Where the fiber of `check_task_fiber_fun` is suspended. -/
inductive Check (τ : Type) where
  /-- In one of the `yield` that go back to the top of the loop. -/
  | top
  /-- In the `yield` of the loop that waits for the threads. -/
  | idle
  /-- In the `yield` after a task, with the rest of `tmp_list`. -/
  | moving (rest : List τ)
  | returned
deriving DecidableEq, Repr

/-- The tasks of `tmp_list` that are still to be handed over. -/
def Check.rest : Check τ → List τ
  | moving rest => rest
  | _ => []

structure State (τ : Type) where
  /-- The fibers of `run_fiber`. -/
  workers : List (Worker τ)
  check : Check τ := .top
  /-- `thread_task_list_`. -/
  threadTasks : List τ := []
  /-- `fiber_task_list_`. -/
  fiberTasks : List τ := []
  /-- The workers in `cond_`, the longest there first. -/
  cond : List Nat := []
  needStop : Bool := false
  runningFiberNum : Nat := 0
  /-- The tasks that got a fiber of their own. -/
  detached : List τ := []
  scheduled : List τ := []
  /-- The tasks that a worker took. -/
  taken : List τ := []
deriving DecidableEq, Repr

/-- `init(poolSize)`. -/
def init (poolSize : Nat) : State τ := { workers := List.replicate poolSize .looking }

inductive Event (τ : Type) where
  /-- `schedule_task`, on any thread. -/
  | schedule (t : τ)
  /-- `stop`, on any thread. -/
  | stop
  /-- The fiber of `check_task_fiber_fun` runs to its next suspension. -/
  | check
  /-- A worker looks at the list. -/
  | look (i : Nat)
  /-- A worker's task returns. -/
  | finish (i : Nat)
deriving DecidableEq, Repr

/-- A step of a fiber of the pool. -/
def Event.ofFiber : Event τ → Bool
  | .schedule _ | .stop => false
  | .check | .look _ | .finish _ => true

namespace State

/-- `cond_.notify_one()`. -/
def notifyOne (s : State τ) : State τ :=
  match s.cond with
  | [] => s
  | i :: cond => { s with workers := s.workers.set i .notified, cond := cond }

/-- `cond_.notify_all()`. -/
def notifyAll (s : State τ) : State τ :=
  { s with workers := s.workers.map Worker.notify, cond := [] }

/-- The body of the `for` loop, up to its `yield`. -/
def handOver (s : State τ) (t : τ) (rest : List τ) : State τ :=
  -- `fiber_pool_.size() == 1`
  if s.workers = [] then { s with detached := s.detached ++ [t], check := .moving rest }
  else notifyOne { s with fiberTasks := s.fiberTasks ++ [t], check := .moving rest }

/-- From the test of the inner loop, with the lock of the threads. -/
def fetch (s : State τ) : State τ :=
  match s.threadTasks with
  | [] => { s with check := if s.needStop then .returned else .idle }
  | t :: rest => handOver { s with threadTasks := [] } t rest

/-- From the top of the loop. -/
def loop (s : State τ) : State τ :=
  if s.fiberTasks ≠ [] ∧ s.threadTasks = [] then
    { s with check := if s.needStop then .returned else .top }
  else s.fetch

/-- `check_task_fiber_fun` from one suspension to the next. -/
def checkTaskFiberFun (s : State τ) : Option (State τ) :=
  match s.check with
  | .top | .moving [] => some s.loop
  | .idle => some s.fetch
  | .moving (t :: rest) => some (s.handOver t rest)
  | .returned => none

end State

section Machine

-- `if (task)`: the function is not empty
variable (callable : τ → Bool)

/-- A worker has the lock: it returns, waits, or takes the first task. -/
def State.lookAt (s : State τ) (i : Nat) : State τ :=
  if s.needStop then { s with workers := s.workers.set i .returned }
  else
    match s.fiberTasks with
    | [] => { s with workers := s.workers.set i .waiting, cond := s.cond ++ [i] }
    | t :: tasks =>
      if callable t then
        { s with
          workers := s.workers.set i (.inside t)
          fiberTasks := tasks
          runningFiberNum := s.runningFiberNum + 1
          taken := s.taken ++ [t] }
      else
        { s with
          workers := s.workers.set i .looking
          fiberTasks := tasks
          taken := s.taken ++ [t] }

def step (s : State τ) : Event τ → Option (State τ)
  | .schedule t =>
    some { s with threadTasks := s.threadTasks ++ [t], scheduled := s.scheduled ++ [t] }
  | .stop => some (State.notifyAll { s with needStop := true })
  | .check => s.checkTaskFiberFun
  | .look i =>
    match s.workers[i]? with
    | some .looking | some .notified => some (s.lookAt callable i)
    | _ => none
  | .finish i =>
    match s.workers[i]? with
    | some (.inside _) =>
      some { s with
        workers := s.workers.set i .looking
        runningFiberNum := s.runningFiberNum - 1 }
    | _ => none

/-! ## What a step can do -/

inductive Stepped (s : State τ) : Event τ → State τ → Prop where
  | scheduled (t : τ) :
      Stepped s (.schedule t)
        { s with threadTasks := s.threadTasks ++ [t], scheduled := s.scheduled ++ [t] }
  | stopped : Stepped s .stop (State.notifyAll { s with needStop := true })
  /-- The next task of the threads is handed over. -/
  | handed {t : τ} {rest threadTasks : List τ} (hcheck : s.check ≠ .returned)
      (hpending : s.check.rest ++ s.threadTasks = t :: (rest ++ threadTasks)) :
      Stepped s .check (State.handOver { s with threadTasks := threadTasks } t rest)
  /-- The threads have no task. -/
  | rested {c : Check τ} (hcheck : s.check ≠ .returned) (hstop : s.needStop = false)
      (hpending : s.check.rest ++ s.threadTasks = []) (hc : c = .top ∨ c = .idle) :
      Stepped s .check { s with check := c }
  | left (hcheck : s.check ≠ .returned) (hstop : s.needStop = true)
      (hpending : s.check.rest ++ s.threadTasks = []) :
      Stepped s .check { s with check := .returned }
  | slept {i : Nat} {w : Worker τ} (hi : s.workers[i]? = some w) (hw : w.isRunnable = true)
      (hstop : s.needStop = false) (htasks : s.fiberTasks = []) :
      Stepped s (.look i) { s with workers := s.workers.set i .waiting, cond := s.cond ++ [i] }
  | took {i : Nat} {w : Worker τ} {t : τ} {tasks : List τ} (hi : s.workers[i]? = some w)
      (hw : w.isRunnable = true) (hstop : s.needStop = false)
      (htasks : s.fiberTasks = t :: tasks) :
      Stepped s (.look i)
        { s with
          workers := s.workers.set i (.inside t)
          fiberTasks := tasks
          runningFiberNum := s.runningFiberNum + 1
          taken := s.taken ++ [t] }
  /-- An empty function is taken and dropped. -/
  | dropped {i : Nat} {w : Worker τ} {t : τ} {tasks : List τ} (hi : s.workers[i]? = some w)
      (hw : w.isRunnable = true) (hstop : s.needStop = false)
      (htasks : s.fiberTasks = t :: tasks) :
      Stepped s (.look i)
        { s with
          workers := s.workers.set i .looking
          fiberTasks := tasks
          taken := s.taken ++ [t] }
  | retired {i : Nat} {w : Worker τ} (hi : s.workers[i]? = some w) (hw : w.isRunnable = true)
      (hstop : s.needStop = true) :
      Stepped s (.look i) { s with workers := s.workers.set i .returned }
  | finished {i : Nat} {t : τ} (hi : s.workers[i]? = some (.inside t)) :
      Stepped s (.finish i)
        { s with
          workers := s.workers.set i .looking
          runningFiberNum := s.runningFiberNum - 1 }

variable {callable} {s s' : State τ} {e : Event τ}

theorem stepped_fetch (hcheck : s.check ≠ .returned) (hrest : s.check.rest = []) :
    Stepped s .check s.fetch := by
  unfold State.fetch
  split
  · rename_i htasks
    have hpending : s.check.rest ++ s.threadTasks = [] := by simp [hrest, htasks]
    by_cases hstop : s.needStop = true
    · rw [if_pos hstop]
      exact .left hcheck hstop hpending
    · rw [if_neg hstop]
      exact .rested hcheck (Bool.eq_false_iff.mpr hstop) hpending (.inr rfl)
  · rename_i t rest htasks
    exact .handed hcheck (by simp [hrest, htasks])

theorem stepped_loop (hcheck : s.check ≠ .returned) (hrest : s.check.rest = []) :
    Stepped s .check s.loop := by
  unfold State.loop
  split
  · rename_i htasks
    have hpending : s.check.rest ++ s.threadTasks = [] := by simp [hrest, htasks.2]
    by_cases hstop : s.needStop = true
    · rw [if_pos hstop]
      exact .left hcheck hstop hpending
    · rw [if_neg hstop]
      exact .rested hcheck (Bool.eq_false_iff.mpr hstop) hpending (.inl rfl)
  · exact stepped_fetch hcheck hrest

theorem stepped_check (h : s.checkTaskFiberFun = some s') : Stepped s .check s' := by
  unfold State.checkTaskFiberFun at h
  split at h
  all_goals rename_i hcheck
  · obtain rfl := Option.some.inj h
    exact stepped_loop (by simp [hcheck]) (by simp [hcheck, Check.rest])
  · obtain rfl := Option.some.inj h
    exact stepped_loop (by simp [hcheck]) (by simp [hcheck, Check.rest])
  · obtain rfl := Option.some.inj h
    exact stepped_fetch (by simp [hcheck]) (by simp [hcheck, Check.rest])
  · obtain rfl := Option.some.inj h
    exact @Stepped.handed _ s _ _ s.threadTasks (by simp [hcheck])
      (by simp [hcheck, Check.rest])
  · cases h

theorem stepped_lookAt {i : Nat} {w : Worker τ} (hi : s.workers[i]? = some w)
    (hw : w.isRunnable = true) : Stepped s (.look i) (s.lookAt callable i) := by
  unfold State.lookAt
  by_cases hstop : s.needStop = true
  · rw [if_pos hstop]
    exact .retired hi hw hstop
  · rw [if_neg hstop]
    have hstop := Bool.eq_false_iff.mpr hstop
    split
    · rename_i htasks
      exact .slept hi hw hstop htasks
    · rename_i t tasks htasks
      split
      · exact .took hi hw hstop htasks
      · exact .dropped hi hw hstop htasks

theorem stepped_of_step (h : step callable s e = some s') : Stepped s e s' := by
  cases e with
  | schedule t =>
    obtain rfl := Option.some.inj h
    exact .scheduled t
  | stop =>
    obtain rfl := Option.some.inj h
    exact .stopped
  | check => exact stepped_check h
  | look i =>
    simp only [step] at h
    split at h
    · obtain rfl := Option.some.inj h
      exact stepped_lookAt ‹_› rfl
    · obtain rfl := Option.some.inj h
      exact stepped_lookAt ‹_› rfl
    · cases h
  | finish i =>
    simp only [step] at h
    split at h
    · obtain rfl := Option.some.inj h
      exact .finished ‹_›
    · cases h

end Machine

/-! ## The invariant -/

structure Inv (s : State τ) : Prop where
  /-- The condition holds the workers that wait. -/
  condNodup : s.cond.Nodup
  mem_cond : ∀ i, i ∈ s.cond ↔ s.workers[i]? = some .waiting
  /-- Every task is in one place, in the order of `schedule_task`. -/
  order : s.taken ++ s.fiberTasks ++ s.detached ++ s.check.rest ++ s.threadTasks = s.scheduled
  /-- Without workers every task has a fiber of its own. -/
  alone : if s.workers = [] then s.taken = [] ∧ s.fiberTasks = [] else s.detached = []
  /-- No wake-up is lost. -/
  served : s.fiberTasks.length ≤ s.workers.countP Worker.isRunnable ∨ s.cond = []
  stopped : s.needStop = true → s.cond = []
  running : s.needStop = false → .returned ∉ s.workers ∧ s.check ≠ .returned
  counted : s.runningFiberNum = s.workers.countP Worker.isInside

namespace Inv

variable {s s' : State τ} {e : Event τ} {i : Nat} {w w' : Worker τ}

theorem init (poolSize : Nat) : Inv (TaskHandOff.init poolSize : State τ) where
  condNodup := List.nodup_nil
  mem_cond i := by
    simp only [TaskHandOff.init, List.not_mem_nil, false_iff]
    intro h
    have hmem := List.mem_of_getElem? h
    simp at hmem
  order := rfl
  alone := by split <;> simp [TaskHandOff.init]
  served := .inr rfl
  stopped _ := rfl
  running _ := ⟨by simp [TaskHandOff.init], by simp [TaskHandOff.init]⟩
  counted := by
    simp [TaskHandOff.init, List.countP_replicate, Worker.isInside]

/-- A worker that does not wait is on no list. -/
theorem mem_cond_set (h : Inv s) (hi : s.workers[i]? = some w) (hw : w ≠ .waiting)
    (hw' : w' ≠ .waiting) (j : Nat) : j ∈ s.cond ↔ (s.workers.set i w')[j]? = some .waiting := by
  have hlt := (List.getElem?_eq_some_iff.mp hi).1
  rw [h.mem_cond]
  by_cases hj : i = j
  · subst hj
    rw [hi, List.getElem?_set_self hlt]
    simp [hw, hw']
  · rw [List.getElem?_set_ne hj]

theorem not_returned_set (h : Inv s) (hw' : w' ≠ .returned) :
    s.needStop = false → .returned ∉ s.workers.set i w' ∧ s.check ≠ .returned := by
  intro hstop
  obtain ⟨hworkers, hcheck⟩ := h.running hstop
  exact ⟨fun hmem => (List.mem_or_eq_of_mem_set hmem).elim hworkers fun heq => hw' heq.symm, hcheck⟩

theorem handOver (h : Inv s) {t : τ} {rest threadTasks : List τ}
    (hpending : s.check.rest ++ s.threadTasks = t :: (rest ++ threadTasks)) :
    Inv (State.handOver { s with threadTasks := threadTasks } t rest) := by
  have horder := h.order
  have halone := h.alone
  rw [List.append_assoc _ s.check.rest, hpending] at horder
  by_cases hworkers : s.workers = []
  · rw [if_pos hworkers] at halone
    simp only [State.handOver, hworkers, if_true]
    exact {
      condNodup := h.condNodup
      mem_cond := by simpa [hworkers] using h.mem_cond
      order := by simpa [Check.rest] using horder
      alone := by simpa using halone
      served := by simp [halone.2]
      stopped := h.stopped
      running := fun _ => ⟨by simp, by simp⟩
      counted := by simpa [hworkers] using h.counted }
  · rw [if_neg hworkers] at halone
    simp only [State.handOver, hworkers, if_false]
    have horder' : s.taken ++ (s.fiberTasks ++ [t]) ++ s.detached ++ rest ++ threadTasks
        = s.scheduled := by
      simpa [halone] using horder
    unfold State.notifyOne
    split
    · rename_i hcond
      exact {
        condNodup := h.condNodup
        mem_cond := h.mem_cond
        order := horder'
        alone := by simpa [hworkers] using halone
        served := .inr hcond
        stopped := h.stopped
        running := fun hstop => ⟨(h.running hstop).1, by simp⟩
        counted := h.counted }
    · -- the fiber that has waited longest is notified
      rename_i i cond hcond
      simp only at hcond
      have hi : s.workers[i]? = some .waiting := (h.mem_cond i).mp (by simp [hcond])
      have hlt := (List.getElem?_eq_some_iff.mp hi).1
      obtain ⟨hnot, hnodup⟩ := List.nodup_cons.mp (hcond ▸ h.condNodup)
      have hrunnable := countP_set_add hi .notified Worker.isRunnable
      have hinside := countP_set_add hi .notified Worker.isInside
      simp only [Worker.isRunnable, Worker.isInside, if_true, Bool.false_eq_true, if_false,
        add_zero] at hrunnable hinside
      exact {
        condNodup := hnodup
        mem_cond := by
          intro j
          by_cases hj : i = j
          · subst hj
            simp [hnot, hlt]
          · rw [List.getElem?_set_ne hj, ← h.mem_cond, hcond]
            simp [Ne.symm hj]
        order := horder'
        alone := by simpa [hworkers] using halone
        served := by
          refine .inl ?_
          rcases h.served with hserved | hempty
          · simp only [List.length_append, List.length_singleton]
            omega
          · simp [hcond] at hempty
        stopped := fun hstop => by simpa [hcond] using h.stopped hstop
        running := fun hstop =>
          ⟨(h.not_returned_set (by simp) hstop).1, by simp⟩
        counted := hinside ▸ h.counted }

/-- A worker goes from one place where it does not wait to another. -/
theorem set (h : Inv s) (hi : s.workers[i]? = some w) (hw : w ≠ .waiting) (hw' : w' ≠ .waiting)
    (hreturned : s.needStop = false → w' ≠ .returned) {tasks taken : List τ} {running : Nat}
    (htasks : taken ++ tasks = s.taken ++ s.fiberTasks)
    (hserved : tasks.length + w.isRunnable.toNat ≤ s.fiberTasks.length + w'.isRunnable.toNat ∨
      s.cond = [])
    (hrunning : running + w.isInside.toNat = s.runningFiberNum + w'.isInside.toNat) :
    Inv { s with
      workers := s.workers.set i w'
      fiberTasks := tasks
      runningFiberNum := running
      taken := taken } := by
  have hworkers : s.workers ≠ [] := by
    rintro heq
    simp [heq] at hi
  have hcount (q : Worker τ → Bool) :
      (s.workers.set i w').countP q + (q w).toNat = s.workers.countP q + (q w').toNat := by
    have hbit (b : Bool) : b.toNat = if b then 1 else 0 := by cases b <;> rfl
    simpa only [hbit] using countP_set_add hi w' q
  have hrunnable := hcount Worker.isRunnable
  have hinside := hcount Worker.isInside
  exact {
    condNodup := h.condNodup
    mem_cond := h.mem_cond_set hi hw hw'
    order := by
      have horder := h.order
      rw [← htasks] at horder
      exact horder
    alone := by simpa [hworkers] using h.alone
    served := by
      refine hserved.elim (fun hle => h.served.imp_left fun hle' => ?_) .inr
      simp only
      omega
    stopped := h.stopped
    running := fun hstop => h.not_returned_set (hreturned hstop) hstop
    counted := by
      have hcounted := h.counted
      simp only
      omega }

theorem notifyAll (h : Inv s) : Inv (State.notifyAll { s with needStop := true }) where
  condNodup := List.nodup_nil
  mem_cond i := by
    simp only [State.notifyAll, List.not_mem_nil, List.getElem?_map, Option.map_eq_some_iff,
      false_iff]
    rintro ⟨w, -, hw⟩
    cases w <;> simp [Worker.notify] at hw
  order := h.order
  alone := by simpa [State.notifyAll] using h.alone
  served := .inr rfl
  stopped _ := rfl
  running := nofun
  counted := by
    have hsame : (Worker.isInside ∘ Worker.notify : Worker τ → Bool) = Worker.isInside := by
      funext w
      cases w <;> rfl
    simp only [State.notifyAll, List.countP_map, hsame]
    exact h.counted

/-- A worker goes to sleep: there is no task. -/
theorem sleep (h : Inv s) (hi : s.workers[i]? = some w) (hw : w.isRunnable = true)
    (hstop : s.needStop = false) (htasks : s.fiberTasks = []) :
    Inv { s with workers := s.workers.set i .waiting, cond := s.cond ++ [i] } := by
  have hlt := (List.getElem?_eq_some_iff.mp hi).1
  have hnot : i ∉ s.cond := fun hmem => by
    obtain rfl := Option.some.inj (hi.symm.trans ((h.mem_cond i).mp hmem))
    cases hw
  have hworkers : s.workers ≠ [] := by
    rintro heq
    simp [heq] at hi
  exact {
    condNodup := List.nodup_append.mpr ⟨h.condNodup, List.pairwise_singleton ..,
      fun a ha b hb heq => hnot (List.mem_singleton.mp hb ▸ heq ▸ ha)⟩
    mem_cond := by
      intro j
      by_cases hj : i = j
      · subst hj
        simp [hlt]
      · rw [List.getElem?_set_ne hj, ← h.mem_cond]
        simp [Ne.symm hj]
    order := h.order
    alone := by simpa [hworkers] using h.alone
    served := .inl (by simp [htasks])
    stopped := by simp [hstop]
    running := h.not_returned_set (by simp)
    counted := by
      have hset := countP_set_add hi .waiting Worker.isInside
      have hcounted := h.counted
      have hin := Worker.isInside_of_runnable hw
      rw [hin] at hset
      exact hcounted.trans hset.symm }

/-- The fiber that looks after the threads rests or returns, with nothing in hand. -/
theorem rest (h : Inv s) {c : Check τ} (hrest : s.check.rest = []) (hc : c.rest = [])
    (hreturned : s.needStop = false → c ≠ .returned) : Inv { s with check := c } where
  condNodup := h.condNodup
  mem_cond := h.mem_cond
  order := by
    have horder := h.order
    rw [hrest] at horder
    simpa [hc] using horder
  alone := h.alone
  served := h.served
  stopped := h.stopped
  running hstop := ⟨(h.running hstop).1, hreturned hstop⟩
  counted := h.counted

theorem step (h : Inv s) {callable : τ → Bool} (hstep : step callable s e = some s') : Inv s' := by
  have hidle {w : Worker τ} (hw : w.isRunnable = true) : w ≠ .waiting := by
    rintro rfl
    cases hw
  cases stepped_of_step hstep with
  | scheduled t =>
    refine { h with order := ?_ }
    simp only [← List.append_assoc, h.order]
  | stopped => exact h.notifyAll
  | handed _ hpending => exact h.handOver hpending
  | rested _ hstop hpending hc =>
    refine h.rest (List.append_eq_nil_iff.mp hpending).1 ?_ ?_
    · rcases hc with rfl | rfl <;> rfl
    · rcases hc with rfl | rfl <;> simp
  | left _ hstop hpending =>
    exact h.rest (List.append_eq_nil_iff.mp hpending).1 rfl (by simp [hstop])
  | slept hi hw hstop htasks => exact h.sleep hi hw hstop htasks
  | took hi hw hstop htasks =>
    refine h.set hi (hidle hw) (by simp) (by simp) (by simp [htasks]) (.inl ?_) ?_
    · rw [hw]
      simp [htasks, Worker.isRunnable]
    · rw [Worker.isInside_of_runnable hw]
      simp [Worker.isInside]
  | dropped hi hw hstop htasks =>
    refine h.set hi (hidle hw) (by simp) (by simp) (by simp [htasks]) (.inl ?_) ?_
    · rw [hw]
      simp [htasks, Worker.isRunnable]
    · rw [Worker.isInside_of_runnable hw]
      simp [Worker.isInside]
  | retired hi hw hstop =>
    refine h.set hi (hidle hw) (by simp) (by simp [hstop]) rfl (.inr (h.stopped hstop)) ?_
    rw [Worker.isInside_of_runnable hw]
    simp [Worker.isInside]
  | finished hi =>
    have hpos : 0 < s.runningFiberNum := by
      rw [h.counted]
      exact List.countP_pos_iff.mpr ⟨_, List.mem_of_getElem? hi, rfl⟩
    refine h.set hi (by simp) (by simp) (by simp) rfl (.inl ?_) ?_
    · simp [Worker.isRunnable]
    · simp only [Worker.isInside, Bool.toNat_true, Bool.toNat_false]
      omega

end Inv

variable {callable : τ → Bool} {poolSize : Nat} {es : List (Event τ)} {s t : State τ}

theorem inv_of_run (hrun : run (step callable) (init poolSize) es = some s) : Inv s :=
  run_inv (fun _ _ _ h hs => Inv.step h hs) (.init poolSize) hrun

/-! ## Every task once, in order -/

/-- The tasks of the `schedule_task` of a run. -/
def requested (es : List (Event τ)) : List τ :=
  es.filterMap fun
    | .schedule t => some t
    | _ => none

theorem handOver_fields (s : State τ) (t : τ) (rest : List τ) :
    (s.handOver t rest).scheduled = s.scheduled ∧ (s.handOver t rest).taken = s.taken ∧
      (s.handOver t rest).needStop = s.needStop ∧
      (s.handOver t rest).workers.length = s.workers.length := by
  unfold State.handOver State.notifyOne
  split
  · exact ⟨rfl, rfl, rfl, rfl⟩
  · split
    · exact ⟨rfl, rfl, rfl, rfl⟩
    · exact ⟨rfl, rfl, rfl, List.length_set⟩

theorem scheduled_of_step {e : Event τ} (hstep : step callable s e = some t) :
    t.scheduled = s.scheduled ++ requested [e] := by
  cases stepped_of_step hstep with
  | handed => simpa [requested] using (handOver_fields _ _ _).1
  | _ => simp [requested, State.notifyAll]

theorem workers_length_of_step {e : Event τ} (hstep : step callable s e = some t) :
    t.workers.length = s.workers.length := by
  cases stepped_of_step hstep with
  | handed => exact (handOver_fields _ _ _).2.2.2
  | stopped => simp [State.notifyAll]
  | _ => simp

theorem workers_length_of_run (hrun : run (step callable) (init poolSize) es = some s) :
    s.workers.length = poolSize :=
  @run_inv _ _ _ (fun s => s.workers.length = poolSize)
    (fun _ _ _ h hs => (workers_length_of_step hs).trans h) _ _ _ (by simp [init]) hrun

theorem scheduled_of_run (hrun : run (step callable) (init poolSize) es = some s) :
    s.scheduled = requested es := by
  refine run_induction (P := fun es s => s.scheduled = requested es) rfl ?_ hrun
  intro es s e s' _ hes hstep
  rw [scheduled_of_step hstep, hes, requested, requested, requested, List.filterMap_append]

/-- In a pool with workers the tasks are in four places. -/
theorem places_of_run (hpool : 0 < poolSize)
    (hrun : run (step callable) (init poolSize) es = some s) :
    s.taken ++ s.fiberTasks ++ s.check.rest ++ s.threadTasks = s.scheduled ∧
      s.detached = [] := by
  have hinv := inv_of_run hrun
  have hworkers : s.workers ≠ [] := by
    rw [← List.length_pos_iff, workers_length_of_run hrun]
    exact hpool
  have hdetached : s.detached = [] := by simpa [hworkers] using hinv.alone
  have horder := hinv.order
  rw [hdetached, List.append_nil] at horder
  exact ⟨horder, hdetached⟩

/-- **Every task once, in order.** The tasks that workers took, those in the two lists and
    those in the hands of the fiber between them are the tasks of `schedule_task`, in the
    order of the calls; in a pool with workers no task gets a fiber of its own. -/
theorem order_of_run (hpool : 0 < poolSize)
    (hrun : run (step callable) (init poolSize) es = some s) :
    s.taken ++ s.fiberTasks ++ s.check.rest ++ s.threadTasks = requested es ∧
      s.detached = [] := by
  rw [← scheduled_of_run hrun]
  exact places_of_run hpool hrun

/-- Of four tasks one is taken, one is in the list of the fibers, one in the hands of the
    fiber between the lists, and one in the list of the threads. -/
def fourTasks : List (Event Nat) :=
  [.schedule 1, .schedule 2, .schedule 3, .check, .look 0, .check, .schedule 4]

def fourPlaces : State Nat :=
  (run (step fun _ => true) (init 2) fourTasks).get (by decide +kernel)

theorem order_of_run_four :
    (fourPlaces.taken, fourPlaces.fiberTasks, fourPlaces.check.rest, fourPlaces.threadTasks) =
        ([1], [2], [3], [4]) ∧
      fourPlaces.taken ++ fourPlaces.fiberTasks ++ fourPlaces.check.rest ++
        fourPlaces.threadTasks = requested fourTasks ∧ fourPlaces.detached = [] :=
  ⟨by decide +kernel, order_of_run Nat.two_pos (Option.some_get _).symm⟩

/-! ## No task waits for a worker that sleeps -/

/-- **No wake-up is lost.** Until `stop`, when no worker has a step left, every task that
    has been handed over has been taken, and every worker waits. -/
theorem served_of_run (hpool : 0 < poolSize)
    (hrun : run (step callable) (init poolSize) es = some s) (hstop : s.needStop = false)
    (hstuck : ∀ i, step callable s (.look i) = none ∧ step callable s (.finish i) = none) :
    s.fiberTasks = [] ∧ ∀ w ∈ s.workers, w = .waiting := by
  have hinv := inv_of_run hrun
  have hwaiting : ∀ w ∈ s.workers, w = .waiting := by
    intro w hw
    obtain ⟨i, hi⟩ := List.getElem?_of_mem hw
    obtain ⟨hlook, hfinish⟩ := hstuck i
    cases w with
    | waiting => rfl
    | looking | notified => simp [step, hi] at hlook
    | inside => simp [step, hi] at hfinish
    | returned => exact absurd hw (hinv.running hstop).1
  refine ⟨?_, hwaiting⟩
  -- there is a worker in the condition, and none that could take a task
  rcases hinv.served with hserved | hcond
  · have hnone : s.workers.countP Worker.isRunnable = 0 := by
      rw [List.countP_eq_zero]
      intro w hw
      simp [hwaiting w hw, Worker.isRunnable]
    exact List.length_eq_zero_iff.mp (Nat.le_zero.mp (hnone ▸ hserved))
  · have hlt : 0 < s.workers.length := (workers_length_of_run hrun).symm ▸ hpool
    have hfirst : s.workers[0]? = some .waiting := by
      rw [List.getElem?_eq_getElem hlt, hwaiting _ (List.getElem_mem hlt)]
    have hmem := (hinv.mem_cond 0).mpr hfirst
    simp [hcond] at hmem

/-- Both workers sleep, are woken for a task each, serve it and sleep again. -/
def twoServed : List (Event Nat) :=
  [.look 0, .look 1, .schedule 5, .schedule 6, .check, .look 0, .check, .look 1, .finish 0,
    .look 0, .finish 1, .look 1]

def bothAsleep : State Nat :=
  (run (step fun _ => true) (init 2) twoServed).get (by decide +kernel)

theorem served_of_run_two :
    bothAsleep.taken = [5, 6] ∧
      bothAsleep.fiberTasks = [] ∧ ∀ w ∈ bothAsleep.workers, w = .waiting := by
  refine ⟨by decide +kernel, served_of_run Nat.two_pos
    (Option.some_get _ : some bothAsleep = run (step fun _ => true) (init 2) twoServed).symm
    (by decide +kernel) ?_⟩
  rintro (_ | _ | i)
  · decide +kernel
  · decide +kernel
  · exact ⟨rfl, rfl⟩

/-! ## Stopping -/

/-- The steps a worker has left after `stop`. -/
def Worker.work : Worker τ → Nat
  | inside _ => 2
  | looking | notified => 1
  | waiting | returned => 0

/-- A task in hand is still handed over; then the fiber returns. -/
def Check.work : Check τ → Nat
  | returned => 0
  | c => c.rest.length + 1

/-- The steps the fibers have left after `stop`. -/
def State.work (s : State τ) : Nat :=
  (s.workers.map Worker.work).sum + (s.check.work + s.threadTasks.length)

theorem Check.work_of_ne {c : Check τ} (h : c ≠ .returned) : c.work = c.rest.length + 1 := by
  cases c <;> first | rfl | contradiction

theorem Worker.work_of_runnable {w : Worker τ} (h : w.isRunnable = true) : w.work = 1 := by
  cases w <;> first | rfl | cases h

theorem needStop_of_step {e : Event τ} (hstep : step callable s e = some t)
    (hstop : s.needStop = true) : t.needStop = true ∧ t.taken = s.taken := by
  cases stepped_of_step hstep with
  | handed =>
    obtain ⟨-, htaken, hneed, -⟩ := handOver_fields { s with threadTasks := _ } _ _
    exact ⟨hneed.trans hstop, htaken⟩
  | stopped => exact ⟨rfl, rfl⟩
  | slept _ _ hrunning | took _ _ hrunning | dropped _ _ hrunning => simp [hstop] at hrunning
  | _ => exact ⟨hstop, rfl⟩

theorem work_lt (hinv : Inv s) (hstop : s.needStop = true) {e : Event τ}
    (he : e.ofFiber = true) (hstep : step callable s e = some t) : t.work < s.work := by
  have hset {i : Nat} {w w' : Worker τ} (hi : s.workers[i]? = some w) (hlt : w'.work < w.work) :
      ((s.workers.set i w').map Worker.work).sum < (s.workers.map Worker.work).sum := by
    have hsum := sum_map_set_add hi w' Worker.work
    omega
  cases stepped_of_step hstep with
  | scheduled | stopped => cases he
  | @handed t rest threadTasks hcheck hpending =>
    have hlen := congrArg List.length hpending
    simp only [List.length_append, List.length_cons] at hlen
    have hsame : (State.handOver { s with threadTasks := threadTasks } t rest).work
        = (s.workers.map Worker.work).sum + (rest.length + 1 + threadTasks.length) := by
      simp only [State.handOver, State.notifyOne, hinv.stopped hstop]
      split <;> rfl
    rw [hsame, State.work, Check.work_of_ne hcheck]
    omega
  | rested _ hrunning => simp [hstop] at hrunning
  | left hcheck _ hpending =>
    rw [State.work, State.work, Check.work_of_ne hcheck]
    simp [Check.work]
  | slept _ _ hrunning | took _ _ hrunning | dropped _ _ hrunning => simp [hstop] at hrunning
  | retired hi hw =>
    refine Nat.add_lt_add_right (hset hi ?_) _
    rw [Worker.work_of_runnable hw]
    exact Nat.zero_lt_one
  | finished hi =>
    exact Nat.add_lt_add_right (hset hi (by simp [Worker.work])) _

theorem taken_of_stopped (hstop : s.needStop = true)
    (hrun : run (step callable) s es = some t) : t.needStop = true ∧ t.taken = s.taken := by
  refine @run_inv _ _ _ (fun t => t.needStop = true ∧ t.taken = s.taken) ?_ _ _ _
    ⟨hstop, rfl⟩ hrun
  intro u e v ⟨hu, htaken⟩ hstep
  obtain ⟨hv, heq⟩ := needStop_of_step hstep hu
  exact ⟨hv, heq.trans htaken⟩

/-- **After `stop` no task is begun**, by a worker or in a fiber of its own: what was left in
    the lists and what comes in later stays there, in order. -/
theorem stopped_run {es₀ : List (Event τ)} (hpool : 0 < poolSize)
    (hreach : run (step callable) (init poolSize) es₀ = some s) (hstop : s.needStop = true)
    (hrun : run (step callable) s es = some t) :
    t.taken = s.taken ∧ t.detached = s.detached ∧
      t.fiberTasks ++ t.check.rest ++ t.threadTasks =
        s.fiberTasks ++ s.check.rest ++ s.threadTasks ++ requested es := by
  have hreach' : run (step callable) (init poolSize) (es₀ ++ es) = some t := by
    rw [run_append, hreach, Option.bind_some, hrun]
  obtain ⟨hplaces, hnone⟩ := places_of_run hpool hreach
  obtain ⟨hplaces', hnone'⟩ := places_of_run hpool hreach'
  have htaken := (taken_of_stopped hstop hrun).2
  refine ⟨htaken, hnone'.trans hnone.symm, ?_⟩
  -- the tasks of the whole run, without those that were taken
  rw [scheduled_of_run hreach', requested, List.filterMap_append] at hplaces'
  rw [scheduled_of_run hreach, requested] at hplaces
  rw [← hplaces, htaken] at hplaces'
  simp only [List.append_assoc, List.append_cancel_left_eq] at hplaces' ⊢
  exact hplaces'

/-- Of two workers one is in a task and one waits, with a task in the hands of the fiber
    between the lists, when the pool is stopped. -/
def busyStop : List (Event Nat) :=
  [.look 0, .look 1, .schedule 5, .schedule 6, .check, .look 0, .stop]

def busyStopped : State Nat :=
  (run (step fun _ => true) (init 2) busyStop).get (by decide +kernel)

theorem run_busyStop : run (step fun _ => true) (init 2) busyStop = some busyStopped :=
  (Option.some_get _).symm

theorem stopped_run_two :
    ∃ t, run (step fun _ => true) busyStopped [.finish 0, .schedule 7, .check, .look 1, .look 0] =
        some t ∧
      t.taken = busyStopped.taken ∧ t.detached = busyStopped.detached ∧
      t.fiberTasks ++ t.check.rest ++ t.threadTasks =
        busyStopped.fiberTasks ++ busyStopped.check.rest ++ busyStopped.threadTasks ++
          requested [.finish 0, .schedule 7, .check, .look 1, .look 0] :=
  ⟨_, (Option.some_get (by decide +kernel)).symm,
    stopped_run Nat.two_pos run_busyStop (by decide +kernel) (Option.some_get _).symm⟩

/-- Without workers the fiber of `check_task_fiber_fun` does not look at `need_stop_` before it
    makes a fiber for a task. -/
example : (run (step fun _ => true) (init 0) [.schedule 5, .stop, .check]).map
    (fun s => s.detached) = some [5] := by
  decide

theorem length_le_work (hinv : Inv s) (hstop : s.needStop = true)
    (hes : ∀ e ∈ es, e.ofFiber = true) (hrun : run (step callable) s es = some t) :
    es.length ≤ s.work := by
  induction es generalizing s with
  | nil => exact Nat.zero_le _
  | cons e es ih =>
    obtain ⟨s', hstep, hrest⟩ := run_cons_eq_some.mp hrun
    have hlt := work_lt hinv hstop (hes e List.mem_cons_self) hstep
    have hle := ih (hinv.step hstep) (needStop_of_step hstep hstop).1
      (fun e he => hes e (List.mem_cons_of_mem _ he)) hrest
    simp only [List.length_cons]
    omega

theorem returned_of_stuck (hinv : Inv s) (hstop : s.needStop = true)
    (hstuck : ∀ e : Event τ, e.ofFiber = true → step callable s e = none) :
    (∀ w ∈ s.workers, w = .returned) ∧ s.check = .returned := by
  constructor
  · intro w hw
    obtain ⟨i, hi⟩ := List.getElem?_of_mem hw
    have hlook := hstuck (.look i) rfl
    have hfinish := hstuck (.finish i) rfl
    cases w with
    | waiting =>
      have hmem := (hinv.mem_cond i).mpr hi
      simp [hinv.stopped hstop] at hmem
    | looking | notified => simp [step, hi] at hlook
    | inside => simp [step, hi] at hfinish
    | returned => rfl
  · have hcheck := hstuck .check rfl
    simp only [step, State.checkTaskFiberFun] at hcheck
    split at hcheck <;> first | assumption | cases hcheck

/-- **`stop` ends the pool.** The fibers have a bounded number of steps left, and when they
    have made them all, each has returned: the `join` of `run` is over. -/
theorem ended_of_stopped {es₀ : List (Event τ)}
    (hreach : run (step callable) (init poolSize) es₀ = some s) (hstop : s.needStop = true)
    (hes : ∀ e ∈ es, e.ofFiber = true) (hrun : run (step callable) s es = some t) :
    es.length ≤ s.work ∧
      ((∀ e : Event τ, e.ofFiber = true → step callable t e = none) →
        (∀ w ∈ t.workers, w = .returned) ∧ t.check = .returned) := by
  have hinv := inv_of_run hreach
  have ht : Inv t := run_inv (fun _ _ _ h hs => Inv.step h hs) hinv hrun
  exact ⟨length_le_work hinv hstop hes hrun,
    returned_of_stuck ht (taken_of_stopped hstop hrun).1⟩

theorem ended_of_stopped_two :
    ∃ t, run (step fun _ => true) busyStopped [.look 1, .check, .finish 0, .check, .look 0] =
        some t ∧
      (∀ w ∈ t.workers, w = .returned) ∧ t.check = .returned := by
  refine ⟨_, (Option.some_get (by decide +kernel)).symm, (ended_of_stopped run_busyStop
    (by decide +kernel) (by decide) (Option.some_get _).symm).2 ?_⟩
  rintro (_ | _ | _ | (_ | _ | i) | (_ | _ | i)) he
  iterate 2
    · cases he
  iterate 3
    · decide +kernel
  · rfl
  iterate 2
    · decide +kernel
  · rfl

end FiberProxy.TaskHandOff
