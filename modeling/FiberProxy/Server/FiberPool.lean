/-
  FiberProxy.Server.FiberPool

  The fiber pool that runs the service calls (`fiber-server/FiberPool.hpp`),
  in the form the forward manager uses it: grown lazily by
  `schedule_task_from_fiber`, all of it on one thread.  A fiber of the pool is
  running a task, awake in `run_fiber` on its way to look at the task list, or
  asleep in `cond_.wait`.  The pool carries the two facts that make it safe to
  wait for a task from inside a task: it is never a pool of one or two fibers,
  and no fiber sleeps while more tasks wait than fibers are awake.

  `need_stop_` is left out: a pool that is being shut down runs nothing.
-/

import FiberProxy.Lib.Bytes

namespace FiberProxy

/-- `GROW_SIZE`. -/
def growSize : Nat := 10

/-- `MAX_GROW_SIZE`. -/
def maxGrowSize : Nat := 15000

/-- The pool: how many of its fibers are running a task, awake or asleep, and
    `fiber_task_list_`. -/
structure FiberPool (τ : Type) where
  running : Nat
  awake : Nat
  asleep : Nat
  tasks : List τ
  /-- An empty pool has no tasks; otherwise it has its first growth at least. -/
  sized : (running + awake + asleep = 0 ∧ tasks = []) ∨ growSize ≤ running + awake + asleep
  /-- No wake-up has been lost. -/
  served : tasks.length ≤ awake ∨ asleep = 0

namespace FiberPool

variable {τ : Type}

/-- The pool before its first task. -/
def empty : FiberPool τ := ⟨0, 0, 0, [], .inl ⟨rfl, rfl⟩, .inr rfl⟩

/-- `fiber_pool_.size()`. -/
def size (p : FiberPool τ) : Nat := p.running + p.awake + p.asleep

/-- The fibers that `schedule_task_from_fiber` creates. -/
def grown (p : FiberPool τ) : Nat :=
  if p.size = 0 then growSize
  -- all but one are running: the pool doubles, up to its limit
  else if p.size - 1 ≤ p.running then
    if maxGrowSize < p.size then 0 else p.size
  else 0

theorem growSize_le_grown (p : FiberPool τ) :
    growSize ≤ p.running + p.awake + p.asleep + p.grown := by
  rcases p.sized with ⟨h, -⟩ | h
  · simp [grown, size, h]
  · omega

/-- `schedule_task_from_fiber`, up to its `yield`: new fibers start awake, and
    `notify_one` wakes a sleeper if there is one. -/
def scheduleTaskFromFiber (p : FiberPool τ) (t : τ) : FiberPool τ where
  running := p.running
  awake := p.awake + p.grown + (if p.asleep = 0 then 0 else 1)
  asleep := p.asleep - 1
  tasks := p.tasks ++ [t]
  sized := by
    have h := p.growSize_le_grown
    right
    split <;> omega
  served := by
    -- one task more; one fiber more is awake, or none is left asleep
    rcases p.served with h | h
    · by_cases hz : p.asleep = 0
      · right
        omega
      · left
        simp only [List.length_append, List.length_cons, List.length_nil, if_neg hz]
        omega
    · right
      omega

/-- A fiber awake in `run_fiber` takes the first task. -/
def take (p : FiberPool τ) : Option (τ × FiberPool τ) :=
  match ht : p.tasks with
  | [] => none
  | t :: ts =>
    if ha : 0 < p.awake then
      some (t, {
        running := p.running + 1
        awake := p.awake - 1
        asleep := p.asleep
        tasks := ts
        sized := by
          have h := p.sized
          rw [ht] at h
          simp only [reduceCtorEq, and_false, false_or] at h
          right
          omega
        served := by
          have h := p.served
          rw [ht, List.length_cons] at h
          rcases h with h | h
          · left
            omega
          · exact .inr h })
    else none

/-- A fiber that finds the list empty goes to sleep. -/
def sleep (p : FiberPool τ) : Option (FiberPool τ) :=
  if h : p.tasks = [] ∧ 0 < p.awake then
    some {
      running := p.running
      awake := p.awake - 1
      asleep := p.asleep + 1
      tasks := p.tasks
      sized := by
        have hs := p.sized
        rcases hs with ⟨hs, -⟩ | hs
        · omega
        · right
          omega
      served := by simp [h.1] }
  else none

/-- A task returns, and its fiber loops. -/
def finish (p : FiberPool τ) : Option (FiberPool τ) :=
  if h : 0 < p.running then
    some {
      running := p.running - 1
      awake := p.awake + 1
      asleep := p.asleep
      tasks := p.tasks
      sized := by
        have hs := p.sized
        rcases hs with ⟨hs, -⟩ | hs
        · omega
        · right
          omega
      served := by
        rcases p.served with hs | hs
        · left
          omega
        · exact .inr hs }
  else none

/-- The same pool, its tasks seen in another type. -/
def map {υ : Type} (f : τ → υ) (p : FiberPool τ) : FiberPool υ where
  running := p.running
  awake := p.awake
  asleep := p.asleep
  tasks := p.tasks.map f
  sized := by simpa using p.sized
  served := by simpa using p.served

@[simp] theorem scheduleTaskFromFiber_running (p : FiberPool τ) (t : τ) :
    (p.scheduleTaskFromFiber t).running = p.running := rfl

@[simp] theorem scheduleTaskFromFiber_tasks (p : FiberPool τ) (t : τ) :
    (p.scheduleTaskFromFiber t).tasks = p.tasks ++ [t] := rfl

theorem take_eq_some {p p' : FiberPool τ} {t : τ} (h : p.take = some (t, p')) :
    p.tasks = t :: p'.tasks ∧ p'.running = p.running + 1 := by
  unfold take at h
  split at h
  · simp at h
  · rename_i t' ts ht
    split at h
    · simp only [Option.some.injEq, Prod.mk.injEq] at h
      obtain ⟨rfl, rfl⟩ := h
      exact ⟨ht, rfl⟩
    · simp at h

theorem sleep_eq_some {p p' : FiberPool τ} (h : p.sleep = some p') :
    p'.tasks = p.tasks ∧ p'.running = p.running := by
  unfold sleep at h
  split at h
  · obtain rfl := Option.some.inj h
    exact ⟨rfl, rfl⟩
  · simp at h

theorem finish_eq_some {p p' : FiberPool τ} (h : p.finish = some p') :
    p'.tasks = p.tasks ∧ p.running = p'.running + 1 := by
  unfold finish at h
  split at h
  · obtain rfl := Option.some.inj h
    exact ⟨rfl, by simp only; omega⟩
  · simp at h

/-- Whom each step wakes or puts to sleep. -/
theorem take_awake {p p' : FiberPool τ} {t : τ} (h : p.take = some (t, p')) :
    p.awake = p'.awake + 1 ∧ p'.asleep = p.asleep := by
  unfold take at h
  split at h
  · simp at h
  · split at h
    · simp only [Option.some.injEq, Prod.mk.injEq] at h
      obtain ⟨-, rfl⟩ := h
      exact ⟨by simp only; omega, rfl⟩
    · simp at h

theorem sleep_awake {p p' : FiberPool τ} (h : p.sleep = some p') :
    p.awake = p'.awake + 1 ∧ p'.asleep = p.asleep + 1 := by
  unfold sleep at h
  split at h
  · obtain rfl := Option.some.inj h
    exact ⟨by simp only; omega, rfl⟩
  · simp at h

theorem finish_awake {p p' : FiberPool τ} (h : p.finish = some p') :
    p'.awake = p.awake + 1 ∧ p'.asleep = p.asleep := by
  unfold finish at h
  split at h
  · obtain rfl := Option.some.inj h
    exact ⟨rfl, rfl⟩
  · simp at h

theorem exists_sleep {p : FiberPool τ} (ht : p.tasks = []) (ha : 0 < p.awake) :
    ∃ p', p.sleep = some p' :=
  ⟨_, dif_pos ⟨ht, ha⟩⟩

theorem exists_finish {p : FiberPool τ} (h : 0 < p.running) : ∃ p', p.finish = some p' := by
  simp [finish, h]

/-! ## How many fibers there are -/

/-- Only scheduling changes the size of the pool. -/
theorem size_scheduleTaskFromFiber (p : FiberPool τ) (t : τ) :
    (p.scheduleTaskFromFiber t).size = p.size + p.grown := by
  simp only [size, scheduleTaskFromFiber]
  split <;> omega

theorem size_of_take {p p' : FiberPool τ} {t : τ} (h : p.take = some (t, p')) :
    p'.size = p.size := by
  unfold take at h
  split at h
  · simp at h
  · split at h
    · simp only [Option.some.injEq, Prod.mk.injEq] at h
      obtain ⟨-, rfl⟩ := h
      simp only [size]
      omega
    · simp at h

theorem size_of_sleep {p p' : FiberPool τ} (h : p.sleep = some p') : p'.size = p.size := by
  unfold sleep at h
  split at h
  · obtain rfl := Option.some.inj h
    simp only [size]
    omega
  · simp at h

theorem size_of_finish {p p' : FiberPool τ} (h : p.finish = some p') : p'.size = p.size := by
  unfold finish at h
  split at h
  · obtain rfl := Option.some.inj h
    simp only [size]
    omega
  · simp at h

theorem running_le_size (p : FiberPool τ) : p.running ≤ p.size := by
  unfold size
  omega

/-- Scheduling leaves a fiber for the new task, unless the pool is past its limit. -/
theorem running_lt_size_schedule {p : FiberPool τ} {t : τ}
    (h : (p.scheduleTaskFromFiber t).size ≤ maxGrowSize) :
    p.running < (p.scheduleTaskFromFiber t).size := by
  have hrun := p.running_le_size
  rw [size_scheduleTaskFromFiber] at h ⊢
  unfold grown at h ⊢
  split
  · simp only [growSize]
    omega
  · split
    · rw [if_neg (by omega)]
      omega
    · omega

/-- A task that a fiber awake in `run_fiber` finds. -/
theorem exists_take {p : FiberPool τ} {t : τ} {ts : List τ} (ht : p.tasks = t :: ts)
    (ha : 0 < p.awake) : ∃ p', p.take = some (t, p') ∧ p'.asleep = p.asleep := by
  unfold take
  split
  · rename_i h
    simp [ht] at h
  · rename_i t' ts' h
    obtain ⟨rfl, rfl⟩ : t = t' ∧ ts = ts' := by simpa [ht] using h
    exact ⟨_, dif_pos ha, rfl⟩

/-- The sizes the pool goes through: it starts with `GROW_SIZE` fibers and doubles
    while it is not larger than `MAX_GROW_SIZE`. -/
def Grows (n : Nat) : Prop := n = 0 ∨ ∃ j ≤ 11, n = growSize * 2 ^ j

theorem Grows.schedule {p : FiberPool τ} (h : Grows p.size) (t : τ) :
    Grows (p.scheduleTaskFromFiber t).size := by
  rw [size_scheduleTaskFromFiber]
  unfold grown
  rcases h with h | ⟨j, hj, h⟩
  · rw [if_pos h]
    exact .inr ⟨0, by omega, by omega⟩
  · have hpos : p.size ≠ 0 := by
      rw [h]
      exact Nat.mul_ne_zero (by decide) (by positivity)
    rw [if_neg hpos]
    split
    · split
      · exact .inr ⟨j, hj, h⟩
      · -- a pool of `10 * 2 ^ 11` fibers is past the limit, so this one was smaller
        have hj' : j ≠ 11 := by
          rintro rfl
          simp [growSize, maxGrowSize] at *
          omega
        exact .inr ⟨j + 1, by omega, by rw [h, Nat.pow_succ, ← Nat.mul_assoc]; omega⟩
    · exact .inr ⟨j, hj, h⟩

/-- What the fibers of a thread do with the pool. -/
inductive Step : FiberPool τ → FiberPool τ → Prop where
  | schedule (p : FiberPool τ) (t : τ) : Step p (p.scheduleTaskFromFiber t)
  | take {p p' : FiberPool τ} {t : τ} (h : p.take = some (t, p')) : Step p p'
  | sleep {p p' : FiberPool τ} (h : p.sleep = some p') : Step p p'
  | finish {p p' : FiberPool τ} (h : p.finish = some p') : Step p p'

theorem Grows.step {p p' : FiberPool τ} (h : Grows p.size) (hstep : Step p p') :
    Grows p'.size := by
  cases hstep with
  | schedule t => exact h.schedule t
  | take ht => exact size_of_take ht ▸ h
  | sleep hs => exact size_of_sleep hs ▸ h
  | finish hf => exact size_of_finish hf ▸ h

theorem Grows.le {n : Nat} (h : Grows n) : n ≤ 2 * maxGrowSize := by
  rcases h with rfl | ⟨j, hj, rfl⟩
  · exact Nat.zero_le _
  · calc growSize * 2 ^ j ≤ growSize * 2 ^ 11 :=
          Nat.mul_le_mul_left _ (Nat.pow_le_pow_right (by decide) hj)
      _ ≤ 2 * maxGrowSize := by decide

/-- The largest size the pool reaches. -/
def fullSize : Nat := 20480

theorem Grows.eq_fullSize {n : Nat} (h : Grows n) (hn : maxGrowSize < n) : n = fullSize := by
  rcases h with rfl | ⟨j, hj, rfl⟩
  · simp [maxGrowSize] at hn
  · revert hn
    interval_cases j <;> decide

/-- **No lost wake-up.**  A task that waits is taken by a fiber that is awake,
    unless every fiber of the pool is running a task. -/
theorem take_or_busy {p : FiberPool τ} {t : τ} {ts : List τ} (ht : p.tasks = t :: ts) :
    (∃ p', p.take = some (t, p')) ∨ growSize ≤ p.running := by
  by_cases ha : 0 < p.awake
  · left
    obtain ⟨p', hp, -⟩ := exists_take ht ha
    exact ⟨p', hp⟩
  · right
    -- nobody is awake though a task waits, so nobody is asleep either
    have hz : p.asleep = 0 := by
      rcases p.served with h | h
      · rw [ht, List.length_cons] at h
        omega
      · exact h
    rcases p.sized with ⟨-, h⟩ | h
    · simp [ht] at h
    · omega

end FiberPool

end FiberProxy
