/-
  FiberProxy.Forward.Nested

  Many multi-service calls on one fiber pool.  `FiberProxy.Forward.FanOut`
  follows one call among tasks it knows nothing about; here every task of the
  pool is `call_services_in_fiber` or one of its per-service calls, so that the
  question can be asked whether the pool as a whole can stop: every fiber in a
  parent that waits, and the calls it waits for behind it in the task list.

  What a per-service call does on its fiber, and what a parent does after its
  join, is left open: it ends at some time.
-/

import FiberProxy.Forward.Join

namespace FiberProxy.Forward.Nested

open Lib

/-- A task of the pool: a call, or the `i`-th service of the `k`-th call. -/
inductive Task where
  | parent (k : Nat)
  | child (k i : Nat)
deriving DecidableEq, Repr

def Task.isParent : Task → Bool
  | .parent _ => true
  | .child .. => false

/-- A call of `call_services_in_fiber`.  Of its stages those from `posted` to
    `joined` and `finished` occur; the transaction part and the callback are in
    `joined`. -/
structure Call where
  rejected : Bool
  parent : Parent
  children : List Place
  /-- An `int`, set from the number of the calls: the same below 2^31 of them. -/
  callNum : Int
deriving DecidableEq, Repr

/-- The call `c` when it is posted. -/
def Call.post (c : ServicesCall) : Call where
  rejected := c.rejected
  parent := .posted
  children := c.reqs.map fun _ => .unscheduled
  callNum := 0

/-- The parent starts on a fiber of the pool. -/
def Call.launch (c : Call) : Call :=
  if c.rejected then { c with parent := .joined }
  else if c.children.length = 1 then { c with parent := .single }
  else { c with parent := .scheduling 0, callNum := c.children.length }

/-- The counting overload of `call_single_service`, after the call. -/
def Call.afterChild (c : Call) : Parent :=
  if c.callNum - 1 = 0 ∧ c.parent = .waiting then .checking else c.parent

theorem Call.afterChild_eq (c : Call) :
    c.afterChild = c.parent ∨ (c.parent = .waiting ∧ c.afterChild = .checking) := by
  unfold Call.afterChild
  split
  · rename_i h
    exact .inr ⟨h.2, rfl⟩
  · exact .inl rfl

/-- The pool and the calls posted to it, in the order they were posted. -/
structure State where
  pool : FiberPool Task
  calls : List Call

/-- The pool before its first task. -/
def start : State := ⟨.empty, []⟩

inductive Event where
  /-- `post_to_fiber_pool`. -/
  | post (c : ServicesCall)
  /-- A fiber of the pool takes a task, or finds none and sleeps. -/
  | take
  | sleep
  /-- The `k`-th parent turns its scheduling loop, or tests `call_num`. -/
  | schedule (k : Nat)
  | check (k : Nat)
  /-- A per-service call, or the `k`-th parent, returns. -/
  | childEnd (k i : Nat)
  | parentEnd (k : Nat)

/-- A fiber that has taken a task starts it. -/
def runTask (s : State) (pool : FiberPool Task) : Task → Option State
  | .parent k => (s.calls[k]?).map fun c => ⟨pool, s.calls.set k c.launch⟩
  | .child k i =>
    (s.calls[k]?).map fun c =>
      ⟨pool, s.calls.set k { c with children := c.children.set i .running }⟩

/-- One step of the pool. -/
def step (s : State) : Event → Option State
  | .post c =>
    some ⟨s.pool.scheduleTaskFromFiber (.parent s.calls.length), s.calls ++ [Call.post c]⟩
  | .take => s.pool.take.bind fun tp => runTask s tp.2 tp.1
  | .sleep => s.pool.sleep.map fun p => { s with pool := p }
  | .schedule k =>
    (s.calls[k]?).bind fun c =>
      match c.parent with
      | .scheduling i =>
        if i < c.children.length then
          some ⟨s.pool.scheduleTaskFromFiber (.child k i),
            s.calls.set k
              { c with children := c.children.set i .queued, parent := .scheduling (i + 1) }⟩
        -- the loop is over
        else some { s with calls := s.calls.set k { c with parent := .checking } }
      | _ => none
  | .check k =>
    (s.calls[k]?).bind fun c =>
      if c.parent = .checking then
        some { s with
          calls := s.calls.set k
            { c with parent := if 0 < c.callNum then .waiting else .joined } }
      else none
  | .childEnd k i =>
    (s.calls[k]?).bind fun c =>
      if c.children[i]? = some .running then
        s.pool.finish.map fun p =>
          ⟨p, s.calls.set k
            { c with
              children := c.children.set i .ended
              callNum := c.callNum - 1
              parent := c.afterChild }⟩
      else none
  | .parentEnd k =>
    (s.calls[k]?).bind fun c =>
      if c.parent = .single ∨ c.parent = .joined then
        s.pool.finish.map fun p => ⟨p, s.calls.set k { c with parent := .finished }⟩
      else none

/-! ## What a step can do -/

inductive StepsTo (s : State) : Event → State → Prop where
  | post (c : ServicesCall) :
      StepsTo s (.post c)
        ⟨s.pool.scheduleTaskFromFiber (.parent s.calls.length), s.calls ++ [Call.post c]⟩
  | takeParent {p : FiberPool Task} {k : Nat} {c : Call} (hp : s.pool.take = some (.parent k, p))
      (hc : s.calls[k]? = some c) : StepsTo s .take ⟨p, s.calls.set k c.launch⟩
  | takeChild {p : FiberPool Task} {k i : Nat} {c : Call}
      (hp : s.pool.take = some (.child k i, p)) (hc : s.calls[k]? = some c) :
      StepsTo s .take ⟨p, s.calls.set k { c with children := c.children.set i .running }⟩
  | sleep {p : FiberPool Task} (hp : s.pool.sleep = some p) : StepsTo s .sleep { s with pool := p }
  | schedule {k i : Nat} {c : Call} (hc : s.calls[k]? = some c)
      (hpar : c.parent = .scheduling i) (hi : i < c.children.length) :
      StepsTo s (.schedule k) ⟨s.pool.scheduleTaskFromFiber (.child k i),
        s.calls.set k
          { c with children := c.children.set i .queued, parent := .scheduling (i + 1) }⟩
  | scheduled {k i : Nat} {c : Call} (hc : s.calls[k]? = some c)
      (hpar : c.parent = .scheduling i) (hi : c.children.length ≤ i) :
      StepsTo s (.schedule k) { s with calls := s.calls.set k { c with parent := .checking } }
  | wait {k : Nat} {c : Call} (hc : s.calls[k]? = some c) (hpar : c.parent = .checking)
      (hn : 0 < c.callNum) :
      StepsTo s (.check k) { s with calls := s.calls.set k { c with parent := .waiting } }
  | join {k : Nat} {c : Call} (hc : s.calls[k]? = some c) (hpar : c.parent = .checking) :
      StepsTo s (.check k) { s with calls := s.calls.set k { c with parent := .joined } }
  | childEnd {p : FiberPool Task} {k i : Nat} {c : Call} (hc : s.calls[k]? = some c)
      (hi : c.children[i]? = some .running) (hp : s.pool.finish = some p) :
      StepsTo s (.childEnd k i) ⟨p, s.calls.set k
        { c with
          children := c.children.set i .ended
          callNum := c.callNum - 1
          parent := c.afterChild }⟩
  | parentEnd {p : FiberPool Task} {k : Nat} {c : Call} (hc : s.calls[k]? = some c)
      (hpar : c.parent = .single ∨ c.parent = .joined) (hp : s.pool.finish = some p) :
      StepsTo s (.parentEnd k) ⟨p, s.calls.set k { c with parent := .finished }⟩

theorem stepsTo_of_step {s s' : State} {e : Event} (h : step s e = some s') : StepsTo s e s' := by
  cases e with
  | post c =>
    obtain rfl := Option.some.inj h
    exact .post c
  | take =>
    obtain ⟨⟨t, p⟩, hp, ht⟩ := Option.bind_eq_some_iff.mp h
    cases t with
    | parent k =>
      obtain ⟨c, hc, rfl⟩ := Option.map_eq_some_iff.mp ht
      exact .takeParent hp hc
    | child k i =>
      obtain ⟨c, hc, rfl⟩ := Option.map_eq_some_iff.mp ht
      exact .takeChild hp hc
  | sleep =>
    obtain ⟨p, hp, rfl⟩ := Option.map_eq_some_iff.mp h
    exact .sleep hp
  | schedule k =>
    obtain ⟨c, hc, h⟩ := Option.bind_eq_some_iff.mp h
    split at h
    · rename_i i hpar
      split at h
      · obtain rfl := Option.some.inj h
        exact .schedule hc hpar ‹_›
      · obtain rfl := Option.some.inj h
        exact .scheduled hc hpar (by omega)
    · simp at h
  | check k =>
    obtain ⟨c, hc, h⟩ := Option.bind_eq_some_iff.mp h
    split at h
    · rename_i hpar
      obtain rfl := Option.some.inj h
      by_cases hn : 0 < c.callNum
      · rw [if_pos hn]
        exact .wait hc hpar hn
      · rw [if_neg hn]
        exact .join hc hpar
    · simp at h
  | childEnd k i =>
    obtain ⟨c, hc, h⟩ := Option.bind_eq_some_iff.mp h
    split at h
    · rename_i hi
      obtain ⟨p, hp, rfl⟩ := Option.map_eq_some_iff.mp h
      exact .childEnd hc hi hp
    · simp at h
  | parentEnd k =>
    obtain ⟨c, hc, h⟩ := Option.bind_eq_some_iff.mp h
    split at h
    · rename_i hpar
      obtain ⟨p, hp, rfl⟩ := Option.map_eq_some_iff.mp h
      exact .parentEnd hc hpar hp
    · simp at h

/-! ## Deadlock -/

/-- The parent sleeps in `cond.wait`, and no fiber runs any of its calls: those
    that have not ended are in the task list. -/
def Call.blocked (c : Call) : Bool :=
  c.parent == .waiting && c.children.all fun p => p == .queued || p == .ended

/-- Every fiber of the pool is in a blocked parent. -/
def Deadlocked (s : State) : Prop :=
  0 < s.pool.size ∧ s.calls.countP Call.blocked = s.pool.size

instance (s : State) : Decidable (Deadlocked s) := inferInstanceAs (Decidable (_ ∧ _))

/-- A parent is started only while fewer than 20479 others are between their start
    and their join: `FiberPool.fullSize` of them together would fill the pool at its
    largest. -/
def FewParents (s : State) : Event → Prop
  | .take =>
    s.pool.tasks.head?.any Task.isParent = true →
      s.calls.countP (·.parent.joining) + 1 < FiberPool.fullSize
  | _ => True

instance (s : State) (e : Event) : Decidable (FewParents s e) := by
  cases e <;> unfold FewParents <;> infer_instance

/-- The fibers a call holds: its parent's and those of its running services. -/
def Call.fibers (c : Call) : Nat :=
  (if c.parent = .posted ∨ c.parent = .finished then 0 else 1) + c.children.count .running

/-- The parent waits for its calls or will, and one of them has been scheduled. -/
def Call.started (c : Call) : Bool :=
  match c.parent with
  | .scheduling i => 0 < i
  | .checking | .waiting => 0 < c.children.length
  | _ => false

theorem Call.started_le_fibers (c : Call) : (if c.started then 1 else 0) ≤ c.fibers := by
  unfold Call.started Call.fibers
  split <;> rename_i h <;> simp [h] <;> split <;> omega

/-- A call is never counted down below what it was counted up to. -/
structure Call.Ok (c : Call) : Prop where
  callNum : c.callNum ≤ c.children.length
  waiting : c.parent = .waiting → c.children ≠ []

/-- What holds of the pool and its calls in every run. -/
structure Inv (s : State) : Prop where
  grows : FiberPool.Grows s.pool.size
  ok : ∀ c ∈ s.calls, c.Ok
  fibers : (s.calls.map Call.fibers).sum ≤ s.pool.running
  -- while the pool can still grow, a fiber is left over for the calls the parents wait for
  spare : s.pool.size ≤ maxGrowSize → s.calls.countP Call.started < s.pool.size ∨ s.pool.size = 0

theorem inv_start : Inv start where
  grows := .inl rfl
  ok := by simp [start]
  fibers := Nat.le_refl 0
  spare := fun _ => .inr rfl

section Preservation

variable {s : State}

/-- A call changes, and with it the pool, but not its size. -/
theorem Inv.replace (hs : Inv s) {k : Nat} {c c' : Call} {p : FiberPool Task}
    (hc : s.calls[k]? = some c) (hsize : p.size = s.pool.size) (hok : c'.Ok)
    (hfib : c'.fibers + s.pool.running ≤ c.fibers + p.running)
    (hst : c'.started = true → c.started = true) : Inv ⟨p, s.calls.set k c'⟩ where
  grows := by rw [hsize]; exact hs.grows
  ok := forall_mem_set hs.ok hok
  fibers := by
    have hsum := sum_map_set_add hc c' Call.fibers
    have hle := hs.fibers
    show ((s.calls.set k c').map Call.fibers).sum ≤ p.running
    omega
  spare := by
    intro hmax
    have hcount := countP_set_add hc c' Call.started
    have hle := hs.spare (by rw [← hsize]; exact hmax)
    show (s.calls.set k c').countP Call.started < p.size ∨ p.size = 0
    have hst' : (if c'.started then 1 else 0) ≤ (if c.started then 1 else 0) := by
      split
      · rw [if_pos (hst ‹_›)]
      · omega
    omega

/-- Every started call holds a fiber. -/
theorem countP_started_le (l : List Call) : l.countP Call.started ≤ (l.map Call.fibers).sum := by
  induction l with
  | nil => exact Nat.le_refl 0
  | cons c l ih =>
    have h := c.started_le_fibers
    rw [List.countP_cons, List.map_cons, List.sum_cons]
    omega

/-- A task is scheduled, and the calls change; the fibers they hold are running. -/
theorem Inv.scheduleTask (hs : Inv s) {t : Task} {calls : List Call} (hok : ∀ c ∈ calls, c.Ok)
    (hfib : (calls.map Call.fibers).sum ≤ s.pool.running) :
    Inv ⟨s.pool.scheduleTaskFromFiber t, calls⟩ where
  grows := hs.grows.schedule t
  ok := hok
  fibers := hfib
  spare := by
    intro hmax
    left
    calc calls.countP Call.started
        ≤ (calls.map Call.fibers).sum := countP_started_le calls
      _ ≤ s.pool.running := hfib
      _ < _ := FiberPool.running_lt_size_schedule hmax

theorem Call.ok_post (c : ServicesCall) : (Call.post c).Ok where
  callNum := Int.natCast_nonneg _
  waiting := fun h => by simp [Call.post] at h

theorem Inv.post (hs : Inv s) (c : ServicesCall) :
    Inv ⟨s.pool.scheduleTaskFromFiber (.parent s.calls.length), s.calls ++ [Call.post c]⟩ := by
  apply hs.scheduleTask
  · exact forall_mem_snoc hs.ok (Call.ok_post c)
  · have hpost : (Call.post c).fibers = 0 := by
      simp [Call.fibers, Call.post, List.count_eq_zero]
    simpa [hpost] using hs.fibers

/-- The running calls after one of them changes. -/
theorem count_running_set {l : List Place} {i : Nat} {a : Place} (h : l[i]? = some a) (b : Place) :
    (l.set i b).count .running + (if a = .running then 1 else 0) =
      l.count .running + (if b = .running then 1 else 0) := by
  have hcount := countP_set_add h b (· == .running)
  simpa only [List.count_eq_countP, beq_iff_eq] using hcount

theorem Inv.schedule (hs : Inv s) {k i : Nat} {c : Call} (hc : s.calls[k]? = some c)
    (hpar : c.parent = .scheduling i) (hi : i < c.children.length) :
    Inv ⟨s.pool.scheduleTaskFromFiber (.child k i),
      s.calls.set k
        { c with children := c.children.set i .queued, parent := .scheduling (i + 1) }⟩ := by
  have hmem := hs.ok c (List.mem_of_getElem? hc)
  apply hs.scheduleTask
  · refine forall_mem_set hs.ok ⟨?_, ?_⟩
    · simpa using hmem.callNum
    · simp
  · have hsum := sum_map_set_add hc
      { c with children := c.children.set i .queued, parent := .scheduling (i + 1) } Call.fibers
    have hrun := count_running_set (List.getElem?_eq_getElem hi) .queued
    have hle := hs.fibers
    simp only [Call.fibers, hpar, reduceCtorEq, or_self, if_false] at hsum hrun
    omega

/-- A call that starts has scheduled nothing yet. -/
theorem Inv.takeParent (hs : Inv s) {p : FiberPool Task} {k : Nat} {c : Call}
    (hp : s.pool.take = some (.parent k, p)) (hc : s.calls[k]? = some c) :
    Inv ⟨p, s.calls.set k c.launch⟩ := by
  have hrun := (FiberPool.take_eq_some hp).2
  refine hs.replace hc (FiberPool.size_of_take hp) ⟨?_, ?_⟩ ?_ ?_
  · have := (hs.ok c (List.mem_of_getElem? hc)).callNum
    unfold Call.launch
    split_ifs <;> simp <;> omega
  · unfold Call.launch
    split_ifs <;> simp
  · have hch : c.launch.children = c.children := by
      unfold Call.launch
      split_ifs <;> rfl
    unfold Call.fibers
    rw [hch]
    split_ifs <;> omega
  · unfold Call.launch
    split_ifs <;> simp [Call.started]

/-- The fiber that takes a service's call is one more in use. -/
theorem Inv.takeChild (hs : Inv s) {p : FiberPool Task} {k i : Nat} {c : Call}
    (hp : s.pool.take = some (.child k i, p)) (hc : s.calls[k]? = some c) :
    Inv ⟨p, s.calls.set k { c with children := c.children.set i .running }⟩ := by
  have hok := hs.ok c (List.mem_of_getElem? hc)
  have hrun := (FiberPool.take_eq_some hp).2
  refine hs.replace hc (FiberPool.size_of_take hp) ⟨?_, ?_⟩ ?_ ?_
  · simpa using hok.callNum
  · simpa using hok.waiting
  · cases hi : c.children[i]? with
    | none =>
      rw [List.set_eq_of_length_le (List.getElem?_eq_none_iff.mp hi)]
      show c.fibers + s.pool.running ≤ c.fibers + p.running
      omega
    | some a =>
      have hcount := count_running_set hi .running
      simp only [Call.fibers, if_true] at hcount ⊢
      split at hcount <;> omega
  · simp only [Call.started, List.length_set]
    exact id

/-- A service's call ends; the last one may wake its parent, which changes neither
    count. -/
theorem Inv.childEnd (hs : Inv s) {p : FiberPool Task} {k i : Nat} {c : Call}
    (hc : s.calls[k]? = some c) (hi : c.children[i]? = some .running)
    (hp : s.pool.finish = some p) :
    Inv ⟨p, s.calls.set k
      { c with
        children := c.children.set i .ended
        callNum := c.callNum - 1
        parent := c.afterChild }⟩ := by
  have hok := hs.ok c (List.mem_of_getElem? hc)
  have hrun := (FiberPool.finish_eq_some hp).2
  have hcount := count_running_set hi .ended
  rw [if_pos rfl, if_neg (by decide)] at hcount
  refine hs.replace hc (FiberPool.size_of_finish hp) ⟨?_, ?_⟩ ?_ ?_
  · have := hok.callNum
    simp only [List.length_set]
    omega
  · rcases c.afterChild_eq with h | ⟨-, h⟩
    · simpa [h] using hok.waiting
    · simp [h]
  · rcases c.afterChild_eq with h | ⟨hw, h⟩
    · simp only [Call.fibers, h]
      omega
    · simp only [Call.fibers, h, hw, reduceCtorEq, or_self, if_false]
      omega
  · rcases c.afterChild_eq with h | ⟨hw, h⟩
    · simp only [Call.started, h, List.length_set]
      exact id
    · simp only [Call.started, h, hw, List.length_set]
      exact id

theorem Inv.step (hs : Inv s) {e : Event} {s' : State} (h : step s e = some s') : Inv s' := by
  have hmem {k : Nat} {c : Call} (hc : s.calls[k]? = some c) : c.Ok :=
    hs.ok c (List.mem_of_getElem? hc)
  cases stepsTo_of_step h with
  | post c => exact hs.post c
  | schedule hc hpar hi => exact hs.schedule hc hpar hi
  | takeParent hp hc => exact hs.takeParent hp hc
  | takeChild hp hc => exact hs.takeChild hp hc
  | childEnd hc hi hp => exact hs.childEnd hc hi hp
  | sleep hp =>
    have hsize := FiberPool.size_of_sleep hp
    have hrun := (FiberPool.sleep_eq_some hp).2
    exact {
      grows := by rw [hsize]; exact hs.grows
      ok := hs.ok
      fibers := by rw [hrun]; exact hs.fibers
      spare := by rw [hsize]; exact hs.spare }
  | @scheduled k i c hc hpar hi =>
    refine hs.replace hc rfl ⟨(hmem hc).callNum, by simp⟩ ?_ ?_
    · simp [Call.fibers, hpar]
    · intro hst
      have hpos : 0 < c.children.length := by simpa [Call.started] using hst
      simp only [Call.started, hpar, decide_eq_true_eq]
      omega
  | @wait k c hc hpar hn =>
    -- a parent that waits has calls, or its count would be zero
    have hpos : c.children ≠ [] := by
      rintro hnil
      have := (hmem hc).callNum
      rw [hnil] at this
      simp at this
      omega
    refine hs.replace hc rfl ⟨(hmem hc).callNum, fun _ => hpos⟩ ?_ ?_
    · simp [Call.fibers, hpar]
    · simp [Call.started, hpar]
  | @join k c hc hpar =>
    refine hs.replace hc rfl ⟨(hmem hc).callNum, by simp⟩ ?_ ?_
    · simp [Call.fibers, hpar]
    · simp [Call.started]
  | @parentEnd p k c hc hpar hp =>
    have hrun := (FiberPool.finish_eq_some hp).2
    refine hs.replace hc (FiberPool.size_of_finish hp) ⟨(hmem hc).callNum, by simp⟩ ?_ ?_
    · have hhold : c.parent ≠ .posted ∧ c.parent ≠ .finished := by
        rcases hpar with h | h <;> simp [h]
      simp only [Call.fibers, hhold]
      simp
      omega
    · simp [Call.started]

end Preservation

/-- In every run the invariant holds. -/
theorem inv_of_run {es : List Event} {s : State} (h : run Nested.step start es = some s) : Inv s :=
  run_inv (fun _ _ _ hs h => hs.step h) inv_start h

/-! ## Few parents -/

/-- A call changes without becoming one that joins. -/
theorem joining_set {l : List Call} {k n : Nat} {c c' : Call} (hc : l[k]? = some c)
    (hj : c'.parent.joining = true → c.parent.joining = true)
    (hl : l.countP (·.parent.joining) < n) : (l.set k c').countP (·.parent.joining) < n := by
  have hcount := countP_set_add hc c' (·.parent.joining)
  have hle : (if c'.parent.joining then 1 else 0) ≤ (if c.parent.joining then 1 else 0) := by
    split
    · rw [if_pos (hj ‹_›)]
    · omega
  omega

/-- Only the start of a parent adds one that joins. -/
theorem joining_step {s s' : State} {e : Event} (hfew : FewParents s e)
    (hs : s.calls.countP (·.parent.joining) < FiberPool.fullSize) (h : step s e = some s') :
    s'.calls.countP (·.parent.joining) < FiberPool.fullSize := by
  cases stepsTo_of_step h with
  | post c =>
    rw [List.countP_append]
    simpa [Call.post, Parent.joining] using hs
  | sleep hp => exact hs
  | @takeParent p k c hp hc =>
    have hhead : s.pool.tasks.head?.any Task.isParent = true := by
      rw [(FiberPool.take_eq_some hp).1]
      rfl
    have hlt := hfew hhead
    have hcount := countP_set_add hc c.launch (·.parent.joining)
    show (s.calls.set k c.launch).countP (·.parent.joining) < _
    split at hcount <;> split at hcount <;> omega
  | takeChild hp hc => exact joining_set hc id hs
  | schedule hc hpar hi => exact joining_set hc (by simp [Parent.joining, hpar]) hs
  | scheduled hc hpar hi => exact joining_set hc (by simp [Parent.joining, hpar]) hs
  | wait hc hpar hn => exact joining_set hc (by simp [Parent.joining, hpar]) hs
  | join hc hpar => exact joining_set hc (by simp [Parent.joining]) hs
  | @childEnd p k i c hc hi hp =>
    refine joining_set hc ?_ hs
    rcases c.afterChild_eq with h | ⟨hw, h⟩
    · simp [h]
    · simp [h, hw, Parent.joining]
  | parentEnd hc hpar hp => exact joining_set hc (by simp [Parent.joining]) hs

theorem Call.Ok.started_of_blocked {c : Call} (hc : c.Ok) (hb : c.blocked = true) :
    c.started = true := by
  simp only [Call.blocked, Bool.and_eq_true, beq_iff_eq] at hb
  have hpos := List.length_pos_iff.mpr (hc.waiting hb.1)
  simpa [Call.started, hb.1] using hpos

theorem Call.joining_of_blocked {c : Call} (hb : c.blocked = true) :
    c.parent.joining = true := by
  simp only [Call.blocked, Bool.and_eq_true, beq_iff_eq] at hb
  rw [hb.1]
  rfl

/-- A deadlocked pool has stopped growing: every fiber of it at its largest is in a
    parent. -/
theorem Inv.fullSize_of_deadlocked {s : State} (hs : Inv s) (hd : Deadlocked s) :
    s.pool.size = FiberPool.fullSize := by
  obtain ⟨hpos, hcount⟩ := hd
  apply hs.grows.eq_fullSize
  by_contra hle
  have hstarted : s.calls.countP Call.blocked ≤ s.calls.countP Call.started :=
    List.countP_mono_left fun c hc hb => (hs.ok c hc).started_of_blocked hb
  have hspare := hs.spare (by omega)
  omega

/-- **No deadlock on nested calls**, in a run that never has as many parents on their
    way to a join as the pool has fibers at its largest. -/
theorem not_deadlocked_of_fewParents {es : List Event} {s : State}
    (hfew : Along step FewParents start es) (hrun : run step start es = some s) :
    ¬ Deadlocked s := by
  intro hd
  have hsize := (inv_of_run hrun).fullSize_of_deadlocked hd
  have hjoin : s.calls.countP (·.parent.joining) < FiberPool.fullSize :=
    run_inv_along (fun _ _ _ hs hP h => joining_step hP hs h) (by decide) hfew hrun
  have hle : s.calls.countP Call.blocked ≤ s.calls.countP (·.parent.joining) :=
    List.countP_mono_left fun c _ hb => Call.joining_of_blocked hb
  have hcount := hd.2
  omega

/-- A call of two services. -/
def twoServices : ServicesCall := ⟨[{}, {}], [], false⟩

/-- One call of two services: its parent sleeps, its calls are in the list, and the
    pool goes on. -/
theorem not_deadlocked_twoServices :
    ∃ s, run step start [.post twoServices, .take, .schedule 0, .schedule 0, .schedule 0, .check 0]
      = some s ∧ s.calls.countP Call.blocked = 1 ∧ ¬ Deadlocked s := by
  have hrun : (run step start [.post twoServices, .take, .schedule 0, .schedule 0, .schedule 0,
      .check 0]).map (fun s => s.calls.countP Call.blocked) = some 1 := by decide +kernel
  obtain ⟨s, hs, hb⟩ := Option.map_eq_some_iff.mp hrun
  exact ⟨s, hs, hb, not_deadlocked_of_fewParents (by decide +kernel) hs⟩

/-! ## A pool that has stopped growing -/

/-- The stages of a call of two services: posted, and asleep with both calls queued. -/
def posted : Call := Call.post twoServices

def asleep : Call where
  rejected := false
  parent := .waiting
  children := [.queued, .queued]
  callNum := 2

/-- As many calls as one likes are posted before the first fiber runs. -/
theorem run_posts (n : Nat) :
    ∃ s, run step start (List.replicate n (.post twoServices)) = some s ∧
      s.calls = List.replicate n posted ∧ s.pool.running = 0 ∧ s.pool.asleep = 0 ∧
      s.pool.tasks = (List.range n).map .parent := by
  induction n with
  | zero => exact ⟨start, rfl, rfl, rfl, rfl, rfl⟩
  | succ n ih =>
    obtain ⟨s, hs, hcalls, hrun, hasleep, htasks⟩ := ih
    refine ⟨⟨s.pool.scheduleTaskFromFiber (.parent s.calls.length), s.calls ++ [posted]⟩,
      ?_, ?_, hrun, ?_, ?_⟩
    · rw [List.replicate_succ', run_snoc_eq_some]
      exact ⟨s, hs, rfl⟩
    · rw [List.replicate_succ', hcalls]
    · show s.pool.asleep - 1 = 0
      omega
    · simp [htasks, hcalls, List.range_succ]

/-- One parent is started, schedules its two calls and goes to sleep. -/
theorem run_round {s : State} {k : Nat} {ts : List Task} (hcall : s.calls[k]? = some posted)
    (htasks : s.pool.tasks = .parent k :: ts) (hasleep : s.pool.asleep = 0)
    (hlt : s.pool.running < s.pool.size) :
    ∃ s', run step s [.take, .schedule k, .schedule k, .schedule k, .check k] = some s' ∧
      s'.calls = s.calls.set k asleep ∧ s'.pool.running = s.pool.running + 1 ∧
      s'.pool.asleep = 0 ∧ s'.pool.tasks = ts ++ [.child k 0, .child k 1] ∧
      (s'.pool.size ≤ maxGrowSize → s.pool.running + 1 < s'.pool.size) := by
  have hk : k < s.calls.length := (List.getElem?_eq_some_iff.mp hcall).1
  have hawake : 0 < s.pool.awake := by
    unfold FiberPool.size at hlt
    omega
  obtain ⟨p, hp, hpa⟩ := FiberPool.exists_take htasks hawake
  obtain ⟨hpt, hpr⟩ := FiberPool.take_eq_some hp
  refine ⟨⟨(p.scheduleTaskFromFiber (.child k 0)).scheduleTaskFromFiber (.child k 1),
    s.calls.set k asleep⟩, ?_, rfl, hpr, ?_, ?_, ?_⟩
  · have hset (c : Call) : (s.calls.set k c)[k]? = some c := List.getElem?_set_self hk
    have htake : step s .take = some ⟨p, s.calls.set k posted.launch⟩ := by
      simp only [step, hp, Option.bind_some, runTask, hcall, Option.map_some]
    have hlaunch : posted.launch =
        ⟨false, .scheduling 0, [.unscheduled, .unscheduled], 2⟩ := by decide
    rw [run_cons, htake, Option.bind_some, hlaunch]
    simp [run, step, hset, asleep]
  · show p.asleep - 1 - 1 = 0
    omega
  · have hts : p.tasks = ts := by
      rw [htasks] at hpt
      exact (List.cons.inj hpt).2.symm
    simp [hts]
  · intro hmax
    rw [← hpr]
    exact FiberPool.running_lt_size_schedule hmax

/-- After `k` rounds the first `k` parents sleep, and the rest are still ahead of the
    calls in the list. -/
theorem run_rounds (k m : Nat) (hkm : k + m = FiberPool.fullSize) :
    ∃ es s, run step start es = some s ∧
      s.calls = List.replicate k asleep ++ List.replicate m posted ∧
      s.pool.running = k ∧ s.pool.asleep = 0 ∧
      (∃ ts, s.pool.tasks = (List.range' k m).map .parent ++ ts) ∧
      (s.pool.size ≤ maxGrowSize → k < s.pool.size) := by
  induction k generalizing m with
  | zero =>
    obtain ⟨s, hs, hcalls, hrun, hasleep, htasks⟩ := run_posts m
    refine ⟨_, s, hs, by simpa using hcalls, hrun, hasleep, ⟨[], ?_⟩, ?_⟩
    · rw [htasks, List.range_eq_range', List.append_nil]
    · -- the first post has created the first fibers
      intro _
      have hne : s.pool.tasks ≠ [] := by
        simp [htasks, FiberPool.fullSize] at hkm ⊢
        omega
      rcases s.pool.sized with ⟨-, h⟩ | h
      · exact absurd h hne
      · exact Nat.lt_of_lt_of_le (by decide) h
  | succ k ih =>
    obtain ⟨es, s, hs, hcalls, hrun, hasleep, ⟨ts, htasks⟩, hsize⟩ := ih (m + 1) (by omega)
    have hgrows := (inv_of_run hs).grows
    have hlt : s.pool.running < s.pool.size := by
      rw [hrun]
      by_cases hmax : s.pool.size ≤ maxGrowSize
      · exact hsize hmax
      · rw [hgrows.eq_fullSize (by omega)]
        omega
    rw [List.range'_succ, List.map_cons, List.cons_append] at htasks
    obtain ⟨s', hs', hcalls', hrun', hasleep', htasks', hsize'⟩ :=
      run_round (by simp [hcalls, List.replicate_succ]) htasks hasleep hlt
    refine ⟨es ++ [.take, .schedule k, .schedule k, .schedule k, .check k], s', ?_, ?_,
      by rw [hrun', hrun], hasleep', ⟨ts ++ [.child k 0, .child k 1], ?_⟩,
      by rwa [hrun] at hsize'⟩
    · rw [run_append, hs]
      exact hs'
    · rw [hcalls', hcalls, List.set_append_right _ _ (by simp), List.length_replicate,
        Nat.sub_self, List.replicate_succ, List.set_cons_zero, List.replicate_succ',
        List.append_assoc]
      rfl
    · rw [htasks', List.append_assoc]

/-- **The pool can deadlock.**  With as many parents posted at once as the pool has
    fibers at its largest, each is started before any of their calls, and all of them
    sleep. -/
theorem exists_deadlocked :
    ∃ es s, run step start es = some s ∧ Deadlocked s := by
  obtain ⟨es, s, hs, hcalls, hrun, -, -, hsize⟩ := run_rounds FiberPool.fullSize 0 rfl
  have hfull : s.pool.size = FiberPool.fullSize := by
    apply (inv_of_run hs).grows.eq_fullSize
    by_contra hle
    have hlt := hsize (by omega)
    simp only [FiberPool.fullSize, maxGrowSize] at hlt hle
    omega
  refine ⟨es, s, hs, ?_, ?_⟩
  · rw [hfull]
    decide
  · have hblocked : Call.blocked asleep = true := by decide
    rw [hfull, hcalls, List.replicate_zero, List.append_nil, List.countP_replicate, if_pos hblocked]

end FiberProxy.Forward.Nested
