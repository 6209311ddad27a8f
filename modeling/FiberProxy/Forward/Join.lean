/-
  FiberProxy.Forward.Join

  The join of a multi-service call.  `Inv` relates the parent, the places of the
  per-service calls, the counter and the pool, and every step keeps it
  (`inv_step`): a call is scheduled once, counted until it has returned, and the
  parent sleeps only while a call is left to wake it.
-/

import FiberProxy.Forward.FanOut
import FiberProxy.Lib.Lists

namespace FiberProxy.Forward

open Lib

/-- The first call that is not scheduled yet. -/
def Parent.next (n : Nat) : Parent → Nat
  | .posted => 0
  | .scheduling i => i
  | _ => n

/-- The parent is past the join. -/
def Parent.past : Parent → Bool
  | .joined | .deciding .. | .returning | .finished | .crashed => true
  | _ => false

/-- The parent counts its calls down. -/
def Parent.joining : Parent → Bool
  | .scheduling _ | .checking | .waiting => true
  | _ => false

/-- The fiber the parent holds; for a list of one it is counted with the call. -/
def Parent.fibers : Parent → Nat
  | .posted | .single | .finished => 0
  | _ => 1

/-- The call is counted in `call_num`. -/
def Child.live (ch : Child) : Bool := ch.place != .ended

/-- The call holds a fiber. -/
def Child.busy (ch : Child) : Bool := ch.place == .running

/-- The call's task waits in the list. -/
def Child.inList (ch : Child) : Bool := ch.place == .queued

/-- What holds between the parent, its calls and the pool. -/
structure Inv (c : ServicesCall) (s : Fan) : Prop where
  length : s.children.length = c.reqs.length
  -- calls are scheduled in the order of the list
  unscheduled : ∀ j ch, s.children[j]? = some ch →
    (ch.place = .unscheduled ↔ s.parent.next c.reqs.length ≤ j)
  ended : s.parent.past = true → ∀ ch ∈ s.children, ch.place = .ended
  done : ∀ ch ∈ s.children, ch.place = .ended → ch.call.phase = .done
  callNum : s.parent.joining = true → s.callNum = s.children.countP Child.live
  -- a sleeping parent will be notified by the call that brings the counter to zero
  waiting : s.parent = .waiting → 0 < s.callNum
  single : s.parent = .single → c.reqs.length = 1 ∧ ∀ ch ∈ s.children, ch.place = .running
  running : s.pool.running = s.others + s.parent.fibers + s.children.countP Child.busy
  -- a task stands in the list once, exactly while its call or the parent waits for a fiber
  queued : ∀ i, s.pool.tasks.count (.child i) =
    if (s.children[i]?).any Child.inList then 1 else 0
  posted : s.pool.tasks.count .parent = if s.parent = .posted then 1 else 0

theorem length_resized (c : ServicesCall) : c.resized.length = c.reqs.length := by
  simp only [ServicesCall.resized, List.length_append, List.length_take, List.length_replicate]
  omega

theorem inv_start (c : ServicesCall) (pool : FiberPool Unit) : Inv c (.start c pool) := by
  have hplace : ∀ ch ∈ (Fan.start c pool).children, ch.place = .unscheduled := by
    intro ch hch
    obtain ⟨r, -, rfl⟩ := List.mem_map.mp hch
    rfl
  have hcount (p : Child → Bool) (hp : ∀ ch, ch.place = .unscheduled → p ch = false) :
      (Fan.start c pool).children.countP p = 0 := by
    rw [List.countP_eq_zero]
    intro ch hch
    simp [hp ch (hplace ch hch)]
  exact {
    length := by simp [Fan.start, length_resized]
    unscheduled := fun j ch hj => by
      simp [hplace ch (List.mem_of_getElem? hj), Fan.start, Parent.next]
    ended := fun h => by simp [Fan.start, Parent.past] at h
    done := fun ch hch h => by simp [hplace ch hch] at h
    callNum := fun h => by simp [Fan.start, Parent.joining] at h
    waiting := fun h => by simp [Fan.start] at h
    single := fun h => by simp [Fan.start] at h
    running := by
      rw [hcount _ (by simp +contextual [Child.busy])]
      simp [Fan.start, Parent.fibers, FiberPool.map]
    queued := fun i => by
      have hq : ((Fan.start c pool).children[i]?).any Child.inList = false := by
        cases hi : (Fan.start c pool).children[i]? with
        | none => rfl
        | some ch => simp [Child.inList, hplace ch (List.mem_of_getElem? hi)]
      rw [hq]
      simp [Fan.start, FiberPool.map, List.count_eq_zero]
    posted := by
      simp [Fan.start, FiberPool.map, List.count_eq_zero] }

/-! ## Each kind of step keeps the invariant -/

section Preservation

variable {c : ServicesCall} {s : Fan}

/-- A child whose task waits in the list is queued. -/
theorem Inv.queued_of_mem (hs : Inv c s) {i : Nat} {ch : Child}
    (hmem : Task.child i ∈ s.pool.tasks) (hch : s.children[i]? = some ch) :
    ch.place = .queued := by
  have hpos := List.count_pos_iff.mpr hmem
  rw [hs.queued i, hch] at hpos
  by_contra hne
  simp [Child.inList, hne] at hpos

/-- The parent's task waits in the list until the parent starts. -/
theorem Inv.posted_of_mem (hs : Inv c s) (hmem : Task.parent ∈ s.pool.tasks) :
    s.parent = .posted := by
  have hpos := List.count_pos_iff.mpr hmem
  rw [hs.posted] at hpos
  by_contra hne
  simp [hne] at hpos

/-- Replacing the `i`-th call keeps the border between scheduled calls and others, if the
    new one is on the right side of it. -/
theorem Inv.unscheduled_set (hs : Inv c s) {i j : Nat} {ch' x : Child}
    (hx : (s.children.set i ch')[j]? = some x)
    (hi : ch'.place = .unscheduled ↔ s.parent.next c.reqs.length ≤ i) :
    x.place = .unscheduled ↔ s.parent.next c.reqs.length ≤ j := by
  rcases getElem?_set_eq_some hx with ⟨rfl, rfl⟩ | ⟨-, hx⟩
  · exact hi
  · exact hs.unscheduled j x hx

/-- A queued child starts. -/
theorem Inv.takeChild (hs : Inv c s) {p : FiberPool Task} {i : Nat} {ch : Child}
    (hp : s.pool.take = some (.child i, p)) (hch : s.children[i]? = some ch) :
    Inv c { s with pool := p, children := s.children.set i { ch with place := .running } } := by
  obtain ⟨htasks, hrun⟩ := FiberPool.take_eq_some hp
  have hplace : ch.place = .queued := hs.queued_of_mem (by simp [htasks]) hch
  have hmem := List.mem_of_getElem? hch
  -- a queued call: the parent is neither past the join nor in a call of its own
  have hpast : s.parent.past ≠ true := fun h => by simpa [hplace] using hs.ended h ch hmem
  have hsingle : s.parent ≠ .single := fun h => by simpa [hplace] using (hs.single h).2 ch hmem
  exact {
    length := by simpa using hs.length
    unscheduled := fun j x hx =>
      hs.unscheduled_set hx (by simpa [hplace] using hs.unscheduled i ch hch)
    ended := fun h => absurd h hpast
    done := forall_mem_set hs.done (by simp)
    callNum := fun h => by
      have hcount := countP_set_add hch { ch with place := .running } Child.live
      have hold := hs.callNum h
      simp [Child.live, hplace] at hcount
      simp only
      omega
    waiting := hs.waiting
    single := fun h => absurd h hsingle
    running := by
      have hcount := countP_set_add hch { ch with place := .running } Child.busy
      have hold := hs.running
      simp [Child.busy, hplace] at hcount
      simp only
      omega
    queued := fun j => by
      have hold := hs.queued j
      rw [htasks, List.count_cons] at hold
      simp only [any_getElem?_set hch]
      by_cases hj : j = i
      · subst hj
        simp only [hch, Option.any_some, Child.inList, hplace, beq_self_eq_true, if_true] at hold
        simp [Child.inList]
        omega
      · simpa [hj, Ne.symm hj] using hold
    posted := by
      have hold := hs.posted
      rwa [htasks, List.count_cons_of_ne (by simp)] at hold }

/-- When the parent starts, none of its calls is known to the pool. -/
theorem Inv.fresh (hs : Inv c s) {p : FiberPool Task} (hp : s.pool.take = some (.parent, p)) :
    (∀ ch ∈ s.children, ch.place = .unscheduled) ∧ p.running = s.others + 1 ∧
      p.tasks.count .parent = 0 ∧ ∀ i, p.tasks.count (.child i) = 0 := by
  obtain ⟨htasks, hrun⟩ := FiberPool.take_eq_some hp
  have hposted : s.parent = .posted := hs.posted_of_mem (by simp [htasks])
  have hunsch : ∀ ch ∈ s.children, ch.place = .unscheduled := by
    intro ch hch
    obtain ⟨j, hj⟩ := List.mem_iff_getElem?.mp hch
    exact (hs.unscheduled j ch hj).mpr (by simp [hposted, Parent.next])
  refine ⟨hunsch, ?_, ?_, fun i => ?_⟩
  · have hbusy : s.children.countP Child.busy = 0 := by
      rw [List.countP_eq_zero]
      intro ch hch
      simp [Child.busy, hunsch ch hch]
    have h := hs.running
    simp only [hposted, Parent.fibers, hbusy] at h
    omega
  · have h := hs.posted
    rw [htasks, List.count_cons_self, if_pos hposted] at h
    omega
  · have h := hs.queued i
    rw [htasks, List.count_cons_of_ne (by simp)] at h
    rw [h]
    cases hi : s.children[i]? with
    | none => rfl
    | some ch => simp [Child.inList, hunsch ch (List.mem_of_getElem? hi)]

/-- A list of one is called right here: parent and call share a fiber. -/
theorem Inv.launchOne (hs : Inv c s) {p : FiberPool Task} (hrun : p.running = s.others + 1)
    (hparent : p.tasks.count .parent = 0) (hqueued : ∀ i, p.tasks.count (.child i) = 0)
    (hone : c.reqs.length = 1) :
    Inv c { s with
      pool := p
      parent := .single
      children := s.children.map fun ch => { ch with place := .running } } := by
  have hlen : s.children.length = 1 := by rw [hs.length, hone]
  obtain ⟨ch, hch⟩ := List.length_eq_one_iff.mp hlen
  exact {
    length := by simpa using hs.length
    unscheduled := fun j x hx => by
      obtain ⟨y, hy, rfl⟩ : ∃ y, s.children[j]? = some y ∧ _ = x := by simpa using hx
      have hj : j < 1 := by
        rw [← hlen]
        exact (List.getElem?_eq_some_iff.mp hy).1
      simp only [reduceCtorEq, Parent.next, hone, false_iff]
      omega
    ended := fun h => by simp [Parent.past] at h
    done := fun x hx h => by
      obtain ⟨y, -, rfl⟩ := List.mem_map.mp hx
      simp at h
    callNum := fun h => by simp [Parent.joining] at h
    waiting := fun h => by simp at h
    single := fun _ => ⟨hone, fun x hx => by
      obtain ⟨y, -, rfl⟩ := List.mem_map.mp hx
      rfl⟩
    running := by
      simp [hch, Parent.fibers, Child.busy]
      omega
    queued := fun i => by
      rw [hqueued i]
      cases hi : s.children[i]? with
      | none => simp [hi]
      | some x => simp [hi, Child.inList]
    posted := by simp [hparent] }

/-- A longer list, or an empty one, is scheduled from its first call on, with all of
    them counted. -/
theorem Inv.launchMany (hs : Inv c s) {p : FiberPool Task}
    (hunsch : ∀ ch ∈ s.children, ch.place = .unscheduled) (hrun : p.running = s.others + 1)
    (hparent : p.tasks.count .parent = 0) (hqueued : ∀ i, p.tasks.count (.child i) = 0) :
    Inv c { s with pool := p, parent := .scheduling 0, callNum := c.reqs.length } := by
  have hcount (q : Child → Bool) (b : Bool) (hq : ∀ ch, ch.place = .unscheduled → q ch = b) :
      s.children.countP q = if b then s.children.length else 0 := by
    cases b with
    | false => exact List.countP_eq_zero.mpr fun ch hch => by simp [hq ch (hunsch ch hch)]
    | true => exact List.countP_eq_length.mpr fun ch hch => by simp [hq ch (hunsch ch hch)]
  exact {
    length := hs.length
    unscheduled := fun j x hx => by simp [hunsch x (List.mem_of_getElem? hx), Parent.next]
    ended := fun h => by simp [Parent.past] at h
    done := hs.done
    callNum := fun _ => by
      rw [hcount Child.live true (by simp +contextual [Child.live])]
      simp [hs.length]
    waiting := fun h => by simp at h
    single := fun h => by simp at h
    running := by
      rw [hcount Child.busy false (by simp +contextual [Child.busy])]
      simpa [Parent.fibers] using hrun
    queued := fun i => by
      rw [hqueued i]
      cases hi : s.children[i]? with
      | none => simp
      | some x => simp [Child.inList, hunsch x (List.mem_of_getElem? hi)]
    posted := by simp [hparent] }

theorem Inv.takeParent (hs : Inv c s) (hc : c.rejected = false) {p : FiberPool Task}
    (hp : s.pool.take = some (.parent, p)) : Inv c (s.launch c p) := by
  obtain ⟨hunsch, hrun, hparent, hqueued⟩ := hs.fresh hp
  unfold Fan.launch
  rw [if_neg (by simp [hc])]
  split
  · exact hs.launchOne hrun hparent hqueued ‹_›
  · exact hs.launchMany hunsch hrun hparent hqueued

/-- The parent schedules its next call. -/
theorem Inv.schedule (hs : Inv c s) {i : Nat} {ch : Child} (hpar : s.parent = .scheduling i)
    (hch : s.children[i]? = some ch) :
    Inv c { s with
      pool := s.pool.scheduleTaskFromFiber (.child i)
      children := s.children.set i { ch with place := .queued }
      parent := .scheduling (i + 1) } := by
  have hplace : ch.place = .unscheduled :=
    (hs.unscheduled i ch hch).mpr (by simp [hpar, Parent.next])
  exact {
    length := by simpa using hs.length
    unscheduled := fun j x hx => by
      -- the border moves by one, over this call
      rcases getElem?_set_eq_some hx with ⟨rfl, rfl⟩ | ⟨hj, hx⟩
      · simp [Parent.next]
      · rw [hs.unscheduled j x hx, hpar]
        simp only [Parent.next]
        omega
    ended := fun h => by simp [Parent.past] at h
    done := forall_mem_set hs.done (by simp)
    callNum := fun _ => by
      have hcount := countP_set_add hch { ch with place := .queued } Child.live
      have hold := hs.callNum (by simp [hpar, Parent.joining])
      simp [Child.live, hplace] at hcount
      simp only
      omega
    waiting := fun h => by simp at h
    single := fun h => by simp at h
    running := by
      have hcount := countP_set_add hch { ch with place := .queued } Child.busy
      have hold := hs.running
      simp [Child.busy, hplace] at hcount
      simp only [hpar, Parent.fibers, FiberPool.scheduleTaskFromFiber_running] at hold ⊢
      omega
    queued := fun j => by
      have hold := hs.queued j
      simp only [any_getElem?_set hch, FiberPool.scheduleTaskFromFiber_tasks, List.count_append]
      by_cases hj : j = i
      · subst hj
        simp only [hch, Option.any_some, Child.inList, hplace] at hold
        simp at hold
        simp [Child.inList, hold]
      · simpa [hj, Ne.symm hj] using hold
    posted := by
      have hold := hs.posted
      simp only [hpar, FiberPool.scheduleTaskFromFiber_tasks, List.count_append] at hold ⊢
      simpa using hold }

/-- The parent moves on while it joins, with every call scheduled. -/
theorem Inv.joinMove (hs : Inv c s) {par : Parent} (hpar : s.parent.joining = true)
    (hnext : ∀ j < c.reqs.length, s.parent.next c.reqs.length ≤ j ↔ False)
    (hpar' : par = .checking ∨ (par = .waiting ∧ 0 < s.callNum)) :
    Inv c { s with parent := par } := by
  have hfibers : s.parent.fibers = par.fibers := by
    rcases hpar' with rfl | ⟨rfl, -⟩ <;> cases hp : s.parent <;>
      simp [hp, Parent.joining, Parent.fibers] at hpar ⊢
  have hne : s.parent ≠ .posted := by
    rintro h
    simp [h, Parent.joining] at hpar
  exact { hs with
    unscheduled := fun j ch hj => by
      have hlt : j < c.reqs.length := by
        rw [← hs.length]
        exact (List.getElem?_eq_some_iff.mp hj).1
      have hn : par.next c.reqs.length = c.reqs.length := by
        rcases hpar' with rfl | ⟨rfl, -⟩ <;> rfl
      rw [hs.unscheduled j ch hj, hnext j hlt, hn]
      simp only [false_iff]
      omega
    ended := fun h => by rcases hpar' with rfl | ⟨rfl, -⟩ <;> simp [Parent.past] at h
    callNum := fun _ => hs.callNum hpar
    waiting := fun h => by
      rcases hpar' with rfl | ⟨rfl, hn⟩
      · simp at h
      · exact hn
    single := fun h => by rcases hpar' with rfl | ⟨rfl, -⟩ <;> simp at h
    running := by
      have h := hs.running
      rwa [hfibers] at h
    posted := by
      have h := hs.posted
      rw [if_neg hne] at h
      rw [h, if_neg]
      rcases hpar' with rfl | ⟨rfl, -⟩ <;> simp }

/-- The parent moves on past the join, and may give its fiber back. -/
theorem Inv.pastMove (hs : Inv c s) {par : Parent} {p : FiberPool Task}
    (sent : List (Nat × TranAction × TranMsg)) (callbacks : Nat) (hpar : par.past = true)
    (htasks : p.tasks = s.pool.tasks)
    (hfibers : p.running + s.parent.fibers = s.pool.running + par.fibers)
    (hended : ∀ ch ∈ s.children, ch.place = .ended) (hne : s.parent ≠ .posted) :
    Inv c { s with pool := p, parent := par, sent := sent, callbacks := callbacks } := by
  have hpar' : par ≠ .posted ∧ par ≠ .single ∧ par ≠ .waiting ∧ par.joining = false ∧
      par.next c.reqs.length = c.reqs.length := by
    cases par <;> simp [Parent.past, Parent.joining, Parent.next] at hpar ⊢
  obtain ⟨hposted, hsingle, hwaiting, hjoining, hnext⟩ := hpar'
  exact { hs with
    unscheduled := fun j ch hj => by
      have hlt : j < c.reqs.length := by
        rw [← hs.length]
        exact (List.getElem?_eq_some_iff.mp hj).1
      simp only [hended ch (List.mem_of_getElem? hj), reduceCtorEq, hnext, false_iff]
      omega
    ended := fun _ => hended
    callNum := fun h => by simp [hjoining] at h
    waiting := fun h => absurd h hwaiting
    single := fun h => absurd h hsingle
    running := by
      have h := hs.running
      simp only
      omega
    queued := fun i => by simpa only [htasks] using hs.queued i
    posted := by
      have h := hs.posted
      rw [if_neg hne] at h
      rw [htasks, h, if_neg hposted] }

/-- The counter has reached zero: every call has ended. -/
theorem Inv.ended_of_callNum (hs : Inv c s) (hpar : s.parent.joining = true)
    (hn : ¬ 0 < s.callNum) : ∀ ch ∈ s.children, ch.place = .ended := by
  have hzero : s.children.countP Child.live = 0 := by
    have h := hs.callNum hpar
    omega
  rw [List.countP_eq_zero] at hzero
  intro ch hch
  simpa [Child.live] using hzero ch hch

theorem Inv.singleEnd (hs : Inv c s) (hpar : s.parent = .single)
    (hd : ∀ ch ∈ s.children, ch.call.phase = .done) :
    Inv c { s with
      parent := .joined
      children := s.children.map fun ch => { ch with place := .ended } } := by
  obtain ⟨hone, hplace⟩ := hs.single hpar
  have hlen : s.children.length = 1 := by rw [hs.length, hone]
  obtain ⟨ch, hch⟩ := List.length_eq_one_iff.mp hlen
  have hrun : ch.place = .running := hplace ch (by simp [hch])
  exact {
    length := by simpa using hs.length
    unscheduled := fun j x hx => by
      obtain ⟨y, hy, rfl⟩ : ∃ y, s.children[j]? = some y ∧ _ = x := by simpa using hx
      have hj : j < 1 := by
        rw [← hlen]
        exact (List.getElem?_eq_some_iff.mp hy).1
      simp only [reduceCtorEq, Parent.next, hone, false_iff]
      omega
    ended := fun _ x hx => by
      obtain ⟨y, -, rfl⟩ := List.mem_map.mp hx
      rfl
    done := fun x hx _ => by
      obtain ⟨y, hy, rfl⟩ := List.mem_map.mp hx
      exact hd y hy
    callNum := fun h => by simp [Parent.joining] at h
    waiting := fun h => by simp at h
    single := fun h => by simp at h
    running := by
      have h := hs.running
      simp [hch, hpar, hrun, Parent.fibers, Child.busy] at h ⊢
      omega
    queued := fun i => by
      have h := hs.queued i
      rw [h]
      cases hi : s.children[i]? with
      | none => simp [hi]
      | some x => simp [hi, Child.inList, hplace x (List.mem_of_getElem? hi)]
    posted := by
      have h := hs.posted
      simpa [hpar] using h }

/-- A call takes a step: nothing but its own entry and the cache changes. -/
theorem Inv.call (hs : Inv c s) {i : Nat} {ch : Child} (hch : s.children[i]? = some ch)
    (hrun : ch.place = .running) (call' : CallState) (cache' : ServiceCache) :
    Inv c { s with
      children := s.children.set i { ch with call := call' }, cache := cache' } := by
  have hcount (p : Child → Bool) (hp : p { ch with call := call' } = p ch) :
      (s.children.set i { ch with call := call' }).countP p = s.children.countP p := by
    have h := countP_set_add hch { ch with call := call' } p
    rw [hp] at h
    omega
  exact {
    length := by simpa using hs.length
    unscheduled := fun j x hx => hs.unscheduled_set hx (hs.unscheduled i ch hch)
    ended := fun h => forall_mem_set (hs.ended h) (hs.ended h ch (List.mem_of_getElem? hch))
    done := forall_mem_set hs.done (by simp [hrun])
    callNum := fun h => by simpa only [hcount Child.live rfl] using hs.callNum h
    waiting := hs.waiting
    single := fun h => ⟨(hs.single h).1, forall_mem_set (hs.single h).2 hrun⟩
    running := by simpa only [hcount Child.busy rfl] using hs.running
    queued := fun j => by
      rw [any_getElem?_set hch, hs.queued j]
      by_cases hj : j = i
      · subst hj
        simp [hch, Child.inList]
      · simp [hj]
    posted := hs.posted }

/-- A running call keeps the parent before the join and after the posting. -/
theorem Inv.joining_of_running (hs : Inv c s) {i : Nat} {ch : Child}
    (hch : s.children[i]? = some ch) (hns : s.parent ≠ .single) (hrun : ch.place = .running) :
    s.parent.joining = true := by
  have hpast : s.parent.past ≠ true := fun h => by
    simpa [hrun] using hs.ended h ch (List.mem_of_getElem? hch)
  have hposted : s.parent ≠ .posted := fun h => by
    have hu := (hs.unscheduled i ch hch).mpr (by simp [h, Parent.next])
    simp [hrun] at hu
  cases h : s.parent <;> simp_all [Parent.joining, Parent.past]

theorem Fan.afterChild_cases (s : Fan) :
    s.afterChild = s.parent ∧ (s.parent = .waiting → s.callNum - 1 ≠ 0) ∨
      s.parent = .waiting ∧ s.afterChild = .checking := by
  unfold Fan.afterChild
  split
  · rename_i h
    exact .inr ⟨h.2, rfl⟩
  · rename_i h
    exact .inl ⟨rfl, fun hw hzero => h ⟨hzero, hw⟩⟩

/-- The notification changes `waiting` to `checking`, which are alike for the rest. -/
theorem Fan.afterChild_alike {s : Fan} (h : s.parent.joining = true) (n : Nat) :
    s.afterChild.joining = true ∧ s.afterChild.next n = s.parent.next n ∧
      s.afterChild.fibers = s.parent.fibers := by
  rcases s.afterChild_cases with ⟨heq, -⟩ | ⟨hw, heq⟩
  · rw [heq]
    exact ⟨h, rfl, rfl⟩
  · rw [heq, hw]
    exact ⟨rfl, rfl, rfl⟩

theorem Parent.past_of_joining {p : Parent} (h : p.joining = true) : p.past = false := by
  cases p <;> simp_all [Parent.joining, Parent.past]

/-- A call returns: the counter goes down, and the last one wakes the parent. -/
theorem Inv.childEnd (hs : Inv c s) {p : FiberPool Task} {i : Nat} {ch : Child}
    (hch : s.children[i]? = some ch) (hns : s.parent ≠ .single) (hrun : ch.place = .running)
    (hd : ch.call.phase = .done) (hp : s.pool.finish = some p) :
    Inv c { s with
      pool := p
      children := s.children.set i { ch with place := .ended }
      callNum := s.callNum - 1
      parent := s.afterChild } := by
  obtain ⟨htasks, hrunning⟩ := FiberPool.finish_eq_some hp
  have hlive := countP_set_add hch { ch with place := .ended } Child.live
  have hbusy := countP_set_add hch { ch with place := .ended } Child.busy
  simp [Child.live, hrun] at hlive
  simp [Child.busy, hrun] at hbusy
  have hjoining := hs.joining_of_running hch hns hrun
  have hcallNum := hs.callNum hjoining
  obtain ⟨hj, hnext, hfibers⟩ := Fan.afterChild_alike hjoining c.reqs.length
  have hne {p : Parent} (hp : p.joining = false) : s.afterChild ≠ p := by
    rintro rfl
    simp [hj] at hp
  exact {
    length := by simpa using hs.length
    unscheduled := fun j x hx => by
      simp only [hnext]
      exact hs.unscheduled_set hx (by simpa [hrun] using hs.unscheduled i ch hch)
    ended := fun h => by simp [Parent.past_of_joining hj] at h
    done := forall_mem_set hs.done (fun _ => hd)
    callNum := fun _ => by
      simp only
      omega
    waiting := fun h => by
      rcases s.afterChild_cases with ⟨heq, hnum⟩ | ⟨-, heq⟩
      · have hw := heq.symm.trans h
        have hpos := hs.waiting hw
        have hleft := hnum hw
        simp only
        omega
      · cases heq.symm.trans h
    single := fun h => absurd h (hne rfl)
    running := by
      have h := hs.running
      simp only [hfibers]
      omega
    queued := fun j => by
      rw [any_getElem?_set hch, htasks, hs.queued j]
      by_cases hj : j = i
      · subst hj
        simp [hch, Child.inList, hrun]
      · simp [hj]
    posted := by
      have hposted : s.parent ≠ .posted := by
        rintro h
        simp [h, Parent.joining] at hjoining
      rw [htasks, hs.posted, if_neg hposted, if_neg (hne rfl)] }

/-- The pool changes, but not for this call. -/
theorem Inv.poolMove (hs : Inv c s) {p : FiberPool Task} {others : Nat}
    (hcount : ∀ t, t ≠ .other → p.tasks.count t = s.pool.tasks.count t)
    (hrun : p.running + s.others = s.pool.running + others) :
    Inv c { s with pool := p, others := others } :=
  { hs with
    running := by
      have h := hs.running
      simp only
      omega
    queued := fun i => by simpa only [hcount (.child i) (by simp)] using hs.queued i
    posted := by simpa only [hcount .parent (by simp)] using hs.posted }

end Preservation

section Runs

variable {mgr : ForwardManager} {mem : LiteralMemory} {c : ServicesCall}

theorem inv_step (hc : c.rejected = false) {s s' : Fan} {e : Event} (hs : Inv c s)
    (h : step mgr mem c s e = some s') : Inv c s' := by
  obtain ⟨-, h⟩ := stepsTo_of_step h
  cases h with
  | post =>
    exact hs.poolMove (fun t ht => by simp [List.count_eq_zero, ht]) (by simp)
  | otherEnd ho hp =>
    obtain ⟨htasks, hrun⟩ := FiberPool.finish_eq_some hp
    exact hs.poolMove (fun t _ => by rw [htasks]) (by omega)
  | insert hn => exact { hs with }
  | sleep hp =>
    obtain ⟨htasks, hrun⟩ := FiberPool.sleep_eq_some hp
    exact hs.poolMove (fun t _ => by rw [htasks]) (by omega)
  | takeOther hp =>
    obtain ⟨htasks, hrun⟩ := FiberPool.take_eq_some hp
    exact hs.poolMove
      (fun t ht => by rw [htasks, List.count_cons_of_ne (Ne.symm ht)]) (by omega)
  | takeParent hp => exact hs.takeParent hc hp
  | takeChild hp hch => exact hs.takeChild hp hch
  | schedule hpar hch => exact hs.schedule hpar hch
  | @scheduled i hpar hch =>
    have hi : c.reqs.length ≤ i := by
      rw [← hs.length]
      exact List.getElem?_eq_none_iff.mp hch
    refine hs.joinMove (by simp [hpar, Parent.joining]) (fun j hj => ?_) (.inl rfl)
    simp only [hpar, Parent.next, iff_false]
    omega
  | wait hpar hn =>
    refine hs.joinMove (by simp [hpar, Parent.joining]) (fun j hj => ?_) (.inr ⟨rfl, hn⟩)
    simp only [hpar, Parent.next, iff_false]
    omega
  | join hpar hn =>
    exact hs.pastMove _ _ rfl rfl (by simp [hpar, Parent.fibers])
      (hs.ended_of_callNum (by simp [hpar, Parent.joining]) hn) (by simp [hpar])
  | singleEnd hpar hd => exact hs.singleEnd hpar hd
  | crash hpar | collect hpar | noTransaction hpar | decide hpar | decided hpar =>
    exact hs.pastMove _ _ rfl rfl (by simp [hpar, Parent.fibers])
      (hs.ended (by simp [hpar, Parent.past])) (by simp [hpar])
  | callback hpar hp =>
    obtain ⟨htasks, hrun⟩ := FiberPool.finish_eq_some hp
    exact hs.pastMove _ _ rfl htasks (by simp [hpar, Parent.fibers, hrun])
      (hs.ended (by simp [hpar, Parent.past])) (by simp [hpar])
  | call hch hreq hrun he hstep => exact hs.call hch hrun _ _
  | childEnd hch hns hrun hd hp => exact hs.childEnd hch hns hrun hd hp

end Runs

end FiberProxy.Forward
