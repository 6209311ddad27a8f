/-
  FiberProxy.Forward.FanIn

  What a multi-service call gives its caller.  Every entry of `rsp_list` is what
  its own call left there (`History`), the callback comes once and after every
  call, and it does come: before it, some fiber can always step, and the steps
  are bounded.
-/

import FiberProxy.Forward.Join
import Mathlib.Algebra.Order.BigOperators.Group.List

namespace FiberProxy.Forward

open Lib

section Runs

variable {mgr : ForwardManager} {mem : LiteralMemory} {c : ServicesCall}

/-! ## Each entry is what its own call left -/

/-- The events of the `i`-th call. -/
def Event.ofCall (i : Nat) : Event → Option CallEvent
  | .call j e => if j = i then some e else none
  | _ => none

def callEvents (i : Nat) (es : List Event) : List CallEvent := es.filterMap (Event.ofCall i)

/-- The variables of the calls. -/
def Fan.calls (s : Fan) : List CallState := s.children.map (·.call)

theorem Fan.getElem?_rspList (s : Fan) (i : Nat) :
    s.rspList[i]? = (s.calls[i]?).map (·.rsp) := by
  simp [Fan.rspList, Fan.calls, Function.comp_def]

theorem map_call_set {l : List Child} {i : Nat} {ch : Child} (h : l[i]? = some ch)
    (place : Place) : (l.set i { ch with place := place }).map (·.call) = l.map (·.call) := by
  obtain ⟨hi, rfl⟩ := List.getElem?_eq_some_iff.mp h
  apply List.ext_getElem?
  intro j
  by_cases hj : i = j
  · subst hj
    simp [hi]
  · simp [List.getElem?_set_ne hj]

theorem Fan.calls_launch (hc : c.rejected = false) (s : Fan) (p : FiberPool Task) :
    (s.launch c p).calls = s.calls := by
  unfold Fan.launch
  rw [if_neg (by simp [hc])]
  split
  · simp [Fan.calls, Function.comp_def]
  · rfl

/-- **Frame.**  A step writes no variables of a call, unless it is a step of that
    call. -/
theorem calls_step (hc : c.rejected = false) {s s' : Fan} {e : Event}
    (h : step mgr mem c s e = some s') :
    (∃ i ev ch req call', e = .call i ev ∧ s.calls[i]? = some ch ∧ c.reqs[i]? = some req ∧
      ev.possible s.cache req = true ∧ callStep req ch ev = some call' ∧
      s'.calls = s.calls.set i call' ∧ s'.cache = cacheAfter s.cache req ch call') ∨
    ((∀ i, e.ofCall i = none) ∧ s'.calls = s.calls ∧
      (s'.cache = s.cache ∨ ∃ req rsp, rsp.serviceName = req.serviceName ∧
        s'.cache = cacheSet s.cache req rsp)) := by
  obtain ⟨-, h⟩ := stepsTo_of_step h
  cases h with
  | @call i ev ch req call' hch hreq hrun he hstep =>
    left
    -- the only step that writes a call's variables, and it writes its own
    refine ⟨i, ev, ch.call, req, call', rfl, by simp [Fan.calls, hch], hreq, he, hstep, ?_, rfl⟩
    simp [Fan.calls, List.map_set]
  | takeParent hp =>
    refine .inr ⟨fun _ => rfl, Fan.calls_launch hc _ _, .inl ?_⟩
    unfold Fan.launch
    split
    · rfl
    · split <;> rfl
  -- these move a call to another place and leave its variables
  | takeChild hp hch | schedule hpar hch | childEnd hch =>
    exact .inr ⟨fun _ => rfl, map_call_set hch _, .inl rfl⟩
  | singleEnd hpar hd =>
    exact .inr ⟨fun _ => rfl, by simp [Fan.calls, Function.comp_def], .inl rfl⟩
  | insert hn => exact .inr ⟨fun _ => rfl, rfl, .inr ⟨_, _, hn, rfl⟩⟩
  | _ => exact .inr ⟨fun _ => rfl, rfl, .inl rfl⟩

/-! ## The callback -/

/-- The parent is started once, and at its end it invokes the callback once. -/
structure Fan.Once (s : Fan) : Prop where
  posted : s.pool.tasks.count .parent = if s.parent = .posted then 1 else 0
  callbacks : s.callbacks = if s.parent = .finished then 1 else 0

theorem once_start (c : ServicesCall) (pool : FiberPool Unit) : (Fan.start c pool).Once :=
  ⟨(inv_start c pool).posted, by simp [Fan.start]⟩

/-- The parent stays where it is. -/
theorem Fan.Once.keep {s s' : Fan} (hs : s.Once) (hparent : s'.parent = s.parent)
    (hcallbacks : s'.callbacks = s.callbacks)
    (htasks : s'.pool.tasks.count .parent = s.pool.tasks.count .parent) : s'.Once :=
  ⟨by rw [htasks, hs.posted, hparent], by rw [hcallbacks, hs.callbacks, hparent]⟩

/-- The parent goes on, between its start and its end. -/
theorem Fan.Once.move {s s' : Fan} (hs : s.Once) (hold : s.parent ≠ .posted ∧ s.parent ≠ .finished)
    (hnew : s'.parent ≠ .posted ∧ s'.parent ≠ .finished) (hcallbacks : s'.callbacks = s.callbacks)
    (htasks : s'.pool.tasks.count .parent = s.pool.tasks.count .parent) : s'.Once :=
  ⟨by rw [htasks, hs.posted, if_neg hold.1, if_neg hnew.1],
    by rw [hcallbacks, hs.callbacks, if_neg hold.2, if_neg hnew.2]⟩

theorem once_step {s s' : Fan} {e : Event} (hs : s.Once) (h : step mgr mem c s e = some s') :
    s'.Once := by
  obtain ⟨-, h⟩ := stepsTo_of_step h
  cases h with
  | post => exact hs.keep rfl rfl (by simp)
  | insert => exact hs.keep rfl rfl rfl
  | otherEnd _ hp => exact hs.keep rfl rfl (by rw [(FiberPool.finish_eq_some hp).1])
  | sleep hp => exact hs.keep rfl rfl (by rw [(FiberPool.sleep_eq_some hp).1])
  | takeOther hp | takeChild hp =>
    refine hs.keep rfl rfl ?_
    rw [(FiberPool.take_eq_some hp).1, List.count_cons_of_ne (by simp)]
  | @takeParent p hp =>
    have htasks := (FiberPool.take_eq_some hp).1
    -- the only task of the parent is taken
    have hposted : s.parent = .posted := by
      by_contra hne
      have hcount := hs.posted
      rw [htasks, List.count_cons_self, if_neg hne] at hcount
      omega
    have hcount := hs.posted
    rw [htasks, List.count_cons_self, if_pos hposted] at hcount
    have hnone : p.tasks.count .parent = 0 := by omega
    have hcb := hs.callbacks
    rw [hposted, if_neg (by simp)] at hcb
    unfold Fan.launch
    repeat' split
    all_goals exact ⟨by simp [hnone], by simp [hcb]⟩
  | schedule hpar =>
    exact hs.move (by simp [hpar]) (by simp) rfl (by simp)
  | scheduled hpar | wait hpar | join hpar | singleEnd hpar | crash hpar | collect hpar
  | noTransaction hpar | decide hpar | decided hpar =>
    exact hs.move (by simp [hpar]) (by simp) rfl rfl
  | callback hpar hp =>
    have hcount := hs.posted
    have hcb := hs.callbacks
    rw [hpar, if_neg (by simp)] at hcount hcb
    exact ⟨by simp [(FiberPool.finish_eq_some hp).1, hcount], by simp [hcb]⟩
  | call => exact hs.keep rfl rfl rfl
  | childEnd hch hns hrun hd hp =>
    have htasks := (FiberPool.finish_eq_some hp).1
    rcases s.afterChild_cases with ⟨heq, -⟩ | ⟨hw, heq⟩
    · exact hs.keep heq rfl (by rw [htasks])
    · exact hs.move (by simp [hw]) (by simp [heq]) rfl (by rw [htasks])

/-- The callback is never taken back. -/
theorem callbacks_le_step {s s' : Fan} {e : Event} (h : step mgr mem c s e = some s') :
    s.callbacks ≤ s'.callbacks := by
  obtain ⟨-, h⟩ := stepsTo_of_step h
  cases h with
  | takeParent =>
    unfold Fan.launch
    split
    · exact le_rfl
    · split <;> exact le_rfl
  | callback => exact Nat.le_succ _
  | _ => exact le_rfl

/-- A step that invokes the callback does it for the first time. -/
theorem callbacks_of_ne {s s' : Fan} {e : Event} (hs : s.Once) (h : step mgr mem c s e = some s')
    (hne : s'.callbacks ≠ s.callbacks) : s.callbacks = 0 ∧ s'.callbacks = 1 := by
  have hle := callbacks_le_step h
  have hone : s'.callbacks ≤ 1 := by
    rw [(once_step hs h).callbacks]
    split <;> omega
  omega

/-! ## The history of a run -/

/-- What the calls of a run have done so far. -/
structure History (c : ServicesCall) (es : List Event) (s : Fan) : Prop where
  inv : Inv c s
  /-- The variables of a call are those of its own run on its own entry. -/
  values : ∀ (i : Nat) req rsp, c.reqs[i]? = some req → c.resized[i]? = some rsp →
    callSingleService req rsp (callEvents i es) = s.calls[i]?
  named : ∀ (i : Nat) req call, c.reqs[i]? = some req → s.calls[i]? = some call →
    CallState.Ok req call
  cache : CacheNamed s.cache
  once : s.Once

theorem history_start (c : ServicesCall) (pool : FiberPool Unit) :
    History c [] (.start c pool) where
  inv := inv_start c pool
  values i req rsp _ hrsp := by
    simp [callSingleService, callEvents, Fan.calls, Fan.start, hrsp]
  named i req call _ hcall := by
    simp only [Fan.calls, Fan.start, List.map_map, List.getElem?_map, Option.map_eq_some_iff]
      at hcall
    obtain ⟨rsp, -, rfl⟩ := hcall
    exact CallState.ok_start req rsp
  cache := fun e he => by simp [Fan.start] at he
  once := once_start c pool

theorem callEvents_snoc (i : Nat) (es : List Event) (e : Event) :
    callEvents i (es ++ [e]) = callEvents i es ++ (e.ofCall i).toList := by
  simp only [callEvents, List.filterMap_append]
  cases h : e.ofCall i <;> simp [h]

theorem history_step (hc : c.rejected = false) {es : List Event} {s s' : Fan} {e : Event}
    (hs : History c es s) (h : step mgr mem c s e = some s') : History c (es ++ [e]) s' := by
  have hinv := inv_step hc hs.inv h
  have honce := once_step hs.once h
  rcases calls_step hc h with ⟨i, ev, call, req, call', rfl, hcall, hreq, he, hstep, hcalls, hcache⟩
    | ⟨hnone, hcalls, hcache⟩
  · have hok : call'.Ok req := callStep_ok hs.cache (hs.named i req call hreq hcall) he hstep
    have hi : i < s.calls.length := (List.getElem?_eq_some_iff.mp hcall).1
    refine ⟨hinv, fun j req' rsp hj hrsp => ?_, fun j req' x hj hx => ?_, ?_, honce⟩
    · -- the run of call `j` so far, and then this event if it is its own
      rw [callEvents_snoc, callSingleService, run_append, ← callSingleService,
        hs.values j req' rsp hj hrsp, hcalls]
      by_cases hji : i = j
      · subst hji
        obtain rfl : req = req' := by simpa [hreq] using hj
        rw [hcall]
        simp [Event.ofCall, hstep, hi]
      · simp [Event.ofCall, hji]
    · rw [hcalls] at hx
      by_cases hji : i = j
      · subst hji
        obtain rfl : req = req' := by simpa [hreq] using hj
        obtain rfl : call' = x := by simpa [hi] using hx
        exact hok
      · rw [List.getElem?_set_ne hji] at hx
        exact hs.named j req' x hj hx
    · rw [hcache]
      exact cacheNamed_cacheAfter hs.cache hok
  · have hnamed : CacheNamed s'.cache := by
      rcases hcache with hcache | ⟨req, rsp, hn, hcache⟩ <;> rw [hcache]
      · exact hs.cache
      · exact cacheNamed_cacheSet hs.cache hn
    refine ⟨hinv, fun j req' rsp hj hrsp => ?_, fun j req' x hj hx => ?_, hnamed, honce⟩
    · rw [callEvents_snoc, hnone j, hcalls]
      simpa using hs.values j req' rsp hj hrsp
    · exact hs.named j req' x hj (by rwa [hcalls] at hx)

/-- **Run lemma.**  Every state a call reaches has its history. -/
theorem history_of_run (hc : c.rejected = false) {pool : FiberPool Unit} {es : List Event}
    {s : Fan} (h : run (step mgr mem c) (.start c pool) es = some s) : History c es s :=
  run_induction (history_start c pool) (fun _ _ _ _ _ hs hstep => history_step hc hs hstep) h

/-! ## The assertion -/

/-- The transaction part would use a null `transaction_mgr_`, and the build checks it. -/
def Aborts (mgr : ForwardManager) (c : ServicesCall) : Prop :=
  c.doTransaction = true ∧ c.reqs ≠ [] ∧ mgr.transactionMgr = false ∧ mgr.asserts = true

theorem aborts_step (hc : c.rejected = false) {s s' : Fan} {e : Event} (hs : Inv c s)
    (ha : s.parent = .crashed → Aborts mgr c) (h : step mgr mem c s e = some s') :
    s'.parent = .crashed → Aborts mgr c := by
  obtain ⟨-, h⟩ := stepsTo_of_step h
  cases h with
  | takeParent hp =>
    unfold Fan.launch
    rw [if_neg (by simp [hc])]
    split <;> simp
  | crash hpar ht hne hm =>
    refine fun _ => ⟨ht, fun hnil => hne ?_, hm⟩
    rw [← List.length_eq_zero_iff, hs.length, hnil, List.length_nil]
  | childEnd =>
    unfold Fan.afterChild
    split
    · simp
    · exact ha
  | post | otherEnd | insert | sleep | takeOther | takeChild | call => exact ha
  | _ => simp

theorem aborts_of_run (hc : c.rejected = false) {pool : FiberPool Unit} {es : List Event}
    {s : Fan} (h : run (step mgr mem c) (.start c pool) es = some s) (hs : s.parent = .crashed) :
    Aborts mgr c := by
  have hstart : Inv c (.start c pool) ∧ ((Fan.start c pool).parent = .crashed → Aborts mgr c) :=
    ⟨inv_start c pool, by simp [Fan.start]⟩
  have hstep : ∀ s e s', Inv c s ∧ (s.parent = .crashed → Aborts mgr c) →
      step mgr mem c s e = some s' → Inv c s' ∧ (s'.parent = .crashed → Aborts mgr c) :=
    fun _ _ _ hs he => ⟨inv_step hc hs.1 he, aborts_step hc hs.1 hs.2 he⟩
  exact (run_inv hstep hstart h).2 hs

/-! ## The call goes on -/

/-- Steps of this call or of the tasks the pool already holds; the others are new
    work of other callers, and a fiber going to sleep. -/
def Event.progress : Event → Bool
  | .post | .insert .. | .sleep => false
  | _ => true

/-- Some step can be made that brings the call closer to its end. -/
def CanProgress (mgr : ForwardManager) (mem : LiteralMemory) (c : ServicesCall) (s : Fan) : Prop :=
  ∃ e, e.progress = true ∧ (step mgr mem c s e).isSome = true

/-- A call that holds a fiber can step or return. -/
theorem canProgress_of_busy {s : Fan} (hs : Inv c s) (hcrash : s.parent ≠ .crashed)
    {ch : Child} (hmem : ch ∈ s.children) (hbusy : ch.place = .running) :
    CanProgress mgr mem c s := by
  obtain ⟨i, hi⟩ := List.mem_iff_getElem?.mp hmem
  have hlt : i < c.reqs.length := by
    rw [← hs.length]
    exact (List.getElem?_eq_some_iff.mp hi).1
  -- a call that is done returns, to its parent or to the pool; another one goes on
  by_cases hd : ch.call.phase = .done
  · by_cases hsingle : s.parent = .single
    · -- the one call of a list of one
      obtain ⟨hone, -⟩ := hs.single hsingle
      obtain ⟨x, hx⟩ := List.length_eq_one_iff.mp (hs.length.trans hone)
      obtain rfl : ch = x := by simpa [hx] using hmem
      refine ⟨.singleEnd, rfl, ?_⟩
      simp [step, parentStep, hsingle, hx, hd]
    · obtain ⟨p, hp⟩ : ∃ p, s.pool.finish = some p := by
        apply FiberPool.exists_finish
        have hpos : 0 < s.children.countP Child.busy :=
          List.countP_pos_iff.mpr ⟨ch, hmem, by simp [Child.busy, hbusy]⟩
        have h := hs.running
        omega
      refine ⟨.childEnd i, rfl, ?_⟩
      simp [step, hcrash, hi, hsingle, hbusy, hd, hp]
  · obtain ⟨ev, hev, hstep⟩ := @exists_callStep (c.reqs.get ⟨i, hlt⟩) _ s.cache hd
    refine ⟨.call i ev, rfl, ?_⟩
    have hreq : c.reqs[i]? = some (c.reqs.get ⟨i, hlt⟩) := by simp
    simp only [step, if_neg hcrash, hi, hreq, Option.bind_some, hbusy, hev, and_self, if_true,
      Option.isSome_map, hstep]

/-- A pool with every fiber at work has a task that can go on: a pool is larger
    than the one fiber the parent holds. -/
theorem canProgress_of_full {s : Fan} (hs : Inv c s) (hcrash : s.parent ≠ .crashed)
    (hfull : growSize ≤ s.pool.running) : CanProgress mgr mem c s := by
  have hrun := hs.running
  have hfibers : s.parent.fibers ≤ 1 := by cases s.parent <;> simp [Parent.fibers]
  by_cases ho : 0 < s.others
  · obtain ⟨p, hp⟩ := FiberPool.exists_finish (p := s.pool) (by omega)
    exact ⟨.otherEnd, rfl, by simp [step, hcrash, ho, hp]⟩
  · -- ten fibers run tasks, one of them the parent's at most
    have hpos : 0 < s.children.countP Child.busy := by
      simp only [growSize] at hfull
      omega
    obtain ⟨ch, hmem, hbusy⟩ := List.countP_pos_iff.mp hpos
    exact canProgress_of_busy hs hcrash hmem (by simpa [Child.busy] using hbusy)

/-- A waiting task is taken, or the pool is full. -/
theorem canProgress_of_task {s : Fan} (hs : Inv c s) (hcrash : s.parent ≠ .crashed)
    {t : Task} {ts : List Task} (ht : s.pool.tasks = t :: ts) : CanProgress mgr mem c s := by
  rcases FiberPool.take_or_busy ht with ⟨p, hp⟩ | hfull
  · refine ⟨.take, rfl, ?_⟩
    simp only [step, if_neg hcrash, hp, Option.bind_some]
    cases t with
    | other | parent => rfl
    | child i =>
      have hq := hs.queued i
      rw [ht, List.count_cons_self] at hq
      cases hi : s.children[i]? with
      | none => simp [hi] at hq
      | some ch => simp [Fan.runTask, hi]
  · exact canProgress_of_full hs hcrash hfull

/-- While the parent waits and no task is in the list, one of its calls has a fiber. -/
theorem exists_running_of_waiting {s : Fan} (hs : Inv c s) (ht : s.pool.tasks = [])
    (hpar : s.parent = .waiting) : ∃ ch ∈ s.children, ch.place = .running := by
  have hpos := hs.waiting hpar
  rw [hs.callNum (by simp [hpar, Parent.joining])] at hpos
  obtain ⟨ch, hmem, hlive⟩ := List.countP_pos_iff.mp (by exact_mod_cast hpos)
  obtain ⟨i, hi⟩ := List.mem_iff_getElem?.mp hmem
  have hlt : i < c.reqs.length := by
    rw [← hs.length]
    exact (List.getElem?_eq_some_iff.mp hi).1
  have hunsch := hs.unscheduled i ch hi
  have hqueued := hs.queued i
  refine ⟨ch, hmem, ?_⟩
  cases hplace : ch.place with
  | unscheduled =>
    simp only [hplace, hpar, Parent.next, true_iff] at hunsch
    omega
  | queued => simp [ht, hi, Child.inList, hplace] at hqueued
  | running => rfl
  | ended => simp [Child.live, hplace] at hlive

/-- **No lost wake-up.**  Until the callback has been invoked, some step can be
    made. -/
theorem canProgress {s : Fan} (hs : Inv c s) (hcrash : s.parent ≠ .crashed)
    (hfin : s.parent ≠ .finished) : CanProgress mgr mem c s := by
  cases ht : s.pool.tasks with
  | cons t ts => exact canProgress_of_task hs hcrash ht
  -- with no task in the list, the parent or one of its calls holds a fiber
  | nil =>
    cases hpar : s.parent with
    | posted =>
      have h := hs.posted
      simp [ht, hpar] at h
    | single =>
      obtain ⟨hone, hplace⟩ := hs.single hpar
      obtain ⟨ch, hch⟩ := List.length_eq_one_iff.mp (hs.length.trans hone)
      have hmem : ch ∈ s.children := by simp [hch]
      exact canProgress_of_busy hs hcrash hmem (hplace ch hmem)
    | scheduling i =>
      have hstep : step mgr mem c s .schedule = parentStep mgr mem c s .schedule :=
        if_neg hcrash
      refine ⟨.schedule, rfl, ?_⟩
      simp only [hstep, parentStep, hpar]
      split <;> rfl
    | checking => exact ⟨.check, rfl, by simp [step, parentStep, hpar]⟩
    | waiting =>
      obtain ⟨ch, hmem, hrunning⟩ := exists_running_of_waiting hs ht hpar
      exact canProgress_of_busy hs hcrash hmem hrunning
    | joined =>
      have hstep : step mgr mem c s .collect = parentStep mgr mem c s .collect := if_neg hcrash
      refine ⟨.collect, rfl, ?_⟩
      simp only [hstep, parentStep, hpar]
      split
      · split <;> rfl
      · rfl
    | deciding needCancel ids i =>
      have hstep : step mgr mem c s .decide = parentStep mgr mem c s .decide := if_neg hcrash
      refine ⟨.decide, rfl, ?_⟩
      simp only [hstep, parentStep, hpar]
      split <;> rfl
    | returning =>
      obtain ⟨p, hp⟩ : ∃ p, s.pool.finish = some p := by
        apply FiberPool.exists_finish
        have h := hs.running
        simp only [hpar, Parent.fibers] at h
        omega
      exact ⟨.callback, rfl, by simp [step, parentStep, hpar, hp]⟩
    | finished => exact absurd hpar hfin
    | crashed => exact absurd hpar hcrash

/-! ## The steps are bounded -/

def Place.weight : Place → Nat
  -- the last step is worth two: it may wake the parent
  | .unscheduled => 4
  | .queued => 3
  | .running => 2
  | .ended => 0

def Child.weight (ch : Child) : Nat := ch.place.weight + ch.call.phase.weight

/-- `n` is the length of the list: the transaction part has a turn for each call. -/
def Parent.weight (n : Nat) : Parent → Nat
  | .posted => n + 7
  | .single => n + 6
  | .scheduling _ => n + 6
  | .checking => n + 5
  | .waiting => n + 4
  | .joined => n + 3
  | .deciding _ _ i => n - i + 2
  | .returning => 1
  | .finished | .crashed => 0

/-- A bound on the steps that the call and the tasks in the pool still have to make. -/
def Fan.weight (c : ServicesCall) (s : Fan) : Nat :=
  s.parent.weight c.reqs.length + (s.children.map Child.weight).sum +
    2 * s.pool.tasks.count .other + s.others

theorem weight_running_le {ch : Child} (h : ch.place = .unscheduled) :
    Child.weight { ch with place := .running } ≤ Child.weight ch := by
  simp [Child.weight, Place.weight, h]

theorem Fan.weight_launch_lt (hc : c.rejected = false) {s : Fan} {p : FiberPool Task}
    (hs : Inv c s) (hp : s.pool.take = some (.parent, p)) :
    (s.launch c p).weight c < s.weight c := by
  obtain ⟨htasks, -⟩ := FiberPool.take_eq_some hp
  have hposted : s.parent = .posted := hs.posted_of_mem (by simp [htasks])
  have hother : s.pool.tasks.count .other = p.tasks.count .other := by
    rw [htasks, List.count_cons_of_ne (by simp)]
  unfold Fan.launch
  rw [if_neg (by simp [hc])]
  split
  · have hsum : ((s.children.map fun ch => { ch with place := .running }).map Child.weight).sum ≤
        (s.children.map Child.weight).sum := by
      rw [List.map_map]
      apply List.sum_le_sum
      intro ch hch
      obtain ⟨j, hj⟩ := List.mem_iff_getElem?.mp hch
      exact weight_running_le ((hs.unscheduled j ch hj).mpr (by simp [hposted, Parent.next]))
    simp only [Fan.weight, hposted, Parent.weight, hother]
    omega
  · simp only [Fan.weight, hposted, Parent.weight, hother]
    omega

theorem weight_step (hc : c.rejected = false) {s s' : Fan} {e : Event} (hs : Inv c s)
    (he : e.progress = true) (h : step mgr mem c s e = some s') : s'.weight c < s.weight c := by
  obtain ⟨-, h⟩ := stepsTo_of_step h
  cases h with
  | post | insert | sleep => simp [Event.progress] at he
  | otherEnd ho hp =>
    simp only [Fan.weight, (FiberPool.finish_eq_some hp).1]
    omega
  | takeOther hp =>
    simp only [Fan.weight, (FiberPool.take_eq_some hp).1, List.count_cons_self]
    omega
  | takeParent hp => exact Fan.weight_launch_lt hc hs hp
  | @takeChild p i ch hp hch =>
    obtain ⟨htasks, -⟩ := FiberPool.take_eq_some hp
    have hplace : ch.place = .queued := hs.queued_of_mem (by simp [htasks]) hch
    have hsum := sum_map_set_add hch { ch with place := .running } Child.weight
    simp only [Child.weight, hplace, Place.weight] at hsum
    simp only [Fan.weight, htasks, List.count_cons_of_ne (show Task.child i ≠ .other by simp)]
    omega
  | @schedule i ch hpar hch =>
    have hplace : ch.place = .unscheduled :=
      (hs.unscheduled i ch hch).mpr (by simp [hpar, Parent.next])
    have hsum := sum_map_set_add hch { ch with place := .queued } Child.weight
    simp only [Child.weight, hplace, Place.weight] at hsum
    have hother : [Task.child i].count .other = 0 := rfl
    simp only [Fan.weight, hpar, Parent.weight, FiberPool.scheduleTaskFromFiber_tasks,
      List.count_append, hother]
    omega
  | scheduled hpar | wait hpar | join hpar | crash hpar | collect hpar | noTransaction hpar
  | decided hpar =>
    simp only [Fan.weight, hpar, Parent.weight]
    omega
  | decide hpar hi =>
    simp only [Fan.weight, hpar, Parent.weight]
    omega
  | callback hpar hp =>
    simp only [Fan.weight, hpar, Parent.weight, (FiberPool.finish_eq_some hp).1]
    omega
  | singleEnd hpar hd =>
    have hsum : ((s.children.map fun ch => { ch with place := .ended }).map Child.weight).sum ≤
        (s.children.map Child.weight).sum := by
      rw [List.map_map]
      apply List.sum_le_sum
      intro ch _
      simp [Child.weight, Place.weight]
    simp only [Fan.weight, hpar, Parent.weight]
    omega
  | @call i ev ch req call' hch hreq hrun _ hstep =>
    have hlt := callStep_weight hstep
    have hsum := sum_map_set_add hch { ch with call := call' } Child.weight
    simp only [Child.weight] at hsum
    simp only [Fan.weight]
    omega
  | @childEnd p i ch hch hns hrun hd hp =>
    have hsum := sum_map_set_add hch { ch with place := .ended } Child.weight
    simp only [Child.weight, hrun, Place.weight] at hsum
    -- the wake-up sends the parent back to its check; the call's return pays for that
    have hafter : s.afterChild.weight c.reqs.length ≤ s.parent.weight c.reqs.length + 1 := by
      rcases s.afterChild_cases with ⟨heq, -⟩ | ⟨hw, heq⟩
      · rw [heq]
        omega
      · simp [heq, hw, Parent.weight]
    simp only [Fan.weight, (FiberPool.finish_eq_some hp).1]
    omega

/-- A run of steps towards the end has at most `Fan.weight` steps. -/
theorem length_le_weight (hc : c.rejected = false) {s t : Fan} {fs : List Event} (hs : Inv c s)
    (hfs : ∀ e ∈ fs, e.progress = true) (h : run (step mgr mem c) s fs = some t) :
    Inv c t ∧ fs.length ≤ s.weight c := by
  induction fs generalizing s with
  | nil =>
    obtain rfl : s = t := by simpa using h
    exact ⟨hs, Nat.zero_le _⟩
  | cons e fs ih =>
    obtain ⟨s', he, hrun⟩ := run_cons_eq_some.mp h
    rw [List.forall_mem_cons] at hfs
    have hlt := weight_step hc hs hfs.1 he
    obtain ⟨ht, hlen⟩ := ih (inv_step hc hs he) hfs.2 hrun
    exact ⟨ht, by rw [List.length_cons]; omega⟩

/-! ## Fan-out and fan-in -/

/-- When the callback has been invoked, every call has run to its end on its own
    entry, and the entry is what it left. -/
theorem entries_of_callback {es : List Event} {s : Fan} (hs : History c es s)
    (hcb : 0 < s.callbacks) {i : Nat} {req : ServiceCallReq} (hreq : c.reqs[i]? = some req) :
    ∃ rsp call, c.resized[i]? = some rsp ∧
      callSingleService req rsp (callEvents i es) = some call ∧ call.phase = .done ∧
      s.rspList[i]? = some call.rsp ∧ call.rsp.serviceName = req.serviceName := by
  -- the callback has been invoked, so the parent is past the join
  have hfin : s.parent = .finished := by
    by_contra hne
    simp [hs.once.callbacks, hne] at hcb
  have hi : i < c.reqs.length := (List.getElem?_eq_some_iff.mp hreq).1
  obtain ⟨ch, hch⟩ : ∃ ch, s.children[i]? = some ch :=
    ⟨_, List.getElem?_eq_getElem (by rw [hs.inv.length]; exact hi)⟩
  obtain ⟨rsp, hrsp⟩ : ∃ rsp, c.resized[i]? = some rsp :=
    ⟨_, List.getElem?_eq_getElem (by rw [length_resized]; exact hi)⟩
  have hmem := List.mem_of_getElem? hch
  have hcall : s.calls[i]? = some ch.call := by simp [Fan.calls, hch]
  have hdone := hs.inv.done ch hmem (hs.inv.ended (by simp [hfin, Parent.past]) ch hmem)
  refine ⟨rsp, ch.call, hrsp, ?_, hdone, ?_, ?_⟩
  · rw [hs.values i req rsp hreq hrsp, hcall]
  · rw [Fan.getElem?_rspList, hcall, Option.map_some]
  · exact (hs.named i req ch.call hreq hcall).named (by simp [hdone])

/-- A step writes only the entry of the call that makes it. -/
theorem rspList_step_of_ne (hc : c.rejected = false) {s s' : Fan} {e : Event}
    (h : step mgr mem c s e = some s') {j : Nat} (hj : e.ofCall j = none) :
    s'.rspList[j]? = s.rspList[j]? := by
  rw [Fan.getElem?_rspList, Fan.getElem?_rspList]
  rcases calls_step hc h with ⟨i, ev, call, req, call', rfl, -, -, -, -, hcalls, -⟩ | ⟨-, hcalls, -⟩
  · have hij : i ≠ j := by
      rintro rfl
      simp [Event.ofCall] at hj
    rw [hcalls, List.getElem?_set_ne hij]
  · rw [hcalls]

/-- **The callback comes.**  The steps that the call and the tasks in the pool still have to
    make are bounded, and when none is left, it was invoked exactly once. -/
theorem ends_of_run (hc : c.rejected = false) (ha : ¬ Aborts mgr c) {pool : FiberPool Unit}
    {es : List Event} {s : Fan} (h : run (step mgr mem c) (.start c pool) es = some s)
    {fs : List Event} {t : Fan} (hfs : ∀ e ∈ fs, Event.progress e = true)
    (hrun : run (step mgr mem c) s fs = some t) :
    fs.length ≤ s.weight c ∧
      ((∀ e, Event.progress e = true → step mgr mem c t e = none) → t.callbacks = 1) := by
  obtain ⟨ht, hlen⟩ := length_le_weight hc (history_of_run hc h).inv hfs hrun
  refine ⟨hlen, fun hstuck => ?_⟩
  have hall : run (step mgr mem c) (.start c pool) (es ++ fs) = some t := by
    rw [run_append, h, Option.bind_some, hrun]
  -- before the callback a step is left, which contradicts `hstuck`
  by_contra hcb
  have hfin : t.parent ≠ .finished := by
    intro hf
    simp [(history_of_run hc hall).once.callbacks, hf] at hcb
  have hcrash : t.parent ≠ .crashed := fun hf => ha (aborts_of_run hc hall hf)
  have hgo : CanProgress mgr mem c t := canProgress ht hcrash hfin
  obtain ⟨e, he, hsome⟩ := hgo
  rw [hstuck e he] at hsome
  simp at hsome

/-- **Fan-out and fan-in of a multi-service call.**  In every state that a call
    without transaction reaches, whatever its fibers and the other callers have
    done so far:

    * the callback was invoked at most once, and if so, every per-service call had
      finished, `rsp_list` has the length of the call list, and its `i`-th entry
      names the `i`-th service and is what the `i`-th run of `call_single_service`
      left on its own entry;
    * a step of one call leaves every other entry alone;
    * the callback does come: the steps that this call and the tasks in the pool
      still have to make are bounded, and when none is left, the callback was
      invoked exactly once. -/
theorem callServices_fanIn (hc : c.doTransaction = false) {pool : FiberPool Unit}
    {es : List Event} {s : Fan} (h : run (step mgr mem c) (.start c pool) es = some s) :
    s.callbacks ≤ 1 ∧
    (0 < s.callbacks → s.rspList.length = c.reqs.length ∧
      ∀ (i : Nat) req, c.reqs[i]? = some req →
        ∃ rsp call, c.resized[i]? = some rsp ∧
          callSingleService req rsp (callEvents i es) = some call ∧ call.phase = .done ∧
          s.rspList[i]? = some call.rsp ∧ call.rsp.serviceName = req.serviceName) ∧
    (∀ e s', step mgr mem c s e = some s' →
      ∀ j, e.ofCall j = none → s'.rspList[j]? = s.rspList[j]?) ∧
    (∀ fs t, (∀ e ∈ fs, Event.progress e = true) → run (step mgr mem c) s fs = some t →
      fs.length ≤ s.weight c ∧
      ((∀ e, Event.progress e = true → step mgr mem c t e = none) → t.callbacks = 1)) := by
  have hrej : c.rejected = false := by simp [ServicesCall.rejected, hc]
  have hs := history_of_run hrej h
  refine ⟨?_, fun hcb => ⟨?_, fun i req hreq => entries_of_callback hs hcb hreq⟩,
    fun e s' he j hj => rspList_step_of_ne hrej he hj,
    fun fs t hfs hrun => ends_of_run hrej (by simp [Aborts, hc]) h hfs hrun⟩
  · rw [hs.once.callbacks]
    split <;> decide
  · simpa [Fan.rspList] using hs.inv.length

end Runs

/-- Two calls, one of which ends while the parent is still scheduling and one while
    it waits. -/
def twoCalls : ServicesCall where
  reqs := [{ serviceName := ascii "local_test" }, { serviceName := ascii "local_test" }]
  rspList := []
  doTransaction := false

def twoCallsRun : List Event :=
  [.take, .schedule, .take, .call 0 .enter, .childEnd 0, .schedule, .schedule, .check, .take,
    .call 1 .enter, .childEnd 1, .check, .collect, .callback]

theorem twoCalls_fanIn :
    ∃ s, run (step {} zeroMemory twoCalls) (.start twoCalls .empty) twoCallsRun = some s ∧
      s.callbacks ≤ 1 ∧ s.callbacks = 1 ∧ s.rspList.length = 2 := by
  have h : run (step {} zeroMemory twoCalls) (.start twoCalls .empty) twoCallsRun = some _ := rfl
  have hall := callServices_fanIn rfl h
  exact ⟨_, h, hall.1, rfl, (hall.2.1 (by decide)).1⟩

end FiberProxy.Forward
