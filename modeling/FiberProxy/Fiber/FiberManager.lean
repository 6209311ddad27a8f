/-
  FiberProxy.Fiber.FiberManager

  The scheduler of one thread, pointer by pointer: `fiber_manager` with its waiting
  queue and its run queue (`boost-fiber/fiber_manager.cpp`, `detail/waiting_queue.hpp`,
  `detail/fifo.hpp`, `round_robin.cpp`) and the part of `worker_fiber` it works on
  (`detail/worker_fiber.hpp`, `detail/worker_fiber.cpp`).

  Both queues are intrusive: they run through the same `prev_` and `nxt_` of the
  fibers.  A function here returns `none` where a `BOOST_ASSERT` of the source fails,
  where a null pointer would be followed and where a loop does not come to its end.

  Everything happens on one thread, so a call is one step, and the spinlocks are never
  contended.  Only the main fiber comes to `fm_run`: `this_fiber::yield`, `fm_join`,
  `mutex::lock` and `condition::wait` call it when no fiber is active.
-/

import FiberProxy.Lib.LinkedList

namespace FiberProxy.Fiber

open Lib

/-- A fiber, in the order of creation. -/
abbrev Fid := Nat

/-- `worker_fiber::state_t`. -/
inductive FiberState where
  | ready
  | running
  | waiting
  | terminated
deriving DecidableEq, Repr

/-- `time_point::max()`. -/
def maxTime : Nat := 9223372036854775807

/-- What the scheduler reads of a `worker_fiber`, its place in a queue aside. -/
structure WorkerFiber where
  state : FiberState := .ready
  tp : Nat := maxTime
  interruptionRequested : Bool := false
  /-- `waiting_`: the fibers in `fm_join` on this one. -/
  waiting : List Fid := []
deriving DecidableEq, Repr

/-- What the code of a thread asks of its scheduler. -/
inductive Call where
  /-- `fiber::fiber`, up to its `start_`. -/
  | spawn
  /-- `fm_run` by the main fiber; `now` is the clock. -/
  | run (now : Nat)
  /-- `fm_wait_until` by the active fiber, `fm_wait` with `maxTime`. -/
  | waitUntil (t : Nat)
  /-- `fm_yield` by the active fiber. -/
  | yield
  /-- `fm_join` by the active fiber. -/
  | join (f : Fid)
  /-- `set_ready` of a notified fiber. -/
  | setReady (f : Fid)
  /-- `fiber::interrupt`. -/
  | interrupt (f : Fid)
  /-- The active fiber takes an interruption. -/
  | interruptionPoint
  /-- The function of the active fiber returns. -/
  | finish
deriving DecidableEq, Repr

/-- `fiber_manager`, with the fibers it schedules. -/
structure Manager where
  fibers : Fid → WorkerFiber := fun _ => {}
  /-- The fibers created so far. -/
  created : Nat := 0
  /-- `prev_` and `nxt_`. -/
  links : Links Fid := .empty
  /-- `phead_` and `ptail_` are set, to the ends of `wqueue_`. -/
  attached : Fid → Bool := fun _ => false
  wqueue : Ends Fid := {}
  /-- `round_robin::rqueue_`. -/
  rqueue : Ends Fid := {}
  active : Option Fid := none

namespace Manager

def modify (m : Manager) (f : Fid) (g : WorkerFiber → WorkerFiber) : Manager :=
  { m with fibers := Function.update m.fibers f (g (m.fibers f)) }

def setState (m : Manager) (f : Fid) (st : FiberState) : Manager :=
  m.modify f fun w => { w with state := st }

/-! ## `fifo` -/

/-- `round_robin::awakened`: `rqueue_.push`. -/
def awakened (m : Manager) (item : Fid) : Option Manager :=
  if (m.fibers item).state ≠ .ready ∧ (m.fibers item).state ≠ .running then none
  else if m.links.next item ≠ none ∨ m.links.prev item ≠ none then none
  else
    match m.rqueue.head with
    | none => some { m with rqueue := ⟨some item, some item⟩ }
    | some h =>
      -- avoid cycle
      if h = item then some m
      else
        match m.rqueue.tail with
        | none => none
        | some t =>
          some { m with
            links := m.links.link t item
            rqueue := { m.rqueue with tail := some item } }

/-- `round_robin::pick_next`: `rqueue_.pop`, unless it is empty. -/
def pickNext (m : Manager) : Option Fid × Manager :=
  match m.rqueue.head with
  | none => (none, m)
  | some item =>
    let (links, rqueue) := m.links.pop m.rqueue item
    (some item, { m with links := links, rqueue := rqueue })

/-! ## `waiting_queue` -/

/-- The loop of `waiting_queue::push`, at the fiber `f` with `prev` before it: the item
    goes in front of the first fiber that is not ready and not due earlier. -/
def pushTimed (m : Manager) (item : Fid) : Nat → Option Fid → Fid → Option Manager
  | 0, _, _ => none
  | n + 1, prev, f =>
    if (m.fibers f).state ≠ .ready ∧ (m.fibers item).tp ≤ (m.fibers f).tp then
      if m.wqueue.head = some f then
        if prev = none then
          some { m with
            links := m.links.link item f
            wqueue := { m.wqueue with head := some item } }
        else none
      else
        match prev with
        | none => none
        | some p => some { m with links := (m.links.link item f).link p item }
    else if m.wqueue.tail = some f then
      if m.links.next f = none then
        some { m with
          links := m.links.link f item
          wqueue := { m.wqueue with tail := some item } }
      else none
    else
      match m.links.next f with
      | none => some m
      | some nxt => pushTimed m item n (some f) nxt

/-- `waiting_queue::push`. -/
def push (m : Manager) (item : Fid) : Option Manager :=
  if m.links.next item ≠ none ∨ m.links.prev item ≠ none then none
  -- already in waiting queue
  else if m.attached item then some m
  else
    let m := { m with attached := Function.update m.attached item true }
    match m.wqueue.head with
    | none => some { m with wqueue := ⟨some item, some item⟩ }
    | some h =>
      -- avoid cycle
      if h = item then some m
      else if (m.fibers item).state = .ready then
        some { m with
          links := m.links.link item h
          wqueue := { m.wqueue with head := some item } }
      else if (m.fibers item).tp = maxTime then
        match m.wqueue.tail with
        | none => none
        | some t =>
          some { m with
            links := m.links.link t item
            wqueue := { m.wqueue with tail := some item } }
      else pushTimed m item m.created none h

/-- `waiting_queue::move_to_run`: a fiber that is not the first one goes to the front,
    so that it is awakened first. -/
def moveToRun (m : Manager) (f : Fid) : Option Manager :=
  if (m.fibers f).state = .running then none
  else
    match m.links.prev f with
    -- no need to move the head of the queue
    | none => some m
    | some p =>
      -- not in any queue
      if m.attached f = false then some m
      else
        match m.wqueue.head with
        | none => none
        | some h =>
          let (links, wqueue) := m.links.toFront m.wqueue f p h
          some { m with links := links, wqueue := wqueue }

/-- `worker_fiber::set_ready`. -/
def setReady (m : Manager) (f : Fid) : Option Manager :=
  if (m.fibers f).state = .terminated then none
  else (m.setState f .ready).moveToRun f

/-- `fetch_ready`. -/
def fetchReady (m : Manager) (f : Fid) (now : Nat) : Option (Bool × Manager) :=
  if (m.fibers f).state = .running ∨ (m.fibers f).state = .terminated then none
  else if (m.fibers f).tp ≤ now ∨ (m.fibers f).interruptionRequested then
    (m.setReady f).map fun m => ((m.fibers f).state = .ready, m)
  else some ((m.fibers f).state = .ready, m)

/-- A fiber at the front of `wqueue_` leaves it. -/
def unqueue (m : Manager) (f : Fid) : Manager :=
  let (links, wqueue) := m.links.pop m.wqueue f
  let m := { m with
    links := links
    wqueue := wqueue
    attached := Function.update m.attached f false }
  m.modify f fun w => { w with tp := maxTime }

/-- `waiting_queue::move_to` with `fetch_ready`: from the front, the fibers that are
    ready go to the run queue, up to the first one that is not. -/
def moveTo (now : Nat) : Nat → Option Fid → Manager → Option Manager
  | _, none, m => some m
  | 0, some _, _ => none
  | n + 1, some f, m =>
    let nxt := m.links.next f
    (m.fetchReady f now).bind fun (ready, m) =>
      if ready then
        if m.wqueue.head = some f then
          ((m.unqueue f).awakened f).bind (moveTo now n nxt)
        else none
      -- the wait times are ordered: the fibers after it are not ready either
      else some m

/-! ## `fiber_manager` -/

/-- `fm_resume_`. -/
def resume (m : Manager) (f : Fid) : Option Manager :=
  if m.active = some f ∨ (m.fibers f).state ≠ .ready then none
  else some { m.setState f .running with active := some f }

/-- `fm_run`, by the main fiber; without a ready fiber the thread sleeps. -/
def fmRun (m : Manager) (now : Nat) : Option Manager :=
  if m.active ≠ none then none
  else
    (m.moveTo now m.created m.wqueue.head).bind fun m =>
      match m.pickNext with
      | (none, m) => some m
      | (some f, m) => m.resume f

/-- The active fiber is suspended, and the main fiber goes on in `fm_resume_`. -/
def suspend (m : Manager) : Manager := { m with active := none }

/-- The constructor of `worker_fiber` and of `fiber`: `start_` and `fm_spawn`. -/
def fmSpawn (m : Manager) : Option Manager :=
  let f := m.created
  let m := { m with
    created := f + 1
    fibers := Function.update m.fibers f {}
    links := m.links.detach f
    attached := Function.update m.attached f false }
  -- the trampoline runs up to its first suspension
  ((m.setState f .running).setReady f).bind fun m =>
    if (m.fibers f).state = .ready ∧ m.active ≠ some f then m.awakened f else none

/-- `fm_wait_until`. -/
def fmWaitUntil (m : Manager) (t : Nat) : Option Manager :=
  m.active.bind fun f =>
    if (m.fibers f).state = .running then
      ((m.modify f fun w => { w with state := .waiting, tp := t }).push f).map suspend
    else none

/-- `fm_yield`. -/
def fmYield (m : Manager) : Option Manager :=
  m.active.bind fun f =>
    if (m.fibers f).state = .running then
      (m.setReady f).bind fun m => (m.push f).map suspend
    else none

/-- `fm_join` by a fiber. -/
def fmJoin (m : Manager) (g : Fid) : Option Manager :=
  m.active.bind fun f =>
    if g = f ∨ (m.fibers f).state ≠ .running then none
    else
      ((m.setState f .waiting).push f).bind fun m =>
        -- `worker_fiber::join`
        if (m.fibers g).state = .terminated then (m.setReady f).map suspend
        else some (m.modify g fun w => { w with waiting := w.waiting ++ [f] }).suspend

/-- `request_interruption(true)`. -/
def interrupt (m : Manager) (f : Fid) : Option Manager :=
  (m.modify f fun w => { w with interruptionRequested := true }).setReady f

/-- The end of the trampoline: `set_terminated` and `release`. -/
def terminate (m : Manager) : Option Manager :=
  m.active.bind fun f =>
    if (m.fibers f).state = .running then
      let waiting := (m.fibers f).waiting
      let m := m.modify f fun w => { w with state := .terminated, waiting := [] }
      (waiting.foldlM setReady m).map suspend
    else none

def call (m : Manager) : Call → Option Manager
  | .spawn => m.fmSpawn
  | .run now => m.fmRun now
  | .waitUntil t => m.fmWaitUntil t
  | .yield => m.fmYield
  | .join g => m.fmJoin g
  | .setReady f => m.setReady f
  | .interrupt f => m.interrupt f
  | .interruptionPoint =>
    m.active.map fun f => m.modify f fun w => { w with interruptionRequested := false }
  | .finish => m.terminate

end Manager

end FiberProxy.Fiber
