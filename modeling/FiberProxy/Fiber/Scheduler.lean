/-
  FiberProxy.Fiber.Scheduler

  The scheduler of one thread as lists: the waiting queue, the run queue, the active
  fiber, and what a call does with them.  This is the purpose of the pointer code of
  `FiberManager`; a call that the code of a thread may not make has no step here.

  Every call is made of a few moves between the queues (`create`, `park`, `wake`,
  `moveTo`, `resume`, `terminate`), and `Inv` is kept by each of them:

    * a fiber that has not terminated is in exactly one place (`places`);
    * its state says in which one;
    * the waiting queue is ordered: the ready fibers first, the others by the time
      they wait for (`rank`).
-/

import FiberProxy.Lib.Lists
import FiberProxy.Lib.Run
import FiberProxy.Fiber.FiberManager
import Mathlib.Data.List.Sort
import Mathlib.Data.List.TakeWhile

namespace FiberProxy.Fiber

open Lib
open scoped List

@[ext] structure Sched where
  fibers : Fid → WorkerFiber := fun _ => {}
  created : Nat := 0
  wqueue : List Fid := []
  rqueue : List Fid := []
  active : Option Fid := none

namespace Sched

def modify (s : Sched) (f : Fid) (g : WorkerFiber → WorkerFiber) : Sched :=
  { s with fibers := Function.update s.fibers f (g (s.fibers f)) }

/-- The order of the waiting queue. -/
def rank (s : Sched) (f : Fid) : Nat :=
  if (s.fibers f).state = .ready then 0 else (s.fibers f).tp + 1

/-- A fiber enters the waiting queue: a ready one in front, one without a time at the
    end, and else in front of the first fiber that is not due earlier. -/
def enqueue (s : Sched) (f : Fid) : List Fid :=
  if (s.fibers f).state = .ready then f :: s.wqueue
  else if (s.fibers f).tp = maxTime then s.wqueue ++ [f]
  else s.wqueue.orderedInsert (fun a b => s.rank a ≤ s.rank b) f

/-- A new fiber is ready to run. -/
def create (s : Sched) : Sched :=
  { s with
    fibers := Function.update s.fibers s.created {}
    created := s.created + 1
    rqueue := s.rqueue ++ [s.created] }

/-- The active fiber is suspended in the state `st`, until `t`. -/
def park (s : Sched) (f : Fid) (st : FiberState) (t : Nat) : Sched :=
  let s := s.modify f fun w => { w with state := st, tp := t }
  { s with wqueue := s.enqueue f, active := none }

/-- A fiber becomes ready; one that waits goes to the front. -/
def wake (s : Sched) (f : Fid) : Sched :=
  let s := s.modify f fun w => { w with state := .ready }
  { s with wqueue := if f ∈ s.wqueue then f :: s.wqueue.erase f else s.wqueue }

def flag (s : Sched) (f : Fid) (b : Bool) : Sched :=
  s.modify f fun w => { w with interruptionRequested := b }

/-- `f` waits for the end of `g`. -/
def addJoiner (s : Sched) (g f : Fid) : Sched :=
  s.modify g fun w => { w with waiting := w.waiting ++ [f] }

/-- What `fetch_ready` answers. -/
def due (s : Sched) (now : Nat) (f : Fid) : Bool :=
  (s.fibers f).tp ≤ now || (s.fibers f).interruptionRequested || (s.fibers f).state = .ready

/-- The fibers at the front of the waiting queue that are due become runnable. -/
def moveTo (s : Sched) (now : Nat) : Sched :=
  let moved := s.wqueue.takeWhile (s.due now)
  { s with
    fibers := fun f =>
      if f ∈ moved then { s.fibers f with state := .ready, tp := maxTime } else s.fibers f
    wqueue := s.wqueue.dropWhile (s.due now)
    rqueue := s.rqueue ++ moved }

/-- The first runnable fiber runs. -/
def resume (s : Sched) : Sched :=
  match s.rqueue with
  | [] => s
  | f :: rest =>
    { s.modify f fun w => { w with state := .running } with rqueue := rest, active := some f }

/-- The active fiber ends; nobody joins it any more. -/
def terminate (s : Sched) (f : Fid) : Sched :=
  { s.modify f fun w => { w with state := .terminated, waiting := [] } with active := none }

/-- A fiber that another one may make ready: it has not ended, it does not run, and it
    is not in `fm_join`, where only the end of the joined fiber wakes it. -/
def Wakeable (s : Sched) (f : Fid) : Prop :=
  f < s.created ∧ (s.fibers f).state ≠ .terminated ∧ s.active ≠ some f ∧
    ∀ g < s.created, f ∉ (s.fibers g).waiting

instance (s : Sched) (f : Fid) : Decidable (s.Wakeable f) := by
  unfold Wakeable
  infer_instance

def step (s : Sched) : Call → Option Sched
  | .spawn => some s.create
  -- the clock does not reach the end of time
  | .run now => if s.active = none ∧ now < maxTime then some (s.moveTo now).resume else none
  | .waitUntil t => if t ≤ maxTime then s.active.map fun f => s.park f .waiting t else none
  | .yield => s.active.map fun f => s.park f .ready maxTime
  | .join g =>
    s.active.bind fun f =>
      -- an interruption would end the wait before its time
      if g < s.created ∧ g ≠ f ∧ (s.fibers f).interruptionRequested = false then
        let parked := s.park f .waiting maxTime
        some (if (s.fibers g).state = .terminated then parked.wake f else parked.addJoiner g f)
      else none
  | .setReady f => if s.Wakeable f then some (s.wake f) else none
  | .interrupt f => if s.Wakeable f then some ((s.flag f true).wake f) else none
  | .interruptionPoint => s.active.map fun f => s.flag f false
  | .finish => s.active.map fun f => (s.fibers f).waiting.foldl wake (s.terminate f)

/-! ## What a step can do -/

inductive Stepped (s : Sched) : Call → Sched → Prop where
  | spawned : Stepped s .spawn s.create
  | ran {now : Nat} (hact : s.active = none) (hnow : now < maxTime) :
      Stepped s (.run now) (s.moveTo now).resume
  | waited {f : Fid} {t : Nat} (hf : s.active = some f) (ht : t ≤ maxTime) :
      Stepped s (.waitUntil t) (s.park f .waiting t)
  | yielded {f : Fid} (hf : s.active = some f) : Stepped s .yield (s.park f .ready maxTime)
  /-- The joined fiber has ended: the wait is over at once. -/
  | joinedEnded {f g : Fid} (hf : s.active = some f) (hgf : g ≠ f) (hg : g < s.created)
      (hended : (s.fibers g).state = .terminated) :
      Stepped s (.join g) ((s.park f .waiting maxTime).wake f)
  | joined {f g : Fid} (hf : s.active = some f) (hgf : g ≠ f) (hg : g < s.created)
      (hlive : (s.fibers g).state ≠ .terminated)
      (hflag : (s.fibers f).interruptionRequested = false) :
      Stepped s (.join g) ((s.park f .waiting maxTime).addJoiner g f)
  | woken {f : Fid} (hf : s.Wakeable f) : Stepped s (.setReady f) (s.wake f)
  | interrupted {f : Fid} (hf : s.Wakeable f) :
      Stepped s (.interrupt f) ((s.flag f true).wake f)
  | took {f : Fid} (hf : s.active = some f) : Stepped s .interruptionPoint (s.flag f false)
  | finished {f : Fid} (hf : s.active = some f) :
      Stepped s .finish ((s.fibers f).waiting.foldl wake (s.terminate f))

theorem stepped_of_step {s s' : Sched} {c : Call} (h : s.step c = some s') : Stepped s c s' := by
  cases c with
  | spawn =>
    obtain rfl := Option.some.inj h
    exact .spawned
  | run now =>
    obtain ⟨⟨hact, hnow⟩, hs⟩ := Option.ite_none_right_eq_some.mp h
    obtain rfl := Option.some.inj hs
    exact .ran hact hnow
  | waitUntil t =>
    obtain ⟨ht, hs⟩ := Option.ite_none_right_eq_some.mp h
    obtain ⟨f, hf, rfl⟩ := Option.map_eq_some_iff.mp hs
    exact .waited hf ht
  | yield =>
    obtain ⟨f, hf, rfl⟩ := Option.map_eq_some_iff.mp h
    exact .yielded hf
  | join g =>
    obtain ⟨f, hf, hs⟩ := Option.bind_eq_some_iff.mp h
    obtain ⟨⟨hg, hgf, hflag⟩, hs⟩ := Option.ite_none_right_eq_some.mp hs
    obtain rfl := Option.some.inj hs
    split
    · rename_i hterm
      exact .joinedEnded hf hgf hg hterm
    · rename_i hlive
      exact .joined hf hgf hg hlive hflag
  | setReady f =>
    obtain ⟨hf, hs⟩ := Option.ite_none_right_eq_some.mp h
    obtain rfl := Option.some.inj hs
    exact .woken hf
  | interrupt f =>
    obtain ⟨hf, hs⟩ := Option.ite_none_right_eq_some.mp h
    obtain rfl := Option.some.inj hs
    exact .interrupted hf
  | interruptionPoint =>
    obtain ⟨f, hf, rfl⟩ := Option.map_eq_some_iff.mp h
    exact .took hf
  | finish =>
    obtain ⟨f, hf, rfl⟩ := Option.map_eq_some_iff.mp h
    exact .finished hf

/-- Where the fibers are. -/
def places (s : Sched) : List Fid := s.wqueue ++ s.rqueue ++ s.active.toList

/-- A fiber in `fm_join` waits for the end of one fiber that has not ended, and for
    nothing else. -/
structure Joining (s : Sched) : Prop where
  waits : ∀ g, ∀ p ∈ (s.fibers g).waiting, (s.fibers g).state ≠ .terminated ∧
    p ∈ s.wqueue ∧ (s.fibers p).state = .waiting ∧ (s.fibers p).tp = maxTime ∧
    (s.fibers p).interruptionRequested = false
  unique : ∀ g h p, p ∈ (s.fibers g).waiting → p ∈ (s.fibers h).waiting → g = h

structure Inv (s : Sched) : Prop where
  nodup : s.places.Nodup
  mem_places : ∀ f, f ∈ s.places ↔ f < s.created ∧ (s.fibers f).state ≠ .terminated
  running : ∀ f, s.active = some f → (s.fibers f).state = .running
  ready : ∀ f ∈ s.rqueue, (s.fibers f).state = .ready
  queued : ∀ f ∈ s.wqueue, (s.fibers f).state = .ready ∨ (s.fibers f).state = .waiting
  /-- A fiber outside the waiting queue waits for no time. -/
  tp_eq : ∀ f, f ∉ s.wqueue → (s.fibers f).tp = maxTime
  tp_le : ∀ f, (s.fibers f).tp ≤ maxTime
  ordered : s.wqueue.Pairwise fun a b => s.rank a ≤ s.rank b
  fresh : ∀ f, s.created ≤ f → s.fibers f = {}
  joining : s.Joining

/-! ## The fields after each move -/

section Fields

variable {s : Sched} {f x : Fid} {st : FiberState} {t : Nat}

@[simp] theorem modify_fibers_self {g : WorkerFiber → WorkerFiber} :
    (s.modify f g).fibers f = g (s.fibers f) := Function.update_self ..

theorem modify_fibers_of_ne {g : WorkerFiber → WorkerFiber} (h : x ≠ f) :
    (s.modify f g).fibers x = s.fibers x := Function.update_of_ne h ..

theorem modify_eq_self {g : WorkerFiber → WorkerFiber} (h : g (s.fibers f) = s.fibers f) :
    s.modify f g = s := by
  rw [modify, h, Function.update_eq_self]

theorem modify_modify {g g' : WorkerFiber → WorkerFiber} :
    (s.modify f g).modify f g' = s.modify f fun w => g' (g w) := by
  simp [modify]

@[simp] theorem modify_wqueue {g : WorkerFiber → WorkerFiber} : (s.modify f g).wqueue = s.wqueue :=
  rfl

@[simp] theorem modify_rqueue {g : WorkerFiber → WorkerFiber} : (s.modify f g).rqueue = s.rqueue :=
  rfl

@[simp] theorem modify_active {g : WorkerFiber → WorkerFiber} : (s.modify f g).active = s.active :=
  rfl

@[simp] theorem modify_created {g : WorkerFiber → WorkerFiber} :
    (s.modify f g).created = s.created := rfl

theorem rank_congr {s s' : Sched} (h : s'.fibers x = s.fibers x) : s'.rank x = s.rank x := by
  simp only [rank, h]

theorem rank_le (h : (s.fibers f).tp ≤ maxTime) : s.rank f ≤ maxTime + 1 := by
  unfold rank
  split
  · exact Nat.zero_le _
  · omega

/-- An order of fibers that are not written stays. -/
theorem pairwise_rank_congr {s s' : Sched} {l : List Fid}
    (h : ∀ x ∈ l, s'.fibers x = s.fibers x)
    (hl : l.Pairwise fun a b => s.rank a ≤ s.rank b) :
    l.Pairwise fun a b => s'.rank a ≤ s'.rank b :=
  hl.imp_of_mem fun ha hb hab => by rwa [rank_congr (h _ ha), rank_congr (h _ hb)]

theorem enqueue_perm (s : Sched) (f : Fid) : s.enqueue f ~ f :: s.wqueue := by
  unfold enqueue
  split
  · rfl
  · split
    · exact List.perm_append_singleton f s.wqueue
    · exact List.perm_orderedInsert _ f s.wqueue

theorem mem_park_wqueue : x ∈ (s.park f st t).wqueue ↔ x = f ∨ x ∈ s.wqueue := by
  simpa [park] using
    (enqueue_perm (s.modify f fun w => { w with state := st, tp := t }) f).mem_iff (a := x)

theorem park_fibers_self :
    (s.park f st t).fibers f = { s.fibers f with state := st, tp := t } := by
  simp [park]

theorem park_fibers_of_ne (h : x ≠ f) : (s.park f st t).fibers x = s.fibers x := by
  simp [park, modify_fibers_of_ne h]

theorem park_waiting : ((s.park f st t).fibers x).waiting = (s.fibers x).waiting := by
  by_cases hx : x = f
  · rw [hx, park_fibers_self]
  · rw [park_fibers_of_ne hx]

theorem flag_waiting {b : Bool} : ((s.flag f b).fibers x).waiting = (s.fibers x).waiting := by
  by_cases hx : x = f
  · simp [flag, hx]
  · rw [flag, modify_fibers_of_ne hx]

theorem wake_wqueue_perm (s : Sched) (f : Fid) : (s.wake f).wqueue ~ s.wqueue := by
  by_cases hf : f ∈ s.wqueue
  · simpa [wake, hf] using (List.perm_cons_erase hf).symm
  · simp [wake, hf]

theorem mem_wake_wqueue : x ∈ (s.wake f).wqueue ↔ x ∈ s.wqueue := (wake_wqueue_perm s f).mem_iff

theorem wake_fibers_self : (s.wake f).fibers f = { s.fibers f with state := .ready } := by
  simp [wake]

theorem wake_fibers_of_ne (h : x ≠ f) : (s.wake f).fibers x = s.fibers x := by
  simp [wake, modify_fibers_of_ne h]

theorem wake_waiting : ((s.wake f).fibers x).waiting = (s.fibers x).waiting := by
  by_cases hx : x = f
  · rw [hx, wake_fibers_self]
  · rw [wake_fibers_of_ne hx]

/-- Making fibers ready leaves the run queue and the active fiber alone. -/
theorem foldl_wake_same (ps : List Fid) (s : Sched) :
    (ps.foldl wake s).rqueue = s.rqueue ∧ (ps.foldl wake s).active = s.active ∧
      (ps.foldl wake s).created = s.created := by
  induction ps generalizing s with
  | nil => exact ⟨rfl, rfl, rfl⟩
  | cons p ps ih => exact ih (s.wake p)

/-- A fiber at the front of the waiting queue becomes runnable. -/
def shift (s : Sched) (f : Fid) (rest : List Fid) : Sched :=
  { s.modify f fun w => { w with state := .ready, tp := maxTime } with
    wqueue := rest
    rqueue := s.rqueue ++ [f] }

theorem due_congr {s s' : Sched} (h : s'.fibers x = s.fibers x) (now : Nat) :
    s'.due now x = s.due now x := by
  simp only [due, h]

theorem moveTo_nil {now : Nat} (hwq : s.wqueue = []) : s.moveTo now = s := by
  cases s
  simp only at hwq
  simp [moveTo, hwq]

theorem moveTo_of_not_due {now : Nat} {rest : List Fid} (hwq : s.wqueue = f :: rest)
    (hf : s.due now f = false) : s.moveTo now = s := by
  have htake : s.wqueue.takeWhile (s.due now) = [] := by simp [hwq, hf]
  have hdrop : s.wqueue.dropWhile (s.due now) = s.wqueue := by simp [hwq, hf]
  simp [moveTo, htake, hdrop]

theorem moveTo_of_due {now : Nat} {rest : List Fid} (hwq : s.wqueue = f :: rest)
    (hf : s.due now f = true) (hrest : f ∉ rest) :
    s.moveTo now = (s.shift f rest).moveTo now := by
  have hne {x : Fid} (hx : x ≠ f) : (s.shift f rest).fibers x = s.fibers x := by
    simp [shift, modify_fibers_of_ne hx]
  have hdue : ∀ x ∈ rest, (s.shift f rest).due now x = s.due now x := fun x hx =>
    due_congr (hne fun heq => hrest (by rwa [← heq])) now
  have htake : s.wqueue.takeWhile (s.due now)
      = f :: rest.takeWhile ((s.shift f rest).due now) := by
    rw [hwq, List.takeWhile_cons, if_pos hf, takeWhile_congr hdue]
  have hdrop : s.wqueue.dropWhile (s.due now) = rest.dropWhile ((s.shift f rest).due now) := by
    rw [hwq, List.dropWhile_cons, if_pos hf, dropWhile_congr hdue]
  refine Sched.ext (funext fun x => ?_) rfl hdrop ?_ rfl
  · simp only [moveTo, htake]
    by_cases hxf : x = f
    · simp [hxf, shift]
    · simp [hxf, shift, modify_fibers_of_ne hxf]
  · simp only [moveTo, htake]
    simp [shift]

end Fields

/-! ## The fibers are only moved between the places -/

section Places

variable {s : Sched} {f : Fid}

theorem places_create (s : Sched) : s.create.places ~ s.created :: s.places := by
  simp only [places, create, List.append_assoc]
  refine (List.Perm.append_left _ ?_).trans List.perm_middle
  simp

theorem places_park (h : s.active = some f) (st : FiberState) (t : Nat) :
    (s.park f st t).places ~ s.places := by
  simp only [places, park, h, Option.toList_none, Option.toList_some, List.append_nil]
  refine ((enqueue_perm _ f).append_right _).trans ?_
  exact (List.perm_append_singleton f _).symm

theorem places_wake (s : Sched) (f : Fid) : (s.wake f).places ~ s.places :=
  ((wake_wqueue_perm s f).append_right _).append_right _

theorem places_moveTo (s : Sched) (now : Nat) : (s.moveTo now).places ~ s.places := by
  have hsplit := List.takeWhile_append_dropWhile (p := s.due now) (l := s.wqueue)
  simp only [places, moveTo]
  refine List.Perm.append_right _ ?_
  calc s.wqueue.dropWhile (s.due now) ++ (s.rqueue ++ s.wqueue.takeWhile (s.due now))
      ~ (s.rqueue ++ s.wqueue.takeWhile (s.due now)) ++ s.wqueue.dropWhile (s.due now) :=
        List.perm_append_comm
    _ ~ s.rqueue ++ s.wqueue := by rw [List.append_assoc, hsplit]
    _ ~ s.wqueue ++ s.rqueue := List.perm_append_comm

theorem places_resume (h : s.active = none) : s.resume.places ~ s.places := by
  unfold resume
  split
  · rfl
  · rename_i g rest hrq
    simp only [places, modify_wqueue, h, hrq, Option.toList_some, Option.toList_none,
      List.append_nil, List.append_assoc]
    exact (List.perm_append_singleton g rest).append_left _

theorem places_terminate (h : s.active = some f) : s.places ~ f :: (s.terminate f).places := by
  simp only [places, terminate, modify_wqueue, modify_rqueue, h, Option.toList_some,
    Option.toList_none, List.append_nil]
  exact List.perm_append_singleton f _

end Places

/-! ## Every move keeps the invariant -/

/-- A change to one fiber that is not in `fm_join` leaves the joins as they are, or
    drops those on this fiber. -/
theorem Joining.change {s s' : Sched} {f : Fid} (h : s.Joining)
    (hne : ∀ x, x ≠ f → s'.fibers x = s.fibers x)
    (hqueue : ∀ x ∈ s.wqueue, x ≠ f → x ∈ s'.wqueue)
    (hjoin : ∀ g, f ∉ (s.fibers g).waiting)
    (hwait : ∀ p ∈ (s'.fibers f).waiting,
      p ∈ (s.fibers f).waiting ∧ (s'.fibers f).state ≠ .terminated) : s'.Joining := by
  have hsub {x p : Fid} (hp : p ∈ (s'.fibers x).waiting) : p ∈ (s.fibers x).waiting := by
    by_cases hx : x = f
    · subst hx
      exact (hwait p hp).1
    · rwa [hne x hx] at hp
  refine ⟨fun x p hp => ?_, fun x y p hx hy => h.unique x y p (hsub hx) (hsub hy)⟩
  obtain ⟨hx, hpw, hps, hpt, hpi⟩ := h.waits x p (hsub hp)
  have hpf : p ≠ f := fun heq => hjoin x (heq ▸ hsub hp)
  rw [hne p hpf]
  refine ⟨?_, hqueue p hpw hpf, hps, hpt, hpi⟩
  by_cases hxf : x = f
  · subst hxf
    exact (hwait p hp).2
  · rwa [hne x hxf]

namespace Inv

variable {s : Sched} {f g : Fid}

theorem not_mem_of_active (h : s.Inv) (hf : s.active = some f) :
    f ∉ s.wqueue ∧ f ∉ s.rqueue := by
  have hn := h.nodup
  simp only [places, hf, Option.toList_some, List.nodup_append, List.mem_append,
    List.mem_singleton] at hn
  grind

/-- The fibers of the queues have been created. -/
theorem lt_created (h : s.Inv) (hf : f ∈ s.places) : f < s.created := ((h.mem_places f).mp hf).1

/-- A fiber outside the waiting queue joins no other. -/
theorem not_joining (h : s.Inv) (hf : f ∉ s.wqueue) : ∀ g, f ∉ (s.fibers g).waiting :=
  fun g hg => hf (h.joining.waits g f hg).2.1

theorem not_joining_park (h : s.Inv) (hf : s.active = some f) {st : FiberState} {t : Nat} :
    ∀ g, f ∉ ((s.park f st t).fibers g).waiting := by
  intro g
  rw [park_waiting]
  exact h.not_joining (h.not_mem_of_active hf).1 g

/-- A fiber that may be made ready is in a queue and joins no other. -/
theorem of_wakeable (h : s.Inv) (hf : s.Wakeable f) :
    f ∈ s.places ∧ ∀ g, f ∉ (s.fibers g).waiting := by
  obtain ⟨hlt, hlive, -, hjoin⟩ := hf
  refine ⟨(h.mem_places f).mpr ⟨hlt, hlive⟩, fun g => ?_⟩
  by_cases hg : g < s.created
  · exact hjoin g hg
  · simp [h.fresh g (not_lt.mp hg)]

theorem init : Inv {} where
  nodup := List.nodup_nil
  mem_places f := by simp [places]
  running := by simp
  ready := by simp
  queued := by simp
  tp_eq := by simp
  tp_le := by simp
  ordered := List.Pairwise.nil
  fresh := by simp
  joining := ⟨by simp, by simp⟩

theorem create (h : s.Inv) : s.create.Inv := by
  have hself : s.create.fibers s.created = {} := Function.update_self ..
  have hne {x : Fid} (hx : x ≠ s.created) : s.create.fibers x = s.fibers x :=
    Function.update_of_ne hx ..
  have hout : s.created ∉ s.places := fun hmem => absurd (h.lt_created hmem) (lt_irrefl _)
  -- the record of the new fiber is the one it had before it was created
  have hsame (x : Fid) : s.create.fibers x = s.fibers x := by
    by_cases hx : x = s.created
    · rw [hx, hself, h.fresh _ le_rfl]
    · exact hne hx
  constructor
  case nodup => exact (places_create s).nodup_iff.mpr (List.nodup_cons.mpr ⟨hout, h.nodup⟩)
  case mem_places =>
    intro x
    have hx := h.mem_places x
    have hfresh := h.fresh x
    rw [(places_create s).mem_iff, List.mem_cons, hsame]
    simp only [Sched.create]
    grind
  case running => exact fun x hx => hsame x ▸ h.running x hx
  case ready =>
    intro x hx
    rw [hsame]
    simp only [Sched.create, List.mem_append, List.mem_singleton] at hx
    rcases hx with hx | rfl
    · exact h.ready x hx
    · rw [h.fresh _ le_rfl]
  case queued => exact fun x hx => hsame x ▸ h.queued x hx
  case tp_eq => exact fun x hx => hsame x ▸ h.tp_eq x hx
  case tp_le => exact fun x => hsame x ▸ h.tp_le x
  case ordered => exact pairwise_rank_congr (fun x _ => hsame x) h.ordered
  case fresh => exact fun x hx => hsame x ▸ h.fresh x (Nat.le_of_succ_le hx)
  case joining =>
    constructor
    · intro x p hp
      rw [hsame] at hp ⊢
      rw [hsame]
      exact h.joining.waits x p hp
    · intro x y p hx hy
      rw [hsame] at hx hy
      exact h.joining.unique x y p hx hy

/-- An ordered queue is ordered with one fiber more. -/
theorem enqueue_ordered (hle : ∀ x, (s.fibers x).tp ≤ maxTime)
    (h : s.wqueue.Pairwise fun a b => s.rank a ≤ s.rank b) :
    (s.enqueue f).Pairwise fun a b => s.rank a ≤ s.rank b := by
  unfold enqueue
  split
  · rename_i hready
    refine List.pairwise_cons.mpr ⟨fun x _ => ?_, h⟩
    simp [rank, hready]
  · rename_i hready
    split
    · rename_i htp
      refine List.pairwise_append.mpr ⟨h, List.pairwise_singleton .., fun x _ y hy => ?_⟩
      obtain rfl := List.mem_singleton.mp hy
      have hlast : s.rank y = maxTime + 1 := by simp [rank, hready, htp]
      exact hlast ▸ rank_le (hle x)
    · have : Std.Total fun a b => s.rank a ≤ s.rank b := ⟨fun a b => Nat.le_total _ _⟩
      have : IsTrans Fid fun a b => s.rank a ≤ s.rank b := ⟨fun _ _ _ => Nat.le_trans⟩
      exact h.orderedInsert f s.wqueue

theorem park (h : s.Inv) (hf : s.active = some f) {st : FiberState} {t : Nat}
    (hst : st = .ready ∨ st = .waiting) (ht : t ≤ maxTime) : (s.park f st t).Inv := by
  obtain ⟨hw, hr⟩ := h.not_mem_of_active hf
  have hself : (s.park f st t).fibers f = { s.fibers f with state := st, tp := t } :=
    park_fibers_self
  have hne {x : Fid} (hx : x ≠ f) : (s.park f st t).fibers x = s.fibers x :=
    park_fibers_of_ne hx
  have htp : ∀ x, ((s.park f st t).fibers x).tp ≤ maxTime := by
    intro x
    by_cases hx : x = f
    · rw [hx, hself]
      exact ht
    · rw [hne hx]
      exact h.tp_le x
  constructor
  case nodup => exact (places_park hf st t).nodup_iff.mpr h.nodup
  case mem_places =>
    intro x
    rw [(places_park hf st t).mem_iff, h.mem_places]
    by_cases hx : x = f
    · subst hx
      rw [hself, h.running _ hf]
      rcases hst with rfl | rfl <;> simp [Sched.park]
    · rw [hne hx]
      rfl
  case running => simp [Sched.park]
  case ready =>
    intro x hx
    rw [hne (fun heq => hr (heq ▸ hx))]
    exact h.ready x hx
  case queued =>
    intro x hx
    by_cases hxf : x = f
    · rw [hxf, hself]
      exact hst
    · rw [hne hxf]
      exact h.queued x ((mem_park_wqueue.mp hx).resolve_left hxf)
  case tp_eq =>
    intro x hx
    rw [mem_park_wqueue, not_or] at hx
    rw [hne hx.1]
    exact h.tp_eq x hx.2
  case tp_le => exact htp
  case ordered =>
    -- the fiber was not in the queue, so the others have kept their rank
    refine enqueue_ordered (s := s.modify f fun w => { w with state := st, tp := t }) htp ?_
    exact pairwise_rank_congr (fun x hx => modify_fibers_of_ne fun heq => hw (heq ▸ hx)) h.ordered
  case fresh =>
    intro x hx
    have hlt : f < s.created := h.lt_created (by simp [places, hf])
    rw [hne (Nat.lt_of_lt_of_le hlt hx).ne']
    exact h.fresh x hx
  case joining =>
    refine h.joining.change (f := f) (fun x => hne) (fun x hx _ => mem_park_wqueue.mpr (.inr hx))
      (h.not_joining hw) fun p hp => ?_
    rw [hself] at hp ⊢
    exact ⟨hp, by rcases hst with rfl | rfl <;> simp⟩

theorem wake (h : s.Inv) (hf : f ∈ s.places) (hact : s.active ≠ some f)
    (hjoin : ∀ g, f ∉ (s.fibers g).waiting) : (s.wake f).Inv := by
  have hself := wake_fibers_self (s := s) (f := f)
  have hne {x : Fid} (hx : x ≠ f) := wake_fibers_of_ne (s := s) hx
  have htp (x : Fid) : ((s.wake f).fibers x).tp = (s.fibers x).tp := by
    by_cases hx : x = f
    · rw [hx, hself]
    · rw [hne hx]
  constructor
  case nodup => exact (places_wake s f).nodup_iff.mpr h.nodup
  case mem_places =>
    intro x
    rw [(places_wake s f).mem_iff, h.mem_places]
    by_cases hx : x = f
    · subst hx
      rw [hself]
      simp [((h.mem_places x).mp hf).2, Sched.wake]
    · rw [hne hx]
      rfl
  case running =>
    intro x hx
    rw [hne (fun heq => hact (heq ▸ hx))]
    exact h.running x hx
  case ready =>
    intro x hx
    by_cases hxf : x = f
    · rw [hxf, hself]
    · rw [hne hxf]
      exact h.ready x hx
  case queued =>
    intro x hx
    by_cases hxf : x = f
    · rw [hxf, hself]
      exact .inl rfl
    · rw [hne hxf]
      exact h.queued x (mem_wake_wqueue.mp hx)
  case tp_eq => exact fun x hx => (htp x).trans (h.tp_eq x (mt mem_wake_wqueue.mpr hx))
  case tp_le => exact fun x => htp x ▸ h.tp_le x
  case ordered =>
    have hrank : (s.wake f).rank f = 0 := by simp [rank, hself]
    by_cases hw : f ∈ s.wqueue
    · have hq : (s.wake f).wqueue = f :: s.wqueue.erase f := by simp [Sched.wake, hw]
      rw [hq]
      refine List.pairwise_cons.mpr ⟨fun x _ => hrank ▸ Nat.zero_le _, ?_⟩
      have hnodup : s.wqueue.Nodup :=
        (List.nodup_append.mp (List.nodup_append.mp h.nodup).1).1
      refine pairwise_rank_congr (fun x hx => hne ?_) (h.ordered.sublist List.erase_sublist)
      exact (hnodup.mem_erase_iff.mp hx).1
    · have hq : (s.wake f).wqueue = s.wqueue := by simp [Sched.wake, hw]
      rw [hq]
      exact pairwise_rank_congr (fun x hx => hne fun heq => hw (heq ▸ hx)) h.ordered
  case fresh =>
    intro x hx
    rw [hne (Nat.lt_of_lt_of_le (h.lt_created hf) hx).ne']
    exact h.fresh x hx
  case joining =>
    refine h.joining.change (f := f) (fun x => hne) (fun x hx _ => mem_wake_wqueue.mpr hx)
      hjoin fun p hp => ?_
    rw [hself] at hp ⊢
    exact ⟨hp, by simp⟩

/-- Changes to the interruption flag and to the list of joiners: the states, the times
    and the queues are as before. -/
theorem modify_rest (h : s.Inv) {w : WorkerFiber → WorkerFiber}
    (hstate : (w (s.fibers g)).state = (s.fibers g).state)
    (htp : (w (s.fibers g)).tp = (s.fibers g).tp) (hg : g < s.created)
    (hjoin : (s.modify g w).Joining) : (s.modify g w).Inv := by
  have hs (x : Fid) : ((s.modify g w).fibers x).state = (s.fibers x).state := by
    by_cases hx : x = g
    · rw [hx, modify_fibers_self, hstate]
    · rw [modify_fibers_of_ne hx]
  have ht (x : Fid) : ((s.modify g w).fibers x).tp = (s.fibers x).tp := by
    by_cases hx : x = g
    · rw [hx, modify_fibers_self, htp]
    · rw [modify_fibers_of_ne hx]
  constructor
  case nodup => exact h.nodup
  case mem_places =>
    intro x
    rw [hs]
    exact h.mem_places x
  case running => exact fun x hx => hs x ▸ h.running x hx
  case ready => exact fun x hx => hs x ▸ h.ready x hx
  case queued => exact fun x hx => hs x ▸ h.queued x hx
  case tp_eq => exact fun x hx => ht x ▸ h.tp_eq x hx
  case tp_le => exact fun x => ht x ▸ h.tp_le x
  case ordered =>
    refine h.ordered.imp fun {a b} hab => ?_
    simpa only [rank, hs, ht] using hab
  case fresh =>
    intro x hx
    rw [modify_fibers_of_ne (Nat.lt_of_lt_of_le hg hx).ne']
    exact h.fresh x hx
  case joining => exact hjoin

theorem flag (h : s.Inv) {b : Bool} (hg : g < s.created)
    (hjoin : b = false ∨ ∀ x, g ∉ (s.fibers x).waiting) : (s.flag g b).Inv := by
  have hrec (x : Fid) : ∃ b', (s.flag g b).fibers x
      = { s.fibers x with interruptionRequested := b' } := by
    by_cases hx : x = g
    · exact ⟨b, by simp [Sched.flag, hx]⟩
    · exact ⟨_, by rw [Sched.flag, modify_fibers_of_ne hx]⟩
  refine h.modify_rest rfl rfl hg ⟨fun x p hp => ?_, fun x y p hx hy =>
    h.joining.unique x y p (flag_waiting ▸ hx) (flag_waiting ▸ hy)⟩
  have hp' : p ∈ (s.fibers x).waiting := flag_waiting ▸ hp
  obtain ⟨hx, hpw, hps, hpt, hpi⟩ := h.joining.waits x p hp'
  have hflag : ((s.flag g b).fibers p).interruptionRequested = false := by
    by_cases hpg : p = g
    · subst hpg
      rcases hjoin with rfl | hjoin
      · simp [Sched.flag]
      · exact absurd hp' (hjoin x)
    · rwa [Sched.flag, modify_fibers_of_ne hpg]
  obtain ⟨b₁, hb₁⟩ := hrec x
  obtain ⟨b₂, hb₂⟩ := hrec p
  rw [← Sched.flag]
  refine ⟨?_, hpw, ?_, ?_, hflag⟩
  · rwa [hb₁]
  · rwa [hb₂]
  · rwa [hb₂]

theorem addJoiner (h : s.Inv) (hg : g < s.created) (hgs : (s.fibers g).state ≠ .terminated)
    (hf : f ∈ s.wqueue) (hfs : (s.fibers f).state = .waiting) (hft : (s.fibers f).tp = maxTime)
    (hfi : (s.fibers f).interruptionRequested = false)
    (hjoin : ∀ x, f ∉ (s.fibers x).waiting) : (s.addJoiner g f).Inv := by
  have hrec (x : Fid) : ∃ ps, (s.addJoiner g f).fibers x = { s.fibers x with waiting := ps } ∧
      ∀ p ∈ ps, p ∈ (s.fibers x).waiting ∨ (x = g ∧ p = f) := by
    by_cases hx : x = g
    · exact ⟨(s.fibers g).waiting ++ [f], by simp [Sched.addJoiner, hx], by simp [hx]⟩
    · exact ⟨_, by rw [Sched.addJoiner, modify_fibers_of_ne hx], fun p hp => .inl hp⟩
  have hmem {x p : Fid} (hp : p ∈ ((s.addJoiner g f).fibers x).waiting) :
      p ∈ (s.fibers x).waiting ∨ (x = g ∧ p = f) := by
    obtain ⟨ps, hps, hsub⟩ := hrec x
    rw [hps] at hp
    exact hsub p hp
  refine h.modify_rest rfl rfl hg ⟨fun x p hp => ?_, fun x y p hx hy => ?_⟩
  · rw [← Sched.addJoiner] at hp ⊢
    obtain ⟨ps, hps, -⟩ := hrec x
    obtain ⟨qs, hqs, -⟩ := hrec p
    rw [hps, hqs]
    rcases hmem hp with hp | ⟨rfl, rfl⟩
    · exact h.joining.waits x p hp
    · exact ⟨hgs, hf, hfs, hft, hfi⟩
  · rcases hmem hx, hmem hy with ⟨hx' | ⟨hxg, hpf⟩, hy' | ⟨hyg, hpf'⟩⟩
    · exact h.joining.unique x y p hx' hy'
    · exact absurd (hpf' ▸ hx') (hjoin x)
    · exact absurd (hpf ▸ hy') (hjoin y)
    · exact hxg.trans hyg.symm

theorem terminate (h : s.Inv) (hf : s.active = some f) : (s.terminate f).Inv := by
  obtain ⟨hw, hr⟩ := h.not_mem_of_active hf
  have hself : (s.terminate f).fibers f
      = { s.fibers f with state := .terminated, waiting := [] } := by simp [Sched.terminate]
  have hne {x : Fid} (hx : x ≠ f) : (s.terminate f).fibers x = s.fibers x := by
    simp [Sched.terminate, modify_fibers_of_ne hx]
  obtain ⟨hout, hnodup⟩ := List.nodup_cons.mp ((places_terminate hf).nodup_iff.mp h.nodup)
  constructor
  case nodup => exact hnodup
  case mem_places =>
    intro x
    have hx := h.mem_places x
    rw [(places_terminate hf).mem_iff, List.mem_cons] at hx
    by_cases hxf : x = f
    · subst hxf
      simp [hself, hout]
    · rw [hne hxf]
      simpa [hxf, Sched.terminate] using hx
  case running => simp [Sched.terminate]
  case ready =>
    intro x hx
    rw [hne (fun heq => hr (heq ▸ hx))]
    exact h.ready x hx
  case queued =>
    intro x hx
    rw [hne (fun heq => hw (heq ▸ hx))]
    exact h.queued x hx
  case tp_eq =>
    intro x hx
    by_cases hxf : x = f
    · rw [hxf, hself]
      exact h.tp_eq f hw
    · rw [hne hxf]
      exact h.tp_eq x hx
  case tp_le =>
    intro x
    by_cases hxf : x = f
    · rw [hxf, hself]
      exact h.tp_le f
    · rw [hne hxf]
      exact h.tp_le x
  case ordered =>
    exact pairwise_rank_congr (fun x hx => hne fun heq => hw (heq ▸ hx)) h.ordered
  case fresh =>
    intro x hx
    have hlt : f < s.created := h.lt_created (by simp [places, hf])
    rw [hne (Nat.lt_of_lt_of_le hlt hx).ne']
    exact h.fresh x hx
  case joining =>
    refine h.joining.change (f := f) (fun x => hne) (fun x hx _ => hx) (h.not_joining hw)
      fun p hp => ?_
    simp [hself] at hp

theorem resume (h : s.Inv) (hact : s.active = none) : s.resume.Inv := by
  have hperm := places_resume hact
  cases hrq : s.rqueue with
  | nil => rwa [Sched.resume, hrq]
  | cons f rest =>
    have hfr : (s.fibers f).state = .ready := h.ready f (by simp [hrq])
    have hfp : f ∈ s.places := by simp [places, hrq]
    have hnodup := h.nodup
    simp only [places, hact, hrq, Option.toList_none, List.append_nil, List.nodup_append,
      List.nodup_cons] at hnodup
    obtain ⟨-, ⟨hfrest, -⟩, hdisj⟩ := hnodup
    have hfw : f ∉ s.wqueue := fun hmem => hdisj f hmem f List.mem_cons_self rfl
    have hself : s.resume.fibers f = { s.fibers f with state := .running } := by
      simp [Sched.resume, hrq]
    have hne {x : Fid} (hx : x ≠ f) : s.resume.fibers x = s.fibers x := by
      simp [Sched.resume, hrq, modify_fibers_of_ne hx]
    have hqueues : s.resume.wqueue = s.wqueue ∧ s.resume.rqueue = rest ∧
        s.resume.active = some f ∧ s.resume.created = s.created := by
      simp [Sched.resume, hrq]
    obtain ⟨hwq, hrq', hact', hcreated⟩ := hqueues
    constructor
    case nodup => exact hperm.nodup_iff.mpr h.nodup
    case mem_places =>
      intro x
      rw [hperm.mem_iff, h.mem_places, hcreated]
      by_cases hx : x = f
      · simp [hx, hself, hfr]
      · rw [hne hx]
    case running =>
      intro x hx
      obtain rfl : f = x := Option.some.inj (hact'.symm.trans hx)
      rw [hself]
    case ready =>
      intro x hx
      rw [hrq'] at hx
      rw [hne (fun heq => hfrest (heq ▸ hx))]
      exact h.ready x (by simp [hrq, hx])
    case queued =>
      intro x hx
      rw [hwq] at hx
      rw [hne (fun heq => hfw (heq ▸ hx))]
      exact h.queued x hx
    case tp_eq =>
      intro x hx
      rw [hwq] at hx
      by_cases hxf : x = f
      · rw [hxf, hself]
        exact h.tp_eq f hfw
      · rw [hne hxf]
        exact h.tp_eq x hx
    case tp_le =>
      intro x
      by_cases hxf : x = f
      · rw [hxf, hself]
        exact h.tp_le f
      · rw [hne hxf]
        exact h.tp_le x
    case ordered =>
      rw [hwq]
      exact pairwise_rank_congr (fun x hx => hne fun heq => hfw (heq ▸ hx)) h.ordered
    case fresh =>
      intro x hx
      rw [hcreated] at hx
      rw [hne (Nat.lt_of_lt_of_le (h.lt_created hfp) hx).ne']
      exact h.fresh x hx
    case joining =>
      refine h.joining.change (f := f) (fun x => hne) (fun x hx _ => hwq ▸ hx)
        (h.not_joining hfw) fun p hp => ?_
      rw [hself] at hp ⊢
      exact ⟨hp, by simp⟩

theorem moveTo (h : s.Inv) {now : Nat} (hnow : now < maxTime) : (s.moveTo now).Inv := by
  have hsplit := List.takeWhile_append_dropWhile (p := s.due now) (l := s.wqueue)
  have hmem (x : Fid) : x ∈ s.wqueue ↔
      x ∈ s.wqueue.takeWhile (s.due now) ∨ x ∈ s.wqueue.dropWhile (s.due now) := by
    rw [← List.mem_append, hsplit]
  have hnodup : (s.wqueue.takeWhile (s.due now) ++ s.wqueue.dropWhile (s.due now)).Nodup := by
    rw [hsplit]
    exact (List.nodup_append.mp (List.nodup_append.mp h.nodup).1).1
  have hmoved {x : Fid} (hx : x ∈ s.wqueue.takeWhile (s.due now)) :
      (s.moveTo now).fibers x = { s.fibers x with state := .ready, tp := maxTime } := by
    simp [Sched.moveTo, hx]
  have hstay {x : Fid} (hx : x ∉ s.wqueue.takeWhile (s.due now)) :
      (s.moveTo now).fibers x = s.fibers x := by
    simp [Sched.moveTo, hx]
  have hrest {x : Fid} (hx : x ∈ s.wqueue.dropWhile (s.due now)) :
      x ∉ s.wqueue.takeWhile (s.due now) :=
    fun hx' => (List.disjoint_of_nodup_append hnodup) hx' hx
  constructor
  case nodup => exact (places_moveTo s now).nodup_iff.mpr h.nodup
  case mem_places =>
    intro x
    rw [(places_moveTo s now).mem_iff, h.mem_places]
    by_cases hx : x ∈ s.wqueue.takeWhile (s.due now)
    · have hlive := (h.queued x ((hmem x).mpr (.inl hx)))
      rw [hmoved hx]
      rcases hlive with hlive | hlive <;> simp [hlive, Sched.moveTo]
    · rw [hstay hx]
      rfl
  case running =>
    intro x hx
    have hout := (h.not_mem_of_active hx).1
    rw [hstay fun hx' => hout ((hmem x).mpr (.inl hx'))]
    exact h.running x hx
  case ready =>
    intro x hx
    by_cases hx' : x ∈ s.wqueue.takeWhile (s.due now)
    · rw [hmoved hx']
    · rw [hstay hx']
      simp only [Sched.moveTo, List.mem_append] at hx
      exact h.ready x (hx.resolve_right hx')
  case queued =>
    intro x hx
    rw [hstay (hrest hx)]
    exact h.queued x ((hmem x).mpr (.inr hx))
  case tp_eq =>
    intro x hx
    by_cases hx' : x ∈ s.wqueue.takeWhile (s.due now)
    · rw [hmoved hx']
    · rw [hstay hx']
      exact h.tp_eq x fun hmem' => ((hmem x).mp hmem').elim hx' hx
  case tp_le =>
    intro x
    by_cases hx' : x ∈ s.wqueue.takeWhile (s.due now)
    · rw [hmoved hx']
    · rw [hstay hx']
      exact h.tp_le x
  case ordered =>
    exact pairwise_rank_congr (fun x hx => hstay (hrest hx))
      (h.ordered.sublist (List.dropWhile_sublist _))
  case fresh =>
    intro x hx
    rw [hstay fun hx' => ?_]
    · exact h.fresh x hx
    · have hlt : x < s.created := h.lt_created (by simp [places, (hmem x).mpr (.inl hx')])
      exact absurd (Nat.lt_of_lt_of_le hlt hx) (lt_irrefl _)
  case joining =>
    -- a fiber in `fm_join` is not due
    have hwait (x : Fid) : ((s.moveTo now).fibers x).waiting = (s.fibers x).waiting := by
      by_cases hx : x ∈ s.wqueue.takeWhile (s.due now)
      · rw [hmoved hx]
      · rw [hstay hx]
    refine ⟨fun x p hp => ?_, fun x y p hx hy =>
      h.joining.unique x y p (hwait x ▸ hx) (hwait y ▸ hy)⟩
    obtain ⟨hx, hpw, hps, hpt, hpi⟩ := h.joining.waits x p (hwait x ▸ hp)
    have hpm : p ∉ s.wqueue.takeWhile (s.due now) := by
      intro hp'
      have hdue := List.mem_takeWhile_imp hp'
      simp only [due, hpt, hpi, hps, Bool.or_false, Bool.or_eq_true, decide_eq_true_eq,
        reduceCtorEq, or_false] at hdue
      omega
    rw [hstay hpm]
    refine ⟨?_, ((hmem p).mp hpw).resolve_left hpm, hps, hpt, hpi⟩
    by_cases hx' : x ∈ s.wqueue.takeWhile (s.due now)
    · rw [hmoved hx']
      simp
    · rwa [hstay hx']

/-- The joiners of a fiber that has ended become ready one after the other. -/
theorem foldl_wake (h : s.Inv) {ps : List Fid} (hps : ∀ p ∈ ps, p ∈ s.wqueue)
    (hjoin : ∀ p ∈ ps, ∀ g, p ∉ (s.fibers g).waiting) (hact : s.active = none) :
    (ps.foldl Sched.wake s).Inv := by
  induction ps generalizing s with
  | nil => exact h
  | cons p ps ih =>
    have hp : p ∈ s.places := by simp [places, hps p List.mem_cons_self]
    refine ih (h.wake hp (by simp [hact]) (hjoin p List.mem_cons_self)) (fun q hq => ?_)
      (fun q hq g => ?_) hact
    · exact mem_wake_wqueue.mpr (hps q (List.mem_cons_of_mem p hq))
    · rw [wake_waiting]
      exact hjoin q (List.mem_cons_of_mem p hq) g

theorem step (h : s.Inv) {c : Call} {s' : Sched} (hstep : s.step c = some s') : s'.Inv := by
  cases stepped_of_step hstep with
  | spawned => exact h.create
  | ran hact hnow => exact (h.moveTo hnow).resume hact
  | waited hf ht => exact h.park hf (.inr rfl) ht
  | yielded hf => exact h.park hf (.inl rfl) le_rfl
  | joinedEnded hf =>
    have hparked : (s.park _ .waiting maxTime).Inv := h.park hf (.inr rfl) le_rfl
    exact hparked.wake (by simp [places, mem_park_wqueue]) (by simp [Sched.park])
      (h.not_joining_park hf)
  | joined hf hgf hg hlive hflag =>
    have hparked : (s.park _ .waiting maxTime).Inv := h.park hf (.inr rfl) le_rfl
    refine hparked.addJoiner hg ?_ (mem_park_wqueue.mpr (.inl rfl)) ?_ ?_ ?_
      (h.not_joining_park hf)
    · rwa [park_fibers_of_ne hgf]
    · rw [park_fibers_self]
    · rw [park_fibers_self]
    · rw [park_fibers_self]
      exact hflag
  | woken hf =>
    obtain ⟨hmem, hjoin⟩ := h.of_wakeable hf
    exact h.wake hmem hf.2.2.1 hjoin
  | interrupted hf =>
    obtain ⟨hmem, hjoin⟩ := h.of_wakeable hf
    have hflag := h.flag (b := true) hf.1 (.inr hjoin)
    refine hflag.wake hmem hf.2.2.1 fun g => ?_
    rw [flag_waiting]
    exact hjoin g
  | took hf => exact h.flag (h.lt_created (by simp [places, hf])) (.inl rfl)
  | finished hf =>
    rename_i f
    refine (h.terminate hf).foldl_wake (fun p hp => (h.joining.waits f p hp).2.1)
      (fun p hp g hg => ?_) rfl
    -- the joiners of the fiber joined no other one
    by_cases hgf : g = f
    · simp [hgf, Sched.terminate] at hg
    · simp only [Sched.terminate, modify_fibers_of_ne hgf] at hg
      exact hgf (h.joining.unique g f p hg hp)

end Inv

theorem inv_of_run {cs : List Call} {s : Sched} (hrun : run step {} cs = some s) : s.Inv :=
  run_inv (fun _ _ _ h hstep => h.step hstep) Inv.init hrun

end Sched

end FiberProxy.Fiber
