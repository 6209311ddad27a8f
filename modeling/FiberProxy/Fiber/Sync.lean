/-
  FiberProxy.Fiber.Sync

  A mutex and a condition variable on the scheduler: `mutex` (`boost-fiber/mutex.cpp`)
  and `condition` (`boost-fiber/condition.cpp`, `boost/fiber/condition.hpp`), used by the
  fibers of one thread in any order.

  A fiber is in the code of the two classes at a suspension only: in the loop of `lock`,
  or in `wait` (`Phase`).  Everything else that fibers do, other mutexes and conditions
  included, is some call of the scheduler.  Where the code calls `set_ready` or
  `fm_wait_until`, the step here makes the call of `Sched.step`; `body` is `none` where
  the scheduler would refuse it, or where a `BOOST_ASSERT` of the two classes fails.
  `Inv.body` says that this never happens.

  Nothing in the repository interrupts a fiber, so that no interruption is pending here.
  The branches for the main fiber are left out.
-/

import FiberProxy.Fiber.Frame

namespace FiberProxy.Fiber

open Lib
open scoped List

/-- Where a fiber is in the code of the two classes. -/
inductive Phase where
  | out
  /-- In the loop of `mutex::lock`. -/
  | locking
  /-- In `condition::wait`, or in `wait_until` with a time. -/
  | waiting (t : Option Nat)
deriving DecidableEq, Repr

structure Mutex where
  /-- `state_`. -/
  locked : Bool := false
  owner : Option Fid := none
  waiting : List Fid := []
deriving DecidableEq, Repr

structure Sync where
  sched : Sched := {}
  mutex : Mutex := {}
  /-- `condition::waiting_`. -/
  cond : List Fid := []
  phase : Fid → Phase := fun _ => .out
  /-- The last reading of the clock, which does not go back. -/
  clock : Nat := 0

/-- What happens on the thread. -/
inductive Act where
  /-- Any other call of the scheduler. -/
  | call (c : Call)
  | lock
  | tryLock
  | unlock
  /-- `condition::wait`, or `wait_until` with a time. -/
  | wait (t : Option Nat)
  | notifyOne
  | notifyAll
  /-- The active fiber goes on in `lock` or `wait`; `now` is the clock. -/
  | goOn (now : Nat)
deriving DecidableEq, Repr

namespace Sync

def setPhase (s : Sync) (f : Fid) (p : Phase) : Sync :=
  { s with phase := Function.update s.phase f p }

/-- `lock_if_unlocked_`, where the mutex is free. -/
def acquire (s : Sync) (f : Fid) : Option Sync :=
  if s.mutex.owner ≠ none then none
  else some { s.setPhase f .out with mutex := { s.mutex with locked := true, owner := some f } }

/-- One pass of the loop of `mutex::lock`. -/
def lockOnce (s : Sync) (f : Fid) : Option Sync :=
  if s.mutex.locked then
    if f ∈ s.mutex.waiting then none
    else
      (s.sched.step (.waitUntil maxTime)).map fun sched =>
        { s.setPhase f .locking with
          sched := sched
          mutex := { s.mutex with waiting := s.mutex.waiting ++ [f] } }
  else s.acquire f

/-- `mutex::try_lock`: without the mutex the fiber gives up its turn. -/
def tryLock (s : Sync) (f : Fid) : Option Sync :=
  if s.mutex.locked then (s.sched.step .yield).map fun sched => { s with sched := sched }
  else s.acquire f

/-- `mutex::unlock`. -/
def unlock (s : Sync) : Option Sync :=
  if s.mutex.locked = false ∨ s.mutex.owner ≠ s.sched.active then none
  else
    match s.mutex.waiting with
    | [] => some { s with mutex := {} }
    | n :: rest =>
      (s.sched.step (.setReady n)).map fun sched =>
        { s with sched := sched, mutex := { waiting := rest } }

/-- `condition::wait` and `wait_until`, up to the suspension. -/
def wait (s : Sync) (f : Fid) (t : Option Nat) : Option Sync :=
  if t = none ∧ f ∈ s.cond then none
  else
    (unlock { s with cond := s.cond ++ [f] }).bind fun s =>
      (s.sched.step (.waitUntil (t.getD maxTime))).map fun sched =>
        { s.setPhase f (.waiting t) with sched := sched }

/-- `condition::notify_one`. -/
def notifyOne (s : Sync) : Option Sync :=
  match s.cond with
  | [] => some s
  | n :: rest =>
    (s.sched.step (.setReady n)).map fun sched => { s with sched := sched, cond := rest }

/-- `condition::notify_all`. -/
def notifyAll (s : Sync) : Option Sync :=
  (run Sched.step s.sched (s.cond.map .setReady)).map fun sched =>
    { s with sched := sched, cond := [] }

/-- The active fiber is back from its suspension: in `wait_until` after the time it takes
    itself off the list; then it locks the mutex. -/
def goOn (s : Sync) (f : Fid) (now : Nat) : Option Sync :=
  match s.phase f with
  | .out => none
  | .locking => s.lockOnce f
  | .waiting none => s.lockOnce f
  | .waiting (some t) =>
    if now < t then s.lockOnce f else lockOnce { s with cond := s.cond.erase f } f

/-- The active fiber, if any, is not in the code of the two classes. -/
def InControl (s : Sync) : Prop := ∀ f, s.sched.active = some f → s.phase f = .out

/-- The other calls of the scheduler: a fiber in `lock` or `wait` is not made ready by
    others, a fiber does not end with the mutex, and nobody is interrupted. -/
def Other (s : Sync) : Call → Prop
  | .run now => s.clock ≤ now
  | .setReady f => s.phase f = .out
  | .finish => s.mutex.owner = none ∨ s.mutex.owner ≠ s.sched.active
  | .interrupt _ | .interruptionPoint => False
  | _ => True

/-- What the callers see to. -/
def Guard (s : Sync) : Act → Prop
  | .call c => s.InControl ∧ s.Other c ∧ (s.sched.step c).isSome
  -- the mutex is not recursive
  | .lock => s.InControl ∧ s.sched.active ≠ none ∧ s.mutex.owner ≠ s.sched.active
  | .tryLock => s.InControl ∧ s.sched.active ≠ none
  -- the mutex is held by the caller, in a `unique_lock`
  | .unlock => s.InControl ∧ s.sched.active ≠ none ∧ s.mutex.owner = s.sched.active
  | .wait t =>
    s.InControl ∧ s.sched.active ≠ none ∧ s.mutex.owner = s.sched.active ∧
      t.getD maxTime ≤ maxTime
  | .notifyOne | .notifyAll => s.InControl
  | .goOn now => ¬ s.InControl ∧ s.clock ≤ now

def body (s : Sync) : Act → Option Sync
  | .call c =>
    (s.sched.step c).map fun sched => { s with sched := sched, clock := c.clock.getD s.clock }
  | .lock => s.sched.active.bind s.lockOnce
  | .tryLock => s.sched.active.bind s.tryLock
  | .unlock => s.unlock
  | .wait t => s.sched.active.bind fun f => s.wait f t
  | .notifyOne => s.notifyOne
  | .notifyAll => s.notifyAll
  | .goOn now => s.sched.active.bind fun f => goOn { s with clock := now } f now

instance (s : Sync) : Decidable s.InControl :=
  match h : s.sched.active with
  | none => isTrue fun f hf => by simp [h] at hf
  | some f => decidable_of_iff (s.phase f = .out) ⟨fun hp g hg => by
    obtain rfl : f = g := by simpa [h] using hg
    exact hp, fun hp => hp f h⟩

instance (s : Sync) (c : Call) : Decidable (s.Other c) :=
  match c with
  | .run now => inferInstanceAs (Decidable (s.clock ≤ now))
  | .setReady f => inferInstanceAs (Decidable (s.phase f = .out))
  | .finish =>
    inferInstanceAs (Decidable (s.mutex.owner = none ∨ s.mutex.owner ≠ s.sched.active))
  | .interrupt _ | .interruptionPoint => .isFalse id
  | .spawn | .waitUntil _ | .yield | .join _ => .isTrue trivial

instance (s : Sync) (e : Act) : Decidable (s.Guard e) :=
  match e with
  | .call c =>
    inferInstanceAs (Decidable (s.InControl ∧ s.Other c ∧ (s.sched.step c).isSome))
  | .lock =>
    inferInstanceAs (Decidable (s.InControl ∧ s.sched.active ≠ none ∧
      s.mutex.owner ≠ s.sched.active))
  | .tryLock => inferInstanceAs (Decidable (s.InControl ∧ s.sched.active ≠ none))
  | .unlock =>
    inferInstanceAs (Decidable (s.InControl ∧ s.sched.active ≠ none ∧
      s.mutex.owner = s.sched.active))
  | .wait t =>
    inferInstanceAs (Decidable (s.InControl ∧ s.sched.active ≠ none ∧
      s.mutex.owner = s.sched.active ∧ t.getD maxTime ≤ maxTime))
  | .notifyOne | .notifyAll => inferInstanceAs (Decidable s.InControl)
  | .goOn now => inferInstanceAs (Decidable (¬ s.InControl ∧ s.clock ≤ now))

def step (s : Sync) (e : Act) : Option Sync := if s.Guard e then s.body e else none

/-! ## Where every fiber is -/

/-- Where a fiber is, what the two lists say about it, and what the scheduler does. -/
inductive Seated (s : Sync) (f : Fid) : Prop where
  | out (hp : s.phase f = .out) (hm : f ∉ s.mutex.waiting) (hc : f ∉ s.cond)
  /-- In `lock`, on the list of the mutex. -/
  | blocked (hp : s.phase f = .locking) (hm : f ∈ s.mutex.waiting) (hc : f ∉ s.cond)
      (ho : s.mutex.owner ≠ some f) (hw : s.sched.Waits f maxTime)
  /-- In `lock`, woken by an `unlock`. -/
  | woken (hp : s.phase f = .locking) (hm : f ∉ s.mutex.waiting) (hc : f ∉ s.cond)
      (ho : s.mutex.owner ≠ some f) (hl : f ∈ s.sched.places) (hr : s.sched.Runnable f)
  /-- In `wait`, on the list of the condition. -/
  | listed {t : Option Nat} (hp : s.phase f = .waiting t) (hm : f ∉ s.mutex.waiting)
      (hc : f ∈ s.cond) (ho : s.mutex.owner ≠ some f) (hw : s.sched.Waits f (t.getD maxTime))
  /-- In `wait_until`, on the list although its time is over. -/
  | late {t : Nat} (hp : s.phase f = .waiting (some t)) (hm : f ∉ s.mutex.waiting)
      (hc : f ∈ s.cond) (ho : s.mutex.owner ≠ some f) (hl : f ∈ s.sched.places)
      (hr : s.sched.Runnable f) (ht : t ≤ s.clock)
  /-- In `wait`, off the list. -/
  | notified {t : Option Nat} (hp : s.phase f = .waiting t) (hm : f ∉ s.mutex.waiting)
      (hc : f ∉ s.cond) (ho : s.mutex.owner ≠ some f) (hl : f ∈ s.sched.places)
      (hr : s.sched.Runnable f)

structure Inv (s : Sync) : Prop where
  sched : s.sched.Inv
  unflagged : ∀ f, (s.sched.fibers f).interruptionRequested = false
  /-- Nobody in the code of the two classes joins another fiber. -/
  joiners : ∀ g, ∀ p ∈ (s.sched.fibers g).waiting, s.phase p = .out
  owned : s.mutex.locked = s.mutex.owner.isSome
  mutexNodup : s.mutex.waiting.Nodup
  condNodup : s.cond.Nodup
  seated : ∀ f, s.Seated f
  /-- No lost wake-up: while the mutex is free and fibers wait for it, a woken one is on
      its way. -/
  handoff : s.mutex.locked = false → s.mutex.waiting ≠ [] →
    ∃ f, s.phase f = .locking ∧ f ∉ s.mutex.waiting

section Moves

variable {s t : Sync} {f g : Fid}

/-- A fiber keeps its seat if nothing is done to it; while it waits its time may come. -/
theorem Seated.frame (h : s.Seated f) (hp : t.phase f = s.phase f)
    (hm : f ∈ t.mutex.waiting ↔ f ∈ s.mutex.waiting) (hc : f ∈ t.cond ↔ f ∈ s.cond)
    (ho : s.phase f ≠ .out → s.mutex.owner ≠ some f → t.mutex.owner ≠ some f)
    (hclock : s.clock ≤ t.clock)
    (hl : s.phase f ≠ .out → f ∈ s.sched.places → f ∈ t.sched.places)
    (hw : s.phase f ≠ .out → ∀ u, s.sched.Waits f u →
      t.sched.Waits f u ∨ u < maxTime ∧ u ≤ t.clock ∧ t.sched.Runnable f)
    (hr : s.phase f ≠ .out → f ∈ s.sched.places → s.sched.Runnable f → t.sched.Runnable f) :
    t.Seated f := by
  have hplace {u : Nat} (hw : s.sched.Waits f u) : f ∈ s.sched.places := by
    simp [Sched.places, hw.mem]
  cases h with
  | out hp' hm' hc' => exact .out (hp.trans hp') (mt hm.mp hm') (mt hc.mp hc')
  | blocked hp' hm' hc' ho' hw' =>
    have hin : s.phase f ≠ .out := by simp [hp']
    refine .blocked (hp.trans hp') (hm.mpr hm') (mt hc.mp hc') (ho hin ho') ?_
    exact (hw hin _ hw').resolve_right fun hlt => absurd hlt.1 (lt_irrefl _)
  | woken hp' hm' hc' ho' hl' hr' =>
    have hin : s.phase f ≠ .out := by simp [hp']
    exact .woken (hp.trans hp') (mt hm.mp hm') (mt hc.mp hc') (ho hin ho') (hl hin hl')
      (hr hin hl' hr')
  | @listed u hp' hm' hc' ho' hw' =>
    have hin : s.phase f ≠ .out := by simp [hp']
    rcases hw hin _ hw' with hw | ⟨hlt, hle, hr⟩
    · exact .listed (hp.trans hp') (mt hm.mp hm') (hc.mpr hc') (ho hin ho') hw
    · cases u with
      | none => exact absurd hlt (lt_irrefl _)
      | some u =>
        exact .late (hp.trans hp') (mt hm.mp hm') (hc.mpr hc') (ho hin ho')
          (hl hin (hplace hw')) hr hle
  | late hp' hm' hc' ho' hl' hr' ht' =>
    have hin : s.phase f ≠ .out := by simp [hp']
    exact .late (hp.trans hp') (mt hm.mp hm') (hc.mpr hc') (ho hin ho') (hl hin hl')
      (hr hin hl' hr') (ht'.trans hclock)
  | notified hp' hm' hc' ho' hl' hr' =>
    have hin : s.phase f ≠ .out := by simp [hp']
    exact .notified (hp.trans hp') (mt hm.mp hm') (mt hc.mp hc') (ho hin ho') (hl hin hl')
      (hr hin hl' hr')

/-- A suspension of another fiber. -/
theorem Seated.park (h : s.Seated g) (hf : s.sched.active = some f) (hgf : g ≠ f)
    {st : FiberState} {u : Nat} (hsched : t.sched = s.sched.park f st u)
    (hp : t.phase g = s.phase g) (hm : g ∈ t.mutex.waiting ↔ g ∈ s.mutex.waiting)
    (hc : g ∈ t.cond ↔ g ∈ s.cond) (ho : t.mutex.owner = s.mutex.owner)
    (hclock : t.clock = s.clock) : t.Seated g := by
  refine h.frame hp hm hc (fun _ => ho ▸ id) hclock.ge ?_ ?_ ?_
  · exact fun _ hl => hsched ▸ (Sched.places_park hf st u).mem_iff.mpr hl
  · exact fun _ v hw => .inl (hsched ▸ hw.park hgf)
  · exact fun _ _ hr => hsched ▸ hr.park hgf hf

/-- Another fiber is made ready. -/
theorem Seated.wake {n : Fid} (h : s.Seated g) (hgn : g ≠ n) (hsched : t.sched = s.sched.wake n)
    (hp : t.phase = s.phase) (hm : g ∈ t.mutex.waiting ↔ g ∈ s.mutex.waiting)
    (hc : g ∈ t.cond ↔ g ∈ s.cond) (ho : s.mutex.owner ≠ some g → t.mutex.owner ≠ some g)
    (hclock : t.clock = s.clock) : t.Seated g := by
  refine h.frame (by rw [hp]) hm hc (fun _ => ho) hclock.ge ?_ ?_ ?_
  · exact fun _ hl => hsched ▸ (Sched.places_wake s.sched n).mem_iff.mpr hl
  · exact fun _ v hw => .inl (hsched ▸ hw.wake hgn)
  · exact fun _ _ hr => hsched ▸ hr.wake

theorem Seated.phase_of_mem_mutex (h : s.Seated f) (hm : f ∈ s.mutex.waiting) :
    s.phase f = .locking := by
  cases h <;> first | assumption | contradiction

theorem Seated.phase_of_mem_cond (h : s.Seated f) (hc : f ∈ s.cond) :
    ∃ t, s.phase f = .waiting t := by
  cases h <;> first | exact ⟨_, by assumption⟩ | contradiction

/-- A fiber in the code of the two classes is in one of the queues. -/
theorem Seated.mem_places (h : s.Seated f) (hp : s.phase f ≠ .out) : f ∈ s.sched.places := by
  cases h with
  | out hp' => exact absurd hp' hp
  | blocked _ _ _ _ hw | listed _ _ _ _ hw => simp [Sched.places, hw.mem]
  | woken _ _ _ _ hl | late _ _ _ _ hl | notified _ _ _ _ hl => exact hl

theorem Seated.not_owner (h : s.Seated f) (hp : s.phase f ≠ .out) : s.mutex.owner ≠ some f := by
  cases h with
  | out hp' => exact absurd hp' hp
  | _ => assumption

namespace Inv

theorem init : Inv {} where
  sched := .init
  unflagged _ := rfl
  joiners _ _ hp := absurd hp List.not_mem_nil
  owned := rfl
  mutexNodup := List.nodup_nil
  condNodup := List.nodup_nil
  seated _ := .out rfl List.not_mem_nil List.not_mem_nil
  handoff _ h := absurd rfl h

/-- A fiber in the code of the two classes may be made ready. -/
theorem wakeable (h : s.Inv) (hp : s.phase f ≠ .out) (hact : s.sched.active ≠ some f) :
    s.sched.Wakeable f := by
  obtain ⟨hlt, hlive⟩ := (h.sched.mem_places f).mp ((h.seated f).mem_places hp)
  exact ⟨hlt, hlive, hact, fun g _ hg => hp (h.joiners g f hg)⟩

theorem step_setReady (h : s.Inv) (hp : s.phase f ≠ .out) (hact : s.sched.active ≠ some f) :
    s.sched.step (.setReady f) = some (s.sched.wake f) := by
  rw [Sched.step, if_pos (h.wakeable hp hact)]

theorem step_waitUntil (hf : s.sched.active = some f) {u : Nat} (hu : u ≤ maxTime) :
    s.sched.step (.waitUntil u) = some (s.sched.park f .waiting u) := by
  rw [Sched.step, if_pos hu, hf, Option.map_some]

/-- The active fiber is on no list of a mutex. -/
theorem not_mem_mutex (h : s.Inv) (hf : s.sched.active = some f) : f ∉ s.mutex.waiting := by
  intro hm
  cases h.seated f with
  | blocked _ _ _ _ hw => exact (h.sched.not_mem_of_active hf).1 hw.mem
  | _ => contradiction

/-- What the invariant asks of the scheduler alone. -/
theorem joiners_park (h : s.Inv) (hf : s.sched.active = some f) {st : FiberState} {u : Nat}
    {p : Phase} : ∀ g, ∀ q ∈ ((s.sched.park f st u).fibers g).waiting,
      Function.update s.phase f p q = .out := by
  intro g q hq
  rw [Sched.park_waiting] at hq
  have hqf : q ≠ f := fun heq =>
    h.sched.not_joining (h.sched.not_mem_of_active hf).1 g (heq ▸ hq)
  rw [Function.update_of_ne hqf]
  exact h.joiners g q hq

theorem acquire (h : s.Inv) (hf : s.sched.active = some f) (hfree : s.mutex.locked = false)
    (hc : f ∉ s.cond) : ∃ t, s.acquire f = some t ∧ t.Inv := by
  have howner : s.mutex.owner = none := by
    simpa [hfree] using h.owned
  refine ⟨_, by rw [Sync.acquire, if_neg (not_not.mpr howner)], ?_⟩
  constructor
  case sched => exact h.sched
  case unflagged => exact h.unflagged
  case joiners =>
    intro g p hp
    by_cases hpf : p = f
    · simp [setPhase, hpf]
    · simpa [setPhase, hpf] using h.joiners g p hp
  case owned => rfl
  case mutexNodup => exact h.mutexNodup
  case condNodup => exact h.condNodup
  case seated =>
    intro g
    by_cases hgf : g = f
    · subst hgf
      exact .out (by simp [setPhase]) (h.not_mem_mutex hf) hc
    · refine (h.seated g).frame (by simp [setPhase, hgf]) .rfl .rfl ?_ le_rfl ?_ ?_ ?_
      · exact fun _ _ heq => hgf (Option.some.inj heq).symm
      · exact fun _ hl => hl
      · exact fun _ u hw => .inl hw
      · exact fun _ _ hr => hr
  case handoff => exact fun hlocked => absurd hlocked (by simp)

theorem lockOnce (h : s.Inv) (hf : s.sched.active = some f) (hc : f ∉ s.cond)
    (ho : s.mutex.owner ≠ some f) : ∃ t, s.lockOnce f = some t ∧ t.Inv := by
  have hm := h.not_mem_mutex hf
  cases hlocked : s.mutex.locked with
  | false =>
    obtain ⟨t, ht, hinv⟩ := h.acquire hf hlocked hc
    exact ⟨t, by simpa [Sync.lockOnce, hlocked] using ht, hinv⟩
  | true =>
    have heq : s.lockOnce f = some { s.setPhase f .locking with
        sched := s.sched.park f .waiting maxTime
        mutex := { s.mutex with waiting := s.mutex.waiting ++ [f] } } := by
      simp only [Sync.lockOnce, hlocked, if_true, if_neg hm, step_waitUntil hf le_rfl,
        Option.map_some]
    refine ⟨_, heq, ?_⟩
    constructor
    case sched => exact h.sched.park hf (.inr rfl) le_rfl
    case unflagged => exact fun g => Sched.fewer_park.flags (h.unflagged g)
    case joiners => exact h.joiners_park hf
    case owned => exact h.owned
    case mutexNodup =>
      exact List.nodup_append.mpr ⟨h.mutexNodup, List.nodup_singleton f, fun a ha b hb heq =>
        hm (List.mem_singleton.mp hb ▸ heq ▸ ha)⟩
    case condNodup => exact h.condNodup
    case seated =>
      intro g
      by_cases hgf : g = f
      · subst hgf
        exact .blocked (by simp [setPhase]) (by simp) hc ho (Sched.waits_park (h.unflagged g))
      · exact (h.seated g).park hf hgf rfl (by simp [setPhase, hgf]) (by simp [hgf]) .rfl rfl rfl
    case handoff => simp [hlocked]

theorem tryLock (h : s.Inv) (hf : s.sched.active = some f) (hc : f ∉ s.cond)
    (hp : s.phase f = .out) : ∃ t, s.tryLock f = some t ∧ t.Inv := by
  cases hlocked : s.mutex.locked with
  | false =>
    obtain ⟨t, ht, hinv⟩ := h.acquire hf hlocked hc
    exact ⟨t, by simpa [Sync.tryLock, hlocked] using ht, hinv⟩
  | true =>
    have heq : s.tryLock f = some { s with sched := s.sched.park f .ready maxTime } := by
      simp only [Sync.tryLock, hlocked, if_true, Sched.step, hf, Option.map_some]
    refine ⟨_, heq, ?_⟩
    constructor
    case sched => exact h.sched.park hf (.inl rfl) le_rfl
    case unflagged => exact fun g => Sched.fewer_park.flags (h.unflagged g)
    case joiners => simpa only [Sched.park_waiting] using h.joiners
    case owned => exact h.owned
    case mutexNodup => exact h.mutexNodup
    case condNodup => exact h.condNodup
    case seated =>
      intro g
      by_cases hgf : g = f
      · subst hgf
        exact .out hp (h.not_mem_mutex hf) hc
      · exact (h.seated g).park hf hgf rfl rfl .rfl .rfl rfl rfl
    case handoff => exact h.handoff

/-- `unlock` by the owner, who keeps running. -/
theorem unlock (h : s.Inv) (hf : s.sched.active = some f) (ho : s.mutex.owner = some f) :
    ∃ t, s.unlock = some t ∧ t.Inv ∧ t.sched.active = some f ∧ t.cond = s.cond ∧
      t.phase = s.phase ∧ t.mutex.owner = none := by
  have hpass : ¬ (s.mutex.locked = false ∨ s.mutex.owner ≠ s.sched.active) := by
    simp [h.owned, ho, hf]
  cases hm : s.mutex.waiting with
  | nil =>
    have heq : s.unlock = some { s with mutex := {} } := by
      rw [Sync.unlock, if_neg hpass, hm]
    refine ⟨_, heq, ?_, hf, rfl, rfl, rfl⟩
    constructor
    case sched => exact h.sched
    case unflagged => exact h.unflagged
    case joiners => exact h.joiners
    case owned => rfl
    case mutexNodup => exact List.nodup_nil
    case condNodup => exact h.condNodup
    case seated =>
      intro g
      refine (h.seated g).frame rfl (by simp [hm]) .rfl ?_ le_rfl ?_ ?_ ?_
      · exact fun _ _ => by simp
      · exact fun _ hl => hl
      · exact fun _ u hw => .inl hw
      · exact fun _ _ hr => hr
    case handoff => exact fun _ hne => absurd rfl hne
  | cons n rest =>
    have hn : n ∈ s.mutex.waiting := by simp [hm]
    have hp := (h.seated n).phase_of_mem_mutex hn
    have hin : s.phase n ≠ .out := by simp [hp]
    have hact : s.sched.active ≠ some n := fun hact => h.not_mem_mutex hact hn
    obtain ⟨hnrest, hrest⟩ := List.nodup_cons.mp (hm ▸ h.mutexNodup)
    have heq : s.unlock
        = some { s with sched := s.sched.wake n, mutex := { waiting := rest } } := by
      rw [Sync.unlock, if_neg hpass, hm]
      simp only [h.step_setReady hin hact, Option.map_some]
    refine ⟨_, heq, ?_, hf, rfl, rfl, rfl⟩
    constructor
    case sched =>
      obtain ⟨hplace, hjoin⟩ := h.sched.of_wakeable (h.wakeable hin hact)
      exact h.sched.wake hplace hact hjoin
    case unflagged => exact fun g => Sched.fewer_wake.flags (h.unflagged g)
    case joiners => simpa only [Sched.wake_waiting] using h.joiners
    case owned => rfl
    case mutexNodup => exact hrest
    case condNodup => exact h.condNodup
    case seated =>
      intro g
      by_cases hgn : g = n
      · subst hgn
        have hc : g ∉ s.cond := fun hc => by
          obtain ⟨u, hu⟩ := (h.seated g).phase_of_mem_cond hc
          simp [hp] at hu
        exact .woken hp hnrest hc (by simp)
          ((Sched.places_wake s.sched g).mem_iff.mpr ((h.seated g).mem_places hin))
          (Sched.runnable_wake s.sched g)
      · exact (h.seated g).wake hgn rfl rfl (by simp [hm, hgn]) .rfl (fun _ => by simp) rfl
    case handoff => exact fun _ _ => ⟨n, hp, hnrest⟩

/-- The list of the condition is none of `unlock`'s business. -/
theorem unlock_cond (c : List Fid) :
    Sync.unlock { s with cond := c } = s.unlock.map fun t => { t with cond := c } := by
  unfold Sync.unlock
  split
  · rfl
  · cases s.mutex.waiting with
    | nil => rfl
    | cons n rest => simp [Option.map_map, Function.comp_def]

theorem wait (h : s.Inv) (hf : s.sched.active = some f) (ho : s.mutex.owner = some f)
    (hp : s.phase f = .out) {u : Option Nat} (hu : u.getD maxTime ≤ maxTime) :
    ∃ t, s.wait f u = some t ∧ t.Inv := by
  have hc : f ∉ s.cond := fun hc => by
    obtain ⟨v, hv⟩ := (h.seated f).phase_of_mem_cond hc
    simp [hp] at hv
  obtain ⟨t, ht, hinv, hact, hcond, hphase, howner⟩ := h.unlock hf ho
  have heq : s.wait f u = some { t.setPhase f (.waiting u) with
      sched := t.sched.park f .waiting (u.getD maxTime)
      cond := s.cond ++ [f] } := by
    rw [Sync.wait, if_neg (fun hu => hc hu.2), unlock_cond, ht, Option.map_some, Option.bind_some]
    simp only [step_waitUntil hact hu, Option.map_some]
    rfl
  refine ⟨_, heq, ?_⟩
  constructor
  case sched => exact hinv.sched.park hact (.inr rfl) hu
  case unflagged => exact fun g => Sched.fewer_park.flags (hinv.unflagged g)
  case joiners => exact hinv.joiners_park hact
  case owned => exact hinv.owned
  case mutexNodup => exact hinv.mutexNodup
  case condNodup =>
    exact List.nodup_append.mpr ⟨h.condNodup, List.nodup_singleton f, fun a ha b hb heq =>
      hc (List.mem_singleton.mp hb ▸ heq ▸ ha)⟩
  case seated =>
    intro g
    by_cases hgf : g = f
    · subst hgf
      exact .listed (by simp [setPhase]) (hinv.not_mem_mutex hact) (by simp)
        (by simp [setPhase, howner]) (Sched.waits_park (hinv.unflagged g))
    · exact (hinv.seated g).park hact hgf rfl (by simp [setPhase, hgf]) .rfl
        (by simp [hgf, hcond]) rfl rfl
  case handoff =>
    intro hfree hne
    obtain ⟨g, hg, hgm⟩ := hinv.handoff hfree hne
    have hgf : g ≠ f := fun heq => by simp [heq, hphase, hp] at hg
    exact ⟨g, by simpa [setPhase, hgf] using hg, hgm⟩

theorem notifyOne (h : s.Inv) (hin : s.InControl) :
    ∃ t, s.notifyOne = some t ∧ t.Inv ∧ t.InControl ∧ t.cond = s.cond.tail := by
  cases hc : s.cond with
  | nil => exact ⟨s, by rw [Sync.notifyOne, hc], h, hin, hc⟩
  | cons n rest =>
    have hn : n ∈ s.cond := by simp [hc]
    obtain ⟨u, hp⟩ := (h.seated n).phase_of_mem_cond hn
    have hout : s.phase n ≠ .out := by simp [hp]
    have hact : s.sched.active ≠ some n := fun hact => hout (hin n hact)
    obtain ⟨hnrest, hrest⟩ := List.nodup_cons.mp (hc ▸ h.condNodup)
    have hm : n ∉ s.mutex.waiting := fun hm => by
      simp [(h.seated n).phase_of_mem_mutex hm] at hp
    have heq : s.notifyOne = some { s with sched := s.sched.wake n, cond := rest } := by
      rw [Sync.notifyOne, hc]
      simp only [h.step_setReady hout hact, Option.map_some]
    refine ⟨_, heq, ?_, hin, rfl⟩
    constructor
    case sched =>
      obtain ⟨hplace, hjoin⟩ := h.sched.of_wakeable (h.wakeable hout hact)
      exact h.sched.wake hplace hact hjoin
    case unflagged => exact fun g => Sched.fewer_wake.flags (h.unflagged g)
    case joiners => simpa only [Sched.wake_waiting] using h.joiners
    case owned => exact h.owned
    case mutexNodup => exact h.mutexNodup
    case condNodup => exact hrest
    case seated =>
      intro g
      by_cases hgn : g = n
      · subst hgn
        exact .notified hp hm hnrest ((h.seated g).not_owner hout)
          ((Sched.places_wake s.sched g).mem_iff.mpr ((h.seated g).mem_places hout))
          (Sched.runnable_wake s.sched g)
      · exact (h.seated g).wake hgn rfl rfl .rfl (by simp [hc, hgn]) id rfl
    case handoff => exact h.handoff

theorem notifyAll (h : s.Inv) (hin : s.InControl) : ∃ t, s.notifyAll = some t ∧ t.Inv := by
  -- `notify_all` is a `notify_one` for each fiber of the list
  induction hc : s.cond generalizing s with
  | nil => exact ⟨{ s with cond := [] }, by simp [Sync.notifyAll, hc], hc ▸ h⟩
  | cons n rest ih =>
    obtain ⟨t, ht, hinv, hin', hrest⟩ := h.notifyOne hin
    rw [hc, List.tail_cons] at hrest
    obtain ⟨v, hv, hvinv⟩ := ih hinv hin' hrest
    refine ⟨v, ?_, hvinv⟩
    rw [Sync.notifyOne, hc] at ht
    obtain ⟨sched, hstep, rfl⟩ := Option.map_eq_some_iff.mp ht
    rw [← hv]
    simp [Sync.notifyAll, hc, hstep]

/-- The active fiber takes itself off the list. -/
theorem forget (h : s.Inv) (hf : s.sched.active = some f) (hp : s.phase f ≠ .out) :
    Inv { s with cond := s.cond.erase f } := by
  have hnot : f ∉ s.cond.erase f := fun hmem => (h.condNodup.mem_erase_iff.mp hmem).1 rfl
  constructor
  case sched => exact h.sched
  case unflagged => exact h.unflagged
  case joiners => exact h.joiners
  case owned => exact h.owned
  case mutexNodup => exact h.mutexNodup
  case condNodup => exact h.condNodup.erase f
  case seated =>
    intro g
    by_cases hgf : g = f
    · subst hgf
      have hasleep {u : Nat} (hw : s.sched.Waits g u) : False :=
        (h.sched.not_mem_of_active hf).1 hw.mem
      cases h.seated g with
      | out hp' => exact absurd hp' hp
      | blocked _ _ _ _ hw | listed _ _ _ _ hw => exact (hasleep hw).elim
      | woken hp hm hc ho hl hr => exact .woken hp hm hnot ho hl hr
      | late hp hm hc ho hl hr ht => exact .notified hp hm hnot ho hl hr
      | notified hp hm hc ho hl hr => exact .notified hp hm hnot ho hl hr
    · refine (h.seated g).frame rfl .rfl ?_ (fun _ => id) le_rfl ?_ ?_ ?_
      · exact List.mem_erase_of_ne hgf
      · exact fun _ hl => hl
      · exact fun _ u hw => .inl hw
      · exact fun _ _ hr => hr
  case handoff => exact h.handoff

/-- The clock is read. -/
theorem tick (h : s.Inv) {now : Nat} (hnow : s.clock ≤ now) : Inv { s with clock := now } where
  sched := h.sched
  unflagged := h.unflagged
  joiners := h.joiners
  owned := h.owned
  mutexNodup := h.mutexNodup
  condNodup := h.condNodup
  seated g := (h.seated g).frame rfl .rfl .rfl (fun _ => id) hnow (fun _ => id)
    (fun _ _ hw => .inl hw) fun _ _ => id
  handoff := h.handoff

theorem goOn (h : s.Inv) (hf : s.sched.active = some f) (hp : s.phase f ≠ .out) {now : Nat}
    (hnow : s.clock ≤ now) : ∃ t, s.goOn f now = some t ∧ t.Inv := by
  have hasleep {u : Nat} (hw : s.sched.Waits f u) : False :=
    (h.sched.not_mem_of_active hf).1 hw.mem
  have hforget := (h.forget hf hp).lockOnce hf
    (fun hmem => (h.condNodup.mem_erase_iff.mp hmem).1 rfl) ((h.seated f).not_owner hp)
  cases h.seated f with
  | out hp' => exact absurd hp' hp
  | blocked _ _ _ _ hw | listed _ _ _ _ hw => exact (hasleep hw).elim
  | woken hp' _ hc ho =>
    rw [Sync.goOn, hp']
    exact h.lockOnce hf hc ho
  | late hp' _ hc ho _ _ ht =>
    simp only [Sync.goOn, hp', if_neg (Nat.not_lt.mpr (ht.trans hnow))]
    exact hforget
  | @notified u hp' _ hc ho =>
    rw [Sync.goOn, hp']
    cases u with
    | none => exact h.lockOnce hf hc ho
    | some u =>
      dsimp only
      split
      · exact h.lockOnce hf hc ho
      · exact hforget

/-- The other calls of the scheduler leave the fibers in the two classes alone. -/
theorem call (h : s.Inv) (hin : s.InControl) {c : Call} {sched : Sched}
    (hother : s.Other c) (hstep : s.sched.step c = some sched) :
    Inv { s with sched := sched, clock := c.clock.getD s.clock } := by
  have hnoint (g : Fid) : c ≠ .interrupt g := by
    rintro rfl
    exact hother
  have hfewer := Sched.fewer_of_step hstep hnoint
  have hactive {g : Fid} (hp : s.phase g ≠ .out) : s.sched.active ≠ some g := fun hact =>
    hp (hin g hact)
  have hclock : s.clock ≤ c.clock.getD s.clock := by
    cases c with
    | run now => exact hother
    | _ => exact le_rfl
  constructor
  case sched => exact h.sched.step hstep
  case unflagged => exact fun g => (hfewer g).1 (h.unflagged g)
  case joiners =>
    intro g p hp
    exact ((hfewer g).2 p hp).elim (h.joiners g p) (hin p)
  case owned => exact h.owned
  case mutexNodup => exact h.mutexNodup
  case condNodup => exact h.condNodup
  case seated =>
    intro g
    refine (h.seated g).frame rfl .rfl .rfl (fun _ => id) hclock ?_ ?_ ?_
    · exact fun hp hl => Sched.mem_places_of_step hl hstep fun _ => hactive hp
    · intro hp u hw
      refine (hw.step h.sched hstep ?_ (hnoint g)
        fun g' hg' => hp (h.joiners g' g hg')).imp_right ?_
      · rintro rfl
        exact hp hother
      · rintro ⟨now, rfl, hle, hr⟩
        refine ⟨?_, hle, hr⟩
        cases Sched.stepped_of_step hstep with
        | ran _ hnow => exact hle.trans_lt hnow
    · exact fun hp hl hr => hr.step (h.sched.lt_created hl) hstep (hactive hp)
  case handoff => exact h.handoff

/-- **Nothing is refused.** What the callers may do, the code of the two classes does: no
    assertion fails, and the scheduler is never called as it may not be. -/
theorem body (h : s.Inv) {e : Act} (hguard : s.Guard e) : ∃ t, s.body e = some t ∧ t.Inv := by
  have hout {f : Fid} (hin : s.InControl) (hf : s.sched.active = some f) : f ∉ s.cond := by
    intro hc
    obtain ⟨u, hu⟩ := (h.seated f).phase_of_mem_cond hc
    simp [hin f hf] at hu
  cases e with
  | call c =>
    obtain ⟨hin, hother, hsome⟩ := hguard
    obtain ⟨sched, hstep⟩ := Option.isSome_iff_exists.mp hsome
    exact ⟨_, by rw [Sync.body, hstep, Option.map_some], h.call hin hother hstep⟩
  | lock =>
    obtain ⟨hin, hact, ho⟩ := hguard
    obtain ⟨f, hf⟩ := Option.ne_none_iff_exists'.mp hact
    simp only [Sync.body, hf, Option.bind_some]
    exact h.lockOnce hf (hout hin hf) (hf ▸ ho)
  | tryLock =>
    obtain ⟨hin, hact⟩ := hguard
    obtain ⟨f, hf⟩ := Option.ne_none_iff_exists'.mp hact
    simp only [Sync.body, hf, Option.bind_some]
    exact h.tryLock hf (hout hin hf) (hin f hf)
  | unlock =>
    obtain ⟨hin, hact, ho⟩ := hguard
    obtain ⟨f, hf⟩ := Option.ne_none_iff_exists'.mp hact
    obtain ⟨t, ht, hinv, -⟩ := h.unlock hf (hf ▸ ho)
    exact ⟨t, ht, hinv⟩
  | wait u =>
    obtain ⟨hin, hact, ho, hu⟩ := hguard
    obtain ⟨f, hf⟩ := Option.ne_none_iff_exists'.mp hact
    simp only [Sync.body, hf, Option.bind_some]
    exact h.wait hf (hf ▸ ho) (hin f hf) hu
  | notifyOne =>
    obtain ⟨t, ht, hinv, -⟩ := h.notifyOne hguard
    exact ⟨t, ht, hinv⟩
  | notifyAll => exact h.notifyAll hguard
  | goOn now =>
    obtain ⟨hin, hnow⟩ := hguard
    simp only [InControl, not_forall] at hin
    obtain ⟨f, hf, hp⟩ := hin
    simp only [Sync.body, hf, Option.bind_some]
    exact (h.tick hnow).goOn hf hp le_rfl

theorem step (h : s.Inv) {e : Act} (hstep : s.step e = some t) : t.Inv := by
  obtain ⟨hguard, hbody⟩ := Option.ite_none_right_eq_some.mp hstep
  obtain ⟨t', ht', hinv⟩ := h.body hguard
  obtain rfl := Option.some.inj (hbody.symm.trans ht')
  exact hinv

end Inv

theorem inv_of_run {es : List Act} (hrun : run step {} es = some s) : s.Inv :=
  run_inv (fun _ _ _ h hs => Inv.step h hs) .init hrun

end Moves

end Sync

end FiberProxy.Fiber
