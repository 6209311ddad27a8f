/-
  FiberProxy.Fiber.Wakeups

  Whole runs of the fibers of one thread over a mutex and a condition variable:

    * whatever the callers may do, no assertion of the mutex, of the condition or of the
      scheduler below them fails (`body_of_run`);
    * a fiber that holds the mutex keeps it until it gives it up itself
      (`held_until_released`);
    * a fiber comes back from `wait` after a notification only, and from the list of the
      mutex in its turn only (`notified_of_returned`, `unlocked_of_returned`);
    * no wake-up is lost: a notified fiber comes back, and a free mutex that others wait
      for is tried again, within as many `fm_run` as there are fibers in the queues
      (`returned_of_notified`, `retried_of_free`).

  Everything rests on two facts about one step: a step that is not the fiber's own
  leaves its phase alone (`phase_of_step`), and takes it off a list only as above.
-/

import FiberProxy.Fiber.Refinement
import FiberProxy.Fiber.Sync

namespace FiberProxy.Fiber

open Lib
open scoped List

/-- The clock of an `fm_run`. -/
def Act.clock : Act → Option Nat
  | .call c => c.clock
  | _ => none

/-! ## The calls of the scheduler in a step -/

/-- From `a` to `b` by calls of the scheduler other than `fm_run`. -/
def Calls (a b : Sched) : Prop := ∃ cs, run Sched.step a cs = some b ∧ ∀ c ∈ cs, c.clock = none

namespace Calls

variable {a b d : Sched} {c : Call}

theorem refl (a : Sched) : Calls a a := ⟨[], rfl, fun _ hc => absurd hc List.not_mem_nil⟩

theorem one (hstep : a.step c = some b) (hc : c.clock = none) : Calls a b :=
  ⟨[c], by simp [hstep], fun _ hmem => List.mem_singleton.mp hmem ▸ hc⟩

theorem trans (h₁ : Calls a b) (h₂ : Calls b d) : Calls a d := by
  obtain ⟨cs, hcs, hnot⟩ := h₁
  obtain ⟨cs', hcs', hnot'⟩ := h₂
  refine ⟨cs ++ cs', by rw [run_append, hcs, Option.bind_some, hcs'], fun c hc => ?_⟩
  exact (List.mem_append.mp hc).elim (hnot c) (hnot' c)

/-- Nobody is resumed, and nobody leaves the run queue. -/
theorem rqueue (h : Calls a b) :
    a.rqueue <+: b.rqueue ∧ (b.active = none ∨ b.active = a.active) := by
  obtain ⟨cs, hcs, hnot⟩ := h
  induction cs generalizing a with
  | nil =>
    obtain rfl : a = b := by simpa using hcs
    exact ⟨List.prefix_refl _, .inr rfl⟩
  | cons c cs ih =>
    obtain ⟨a', hstep, hcs⟩ := run_cons_eq_some.mp hcs
    have hc : ∀ now, c ≠ .run now := by
      rintro now rfl
      simpa [Call.clock] using hnot _ List.mem_cons_self
    obtain ⟨hpre, hact⟩ := Sched.rqueue_of_step hstep hc
    obtain ⟨hpre', hact'⟩ := ih hcs fun c hc => hnot c (List.mem_cons_of_mem _ hc)
    refine ⟨hpre.trans hpre', hact'.imp_right ?_ |>.elim .inl id⟩
    intro heq
    rcases hact with hact | hact
    · exact .inl (heq.trans hact)
    · exact .inr (heq.trans hact)

end Calls

namespace Sync

variable {s t : Sync} {f : Fid} {e : Act} {es : List Act}

/-! ## What a step can do -/

/-- What `unlock` leaves of the mutex, and of the scheduler. -/
inductive Releases (s : Sync) : Mutex → Sched → Prop where
  | free (hw : s.mutex.waiting = []) : Releases s {} s.sched
  | handed {n : Fid} {rest : List Fid} {sched : Sched} (hw : s.mutex.waiting = n :: rest)
      (hstep : s.sched.step (.setReady n) = some sched) : Releases s { waiting := rest } sched

inductive Stepped (s : Sync) : Act → Sync → Prop where
  | called {c : Call} {sched : Sched} (hin : s.InControl) (hother : s.Other c)
      (hstep : s.sched.step c = some sched) :
      Stepped s (.call c) { s with sched := sched, clock := c.clock.getD s.clock }
  /-- In `lock`, in `try_lock` or back from a suspension: the mutex was free. -/
  | acquired {e : Act} {f : Fid} {cond : List Fid} {clock : Nat} (hf : s.sched.active = some f)
      (howner : s.mutex.owner = none) (hcond : cond = s.cond ∨ cond = s.cond.erase f)
      (he : e.clock = none) :
      Stepped s e { s.setPhase f .out with
        mutex := { s.mutex with locked := true, owner := some f }, cond := cond, clock := clock }
  /-- In `lock` or back from a suspension: the mutex was taken. -/
  | blocked {e : Act} {f : Fid} {sched : Sched} {cond : List Fid} {clock : Nat}
      (hf : s.sched.active = some f) (hstep : s.sched.step (.waitUntil maxTime) = some sched)
      (hcond : cond = s.cond ∨ cond = s.cond.erase f) (he : e.clock = none) :
      Stepped s e { s.setPhase f .locking with
        sched := sched, mutex := { s.mutex with waiting := s.mutex.waiting ++ [f] },
        cond := cond, clock := clock }
  | yielded {sched : Sched} (hstep : s.sched.step .yield = some sched) :
      Stepped s .tryLock { s with sched := sched }
  | released {m : Mutex} {sched : Sched} (howner : s.mutex.owner = s.sched.active)
      (h : s.Releases m sched) : Stepped s .unlock { s with sched := sched, mutex := m }
  | waited {f : Fid} {m : Mutex} {sched sched' : Sched} {u : Option Nat}
      (hf : s.sched.active = some f) (howner : s.mutex.owner = s.sched.active)
      (h : s.Releases m sched) (hstep : sched.step (.waitUntil (u.getD maxTime)) = some sched') :
      Stepped s (.wait u) { s.setPhase f (.waiting u) with
        sched := sched', mutex := m, cond := s.cond ++ [f] }
  | nobody (hcond : s.cond = []) : Stepped s .notifyOne s
  | notified {n : Fid} {rest : List Fid} {sched : Sched} (hcond : s.cond = n :: rest)
      (hstep : s.sched.step (.setReady n) = some sched) :
      Stepped s .notifyOne { s with sched := sched, cond := rest }
  | notifiedAll {sched : Sched}
      (hrun : run Sched.step s.sched (s.cond.map .setReady) = some sched) :
      Stepped s .notifyAll { s with sched := sched, cond := [] }

/-- `lock_if_unlocked_`, where the active fiber may have taken itself off the list. -/
theorem stepped_of_acquire {cond : List Fid} {clock : Nat} (hf : s.sched.active = some f)
    (hcond : cond = s.cond ∨ cond = s.cond.erase f) (he : e.clock = none)
    (h : acquire { s with cond := cond, clock := clock } f = some t) : Stepped s e t := by
  obtain ⟨howner, h⟩ := Option.ite_none_left_eq_some.mp h
  obtain rfl := Option.some.inj h
  exact .acquired hf (not_not.mp howner) hcond he

theorem stepped_of_lockOnce {cond : List Fid} {clock : Nat} (hf : s.sched.active = some f)
    (hcond : cond = s.cond ∨ cond = s.cond.erase f) (he : e.clock = none)
    (h : lockOnce { s with cond := cond, clock := clock } f = some t) : Stepped s e t := by
  unfold lockOnce at h
  split at h
  · obtain ⟨-, h⟩ := Option.ite_none_left_eq_some.mp h
    obtain ⟨sched, hstep, rfl⟩ := Option.map_eq_some_iff.mp h
    exact .blocked hf hstep hcond he
  · exact stepped_of_acquire hf hcond he h

theorem releases_of_unlock (h : s.unlock = some t) :
    s.mutex.owner = s.sched.active ∧
      ∃ m sched, s.Releases m sched ∧ t = { s with sched := sched, mutex := m } := by
  obtain ⟨hpass, h⟩ := Option.ite_none_left_eq_some.mp h
  refine ⟨not_not.mp (not_or.mp hpass).2, ?_⟩
  split at h
  · rename_i hw
    exact ⟨_, _, .free hw, (Option.some.inj h).symm⟩
  · rename_i n rest hw
    obtain ⟨sched, hstep, rfl⟩ := Option.map_eq_some_iff.mp h
    exact ⟨_, _, .handed hw hstep, rfl⟩

theorem stepped_of_goOn {now : Nat} (hf : s.sched.active = some f)
    (h : goOn { s with clock := now } f now = some t) : Stepped s (.goOn now) t := by
  unfold goOn at h
  split at h
  · exact absurd h nofun
  · exact stepped_of_lockOnce hf (.inl rfl) rfl h
  · exact stepped_of_lockOnce hf (.inl rfl) rfl h
  · split at h
    · exact stepped_of_lockOnce hf (.inl rfl) rfl h
    · exact stepped_of_lockOnce hf (.inr rfl) rfl h

theorem stepped_of_step (h : s.step e = some t) : Stepped s e t := by
  obtain ⟨hguard, hbody⟩ := Option.ite_none_right_eq_some.mp h
  cases e with
  | call c =>
    obtain ⟨sched, hstep, rfl⟩ := Option.map_eq_some_iff.mp hbody
    exact .called hguard.1 hguard.2.1 hstep
  | lock =>
    obtain ⟨f, hf, hlock⟩ := Option.bind_eq_some_iff.mp hbody
    exact stepped_of_lockOnce hf (.inl rfl) rfl hlock
  | tryLock =>
    obtain ⟨f, hf, hlock⟩ := Option.bind_eq_some_iff.mp hbody
    unfold tryLock at hlock
    split at hlock
    · obtain ⟨sched, hstep, rfl⟩ := Option.map_eq_some_iff.mp hlock
      exact .yielded hstep
    · exact stepped_of_acquire hf (.inl rfl) rfl hlock
  | unlock =>
    obtain ⟨howner, m, sched, hrel, rfl⟩ := releases_of_unlock hbody
    exact .released howner hrel
  | wait u =>
    obtain ⟨f, hf, hwait⟩ := Option.bind_eq_some_iff.mp hbody
    obtain ⟨-, hwait⟩ := Option.ite_none_left_eq_some.mp hwait
    rw [Inv.unlock_cond] at hwait
    obtain ⟨s₁, hs₁, hwait⟩ := Option.bind_eq_some_iff.mp hwait
    obtain ⟨s₂, hs₂, rfl⟩ := Option.map_eq_some_iff.mp hs₁
    obtain ⟨howner, m, sched, hrel, rfl⟩ := releases_of_unlock hs₂
    obtain ⟨sched', hstep, rfl⟩ := Option.map_eq_some_iff.mp hwait
    exact .waited hf howner hrel hstep
  | notifyOne =>
    simp only [body, notifyOne] at hbody
    split at hbody
    · rename_i hcond
      obtain rfl := Option.some.inj hbody
      exact .nobody hcond
    · rename_i n rest hcond
      obtain ⟨sched, hstep, rfl⟩ := Option.map_eq_some_iff.mp hbody
      exact .notified hcond hstep
  | notifyAll =>
    obtain ⟨sched, hrun, rfl⟩ := Option.map_eq_some_iff.mp hbody
    exact .notifiedAll hrun
  | goOn now =>
    obtain ⟨f, hf, hgo⟩ := Option.bind_eq_some_iff.mp hbody
    exact stepped_of_goOn hf hgo

/-! ## Every run is a run of the scheduler -/

theorem Releases.calls {m : Mutex} {sched : Sched} (h : s.Releases m sched) :
    Calls s.sched sched := by
  cases h with
  | free => exact .refl _
  | handed _ hstep => exact .one hstep rfl

theorem calls_of_step (hstep : s.step e = some t) (hc : e.clock = none) :
    Calls s.sched t.sched := by
  cases stepped_of_step hstep with
  | called _ _ hcall => exact .one hcall hc
  | acquired | nobody => exact .refl _
  | blocked _ hcall => exact .one hcall rfl
  | yielded hcall => exact .one hcall rfl
  | released _ hrel => exact hrel.calls
  | waited _ _ hrel hcall => exact hrel.calls.trans (.one hcall rfl)
  | notified _ hcall => exact .one hcall rfl
  | notifiedAll hrun =>
    refine ⟨_, hrun, fun c hc => ?_⟩
    obtain ⟨f, -, rfl⟩ := List.mem_map.mp hc
    rfl

theorem run_of_step {now : Nat} (hstep : s.step e = some t) (hc : e.clock = some now) :
    s.sched.step (.run now) = some t.sched := by
  cases stepped_of_step hstep with
  | @called c _ _ _ hcall =>
    cases c with
    | run now' =>
      obtain rfl : now' = now := by simpa [Act.clock, Call.clock] using hc
      exact hcall
    | _ => simp [Act.clock, Call.clock] at hc
  | acquired _ _ _ he | blocked _ _ _ he => simp [he] at hc
  | _ => simp [Act.clock] at hc

theorem schedules : Schedules step Sync.sched Act.clock where
  ofRun := fun hc hstep => run_of_step hstep hc
  ofOther := fun hc hstep => (calls_of_step hstep hc).rqueue

/-- Every run of the fibers is a run of the scheduler. -/
theorem sched_of_run (hrun : run step s es = some t) :
    ∃ cs, run Sched.step s.sched cs = some t.sched := by
  induction es generalizing s with
  | nil =>
    obtain rfl : s = t := by simpa using hrun
    exact ⟨[], rfl⟩
  | cons e es ih =>
    obtain ⟨s', hstep, hes⟩ := run_cons_eq_some.mp hrun
    obtain ⟨cs', hcs'⟩ := ih hes
    cases hc : e.clock with
    | some now =>
      have hrun := schedules.ofRun hc hstep
      exact ⟨.run now :: cs', run_cons_eq_some.mpr ⟨_, hrun, hcs'⟩⟩
    | none =>
      obtain ⟨cs, hcs, -⟩ := calls_of_step hstep hc
      exact ⟨cs ++ cs', by rw [run_append, hcs, Option.bind_some, hcs']⟩

/-- **No assertion fails.** In every reachable state, whatever the callers may do is done,
    and the pointer code of the scheduler has come through all the calls so far. -/
theorem body_of_run (hrun : run step {} es = some s) (hguard : s.Guard e) :
    ∃ t, s.body e = some t ∧ ∃ cs m, run Manager.call {} cs = some m ∧ Rep m t.sched := by
  obtain ⟨t, ht, -⟩ := (inv_of_run hrun).body hguard
  have hstep : s.step e = some t := by rw [step, if_pos hguard, ht]
  obtain ⟨cs, hcs⟩ := sched_of_run (run_snoc_eq_some.mpr ⟨s, hrun, hstep⟩)
  obtain ⟨m, hm, hrep⟩ := rep_init.run .init hcs
  exact ⟨t, ht, cs, m, hm, hrep⟩

/-- Two fibers: the first is active. -/
def firstActive : List Act := [.call .spawn, .call .spawn, .call (.run 0)]

theorem body_of_run_lock :
    ∃ s t, run step {} firstActive = some s ∧ s.body .lock = some t ∧
      ∃ cs m, run Manager.call {} cs = some m ∧ Rep m t.sched := by
  have hrun : run step {} firstActive = some _ := (Option.some_get (by decide +kernel)).symm
  obtain ⟨t, ht⟩ := body_of_run hrun (e := .lock) (by decide +kernel)
  exact ⟨_, t, hrun, ht⟩

/-! ## The mutex is kept until it is given up -/

theorem gave_up_of_step (hstep : s.step e = some t) (hs : s.mutex.owner = some f)
    (ht : t.mutex.owner ≠ some f) :
    s.sched.active = some f ∧ (e = .unlock ∨ ∃ u, e = .wait u) := by
  cases stepped_of_step hstep with
  | acquired _ howner => simp [hs] at howner
  | released howner => exact ⟨howner ▸ hs, .inl rfl⟩
  | waited _ howner => exact ⟨howner ▸ hs, .inr ⟨_, rfl⟩⟩
  | _ => exact absurd hs ht

/-- **Mutual exclusion.** A fiber that holds the mutex holds it until it calls `unlock`
    or `wait` itself. -/
theorem held_until_released (hrun : run step s es = some t) (hs : s.mutex.owner = some f)
    (ht : t.mutex.owner ≠ some f) :
    ∃ w e rest u, es = w ++ e :: rest ∧ run step s w = some u ∧ u.sched.active = some f ∧
      u.mutex.owner = some f ∧ (e = .unlock ∨ ∃ d, e = .wait d) := by
  obtain ⟨w, e, rest, u, v, rfl, hw, hstep, hu, hv⟩ :=
    run_exit (K := fun s => s.mutex.owner = some f) hrun hs ht
  obtain ⟨hact, he⟩ := gave_up_of_step hstep hu hv
  exact ⟨w, e, rest, u, rfl, hw, hact, hu, he⟩

/-- The first of two fibers holds the mutex. -/
def firstHolds : Sync := (run step {} (firstActive ++ [.lock])).get (by decide +kernel)

theorem held_until_released_lock :
    ∃ w e rest u, [Act.notifyOne, .unlock] = w ++ e :: rest ∧ run step firstHolds w = some u ∧
      u.sched.active = some 0 ∧ u.mutex.owner = some 0 ∧ (e = .unlock ∨ ∃ d, e = .wait d) :=
  held_until_released (s := firstHolds) (Option.some_get (by decide +kernel)).symm
    (by decide +kernel) (by decide +kernel)

/-! ## What the others do to a fiber in the two classes -/

theorem phase_of_step (hstep : s.step e = some t) (hact : s.sched.active ≠ some f) :
    t.phase f = s.phase f := by
  have hne {g : Fid} (hg : s.sched.active = some g) : f ≠ g := fun heq => hact (heq ▸ hg)
  cases stepped_of_step hstep with
  | acquired hg | blocked hg | waited hg => simp [setPhase, hne hg]
  | _ => rfl

/-- A fiber leaves the list of the condition by a notification. -/
theorem notified_of_step (hstep : s.step e = some t) (hact : s.sched.active ≠ some f)
    (hs : f ∈ s.cond) (ht : f ∉ t.cond) :
    e = .notifyOne ∧ s.cond.head? = some f ∨ e = .notifyAll := by
  have herase {g : Fid} {cond : List Fid} (hg : s.sched.active = some g)
      (hcond : cond = s.cond ∨ cond = s.cond.erase g) : f ∈ cond := by
    have hne : f ≠ g := fun heq => hact (heq ▸ hg)
    rcases hcond with rfl | rfl
    · exact hs
    · exact (List.mem_erase_of_ne hne).mpr hs
  cases stepped_of_step hstep with
  | acquired hg _ hcond => exact absurd (herase hg hcond) ht
  | blocked hg _ hcond => exact absurd (herase hg hcond) ht
  | waited => exact absurd (List.mem_append_left _ hs) ht
  | notified hcond =>
    rw [hcond, List.mem_cons] at hs
    rcases hs with rfl | hs
    · exact .inl ⟨rfl, by simp [hcond]⟩
    · exact absurd hs ht
  | notifiedAll => exact .inr rfl
  | _ => exact absurd hs ht

theorem Releases.head {m : Mutex} {sched : Sched} (h : s.Releases m sched)
    (hs : f ∈ s.mutex.waiting) (ht : f ∉ m.waiting) : s.mutex.waiting.head? = some f := by
  cases h with
  | free hw => simp [hw] at hs
  | handed hw =>
    rw [hw, List.mem_cons] at hs
    rcases hs with rfl | hs
    · simp [hw]
    · exact absurd hs ht

/-- A fiber leaves the list of the mutex when the owner gives it up, in its turn. -/
theorem unlocked_of_step (hstep : s.step e = some t) (hs : f ∈ s.mutex.waiting)
    (ht : f ∉ t.mutex.waiting) :
    (e = .unlock ∨ ∃ u, e = .wait u) ∧ s.mutex.waiting.head? = some f := by
  cases stepped_of_step hstep with
  | blocked => exact absurd (List.mem_append_left _ hs) ht
  | released _ hrel => exact ⟨.inl rfl, hrel.head hs ht⟩
  | waited _ _ hrel => exact ⟨.inr ⟨_, rfl⟩, hrel.head hs ht⟩
  | _ => exact absurd hs ht

/-- **No spurious wake-up.** A fiber in `condition::wait` comes back after a notification:
    `notify_one` when it has waited longest, or `notify_all`. -/
theorem notified_of_returned {es₀ : List Act} (hreach : run step {} es₀ = some s)
    (hp : s.phase f = .waiting none) (hs : f ∈ s.cond) (hrun : run step s es = some t)
    (ht : t.sched.active = some f) :
    ∃ w e rest u, es = w ++ e :: rest ∧ run step s w = some u ∧
      (e = .notifyOne ∧ u.cond.head? = some f ∨ e = .notifyAll) := by
  -- on the list and without a time, the fiber is asleep
  have hasleep {v : Sync} (hinv : v.Inv) (hp : v.phase f = .waiting none) (hc : f ∈ v.cond) :
      v.sched.active ≠ some f := by
    intro hact
    have hnot := (hinv.sched.not_mem_of_active hact).1
    cases hinv.seated f with
    | listed _ _ _ _ hw => exact hnot hw.mem
    | late hp' => simp [hp] at hp'
    | _ => contradiction
  obtain ⟨w, e, rest, u, v, rfl, hw, hstep, ⟨hinv, hup, hu⟩, hv⟩ :=
    run_exit (K := fun s => s.Inv ∧ s.phase f = .waiting none ∧ f ∈ s.cond) hrun
      ⟨inv_of_run hreach, hp, hs⟩ fun ⟨hinv, hp, hc⟩ => hasleep hinv hp hc ht
  have hact := hasleep hinv hup hu
  have hout : f ∉ v.cond := fun hmem =>
    hv ⟨hinv.step hstep, (phase_of_step hstep hact).trans hup, hmem⟩
  exact ⟨w, e, rest, u, rfl, hw, notified_of_step hstep hact hu hout⟩

/-- The first of two fibers waits for a notification. -/
def firstWaits : Sync :=
  (run step {} (firstActive ++ [.lock, .wait none])).get (by decide +kernel)

theorem notified_of_returned_two :
    ∃ w e rest u, [Act.call (.run 0), .notifyOne, .call .finish, .call (.run 0)] =
        w ++ e :: rest ∧ run step firstWaits w = some u ∧
      (e = .notifyOne ∧ u.cond.head? = some 0 ∨ e = .notifyAll) :=
  notified_of_returned (s := firstWaits) (f := 0) (Option.some_get _).symm (by decide +kernel)
    (by decide +kernel) (Option.some_get (by decide +kernel)).symm (by decide +kernel)

/-- **The mutex is handed on in order.** A fiber on the list of the mutex comes back after
    the owner has given it up, with the fiber at the front of the list. -/
theorem unlocked_of_returned {es₀ : List Act} (hreach : run step {} es₀ = some s)
    (hs : f ∈ s.mutex.waiting) (hrun : run step s es = some t) (ht : t.sched.active = some f) :
    ∃ w e rest u, es = w ++ e :: rest ∧ run step s w = some u ∧
      u.mutex.waiting.head? = some f ∧ (e = .unlock ∨ ∃ d, e = .wait d) := by
  obtain ⟨w, e, rest, u, v, rfl, hw, hstep, ⟨hinv, hu⟩, hv⟩ :=
    run_exit (K := fun s => s.Inv ∧ f ∈ s.mutex.waiting) hrun ⟨inv_of_run hreach, hs⟩
      fun ⟨hinv, hmem⟩ => hinv.not_mem_mutex ht hmem
  obtain ⟨he, hhead⟩ := unlocked_of_step hstep hu fun hmem => hv ⟨hinv.step hstep, hmem⟩
  exact ⟨w, e, rest, u, rfl, hw, hhead, he⟩

/-- The second of two fibers waits for the mutex. -/
def secondBlocked : Sync :=
  (run step {} (firstActive ++ [.lock, .call .yield, .call (.run 0), .lock])).get
    (by decide +kernel)

theorem unlocked_of_returned_two :
    ∃ w e rest u, [Act.call (.run 0), .unlock, .call .finish, .call (.run 0)] =
        w ++ e :: rest ∧ run step secondBlocked w = some u ∧
      u.mutex.waiting.head? = some 1 ∧ (e = .unlock ∨ ∃ d, e = .wait d) :=
  unlocked_of_returned (s := secondBlocked) (Option.some_get _).symm (by decide +kernel)
    (Option.some_get (by decide +kernel)).symm (by decide +kernel)

/-! ## No wake-up is lost -/

/-- A fiber in the two classes that is on no list comes back within as many `fm_run` as
    there are fibers in the queues, and finds itself where it was. -/
theorem returned_of_off_lists (hinv : s.Inv) {now : Nat} (hp : s.phase f ≠ .out)
    (hm : f ∉ s.mutex.waiting) (hc : f ∉ s.cond)
    (hrun : run step s (.call (.run now) :: es) = some t)
    (hcount : s.sched.wqueue.length + s.sched.rqueue.length ≤ runs Act.clock es + 1) :
    ∃ w u, w <+: .call (.run now) :: es ∧ run step s w = some u ∧ u.sched.active = some f ∧
      u.phase f = s.phase f := by
  obtain ⟨s', hstep, -⟩ := run_cons_eq_some.mp hrun
  have hidle := Sched.idle_of_run (run_of_step hstep rfl)
  have hr : s.sched.Runnable f := by
    cases hinv.seated f <;> first | assumption | contradiction
  have hready : (s.sched.fibers f).state = .ready := hr.resolve_right (by simp [hidle])
  obtain ⟨w, u, hw, hu, hact⟩ := schedules.resumed_within hinv.sched rfl hrun
    ((hinv.seated f).mem_places hp) (.inl hready) hcount
  -- until it runs, nobody else moves it on
  obtain ⟨w', e, rest, v, v', rfl, hw', hstep', ⟨hvact, hvp⟩, hv'⟩ :=
    run_exit (K := fun v => v.sched.active ≠ some f ∧ v.phase f = s.phase f) hu
      ⟨by simp [hidle], rfl⟩ fun h => h.1 hact
  have hp' := (phase_of_step hstep' hvact).trans hvp
  refine ⟨w' ++ [e], v', ?_, run_snoc_eq_some.mpr ⟨v, hw', hstep'⟩, ?_, hp'⟩
  · exact (List.prefix_append (w' ++ [e]) rest).trans (by simpa using hw)
  · exact not_not.mp fun hne => hv' ⟨hne, hp'⟩

/-- **A notification is not lost.** A fiber in `wait` that has been taken off the list comes
    back, to lock the mutex again. -/
theorem returned_of_notified {es₀ : List Act} {now : Nat} {d : Option Nat}
    (hreach : run step {} es₀ = some s) (hp : s.phase f = .waiting d) (hc : f ∉ s.cond)
    (hrun : run step s (.call (.run now) :: es) = some t)
    (hcount : s.sched.wqueue.length + s.sched.rqueue.length ≤ runs Act.clock es + 1) :
    ∃ w u, w <+: .call (.run now) :: es ∧ run step s w = some u ∧ u.sched.active = some f ∧
      u.phase f = .waiting d := by
  have hinv := inv_of_run hreach
  have hm : f ∉ s.mutex.waiting := fun hm => by
    simp [(hinv.seated f).phase_of_mem_mutex hm] at hp
  rw [← hp]
  exact returned_of_off_lists hinv (by simp [hp]) hm hc hrun hcount

/-- The first of two fibers has been notified, and the second has ended. -/
def firstNotified : Sync :=
  (run step {} (firstActive ++ [.lock, .wait none, .call (.run 0), .notifyOne,
    .call .finish])).get (by decide +kernel)

theorem returned_of_notified_two :
    ∃ w u, w <+: [Act.call (.run 0)] ∧ run step firstNotified w = some u ∧
      u.sched.active = some 0 ∧ u.phase 0 = .waiting none :=
  returned_of_notified (s := firstNotified) (Option.some_get _).symm (by decide +kernel)
    (by decide +kernel) (Option.some_get (by decide +kernel)).symm (by decide +kernel)

/-- **A free mutex is not forgotten.** While fibers wait for it, one of them comes back to
    try it again. -/
theorem retried_of_free {es₀ : List Act} {now : Nat} (hreach : run step {} es₀ = some s)
    (hfree : s.mutex.locked = false) (hwait : s.mutex.waiting ≠ [])
    (hrun : run step s (.call (.run now) :: es) = some t)
    (hcount : s.sched.wqueue.length + s.sched.rqueue.length ≤ runs Act.clock es + 1) :
    ∃ f w u, w <+: .call (.run now) :: es ∧ run step s w = some u ∧ u.sched.active = some f ∧
      u.phase f = .locking := by
  have hinv := inv_of_run hreach
  obtain ⟨f, hp, hm⟩ := hinv.handoff hfree hwait
  have hc : f ∉ s.cond := fun hc => by
    obtain ⟨u, hu⟩ := (hinv.seated f).phase_of_mem_cond hc
    simp [hp] at hu
  refine ⟨f, ?_⟩
  rw [← hp]
  exact returned_of_off_lists hinv (by simp [hp]) hm hc hrun hcount

/-- The mutex is free, the second of three fibers has been woken for it and the third waits. -/
def mutexFree : Sync :=
  (run step {} [.call .spawn, .call .spawn, .call .spawn, .call (.run 0), .lock, .call .yield,
    .call (.run 0), .lock, .call (.run 0), .lock, .call (.run 0), .unlock,
    .call .finish]).get (by decide +kernel)

theorem retried_of_free_three :
    ∃ f w u, w <+: [Act.call (.run 0), .goOn 0, .call .yield, .call (.run 0)] ∧
      run step mutexFree w = some u ∧ u.sched.active = some f ∧ u.phase f = .locking :=
  retried_of_free (s := mutexFree) (Option.some_get _).symm (by decide +kernel)
    (by decide +kernel) (Option.some_get (by decide +kernel)).symm (by decide +kernel)

end Sync

end FiberProxy.Fiber
