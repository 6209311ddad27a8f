/-
  FiberProxy.Fiber.Turns

  Who runs when, over whole runs of the scheduler:

    * after `fm_run` no fiber is left in the waiting queue that is ready or whose time
      has come, although `move_to` stops at the first fiber that is neither
      (`waits_of_left`);
    * the run queue is served in order, and nobody overtakes it (`not_overtaken`);
    * a fiber that is ready or due is resumed within as many `fm_run` as fibers were in
      the queues (`resumed_of_due`);
    * a fiber in `fm_join` is not resumed before the joined fiber has ended
      (`ended_of_joined`).
-/

import FiberProxy.Fiber.Scheduler

namespace FiberProxy.Fiber

open Lib
open scoped List

/-- The clock of an `fm_run`. -/
def Call.clock : Call → Option Nat
  | .run now => some now
  | _ => none

namespace Sched

variable {s t : Sched} {f g : Fid} {c : Call}

/-! ## What `fm_run` leaves behind -/

/-- In an ordered list, everything after the first fiber that is not due is not due. -/
theorem waits_of_left (hinv : s.Inv) {now : Nat} (hf : f ∈ (s.moveTo now).wqueue) :
    (s.fibers f).state = .waiting ∧ now < (s.fibers f).tp := by
  have hsub : (s.moveTo now).wqueue <+ s.wqueue := List.dropWhile_sublist _
  have hord := hinv.ordered.sublist hsub
  have hstate := hinv.queued f (hsub.subset hf)
  have hhead := List.head?_dropWhile_not (s.due now) s.wqueue
  cases hrest : s.wqueue.dropWhile (s.due now) with
  | nil => simp [moveTo, hrest] at hf
  | cons b rest =>
    -- the first one that is left is not due, and the others rank no lower
    simp only [moveTo, hrest] at hf hord
    simp only [hrest, List.head?_cons, due, Bool.or_eq_false_iff, decide_eq_false_iff_not]
      at hhead
    obtain ⟨⟨htp, -⟩, hready⟩ := hhead
    have hrank : s.rank b ≤ s.rank f := by
      rcases List.mem_cons.mp hf with rfl | hf
      · exact le_rfl
      · exact (List.pairwise_cons.mp hord).1 f hf
    simp only [rank, if_neg hready] at hrank
    rcases hstate with hstate | hstate
    · simp [hstate] at hrank
    · simp only [hstate, reduceCtorEq, if_false] at hrank
      exact ⟨hstate, by omega⟩

/-- What `fm_run` does with the fibers of the waiting queue. -/
theorem moved_of_due (hinv : s.Inv) {now : Nat} (hf : f ∈ s.wqueue)
    (hdue : (s.fibers f).state = .ready ∨ (s.fibers f).tp ≤ now) :
    f ∈ s.wqueue.takeWhile (s.due now) := by
  have hsplit := List.takeWhile_append_dropWhile (p := s.due now) (l := s.wqueue)
  rw [← hsplit, List.mem_append] at hf
  refine hf.resolve_right fun hleft => ?_
  obtain ⟨hwait, htp⟩ := waits_of_left hinv hleft
  rcases hdue with hdue | hdue
  · simp [hwait] at hdue
  · omega

/-! ## The run queue is served in order -/

/-- A call other than `fm_run` only adds to the run queue, and resumes nobody. -/
theorem rqueue_of_step (hstep : s.step c = some t) (hc : ∀ now, c ≠ .run now) :
    s.rqueue <+: t.rqueue ∧ (t.active = none ∨ t.active = s.active) := by
  cases stepped_of_step hstep with
  | spawned => exact ⟨List.prefix_append _ _, .inr rfl⟩
  | ran => exact absurd rfl (hc _)
  | waited | yielded | joined | joinedEnded => exact ⟨List.prefix_refl _, .inl rfl⟩
  | woken | interrupted | took => exact ⟨List.prefix_refl _, .inr rfl⟩
  | finished =>
    obtain ⟨hrq, hact, -⟩ := foldl_wake_same _ (s.terminate _)
    rw [hrq, hact]
    exact ⟨List.prefix_refl _, .inl rfl⟩

theorem idle_of_run {now : Nat} (hstep : s.step (.run now) = some t) : s.active = none := by
  cases stepped_of_step hstep with
  | ran hact => exact hact

/-- `fm_run` resumes the first fiber of the run queue. -/
theorem active_of_run {now : Nat} {rest : List Fid} (hstep : s.step (.run now) = some t)
    (hq : (s.moveTo now).rqueue = f :: rest) : t.active = some f ∧ t.rqueue = rest := by
  cases stepped_of_step hstep with
  | ran => simp [resume, hq]

end Sched

/-! ## Turns in any system on the scheduler -/

section Turns

variable {σ ε : Type*}

/-- A system whose steps call the scheduler of one thread: `clock e` is the time of an
    event that is an `fm_run` of the main fiber. -/
structure Schedules (step : σ → ε → Option σ) (sched : σ → Sched) (clock : ε → Option Nat) :
    Prop where
  ofRun : ∀ {s e t now}, clock e = some now → step s e = some t →
    (sched s).step (.run now) = some (sched t)
  ofOther : ∀ {s e t}, clock e = none → step s e = some t →
    (sched s).rqueue <+: (sched t).rqueue ∧
      ((sched t).active = none ∨ (sched t).active = (sched s).active)

/-- At some point of the run the fiber is active. -/
def Resumed (step : σ → ε → Option σ) (sched : σ → Sched) (s : σ) (es : List ε) (f : Fid) : Prop :=
  ∃ w u, w <+: es ∧ run step s w = some u ∧ (sched u).active = some f

/-- How often the main fiber calls `fm_run`. -/
def runs (clock : ε → Option Nat) (es : List ε) : Nat := es.countP fun e => (clock e).isSome

variable {step : σ → ε → Option σ} {sched : σ → Sched} {clock : ε → Option Nat}
variable {s s' t : σ} {e : ε} {es : List ε} {f g : Fid}

theorem resumed_of_active (hstep : step s e = some s') (hact : (sched s').active = some f) :
    Resumed step sched s (e :: es) f :=
  ⟨[e], s', by simp, by simp [hstep], hact⟩

theorem Resumed.cons (hstep : step s e = some s') (h : Resumed step sched s' es f) :
    Resumed step sched s (e :: es) f := by
  obtain ⟨w, u, hw, hrun, hact⟩ := h
  exact ⟨e :: w, u, (List.prefix_cons_inj e).mpr hw, run_cons_eq_some.mpr ⟨s', hstep, hrun⟩, hact⟩

namespace Schedules

/-- The fibers `a` in front of `g` are resumed one by one, and then `g`, before any
    other fiber. -/
theorem resumed_before (h : Schedules step sched clock) {a b : List Fid}
    (hrun : run step s es = some t) (hq : (sched s).rqueue = a ++ g :: b) (hfa : f ∉ a)
    (hact : (sched s).active ≠ some f) (ht : (sched t).active = some f) :
    Resumed step sched s es g := by
  induction es generalizing s a b with
  | nil =>
    obtain rfl : s = t := by simpa using hrun
    exact absurd ht hact
  | cons e es ih =>
    obtain ⟨s', hstep, hes⟩ := run_cons_eq_some.mp hrun
    cases hc : clock e with
    | some now =>
      have hstep' := h.ofRun hc hstep
      have hmoved : ((sched s).moveTo now).rqueue
          = a ++ g :: (b ++ (sched s).wqueue.takeWhile ((sched s).due now)) := by
        simp [Sched.moveTo, hq]
      cases a with
      | nil => exact resumed_of_active hstep (Sched.active_of_run hstep' hmoved).1
      | cons x a =>
        obtain ⟨hact', hq'⟩ := Sched.active_of_run hstep' hmoved
        obtain ⟨hfx, hfa⟩ := not_or.mp (mt List.mem_cons.mpr hfa)
        refine (ih hes hq' hfa ?_).cons hstep
        rw [hact']
        exact fun heq => hfx (Option.some.inj heq).symm
    | none =>
      obtain ⟨⟨new, hnew⟩, hact'⟩ := h.ofOther hc hstep
      have hq' : (sched s').rqueue = a ++ g :: (b ++ new) := by simp [← hnew, hq]
      refine (ih hes hq' hfa ?_).cons hstep
      rcases hact' with hact' | hact'
      · simp [hact']
      · rwa [hact']

/-- The `i`-th fiber of the run queue is resumed by the `i`-th `fm_run` from now, whatever
    the fibers in between do. -/
theorem resumed_of_index (h : Schedules step sched clock) {i : Nat}
    (hrun : run step s es = some t) (hi : (sched s).rqueue[i]? = some f)
    (hcount : i < runs clock es) : Resumed step sched s es f := by
  induction es generalizing s i with
  | nil => simp [runs] at hcount
  | cons e es ih =>
    obtain ⟨s', hstep, hes⟩ := run_cons_eq_some.mp hrun
    have hilt := (List.getElem?_eq_some_iff.mp hi).1
    cases hc : clock e with
    | some now =>
      have hstep' := h.ofRun hc hstep
      have hmoved : ((sched s).moveTo now).rqueue[i]? = some f := by
        simp only [Sched.moveTo]
        rwa [List.getElem?_append_left hilt]
      cases hq : ((sched s).moveTo now).rqueue with
      | nil => simp [hq] at hmoved
      | cons x rest =>
        obtain ⟨hact', hq'⟩ := Sched.active_of_run hstep' hq
        rw [hq] at hmoved
        cases i with
        | zero =>
          obtain rfl : x = f := by simpa using hmoved
          exact resumed_of_active hstep hact'
        | succ i =>
          have hi' : (sched s').rqueue[i]? = some f := by
            rw [hq']
            simpa using hmoved
          refine (ih hes hi' ?_).cons hstep
          simpa [runs, hc] using hcount
    | none =>
      obtain ⟨⟨new, hnew⟩, -⟩ := h.ofOther hc hstep
      have hi' : (sched s').rqueue[i]? = some f := by
        rwa [← hnew, List.getElem?_append_left hilt]
      refine (ih hes hi' ?_).cons hstep
      simpa [runs, hc] using hcount

/-- A fiber that is ready, or whose time has come, at an `fm_run` is resumed within as
    many `fm_run` as there are fibers in the two queues. -/
theorem resumed_within (h : Schedules step sched clock) {now : Nat} (hinv : (sched s).Inv)
    (hc : clock e = some now) (hrun : run step s (e :: es) = some t)
    (hf : f ∈ (sched s).places)
    (hdue : ((sched s).fibers f).state = .ready ∨ ((sched s).fibers f).tp ≤ now)
    (hcount : (sched s).wqueue.length + (sched s).rqueue.length ≤ runs clock es + 1) :
    Resumed step sched s (e :: es) f := by
  obtain ⟨s', hstep, hes⟩ := run_cons_eq_some.mp hrun
  have hstep' := h.ofRun hc hstep
  have hact := Sched.idle_of_run hstep'
  have hmem : f ∈ ((sched s).moveTo now).rqueue := by
    simp only [Sched.places, hact, Option.toList_none, List.append_nil, List.mem_append] at hf
    simp only [Sched.moveTo, List.mem_append]
    exact hf.symm.imp_right fun hw => Sched.moved_of_due hinv hw hdue
  have hlen : ((sched s).moveTo now).rqueue.length
      ≤ (sched s).wqueue.length + (sched s).rqueue.length := by
    have hsub := (List.takeWhile_sublist (p := (sched s).due now)
      (l := (sched s).wqueue)).length_le
    simp only [Sched.moveTo, List.length_append]
    omega
  obtain ⟨i, hi⟩ := List.getElem?_of_mem hmem
  have hilt := (List.getElem?_eq_some_iff.mp hi).1
  cases hq : ((sched s).moveTo now).rqueue with
  | nil => simp [hq] at hmem
  | cons x rest =>
    obtain ⟨hact', hq'⟩ := Sched.active_of_run hstep' hq
    rw [hq] at hi
    cases i with
    | zero =>
      obtain rfl : x = f := by simpa using hi
      exact resumed_of_active hstep hact'
    | succ i =>
      have hi' : (sched s').rqueue[i]? = some f := by
        rw [hq']
        simpa using hi
      exact (h.resumed_of_index hes hi' (by omega)).cons hstep

end Schedules

end Turns

namespace Sched

variable {s t : Sched} {f g : Fid} {c : Call} {cs : List Call}

theorem schedules : Schedules step id Call.clock where
  ofRun := by
    intro s c t now hc hstep
    cases c with
    | run now' =>
      obtain rfl : now' = now := by simpa [Call.clock] using hc
      exact hstep
    | _ => simp [Call.clock] at hc
  ofOther := by
    intro s c t hc hstep
    refine rqueue_of_step hstep ?_
    rintro now rfl
    simp [Call.clock] at hc

/-- **Nobody overtakes the run queue.** A fiber that is not in it is not resumed before
    every fiber that is. -/
theorem not_overtaken (hrun : run step s cs = some t) (hg : g ∈ s.rqueue) (hf : f ∉ s.rqueue)
    (hact : s.active ≠ some f) (ht : t.active = some f) : Resumed step id s cs g := by
  obtain ⟨a, b, hq⟩ := List.append_of_mem hg
  rw [hq, List.mem_append, not_or] at hf
  exact schedules.resumed_before hrun hq hf.1 hact ht

/-- Two fibers: the first waits until 5, the second can run. -/
def oneWaits : Sched :=
  (run step {} [.spawn, .spawn, .run 0, .waitUntil 5]).get (by decide +kernel)

theorem run_oneWaits : run step {} [.spawn, .spawn, .run 0, .waitUntil 5] = some oneWaits :=
  (Option.some_get _).symm

theorem not_overtaken_two : Resumed step id oneWaits [.run 5, .yield, .run 5] 1 :=
  not_overtaken
    (Option.some_get (by decide +kernel : (run step oneWaits [.run 5, .yield, .run 5]).isSome)).symm
    (f := 0) (by decide +kernel) (by decide +kernel) (by decide +kernel) (by decide +kernel)

/-- **No starvation.** A live fiber that is ready or due is resumed, by the time the main
    fiber has called `fm_run` once for every fiber in the queues. -/
theorem resumed_of_due {cs₀ : List Call} {now : Nat} (hreach : run step {} cs₀ = some s)
    (hrun : run step s (.run now :: cs) = some t) (hlt : f < s.created)
    (hlive : (s.fibers f).state ≠ .terminated)
    (hdue : (s.fibers f).state = .ready ∨ (s.fibers f).tp ≤ now)
    (hcount : s.wqueue.length + s.rqueue.length ≤ runs Call.clock cs + 1) :
    Resumed step id s (.run now :: cs) f := by
  have hinv := inv_of_run hreach
  exact schedules.resumed_within hinv rfl hrun ((hinv.mem_places f).mpr ⟨hlt, hlive⟩) hdue hcount

theorem resumed_of_due_two : Resumed step id oneWaits [.run 5, .yield, .run 5] 0 :=
  resumed_of_due run_oneWaits
    (Option.some_get (by decide +kernel : (run step oneWaits [.run 5, .yield, .run 5]).isSome)).symm
    (by decide +kernel) (by decide +kernel) (by decide +kernel) (by decide +kernel)

/-! ## Joining -/

/-- A fiber that has ended stays so, and keeps its joiners until then. -/
structure Kept (s s' : Sched) (g : Fid) : Prop where
  ended : (s.fibers g).state = .terminated → (s'.fibers g).state = .terminated
  joiners : (s.fibers g).waiting ⊆ (s'.fibers g).waiting

theorem Kept.trans {s₁ s₂ s₃ : Sched} (h₁ : Kept s₁ s₂ g) (h₂ : Kept s₂ s₃ g) : Kept s₁ s₃ g :=
  ⟨h₂.ended ∘ h₁.ended, fun _ hp => h₂.joiners (h₁.joiners hp)⟩

/-- Only the records matter. -/
theorem kept_of_eq {s s' : Sched} (h : s'.fibers g = s.fibers g) : Kept s s' g :=
  ⟨fun hg => h ▸ hg, h ▸ List.Subset.refl _⟩

theorem kept_of_modify {s s' : Sched} {w : WorkerFiber → WorkerFiber}
    (hfib : s'.fibers = (s.modify f w).fibers)
    (hstate : (s.fibers f).state = .terminated → (w (s.fibers f)).state = .terminated)
    (hwait : (s.fibers f).waiting ⊆ (w (s.fibers f)).waiting) : Kept s s' g := by
  by_cases hgf : g = f
  · subst hgf
    constructor
    · intro hg
      rw [hfib, modify_fibers_self]
      exact hstate hg
    · rw [hfib, modify_fibers_self]
      exact hwait
  · exact kept_of_eq (by rw [hfib, modify_fibers_of_ne hgf])

theorem kept_wake (hf : (s.fibers f).state ≠ .terminated) : Kept s (s.wake f) g :=
  kept_of_modify (f := f) (w := fun w => { w with state := .ready }) rfl
    (fun h => absurd h hf) (List.Subset.refl _)

theorem kept_park (hinv : s.Inv) (hf : s.active = some f) {st : FiberState} {u : Nat} :
    Kept s (s.park f st u) g :=
  kept_of_modify (f := f) (w := fun w => { w with state := st, tp := u }) rfl
    (fun h => absurd h (by simp [hinv.running f hf])) (List.Subset.refl _)

theorem kept_moveTo (hinv : s.Inv) (now : Nat) : Kept s (s.moveTo now) g := by
  by_cases hg : g ∈ s.wqueue.takeWhile (s.due now)
  · have hstate := hinv.queued g ((List.takeWhile_sublist _).subset hg)
    refine ⟨fun h => ?_, by simp [moveTo, hg]⟩
    rcases hstate with hstate | hstate <;> simp [hstate] at h
  · exact kept_of_eq (by simp [moveTo, hg])

theorem kept_resume (hinv : s.Inv) : Kept s s.resume g := by
  cases hrq : s.rqueue with
  | nil => exact kept_of_eq (by simp [resume, hrq])
  | cons f rest =>
    have hready := hinv.ready f (by simp [hrq])
    exact kept_of_modify (f := f) (w := fun w => { w with state := .running })
      (by simp [resume, hrq]) (fun h => absurd h (by simp [hready])) (List.Subset.refl _)

theorem kept_foldl_wake {ps : List Fid} (hps : ∀ p ∈ ps, (s.fibers p).state ≠ .terminated) :
    Kept s (ps.foldl wake s) g := by
  induction ps generalizing s with
  | nil => exact kept_of_eq rfl
  | cons p ps ih =>
    refine (kept_wake (hps p List.mem_cons_self)).trans (ih fun q hq => ?_)
    by_cases hqp : q = p
    · simp [hqp, wake_fibers_self]
    · rw [wake_fibers_of_ne hqp]
      exact hps q (List.mem_cons_of_mem p hq)

/-- Unless the fiber ends in it, a step keeps its joiners. -/
theorem kept_of_step (hinv : s.Inv) (hstep : s.step c = some t) (hg : g < s.created) :
    Kept s t g ∨ (t.fibers g).state = .terminated := by
  cases stepped_of_step hstep with
  | spawned =>
    refine .inl (kept_of_eq ?_)
    simp [create, Function.update_of_ne hg.ne]
  | ran hact hnow => exact .inl ((kept_moveTo hinv _).trans (kept_resume (hinv.moveTo hnow)))
  | waited hf => exact .inl (kept_park hinv hf)
  | yielded hf => exact .inl (kept_park hinv hf)
  | joinedEnded hf =>
    refine .inl ((kept_park hinv hf).trans (kept_wake ?_))
    simp [park_fibers_self]
  | joined hf =>
    refine .inl ((kept_park hinv hf).trans (kept_of_modify rfl id ?_))
    exact List.subset_append_left _ _
  | woken hf => exact .inl (kept_wake hf.2.1)
  | interrupted hf =>
    refine .inl ((@kept_of_modify _ _ s (s.flag _ true) _ rfl id (List.Subset.refl _)).trans
      (kept_wake ?_))
    simpa [flag] using hf.2.1
  | took hf => exact .inl (kept_of_modify rfl id (List.Subset.refl _))
  | finished hf =>
    rename_i f
    have hw := (hinv.not_mem_of_active hf).1
    have hjoiners (p : Fid) (hp : p ∈ (s.fibers f).waiting) :
        ((s.terminate f).fibers p).state ≠ .terminated := by
      obtain ⟨-, hpw, hps, -, -⟩ := hinv.joining.waits f p hp
      have hpf : p ≠ f := fun heq => hw (heq ▸ hpw)
      simp [terminate, modify_fibers_of_ne hpf, hps]
    by_cases hgf : g = f
    · subst hgf
      exact .inr ((kept_foldl_wake hjoiners).ended (by simp [terminate]))
    · refine .inl ((kept_of_eq ?_).trans (kept_foldl_wake hjoiners))
      simp [terminate, modify_fibers_of_ne hgf]

theorem created_le_of_step (hstep : s.step c = some t) : s.created ≤ t.created := by
  cases stepped_of_step hstep with
  | spawned => exact Nat.le_succ _
  | ran =>
    unfold resume
    split <;> exact le_rfl
  | finished => exact (foldl_wake_same _ (s.terminate _)).2.2.ge
  | _ => exact le_rfl

/-- `f` waits for the end of `g`, or `g` has ended. -/
def Joins (f g : Fid) (s : Sched) : Prop :=
  s.Inv ∧ g < s.created ∧ ((s.fibers g).state = .terminated ∨ f ∈ (s.fibers g).waiting)

theorem Joins.step (h : Joins f g s) (hstep : s.step c = some t) : Joins f g t := by
  obtain ⟨hinv, hg, hjoin⟩ := h
  refine ⟨hinv.step hstep, hg.trans_le (created_le_of_step hstep), ?_⟩
  rcases kept_of_step hinv hstep hg with hkept | hended
  · exact hjoin.imp hkept.ended fun hmem => hkept.joiners hmem
  · exact .inl hended

theorem joins_of_join (hinv : s.Inv) (hf : s.active = some f) (hstep : s.step (.join g) = some t) :
    Joins f g t := by
  refine ⟨hinv.step hstep, ?_⟩
  cases stepped_of_step hstep with
  | joinedEnded hf' hgf hg hended =>
    obtain rfl := Option.some.inj (hf.symm.trans hf')
    refine ⟨hg, .inl ?_⟩
    rwa [wake_fibers_of_ne hgf, park_fibers_of_ne hgf]
  | joined hf' hgf hg =>
    obtain rfl := Option.some.inj (hf.symm.trans hf')
    exact ⟨hg, .inr (by simp [addJoiner])⟩

/-- **Joining.** A fiber in `fm_join` runs again only after the joined fiber has ended. -/
theorem ended_of_joined {cs₀ : List Call} (hreach : run step {} cs₀ = some s)
    (hf : s.active = some f) (hrun : run step s (.join g :: cs) = some t)
    (ht : t.active = some f) : (t.fibers g).state = .terminated := by
  obtain ⟨s', hstep, hcs⟩ := run_cons_eq_some.mp hrun
  obtain ⟨hinv, -, hjoin⟩ := run_inv (fun _ _ _ h hs => Joins.step h hs)
    (joins_of_join (inv_of_run hreach) hf hstep) hcs
  -- a fiber on the list of another one is in the waiting queue
  refine hjoin.resolve_right fun hmem => ?_
  exact (hinv.not_mem_of_active ht).1 (hinv.joining.waits g f hmem).2.1

/-- Two fibers: the first is active. -/
def oneActive : Sched := (run step {} [.spawn, .spawn, .run 0]).get (by decide +kernel)

theorem run_oneActive : run step {} [.spawn, .spawn, .run 0] = some oneActive :=
  (Option.some_get _).symm

theorem ended_of_joined_two :
    ∃ t, run step oneActive [.join 1, .run 0, .finish, .run 0] = some t ∧
      (t.fibers 1).state = .terminated :=
  ⟨_, (Option.some_get (by decide +kernel)).symm, ended_of_joined run_oneActive (f := 0)
    (by decide +kernel) (Option.some_get _).symm (by decide +kernel)⟩

end Sched

end FiberProxy.Fiber
