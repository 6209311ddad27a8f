/-
  FiberProxy.Fiber.Frame

  What a call of the scheduler does to the fibers that do not make it: a fiber that waits
  goes on waiting until its time has come (`Waits.step`), a fiber that can run stays so
  until it has run (`Runnable.step`), and nobody but the active fiber is added to the
  joiners of a fiber (`fewer_of_step`).
-/

import FiberProxy.Fiber.Turns

namespace FiberProxy.Fiber

open Lib
open scoped List

namespace Sched

variable {s t : Sched} {f g : Fid} {c : Call} {u : Nat}

/-! ## What a call does to a fiber that does not make it -/

/-- The fiber waits until the time `u`. -/
structure Waits (s : Sched) (f : Fid) (u : Nat) : Prop where
  mem : f ∈ s.wqueue
  state : (s.fibers f).state = .waiting
  tp : (s.fibers f).tp = u
  unflagged : (s.fibers f).interruptionRequested = false

/-- The fiber runs, or has been made ready. -/
def Runnable (s : Sched) (f : Fid) : Prop := (s.fibers f).state = .ready ∨ s.active = some f

theorem Waits.frame (h : s.Waits f u) (hfib : t.fibers f = s.fibers f)
    (hmem : f ∈ s.wqueue → f ∈ t.wqueue) : t.Waits f u :=
  ⟨hmem h.mem, hfib ▸ h.state, hfib ▸ h.tp, hfib ▸ h.unflagged⟩

theorem waits_park (hflag : (s.fibers f).interruptionRequested = false) :
    (s.park f .waiting u).Waits f u where
  mem := mem_park_wqueue.mpr (.inl rfl)
  state := by rw [park_fibers_self]
  tp := by rw [park_fibers_self]
  unflagged := by rwa [park_fibers_self]

theorem Waits.park (h : s.Waits f u) (hne : f ≠ g) {st : FiberState} {v : Nat} :
    (s.park g st v).Waits f u :=
  h.frame (park_fibers_of_ne hne) fun hmem => mem_park_wqueue.mpr (.inr hmem)

theorem Waits.wake (h : s.Waits f u) (hne : f ≠ g) : (s.wake g).Waits f u :=
  h.frame (wake_fibers_of_ne hne) mem_wake_wqueue.mpr

theorem Waits.addJoiner (h : s.Waits f u) {p : Fid} : (s.addJoiner g p).Waits f u := by
  by_cases hfg : f = g
  · subst hfg
    exact ⟨h.mem, by simpa [Sched.addJoiner] using h.state, by simpa [Sched.addJoiner] using h.tp,
      by simpa [Sched.addJoiner] using h.unflagged⟩
  · exact h.frame (modify_fibers_of_ne hfg) id

theorem Waits.foldl_wake {ps : List Fid} (h : s.Waits f u) (hps : f ∉ ps) :
    (ps.foldl Sched.wake s).Waits f u := by
  induction ps generalizing s with
  | nil => exact h
  | cons p ps ih =>
    obtain ⟨hfp, hps⟩ := not_or.mp (mt List.mem_cons.mpr hps)
    exact ih (h.wake hfp) hps

/-! ## Runnable fibers -/

theorem Runnable.frame (h : s.Runnable f) (hfib : t.fibers f = s.fibers f)
    (hact : s.active = some f → t.active = some f) : t.Runnable f :=
  h.imp (fun hready => hfib ▸ hready) hact

theorem Runnable.park (h : s.Runnable f) (hne : f ≠ g) (hg : s.active = some g) {st : FiberState}
    : (s.park g st u).Runnable f :=
  h.frame (park_fibers_of_ne hne) fun hf => absurd (Option.some.inj (hg.symm.trans hf)) hne.symm

theorem runnable_wake (s : Sched) (f : Fid) : (s.wake f).Runnable f :=
  .inl (by rw [wake_fibers_self])

theorem Runnable.wake (h : s.Runnable f) : (s.wake g).Runnable f := by
  by_cases hfg : f = g
  · exact hfg ▸ runnable_wake s f
  · exact h.frame (wake_fibers_of_ne hfg) id

theorem Runnable.foldl_wake {ps : List Fid} (h : s.Runnable f) :
    (ps.foldl Sched.wake s).Runnable f := by
  induction ps generalizing s with
  | nil => exact h
  | cons p ps ih => exact ih h.wake

theorem Runnable.addJoiner (h : s.Runnable f) {p : Fid} : (s.addJoiner g p).Runnable f := by
  by_cases hfg : f = g
  · subst hfg
    exact h.imp (fun hready => by simpa [Sched.addJoiner] using hready) id
  · exact h.frame (modify_fibers_of_ne hfg) id

/-- After `fm_run` a fiber can run that was ready, or that has been moved. -/
theorem runnable_run {now : Nat}
    (hready : (s.fibers f).state = .ready ∨ f ∈ s.wqueue.takeWhile (s.due now)) :
    (s.moveTo now).resume.Runnable f := by
  have hmove : ((s.moveTo now).fibers f).state = .ready := by
    by_cases hmoved : f ∈ s.wqueue.takeWhile (s.due now)
    · simp [moveTo, hmoved]
    · simpa [moveTo, hmoved] using hready.resolve_right hmoved
  cases hrq : (s.moveTo now).rqueue with
  | nil => exact .inl (by rwa [resume, hrq])
  | cons g rest =>
    by_cases hfg : f = g
    · exact .inr (by simp [resume, hrq, hfg])
    · exact .inl (by simpa [resume, hrq, modify_fibers_of_ne hfg] using hmove)

/-- A runnable fiber stays so over the calls of the others. -/
theorem Runnable.step (h : s.Runnable f) (hlt : f < s.created)
    (hstep : s.step c = some t) (hact : s.active ≠ some f) : t.Runnable f := by
  have hready := h.resolve_right hact
  have hne {g : Fid} (hg : s.active = some g) : f ≠ g := fun heq => hact (heq ▸ hg)
  cases stepped_of_step hstep with
  | spawned => exact h.frame (by simp [create, Function.update_of_ne hlt.ne]) id
  | ran => exact runnable_run (.inl hready)
  | waited hg => exact h.park (hne hg) hg
  | yielded hg => exact h.park (hne hg) hg
  | joinedEnded hg => exact (h.park (hne hg) hg).wake
  | joined hg => exact (h.park (hne hg) hg).addJoiner
  | woken => exact h.wake
  | interrupted =>
    rename_i g hg
    refine Runnable.wake (.inl ?_)
    by_cases hfg : f = g
    · simpa [flag, hfg] using hfg ▸ hready
    · simpa [flag, modify_fibers_of_ne hfg] using hready
  | took hg => exact h.frame (modify_fibers_of_ne (hne hg)) id
  | finished hg =>
    refine Runnable.foldl_wake (.inl ?_)
    simpa [terminate, modify_fibers_of_ne (hne hg)] using hready

/-! ## Waiting fibers -/

/-- Over `fm_run` a fiber goes on waiting until its time has come. -/
theorem Waits.run (h : s.Waits f u) (hinv : s.Inv) {now : Nat} (hnow : now < maxTime) :
    (s.moveTo now).resume.Waits f u ∨ u ≤ now ∧ (s.moveTo now).resume.Runnable f := by
  by_cases hu : u ≤ now
  · exact .inr ⟨hu, runnable_run (.inr (moved_of_due hinv h.mem (.inr (h.tp ▸ hu))))⟩
  have hnot : s.due now f = false := by
    simp [due, h.tp, h.state, h.unflagged]
    omega
  have hmoved : f ∉ s.wqueue.takeWhile (s.due now) := fun hmem => by
    simpa [hnot] using List.mem_takeWhile_imp hmem
  have hleft : f ∈ s.wqueue.dropWhile (s.due now) := by
    have hmem := h.mem
    rw [← List.takeWhile_append_dropWhile (p := s.due now) (l := s.wqueue),
      List.mem_append] at hmem
    exact hmem.resolve_left hmoved
  have hmove : (s.moveTo now).Waits f u := h.frame (by simp [moveTo, hmoved]) fun _ => hleft
  left
  cases hrq : (s.moveTo now).rqueue with
  | nil => rwa [resume, hrq]
  | cons g rest =>
    have hfg : f ≠ g := by
      rintro rfl
      have hready := (hinv.moveTo hnow).ready f (by simp [hrq])
      simp [hmove.state] at hready
    refine hmove.frame ?_ ?_
    · simp [resume, hrq, modify_fibers_of_ne hfg]
    · simp [resume, hrq]

/-- A fiber that waits goes on waiting, unless the call is to make it ready, or an
    `fm_run` after its time. -/
theorem Waits.step (h : s.Waits f u) (hinv : s.Inv) (hstep : s.step c = some t)
    (hready : c ≠ .setReady f) (hint : c ≠ .interrupt f)
    (hjoin : ∀ g, f ∉ (s.fibers g).waiting) :
    t.Waits f u ∨ ∃ now, c = .run now ∧ u ≤ now ∧ t.Runnable f := by
  have hact {g : Fid} (hg : s.active = some g) : f ≠ g := fun heq =>
    (hinv.not_mem_of_active hg).1 (heq ▸ h.mem)
  cases stepped_of_step hstep with
  | spawned =>
    have hlt : f < s.created := hinv.lt_created (by simp [places, h.mem])
    exact .inl (h.frame (by simp [create, Function.update_of_ne hlt.ne]) id)
  | ran hact hnow => exact (h.run hinv hnow).imp_right fun hrun => ⟨_, rfl, hrun⟩
  | waited hf => exact .inl (h.park (hact hf))
  | yielded hf => exact .inl (h.park (hact hf))
  | joinedEnded hf => exact .inl ((h.park (hact hf)).wake (hact hf))
  | joined hf => exact .inl (h.park (hact hf)).addJoiner
  | woken => exact .inl (h.wake fun heq => hready (heq ▸ rfl))
  | interrupted =>
    have hne : f ≠ _ := fun heq => hint (heq ▸ rfl)
    exact .inl ((h.frame (modify_fibers_of_ne hne) id).wake hne)
  | took hf => exact .inl (h.frame (modify_fibers_of_ne (hact hf)) id)
  | finished hf =>
    rename_i g
    have hended : (s.terminate g).Waits f u :=
      h.frame (by simp [terminate, modify_fibers_of_ne (hact hf)]) id
    exact .inl (hended.foldl_wake (hjoin g))

/-- A fiber that waits for `set_ready` alone. -/
theorem Waits.asleep (h : s.Waits f maxTime) (hinv : s.Inv) (hstep : s.step c = some t)
    (hready : c ≠ .setReady f) (hint : c ≠ .interrupt f)
    (hjoin : ∀ g, f ∉ (s.fibers g).waiting) : t.Waits f maxTime := by
  refine (h.step hinv hstep hready hint hjoin).resolve_right ?_
  rintro ⟨now, rfl, hle, -⟩
  cases stepped_of_step hstep with
  | ran _ hnow => exact absurd hnow (Nat.not_lt.mpr hle)

/-! ## Lives, joiners and flags -/

theorem places_foldl_wake (ps : List Fid) (s : Sched) : (ps.foldl wake s).places ~ s.places := by
  induction ps generalizing s with
  | nil => rfl
  | cons p ps ih => exact (ih (s.wake p)).trans (places_wake s p)

/-- A fiber stays in its places until it ends. -/
theorem mem_places_of_step (hf : f ∈ s.places) (hstep : s.step c = some t)
    (hfin : c = .finish → s.active ≠ some f) : f ∈ t.places := by
  cases stepped_of_step hstep with
  | spawned => exact (places_create s).mem_iff.mpr (List.mem_cons_of_mem _ hf)
  | ran hact =>
    rename_i now hnow
    exact ((places_resume (s := s.moveTo now) hact).trans (places_moveTo s now)).mem_iff.mpr hf
  | waited hg => exact (places_park hg _ _).mem_iff.mpr hf
  | yielded hg => exact (places_park hg _ _).mem_iff.mpr hf
  | joinedEnded hg => exact ((places_wake _ _).trans (places_park hg _ _)).mem_iff.mpr hf
  | joined hg => exact (places_park hg .waiting maxTime).mem_iff.mpr hf
  | woken => exact (places_wake _ _).mem_iff.mpr hf
  | interrupted =>
    rename_i g hg
    exact (places_wake (s.flag g true) g).mem_iff.mpr hf
  | took => exact hf
  | finished hg =>
    rw [(places_foldl_wake _ _).mem_iff]
    refine (List.mem_cons.mp ((places_terminate hg).mem_iff.mp hf)).resolve_left ?_
    rintro rfl
    exact hfin rfl hg

/-- No new joiners, and no new interruption. -/
structure Fewer (s t : Sched) (x : Fid) : Prop where
  flags : (s.fibers x).interruptionRequested = false → (t.fibers x).interruptionRequested = false
  joiners : (t.fibers x).waiting ⊆ (s.fibers x).waiting

theorem Fewer.trans {s₁ s₂ s₃ : Sched} {x : Fid} (h₁ : Fewer s₁ s₂ x) (h₂ : Fewer s₂ s₃ x) :
    Fewer s₁ s₃ x :=
  ⟨h₂.flags ∘ h₁.flags, fun _ hp => h₁.joiners (h₂.joiners hp)⟩

theorem fewer_of_eq {s t : Sched} {x : Fid} (h : t.fibers x = s.fibers x) : Fewer s t x :=
  ⟨fun hx => h ▸ hx, h ▸ List.Subset.refl _⟩

theorem fewer_of_modify {s t : Sched} {x : Fid} (w : WorkerFiber → WorkerFiber)
    (hfib : t.fibers = (s.modify f w).fibers)
    (hflag : (s.fibers f).interruptionRequested = false →
      (w (s.fibers f)).interruptionRequested = false)
    (hwait : (w (s.fibers f)).waiting ⊆ (s.fibers f).waiting) : Fewer s t x := by
  by_cases hx : x = f
  · subst hx
    exact ⟨fun h => by rw [hfib, modify_fibers_self]; exact hflag h,
      by rw [hfib, modify_fibers_self]; exact hwait⟩
  · exact fewer_of_eq (by rw [hfib, modify_fibers_of_ne hx])

theorem fewer_wake {x : Fid} : Fewer s (s.wake f) x :=
  fewer_of_modify (fun w => { w with state := .ready }) rfl id (List.Subset.refl _)

theorem fewer_park {x : Fid} {st : FiberState} : Fewer s (s.park f st u) x :=
  fewer_of_modify (fun w => { w with state := st, tp := u }) rfl id (List.Subset.refl _)

theorem fewer_foldl_wake {ps : List Fid} {x : Fid} : Fewer s (ps.foldl wake s) x := by
  induction ps generalizing s with
  | nil => exact fewer_of_eq rfl
  | cons p ps ih => exact fewer_wake.trans ih

theorem fewer_run {x : Fid} {now : Nat} : Fewer s (s.moveTo now).resume x := by
  have hmove : Fewer s (s.moveTo now) x := by
    by_cases hx : x ∈ s.wqueue.takeWhile (s.due now)
    · exact ⟨fun h => by simpa [moveTo, hx] using h, by simp [moveTo, hx]⟩
    · exact fewer_of_eq (by simp [moveTo, hx])
  refine hmove.trans ?_
  cases hrq : (s.moveTo now).rqueue with
  | nil => exact fewer_of_eq (by simp [resume, hrq])
  | cons g rest =>
    exact fewer_of_modify (f := g) (fun w => { w with state := .running })
      (by simp [resume, hrq]) id (List.Subset.refl _)

/-- Only `fm_join` by the active fiber adds a joiner, and only `interrupt` a flag. -/
theorem fewer_of_step (hstep : s.step c = some t) (hc : ∀ g, c ≠ .interrupt g) (x : Fid) :
    ((s.fibers x).interruptionRequested = false → (t.fibers x).interruptionRequested = false) ∧
      ∀ p ∈ (t.fibers x).waiting, p ∈ (s.fibers x).waiting ∨ s.active = some p := by
  have hfewer (h : Fewer s t x) := And.intro h.flags fun p hp =>
    Or.inl (b := s.active = some p) (h.joiners (a := p) hp)
  cases stepped_of_step hstep with
  | spawned =>
    refine hfewer ?_
    by_cases hx : x = s.created
    · exact ⟨fun _ => by simp [create, hx], by simp [create, hx]⟩
    · exact fewer_of_eq (by simp [create, Function.update_of_ne hx])
  | ran => exact hfewer fewer_run
  | waited => exact hfewer fewer_park
  | yielded => exact hfewer fewer_park
  | joinedEnded => exact hfewer (fewer_park.trans fewer_wake)
  | joined hf =>
    rename_i f g hgf hg hlive hflag
    have hpark : Fewer s (s.park f .waiting maxTime) x := fewer_park
    by_cases hx : x = g
    · subst hx
      refine ⟨fun h => by simpa [addJoiner] using hpark.flags h, fun p hp => ?_⟩
      simp only [addJoiner, modify_fibers_self, List.mem_append, List.mem_singleton] at hp
      rcases hp with hp | hp
      · exact .inl (hpark.joiners hp)
      · exact .inr (hp ▸ hf)
    · have heq : ((s.park f .waiting maxTime).addJoiner g f).fibers x
          = (s.park f .waiting maxTime).fibers x := modify_fibers_of_ne hx
      exact hfewer (hpark.trans (fewer_of_eq heq))
  | woken => exact hfewer fewer_wake
  | interrupted => exact absurd rfl (hc _)
  | took =>
    exact hfewer (fewer_of_modify (fun w => { w with interruptionRequested := false }) rfl
      (fun _ => rfl) (List.Subset.refl _))
  | finished =>
    refine hfewer (Fewer.trans ?_ fewer_foldl_wake)
    exact fewer_of_modify (fun w => { w with state := .terminated, waiting := [] }) rfl id
      (List.nil_subset _)

end Sched

end FiberProxy.Fiber
