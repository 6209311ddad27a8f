/-
  FiberProxy.Lib.Run

  Event-labelled transition systems given by a partial step function
  `step : σ → ε → Option σ` (`none`: the event is not enabled).  A run is a
  list of events; `run step s es` is the state it ends in, if every event was
  enabled.

  Two induction rules carry every proof about runs:

    * `run_inv` — a property one step keeps is kept by a whole run;
    * `run_induction` — a relation between the events so far and the state
      reached, extended by one event at the end.

  `Along step P s es` says that every step of the run meets `P`, a condition
  on the event and the state just before it; `run_inv_along` is `run_inv` for
  runs restricted that way.  `Throughout step Good s es` says that every state of
  the run meets `Good`; `throughout_iff_along` reduces that to a condition on the
  steps that is exact at each of them.
-/

import Mathlib.Data.List.Induction

namespace FiberProxy.Lib

variable {σ ε : Type*} {step : σ → ε → Option σ}

/-- The state reached by the events `es` from `s`. -/
def run (step : σ → ε → Option σ) : σ → List ε → Option σ
  | s, [] => some s
  | s, e :: es => (step s e).bind fun s' => run step s' es

@[simp] theorem run_nil (s : σ) : run step s [] = some s := rfl

@[simp] theorem run_cons (s : σ) (e : ε) (es : List ε) :
    run step s (e :: es) = (step s e).bind fun s' => run step s' es := rfl

theorem run_append (s : σ) (es fs : List ε) :
    run step s (es ++ fs) = (run step s es).bind fun s' => run step s' fs := by
  induction es generalizing s with
  | nil => rfl
  | cons e es ih =>
    simp only [List.cons_append, run_cons]
    cases step s e with
    | none => rfl
    | some s' => simpa using ih s'

/-- A run of one event more ends in a step from the state the shorter run
    reached. -/
theorem run_snoc_eq_some {s t : σ} {es : List ε} {e : ε} :
    run step s (es ++ [e]) = some t ↔ ∃ s', run step s es = some s' ∧ step s' e = some t := by
  rw [run_append, Option.bind_eq_some_iff]
  simp

theorem run_cons_eq_some {s t : σ} {e : ε} {es : List ε} :
    run step s (e :: es) = some t ↔ ∃ s', step s e = some s' ∧ run step s' es = some t := by
  rw [run_cons, Option.bind_eq_some_iff]

/-- **Invariant rule.** -/
theorem run_inv {Inv : σ → Prop}
    (hstep : ∀ s e s', Inv s → step s e = some s' → Inv s')
    {s t : σ} {es : List ε} (hs : Inv s) (hrun : run step s es = some t) : Inv t := by
  induction es generalizing s with
  | nil =>
    obtain rfl : s = t := by simpa using hrun
    exact hs
  | cons e es ih =>
    obtain ⟨s', he, hes⟩ := run_cons_eq_some.mp hrun
    exact ih (hstep s e s' hs he) hes

/-- **History rule.** `P es s` relates the events so far to the state reached;
    it is enough to extend it by one event. -/
theorem run_induction {P : List ε → σ → Prop} {s₀ : σ} (hnil : P [] s₀)
    (hsnoc : ∀ es s e s', run step s₀ es = some s → P es s → step s e = some s' →
      P (es ++ [e]) s')
    {es : List ε} {t : σ} (hrun : run step s₀ es = some t) : P es t := by
  induction es using List.reverseRecOn generalizing t with
  | nil =>
    obtain rfl : s₀ = t := by simpa using hrun
    exact hnil
  | append_singleton es e ih =>
    obtain ⟨s, hes, he⟩ := run_snoc_eq_some.mp hrun
    exact hsnoc es s e t hes (ih hes) he

/-! ## Runs whose steps meet a condition -/

/-- Every step of the run meets `P` in the state just before it. -/
def Along (step : σ → ε → Option σ) (P : σ → ε → Prop) : σ → List ε → Prop
  | _, [] => True
  | s, e :: es => P s e ∧ ∀ s', step s e = some s' → Along step P s' es

variable {P : σ → ε → Prop}

@[simp] theorem along_nil (s : σ) : Along step P s [] := trivial

theorem along_cons {s s' : σ} {e : ε} {es : List ε} (he : step s e = some s') :
    Along step P s (e :: es) ↔ P s e ∧ Along step P s' es := by
  simp [Along, he]

theorem along_append {s s' : σ} {es fs : List ε} (hes : run step s es = some s') :
    Along step P s (es ++ fs) ↔ Along step P s es ∧ Along step P s' fs := by
  induction es generalizing s with
  | nil =>
    obtain rfl : s = s' := by simpa using hes
    simp
  | cons e es ih =>
    obtain ⟨s₁, he, hes'⟩ := run_cons_eq_some.mp hes
    rw [List.cons_append, along_cons he, along_cons he, ih hes', and_assoc]

theorem along_of_forall {s : σ} {es : List ε} (h : ∀ e ∈ es, ∀ s, P s e) :
    Along step P s es := by
  induction es generalizing s with
  | nil => exact along_nil s
  | cons e es ih =>
    exact ⟨h e List.mem_cons_self s,
      fun _ _ => ih fun e' he' => h e' (List.mem_cons_of_mem _ he')⟩

instance decidableAlong [∀ s e, Decidable (P s e)] :
    ∀ (s : σ) (es : List ε), Decidable (Along step P s es)
  | _, [] => isTrue trivial
  | s, e :: es =>
    match h : step s e with
    | none => decidable_of_iff (P s e) (by simp [Along, h])
    | some s' =>
      have := decidableAlong s' es
      decidable_of_iff (P s e ∧ Along step P s' es) (along_cons h).symm

/-- The invariant rule for runs whose steps all meet `P`. -/
theorem run_inv_along {Inv : σ → Prop}
    (hstep : ∀ s e s', Inv s → P s e → step s e = some s' → Inv s')
    {s t : σ} {es : List ε} (hs : Inv s) (hP : Along step P s es)
    (hrun : run step s es = some t) : Inv t := by
  induction es generalizing s with
  | nil =>
    obtain rfl : s = t := by simpa using hrun
    exact hs
  | cons e es ih =>
    obtain ⟨s', he, hes⟩ := run_cons_eq_some.mp hrun
    obtain ⟨hPe, hPes⟩ := (along_cons he).mp hP
    exact ih (hstep s e s' hs hPe he) hPes hes

/-- The history rule for runs whose steps all meet `P`. -/
theorem run_induction_along {Q : List ε → σ → Prop} {s₀ : σ} (hnil : Q [] s₀)
    (hsnoc : ∀ es s e s', run step s₀ es = some s → Q es s → P s e → step s e = some s' →
      Q (es ++ [e]) s')
    {es : List ε} {t : σ} (hP : Along step P s₀ es) (hrun : run step s₀ es = some t) :
    Q es t := by
  induction es using List.reverseRecOn generalizing t with
  | nil =>
    obtain rfl : s₀ = t := by simpa using hrun
    exact hnil
  | append_singleton es e ih =>
    obtain ⟨s, hes, he⟩ := run_snoc_eq_some.mp hrun
    obtain ⟨hPes, hPe⟩ := (along_append hes).mp hP
    exact hsnoc es s e t hes (ih hPes hes) ((along_cons he).mp hPe).1 he

/-- Two conditions that agree on the steps from states with an invariant agree along
    a run. -/
theorem along_congr {Inv : σ → Prop} {Q : σ → ε → Prop}
    (hinv : ∀ s e s', Inv s → step s e = some s' → Inv s')
    (hiff : ∀ s e s', Inv s → step s e = some s' → (P s e ↔ Q s e))
    {s t : σ} {es : List ε} (hs : Inv s) (hrun : run step s es = some t) :
    Along step P s es ↔ Along step Q s es := by
  induction es generalizing s with
  | nil => simp
  | cons e es ih =>
    obtain ⟨s', he, hes⟩ := run_cons_eq_some.mp hrun
    rw [along_cons he, along_cons he, hiff s e s' hs he, ih (hinv s e s' hs he) hes]

/-- A condition that follows from `P` in the states with an invariant is met along a run
    that meets `P`. -/
theorem along_mono {I : σ → Prop} {Q : σ → ε → Prop}
    (hinv : ∀ s e s', I s → P s e → step s e = some s' → I s')
    (himp : ∀ s e s', I s → P s e → step s e = some s' → Q s e)
    {s t : σ} {es : List ε} (hs : I s) (hP : Along step P s es)
    (hrun : run step s es = some t) : Along step Q s es := by
  induction es generalizing s with
  | nil => exact along_nil s
  | cons e es ih =>
    obtain ⟨s', he, hes⟩ := run_cons_eq_some.mp hrun
    obtain ⟨hPe, hPes⟩ := (along_cons he).mp hP
    exact (along_cons he).mpr ⟨himp s e s' hs hPe he, ih (hinv s e s' hs hPe he) hPes hes⟩

/-- If a step that breaks `Q` leaves a mark, and the mark stays, then a run that ends
    without it has met `Q` at every step. -/
theorem along_of_unmarked {Inv M : σ → Prop} {Q : σ → ε → Prop}
    (hinv : ∀ s e s', Inv s → P s e → step s e = some s' → Inv s')
    (hmark : ∀ s e s', M s → step s e = some s' → M s')
    (hbreak : ∀ s e s', Inv s → P s e → step s e = some s' → ¬ Q s e → M s')
    {s t : σ} {es : List ε} (hs : Inv s) (hP : Along step P s es)
    (hrun : run step s es = some t) (ht : ¬ M t) : Along step Q s es := by
  induction es generalizing s with
  | nil => exact along_nil s
  | cons e es ih =>
    obtain ⟨s', he, hes⟩ := run_cons_eq_some.mp hrun
    obtain ⟨hPe, hPes⟩ := (along_cons he).mp hP
    refine (along_cons he).mpr ⟨?_, ih (hinv s e s' hs hPe he) hPes hes⟩
    by_contra hQ
    exact ht (run_inv hmark (hbreak s e s' hs hPe he hQ) hes)

/-! ## Every state of a run -/

/-- Every state of the run, the first and the last included, meets `Good`. -/
def Throughout (step : σ → ε → Option σ) (Good : σ → Prop) (s : σ) (es : List ε) : Prop :=
  ∀ w t, w <+: es → run step s w = some t → Good t

theorem throughout_nil {Good : σ → Prop} {s : σ} : Throughout step Good s [] ↔ Good s := by
  constructor
  · intro h
    exact h [] s (List.prefix_refl _) rfl
  · intro h w t hw hrun
    obtain rfl := List.prefix_nil.mp hw
    obtain rfl : s = t := by simpa using hrun
    exact h

theorem throughout_cons {Good : σ → Prop} {s s' : σ} {e : ε} {es : List ε}
    (he : step s e = some s') :
    Throughout step Good s (e :: es) ↔ Good s ∧ Throughout step Good s' es := by
  constructor
  · intro h
    refine ⟨h [] s (List.nil_prefix) rfl, fun w t hw hrun => ?_⟩
    exact h (e :: w) t ((List.prefix_cons_inj e).mpr hw) (run_cons_eq_some.mpr ⟨s', he, hrun⟩)
  · rintro ⟨hs, h⟩ w t hw hrun
    rcases List.prefix_cons_iff.mp hw with rfl | ⟨w, rfl, hwes⟩
    · obtain rfl : s = t := by simpa using hrun
      exact hs
    · obtain ⟨s₁, he₁, hw₁⟩ := run_cons_eq_some.mp hrun
      obtain rfl : s' = s₁ := Option.some.inj (he.symm.trans he₁)
      exact h w t hwes hw₁

/-- **Exactness rule.** Where `P` says of each step whether it keeps `Good`, a run stays
    in `Good` exactly when its steps meet `P`.  Only the events of the run matter. -/
theorem throughout_iff_along_of_mem {Inv Good : σ → Prop} {s t : σ} {es : List ε}
    (hinv : ∀ s, ∀ e ∈ es, ∀ s', Inv s → step s e = some s' → Inv s')
    (hiff : ∀ s, ∀ e ∈ es, ∀ s', Inv s → Good s → step s e = some s' → (Good s' ↔ P s e))
    (hs : Inv s) (hgood : Good s) (hrun : run step s es = some t) :
    Throughout step Good s es ↔ Along step P s es := by
  induction es generalizing s with
  | nil => simp [throughout_nil, hgood]
  | cons e es ih =>
    obtain ⟨s', he, hes⟩ := run_cons_eq_some.mp hrun
    have hs' := hinv s e List.mem_cons_self s' hs he
    have hrest (hgood' : Good s') : Throughout step Good s' es ↔ Along step P s' es :=
      ih (fun s e he => hinv s e (List.mem_cons_of_mem _ he))
        (fun s e he => hiff s e (List.mem_cons_of_mem _ he)) hs' hgood' hes
    rw [throughout_cons he, along_cons he, ← hiff s e List.mem_cons_self s' hs hgood he]
    constructor
    · rintro ⟨-, h⟩
      -- the first state of the rest is good, so `P` is exact there too
      have hgood' : Good s' := h [] s' List.nil_prefix rfl
      exact ⟨hgood', (hrest hgood').mp h⟩
    · rintro ⟨hgood', h⟩
      exact ⟨hgood, (hrest hgood').mpr h⟩

/-- The exactness rule, where every event is handled alike. -/
theorem throughout_iff_along {Inv Good : σ → Prop}
    (hinv : ∀ s e s', Inv s → step s e = some s' → Inv s')
    (hiff : ∀ s e s', Inv s → Good s → step s e = some s' → (Good s' ↔ P s e))
    {s t : σ} {es : List ε} (hs : Inv s) (hgood : Good s) (hrun : run step s es = some t) :
    Throughout step Good s es ↔ Along step P s es :=
  throughout_iff_along_of_mem (fun s e _ => hinv s e) (fun s e _ => hiff s e) hs hgood hrun

/-! ## Properties that a run loses -/

/-- **Exit rule.** A property that holds at first and not at last is lost in some step. -/
theorem run_exit {K : σ → Prop} {s t : σ} {es : List ε} (hrun : run step s es = some t)
    (hs : K s) (ht : ¬ K t) :
    ∃ w e rest u v, es = w ++ e :: rest ∧ run step s w = some u ∧ step u e = some v ∧
      K u ∧ ¬ K v := by
  induction es generalizing s with
  | nil =>
    obtain rfl : s = t := by simpa using hrun
    exact absurd hs ht
  | cons e es ih =>
    obtain ⟨s', he, hes⟩ := run_cons_eq_some.mp hrun
    by_cases hs' : K s'
    · obtain ⟨w, e', rest, u, v, rfl, hw, he', hu, hv⟩ := ih hes hs'
      exact ⟨e :: w, e', rest, u, v, rfl, run_cons_eq_some.mpr ⟨s', he, hw⟩, he', hu, hv⟩
    · exact ⟨[], e, es, s, s', rfl, rfl, he, hs, hs'⟩

end FiberProxy.Lib
