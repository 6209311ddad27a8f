/-
  FiberProxy.Client.Connecting

  `ClientSession::async_connect` with its deadline (`forward-manager/FibpClient.cpp`):
  the name is resolved, the deadline is set, and the fiber waits until the socket is
  connected to one of the endpoints.  The function remembers in `ret` whether that
  worked, but returns `ec`.  The two disagree when `resolve` throws, and when the
  deadline closes the socket after the connect has completed and before the fiber
  goes on (`reports_iff`).

  An event is what one handler of the `io_service` does, or what the fiber does until it
  waits again.  Which of them runs next is left open.
-/

import FiberProxy.Lib.Run

namespace FiberProxy.Client.Connecting

open Lib

/-- The codes that `ba::async_connect` can give. -/
inductive ConnectError where
  /-- `operation_aborted`. -/
  | aborted
  /-- `not_found`: there is no endpoint. -/
  | notFound
  /-- An error of the system, for the endpoint tried last. -/
  | system (code : Nat)
deriving DecidableEq, Repr

inductive Phase where
  | idle
  /-- A connect is under way; so many endpoints are left after it. -/
  | connecting (left : Nat)
  /-- There is no endpoint; the handler with `not_found` is posted. -/
  | posted
  /-- The handler has run and the fiber is ready. -/
  | ready
  | returned (ec : Option ConnectError)
deriving DecidableEq, Repr

/-- `ClientSession`, and the local `ec`. -/
structure State where
  phase : Phase := .idle
  /-- `socket_.is_open()`, and whether it is connected. -/
  isOpen : Bool := false
  connected : Bool := false
  /-- `connecting_`. -/
  connecting : Bool := false
  /-- `deadline_` is not at `pos_infin`. -/
  armed : Bool := false
  connTo : Nat := 5000
  ec : Option ConnectError := none
deriving DecidableEq, Repr

inductive Event where
  /-- `async_connect` is called; `resolve` gives so many endpoints, or throws. -/
  | call (resolution : Option Nat)
  /-- The connect to one endpoint has completed, and its handler runs. -/
  | completed (ec : Option ConnectError)
  /-- The posted handler runs. -/
  | notFound
  /-- `check_deadline` is called with no error. -/
  | deadline
  /-- `check_deadline` is called with `operation_aborted`. -/
  | waitAborted
  /-- The fiber goes on. -/
  | resume
deriving DecidableEq, Repr

/-! ## The session -/

def State.prepareTimeout (s : State) : State :=
  if s.connTo = 0 then s else { s with armed := true }

def State.clearTimeout (s : State) : State := { s with armed := false }

/-- `shutdown(true)`: the socket is closed, also when shutting it down throws. -/
def State.shutdown (s : State) : State :=
  { s.clearTimeout with isOpen := false, connected := false }

/-- The next endpoint: the socket is closed, opened and connected anew. -/
def State.tryEndpoint (s : State) (left : Nat) : State :=
  { s with phase := .connecting left, isOpen := true, connected := false }

/-- The handler of `yield` stores the code and makes the fiber ready. -/
def State.complete (s : State) (ec : Option ConnectError) : State :=
  { s with phase := .ready, ec := ec }

/-- The handler of `ba::async_connect` for one endpoint. -/
def State.endpointDone (s : State) (left : Nat) (ec : Option ConnectError) : State :=
  if s.isOpen then
    match ec with
    | none => { s.complete none with connected := true }
    | some e =>
      match left with
      | 0 => s.complete (some e)
      | left + 1 => s.tryEndpoint left
  else s.complete (some .aborted)

/-- `check_deadline` with no error.  On a closed socket `cancel` throws. -/
def State.checkDeadline (s : State) : State :=
  if s.armed && s.isOpen then s.shutdown else s

/-- The end of `async_connect`. -/
def State.finish (s : State) (ret : Bool) : State :=
  { (if ret then s.clearTimeout else s.clearTimeout.shutdown) with
    connecting := false, phase := .returned s.ec }

/-- `async_connect` up to its wait. -/
def State.asyncConnect (s : State) (resolution : Option Nat) : State :=
  let s := { s with connecting := true, ec := none }
  match resolution with
  | none => s.finish false
  | some 0 => { s.prepareTimeout with phase := .posted }
  | some (left + 1) => s.prepareTimeout.tryEndpoint left

def step (s : State) (e : Event) : Option State :=
  match s.phase, e with
  | .idle, .call resolution => some (s.asyncConnect resolution)
  | .connecting left, .completed ec => some (s.endpointDone left ec)
  | .posted, .notFound => some (s.complete (some .notFound))
  | .ready, .resume => some (s.finish (s.isOpen && s.ec.isNone))
  | .returned _, _ | .idle, _ => none
  | _, .deadline => some s.checkDeadline
  | _, .waitAborted => some s.clearTimeout
  | _, _ => none

/-- The call is under way. -/
def Phase.Waiting : Phase → Prop
  | .connecting _ | .posted | .ready => True
  | .idle | .returned _ => False

/-- The steps, one by one. -/
inductive StepsTo (s : State) : Event → State → Prop where
  | call (h : s.phase = .idle) (resolution : Option Nat) :
      StepsTo s (.call resolution) (s.asyncConnect resolution)
  | completed {left : Nat} (h : s.phase = .connecting left) (ec : Option ConnectError) :
      StepsTo s (.completed ec) (s.endpointDone left ec)
  | notFound (h : s.phase = .posted) : StepsTo s .notFound (s.complete (some .notFound))
  | resume (h : s.phase = .ready) : StepsTo s .resume (s.finish (s.isOpen && s.ec.isNone))
  | deadline (h : s.phase.Waiting) : StepsTo s .deadline s.checkDeadline
  | waitAborted (h : s.phase.Waiting) : StepsTo s .waitAborted s.clearTimeout

theorem stepsTo_of_step {s s' : State} {e : Event} (h : step s e = some s') : StepsTo s e s' := by
  cases e with
  | call resolution =>
    cases hphase : s.phase <;> simp only [step, hphase, reduceCtorEq] at h
    cases h
    exact .call hphase resolution
  | completed ec =>
    cases hphase : s.phase <;> simp only [step, hphase, reduceCtorEq] at h
    cases h
    exact .completed hphase ec
  | notFound =>
    cases hphase : s.phase <;> simp only [step, hphase, reduceCtorEq] at h
    cases h
    exact .notFound hphase
  | resume =>
    cases hphase : s.phase <;> simp only [step, hphase, reduceCtorEq] at h
    cases h
    exact .resume hphase
  | deadline =>
    have hwaiting : s.phase.Waiting := by
      cases hphase : s.phase <;> simp only [step, hphase, reduceCtorEq] at h <;> trivial
    cases hphase : s.phase <;> simp only [step, hphase, reduceCtorEq] at h <;> cases h <;>
      exact .deadline hwaiting
  | waitAborted =>
    have hwaiting : s.phase.Waiting := by
      cases hphase : s.phase <;> simp only [step, hphase, reduceCtorEq] at h <;> trivial
    cases hphase : s.phase <;> simp only [step, hphase, reduceCtorEq] at h <;> cases h <;>
      exact .waitAborted hwaiting

/-! ## What it reports -/

/-- The name can be resolved, and the deadline does not strike between a successful connect
    and the fiber that waits for it. -/
def Undisturbed (s : State) : Event → Prop
  | .call resolution => resolution ≠ none
  | .deadline => ¬ (s.phase = .ready ∧ s.ec = none ∧ s.armed = true)
  | _ => True

/-- Where a call stands; `A` says that nothing has disturbed it. -/
def Inv (A : Prop) (s : State) : Prop :=
  match s.phase with
  | .idle | .connecting _ | .posted => A
  | .ready => (s.ec ≠ none → A) ∧ (s.ec = none → s.connected = s.isOpen ∧ (s.isOpen = true ↔ A))
  | .returned ec =>
    s.connecting = false ∧ s.armed = false ∧
      ((ec = none ↔ s.isOpen = true ∧ s.connected = true) ↔ A)

section Inv

variable {A B : Prop} {s s' : State}

theorem Inv.congr (hAB : A ↔ B) (h : Inv A s) : Inv B s := by
  rwa [← propext hAB]

/-- `shutdown(true)` before the return: the code has to be an error. -/
theorem inv_finish_false (h : s.ec ≠ none ↔ A) : Inv A (s.finish false) := by
  refine ⟨rfl, rfl, ?_⟩
  rw [← h]
  simp [State.finish, State.shutdown]

theorem inv_finish_true (hec : s.ec = none) (hopen : s.isOpen = true) (hconn : s.connected = true)
    (hA : A) : Inv A (s.finish true) := by
  refine ⟨rfl, rfl, iff_of_true ?_ hA⟩
  simp [State.finish, State.clearTimeout, hec, hopen, hconn]

theorem inv_asyncConnect (hA : A) (resolution : Option Nat) :
    Inv (A ∧ resolution ≠ none) (s.asyncConnect resolution) := by
  cases resolution with
  | none => exact inv_finish_false (by simp)
  | some endpoints =>
    cases endpoints with
    | zero => exact ⟨hA, by simp⟩
    | succ left => exact ⟨hA, by simp⟩

theorem inv_complete_error (hA : A) (e : ConnectError) : Inv A (s.complete (some e)) :=
  ⟨fun _ => hA, by rintro ⟨⟩⟩

theorem inv_endpointDone (hA : A) (left : Nat) (ec : Option ConnectError) :
    Inv A (s.endpointDone left ec) := by
  unfold State.endpointDone
  split
  · rename_i hopen
    cases ec with
    | none => exact ⟨fun h => absurd rfl h, fun _ => ⟨hopen.symm, iff_of_true hopen hA⟩⟩
    | some e =>
      cases left with
      | zero => exact inv_complete_error hA e
      | succ left => exact hA
  · exact inv_complete_error hA .aborted

theorem inv_resume (hphase : s.phase = .ready) (h : Inv A s) :
    Inv A (s.finish (s.isOpen && s.ec.isNone)) := by
  simp only [Inv, hphase] at h
  cases hec : s.ec with
  | some e =>
    rw [Option.isNone_some, Bool.and_false]
    exact inv_finish_false (iff_of_true (by simp [hec]) (h.1 (by simp [hec])))
  | none =>
    obtain ⟨hconn, hA⟩ := h.2 hec
    rw [Option.isNone_none, Bool.and_true]
    cases hopen : s.isOpen with
    | true => exact inv_finish_true hec hopen (hconn.trans hopen) (hA.mp hopen)
    | false => exact inv_finish_false (iff_of_false (by simp [hec]) (by simp [← hA, hopen]))

/-- The deadline harms a call that is ready and successful; before that the call itself
    sees that the socket is closed. -/
theorem inv_checkDeadline (hphase : s.phase.Waiting) (h : Inv A s) :
    Inv (A ∧ Undisturbed s .deadline) s.checkDeadline := by
  have hkeep : s.checkDeadline.phase = s.phase ∧ s.checkDeadline.ec = s.ec := by
    unfold State.checkDeadline
    split <;> exact ⟨rfl, rfl⟩
  unfold Inv at h ⊢
  rw [hkeep.1, hkeep.2]
  cases hp : s.phase with
  | idle => simp [hp, Phase.Waiting] at hphase
  | returned ec => simp [hp, Phase.Waiting] at hphase
  | connecting left =>
    rw [hp] at h
    exact ⟨h, by simp [Undisturbed, hp]⟩
  | posted =>
    rw [hp] at h
    exact ⟨h, by simp [Undisturbed, hp]⟩
  | ready =>
    rw [hp] at h
    refine ⟨fun hec => ⟨h.1 hec, by simp [Undisturbed, hec]⟩, fun hec => ?_⟩
    obtain ⟨hconn, hA⟩ := h.2 hec
    cases harmed : s.armed with
    | false => simpa [State.checkDeadline, Undisturbed, harmed] using ⟨hconn, hA⟩
    | true =>
      cases hopen : s.isOpen with
      | true => simp [State.checkDeadline, State.shutdown, Undisturbed, harmed, hopen, hp, hec]
      | false =>
        rw [hopen] at hconn
        simp [State.checkDeadline, Undisturbed, harmed, hopen, hp, hec, hconn]

theorem inv_clearTimeout (hphase : s.phase.Waiting) (h : Inv A s) : Inv A s.clearTimeout := by
  unfold Inv State.clearTimeout at *
  cases hp : s.phase with
  | idle => simp [hp, Phase.Waiting] at hphase
  | returned ec => simp [hp, Phase.Waiting] at hphase
  | connecting left => simpa only [hp] using h
  | posted => simpa only [hp] using h
  | ready => simpa only [hp] using h

theorem inv_step {e : Event} (h : Inv A s) (hstep : step s e = some s') :
    Inv (A ∧ Undisturbed s e) s' := by
  cases stepsTo_of_step hstep with
  | call hphase resolution =>
    simp only [Inv, hphase] at h
    exact inv_asyncConnect h resolution
  | completed hphase ec =>
    simp only [Inv, hphase] at h
    exact inv_endpointDone ⟨h, trivial⟩ _ ec
  | notFound hphase =>
    simp only [Inv, hphase] at h
    exact inv_complete_error ⟨h, trivial⟩ .notFound
  | resume hphase => exact (inv_resume hphase h).congr (and_iff_left trivial).symm
  | deadline hphase => exact inv_checkDeadline hphase h
  | waitAborted hphase => exact (inv_clearTimeout hphase h).congr (and_iff_left trivial).symm

theorem inv_run {s₀ : State} {es : List Event} (hidle : s₀.phase = .idle)
    (hrun : run step s₀ es = some s) : Inv (Along step Undisturbed s₀ es) s := by
  refine run_induction (P := fun es s => Inv (Along step Undisturbed s₀ es) s) ?_ ?_ hrun
  · simp only [Inv, hidle]
    trivial
  · intro es s e s' hrun ih hstep
    refine (inv_step ih hstep).congr ?_
    rw [along_append hrun, along_cons hstep, and_iff_left (along_nil s')]

end Inv

/-- **What a call reports.** Whatever the resolution, the connects and the deadline do: when
    the call returns, `connecting_` is false and the deadline is cleared; and the code is
    empty exactly for an open and connected socket if and only if nothing disturbed the
    call. -/
theorem reports_iff {s₀ s : State} {es : List Event} {ec : Option ConnectError}
    (hidle : s₀.phase = .idle) (hrun : run step s₀ es = some s)
    (hreturned : s.phase = .returned ec) :
    s.connecting = false ∧ s.armed = false ∧
      ((ec = none ↔ s.isOpen = true ∧ s.connected = true) ↔
        Along step Undisturbed s₀ es) := by
  have h := inv_run hidle hrun
  simpa only [Inv, hreturned] using h

/-- The first endpoint refuses, the second one accepts. -/
def secondAccepts : List Event :=
  [Event.call (some 2), .completed (some (.system 111)), .completed none, .resume]

theorem reports_connected : ∃ s, run step {} secondAccepts = some s ∧
    s.phase = .returned none ∧ s.connecting = false ∧ s.armed = false ∧
    ((none : Option ConnectError) = none ↔ s.isOpen = true ∧ s.connected = true) := by
  have hrun : run step {} secondAccepts =
      some { phase := .returned none, isOpen := true, connected := true } := rfl
  obtain ⟨hconnecting, harmed, hiff⟩ := reports_iff rfl hrun rfl
  refine ⟨_, hrun, rfl, hconnecting, harmed, hiff.mpr ?_⟩
  simp [secondAccepts, Along, Undisturbed]

/-- The name cannot be resolved: an empty code, and a closed socket. -/
theorem resolve_throws_reported :
    run step {} [.call none] =
      some { phase := .returned none, isOpen := false, connected := false } := rfl

/-- The deadline strikes after the connect and before the fiber goes on: the same. -/
example : (run step {} [.call (some 1), .completed none, .deadline, .resume]).map
    (fun s => (s.phase, s.isOpen)) = some (.returned none, false) := rfl

end FiberProxy.Client.Connecting
