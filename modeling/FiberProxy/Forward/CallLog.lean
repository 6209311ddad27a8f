/-
  FiberProxy.Forward.CallLog

  What a multi-service call leaves in its log slot.  `call_single_service` tells the
  logger when an attempt starts, when it is answered and how it failed; the logger
  finds the attempt by the number of the whole call and the name of the service, as the
  last entry there is for that name.

  An attempt that could not be sent gets no end time, and the answers of two calls of
  one name that overlap are written to one entry.  Without either, every entry is that
  of its own attempt and its latency is real (`latencies_real`).  The log takes nothing
  from the call: the runs with it and without it are the same (`logged_iff`).
-/

import FiberProxy.Forward.FanIn
import FiberProxy.Log.LogRing

namespace FiberProxy.Forward

open Lib
open Log (LogOp RequestData Requests record updateBack pushBack)

/-- What a step of a call tells the logger; `now` and `later` are what the clock says. -/
def logOps (req : ServiceCallReq) (now later : Nat) : CallEvent → List LogOp
  | .enter =>
    if req.serviceName = ascii "local_test" then
      [.request req.serviceName (ascii "127.0.0.1") (ascii "0") now,
        .reply req.serviceName later]
    else []
  | .address none => []
  | .address (some (ip, port)) => [.request req.serviceName ip port now]
  | .sent ok => if ok then [] else [.failed req.serviceName (ascii "Send Data Failed.")]
  | .answered ok rspdata _ =>
    .reply req.serviceName now :: if ok then [] else [.failed req.serviceName rspdata]
  | .cached _ => []

/-- What the step of the machine tells the logger. -/
def Event.logOps (c : ServicesCall) (now later : Nat) : Event → List LogOp
  | .call i e =>
    match c.reqs[i]? with
    | some req => Forward.logOps req now later e
    | none => []
  | _ => []

theorem logOps_of_ofCall {c : ServicesCall} {now later : Nat} {e : Event}
    (h : ∀ i, e.ofCall i = none) : e.logOps c now later = [] := by
  cases e with
  | call i ev => simp [Event.ofCall] at h
  | _ => rfl

/-! ## Attempts -/

/-- An attempt of the `call`-th call, with what belongs into its entry. -/
structure Attempt where
  call : Nat
  data : RequestData
deriving DecidableEq, Repr

/-- The last attempt of the `i`-th call is changed. -/
def modifyOwn (i : Nat) (f : RequestData → RequestData) : List Attempt → List Attempt
  | [] => []
  | a :: as =>
    if as.any (·.call == i) then a :: modifyOwn i f as
    else if a.call = i then { a with data := f a.data } :: as
    else a :: as

/-- What the operation of the `i`-th call is about: a new attempt, or its last one. -/
def attemptsAfter (i : Nat) (attempts : Bytes → List Attempt) : LogOp → Bytes → List Attempt
  | .request name host port now =>
    Function.update attempts name
      (attempts name ++ [⟨i, { startTime := now, hostPort := host ++ ascii ":" ++ port }⟩])
  | .reply name now =>
    Function.update attempts name
      (modifyOwn i (fun d => { d with endTime := now }) (attempts name))
  | .failed name msg =>
    Function.update attempts name
      (modifyOwn i (fun d => { d with failedMsg := msg }) (attempts name))

/-- The call whose step it is. -/
def Event.callIndex : Event → Nat
  | .call i _ => i
  | _ => 0

/-! ## The call and its log -/

/-- The call, the clock, the entries of its slot, and the attempts made. -/
structure Logged where
  fan : Fan
  clock : Nat := 0
  requests : Requests := fun _ => []
  attempts : Bytes → List Attempt := fun _ => []

/-- A step, with what the clock says at its first and its last look. -/
structure Tick where
  event : Event
  now : Nat
  later : Nat
deriving DecidableEq, Repr

section Step

variable (mgr : ForwardManager) (mem : LiteralMemory) (c : ServicesCall)

/-- One step of the call, with the log; the clock does not go back. -/
def loggedStep (s : Logged) (e : Tick) : Option Logged :=
  if s.clock ≤ e.now ∧ e.now ≤ e.later then
    (step mgr mem c s.fan e.event).bind fun fan =>
      (run record s.requests (e.event.logOps c e.now e.later)).map fun requests =>
        { fan := fan
          clock := e.later
          requests := requests
          attempts := (e.event.logOps c e.now e.later).foldl
            (attemptsAfter e.event.callIndex) s.attempts }
  else none

/-- The call is posted, with an empty slot. -/
def Logged.start (pool : FiberPool Unit) : Logged where
  fan := .start c pool

/-- Every entry ends no earlier than it starts, and says what belongs to its own attempt. -/
def Logged.Real (s : Logged) : Prop :=
  (∀ name, ∀ d ∈ s.requests name, d.startTime ≤ d.endTime) ∧
    ∀ name, s.requests name = (s.attempts name).map Attempt.data

/-- An attempt is under way: its entry is there, and its answer is not. -/
def CallPhase.attempting : CallPhase → Bool
  | .sending _ | .waiting _ => true
  | _ => false

/-- The `j`-th call has an attempt under way, for the service `name`. -/
def Attempting (calls : List CallState) (j : Nat) (name : Bytes) : Prop :=
  ∃ req call, c.reqs[j]? = some req ∧ calls[j]? = some call ∧ req.serviceName = name ∧
    call.phase.attempting = true

/-- No send fails, and an attempt starts only while no other call of the same service has
    one under way. -/
def Separate (s : Logged) (e : Tick) : Prop :=
  match e.event with
  | .call _ (.sent false) => False
  | .call i (.address (some _)) =>
    ∀ req, c.reqs[i]? = some req → ∀ j ≠ i, ¬ Attempting c s.fan.calls j req.serviceName
  | _ => True

instance (calls : List CallState) (j : Nat) (name : Bytes) :
    Decidable (Attempting c calls j name) :=
  decidable_of_iff (∃ req ∈ c.reqs[j]?, ∃ call ∈ calls[j]?, req.serviceName = name ∧
    call.phase.attempting = true) (by simp [Attempting])

/-- Only the calls of the list can have an attempt under way. -/
theorem separate_iff_lt {calls : List CallState} {i : Nat} :
    (∀ req ∈ c.reqs[i]?, ∀ j < c.reqs.length, j ≠ i → ¬ Attempting c calls j req.serviceName) ↔
      ∀ req, c.reqs[i]? = some req → ∀ j ≠ i, ¬ Attempting c calls j req.serviceName := by
  refine forall₂_congr fun req _ => ⟨fun h j hj hatt => ?_, fun h j _ hj => h j hj⟩
  obtain ⟨_, _, hreq, -⟩ := id hatt
  exact h j (List.getElem?_eq_some_iff.mp hreq).1 hj hatt

instance (s : Logged) (e : Tick) : Decidable (Separate c s e) := by
  unfold Separate
  split
  · infer_instance
  · exact decidable_of_iff _ (separate_iff_lt c)
  · infer_instance

end Step

/-! ## Lists of attempts -/

theorem modifyOwn_snoc (i : Nat) (f : RequestData → RequestData) (as : List Attempt)
    (d : RequestData) : modifyOwn i f (as ++ [⟨i, d⟩]) = as ++ [⟨i, f d⟩] := by
  induction as with
  | nil => simp [modifyOwn]
  | cons a as ih =>
    rw [List.cons_append, modifyOwn, if_pos (by simp), ih]
    rfl

theorem updateBack_snoc {r : Requests} {name : Bytes} {ds : List RequestData} {d : RequestData}
    (h : r name = ds ++ [d]) (f : RequestData → RequestData) :
    updateBack r name f = some (Function.update r name (ds ++ [f d])) := by
  simp [updateBack, h]

/-- What an answer adds to the entry of its attempt. -/
def answer (now : Nat) (ok : Bool) (rspdata : Bytes) (d : RequestData) : RequestData :=
  { d with endTime := now, failedMsg := if ok then d.failedMsg else rspdata }

section Answer

variable {req : ServiceCallReq} {now later : Nat} {ok canRetry : Bool} {rspdata : Bytes}

theorem run_record_answered {r : Requests} {ds : List RequestData} {d : RequestData}
    (h : r req.serviceName = ds ++ [d]) :
    run record r (logOps req now later (.answered ok rspdata canRetry)) =
      some (Function.update r req.serviceName (ds ++ [answer now ok rspdata d])) := by
  cases ok with
  | true => simp [logOps, record, updateBack_snoc h, answer]
  | false =>
    simp [logOps, record, updateBack_snoc h, updateBack_snoc (Function.update_self ..), answer]

theorem attempts_answered {attempts : Bytes → List Attempt} {i : Nat} {as : List Attempt}
    {d : RequestData} (h : attempts req.serviceName = as ++ [⟨i, d⟩]) :
    (logOps req now later (.answered ok rspdata canRetry)).foldl (attemptsAfter i) attempts =
      Function.update attempts req.serviceName (as ++ [⟨i, answer now ok rspdata d⟩]) := by
  cases ok with
  | true => simp [logOps, attemptsAfter, h, modifyOwn_snoc, answer]
  | false => simp [logOps, attemptsAfter, h, modifyOwn_snoc, answer]

end Answer

/-- The one entry of a `local_test` call. -/
def localEntry (now later : Nat) : RequestData :=
  { startTime := now, endTime := later, hostPort := ascii "127.0.0.1" ++ ascii ":" ++ ascii "0" }

section LocalTest

variable {req : ServiceCallReq} {now later : Nat}

theorem run_record_localTest (hn : req.serviceName = ascii "local_test") (r : Requests) :
    run record r (logOps req now later .enter) =
      some (Function.update r req.serviceName (r req.serviceName ++ [localEntry now later])) := by
  simp [logOps, if_pos hn, record, pushBack, updateBack_snoc (Function.update_self ..), localEntry]

theorem attempts_localTest (hn : req.serviceName = ascii "local_test")
    (attempts : Bytes → List Attempt) (i : Nat) :
    (logOps req now later .enter).foldl (attemptsAfter i) attempts =
      Function.update attempts req.serviceName
        (attempts req.serviceName ++ [⟨i, localEntry now later⟩]) := by
  simp [logOps, if_pos hn, attemptsAfter, modifyOwn_snoc, localEntry]

end LocalTest

/-! ## The invariant -/

/-- An attempt that is over. -/
def Attempt.Closed (a : Attempt) : Prop := a.data.startTime ≤ a.data.endTime

structure LogInv (c : ServicesCall) (s : Logged) : Prop where
  own : ∀ name, s.requests name = (s.attempts name).map Attempt.data
  -- only the last attempt for a service can be under way
  closed : ∀ name as a, s.attempts name = as ++ [a] →
    (∀ a' ∈ as, a'.Closed) ∧ (a.Closed ∨ Attempting c s.fan.calls a.call name)
  last : ∀ j name, Attempting c s.fan.calls j name →
    ∃ as d, s.attempts name = as ++ [⟨j, d⟩] ∧ d.startTime ≤ s.clock
  -- such a call is answered in its first step
  localTest : ∀ (j : Nat) (req : ServiceCallReq) (call : CallState), c.reqs[j]? = some req →
    s.fan.calls[j]? = some call →
    req.serviceName = ascii "local_test" → call.phase = .start ∨ call.phase = .done

section Inv

variable {mgr : ForwardManager} {mem : LiteralMemory} {c : ServicesCall} {s s' : Logged}

theorem logInv_start (c : ServicesCall) (pool : FiberPool Unit) : LogInv c (.start c pool) := by
  have hphase (j : Nat) (call : CallState) (h : (Fan.start c pool).calls[j]? = some call) :
      call.phase = .start := by
    simp only [Fan.calls, Fan.start, List.map_map, List.getElem?_map, Option.map_eq_some_iff] at h
    obtain ⟨rsp, -, rfl⟩ := h
    rfl
  constructor
  case own => intro name; rfl
  case closed =>
    intro name as a h
    exact absurd h (by simp [Logged.start])
  case last =>
    rintro j name ⟨req, call, -, hcall, -, hatt⟩
    rw [hphase j call hcall] at hatt
    cases hatt
  case localTest => exact fun j req call _ hcall _ => .inl (hphase j call hcall)

/-- Every attempt is over when no call of the service has one under way. -/
theorem LogInv.closed_of_none (h : LogInv c s) {name : Bytes}
    (hnone : ∀ j, ¬ Attempting c s.fan.calls j name) : ∀ a ∈ s.attempts name, a.Closed := by
  rcases List.eq_nil_or_concat' (s.attempts name) with hnil | ⟨as, b, hsnoc⟩
  · simp [hnil]
  · obtain ⟨hold, hlast⟩ := h.closed name as b hsnoc
    rw [hsnoc]
    exact forall_mem_snoc hold (hlast.resolve_right (hnone _))

/-- Who has an attempt under way after a step of the `i`-th call. -/
theorem attempting_set {calls : List CallState} {i : Nat} {call call' : CallState}
    {req : ServiceCallReq} (hcall : calls[i]? = some call) (hreq : c.reqs[i]? = some req)
    {j : Nat} {name : Bytes} : Attempting c (calls.set i call') j name ↔
      (j = i ∧ req.serviceName = name ∧ call'.phase.attempting = true) ∨
        (j ≠ i ∧ Attempting c calls j name) := by
  have hlt : i < calls.length := (List.getElem?_eq_some_iff.mp hcall).1
  by_cases hj : j = i
  · subst hj
    simp [Attempting, hreq, hlt]
  · simp [Attempting, List.getElem?_set_ne (Ne.symm hj), hj]

theorem attempting_set_of_eq {calls : List CallState} {i : Nat} {call call' : CallState}
    {req : ServiceCallReq} (hcall : calls[i]? = some call) (hreq : c.reqs[i]? = some req)
    (heq : call'.phase.attempting = call.phase.attempting) {j : Nat} {name : Bytes} :
    Attempting c (calls.set i call') j name ↔ Attempting c calls j name := by
  rw [attempting_set hcall hreq, heq]
  by_cases hj : j = i
  · subst hj
    simp [Attempting, hcall, hreq]
  · simp [hj]

/-- No step takes a `local_test` call to an attempt. -/
theorem LogInv.localTest_set (h : LogInv c s) {i : Nat} {call call' : CallState}
    {req : ServiceCallReq} {ev : CallEvent} (hcall : s.fan.calls[i]? = some call)
    (hreq : c.reqs[i]? = some req) (hstep : callStep req call ev = some call') (j : Nat)
    (req' : ServiceCallReq) (call'' : CallState) (hreq' : c.reqs[j]? = some req')
    (hcall'' : (s.fan.calls.set i call')[j]? = some call'')
    (hname : req'.serviceName = ascii "local_test") :
    call''.phase = .start ∨ call''.phase = .done := by
  rcases getElem?_set_eq_some hcall'' with ⟨rfl, rfl⟩ | ⟨-, hcall''⟩
  · obtain rfl := Option.some.inj (hreq.symm.trans hreq')
    have hbefore := h.localTest j req call hreq hcall hname
    cases callStepsTo_of_callStep hstep with
    | localTest => exact .inr rfl
    | enter hp hn => exact absurd hname hn
    | cached => exact .inr rfl
    | success => exact .inr rfl
    | notFound hp | found _ _ hp | sent hp | sendFailed _ hp | failed _ _ hp | retry _ _ hp =>
      rw [hp] at hbefore
      simp at hbefore
  · exact h.localTest j req' call'' hreq' hcall'' hname

/-- A step that tells the logger nothing. -/
theorem LogInv.quiet (h : LogInv c s) (hreqs : s'.requests = s.requests)
    (hatts : s'.attempts = s.attempts) (hclock : s.clock ≤ s'.clock)
    (hwho : ∀ j name, Attempting c s'.fan.calls j name ↔ Attempting c s.fan.calls j name)
    (hlocal : ∀ (j : Nat) (req : ServiceCallReq) (call : CallState), c.reqs[j]? = some req →
      s'.fan.calls[j]? = some call →
      req.serviceName = ascii "local_test" → call.phase = .start ∨ call.phase = .done) :
    LogInv c s' := by
  constructor
  case own => rw [hreqs, hatts]; exact h.own
  case closed =>
    intro name as a hsnoc
    rw [hwho]
    exact h.closed name as a (hatts ▸ hsnoc)
  case last =>
    intro j name hatt
    obtain ⟨as, d, hsnoc, hstart⟩ := h.last j name ((hwho j name).mp hatt)
    exact ⟨as, d, by rw [hatts, hsnoc], hstart.trans hclock⟩
  case localTest => exact hlocal

/-- A step of the `i`-th call that writes the last entry of its service, while no other call
    of that service has an attempt under way. -/
theorem LogInv.write (h : LogInv c s) {i : Nat} {call call' : CallState} {req : ServiceCallReq}
    {ev : CallEvent} {as : List Attempt} {d : RequestData} (hcall : s.fan.calls[i]? = some call)
    (hreq : c.reqs[i]? = some req) (hstep : callStep req call ev = some call')
    (hcalls : s'.fan.calls = s.fan.calls.set i call')
    (hreqs : s'.requests = Function.update s.requests req.serviceName
      (as.map Attempt.data ++ [d]))
    (hatts : s'.attempts = Function.update s.attempts req.serviceName (as ++ [⟨i, d⟩]))
    (hclock : s.clock ≤ s'.clock) (hstart : d.startTime ≤ s'.clock)
    (hold : ∀ a ∈ as, a.Closed)
    (hnew : d.startTime ≤ d.endTime ∨ call'.phase.attempting = true)
    (halone : ∀ j ≠ i, ¬ Attempting c s.fan.calls j req.serviceName) : LogInv c s' := by
  have hwho (j : Nat) (name : Bytes) : Attempting c (s.fan.calls.set i call') j name ↔ _ :=
    attempting_set hcall hreq
  constructor
  case own =>
    intro name
    rw [hreqs, hatts]
    by_cases hname : name = req.serviceName
    · subst hname
      simp
    · rw [Function.update_of_ne hname, Function.update_of_ne hname]
      exact h.own name
  case closed =>
    intro name as' a hsnoc
    rw [hcalls, hwho]
    rw [hatts] at hsnoc
    by_cases hname : name = req.serviceName
    · subst hname
      rw [Function.update_self] at hsnoc
      obtain ⟨rfl, heq⟩ := List.append_inj' hsnoc rfl
      obtain rfl : (⟨i, d⟩ : Attempt) = a := by simpa using heq
      exact ⟨hold, hnew.imp_right fun hatt => .inl ⟨rfl, rfl, hatt⟩⟩
    · rw [Function.update_of_ne hname] at hsnoc
      obtain ⟨hbefore, hlast⟩ := h.closed name as' a hsnoc
      refine ⟨hbefore, hlast.imp_right fun hatt => .inr ⟨?_, hatt⟩⟩
      -- the step is one of another service
      rintro rfl
      obtain ⟨req', -, hreq', -, rfl, -⟩ := hatt
      exact hname (by rw [Option.some.inj (hreq.symm.trans hreq')])
  case last =>
    intro j name hatt
    rw [hcalls, hwho] at hatt
    rw [hatts]
    rcases hatt with ⟨rfl, rfl, -⟩ | ⟨hj, hatt⟩
    · exact ⟨as, d, Function.update_self .., hstart⟩
    · have hname : name ≠ req.serviceName := by
        rintro rfl
        exact halone j hj hatt
      obtain ⟨as', d', hsnoc, hstart'⟩ := h.last j name hatt
      exact ⟨as', d', by rw [Function.update_of_ne hname, hsnoc], hstart'.trans hclock⟩
  case localTest =>
    rw [hcalls]
    exact h.localTest_set hcall hreq hstep

theorem loggedStep_eq_some {e : Tick} : loggedStep mgr mem c s e = some s' ↔
    (s.clock ≤ e.now ∧ e.now ≤ e.later) ∧ ∃ fan, step mgr mem c s.fan e.event = some fan ∧
      ∃ requests, run record s.requests (e.event.logOps c e.now e.later) = some requests ∧
        { fan := fan
          clock := e.later
          requests := requests
          attempts := (e.event.logOps c e.now e.later).foldl
            (attemptsAfter e.event.callIndex) s.attempts } = s' := by
  unfold loggedStep
  split
  · rename_i hclock
    simp [hclock, Option.bind_eq_some_iff, Option.map_eq_some_iff]
  · rename_i hclock
    simp [hclock]

/-- A call that has an attempt under way is the only one of its service that has. -/
theorem LogInv.alone (h : LogInv c s) {i j : Nat} {name : Bytes}
    (hi : Attempting c s.fan.calls i name) (hj : Attempting c s.fan.calls j name) : j = i := by
  obtain ⟨as, d, hsnoc, -⟩ := h.last i name hi
  obtain ⟨as', d', hsnoc', -⟩ := h.last j name hj
  obtain ⟨-, heq⟩ := List.append_inj' (hsnoc'.symm.trans hsnoc) rfl
  simpa using congrArg (fun l => l.map Attempt.call) heq

/-- A call that is between two attempts, or before its first, does not count. -/
theorem not_attempting_of_idle {calls : List CallState} {i : Nat} {call : CallState} {name : Bytes}
    (hcall : calls[i]? = some call) (hidle : call.phase.attempting = false)
    (halone : ∀ j ≠ i, ¬ Attempting c calls j name) (j : Nat) : ¬ Attempting c calls j name := by
  by_cases hj : j = i
  · subst hj
    rintro ⟨-, call₀, -, hcall₀, -, hatt⟩
    obtain rfl := Option.some.inj (hcall.symm.trans hcall₀)
    rw [hidle] at hatt
    cases hatt
  · exact halone j hj

/-- A `local_test` call never has an attempt under way. -/
theorem LogInv.not_attempting_localTest (h : LogInv c s) (j : Nat) :
    ¬ Attempting c s.fan.calls j (ascii "local_test") := by
  rintro ⟨req, call, hreq, hcall, hname, hatt⟩
  rcases h.localTest j req call hreq hcall hname with hp | hp
  · rw [hp] at hatt
    cases hatt
  · rw [hp] at hatt
    cases hatt

/-- An answer is written to the entry of its attempt, which is the last one. -/
theorem LogInv.answered (h : LogInv c s) {i now later n : Nat} {call call' : CallState}
    {req : ServiceCallReq} {ok canRetry : Bool} {rspdata : Bytes} {fan : Fan}
    {requests : Requests} (hcall : s.fan.calls[i]? = some call) (hreq : c.reqs[i]? = some req)
    (hp : call.phase = .waiting n)
    (hstep : callStep req call (.answered ok rspdata canRetry) = some call')
    (hcalls : fan.calls = s.fan.calls.set i call') (hnow : s.clock ≤ now) (hlater : now ≤ later)
    (hrec : run record s.requests (logOps req now later (.answered ok rspdata canRetry)) =
      some requests) :
    LogInv c {
      fan := fan, clock := later, requests := requests
      attempts := (logOps req now later (.answered ok rspdata canRetry)).foldl
        (attemptsAfter i) s.attempts } := by
  have hatt : Attempting c s.fan.calls i req.serviceName :=
    ⟨req, call, hreq, hcall, rfl, by rw [hp]; rfl⟩
  obtain ⟨as, d, hsnoc, hstart⟩ := h.last i _ hatt
  have hown : s.requests req.serviceName = as.map Attempt.data ++ [d] := by
    rw [h.own, hsnoc, List.map_append]
    rfl
  rw [run_record_answered hown] at hrec
  obtain rfl := Option.some.inj hrec
  have hend := hstart.trans hnow
  rw [attempts_answered hsnoc]
  exact h.write hcall hreq hstep hcalls rfl rfl (hnow.trans hlater) (hend.trans hlater)
    (h.closed _ as _ hsnoc).1 (.inl hend) fun j hj hatt' => hj (h.alone hatt hatt')

/-- A step of a call, in which no send fails and no other call of the service gets in between. -/
theorem LogInv.callStep (h : LogInv c s) {i now later : Nat} {call call' : CallState}
    {req : ServiceCallReq} {ev : CallEvent} {fan : Fan} {requests : Requests}
    (hcall : s.fan.calls[i]? = some call) (hreq : c.reqs[i]? = some req)
    (hstep : callStep req call ev = some call') (hcalls : fan.calls = s.fan.calls.set i call')
    (hnow : s.clock ≤ now) (hlater : now ≤ later) (hsent : ev ≠ .sent false)
    (hsep : (∃ found, ev = .address (some found)) →
      ∀ j ≠ i, ¬ Attempting c s.fan.calls j req.serviceName)
    (hrec : run record s.requests (logOps req now later ev) = some requests) :
    LogInv c {
      fan := fan, clock := later, requests := requests
      attempts := (logOps req now later ev).foldl (attemptsAfter i) s.attempts } := by
  have hclock := hnow.trans hlater
  -- nothing is told: who has an attempt under way has not changed
  have hquiet (hops : logOps req now later ev = [])
      (heq : call'.phase.attempting = call.phase.attempting) :
      LogInv c {
        fan := fan, clock := later, requests := requests
        attempts := (logOps req now later ev).foldl (attemptsAfter i) s.attempts } := by
    rw [hops] at hrec ⊢
    refine h.quiet (Option.some.inj hrec).symm rfl hclock (fun j name => ?_) ?_
    · rw [hcalls]
      exact attempting_set_of_eq hcall hreq heq
    · rw [hcalls]
      exact h.localTest_set hcall hreq hstep
  cases callStepsTo_of_callStep hstep with
  | localTest hp hn =>
    have hnone (j : Nat) : ¬ Attempting c s.fan.calls j req.serviceName :=
      hn ▸ h.not_attempting_localTest j
    rw [run_record_localTest hn] at hrec
    obtain rfl := Option.some.inj hrec
    refine h.write hcall hreq hstep hcalls ?_ (attempts_localTest hn _ _) hclock hlater
      (h.closed_of_none hnone) (.inl hlater) fun j _ => hnone j
    rw [h.own]
  | enter hp hn => exact hquiet (if_neg hn) (by rw [hp]; rfl)
  | notFound hp => exact hquiet rfl (by rw [hp]; rfl)
  | found ip port hp =>
    obtain rfl : pushBack s.requests req.serviceName
        { startTime := now, hostPort := ip ++ ascii ":" ++ port } = requests := by
      simpa [logOps, record] using hrec
    have halone := hsep ⟨_, rfl⟩
    refine h.write hcall hreq hstep hcalls ?_ rfl hclock hlater
      (h.closed_of_none (not_attempting_of_idle hcall (by rw [hp]; rfl) halone)) (.inr rfl) halone
    simp only [pushBack, h.own]
  | sent hp => exact hquiet rfl (by rw [hp]; rfl)
  | sendFailed _ hp => exact absurd rfl hsent
  | success _ _ hp | failed _ _ hp | retry _ _ hp =>
    exact h.answered hcall hreq hp hstep hcalls hnow hlater hrec
  | cached hit hp => exact hquiet rfl (by rw [hp]; rfl)

/-- One step of the call, with its log. -/
theorem LogInv.step (hc : c.rejected = false) (h : LogInv c s) {e : Tick} (hsep : Separate c s e)
    (hstep : loggedStep mgr mem c s e = some s') : LogInv c s' := by
  obtain ⟨⟨hnow, hlater⟩, fan, hfan, requests, hrec, rfl⟩ := loggedStep_eq_some.mp hstep
  obtain ⟨event, now, later⟩ := e
  rcases calls_step hc hfan with
    ⟨i, ev, call, req, call', rfl, hcall, hreq, -, hcallStep, hcalls, -⟩ | ⟨hno, hcalls, -⟩
  · have hops : (Event.call i ev).logOps c now later = logOps req now later ev := by
      simp only [Event.logOps, hreq]
    simp only [hops] at hrec ⊢
    refine h.callStep hcall hreq hcallStep hcalls hnow hlater ?_ ?_ hrec
    · rintro rfl
      exact hsep
    · rintro ⟨found, rfl⟩
      exact hsep req hreq
  · have hops : event.logOps c now later = [] := logOps_of_ofCall hno
    simp only [hops] at hrec ⊢
    refine h.quiet (Option.some.inj hrec).symm rfl (hnow.trans hlater) (fun j name => ?_) ?_
    · rw [hcalls]
    · rw [hcalls]
      exact h.localTest

end Inv

/-! ## Lists that are refused

A transaction with a service that is not HTTP makes no call, so nothing is logged. -/

/-- No call is running, nor can one start. -/
structure Fan.Unused (s : Fan) : Prop where
  parent : s.parent = .posted ∨ s.parent = .returning ∨ s.parent = .finished
  places : ∀ ch ∈ s.children, ch.place ≠ .running
  tasks : ∀ i, .child i ∉ s.pool.tasks

section Unused

variable {mgr : ForwardManager} {mem : LiteralMemory} {c : ServicesCall}

theorem unused_start (c : ServicesCall) (pool : FiberPool Unit) : (Fan.start c pool).Unused where
  parent := .inl rfl
  places := by
    intro ch hch
    obtain ⟨r, -, rfl⟩ := List.mem_map.mp hch
    simp
  tasks := by simp [Fan.start, FiberPool.map]

/-- No step of such a list is one of a call. -/
theorem unused_step (hc : c.rejected = true) {s s' : Fan} {e : Event} (hs : s.Unused)
    (h : step mgr mem c s e = some s') : s'.Unused ∧ ∀ i, e.ofCall i = none := by
  obtain ⟨-, h⟩ := stepsTo_of_step h
  have hpar := hs.parent
  cases h with
  | post => exact ⟨⟨hpar, hs.places, by simpa using hs.tasks⟩, fun _ => rfl⟩
  | insert => exact ⟨⟨hpar, hs.places, hs.tasks⟩, fun _ => rfl⟩
  | otherEnd _ hp =>
    have htasks := (FiberPool.finish_eq_some hp).1
    exact ⟨⟨hpar, hs.places, by rw [htasks]; exact hs.tasks⟩, fun _ => rfl⟩
  | sleep hp =>
    have htasks := (FiberPool.sleep_eq_some hp).1
    exact ⟨⟨hpar, hs.places, by rw [htasks]; exact hs.tasks⟩, fun _ => rfl⟩
  | takeOther hp =>
    refine ⟨⟨hpar, hs.places, fun i hi => hs.tasks i ?_⟩, fun _ => rfl⟩
    rw [(FiberPool.take_eq_some hp).1]
    exact List.mem_cons_of_mem _ hi
  | takeParent hp =>
    -- the entries are filled in, and the parent goes straight to its callback
    rw [Fan.launch, if_pos hc]
    refine ⟨⟨.inr (.inl rfl), fun ch hch => ?_, fun i hi => hs.tasks i ?_⟩, fun _ => rfl⟩
    · obtain ⟨j, hj⟩ := List.getElem?_of_mem hch
      obtain ⟨req, ch₀, -, -, rfl⟩ := List.getElem?_zipWith_eq_some.mp hj
      simp [rejectedChild]
    · rw [(FiberPool.take_eq_some hp).1]
      exact List.mem_cons_of_mem _ hi
  | @takeChild p i ch hp hch =>
    refine absurd ?_ (hs.tasks i)
    rw [(FiberPool.take_eq_some hp).1]
    exact List.mem_cons_self
  | callback _ hp =>
    have htasks := (FiberPool.finish_eq_some hp).1
    exact ⟨⟨.inr (.inr rfl), hs.places, by rw [htasks]; exact hs.tasks⟩, fun _ => rfl⟩
  | call hch _ hrun => exact absurd hrun (hs.places _ (List.mem_of_getElem? hch))
  | childEnd hch _ hrun => exact absurd hrun (hs.places _ (List.mem_of_getElem? hch))
  | schedule hp | scheduled hp | wait hp | join hp | singleEnd hp | crash hp | collect hp
  | noTransaction hp | decide hp | decided hp =>
    rw [hp] at hpar
    simp at hpar

end Unused

/-! ## The last entry is there

`back()` is called on the entries of a service only after `sendServiceRequest` has made one,
whatever the other calls do. -/

/-- There is an entry for every attempt under way. -/
def Logged.HasEntries (c : ServicesCall) (s : Logged) : Prop :=
  ∀ j name, Attempting c s.fan.calls j name → s.requests name ≠ []

theorem record_ne_nil {r r' : Requests} {op : LogOp} (h : record r op = some r') {name : Bytes}
    (hne : r name ≠ []) : r' name ≠ [] := by
  have hback {f : RequestData → RequestData} {other : Bytes}
      (hf : updateBack r other f = some r') : r' name ≠ [] := by
    obtain ⟨d, -, rfl⟩ := Option.map_eq_some_iff.mp hf
    by_cases hname : name = other
    · subst hname
      simp
    · rwa [Function.update_of_ne hname]
  cases op with
  | request other host port now =>
    cases h
    by_cases hname : name = other
    · subst hname
      simp [pushBack]
    · rwa [pushBack, Function.update_of_ne hname]
  | reply other now => exact hback h
  | failed other msg => exact hback h

theorem run_record_ne_nil {ops : List LogOp} {r r' : Requests} (h : run record r ops = some r')
    {name : Bytes} (hne : r name ≠ []) : r' name ≠ [] := by
  have hkeep (r : Requests) (op : LogOp) (r' : Requests) (hr : r name ≠ [])
      (hop : record r op = some r') : r' name ≠ [] := record_ne_nil hop hr
  exact run_inv hkeep hne h

section Defined

variable {mgr : ForwardManager} {mem : LiteralMemory} {c : ServicesCall} {s s' : Logged}

/-- The operations of a step find the entry they need. -/
theorem Logged.HasEntries.exists_run (h : s.HasEntries c) {i now later : Nat}
    {call call' : CallState} {req : ServiceCallReq} {ev : CallEvent}
    (hcall : s.fan.calls[i]? = some call) (hreq : c.reqs[i]? = some req)
    (hstep : callStep req call ev = some call') :
    ∃ r, run record s.requests (logOps req now later ev) = some r ∧
      (call'.phase.attempting = true → r req.serviceName ≠ []) := by
  -- an attempt under way has its entry
  have hentry (hatt : call.phase.attempting = true) :
      ∃ ds d, s.requests req.serviceName = ds ++ [d] := by
    have hne := h i req.serviceName ⟨req, call, hreq, hcall, rfl, hatt⟩
    exact ⟨_, _, (List.dropLast_append_getLast hne).symm⟩
  cases callStepsTo_of_callStep hstep with
  | localTest hp hn => exact ⟨_, run_record_localTest hn _, fun hatt => by cases hatt⟩
  | enter hp hn =>
    exact ⟨s.requests, by rw [logOps, if_neg hn]; rfl, fun hatt => by cases hatt⟩
  | notFound hp | cached _ hp => exact ⟨s.requests, rfl, fun hatt => by cases hatt⟩
  | found ip port hp => exact ⟨_, rfl, fun _ => by simp [pushBack]⟩
  | sent hp =>
    exact ⟨s.requests, rfl, fun _ => h i _ ⟨req, call, hreq, hcall, rfl, by rw [hp]; rfl⟩⟩
  | sendFailed _ hp =>
    obtain ⟨ds, d, hsnoc⟩ := hentry (by rw [hp]; rfl)
    have hrec : run record s.requests (logOps req now later (.sent false)) =
        some (Function.update s.requests req.serviceName
          (ds ++ [{ d with failedMsg := ascii "Send Data Failed." }])) := by
      simp [logOps, record, updateBack_snoc hsnoc]
    exact ⟨_, hrec, fun _ => by simp⟩
  | success _ _ hp | failed _ _ hp | retry _ _ hp =>
    obtain ⟨ds, d, hsnoc⟩ := hentry (by rw [hp]; rfl)
    exact ⟨_, run_record_answered hsnoc, fun _ => by simp⟩

theorem Logged.HasEntries.step (hc : c.rejected = false) (h : s.HasEntries c) {e : Tick}
    (hstep : loggedStep mgr mem c s e = some s') : s'.HasEntries c := by
  obtain ⟨-, fan, hfan, requests, hrec, rfl⟩ := loggedStep_eq_some.mp hstep
  obtain ⟨event, now, later⟩ := e
  intro j name hatt
  rcases calls_step hc hfan with
    ⟨i, ev, call, req, call', rfl, hcall, hreq, -, hcallStep, hcalls, -⟩ | ⟨hno, hcalls, -⟩
  · have hops : (Event.call i ev).logOps c now later = logOps req now later ev := by
      simp only [Event.logOps, hreq]
    rw [hops] at hrec
    rw [hcalls, attempting_set hcall hreq] at hatt
    rcases hatt with ⟨rfl, rfl, hatt⟩ | ⟨-, hatt⟩
    · obtain ⟨r, hr, hne⟩ := h.exists_run hcall hreq hcallStep
      obtain rfl := Option.some.inj (hr.symm.trans hrec)
      exact hne hatt
    · exact run_record_ne_nil hrec (h j name hatt)
  · rw [logOps_of_ofCall hno] at hrec
    rw [hcalls] at hatt
    obtain rfl := Option.some.inj hrec
    exact h j name hatt

end Defined

/-! ## Every run -/

section Runs

variable {mgr : ForwardManager} {mem : LiteralMemory} {c : ServicesCall} {pool : FiberPool Unit}

/-- The log of a refused list stays empty. -/
theorem empty_of_rejected (hc : c.rejected = true) {es : List Tick} {s : Logged}
    (hrun : run (loggedStep mgr mem c) (.start c pool) es = some s) :
    s.fan.Unused ∧ s.requests = (fun _ => []) ∧ s.attempts = fun _ => [] := by
  have hkeep (s : Logged) (e : Tick) (s' : Logged)
      (h : s.fan.Unused ∧ s.requests = (fun _ => []) ∧ s.attempts = fun _ => [])
      (hstep : loggedStep mgr mem c s e = some s') :
      s'.fan.Unused ∧ s'.requests = (fun _ => []) ∧ s'.attempts = fun _ => [] := by
    obtain ⟨-, fan, hfan, requests, hrec, rfl⟩ := loggedStep_eq_some.mp hstep
    obtain ⟨event, now, later⟩ := e
    obtain ⟨hunused, hno⟩ := unused_step hc h.1 hfan
    have hops : event.logOps c now later = [] := logOps_of_ofCall hno
    simp only [hops] at hrec ⊢
    exact ⟨hunused, (Option.some.inj hrec).symm.trans h.2.1, h.2.2⟩
  exact run_inv hkeep ⟨unused_start c pool, rfl, rfl⟩ hrun

/-- The calls of a list that is not refused. -/
theorem inv_of_logged (hc : c.rejected = false) {es : List Tick} {s : Logged}
    (hrun : run (loggedStep mgr mem c) (.start c pool) es = some s) : Inv c s.fan := by
  have hkeep (s : Logged) (e : Tick) (s' : Logged) (h : Inv c s.fan)
      (hstep : loggedStep mgr mem c s e = some s') : Inv c s'.fan := by
    obtain ⟨-, fan, hfan, requests, -, rfl⟩ := loggedStep_eq_some.mp hstep
    exact inv_step hc h hfan
  exact run_inv hkeep (inv_start c pool) hrun

/-- In every run the log takes part in every step the call can make. -/
theorem isSome_loggedStep {es : List Tick} {s : Logged}
    (hrun : run (loggedStep mgr mem c) (.start c pool) es = some s) {e : Tick}
    (hnow : s.clock ≤ e.now) (hlater : e.now ≤ e.later)
    (hstep : (step mgr mem c s.fan e.event).isSome = true) :
    (loggedStep mgr mem c s e).isSome = true := by
  obtain ⟨fan, hfan⟩ := Option.isSome_iff_exists.mp hstep
  suffices hrec : ∃ r, run record s.requests (e.event.logOps c e.now e.later) = some r by
    obtain ⟨r, hrec⟩ := hrec
    rw [Option.isSome_iff_exists]
    exact ⟨_, loggedStep_eq_some.mpr ⟨⟨hnow, hlater⟩, fan, hfan, r, hrec, rfl⟩⟩
  cases hc : c.rejected with
  | true =>
    obtain ⟨hunused, -⟩ := empty_of_rejected hc hrun
    exact ⟨s.requests, by rw [logOps_of_ofCall (unused_step hc hunused hfan).2]; rfl⟩
  | false =>
    have hstart : (Logged.start c pool).HasEntries c := by
      intro j name hatt
      obtain ⟨as, d, hsnoc, -⟩ := (logInv_start c pool).last j name hatt
      simp [Logged.start] at hsnoc
    have hentries : s.HasEntries c := run_inv (fun _ _ _ hs h => hs.step hc h) hstart hrun
    rcases calls_step hc hfan with
      ⟨i, ev, call, req, call', hev, hcall, hreq, -, hcallStep, -⟩ | ⟨hno, -⟩
    · obtain ⟨r, hr, -⟩ := hentries.exists_run hcall hreq hcallStep
      exact ⟨r, by rw [hev, Event.logOps, hreq]; exact hr⟩
    · exact ⟨s.requests, by rw [logOps_of_ofCall hno]; rfl⟩

/-- The clock does not go back over these steps. -/
def InOrder : Nat → List Tick → Prop
  | _, [] => True
  | clock, e :: es => clock ≤ e.now ∧ e.now ≤ e.later ∧ InOrder e.later es

/-- **The log follows the call.**  What the call does with its log is what it does without, and
    the log never stops it: the runs of the two machines are the same. -/
theorem logged_iff {es : List Tick} (hclock : InOrder 0 es) {fan : Fan} :
    (∃ s, run (loggedStep mgr mem c) (.start c pool) es = some s ∧ s.fan = fan) ↔
      run (step mgr mem c) (.start c pool) (es.map Tick.event) = some fan := by
  -- from any state that a logged run has reached
  suffices hfrom : ∀ (es : List Tick) (before : List Tick) (s : Logged),
      run (loggedStep mgr mem c) (.start c pool) before = some s → InOrder s.clock es →
      ((∃ t, run (loggedStep mgr mem c) s es = some t ∧ t.fan = fan) ↔
        run (step mgr mem c) s.fan (es.map Tick.event) = some fan) from
    hfrom es [] (.start c pool) rfl hclock
  intro es
  induction es with
  | nil => simp
  | cons e es ih =>
    rintro before s hrun ⟨hnow, hlater, hrest⟩
    rw [List.map_cons, run_cons, run_cons]
    cases hfan : step mgr mem c s.fan e.event with
    | none =>
      have hnone : loggedStep mgr mem c s e = none := by
        simp [loggedStep, hfan]
      simp [hnone]
    | some fan' =>
      obtain ⟨t, ht⟩ := Option.isSome_iff_exists.mp
        (isSome_loggedStep hrun hnow hlater (by rw [hfan]; rfl))
      obtain ⟨-, fan'', hfan'', requests, -, rfl⟩ := loggedStep_eq_some.mp ht
      obtain rfl : fan' = fan'' := Option.some.inj (hfan.symm.trans hfan'')
      rw [ht, Option.bind_some, Option.bind_some]
      exact ih (before ++ [e]) _ (run_snoc_eq_some.mpr ⟨s, hrun, ht⟩) hrest

/-- **Latencies are real.** For any list of calls, any interleaving of its fibers and any
    outcome of the attempts, in a run in which no send fails and no two attempts for one
    service overlap: when the calls have been joined, and so when the log is closed, every
    entry of the slot ends no earlier than it starts and is that of its own attempt. -/
theorem latencies_real {es : List Tick} {s : Logged}
    (hsep : Along (loggedStep mgr mem c) (Separate c) (.start c pool) es)
    (hrun : run (loggedStep mgr mem c) (.start c pool) es = some s)
    (hend : s.fan.parent.past = true) : s.Real := by
  cases hc : c.rejected with
  | true =>
    obtain ⟨-, hreqs, hatts⟩ := empty_of_rejected hc hrun
    simp [Logged.Real, hreqs, hatts]
  | false =>
    have hlog : LogInv c s :=
      run_inv_along (fun s e s' hs hP hstep => hs.step hc hP hstep) (logInv_start c pool) hsep
        hrun
    have hinv := inv_of_logged hc hrun
    -- all calls are over, so no attempt is under way
    have hnone (j : Nat) (name : Bytes) : ¬ Attempting c s.fan.calls j name := by
      rintro ⟨req, call, -, hcall, -, hatt⟩
      obtain ⟨ch, hch, rfl⟩ := List.mem_map.mp (List.mem_of_getElem? hcall)
      rw [hinv.done ch hch (hinv.ended hend ch hch)] at hatt
      cases hatt
    refine ⟨fun name d hd => ?_, hlog.own⟩
    rw [hlog.own] at hd
    obtain ⟨a, ha, rfl⟩ := List.mem_map.mp hd
    exact hlog.closed_of_none (fun j => hnone j name) a ha

end Runs

/-! ## Runs with one service -/

/-- A list of calls of `users`. -/
def usersCalls (n : Nat) : ServicesCall where
  reqs := List.replicate n { serviceName := ascii "users" }
  rspList := []
  doTransaction := false

/-- A step at one moment. -/
def Event.at (e : Event) (now : Nat) : Tick := ⟨e, now, now⟩

/-- Two calls; the second starts its attempt when the first has been answered, and makes it
    twice. -/
def answeredRun : List Tick :=
  [Event.at .take 1, Event.at .schedule 1, Event.at .schedule 1, Event.at .schedule 1,
    Event.at .check 1, Event.at .take 1, Event.at .take 1, Event.at (.call 0 .enter) 1,
    Event.at (.call 1 .enter) 1,
    Event.at (.call 0 (.address (some (ascii "10.0.0.1", ascii "80")))) 1,
    Event.at (.call 0 (.sent true)) 1, Event.at (.call 0 (.answered true (ascii "ok") true)) 3,
    Event.at (.call 1 (.address (some (ascii "10.0.0.2", ascii "80")))) 4,
    Event.at (.call 1 (.sent true)) 4, Event.at (.call 1 (.answered false [] true)) 6,
    Event.at (.call 1 (.address (some (ascii "10.0.0.1", ascii "80")))) 6,
    Event.at (.call 1 (.sent true)) 6, Event.at (.call 1 (.answered true (ascii "ok") true)) 7,
    Event.at (.childEnd 0) 7, Event.at (.childEnd 1) 7, Event.at .check 7, Event.at .collect 7,
    Event.at .callback 7]

theorem answeredRun_real :
    ∃ s, run (loggedStep {} zeroMemory (usersCalls 2)) (.start (usersCalls 2) .empty) answeredRun =
        some s ∧ s.fan.parent = .finished ∧
      (s.requests (ascii "users")).map (fun d => (d.startTime, d.endTime)) =
        [(1, 3), (4, 6), (6, 7)] ∧ s.Real := by
  have hview : (run (loggedStep {} zeroMemory (usersCalls 2)) (.start (usersCalls 2) .empty)
      answeredRun).map (fun s => (s.fan.parent,
        (s.requests (ascii "users")).map fun d => (d.startTime, d.endTime))) =
      some (.finished, [(1, 3), (4, 6), (6, 7)]) := by decide +kernel
  have hsep : Along (loggedStep {} zeroMemory (usersCalls 2)) (Separate (usersCalls 2))
      (.start (usersCalls 2) .empty) answeredRun := by decide +kernel
  obtain ⟨s, hrun, hs⟩ := Option.map_eq_some_iff.mp hview
  obtain ⟨hend, htimes⟩ := Prod.mk.inj hs
  exact ⟨s, hrun, hend, htimes, latencies_real hsep hrun (by rw [hend]; rfl)⟩

/-- One call, whose first attempt cannot be sent. -/
def failedSend : List Tick :=
  [Event.at .take 1, Event.at (.call 0 .enter) 1,
    Event.at (.call 0 (.address (some (ascii "10.0.0.1", ascii "80")))) 1,
    Event.at (.call 0 (.sent false)) 1,
    Event.at (.call 0 (.address (some (ascii "10.0.0.2", ascii "80")))) 2,
    Event.at (.call 0 (.sent true)) 2, Event.at (.call 0 (.answered true (ascii "ok") true)) 3,
    Event.at .singleEnd 3, Event.at .collect 3, Event.at .callback 3]

/-- Two calls, the second of which starts its attempt before the first is answered. -/
def overlapping : List Tick :=
  [Event.at .take 1, Event.at .schedule 1, Event.at .schedule 1, Event.at .schedule 1,
    Event.at .check 1, Event.at .take 1, Event.at .take 1, Event.at (.call 0 .enter) 1,
    Event.at (.call 1 .enter) 1,
    Event.at (.call 0 (.address (some (ascii "10.0.0.1", ascii "80")))) 1,
    Event.at (.call 0 (.sent true)) 1,
    Event.at (.call 1 (.address (some (ascii "10.0.0.2", ascii "80")))) 2,
    Event.at (.call 1 (.sent true)) 2,
    Event.at (.call 0 (.answered true (ascii "ok") true)) 3, Event.at (.childEnd 0) 3,
    Event.at (.call 1 (.answered true (ascii "ok") true)) 4, Event.at (.childEnd 1) 4,
    Event.at .check 4, Event.at .collect 4, Event.at .callback 4]

/-- The latency of an entry as the sender computes it. -/
def latency (d : RequestData) : UInt64 := UInt64.ofNat d.endTime - UInt64.ofNat d.startTime

theorem not_real_of_mem {s : Logged} {name : Bytes} {start stop : Nat}
    (h : (start, stop) ∈ (s.requests name).map fun d => (d.startTime, d.endTime))
    (hlt : stop < start) : ¬ s.Real := by
  intro hreal
  obtain ⟨d, hd, heq⟩ := List.mem_map.mp h
  simp only [Prod.mk.injEq] at heq
  have hle := hreal.1 name d hd
  omega

/-- **Two latencies that wrap around.** An attempt that cannot be sent has no end time; of two
    attempts that overlap, the second takes the end time of the first. -/
theorem latencies_not_real :
    (∃ s, run (loggedStep {} zeroMemory (usersCalls 1)) (.start (usersCalls 1) .empty)
        failedSend = some s ∧ s.fan.parent = .finished ∧
      (s.requests (ascii "users")).map latency = [18446744073709551615, 1] ∧ ¬ s.Real) ∧
    ∃ s, run (loggedStep {} zeroMemory (usersCalls 2)) (.start (usersCalls 2) .empty)
        overlapping = some s ∧ s.fan.parent = .finished ∧
      (s.requests (ascii "users")).map latency = [18446744073709551615, 2] ∧ ¬ s.Real := by
  have hone : (run (loggedStep {} zeroMemory (usersCalls 1)) (.start (usersCalls 1) .empty)
      failedSend).map (fun s => (s.fan.parent, (s.requests (ascii "users")).map latency,
        (s.requests (ascii "users")).map fun d => (d.startTime, d.endTime))) =
      some (.finished, [18446744073709551615, 1], [(1, 0), (2, 3)]) := by decide +kernel
  have htwo : (run (loggedStep {} zeroMemory (usersCalls 2)) (.start (usersCalls 2) .empty)
      overlapping).map (fun s => (s.fan.parent, (s.requests (ascii "users")).map latency,
        (s.requests (ascii "users")).map fun d => (d.startTime, d.endTime))) =
      some (.finished, [18446744073709551615, 2], [(1, 0), (2, 4)]) := by decide +kernel
  obtain ⟨s₁, hrun₁, h₁⟩ := Option.map_eq_some_iff.mp hone
  obtain ⟨s₂, hrun₂, h₂⟩ := Option.map_eq_some_iff.mp htwo
  simp only [Prod.mk.injEq] at h₁ h₂
  exact ⟨⟨s₁, hrun₁, h₁.1, h₁.2.1, not_real_of_mem (by rw [h₁.2.2]; simp) Nat.zero_lt_one⟩,
    s₂, hrun₂, h₂.1, h₂.2.1, not_real_of_mem (by rw [h₂.2.2]; simp) Nat.zero_lt_one⟩

end FiberProxy.Forward
