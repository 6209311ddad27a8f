/-
  FiberProxy.Server.HttpConnection

  One HTTP connection of the server (`fiber-server/HttpConnection.cpp` and
  `request::parser_impl::do_parse`) with every fiber that writes to it: the
  connection's own fiber, the pool fibers that run `handleRequestFunc` when the
  server has a fiber pool, and the pool fibers in which asynchronous handlers
  complete.  A write is asio's composed `async_write`: it takes the socket any
  number of pieces, and the fiber sleeps in between.

  Each write knows whether an exception it throws is caught: the response of a
  handler that answers before `handleRequestFunc` returns is written inside its
  `try`; error responses are written outside of it or from its `catch` block, and
  the completion of an asynchronous handler is written from a pool fiber, whose
  `run_fiber` catches nothing but `fiber_interrupted` (`guarded_iff_of_run`).

  `shutdown` is not a step.  It ends the receiving side of the socket, and a read may
  give anything in this model anyway.  It also destroys the parser, in whose
  `do_parse` the connection's fiber may still be; that is left out, since the
  language does not say what the fiber does with a parser that is gone.  Here the fiber
  goes on as `do_parse` is written.
-/

import FiberProxy.Http.ResponseText
import FiberProxy.Lib.Lists
import FiberProxy.Lib.Run

namespace FiberProxy.Server

open Lib Http

/-- What `router_->find` gives for a request, and what the handler does with it. -/
inductive Handler where
  | missing
  /-- `invoke_raw`: it returns, or throws. -/
  | sync (returns : Bool)
  /-- `invoke_raw_async`: the response callback is invoked before it returns. -/
  | immediate
  /-- `invoke_raw_async`: the response callback is invoked later, from a pool fiber. -/
  | deferred
  /-- `invoke_raw_async` throws. -/
  | asyncThrows
deriving DecidableEq, Repr

/-- A request as the parser delivers it, with the outcome of its handler: `body`
    is the response body it leaves. -/
structure Incoming where
  path : Bytes
  keepAlive : Bool
  handler : Handler
  body : Bytes
deriving DecidableEq, Repr

/-- A fiber in `async_write`. -/
structure Writer where
  /-- The request that is answered; a read error is answered as well. -/
  req : Option Nat
  text : Bytes
  /-- Bytes the socket has taken. -/
  sent : Nat := 0
  /-- The write is inside the `try` of `handleRequestFunc`. -/
  guarded : Bool
  /-- What `request_cb` returns after the write. -/
  goOn : Bool
deriving DecidableEq, Repr

/-- Where the connection's own fiber stands in `do_parse`. -/
inductive Fiber where
  /-- In `async_read_some`. -/
  | reading
  /-- In `http_parser_execute`: the requests that the bytes read so far complete
      and that are still to be delivered; `bad` if the rest does not parse. -/
  | parsing (rest : List Incoming) (bad : Bool)
  /-- In a write for a delivered request. -/
  | writing (w : Writer) (rest : List Incoming) (bad : Bool)
  | closed
deriving DecidableEq, Repr

structure Conn where
  fiber : Fiber := .reading
  /-- Requests whose `handleRequestFunc` waits in the pool. -/
  tasks : List Nat := []
  /-- Requests whose asynchronous handler is to complete. -/
  deferred : List Nat := []
  /-- The pool fibers in a write on this connection. -/
  writers : List Writer := []
  /-- The requests delivered so far. -/
  accepted : List Incoming := []
  /-- The bytes the socket has taken. -/
  out : Bytes := []
  /-- The requests answered in full, in the order of their last bytes. -/
  answered : List Nat := []
  /-- An exception has left a fiber: `std::terminate`. -/
  escaped : Bool := false
deriving DecidableEq, Repr

/-- Which fiber writes. -/
inductive Who where
  | conn
  | pool (j : Nat)
deriving DecidableEq, Repr

inductive Event where
  /-- A read completes these requests; `bad` if the rest of it does not parse. -/
  | read (reqs : List Incoming) (bad : Bool)
  | readEof
  | readError
  /-- The parser delivers the next request, or is through with the buffer. -/
  | parse
  /-- A pool fiber starts `handleRequestFunc` for a request. -/
  | runTask (i : Nat)
  /-- An asynchronous handler completes. -/
  | complete (i : Nat)
  /-- The socket takes `n` more bytes of a write. -/
  | write (who : Who) (n : Nat)
  | written (who : Who)
  /-- The write fails: plain `yield` throws `system_error`. -/
  | fail (who : Who)
deriving DecidableEq, Repr

/-- `write_error_rsp`. -/
def errorWriter (req : Option Nat) (e : ErrorRsp) : Writer :=
  { req := req, text := e.text, guarded := false, goOn := false }

/-- `write_rsp`. -/
def rspWriter (i : Nat) (r : Incoming) (guarded : Bool) : Writer :=
  { req := some i, text := rspText r.keepAlive r.body, guarded := guarded, goOn := r.keepAlive }

/-- `handleRequestFunc`, up to its first write; `none` when the handler has taken
    the request and will complete later. -/
def handleRequestFunc (i : Nat) (r : Incoming) : Option Writer :=
  match r.handler with
  | .missing => some (errorWriter (some i) .notFound)
  | .sync true | .immediate => some (rspWriter i r true)
  | .sync false | .asyncThrows => some (errorWriter (some i) .internalServerError)
  | .deferred => none

/-- The parser goes on as long as `request_cb` returns true. -/
def afterRequest (goOn : Bool) (rest : List Incoming) (bad : Bool) : Fiber :=
  if goOn then .parsing rest bad else .closed

/-- The write the connection's fiber is in. -/
def Fiber.writer : Fiber → Option Writer
  | .writing w _ _ => some w
  | _ => none

/-- The write of the connection's fiber is now `w`. -/
def Fiber.setWriter (w : Writer) : Fiber → Fiber
  | .writing _ rest bad => .writing w rest bad
  | f => f

/-- The write `w` of the connection's fiber is over, and the fiber goes on. -/
def Fiber.release (w : Writer) : Fiber → Fiber
  | .writing _ rest bad => afterRequest w.goOn rest bad
  | f => f

/-- The write a fiber is in. -/
def Conn.writer (s : Conn) : Who → Option Writer
  | .conn => s.fiber.writer
  | .pool j => s.writers[j]?

/-- A fiber's write is now `w`. -/
def Conn.setWriter (s : Conn) (w : Writer) (who : Who) : Conn :=
  { s with
    fiber := match who with
      | .conn => s.fiber.setWriter w
      | .pool _ => s.fiber
    writers := match who with
      | .conn => s.writers
      | .pool j => s.writers.set j w }

/-- A fiber's write is over, and the fiber goes on. -/
def Conn.release (s : Conn) (w : Writer) (who : Who) : Conn :=
  { s with
    fiber := match who with
      | .conn => s.fiber.release w
      | .pool _ => s.fiber
    writers := match who with
      | .conn => s.writers
      | .pool j => s.writers.eraseIdx j }

/-- `handleRequest` for a delivered request. -/
def Conn.handleRequest (pooled : Bool) (s : Conn) (r : Incoming) (rest : List Incoming)
    (bad : Bool) : Conn :=
  let i := s.accepted.length
  let s' := { s with accepted := s.accepted ++ [r] }
  -- an empty path is refused before the pool is asked
  if r.path = [] then { s' with fiber := .writing (errorWriter (some i) .badRequest) rest bad }
  else if pooled then
    { s' with tasks := s.tasks ++ [i], fiber := afterRequest r.keepAlive rest bad }
  else
    match handleRequestFunc i r with
    | some w => { s' with fiber := .writing w rest bad }
    | none => { s' with deferred := s.deferred ++ [i], fiber := afterRequest r.keepAlive rest bad }

/-- One step; `pooled` says whether the server has a fiber pool. -/
def step (pooled : Bool) (s : Conn) (e : Event) : Option Conn :=
  if s.escaped then none
  else
    match e with
    | .read reqs bad =>
      if s.fiber = .reading then some { s with fiber := .parsing reqs bad } else none
    | .readEof => if s.fiber = .reading then some { s with fiber := .closed } else none
    | .readError =>
      if s.fiber = .reading then
        some { s with fiber := .writing (errorWriter none .internalServerError) [] false }
      else none
    | .parse =>
      match s.fiber with
      | .parsing (r :: rest) bad => some (s.handleRequest pooled r rest bad)
      -- the buffer is used up; what does not parse ends the connection
      | .parsing [] bad => some { s with fiber := if bad then .closed else .reading }
      | _ => none
    | .runTask i =>
      (s.accepted[i]?).bind fun r =>
        if i ∈ s.tasks then
          match handleRequestFunc i r with
          | some w => some { s with tasks := s.tasks.erase i, writers := s.writers ++ [w] }
          | none => some { s with tasks := s.tasks.erase i, deferred := s.deferred ++ [i] }
        else none
    | .complete i =>
      (s.accepted[i]?).bind fun r =>
        if i ∈ s.deferred then
          some { s with
            deferred := s.deferred.erase i
            writers := s.writers ++ [rspWriter i r false] }
        else none
    | .write who n =>
      (s.writer who).bind fun w =>
        if 0 < n ∧ w.sent + n ≤ w.text.length then
          some { s.setWriter { w with sent := w.sent + n } who with
            out := s.out ++ (w.text.drop w.sent).take n }
        else none
    | .written who =>
      (s.writer who).bind fun w =>
        if w.sent = w.text.length then
          some { s.release w who with answered := s.answered ++ w.req.toList }
        else none
    | .fail who =>
      (s.writer who).bind fun w =>
        if w.sent < w.text.length then
          -- the handler of the `try` writes an error response in its place
          if w.guarded then some (s.setWriter (errorWriter w.req .internalServerError) who)
          else some { s with escaped := true }
        else none

/-! ## What a step can do -/

inductive StepsTo (pooled : Bool) (s : Conn) : Event → Conn → Prop where
  | read (reqs : List Incoming) (bad : Bool) (hf : s.fiber = .reading) :
      StepsTo pooled s (.read reqs bad) { s with fiber := .parsing reqs bad }
  | readEof (hf : s.fiber = .reading) : StepsTo pooled s .readEof { s with fiber := .closed }
  | readError (hf : s.fiber = .reading) :
      StepsTo pooled s .readError
        { s with fiber := .writing (errorWriter none .internalServerError) [] false }
  | deliver {r : Incoming} {rest : List Incoming} {bad : Bool}
      (hf : s.fiber = .parsing (r :: rest) bad) :
      StepsTo pooled s .parse (s.handleRequest pooled r rest bad)
  | parsed {bad : Bool} (hf : s.fiber = .parsing [] bad) :
      StepsTo pooled s .parse { s with fiber := if bad then .closed else .reading }
  | runTask {i : Nat} {r : Incoming} {w : Writer} (hr : s.accepted[i]? = some r)
      (hi : i ∈ s.tasks) (hw : handleRequestFunc i r = some w) :
      StepsTo pooled s (.runTask i)
        { s with tasks := s.tasks.erase i, writers := s.writers ++ [w] }
  | deferTask {i : Nat} {r : Incoming} (hr : s.accepted[i]? = some r)
      (hi : i ∈ s.tasks) (hw : handleRequestFunc i r = none) :
      StepsTo pooled s (.runTask i)
        { s with tasks := s.tasks.erase i, deferred := s.deferred ++ [i] }
  | complete {i : Nat} {r : Incoming} (hr : s.accepted[i]? = some r) (hi : i ∈ s.deferred) :
      StepsTo pooled s (.complete i)
        { s with deferred := s.deferred.erase i, writers := s.writers ++ [rspWriter i r false] }
  | write {who : Who} {w : Writer} {n : Nat} (hw : s.writer who = some w) (hn : 0 < n)
      (hle : w.sent + n ≤ w.text.length) :
      StepsTo pooled s (.write who n) { s.setWriter { w with sent := w.sent + n } who with
        out := s.out ++ (w.text.drop w.sent).take n }
  | written {who : Who} {w : Writer} (hw : s.writer who = some w)
      (hall : w.sent = w.text.length) :
      StepsTo pooled s (.written who)
        { s.release w who with answered := s.answered ++ w.req.toList }
  | caught {who : Who} {w : Writer} (hw : s.writer who = some w) (hg : w.guarded = true) :
      StepsTo pooled s (.fail who) (s.setWriter (errorWriter w.req .internalServerError) who)
  | escape {who : Who} {w : Writer} (hw : s.writer who = some w) (hg : w.guarded = false) :
      StepsTo pooled s (.fail who) { s with escaped := true }

theorem stepsTo_of_step {pooled : Bool} {s s' : Conn} {e : Event}
    (h : step pooled s e = some s') : s.escaped = false ∧ StepsTo pooled s e s' := by
  unfold step at h
  split at h
  · simp at h
  · rename_i hs
    refine ⟨by simpa using hs, ?_⟩
    clear hs
    split at h
    · split at h
      · obtain rfl := Option.some.inj h
        exact .read _ _ ‹_›
      · simp at h
    · split at h
      · obtain rfl := Option.some.inj h
        exact .readEof ‹_›
      · simp at h
    · split at h
      · obtain rfl := Option.some.inj h
        exact .readError ‹_›
      · simp at h
    · split at h
      · obtain rfl := Option.some.inj h
        exact .deliver ‹_›
      · obtain rfl := Option.some.inj h
        exact .parsed ‹_›
      · simp at h
    · obtain ⟨r, hr, h⟩ := Option.bind_eq_some_iff.mp h
      split at h
      · split at h <;> obtain rfl := Option.some.inj h
        · exact .runTask hr ‹_› ‹_›
        · exact .deferTask hr ‹_› ‹_›
      · simp at h
    · obtain ⟨r, hr, h⟩ := Option.bind_eq_some_iff.mp h
      split at h
      · obtain rfl := Option.some.inj h
        exact .complete hr ‹_›
      · simp at h
    · obtain ⟨w, hw, h⟩ := Option.bind_eq_some_iff.mp h
      split at h
      · rename_i hn
        obtain rfl := Option.some.inj h
        exact .write hw hn.1 hn.2
      · simp at h
    · obtain ⟨w, hw, h⟩ := Option.bind_eq_some_iff.mp h
      split at h
      · obtain rfl := Option.some.inj h
        exact .written hw ‹_›
      · simp at h
    · obtain ⟨w, hw, h⟩ := Option.bind_eq_some_iff.mp h
      split at h
      · split at h <;> obtain rfl := Option.some.inj h
        · exact .caught hw ‹_›
        · exact .escape hw (by simpa using ‹¬ w.guarded = true›)
      · simp at h

/-! ## Exceptions -/

/-- A write that fails in this step is one inside the `try` of `handleRequestFunc`. -/
def FailsGuarded (s : Conn) : Event → Prop
  | .fail who => ∀ w, s.writer who = some w → w.guarded = true
  | _ => True

theorem handleRequest_escaped (pooled : Bool) (s : Conn) (r : Incoming) (rest : List Incoming)
    (bad : Bool) : (s.handleRequest pooled r rest bad).escaped = s.escaped := by
  simp only [Conn.handleRequest]
  split
  · rfl
  · split
    · rfl
    · split <;> rfl

/-- **The one step that lets an exception out** is a failing write that no `try`
    surrounds. -/
theorem escaped_step {pooled : Bool} {s s' : Conn} {e : Event}
    (h : step pooled s e = some s') : s'.escaped = false ↔ FailsGuarded s e := by
  obtain ⟨hs, h⟩ := stepsTo_of_step h
  cases h with
  | deliver hf => simp [FailsGuarded, handleRequest_escaped, hs]
  | write hw hn hle => simp [FailsGuarded, Conn.setWriter, hs]
  | written hw hall => simp [FailsGuarded, Conn.release, hs]
  | caught hw hg => simp [FailsGuarded, hw, hg, Conn.setWriter, hs]
  | escape hw hg => simp [FailsGuarded, hw, hg]
  | _ => simp [FailsGuarded, hs]

/-- **No exception leaves a server fiber, exactly.**  Along every run of a
    connection, with or without a fiber pool, no exception has left a fiber if and
    only if every write that failed was inside the `try` of `handleRequestFunc`. -/
theorem escaped_eq_false_iff {pooled : Bool} {es : List Event} {s : Conn}
    (h : run (step pooled) {} es = some s) :
    s.escaped = false ↔ Along (step pooled) FailsGuarded {} es := by
  refine run_induction (P := fun es s => s.escaped = false ↔
    Along (step pooled) FailsGuarded {} es) (by simp) ?_ h
  intro es s e s' hes ih he
  have hs := (stepsTo_of_step he).1
  -- the run so far had no exception, or it would have stopped
  rw [along_append hes, along_cons he, escaped_step he]
  simp [ih.mp hs]

/-! ## Which writes are guarded -/

/-- What a fiber writes: the response of a handler that has answered before
    `handleRequestFunc` returned, that of one that completes later, or an error response. -/
inductive Wrote (accepted : List Incoming) : Writer → Prop where
  | response {i : Nat} {r : Incoming} (sent : Nat) (hr : accepted[i]? = some r)
      (hh : r.handler = .sync true ∨ r.handler = .immediate) :
      Wrote accepted { rspWriter i r true with sent := sent }
  | completion {i : Nat} {r : Incoming} (sent : Nat) (hr : accepted[i]? = some r)
      (hh : r.handler = .deferred) : Wrote accepted { rspWriter i r false with sent := sent }
  | error (req : Option Nat) (e : ErrorRsp) (sent : Nat) :
      Wrote accepted { errorWriter req e with sent := sent }

/-- What every fiber writes, and who is to complete. -/
structure Kinds (s : Conn) : Prop where
  conn : ∀ w, s.fiber.writer = some w → Wrote s.accepted w
  pool : ∀ w ∈ s.writers, Wrote s.accepted w
  deferred : ∀ i ∈ s.deferred, ∃ r, s.accepted[i]? = some r ∧ r.handler = .deferred

section Kinds

variable {pooled : Bool} {s s' : Conn} {who : Who} {w : Writer} {accepted : List Incoming}

theorem Wrote.append (h : Wrote accepted w) (r : Incoming) : Wrote (accepted ++ [r]) w := by
  cases h with
  | response sent hr hh => exact .response sent (getElem?_snoc_of_some hr) hh
  | completion sent hr hh => exact .completion sent (getElem?_snoc_of_some hr) hh
  | error req e sent => exact .error req e sent

/-- A write goes on. -/
theorem Wrote.advance (h : Wrote accepted w) (sent : Nat) :
    Wrote accepted { w with sent := sent } := by
  cases h with
  | response _ hr hh => exact .response sent hr hh
  | completion _ hr hh => exact .completion sent hr hh
  | error req e _ => exact .error req e sent

theorem wrote_handleRequestFunc {i : Nat} {r : Incoming} (hr : accepted[i]? = some r)
    (hw : handleRequestFunc i r = some w) : Wrote accepted w := by
  unfold handleRequestFunc at hw
  split at hw
  · obtain rfl := Option.some.inj hw
    exact .error _ _ 0
  · obtain rfl := Option.some.inj hw
    exact .response 0 hr (.inl ‹_›)
  · obtain rfl := Option.some.inj hw
    exact .response 0 hr (.inr ‹_›)
  · obtain rfl := Option.some.inj hw
    exact .error _ _ 0
  · obtain rfl := Option.some.inj hw
    exact .error _ _ 0
  · cases hw

theorem handleRequestFunc_eq_none {i : Nat} {r : Incoming} (h : handleRequestFunc i r = none) :
    r.handler = .deferred := by
  unfold handleRequestFunc at h
  split at h
  case h_6 hdeferred => exact hdeferred
  all_goals cases h

theorem Kinds.accept (h : Kinds s) (r : Incoming) :
    Kinds { s with accepted := s.accepted ++ [r] } where
  conn w hw := (h.conn w hw).append r
  pool w hw := (h.pool w hw).append r
  deferred i hi := by
    obtain ⟨r', hr', hh⟩ := h.deferred i hi
    exact ⟨r', getElem?_snoc_of_some hr', hh⟩

theorem writer_afterRequest {goOn : Bool} {rest : List Incoming} {bad : Bool} :
    (afterRequest goOn rest bad).writer = none := by
  unfold afterRequest
  split <;> rfl

/-- The fiber of the connection goes on without a write. -/
theorem Kinds.fiberMove (h : Kinds s) {f : Fiber} (hf : f.writer = none) :
    Kinds { s with fiber := f } :=
  ⟨fun w hw => by simp [hf] at hw, h.pool, h.deferred⟩

/-- The fiber of the connection starts a write. -/
theorem Kinds.fiberWrite (h : Kinds s) (hw : Wrote s.accepted w) (rest : List Incoming)
    (bad : Bool) : Kinds { s with fiber := .writing w rest bad } :=
  ⟨fun _ hw' => Option.some.inj hw' ▸ hw, h.pool, h.deferred⟩

theorem Kinds.handleRequest (h : Kinds s) (r : Incoming) (rest : List Incoming) (bad : Bool) :
    Kinds (s.handleRequest pooled r rest bad) := by
  have hr : (s.accepted ++ [r])[s.accepted.length]? = some r := by simp
  have hs := h.accept r
  simp only [Conn.handleRequest]
  split
  · exact hs.fiberWrite (.error _ _ 0) rest bad
  · split
    · exact { hs.fiberMove writer_afterRequest with }
    · split
      · exact hs.fiberWrite (wrote_handleRequestFunc hr ‹_›) rest bad
      · exact { hs.fiberMove writer_afterRequest with
          deferred := forall_mem_snoc hs.deferred ⟨r, hr, handleRequestFunc_eq_none ‹_›⟩ }

theorem Kinds.writer (h : Kinds s) (hw : s.writer who = some w) : Wrote s.accepted w := by
  cases who with
  | conn => exact h.conn w hw
  | pool j => exact h.pool w (List.mem_of_getElem? hw)

/-- A fiber's write becomes another one. -/
theorem Kinds.setWriter (h : Kinds s) (hw : Wrote s.accepted w) (who : Who) :
    Kinds (s.setWriter w who) := by
  cases who with
  | conn =>
    refine ⟨fun w' hw' => ?_, h.pool, h.deferred⟩
    have hfiber := h.conn
    simp only [Conn.setWriter] at hw'
    cases hf : s.fiber with
    | writing w₀ rest bad =>
      rw [hf] at hw'
      exact Option.some.inj hw' ▸ hw
    | reading | parsing | closed => simp [hf, Fiber.setWriter, Fiber.writer] at hw'
  | pool j => exact ⟨h.conn, forall_mem_set h.pool hw, h.deferred⟩

theorem Kinds.release (h : Kinds s) (who : Who) : Kinds (s.release w who) := by
  cases who with
  | conn =>
    refine ⟨fun w' hw' => ?_, h.pool, h.deferred⟩
    simp only [Conn.release] at hw'
    cases hf : s.fiber with
    | writing w₀ rest bad => simp [hf, Fiber.release, writer_afterRequest] at hw'
    | reading | parsing | closed => simp [hf, Fiber.release, Fiber.writer] at hw'
  | pool j => exact ⟨h.conn, fun w' hw' => h.pool w' (List.mem_of_mem_eraseIdx hw'), h.deferred⟩

theorem kinds_step {e : Event} (h : Kinds s) (hstep : step pooled s e = some s') : Kinds s' := by
  obtain ⟨-, hstep⟩ := stepsTo_of_step hstep
  cases hstep with
  | read | readEof => exact h.fiberMove rfl
  | readError => exact h.fiberWrite (.error _ _ 0) [] false
  | deliver hf => exact h.handleRequest _ _ _
  | @parsed bad hf => exact h.fiberMove (by cases bad <;> rfl)
  | runTask hr hi hw =>
    exact { h with pool := forall_mem_snoc h.pool (wrote_handleRequestFunc hr hw) }
  | deferTask hr hi hw =>
    exact { h with
      deferred := forall_mem_snoc h.deferred ⟨_, hr, handleRequestFunc_eq_none hw⟩ }
  | @complete i r hr hi =>
    obtain ⟨r', hr', hh⟩ := h.deferred i hi
    obtain rfl : r = r' := Option.some.inj (hr.symm.trans hr')
    exact ⟨h.conn, forall_mem_snoc h.pool (.completion 0 hr hh),
      fun j hj => h.deferred j (List.mem_of_mem_erase hj)⟩
  | write hw => exact { h.setWriter ((h.writer hw).advance _) _ with }
  | written hw => exact { h.release _ with }
  | caught hw => exact h.setWriter (.error _ _ 0) _
  | escape => exact { h with }

/-- **What the `try` surrounds.**  In every run a write is guarded exactly if it is the response
    of a handler that has answered before `handleRequestFunc` returned: neither an error
    response nor that of a handler that completes later. -/
theorem guarded_iff_of_run {es : List Event} (h : run (step pooled) {} es = some s)
    (hw : s.writer who = some w) :
    w.guarded = true ↔ ∃ i r, s.accepted[i]? = some r ∧
      (r.handler = .sync true ∨ r.handler = .immediate) ∧
      w = { rspWriter i r true with sent := w.sent } := by
  have hstart : Kinds {} := ⟨by simp [Fiber.writer], by simp, by simp⟩
  have hkinds : Kinds s := run_inv (fun _ _ _ hs he => kinds_step hs he) hstart h
  constructor
  · intro hg
    cases hkinds.writer hw with
    | response sent hr hh => exact ⟨_, _, hr, hh, rfl⟩
    | completion | error => cases hg
  · rintro ⟨i, r, -, -, hw⟩
    rw [hw]
    rfl

end Kinds

/-- A request whose handler answers at once. -/
def syncRequest : Incoming where
  path := ascii "/commands/check_alive"
  keepAlive := true
  handler := .sync true
  body := ascii "ok"

/-- The response fails inside the `try`, and the error response goes through. -/
def caughtRun : List Event :=
  [.read [syncRequest] false, .parse, .fail .conn, .write .conn 57, .written .conn]

theorem caughtRun_guarded :
    ∃ s, run (step false) {} caughtRun = some s ∧ s.escaped = false ∧
      Along (step false) FailsGuarded {} caughtRun := by
  have h : (run (step false) {} caughtRun).map (·.escaped) = some false := by decide +kernel
  obtain ⟨s, hs, hesc⟩ := Option.map_eq_some_iff.mp h
  exact ⟨s, hs, hesc, (escaped_eq_false_iff hs).mp hesc⟩

/-- A client asks for an unknown path and is gone before the answer. -/
def unknownPathRun : List Event :=
  [.read [{ path := ascii "/nowhere", keepAlive := true, handler := .missing, body := [] }] false,
    .parse, .fail .conn]

/-- The `404` is written outside of any `try`: the exception leaves the fiber. -/
theorem unknownPathRun_escapes :
    ∃ s, run (step false) {} unknownPathRun = some s ∧ s.escaped = true := by
  have h : (run (step false) {} unknownPathRun).map (·.escaped) = some true := by decide +kernel
  exact Option.map_eq_some_iff.mp h

end FiberProxy.Server
