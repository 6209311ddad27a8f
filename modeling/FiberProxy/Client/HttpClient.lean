/-
  FiberProxy.Client.HttpClient

  A pooled HTTP client: `FibpHttpClient::get_response`
  (`forward-manager/FibpClient.cpp`) over the response parser's loop
  (`response::parser_impl::parse`).  The requests go one after another through one
  client; the server answers each of them with interim responses and one final
  response.  The socket gives what the server sent in pieces of any size up to the
  buffer's, then perhaps the end of the stream; an error can come at any time, and so can
  the deadline, which closes the socket.

  The parser and its connection outlive a call.  A call returns at the first end of
  a message, and an interim response is a message: a read that ends just there
  leaves the final response to the next call.  A call also returns when it finds the
  socket closed, and then leaves the parser where it stands: a read that is complete when
  the deadline passes can leave it inside a response.
-/

import FiberProxy.Client.MuxClient
import FiberProxy.Http.AnswerReads

namespace FiberProxy.Client.HttpClient

open Lib Http

/-- The error code of the last read. -/
inductive Ec where
  | clear | eof | aborted | other
deriving DecidableEq, Repr

/-- How a call of `get_response` ended. -/
structure Outcome where
  /-- The return value, `rsp` and `can_retry_`. -/
  result : Result
  closed : Bool
  /-- What the server sent on the connection and the client did not read. -/
  unread : List Octet
deriving DecidableEq, Repr

/-- One client and its connection. -/
structure State where
  /-- `socket_.is_open()`. -/
  isOpen : Bool := false
  /-- Octets that the server sent on the connection and the client did not read. -/
  stream : List Octet := []
  impl : ParserImpl := {}
  /-- The answer to the request of the call under way. -/
  waiting : Option Answer := none
  /-- The calls so far with the answers to their requests. -/
  results : List (Answer × Outcome) := []

inductive Event where
  /-- A request is sent and its answer is to be read. -/
  | request (answer : Answer)
  /-- A read of `n` octets. -/
  | read (n : Nat)
  | eof
  | fail (aborted : Bool)
  /-- `check_deadline` closes the socket.  The read under way fails, unless it is complete. -/
  | deadline

/-- `buf_size`. -/
def bufSize : Nat := 1024

/-- `get_response` after `parse_response` has returned `ret`, with what is in `next_rsp_`. -/
def getResponse (rsp : Received) (ret : Bool) (ec : Ec) : Result :=
  if ret && rsp.code = 200 then { isSuccess := true, rsp := rsp.body, canRetry := true }
  else
    { isSuccess := false
      rsp := if ec = .aborted then timeoutErr else rsp.statusMessage
      canRetry := !(rsp.code = 400 || rsp.code = 404) }

def outcome (isOpen : Bool) (unread : List Octet) (i : ParserImpl) (ret : Bool) (ec : Ec) :
    Outcome where
  result := getResponse i.rsp ret ec
  closed := !isOpen || !i.rsp.keepAlive || ec = .eof || ec = .aborted
  unread := unread

def finish (s : State) (a : Answer) (i : ParserImpl) (ret : Bool) (ec : Ec) : State :=
  { isOpen := !(outcome s.isOpen s.stream i ret ec).closed
    stream := s.stream
    impl := i
    waiting := none
    results := s.results ++ [(a, outcome s.isOpen s.stream i ret ec)] }

/-- A pass of the loop of `parse` after a read of `n` octets, the parser having made `i`
    of them and taken `nparsed`. -/
def parsed (s : State) (a : Answer) (n nparsed : Nat) (i : ParserImpl) : State :=
  if i.shouldContinue = false then
    finish s a (if i.rsp.keepAlive then i else i.init) true .clear
  else if nparsed ≠ n then finish s a i.init false .clear
  -- `is_.is_open()`: the loop is over, without `http_parser_init`
  else if s.isOpen = false then finish s a i true .clear
  else { s with impl := i }

def step (s : State) : Event → Option State
  | .request a =>
    match s.waiting with
    | some _ => none
    | none =>
      -- `send_data` connects again when the socket is closed
      some { s with
        isOpen := true
        stream := (if s.isOpen then s.stream else []) ++ a.octets
        impl := { s.impl with rsp := {}, inStatus := false, shouldContinue := true }
        waiting := some a }
  | .read n =>
    match s.waiting with
    | none => none
    | some a =>
      if 0 < n ∧ n ≤ bufSize ∧ n ≤ s.stream.length then
        some (parsed { s with stream := s.stream.drop n } a n
          (execute s.impl (s.stream.take n)).2 (execute s.impl (s.stream.take n)).1)
      else none
  | .eof =>
    match s.waiting with
    | none => none
    | some a =>
      if s.stream = [] then some (finish s a (executeEof s.impl).init true .eof) else none
  | .fail aborted =>
    match s.waiting with
    | none => none
    | some a => some (finish s a s.impl.init false (if aborted then .aborted else .other))
  | .deadline =>
    match s.waiting with
    | none => none
    | some _ => some { s with isOpen := false }

/-! ## What a call should return -/

/-- The call ends at the end of the final response and returns it. -/
def Answered (a : Answer) (o : Outcome) : Prop :=
  o.unread = [] ∧ o.result =
    if a.final.head.code = 200 then
      { isSuccess := true, rsp := a.final.content, canRetry := true }
    else
      { isSuccess := false, rsp := a.final.text.reason
        canRetry := !(a.final.head.code = 400 || a.final.head.code = 404) }

/-- The connection is closed and an error is reported, with the text of the timeout or
    with (the beginning of) a reason phrase of the answer to this request. -/
def Refused (a : Answer) (o : Outcome) : Prop :=
  o.closed = true ∧ o.result.isSuccess = false ∧
    (o.result.rsp = timeoutErr ∨ ∃ reason ∈ a.reasons, o.result.rsp <+: reason)

/-- Every call so far returned the response to its own request or closed the connection
    with an error. -/
def Matched (s : State) : Prop := ∀ p ∈ s.results, Answered p.1 p.2 ∨ Refused p.1 p.2

/-- No read ends with an interim response that keeps the connection alive, and no
    response that could end early carries an `Upgrade` field. -/
def PastInterims (s : State) : Event → Prop
  | .request a => a.NoUpgrade
  | .read n => ∀ h, (s.stream.take n).getLast? = some (.headEnd h) → h.interim = true →
      h.keepAlive = false
  | _ => True

/-- A read that is complete when the deadline closes the socket completes the response, or
    the parser refuses it. -/
def InTime (s : State) : Event → Prop
  | .read n => s.isOpen = false →
      (execute s.impl (s.stream.take n)).1.shouldContinue = false ∨
        (execute s.impl (s.stream.take n)).2 ≠ n
  | _ => True

/-- What keeps a client in step with its server. -/
def Orderly (s : State) (e : Event) : Prop := PastInterims s e ∧ InTime s e

/-- The last octet, seen as the end of a header that keeps the connection alive. -/
def endsInterim : Option Octet → Bool
  | some (.headEnd h) => h.interim && h.keepAlive
  | _ => false

instance (s : State) (e : Event) : Decidable (PastInterims s e) :=
  match e with
  | .request a => inferInstanceAs (Decidable a.NoUpgrade)
  | .read n =>
    decidable_of_iff (endsInterim (s.stream.take n).getLast? = false) <| by
      unfold PastInterims endsInterim
      split
      · simp_all
      · simp_all
  | .eof | .fail _ | .deadline => .isTrue trivial

instance (s : State) (e : Event) : Decidable (InTime s e) :=
  match e with
  | .read n => inferInstanceAs (Decidable (s.isOpen = false →
      (execute s.impl (s.stream.take n)).1.shouldContinue = false ∨
        (execute s.impl (s.stream.take n)).2 ≠ n))
  | .request _ | .eof | .fail _ | .deadline => .isTrue trivial

instance (s : State) (e : Event) : Decidable (Orderly s e) :=
  inferInstanceAs (Decidable (PastInterims s e ∧ InTime s e))

/-! ## One call -/

/-- A call under way has read `w` of its answer and holds no response yet. -/
structure Reading (s : State) (a : Answer) (w : List Octet) : Prop where
  upgrade : a.NoUpgrade
  split : w ++ s.stream = a.octets
  parsed : execute {} w = (s.impl, w.length)
  continues : s.impl.shouldContinue = true
  reads : Reads a w s.impl

structure Inv (s : State) : Prop where
  matched : Matched s
  idle : s.waiting = none → s.impl.parser = .start ∧ (s.isOpen = true → s.stream = [])
  reading : ∀ a, s.waiting = some a → ∃ w, Reading s a w

section Finish

variable {s : State} {a : Answer} {i : ParserImpl} {ret : Bool} {ec : Ec}

theorem matched_finish (hs : Matched s)
    (h : Answered a (outcome s.isOpen s.stream i ret ec) ∨
      Refused a (outcome s.isOpen s.stream i ret ec)) :
    Matched (finish s a i ret ec) := forall_mem_snoc hs h

/-- No response was there to take: the connection closes and the call fails. -/
theorem inv_finish_pending (hs : Matched s) (hcode : i.rsp.code ≠ 200)
    (halive : i.rsp.keepAlive = false)
    (hreason : ∃ reason ∈ a.reasons, i.rsp.statusMessage <+: reason) :
    Inv (finish s a i.init ret ec) := by
  have hclosed : (outcome s.isOpen s.stream i.init ret ec).closed = true := by
    simp [outcome, ParserImpl.init, halive]
  refine ⟨matched_finish hs (.inr ⟨hclosed, ?_, ?_⟩), fun _ => ⟨rfl, ?_⟩, by simp [finish]⟩
  · simp [outcome, getResponse, ParserImpl.init, hcode]
  · by_cases hec : ec = .aborted
    · exact .inl (by simp [outcome, getResponse, ParserImpl.init, hcode, hec])
    · exact .inr (by simpa [outcome, getResponse, ParserImpl.init, hcode, hec] using hreason)
  · simp [finish, hclosed]

/-- The final response is there and nothing is left of the answer. -/
theorem inv_finish_complete (hs : Matched s) (hstream : s.stream = [])
    (hrsp : i.rsp = a.final.rsp) (hparser : i.parser = .start) (hec : ec ≠ .aborted) :
    Inv (finish s a i true ec) := by
  refine ⟨matched_finish hs (.inl ⟨hstream, ?_⟩), fun _ => ⟨hparser, fun _ => hstream⟩,
    by simp [finish]⟩
  by_cases hcode : a.final.head.code = 200
  · simp [outcome, getResponse, hrsp, Final.rsp, hcode]
  · simp [outcome, getResponse, hrsp, Final.rsp, hcode, hec]

end Finish

/-! ## Every step, every run -/

section Step

variable {s s' : State} {a : Answer} {w : List Octet}

theorem inv_request (h : Inv s) (hwait : s.waiting = none) (hup : a.NoUpgrade)
    (hs' : s' = { s with
      isOpen := true
      stream := (if s.isOpen then s.stream else []) ++ a.octets
      impl := { s.impl with rsp := {}, inStatus := false, shouldContinue := true }
      waiting := some a }) : Inv s' := by
  obtain ⟨hparser, hstream⟩ := h.idle hwait
  have hempty : (if s.isOpen then s.stream else []) = [] := by
    split
    · exact hstream ‹_›
    · rfl
  have himpl : ({ s.impl with rsp := {}, inStatus := false, shouldContinue := true } : ParserImpl) =
      {} := by simp [hparser]
  rw [hempty, himpl] at hs'
  subst hs'
  refine ⟨h.matched, by simp, ?_⟩
  rintro _ ⟨rfl⟩
  refine ⟨[], hup, rfl, rfl, rfl, .pending (by simp) rfl ⟨a.final.text.reason, ?_, ?_⟩ (by simp)⟩
  · simp [Answer.reasons]
  · exact List.nil_prefix

theorem inv_read {n : Nat} (hs : Matched s) (hr : Reading s a w) (hwait : s.waiting = some a)
    (hn : 0 < n) (hlen : n ≤ s.stream.length) (horderly : Orderly s (.read n)) :
    Inv (parsed { s with stream := s.stream.drop n } a n
      (execute s.impl (s.stream.take n)).2 (execute s.impl (s.stream.take n)).1) := by
  have hprefix : w ++ s.stream.take n <+: a.octets := by
    rw [← hr.split]
    exact (List.prefix_append_right_inj w).mpr (List.take_prefix n s.stream)
  have hs' : Matched { s with stream := s.stream.drop n } := hs
  have happend := execute_append hr.parsed hr.continues (s.stream.take n)
  have hreads := reads_append a hr.upgrade hr.parsed hr.continues hprefix
    (take_ne_nil hn hlen) horderly.1
  have hintime : s.isOpen = false → (execute s.impl (s.stream.take n)).1.shouldContinue = false ∨
      (execute s.impl (s.stream.take n)).2 ≠ n := horderly.2
  generalize (execute s.impl (s.stream.take n)).1 = i at happend hreads hintime ⊢
  generalize (execute s.impl (s.stream.take n)).2 = m at happend hintime ⊢
  unfold parsed
  cases hreads with
  | pending hcode halive hreason heof =>
    split
    · simpa [halive] using inv_finish_pending hs' hcode halive hreason
    · rename_i hcont
      split
      · exact inv_finish_pending hs' hcode halive hreason
      · -- the socket is open, and the call goes on reading
        rename_i hm
        have hopen : ¬ s.isOpen = false := fun hclosed => (hintime hclosed).elim hcont hm
        have hm : m = n := by simpa using hm
        rw [if_neg hopen]
        refine ⟨hs', by simp [hwait], ?_⟩
        rintro _ hwait'
        obtain rfl : a = _ := Option.some.inj (hwait.symm.trans hwait')
        refine ⟨w ++ s.stream.take n, hr.upgrade, ?_, ?_, by simpa using hcont,
          .pending hcode halive hreason heof⟩
        · rw [List.append_assoc, List.take_append_drop, hr.split]
        · rw [happend, hm, List.length_append, List.length_take, Nat.min_eq_left hlen,
            Nat.add_comm]
  | complete hw hrsp hparser hdone =>
    have hstream : s.stream.drop n = [] := by
      have := hr.split.trans hw.symm
      rw [List.append_cancel_left_eq] at this
      simpa using this
    rw [if_pos hdone]
    apply inv_finish_complete hs' hstream
    · split <;> exact hrsp
    · split
      · exact hparser ‹_›
      · rfl
    · simp

theorem inv_eof (hs : Matched s) (hr : Reading s a w) (hstream : s.stream = []) :
    Inv (finish s a (executeEof s.impl).init true .eof) := by
  have hw : w = a.octets := by simpa [hstream] using hr.split
  cases hr.reads with
  | pending hcode halive hreason heof =>
    unfold executeEof
    split
    · rename_i h hparser
      exact inv_finish_complete hs hstream (heof h hparser hw) rfl (by simp)
    all_goals exact inv_finish_pending hs hcode halive hreason
  | complete _ _ _ hdone => simp [hr.continues] at hdone

theorem inv_fail (hs : Matched s) (hr : Reading s a w) (ec : Ec) :
    Inv (finish s a s.impl.init false ec) := by
  cases hr.reads with
  | pending hcode halive hreason _ => exact inv_finish_pending hs hcode halive hreason
  | complete _ _ _ hdone => simp [hr.continues] at hdone

/-- The deadline closes the socket; what was read stays. -/
theorem inv_deadline (h : Inv s) (hwait : s.waiting = some a) :
    Inv { s with isOpen := false } := by
  refine ⟨h.matched, fun hnone => ?_, fun b hb => ?_⟩
  · simp [hwait] at hnone
  · obtain ⟨w, hr⟩ := h.reading b hb
    exact ⟨w, hr.upgrade, hr.split, hr.parsed, hr.continues, hr.reads⟩

theorem inv_step {e : Event} (h : Inv s) (horderly : Orderly s e)
    (hstep : step s e = some s') : Inv s' := by
  unfold step at hstep
  split at hstep
  · split at hstep
    · simp at hstep
    · exact inv_request h ‹_› horderly.1 (Option.some.inj hstep).symm
  all_goals
    split at hstep
    · simp at hstep
    rename_i hwait
    obtain ⟨w, hr⟩ := h.reading _ hwait
  · split at hstep
    · rename_i hn
      obtain rfl := Option.some.inj hstep
      exact inv_read h.matched hr hwait hn.1 hn.2.2 horderly
    · simp at hstep
  · split at hstep
    · obtain rfl := Option.some.inj hstep
      exact inv_eof h.matched hr ‹_›
    · simp at hstep
  · obtain rfl := Option.some.inj hstep
    exact inv_fail h.matched hr _
  · obtain rfl := Option.some.inj hstep
    exact inv_deadline h hwait

/-- **Responses match requests.** In every run in which no read ends with an interim
    response that keeps the connection alive, no response that could end early carries an
    `Upgrade` field, and no read that is complete when the deadline passes ends inside a
    response, every call returns the final response to its own request or closes the
    connection with an error. -/
theorem matched_of_orderly {es : List Event} {t : State}
    (horderly : Along step Orderly {} es) (hrun : run step {} es = some t) : Matched t :=
  (run_inv_along (fun _ _ _ h hp hs => inv_step h hp hs)
    ⟨by simp [Matched], fun _ => ⟨rfl, by simp⟩, by simp⟩ horderly hrun).matched

end Step

/-! ## A response that goes to the next request -/

/-- `HTTP/1.1 100 Continue`. -/
def continueRsp : Interim where
  text := { version := ascii "TTP/1.1 100 ", reason := ascii "Continue"
            fields := (ascii "\r\n\r").map (·, true) }
  head := { code := 100, persistent := true, upgrade := false, framing := .unframed }
  interim := rfl
  bare := rfl

/-- `HTTP/1.1 200 OK` with a body of one octet. -/
def okRsp (b : UInt8) : Final where
  method := .get
  text := { version := ascii "TTP/1.1 200 ", reason := ascii "OK"
            fields := (ascii "\r\nContent-Length: 1\r\n\r").map (·, true) }
  head := { code := 200, persistent := true, upgrade := false, framing := .length 1 }
  content := [b]
  body := [.data b]
  final := rfl
  framed := by simp [FramedAs]

/-- Two requests; the answer to the first begins with an interim response. -/
def firstAnswer : Answer := ⟨[continueRsp], okRsp 120⟩

def secondAnswer : Answer := ⟨[], okRsp 121⟩

/-- Two requests are answered, the second one in a read that the deadline no longer stops;
    the read of a third one fails with it. -/
def wholeReads : List Event :=
  [.request firstAnswer, .read 64, .request secondAnswer, .read 20, .deadline, .read 19,
    .request secondAnswer, .read 5, .deadline, .fail true]

theorem wholeReads_matched :
    ∃ s, run step {} wholeReads = some s ∧
      s.results.map (·.2.result) =
        [⟨true, [120], true⟩, ⟨true, [121], true⟩, ⟨false, timeoutErr, true⟩] ∧ Matched s := by
  have hresults : (run step {} wholeReads).map (fun s => s.results.map (·.2.result)) =
      some [⟨true, [120], true⟩, ⟨true, [121], true⟩, ⟨false, timeoutErr, true⟩] := by
    decide +kernel
  obtain ⟨s, hrun, hs⟩ := Option.map_eq_some_iff.mp hresults
  exact ⟨s, hrun, hs, matched_of_orderly (by decide +kernel) hrun⟩

/-- **A response goes to the next request.** The first read ends with the interim
    response; the second call then returns the first request's body. -/
theorem interimRead_mismatched :
    ∃ s, run step {} [.request firstAnswer, .read 25, .request secondAnswer, .read 39] = some s ∧
      s.results.map (·.2.result) =
        [⟨false, ascii "Continue", true⟩, ⟨true, firstAnswer.final.content, true⟩] ∧
      ¬ Matched s := by
  have hresults :
      (run step {} [.request firstAnswer, .read 25, .request secondAnswer, .read 39]).map
        (fun s => s.results.map fun p =>
          (p.1.final.head.code, p.2.result, p.2.closed, p.2.unread)) =
      some [(200, ⟨false, ascii "Continue", true⟩, false, (okRsp 120).octets),
        (200, ⟨true, [120], true⟩, false, (okRsp 121).octets)] := by decide +kernel
  obtain ⟨s, hrun, hs⟩ := Option.map_eq_some_iff.mp hresults
  refine ⟨s, hrun, ?_, fun hmatched => ?_⟩
  · have := congrArg (List.map fun p => p.2.1) hs
    simpa [Function.comp_def, firstAnswer, okRsp] using this
  · have hmem : (200, (⟨true, [120], true⟩ : Result), false, (okRsp 121).octets) ∈
        s.results.map fun p => (p.1.final.head.code, p.2.result, p.2.closed, p.2.unread) := by
      rw [hs]
      simp
    obtain ⟨p, hp, heq⟩ := List.mem_map.mp hmem
    simp only [Prod.mk.injEq] at heq
    obtain ⟨-, -, hclosed, hunread⟩ := heq
    rcases hmatched p hp with ⟨hnil, -⟩ | ⟨hclosed', -⟩
    · rw [hnil] at hunread
      simp [Final.octets, HeadText.octets] at hunread
    · simp [hclosed] at hclosed'

-- The deadline passes while a read of 38 of the 39 octets is complete, so the parser still
-- wants one octet of the body when the next request is sent, on a new connection: the call
-- returns the `H` of its own response as the body of a success.
example : (run step {} [.request secondAnswer, .deadline, .read 38, .request firstAnswer,
      .read 1]).map (fun s => s.results.map (·.2.result)) =
    some [⟨false, ascii "OK", true⟩, ⟨true, ascii "H", true⟩] := by decide +kernel

end FiberProxy.Client.HttpClient
