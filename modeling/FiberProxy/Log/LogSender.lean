/-
  FiberProxy.Log.LogSender

  How the sender of the call logs posts them (`FibpLogger::sendLogToDB`,
  `log-manager/FibpLogger.cpp`): one `request_t` serves all turns of the loop, each
  turn gives it a new body and hands it to `send_http_request` of the client of the
  log server.  After a failure `findLogService` may put a client of another server
  in its place; after a success `get_response` writes over the body.

  `send_http_request` pushes a `Host` header on the request it is given, and nobody
  takes it off again: a request carries the `Host` headers of all the requests
  before it (`headers_sent`).
-/

import FiberProxy.Http.RequestText
import FiberProxy.Lib.Lists
import FiberProxy.Lib.Run

namespace FiberProxy.Log

open Lib Lib.Http1 Http

/-- The host and the port of a client. -/
structure Server where
  host : Bytes
  port : Bytes
deriving DecidableEq, Repr

/-- `req` before the loop. -/
def logReq : RequestT where
  method := .post
  path := ascii "/db/FIBP/series?u=root&p=root&time_precision=u"
  keepAlive := true
  headers := [(ascii "Content-Type", ascii "application/json")]

/-- A request that was handed to the session. -/
structure Sent where
  server : Server
  req : RequestT
  text : Bytes
deriving DecidableEq, Repr

namespace Sender

/-- `log_client_`, `req` and the requests so far. -/
structure State where
  client : Server
  req : RequestT := logReq
  sent : List Sent := []
  running : Bool := true
deriving DecidableEq, Repr

/-- How a post ends. -/
inductive Posted where
  /-- `send_http_request` returns false; `findLogService` finds this server, if any. -/
  | failed (found : Option Server)
  /-- What `get_response` leaves in the body, whether it succeeds or not. -/
  | answered (rsp : Bytes)
deriving DecidableEq, Repr

/-- A turn of the loop. -/
inductive Event where
  /-- No log is ready. -/
  | idle
  | post (items : Bytes) (posted : Posted)
  /-- `need_stop_` is set, or the fiber is interrupted. -/
  | stop
deriving DecidableEq, Repr

/-- `FibpLogger::findLogService`: with the same host and port the client stays. -/
def findLogService (client : Server) : Option Server → Server
  | none => client
  | some found => if client = found then client else found

/-- The logs are written to the body and the request is sent. -/
def post (s : State) (items : Bytes) (posted : Posted) : State :=
  -- `http_req` is a reference: the header pushed there stays on `req`
  let (req, text) := sendHttpRequest s.client.host s.client.port { s.req with body := items }
  let sent := s.sent ++ [{ server := s.client, req := req, text := text }]
  match posted with
  | .failed found => { s with client := findLogService s.client found, req := req, sent := sent }
  | .answered rsp => { s with req := { req with body := rsp }, sent := sent }

def step (s : State) (e : Event) : Option State :=
  if s.running then
    match e with
    | .idle => some s
    | .post items posted => some (post s items posted)
    | .stop => some { s with running := false }
  else none

/-! ## The headers -/

def isHost (h : Header) : Bool := h.1 == ascii "Host"

/-- The header that `send_http_request` pushes. -/
def hostHeader (s : Sent) : Header := (ascii "Host", hostText s.server.host s.server.port)

/-- What is printed of `headers_`. -/
def headerBlock (r : RequestT) : Bytes := r.headers.flatMap fun h => headerText h ++ crlf

/-- The request has one `Host` header, which names the server it is sent to; its other
    headers are those of the first request, and so is the size of the headers, but for
    the name of the server. -/
def OneHost (first s : Sent) : Prop :=
  s.req.headers.filter isHost = [hostHeader s] ∧
    s.req.headers.filter (fun h => !isHost h) = first.req.headers.filter (fun h => !isHost h) ∧
    (headerBlock s.req).length + (hostHeader first).2.length =
      (headerBlock first.req).length + (hostHeader s).2.length

instance (first s : Sent) : Decidable (OneHost first s) := inferInstanceAs (Decidable (_ ∧ _ ∧ _))

/-- The headers of the request are its own and a `Host` header for each post so far. -/
structure Inv (s : State) : Prop where
  headers : s.req.headers = logReq.headers ++ s.sent.map hostHeader
  sent : ∀ n r, s.sent[n]? = some r →
    r.req.headers = logReq.headers ++ (s.sent.take (n + 1)).map hostHeader
  text : ∀ r ∈ s.sent, r.text = r.req.toBytes

theorem inv_sent {s s' : State} {r : Sent} (h : Inv s)
    (hr : r.req.headers = s.req.headers ++ [hostHeader r]) (htext : r.text = r.req.toBytes)
    (hsent : s'.sent = s.sent ++ [r]) (hreq : s'.req.headers = r.req.headers) : Inv s' := by
  have hnew : r.req.headers = logReq.headers ++ s'.sent.map hostHeader := by
    simp [hr, h.headers, hsent]
  refine ⟨hreq.trans hnew, fun n x hx => ?_, ?_⟩
  · rw [hsent] at hx ⊢
    rcases Nat.lt_or_ge n s.sent.length with hn | hn
    · rw [List.getElem?_append_left hn] at hx
      rw [List.take_append_of_le_length hn]
      exact h.sent n x hx
    · -- the last one
      rw [List.getElem?_append_right hn, List.getElem?_singleton] at hx
      obtain ⟨hzero, hx⟩ := Option.ite_none_right_eq_some.mp hx
      obtain rfl := Option.some.inj hx
      rw [List.take_of_length_le (by simp; omega), hnew, hsent]
  · rw [hsent]
    exact forall_mem_snoc h.text htext

theorem inv_step {s s' : State} {e : Event} (h : Inv s) (hstep : step s e = some s') : Inv s' := by
  obtain ⟨-, he⟩ := Option.ite_none_right_eq_some.mp hstep
  cases e with
  | idle => exact Option.some.inj he ▸ h
  | stop =>
    obtain rfl := Option.some.inj he
    exact ⟨h.headers, h.sent, h.text⟩
  | post items posted =>
    obtain rfl := Option.some.inj he
    cases posted with
    | failed found => exact inv_sent h rfl rfl rfl rfl
    | answered rsp => exact inv_sent h rfl rfl rfl rfl

theorem inv_init (client : Server) : Inv { client } := ⟨rfl, by simp, by simp⟩

/-- **The headers of a request**: the `n`-th one has the `Host` headers of all requests up
    to it. -/
theorem headers_sent {client : Server} {es : List Event} {t : State}
    (hrun : run step { client } es = some t) {n : Nat} {s : Sent} (hs : t.sent[n]? = some s) :
    s.req.headers = logReq.headers ++ (t.sent.take (n + 1)).map hostHeader ∧
      s.text = s.req.toBytes := by
  have hinv := run_inv (fun _ _ _ h hstep => inv_step h hstep) (inv_init client) hrun
  exact ⟨hinv.sent n s hs, hinv.text s (List.mem_of_getElem? hs)⟩

theorem filter_isHost_map (l : List Sent) :
    (l.map hostHeader).filter isHost = l.map hostHeader := by
  rw [List.filter_eq_self]
  intro h hh
  obtain ⟨s, -, rfl⟩ := List.mem_map.mp hh
  rfl

/-- **A request has one `Host` header iff it is the first.** -/
theorem oneHost_iff_first {client : Server} {es : List Event} {t : State}
    (hrun : run step { client } es = some t) {first s : Sent} (hfirst : t.sent[0]? = some first)
    {n : Nat} (hs : t.sent[n]? = some s) : OneHost first s ↔ n = 0 := by
  have hhosts : s.req.headers.filter isHost = (t.sent.take (n + 1)).map hostHeader := by
    rw [(headers_sent hrun hs).1, List.filter_append, filter_isHost_map]
    rfl
  constructor
  · rintro ⟨hone, -⟩
    have hlen := congrArg List.length (hhosts.symm.trans hone)
    have hn : n < t.sent.length := (List.getElem?_eq_some_iff.mp hs).1
    simp only [List.length_map, List.length_take, List.length_singleton] at hlen
    omega
  · rintro rfl
    obtain rfl : first = s := Option.some.inj (hfirst.symm.trans hs)
    refine ⟨?_, rfl, rfl⟩
    rw [hhosts]
    cases hsent : t.sent with
    | nil => simp [hsent] at hs
    | cons a l =>
      rw [hsent] at hs
      obtain rfl := Option.some.inj hs
      rfl

/-- Two log servers. -/
def dbOne : Server := ⟨ascii "10.0.0.5", ascii "8086"⟩

def dbTwo : Server := ⟨ascii "10.0.0.6", ascii "8086"⟩

/-- Two posts; the first fails, and the log service is found on another server. -/
def twoPosts : List Event :=
  [.post (ascii "[1]") (.failed (some dbTwo)), .idle, .post (ascii "[2]") (.answered [])]

theorem run_twoPosts :
    ∃ t first second, run step { client := dbOne } twoPosts = some t ∧ t.sent = [first, second] ∧
      second.server = dbTwo ∧
      second.req.headers = [(ascii "Content-Type", ascii "application/json"),
        (ascii "Host", ascii "10.0.0.5:8086"), (ascii "Host", ascii "10.0.0.6:8086")] := by
  have hview : (run step { client := dbOne } twoPosts).map
      (fun t => t.sent.map fun s => (s.server, s.req.headers)) =
      some [(dbOne, [(ascii "Content-Type", ascii "application/json"),
          (ascii "Host", ascii "10.0.0.5:8086")]),
        (dbTwo, [(ascii "Content-Type", ascii "application/json"),
          (ascii "Host", ascii "10.0.0.5:8086"), (ascii "Host", ascii "10.0.0.6:8086")])] := by
    decide +kernel
  obtain ⟨t, hrun, hsent⟩ := Option.map_eq_some_iff.mp hview
  obtain ⟨first, rest, hsent, -, hrest⟩ := List.map_eq_cons_iff.mp hsent
  obtain ⟨second, tail, rfl, hsecond, htail⟩ := List.map_eq_cons_iff.mp hrest
  obtain rfl := List.map_eq_nil_iff.mp htail
  exact ⟨t, first, second, hrun, hsent, (Prod.mk.inj hsecond).1, (Prod.mk.inj hsecond).2⟩

theorem twoPosts_oneHost :
    ∃ t first, run step { client := dbOne } twoPosts = some t ∧ t.sent[0]? = some first ∧
      OneHost first first := by
  obtain ⟨t, first, second, hrun, hsent, -⟩ := run_twoPosts
  have hfirst : t.sent[0]? = some first := by rw [hsent]; rfl
  exact ⟨t, first, hrun, hfirst, (oneHost_iff_first hrun hfirst hfirst).mpr rfl⟩

/-- **The second request has two `Host` headers**, the first of which names the server of
    the first request. -/
theorem twoPosts_twoHosts :
    ∃ t first second, run step { client := dbOne } twoPosts = some t ∧ t.sent = [first, second] ∧
      second.server = dbTwo ∧
      second.req.headers.filter isHost = [(ascii "Host", ascii "10.0.0.5:8086"),
        (ascii "Host", ascii "10.0.0.6:8086")] ∧
      ¬ OneHost first second := by
  obtain ⟨t, first, second, hrun, hsent, hserver, hheaders⟩ := run_twoPosts
  have hhosts : second.req.headers.filter isHost = [(ascii "Host", ascii "10.0.0.5:8086"),
      (ascii "Host", ascii "10.0.0.6:8086")] := by
    rw [hheaders]
    decide +kernel
  refine ⟨t, first, second, hrun, hsent, hserver, hhosts, fun hone => ?_⟩
  have := hhosts.symm.trans hone.1
  simp at this

end Sender

end FiberProxy.Log
