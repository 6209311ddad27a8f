/-
  FiberProxy.Http.ResponseReads

  The reads of `response::parser_impl` (`HttpProtocolHandler.cpp`): `http_parser_execute`
  for responses with the callbacks that fill `response_`.  What they have put together is
  what the parser has reported since the last `message_begin`, after any bytes
  (`leaves_byteRun`) and so after any reads (`leaves_execute`).  After a read the parser goes
  on, or it has left early for another protocol, or it has refused a byte.
-/

import FiberProxy.Http.ReadLoops
import FiberProxy.Http.ResponseParser
import FiberProxy.Http.ResponseSide

namespace FiberProxy.Http.ByteParser

open Lib
open HttpParser (takesBody Marked)

/-! ## The callbacks -/

/-- A callback of `response::parser_impl`. -/
def onEvent (r : Reception) : Event → Reception
  | .messageBegin => r.onMsgBegin
  | .data .url _ | .headersComplete => r
  | .data .status piece => r.onStatusComplete piece
  | .data .headerField _ | .data .headerValue _ => r.onHeader
  | .data .body piece => r.onBody piece
  | .messageComplete p => r.onMsgComplete p.statusCode p.shouldKeepAlive

/-- What the parser has reported since the last `message_begin`: the fragments of the reason
    phrase and of the body, each put together, and the parser at `message_complete`. -/
structure Reported where
  status : Bytes := []
  body : Bytes := []
  complete : Option HttpParser := none
deriving DecidableEq, Repr

def Reported.add (t : Reported) : Event → Reported
  | .messageBegin => {}
  | .data .status piece => { t with status := t.status ++ piece }
  | .data .body piece => { t with body := t.body ++ piece }
  | .data _ _ | .headersComplete => t
  | .messageComplete p => { t with complete := some p }

/-- What the callbacks make of a response is what was reported of it; only of the reason
    phrase it may be the last fragments. -/
structure Holds (r : Reception) (t : Reported) : Prop where
  body : r.rsp.body = t.body
  code : r.rsp.code = (t.complete.map (·.statusCode)).getD 504
  alive : r.rsp.keepAlive = t.complete.any (·.shouldKeepAlive)
  status : r.rsp.statusMessage <:+ t.status
  pending : r.shouldContinue = true → t.complete = none

theorem holds_start : Holds {} {} := ⟨rfl, rfl, rfl, List.suffix_rfl, fun _ => rfl⟩

theorem Holds.on {r : Reception} {t : Reported} (h : Holds r t) (e : Event) :
    Holds (onEvent r e) (t.add e) := by
  match e with
  | .messageBegin => exact ⟨rfl, rfl, rfl, List.suffix_rfl, fun _ => rfl⟩
  | .data .url _ | .headersComplete => exact h
  | .data .headerField _ | .data .headerValue _ =>
    exact ⟨h.body, h.code, h.alive, h.status, h.pending⟩
  | .data .body piece =>
    exact ⟨congrArg (· ++ piece) h.body, h.code, h.alive, h.status, h.pending⟩
  | .data .status piece =>
    refine ⟨h.body, h.code, h.alive, ?_, h.pending⟩
    obtain ⟨x, hx⟩ := h.status
    simp only [onEvent, Reception.onStatusComplete, Reported.add, ← hx]
    split
    · exact ⟨x, by simp⟩
    · exact ⟨x ++ r.rsp.statusMessage, rfl⟩
  | .messageComplete p => exact ⟨h.body, rfl, rfl, h.status, fun hc => by cases hc⟩

theorem Holds.foldl {r : Reception} {t : Reported} (h : Holds r t) (es : List Event) :
    Holds (es.foldl onEvent r) (es.foldl Reported.add t) := by
  induction es generalizing r t with
  | nil => exact h
  | cons e es ih => exact ih (h.on e)

theorem joins_onEvent : Joins onEvent := by
  intro r part x y
  cases part with
  | status => by_cases hr : r.inStatus = true <;> simp [onEvent, Reception.onStatusComplete, hr]
  | url | headerField | headerValue | body => simp [onEvent, Reception.onHeader, Reception.onBody]

theorem joins_add : Joins Reported.add := by
  intro t part x y
  cases part <;> simp [Reported.add]

/-! ## Any bytes -/

/-- The parser, the callbacks and what was reported, after the bytes `bs` of a call. -/
structure Follows (z : Zone) (bs : Bytes) (p : HttpParser) (r : Reception) (t : Reported) :
    Prop where
  inv : p.Inv
  zone : p.In z
  holds : Holds r t
  status : r.rsp.statusMessage = t.status
  line : z = .line → t.status = []
  inStatus : z = .status → r.inStatus = true
  /-- A response that keeps the connection alive is there until the next one begins. -/
  alive : r.rsp.keepAlive = true → z = .start ∧ p.upgrade = false
  /-- A parser that is where a message begins has seen only ends of lines. -/
  blank : r.shouldContinue = true → (z = .start ↔ ∀ b ∈ bs, b = 13 ∨ b = 10)

/-- What events of the fields and of a body leave alone. -/
theorem foldl_ofContent {es : List Event} (hes : ∀ e ∈ es, e.ofContent = true) (r : Reception)
    (t : Reported) :
    (es.foldl onEvent r).rsp.statusMessage = r.rsp.statusMessage ∧
      (es.foldl onEvent r).rsp.keepAlive = r.rsp.keepAlive ∧
      (es.foldl onEvent r).shouldContinue = r.shouldContinue ∧
      (es.foldl Reported.add t).status = t.status := by
  induction es generalizing r t with
  | nil => exact ⟨rfl, rfl, rfl, rfl⟩
  | cons e es ih =>
    obtain ⟨he, hes⟩ := List.forall_mem_cons.mp hes
    obtain ⟨hsm, halive, hcont, hstatus⟩ := ih hes (onEvent r e) (t.add e)
    rw [List.foldl_cons, List.foldl_cons, hsm, halive, hcont, hstatus]
    match e with
    | .data .headerField _ | .data .headerValue _ | .data .body _ | .headersComplete =>
      exact ⟨rfl, rfl, rfl, rfl⟩
    | .messageBegin | .messageComplete _ | .data .url _ | .data .status _ => cases he

section Follows

variable {z : Zone} {bs : Bytes} {p : HttpParser} {r : Reception} {t : Reported}

/-- What a byte of the reason phrase does: the phrase begins here, or its beginning is there. -/
theorem foldl_ofStatus {es : List Event} {b : UInt8}
    (hphrase : r.inStatus = true ∨ r.rsp.statusMessage = []) (hr : r.rsp.statusMessage = t.status)
    (hes : es = [.data .status [], .data .status [b]] ∨
      r.inStatus = true ∧ es = [.data .status [b]]) :
    (es.foldl onEvent r).rsp.statusMessage = (es.foldl Reported.add t).status ∧
      (es.foldl onEvent r).inStatus = true ∧
      (es.foldl onEvent r).rsp.keepAlive = r.rsp.keepAlive ∧
      (es.foldl onEvent r).shouldContinue = r.shouldContinue := by
  rcases hes with rfl | ⟨hin, rfl⟩
  · rcases hphrase with hin | hnil
    · simp [onEvent, Reception.onStatusComplete, Reported.add, hin, hr]
    · have ht : t.status = [] := hr.symm.trans hnil
      cases hin : r.inStatus <;>
        simp [onEvent, Reception.onStatusComplete, Reported.add, hin, hnil, ht]
  · simp [onEvent, Reception.onStatusComplete, Reported.add, hin, hr]

theorem Follows.not_blank (h : Follows z bs p r t) (hz : z ≠ .start) (b : UInt8)
    (hcont : r.shouldContinue = true) : ¬ ∀ c ∈ bs ++ [b], c = 13 ∨ c = 10 := by
  intro hall
  exact hz ((h.blank hcont).mpr fun c hc => hall c (List.mem_append_left _ hc))

theorem Follows.not_alive (h : Follows z bs p r t) (hz : z ≠ .start) : r.rsp.keepAlive = false := by
  by_contra halive
  exact hz (h.alive (by simpa using halive)).1

theorem inv_of_advance (h : p.Inv) {b : UInt8} {fed : Fed} (hfed : fed = (p.count.advance b 1).2)
    (hv : fed.verdict ≠ .error) : fed.parser.Inv := by
  have htaken := taken_advance h (.inl rfl) b 1
  rw [← hfed] at htaken
  exact htaken.inv hv

/-- **One byte.** -/
theorem Follows.byte (h : Follows z bs p r t) (b : UInt8) {fed : Fed}
    (hfed : fed = (p.count.advance b 1).2) (hnext : fed.verdict = .next) :
    ∃ z', Follows z' (bs ++ [b]) fed.parser ((fed.events p.state [b]).foldl onEvent r)
      ((fed.events p.state [b]).foldl Reported.add t) := by
  have hinv : fed.parser.Inv := inv_of_advance h.inv hfed (by simp [hnext])
  have htook := took_advance h.zone b
  rw [← hfed] at htook
  cases htook with
  | refused hv => simp [hnext] at hv
  | begins hz hb _ hes hin =>
    rw [hes]
    refine ⟨_, hinv, hin, h.holds.foldl _, rfl, fun _ => rfl, ?_, by simp [onEvent,
      Reception.onMsgBegin], fun hcont => ?_⟩
    · intro hz'
      split at hz' <;> cases hz'
    · have hold := (h.blank hcont).mp hz
      by_cases h72 : b = 72
      · subst h72
        simp
      · have hb' : b = 13 ∨ b = 10 := hb.resolve_left h72
        simp only [h72, if_false, true_iff, List.forall_mem_append, List.forall_mem_singleton]
        exact ⟨hold, hb'⟩
  | status hz _ hes hin =>
    have hstart : z ≠ .start := by rcases hz with rfl | rfl <;> simp
    have hphrase : r.inStatus = true ∨ r.rsp.statusMessage = [] := by
      rcases hz with hz | hz
      · exact .inr (h.status.trans (h.line hz))
      · exact .inl (h.inStatus hz)
    obtain ⟨hstatus, hinStatus, halive, hcont⟩ :=
      foldl_ofStatus hphrase h.status (hes.imp_right (.imp_left h.inStatus))
    refine ⟨.status, hinv, hin, h.holds.foldl _, hstatus, by simp, fun _ => hinStatus,
      fun ha => ?_, fun hc => ?_⟩
    · rw [halive, h.not_alive hstart] at ha
      cases ha
    · exact iff_of_false (by simp) (h.not_blank hstart b (hcont ▸ hc))
  | passes z' hz _ hes hin hz' =>
    obtain ⟨hsm, halive, hcont, hstatus⟩ := foldl_ofContent hes r t
    refine ⟨z', hinv, hin, h.holds.foldl _, ?_, fun hline => ?_, fun hs => absurd hs hz'.2.1,
      fun ha => ?_, fun hc => ?_⟩
    · rw [hsm, hstatus, h.status]
    · rw [hstatus]
      exact h.line (hz'.2.2 hline)
    · rw [halive, h.not_alive hz] at ha
      cases ha
    · exact iff_of_false hz'.1 (h.not_blank hz b (hcont ▸ hc))
  | completes es _ hes hall hv hin =>
    obtain ⟨hsm, -, -, hstatus⟩ := foldl_ofContent hall r t
    have hup : fed.parser.upgrade = false := by
      by_contra hup
      rw [hnext, if_pos (by simpa using hup)] at hv
      cases hv
    rw [hes, List.foldl_append, List.foldl_append]
    refine ⟨_, hinv, hin, (h.holds.foldl es).foldl _, ?_, ?_, ?_, fun ha => ?_, fun hc => ?_⟩
    · exact hsm.trans (h.status.trans hstatus.symm)
    · intro hline
      split at hline <;> cases hline
    · intro hs
      split at hs <;> cases hs
    · exact ⟨if_pos ha, hup⟩
    · cases hc

/-- What some bytes leave: the parser goes on behind them, leaves early for another protocol,
    or refuses one of them. -/
inductive Leaves (p : HttpParser) (k : Nat) (bs data : Bytes) (r : Reception) (t : Reported)
    (ran : Ran) : Prop where
  | running {z : Zone} (hend : ran.ending = .running)
      (h : Follows z (bs ++ data) ran.parser (ran.events.foldl onEvent r)
        (ran.events.foldl Reported.add t))
  | exited (hend : ran.ending = .exited) (hinv : ran.parser.Inv) (hup : ran.parser.upgrade = true)
      (hstatus : (ran.events.foldl onEvent r).rsp.statusMessage =
        (ran.events.foldl Reported.add t).status)
      (hdone : (ran.events.foldl onEvent r).shouldContinue = false)
      (hin : ran.parser.In (if (ran.events.foldl onEvent r).rsp.keepAlive then .start else .dead))
  | failed (es : List Event) (hend : ran.ending = .failed) {u v : Bytes} {b : UInt8} {z : Zone}
      (hdata : data = u ++ b :: v)
      (hu : (byteRun (fun _ => true) p k u).ending = .running)
      (h : Follows z (bs ++ u) (byteRun (fun _ => true) p k u).parser
        ((byteRun (fun _ => true) p k u).events.foldl onEvent r)
        ((byteRun (fun _ => true) p k u).events.foldl Reported.add t))
      (hes : ran.events = (byteRun (fun _ => true) p k u).events ++ es)
      (hall : ∀ e ∈ es, e.ofContent = true)
      (hb : z = .start → maxHeaderSize ≤ (byteRun (fun _ => true) p k u).parser.nread ∨
        b ≠ 72 ∧ b ≠ 13 ∧ b ≠ 10)

theorem overflows_count (hs : p.state = .startRes) :
    p.count.overflows = true ↔ maxHeaderSize ≤ p.nread := by
  simp only [HttpParser.overflows, HttpParser.count, hs, HttpState.parsingHeader, if_true,
    Bool.true_and, decide_eq_true_eq]
  omega

theorem state_of_start (hin : p.In .start) : p.state = .startRes := by
  have hzone := hin.zone
  cases hs : p.state <;> cases ht : p.flags.trailing <;>
    simp_all [HttpState.zone?, HttpState.inFields]

/-- The first byte is one too many. -/
theorem leaves_overflow (h : Follows z bs p r t) (k : Nat) (b : UInt8) (data : Bytes)
    (hover : p.count.overflows = true) :
    Leaves p k bs (b :: data) r t (byteRun (fun _ => true) p k (b :: data)) := by
  have hran := byteRun_overflow hover k b data
  refine .failed [] (u := []) (z := z) (by rw [hran]) rfl rfl
    (by simpa [byteRun] using h) (by rw [hran]; rfl) (by simp) fun hz => .inl ?_
  subst hz
  exact (overflows_count (state_of_start h.zone)).mp hover

section Byte

variable {b : UInt8} {fed : Fed}

/-- The parser refuses the first byte. -/
theorem leaves_error (h : Follows z bs p r t) (k : Nat) (data : Bytes)
    (hfed : fed = (p.count.advance b 1).2) (hover : p.count.overflows = false)
    (hverdict : fed.verdict = .error) :
    Leaves p k bs (b :: data) r t (byteRun (fun _ => true) p k (b :: data)) := by
  have hran := byteRun_error hfed hover hverdict k data
  have htook := took_advance h.zone b
  rw [← hfed] at htook
  cases htook with
  | refused _ hes hb =>
    exact .failed (actEvents fed.parser fed.acts) (u := []) (z := z) (by rw [hran]) rfl rfl
      (by simpa [byteRun] using h) (by rw [hran]; rfl)
      (fun e he => Event.ofContent_of_ofFields (hes e he)) fun hz => .inr (hb hz)
  | begins _ _ hv | status _ hv | passes _ _ hv => simp [hverdict] at hv
  | completes _ _ _ _ hv =>
    rw [hverdict] at hv
    split at hv <;> cases hv

/-- The first byte is the last before another protocol. -/
theorem leaves_exit (h : Follows z bs p r t) (k : Nat) (data : Bytes)
    (hfed : fed = (p.count.advance b 1).2) (hover : p.count.overflows = false)
    (hverdict : fed.verdict = .exit) :
    Leaves p k bs (b :: data) r t (byteRun (fun _ => true) p k (b :: data)) := by
  obtain ⟨k', hran⟩ := byteRun_exit hfed hover hverdict k data
  have hinv : fed.parser.Inv := inv_of_advance h.inv hfed (by simp [hverdict])
  have htook := took_advance h.zone b
  rw [← hfed] at htook
  rw [hran]
  cases htook with
  | refused hv | begins _ _ hv | status _ hv | passes _ _ hv => simp [hverdict] at hv
  | completes es _ hes hall hv hin =>
    obtain ⟨hsm, -, -, hstatus⟩ := foldl_ofContent hall r t
    have hup : fed.parser.upgrade = true := by
      by_contra hup
      rw [hverdict, if_neg hup] at hv
      cases hv
    refine .exited rfl hinv hup ?_ ?_ ?_
    · simp only [hes, List.foldl_append]
      exact hsm.trans (h.status.trans hstatus.symm)
    · simp only [hes, List.foldl_append]
      rfl
    · simp only [hes, List.foldl_append]
      exact hin

/-- The parser takes the first byte. -/
theorem Leaves.cons {k k' : Nat} {data : Bytes}
    (hnext : ∀ xs, byteRun (fun _ => true) p k (b :: xs) =
      (byteRun (fun _ => true) fed.parser k' xs).after (fed.events p.state [b]) 1)
    (h : Leaves fed.parser k' (bs ++ [b]) data ((fed.events p.state [b]).foldl onEvent r)
      ((fed.events p.state [b]).foldl Reported.add t)
      (byteRun (fun _ => true) fed.parser k' data)) :
    Leaves p k bs (b :: data) r t (byteRun (fun _ => true) p k (b :: data)) := by
  rw [hnext data]
  generalize byteRun (fun _ => true) fed.parser k' data = ran at h
  cases h with
  | @running z' hend hfollows =>
    refine .running (z := z') hend ?_
    rw [List.append_assoc] at hfollows
    simpa [Ran.after, List.foldl_append] using hfollows
  | exited hend hinv hup hstatus hdone hin =>
    refine .exited hend hinv hup ?_ ?_ ?_
    · simpa [Ran.after, List.foldl_append] using hstatus
    · simpa [Ran.after, List.foldl_append] using hdone
    · simpa [Ran.after, List.foldl_append] using hin
  | @failed es hend u v c z' hdata hu hfollows hes hall hc =>
    refine .failed es hend (u := b :: u) (v := v) (b := c) (z := z') ?_ ?_ ?_ ?_ hall ?_
    · rw [hdata, List.cons_append]
    · rw [hnext u]
      exact hu
    · rw [hnext u]
      simpa [Ran.after, List.foldl_append] using hfollows
    · rw [hnext u]
      simp [Ran.after, hes]
    · rw [hnext u]
      exact hc

end Byte

/-- **Any bytes.** -/
theorem leaves_byteRun (h : Follows z bs p r t) (k : Nat) (data : Bytes) :
    Leaves p k bs data r t (byteRun (fun _ => true) p k data) := by
  induction data generalizing z bs p r t k with
  | nil => exact .running (z := z) rfl (by simpa [byteRun] using h)
  | cons b data ih =>
    cases hover : p.count.overflows with
    | true => exact leaves_overflow h k b data hover
    | false =>
      cases hverdict : (p.count.advance b 1).2.verdict with
      | error => exact leaves_error h k data rfl hover hverdict
      | exit => exact leaves_exit h k data rfl hover hverdict
      | next =>
        obtain ⟨k', hnext⟩ := byteRun_next rfl hover hverdict k
        obtain ⟨z', h'⟩ := h.byte b rfl hverdict
        exact .cons hnext (ih h' k')

end Follows

/-! ## A read -/

/-- `response::parser_impl`, over the bytes of a connection. -/
structure ResponseImpl extends Reception where
  parser : HttpParser := .init .response
deriving DecidableEq, Repr

/-- `http_parser_init`. -/
def ResponseImpl.init (i : ResponseImpl) : ResponseImpl := { i with parser := .init .response }

/-- What `http_parser_execute` leaves, with its callbacks and the number it returns. -/
structure Parsed where
  impl : ResponseImpl
  events : List Event
  parsed : Nat
deriving DecidableEq, Repr

/-- `http_parser_execute` with the callbacks of `response::parser_impl`. -/
def ResponseImpl.execute (i : ResponseImpl) (data : Bytes) : Option Parsed :=
  (i.parser.execute (fun _ => true) 0 data).map fun o =>
    { impl := { toReception := o.events.foldl onEvent i.toReception, parser := o.parser }
      events := o.events
      parsed := o.parsed }

/-- A piece of a part that is handed over changes nothing but that part. -/
theorem foldl_pending (pend : Option (Part × Bytes)) (r : Reception) :
    ((pendingEvents pend).foldl onEvent r).rsp.keepAlive = r.rsp.keepAlive ∧
      ((pendingEvents pend).foldl onEvent r).shouldContinue = r.shouldContinue ∧
      ((pendingEvents pend).foldl onEvent r).rsp.code = r.rsp.code := by
  match pend with
  | none => exact ⟨rfl, rfl, rfl⟩
  | some (part, piece) => cases part <;> exact ⟨rfl, rfl, rfl⟩

/-- If the reason phrase is complete with a last piece, it was complete before. -/
theorem status_of_pending {r : Reception} {t : Reported} (h : Holds r t)
    (pend : Option (Part × Bytes))
    (hstatus : ((pendingEvents pend).foldl onEvent r).rsp.statusMessage =
      ((pendingEvents pend).foldl Reported.add t).status) :
    r.rsp.statusMessage = t.status := by
  match pend with
  | none => exact hstatus
  | some (.url, _) | some (.headerField, _) | some (.headerValue, _) | some (.body, _) =>
    exact hstatus
  | some (.status, piece) =>
    simp only [pendingEvents, List.foldl_cons, List.foldl_nil, onEvent,
      Reception.onStatusComplete, Reported.add] at hstatus
    split at hstatus
    · exact List.append_cancel_right hstatus
    · -- the piece is all there is
      have hnil : t.status = [] := List.self_eq_append_left.mp hstatus
      have hsuffix := h.status
      rw [hnil] at hsuffix ⊢
      exact List.suffix_nil.mp hsuffix

section Execute

variable {z : Zone} {bs data : Bytes} {i : ResponseImpl} {t : Reported}

/-- The mark that a read begins with. -/
theorem Follows.opened (h : Follows z bs i.parser i.toReception t) :
    Follows z bs i.parser ((pendingEvents i.parser.state.opened).foldl onEvent i.toReception)
      ((pendingEvents i.parser.state.opened).foldl Reported.add t) := by
  have hzone := h.zone.zone
  unfold HttpState.opened HttpState.part?
  split
  case h_1 | h_2 =>
    -- in the header fields the phrase is over
    have hz : z ≠ .status := by
      rintro rfl
      cases htrailing : i.parser.flags.trailing <;> simp_all [HttpState.zone?, HttpState.inFields]
    exact ⟨h.inv, h.zone, h.holds.foldl _, h.status, h.line, fun hs => absurd hs hz, h.alive,
      h.blank⟩
  · have hz : z = .status := by
      cases htrailing : i.parser.flags.trailing <;> simp_all [HttpState.zone?]
    have hin := h.inStatus hz
    refine ⟨h.inv, h.zone, h.holds.foldl _, ?_, ?_, fun _ => rfl, h.alive, h.blank⟩
    · simp [pendingEvents, onEvent, Reception.onStatusComplete, Reported.add, hin, h.status]
    · simp [hz]
  · rename_i hurl
    simp [hurl, HttpState.zone?, HttpState.inFields] at hzone
  · exact h

/-- How a read goes byte by byte: `lost` is the piece that an error keeps from the
    callbacks. -/
structure Viewed (i : ResponseImpl) (t : Reported) (o : Parsed) (ran : Ran)
    (lost : Option (Part × Bytes)) : Prop where
  parser : o.impl.parser = ran.parser
  parsed : o.parsed = ran.parsed
  lost_none : ran.ending ≠ .failed → lost = none
  reception : (pendingEvents lost).foldl onEvent o.impl.toReception =
    ran.events.foldl onEvent ((pendingEvents i.parser.state.opened).foldl onEvent i.toReception)
  reported : (pendingEvents lost).foldl Reported.add (o.events.foldl Reported.add t) =
    ran.events.foldl Reported.add ((pendingEvents i.parser.state.opened).foldl Reported.add t)

theorem viewed_execute (h : i.parser.Inv) (t : Reported) (hdata : data ≠ []) :
    ∃ o lost, i.execute data = some o ∧
      Viewed i t o (byteRun (fun _ => true) i.parser 0 data) lost := by
  obtain ⟨o, ho, hparser, hparsed, -, lost, hlost, hsame⟩ :=
    execute_spec (fun _ => true) 0 h hdata
  refine ⟨_, lost, by rw [ResponseImpl.execute, ho]; rfl, hparser, hparsed, hlost, ?_, ?_⟩
  · have hfold := hsame _ _ joins_onEvent i.toReception
    rwa [List.foldl_append, List.foldl_append] at hfold
  · have hfold := hsame _ _ joins_add t
    rwa [List.foldl_append, List.foldl_append] at hfold

theorem Viewed.keepAlive {o : Parsed} {ran : Ran} {lost : Option (Part × Bytes)}
    (hv : Viewed i t o ran lost) :
    o.impl.rsp.keepAlive = (ran.events.foldl onEvent
      ((pendingEvents i.parser.state.opened).foldl onEvent i.toReception)).rsp.keepAlive := by
  rw [← hv.reception, (foldl_pending lost _).1]

theorem Viewed.shouldContinue {o : Parsed} {ran : Ran} {lost : Option (Part × Bytes)}
    (hv : Viewed i t o ran lost) :
    o.impl.shouldContinue = (ran.events.foldl onEvent
      ((pendingEvents i.parser.state.opened).foldl onEvent i.toReception)).shouldContinue := by
  rw [← hv.reception, (foldl_pending lost _).2.1]

/-- What a read leaves. -/
inductive ReadLeaves (bs data : Bytes) (t : Reported) (o : Parsed) : Prop where
  | running {z : Zone} (hparsed : o.parsed = data.length)
      (h : Follows z (bs ++ data) o.impl.parser o.impl.toReception
        (o.events.foldl Reported.add t))
  | exited (hinv : o.impl.parser.Inv) (hdone : o.impl.shouldContinue = false)
      (hin : o.impl.parser.In (if o.impl.rsp.keepAlive then .start else .dead))
  | failed (herrno : o.impl.parser.errno ≠ .ok) (hparsed : o.parsed ≠ data.length)

/-- **A read**: no assertion fails, and what the callbacks hold is what was reported. -/
theorem leaves_execute (h : Follows z bs i.parser i.toReception t) (hdata : data ≠ []) :
    ∃ o, i.execute data = some o ∧ ReadLeaves bs data t o ∧
      Holds o.impl.toReception (o.events.foldl Reported.add t) ∧
      o.impl.rsp.statusMessage = (o.events.foldl Reported.add t).status := by
  obtain ⟨o, lost, ho, hv⟩ := viewed_execute h.inv t hdata
  have hholds : Holds o.impl.toReception (o.events.foldl Reported.add t) := by
    obtain ⟨o', -, rfl⟩ := Option.map_eq_some_iff.mp ho
    exact h.holds.foldl _
  have hsound := sound_byteRun (fun _ => true) 0 h.inv data
  have hleaves := leaves_byteRun h.opened 0 data
  have hreception := hv.reception
  have hreported := hv.reported
  have hkeep := hv.keepAlive
  have hcont := hv.shouldContinue
  refine ⟨o, ho, ?_⟩
  unfold Ran.Sound at hsound
  cases hleaves with
  | @running z' hend hfollows =>
    obtain rfl := hv.lost_none (by simp [hend])
    simp only [hend] at hsound
    change o.impl.toReception = _ at hreception
    change o.events.foldl Reported.add t = _ at hreported
    rw [← hreception, ← hreported, ← hv.parser] at hfollows
    exact ⟨.running (hv.parsed.trans hsound.2) hfollows, hholds, hfollows.status⟩
  | exited hend hinv _ hstatus hdone hin =>
    obtain rfl := hv.lost_none (by simp [hend])
    change o.impl.toReception = _ at hreception
    change o.events.foldl Reported.add t = _ at hreported
    rw [← hreception, ← hreported] at hstatus
    rw [← hcont] at hdone
    rw [← hkeep, ← hv.parser] at hin
    rw [← hv.parser] at hinv
    exact ⟨.exited hinv hdone hin, hholds, hstatus⟩
  | failed _ hend _ _ hfollows hes hall _ =>
    simp only [hend, ← hv.parser, ← hv.parsed] at hsound
    refine ⟨.failed hsound.1 hsound.2.2.ne, hholds, status_of_pending hholds lost ?_⟩
    obtain ⟨hsm, -, -, hstatus⟩ := foldl_ofContent hall
      ((byteRun (fun _ => true) i.parser 0 _).events.foldl onEvent
        ((pendingEvents i.parser.state.opened).foldl onEvent i.toReception))
      ((byteRun (fun _ => true) i.parser 0 _).events.foldl Reported.add
        ((pendingEvents i.parser.state.opened).foldl Reported.add t))
    rw [hreception, hreported, hes, List.foldl_append, List.foldl_append, hsm, hstatus]
    exact hfollows.status

/-- The end of the stream completes a body without a length, and nothing else. -/
theorem leaves_eof (h : Follows z bs i.parser i.toReception t) :
    ∃ o, i.execute [] = some o ∧ Holds o.impl.toReception (o.events.foldl Reported.add t) ∧
      o.impl.rsp.statusMessage = (o.events.foldl Reported.add t).status := by
  obtain ⟨o, ho⟩ := execute_nil (fun _ => true) i.parser 0
  refine ⟨_, by rw [ResponseImpl.execute, ho]; rfl, h.holds.foldl _, ?_⟩
  have hevents : o.events = [] ∨ o.events = [.messageComplete i.parser] := by
    unfold HttpParser.execute at ho
    simp only [h.inv.errno, ne_eq, not_true_eq_false, if_false, if_true] at ho
    split at ho <;> obtain rfl := Option.some.inj ho
    · exact .inr rfl
    all_goals exact .inl rfl
  show (o.events.foldl onEvent i.toReception).rsp.statusMessage =
    (o.events.foldl Reported.add t).status
  rcases hevents with hevents | hevents <;> rw [hevents] <;> exact h.status

/-! ## Between two responses -/

/-- The parser stands where a response begins, and takes its first byte. -/
structure HttpParser.Idle (p : HttpParser) : Prop where
  type : p.type = .response
  state : p.state = .startRes
  errno : p.errno = .ok
  /-- The header of the next response is not yet too long. -/
  room : p.nread < maxHeaderSize
  /-- `content_length` is a `uint64_t`. -/
  length : p.contentLength ≤ ullongMax

theorem idle_init : (HttpParser.init .response).Idle :=
  ⟨rfl, rfl, rfl, by decide, by decide⟩

theorem HttpParser.Idle.follows {p : HttpParser} (h : p.Idle) : Follows .start [] p {} {} where
  inv := ⟨h.errno, h.length, HttpParser.relies_of_plain (by rw [h.state]; rfl)⟩
  zone := ⟨h.type, by rw [h.state]; rfl, by simp⟩
  holds := holds_start
  status := rfl
  line := by simp
  inStatus := by simp
  alive := by simp
  blank := by simp

theorem Follows.idle_iff {p : HttpParser} {r : Reception} (h : Follows z bs p r t) :
    p.Idle ↔ z = .start ∧ p.nread < maxHeaderSize := by
  constructor
  · intro hidle
    have hzone := h.zone.zone
    rw [hidle.state] at hzone
    exact ⟨(Option.some.inj hzone).symm, hidle.room⟩
  · rintro ⟨rfl, hroom⟩
    exact ⟨h.zone.type, state_of_start h.zone, h.inv.errno, hroom, h.inv.length⟩

/-- The first byte of a response. -/
theorem HttpParser.Idle.begins {p : HttpParser} (h : p.Idle) (k : Nat) :
    (byteRun (fun _ => true) p k [72]).ending = .running ∧
      (byteRun (fun _ => true) p k [72]).events = [.messageBegin] := by
  have hover : p.count.overflows = false := by
    rw [Bool.eq_false_iff, ne_eq, overflows_count h.state, not_le]
    exact h.room
  have htook := took_advance h.follows.zone 72
  rw [byteRun, if_neg (by simp [hover])]
  generalize (p.count.advance 72 1).2 = fed at htook
  cases htook with
  | refused _ _ hb => exact absurd rfl (hb rfl).1
  | begins _ _ hv hes => simp [conclude, hv, hes, byteRun, Ran.after]
  | status hz => simp at hz
  | passes _ hz => exact absurd rfl hz
  | completes _ hz => simp at hz

/-- What a parser between two responses refuses. -/
theorem failed_of_start {p : HttpParser} (hin : p.In .start) (k : Nat) {b : UInt8}
    (hb : maxHeaderSize ≤ p.nread ∨ b ≠ 72 ∧ b ≠ 13 ∧ b ≠ 10) (v : Bytes) :
    (byteRun (fun _ => true) p k (b :: v)).ending = .failed ∧
      ∀ e ∈ (byteRun (fun _ => true) p k (b :: v)).events, e.ofContent = true := by
  cases hover : p.count.overflows with
  | true =>
    rw [byteRun_overflow hover]
    exact ⟨rfl, by simp⟩
  | false =>
    have hroom : ¬ maxHeaderSize ≤ p.nread := by
      rw [← overflows_count (state_of_start hin)]
      simp [hover]
    have hb := hb.resolve_left hroom
    have htook := took_advance hin b
    rw [byteRun, if_neg (by simp [hover])]
    generalize (p.count.advance b 1).2 = fed at htook
    cases htook with
    | refused hv hes =>
      simp only [conclude, hv, if_true, true_and]
      exact fun e he => Event.ofContent_of_ofFields (hes e he)
    | begins _ hbegins => simp [hb] at hbegins
    | status hz => simp at hz
    | passes _ hz => exact absurd rfl hz
    | completes _ hz => simp at hz

/-- What may come in the same read behind a response that keeps the connection alive: bytes
    that begin another one, or those of another protocol. -/
def Parsed.MayPrecede (o : Parsed) (rest : Bytes) : Prop :=
  o.impl.rsp.keepAlive = true → o.impl.parser.nread < maxHeaderSize ∧
    (o.impl.parser.upgrade = false → ∀ b ∈ rest.head?, b = 72 ∨ b = 13 ∨ b = 10)

instance (o : Parsed) (rest : Bytes) : Decidable (o.MayPrecede rest) :=
  inferInstanceAs (Decidable (_ → _ ∧ (_ → ∀ b ∈ rest.head?, b = 72 ∨ b = 13 ∨ b = 10)))

section Idle

variable {o : Parsed} {n : Nat}

/-- A read that is cut behind its first `n` bytes. -/
theorem byteRun_take (p : HttpParser) (data : Bytes) (n : Nat) :
    byteRun (fun _ => true) p 0 data = (byteRun (fun _ => true) p 0 (data.take n)).andThen
      fun p k => byteRun (fun _ => true) p k (data.drop n) := by
  rw [← byteRun_append, List.take_append_drop]

/-- A read that stops in its first `n` bytes. -/
theorem byteRun_stopped {p : HttpParser}
    (hend : (byteRun (fun _ => true) p 0 (data.take n)).ending ≠ .running) :
    byteRun (fun _ => true) p 0 data = byteRun (fun _ => true) p 0 (data.take n) := by
  rw [byteRun_take p data n, Ran.andThen, if_neg hend]

/-- A byte that no response begins with stops the parser behind one. -/
theorem byteRun_behind {p : HttpParser} {b : UInt8} {v : Bytes}
    (hend : (byteRun (fun _ => true) p 0 (data.take n)).ending = .running)
    (hin : (byteRun (fun _ => true) p 0 (data.take n)).parser.In .start)
    (hrest : data.drop n = b :: v)
    (hb : maxHeaderSize ≤ (byteRun (fun _ => true) p 0 (data.take n)).parser.nread ∨
      b ≠ 72 ∧ b ≠ 13 ∧ b ≠ 10) (r : Reception) :
    (byteRun (fun _ => true) p 0 data).ending = .failed ∧
      ((byteRun (fun _ => true) p 0 data).events.foldl onEvent r).rsp.keepAlive =
        ((byteRun (fun _ => true) p 0 (data.take n)).events.foldl onEvent r).rsp.keepAlive := by
  obtain ⟨hfail, hcontent⟩ := failed_of_start hin
    (byteRun (fun _ => true) p 0 (data.take n)).completed hb v
  rw [byteRun_take p data n, Ran.andThen, if_pos hend, hrest]
  refine ⟨hfail, ?_⟩
  simp only [Ran.after, List.foldl_append]
  exact (foldl_ofContent hcontent _ {}).2.1

/-- A parser that a read leaves idle has refused nothing behind a response. -/
theorem mayPrecede_of_idle (h : Follows z bs i.parser i.toReception t) (hn : 0 < n)
    (hle : n ≤ data.length) (ho : i.execute data = some o)
    (hidle : o.impl.rsp.keepAlive = true → o.impl.parser.Idle) {o' : Parsed}
    (ho' : i.execute (data.take n) = some o') : o'.MayPrecede (data.drop n) := by
  intro halive
  have hdata : data ≠ [] := List.ne_nil_of_length_pos (hn.trans_le hle)
  obtain ⟨_, lost, hexec, hv⟩ := viewed_execute h.inv t hdata
  obtain rfl := Option.some.inj (ho.symm.trans hexec)
  obtain ⟨_, lost', hexec', hv'⟩ := viewed_execute h.inv t (take_ne_nil hn hle)
  obtain rfl := Option.some.inj (ho'.symm.trans hexec')
  have hkeep := hv'.keepAlive.symm.trans halive
  have hwhole (hend : (byteRun (fun _ => true) i.parser 0 (data.take n)).ending ≠ .running) :
      o.impl.parser = o'.impl.parser ∧ o.impl.parser.Idle := by
    rw [byteRun_stopped hend] at hv
    exact ⟨hv.parser.trans hv'.parser.symm, hidle (hv.keepAlive.trans hkeep)⟩
  cases leaves_byteRun h.opened 0 (data.take n) with
  | running hend hfollows =>
    obtain ⟨rfl, -⟩ := hfollows.alive hkeep
    rcases hrest : data.drop n with - | ⟨b, v⟩
    · -- the read ends with the response
      rw [List.take_of_length_le (List.drop_eq_nil_iff.mp hrest)] at ho'
      obtain rfl := Option.some.inj (ho.symm.trans ho')
      exact ⟨(hidle halive).room, by simp⟩
    · by_contra hnot
      have hb : maxHeaderSize ≤ (byteRun (fun _ => true) i.parser 0 (data.take n)).parser.nread ∨
          b ≠ 72 ∧ b ≠ 13 ∧ b ≠ 10 := by
        by_contra hb
        rw [not_or, not_le, ← hv'.parser] at hb
        refine hnot ⟨hb.1, fun _ c hc => ?_⟩
        obtain rfl := Option.some.inj hc
        have hb := hb.2
        tauto
      obtain ⟨hfail, hsame⟩ := byteRun_behind hend hfollows.zone hrest hb
        ((pendingEvents i.parser.state.opened).foldl onEvent i.toReception)
      have hsound := sound_byteRun (fun _ => true) 0 h.inv data
      simp only [Ran.Sound, hfail, ← hv.parser] at hsound
      exact hsound.1 (hidle (hv.keepAlive.trans (hsame.trans hkeep))).errno
  | exited hend _ hup =>
    obtain ⟨hparser, hidle⟩ := hwhole (by simp [hend])
    rw [← hparser]
    refine ⟨hidle.room, fun hdown => ?_⟩
    rw [hparser, hv'.parser, hup] at hdown
    cases hdown
  | failed _ hend =>
    obtain ⟨hparser, hidle⟩ := hwhole (by simp [hend])
    have hsound := sound_byteRun (fun _ => true) 0 h.inv (data.take n)
    simp only [Ran.Sound, hend, ← hv'.parser, ← hparser] at hsound
    exact absurd hidle.errno hsound.1

/-- A read with nothing but what may come behind a response leaves the parser idle there. -/
theorem idle_of_mayPrecede (h : Follows z bs i.parser i.toReception t)
    (hfresh : i.rsp.keepAlive = false) (hdata : data ≠ []) (ho : i.execute data = some o)
    (hall : ∀ n, 0 < n → n ≤ data.length →
      ∀ o' ∈ i.execute (data.take n), o'.MayPrecede (data.drop n))
    (halive : o.impl.rsp.keepAlive = true) : o.impl.parser.Idle := by
  obtain ⟨_, lost, hexec, hv⟩ := viewed_execute h.inv t hdata
  obtain rfl := Option.some.inj (ho.symm.trans hexec)
  have hroom := hall data.length (List.length_pos_of_ne_nil hdata) le_rfl o
    (by rw [List.take_length]; exact ho) halive
  have hkeep := hv.keepAlive.symm.trans halive
  cases leaves_byteRun h.opened 0 data with
  | running hend hfollows =>
    rw [← hv.parser] at hfollows
    exact hfollows.idle_iff.mpr ⟨(hfollows.alive hkeep).1, hroom.1⟩
  | exited hend hinv _ _ _ hin =>
    rw [if_pos hkeep, ← hv.parser] at hin
    rw [← hv.parser] at hinv
    exact ⟨hin.type, state_of_start hin, hinv.errno, hroom.1, hinv.length⟩
  | @failed es hend u v b z' hsplit hu hfollows hes hcontent hb =>
    -- the byte that is refused comes behind a response
    rw [hes, List.foldl_append, (foldl_ofContent hcontent _ {}).2.1] at hkeep
    have hne : u ≠ [] := by
      rintro rfl
      rw [byteRun, List.foldl_nil, (foldl_pending _ _).1, hfresh] at hkeep
      cases hkeep
    obtain ⟨o', lost', ho', hv'⟩ := viewed_execute h.inv t hne
    have hlen : u.length ≤ data.length := by simp [hsplit]
    have hmay := hall u.length (List.length_pos_of_ne_nil hne) hlen o'
      (by rw [hsplit, List.take_left]; exact ho') (hv'.keepAlive.trans hkeep)
    obtain ⟨hstart, hup⟩ := hfollows.alive hkeep
    rw [hv'.parser, hsplit, List.drop_left] at hmay
    have hnext := hmay.2 hup b rfl
    rcases hb hstart with hover | hother
    · exact absurd hmay.1 (not_lt.mpr hover)
    · simp [hother] at hnext

end Idle

end Execute

end FiberProxy.Http.ByteParser
