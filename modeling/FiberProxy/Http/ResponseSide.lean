/-
  FiberProxy.Http.ResponseSide

  `http_parser_execute` on the client's side, as a parser of responses.  What one byte does
  to it is said once (`took_advance`), by the part of a response that the parser is in:
  where a message begins, in the status line, the reason phrase, the header fields, the
  body or the chunks, or behind a message that ends the connection.
-/

import FiberProxy.Http.ParserReads

namespace FiberProxy.Http.ByteParser

open Lib
open HttpParser (takesBody Marked)

/-! ## The parts of a response -/

/-- Where a parser of responses stands. -/
inductive Zone where
  | start | line | status | fields | body | chunks | dead
deriving DecidableEq, Repr

/-- The states of the header fields, of a response or behind its last chunk, and the end of
    the status line. -/
def HttpState.inFields : HttpState → Bool
  | .resLineAlmostDone | .headerFieldStart | .headerField | .headerValueDiscardWs
  | .headerValueDiscardWsAlmostDone | .headerValueDiscardLws | .headerValue | .headerValueLws
  | .headerAlmostDone | .headersAlmostDone => true
  | _ => false

/-- The zone of a state, with `F_TRAILING`; `none` for a state that no parser of responses is
    in between two bytes. -/
def HttpState.zone? (trailing : Bool) : HttpState → Option Zone
  | .startRes => some .start
  | .resH | .resHT | .resHTT | .resHTTP | .resFirstHttpMajor | .resHttpMajor
  | .resFirstHttpMinor | .resHttpMinor | .resFirstStatusCode | .resStatusCode
  | .resStatusStart => if trailing then none else some .line
  | .resStatus => if trailing then none else some .status
  | .bodyIdentity | .bodyIdentityEof => some .body
  | .chunkSizeStart | .chunkSize | .chunkParameters | .chunkSizeAlmostDone | .chunkData
  | .chunkDataAlmostDone | .chunkDataDone => some .chunks
  | .dead => some .dead
  | s => if s.inFields then some (if trailing then .chunks else .fields) else none

/-- A parser of responses in a zone. -/
structure HttpParser.In (z : Zone) (p : HttpParser) : Prop where
  type : p.type = .response
  zone : p.state.zone? p.flags.trailing = some z
  /-- No other protocol follows a message with a body. -/
  upgrade : z = .body ∨ z = .chunks → p.upgrade = false

/-- What the bytes of a header leave alone. -/
structure HttpParser.Keeps (q p : HttpParser) : Prop where
  type : q.type = p.type
  code : q.statusCode = p.statusCode
  trailing : q.flags.trailing = p.flags.trailing
  chunked : p.flags.chunked = true → q.flags.chunked = true
  skipbody : q.flags.skipbody = p.flags.skipbody
  upgrade : q.upgrade = p.upgrade

theorem HttpParser.Keeps.refl (p : HttpParser) : p.Keeps p := ⟨rfl, rfl, rfl, id, rfl, rfl⟩

theorem HttpParser.Keeps.trans {q' q p : HttpParser} (h : q.Keeps p) (h' : q'.Keeps q) :
    q'.Keeps p where
  type := h'.type.trans h.type
  code := h'.code.trans h.code
  trailing := h'.trailing.trans h.trailing
  chunked := fun hc => h'.chunked (h.chunked hc)
  skipbody := h'.skipbody.trans h.skipbody
  upgrade := h'.upgrade.trans h.upgrade

def Act.ofHeader : Act → Bool
  | .mark .headerField | .mark .headerValue | .data .headerField | .data .headerValue => true
  | _ => false

/-- What a byte does in a state of the header fields. -/
inductive FieldsByte (p : HttpParser) : Fed → Prop where
  | refused {q : HttpParser} {e : HttpErrno} {acts : List Act}
      (hacts : ∀ act ∈ acts, act.ofHeader = true) : FieldsByte p (q.fail e acts)
  | stays {q : HttpParser} {acts : List Act} (hq : q.Keeps p) (hs : q.state.inFields = true)
      (hacts : ∀ act ∈ acts, act.ofHeader = true) : FieldsByte p (q.next acts)
  | trailers {q : HttpParser} {acts : List Act} (hq : q.Keeps p) (ht : p.flags.trailing = true)
      (hacts : ∀ act ∈ acts, act.ofHeader = true) : FieldsByte p (q.complete acts)
  | done {q : HttpParser} {acts : List Act} (hq : q.Keeps p) (ht : p.flags.trailing = false)
      (hacts : ∀ act ∈ acts, act.ofHeader = true) :
      FieldsByte p (HttpParser.headersDone
        { q with state := .headersDone, upgrade := q.flags.upgrade || q.method == .connect } 10
        (acts ++ [.headersComplete]))

section Fields

variable {p q : HttpParser} {ch : UInt8} {acts : List Act}

theorem fieldsByte_expect {c : UInt8} {f : Fed} (hacts : ∀ act ∈ acts, act.ofHeader = true)
    (h : ch = c → FieldsByte p f) : FieldsByte p (q.expect ch c acts f) := by
  unfold HttpParser.expect
  split
  · exact h ‹_›
  · exact .refused hacts

theorem fieldsByte_headersAlmostDone (hq : q.Keeps p) (hacts : ∀ act ∈ acts, act.ofHeader = true) :
    FieldsByte p (q.headersAlmostDone ch acts) := by
  unfold HttpParser.headersAlmostDone
  refine fieldsByte_expect hacts fun hch => ?_
  subst hch
  split
  · rename_i ht
    exact .trailers hq (hq.trailing ▸ ht) hacts
  · rename_i ht
    exact .done hq (by rw [← hq.trailing]; simpa using ht) hacts

theorem fieldsByte_headerFieldStart (hq : q.Keeps p) (hacts : ∀ act ∈ acts, act.ofHeader = true) :
    FieldsByte p (q.headerFieldStart ch acts) := by
  unfold HttpParser.headerFieldStart
  split
  · exact .stays (hq.trans ⟨rfl, rfl, rfl, id, rfl, rfl⟩) rfl hacts
  split
  · exact fieldsByte_headersAlmostDone (hq.trans ⟨rfl, rfl, rfl, id, rfl, rfl⟩) hacts
  split
  · exact .refused hacts
  · exact .stays (hq.trans ⟨rfl, rfl, rfl, id, rfl, rfl⟩) rfl (forall_mem_snoc hacts rfl)

theorem fieldsByte_headerValueStart (hq : q.Keeps p) : FieldsByte p (q.headerValueStart ch) := by
  have hmark : ∀ act ∈ [Act.mark .headerValue], act.ofHeader = true := by simp [Act.ofHeader]
  unfold HttpParser.headerValueStart
  dsimp only
  repeat' split
  all_goals first
    | exact .refused hmark
    | exact .stays (hq.trans ⟨rfl, rfl, rfl, id, rfl, rfl⟩) rfl hmark

theorem fieldsByte_headerAlmostDone (hq : q.Keeps p) (hacts : ∀ act ∈ acts, act.ofHeader = true) :
    FieldsByte p (q.headerAlmostDone ch acts) :=
  fieldsByte_expect hacts fun _ =>
    .stays (hq.trans ⟨rfl, rfl, rfl, id, rfl, rfl⟩) rfl hacts

theorem keeps_matching (p : HttpParser) (word : Bytes) (found : HeaderState) (c : UInt8) :
    (p.matching word found c).Keeps p ∧ (p.matching word found c).state = p.state := by
  obtain ⟨i, hs, heq, -⟩ := HttpParser.matching_eq p word found c
  rw [heq]
  exact ⟨⟨rfl, rfl, rfl, id, rfl, rfl⟩, rfl⟩

theorem keeps_matchName (p : HttpParser) (ch c : UInt8) :
    (p.matchName ch c).Keeps p ∧ (p.matchName ch c).state = p.state := by
  unfold HttpParser.matchName
  split
  all_goals first
    | exact keeps_matching ..
    | exact ⟨⟨rfl, rfl, rfl, id, rfl, rfl⟩, rfl⟩
    | split <;> exact ⟨⟨rfl, rfl, rfl, id, rfl, rfl⟩, rfl⟩

theorem fieldsByte_headerField (hs : p.state = .headerField) : FieldsByte p (p.headerField ch) := by
  have hdata : ∀ act ∈ [Act.data .headerField], act.ofHeader = true := by simp [Act.ofHeader]
  unfold HttpParser.headerField
  split
  · rename_i c hc
    obtain ⟨hkeeps, hstate⟩ := keeps_matchName p ch c
    exact .stays hkeeps (by rw [hstate, hs]; rfl) (by simp)
  · repeat' split
    all_goals first
      | exact .refused (by simp)
      | exact .stays ⟨rfl, rfl, rfl, id, rfl, rfl⟩ rfl hdata

theorem fieldsByte_lengthDigit (hs : p.state = .headerValue) : FieldsByte p (p.lengthDigit ch) := by
  unfold HttpParser.lengthDigit
  repeat' split
  all_goals first
    | exact .refused (by simp)
    | exact .stays ⟨rfl, rfl, rfl, id, rfl, rfl⟩ (by simp [hs, HttpState.inFields]) (by simp)

theorem fieldsByte_headerValue (hs : p.state = .headerValue) : FieldsByte p (p.headerValue ch) := by
  have hdata : ∀ act ∈ [Act.data .headerValue], act.ofHeader = true := by simp [Act.ofHeader]
  have hword (word : Bytes) (found : HeaderState) (c : UInt8) :
      FieldsByte p ((p.matching word found c).next []) := by
    obtain ⟨hkeeps, hstate⟩ := keeps_matching p word found c
    exact .stays hkeeps (by rw [hstate, hs]; rfl) (by simp)
  unfold HttpParser.headerValue
  split
  · exact .stays ⟨rfl, rfl, rfl, id, rfl, rfl⟩ rfl hdata
  split
  · exact fieldsByte_headerAlmostDone ⟨rfl, rfl, rfl, id, rfl, rfl⟩ hdata
  split
  case h_2 => exact fieldsByte_lengthDigit hs
  all_goals first
    | exact hword ..
    | exact .stays ⟨rfl, rfl, rfl, id, rfl, rfl⟩ (by simp [hs, HttpState.inFields]) (by simp)
    | split <;>
        exact .stays ⟨rfl, rfl, rfl, id, rfl, rfl⟩ (by simp [hs, HttpState.inFields]) (by simp)

theorem keeps_headerFlags (p : HttpParser) :
    { p with flags := p.headerFlags, state := .headerFieldStart }.Keeps p := by
  refine ⟨rfl, rfl, ?_, fun h => ?_, ?_, rfl⟩ <;> unfold HttpParser.headerFlags
  · split <;> rfl
  · split <;> first | rfl | exact h
  · split <;> rfl

/-- **A byte of the header fields.** -/
theorem fieldsByte_feed (hs : p.state.inFields = true) (ch : UInt8) :
    FieldsByte p (p.feed ch) := by
  have hgoto {t : HttpState} (ht : t.inFields = true) : FieldsByte p ((p.goto t).next []) :=
    .stays ⟨rfl, rfl, rfl, id, rfl, rfl⟩ ht (by simp)
  have hempty : ∀ act ∈ [Act.mark .headerValue, Act.data .headerValue], act.ofHeader = true := by
    simp [Act.ofHeader]
  unfold HttpParser.feed
  cases hstate : p.state <;> simp only [hstate, HttpState.inFields, Bool.false_eq_true] at hs
  case resLineAlmostDone => exact fieldsByte_expect (by simp) fun _ => hgoto rfl
  case headerFieldStart => exact fieldsByte_headerFieldStart (.refl p) (by simp)
  case headerField => exact fieldsByte_headerField hstate
  case headerValueDiscardWs =>
    simp only [HttpParser.headerValueDiscardWs]
    split
    · exact .stays (.refl p) (by rw [hstate]; rfl) (by simp)
    split
    · exact hgoto rfl
    split
    · exact hgoto rfl
    · exact fieldsByte_headerValueStart (.refl p)
  case headerValueDiscardWsAlmostDone => exact fieldsByte_expect (by simp) fun _ => hgoto rfl
  case headerValueDiscardLws =>
    simp only [HttpParser.headerValueDiscardLws]
    split
    · exact hgoto rfl
    · exact fieldsByte_headerFieldStart ⟨rfl, rfl, rfl, id, rfl, rfl⟩ hempty
  case headerValue => exact fieldsByte_headerValue hstate
  case headerValueLws =>
    simp only [HttpParser.headerValueLws]
    split
    · exact fieldsByte_headerValueStart (.refl p)
    · exact fieldsByte_headerFieldStart (keeps_headerFlags p) (by simp)
  case headerAlmostDone => exact fieldsByte_headerAlmostDone (.refl p) (by simp)
  case headersAlmostDone => exact fieldsByte_headersAlmostDone (.refl p) (by simp)

end Fields

/-! ## One byte -/

/-- An event of the header fields. -/
def Event.ofFields : Event → Bool
  | .data .headerField _ | .data .headerValue _ | .headersComplete => true
  | _ => false

/-- An event of the header fields or of a body. -/
def Event.ofContent : Event → Bool
  | .data .body _ => true
  | e => e.ofFields

/-- What a byte does to a parser of responses that is in the zone `z` with the state `s`. -/
inductive Took (z : Zone) (b : UInt8) (s : HttpState) (fed : Fed) : Prop where
  | refused (hv : fed.verdict = .error)
      (hes : ∀ e ∈ actEvents fed.parser fed.acts, e.ofFields = true)
      (hb : z = .start → b ≠ 72 ∧ b ≠ 13 ∧ b ≠ 10)
  | begins (hz : z = .start) (hb : b = 72 ∨ b = 13 ∨ b = 10) (hv : fed.verdict = .next)
      (hes : fed.events s [b] = [.messageBegin])
      (hin : fed.parser.In (if b = 72 then .line else .start))
  | status (hz : z = .line ∨ z = .status) (hv : fed.verdict = .next)
      (hes : fed.events s [b] = [.data .status [], .data .status [b]] ∨
        z = .status ∧ fed.events s [b] = [.data .status [b]])
      (hin : fed.parser.In .status)
  | passes (z' : Zone) (hz : z ≠ .start) (hv : fed.verdict = .next)
      (hes : ∀ e ∈ fed.events s [b], e.ofContent = true) (hin : fed.parser.In z')
      (hz' : z' ≠ .start ∧ z' ≠ .status ∧ (z' = .line → z = .line))
  | completes (es : List Event) (hz : z = .fields ∨ z = .body ∨ z = .chunks)
      (hes : fed.events s [b] = es ++ [.messageComplete fed.parser])
      (hall : ∀ e ∈ es, e.ofContent = true)
      (hv : fed.verdict = if fed.parser.upgrade then .exit else .next)
      (hin : fed.parser.In (if fed.parser.shouldKeepAlive then .start else .dead))

theorem Event.ofContent_of_ofFields {e : Event} (h : e.ofFields = true) : e.ofContent = true := by
  match e with
  | .data .body _ => rfl
  | .messageBegin | .headersComplete | .messageComplete _ | .data .url _ | .data .status _
  | .data .headerField _ | .data .headerValue _ => exact h

theorem ofFields_actEvents {acts : List Act} (h : ∀ act ∈ acts, act.ofHeader = true)
    (q : HttpParser) : ∀ e ∈ actEvents q acts, e.ofFields = true := by
  induction acts with
  | nil => simp [actEvents]
  | cons act acts ih =>
    obtain ⟨hact, hacts⟩ := List.forall_mem_cons.mp h
    cases act with
    | mark part =>
      rw [actEvents, List.forall_mem_cons]
      refine ⟨?_, ih hacts⟩
      cases part <;> first | rfl | cases hact
    | data => exact ih hacts
    | messageBegin | headersComplete | messageComplete => cases hact

/-- The events of a header do not depend on the parser. -/
theorem actEvents_header {acts : List Act} (h : ∀ act ∈ acts, act.ofHeader = true)
    (q q' : HttpParser) : actEvents q acts = actEvents q' acts := by
  induction acts with
  | nil => rfl
  | cons act acts ih =>
    obtain ⟨hact, hacts⟩ := List.forall_mem_cons.mp h
    cases act with
    | messageComplete => cases hact
    | mark | data | messageBegin | headersComplete => simp [actEvents, ih hacts]

theorem ofFields_passEvents {s : HttpState} (h : s.inFields = true) (bs : Bytes) :
    ∀ e ∈ passEvents s.part? bs, e.ofFields = true := by
  cases s <;> simp only [HttpState.inFields, Bool.false_eq_true] at h <;>
    simp [HttpState.part?, passEvents, Event.ofFields]

section Took

variable {p q : HttpParser} {b : UInt8} {z : Zone} {s : HttpState}

/-- The end of a message. -/
theorem in_newMessage (htype : p.type = .response) :
    (p.goto p.newMessage).In (if (p.goto p.newMessage).shouldKeepAlive then .start else .dead) := by
  have hsame : (p.goto p.newMessage).shouldKeepAlive = p.shouldKeepAlive := rfl
  rw [hsame]
  cases halive : p.shouldKeepAlive with
  | true =>
    refine ⟨htype, ?_, by simp⟩
    simp [HttpParser.goto, HttpParser.newMessage, HttpParser.startState, halive, htype,
      HttpState.zone?]
  | false =>
    refine ⟨htype, ?_, by simp⟩
    simp [HttpParser.goto, HttpParser.newMessage, halive, HttpState.zone?]

theorem part?_newMessage (p : HttpParser) : p.newMessage.part? = none := by
  unfold HttpParser.newMessage HttpParser.startState
  split
  · split <;> rfl
  · rfl

theorem events_complete (hs : takesBody s = false) (acts : List Act) (bs : Bytes) :
    (q.complete acts).events s bs =
      actEvents (q.goto q.newMessage) acts ++ [.messageComplete (q.goto q.newMessage)] := by
  have hpart : (q.complete acts).parser.state.part? = none := part?_newMessage q
  simp only [Fed.events, markedPart, hs, hpart]
  simp [HttpParser.complete, HttpParser.next, passEvents, actEvents, actEvents_append]

theorem verdict_next {up : Bool} (h : up = false) :
    Verdict.next = if up = true then .exit else .next := by
  rw [if_neg (by simp [h])]

theorem took_complete {acts : List Act} (htype : q.type = .response) (hup : q.upgrade = false)
    (hs : takesBody s = false) (hz : z = .fields ∨ z = .body ∨ z = .chunks)
    (hacts : ∀ e ∈ actEvents (q.goto q.newMessage) acts, e.ofContent = true) :
    Took z b s (q.complete acts) :=
  .completes _ hz (events_complete hs acts [b]) hacts (verdict_next hup) (in_newMessage htype)

/-- A step into a state that has no mark of its own. -/
theorem events_next {acts : List Act} (hs : takesBody s = false) (hpart : q.state.part? = none)
    (bs : Bytes) : (q.next acts).events s bs = actEvents q acts := by
  have hmarked : markedPart s (q.next acts) = none := by
    simp [markedPart, hs, HttpParser.next, hpart]
  rw [Fed.events, hmarked]
  simp [HttpParser.next, passEvents, actEvents]

/-- `s_headers_done`, for a message that is no trailer. -/
theorem took_headersDone {acts : List Act} (htype : q.type = .response)
    (htrailing : q.flags.trailing = false) (hs : takesBody s = false)
    (hacts : ∀ e ∈ actEvents q acts, e.ofContent = true)
    (hacts' : ∀ q', actEvents q' acts = actEvents q acts) :
    Took .fields b s (q.headersDone 10 acts) := by
  set q₀ : HttpParser := { q with nread := 0 } with hq₀
  have hcomplete (hup : q₀.upgrade = false) : Took .fields b s (q₀.complete acts) :=
    took_complete htype hup hs (.inl rfl) (by rwa [hacts'])
  -- a body follows
  have hbody {t : HttpState} {z' : Zone} (hup : q₀.upgrade = false) (hpart : t.part? = none)
      (hzone : t.zone? false = some z') (hz' : z' = .body ∨ z' = .chunks) :
      Took .fields b s ((q₀.goto t).next acts) := by
    refine .passes z' (by simp) rfl ?_ ⟨htype, ?_, fun _ => hup⟩ ?_
    · rw [events_next hs hpart, hacts']
      exact hacts
    · show t.zone? q.flags.trailing = some z'
      rw [htrailing, hzone]
    · rcases hz' with rfl | rfl <;> simp
  unfold HttpParser.headersDone HttpParser.expect
  rw [if_pos rfl]
  split
  · rename_i hup
    refine .completes (actEvents (q₀.goto q₀.newMessage) acts) (.inl rfl) ?_ ?_
      (if_pos hup).symm (in_newMessage htype)
    · exact events_complete hs acts [b]
    · rwa [hacts']
  rename_i hup
  replace hup : q₀.upgrade = false := by simpa using hup
  split
  · exact hcomplete hup
  split
  · exact hbody hup rfl rfl (.inr rfl)
  split
  · exact hcomplete hup
  split
  · exact hbody hup rfl rfl (.inl rfl)
  split
  · exact hcomplete hup
  · exact hbody hup rfl rfl (.inl rfl)

theorem takesBody_of_inFields (hs : s.inFields = true) : takesBody s = false := by
  cases s <;> simp_all [HttpState.inFields, takesBody]

theorem zone_of_inFields (hs : p.state.inFields = true) :
    p.state.zone? p.flags.trailing = some (if p.flags.trailing then .chunks else .fields) := by
  cases hstate : p.state <;> simp only [hstate, HttpState.inFields, Bool.false_eq_true] at hs
  all_goals rfl

/-- The events of a byte that stays in the fields. -/
theorem events_of_stays {acts : List Act} {s : HttpState} (hs : takesBody s = false)
    (hacts : ∀ act ∈ acts, act.ofHeader = true) (hq : q.state.inFields = true) (b : UInt8) :
    ∀ e ∈ (q.next acts).events s [b], e.ofFields = true := by
  have hmarked : markedPart s (q.next acts) = q.state.part? := by
    simp [markedPart, hs, HttpParser.next]
  intro e he
  rw [Fed.events, hmarked] at he
  simp only [HttpParser.next, actEvents, List.append_nil, List.mem_append] at he
  exact he.elim (ofFields_actEvents hacts _ e) (ofFields_passEvents hq [b] e)

/-- A byte of the header fields. -/
theorem took_fields (hin : p.In z) (hs : p.state.inFields = true) :
    Took z b p.state (p.feed b) := by
  have hbody := takesBody_of_inFields hs
  have hzone := hin.zone
  rw [zone_of_inFields hs] at hzone
  have hstart : z ≠ .start := by
    rw [← Option.some.inj hzone]
    split <;> simp
  have hbyte := fieldsByte_feed hs b
  generalize p.feed b = fed at hbyte
  cases hbyte with
  | refused hacts =>
    exact .refused rfl (ofFields_actEvents hacts _) fun hz => absurd hz hstart
  | @stays q acts hq hqs hacts =>
    refine .passes z hstart rfl ?_ ⟨?_, ?_, ?_⟩ ?_
    · exact fun e he => Event.ofContent_of_ofFields (events_of_stays hbody hacts hqs b e he)
    · exact hq.type.trans hin.type
    · rw [← hzone]
      exact (zone_of_inFields hqs).trans (by rw [hq.trailing])
    · exact fun hz => hq.upgrade.trans (hin.upgrade hz)
    · rw [← Option.some.inj hzone]
      split <;> simp
  | @trailers q acts hq ht hacts =>
    have hz : z = .chunks := by simpa [ht] using hzone.symm
    refine took_complete (hq.type.trans hin.type) (hq.upgrade.trans (hin.upgrade (.inr hz)))
      hbody (.inr (.inr hz)) fun e he => ?_
    exact Event.ofContent_of_ofFields (ofFields_actEvents hacts _ e he)
  | @done q acts hq ht hacts =>
    have hz : z = .fields := by simpa [ht] using hzone.symm
    subst hz
    refine took_headersDone (hq.type.trans hin.type) (hq.trailing.trans ht) hbody ?_ ?_
    · intro e he
      rw [actEvents_append, List.mem_append] at he
      rcases he with he | he
      · exact Event.ofContent_of_ofFields (ofFields_actEvents hacts _ e he)
      · rw [List.mem_singleton.mp he]
        rfl
    · intro q'
      rw [actEvents_append, actEvents_append, actEvents_header hacts q']
      rfl

/-- Where a message begins. -/
theorem took_start (hin : p.In z) (hs : p.state = .startRes) : Took z b p.state (p.feed b) := by
  obtain rfl : .start = z := Option.some.inj (by simpa [hs, HttpState.zone?] using hin.zone)
  have hbody : takesBody p.state = false := by rw [hs]; rfl
  unfold HttpParser.feed
  simp only [hs]
  split
  · rename_i hb
    refine .begins rfl (.inl hb) rfl (events_next rfl rfl [b]) ?_
    rw [if_pos hb]
    exact ⟨hin.type, rfl, by simp⟩
  split
  · rename_i hb hblank
    refine .begins rfl (.inr hblank) rfl (events_next rfl ?_ [b]) ?_
    · simp [HttpParser.fresh, hs, HttpState.part?]
    · rw [if_neg hb]
      refine ⟨hin.type, ?_, by simp⟩
      show p.state.zone? false = some .start
      rw [hs]
      rfl
  · rename_i hb hblank
    rw [not_or] at hblank
    exact .refused rfl (by simp [actEvents, HttpParser.fail]) fun _ => ⟨hb, hblank.1, hblank.2⟩

theorem took_dead (hin : p.In z) (hs : p.state = .dead) : Took z b p.state (p.feed b) := by
  obtain rfl : .dead = z := Option.some.inj (by simpa [hs, HttpState.zone?] using hin.zone)
  unfold HttpParser.feed
  simp only [hs]
  split
  · refine .passes .dead (by simp) rfl ?_ hin (by simp)
    rw [events_next rfl (by rw [hs]; rfl)]
    simp [actEvents]
  · exact .refused rfl (by simp [actEvents, HttpParser.fail]) (by simp)

/-- The states of the status line, up to the reason phrase. -/
def HttpState.inLine : HttpState → Bool
  | .resH | .resHT | .resHTT | .resHTTP | .resFirstHttpMajor | .resHttpMajor
  | .resFirstHttpMinor | .resHttpMinor | .resFirstStatusCode | .resStatusCode
  | .resStatusStart => true
  | _ => false

theorem takesBody_of_inLine (hs : s.inLine = true) : takesBody s = false := by
  cases s <;> simp_all [HttpState.inLine, takesBody]

theorem zone_of_inLine {z : Zone} {trailing : Bool} (hs : s.inLine = true)
    (h : s.zone? trailing = some z) : z = .line ∧ trailing = false := by
  cases s <;> simp only [HttpState.inLine, Bool.false_eq_true] at hs <;>
    cases trailing <;> simp_all [HttpState.zone?]

/-- What a byte does in the status line. -/
inductive LineByte (p : HttpParser) : Fed → Prop where
  | refused {q : HttpParser} {e : HttpErrno} : LineByte p (q.fail e [])
  | stays {q : HttpParser} (htype : q.type = p.type) (htrailing : q.flags = p.flags)
      (hs : q.state.inLine = true ∨ q.state = .resLineAlmostDone ∨ q.state = .headerFieldStart) :
      LineByte p (q.next [])
  | status {q : HttpParser} (htype : q.type = p.type) (htrailing : q.flags = p.flags)
      (hs : q.state = .resStatus) : LineByte p (q.next [.mark .status])

theorem lineByte_expect {c : UInt8} {t : HttpState} (ht : t.inLine = true) :
    LineByte p (p.expect b c [] ((p.goto t).next [])) := by
  unfold HttpParser.expect
  split
  · exact .stays rfl rfl (.inl ht)
  · exact .refused

theorem lineByte_feed (hs : p.state.inLine = true) : LineByte p (p.feed b) := by
  unfold HttpParser.feed
  cases hstate : p.state <;> simp only [hstate, HttpState.inLine, Bool.false_eq_true] at hs
  case resH | resHT | resHTT | resHTTP => exact lineByte_expect rfl
  all_goals
    simp only [HttpParser.majorDigit, HttpParser.minorDigit, HttpParser.resStatusCode]
    repeat' split
    all_goals first
      | exact .refused
      | exact .status rfl rfl rfl
      | exact .stays rfl rfl (.inl rfl)
      | exact .stays rfl rfl (.inr (.inl rfl))
      | exact .stays rfl rfl (.inr (.inr rfl))
      | exact .stays rfl rfl (.inl (congrArg HttpState.inLine hstate))

theorem took_line (hin : p.In z) (hs : p.state.inLine = true) : Took z b p.state (p.feed b) := by
  obtain ⟨rfl, htrailing⟩ := zone_of_inLine hs hin.zone
  have hbody := takesBody_of_inLine hs
  have hbyte := lineByte_feed (b := b) hs
  generalize p.feed b = fed at hbyte
  cases hbyte with
  | refused => exact .refused rfl (by simp [actEvents, HttpParser.fail]) (by simp)
  | @stays q htype hflags hq =>
    have hpart : q.state.part? = none := by
      cases hstate : q.state <;> simp_all [HttpState.inLine, HttpState.part?]
    have hevents : (q.next []).events p.state [b] = [] := events_next hbody hpart [b]
    by_cases hline : q.state.inLine = true
    · refine .passes .line (by simp) rfl (by simp [hevents]) ⟨htype.trans hin.type, ?_,
        by simp⟩ (by simp)
      cases hstate : q.state <;>
        simp_all [HttpState.inLine, HttpState.zone?, HttpParser.next]
    · refine .passes .fields (by simp) rfl (by simp [hevents]) ⟨htype.trans hin.type, ?_,
        by simp⟩ (by simp)
      rcases hq.resolve_left hline with hstate | hstate <;>
        simp [HttpParser.next, hstate, hflags, htrailing, HttpState.zone?, HttpState.inFields]
  | @status q htype hflags hq =>
    refine .status (.inl rfl) rfl (.inl ?_) ⟨htype.trans hin.type, ?_, by simp⟩
    · simp [Fed.events, HttpParser.next, markedPart, hbody, hq, HttpState.part?, passEvents,
        actEvents]
    · simp [HttpParser.next, hq, hflags, htrailing, HttpState.zone?]

theorem took_status (hin : p.In z) (hs : p.state = .resStatus) : Took z b p.state (p.feed b) := by
  obtain ⟨rfl, htrailing⟩ : z = .status ∧ p.flags.trailing = false := by
    have hzone := hin.zone
    cases htrailing : p.flags.trailing <;> simp_all [HttpState.zone?]
  have hend {t : HttpState} (hpart : t.part? = none) (hzone : t.zone? false = some .fields) :
      Took .status b .resStatus ((p.goto t).next [.data .status]) := by
    refine .passes .fields (by simp) rfl ?_ ⟨hin.type, ?_, by simp⟩ (by simp)
    · rw [events_next rfl hpart]
      simp [actEvents]
    · show t.zone? p.flags.trailing = some .fields
      rw [htrailing, hzone]
  unfold HttpParser.feed
  simp only [hs]
  split
  · exact hend rfl rfl
  split
  · exact hend rfl rfl
  · refine .status (.inr rfl) rfl (.inr ⟨rfl, ?_⟩) hin
    simp [Fed.events, HttpParser.next, markedPart, takesBody, hs, HttpState.part?, passEvents,
      actEvents]

/-- The states between the bytes of the chunks. -/
def HttpState.inChunks : HttpState → Bool
  | .chunkSizeStart | .chunkSize | .chunkParameters | .chunkSizeAlmostDone
  | .chunkDataAlmostDone | .chunkDataDone => true
  | _ => false

/-- What a byte does between the bytes of the chunks. -/
inductive ChunkByte (p : HttpParser) : Fed → Prop where
  | refused {q : HttpParser} {e : HttpErrno} : ChunkByte p (q.fail e [])
  | stays {q : HttpParser} {acts : List Act} (htype : q.type = p.type)
      (hcode : q.statusCode = p.statusCode)
      (hchunked : p.flags.chunked = true → q.flags.chunked = true) (hup : q.upgrade = p.upgrade)
      (hs : q.state.inChunks = true ∨ q.state = .chunkData ∨
        q.state = .headerFieldStart ∧ q.flags.trailing = true)
      (hacts : acts = [] ∨ acts = [.data .body]) : ChunkByte p (q.next acts)

theorem chunkByte_feed (hs : p.state.inChunks = true) : ChunkByte p (p.feed b) := by
  unfold HttpParser.feed
  cases hstate : p.state <;> simp only [hstate, HttpState.inChunks, Bool.false_eq_true] at hs
  all_goals
    simp only [HttpParser.chunkSizeStart, HttpParser.chunkSize, HttpParser.chunkSizeAlmostDone,
      HttpParser.expect]
    repeat' split
    all_goals first
      | exact .refused
      | exact .stays rfl rfl id rfl (.inl rfl) (.inl rfl)
      | exact .stays rfl rfl id rfl (.inl rfl) (.inr rfl)
      | exact .stays rfl rfl id rfl (.inr (.inl rfl)) (.inl rfl)
      | exact .stays rfl rfl id rfl (.inr (.inr ⟨rfl, rfl⟩)) (.inl rfl)
      | exact .stays rfl rfl id rfl (.inl (congrArg HttpState.inChunks hstate)) (.inl rfl)

theorem zone_of_inChunks (hs : s.inChunks = true) (trailing : Bool) :
    s.zone? trailing = some .chunks ∧ s.part? = none ∧ takesBody s = false := by
  cases s <;> simp only [HttpState.inChunks, Bool.false_eq_true] at hs
  all_goals exact ⟨rfl, rfl, rfl⟩

theorem zone_of_chunkNext (hq : q.state.inChunks = true ∨ q.state = .chunkData ∨
      q.state = .headerFieldStart ∧ q.flags.trailing = true) :
    q.state.part? = none ∧ q.state.zone? q.flags.trailing = some .chunks := by
  rcases hq with hq | hq | ⟨hq, ht⟩
  · obtain ⟨hzone, hpart, -⟩ := zone_of_inChunks hq q.flags.trailing
    exact ⟨hpart, hzone⟩
  · rw [hq]
    exact ⟨rfl, rfl⟩
  · rw [hq, ht]
    exact ⟨rfl, rfl⟩

theorem took_chunks (hin : p.In z) (hs : p.state.inChunks = true) :
    Took z b p.state (p.feed b) := by
  obtain ⟨hzone, -, hbody⟩ := zone_of_inChunks hs p.flags.trailing
  obtain rfl : .chunks = z := Option.some.inj (hzone.symm.trans hin.zone)
  have hbyte := chunkByte_feed (b := b) hs
  generalize p.feed b = fed at hbyte
  cases hbyte with
  | refused => exact .refused rfl (by simp [actEvents, HttpParser.fail]) (by simp)
  | @stays q acts htype _ _ hup hq hacts =>
    obtain ⟨hpart, hqzone⟩ := zone_of_chunkNext hq
    refine .passes .chunks (by simp) rfl ?_ ⟨htype.trans hin.type, hqzone, fun _ => ?_⟩ (by simp)
    · rw [events_next hbody hpart]
      rcases hacts with rfl | rfl <;> simp [actEvents]
    · exact hup.trans (hin.upgrade (.inr rfl))

/-- A byte of a body. -/
theorem took_body (hin : p.In z) (hbody : takesBody p.state = true) :
    Took z b p.state (p.advance b 1).2 := by
  obtain ⟨hverdict, hacts⟩ := advance_body_verdict hbody b 1
  have hevents := events_body hbody hacts [b]
  have hz : z = .body ∨ z = .chunks := by
    have hzone := hin.zone
    cases hstate : p.state <;> simp only [hstate, takesBody, Bool.false_eq_true] at hbody
    all_goals simp_all [HttpState.zone?]
  have hup := hin.upgrade hz
  have hpass (hlate : (p.advance b 1).2.late = []) (hq : (p.advance b 1).2.parser.In z) :
      Took z b p.state (p.advance b 1).2 := by
    refine .passes z ?_ hverdict ?_ hq ?_
    · rcases hz with rfl | rfl <;> simp
    · rw [hevents, hlate]
      simp [actEvents, Event.ofContent]
    · rcases hz with rfl | rfl <;> simp
  cases hstate : p.state <;> simp only [hstate, takesBody, Bool.false_eq_true] at hbody
  case bodyIdentityEof =>
    rw [← hstate]
    exact hpass (by simp [HttpParser.advance, hstate, HttpParser.next])
      (by simpa [HttpParser.advance, hstate, HttpParser.next] using hin)
  case chunkData =>
    obtain rfl : .chunks = z := by simpa [hstate, HttpState.zone?] using hin.zone
    rw [← hstate]
    refine hpass (by simp [HttpParser.advance, hstate, HttpParser.chunkData, HttpParser.next]) ?_
    simp only [HttpParser.advance, hstate, HttpParser.chunkData, HttpParser.next]
    split
    · exact ⟨hin.type, rfl, fun _ => hup⟩
    · exact ⟨hin.type, rfl, fun _ => hup⟩
  case bodyIdentity =>
    obtain rfl : .body = z := by simpa [hstate, HttpState.zone?] using hin.zone
    rw [← hstate]
    by_cases hlast : p.contentLength - min p.contentLength 1 = 0
    · -- the last byte
      have hfed : (p.advance b 1).2 = HttpParser.bodyIdentity p (min p.contentLength 1) := by
        simp [HttpParser.advance, hstate]
      rw [hfed] at hevents ⊢
      unfold HttpParser.bodyIdentity at hevents ⊢
      simp only [hlast, if_true] at hevents ⊢
      refine .completes [.data .body [], .data .body [b]] (.inr (.inl rfl)) ?_ ?_
        (verdict_next hup) (in_newMessage hin.type)
      · rw [hevents]
        simp [actEvents]
      · simp [Event.ofContent]
    · refine hpass ?_ ?_
      · simp [HttpParser.advance, hstate, HttpParser.bodyIdentity, HttpParser.next, hlast]
      · simp only [HttpParser.advance, hstate, HttpParser.bodyIdentity, HttpParser.next, hlast,
          if_false]
        exact ⟨hin.type, rfl, fun _ => hup⟩

theorem HttpParser.In.count (hin : p.In z) : p.count.In z := by
  obtain ⟨n, hn⟩ := HttpParser.count_eq p
  rw [hn]
  exact ⟨hin.type, hin.zone, hin.upgrade⟩

theorem state_of_zone {trailing : Bool} (h : s.zone? trailing = some z) :
    s = .startRes ∨ s = .dead ∨ s = .resStatus ∨ s.inLine = true ∨ s.inFields = true ∨
      s.inChunks = true ∨ takesBody s = true := by
  cases s <;> first
    | exact .inl rfl
    | exact .inr (.inl rfl)
    | exact .inr (.inr (.inl rfl))
    | exact .inr (.inr (.inr (.inl rfl)))
    | exact .inr (.inr (.inr (.inr (.inl rfl))))
    | exact .inr (.inr (.inr (.inr (.inr (.inl rfl)))))
    | exact .inr (.inr (.inr (.inr (.inr (.inr rfl)))))
    | cases h

/-- **What a byte does to a parser of responses.** -/
theorem took_advance (hin : p.In z) (b : UInt8) : Took z b p.state (p.count.advance b 1).2 := by
  rw [← count_state p]
  have hin := hin.count
  generalize p.count = p at hin
  by_cases hbody : takesBody p.state = true
  · exact took_body hin hbody
  rw [advance_byte (by simpa using hbody)]
  rcases state_of_zone hin.zone with hs | hs | hs | hs | hs | hs | hs
  · exact took_start hin hs
  · exact took_dead hin hs
  · exact took_status hin hs
  · exact took_line hin hs
  · exact took_fields hin hs
  · exact took_chunks hin hs
  · exact absurd hs hbody

end Took

end FiberProxy.Http.ByteParser
