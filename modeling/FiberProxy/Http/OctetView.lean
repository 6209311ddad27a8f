/-
  FiberProxy.Http.OctetView

  The client's parser over octets (`ResponseParser`) and the parser over bytes
  (`HttpParser`) are one parser.  The parser of bytes says what a byte is in its response
  (`octet`): the end of the header with what the header says, a byte of the reason phrase or
  of a body, a byte that is refused.  On the octets of some bytes the parser of octets does
  what the parser of bytes does on the bytes, one by one (`mirrors_byte`) and so read by read
  (`execute_octets`, `executeEof_view`).

  Only what a refused read has put into the reason phrase differs: the parser of bytes hands
  over the pieces of a read at their ends, and an error keeps the last one back.
-/

import FiberProxy.Http.ResponseReads

namespace FiberProxy.Http.ByteParser

open Lib
open HttpParser (takesBody)

/-! ## The octet of a byte -/

/-- HTTP/1.1 without `Connection: close`, or HTTP/1.0 with `keep-alive`. -/
def HttpParser.persistent (p : HttpParser) : Bool :=
  if 0 < p.httpMajor ∧ 0 < p.httpMinor then !p.flags.connectionClose
  else p.flags.connectionKeepAlive

def HttpParser.framing (p : HttpParser) : Framing :=
  if p.flags.chunked then .chunked
  else if p.contentLength = ullongMax then .unframed
  else .length p.contentLength

/-- What the parser knows at the end of a header. -/
def HttpParser.head (p : HttpParser) : Head where
  code := p.statusCode
  persistent := p.persistent
  upgrade := p.upgrade
  framing := p.framing

/-- A byte that the parser in the zone `z` and the state `s` makes `fed` of. -/
def octetIn (z : Zone) (s : HttpState) (b : UInt8) (fed : Fed) : Octet :=
  match z with
  | .start => if b = 72 then .start else .head b true
  | .line | .status | .fields =>
    if fed.verdict = .error then .head b false
    else
      match fed.parser.state.zone? fed.parser.flags.trailing with
      | some .status => .reason b
      | some .line | some .fields => .head b true
      | _ => .headEnd fed.parser.head
  | .body => .data b
  | .chunks =>
    if fed.verdict = .error then .head b false
    else if fed.completes then .chunksEnd fed.parser.persistent
    else if s = .chunkData then .data b
    else .chunk b
  | .dead => .head b true

def octet (p : HttpParser) (b : UInt8) : Octet :=
  if p.count.overflows then .head b false
  else
    match p.state.zone? p.flags.trailing with
    | some z => octetIn z p.state b (p.count.advance b 1).2
    | none => .head b false

/-- The bytes as octets. -/
def octets : HttpParser → Bytes → List Octet
  | _, [] => []
  | p, b :: bs => octet p b :: octets (p.count.advance b 1).2.parser bs

theorem octet_eq {p : HttpParser} {z : Zone} (hin : p.In z) (hover : p.count.overflows = false)
    (b : UInt8) : octet p b = octetIn z p.state b (p.count.advance b 1).2 := by
  simp [octet, hover, hin.zone]

/-! ## Two views of one parser -/

/-- What the parser of octets is while the parser of bytes is in the zone `z`. -/
def Sees (z : Zone) (p : HttpParser) (parser : Parser) : Prop :=
  match z with
  | .start => parser = .start
  | .line | .status | .fields => parser = .head ∧ p.flags.skipbody = false
  | .body => ∃ h : Head, h.code = p.statusCode ∧ h.keepAlive = p.shouldKeepAlive ∧
      parser = if p.state = .bodyIdentity then .body h p.contentLength else .untilEof h
  | .chunks => ∃ h : Head, h.code = p.statusCode ∧ h.framing = .chunked ∧
      p.flags.chunked = true ∧ parser = .chunks h
  | .dead => parser = .dead

/-- The parser of bytes `p` with the callbacks' `r`, and the parser of octets. -/
structure Twin (z : Zone) (p : HttpParser) (r : Reception) (j : ParserImpl) : Prop where
  zone : p.In z
  sees : Sees z p j.parser
  rsp : r.rsp = j.rsp
  cont : r.shouldContinue = j.shouldContinue
  line : z = .line → r.inStatus = false ∧ j.inStatus = false
  status : z = .status → r.inStatus = true ∧ j.inStatus = true

/-- The two make the same of a byte. -/
inductive Mirrors (r : Reception) (j : ParserImpl) (fed : Fed) (es : List Event) :
    Http.Fed → Prop where
  | next {z : Zone} {j' : ParserImpl} (hv : fed.verdict = .next)
      (h : Twin z fed.parser (es.foldl onEvent r) j') : Mirrors r j fed es (.next j')
  | exit {z : Zone} {j' : ParserImpl} (hv : fed.verdict = .exit)
      (h : Twin z fed.parser (es.foldl onEvent r) j') : Mirrors r j fed es (.exit j')
  | error (hv : fed.verdict = .error) : Mirrors r j fed es (.error { j with parser := .error })

/-- The same, of the byte `b` that the parser of bytes gets in the zone `z` and the state `s`. -/
def MirrorsIn (z : Zone) (s : HttpState) (r : Reception) (j : ParserImpl) (b : UInt8)
    (fed : Fed) : Prop :=
  Mirrors r j fed (fed.events s [b]) (feed j (octetIn z s b fed))

section Head

variable {p q : HttpParser}

theorem needsEof_head (htype : p.type = .response) (hskip : p.flags.skipbody = false) :
    p.head.needsEof = p.needsEof := by
  unfold Head.needsEof Head.interim HttpParser.needsEof HttpParser.head HttpParser.framing
  by_cases hchunked : p.flags.chunked = true
  · simp [htype, hchunked]
  · by_cases hlength : p.contentLength = ullongMax <;>
      by_cases hcode : p.statusCode / 100 = 1 ∨ p.statusCode = 204 ∨ p.statusCode = 304 <;>
        (simp_all; try tauto)

theorem shouldKeepAlive_eq (p : HttpParser) :
    p.shouldKeepAlive = (p.persistent && !p.needsEof) := by
  unfold HttpParser.shouldKeepAlive HttpParser.persistent
  split <;> rfl

theorem keepAlive_head (htype : p.type = .response) (hskip : p.flags.skipbody = false) :
    p.head.keepAlive = p.shouldKeepAlive := by
  rw [Head.keepAlive, needsEof_head htype hskip, shouldKeepAlive_eq]
  rfl

/-- A body in chunks needs no end of the stream. -/
theorem keepAlive_chunks (hchunked : p.flags.chunked = true) {h : Head}
    (hframing : h.framing = .chunked) :
    { h with persistent := p.persistent }.keepAlive = p.shouldKeepAlive := by
  have hneeds : p.needsEof = false := by
    unfold HttpParser.needsEof
    simp [hchunked]
  simp [Head.keepAlive, Head.needsEof, hframing, shouldKeepAlive_eq, hneeds]

/-- A body with a length stays one. -/
theorem shouldKeepAlive_length {n : Nat} (hp : p.contentLength ≠ ullongMax) (hn : n ≠ ullongMax) :
    { p with contentLength := n }.shouldKeepAlive = p.shouldKeepAlive := by
  simp [HttpParser.shouldKeepAlive, HttpParser.needsEof, hp, hn]

end Head

section Bytes

variable {p q : HttpParser} {r : Reception} {j : ParserImpl} {b : UInt8} {z : Zone}

/-- Events of the fields leave the response alone. -/
theorem foldl_ofFields {es : List Event} (hes : ∀ e ∈ es, e.ofFields = true) (r : Reception) :
    (es.foldl onEvent r).rsp = r.rsp ∧ (es.foldl onEvent r).shouldContinue = r.shouldContinue := by
  induction es generalizing r with
  | nil => exact ⟨rfl, rfl⟩
  | cons e es ih =>
    obtain ⟨he, hes⟩ := List.forall_mem_cons.mp hes
    obtain ⟨hrsp, hcont⟩ := ih hes (onEvent r e)
    rw [List.foldl_cons, hrsp, hcont]
    match e with
    | .data .headerField _ | .data .headerValue _ | .headersComplete => exact ⟨rfl, rfl⟩
    | .messageBegin | .messageComplete _ | .data .url _ | .data .status _ | .data .body _ =>
      cases he

/-- A refused byte. -/
theorem feed_refused (h : Sees z p j.parser) (hz : z ≠ .body) (b : UInt8) :
    feed j (.head b false) = .error { j with parser := .error } := by
  cases z with
  | start =>
    have hj : j.parser = .start := h
    simp [feed, hj, startRes, Octet.overflows]
  | line | status | fields =>
    have hj : j.parser = .head := h.1
    simp [feed, hj]
  | body => exact absurd rfl hz
  | chunks =>
    obtain ⟨h, -, -, -, hj⟩ := h
    simp [feed, hj]
  | dead =>
    have hj : j.parser = .dead := h
    simp [feed, hj, deadByte, Octet.overflows]

theorem mirrors_start (h : Twin .start p r j) :
    MirrorsIn .start p.state r j b (p.feed b) := by
  unfold MirrorsIn
  have hs := state_of_start h.zone
  have hj : j.parser = .start := h.sees
  have hskip : b = 72 → (p.feed b).parser.flags.skipbody = false := by
    rintro rfl
    simp [HttpParser.feed, hs, HttpParser.fresh, HttpParser.goto, HttpParser.next]
  have htook := took_start (b := b) h.zone hs
  generalize p.feed b = fed at htook hskip
  cases htook with
  | refused hv _ hb =>
    have hb := hb rfl
    have hfeed : feed j (octetIn .start p.state b fed) = .error { j with parser := .error } := by
      simp [octetIn, feed, hj, startRes, Octet.overflows, Octet.byte, hb]
    rw [hfeed]
    exact .error hv
  | begins _ hb hv hes hin =>
    rw [hes]
    by_cases h72 : b = 72
    · have hfeed : feed j (octetIn .start p.state b fed) =
          .next { j.onMsgBegin with parser := .head } := by
        simp [octetIn, h72, feed, hj, startRes, Octet.overflows, Octet.byte]
      rw [if_pos h72] at hin
      rw [hfeed]
      exact .next hv ⟨hin, ⟨rfl, hskip h72⟩, rfl, h.cont, fun _ => ⟨rfl, rfl⟩, by simp⟩
    · have hfeed : feed j (octetIn .start p.state b fed) = .next j.onMsgBegin := by
        simp [octetIn, h72, feed, hj, startRes, Octet.overflows, Octet.byte, hb.resolve_left h72]
      rw [if_neg h72] at hin
      rw [hfeed]
      exact .next hv ⟨hin, hj, rfl, h.cont, by simp, by simp⟩
  | status hz => simp at hz
  | passes _ hz => exact absurd rfl hz
  | completes _ hz => simp at hz

theorem mirrors_dead (h : Twin .dead p r j) (hs : p.state = .dead) :
    MirrorsIn .dead p.state r j b (p.feed b) := by
  unfold MirrorsIn
  have hj : j.parser = .dead := h.sees
  have hfeed : feed j (octetIn .dead p.state b (p.feed b)) =
      if b = 13 ∨ b = 10 then .next j else .error { j with parser := .error } := by
    simp [octetIn, feed, hj, deadByte, Octet.overflows, Octet.byte]
  have hfed : p.feed b = if b = 13 ∨ b = 10 then p.next [] else p.fail .closedConnection [] := by
    simp [HttpParser.feed, hs]
  rw [hfeed, hfed]
  split
  · refine .next (z := .dead) rfl ?_
    rw [events_next (by rw [hs]; rfl) (by rw [hs]; rfl)]
    exact h
  · exact .error rfl

/-- The octet of a byte that leaves the parser in a header. -/
theorem feed_head_next {fed : Fed} {z' : Zone} {s : HttpState} (hj : j.parser = .head)
    (hz : z = .line ∨ z = .status ∨ z = .fields) (hv : fed.verdict = .next)
    (hzone : fed.parser.state.zone? fed.parser.flags.trailing = some z')
    (hz' : z' = .line ∨ z' = .fields) :
    feed j (octetIn z s b fed) = .next { j with toReception := j.toReception.onHeader } := by
  have hoctet : octetIn z s b fed = .head b true := by
    rcases hz with rfl | rfl | rfl <;> rcases hz' with rfl | rfl <;> simp [octetIn, hv, hzone]
  rw [hoctet]
  simp [feed, hj]

theorem feed_head_error {fed : Fed} {s : HttpState} (hj : j.parser = .head)
    (hz : z = .line ∨ z = .status ∨ z = .fields) (hv : fed.verdict = .error) :
    feed j (octetIn z s b fed) = .error { j with parser := .error } := by
  have hoctet : octetIn z s b fed = .head b false := by
    rcases hz with rfl | rfl | rfl <;> simp [octetIn, hv]
  rw [hoctet]
  simp [feed, hj]

theorem feed_head_reason {fed : Fed} {s : HttpState} (hj : j.parser = .head)
    (hz : z = .line ∨ z = .status) (hv : fed.verdict = .next)
    (hzone : fed.parser.state.zone? fed.parser.flags.trailing = some .status) :
    feed j (octetIn z s b fed) = .next (j.onStatusComplete b) := by
  have hoctet : octetIn z s b fed = .reason b := by
    rcases hz with rfl | rfl <;> simp [octetIn, hv, hzone]
  rw [hoctet]
  simp [feed, hj]

theorem mirrors_line (h : Twin .line p r j) (hs : p.state.inLine = true) :
    MirrorsIn .line p.state r j b (p.feed b) := by
  unfold MirrorsIn
  obtain ⟨hj, hskip⟩ := h.sees
  obtain ⟨hr, hjs⟩ := h.line rfl
  obtain ⟨-, htrailing⟩ := zone_of_inLine hs h.zone.zone
  have hbody := takesBody_of_inLine hs
  have hbyte := lineByte_feed (b := b) hs
  generalize p.feed b = fed at hbyte
  cases hbyte with
  | refused =>
    rw [feed_head_error hj (.inl rfl) rfl]
    exact .error rfl
  | @stays q htype hflags hq =>
    have hpart : q.state.part? = none := by
      cases hstate : q.state <;> simp_all [HttpState.inLine, HttpState.part?]
    obtain ⟨z', hz', hzone⟩ : ∃ z', (z' = .line ∨ z' = .fields) ∧
        q.state.zone? q.flags.trailing = some z' := by
      rw [hflags, htrailing]
      rcases hq with hq | hq | hq
      · refine ⟨.line, .inl rfl, ?_⟩
        cases hstate : q.state <;> simp_all [HttpState.inLine, HttpState.zone?]
      · exact ⟨.fields, .inr rfl, by rw [hq]; rfl⟩
      · exact ⟨.fields, .inr rfl, by rw [hq]; rfl⟩
    rw [feed_head_next hj (.inl rfl) rfl hzone hz', events_next hbody hpart]
    refine .next (z := z') rfl ⟨⟨htype.trans h.zone.type, hzone, ?_⟩, ?_, h.rsp, h.cont,
      fun _ => ⟨hr, rfl⟩, ?_⟩
    · rcases hz' with rfl | rfl <;> simp
    · rcases hz' with rfl | rfl <;> exact ⟨hj, by rw [HttpParser.next, hflags, hskip]⟩
    · rcases hz' with rfl | rfl <;> simp
  | @status q htype hflags hq =>
    have hzone : q.state.zone? q.flags.trailing = some .status := by
      rw [hq, hflags, htrailing]
      rfl
    have hes : (q.next [.mark .status]).events p.state [b] =
        [.data .status [], .data .status [b]] := by
      simp [Fed.events, HttpParser.next, markedPart, hbody, hq, HttpState.part?, passEvents,
        actEvents]
    rw [feed_head_reason hj (.inl rfl) rfl hzone, hes]
    refine .next (z := .status) rfl ⟨⟨htype.trans h.zone.type, hzone, by simp⟩,
      ⟨hj, by rw [HttpParser.next, hflags, hskip]⟩, ?_, h.cont, by simp, fun _ => ⟨rfl, rfl⟩⟩
    simp [onEvent, Reception.onStatusComplete, ParserImpl.onStatusComplete, hr, hjs, h.rsp]

theorem mirrors_status (h : Twin .status p r j) (hs : p.state = .resStatus) :
    MirrorsIn .status p.state r j b (p.feed b) := by
  unfold MirrorsIn
  obtain ⟨hj, hskip⟩ := h.sees
  obtain ⟨hr, hjs⟩ := h.status rfl
  have htrailing : p.flags.trailing = false := by
    have hzone := h.zone.zone
    cases htrailing : p.flags.trailing <;> simp_all [HttpState.zone?]
  have hend {t : HttpState} (hpart : t.part? = none) (hzone : t.zone? false = some .fields) :
      MirrorsIn .status p.state r j b ((p.goto t).next [.data .status]) := by
    have hzone' : (p.goto t).state.zone? (p.goto t).flags.trailing = some .fields := by
      show t.zone? p.flags.trailing = _
      rw [htrailing, hzone]
    rw [MirrorsIn, feed_head_next hj (.inr (.inl rfl)) rfl hzone' (.inr rfl),
      events_next (by rw [hs]; rfl) hpart]
    exact .next (z := .fields) rfl ⟨⟨h.zone.type, hzone', by simp⟩, ⟨hj, hskip⟩, h.rsp, h.cont,
      by simp, by simp⟩
  have hfed : p.feed b = if b = 13 then (p.goto .resLineAlmostDone).next [.data .status]
      else if b = 10 then (p.goto .headerFieldStart).next [.data .status] else p.next [] := by
    simp [HttpParser.feed, hs]
  rw [hfed]
  split
  · exact hend rfl rfl
  split
  · exact hend rfl rfl
  · have hes : (p.next []).events p.state [b] = [.data .status [b]] := by
      simp [Fed.events, HttpParser.next, markedPart, takesBody, hs, HttpState.part?, passEvents,
        actEvents]
    rw [feed_head_reason hj (.inr rfl) rfl h.zone.zone, hes]
    refine .next (z := .status) rfl ⟨h.zone, ⟨hj, hskip⟩, ?_, h.cont, by simp, fun _ => ⟨rfl, rfl⟩⟩
    simp [onEvent, Reception.onStatusComplete, ParserImpl.onStatusComplete, hr, hjs, h.rsp]

/-- The end of a message, for both. -/
theorem twin_complete {h : Head} (es : List Event) (htype : q.type = .response)
    (hcode : h.code = q.statusCode) (halive : h.keepAlive = q.shouldKeepAlive)
    (hrsp : (es.foldl onEvent r).rsp = j.rsp) :
    Twin (if q.shouldKeepAlive then .start else .dead) (q.goto q.newMessage)
      ((es ++ [Event.messageComplete (q.goto q.newMessage)]).foldl onEvent r) (j.complete h) := by
  have hin := in_newMessage htype
  have hsame : (q.goto q.newMessage).shouldKeepAlive = q.shouldKeepAlive := rfl
  rw [List.foldl_append]
  refine ⟨hin, ?_, ?_, rfl, fun hz => ?_, fun hz => ?_⟩
  · show Sees _ _ (if h.keepAlive then Parser.start else .dead)
    rw [halive]
    cases q.shouldKeepAlive <;> exact rfl
  · have hcode' : (q.goto q.newMessage).statusCode = h.code := hcode.symm
    simp [onEvent, Reception.onMsgComplete, ParserImpl.complete, ParserImpl.onMsgComplete, hrsp,
      hcode', halive, hsame]
  · split at hz <;> cases hz
  · split at hz <;> cases hz

/-- The octet that ends a header. -/
theorem feed_headEnd_of_zone (fed : Fed) {z' : Zone} {s : HttpState} (hj : j.parser = .head)
    (hv : fed.verdict ≠ .error)
    (hzone : fed.parser.state.zone? fed.parser.flags.trailing = some z')
    (hz' : z' = .start ∨ z' = .dead ∨ z' = .body ∨ z' = .chunks) :
    feed j (octetIn .fields s b fed) = headersDone j fed.parser.head := by
  have hoctet : octetIn .fields s b fed = .headEnd fed.parser.head := by
    rcases hz' with rfl | rfl | rfl | rfl <;> simp [octetIn, hv, hzone]
  rw [hoctet]
  simp [feed, hj]

/-- The end of a header, for both: `acts` are left of it. -/
structure HeadRead (q : HttpParser) (r : Reception) (j : ParserImpl) (s : HttpState)
    (acts : List Act) : Prop where
  type : q.type = .response
  skipbody : q.flags.skipbody = false
  trailing : q.flags.trailing = false
  noBody : takesBody s = false
  events : ∀ q', ∀ e ∈ actEvents q' acts, e.ofFields = true
  parser : j.parser = .head
  rsp : r.rsp = j.rsp
  cont : r.shouldContinue = j.shouldContinue

section HeadRead

variable {s : HttpState} {acts : List Act}

theorem HeadRead.twin (h : HeadRead q r j s acts) :
    Twin (if q.shouldKeepAlive then .start else .dead) (q.goto q.newMessage)
      (((q.complete acts).events s [b]).foldl onEvent r) (j.complete q.head) := by
  rw [events_complete h.noBody]
  exact twin_complete _ h.type rfl (keepAlive_head h.type h.skipbody)
    ((foldl_ofFields (h.events _) r).1.trans h.rsp)

theorem HeadRead.feed_over (h : HeadRead q r j s acts) {v : Verdict} (hv : v ≠ .error) :
    feed j (octetIn .fields s b { q.complete acts with verdict := v }) = headersDone j q.head :=
  feed_headEnd_of_zone { q.complete acts with verdict := v } h.parser hv (in_newMessage h.type).zone
    (by split <;> simp)

/-- The message is over with its header. -/
theorem HeadRead.over (h : HeadRead q r j s acts)
    (hdone : headersDone j q.head = .next (j.complete q.head)) :
    MirrorsIn .fields s r j b (q.complete acts) := by
  have hfeed : feed j (octetIn .fields s b (q.complete acts)) = headersDone j q.head :=
    h.feed_over (v := .next) (by simp)
  rw [MirrorsIn, hfeed, hdone]
  exact .next rfl h.twin

/-- Another protocol follows. -/
theorem HeadRead.exit (h : HeadRead q r j s acts) (hup : q.upgrade = true) :
    MirrorsIn .fields s r j b { q.complete acts with verdict := .exit } := by
  have hdone : headersDone j q.head = .exit (j.complete q.head) := if_pos hup
  rw [MirrorsIn, h.feed_over (by simp), hdone]
  exact .exit rfl h.twin

/-- A body follows. -/
theorem HeadRead.goes (h : HeadRead q r j s acts) {t : HttpState} {z' : Zone} {parser : Parser}
    (hpart : t.part? = none) (hzone : t.zone? false = some z') (hz' : z' = .body ∨ z' = .chunks)
    (hup : q.upgrade = false) (hsees : Sees z' (q.goto t) parser)
    (hdone : headersDone j q.head = .next { j with parser := parser }) :
    MirrorsIn .fields s r j b ((q.goto t).next acts) := by
  have hzone' : (q.goto t).state.zone? (q.goto t).flags.trailing = some z' := by
    show t.zone? q.flags.trailing = _
    rw [h.trailing, hzone]
  obtain ⟨hrsp, hcont⟩ := foldl_ofFields (h.events (q.goto t)) r
  rw [MirrorsIn, feed_headEnd_of_zone ((q.goto t).next acts) h.parser (by simp [HttpParser.next])
    hzone' (.inr (.inr hz')), events_next h.noBody hpart]
  show Mirrors _ _ _ _ (headersDone j q.head)
  rw [hdone]
  refine .next (z := z') rfl ⟨⟨h.type, hzone', fun _ => hup⟩, hsees, hrsp.trans h.rsp,
    hcont.trans h.cont, ?_, ?_⟩ <;> rcases hz' with rfl | rfl <;> simp

/-- `s_headers_done`, for both. -/
theorem mirrors_headersDone (hq : HeadRead q r j s acts) :
    MirrorsIn .fields s r j b (q.headersDone 10 acts) := by
  set q₀ : HttpParser := { q with nread := 0 }
  have h : HeadRead q₀ r j s acts := { hq with }
  unfold HttpParser.headersDone HttpParser.expect
  rw [if_pos rfl]
  split
  · exact h.exit ‹_›
  rename_i hup
  have hup : q₀.upgrade = false := by simpa using hup
  have hplain : q₀.head.upgrade = false := hup
  have halive := keepAlive_head h.type h.skipbody
  rw [if_neg (by simp [hq.skipbody])]
  split
  · rename_i hchunked
    have hframing : q₀.head.framing = .chunked := if_pos hchunked
    refine h.goes rfl rfl (.inr rfl) hup ⟨q₀.head, rfl, hframing, hchunked, rfl⟩ ?_
    simp [headersDone, hplain, hframing]
  rename_i hchunked
  split
  · rename_i hlength
    have hframing : q₀.head.framing = .length 0 := by
      rw [HttpParser.head, HttpParser.framing, if_neg hchunked, hlength]
      rfl
    exact h.over (by simp [headersDone, hplain, hframing])
  rename_i hlength
  split
  · rename_i hmax
    obtain ⟨n, hn⟩ := Nat.exists_eq_add_one_of_ne_zero hlength
    have hframing : q₀.head.framing = .length (n + 1) := by
      rw [HttpParser.head, HttpParser.framing, if_neg hchunked, if_neg hmax, hn]
    refine h.goes rfl rfl (.inl rfl) hup ⟨q₀.head, rfl, halive, rfl⟩ ?_
    have hlength' : (q₀.goto .bodyIdentity).contentLength = n + 1 := hn
    rw [if_pos (show (q₀.goto .bodyIdentity).state = .bodyIdentity from rfl), hlength']
    simp [headersDone, hplain, hframing]
  rename_i hmax
  have hframing : q₀.head.framing = .unframed := by
    rw [HttpParser.head, HttpParser.framing, if_neg hchunked, if_pos (not_not.mp hmax)]
  have hneedsEof := needsEof_head h.type h.skipbody
  split
  · rename_i hneeds
    rw [hneeds.resolve_left (by simp [hq.type])] at hneedsEof
    exact h.over (by simp [headersDone, hplain, hframing, hneedsEof])
  · rename_i hneeds
    rw [show q₀.needsEof = true by simpa using (not_or.mp hneeds).2] at hneedsEof
    refine h.goes rfl rfl (.inl rfl) hup ⟨q₀.head, rfl, halive, rfl⟩ ?_
    simp [headersDone, hplain, hframing, hneedsEof, HttpParser.goto]

end HeadRead

theorem completes_of_ofHeader {acts : List Act} (h : ∀ act ∈ acts, act.ofHeader = true)
    (q : HttpParser) : (q.next acts).completes = false := by
  have hmem : Act.messageComplete ∉ acts := fun hmem => by
    have hcomplete := h _ hmem
    cases hcomplete
  simpa [Fed.completes, HttpParser.next] using hmem

/-- A byte of the header fields. -/
theorem mirrors_fields (h : Twin .fields p r j) (hs : p.state.inFields = true) :
    MirrorsIn .fields p.state r j b (p.feed b) := by
  unfold MirrorsIn
  obtain ⟨hj, hskip⟩ := h.sees
  have htrailing : p.flags.trailing = false := by
    have hzone := h.zone.zone
    rw [zone_of_inFields hs] at hzone
    by_contra ht
    simp [ht] at hzone
  have hbody := takesBody_of_inFields hs
  have hbyte := fieldsByte_feed hs b
  generalize p.feed b = fed at hbyte
  cases hbyte with
  | refused hacts =>
    rw [feed_head_error hj (.inr (.inr rfl)) rfl]
    exact .error rfl
  | @stays q acts hq hqs hacts =>
    have hzone : q.state.zone? q.flags.trailing = some .fields := by
      rw [zone_of_inFields hqs, hq.trailing, htrailing]
      rfl
    obtain ⟨hrsp, hcont⟩ := foldl_ofFields (events_of_stays hbody hacts hqs b) r
    rw [feed_head_next hj (.inr (.inr rfl)) rfl hzone (.inr rfl)]
    exact .next (z := .fields) rfl ⟨⟨hq.type.trans h.zone.type, hzone, by simp⟩,
      ⟨hj, hq.skipbody.trans hskip⟩, hrsp.trans h.rsp, hcont.trans h.cont, by simp, by simp⟩
  | trailers hq ht => simp [htrailing] at ht
  | @done q acts hq ht hacts =>
    refine mirrors_headersDone ⟨hq.type.trans h.zone.type, hq.skipbody.trans hskip,
      hq.trailing.trans ht, hbody, fun q' e he => ?_, hj, h.rsp, h.cont⟩
    rw [actEvents_append, List.mem_append] at he
    rcases he with he | he
    · exact ofFields_actEvents hacts _ e he
    · rw [List.mem_singleton.mp he]
      rfl

/-- A byte between the bytes of the chunks that does not end them. -/
theorem feed_chunk {h : Head} {fed : Fed} {s : HttpState} (hj : j.parser = .chunks h)
    (hv : fed.verdict = .next) (hc : fed.completes = false) (hs : s ≠ .chunkData) :
    feed j (octetIn .chunks s b fed) = .next j := by
  have hoctet : octetIn .chunks s b fed = .chunk b := by simp [octetIn, hv, hc, hs]
  rw [hoctet]
  simp [feed, hj]

theorem feed_chunk_error {h : Head} {fed : Fed} {s : HttpState} (hj : j.parser = .chunks h)
    (hv : fed.verdict = .error) :
    feed j (octetIn .chunks s b fed) = .error { j with parser := .error } := by
  have hoctet : octetIn .chunks s b fed = .head b false := by simp [octetIn, hv]
  rw [hoctet]
  simp [feed, hj]

/-- A byte of the trailers. -/
theorem mirrors_trailers (h : Twin .chunks p r j) (hs : p.state.inFields = true) :
    MirrorsIn .chunks p.state r j b (p.feed b) := by
  unfold MirrorsIn
  obtain ⟨hd, hcode, hframing, hchunked, hj⟩ := h.sees
  have htrailing : p.flags.trailing = true := by
    have hzone := h.zone.zone
    rw [zone_of_inFields hs] at hzone
    by_contra ht
    simp [ht] at hzone
  have hbody := takesBody_of_inFields hs
  have hdata : p.state ≠ .chunkData := by
    intro hstate
    simp [hstate, takesBody] at hbody
  have hbyte := fieldsByte_feed hs b
  generalize p.feed b = fed at hbyte
  cases hbyte with
  | refused hacts =>
    rw [feed_chunk_error hj rfl]
    exact .error rfl
  | @stays q acts hq hqs hacts =>
    have hzone : q.state.zone? q.flags.trailing = some .chunks := by
      rw [zone_of_inFields hqs, hq.trailing, htrailing]
      rfl
    obtain ⟨hrsp, hcont⟩ := foldl_ofFields (events_of_stays hbody hacts hqs b) r
    rw [feed_chunk hj rfl (completes_of_ofHeader hacts q) hdata]
    exact .next (z := .chunks) rfl ⟨⟨hq.type.trans h.zone.type, hzone,
      fun hz => hq.upgrade.trans (h.zone.upgrade hz)⟩,
      ⟨hd, hcode.trans hq.code.symm, hframing, hq.chunked hchunked, hj⟩, hrsp.trans h.rsp,
      hcont.trans h.cont, by simp, by simp⟩
  | @trailers q acts hq ht hacts =>
    have hoctet : octetIn .chunks p.state b (q.complete acts) = .chunksEnd q.persistent := by
      simp [octetIn, HttpParser.complete, HttpParser.next, Fed.completes]
      rfl
    have hfeed : feed j (.chunksEnd q.persistent) =
        .next (j.complete { hd with persistent := q.persistent }) := by
      simp [feed, hj]
    obtain ⟨hrsp, -⟩ := foldl_ofFields (ofFields_actEvents hacts (q.goto q.newMessage)) r
    rw [hoctet, hfeed, events_complete hbody]
    exact .next rfl (twin_complete _ (hq.type.trans h.zone.type) (hcode.trans hq.code.symm)
      (keepAlive_chunks (hq.chunked hchunked) hframing) (hrsp.trans h.rsp))
  | done hq ht => simp [htrailing] at ht

theorem mirrors_chunks (h : Twin .chunks p r j) (hs : p.state.inChunks = true) :
    MirrorsIn .chunks p.state r j b (p.feed b) := by
  unfold MirrorsIn
  obtain ⟨hd, hcode, hframing, hchunked, hj⟩ := h.sees
  obtain ⟨-, -, hbody⟩ := zone_of_inChunks hs p.flags.trailing
  have hdata : p.state ≠ .chunkData := by
    intro hstate
    simp [hstate, HttpState.inChunks] at hs
  have hbyte := chunkByte_feed (b := b) hs
  generalize p.feed b = fed at hbyte
  cases hbyte with
  | refused =>
    rw [feed_chunk_error hj rfl]
    exact .error rfl
  | @stays q acts htype hqcode hqchunked hup hq hacts =>
    obtain ⟨hpart, hzone⟩ := zone_of_chunkNext hq
    have hcompletes : (q.next acts).completes = false := by
      rcases hacts with rfl | rfl <;> rfl
    have hnone : actEvents q acts = [] := by rcases hacts with rfl | rfl <;> rfl
    rw [feed_chunk hj rfl hcompletes hdata, events_next hbody hpart, hnone]
    exact .next (z := .chunks) rfl ⟨⟨htype.trans h.zone.type, hzone,
      fun hz => hup.trans (h.zone.upgrade hz)⟩,
      ⟨hd, hcode.trans hqcode.symm, hframing, hqchunked hchunked, hj⟩, h.rsp, h.cont, by simp,
      by simp⟩

/-- The bytes of a body, for the callbacks. -/
theorem foldl_body (r : Reception) (b : UInt8) :
    [Event.data .body [], .data .body [b]].foldl onEvent r = r.onBody [b] := by
  simp [onEvent, Reception.onBody]

theorem mirrors_chunkData (h : Twin .chunks p r j) (hs : p.state = .chunkData) :
    MirrorsIn .chunks p.state r j b (p.advance b 1).2 := by
  unfold MirrorsIn
  obtain ⟨hd, hcode, hframing, hchunked, hj⟩ := h.sees
  have hbody : takesBody p.state = true := by rw [hs]; rfl
  obtain ⟨hverdict, hacts⟩ := advance_body_verdict hbody b 1
  have hfed : (p.advance b 1).2 = p.chunkData (min p.contentLength 1) := by
    simp [HttpParser.advance, hs]
  have hlate : (p.advance b 1).2.late = [] := by rw [hfed]; rfl
  have hoctet : octetIn .chunks p.state b (p.advance b 1).2 = .data b := by
    simp [octetIn, hverdict, hs, Fed.completes, hacts, hlate]
  have hfeed : feed j (.data b) = .next (j.onBody b) := by simp [feed, hj]
  rw [hoctet, hfeed, events_body hbody hacts, hlate, actEvents, List.append_nil]
  refine .next (z := .chunks) hverdict ?_
  rw [foldl_body, hfed]
  have hkeeps : (p.chunkData (min p.contentLength 1)).parser.In .chunks ∧
      (p.chunkData (min p.contentLength 1)).parser.statusCode = p.statusCode ∧
      (p.chunkData (min p.contentLength 1)).parser.flags = p.flags := by
    simp only [HttpParser.chunkData, HttpParser.next]
    split
    · exact ⟨⟨h.zone.type, rfl, h.zone.upgrade⟩, rfl, rfl⟩
    · exact ⟨⟨h.zone.type, by rw [hs]; rfl, h.zone.upgrade⟩, rfl, rfl⟩
  obtain ⟨hin, hqcode, hflags⟩ := hkeeps
  refine ⟨hin, ⟨hd, hcode.trans hqcode.symm, hframing, by rw [hflags, hchunked], hj⟩, ?_, h.cont,
    by simp, by simp⟩
  simp [Reception.onBody, ParserImpl.onBody, h.rsp]

theorem mirrors_body (h : Twin .body p r j) (hinv : p.Inv) (hbody : takesBody p.state = true) :
    MirrorsIn .body p.state r j b (p.advance b 1).2 := by
  unfold MirrorsIn
  obtain ⟨hd, hcode, halive, hj⟩ := h.sees
  have hup := h.zone.upgrade (.inl rfl)
  obtain ⟨hverdict, hacts⟩ := advance_body_verdict hbody b 1
  have hrsp : (r.onBody [b]).rsp = (j.onBody b).rsp := by
    simp [Reception.onBody, ParserImpl.onBody, h.rsp]
  rw [show octetIn .body p.state b (p.advance b 1).2 = .data b from rfl,
    events_body hbody hacts]
  cases hs : p.state <;> simp only [hs, takesBody, Bool.false_eq_true] at hbody
  case chunkData =>
    have hzone := h.zone.zone
    simp [hs, HttpState.zone?] at hzone
  case bodyIdentityEof =>
    rw [if_neg (by simp [hs])] at hj
    have hfed : (p.advance b 1).2 = p.next [.mark .body] := by simp [HttpParser.advance, hs]
    have hfeed : feed j (.data b) = .next (j.onBody b) := by simp [feed, hj, Octet.byte]
    rw [hfeed, hfed]
    refine .next (z := .body) rfl ?_
    rw [show actEvents _ (p.next [.mark .body]).late = [] from rfl, List.append_nil, foldl_body]
    exact ⟨h.zone, ⟨hd, hcode, halive, by rw [if_neg (by simp [HttpParser.next, hs])]; exact hj⟩,
      hrsp, h.cont, by simp, by simp⟩
  case bodyIdentity =>
    rw [if_pos hs] at hj
    have hlength : p.contentLength ≠ 0 ∧ p.contentLength ≠ ullongMax := by
      simpa [HttpParser.Relies, hs] using hinv.relies
    have hmin : min p.contentLength 1 = 1 := Nat.min_eq_right (Nat.pos_of_ne_zero hlength.1)
    have hmax : p.contentLength - 1 ≠ ullongMax := by
      have hle := hinv.length
      omega
    have hkeep : ({ p with contentLength := p.contentLength - 1 } : HttpParser).shouldKeepAlive =
        p.shouldKeepAlive := shouldKeepAlive_length hlength.2 hmax
    have hfed : (p.advance b 1).2 = p.bodyIdentity 1 := by simp [HttpParser.advance, hs, hmin]
    rw [hfed]
    by_cases hlast : p.contentLength ≤ 1
    · -- the last byte
      have hzero : p.contentLength - 1 = 0 := by omega
      have hfeed : feed j (.data b) = .next ((j.onBody b).complete hd) := by
        simp [feed, hj, hlast, Octet.byte]
      have hover : p.bodyIdentity 1 = { parser := _, acts := _, late := _ } := if_pos hzero
      rw [hfeed, hover]
      refine .next rfl (twin_complete [.data .body [], .data .body [b]] h.zone.type hcode
        (halive.trans hkeep.symm) ?_)
      rw [foldl_body, hrsp]
    · have hleft : p.contentLength - 1 ≠ 0 := by omega
      have hfeed : feed j (.data b) =
          .next { j.onBody b with parser := .body hd (p.contentLength - 1) } := by
        simp [feed, hj, hlast, Octet.byte]
      have hmore : p.bodyIdentity 1 =
          { p with contentLength := p.contentLength - 1 }.next [.mark .body] := if_neg hleft
      rw [hfeed, hmore]
      refine .next (z := .body) rfl ?_
      rw [show actEvents _ (HttpParser.next _ _).late = [] from rfl, List.append_nil, foldl_body]
      refine ⟨⟨h.zone.type, by rw [HttpParser.next, hs]; rfl, fun _ => hup⟩,
        ⟨hd, hcode, halive.trans hkeep.symm, ?_⟩, hrsp, h.cont, by simp, by simp⟩
      exact (if_pos hs).symm

theorem Twin.count (h : Twin z p r j) : Twin z p.count r j := by
  obtain ⟨n, hn⟩ := HttpParser.count_eq p
  refine ⟨h.zone.count, ?_, h.rsp, h.cont, h.line, h.status⟩
  rw [hn]
  exact h.sees

/-- **One byte.** -/
theorem mirrors_byte (h : Twin z p r j) (hinv : p.Inv) (hover : p.count.overflows = false)
    (b : UInt8) :
    Mirrors r j (p.count.advance b 1).2 ((p.count.advance b 1).2.events p.state [b])
      (feed j (octet p b)) := by
  rw [octet_eq h.zone hover]
  by_cases hbody : takesBody p.state = true
  · rw [(count_body hbody).1]
    have hzone := h.zone.zone
    cases hs : p.state <;> simp only [hs, takesBody, Bool.false_eq_true] at hbody
    case chunkData =>
      obtain rfl : .chunks = z := by simpa [hs, HttpState.zone?] using hzone
      rw [← hs]
      exact mirrors_chunkData h hs
    all_goals
      obtain rfl : .body = z := by simpa [hs, HttpState.zone?] using hzone
      rw [← hs]
      exact mirrors_body h hinv (by rw [hs]; rfl)
  · rw [← count_state p] at hbody ⊢
    rw [advance_byte (by simpa using hbody)]
    have h := h.count
    generalize p.count = p at h hbody
    have hzone := h.zone.zone
    rcases state_of_zone hzone with hs | hs | hs | hs | hs | hs | hs
    · obtain rfl : .start = z := by simpa [hs, HttpState.zone?] using hzone
      exact mirrors_start h
    · obtain rfl : .dead = z := by simpa [hs, HttpState.zone?] using hzone
      exact mirrors_dead h hs
    · obtain rfl : z = .status := by
        cases ht : p.flags.trailing <;> simp_all [HttpState.zone?]
      exact mirrors_status h hs
    · obtain ⟨rfl, -⟩ := zone_of_inLine hs hzone
      exact mirrors_line h hs
    · rw [zone_of_inFields hs] at hzone
      split at hzone
      · obtain rfl := Option.some.inj hzone
        exact mirrors_trailers h hs
      · obtain rfl := Option.some.inj hzone
        exact mirrors_fields h hs
    · obtain ⟨hchunks, -⟩ := zone_of_inChunks hs p.flags.trailing
      obtain rfl := Option.some.inj (hchunks.symm.trans hzone)
      exact mirrors_chunks h hs
    · exact absurd hs hbody

/-- A byte that is one too many. -/
theorem feed_overflow (h : Twin z p r j) (hover : p.count.overflows = true) (b : UInt8) :
    feed j (octet p b) = .error { j with parser := .error } := by
  have hz : z ≠ .body := by
    rintro rfl
    have hzone := h.zone.zone
    have hbody : takesBody p.state = true := by
      cases hs : p.state <;> cases ht : p.flags.trailing <;>
        simp_all [HttpState.zone?, HttpState.inFields, takesBody]
    rw [(count_body hbody).1, (count_body hbody).2] at hover
    cases hover
  rw [octet, if_pos hover]
  exact feed_refused h.sees hz b

end Bytes

/-! ## Reads -/

/-- What the two make of some bytes: they end in the same place, or they refuse the same
    byte. -/
inductive RunsAs (r : Reception) (ran : Ran) : ParserImpl × Nat → Prop where
  | taken {z : Zone} {j' : ParserImpl} (hend : ran.ending = .running ∨ ran.ending = .exited)
      (h : Twin z ran.parser (ran.events.foldl onEvent r) j') : RunsAs r ran (j', ran.parsed)
  | refused {j' : ParserImpl} (hend : ran.ending = .failed) (hparser : j'.parser = .error)
      (hrsp : (ran.events.foldl onEvent r).rsp = j'.rsp)
      (hcont : (ran.events.foldl onEvent r).shouldContinue = j'.shouldContinue) :
      RunsAs r ran (j', ran.parsed)

section Run

variable {p : HttpParser} {r : Reception} {j : ParserImpl} {z : Zone}

theorem RunsAs.after {ran : Ran} {x : ParserImpl × Nat} {es : List Event}
    (h : RunsAs (es.foldl onEvent r) ran x) :
    RunsAs r (ran.after es 1) (x.1, x.2 + 1) := by
  cases h with
  | taken hend h =>
    rw [Nat.add_comm]
    exact .taken hend (by simpa [Ran.after, List.foldl_append] using h)
  | refused hend hparser hrsp hcont =>
    rw [Nat.add_comm]
    exact .refused hend hparser (by simpa [Ran.after, List.foldl_append] using hrsp)
      (by simpa [Ran.after, List.foldl_append] using hcont)

/-- **Some bytes.** -/
theorem runsAs_octets (h : Twin z p r j) (hinv : p.Inv) (k : Nat) (data : Bytes) :
    RunsAs r (byteRun (fun _ => true) p k data) (execute j (octets p data)) := by
  induction data generalizing z p r j k with
  | nil => exact .taken (z := z) (.inl rfl) h
  | cons b data ih =>
    rw [octets, execute]
    cases hover : p.count.overflows with
    | true =>
      rw [byteRun_overflow hover, feed_overflow h hover]
      exact .refused rfl rfl h.rsp h.cont
    | false =>
      have hmirrors := mirrors_byte h hinv hover b
      generalize hfed : (p.count.advance b 1).2 = fed at hmirrors
      generalize feed j (octet p b) = result at hmirrors
      cases hmirrors with
      | next hv h' =>
        obtain ⟨k', hnext⟩ := byteRun_next hfed.symm hover hv k
        rw [hnext]
        exact (ih h' (inv_of_advance hinv hfed.symm (by simp [hv])) k').after
      | exit hv h' =>
        obtain ⟨k', hexit⟩ := byteRun_exit hfed.symm hover hv k data
        rw [hexit]
        exact .taken (.inr rfl) h'
      | error hv =>
        have htook := took_advance h.zone b
        rw [hfed] at htook
        rw [byteRun_error hfed.symm hover hv]
        cases htook with
        | refused _ hes =>
          obtain ⟨hrsp, hcont⟩ := foldl_ofFields hes r
          exact .refused rfl rfl (hrsp.trans h.rsp) (hcont.trans h.cont)
        | begins _ _ hv' | status _ hv' | passes _ _ hv' => simp [hv] at hv'
        | completes _ _ _ _ hv' =>
          rw [hv] at hv'
          split at hv' <;> cases hv'

end Run

/-- What the two make of a read. -/
inductive ReadsAs (o : Parsed) : ParserImpl × Nat → Prop where
  | taken {z : Zone} {j' : ParserImpl} (h : Twin z o.impl.parser o.impl.toReception j') :
      ReadsAs o (j', o.parsed)
  | refused {j' : ParserImpl} (herrno : o.impl.parser.errno ≠ .ok) (hparser : j'.parser = .error)
      (hcode : o.impl.rsp.code = j'.rsp.code) (halive : o.impl.rsp.keepAlive = j'.rsp.keepAlive)
      (hcont : o.impl.shouldContinue = j'.shouldContinue) : ReadsAs o (j', o.parsed)

section Read

variable {i : ResponseImpl} {j : ParserImpl} {z : Zone}

/-- The mark that a read begins with. -/
theorem Twin.opened (h : Twin z i.parser i.toReception j) :
    Twin z i.parser ((pendingEvents i.parser.state.opened).foldl onEvent i.toReception) j := by
  have hzone := h.zone.zone
  unfold HttpState.opened HttpState.part?
  split
  case h_1 | h_2 =>
    have hz : z ≠ .line ∧ z ≠ .status := by
      constructor <;> rintro rfl <;> cases htrailing : i.parser.flags.trailing <;>
        simp_all [HttpState.zone?, HttpState.inFields]
    exact ⟨h.zone, h.sees, h.rsp, h.cont, fun hl => absurd hl hz.1, fun hs => absurd hs hz.2⟩
  · have hz : z = .status := by
      cases htrailing : i.parser.flags.trailing <;> simp_all [HttpState.zone?]
    obtain ⟨hi, hj⟩ := h.status hz
    refine ⟨h.zone, h.sees, ?_, h.cont, by simp [hz], fun _ => ⟨rfl, hj⟩⟩
    simp [pendingEvents, onEvent, Reception.onStatusComplete, hi, h.rsp]
  · rename_i hurl
    simp [hurl, HttpState.zone?, HttpState.inFields] at hzone
  · exact h

/-- **A read.** On the octets of some bytes the parser of octets does what the parser of bytes
    does on them. -/
theorem execute_octets (h : Twin z i.parser i.toReception j) (hinv : i.parser.Inv) {data : Bytes}
    (hdata : data ≠ []) :
    ∃ o, i.execute data = some o ∧ ReadsAs o (execute j (octets i.parser data)) := by
  obtain ⟨o, lost, ho, hv⟩ := viewed_execute hinv {} hdata
  refine ⟨o, ho, ?_⟩
  have hruns := runsAs_octets h.opened hinv 0 data
  have hsound := sound_byteRun (fun _ => true) 0 hinv data
  generalize execute j (octets i.parser data) = x at hruns
  cases hruns with
  | @taken z' _ hend htwin =>
    obtain rfl := hv.lost_none (by rcases hend with hend | hend <;> simp [hend])
    have hreception : o.impl.toReception = _ := hv.reception
    rw [← hv.parsed]
    rw [← hv.parser, ← hreception] at htwin
    exact .taken htwin
  | refused hend hparser hrsp hcont =>
    simp only [Ran.Sound, hend, ← hv.parser] at hsound
    rw [← hv.reception] at hrsp hcont
    obtain ⟨halive, hsame, hcode⟩ := foldl_pending lost o.impl.toReception
    rw [← hv.parsed]
    exact .refused hsound.1 hparser (hcode.symm.trans (by rw [hrsp]))
      (halive.symm.trans (by rw [hrsp])) (hsame.symm.trans hcont)

/-- Where the end of the stream completes nothing. -/
theorem executeEof_of_ne (h : Twin z i.parser i.toReception j)
    (hs : i.parser.state ≠ .bodyIdentityEof) : (executeEof j).toReception = j.toReception := by
  have huntil : ∀ hd, j.parser ≠ .untilEof hd := by
    intro hd hj
    have hsees := h.sees
    rw [hj] at hsees
    cases z with
    | start | dead => cases hsees
    | line | status | fields => cases hsees.1
    | chunks =>
      obtain ⟨_, -, -, -, heq⟩ := hsees
      cases heq
    | body =>
      obtain ⟨_, -, -, heq⟩ := hsees
      have hzone := h.zone.zone
      have hbody : i.parser.state = .bodyIdentity := by
        cases hstate : i.parser.state <;> cases ht : i.parser.flags.trailing <;>
          simp_all [HttpState.zone?, HttpState.inFields]
      rw [if_pos hbody] at heq
      cases heq
  unfold executeEof
  split
  · exact absurd ‹_› (huntil _)
  all_goals rfl

/-- The end of the stream. -/
theorem executeEof_view (h : Twin z i.parser i.toReception j) (hinv : i.parser.Inv) :
    ∃ o, i.execute [] = some o ∧ o.impl.rsp = (executeEof j).rsp ∧
      o.impl.shouldContinue = (executeEof j).shouldContinue := by
  by_cases hs : i.parser.state = .bodyIdentityEof
  · obtain rfl : .body = z := by simpa [hs, HttpState.zone?] using h.zone.zone
    obtain ⟨hd, hcode, halive, hj⟩ := h.sees
    rw [if_neg (by simp [hs])] at hj
    have ho : i.parser.execute (fun _ => true) 0 [] =
        some ⟨i.parser, [.messageComplete i.parser], 0, 1⟩ := by
      simp [HttpParser.execute, hinv.errno, hs]
    refine ⟨_, by rw [ResponseImpl.execute, ho]; rfl, ?_, ?_⟩
    · simp [executeEof, hj, onEvent, Reception.onMsgComplete, ParserImpl.onMsgComplete, hcode,
        halive, h.rsp]
    · simp [executeEof, hj, onEvent, Reception.onMsgComplete, ParserImpl.onMsgComplete]
  · obtain ⟨o, ho⟩ := execute_nil (fun _ => true) i.parser 0
    have hevents : o.events = [] := by
      unfold HttpParser.execute at ho
      simp only [hinv.errno, ne_eq, not_true_eq_false, if_false, if_true] at ho
      split at ho
      · exact absurd ‹_› hs
      all_goals
        obtain rfl := Option.some.inj ho
        rfl
    refine ⟨_, by rw [ResponseImpl.execute, ho]; rfl, ?_⟩
    rw [executeEof_of_ne h hs, ← h.rsp, ← h.cont]
    simp [hevents]

end Read

end FiberProxy.Http.ByteParser
