/-
  FiberProxy.Http.MessageReads

  The requests that the client side prints (`operator<<` for `request_t`) and the server
  side reads (`request::parser_impl`, `HttpProtocolHandler.cpp`), byte by byte.

  A request is its first line, the lines of its header and a body of the length that they
  announce (`goes_message`); the callbacks for them make one message (`collect_message`).
  Behind a request that keeps the connection open the parser is where it began, so that the
  requests of a connection come out one by one, however the reads cut them
  (`doParse_requests`).
-/

import FiberProxy.Http.ParserText
import FiberProxy.Http.RequestText

namespace FiberProxy.Http.ByteParser

open Lib Lib.Http1
open HttpParser (takesBody)

/-! ## Bytes that the parser takes -/

/-- The parser takes some bytes, with these callbacks up to the cutting of the parts. -/
def Goes (answer : Nat → Bool) (p : HttpParser) (k : Nat) (bs : Bytes) (q : HttpParser) (k' : Nat)
    (es : List Event) : Prop :=
  ∃ es', byteRun answer p k bs = ⟨q, es', bs.length, k', .running⟩ ∧ Same es' es

section Goes

variable {answer : Nat → Bool} {p q r : HttpParser} {k k' k'' : Nat} {xs ys : Bytes}
  {es es' : List Event}

theorem Goes.nil (answer : Nat → Bool) (p : HttpParser) (k : Nat) : Goes answer p k [] p k [] :=
  ⟨[], rfl, .refl _⟩

theorem Goes.trans (h : Goes answer p k xs q k' es) (h' : Goes answer q k' ys r k'' es') :
    Goes answer p k (xs ++ ys) r k'' (es ++ es') := by
  obtain ⟨es₁, hrun, hsame⟩ := h
  obtain ⟨es₂, hrun', hsame'⟩ := h'
  refine ⟨es₁ ++ es₂, ?_, hsame.append hsame'⟩
  rw [byteRun_append, hrun]
  simp [Ran.andThen, hrun', Ran.after]

theorem Goes.same (h : Goes answer p k xs q k' es) (hes : Same es es') :
    Goes answer p k xs q k' es' := by
  obtain ⟨es₁, hrun, hsame⟩ := h
  exact ⟨es₁, hrun, hsame.trans hes⟩

theorem Feeds.goes (h : Feeds p xs q es) (answer : Nat → Bool) (k : Nat)
    (hroom : p.nread + xs.length ≤ maxHeaderSize) :
    Goes answer p k xs q k es ∧ q.nread ≤ p.nread + xs.length := by
  obtain ⟨es₁, hfeeds, hsame⟩ := h
  obtain ⟨hrun, hle⟩ := byteRun_of_feeds hfeeds hroom
  exact ⟨⟨es₁, hrun, hsame⟩, hle⟩

end Goes

/-! ## The end of a header, and the body -/

section Message

variable {answer : Nat → Bool} {p q : HttpParser} {k : Nat} {body : Bytes}

/-- A parser in front of the empty line of a header that announces a body of `n` bytes. -/
structure Announces (p : HttpParser) (n : Nat) : Prop where
  errno : p.errno = .ok
  length : p.contentLength = n
  small : n < ullongMax
  flags : p.flags.trailing = false ∧ p.flags.upgrade = false ∧ p.flags.skipbody = false ∧
    p.flags.chunked = false
  method : p.method ≠ .connect

/-- The parser behind a message. -/
def HttpParser.behind (p : HttpParser) : HttpParser :=
  let q := { p with nread := 0, contentLength := 0, upgrade := false }
  q.goto q.newMessage

/-- The callbacks of a body. -/
def bodyEvents (body : Bytes) : List Event := if body = [] then [] else [.data .body body]

/-- The last byte of a header. -/
theorem headersAlmostDone_eq (h : Announces p body.length) (hs : p.state = .headersAlmostDone) :
    p.feed 10 =
      if body = [] then p.behind.next [.headersComplete, .messageComplete]
      else ({ p with nread := 0, upgrade := false, state := .bodyIdentity }).next
        [.headersComplete] := by
  obtain ⟨herrno, hlength, hsmall, ⟨htrailing, hupgrade, hskip, hchunked⟩, hmethod⟩ := h
  have hconnect : (p.method == HttpMethod.connect) = false := by simpa using hmethod
  have hmax : p.contentLength ≠ ullongMax := by omega
  simp only [HttpParser.feed, hs, HttpParser.headersAlmostDone, HttpParser.expect, if_true,
    htrailing, HttpParser.headersDone, hupgrade, hconnect, hskip, hchunked]
  by_cases hbody : body = []
  · have hzero : p.contentLength = 0 := by simp [hlength, hbody]
    simp [hbody, hzero, HttpParser.behind, HttpParser.complete, HttpParser.goto,
      HttpParser.newMessage, HttpParser.shouldKeepAlive, HttpParser.needsEof,
      HttpParser.startState]
  · have hzero : p.contentLength ≠ 0 := by simpa [hlength] using hbody
    simp [hbody, hzero, hmax, HttpParser.goto]

/-- A body of the length that is announced. -/
theorem goes_body (h : Announces p body.length) (hbody : body ≠ []) (hanswer : answer k = true) :
    Goes answer { p with nread := 0, upgrade := false, state := .bodyIdentity } k body p.behind
      (k + 1) [.data .body body, .messageComplete p.behind] := by
  obtain ⟨b, bs, rfl⟩ := List.exists_cons_of_ne_nil hbody
  have hinv : ({ p with nread := 0, upgrade := false, state := .bodyIdentity } : HttpParser).Inv :=
    ⟨h.errno, by rw [h.length]; exact h.small.le, by simp [h.length], by
      simpa [h.length] using h.small.ne⟩
  obtain ⟨es, hsame, hrun⟩ := byteRun_body answer k hinv rfl b bs []
    (.inr h.length.ge)
  have hadvance : (({ p with nread := 0, upgrade := false, state := .bodyIdentity } :
      HttpParser).advance b (bs.length + 1)).2 =
        { parser := p.behind, acts := [.mark .body], late := [.data .body, .messageComplete] } := by
    have hlen : p.contentLength = bs.length + 1 := h.length
    simp [HttpParser.advance, HttpParser.bodyIdentity, hlen, HttpParser.behind, HttpParser.goto,
      HttpParser.newMessage, HttpParser.shouldKeepAlive, HttpParser.needsEof,
      HttpParser.startState]
  rw [hadvance] at hsame hrun
  rw [List.append_nil] at hrun
  refine ⟨es, ?_, hsame.trans ?_⟩
  · rw [hrun]
    simp [conclude, Fed.completes, hanswer, byteRun, Ran.after]
  · have hjoin := (Same.join .body [] (b :: bs)).append (.refl [.messageComplete p.behind])
    exact hjoin

/-- The last byte of a header, and the body. -/
theorem goes_end (answer : Nat → Bool) (k : Nat) (h : Announces p body.length)
    (hs : p.state = .headersAlmostDone)
    (hroom : p.nread < maxHeaderSize) (hanswer : answer k = true) :
    Goes answer p k (10 :: body) p.behind (k + 1)
      ([.headersComplete] ++ bodyEvents body ++ [.messageComplete p.behind]) := by
  have hcount : p.count = { p with nread := p.nread + 1 } := by
    simp [HttpParser.count, hs, HttpState.parsingHeader]
  have hover : p.count.overflows = false := by
    simp only [HttpParser.overflows, hcount, hs, HttpState.parsingHeader, Bool.true_and,
      decide_eq_false_iff_not]
    omega
  have hannounces : Announces p.count body.length := by
    rw [hcount]
    exact ⟨h.errno, h.length, h.small, h.flags, h.method⟩
  have hfeed := headersAlmostDone_eq hannounces (by rw [count_state, hs])
  have hbyte : byteRun answer p k [10] = conclude answer k (p.count.feed 10)
      ((p.count.feed 10).events p.state [10]) 1 fun p k => byteRun answer p k [] := by
    rw [byteRun, if_neg (by simp [hover]), advance_byte (by simp [count_state, hs, takesBody])]
  by_cases hbody : body = []
  · subst hbody
    have hpart : p.behind.state.part? = none := (HttpParser.newMessage_plain _).2
    have hbehind : p.count.behind = p.behind := by rw [hcount]; rfl
    rw [if_pos rfl, hbehind] at hfeed
    refine ⟨[.headersComplete, .messageComplete p.behind], ?_, .refl _⟩
    rw [hbyte, hfeed]
    simp [conclude, HttpParser.next, Fed.completes, hanswer, byteRun, Ran.after, Fed.events,
      actEvents, passEvents, markedPart, hs, takesBody, hpart]
  · rw [if_neg hbody] at hfeed
    have hfirst : Goes answer p k [10]
        { p with nread := 0, upgrade := false, state := .bodyIdentity } k [.headersComplete] := by
      refine ⟨[.headersComplete], ?_, .refl _⟩
      rw [hbyte, hfeed, hcount]
      simp [conclude, HttpParser.next, Fed.completes, byteRun, Ran.after, Fed.events, actEvents,
        passEvents, markedPart, hs, takesBody, HttpState.part?]
    have hall := hfirst.trans (goes_body h hbody hanswer)
    simpa [bodyEvents, hbody] using hall

/-- The CR of the empty line. -/
theorem feeds_emptyLine (h : p.state.startsLine = true) :
    Feeds p [13] { p.settled with state := .headersAlmostDone, nread := p.nread + 1 } p.owed := by
  have hhead : p.state.parsingHeader = true := by
    cases hs : p.state <;> simp_all [HttpState.startsLine, HttpState.parsingHeader]
  obtain ⟨acts, hfeed, hopen, howed⟩ :=
    HttpParser.feed_line (p := { p with nread := p.nread + 1 }) h (b := 13) (by decide)
  have hbyte := Feeds.byte hhead
    (hfeed.trans (rfl : _ = HttpParser.next
      { p.settled with state := .headersAlmostDone, nread := p.nread + 1 } acts)) hopen
  rw [howed] at hbyte
  simpa [passEvents, HttpState.part?, HttpParser.owed] using hbyte

/-- **A message**: its first line, the lines of its header, and a body of the length that they
    announce. -/
theorem goes_message {p₁ p₂ : HttpParser} {first lines : Bytes} {es₁ es₂ : List Event}
    (hfirst : Feeds p first p₁ es₁) (hlines : Line p₁ lines p₂ es₂)
    (howed : p₁.owed = []) (hannounces : Announces p₂.core body.length)
    (hroom : p.nread + (first ++ lines ++ crlf).length ≤ maxHeaderSize)
    (hanswer : answer k = true) :
    ∃ i hs, let q := { p₂.core.behind with index := i, headerState := hs }
      Goes answer p k (first ++ lines ++ crlf ++ body) q (k + 1)
        (es₁ ++ es₂ ++ ([.headersComplete] ++ bodyEvents body ++ [.messageComplete q])) := by
  obtain ⟨hstart, es', hfeeds, hsame⟩ := hlines
  have hhead := (hfirst.trans hfeeds).trans (feeds_emptyLine hstart)
  have hlen : (first ++ lines ++ [13]).length + 1 = (first ++ lines ++ crlf).length := by
    simp [crlf, Nat.add_assoc]
  obtain ⟨hgoes, hnread⟩ := hhead.goes answer k (by omega)
  -- the parser in front of the last LF
  let r : HttpParser := { p₂.settled with state := .headersAlmostDone, nread := p₂.nread + 1 }
  have hr : Announces r body.length :=
    ⟨hannounces.errno, hannounces.length, hannounces.small, hannounces.flags, hannounces.method⟩
  have hend := goes_end answer k hr rfl (by
    have hle : r.nread ≤ p.nread + (first ++ lines ++ [13]).length := hnread
    omega) hanswer
  refine ⟨p₂.index, p₂.headerState, ?_⟩
  have htext : first ++ lines ++ crlf ++ body = first ++ lines ++ [13] ++ 10 :: body := by
    simp [crlf]
  rw [htext]
  refine (hgoes.trans hend).same ?_
  rw [howed, List.nil_append] at hsame
  have hevents := ((Same.refl es₁).append hsame).append
    (.refl ([.headersComplete] ++ bodyEvents body ++ [.messageComplete r.behind]))
  rw [← List.append_assoc es₁] at hevents
  exact hevents

end Message

/-! ## The message that comes out -/

section Collected

/-- The callback of an event. -/
def Event.callback : Event → Callback
  | .messageBegin => .msgBegin
  | .data part piece => part.callback piece
  | .headersComplete => .headersComplete
  | .messageComplete _ => .msgComplete

def Event.completes : Event → Bool
  | .messageComplete _ => true
  | _ => false

/-- Callbacks that complete no message. -/
theorem foldl_collect {side : Side} {es : List Event} (hes : ∀ e ∈ es, e.completes = false)
    {m m' : Assembly} {ms : List (Assembly × HttpParser)}
    (hrun : run side.callback m (es.map Event.callback) = some m') :
    es.foldl (collect side) ⟨some m, ms⟩ = ⟨some m', ms⟩ := by
  induction es generalizing m with
  | nil =>
    obtain rfl : m = m' := Option.some.inj hrun
    rfl
  | cons e es ih =>
    obtain ⟨he, hes⟩ := List.forall_mem_cons.mp hes
    obtain ⟨m₁, hm₁, hrun⟩ := run_cons_eq_some.mp hrun
    have hstep : collect side ⟨some m, ms⟩ e = ⟨some m₁, ms⟩ := by
      cases e <;> simp_all [collect, Event.callback, Event.completes]
    rw [List.foldl_cons, hstep, ih hes hrun]

/-- The part that the text of the first line is. -/
def textPart : Side → Part
  | .request => .url
  | .response => .status

/-- The callbacks of a message. -/
def messageEvents (side : Side) (text : Bytes) (fs : List Header) (body : Bytes)
    (q : HttpParser) : List Event :=
  [.messageBegin, .data (textPart side) text] ++ fieldEvents fs ++
    ([.headersComplete] ++ bodyEvents body ++ [.messageComplete q])

/-- **The message that is collected.** -/
theorem collect_message (side : Side) (m : Assembly) (ms : List (Assembly × HttpParser))
    (text : Bytes) (fs : List Header) (body : Bytes) (q : HttpParser) :
    let message : Assembly := { text := text, headers := fs, body := body, state := .finished }
    (messageEvents side text fs body q).foldl (collect side) ⟨some m, ms⟩ =
      ⟨some message, ms ++ [(message, q)]⟩ := by
  intro message
  let pieces : Pieces := {
    text := [text]
    headers := fs.map fun f => ⟨[f.1], [f.2]⟩
    body := if body = [] then [] else [body]
    trailers := [] }
  have hannounced : pieces.Announced := by
    intro f hf
    simp only [pieces, List.append_nil, List.mem_map] at hf
    obtain ⟨f, -, rfl⟩ := hf
    simp [HeaderPieces.Announced]
  obtain ⟨state, hrun⟩ := run_pieces side (m := m) hannounced
  have hparts : pieces.parts.message = message := by
    have hbody : (if body = [] then ([] : List Bytes) else [body]).flatten = body := by
      by_cases hnil : body = [] <;> simp [hnil]
    simp [Pieces.parts, Parts.message, pieces, message, HeaderPieces.header, hbody,
      Function.comp_def]
  -- all callbacks but the last
  let es : List Event := [.messageBegin, .data (textPart side) text] ++ fieldEvents fs ++
    ([.headersComplete] ++ bodyEvents body)
  have hsplit : messageEvents side text fs body q = es ++ [.messageComplete q] := by
    simp [messageEvents, es]
  have hes : ∀ e ∈ es, e.completes = false := by
    intro e he
    simp only [es, List.mem_append, List.mem_cons, List.not_mem_nil, or_false, fieldEvents,
      List.mem_flatMap, bodyEvents] at he
    rcases he with ((rfl | rfl) | ⟨f, -, rfl | rfl⟩) | rfl | he
    iterate 5
      · rfl
    · split at he <;> simp_all [Event.completes]
  have hcallbacks : es.map Event.callback =
      .msgBegin :: pieces.text.map side.textCallback ++
        pieces.headers.flatMap HeaderPieces.callbacks ++
        .headersComplete :: pieces.body.map .body ++
        pieces.trailers.flatMap HeaderPieces.callbacks := by
    have htext : (textPart side).callback text = side.textCallback text := by
      cases side <;> rfl
    have hfields : (fieldEvents fs).map Event.callback =
        (fs.map fun f => (⟨[f.1], [f.2]⟩ : HeaderPieces)).flatMap HeaderPieces.callbacks := by
      simp [fieldEvents, List.map_flatMap, List.flatMap_map, HeaderPieces.callbacks,
        Event.callback, Part.callback]
    have hbody : (bodyEvents body).map Event.callback =
        (if body = [] then ([] : List Bytes) else [body]).map .body := by
      by_cases hnil : body = [] <;> simp [bodyEvents, hnil, Event.callback, Part.callback]
    simp only [es, pieces, List.map_append, hfields, hbody]
    simp [htext, Event.callback]
  rw [hparts, ← hcallbacks] at hrun
  rw [hsplit, List.foldl_append, foldl_collect hes hrun]
  simp [collect, Assembly.onMsgComplete, message]

end Collected

/-! ## The first line of a request -/

section RequestLine

variable {p q : HttpParser}

/-- `(method)(parser_.method)`: the values of the two enumerations agree. -/
def httpMethod : Method → HttpMethod
  | .delete => .delete
  | .get => .get
  | .head => .head
  | .post => .post
  | .put => .put

theorem string_httpMethod (m : Method) : (httpMethod m).string = methodString m := by
  cases m <;> rfl

/-- The rest of a method. -/
theorem feeds_reqMethod {m : HttpMethod} {i n : Nat} (hs : HeaderState)
    (hm : (32 : UInt8) ∉ m.string) (hi : i ≤ m.string.length) :
    ∃ n', Feeds ({ q with method := m }.inLine .reqMethod i hs n) (m.string.drop i)
      ({ q with method := m }.inLine .reqMethod m.string.length hs n') [] := by
  obtain ⟨r, hr, j, n', hj, rfl, hlast⟩ := feeds_silent
    (P := fun p' bs => ∃ j n, j ≤ m.string.length ∧
      p' = { q with method := m }.inLine .reqMethod j hs n ∧ bs = m.string.drop j)
    (by
      rintro _ b bs ⟨j, n, hj, rfl, hbs⟩
      have hnext : m.string[j]? = some b := by
        have hhead := congrArg List.head? hbs
        rwa [List.head?_cons, List.head?_drop, eq_comm] at hhead
      have hrest : bs = m.string.drop (j + 1) := by
        have htail := congrArg List.tail hbs
        rwa [List.tail_cons, List.tail_drop] at htail
      have hne : b ≠ 32 := by
        rintro rfl
        exact hm (List.mem_of_getElem? hnext)
      refine ⟨{ q with method := m }.inLine .reqMethod (j + 1) hs (n + 1), rfl, ?_, rfl, j + 1,
        n + 1, (List.getElem?_eq_some_iff.mp hnext).1, rfl, hrest⟩
      change ({ q with method := m }.inLine .reqMethod j hs (n + 1)).reqMethod b = _
      simp [HttpParser.reqMethod, HttpParser.inLine, hne, hnext])
    (m.string.drop i) ⟨i, n, hi, rfl, rfl⟩
  have hjeq : j = m.string.length := by
    have hlen := congrArg List.length hlast
    simp only [List.length_nil, List.length_drop] at hlen
    omega
  exact ⟨n', hjeq ▸ hr⟩

/-- The first letter of a method. -/
theorem feeds_firstMethod (h : p.state = .startReq) {c : UInt8} {m : HttpMethod}
    (hc : HttpParser.firstMethod c = some m) :
    Feeds p [c] ({ p.fresh with method := m }.inLine .reqMethod 1 p.headerState (p.nread + 1))
      [.messageBegin] := by
  have hline : ¬ (c = 13 ∨ c = 10) := by
    rintro (rfl | rfl) <;> cases hc
  have hfeed : ({ p with nread := p.nread + 1 } : HttpParser).feed c =
      ({ p.fresh with method := m }.inLine .reqMethod 1 p.headerState (p.nread + 1)).next
        [.messageBegin] := by
    simp only [HttpParser.feed, h, HttpParser.startReq, hline, if_false, hc]
    rfl
  exact Feeds.byte (by rw [h]; rfl) hfeed (by simp)

/-- The blank behind a method. -/
theorem feeds_methodEnd {m : HttpMethod} {n : Nat} {hs : HeaderState} :
    Feeds ({ q with method := m }.inLine .reqMethod m.string.length hs n) (ascii " ")
      ({ q with method := m }.inLine (.url .spacesBeforeUrl) (m.string.length + 1) hs (n + 1))
      [] := by
  have hfeed : ({ q with method := m }.inLine .reqMethod m.string.length hs (n + 1)).feed 32 =
      ({ q with method := m }.inLine (.url .spacesBeforeUrl) (m.string.length + 1) hs
        (n + 1)).next [] := by
    change ({ q with method := m }.inLine .reqMethod m.string.length hs (n + 1)).reqMethod 32 = _
    simp [HttpParser.reqMethod, HttpParser.inLine, HttpParser.goto]
  exact Feeds.byte (p := { q with method := m }.inLine .reqMethod m.string.length hs n) rfl hfeed
    (by simp)

/-- **The method of a request**, up to the blank behind it. -/
theorem feeds_method (h : p.state = .startReq) (m : Method) :
    ∃ i n, Feeds p (methodString m ++ ascii " ")
      ({ p.fresh with method := httpMethod m }.inLine (.url .spacesBeforeUrl) i p.headerState n)
      [.messageBegin] := by
  -- the letters from the `i`-th on, once the parser is at the method
  have hrest {first : Bytes} {m : HttpMethod} {i n : Nat} (hm : (32 : UInt8) ∉ m.string)
      (hi : i ≤ m.string.length) (hsplit : first ++ m.string.drop i = m.string)
      (hfirst : Feeds p first ({ p.fresh with method := m }.inLine .reqMethod i p.headerState n)
        [.messageBegin]) :
      ∃ i n, Feeds p (m.string ++ ascii " ")
        ({ p.fresh with method := m }.inLine (.url .spacesBeforeUrl) i p.headerState n)
        [.messageBegin] := by
    obtain ⟨n', hdrop⟩ := feeds_reqMethod (q := p.fresh) (n := n) p.headerState hm hi
    have hall := (hfirst.trans hdrop).trans feeds_methodEnd
    rw [hsplit] at hall
    exact ⟨_, _, hall⟩
  rw [← string_httpMethod]
  cases m with
  | delete => exact hrest (by decide) (by decide) (by decide) (feeds_firstMethod h (c := 68) rfl)
  | get => exact hrest (by decide) (by decide) (by decide) (feeds_firstMethod h (c := 71) rfl)
  | head => exact hrest (by decide) (by decide) (by decide) (feeds_firstMethod h (c := 72) rfl)
  | post => exact hrest (by decide) (by decide) (by decide) (feeds_firstMethod h (c := 80) rfl)
  | put =>
    -- a `P` stands for POST until the next letter
    have hput : Feeds
        ({ p.fresh with method := .post }.inLine .reqMethod 1 p.headerState (p.nread + 1)) [85]
        ({ p.fresh with method := .put }.inLine .reqMethod 2 p.headerState (p.nread + 2)) [] :=
      .of_eq rfl
    exact hrest (by decide) (by decide) (by decide)
      ((feeds_firstMethod h (c := 80) rfl).trans hput)

/-- A character of a target that has begun. -/
theorem reqUrl_eq {u u' : UrlState} (hu : u ≠ .spacesBeforeUrl) {b : UInt8}
    (h : parseUrlChar u b = some u') : p.reqUrl u b = (p.goto (.url u')).next [] := by
  have hb : ¬ (b = 32 ∨ b = 13 ∨ b = 10) := by
    rintro (rfl | rfl | rfl) <;> cases h
  have hblank : b ≠ 32 := fun heq => hb (.inl heq)
  have hline : ¬ (b = 13 ∨ b = 10) := fun heq => hb (.inr heq)
  rw [HttpParser.reqUrl, if_neg hu, if_neg hb, if_neg hblank, if_neg hline,
    HttpParser.urlChar, h]
  split <;> rfl

/-- **A target** that is accepted. -/
theorem feeds_target {i n : Nat} (hs : HeaderState) (hmethod : q.method ≠ .connect) {t : Bytes}
    (hne : t ≠ []) {up : UrlParse} (ht : parseUrl t = some up) :
    ∃ n', Feeds (q.inLine (.url .spacesBeforeUrl) i hs n) t
      (q.inLine (.url up.state) i hs n') [.data .url t] := by
  obtain ⟨c, t, rfl⟩ := List.exists_cons_of_ne_nil hne
  obtain ⟨u₁, hu₁, ht⟩ := run_cons_eq_some.mp ht
  obtain ⟨s₁, hs₁, rfl⟩ := Option.map_eq_some_iff.mp hu₁
  have hs₁_ne : s₁ ≠ .spacesBeforeUrl := by
    rintro rfl
    exact HttpParser.parseUrlChar_ne _ _ hs₁
  have hblank : c ≠ 32 := by
    rintro rfl
    cases hs₁
  have hs₁' : parseUrlChar .spacesBeforeUrl c = some s₁ := hs₁
  have hfirst : (q.inLine (.url .spacesBeforeUrl) i hs (n + 1)).feed c =
      (q.inLine (.url s₁) i hs (n + 1)).next [.mark .url] := by
    change (q.inLine (.url .spacesBeforeUrl) i hs (n + 1)).reqUrl .spacesBeforeUrl c = _
    simp [HttpParser.reqUrl, HttpParser.inLine, hmethod, HttpParser.urlChar, hs₁', hblank,
      HttpParser.goto]
  have hpart : (q.inLine (.url s₁) i hs (n + 1)).state.part? = some .url := by
    simp [HttpParser.inLine, HttpState.part?, hs₁_ne]
  have hbyte := Feeds.byte (p := q.inLine (.url .spacesBeforeUrl) i hs n) rfl hfirst (by simp)
  rw [hpart] at hbyte
  obtain ⟨r, hr, u, n', rfl, hlast, -⟩ := feeds_more .url
    (P := fun p' bs => ∃ u n, p' = q.inLine (.url u.state) i hs n ∧
      run UrlParse.feed u bs = some up ∧ u.state ≠ .spacesBeforeUrl)
    (by
      rintro _ b bs ⟨u, n, rfl, hrun, hne⟩
      obtain ⟨u', hfeed, hrun⟩ := run_cons_eq_some.mp hrun
      obtain ⟨s, hs', rfl⟩ := Option.map_eq_some_iff.mp hfeed
      have hs_ne : s ≠ .spacesBeforeUrl := by
        rintro rfl
        exact HttpParser.parseUrlChar_ne _ _ hs'
      refine ⟨q.inLine (.url s) i hs (n + 1), rfl, ?_, by simp [HttpParser.inLine,
        HttpState.part?, hs_ne], u.put s, n + 1, by rw [state_put], hrun, by rwa [state_put]⟩
      change (q.inLine (.url u.state) i hs (n + 1)).reqUrl u.state b = _
      rw [reqUrl_eq hne hs']
      rfl)
    t ⟨({} : UrlParse).put s₁, n + 1, by rw [state_put], ht, by rwa [state_put]⟩
  obtain rfl : u = up := Option.some.inj hlast
  exact ⟨n', (hbyte.trans hr).same (same_marked _ c t)⟩

/-- The version, up to the end of the line. -/
theorem feeds_version {u : UrlState} (hu : HttpParser.endsUrl u = true) {i n : Nat}
    {hs : HeaderState} :
    Feeds (q.inLine (.url u) i hs n) (ascii " HTTP/1.1" ++ crlf)
      ({ q with httpMajor := 1, httpMinor := 1 }.inLine .headerFieldStart i hs (n + 11)) [] := by
  have hne : u ≠ .spacesBeforeUrl := by
    rintro rfl
    cases hu
  have hblank : Feeds (q.inLine (.url u) i hs n) [32] (q.inLine .reqHttpStart i hs (n + 1)) [] := by
    have hfeed : (q.inLine (.url u) i hs (n + 1)).feed 32 =
        (q.inLine .reqHttpStart i hs (n + 1)).next [.data .url] := by
      change (q.inLine (.url u) i hs (n + 1)).reqUrl u 32 = _
      simp [HttpParser.reqUrl, hne, hu, HttpParser.goto, HttpParser.inLine]
    exact Feeds.byte (p := q.inLine (.url u) i hs n) rfl hfeed (by simp)
  have hhtt : Feeds (q.inLine .reqHttpStart i hs (n + 1)) (ascii "HTT")
      (q.inLine .reqHttpHTT i hs (n + 4)) [] := .of_eq rfl
  have hp : Feeds (q.inLine .reqHttpHTT i hs (n + 4)) (ascii "P/")
      (q.inLine .reqFirstHttpMajor i hs (n + 6)) [] := .of_eq rfl
  have hversion : Feeds (q.inLine .reqFirstHttpMajor i hs (n + 6)) (ascii "1.1")
      ({ q with httpMajor := 1, httpMinor := 1 }.inLine .reqHttpMinor i hs (n + 9)) [] :=
    .of_eq rfl
  have hend : Feeds ({ q with httpMajor := 1, httpMinor := 1 }.inLine .reqHttpMinor i hs (n + 9))
      crlf ({ q with httpMajor := 1, httpMinor := 1 }.inLine .headerFieldStart i hs (n + 11)) [] :=
    .of_eq rfl
  exact (((hblank.trans hhtt).trans hp).trans hversion).trans hend

/-- The first line of a request. -/
def firstLine (m : Method) (target : Bytes) : Bytes :=
  methodString m ++ ascii " " ++ target ++ (ascii " HTTP/1.1" ++ crlf)

/-- A target that the parser takes: every character of it, and it can end there. -/
def acceptsTarget (t : Bytes) : Bool := (parseUrl t).any fun up => HttpParser.endsUrl up.state

/-- **The first line of a request.** -/
theorem feeds_firstLine (h : p.state = .startReq) (m : Method) {t : Bytes}
    (ht : acceptsTarget t = true) :
    ∃ i n, Feeds p (firstLine m t)
      ({ p.fresh with method := httpMethod m, httpMajor := 1, httpMinor := 1 }.inLine
        .headerFieldStart i p.headerState n) [.messageBegin, .data .url t] := by
  obtain ⟨up, hup, hends⟩ := (Option.any_eq_true _ _).mp ht
  have hne : t ≠ [] := by
    rintro rfl
    obtain rfl := Option.some.inj hup
    cases hends
  obtain ⟨i, n, hmethod⟩ := feeds_method h m
  obtain ⟨n', htarget⟩ := feeds_target (q := { p.fresh with method := httpMethod m }) (i := i)
    (n := n) p.headerState (by cases m <;> simp [httpMethod]) hne hup
  have hall := (hmethod.trans htarget).trans (feeds_version hends)
  exact ⟨i, n' + 11, hall⟩

end RequestLine

/-! ## Requests -/

section Requests

/-- The headers that are printed. -/
def sentHeaders (r : RequestT) : List Header :=
  r.headers ++ [(ascii "Content-Length", decimal r.body.length),
    (ascii "Connection", if r.keepAlive then ascii "Keep-Alive" else ascii "close")]

/-- The text of a request in front of its body. -/
def headText (r : RequestT) : Bytes :=
  firstLine r.method r.target ++ fieldText (sentHeaders r) ++ crlf

/-- A request that the parser takes: version 1.1, a target of the characters for it, headers
    with no meaning for the parser, and a head and a body that are not too long. -/
structure Readable (r : RequestT) : Prop where
  version : r.httpMajor = 1 ∧ r.httpMinor = 1
  target : acceptsTarget r.target = true
  headers : ∀ f ∈ r.headers, PlainField f
  head : (headText r).length ≤ maxHeaderSize
  body : r.body.length ≤ ullongMax - 15

/-- A target whose path and query are cut out whole: it begins with `/`, and its places fit
    into the 16 bits of `http_parser_url`. -/
structure WholeTarget (r : RequestT) : Prop where
  path : r.path.head? = some 47 ∧ r.path.all isUrlChar = true
  query : r.query.all isQueryChar = true
  short : r.target.length < 65536

theorem toBytes_eq_headText {r : RequestT} (hversion : r.httpMajor = 1 ∧ r.httpMinor = 1) :
    r.toBytes = headText r ++ r.body := by
  have h11 (bs : Bytes) : ascii " HTTP/" ++ (decimal 1 ++ (ascii "." ++ (decimal 1 ++ bs))) =
      ascii " HTTP/1.1" ++ bs := rfl
  have hlength : ascii "Content-Length: " = ascii "Content-Length" ++ ascii ": " := rfl
  have hconnection (b : Bool) : (if b then ascii "Connection: Keep-Alive" ++ crlf
      else ascii "Connection: close" ++ crlf) = ascii "Connection" ++ (ascii ": " ++
        ((if b then ascii "Keep-Alive" else ascii "close") ++ crlf)) := by
    cases b <;> rfl
  simp only [RequestT.toBytes, headText, firstLine, fieldText, sentHeaders, hversion, hlength,
    hconnection, List.flatMap_append, List.flatMap_cons, List.flatMap_nil, headerText,
    List.append_assoc, List.append_nil, h11]

/-- The parser between two requests. -/
structure Ready (p : HttpParser) : Prop where
  type : p.type = .request
  state : p.state = .startReq
  errno : p.errno = .ok
  nread : p.nread = 0

theorem ready_init : Ready (.init .request) := ⟨rfl, rfl, rfl, rfl⟩

/-- What `on_msg_complete` finds in the parser. -/
structure Understood (r : RequestT) (q : HttpParser) : Prop where
  method : q.method = httpMethod r.method
  version : q.httpMajor = r.httpMajor ∧ q.httpMinor = r.httpMinor
  keepAlive : q.shouldKeepAlive = r.keepAlive
  ready : r.keepAlive = true → Ready q

/-- The parts of the target. -/
theorem parseUrl_target {r : RequestT} (hr : WholeTarget r) :
    ∃ up, parseUrl r.target = some up ∧ up.data r.target .path = r.path ∧
      up.data r.target .query = r.query := by
  obtain ⟨hfirst, hpath⟩ := hr.path
  obtain ⟨t, hslash⟩ : ∃ t, r.path = 47 :: t := List.head?_eq_some_iff.mp hfirst
  rw [hslash, List.all_cons, Bool.and_eq_true] at hpath
  have ht : ∀ c ∈ t, isUrlChar c = true := List.all_eq_true.mp hpath.2
  have hshort := hr.short
  by_cases hquery : r.query = []
  · have htarget : r.target = 47 :: t := by simp [RequestT.target, hquery, hslash]
    obtain ⟨up, hup, hreads⟩ := parseUrl_path ht
    rw [htarget] at hshort ⊢
    rw [hslash, hquery]
    exact ⟨up, hup, hreads.data_of_short [] (by simp) (Or.inl rfl) hshort⟩
  · have htarget : r.target = 47 :: (t ++ 63 :: r.query) := by
      simp [RequestT.target, hquery, hslash]
    obtain ⟨up, hup, hreads⟩ := parseUrl_query ht (List.all_eq_true.mp hr.query)
    rw [htarget] at hshort ⊢
    rw [hslash]
    exact ⟨up, hup, hreads.data_of_short (63 :: r.query) (by simp)
      (Or.inr ⟨[], by simp⟩) hshort⟩

/-- **A printed request is read back.** -/
theorem goes_request {r : RequestT} (hr : Readable r) {p : HttpParser} (hp : Ready p)
    {answer : Nat → Bool} {k : Nat} (hanswer : answer k = true) :
    ∃ q, Goes answer p k r.toBytes q (k + 1)
        (messageEvents .request r.target (sentHeaders r) r.body q) ∧ Understood r q := by
  obtain ⟨i, n, hfirst⟩ := feeds_firstLine hp.state r.method hr.target
  generalize hp₁ : ({ p.fresh with
    method := httpMethod r.method, httpMajor := 1, httpMinor := 1 } : HttpParser).inLine
      .headerFieldStart i p.headerState n = p₁ at hfirst
  have hstart : p₁.state.startsLine = true := by rw [← hp₁]; rfl
  have howed : p₁.owed = [] := by rw [← hp₁]; rfl
  obtain ⟨q₁, hq₁, hcore₁⟩ := lines_plain hstart hr.headers
  obtain ⟨q₂, hq₂, hcore₂⟩ := line_contentLength hq₁.1 hr.body
  have hvalue : (if r.keepAlive then ascii "Keep-Alive" else ascii "close").map lower =
      if r.keepAlive then ascii "keep-alive" else ascii "close" := by
    cases r.keepAlive <;> decide
  obtain ⟨q₃, hq₃, hcore₃⟩ := line_connection hq₂.1 r.keepAlive hvalue
    (by cases r.keepAlive <;> decide)
  have hlines := (hq₁.trans hq₂).trans hq₃
  rw [hcore₂, hcore₁, ← hp₁] at hcore₃
  have hannounces : Announces q₃.core r.body.length := by
    have hbody := hr.body
    rw [hcore₃]
    refine ⟨hp.errno, rfl, by simp only [ullongMax] at hbody ⊢; omega, ?_, ?_⟩
    · cases r.keepAlive <;> exact ⟨rfl, rfl, rfl, rfl⟩
    · cases hm : r.method <;> simp [HttpParser.core, HttpParser.settled, HttpParser.inLine,
        httpMethod]
  have htext : firstLine r.method r.target ++
      (fieldText r.headers ++ (ascii "Content-Length" ++ ascii ": " ++ decimal r.body.length ++
        crlf) ++ (ascii "Connection" ++ ascii ": " ++
          (if r.keepAlive then ascii "Keep-Alive" else ascii "close") ++ crlf)) ++ crlf =
      headText r := by
    simp [headText, fieldText, sentHeaders]
  have hevents : fieldEvents r.headers ++
      [.data .headerField (ascii "Content-Length"), .data .headerValue (decimal r.body.length)] ++
      [.data .headerField (ascii "Connection"),
        .data .headerValue (if r.keepAlive then ascii "Keep-Alive" else ascii "close")] =
      fieldEvents (sentHeaders r) := by
    simp [fieldEvents, sentHeaders]
  obtain ⟨j, hs, hgoes⟩ := goes_message (k := k) hfirst hlines howed hannounces
    (by rw [htext, hp.nread, Nat.zero_add]; exact hr.head) hanswer
  rw [htext, ← toBytes_eq_headText hr.version, hevents] at hgoes
  have hkeep : ({ q₃.core.behind with index := j, headerState := hs } :
      HttpParser).shouldKeepAlive = r.keepAlive := by
    rw [hcore₃]
    cases r.keepAlive <;>
      simp [HttpParser.shouldKeepAlive, HttpParser.needsEof, HttpParser.behind, HttpParser.goto,
        HttpParser.core, HttpParser.settled, HttpParser.inLine, HttpParser.fresh, hp.type]
  refine ⟨_, hgoes, ?_, ?_, hkeep, fun hstays => ⟨?_, ?_, ?_, rfl⟩⟩
  · rw [hcore₃]; rfl
  · rw [hcore₃, hr.version.1, hr.version.2]; exact ⟨rfl, rfl⟩
  · rw [hcore₃]; exact hp.type
  · rw [hcore₃]
    simp [HttpParser.behind, HttpParser.goto, HttpParser.newMessage, HttpParser.startState,
      HttpParser.shouldKeepAlive, HttpParser.needsEof, HttpParser.core, HttpParser.settled,
      HttpParser.inLine, HttpParser.fresh, hp.type, hstays]
  · rw [hcore₃]; exact hp.errno

/-- The message of a request. -/
def requestMessage (r : RequestT) : Assembly :=
  { text := r.target, headers := sentHeaders r, body := r.body, state := .finished }

/-- The message of a request and the parser behind it, as `on_msg_complete` gets them. -/
structure Received (r : RequestT) (m : Assembly × HttpParser) : Prop where
  message : m.1 = requestMessage r
  url : ∃ up, parseUrl m.1.text = some up ∧ up.data m.1.text .path = r.path ∧
    up.data m.1.text .query = r.query
  understood : Understood r m.2

/-- Requests one after another. -/
theorem goes_requests {rs : List RequestT}
    (hrs : ∀ r ∈ rs, Readable r ∧ WholeTarget r ∧ r.keepAlive = true)
    {p : HttpParser} (hp : Ready p) {answer : Nat → Bool} {k : Nat}
    (hanswer : ∀ k, answer k = true) (m : Assembly) (ms : List (Assembly × HttpParser)) :
    ∃ q es m' ms', Goes answer p k (rs.flatMap RequestT.toBytes) q (k + rs.length) es ∧
      es.foldl (collect .request) ⟨some m, ms⟩ = ⟨some m', ms ++ ms'⟩ ∧
      List.Forall₂ Received rs ms' := by
  -- each request leaves the parser ready for the next
  induction rs generalizing p k m ms with
  | nil => exact ⟨p, [], m, [], .nil answer p k, by simp, .nil⟩
  | cons r rs ih =>
    obtain ⟨⟨hr, hwhole, hkeep⟩, hrs⟩ := List.forall_mem_cons.mp hrs
    obtain ⟨q, hgoes, hq⟩ := goes_request hr hp (hanswer k)
    obtain ⟨up, hurl, hdata⟩ := parseUrl_target hwhole
    have hcollect := collect_message .request m ms r.target (sentHeaders r) r.body q
    obtain ⟨q', es, m', ms', hgoes', hcollect', hreceived⟩ :=
      ih hrs (hq.ready hkeep) (k := k + 1) (requestMessage r) (ms ++ [(requestMessage r, q)])
    refine ⟨q', messageEvents .request r.target (sentHeaders r) r.body q ++ es, m',
      (requestMessage r, q) :: ms', ?_, ?_, .cons ⟨rfl, ⟨up, hurl, hdata⟩, hq⟩ hreceived⟩
    · rw [List.flatMap_cons, List.length_cons, Nat.add_comm rs.length, ← Nat.add_assoc]
      exact hgoes.trans hgoes'
    · rw [List.foldl_append, hcollect]
      exact hcollect'.trans (by rw [List.append_assoc, List.singleton_append])

/-- Bytes that the parser takes, in any reads. -/
theorem doParse_of_goes {answer : Nat → Bool} {text : Bytes} {q : HttpParser} {k : Nat}
    {es : List Event} (h : Goes answer (.init .request) 0 text q k es) {cuts : List Bytes}
    (hcuts : ∀ c ∈ cuts, c ≠ []) (htext : cuts.flatten = text) :
    ∃ l, doParse answer (.init .request) 0 (cuts.map .bytes) = some l ∧ l.ending = .waiting ∧
      l.completed = k ∧ l.parser = q ∧
      l.requests = (es.foldl (collect .request) ⟨some {}, []⟩).messages := by
  obtain ⟨es', hrun, hsame⟩ := h
  rw [← htext] at hrun
  have hexit : (byteRun answer (.init .request) 0 cuts.flatten).ending ≠ .exited := by
    simp [hrun]
  obtain ⟨first, es₁, lost, hfirst, hlost, hevents, hloop⟩ :=
    doParse_reads (inv_init .request) hcuts hexit []
  obtain rfl : first = [] := hfirst.elim id id
  rw [hrun] at hlost hevents hloop
  obtain rfl : lost = none := hlost (by simp)
  have hmessages := messages_of_same .request hevents ⟨some {}, []⟩
  rw [List.nil_append, hsame _ _ (joins_collect .request)] at hmessages
  rw [List.append_nil] at hloop
  refine ⟨_, hloop, rfl, by simp [Loop.after], by simp [Loop.after], ?_⟩
  simpa [Loop.requests, Loop.after] using hmessages

/-- **Printed, cut and read.**  Requests on one connection, in any reads: the loop is left
    waiting for more, and the handler has got these requests, in this order. -/
theorem doParse_requests {rs : List RequestT}
    (hrs : ∀ r ∈ rs, Readable r ∧ WholeTarget r ∧ r.keepAlive = true)
    {answer : Nat → Bool} (hanswer : ∀ k, answer k = true) {cuts : List Bytes}
    (hcuts : ∀ c ∈ cuts, c ≠ []) (htext : cuts.flatten = rs.flatMap RequestT.toBytes) :
    ∃ l, doParse answer (.init .request) 0 (cuts.map .bytes) = some l ∧ l.ending = .waiting ∧
      l.completed = rs.length ∧ List.Forall₂ Received rs l.requests := by
  obtain ⟨q, es, m', ms', hgoes, hcollect, hreceived⟩ :=
    goes_requests hrs ready_init (k := 0) hanswer {} []
  obtain ⟨l, hl, hending, hcompleted, -, hrequests⟩ := doParse_of_goes hgoes hcuts htext
  refine ⟨l, hl, hending, by simpa using hcompleted, ?_⟩
  rw [hrequests, hcollect]
  simpa using hreceived

/-- A request without a query and without headers of its own, and one with both and a body. -/
def twoRequests : List RequestT :=
  [{ path := ascii "/a", keepAlive := true },
   { method := .post, path := ascii "/b", query := ascii "x=1", keepAlive := true,
     headers := [(ascii "Host", ascii "h")], body := ascii "xyz" }]

theorem doParse_requests_two :
    ∃ l, doParse (fun _ => true) (.init .request) 0
        ([(twoRequests.flatMap RequestT.toBytes).take 9,
          (twoRequests.flatMap RequestT.toBytes).drop 9].map .bytes) = some l ∧
      l.ending = .waiting ∧ l.completed = twoRequests.length ∧
      List.Forall₂ Received twoRequests l.requests :=
  doParse_requests (by
    intro r hr
    simp only [twoRequests, List.mem_cons, List.not_mem_nil, or_false] at hr
    rcases hr with rfl | rfl <;>
      refine ⟨⟨by decide, by decide, ?_, by decide, by decide⟩,
        ⟨by decide, by decide, by decide⟩, rfl⟩
    · intro f hf
      cases hf
    · intro f hf
      rw [List.mem_singleton.mp hf]
      decide) (fun _ => rfl) (by decide) (by decide)

end Requests

end FiberProxy.Http.ByteParser
