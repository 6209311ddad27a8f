/-
  FiberProxy.Http.ParserText

  What `http_parser` reads out of the lines of a header.

  The names that it knows are found in any case, and no others (`scanName_iff`).  A line is
  then one lemma for each kind of header: one without a meaning for the parser
  (`line_plain`), the length of the body (`line_contentLength`), and whether the connection
  stays open (`line_connection`).  `Line` joins them to the header of a message, also where
  the value of one line is only handed over at the beginning of the next.
-/

import FiberProxy.Http.ReadLoops
import FiberProxy.Lib.Http1

namespace FiberProxy.Http.ByteParser

open Lib Lib.Http1
open HttpParser (takesBody firstHeaderState)

/-! ## The counter of a header -/

namespace HttpParser

variable {p : HttpParser} {ch : UInt8} {acts : List Act}

/-- The counter goes on or starts again. -/
def Counts (p : HttpParser) (f : Fed) : Prop := f.parser.nread = p.nread ∨ f.parser.nread = 0

theorem counts_expect {c : UInt8} {f : Fed} (h : p.Counts f) :
    p.Counts (p.expect ch c acts f) := by
  unfold expect
  split
  · exact h
  · exact .inl rfl

theorem nread_matching (p : HttpParser) (word : Bytes) (found : HeaderState) (c : UInt8) :
    (p.matching word found c).nread = p.nread := by
  obtain ⟨i, hs, heq, -⟩ := matching_eq p word found c
  rw [heq]

theorem nread_matchName (p : HttpParser) (ch c : UInt8) : (p.matchName ch c).nread = p.nread := by
  unfold matchName
  repeat' split
  all_goals first | rfl | exact nread_matching ..

theorem counts_headersDone (p : HttpParser) (ch : UInt8) (acts : List Act) :
    p.Counts (p.headersDone ch acts) := by
  refine counts_expect ?_
  repeat' split
  all_goals exact .inr rfl

theorem counts_headersAlmostDone (p : HttpParser) (ch : UInt8) (acts : List Act) :
    p.Counts (p.headersAlmostDone ch acts) := by
  refine counts_expect ?_
  split
  · exact .inl rfl
  · exact counts_headersDone ..

theorem counts_headerFieldStart (p : HttpParser) (ch : UInt8) (acts : List Act) :
    p.Counts (p.headerFieldStart ch acts) := by
  unfold headerFieldStart
  repeat' split
  all_goals first | exact .inl rfl | exact counts_headersAlmostDone ..

theorem counts_headerValueStart (p : HttpParser) (ch : UInt8) :
    p.Counts (p.headerValueStart ch) := by
  unfold headerValueStart
  dsimp only
  repeat' split
  all_goals exact .inl rfl

theorem counts_headerValue (p : HttpParser) (ch : UInt8) : p.Counts (p.headerValue ch) := by
  unfold headerValue lengthDigit headerAlmostDone expect
  repeat' split
  all_goals first | exact .inl rfl | exact .inl (nread_matching ..)

/-- One byte starts the counter again, or leaves it alone. -/
theorem counts_feed (p : HttpParser) (ch : UInt8) : p.Counts (p.feed ch) := by
  unfold feed startReq reqMethod reqUrl urlChar majorDigit minorDigit resStatusCode headerField
    headerValueDiscardWs headerAlmostDone headerValueLws headerValueDiscardLws chunkSizeStart
    chunkSize chunkSizeAlmostDone
  dsimp only
  repeat' split
  all_goals first
    | exact .inl rfl
    | exact counts_expect (.inl rfl)
    | exact counts_expect (.inr rfl)
    | exact .inl (nread_matchName ..)
    | exact counts_headerFieldStart ..
    | exact counts_headerValueStart ..
    | exact counts_headerValue ..
    | exact counts_headersDone ..
    | exact counts_headersAlmostDone ..

end HttpParser

/-! ## The bytes of a header -/

/-- The bytes of a header, as long as no message is complete, and but for the limit of their
    number. -/
def feeds (p : HttpParser) : Bytes → Option (HttpParser × List Event)
  | [] => some (p, [])
  | b :: bs =>
    let fed := ({ p with nread := p.nread + 1 } : HttpParser).feed b
    if p.state.parsingHeader ∧ fed.verdict = .next ∧ fed.completes = false ∧ fed.late = [] then
      (feeds fed.parser bs).map fun r =>
        (r.1, actEvents fed.parser fed.acts ++ passEvents fed.parser.state.part? [b] ++ r.2)
    else none

/-- The same, up to the cutting of the parts. -/
def Feeds (p : HttpParser) (bs : Bytes) (q : HttpParser) (es : List Event) : Prop :=
  ∃ es', feeds p bs = some (q, es') ∧ Same es' es

section Feeds

variable {p q r : HttpParser} {xs ys : Bytes} {es es' : List Event}

theorem feeds_append (h : feeds p xs = some (q, es)) (ys : Bytes) :
    feeds p (xs ++ ys) = (feeds q ys).map fun r => (r.1, es ++ r.2) := by
  induction xs generalizing p es with
  | nil =>
    obtain ⟨rfl, rfl⟩ := Prod.mk.inj (Option.some.inj h)
    simp
  | cons x xs ih =>
    rw [feeds] at h
    obtain ⟨hok, h⟩ := Option.ite_none_right_eq_some.mp h
    obtain ⟨⟨q', es'⟩, hrest, heq⟩ := Option.map_eq_some_iff.mp h
    obtain ⟨rfl, rfl⟩ := Prod.mk.inj heq
    rw [List.cons_append, feeds, if_pos hok, ih hrest, Option.map_map]
    simp [Function.comp_def]

theorem Feeds.trans (h : Feeds p xs q es) (h' : Feeds q ys r es') :
    Feeds p (xs ++ ys) r (es ++ es') := by
  obtain ⟨es₁, hfeeds, hsame⟩ := h
  obtain ⟨es₂, hfeeds', hsame'⟩ := h'
  exact ⟨es₁ ++ es₂, by rw [feeds_append hfeeds, hfeeds']; rfl, hsame.append hsame'⟩

theorem Feeds.same (h : Feeds p xs q es) (hes : Same es es') : Feeds p xs q es' := by
  obtain ⟨es₁, hfeeds, hsame⟩ := h
  exact ⟨es₁, hfeeds, hsame.trans hes⟩

theorem Feeds.of_eq (h : feeds p xs = some (q, es)) : Feeds p xs q es := ⟨es, h, .refl es⟩

theorem Feeds.nil (p : HttpParser) : Feeds p [] p [] := .of_eq rfl

/-- One byte. -/
theorem Feeds.byte {b : UInt8} {acts : List Act} (hp : p.state.parsingHeader = true)
    (hfeed : ({ p with nread := p.nread + 1 } : HttpParser).feed b = q.next acts)
    (hopen : .messageComplete ∉ acts) :
    Feeds p [b] q (actEvents q acts ++ passEvents q.state.part? [b]) := by
  refine .of_eq ?_
  simp [feeds, hfeed, hp, HttpParser.next, Fed.completes, hopen]

theorem takesBody_of_parsingHeader {s : HttpState} (h : s.parsingHeader = true) :
    takesBody s = false := by
  cases s <;> simp_all [HttpState.parsingHeader, takesBody]

/-- **A header within its limit is read to its end.** -/
theorem byteRun_of_feeds {answer : Nat → Bool} {k : Nat} (h : feeds p xs = some (q, es))
    (hroom : p.nread + xs.length ≤ maxHeaderSize) :
    byteRun answer p k xs = ⟨q, es, xs.length, k, .running⟩ ∧ q.nread ≤ p.nread + xs.length := by
  induction xs generalizing p es with
  | nil =>
    obtain ⟨rfl, rfl⟩ := Prod.mk.inj (Option.some.inj h)
    exact ⟨rfl, le_rfl⟩
  | cons x xs ih =>
    rw [feeds] at h
    obtain ⟨⟨hhead, hverdict, hopen, hlate⟩, h⟩ := Option.ite_none_right_eq_some.mp h
    obtain ⟨⟨q', es'⟩, hrest, heq⟩ := Option.map_eq_some_iff.mp h
    obtain ⟨rfl, rfl⟩ := Prod.mk.inj heq
    rw [List.length_cons] at hroom
    have hcount : p.count = { p with nread := p.nread + 1 } := by
      simp [HttpParser.count, hhead]
    have hbody : takesBody p.count.state = false := by
      rw [count_state, takesBody_of_parsingHeader hhead]
    have hcounts := HttpParser.counts_feed p.count x
    rw [← hcount] at hverdict hopen hlate hrest ⊢
    have hnread : (p.count.feed x).parser.nread ≤ p.nread + 1 := by
      rcases hcounts with heq | hzero
      · rw [heq, hcount]
      · omega
    obtain ⟨hrun, hle⟩ := ih hrest (by omega)
    have hover : p.count.overflows = false := by
      simp only [HttpParser.overflows, hcount, hhead, Bool.true_and, decide_eq_false_iff_not]
      omega
    refine ⟨?_, by rw [List.length_cons]; omega⟩
    rw [byteRun, if_neg (by simp [hover]), advance_byte hbody]
    simp [conclude, hverdict, hopen, hrun, Ran.after, Fed.events, hlate, actEvents, markedPart,
      takesBody_of_parsingHeader hhead, Nat.add_comm]

end Feeds

/-! ## The names that the parser knows -/

section Names

theorem token_of_isTokenByte {ch : UInt8} (h : isTokenByte ch = true) :
    token ch = some (lowerByte ch) := by
  unfold token
  split
  · rfl
  · rename_i halpha
    have hlower : lowerByte ch = ch := by
      simp only [isAlpha, Bool.or_eq_true, Bool.and_eq_true, decide_eq_true_eq, not_or] at halpha
      exact if_neg halpha.1
    rw [hlower, if_pos]
    have hsymbols : ascii "!#$%&'*+-.^_`|~" =
        [33, 35, 36, 37, 38, 39, 42, 43, 45, 46, 94, 95, 96, 124, 126] := by decide
    simp only [isAlpha, Bool.or_eq_true, not_or] at halpha
    simp only [isTokenByte, Bool.or_eq_true, halpha.1, halpha.2] at h
    rw [isNum, hsymbols, Bool.or_eq_true]
    simpa using h

/-- A blank is no character of a name. -/
theorem ne_blank_of_isTokenByte {ch : UInt8} (h : isTokenByte ch = true) :
    ch ≠ 32 ∧ lowerByte ch ≠ 32 := by
  have hne : ch ≠ 32 := by
    rintro rfl
    simp [isTokenByte] at h
  refine ⟨hne, ?_⟩
  unfold lowerByte
  split
  · rename_i hupper
    simp only [UInt8.le_iff_toNat_le, UInt8.reduceToNat] at hupper
    intro heq
    have hnat := congrArg UInt8.toNat heq
    rw [UInt8.toNat_add] at hnat
    simp only [UInt8.reduceToNat] at hnat
    omega
  · exact hne

/-- One more character of a name: the place in the word that is being matched, and which
    word that is. -/
def scan (s : Nat × HeaderState) (c : UInt8) : Nat × HeaderState :=
  let p := ({ HttpParser.init .both with index := s.1, headerState := s.2 }).matchName c c
  (p.index, p.headerState)

/-- A name in lower case. -/
def scanName : Bytes → Nat × HeaderState
  | [] => (0, .general)
  | c :: name => name.foldl scan (0, firstHeaderState c)

theorem matching_scan (p : HttpParser) (word : Bytes) (found : HeaderState) (c : UInt8) :
    p.matching word found c =
      { p with
        index := (({ HttpParser.init .both with
          index := p.index, headerState := p.headerState }).matching word found c).index
        headerState := (({ HttpParser.init .both with
          index := p.index
          headerState := p.headerState }).matching word found c).headerState } := by
  unfold HttpParser.matching
  dsimp only
  repeat' split
  all_goals rfl

theorem matchName_eq_scan {p : HttpParser} {ch : UInt8} (h : isTokenByte ch = true) :
    p.matchName ch (lowerByte ch) =
      { p with
        index := (scan (p.index, p.headerState) (lowerByte ch)).1
        headerState := (scan (p.index, p.headerState) (lowerByte ch)).2 } := by
  obtain ⟨hne, hne'⟩ := ne_blank_of_isTokenByte h
  obtain ⟨type, flags, state, hs, index, nread, length, major, minor, code, method, errno,
    upgrade⟩ := p
  cases hs <;> simp only [scan, HttpParser.matchName, hne, hne', if_false]
  -- a word is being matched
  case matchingConnection | matchingProxyConnection | matchingContentLength
    | matchingTransferEncoding | matchingUpgrade => exact matching_scan ..

/-- The word that is being matched. -/
def HeaderState.word : HeaderState → Bytes
  | .matchingConnection => ascii "connection"
  | .matchingProxyConnection => ascii "proxy-connection"
  | .matchingContentLength => ascii "content-length"
  | .matchingTransferEncoding => ascii "transfer-encoding"
  | .matchingUpgrade => ascii "upgrade"
  | _ => []

/-- What has been read of a name. -/
def Scanned (w : Bytes) (s : Nat × HeaderState) : Prop :=
  match s.2 with
  | .general => True
  | .c => w = ascii "c" ∧ s.1 = 0
  | .co => w = ascii "co" ∧ s.1 = 1
  | .con => w = ascii "con" ∧ s.1 = 2
  | .matchingConnection | .matchingProxyConnection | .matchingContentLength
  | .matchingTransferEncoding | .matchingUpgrade =>
    w.length = s.1 + 1 ∧ w = s.2.word.take (s.1 + 1)
  | .connection => w = ascii "connection" ∨ w = ascii "proxy-connection"
  | .contentLength => w = ascii "content-length"
  | .transferEncoding => w = ascii "transfer-encoding"
  | .upgrade => w = ascii "upgrade"
  | _ => False

theorem scanned_first (c : UInt8) : Scanned [c] (0, firstHeaderState c) := by
  unfold firstHeaderState
  split
  · simp [Scanned, *]; decide
  split
  · simp [Scanned, *, HeaderState.word]; decide
  split
  · simp [Scanned, *, HeaderState.word]; decide
  split
  · simp [Scanned, *, HeaderState.word]; decide
  · trivial

/-- One more character of a word: it is another word, or it goes on, or it is over. -/
theorem matching_cases {p : HttpParser} {w word : Bytes}
    (hw : w = word.take (p.index + 1)) (found : HeaderState) (c : UInt8) :
    let q := p.matching word found c
    q.headerState = .general ∨
      (q.headerState = found ∧ w ++ [c] = word) ∨
      (q.headerState = p.headerState ∧ q.index = p.index + 1 ∧
        w ++ [c] = word.take (q.index + 1)) := by
  have hnext (hc : word[p.index + 1]? = some c) : w ++ [c] = word.take (p.index + 1 + 1) := by
    rw [List.take_add_one, hc, ← hw]
    rfl
  unfold HttpParser.matching
  dsimp only
  split
  · exact .inl rfl
  · rename_i hc
    rw [ne_eq, not_not] at hc
    split
    · rename_i hlast
      right; left
      refine ⟨rfl, ?_⟩
      rw [hnext hc, hlast, List.take_length]
    · exact .inr (.inr ⟨rfl, rfl, hnext hc⟩)

theorem scanned_step {w : Bytes} {s : Nat × HeaderState} (h : Scanned w s) {c : UInt8}
    (hc : c ≠ 32) : Scanned (w ++ [c]) (scan s c) := by
  obtain ⟨i, hs⟩ := s
  -- a word that is being matched
  have hword {found : HeaderState} (hw : w.length = i + 1 ∧ w = hs.word.take (i + 1))
      (hfound : ∀ j, w ++ [c] = hs.word → Scanned (w ++ [c]) (j, found))
      (hstay : ∀ j, Scanned (w ++ [c]) (j, hs) ↔
        (w ++ [c]).length = j + 1 ∧ w ++ [c] = hs.word.take (j + 1)) :
      let q := ({ HttpParser.init .both with index := i, headerState := hs }).matching hs.word
        found c
      Scanned (w ++ [c]) (q.index, q.headerState) := by
    intro q
    rcases matching_cases (p := { HttpParser.init .both with index := i, headerState := hs })
      hw.2 found c with hgen | ⟨hover, heq⟩ | ⟨hsame, hidx, heq⟩
    · simp only [q, hgen]
      trivial
    · simp only [q, hover]
      exact hfound _ heq
    · simp only [q, hsame]
      refine (hstay _).mpr ⟨?_, heq⟩
      rw [List.length_append, hw.1, hidx]
      rfl
  cases hs <;> simp only [Scanned] at h
  all_goals simp only [scan, HttpParser.matchName, hc, if_false]
  case general => trivial
  case c | co =>
    obtain ⟨rfl, rfl⟩ := h
    split
    · subst c
      exact ⟨by decide, rfl⟩
    · trivial
  case con =>
    obtain ⟨rfl, rfl⟩ := h
    split
    · subst c
      exact ⟨by decide, by decide⟩
    split
    · subst c
      exact ⟨by decide, by decide⟩
    · trivial
  case matchingConnection => exact hword h (fun _ => .inl) fun _ => .rfl
  case matchingProxyConnection => exact hword h (fun _ => .inr) fun _ => .rfl
  case matchingContentLength | matchingTransferEncoding | matchingUpgrade =>
    exact hword h (fun _ => id) fun _ => .rfl
  case connection | contentLength | transferEncoding | upgrade => trivial

theorem scanned_name {name : Bytes} (hname : name ≠ []) (htoken : name.all isTokenByte = true) :
    Scanned (toLower name) (scanName (toLower name)) := by
  have hfold (rest w : Bytes) (s : Nat × HeaderState) (h : Scanned w s)
      (hrest : ∀ c ∈ rest, c ≠ 32) : Scanned (w ++ rest) (rest.foldl scan s) := by
    induction rest generalizing w s with
    | nil => simpa using h
    | cons c rest ih =>
      obtain ⟨hc, hrest⟩ := List.forall_mem_cons.mp hrest
      simpa using ih (w ++ [c]) (scan s c) (scanned_step h hc) hrest
  obtain ⟨ch, rest, rfl⟩ := List.exists_cons_of_ne_nil hname
  refine hfold (toLower rest) [lowerByte ch] _ (scanned_first _) fun c hc => ?_
  obtain ⟨ch', hmem, rfl⟩ := List.mem_map.mp hc
  exact (ne_blank_of_isTokenByte
    (List.all_eq_true.mp htoken ch' (List.mem_cons_of_mem _ hmem))).2

/-- **The names that the parser knows**, in any case: no others, and no parts of them. -/
theorem scanName_iff {name : Bytes} (hname : name ≠ []) (htoken : name.all isTokenByte = true) :
    ((scanName (toLower name)).2 = .connection ↔
        toLower name = ascii "connection" ∨ toLower name = ascii "proxy-connection") ∧
      ((scanName (toLower name)).2 = .contentLength ↔ toLower name = ascii "content-length") ∧
      ((scanName (toLower name)).2 = .transferEncoding ↔
        toLower name = ascii "transfer-encoding") ∧
      ((scanName (toLower name)).2 = .upgrade ↔ toLower name = ascii "upgrade") := by
  have hscanned := scanned_name hname htoken
  have hback {hs : HeaderState} (h : (scanName (toLower name)).2 = hs) :
      Scanned (toLower name) ((scanName (toLower name)).1, hs) := by
    rw [← h]
    exact hscanned
  refine ⟨⟨hback, ?_⟩, ⟨hback, ?_⟩, ⟨hback, ?_⟩, ⟨hback, ?_⟩⟩
  · rintro (h | h) <;> rw [h] <;> decide
  all_goals
    intro h
    rw [h]
    decide

end Names

/-! ## Where a line begins -/

def HttpState.startsLine : HttpState → Bool
  | .headerFieldStart | .headerValueLws | .headerValueDiscardLws => true
  | _ => false

namespace HttpParser

/-- The parser at the beginning of a line, once the line before is settled. -/
def settled (p : HttpParser) : HttpParser :=
  { p with
    state := .headerFieldStart
    flags := if p.state = .headerValueLws then p.headerFlags else p.flags }

/-- The callbacks that the line before has left: those of an empty value. -/
def owed (p : HttpParser) : List Event :=
  if p.state = .headerValueDiscardLws then [.data .headerValue []] else []

/-- What the lines of a header can change of a parser, but for the text of the lines. -/
def core (p : HttpParser) : HttpParser :=
  { p.settled with index := 0, headerState := .general, nread := 0 }

/-- The parser inside a line. -/
def inLine (p : HttpParser) (s : HttpState) (i : Nat) (hs : HeaderState) (n : Nat) : HttpParser :=
  { p with state := s, index := i, headerState := hs, nread := n }

theorem feed_line {p : HttpParser} (h : p.state.startsLine = true) {b : UInt8}
    (hb : ¬ (b = 32 ∨ b = 9)) :
    ∃ acts, p.feed b = p.settled.headerFieldStart b acts ∧ .messageComplete ∉ acts ∧
      ∀ q, actEvents q acts = p.owed := by
  cases hs : p.state <;> simp only [hs, HttpState.startsLine, Bool.false_eq_true] at h
  case headerFieldStart =>
    refine ⟨[], ?_, by simp, by simp [owed, hs, actEvents]⟩
    have hsettled : p.settled = p := by
      obtain ⟨⟩ := p
      simp_all [settled]
    simp only [feed, hs, hsettled]
  case headerValueLws =>
    exact ⟨[], by simp [feed, hs, headerValueLws, hb, settled], by simp, by
      simp [owed, hs, actEvents]⟩
  case headerValueDiscardLws =>
    exact ⟨[.mark .headerValue, .data .headerValue], by
      simp [feed, hs, headerValueDiscardLws, hb, settled, goto], by simp, by
      simp [owed, hs, actEvents]⟩

end HttpParser

/-! ## Runs of bytes -/

/-- Every byte is a piece. -/
def more (part : Part) (bs : Bytes) : List Event := bs.map fun b => .data part [b]

theorem same_more (part : Part) (x bs : Bytes) :
    Same (.data part x :: more part bs) [.data part (x ++ bs)] := by
  induction bs generalizing x with
  | nil => simpa [more] using Same.refl _
  | cons b bs ih =>
    have hjoin := ((Same.join part x [b]).append (.refl (more part bs))).trans (ih (x ++ [b]))
    rw [List.append_assoc] at hjoin
    exact hjoin

/-- A mark, and the bytes behind it. -/
theorem same_marked (part : Part) (b : UInt8) (bs : Bytes) :
    Same ([.data part [], .data part [b]] ++ more part bs) [.data part (b :: bs)] :=
  same_more part [] (b :: bs)

/-- Bytes of a part, one like the other. -/
theorem feeds_more (part : Part) {P : HttpParser → Bytes → Prop}
    (hstep : ∀ p b bs, P p (b :: bs) → ∃ q, p.state.parsingHeader = true ∧
      ({ p with nread := p.nread + 1 } : HttpParser).feed b = q.next [] ∧
      q.state.part? = some part ∧ P q bs)
    {p : HttpParser} (bs : Bytes) (h : P p bs) : ∃ q, Feeds p bs q (more part bs) ∧ P q [] := by
  induction bs generalizing p with
  | nil => exact ⟨p, .nil p, h⟩
  | cons b bs ih =>
    obtain ⟨q, hhead, hfeed, hpart, hq⟩ := hstep p b bs h
    obtain ⟨r, hr, hP⟩ := ih hq
    have hbyte := Feeds.byte hhead hfeed (by simp)
    rw [hpart] at hbyte
    exact ⟨r, hbyte.trans hr, hP⟩

/-- Bytes that belong to no part. -/
theorem feeds_silent {P : HttpParser → Bytes → Prop}
    (hstep : ∀ p b bs, P p (b :: bs) → ∃ q, p.state.parsingHeader = true ∧
      ({ p with nread := p.nread + 1 } : HttpParser).feed b = q.next [] ∧
      q.state.part? = none ∧ P q bs)
    {p : HttpParser} (bs : Bytes) (h : P p bs) : ∃ q, Feeds p bs q [] ∧ P q [] := by
  induction bs generalizing p with
  | nil => exact ⟨p, .nil p, h⟩
  | cons b bs ih =>
    obtain ⟨q, hhead, hfeed, hpart, hq⟩ := hstep p b bs h
    obtain ⟨r, hr, hP⟩ := ih hq
    have hbyte := Feeds.byte hhead hfeed (by simp)
    rw [hpart] at hbyte
    exact ⟨r, hbyte.trans hr, hP⟩

/-! ## The lines of a header -/

section Lines

variable {p : HttpParser}

theorem ne_of_isTokenByte {ch c : UInt8} (h : isTokenByte ch = true)
    (hc : isTokenByte c = false) : ch ≠ c := by
  rintro rfl
  rw [hc] at h
  cases h

theorem feed_name {b : UInt8} (hb : isTokenByte b = true) (p : HttpParser) (i : Nat)
    (hs : HeaderState) (n : Nat) :
    (p.inLine .headerField i hs n).feed b =
      (p.inLine .headerField (scan (i, hs) (lowerByte b)).1 (scan (i, hs) (lowerByte b)).2 n).next
        [] := by
  change (p.inLine .headerField i hs n).headerField b = _
  rw [HttpParser.headerField, token_of_isTokenByte hb]
  dsimp only
  rw [matchName_eq_scan hb]
  rfl

/-- The first character of a name. -/
theorem feeds_name_first (h : p.state.startsLine = true) {ch : UInt8}
    (hch : isTokenByte ch = true) :
    Feeds p [ch]
      (p.settled.inLine .headerField 0 (firstHeaderState (lowerByte ch)) (p.nread + 1))
      (p.owed ++ [.data .headerField [], .data .headerField [ch]]) := by
  have hne {c : UInt8} (hc : isTokenByte c = false) : ch ≠ c := ne_of_isTokenByte hch hc
  have hhead : p.state.parsingHeader = true := by
    cases hs : p.state <;> simp_all [HttpState.startsLine, HttpState.parsingHeader]
  obtain ⟨acts, hfeed, hopen, howed⟩ :=
    HttpParser.feed_line (p := { p with nread := p.nread + 1 }) h (b := ch)
      (by simp [hne (c := 32) (by decide), hne (c := 9) (by decide)])
  have hstart : ({ p with nread := p.nread + 1 } : HttpParser).settled.headerFieldStart ch acts =
      (p.settled.inLine .headerField 0 (firstHeaderState (lowerByte ch)) (p.nread + 1)).next
        (acts ++ [.mark .headerField]) := by
    rw [HttpParser.headerFieldStart, if_neg (hne (by decide)), if_neg (hne (by decide)),
      token_of_isTokenByte hch]
    rfl
  have hbyte := Feeds.byte hhead (hfeed.trans hstart) (by simpa using hopen)
  rw [actEvents_append, howed, List.append_assoc] at hbyte
  exact hbyte

/-- The name of a header. -/
theorem feeds_name (h : p.state.startsLine = true) {name : Bytes} (hname : name ≠ [])
    (htoken : name.all isTokenByte = true) :
    ∃ n, Feeds p name
      (p.settled.inLine .headerField (scanName (toLower name)).1 (scanName (toLower name)).2 n)
      (p.owed ++ [.data .headerField name]) := by
  obtain ⟨ch, rest, rfl⟩ := List.exists_cons_of_ne_nil hname
  rw [List.all_cons, Bool.and_eq_true] at htoken
  obtain ⟨hch, hrest⟩ := htoken
  have hfirst := feeds_name_first h hch
  -- the others
  obtain ⟨r, hr, i, hs, n, rfl, hscan, -⟩ := feeds_more .headerField
    (P := fun p' bs => ∃ i hs n, p' = p.settled.inLine .headerField i hs n ∧
      (toLower bs).foldl scan (i, hs) = scanName (toLower (ch :: rest)) ∧
      bs.all isTokenByte = true)
    (by
      rintro _ b bs ⟨i, hs, n, rfl, hscan, hbs⟩
      rw [List.all_cons, Bool.and_eq_true] at hbs
      exact ⟨_, rfl, feed_name hbs.1 p.settled i hs (n + 1), rfl, _, _, _, rfl, hscan, hbs.2⟩)
    rest ⟨0, _, _, rfl, rfl, hrest⟩
  obtain ⟨rfl, rfl⟩ : i = (scanName (toLower (ch :: rest))).1 ∧
      hs = (scanName (toLower (ch :: rest))).2 := ⟨congrArg Prod.fst hscan, congrArg Prod.snd hscan⟩
  refine ⟨n, (hfirst.trans hr).same ?_⟩
  rw [List.append_assoc]
  exact (Same.refl _).append (same_marked _ ch rest)

/-- The names with a meaning for the parser. -/
def knownNames : List Bytes :=
  [ascii "connection", ascii "proxy-connection", ascii "content-length",
    ascii "transfer-encoding", ascii "upgrade"]

/-- A header that a line carries, with no meaning for the parser. -/
def PlainField (h : Header) : Prop :=
  (h.1 ≠ [] ∧ h.1.all isTokenByte) ∧ toLower h.1 ∉ knownNames ∧
    ((13 : UInt8) ∉ h.2 ∧ (10 : UInt8) ∉ h.2) ∧ h.2.head? ≠ some 32 ∧ h.2.head? ≠ some 9

instance (h : Header) : Decidable (PlainField h) := inferInstanceAs (Decidable (_ ∧ _))

/-- A line of a header, from the beginning of one line to that of the next. -/
def Line (p : HttpParser) (text : Bytes) (q : HttpParser) (es : List Event) : Prop :=
  q.state.startsLine = true ∧
    ∃ es', Feeds p text q es' ∧ Same (es' ++ q.owed) (p.owed ++ es)

/-- Its name is not known. -/
def HeaderState.unknown : HeaderState → Bool
  | .connection | .contentLength | .transferEncoding | .upgrade => false
  | _ => true

theorem unknown_scanName {name : Bytes} (hname : name ≠ []) (htoken : name.all isTokenByte = true)
    (hknown : toLower name ∉ knownNames) : (scanName (toLower name)).2.unknown = true := by
  obtain ⟨hconnection, hlength, hencoding, hupgrade⟩ := scanName_iff hname htoken
  simp only [knownNames, List.mem_cons, List.not_mem_nil, or_false, not_or] at hknown
  obtain ⟨h₁, h₂, h₃, h₄, h₅⟩ := hknown
  cases hs : (scanName (toLower name)).2 <;> simp_all [HeaderState.unknown]

/-- The name, the colon and the blank. -/
theorem feeds_field (h : p.state.startsLine = true) (name : Bytes) (hname : name ≠ [])
    (htoken : name.all isTokenByte = true) :
    ∃ n, Feeds p (name ++ ascii ": ")
      (p.settled.inLine .headerValueDiscardWs (scanName (toLower name)).1
        (scanName (toLower name)).2 n) (p.owed ++ [.data .headerField name]) := by
  obtain ⟨n, hfeeds⟩ := feeds_name h hname htoken
  have hcolon (i : Nat) (hs : HeaderState) :
      Feeds (p.settled.inLine .headerField i hs n) (ascii ": ")
        (p.settled.inLine .headerValueDiscardWs i hs (n + 2)) [] := .of_eq rfl
  exact ⟨n + 2, by simpa using hfeeds.trans (hcolon _ _)⟩

/-- A value without a meaning. -/
theorem feeds_value {q : HttpParser} {i n : Nat} {hs : HeaderState} (hunknown : hs.unknown = true)
    {v : UInt8} {vs : Bytes} (hv : ¬ (v = 32 ∨ v = 9))
    (hline : (13 : UInt8) ∉ v :: vs ∧ (10 : UInt8) ∉ v :: vs) :
    ∃ m, Feeds (q.inLine .headerValueDiscardWs i hs n) (v :: vs)
      (q.inLine .headerValue 0 .general m) [.data .headerValue (v :: vs)] := by
  obtain ⟨hcr, hlf⟩ := hline
  rw [List.mem_cons, not_or] at hcr hlf
  have hfirst : (q.inLine .headerValueDiscardWs i hs (n + 1)).feed v =
      (q.inLine .headerValue 0 .general (n + 1)).next [.mark .headerValue] := by
    change (q.inLine .headerValueDiscardWs i hs (n + 1)).headerValueDiscardWs v = _
    rw [HttpParser.headerValueDiscardWs, if_neg hv, if_neg (Ne.symm hcr.1),
      if_neg (Ne.symm hlf.1), HttpParser.headerValueStart]
    cases hs <;> simp_all [HeaderState.unknown, HttpParser.inLine]
  have hbyte := Feeds.byte (p := q.inLine .headerValueDiscardWs i hs n) rfl hfirst (by simp)
  obtain ⟨r, hr, m, rfl, -⟩ := feeds_more .headerValue
    (P := fun p' bs => ∃ m, p' = q.inLine .headerValue 0 .general m ∧
      (13 : UInt8) ∉ bs ∧ (10 : UInt8) ∉ bs)
    (by
      rintro _ b bs ⟨m, rfl, hcr, hlf⟩
      rw [List.mem_cons, not_or] at hcr hlf
      refine ⟨q.inLine .headerValue 0 .general (m + 1), rfl, ?_, rfl, m + 1, rfl, hcr.2, hlf.2⟩
      change (q.inLine .headerValue 0 .general (m + 1)).headerValue b = _
      rw [HttpParser.headerValue, if_neg (Ne.symm hcr.1), if_neg (Ne.symm hlf.1)]
      rfl)
    vs ⟨n + 1, rfl, hcr.2, hlf.2⟩
  exact ⟨m, (hbyte.trans hr).same (same_marked _ v vs)⟩

/-- **A header without a meaning for the parser.** -/
theorem line_plain (h : p.state.startsLine = true) {f : Header} (hf : PlainField f) :
    ∃ q, Line p (f.1 ++ ascii ": " ++ f.2 ++ crlf) q
        [.data .headerField f.1, .data .headerValue f.2] ∧ q.core = p.core := by
  obtain ⟨name, value⟩ := f
  obtain ⟨⟨hname, htoken⟩, hknown, hline, hblank, htab⟩ := hf
  dsimp only at *
  obtain ⟨n, hfield⟩ := feeds_field h name hname htoken
  have hunknown := unknown_scanName hname htoken hknown
  generalize scanName (toLower name) = scanned at hfield hunknown
  obtain ⟨i, hs⟩ := scanned
  match value with
  | [] =>
    -- the value is owed until the next line begins
    have hend : Feeds (p.settled.inLine .headerValueDiscardWs i hs n) crlf
        (p.settled.inLine .headerValueDiscardLws i hs (n + 2)) [] := .of_eq rfl
    refine ⟨p.settled.inLine .headerValueDiscardLws i hs (n + 2),
      ⟨rfl, p.owed ++ [.data .headerField name], by simpa using hfield.trans hend, ?_⟩, rfl⟩
    simpa [HttpParser.owed, HttpParser.inLine] using Same.refl _
  | v :: vs =>
    obtain ⟨m, hvalue⟩ := feeds_value (q := p.settled) (i := i) (n := n) hunknown
      (by simpa using And.intro hblank htab) hline
    have hend : Feeds (p.settled.inLine .headerValue 0 .general m) crlf
        (p.settled.inLine .headerValueLws 0 .general (m + 2)) [] := .of_eq rfl
    refine ⟨p.settled.inLine .headerValueLws 0 .general (m + 2),
      ⟨rfl, _, (hfield.trans hvalue).trans hend, ?_⟩, rfl⟩
    simpa [HttpParser.owed, HttpParser.inLine] using Same.refl _

theorem Line.refl (h : p.state.startsLine = true) : Line p [] p [] :=
  ⟨h, [], .nil p, by simpa using Same.refl _⟩

theorem Line.trans {q r : HttpParser} {xs ys : Bytes} {es es' : List Event}
    (h : Line p xs q es) (h' : Line q ys r es') : Line p (xs ++ ys) r (es ++ es') := by
  obtain ⟨-, es₁, hfeeds, hsame⟩ := h
  obtain ⟨hstart, es₂, hfeeds', hsame'⟩ := h'
  refine ⟨hstart, es₁ ++ es₂, hfeeds.trans hfeeds', ?_⟩
  have hleft := (Same.refl es₁).append hsame'
  have hright := hsame.append (.refl es')
  simp only [List.append_assoc] at hleft hright ⊢
  exact hleft.trans hright

/-- The callbacks of some headers. -/
def fieldEvents (fs : List Header) : List Event :=
  fs.flatMap fun f => [.data .headerField f.1, .data .headerValue f.2]

/-- The text of some headers. -/
def fieldText (fs : List Header) : Bytes := fs.flatMap fun f => f.1 ++ ascii ": " ++ f.2 ++ crlf

theorem lines_plain (h : p.state.startsLine = true) {fs : List Header}
    (hfs : ∀ f ∈ fs, PlainField f) :
    ∃ q, Line p (fieldText fs) q (fieldEvents fs) ∧ q.core = p.core := by
  induction fs generalizing p with
  | nil => exact ⟨p, .refl h, rfl⟩
  | cons f fs ih =>
    obtain ⟨hf, hfs⟩ := List.forall_mem_cons.mp hfs
    obtain ⟨q, hq, hcore⟩ := line_plain h hf
    obtain ⟨r, hr, hcore'⟩ := ih hq.1 hfs
    exact ⟨r, hq.trans hr, hcore'.trans hcore⟩

/-! ## The headers with a meaning -/

theorem le_of_readDigits {acc n : Nat} {bs : Bytes} (h : readDigits acc bs = some n) :
    acc ≤ n := by
  induction bs generalizing acc with
  | nil => exact (Option.some.inj h).le
  | cons b bs ih =>
    obtain ⟨d, -, h⟩ := Option.bind_eq_some_iff.mp h
    have hle := ih h
    omega

theorem isNum_of_digitVal {b : UInt8} {d : Nat} (h : digitVal b = some d) :
    isNum b = true ∧ digitOf b = d := by
  obtain ⟨hnum, h⟩ := Option.ite_none_right_eq_some.mp h
  exact ⟨by simpa [isNum] using hnum, Option.some.inj h⟩

/-- The digits of a length. -/
theorem feeds_length {q : HttpParser} {i m n : Nat} (hn : n ≤ ullongMax - 15) :
    ∃ m', Feeds (q.inLine .headerValueDiscardWs i .contentLength m) (decimal n)
      ({ q with contentLength := n }.inLine .headerValue 0 .contentLength m')
      [.data .headerValue (decimal n)] := by
  have hread := readDigits_decimal n
  obtain ⟨b, bs, hbs⟩ := List.exists_cons_of_ne_nil (decimal_ne_nil n)
  rw [hbs] at hread ⊢
  obtain ⟨d, hd, hrest⟩ := Option.bind_eq_some_iff.mp hread
  obtain ⟨hnum, hdigit⟩ := isNum_of_digitVal hd
  have hne {b c : UInt8} {d : Nat} (hd : digitVal b = some d) (hc : digitVal c = none) :
      b ≠ c := by
    rintro rfl
    rw [hc] at hd
    cases hd
  have hfirst : (q.inLine .headerValueDiscardWs i .contentLength (m + 1)).feed b =
      ({ q with contentLength := d }.inLine .headerValue 0 .contentLength (m + 1)).next
        [.mark .headerValue] := by
    change (q.inLine .headerValueDiscardWs i .contentLength (m + 1)).headerValueDiscardWs b = _
    rw [HttpParser.headerValueDiscardWs, if_neg (by simp [hne hd (c := 32) rfl,
      hne hd (c := 9) rfl]), if_neg (hne hd rfl), if_neg (hne hd rfl)]
    simp [HttpParser.headerValueStart, HttpParser.inLine, hnum, hdigit]
  have hbyte := Feeds.byte (p := q.inLine .headerValueDiscardWs i .contentLength m) rfl hfirst
    (by simp)
  obtain ⟨r, hr, m', c, rfl, hlast⟩ := feeds_more .headerValue
    (P := fun p' bs => ∃ m c,
      p' = { q with contentLength := c }.inLine .headerValue 0 .contentLength m ∧
        readDigits c bs = some n)
    (by
      rintro _ b bs ⟨m, c, rfl, hread⟩
      obtain ⟨d, hd, hrest⟩ := Option.bind_eq_some_iff.mp hread
      obtain ⟨hnum, hdigit⟩ := isNum_of_digitVal hd
      have hle := le_of_readDigits hrest
      refine ⟨{ q with contentLength := c * 10 + d }.inLine .headerValue 0 .contentLength (m + 1),
        rfl, ?_, rfl, _, _, rfl, hrest⟩
      change ({ q with contentLength := c }.inLine .headerValue 0 .contentLength
        (m + 1)).headerValue b = _
      have hfits : ¬ (ullongMax - 10) / 10 < c := by
        simp only [ullongMax] at hn ⊢
        omega
      rw [HttpParser.headerValue, if_neg (hne hd rfl), if_neg (hne hd rfl)]
      simp [HttpParser.lengthDigit, HttpParser.inLine, hne hd (c := 32) rfl, hnum, hdigit, hfits])
    bs ⟨m + 1, d, rfl, by simpa using hrest⟩
  obtain rfl : c = n := Option.some.inj hlast
  exact ⟨m', (hbyte.trans hr).same (same_marked _ b bs)⟩

/-- **The length of a body.** -/
theorem line_contentLength (h : p.state.startsLine = true) {n : Nat} (hn : n ≤ ullongMax - 15) :
    ∃ q, Line p (ascii "Content-Length" ++ ascii ": " ++ decimal n ++ crlf) q
        [.data .headerField (ascii "Content-Length"), .data .headerValue (decimal n)] ∧
      q.core = { p.core with contentLength := n } := by
  obtain ⟨m, hfield⟩ := feeds_field h (ascii "Content-Length") (by decide) (by decide)
  have hknown : (scanName (toLower (ascii "Content-Length"))).2 = .contentLength := by decide
  rw [hknown] at hfield
  obtain ⟨m', hvalue⟩ := feeds_length (q := p.settled)
    (i := (scanName (toLower (ascii "Content-Length"))).1) (m := m) hn
  have hend : Feeds ({ p.settled with contentLength := n }.inLine .headerValue 0 .contentLength m')
      crlf ({ p.settled with contentLength := n }.inLine .headerValueLws 0 .contentLength (m' + 2))
      [] := .of_eq rfl
  refine ⟨_, ⟨rfl, _, (hfield.trans hvalue).trans hend, ?_⟩, rfl⟩
  simpa [HttpParser.owed, HttpParser.inLine] using Same.refl _

/-- The rest of a word in a value. -/
theorem feeds_word {q : HttpParser} {word : Bytes} {hs found : HeaderState}
    (hmatch : ∀ i n b, b ≠ 13 → b ≠ 10 → (q.inLine .headerValue i hs n).headerValue b =
      ((q.inLine .headerValue i hs n).matching word found (lower b)).next [])
    {i n : Nat} {bs : Bytes} (hbs : bs ≠ []) (hline : (13 : UInt8) ∉ bs ∧ (10 : UInt8) ∉ bs)
    (hword : bs.map lower = word.drop (i + 1)) :
    ∃ j m, Feeds (q.inLine .headerValue i hs n) bs (q.inLine .headerValue j found m)
      (more .headerValue bs) := by
  obtain ⟨r, hr, j, m, hlast⟩ := feeds_more .headerValue
    (P := fun p' bs => ∃ i n, (bs = [] ∧ p' = q.inLine .headerValue i found n) ∨
      (bs ≠ [] ∧ p' = q.inLine .headerValue i hs n ∧ bs.map lower = word.drop (i + 1) ∧
        (13 : UInt8) ∉ bs ∧ (10 : UInt8) ∉ bs))
    (by
      rintro _ b bs ⟨i, n, ⟨hnil, -⟩ | ⟨-, rfl, hword, hcr, hlf⟩⟩
      · cases hnil
      rw [List.mem_cons, not_or] at hcr hlf
      have hnext : word[i + 1]? = some (lower b) := by
        have hhead := congrArg List.head? hword
        rwa [List.map_cons, List.head?_cons, List.head?_drop, eq_comm] at hhead
      have hrest : bs.map lower = word.drop (i + 1 + 1) := by
        have htail := congrArg List.tail hword
        rwa [List.map_cons, List.tail_cons, List.tail_drop] at htail
      have hfeed := hmatch i (n + 1) b (Ne.symm hcr.1) (Ne.symm hlf.1)
      refine ⟨q.inLine .headerValue (i + 1) (if bs = [] then found else hs) (n + 1), rfl, ?_, rfl,
        i + 1, n + 1, ?_⟩
      · refine hfeed.trans ?_
        have hlt := (List.getElem?_eq_some_iff.mp hnext).1
        have hlength : bs.length = word.length - (i + 1 + 1) := by
          simpa using congrArg List.length hrest
        have hlast : i + 1 + 1 = word.length ↔ bs = [] := by
          rw [← List.length_eq_zero_iff]
          omega
        by_cases hnil : bs = [] <;>
          simp [HttpParser.matching, HttpParser.inLine, hnext, hlast, hnil]
      · by_cases hnil : bs = []
        · exact .inl ⟨hnil, by rw [if_pos hnil]⟩
        · exact .inr ⟨hnil, by rw [if_neg hnil], hrest, hcr.2, hlf.2⟩)
    bs ⟨i, n, .inr ⟨hbs, rfl, hword, hline⟩⟩
  rcases hlast with ⟨-, rfl⟩ | ⟨hne, -⟩
  · exact ⟨j, m, hr⟩
  · exact absurd rfl hne

/-- A value that is a word. -/
theorem feeds_value_word {q : HttpParser} {i n : Nat} (word : Bytes) (hs hs' found : HeaderState)
    {b : UInt8} {bs : Bytes} (hb : ¬ (b = 32 ∨ b = 9))
    (hline : (13 : UInt8) ∉ b :: bs ∧ (10 : UInt8) ∉ b :: bs) (hbs : bs ≠ [])
    (hstart : ∀ n, (q.inLine .headerValueDiscardWs i hs n).headerValueStart b =
      (q.inLine .headerValue 0 hs' n).next [.mark .headerValue])
    (hmatch : ∀ i n b, b ≠ 13 → b ≠ 10 → (q.inLine .headerValue i hs' n).headerValue b =
      ((q.inLine .headerValue i hs' n).matching word found (lower b)).next [])
    (hword : bs.map lower = word.drop 1) :
    ∃ j m, Feeds (q.inLine .headerValueDiscardWs i hs n) (b :: bs)
      (q.inLine .headerValue j found m) [.data .headerValue (b :: bs)] := by
  obtain ⟨hcr, hlf⟩ := hline
  rw [List.mem_cons, not_or] at hcr hlf
  have hfirst : (q.inLine .headerValueDiscardWs i hs (n + 1)).feed b =
      (q.inLine .headerValue 0 hs' (n + 1)).next [.mark .headerValue] := by
    change (q.inLine .headerValueDiscardWs i hs (n + 1)).headerValueDiscardWs b = _
    rw [HttpParser.headerValueDiscardWs, if_neg hb, if_neg (Ne.symm hcr.1),
      if_neg (Ne.symm hlf.1), hstart]
  have hbyte := Feeds.byte (p := q.inLine .headerValueDiscardWs i hs n) rfl hfirst (by simp)
  obtain ⟨j, m, hrest⟩ := feeds_word hmatch hbs ⟨hcr.2, hlf.2⟩ hword
  exact ⟨j, m, (hbyte.trans hrest).same (same_marked _ b bs)⟩

/-- **A connection that stays open, or not**, in any case of the letters. -/
theorem line_connection (h : p.state.startsLine = true) (keep : Bool) {value : Bytes}
    (hvalue : value.map lower = if keep then ascii "keep-alive" else ascii "close")
    (hline : (13 : UInt8) ∉ value ∧ (10 : UInt8) ∉ value) :
    ∃ q, Line p (ascii "Connection" ++ ascii ": " ++ value ++ crlf) q
        [.data .headerField (ascii "Connection"), .data .headerValue value] ∧
      q.core = { p.core with
        flags := if keep then { p.core.flags with connectionKeepAlive := true }
          else { p.core.flags with connectionClose := true } } := by
  obtain ⟨m, hfield⟩ := feeds_field h (ascii "Connection") (by decide) (by decide)
  have hknown : (scanName (toLower (ascii "Connection"))).2 = .connection := by decide
  rw [hknown] at hfield
  generalize (scanName (toLower (ascii "Connection"))).1 = i at hfield
  have hend (j n : Nat) (hs : HeaderState) : Feeds (p.settled.inLine .headerValue j hs n) crlf
      (p.settled.inLine .headerValueLws j hs (n + 2)) [] := .of_eq rfl
  match value, keep with
  | [], true | [], false => cases hvalue
  | b :: bs, true =>
    obtain ⟨hb, hbs⟩ : lower b = 107 ∧ bs.map lower = (ascii "keep-alive").drop 1 :=
      List.cons.inj hvalue
    obtain ⟨j, n, hfeeds⟩ := feeds_value_word (q := p.settled) (i := i) (n := m)
      (ascii "keep-alive") .connection .matchingConnectionKeepAlive .connectionKeepAlive
      (by rintro (rfl | rfl) <;> cases hb) hline
      (by rintro rfl; cases hbs)
      (fun n => by simp [HttpParser.headerValueStart, HttpParser.inLine, hb])
      (fun i n b hcr hlf => by
        rw [HttpParser.headerValue, if_neg hcr, if_neg hlf]
        rfl) hbs
    refine ⟨_, ⟨rfl, _, (hfield.trans hfeeds).trans (hend ..), ?_⟩, rfl⟩
    simpa [HttpParser.owed, HttpParser.inLine] using Same.refl _
  | b :: bs, false =>
    obtain ⟨hb, hbs⟩ : lower b = 99 ∧ bs.map lower = (ascii "close").drop 1 :=
      List.cons.inj hvalue
    obtain ⟨j, n, hfeeds⟩ := feeds_value_word (q := p.settled) (i := i) (n := m)
      (ascii "close") .connection .matchingConnectionClose .connectionClose
      (by rintro (rfl | rfl) <;> cases hb) hline
      (by rintro rfl; cases hbs)
      (fun n => by simp [HttpParser.headerValueStart, HttpParser.inLine, hb])
      (fun i n b hcr hlf => by
        rw [HttpParser.headerValue, if_neg hcr, if_neg hlf]
        rfl) hbs
    refine ⟨_, ⟨rfl, _, (hfield.trans hfeeds).trans (hend ..), ?_⟩, rfl⟩
    simpa [HttpParser.owed, HttpParser.inLine] using Same.refl _

end Lines

end FiberProxy.Http.ByteParser
