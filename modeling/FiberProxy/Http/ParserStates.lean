/-
  FiberProxy.Http.ParserStates

  What the states of `http_parser` stand for.  `Inv` says what each state relies on: with
  it no `assert` of `http_parser_execute` fails, the length of a body stays below its
  limit, and a method is not compared beyond its end.  `Tracks` says which part of a
  message is marked in a state: at most one, and the callbacks come in the order of the
  bytes.

  Both are shown for one byte at a time, state by state (`good_feed`).
-/

import FiberProxy.Http.HttpParser

namespace FiberProxy.Http.ByteParser

open Lib

/-- The states of a header name. -/
def HeaderState.ofName : HeaderState → Bool
  | .matchingTransferEncodingChunked | .matchingConnectionKeepAlive | .matchingConnectionClose
  | .transferEncodingChunked | .connectionKeepAlive | .connectionClose => false
  | _ => true

/-- The part that is marked in a state at the beginning of a read. -/
def HttpState.part? : HttpState → Option Part
  | .headerField => some .headerField
  | .headerValue => some .headerValue
  | .resStatus => some .status
  | .url u => if u = .spacesBeforeUrl then none else some .url
  | _ => none

/-- A state that relies on nothing. -/
def HttpState.plain : HttpState → Bool
  | .headerField | .headerValue | .reqMethod | .bodyIdentity | .chunkSizeStart | .chunkSize
  | .chunkParameters | .chunkSizeAlmostDone | .chunkData | .chunkDataAlmostDone
  | .chunkDataDone => false
  | _ => true

namespace HttpParser

/-- What the state relies on. -/
def Relies (p : HttpParser) : Prop :=
  match p.state with
  | .reqMethod => p.index ≤ p.method.string.length
  | .headerField => p.headerState.ofName = true
  | .headerValue => p.headerState ≠ .connection ∧ p.headerState ≠ .transferEncoding
  | .bodyIdentity => p.contentLength ≠ 0 ∧ p.contentLength ≠ ullongMax
  | .chunkSizeStart => p.nread = 0 ∧ p.flags.chunked = true
  | .chunkSize | .chunkParameters | .chunkSizeAlmostDone =>
    p.flags.chunked = true ∧ p.contentLength ≠ ullongMax
  | .chunkData => p.flags.chunked = true ∧ p.contentLength ≠ 0 ∧ p.contentLength ≠ ullongMax
  | .chunkDataAlmostDone => p.flags.chunked = true ∧ p.contentLength = 0
  | .chunkDataDone => p.flags.chunked = true
  | _ => True

structure Inv (p : HttpParser) : Prop where
  errno : p.errno = .ok
  length : p.contentLength ≤ ullongMax
  relies : p.Relies

theorem relies_of_plain {p : HttpParser} (h : p.state.plain = true) : p.Relies := by
  unfold Relies
  cases hs : p.state <;> first | trivial | simp [hs, HttpState.plain] at h

end HttpParser

/-! ## Which part is marked -/

/-- Which part is marked after some acts.  A part is not marked over another one, and is
    handed over before anything else is reported.  The end of a message comes last. -/
def tracks : Option Part → List Act → Option (Option Part)
  | cur, [] => some cur
  | cur, .mark part :: acts =>
    if cur = none ∨ cur = some part then tracks (some part) acts else none
  | cur, .data part :: acts =>
    if cur = none ∨ cur = some part then tracks none acts else none
  | cur, .messageComplete :: acts => if cur = none ∧ acts = [] then some none else none
  | cur, _ :: acts => if cur = none then tracks none acts else none

theorem tracks_append {cur cur' : Option Part} {xs : List Act} (h : tracks cur xs = some cur')
    (hopen : .messageComplete ∉ xs) (ys : List Act) :
    tracks cur (xs ++ ys) = tracks cur' ys := by
  induction xs generalizing cur with
  | nil => rw [← Option.some.inj h, List.nil_append]
  | cons x xs ih =>
    have hopen' : .messageComplete ∉ xs := fun hmem => hopen (List.mem_cons_of_mem _ hmem)
    cases x with
    | messageComplete => exact absurd (List.mem_cons_self ..) hopen
    | mark | data | messageBegin | headersComplete =>
      obtain ⟨hcur, h⟩ := Option.ite_none_right_eq_some.mp h
      simpa only [List.cons_append, tracks, hcur, if_true] using ih h hopen'

theorem tracks_complete {cur cur' : Option Part} {acts : List Act}
    (h : tracks cur acts = some cur') (hdone : .messageComplete ∈ acts) : cur' = none := by
  induction acts generalizing cur with
  | nil => simp at hdone
  | cons x xs ih =>
    cases x with
    | messageComplete =>
      obtain ⟨-, h⟩ := Option.ite_none_right_eq_some.mp h
      exact (Option.some.inj h).symm
    | mark | data | messageBegin | headersComplete =>
      obtain ⟨-, h⟩ := Option.ite_none_right_eq_some.mp h
      exact ih h (by simpa using hdone)

/-- What a byte does keeps the parser in order. -/
structure Fed.Good (cur : Option Part) (f : Fed) : Prop where
  inv : f.verdict ≠ .error → f.parser.Inv
  failed : f.verdict = .error → f.parser.errno ≠ .ok ∧ f.parser.errno ≠ .cbMessageComplete
  exits : f.verdict = .exit → .messageComplete ∈ f.acts
  tracked : f.verdict ≠ .error → tracks cur f.acts = some f.parser.state.part?
  tracks : (tracks cur f.acts).isSome = true
  late : f.late = []

namespace HttpParser

variable {p q : HttpParser} {cur : Option Part} {acts : List Act} {ch : UInt8}

theorem good_next (h : q.Inv) (ht : tracks cur acts = some q.state.part?) :
    (q.next acts).Good cur where
  inv _ := h
  failed := nofun
  exits := nofun
  tracked _ := ht
  tracks := by simp [next, ht]
  late := rfl

/-- A step into a state that relies on nothing. -/
theorem good_plain (hs : q.state.plain = true) (he : q.errno = .ok)
    (hl : q.contentLength ≤ ullongMax) (ht : tracks cur acts = some q.state.part?) :
    (q.next acts).Good cur :=
  good_next ⟨he, hl, relies_of_plain hs⟩ ht

theorem good_fail {e : HttpErrno} (he : e ≠ .ok ∧ e ≠ .cbMessageComplete)
    (ht : (tracks cur acts).isSome = true) :
    (q.fail e acts).Good cur where
  inv h := absurd rfl h
  failed _ := he
  exits := nofun
  tracked h := absurd rfl h
  tracks := ht
  late := rfl

theorem good_expect {c : UInt8} {f : Fed} (ht : (tracks cur acts).isSome = true)
    (h : f.Good cur) : (q.expect ch c acts f).Good cur := by
  unfold expect
  split
  · exact h
  · exact good_fail (by simp) ht

theorem newMessage_plain (p : HttpParser) :
    p.newMessage.plain = true ∧ p.newMessage.part? = none := by
  unfold newMessage startState
  split
  · split <;> exact ⟨rfl, rfl⟩
  · exact ⟨rfl, rfl⟩

theorem good_complete (he : q.errno = .ok) (hl : q.contentLength ≤ ullongMax)
    (ht : tracks cur acts = some none) (hopen : .messageComplete ∉ acts) :
    (q.complete acts).Good cur := by
  obtain ⟨hplain, hpart⟩ := newMessage_plain q
  refine good_plain hplain he hl ?_
  rw [tracks_append ht hopen]
  simp [ByteParser.tracks, goto, hpart]

/-! ## The states of a header -/

theorem good_headersDone (h : p.errno = .ok) (hl : p.contentLength ≤ ullongMax)
    (ht : tracks cur acts = some none) (hopen : .messageComplete ∉ acts) :
    (p.headersDone ch acts).Good cur := by
  have hcomplete : (({ p with nread := 0 } : HttpParser).complete acts).Good cur :=
    good_complete h hl ht hopen
  unfold headersDone
  refine good_expect (by simp [ht]) ?_
  split
  · exact ⟨fun _ => hcomplete.inv (by simp [complete, next]), nofun,
      fun _ => by simp [complete, next], fun _ => hcomplete.tracked (by simp [complete, next]),
      hcomplete.tracks, rfl⟩
  split
  · exact hcomplete
  split
  · rename_i hchunked
    exact good_next ⟨h, hl, rfl, hchunked⟩ ht
  split
  · exact hcomplete
  split
  · rename_i hzero hmax
    exact good_next ⟨h, hl, hzero, hmax⟩ ht
  split
  · exact hcomplete
  · exact good_plain rfl h hl ht

theorem good_headersAlmostDone (h : p.errno = .ok) (hl : p.contentLength ≤ ullongMax)
    (ht : tracks cur acts = some none) (hopen : .messageComplete ∉ acts) :
    (p.headersAlmostDone ch acts).Good cur := by
  unfold headersAlmostDone
  refine good_expect (by simp [ht]) ?_
  split
  · exact good_complete h hl ht hopen
  · refine good_headersDone h hl ?_ (by simpa using hopen)
    rw [tracks_append ht hopen]
    rfl

theorem firstHeaderState_ofName (c : UInt8) : (firstHeaderState c).ofName = true := by
  unfold firstHeaderState
  repeat' split
  all_goals rfl

theorem good_headerFieldStart (h : p.errno = .ok) (hl : p.contentLength ≤ ullongMax)
    (ht : tracks cur acts = some none) (hopen : .messageComplete ∉ acts) :
    (p.headerFieldStart ch acts).Good cur := by
  unfold headerFieldStart
  split
  · exact good_plain rfl h hl ht
  split
  · exact good_headersAlmostDone h hl ht hopen
  split
  · exact good_fail (by simp) (by simp [ht])
  · refine good_next ⟨h, hl, firstHeaderState_ofName _⟩ ?_
    rw [tracks_append ht hopen]
    rfl

/-- Matching writes the index and the header state only. -/
theorem matching_eq (p : HttpParser) (word : Bytes) (found : HeaderState) (c : UInt8) :
    ∃ i hs, p.matching word found c = { p with index := i, headerState := hs } ∧
      (hs = .general ∨ hs = found ∨ hs = p.headerState) := by
  unfold matching
  dsimp only
  split
  · exact ⟨_, _, rfl, .inl rfl⟩
  split
  · exact ⟨_, _, rfl, .inr (.inl rfl)⟩
  · exact ⟨_, _, rfl, .inr (.inr rfl)⟩

/-- A name stays a name. -/
theorem matchName_eq (p : HttpParser) (h : p.headerState.ofName = true) (ch c : UInt8) :
    ∃ i hs, p.matchName ch c = { p with index := i, headerState := hs } ∧ hs.ofName = true := by
  have hword {word : Bytes} {found : HeaderState} (hfound : found.ofName = true) :
      ∃ i hs, p.matching word found c = { p with index := i, headerState := hs } ∧
        hs.ofName = true := by
    obtain ⟨i, hs, heq, hcases⟩ := matching_eq p word found c
    refine ⟨i, hs, heq, ?_⟩
    rcases hcases with rfl | rfl | rfl
    · rfl
    · exact hfound
    · exact h
  unfold matchName
  split
  · exact ⟨p.index, p.headerState, rfl, h⟩
  · refine ⟨p.index + 1, _, rfl, ?_⟩
    split <;> rfl
  · refine ⟨p.index + 1, _, rfl, ?_⟩
    split <;> rfl
  · refine ⟨p.index + 1, _, rfl, ?_⟩
    repeat' split
    all_goals rfl
  -- the five words
  iterate 5
    · exact hword rfl
  -- a word is over, and the name goes on
  iterate 4
    · split
      · exact ⟨p.index, p.headerState, rfl, h⟩
      · exact ⟨p.index, .general, rfl, rfl⟩
  · exact ⟨p.index, p.headerState, rfl, h⟩

theorem good_headerField (h : p.Inv) (hs : p.state = .headerField) :
    (p.headerField ch).Good (some .headerField) := by
  have hname : p.headerState.ofName = true := by simpa [Relies, hs] using h.relies
  unfold headerField
  split
  · rename_i c hc
    obtain ⟨i, st, heq, hst⟩ := matchName_eq p hname ch c
    rw [heq]
    exact good_next ⟨h.errno, h.length, by simpa [Relies, hs] using hst⟩ (by simp [hs, tracks,
      HttpState.part?])
  split
  · exact good_plain rfl h.errno h.length rfl
  split
  · exact good_plain rfl h.errno h.length rfl
  split
  · exact good_plain rfl h.errno h.length rfl
  · exact good_fail (by simp) rfl

theorem digitOf_lt (h : isNum ch = true) : digitOf ch < 10 := by
  simp only [isNum, Bool.and_eq_true, decide_eq_true_eq, UInt8.le_iff_toNat_le,
    UInt8.reduceToNat] at h
  simp only [digitOf]
  omega

theorem good_headerValueStart (he : p.errno = .ok) (hl : p.contentLength ≤ ullongMax) :
    (p.headerValueStart ch).Good none := by
  have hgood {q : HttpParser} (hs : q.state = .headerValue) (he : q.errno = .ok)
      (hl : q.contentLength ≤ ullongMax)
      (hhs : q.headerState ≠ .connection ∧ q.headerState ≠ .transferEncoding) :
      (q.next [.mark .headerValue]).Good none :=
    good_next ⟨he, hl, by simpa [Relies, hs] using hhs⟩ (by simp [tracks, hs, HttpState.part?])
  unfold headerValueStart
  dsimp only
  split
  · exact hgood rfl he hl (by simp)
  · refine hgood rfl he hl ?_
    dsimp only
    split <;> simp
  · split
    · rename_i hnum
      have hlt := digitOf_lt hnum
      rename_i hstate
      refine hgood rfl he ?_ (by simp [hstate])
      simp only [ullongMax]
      omega
    · exact good_fail (by simp) rfl
  · refine hgood rfl he hl ?_
    dsimp only
    repeat' split
    all_goals simp
  · exact hgood rfl he hl (by simp)

theorem good_headerAlmostDone (he : p.errno = .ok) (hl : p.contentLength ≤ ullongMax)
    (ht : tracks cur acts = some none) : (p.headerAlmostDone ch acts).Good cur :=
  good_expect (by simp [ht]) (good_plain rfl he hl ht)

theorem good_headerValue (h : p.Inv) (hs : p.state = .headerValue) :
    (p.headerValue ch).Good (some .headerValue) := by
  have hgood {q : HttpParser} (hqs : q.state = .headerValue) (he : q.errno = .ok)
      (hl : q.contentLength ≤ ullongMax)
      (hhs : q.headerState ≠ .connection ∧ q.headerState ≠ .transferEncoding) :
      (q.next []).Good (some .headerValue) :=
    good_next ⟨he, hl, by simpa [Relies, hqs] using hhs⟩ (by simp [tracks, hqs, HttpState.part?])
  have hrely : p.headerState ≠ .connection ∧ p.headerState ≠ .transferEncoding := by
    simpa [Relies, hs] using h.relies
  have hword {word : Bytes} {found : HeaderState}
      (hfound : found ≠ .connection ∧ found ≠ .transferEncoding) {c : UInt8} :
      ((p.matching word found c).next []).Good (some .headerValue) := by
    obtain ⟨i, st, heq, hcases⟩ := matching_eq p word found c
    rw [heq]
    refine hgood hs h.errno h.length ?_
    rcases hcases with rfl | rfl | rfl
    · simp
    · exact hfound
    · exact hrely
  unfold headerValue
  split
  · exact good_plain rfl h.errno h.length rfl
  split
  · exact good_headerAlmostDone h.errno h.length rfl
  split
  · exact hgood hs h.errno h.length hrely
  · unfold lengthDigit
    split
    · exact hgood hs h.errno h.length hrely
    split
    · split
      · exact good_fail (by simp) rfl
      · rename_i hnum hle
        have hlt := digitOf_lt hnum
        refine hgood hs h.errno ?_ hrely
        simp only [ullongMax] at hle ⊢
        omega
    · exact good_fail (by simp) rfl
  iterate 3
    · exact hword (by simp)
  -- a word is over, and the value goes on
  iterate 3
    · split
      · exact hgood hs h.errno h.length hrely
      · exact hgood hs h.errno h.length (by simp)
  · exact hgood hs h.errno h.length hrely
  · exact hgood hs h.errno h.length hrely
  · exact hgood hs h.errno h.length (by simp)

theorem good_headerValueLws (he : p.errno = .ok) (hl : p.contentLength ≤ ullongMax) :
    (p.headerValueLws ch).Good none := by
  unfold headerValueLws
  split
  · exact good_headerValueStart he hl
  · exact good_headerFieldStart he hl rfl (by simp)

theorem good_headerValueDiscardWs (he : p.errno = .ok) (hl : p.contentLength ≤ ullongMax)
    (hs : p.state = .headerValueDiscardWs) : (p.headerValueDiscardWs ch).Good none := by
  unfold headerValueDiscardWs
  split
  · exact good_plain (by rw [hs]; rfl) he hl (by rw [hs]; rfl)
  split
  · exact good_plain rfl he hl rfl
  split
  · exact good_plain rfl he hl rfl
  · exact good_headerValueStart he hl

theorem good_headerValueDiscardLws (he : p.errno = .ok) (hl : p.contentLength ≤ ullongMax) :
    (p.headerValueDiscardLws ch).Good none := by
  unfold headerValueDiscardLws
  split
  · exact good_plain rfl he hl rfl
  · exact good_headerFieldStart he hl rfl (by simp)

/-! ## The states of a first line -/

theorem firstMethod_length {m : HttpMethod} (h : firstMethod ch = some m) :
    1 ≤ m.string.length := by
  cases m <;> decide

theorem good_startReq (he : p.errno = .ok) (hl : p.contentLength ≤ ullongMax)
    (hs : p.state = .startReq) : (p.startReq ch).Good none := by
  unfold startReq
  split
  · exact good_plain (by rw [hs]; rfl) he hl (by rw [hs]; rfl)
  split
  · exact good_fail (by simp) rfl
  · exact good_next ⟨he, le_rfl, firstMethod_length ‹_›⟩ rfl

theorem otherMethod_length {m m' : HttpMethod} {i : Nat} (h : otherMethod m i ch = some m') :
    i + 1 ≤ m'.string.length := by
  unfold otherMethod at h
  repeat' split at h
  all_goals first
    | (obtain rfl := Option.some.inj h; rename_i hi; rw [hi.1]; decide)
    | cases h

theorem good_reqMethod (h : p.Inv) (hs : p.state = .reqMethod) : (p.reqMethod ch).Good none := by
  unfold reqMethod
  dsimp only
  split
  · exact good_plain rfl h.errno h.length rfl
  split
  · rename_i hch
    have hlt := (List.getElem?_eq_some_iff.mp hch).1
    refine good_next ⟨h.errno, h.length, ?_⟩ (by simp [hs, tracks, HttpState.part?])
    simpa [Relies, hs, Nat.succ_le_iff] using hlt
  split
  · exact good_fail (by simp) rfl
  · rename_i m hm
    refine good_next ⟨h.errno, h.length, ?_⟩ (by simp [hs, tracks, HttpState.part?])
    simpa [Relies, hs] using otherMethod_length hm

theorem parseUrlChar_ne (u : UrlState) (ch : UInt8) :
    parseUrlChar u ch ≠ some .spacesBeforeUrl := by
  unfold parseUrlChar serverChar
  repeat' split
  all_goals simp

theorem good_urlChar (he : p.errno = .ok) (hl : p.contentLength ≤ ullongMax) {u : UrlState}
    (ht : tracks cur acts = some (some .url)) : (p.urlChar u ch acts).Good cur := by
  unfold urlChar
  split
  · exact good_fail (by simp) (by simp [ht])
  · rename_i u' hu
    -- no character leads back in front of the target
    have hne : u' ≠ .spacesBeforeUrl := by
      rintro rfl
      exact absurd hu (parseUrlChar_ne u ch)
    exact good_plain rfl he hl (by simp [ht, goto, HttpState.part?, hne])

theorem good_reqUrl (he : p.errno = .ok) (hl : p.contentLength ≤ ullongMax) {u : UrlState}
    (hs : p.state = .url u) : (p.reqUrl u ch).Good (HttpState.url u).part? := by
  unfold reqUrl
  split
  · rename_i hu
    subst hu
    split
    · exact good_plain (by rw [hs]; rfl) he hl (by rw [hs]; rfl)
    · exact good_urlChar he hl rfl
  · rename_i hu
    have hcur : (HttpState.url u).part? = some .url := by simp [HttpState.part?, hu]
    rw [hcur]
    split
    · split
      · exact good_plain rfl he hl rfl
      split
      · refine good_plain ?_ he hl ?_
        · dsimp only
          split <;> rfl
        · dsimp only
          split <;> rfl
      · exact good_urlChar he hl rfl
    · split
      · exact good_fail (by simp) rfl
      · exact good_urlChar he hl rfl

theorem good_majorDigit (he : p.errno = .ok) (hl : p.contentLength ≤ ullongMax)
    (hs : p.state.plain = true) (hpart : p.state.part? = none) : (p.majorDigit ch).Good none := by
  unfold majorDigit
  dsimp only
  split
  · split
    · exact good_fail (by simp) rfl
    · exact good_plain hs he hl (by rw [hpart]; rfl)
  · exact good_fail (by simp) rfl

theorem good_minorDigit (he : p.errno = .ok) (hl : p.contentLength ≤ ullongMax)
    (hs : p.state.plain = true) (hpart : p.state.part? = none) : (p.minorDigit ch).Good none := by
  unfold minorDigit
  dsimp only
  split
  · split
    · exact good_fail (by simp) rfl
    · exact good_plain hs he hl (by rw [hpart]; rfl)
  · exact good_fail (by simp) rfl

theorem good_resStatusCode (he : p.errno = .ok) (hl : p.contentLength ≤ ullongMax)
    (hs : p.state = .resStatusCode) : (p.resStatusCode ch).Good none := by
  unfold resStatusCode
  dsimp only
  split
  · split
    · exact good_fail (by simp) rfl
    · exact good_plain (by rw [hs]; rfl) he hl (by rw [hs]; rfl)
  split
  · exact good_plain rfl he hl rfl
  split
  · exact good_plain rfl he hl rfl
  split
  · exact good_plain rfl he hl rfl
  · exact good_fail (by simp) rfl

/-! ## The states of a chunk -/

theorem unhex_lt {v : Nat} (h : unhex ch = some v) : v < 16 := by
  unfold unhex at h
  simp only [Bool.and_eq_true, decide_eq_true_eq, UInt8.le_iff_toNat_le, UInt8.reduceToNat] at h
  split at h
  · rename_i hnum
    have hlt := digitOf_lt hnum
    obtain rfl := Option.some.inj h
    omega
  split at h
  · obtain rfl := Option.some.inj h
    omega
  split at h
  · obtain rfl := Option.some.inj h
    omega
  split at h
  · obtain rfl := Option.some.inj h
    omega
  · cases h

theorem good_chunkSizeStart (he : p.errno = .ok) (hchunked : p.flags.chunked = true) :
    (p.chunkSizeStart ch).Good none := by
  unfold chunkSizeStart
  split
  · exact good_fail (by simp) rfl
  · rename_i v hv
    have hlt := unhex_lt hv
    refine good_next ⟨he, ?_, hchunked, ?_⟩ rfl
    · simp only [ullongMax]
      omega
    · simp only [ullongMax]
      omega

theorem good_chunkSize (h : p.Inv) (hs : p.state = .chunkSize) : (p.chunkSize ch).Good none := by
  obtain ⟨hchunked, hmax⟩ : p.flags.chunked = true ∧ p.contentLength ≠ ullongMax := by
    simpa [Relies, hs] using h.relies
  unfold chunkSize
  split
  · exact good_next ⟨h.errno, h.length, hchunked, hmax⟩ rfl
  split
  · split
    · exact good_next ⟨h.errno, h.length, hchunked, hmax⟩ rfl
    · exact good_fail (by simp) rfl
  · rename_i v hv
    have hlt := unhex_lt hv
    split
    · exact good_fail (by simp) rfl
    · rename_i hle
      simp only [ullongMax] at hle
      have hfits : p.contentLength * 16 + v < ullongMax := by
        simp only [ullongMax]
        omega
      refine good_next ⟨h.errno, hfits.le, ?_⟩ (by simp [hs, tracks, HttpState.part?])
      simpa [Relies, hs, hchunked] using hfits.ne

theorem good_chunkSizeAlmostDone (h : p.Inv) (hs : p.state = .chunkSizeAlmostDone) :
    (p.chunkSizeAlmostDone ch).Good none := by
  obtain ⟨hchunked, hmax⟩ : p.flags.chunked = true ∧ p.contentLength ≠ ullongMax := by
    simpa [Relies, hs] using h.relies
  unfold chunkSizeAlmostDone
  refine good_expect rfl ?_
  split
  · exact good_plain rfl h.errno h.length rfl
  · rename_i hzero
    exact good_next ⟨h.errno, h.length, hchunked, hzero, hmax⟩ rfl

/-! ## A byte -/

/-- The states whose bytes are taken together. -/
def takesBody : HttpState → Bool
  | .bodyIdentity | .bodyIdentityEof | .chunkData => true
  | _ => false

/-- The part that may be marked in a state: also that of a body, once a byte of it has been
    read. -/
def Marked (s : HttpState) (cur : Option Part) : Prop :=
  cur = s.part? ∨ cur = some .body ∧ (takesBody s = true ∨ s = .chunkDataAlmostDone)

/-- Counting a byte matters to the first state of a chunk only. -/
theorem count_eq (p : HttpParser) : ∃ n, p.count = { p with nread := n } := by
  unfold count
  split
  · exact ⟨_, rfl⟩
  · exact ⟨p.nread, rfl⟩

theorem Inv.count (h : p.Inv) (hs : p.state ≠ .chunkSizeStart) : p.count.Inv := by
  obtain ⟨n, hn⟩ := count_eq p
  rw [hn]
  refine ⟨h.errno, h.length, ?_⟩
  have hrel := h.relies
  unfold Relies at hrel ⊢
  cases hstate : p.state <;> simp_all

/-- A constant of a first line, or the end of a line. -/
theorem good_expect_goto (h : p.Inv) {c : UInt8} {t : HttpState} (ht : t.plain = true)
    (hpart : t.part? = none) : (p.expect ch c [] ((p.goto t).next [])).Good none :=
  good_expect rfl (good_plain ht h.errno h.length (by simp [goto, hpart, tracks]))

theorem good_goto (h : p.Inv) {t : HttpState} (ht : t.plain = true) (hpart : t.part? = none) :
    ((p.goto t).next []).Good none :=
  good_plain ht h.errno h.length (by simp [goto, hpart, tracks])

/-- The parser stays where it is. -/
theorem good_stay (h : p.Inv) (hpart : p.state.part? = cur) : (p.next []).Good cur :=
  good_next h (by simp [tracks, hpart])

/-- **One byte keeps the parser in order.** -/
theorem good_feed (h : p.Inv) (hm : Marked p.state cur) (hbody : takesBody p.state = false)
    (hstart : p.state ≠ .chunkSizeStart) : (p.feed ch).Good cur := by
  have he := h.errno
  have hl := h.length
  have hrel := h.relies
  rcases hm with rfl | ⟨rfl, hb | hs⟩
  rotate_left
  · simp [hbody] at hb
  · -- the part of the body ends with the chunk
    have hchunked : p.flags.chunked = true := by
      simp only [Relies, hs] at hrel
      exact hrel.1
    simp only [feed, hs]
    exact good_expect rfl (good_next ⟨he, hl, hchunked⟩ rfl)
  cases hs : p.state
  all_goals simp only [feed, hs]
  all_goals simp only [Relies, hs] at hrel
  case dead =>
    split
    · exact good_stay h (by rw [hs])
    · exact good_fail (by simp) rfl
  case startReqOrRes =>
    split
    · exact good_stay h (by rw [hs])
    split
    · exact good_plain rfl he le_rfl rfl
    · exact good_startReq he le_rfl rfl
  case resOrRespH =>
    split
    · exact good_plain rfl he hl rfl
    split
    · exact good_next ⟨he, hl, by simp [Relies, HttpMethod.string, ascii]⟩ rfl
    · exact good_fail (by simp) rfl
  case startRes =>
    split
    · exact good_plain rfl he le_rfl rfl
    split
    · exact good_plain (by simp [fresh, hs, HttpState.plain]) he le_rfl
        (by simp [fresh, hs, HttpState.part?, tracks])
    · exact good_fail (by simp) rfl
  case resFirstHttpMajor | resFirstHttpMinor | reqFirstHttpMajor | reqFirstHttpMinor =>
    split
    · exact good_plain rfl he hl rfl
    · exact good_fail (by simp) rfl
  case resHttpMajor | reqHttpMajor =>
    split
    · exact good_goto h rfl rfl
    · exact good_majorDigit he hl (by rw [hs]; rfl) (by rw [hs]; rfl)
  case resHttpMinor =>
    split
    · exact good_goto h rfl rfl
    · exact good_minorDigit he hl (by rw [hs]; rfl) (by rw [hs]; rfl)
  case resFirstStatusCode =>
    split
    · exact good_plain rfl he hl rfl
    split
    · exact good_stay h (by rw [hs])
    · exact good_fail (by simp) rfl
  case resStatusCode => exact good_resStatusCode he hl hs
  case resStatusStart =>
    split
    · exact good_goto h rfl rfl
    split
    · exact good_goto h rfl rfl
    · exact good_plain rfl he hl rfl
  case resStatus =>
    split
    · exact good_plain rfl he hl rfl
    split
    · exact good_plain rfl he hl rfl
    · exact good_stay h (by rw [hs])
  case startReq => exact good_startReq he hl hs
  case reqMethod => exact good_reqMethod h hs
  case url u => exact good_reqUrl he hl hs
  case reqHttpStart =>
    split
    · exact good_goto h rfl rfl
    split
    · exact good_stay h (by rw [hs])
    · exact good_fail (by simp) rfl
  case reqHttpMinor =>
    split
    · exact good_goto h rfl rfl
    split
    · exact good_goto h rfl rfl
    · exact good_minorDigit he hl (by rw [hs]; rfl) (by rw [hs]; rfl)
  case reqLineAlmostDone =>
    split
    · exact good_goto h rfl rfl
    · exact good_fail (by simp) rfl
  case headerFieldStart => exact good_headerFieldStart he hl rfl (by simp)
  case headerField => exact good_headerField h hs
  case headerValueDiscardWs => exact good_headerValueDiscardWs he hl hs
  case headerValueDiscardLws => exact good_headerValueDiscardLws he hl
  case headerValueStart => exact good_headerValueStart he hl
  case headerValue => exact good_headerValue h hs
  case headerValueLws => exact good_headerValueLws he hl
  case headerAlmostDone => exact good_headerAlmostDone he hl rfl
  case chunkSizeStart => exact absurd hs hstart
  case chunkSize => exact good_chunkSize h hs
  case chunkParameters =>
    split
    · exact good_next ⟨he, hl, hrel⟩ rfl
    · exact good_stay h (by rw [hs])
  case chunkSizeAlmostDone => exact good_chunkSizeAlmostDone h hs
  case headersAlmostDone => exact good_headersAlmostDone he hl rfl (by simp)
  case headersDone => exact good_headersDone he hl rfl (by simp)
  case chunkDataAlmostDone => exact good_expect rfl (good_next ⟨he, hl, hrel.1⟩ rfl)
  case chunkDataDone => exact good_expect rfl (good_next ⟨he, hl, rfl, hrel⟩ rfl)
  case messageDone => exact good_complete he hl rfl (by simp)
  case bodyIdentity | bodyIdentityEof | chunkData => simp [hs, takesBody] at hbody
  all_goals exact good_expect_goto h rfl rfl

end HttpParser

end FiberProxy.Http.ByteParser
