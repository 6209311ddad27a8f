/-
  FiberProxy.Http.AnswerReads

  What the response parser makes of the octets of an answer.  `execute_append` says
  that a stream cut into reads is parsed like the stream, as long as no message is
  complete; so it is enough to know the parser after the first octets `w` of an
  answer, for every `w`.  It then holds no complete response, or the final one at
  the very end, or `w` ends with an interim response that keeps the connection
  alive (`reads_answer`).  After the whole of an answer that the parser frames as
  HTTP does, it does hold the final response (`settled_answer`).
-/

import FiberProxy.Http.ResponseParser

namespace FiberProxy.Http

open Lib

/-! ## The parser's moves -/

section Moves

variable {i : ParserImpl} {h : Head}

theorem feed_start (hi : i.parser = .start) :
    feed i .start = .next { i.onMsgBegin with parser := .head } := by
  cases i
  cases hi
  rfl

theorem feed_head (hi : i.parser = .head) (b : UInt8) :
    feed i (.head b true) = .next { i with inStatus := false } := by
  cases i
  cases hi
  rfl

theorem feed_head_refused (hi : i.parser = .head) (b : UInt8) :
    feed i (.head b false) = .error { i with parser := .error } := by
  cases i
  cases hi
  rfl

theorem feed_reason (hi : i.parser = .head) (b : UInt8) :
    feed i (.reason b) = .next (i.onStatusComplete b) := by
  cases i
  cases hi
  rfl

theorem feed_headEnd (hi : i.parser = .head) (h : Head) :
    feed i (.headEnd h) = headersDone i h := by
  cases i
  cases hi
  rfl

theorem feed_body {left : Nat} (hi : i.parser = .body h (left + 1)) (b : UInt8) :
    feed i (.data b) = .next (if left = 0 then (i.onBody b).complete h
      else { i.onBody b with parser := .body h left }) := by
  cases i
  cases hi
  cases left <;> rfl

theorem feed_untilEof_byte (hi : i.parser = .untilEof h) (c : Octet) :
    feed i c = .next (i.onBody c.byte) := by
  cases i
  cases hi
  cases c <;> rfl

theorem feed_untilEof (hi : i.parser = .untilEof h) (b : UInt8) :
    feed i (.data b) = .next (i.onBody b) := feed_untilEof_byte hi (.data b)

theorem feed_chunks_data (hi : i.parser = .chunks h) (b : UInt8) :
    feed i (.data b) = .next (i.onBody b) := by
  cases i
  cases hi
  rfl

theorem feed_chunks_chunk (hi : i.parser = .chunks h) (b : UInt8) :
    feed i (.chunk b) = .next i := by
  cases i
  cases hi
  rfl

theorem feed_chunks_end (hi : i.parser = .chunks h) (persistent : Bool) :
    feed i (.chunksEnd persistent) = .next (i.complete { h with persistent := persistent }) := by
  cases i
  cases hi
  rfl

/-- A parser that is dead skips the ends of lines and stops at anything else. -/
theorem feed_dead (hi : i.parser = .dead) (c : Octet) :
    feed i c = .next i ∨ feed i c = .error { i with parser := .error } := by
  cases i
  cases hi
  show deadByte _ c = _ ∨ deadByte _ c = _
  unfold deadByte
  split
  · exact .inl rfl
  · exact .inr rfl

end Moves

/-! ## Reads one after another -/

theorem execute_next {i i' : ParserImpl} {c : Octet} (h : feed i c = .next i') (cs : List Octet) :
    execute i (c :: cs) = ((execute i' cs).1, (execute i' cs).2 + 1) := by
  simp only [execute, h]

theorem shouldContinue_of_headersDone {i i' : ParserImpl} {h : Head}
    (hexit : headersDone i h = .exit i') : i'.shouldContinue = false := by
  unfold headersDone at hexit
  split at hexit
  · obtain rfl := Fed.exit.inj hexit
    rfl
  · split at hexit <;> try simp at hexit
    split at hexit <;> simp at hexit

/-- Only the end of a message makes the parser leave early without an error. -/
theorem shouldContinue_of_exit {i i' : ParserImpl} {c : Octet} (h : feed i c = .exit i') :
    i'.shouldContinue = false := by
  unfold feed at h
  split at h
  case h_1 =>
    unfold startRes at h
    repeat' split at h
    all_goals simp at h
  case h_2 =>
    unfold deadByte at h
    split at h <;> simp at h
  case h_5 => exact shouldContinue_of_headersDone h
  case h_6 => split at h <;> simp at h
  all_goals simp at h

/-- **A cut changes nothing while no message is complete.** -/
theorem execute_append {i i' : ParserImpl} {u : List Octet}
    (hu : execute i u = (i', u.length)) (hi : i'.shouldContinue = true) (v : List Octet) :
    execute i (u ++ v) = ((execute i' v).1, (execute i' v).2 + u.length) := by
  induction u generalizing i with
  | nil =>
    obtain rfl : i = i' := congrArg Prod.fst hu
    rfl
  | cons c u ih =>
    cases hc : feed i c with
    | next j =>
      rw [execute_next hc] at hu
      have hj : execute j u = (i', u.length) := by
        have h₁ := congrArg Prod.fst hu
        have h₂ := congrArg Prod.snd hu
        simp only [List.length_cons, Nat.add_right_cancel_iff] at h₁ h₂
        exact Prod.ext h₁ h₂
      rw [List.cons_append, execute_next hc, ih hj]
      simp [Nat.add_assoc]
    | exit j =>
      simp only [execute, hc, List.length_cons, Prod.mk.injEq] at hu
      rw [← hu.1, shouldContinue_of_exit hc] at hi
      simp at hi
    | error j => simp [execute, hc] at hu

/-- All of the octets are taken, one after another. -/
inductive Passes : ParserImpl → List Octet → ParserImpl → Prop where
  | nil (i : ParserImpl) : Passes i [] i
  | cons {i j k : ParserImpl} {c : Octet} {cs : List Octet} (hc : feed i c = .next j)
      (hcs : Passes j cs k) : Passes i (c :: cs) k

theorem Passes.append {i j k : ParserImpl} {u v : List Octet} (hu : Passes i u j)
    (hv : Passes j v k) : Passes i (u ++ v) k := by
  induction hu with
  | nil i => exact hv
  | cons hc _ ih => exact .cons hc (ih hv)

theorem Passes.execute_fst {i j : ParserImpl} {u : List Octet} (hu : Passes i u j)
    (v : List Octet) : (execute i (u ++ v)).1 = (execute j v).1 := by
  induction hu with
  | nil i => rfl
  | cons hc _ ih => rw [List.cons_append, execute_next hc, ih]

theorem Passes.execute_self {i j : ParserImpl} {u : List Octet} (hu : Passes i u j) :
    (execute i u).1 = j := by
  simpa [execute] using hu.execute_fst []

/-! ## Inside a response -/

/-- No octet of the header is over the parser's limit. -/
def HeadText.accepted (t : HeadText) : Bool := t.fields.all (·.2)

/-- The parser inside a response of which it has read this much of the reason phrase
    and of the body. -/
structure Inside (parser : Parser) (cont : Bool) (reason body : Bytes) (i : ParserImpl) :
    Prop where
  parser : i.parser = parser
  rsp : i.rsp = { statusMessage := reason, body := body }
  cont : i.shouldContinue = cont

section Inside

variable {cont : Bool} {phrase body : Bytes} {i : ParserImpl} {h : Head}

theorem inside_start (hi : i.parser = .start) (hcont : i.shouldContinue = cont) :
    ∃ j, feed i .start = .next j ∧ Inside .head cont [] [] j ∧ j.inStatus = false := by
  exact ⟨_, feed_start hi, ⟨rfl, rfl, hcont⟩, rfl⟩

theorem Inside.version (hi : Inside .head cont phrase body i) (hs : i.inStatus = false)
    (bs : Bytes) :
    ∃ j, Passes i (bs.map (.head · true)) j ∧ Inside .head cont phrase body j ∧
      j.inStatus = false := by
  induction bs generalizing i with
  | nil => exact ⟨i, .nil i, hi, hs⟩
  | cons b bs ih =>
    obtain ⟨j, hj, hin⟩ :=
      ih (i := { i with inStatus := false }) ⟨hi.parser, hi.rsp, hi.cont⟩ rfl
    exact ⟨j, .cons (feed_head hi.parser b) hj, hin⟩

theorem Inside.reason (hi : Inside .head cont phrase body i)
    (hs : i.inStatus = false → phrase = []) (bs : Bytes) :
    ∃ j, Passes i (bs.map .reason) j ∧ Inside .head cont (phrase ++ bs) body j := by
  induction bs generalizing i phrase with
  | nil => exact ⟨i, .nil i, by rwa [List.append_nil]⟩
  | cons b bs ih =>
    have hone : Inside .head cont (phrase ++ [b]) body (i.onStatusComplete b) := by
      refine ⟨hi.parser, ?_, hi.cont⟩
      unfold ParserImpl.onStatusComplete Reception.onStatusComplete
      cases hst : i.inStatus with
      | false => simp [hi.rsp, hs hst]
      | true => simp [hi.rsp]
    have hstatus : (i.onStatusComplete b).inStatus = true := rfl
    obtain ⟨j, hj, hin⟩ := ih hone (by simp [hstatus])
    refine ⟨j, .cons (feed_reason hi.parser b) hj, ?_⟩
    simpa using hin

/-- The header fields pass, or the parser stops among them. -/
theorem Inside.fields (hi : Inside .head cont phrase body i) (fs : List (UInt8 × Bool)) :
    (∃ j, Passes i (fs.map fun f => .head f.1 f.2) j ∧ Inside .head cont phrase body j) ∨
    fs.all (·.2) = false ∧ ∃ j, Inside .error cont phrase body j ∧
      ∀ v, (execute i (fs.map (fun f => .head f.1 f.2) ++ v)).1 = j := by
  induction fs generalizing i with
  | nil => exact .inl ⟨i, .nil i, hi⟩
  | cons f fs ih =>
    obtain ⟨b, ok⟩ := f
    cases ok with
    | false =>
      refine .inr ⟨rfl, { i with parser := .error }, ⟨rfl, hi.rsp, hi.cont⟩, fun v => ?_⟩
      simp [execute, feed_head_refused hi.parser b]
    | true =>
      rcases ih (i := { i with inStatus := false }) ⟨hi.parser, hi.rsp, hi.cont⟩ with
        ⟨j, hj, hin⟩ | ⟨hall, j, hin, hj⟩
      · exact .inl ⟨j, .cons (feed_head hi.parser b) hj, hin⟩
      · refine .inr ⟨hall, j, hin, fun v => ?_⟩
        rw [List.map_cons, List.cons_append, execute_next (feed_head hi.parser b)]
        exact hj v

theorem Inside.onBody {parser : Parser} (hi : Inside parser cont phrase body i) (b : UInt8) :
    Inside parser cont phrase (body ++ [b]) (i.onBody b) :=
  ⟨hi.parser, by simp [ParserImpl.onBody, Reception.onBody, hi.rsp], hi.cont⟩

/-- Less than the whole of a body of announced length. -/
theorem Inside.data {left : Nat} (bs : Bytes)
    (hi : Inside (.body h (left + bs.length)) cont phrase body i) (hleft : 0 < left) :
    ∃ j, Passes i (bs.map .data) j ∧ Inside (.body h left) cont phrase (body ++ bs) j := by
  induction bs generalizing i body with
  | nil => exact ⟨i, .nil i, by simpa using hi⟩
  | cons b bs ih =>
    have hparser : i.parser = .body h (left + bs.length + 1) := hi.parser
    have hfeed := feed_body hparser b
    rw [if_neg (by omega)] at hfeed
    have hone : Inside (.body h (left + bs.length)) cont phrase (body ++ [b])
        { i.onBody b with parser := .body h (left + bs.length) } :=
      ⟨rfl, by simp [ParserImpl.onBody, Reception.onBody, hi.rsp], hi.cont⟩
    obtain ⟨j, hj, hin⟩ := ih hone
    exact ⟨j, .cons hfeed hj, by simpa using hin⟩

/-- The whole of a body of announced length. -/
theorem Inside.allData {n : Nat} {bs : Bytes} (hi : Inside (.body h (n + 1)) cont phrase [] i)
    (hlen : bs.length = n + 1) :
    ∃ j, (execute i (bs.map .data)).1 = j.complete h ∧ Inside (.body h 1) cont phrase bs j := by
  -- all but the last octet pass, the last one completes the response
  obtain ⟨bs, b, rfl⟩ : ∃ cs b, bs = cs ++ [b] :=
    (List.eq_nil_or_concat' bs).resolve_left fun hnil => by simp [hnil] at hlen
  have hn : 1 + bs.length = n + 1 := by simpa [Nat.add_comm] using hlen
  rw [← hn] at hi
  obtain ⟨j, hj, hin⟩ := hi.data bs Nat.one_pos
  have hparser : j.parser = .body h (0 + 1) := hin.parser
  have hlast : feed j (.data b) = .next ((j.onBody b).complete h) := by
    rw [feed_body hparser, if_pos rfl]
  refine ⟨j.onBody b, ?_, hin.onBody b⟩
  rw [List.map_append, hj.execute_fst, List.map_singleton, execute_next hlast]
  rfl

theorem Inside.untilEof (hi : Inside (.untilEof h) cont phrase body i) (bs : Bytes) :
    ∃ j, Passes i (bs.map .data) j ∧ Inside (.untilEof h) cont phrase (body ++ bs) j := by
  induction bs generalizing i body with
  | nil => exact ⟨i, .nil i, by simpa using hi⟩
  | cons b bs ih =>
    obtain ⟨j, hj, hin⟩ := ih (hi.onBody b)
    exact ⟨j, .cons (feed_untilEof hi.parser b) hj, by simpa using hin⟩

theorem Inside.chunks (hi : Inside (.chunks h) cont phrase body i) (cs : List Octet)
    (hcs : ∀ c ∈ cs, c.isChunk = true) :
    ∃ j, Passes i cs j ∧
      Inside (.chunks h) cont phrase (body ++ cs.filterMap Octet.content?) j := by
  induction cs generalizing i body with
  | nil => exact ⟨i, .nil i, by simpa using hi⟩
  | cons c cs ih =>
    have hrest : ∀ c ∈ cs, c.isChunk = true := fun d hd => hcs d (List.mem_cons_of_mem c hd)
    have hc := hcs c List.mem_cons_self
    cases c with
    | data b =>
      obtain ⟨j, hj, hin⟩ := ih (hi.onBody b) hrest
      refine ⟨j, .cons (feed_chunks_data hi.parser b) hj, ?_⟩
      simpa [Octet.content?] using hin
    | chunk b =>
      obtain ⟨j, hj, hin⟩ := ih hi hrest
      exact ⟨j, .cons (feed_chunks_chunk hi.parser b) hj, hin⟩
    | _ => simp [Octet.isChunk] at hc

/-- The whole header up to its last octet. -/
theorem inside_headText (hi : i.parser = .start) (hcont : i.shouldContinue = cont)
    (t : HeadText) :
    (∃ j, Passes i t.octets j ∧ Inside .head cont t.reason [] j) ∨
    t.accepted = false ∧
      ∃ j, Inside .error cont t.reason [] j ∧ ∀ v, (execute i (t.octets ++ v)).1 = j := by
  obtain ⟨j₁, hstart, hin₁, hs₁⟩ := inside_start hi hcont
  obtain ⟨j₂, hversion, hin₂, hs₂⟩ := hin₁.version hs₁ t.version
  obtain ⟨j₃, hreason, hin₃⟩ := hin₂.reason (fun _ => rfl) t.reason
  have hpass : Passes i (.start :: (t.version.map (.head · true) ++ t.reason.map .reason)) j₃ :=
    .cons hstart (hversion.append hreason)
  have hoctets : t.octets = .start :: (t.version.map (.head · true) ++ t.reason.map .reason) ++
      t.fields.map fun f => .head f.1 f.2 := by simp [HeadText.octets]
  rcases hin₃.fields t.fields with ⟨j, hfields, hin⟩ | ⟨hall, j, hin, hj⟩
  · exact .inl ⟨j, hoctets ▸ hpass.append hfields, hin⟩
  · refine .inr ⟨hall, j, hin, fun v => ?_⟩
    rw [hoctets, List.append_assoc, hpass.execute_fst]
    exact hj v

/-- Some octets of a header, the first one at least. -/
theorem inside_of_prefix (hi : i.parser = .start) (hcont : i.shouldContinue = cont)
    {t : HeadText} {w : List Octet} (hw : w <+: t.octets) (hne : w ≠ []) :
    ∃ parser phrase, (parser = .head ∨ parser = .error) ∧ phrase <+: t.reason ∧
      Inside parser cont phrase [] (execute i w).1 := by
  obtain ⟨j₁, hstart, hin₁, hs₁⟩ := inside_start hi hcont
  obtain ⟨c, w, rfl⟩ := List.exists_cons_of_ne_nil hne
  obtain ⟨rfl, htail⟩ := List.cons_prefix_cons.mp hw
  rw [execute_next hstart]
  rcases prefix_append_split htail with hline | ⟨fs, rfl, hfs⟩
  · rcases prefix_append_split hline with hvs | ⟨rs, rfl, hrs⟩
    · obtain ⟨bs, -, rfl⟩ := List.prefix_map_iff.mp hvs
      obtain ⟨j, hj, hin, -⟩ := hin₁.version hs₁ bs
      exact ⟨.head, [], .inl rfl, List.nil_prefix, by rwa [hj.execute_self]⟩
    · obtain ⟨bs, hbs, rfl⟩ := List.prefix_map_iff.mp hrs
      obtain ⟨j₂, hversion, hin₂, -⟩ := hin₁.version hs₁ t.version
      obtain ⟨j, hj, hin⟩ := hin₂.reason (fun _ => rfl) bs
      exact ⟨.head, bs, .inl rfl, hbs, by rwa [(hversion.append hj).execute_self]⟩
  · obtain ⟨gs, -, rfl⟩ := List.prefix_map_iff.mp hfs
    obtain ⟨j₂, hversion, hin₂, -⟩ := hin₁.version hs₁ t.version
    obtain ⟨j₃, hreason, hin₃⟩ := hin₂.reason (fun _ => rfl) t.reason
    rw [(hversion.append hreason).execute_fst]
    rcases hin₃.fields gs with ⟨j, hj, hin⟩ | ⟨-, j, hin, hj⟩
    · exact ⟨.head, t.reason, .inl rfl, List.prefix_rfl, by rwa [hj.execute_self]⟩
    · refine ⟨.error, t.reason, .inr rfl, List.prefix_rfl, ?_⟩
      have herror := hj []
      rw [List.append_nil] at herror
      rwa [herror]

end Inside

/-! ## Inside an answer -/

/-- The parser after some octets `w` of an answer. -/
inductive Reads (a : Answer) (w : List Octet) (i : ParserImpl) : Prop where
  /-- `next_rsp_` holds no response that the caller could take. -/
  | pending (hcode : i.rsp.code ≠ 200) (halive : i.rsp.keepAlive = false)
      (hreason : ∃ reason ∈ a.reasons, i.rsp.statusMessage <+: reason)
      (heof : ∀ h, i.parser = .untilEof h → w = a.octets → (i.onMsgComplete h).rsp = a.final.rsp)
  /-- It holds the final response, and the answer is over. -/
  | complete (hw : w = a.octets) (hrsp : i.rsp = a.final.rsp)
      (hparser : i.rsp.keepAlive = true → i.parser = .start) (hdone : i.shouldContinue = false)

/-- An `Upgrade` field stands in no interim response, and in no final one with a body. -/
def Answer.NoUpgrade (a : Answer) : Prop :=
  (∀ m ∈ a.interims, m.head.upgrade = false) ∧ (a.final.head.upgrade = true → a.final.body = [])

instance (a : Answer) : Decidable a.NoUpgrade := inferInstanceAs (Decidable (_ ∧ _))

theorem Inside.pending {parser : Parser} {cont : Bool} {phrase body : Bytes} {i : ParserImpl}
    {a : Answer} {w : List Octet} {reason : Bytes} (hi : Inside parser cont phrase body i)
    (hreason : reason ∈ a.reasons) (hphrase : phrase <+: reason)
    (heof : ∀ h, parser = .untilEof h → w = a.octets → (i.onMsgComplete h).rsp = a.final.rsp) :
    Reads a w i := by
  refine .pending ?_ ?_ ⟨reason, hreason, ?_⟩ fun h hp hw => heof h (hi.parser ▸ hp) hw
  · simp [hi.rsp]
  · simp [hi.rsp]
  · simpa [hi.rsp] using hphrase

theorem Final.lastHead_code (f : Final) : f.lastHead.code = f.head.code := by
  unfold Final.lastHead
  split <;> rfl

/-- A body that is not in chunks has no trailers. -/
theorem Final.lastHead_of_data (f : Final) (bs : Bytes) (hbody : f.body = bs.map .data) :
    f.lastHead = f.head := by
  unfold Final.lastHead
  rw [hbody, List.getLast?_map]
  cases bs.getLast? <;> rfl

theorem Final.lastHead_of_chunks (f : Final) {cs : List Octet} {persistent : Bool}
    (hbody : f.body = cs ++ [.chunksEnd persistent]) :
    f.lastHead = { f.head with persistent := persistent } := by
  simp [Final.lastHead, hbody]

/-- The end of the final response. -/
theorem Inside.complete {parser : Parser} {cont : Bool} {i : ParserImpl} {a : Answer}
    {w : List Octet} {h : Head} (hi : Inside parser cont a.final.text.reason a.final.content i)
    (hw : w = a.octets) (hh : a.final.lastHead = h) : Reads a w (i.complete h) := by
  subst hh
  refine .complete hw ?_ ?_ rfl
  · simp [ParserImpl.complete, ParserImpl.onMsgComplete, Reception.onMsgComplete, hi.rsp,
      Final.rsp, a.final.lastHead_code]
  · intro halive
    exact if_pos halive

section Final

variable {f : Final} {cont : Bool} {i : ParserImpl} {w : List Octet}

/-- The answer without interim responses. -/
def Final.answer (f : Final) : Answer := ⟨[], f⟩

theorem Final.octets_answer (f : Final) :
    f.answer.octets = f.text.octets ++ .headEnd f.head :: f.body := rfl

theorem Final.content_eq_nil (hbody : f.body = []) : f.content = [] := by
  have hframed := f.framed
  split at hframed
  · exact hframed.1
  · unfold FramedAs at hframed
    split at hframed
    · obtain ⟨cs, persistent, hcs, -⟩ := hframed
      simp [hbody] at hcs
    · simpa [hbody] using hframed.1.symm
    · simpa [hbody] using hframed.symm

/-- A response without a body that ends with its header. -/
theorem reads_bodyless (hi : Inside .head cont f.text.reason [] i) (hbody : f.body = []) :
    Reads f.answer (f.text.octets ++ [.headEnd f.head]) (i.complete f.head) := by
  rw [← f.content_eq_nil hbody] at hi
  exact Inside.complete (a := f.answer) hi (by rw [f.octets_answer, hbody])
    (f.lastHead_of_data [] hbody)

/-- The body in chunks. -/
theorem reads_chunked (hi : Inside (.chunks f.head) cont f.text.reason [] i)
    (hframing : f.head.framing = .chunked) (hw : w <+: f.body) :
    Reads f.answer (f.text.octets ++ .headEnd f.head :: w) (execute i w).1 := by
  have hpending (cs : List Octet) (hcs : ∀ c ∈ cs, c.isChunk = true) (v : List Octet) :
      Reads f.answer v (execute i cs).1 := by
    obtain ⟨j, hj, hin⟩ := hi.chunks cs hcs
    rw [hj.execute_self]
    exact hin.pending (by simp [Answer.reasons, Final.answer]) List.prefix_rfl (by simp)
  have hframed := f.framed
  split at hframed
  · obtain rfl : w = [] := by simpa [hframed.2] using hw
    exact hpending [] (by simp) _
  · rw [hframing] at hframed
    obtain ⟨cs, persistent, hbody, hcs, hcontent⟩ := hframed
    rw [hbody] at hw
    rcases prefix_append_split hw with hw | ⟨v, rfl, hv⟩
    · exact hpending w (fun c hc => hcs c (hw.subset hc)) _
    · rcases List.prefix_cons_iff.mp hv with rfl | ⟨v', rfl, hv'⟩
      · rw [List.append_nil]
        exact hpending cs hcs _
      · -- the last octet of the last chunk
        obtain rfl : v' = [] := by simpa using hv'
        obtain ⟨j, hj, hin⟩ := hi.chunks cs hcs
        rw [hj.execute_fst, execute_next (feed_chunks_end hin.parser persistent)]
        rw [List.nil_append, ← hcontent] at hin
        exact hin.complete (by rw [f.octets_answer, hbody]) (f.lastHead_of_chunks hbody)

/-- The body of announced length. -/
theorem reads_length {n : Nat} (hi : Inside (.body f.head (n + 1)) cont f.text.reason [] i)
    (hframing : f.head.framing = .length (n + 1)) (hw : w <+: f.body) :
    Reads f.answer (f.text.octets ++ .headEnd f.head :: w) (execute i w).1 := by
  have hpending (bs : Bytes) (hlen : bs.length ≤ n) (v : List Octet) :
      Reads f.answer v (execute i (bs.map .data)).1 := by
    have hleft : n + 1 = n + 1 - bs.length + bs.length := by omega
    rw [hleft] at hi
    obtain ⟨j, hj, hin⟩ := hi.data bs (by omega)
    rw [hj.execute_self]
    exact hin.pending (by simp [Answer.reasons, Final.answer]) List.prefix_rfl (by simp)
  have hframed := f.framed
  split at hframed
  · obtain rfl : w = [] := by simpa [hframed.2] using hw
    exact hpending [] (by simp) _
  · rw [hframing] at hframed
    obtain ⟨hbody, hlen⟩ := hframed
    rw [hbody] at hw
    obtain ⟨bs, hbs, rfl⟩ := List.prefix_map_iff.mp hw
    by_cases hall : bs.length = n + 1
    · obtain rfl : bs = f.content := hbs.eq_of_length (by rw [hall, hlen])
      obtain ⟨j, hj, hin⟩ := hi.allData hlen
      rw [hj]
      exact hin.complete (by rw [f.octets_answer, hbody]) (f.lastHead_of_data _ hbody)
    · exact hpending bs (by have := hbs.length_le; omega) _

/-- The body that ends with the connection. -/
theorem reads_untilEof (hi : Inside (.untilEof f.head) cont f.text.reason [] i)
    (hframing : f.head.framing = .unframed) (hw : w <+: f.body) :
    Reads f.answer (f.text.octets ++ .headEnd f.head :: w) (execute i w).1 := by
  have hbody : f.body = f.content.map .data := by
    have hframed := f.framed
    split at hframed
    · rw [hframed.1, hframed.2, List.map_nil]
    · rwa [hframing] at hframed
  rw [hbody] at hw
  obtain ⟨bs, -, rfl⟩ := List.prefix_map_iff.mp hw
  obtain ⟨j, hj, hin⟩ := hi.untilEof bs
  rw [hj.execute_self]
  refine hin.pending (by simp [Answer.reasons, Final.answer]) List.prefix_rfl ?_
  rintro h hparser hall
  obtain rfl : f.head = h := Parser.untilEof.inj hparser
  rw [f.octets_answer, hbody] at hall
  obtain rfl : bs = f.content := by
    have hinj : Function.Injective Octet.data := fun _ _ => Octet.data.inj
    simpa [List.map_inj_right hinj] using hall
  simp [ParserImpl.onMsgComplete, Reception.onMsgComplete, hin.rsp, Final.rsp, Final.answer,
    f.lastHead_of_data _ hbody]

/-- From the last octet of the header on. -/
theorem reads_headEnd (hi : Inside .head cont f.text.reason [] i) (hw : w <+: f.body)
    (hup : f.head.upgrade = true → f.body = []) :
    Reads f.answer (f.text.octets ++ .headEnd f.head :: w)
      (execute i (.headEnd f.head :: w)).1 := by
  have hdone := feed_headEnd hi.parser f.head
  unfold headersDone at hdone
  have hnil (hbody : f.body = []) : w = [] := by simpa [hbody] using hw
  have hnext {j : ParserImpl} (hj : feed i (.headEnd f.head) = .next j) :
      (execute i (.headEnd f.head :: w)).1 = (execute j w).1 := by rw [execute_next hj]
  by_cases hupgrade : f.head.upgrade = true
  · rw [if_pos hupgrade] at hdone
    obtain rfl := hnil (hup hupgrade)
    simp only [execute, hdone]
    exact reads_bodyless hi (hup hupgrade)
  · rw [if_neg hupgrade] at hdone
    have hcomplete (hbody : f.body = [])
        (hj : feed i (.headEnd f.head) = .next (i.complete f.head)) :
        Reads f.answer (f.text.octets ++ .headEnd f.head :: w)
          (execute i (.headEnd f.head :: w)).1 := by
      obtain rfl := hnil hbody
      rw [hnext hj]
      exact reads_bodyless hi hbody
    cases hframing : f.head.framing with
    | chunked =>
      simp only [hframing] at hdone
      rw [hnext hdone]
      exact reads_chunked ⟨rfl, hi.rsp, hi.cont⟩ hframing hw
    | length n =>
      cases n with
      | zero =>
        simp only [hframing] at hdone
        refine hcomplete ?_ hdone
        have hframed := f.framed
        split at hframed
        · exact hframed.2
        · rw [hframing] at hframed
          rw [hframed.1, List.length_eq_zero_iff.mp hframed.2, List.map_nil]
      | succ n =>
        simp only [hframing] at hdone
        rw [hnext hdone]
        exact reads_length ⟨rfl, hi.rsp, hi.cont⟩ hframing hw
    | unframed =>
      simp only [hframing] at hdone
      by_cases hneeds : f.head.needsEof = true
      · rw [if_pos hneeds] at hdone
        rw [hnext hdone]
        exact reads_untilEof ⟨rfl, hi.rsp, hi.cont⟩ hframing hw
      · rw [if_neg hneeds] at hdone
        refine hcomplete ?_ hdone
        -- a final response without framing that needs no end of file is a 204 or a 304
        have hcode : f.head.code = 204 ∨ f.head.code = 304 := by
          simpa [Head.needsEof, f.final, hframing, or_iff_not_imp_left] using hneeds
        have hframed := f.framed
        rw [if_pos (.inr hcode)] at hframed
        exact hframed.2

theorem reads_final (hi : i.parser = .start) (hw : w <+: f.octets) (hne : w ≠ [])
    (hup : f.head.upgrade = true → f.body = []) : Reads f.answer w (execute i w).1 := by
  have hreason : f.text.reason ∈ f.answer.reasons := by simp [Answer.reasons, Final.answer]
  rcases prefix_append_split hw with hw | ⟨v, rfl, hv⟩
  · obtain ⟨parser, phrase, hparser, hphrase, hin⟩ := inside_of_prefix hi rfl hw hne
    exact hin.pending hreason hphrase (by rcases hparser with rfl | rfl <;> simp)
  · rcases inside_headText hi rfl f.text with ⟨j, hj, hin⟩ | ⟨-, j, hin, hj⟩
    · rw [hj.execute_fst]
      rcases List.prefix_cons_iff.mp hv with rfl | ⟨u, rfl, hu⟩
      · exact hin.pending hreason List.prefix_rfl (by simp)
      · exact reads_headEnd hin hu hup
    · rw [hj]
      exact hin.pending hreason List.prefix_rfl (by simp)

end Final

/-! ## Interim responses -/

/-- The answer with one more interim response in front. -/
def Answer.after (m : Interim) (a : Answer) : Answer := ⟨m :: a.interims, a.final⟩

theorem Answer.octets_after (m : Interim) (a : Answer) :
    (a.after m).octets = m.text.octets ++ .headEnd m.head :: a.octets := by
  simp [Answer.octets, Answer.after, Interim.octets]

theorem Answer.reasons_after (m : Interim) (a : Answer) :
    (a.after m).reasons = m.text.reason :: a.reasons := rfl

theorem Reads.after {a : Answer} {w : List Octet} {i : ParserImpl} (h : Reads a w i)
    (m : Interim) : Reads (a.after m) (m.text.octets ++ .headEnd m.head :: w) i := by
  cases h with
  | pending hcode halive hreason heof =>
    obtain ⟨reason, hmem, hpre⟩ := hreason
    refine .pending hcode halive ⟨reason, ?_, hpre⟩ fun h hp hw => heof h hp ?_
    · rw [Answer.reasons_after]
      exact List.mem_cons_of_mem _ hmem
    · simpa [Answer.octets_after] using hw
  | complete hw hrsp hparser hdone =>
    exact .complete (by rw [Answer.octets_after, hw]) hrsp hparser hdone

/-- An interim response is over with its header. -/
theorem feed_interim {m : Interim} {cont : Bool} {i : ParserImpl}
    (hi : Inside .head cont m.text.reason [] i) (hup : m.head.upgrade = false) :
    feed i (.headEnd m.head) = .next (i.complete m.head) := by
  have hneeds : m.head.needsEof = false := by simp [Head.needsEof, m.interim]
  simp [feed_headEnd hi.parser, headersDone, hup, m.bare, hneeds]

theorem execute_dead {i : ParserImpl} (hi : i.parser = .dead) (u : List Octet) :
    (execute i u).1.rsp = i.rsp ∧ ∀ h, (execute i u).1.parser ≠ .untilEof h := by
  induction u with
  | nil => simp [execute, hi]
  | cons c u ih => rcases feed_dead hi c with hc | hc <;> simp [execute, hc, ih]

/-- **The parser in an answer.** After any octets `w` of an answer that do not end with
    an interim response that keeps the connection alive, the parser holds no response
    that the caller could take, or the final one at its end. -/
theorem reads_answer (a : Answer) {i : ParserImpl} {w : List Octet} (hi : i.parser = .start)
    (hup : a.NoUpgrade) (hw : w <+: a.octets) (hne : w ≠ [])
    (hend : ∀ h, w.getLast? = some (.headEnd h) → h.interim = true → h.keepAlive = false) :
    Reads a w (execute i w).1 := by
  obtain ⟨ms, f⟩ := a
  induction ms generalizing i w with
  | nil => exact reads_final hi hw hne hup.2
  | cons m ms ih =>
    change w <+: (Answer.after m ⟨ms, f⟩).octets at hw
    change Reads (Answer.after m ⟨ms, f⟩) w (execute i w).1
    have hreason : m.text.reason ∈ (Answer.after m ⟨ms, f⟩).reasons := List.mem_cons_self
    rw [Answer.octets_after] at hw
    rcases prefix_append_split hw with hw | ⟨v, rfl, hv⟩
    · obtain ⟨parser, phrase, hparser, hphrase, hin⟩ := inside_of_prefix hi rfl hw hne
      exact hin.pending hreason hphrase (by rcases hparser with rfl | rfl <;> simp)
    rcases inside_headText hi rfl m.text with ⟨j, hj, hin⟩ | ⟨-, j, hin, hj⟩
    · rw [hj.execute_fst]
      rcases List.prefix_cons_iff.mp hv with rfl | ⟨u, rfl, hu⟩
      · exact hin.pending hreason List.prefix_rfl (by simp)
      · rw [execute_next (feed_interim hin (hup.1 m List.mem_cons_self))]
        cases halive : m.head.keepAlive with
        | true =>
          -- the next response follows, for `w` does not end here
          have hu' : u ≠ [] := by
            rintro rfl
            have := hend m.head (by simp) m.interim
            simp [halive] at this
          have hstart : (j.complete m.head).parser = .start := by
            simp [ParserImpl.complete, halive]
          refine (ih hstart hu' (fun h hlast => hend h ?_) ?_ hu).after m
          · rw [List.getLast?_append, List.getLast?_cons, hlast]
            rfl
          · exact ⟨fun m' hm' => hup.1 m' (List.mem_cons_of_mem _ hm'), hup.2⟩
        | false =>
          -- the parser is dead: whatever follows, this response stays
          have hdead : (j.complete m.head).parser = .dead := by
            simp [ParserImpl.complete, halive]
          obtain ⟨hrsp, hparser⟩ := execute_dead hdead u
          have hcode : m.head.code ≠ 200 := by
            have := m.interim
            simp only [Head.interim, decide_eq_true_eq] at this
            omega
          refine .pending ?_ ?_ ⟨m.text.reason, hreason, ?_⟩ fun h hp => absurd hp (hparser h)
          · rw [hrsp]
            exact hcode
          · rw [hrsp]
            exact halive
          · rw [hrsp]
            simp [ParserImpl.complete, ParserImpl.onMsgComplete, Reception.onMsgComplete,
              hin.rsp]
    · rw [hj]
      exact hin.pending hreason List.prefix_rfl (by simp)

/-- The same for the octets `v` that follow a first part `w` without a response in it. -/
theorem reads_append (a : Answer) {i : ParserImpl} {w v : List Octet} (hup : a.NoUpgrade)
    (hparsed : execute {} w = (i, w.length)) (hcont : i.shouldContinue = true)
    (hw : w ++ v <+: a.octets) (hne : v ≠ [])
    (hend : ∀ h, v.getLast? = some (.headEnd h) → h.interim = true → h.keepAlive = false) :
    Reads a (w ++ v) (execute i v).1 := by
  have hreads := reads_answer a (i := {}) rfl hup hw (by simp [hne]) fun h hlast => by
    refine hend h ?_
    rwa [List.getLast?_append_of_ne_nil w hne] at hlast
  rwa [execute_append hparsed hcont] at hreads

/-! ## A whole answer -/

/-- Only the end of the connection ends the body. -/
def Final.untilClose (f : Final) : Bool := f.method ≠ .head && f.head.needsEof

/-- The parser ends the response where HTTP does. -/
structure Final.Plain (f : Final) : Prop where
  accepted : f.text.accepted = true
  /-- A response that has no body whatever its header says announces none. -/
  bodyless : f.method = .head ∨ f.head.code = 204 ∨ f.head.code = 304 →
    f.head.framing = .length 0 ∨ f.head.framing = .unframed ∧ f.head.needsEof = false

/-- The parser gets to the final response and ends it where HTTP does. -/
structure Answer.Plain (a : Answer) : Prop where
  final : a.final.Plain
  interims : ∀ m ∈ a.interims, m.text.accepted = true ∧ m.head.keepAlive = true

instance (f : Final) : Decidable f.Plain :=
  decidable_of_iff (f.text.accepted = true ∧
    (f.method = .head ∨ f.head.code = 204 ∨ f.head.code = 304 →
      f.head.framing = .length 0 ∨ f.head.framing = .unframed ∧ f.head.needsEof = false))
    ⟨fun h => ⟨h.1, h.2⟩, fun h => ⟨h.accepted, h.bodyless⟩⟩

instance (a : Answer) : Decidable a.Plain :=
  decidable_of_iff (a.final.Plain ∧
    ∀ m ∈ a.interims, m.text.accepted = true ∧ m.head.keepAlive = true)
    ⟨fun h => ⟨h.1, h.2⟩, fun h => ⟨h.final, h.interims⟩⟩

/-- The parser holds the final response, or has only the end of the connection to wait
    for. -/
def Settled (f : Final) (i : ParserImpl) : Prop :=
  i.rsp.code = f.head.code ∨ (∃ h, i.parser = .untilEof h) ∧ f.untilClose = true

section Settled

variable {cont : Bool} {phrase : Bytes} {i : ParserImpl} {f : Final}

/-- The body of a response that may have one. -/
theorem settled_body (hi : Inside .head cont phrase [] i) (hmethod : f.method ≠ .head)
    (hcode : ¬ f.head.code = 204 ∧ ¬ f.head.code = 304)
    (hup : f.head.upgrade = false) : Settled f (execute i (.headEnd f.head :: f.body)).1 := by
  have hdone := feed_headEnd hi.parser f.head
  have hframed := f.framed
  rw [if_neg (by simp [hmethod, hcode])] at hframed
  simp only [headersDone, hup, Bool.false_eq_true, if_false] at hdone
  cases hframing : f.head.framing with
  | chunked =>
    rw [hframing] at hdone hframed
    obtain ⟨cs, persistent, hbody, hcs, -⟩ := hframed
    have hchunks : Inside (.chunks f.head) cont phrase [] { i with parser := .chunks f.head } :=
      ⟨rfl, hi.rsp, hi.cont⟩
    obtain ⟨j, hj, hin⟩ := hchunks.chunks cs hcs
    rw [execute_next hdone, hbody, hj.execute_fst,
      execute_next (feed_chunks_end hin.parser persistent)]
    exact .inl rfl
  | length n =>
    rw [hframing] at hdone hframed
    obtain ⟨hbody, hlen⟩ := hframed
    cases n with
    | zero =>
      rw [execute_next hdone, hbody, List.length_eq_zero_iff.mp hlen]
      exact .inl rfl
    | succ n =>
      have hin : Inside (.body f.head (n + 1)) cont phrase []
          { i with parser := .body f.head (n + 1) } := ⟨rfl, hi.rsp, hi.cont⟩
      obtain ⟨j, hj, -⟩ := hin.allData hlen
      rw [execute_next hdone, hbody, hj]
      exact .inl rfl
  | unframed =>
    rw [hframing] at hdone hframed
    have hneeds : f.head.needsEof = true := by simp [Head.needsEof, f.final, hframing, hcode]
    simp only [hneeds, if_true] at hdone
    have huntil : Inside (.untilEof f.head) cont phrase []
        { i with parser := .untilEof f.head } :=
      ⟨rfl, hi.rsp, hi.cont⟩
    obtain ⟨j, hj, hin⟩ := huntil.untilEof f.content
    rw [execute_next hdone, hframed, hj.execute_self]
    exact .inr ⟨⟨_, hin.parser⟩, by simp [Final.untilClose, hmethod, hneeds]⟩

/-- From the last octet of the header on. -/
theorem settled_headEnd (hi : Inside .head cont phrase [] i) (hf : f.Plain) :
    Settled f (execute i (.headEnd f.head :: f.body)).1 := by
  have hdone := feed_headEnd hi.parser f.head
  by_cases hupgrade : f.head.upgrade = true
  · rw [headersDone, if_pos hupgrade] at hdone
    simp only [execute, hdone]
    exact .inl rfl
  by_cases hbodyless : f.method = .head ∨ f.head.code = 204 ∨ f.head.code = 304
  · -- the header announces nothing, so the response is over
    have hnext : feed i (.headEnd f.head) = .next (i.complete f.head) := by
      rw [hdone, headersDone, if_neg hupgrade]
      rcases hf.bodyless hbodyless with hframing | ⟨hframing, hneeds⟩
      · simp only [hframing]
      · simp [hframing, hneeds]
    have hframed := f.framed
    rw [if_pos hbodyless] at hframed
    rw [execute_next hnext, hframed.2]
    exact .inl rfl
  · simp only [not_or] at hbodyless
    exact settled_body hi hbodyless.1 hbodyless.2 (by simpa using hupgrade)

/-- **A plain answer comes through.** After all octets of it the parser holds the final
    response, or waits for the end of the connection as it should. -/
theorem settled_answer (a : Answer) (hi : i.parser = .start) (hup : a.NoUpgrade)
    (ha : a.Plain) : Settled a.final (execute i a.octets).1 := by
  obtain ⟨ms, f⟩ := a
  induction ms generalizing i with
  | nil =>
    rcases inside_headText hi rfl f.text with ⟨j, hj, hin⟩ | ⟨hrefused, -⟩
    · change Settled f (execute i (f.text.octets ++ .headEnd f.head :: f.body)).1
      rw [hj.execute_fst]
      exact settled_headEnd hin ha.final
    · simp [ha.final.accepted] at hrefused
  | cons m ms ih =>
    change Settled f (execute i (Answer.after m ⟨ms, f⟩).octets).1
    obtain ⟨haccepted, halive⟩ := ha.interims m List.mem_cons_self
    rw [Answer.octets_after]
    rcases inside_headText hi rfl m.text with ⟨j, hj, hin⟩ | ⟨hrefused, -⟩
    · rw [hj.execute_fst, execute_next (feed_interim hin (hup.1 m List.mem_cons_self))]
      refine ih ?_ ⟨fun m' hm' => hup.1 m' (List.mem_cons_of_mem _ hm'), hup.2⟩
        ⟨ha.final, fun m' hm' => ha.interims m' (List.mem_cons_of_mem _ hm')⟩
      simp [ParserImpl.complete, halive]
    · simp [haccepted] at hrefused

end Settled

end FiberProxy.Http
