/-
  FiberProxy.Http.ReadLoops

  `request::parser_impl::do_parse` (`HttpProtocolHandler.cpp`): the loop that reads from a
  connection and hands every read to `http_parser_execute`, until the client closes it, the
  handler of a request says that it should not go on, or the parser does not take a read as
  a whole.

  The requests that come out do not depend on how the reads cut the stream
  (`doParse_cuts`), with one exception: after a request with `Upgrade`, or a `CONNECT`, the
  parser returns early, and whether the connection is closed depends on whether the read has
  more in it (`doParse_upgrade`).  No `assert` of the parser fails (`doParse_isSome`).
-/

import FiberProxy.Http.ParserReads

namespace FiberProxy.Http.ByteParser

open Lib
open HttpParser (takesBody Marked)

/-! ## The requests that come out -/

/-- The callback for a piece of a part. -/
def Part.callback : Part → Bytes → Callback
  | .url => .url
  | .status => .status
  | .headerField => .headerField
  | .headerValue => .headerValue
  | .body => .body

/-- The message under construction (there is none after a `rbegin()` of no headers), and the
    messages that are complete, with the parser that `on_msg_complete` looks at. -/
structure Collected where
  message : Option Assembly
  messages : List (Assembly × HttpParser) := []
deriving DecidableEq, Repr

/-- A callback of one of the two `parser_impl`. -/
def collect (side : Side) (c : Collected) : Event → Collected
  | .messageBegin => { c with message := c.message.bind (side.callback · .msgBegin) }
  | .data part piece => { c with message := c.message.bind (side.callback · (part.callback piece)) }
  | .headersComplete => { c with message := c.message.bind (side.callback · .headersComplete) }
  | .messageComplete p =>
    match c.message.bind (side.callback · .msgComplete) with
    | none => { c with message := none }
    | some m => ⟨some m, c.messages ++ [(m, p)]⟩

theorem onHeaderField_join (m : Assembly) (x y : Bytes) :
    (m.onHeaderField x).bind (·.onHeaderField y) = m.onHeaderField (x ++ y) := by
  rcases List.eq_nil_or_concat m.headers with hnil | ⟨hs, h, hlast⟩ <;>
    by_cases hfield : m.state = .field <;>
    simp_all [Assembly.onHeaderField, Assembly.modifyLast]

theorem onHeaderValue_join (m : Assembly) (x y : Bytes) :
    (m.onHeaderValue x).bind (·.onHeaderValue y) = m.onHeaderValue (x ++ y) := by
  rcases List.eq_nil_or_concat m.headers with hnil | ⟨hs, h, hlast⟩ <;>
    by_cases hvalue : m.state = .value <;>
    simp_all [Assembly.onHeaderValue, Assembly.modifyLast]

theorem onText_join (part : PartState) (m : Assembly) (x y : Bytes) :
    (m.onText part x).onText part y = m.onText part (x ++ y) := by
  by_cases htext : m.state = part <;> simp [Assembly.onText, htext]

/-- Two pieces of a part are one for the callbacks. -/
theorem callback_join (side : Side) (m : Assembly) (part : Part) (x y : Bytes) :
    (side.callback m (part.callback x)).bind (side.callback · (part.callback y)) =
      side.callback m (part.callback (x ++ y)) := by
  cases part with
  | url =>
    cases side with
    | request => exact congrArg some (onText_join .url m x y)
    | response => rfl
  | status =>
    cases side with
    | request => rfl
    | response => exact congrArg some (onText_join .status m x y)
  | headerField => simpa [Part.callback] using onHeaderField_join m x y
  | headerValue => simpa [Part.callback] using onHeaderValue_join m x y
  | body => simp [Part.callback, Assembly.onBody]

theorem joins_collect (side : Side) : Joins (collect side) := by
  intro c part x y
  simp only [collect]
  congr 1
  cases c.message with
  | none => rfl
  | some m => exact callback_join side m part x y

/-- A piece completes no message. -/
theorem messages_foldl_pending (side : Side) (c : Collected) (pend : Option (Part × Bytes)) :
    ((pendingEvents pend).foldl (collect side) c).messages = c.messages := by
  match pend with
  | none => rfl
  | some _ => rfl

/-! ## The loop -/

/-- What a read gives. -/
inductive Read where
  | error
  /-- No bytes at the end of the stream. -/
  | bytes (data : Bytes)
deriving DecidableEq, Repr

inductive LoopEnd where
  /-- The loop waits for the next read. -/
  | waiting
  /-- `read_error_cb_`. -/
  | readError
  /-- `close_cb_`. -/
  | closed
  /-- The handler of a request said so. -/
  | stopped
deriving DecidableEq, Repr

structure Loop where
  parser : HttpParser
  events : List Event
  completed : Nat
  ending : LoopEnd
deriving DecidableEq, Repr

def Loop.after (l : Loop) (es : List Event) : Loop := { l with events := es ++ l.events }

/-- `http_parser_init`, behind the loop. -/
def Loop.over (es : List Event) (completed : Nat) (ending : LoopEnd) : Loop :=
  ⟨.init .request, es, completed, ending⟩

/-- `do_parse`.  `should_continue_` is what the handler answered last: if that was no,
    `on_msg_complete` has failed. -/
def doParse (answer : Nat → Bool) (p : HttpParser) (k : Nat) : List Read → Option Loop
  | [] => some ⟨p, [], k, .waiting⟩
  | .error :: _ => some (.over [] k .readError)
  | .bytes data :: reads =>
    (p.execute answer k data).bind fun o =>
      if data = [] then some (.over o.events o.completed .closed)
      else if o.parser.errno = .cbMessageComplete then
        some (.over o.events o.completed .stopped)
      else if o.parsed ≠ data.length then some (.over o.events o.completed .closed)
      else (doParse answer o.parser o.completed reads).map fun l => l.after o.events

/-- How the loop ends after some bytes, if the parser does not return early: `next` is what
    follows if it goes on. -/
def Ran.loop (r : Ran) (es : List Event) (next : Option Loop) : Option Loop :=
  match r.ending with
  | .running => next.map fun l => l.after es
  | .refused => some (.over es r.completed .stopped)
  | .failed | .exited => some (.over es r.completed .closed)

/-! ## A read -/

section Read

variable {answer : Nat → Bool} {p : HttpParser} {k : Nat}

theorem start_eq_one (s : HttpState) : Marks.start s = Marks.one s.opened := by
  funext part
  unfold Marks.start HttpState.opened HttpState.part?
  cases s <;> cases part <;> simp [Marks.one]
  all_goals split <;> simp

/-- **A read is taken byte by byte**, and no assertion of the parser fails. -/
theorem execute_spec (answer : Nat → Bool) (k : Nat) (h : p.Inv) {data : Bytes}
    (hdata : data ≠ []) :
    ∃ o, p.execute answer k data = some o ∧
      Agrees p.state.opened o (byteRun answer p k data) := by
  have hmarked : Marked p.state (p.state.opened.map Prod.fst) := by
    left
    cases hpart : p.state.part? <;> simp [HttpState.opened, hpart]
  obtain ⟨o, ho, hagrees⟩ := executeLoop_spec answer h hmarked k data
  refine ⟨o, ?_, hagrees⟩
  rw [HttpParser.execute, if_neg (by simp [h.errno]), if_neg hdata, start_eq_one, ho]

/-- How the loop goes on after a read that the parser has taken. -/
theorem doParse_cons (answer : Nat → Bool) (k : Nat) (h : p.Inv) {data : Bytes} (hdata : data ≠ [])
    (hexit : (byteRun answer p k data).ending ≠ .exited) (reads : List Read) :
    let r := byteRun answer p k data
    ∃ es lost, (r.ending ≠ .failed → lost = none) ∧
      Same (es ++ pendingEvents lost) (pendingEvents p.state.opened ++ r.events) ∧
      doParse answer p k (.bytes data :: reads) =
        r.loop es (doParse answer r.parser r.completed reads) := by
  intro r
  obtain ⟨o, ho, hparser, hparsed, hcompleted, lost, hlost, hsame⟩ :=
    execute_spec answer k h hdata
  have hsound : r.Sound data.length := sound_byteRun answer k h data
  refine ⟨o.events, lost, hlost, hsame, ?_⟩
  simp only [doParse, ho, Option.bind_some, hdata, if_false, hparser, hparsed, hcompleted]
  change r.ending ≠ .exited at hexit
  unfold Ran.Sound at hsound
  unfold Ran.loop
  cases hending : r.ending with
  | running =>
    simp only [hending] at hsound
    have herrno := hsound.1.errno
    simp only [r] at herrno hsound
    simp [herrno, hsound.2, r]
  | failed =>
    simp only [hending, r] at hsound
    simp [hsound.2.1, hsound.2.2.ne, r]
  | exited => exact absurd hending hexit
  | refused =>
    simp only [hending, r] at hsound
    simp [hsound.1, r]

/-! ## Any cuts -/

theorem Ran.loop_loop {r r' : Ran} {es es' : List Event} {next : Option Loop}
    (hrun : r.ending = .running) :
    r.loop es (r'.loop es' next) = (r'.after r.events r.parsed).loop (es ++ es') next := by
  unfold Ran.loop Ran.after
  rw [hrun]
  cases r'.ending <;> simp [Loop.after, Loop.over, Function.comp_def]

/-- The loop over some reads. -/
theorem doParse_reads (h : p.Inv) {cuts : List Bytes} (hcuts : ∀ c ∈ cuts, c ≠ [])
    (hexit : (byteRun answer p k cuts.flatten).ending ≠ .exited) (reads : List Read) :
    let r := byteRun answer p k cuts.flatten
    ∃ first es lost, (first = [] ∨ first = pendingEvents p.state.opened) ∧
      (r.ending ≠ .failed → lost = none) ∧
      Same (es ++ pendingEvents lost) (first ++ r.events) ∧
      doParse answer p k (cuts.map .bytes ++ reads) =
        r.loop es (doParse answer r.parser r.completed reads) := by
  induction cuts generalizing p k with
  | nil =>
    refine ⟨[], [], none, .inl rfl, fun _ => rfl, .refl _, ?_⟩
    simp [byteRun, Ran.loop, Loop.after]
  | cons data cuts ih =>
    obtain ⟨hdata, hcuts⟩ := List.forall_mem_cons.mp hcuts
    have happ := byteRun_append answer p k data cuts.flatten
    have hsound := sound_byteRun answer k h data
    rw [List.flatten_cons] at hexit ⊢
    rw [happ] at hexit ⊢
    generalize hr : byteRun answer p k data = r at *
    have hexit' : r.ending ≠ .exited := by
      intro hexited
      exact hexit (by simp [Ran.andThen, hexited])
    obtain ⟨es, lost, hlost, hsame, hloop⟩ := doParse_cons answer k h hdata
      (by rwa [hr]) (cuts.map .bytes ++ reads)
    rw [hr] at hlost hsame hloop
    by_cases hrun : r.ending = .running
    · obtain rfl := hlost (by simp [hrun])
      have hinv : r.parser.Inv := by
        simp only [Ran.Sound, hrun] at hsound
        exact hsound.1
      simp only [Ran.andThen, hrun, if_true] at hexit ⊢
      obtain ⟨first, es', lost', hfirst, hlost', hsame', hloop'⟩ := ih hinv hcuts hexit
      refine ⟨_, es ++ es', lost', .inr rfl, hlost', ?_, ?_⟩
      · -- the mark at the beginning of the next read adds nothing
        have hopen : Same (r.events ++ first) r.events := by
          rcases hfirst with rfl | rfl
          · simpa using Same.refl _
          · rw [← hr] at hrun ⊢
            exact same_opened h hdata hrun
        have hleft := hsame.append hsame'
        have hright := (Same.refl (pendingEvents p.state.opened)).append
          (hopen.append (.refl (byteRun answer r.parser r.completed cuts.flatten).events))
        simp only [pendingEvents, List.append_nil, List.append_assoc, Ran.after]
          at hleft hright ⊢
        exact hleft.trans hright
      · rw [List.map_cons, List.cons_append, hloop, hloop', Ran.loop_loop hrun]
        rfl
    · simp only [Ran.andThen, hrun, if_false]
      refine ⟨_, es, lost, .inr rfl, hlost, hsame, ?_⟩
      rw [List.map_cons, List.cons_append, hloop]
      unfold Ran.loop
      cases hending : r.ending <;> simp_all

theorem inv_init (t : ParserType) : (HttpParser.init t).Inv := by
  cases t <;> exact ⟨rfl, Nat.zero_le _, trivial⟩

/-- The requests of a loop. -/
def Loop.requests (l : Loop) : List (Assembly × HttpParser) :=
  (l.events.foldl (collect .request) ⟨some {}, []⟩).messages

/-- The same callbacks make the same messages, also without the piece that an error loses. -/
theorem messages_of_same (side : Side) {es rs : List Event} {lost : Option (Part × Bytes)}
    (h : Same (es ++ pendingEvents lost) rs) (c : Collected) :
    (es.foldl (collect side) c).messages = (rs.foldl (collect side) c).messages := by
  rw [← h _ _ (joins_collect side), List.foldl_append, messages_foldl_pending]

/-- **The requests do not depend on the cuts.**  Two connections that get the same bytes, in
    any reads, and after them the same, end in the same way with the same requests, unless
    the parser returns early for another protocol. -/
theorem doParse_cuts {cuts cuts' : List Bytes} (hcuts : ∀ c ∈ cuts, c ≠ [])
    (hcuts' : ∀ c ∈ cuts', c ≠ []) (hsame : cuts.flatten = cuts'.flatten)
    (hexit : (byteRun answer (.init .request) 0 cuts.flatten).ending ≠ .exited)
    (reads : List Read) :
    (doParse answer (.init .request) 0 (cuts.map .bytes ++ reads)).map
        (fun l => (l.parser, l.completed, l.ending, l.requests)) =
      (doParse answer (.init .request) 0 (cuts'.map .bytes ++ reads)).map
        (fun l => (l.parser, l.completed, l.ending, l.requests)) := by
  obtain ⟨first, es, lost, hfirst, hlost, hes, hloop⟩ :=
    doParse_reads (inv_init .request) hcuts hexit reads
  rw [hsame] at hexit hlost hes hloop
  obtain ⟨first', es', lost', hfirst', hlost', hes', hloop'⟩ :=
    doParse_reads (inv_init .request) hcuts' hexit reads
  obtain rfl : first = [] := hfirst.elim id id
  obtain rfl : first' = [] := hfirst'.elim id id
  rw [hloop, hloop']
  generalize byteRun answer (.init .request) 0 cuts'.flatten = r at *
  have hmessages := (messages_of_same .request hes ⟨some {}, []⟩).trans
    (messages_of_same .request hes' ⟨some {}, []⟩).symm
  unfold Ran.loop
  cases hending : r.ending with
  | running =>
    obtain rfl := hlost (by simp [hending])
    obtain rfl := hlost' (by simp [hending])
    -- what follows finds the same message under construction
    have hstate : es.foldl (collect .request) ⟨some {}, []⟩ =
        es'.foldl (collect .request) ⟨some {}, []⟩ := by
      have hes₁ := hes _ _ (joins_collect .request) ⟨some {}, []⟩
      have hes₂ := hes' _ _ (joins_collect .request) ⟨some {}, []⟩
      simp only [pendingEvents, List.append_nil] at hes₁ hes₂
      exact hes₁.trans hes₂.symm
    cases doParse answer r.parser r.completed reads with
    | none => rfl
    | some l => simp [Loop.after, Loop.requests, List.foldl_append, hstate]
  | failed | refused | exited => simp [Loop.over, Loop.requests, hmessages]

theorem doParse_cuts_two :
    (doParse (fun _ => true) (.init .request) 0
        ([ascii "GET / HT", ascii "TP/1.1\r\n\r\n"].map .bytes ++ [.bytes []])).map
        (fun l => (l.parser, l.completed, l.ending, l.requests)) =
      (doParse (fun _ => true) (.init .request) 0
        ([ascii "GET / HTTP/1.1\r\n\r\n"].map .bytes ++ [.bytes []])).map
        (fun l => (l.parser, l.completed, l.ending, l.requests)) :=
  doParse_cuts (by decide) (by decide) (by decide) (by decide +kernel) _

/-! ## No assertion fails -/

/-- The end of the stream. -/
theorem execute_nil (answer : Nat → Bool) (p : HttpParser) (k : Nat) :
    ∃ o, p.execute answer k [] = some o := by
  unfold HttpParser.execute
  split
  · exact ⟨_, rfl⟩
  · simp only [if_true]
    split <;> exact ⟨_, rfl⟩

/-- **No assertion of the parser fails**, whatever a connection sends. -/
theorem doParse_isSome (h : p.Inv) (reads : List Read) :
    (doParse answer p k reads).isSome = true := by
  induction reads generalizing p k with
  | nil => rfl
  | cons read reads ih =>
    match read with
    | .error => rfl
    | .bytes data =>
      by_cases hdata : data = []
      · obtain ⟨o, ho⟩ := execute_nil answer p k
        simp [doParse, hdata, ho]
      · obtain ⟨o, ho, hagrees⟩ := execute_spec answer k h hdata
        have hsound := sound_byteRun answer k h data
        simp only [doParse, ho, Option.bind_some, hdata, if_false]
        split
        · rfl
        split
        · rfl
        · rename_i herrno hparsed
          rw [hagrees.parser, hagrees.completed, Option.isSome_map]
          refine ih ?_
          rw [hagrees.parser] at herrno
          rw [hagrees.parsed, not_not] at hparsed
          unfold Ran.Sound at hsound
          split at hsound
          · exact hsound.1
          · omega
          · exact hsound.1
          · exact absurd hsound.1 herrno

theorem doParse_isSome_init :
    (doParse (fun _ => true) (.init .request) 0 [.bytes (ascii "GET\r\n"), .bytes []]).isSome :=
  doParse_isSome (inv_init .request) _

/-! ## Another protocol -/

/-- **The exception.**  A message after which another protocol follows, at the end of a read:
    the loop goes on with the next read.  With more in the same read, it is over. -/
theorem doParse_upgrade (h : p.Inv) {data more : Bytes} (hdata : data ≠ []) (hmore : more ≠ [])
    (hexit : (byteRun answer p k data).ending = .exited)
    (hparsed : (byteRun answer p k data).parsed = data.length) (reads : List Read) :
    let r := byteRun answer p k data
    (∃ es, doParse answer p k (.bytes (data ++ more) :: reads) =
        some (.over es r.completed .closed)) ∧
      ∃ es, doParse answer p k (.bytes data :: .bytes more :: reads) =
        (doParse answer r.parser r.completed (.bytes more :: reads)).map fun l => l.after es := by
  intro r
  have herrno : r.parser.errno ≠ .cbMessageComplete := by
    have hsound : r.Sound data.length := sound_byteRun answer k h data
    simp only [Ran.Sound, r, hexit] at hsound
    simp [r, hsound.1.errno]
  constructor
  · have happ : byteRun answer p k (data ++ more) = r := by
      rw [byteRun_append, Ran.andThen, if_neg (by simp [hexit])]
    obtain ⟨o, ho, hagrees⟩ := execute_spec answer k h
      (List.append_ne_nil_of_left_ne_nil hdata more)
    rw [happ] at hagrees
    have hshort : o.parsed ≠ data.length + more.length := by
      have hpos := List.length_pos_of_ne_nil hmore
      rw [hagrees.parsed]
      simp only [r]
      omega
    exact ⟨o.events, by simp [doParse, ho, hdata, hagrees.parser, herrno, hagrees.completed,
      hshort]⟩
  · obtain ⟨o, ho, hagrees⟩ := execute_spec answer k h hdata
    have hwhole : o.parsed = data.length := hagrees.parsed.trans hparsed
    exact ⟨o.events, by
      rw [doParse, ho]
      simp [hdata, hagrees.parser, herrno, hagrees.completed, hwhole, r]⟩

/-- A tunnel, and what the client sends through it. -/
def connectText : Bytes := ascii "CONNECT h:1 HTTP/1.1\r\n\r\n"

theorem doParse_upgrade_connect :
    (byteRun (fun _ => true) (.init .request) 0 connectText).ending = .exited ∧
      ∃ es, doParse (fun _ => true) (.init .request) 0 [.bytes (connectText ++ ascii "x")] =
        some (.over es 1 .closed) :=
  ⟨by decide +kernel, (doParse_upgrade (inv_init .request) (by decide) (by decide)
    (by decide +kernel) (by decide +kernel) []).1⟩

end Read

end FiberProxy.Http.ByteParser
