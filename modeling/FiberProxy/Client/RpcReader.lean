/-
  FiberProxy.Client.RpcReader

  What the bytes of a backend can do to an RPC client.

    * `contained_iff` — the reader fiber ends through its cleanup, whatever it
      reads, except where the unpacker finds the bytes malformed: `execute` is
      called outside the `try`, and the exception leaves the fiber.
    * `isolates_iff` — a response reaches the call of its id and no other, except
      where its error is neither nil nor a string, or the message is too large:
      the cleanup then fails every call that is under way.
-/

import FiberProxy.Client.FutureTable
import FiberProxy.Client.RpcClient

namespace FiberProxy.Client.Rpc

open Lib

variable {mp : Msgpack} {pack : UInt32 → Bytes → Bytes → Bytes}

/-! ## The calls' fibers leave the reader alone -/

theorem reading_of_stepsTo {kind : Kind} {s s' : MuxClient} {e : Client.Event}
    (h : Client.StepsTo kind s e s') (he : ∀ errinfo, e ≠ .readerFail errinfo)
    (hr : s.reading = true) : s'.reading = true := by
  cases h with
  | readerFail errinfo => exact absurd rfl (he errinfo)
  | writeDone => rfl
  | _ => exact hr

theorem not_readerFail_of_fiberEvents {s : RpcClient mp} {e : Event} {es : List Client.Event}
    (he : s.fiberEvents e = some es) : ∀ f ∈ es, ∀ errinfo, f ≠ .readerFail errinfo := by
  cases e with
  | send path reqdata =>
    simp only [RpcClient.fiberEvents] at he
    split at he <;> obtain rfl := Option.some.inj he <;> simp
  | fiber e =>
    simp only [RpcClient.fiberEvents] at he
    split at he
    · obtain rfl := Option.some.inj he
      rintro f hf errinfo rfl
      obtain rfl := List.mem_singleton.mp hf
      simp [RpcClient.allows] at *
    · simp at he
  | issue | bytes | readError => simp [RpcClient.fiberEvents] at he

theorem reading_of_fiber {s : RpcClient mp} {e : Event} {es : List Client.Event}
    {mux : MuxClient} (he : s.fiberEvents e = some es)
    (hrun : run (Client.step (.rpc pack)) s.mux es = some mux) (hr : s.mux.reading = true) :
    mux.reading = true := by
  have hes := not_readerFail_of_fiberEvents he
  -- on the steps, from any state with a reader
  generalize s.mux = m at hrun hr
  clear he
  induction es generalizing m with
  | nil =>
    obtain rfl : m = mux := by simpa using hrun
    exact hr
  | cons f fs ih =>
    obtain ⟨m', hf, hfs⟩ := run_cons_eq_some.mp hrun
    obtain ⟨hfail, hes⟩ := List.forall_mem_cons.mp hes
    exact ih hes m' hfs (reading_of_stepsTo (Client.stepsTo_of_step hf) hfail hr)

/-! ## The reader's end -/

/-- What the cleanup is for: the session is closed, a connect under way included; every
    listed future has the failure and none is listed any more; and the next call that is
    written starts a reader with a fresh unpacker. -/
structure CleanedUp (pack : UInt32 → Bytes → Bytes → Bytes) (s t : RpcClient mp)
    (errinfo : Bytes) : Prop where
  closed : t.mux.isOpen = false ∧ (t.mux.connecting = true → t.aborted = true)
  failed : ∀ id k, s.mux.futureList id = some k →
    ∃ c, t.mux.calls[k]? = some c ∧ c.future = setResult errinfo false true
  empty : ∀ id, t.mux.futureList id = none
  ended : t.mux.reading = false ∧ t.read = .idle
  restarts : ∀ k u, step pack t (.fiber (.writeDone k)) = some u →
    u.unpacker = mp.decoder.init ∧ u.parsed = 0 ∧ (step pack u .issue).isSome = true

/-- A step from which no exception leaves the reader, and which ends the reader only
    through its cleanup. -/
def Contained (pack : UInt32 → Bytes → Bytes → Bytes) (s : RpcClient mp) (e : Event) : Prop :=
  ∀ t, step pack s e = some t →
    t.escaped = false ∧
      (s.mux.reading = true → t.mux.reading = false →
        ∃ u errinfo, s.cleanupAt e = some (u, errinfo) ∧ CleanedUp pack u t errinfo)

/-- The bytes of a read are not malformed, unless the read is too large or a message before
    them cannot be read. -/
def NotMalformed (s : RpcClient mp) : Event → Prop
  | .bytes bs => s.parsed + bs.length ≤ maxMessage →
      (∀ msg ∈ (mp.decoder.decode s.unpacker s.parsed bs).1, (mp.response msg).isSome = true) →
      (mp.decoder.decode s.unpacker s.parsed bs).2 ≠ .malformed
  | _ => True

instance (s : RpcClient mp) (e : Event) : Decidable (NotMalformed s e) :=
  match e with
  | .bytes _ => by unfold NotMalformed; infer_instance
  | .send .. | .fiber _ | .issue | .readError _ => .isTrue trivial

theorem turn_eq_escape_iff (s : RpcClient mp) (bs : Bytes) :
    (∃ t, s.turn bs = .escape t) ↔ ¬ NotMalformed s (.bytes bs) := by
  unfold RpcClient.turn
  simp only [NotMalformed]
  rw [← handleMessages_snd mp s.mux]
  by_cases hsize : maxMessage < s.parsed + bs.length
  · simp [hsize]
  · rw [if_neg hsize]
    generalize handleMessages mp s.mux _ = handled
    -- only a turn that has handled all messages comes to the malformed bytes
    cases (mp.decoder.decode s.unpacker s.parsed bs).2 with
    | more unpacker parsed => cases hh : handled.2 <;> simp [RpcClient.endTurn, hh]
    | malformed =>
      have hle : s.parsed + bs.length ≤ maxMessage := by omega
      cases hh : handled.2 <;> simp [RpcClient.endTurn, hh, hle]

/-- The next reader after a cleanup. -/
theorem restarts_of_fail {s u : RpcClient mp} {errinfo : Bytes} {k : Nat}
    (h : step pack (s.fail errinfo) (.fiber (.writeDone k)) = some u) :
    u.unpacker = mp.decoder.init ∧ u.parsed = 0 ∧ (step pack u .issue).isSome = true := by
  have hlive : (s.fail errinfo).escaped = false := live_of_step h
  cases stepsTo_of_step h with
  | @moved _ es mux he hrun =>
    obtain rfl := Option.some.inj he
    have hdone : Client.step (.rpc pack) (s.fail errinfo).mux (.writeDone k) = some mux := by
      simpa using hrun
    have hreading : mux.reading = true := by
      cases Client.stepsTo_of_step hdone with
      | writeDone => rfl
    refine ⟨rfl, rfl, ?_⟩
    simp only [RpcClient.fail] at hlive
    simp [step, RpcClient.moved, RpcClient.fail, hlive, hreading]
  | cleanup hr hi hc => simp [RpcClient.cleanupAt] at hc

theorem cleanedUp_fail {s : RpcClient mp} (h : Owned s.mux) (errinfo : Bytes) :
    CleanedUp pack s (s.fail errinfo) errinfo := by
  refine ⟨⟨rfl, fun hc => ?_⟩, ?_, fun _ => rfl, ⟨rfl, rfl⟩, fun k u hu => restarts_of_fail hu⟩
  · show (s.aborted || s.mux.connecting) = true
    rw [show s.mux.connecting = true from hc, Bool.or_true]
  · intro id k hk
    obtain ⟨c, hc, rfl, -⟩ := h id k hk
    refine ⟨{ c with future := setResult errinfo false true }, ?_, rfl⟩
    show (s.mux.setAllError errinfo).calls[k]? = _
    simp [MuxClient.setAllError, List.getElem?_mapIdx, hc, hk]

theorem contained_step_iff {s t : RpcClient mp} {e : Event} (ho : Owned s.mux)
    (h : step pack s e = some t) : Contained pack s e ↔ NotMalformed s e := by
  have hlive := live_of_step h
  have hsteps := stepsTo_of_step h
  constructor
  · intro hc
    obtain ⟨hescaped, -⟩ := hc t h
    by_contra hmal
    cases e with
    | bytes bs =>
      -- a turn that meets malformed bytes is a step that escapes
      obtain ⟨u, hu⟩ := (turn_eq_escape_iff s bs).mpr hmal
      cases hsteps with
      | moved he => simp [RpcClient.fiberEvents] at he
      | next hr ht => simp [hu] at ht
      | cleanup hr hi hc => simp [RpcClient.cleanupAt, hu] at hc
      | escape hr ht => simp at hescaped
    | send | fiber | issue | readError => exact hmal trivial
  · intro hmal t' ht'
    obtain rfl : t = t' := Option.some.inj (h.symm.trans ht')
    cases hsteps with
    | moved he hrun =>
      refine ⟨hlive, fun hr hend => ?_⟩
      have : (s.moved _).mux.reading = true := reading_of_fiber he hrun hr
      simp [hend] at this
    | issue hr hi =>
      refine ⟨hlive, fun _ hend => ?_⟩
      simp [hr] at hend
    | @next bs t hr ht =>
      obtain ⟨hsame, -⟩ := turn_state s bs
      obtain ⟨-, -, hreading⟩ := turn_run pack hr bs
      rw [ht] at hsame hreading
      refine ⟨hsame.escaped.trans hlive, fun _ hend => ?_⟩
      exact absurd (hreading.symm.trans hend) (by simp)
    | @cleanup e u errinfo hr hi hc =>
      obtain ⟨es, hes, -⟩ := cleanupAt_run pack hr hc
      refine ⟨?_, fun _ _ => ⟨u, errinfo, hc, cleanedUp_fail (owned_of_run ho hes) errinfo⟩⟩
      exact (cleanupAt_same hc).escaped.trans hlive
    | @escape bs u hr ht => exact absurd hmal ((turn_eq_escape_iff s bs).mp ⟨u, ht⟩)

/-- **Arbitrary bytes are contained, exactly.** In every run of an RPC client no exception
    leaves the reader fiber, and the reader ends only through its cleanup, exactly when the
    unpacker meets malformed bytes in no read. -/
theorem contained_iff {es : List Event} {t : RpcClient mp}
    (hrun : run (step pack) {} es = some t) :
    Along (step pack) (Contained pack) ({} : RpcClient mp) es ↔
      Along (step pack) NotMalformed ({} : RpcClient mp) es := by
  have hinv (s : RpcClient mp) (e : Event) (s' : RpcClient mp) (ho : Owned s.mux)
      (he : step pack s e = some s') : Owned s'.mux := by
    obtain ⟨fs, hfs⟩ := (stepsTo_of_step he).refines
    exact owned_of_run ho hfs
  exact along_congr hinv (fun s e s' ho he => contained_step_iff ho he) owned_init hrun

/-- One call is answered, then the backend closes the connection. -/
def answeredRun : List Event :=
  [.send [97] [1], .fiber (.connected 0 .ok), .fiber (.writeSome 0 6), .fiber (.writeDone 0),
    .issue, .bytes [0x94, 1, 1], .bytes [0xc0, 7], .readError (ascii "End of file")]

theorem answeredRun_contained :
    Along (step fixRequest) (Contained fixRequest) ({} : RpcClient fixMsgpack) answeredRun := by
  have hsome : (run (step fixRequest) ({} : RpcClient fixMsgpack) answeredRun).isSome = true := by
    decide +kernel
  obtain ⟨t, hrun⟩ := Option.isSome_iff_exists.mp hsome
  exact (contained_iff hrun).mpr (by decide +kernel)

/-- The byte `0xc1`, which begins no object, takes the reader fiber down, and the call that
    is waiting is left as it was. -/
theorem malformed_escapes :
    ∃ t c, run (step fixRequest) ({} : RpcClient fixMsgpack)
        [.send [97] [1], .fiber (.connected 0 .ok), .fiber (.writeSome 0 6),
          .fiber (.writeDone 0), .issue, .bytes [0xc1]] = some t ∧
      t.escaped = true ∧ t.mux.isOpen = true ∧ t.mux.reading = true ∧
      t.mux.calls[0]? = some c ∧ c.phase = .waiting ∧ c.future.done = false :=
  ⟨_, _, rfl, rfl, rfl, rfl, rfl, rfl, rfl⟩

/-! ## One message, one call -/

/-- A message resolves at most the future of its own id, and the connection and the other
    futures are as they were. -/
structure Resolved (mp : Msgpack) (m : MsgResponse) (s s' : MuxClient) : Prop where
  own : ∀ (k : Nat) c, s.calls[k]? = some c → s.futureList m.msgid = some k →
    ∃ rsp isSuccess, s'.calls[k]? = some { c with future := setResult rsp isSuccess false } ∧
      (m.err = .nil → rsp = mp.pack m.result ∧ isSuccess = true) ∧
      (m.err ≠ .nil → isSuccess = false)
  others : ∀ k : Nat, s.futureList m.msgid ≠ some k → s'.calls[k]? = s.calls[k]?
  unlisted : s'.futureList m.msgid = none
  listed : ∀ id, id ≠ m.msgid → s'.futureList id = s.futureList id
  isOpen : s'.isOpen = s.isOpen
  connecting : s'.connecting = s.connecting
  conn : s'.conn = s.conn
  wire : s'.wire = s.wire
  reading : s'.reading = s.reading

/-- The messages of a read, one after the other. -/
inductive ResolvedAll (mp : Msgpack) : List MsgResponse → MuxClient → MuxClient → Prop where
  | nil (s : MuxClient) : ResolvedAll mp [] s s
  | cons {m : MsgResponse} {ms : List MsgResponse} {s s' t : MuxClient}
      (h : Resolved mp m s s') (hs : ResolvedAll mp ms s' t) : ResolvedAll mp (m :: ms) s t

/-- A read brings responses, and each of them resolves its own call. -/
def Isolates (pack : UInt32 → Bytes → Bytes → Bytes) (s : RpcClient mp) : Event → Prop
  | .bytes bs => ∀ t, step pack s (.bytes bs) = some t →
      ∃ ms, (mp.decoder.decode s.unpacker s.parsed bs).1 = ms.map MsgResponse.obj ∧
        ResolvedAll mp ms s.mux t.mux ∧ SameSession s t
  | _ => True

/-- The error of a response is nil or a string. -/
def MsgResponse.Plain (m : MsgResponse) : Prop := m.err = .nil ∨ ∃ bs, m.err = .raw bs

/-- A read keeps the message within the limit. -/
def Fits (s : RpcClient mp) : Event → Prop
  | .bytes bs => s.parsed + bs.length ≤ maxMessage
  | _ => True

instance (s : RpcClient mp) (e : Event) : Decidable (Fits s e) :=
  match e with
  | .bytes bs => inferInstanceAs (Decidable (s.parsed + bs.length ≤ maxMessage))
  | .send .. | .fiber _ | .issue | .readError _ => .isTrue trivial

/-- The bytes that the reader has read. -/
def received (es : List Event) : Bytes :=
  es.flatMap fun
    | .bytes bs => bs
    | _ => []

def Event.isReadError : Event → Bool
  | .readError _ => true
  | _ => false

/-- `set_response` as the message's own effect. -/
theorem resolved_setResponse {m : MsgResponse} {rsp : Bytes} {isSuccess : Bool}
    (hnil : m.err = .nil → rsp = mp.pack m.result ∧ isSuccess = true)
    (herr : m.err ≠ .nil → isSuccess = false) (s : MuxClient) :
    Resolved mp m s (s.setResponse m.msgid rsp isSuccess false) where
  own := by
    intro k c hc hk
    refine ⟨rsp, isSuccess, ?_, hnil, herr⟩
    simp [MuxClient.setResponse, hk, hc]
  others := by
    intro k hk
    unfold MuxClient.setResponse
    cases hj : s.futureList m.msgid with
    | none => rfl
    | some j =>
      have hjk : j ≠ k := by
        rintro rfl
        exact hk hj
      simp [hjk]
  unlisted := Function.update_self ..
  listed id hid := Function.update_of_ne hid ..
  isOpen := rfl
  connecting := rfl
  conn := rfl
  wire := rfl
  reading := rfl

theorem response_obj (m : MsgResponse) :
    (mp.response m.obj).isSome = true ↔ m.Plain := by
  simp only [Msgpack.response, MsgResponse.Plain, mp.convert_obj]
  cases h : m.err <;> simp

/-- A plain message is handled as its own effect. -/
theorem handleMessages_cons_plain {m : MsgResponse} (hm : m.Plain) (s : MuxClient)
    (msgs : List Obj) :
    ∃ s', Resolved mp m s s' ∧
      handleMessages mp s (m.obj :: msgs) = handleMessages mp s' msgs := by
  rcases hm with hnil | ⟨bs, hraw⟩
  · refine ⟨s.setResponse m.msgid (mp.pack m.result) true false,
      resolved_setResponse (fun _ => ⟨rfl, rfl⟩) (fun h => absurd hnil h) s, ?_⟩
    simp only [handleMessages, Msgpack.response, mp.convert_obj, hnil]
  · have hne : m.err ≠ .nil := by simp [hraw]
    refine ⟨s.setResponse m.msgid bs false false,
      resolved_setResponse (fun h => absurd h hne) (fun _ => rfl) s, ?_⟩
    simp only [handleMessages, Msgpack.response, mp.convert_obj, hraw]

theorem resolvedAll_of_plain {ms : List MsgResponse} (h : ∀ m ∈ ms, m.Plain) (s : MuxClient) :
    ResolvedAll mp ms s (handleMessages mp s (ms.map MsgResponse.obj)).1 := by
  induction ms generalizing s with
  | nil => exact .nil s
  | cons m ms ih =>
    obtain ⟨hm, hms⟩ := List.forall_mem_cons.mp h
    -- the first message has its effect, the others follow from there
    obtain ⟨s', hs', heq⟩ := handleMessages_cons_plain hm s (ms.map MsgResponse.obj)
    rw [List.map_cons, heq]
    exact .cons hs' (ih hms s')

theorem ResolvedAll.reading {ms : List MsgResponse} {s t : MuxClient}
    (h : ResolvedAll mp ms s t) : t.reading = s.reading := by
  induction h with
  | nil => rfl
  | cons h _ ih => rw [ih, h.reading]

/-! ## A stream of responses -/

/-- A read that brings whole responses and the beginning of another message. -/
theorem turn_of_responses {s : RpcClient mp} {bs : Bytes} {ms : List MsgResponse}
    {unpacker : mp.decoder.σ} {parsed : Nat}
    (hd : mp.decoder.decode s.unpacker s.parsed bs =
      (ms.map MsgResponse.obj, .more unpacker parsed)) :
    (Fits s (.bytes bs) ∧ (∀ m ∈ ms, m.Plain) ∧
      s.turn bs = .next { s with
        mux := (handleMessages mp s.mux (ms.map MsgResponse.obj)).1
        unpacker := unpacker, parsed := parsed, read := s.nextRead }) ∨
    (¬ (Fits s (.bytes bs) ∧ ∀ m ∈ ms, m.Plain) ∧ ∃ t errinfo, s.turn bs = .fail t errinfo) := by
  have hplain : (handleMessages mp s.mux (ms.map MsgResponse.obj)).2 = true ↔
      ∀ m ∈ ms, m.Plain := by
    rw [handleMessages_snd, List.forall_mem_map]
    exact forall₂_congr fun m _ => response_obj m
  by_cases hsize : Fits s (.bytes bs)
  · have hle : ¬ maxMessage < s.parsed + bs.length := Nat.not_lt.mpr hsize
    unfold RpcClient.turn
    rw [if_neg hle, hd]
    by_cases hms : ∀ m ∈ ms, m.Plain
    · exact .inl ⟨hsize, hms, by simp only [RpcClient.endTurn, hplain.mpr hms, if_true]⟩
    · refine .inr ⟨fun h => hms h.2,
        { s with mux := (handleMessages mp s.mux (ms.map MsgResponse.obj)).1 }, mp.typeError, ?_⟩
      simp only [RpcClient.endTurn, mt hplain.mp hms, Bool.false_eq_true, if_false]
  · have hlt : maxMessage < s.parsed + bs.length := Nat.lt_of_not_le hsize
    refine .inr ⟨fun h => hsize h.1, s, rspTooLargeErr, ?_⟩
    unfold RpcClient.turn
    rw [if_pos hlt]

theorem eq_of_turn_next {s t u : RpcClient mp} {bs : Bytes}
    (h : step pack s (.bytes bs) = some t) (hu : s.turn bs = .next u) : t = u := by
  cases stepsTo_of_step h with
  | moved he => simp [RpcClient.fiberEvents] at he
  | next hr ht => exact Turn.next.inj (ht.symm.trans hu)
  | escape hr ht => simp [hu] at ht
  | cleanup hr hi hc => simp [RpcClient.cleanupAt, hu] at hc

/-- The events of the calls' fibers, and the reader's first read. -/
theorem unread_of_step {s t : RpcClient mp} {e : Event} (h : step pack s e = some t)
    (hbytes : ∀ bs, e ≠ .bytes bs) (herr : e.isReadError = false) (hr : s.mux.reading = true) :
    t.unpacker = s.unpacker ∧ t.parsed = s.parsed ∧ t.mux.reading = true ∧
      received [e] = [] := by
  cases stepsTo_of_step h with
  | @moved _ es mux he hrun =>
    refine ⟨rfl, rfl, reading_of_fiber he hrun hr, ?_⟩
    cases e with
    | bytes bs => exact absurd rfl (hbytes bs)
    | _ => rfl
  | issue => exact ⟨rfl, rfl, hr, rfl⟩
  | next => exact absurd rfl (hbytes _)
  | escape => exact absurd rfl (hbytes _)
  | cleanup _ _ hc =>
    rcases cleanupAt_eq_some hc with ⟨rfl, -⟩ | ⟨bs, rfl, -⟩
    · simp [Event.isReadError] at herr
    · exact absurd rfl (hbytes bs)

/-- A read of plain responses within the limit resolves their calls. -/
theorem isolates_of_turn_next {s t : RpcClient mp} {bs : Bytes} {ms : List MsgResponse}
    {unpacker : mp.decoder.σ} {parsed : Nat} (h : step pack s (.bytes bs) = some t)
    (hd : mp.decoder.decode s.unpacker s.parsed bs =
      (ms.map MsgResponse.obj, .more unpacker parsed))
    (hplain : ∀ m ∈ ms, m.Plain)
    (ht : t = { s with
      mux := (handleMessages mp s.mux (ms.map MsgResponse.obj)).1
      unpacker := unpacker, parsed := parsed, read := s.nextRead }) :
    Isolates pack s (.bytes bs) := by
  intro t' ht'
  obtain rfl := Option.some.inj (h.symm.trans ht')
  subst ht
  exact ⟨ms, by rw [hd], resolvedAll_of_plain hplain s.mux, ⟨rfl, rfl, rfl, rfl⟩⟩

/-- A read that ends the reader does more than resolve calls. -/
theorem not_isolates_of_turn_fail {s t u : RpcClient mp} {bs errinfo : Bytes}
    (h : step pack s (.bytes bs) = some t) (hr : s.mux.reading = true)
    (ht : s.turn bs = .fail u errinfo) : ¬ Isolates pack s (.bytes bs) := by
  intro hiso
  obtain rfl := eq_fail_of_cleanupAt h (by rw [RpcClient.cleanupAt, ht])
  obtain ⟨ms, -, hall, -⟩ := hiso _ h
  have := hall.reading
  simp [RpcClient.fail, hr] at this

theorem isolates_of_reader {es : List Event} {s t : RpcClient mp} {ms : List MsgResponse}
    {unpacker : mp.decoder.σ} {parsed : Nat} (hr : s.mux.reading = true)
    (herr : ∀ e ∈ es, e.isReadError = false) (hrun : run (step pack) s es = some t)
    (hd : mp.decoder.decode s.unpacker s.parsed (received es) =
      (ms.map MsgResponse.obj, .more unpacker parsed)) :
    Along (step pack) (Isolates pack) s es ↔
      (∀ m ∈ ms, m.Plain) ∧ Along (step pack) Fits s es := by
  -- on the events; the unpacker's state and what is still to come vary
  induction es generalizing s ms with
  | nil =>
    obtain rfl : ms = [] := by
      have := congrArg Prod.fst hd
      simpa [received, Decoder.decode] using this.symm
    simp
  | cons e es ih =>
    obtain ⟨s', he, hes⟩ := run_cons_eq_some.mp hrun
    obtain ⟨herr₁, herr₂⟩ := List.forall_mem_cons.mp herr
    rw [along_cons he, along_cons he]
    cases e with
    | bytes bs =>
      rw [show received (.bytes bs :: es) = bs ++ received es from rfl,
        Decoder.decode_append] at hd
      cases hbs : mp.decoder.decode s.unpacker s.parsed bs with
      | mk os tail =>
      cases tail with
      | malformed => simp [hbs] at hd
      | more unpacker' parsed' =>
        rw [hbs] at hd
        obtain ⟨hmsgs, htail⟩ := Prod.mk.inj hd
        obtain ⟨ms₁, ms₂, rfl, rfl, hms₂⟩ := List.map_eq_append_iff.mp hmsgs.symm
        rcases turn_of_responses hbs with ⟨hfits, hplain, ht⟩ | ⟨hnot, u, errinfo, ht⟩
        · have hiso := isolates_of_turn_next he hbs hplain (eq_of_turn_next he ht)
          obtain rfl := eq_of_turn_next he ht
          have hr' := (handleMessages_reading mp s.mux (ms₁.map MsgResponse.obj)).trans hr
          rw [ih hr' herr₂ hes (Prod.ext hms₂.symm htail), List.forall_mem_append]
          constructor
          · rintro ⟨-, hms, hall⟩
            exact ⟨⟨hplain, hms⟩, hfits, hall⟩
          · rintro ⟨⟨-, hms⟩, -, hall⟩
            exact ⟨hiso, hms, hall⟩
        · have hiso := not_isolates_of_turn_fail he hr ht
          refine iff_of_false (fun h => hiso h.1) fun h => hnot ⟨h.2.1, fun m hm => ?_⟩
          exact h.1 m (List.mem_append_left _ hm)
    | _ =>
      obtain ⟨hu, hp, hr', -⟩ := unread_of_step he (by simp) herr₁ hr
      rw [ih hr' herr₂ hes (by rw [hu, hp]; exact hd)]
      simp [Isolates, Fits]

/-- **One bad answer fails one call, exactly.** A reader with a fresh unpacker reads a
    stream of responses, cut into reads in any way, while the calls go on.  Each response
    resolves its own call and leaves the rest alone exactly when every error is nil or a
    string, and no read takes a message over the limit. -/
theorem isolates_iff {es : List Event} {s t : RpcClient mp} {ms : List MsgResponse}
    {unpacker : mp.decoder.σ} {parsed : Nat} (hr : s.mux.reading = true)
    (hnew : s.unpacker = mp.decoder.init ∧ s.parsed = 0)
    (herr : ∀ e ∈ es, e.isReadError = false) (hrun : run (step pack) s es = some t)
    (hd : mp.decoder.decode mp.decoder.init 0 (received es) =
      (ms.map MsgResponse.obj, .more unpacker parsed)) :
    Along (step pack) (Isolates pack) s es ↔
      (∀ m ∈ ms, m.Plain) ∧ Along (step pack) Fits s es :=
  isolates_of_reader hr herr hrun (by rw [hnew.1, hnew.2]; exact hd)

/-- Two calls wait for their responses. -/
def twoCalls : List Event :=
  [.send [97] [1], .fiber (.connected 0 .ok), .send [98] [2], .fiber (.writeSome 0 6),
    .fiber (.writeDone 0), .fiber (.writeSome 1 6), .fiber (.writeDone 1), .issue]

/-- The second call fails with `"e"` and the first one has the result `7`, in two reads. -/
theorem twoCalls_isolates :
    ∃ s t, run (step fixRequest) ({} : RpcClient fixMsgpack) twoCalls = some s ∧
      run (step fixRequest) s
        [.bytes [0x94, 1, 2], .bytes [0xa1, 101, 0xc0, 0x94, 1, 1, 0xc0, 7]] = some t ∧
      Along (step fixRequest) (Isolates fixRequest) s
        [.bytes [0x94, 1, 2], .bytes [0xa1, 101, 0xc0, 0x94, 1, 1, 0xc0, 7]] := by
  have hd : fixMsgpack.decoder.decode fixMsgpack.decoder.init 0
      [0x94, 1, 2, 0xa1, 101, 0xc0, 0x94, 1, 1, 0xc0, 7] =
      (List.map MsgResponse.obj [⟨2, .raw [101], .nil⟩, ⟨1, .nil, .positive 7⟩],
        .more fixMsgpack.decoder.init 0) := rfl
  refine ⟨_, _, rfl, rfl, (isolates_iff rfl ⟨rfl, rfl⟩ ?_ rfl hd).mpr ⟨?_, by decide +kernel⟩⟩
  · simp [Event.isReadError]
  · simp [MsgResponse.Plain]

/-- The first call's error is the number 42: both calls fail and are to be retried, and the
    session is closed. -/
theorem numberError_fails_all :
    ∃ s t c, run (step fixRequest) ({} : RpcClient fixMsgpack) twoCalls = some s ∧
      fixMsgpack.decoder.decode s.unpacker s.parsed [0x94, 1, 1, 42, 0xc0] =
        ([MsgResponse.obj ⟨1, .positive 42, .nil⟩], .more fixMsgpack.decoder.init 0) ∧
      step fixRequest s (.bytes [0x94, 1, 1, 42, 0xc0]) = some t ∧
      ¬ Isolates fixRequest s (.bytes [0x94, 1, 1, 42, 0xc0]) ∧ t.mux.isOpen = false ∧
      t.mux.calls[1]? = some c ∧ c.id = 2 ∧
      c.future = setResult (ascii "std::bad_cast") false true := by
  refine ⟨_, _, _, rfl, rfl, rfl, fun h => ?_, rfl, rfl, rfl, rfl⟩
  obtain ⟨ms, -, hall, -⟩ := h _ rfl
  exact absurd hall.reading (by decide)

end FiberProxy.Client.Rpc
