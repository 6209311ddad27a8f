/-
  FiberProxy.Client.RpcClient

  `FibpRpcClient` with its reader fiber: `handle_read`
  (`forward-manager/FibpClient.cpp`) fed with the bytes of the socket.  The calls,
  the futures and the session are those of `FiberProxy.Client.MuxClient`; what is
  added is the unpacker, the read the reader has in progress, and what its failure
  does to a connect that is under way.

  A connection is known by the number of its connect, which the source does not
  keep: the read in progress belongs to the connection that was there when it was
  issued, and a call to the one its write began on.

  msgpack is not part of the repository.  Its decoder takes bytes until it has an
  object or finds them malformed, which is where `unpacker::execute` throws.
-/

import FiberProxy.Client.MuxClient
import FiberProxy.Lib.Decoder

namespace FiberProxy.Client.Rpc

open Lib

/-- `msgpack::object`. -/
inductive Obj where
  | nil
  | bool (b : Bool)
  | positive (n : Nat)
  | negative (n : Int)
  | double (bits : UInt64)
  | raw (bs : Bytes)
  | array (os : List Obj)
  | map (ms : List (Obj × Obj))

/-- `struct msg_response`; its `type` is converted and not read. -/
structure MsgResponse where
  msgid : UInt32
  err : Obj
  result : Obj

/-- The message `[1, msgid, error, result]`. -/
def MsgResponse.obj (m : MsgResponse) : Obj :=
  .array [.positive 1, .positive m.msgid.toNat, m.err, m.result]

/-- What the client uses of msgpack. -/
structure Msgpack where
  decoder : Decoder Obj
  /-- `packer::pack`. -/
  pack : Obj → Bytes
  /-- `convert(&rpc_rsp)`; `none`: `type_error`. -/
  convert : Obj → Option MsgResponse
  /-- The `what()` of a `type_error`. -/
  typeError : Bytes
  convert_obj : ∀ m : MsgResponse, convert m.obj = some m

/-- The limit of `message_size()`. -/
def maxMessage : Nat := 10 * 1024 * 1024

/-- `SERVER_RSP_TOO_LARGE_ERR`. -/
def rspTooLargeErr : Bytes := ascii "Server Response Too Large."

/-- The read of the reader fiber. -/
inductive PendingRead where
  /-- None: there is no reader, or it has not run yet. -/
  | idle
  /-- Issued on the socket of the `gen`-th connect. -/
  | on (gen : Nat)
  /-- Issued after that socket was closed: it ends with an error. -/
  | closed (gen : Nat)
deriving DecidableEq, Repr

/-- The connect whose socket is read. -/
def PendingRead.gen : PendingRead → Option Nat
  | .idle => none
  | .on gen | .closed gen => some gen

/-- Whether the read can end with bytes. -/
def PendingRead.open? : PendingRead → Bool
  | .on _ => true
  | _ => false

structure RpcClient (mp : Msgpack) where
  mux : MuxClient := {}
  unpacker : mp.decoder.σ := mp.decoder.init
  /-- The bytes of the message that is not complete. -/
  parsed : Nat := 0
  read : PendingRead := .idle
  /-- How many connects were begun. -/
  gen : Nat := 0
  /-- The socket of the connect under way has been closed. -/
  aborted : Bool := false
  /-- The connection on which the write of a call began. -/
  sentOn : Nat → Option Nat := fun _ => none
  /-- An exception has left the reader fiber. -/
  escaped : Bool := false

inductive Event where
  /-- A fiber calls `send_request`. -/
  | send (path reqdata : Bytes)
  /-- Another step of a call's fiber. -/
  | fiber (e : Client.Event)
  /-- The reader fiber runs for the first time. -/
  | issue
  /-- The reader's read ends, with bytes or with an error. -/
  | bytes (bs : Bytes)
  | readError (msg : Bytes)

section Step

variable {mp : Msgpack}

/-- The read that the reader issues now. -/
def RpcClient.nextRead (s : RpcClient mp) : PendingRead :=
  -- the socket is open while it is being connected
  if s.mux.isOpen || s.mux.connecting then .on s.gen else .closed s.gen

/-- The number of connects begun when a call's fiber has stepped to `mux`. -/
def RpcClient.genAfter (s : RpcClient mp) (mux : MuxClient) : Nat :=
  if mux.connecting && !s.mux.connecting then s.gen + 1 else s.gen

/-- A call's write belongs to the connect that was the last when it began. -/
def RpcClient.sentOnAfter (s : RpcClient mp) (mux : MuxClient) (k : Nat) : Option Nat :=
  match s.sentOn k, (mux.calls[k]?).map Call.phase with
  | none, some (.writing _ _) => some (s.genAfter mux)
  | gen, _ => gen

/-- A call's fiber has stepped to `mux`. -/
def RpcClient.moved (s : RpcClient mp) (mux : MuxClient) : RpcClient mp :=
  { s with
    mux := mux
    gen := s.genAfter mux
    aborted := mux.connecting && s.aborted
    sentOn := s.sentOnAfter mux }

/-- `rpc_fail`: the reader's cleanup. -/
def RpcClient.fail (s : RpcClient mp) (errinfo : Bytes) : RpcClient mp :=
  { s with
    mux := { s.mux.setAllError errinfo with reading := false, isOpen := false }
    unpacker := mp.decoder.init
    parsed := 0
    read := .idle
    aborted := s.aborted || s.mux.connecting }

/-- What the reader makes of a message: the arguments of `set_response`, or `none` where
    a conversion throws. -/
def Msgpack.response (mp : Msgpack) (msg : Obj) : Option (UInt32 × Bytes × Bool) :=
  match mp.convert msg with
  | none => none
  | some m =>
    match m.err with
    | .nil => some (m.msgid, mp.pack m.result, true)
    | .raw bs => some (m.msgid, bs, false)
    -- `err.convert(&rsp)` throws
    | _ => none

/-- The messages are handled in order; `false`: up to one that throws. -/
def handleMessages (mp : Msgpack) (s : MuxClient) : List Obj → MuxClient × Bool
  | [] => (s, true)
  | msg :: msgs =>
    match mp.response msg with
    | none => (s, false)
    | some (msgid, rsp, ret) => handleMessages mp (s.setResponse msgid rsp ret false) msgs

/-- How the reader's turn ends: with another read, in the cleanup, or with an exception. -/
inductive Turn (mp : Msgpack) where
  | next (s : RpcClient mp)
  | fail (s : RpcClient mp) (errinfo : Bytes)
  | escape (s : RpcClient mp)

/-- The end of the reader's turn when `handled` says what became of the messages. -/
def RpcClient.endTurn (s : RpcClient mp) (handled : MuxClient × Bool) :
    Tail mp.decoder.σ → Turn mp
  | .more unpacker parsed =>
    if handled.2 then
      .next { s with
        mux := handled.1, unpacker := unpacker, parsed := parsed, read := s.nextRead }
    else .fail { s with mux := handled.1 } mp.typeError
  | .malformed =>
    -- `execute` is called outside the `try`
    if handled.2 then .escape { s with mux := handled.1 }
    else .fail { s with mux := handled.1 } mp.typeError

/-- The reader's turn after a read of `bs`. -/
def RpcClient.turn (s : RpcClient mp) (bs : Bytes) : Turn mp :=
  -- the size is looked at before the bytes
  if maxMessage < s.parsed + bs.length then .fail s rspTooLargeErr
  else
    s.endTurn (handleMessages mp s.mux (mp.decoder.decode s.unpacker s.parsed bs).1)
      (mp.decoder.decode s.unpacker s.parsed bs).2

/-- The state in which an event brings the reader to its cleanup, and the error. -/
def RpcClient.cleanupAt (s : RpcClient mp) : Event → Option (RpcClient mp × Bytes)
  | .readError msg => some (s, msg)
  | .bytes bs =>
    match s.turn bs with
    | .fail t errinfo => some (t, errinfo)
    | _ => none
  | _ => none

/-- The steps of a call's fiber that `Event.fiber` stands for; a connect whose socket has
    been closed does not succeed. -/
def RpcClient.allows (s : RpcClient mp) : Client.Event → Bool
  | .send .. | .frame .. | .readerFail _ => false
  -- `rpc_fail` has closed the socket under it
  | .connected _ .ok => !s.aborted
  | _ => true

/-- What an event of a call's fiber is in the client's own steps.  `send_request` leaves the
    loop on `connecting_` at once when nobody is connecting. -/
def RpcClient.fiberEvents (s : RpcClient mp) : Event → Option (List Client.Event)
  | .send path reqdata =>
    if s.mux.connecting then some [.send path reqdata]
    else some [.send path reqdata, .proceed s.mux.calls.length]
  | .fiber e => if s.allows e then some [e] else none
  | _ => none

variable (pack : UInt32 → Bytes → Bytes → Bytes)

/-- A step of a call's fiber. -/
def RpcClient.fiberStep (s : RpcClient mp) (e : Event) : Option (RpcClient mp) :=
  (s.fiberEvents e).bind fun es => (run (Client.step (.rpc pack)) s.mux es).map s.moved

def step (s : RpcClient mp) (e : Event) : Option (RpcClient mp) :=
  if s.escaped then none
  else
    match e with
    | .send .. | .fiber _ => s.fiberStep pack e
    | .issue =>
      if s.mux.reading ∧ s.read = .idle then some { s with read := s.nextRead } else none
    | .bytes bs =>
      if s.mux.reading ∧ s.read.open? then
        match s.turn bs with
        | .next t => some t
        | .fail t errinfo => some (t.fail errinfo)
        | .escape t => some { t with escaped := true }
      else none
    | .readError msg =>
      if s.mux.reading ∧ s.read ≠ .idle then some (s.fail msg) else none

/-! ## What a step can do -/

inductive StepsTo (s : RpcClient mp) : Event → RpcClient mp → Prop where
  | moved {e : Event} {es : List Client.Event} {mux : MuxClient}
      (he : s.fiberEvents e = some es)
      (hrun : run (Client.step (.rpc pack)) s.mux es = some mux) : StepsTo s e (s.moved mux)
  | issue (hr : s.mux.reading = true) (hi : s.read = .idle) :
      StepsTo s .issue { s with read := s.nextRead }
  | next {bs : Bytes} {t : RpcClient mp} (hr : s.mux.reading = true)
      (ht : s.turn bs = .next t) : StepsTo s (.bytes bs) t
  | cleanup {e : Event} {t : RpcClient mp} {errinfo : Bytes} (hr : s.mux.reading = true)
      (hi : s.read ≠ .idle) (hc : s.cleanupAt e = some (t, errinfo)) :
      StepsTo s e (t.fail errinfo)
  | escape {bs : Bytes} {t : RpcClient mp} (hr : s.mux.reading = true)
      (ht : s.turn bs = .escape t) : StepsTo s (.bytes bs) { t with escaped := true }

variable {pack}

theorem live_of_step {s t : RpcClient mp} {e : Event} (h : step pack s e = some t) :
    s.escaped = false := by
  unfold step at h
  split at h
  · simp at h
  · simpa using ‹¬ s.escaped = true›

theorem stepsTo_of_fiberStep {s t : RpcClient mp} {e : Event}
    (h : s.fiberStep pack e = some t) : StepsTo pack s e t := by
  obtain ⟨es, he, h⟩ := Option.bind_eq_some_iff.mp h
  obtain ⟨mux, hrun, rfl⟩ := Option.map_eq_some_iff.mp h
  exact .moved he hrun

theorem stepsTo_of_step {s t : RpcClient mp} {e : Event} (h : step pack s e = some t) :
    StepsTo pack s e t := by
  have hlive : ¬ s.escaped = true := by simp [live_of_step h]
  unfold step at h
  rw [if_neg hlive] at h
  cases e with
  | send path reqdata | fiber e =>
    exact stepsTo_of_fiberStep h
  | issue =>
    dsimp only at h
    split at h
    · obtain rfl := Option.some.inj h
      exact .issue (‹_ ∧ _›).1 (‹_ ∧ _›).2
    · simp at h
  | readError msg =>
    dsimp only at h
    split at h
    · obtain rfl := Option.some.inj h
      exact .cleanup (‹_ ∧ _›).1 (‹_ ∧ _›).2 rfl
    · simp at h
  | bytes bs =>
    dsimp only at h
    split at h
    · rename_i hr
      have hi : s.read ≠ .idle := by
        intro hidle
        simp [hidle, PendingRead.open?] at hr
      cases ht : s.turn bs with
      | next t' =>
        rw [ht] at h
        obtain rfl := Option.some.inj h
        exact .next hr.1 ht
      | fail t' errinfo =>
        rw [ht] at h
        obtain rfl := Option.some.inj h
        refine .cleanup hr.1 hi ?_
        simp only [RpcClient.cleanupAt, ht]
      | escape t' =>
        rw [ht] at h
        obtain rfl := Option.some.inj h
        exact .escape hr.1 ht
    · simp at h

/-! ## The reader's turn -/

/-- The state in which a turn ends, before the cleanup. -/
def Turn.state : Turn mp → RpcClient mp
  | .next s | .fail s _ | .escape s => s

/-- What a turn leaves alone. -/
structure SameSession (s t : RpcClient mp) : Prop where
  gen : t.gen = s.gen
  aborted : t.aborted = s.aborted
  sentOn : t.sentOn = s.sentOn
  escaped : t.escaped = s.escaped

/-- A turn handles messages, up to one that throws, and nothing else. -/
theorem turn_state (s : RpcClient mp) (bs : Bytes) :
    SameSession s (s.turn bs).state ∧
      ∃ msgs, (s.turn bs).state.mux = (handleMessages mp s.mux msgs).1 := by
  unfold RpcClient.turn
  split
  · exact ⟨⟨rfl, rfl, rfl, rfl⟩, [], rfl⟩
  · refine ⟨?_, (mp.decoder.decode s.unpacker s.parsed bs).1, ?_⟩
    all_goals
      unfold RpcClient.endTurn
      split <;> split
    all_goals first | rfl | exact ⟨rfl, rfl, rfl, rfl⟩

/-- All messages are handled when each of them can be read. -/
theorem handleMessages_snd (mp : Msgpack) (s : MuxClient) (msgs : List Obj) :
    (handleMessages mp s msgs).2 = true ↔ ∀ msg ∈ msgs, (mp.response msg).isSome = true := by
  induction msgs generalizing s with
  | nil => simp [handleMessages]
  | cons msg msgs ih =>
    simp only [handleMessages, List.forall_mem_cons]
    cases mp.response msg with
    | none => simp
    | some r => simpa using ih (s.setResponse r.1 r.2.1 r.2.2 false)

/-! ## Refinement -/

@[simp] theorem handleMessages_reading (mp : Msgpack) (s : MuxClient) (msgs : List Obj) :
    (handleMessages mp s msgs).1.reading = s.reading := by
  induction msgs generalizing s with
  | nil => rfl
  | cons msg msgs ih =>
    simp only [handleMessages]
    cases mp.response msg with
    | none => rfl
    | some r => exact ih _

/-- Handling messages is a run of the client that reads frames. -/
theorem handleMessages_run (mp : Msgpack) {kind : Kind} {s : MuxClient} (hr : s.reading = true)
    (msgs : List Obj) : ∃ es, run (Client.step kind) s es = some (handleMessages mp s msgs).1 := by
  induction msgs generalizing s with
  | nil => exact ⟨[], rfl⟩
  | cons msg msgs ih =>
    simp only [handleMessages]
    cases mp.response msg with
    | none => exact ⟨[], rfl⟩
    | some r =>
      obtain ⟨msgid, rsp, ret⟩ := r
      obtain ⟨es, hes⟩ := ih (s := s.setResponse msgid rsp ret false) hr
      refine ⟨.frame msgid rsp ret :: es, run_cons_eq_some.mpr ⟨_, ?_, hes⟩⟩
      simp [Client.step, hr]

theorem turn_run (pack : UInt32 → Bytes → Bytes → Bytes) {s : RpcClient mp}
    (hr : s.mux.reading = true) (bs : Bytes) :
    ∃ es, run (Client.step (.rpc pack)) s.mux es = some (s.turn bs).state.mux ∧
      (s.turn bs).state.mux.reading = true := by
  obtain ⟨-, msgs, hmux⟩ := turn_state s bs
  rw [hmux, handleMessages_reading]
  obtain ⟨es, hes⟩ := handleMessages_run mp hr msgs
  exact ⟨es, hes, hr⟩

/-- The cleanup is reached at once, or at the end of a turn. -/
theorem cleanupAt_eq_some {s t : RpcClient mp} {e : Event} {errinfo : Bytes}
    (hc : s.cleanupAt e = some (t, errinfo)) :
    (e = .readError errinfo ∧ t = s) ∨ ∃ bs, e = .bytes bs ∧ s.turn bs = .fail t errinfo := by
  cases e with
  | send | fiber | issue => simp [RpcClient.cleanupAt] at hc
  | readError msg =>
    obtain ⟨rfl, rfl⟩ := Prod.mk.inj (Option.some.inj hc)
    exact .inl ⟨rfl, rfl⟩
  | bytes bs =>
    simp only [RpcClient.cleanupAt] at hc
    cases ht : s.turn bs with
    | next | escape => simp [ht] at hc
    | fail t' errinfo' =>
      obtain ⟨rfl, rfl⟩ : t' = t ∧ errinfo' = errinfo := by simpa [ht] using hc
      exact .inr ⟨bs, rfl, ht⟩

theorem eq_fail_of_cleanupAt {s t u : RpcClient mp} {e : Event} {errinfo : Bytes}
    (h : step pack s e = some t) (hc : s.cleanupAt e = some (u, errinfo)) :
    t = u.fail errinfo := by
  cases stepsTo_of_step h with
  | moved he =>
    rcases cleanupAt_eq_some hc with ⟨rfl, -⟩ | ⟨bs, rfl, -⟩ <;>
      simp [RpcClient.fiberEvents] at he
  | issue => simp [RpcClient.cleanupAt] at hc
  | next hr ht => simp [RpcClient.cleanupAt, ht] at hc
  | escape hr ht => simp [RpcClient.cleanupAt, ht] at hc
  | cleanup hr hi hc' =>
    obtain ⟨rfl, rfl⟩ := Prod.mk.inj (Option.some.inj (hc.symm.trans hc'))
    rfl

theorem cleanupAt_same {s t : RpcClient mp} {e : Event} {errinfo : Bytes}
    (hc : s.cleanupAt e = some (t, errinfo)) : SameSession s t := by
  rcases cleanupAt_eq_some hc with ⟨-, rfl⟩ | ⟨bs, -, ht⟩
  · exact ⟨rfl, rfl, rfl, rfl⟩
  · have hsame := (turn_state s bs).1
    rw [ht] at hsame
    exact hsame

/-- The state in which the cleanup is reached, as a run of the client. -/
theorem cleanupAt_run (pack : UInt32 → Bytes → Bytes → Bytes) {s t : RpcClient mp} {e : Event}
    {errinfo : Bytes}
    (hr : s.mux.reading = true) (hc : s.cleanupAt e = some (t, errinfo)) :
    ∃ es, run (Client.step (.rpc pack)) s.mux es = some t.mux ∧ t.mux.reading = true := by
  rcases cleanupAt_eq_some hc with ⟨-, rfl⟩ | ⟨bs, -, ht⟩
  · exact ⟨[], rfl, hr⟩
  · have hturn := turn_run pack hr bs
    rw [ht] at hturn
    exact hturn

/-- **Refinement.** A step of the client with its reader is a run of the client of
    `FiberProxy.Client.MuxClient`. -/
theorem StepsTo.refines {s t : RpcClient mp} {e : Event} (h : StepsTo pack s e t) :
    ∃ es, run (Client.step (.rpc pack)) s.mux es = some t.mux := by
  cases h with
  | moved he hrun => exact ⟨_, hrun⟩
  | issue hr hi => exact ⟨[], rfl⟩
  | @next bs t hr ht =>
    obtain ⟨es, hes, -⟩ := turn_run pack hr bs
    rw [ht] at hes
    exact ⟨es, hes⟩
  | @escape bs t hr ht =>
    obtain ⟨es, hes, -⟩ := turn_run pack hr bs
    rw [ht] at hes
    exact ⟨es, hes⟩
  | @cleanup e t errinfo hr hi hc =>
    obtain ⟨es, hes, hreading⟩ := cleanupAt_run pack hr hc
    refine ⟨es ++ [.readerFail errinfo], run_snoc_eq_some.mpr ⟨t.mux, hes, ?_⟩⟩
    simp [Client.step, hreading, RpcClient.fail, Kind.readerCloses]

theorem run_refines {s t : RpcClient mp} {es : List Event}
    (hrun : run (step pack) s es = some t) :
    ∃ fs, run (Client.step (.rpc pack)) s.mux fs = some t.mux := by
  refine run_induction (P := fun _ t => ∃ fs, run (Client.step (.rpc pack)) s.mux fs = some t.mux)
    ⟨[], rfl⟩ ?_ hrun
  rintro - u e u' - ⟨fs, hfs⟩ he
  obtain ⟨gs, hgs⟩ := (stepsTo_of_step he).refines
  refine ⟨fs ++ gs, ?_⟩
  rw [run_append, hfs]
  exact hgs

end Step

/-! ## The one-byte formats of msgpack -/

/-- The arrays that are open, innermost first, with the number of objects they still need;
    and the string that is being read. -/
structure FixState where
  arrays : List (Nat × List Obj) := []
  raw : Option (Nat × Bytes) := none

/-- An object ends, and with it the arrays it was the last of. -/
def FixState.complete (o : Obj) : List (Nat × List Obj) → Fed FixState Obj
  | [] => .object o
  | (needed, os) :: arrays =>
    if needed ≤ 1 then complete (.array (os ++ [o])) arrays
    else .more { arrays := (needed - 1, os ++ [o]) :: arrays }

/-- One byte: of a string, or the first of an object. -/
def FixState.feed (s : FixState) (b : UInt8) : Fed FixState Obj :=
  match s.raw with
  | some (needed, bs) =>
    if needed ≤ 1 then complete (.raw (bs ++ [b])) s.arrays
    else .more { s with raw := some (needed - 1, bs ++ [b]) }
  | none =>
    if b < 0x80 then complete (.positive b.toNat) s.arrays
    else if b < 0x90 then .malformed
    else if b = 0x90 then complete (.array []) s.arrays
    else if b < 0xa0 then .more { arrays := (b.toNat - 0x90, []) :: s.arrays }
    else if b = 0xa0 then complete (.raw []) s.arrays
    else if b < 0xc0 then .more { s with raw := some (b.toNat - 0xa0, []) }
    else if b = 0xc0 then complete .nil s.arrays
    else if b = 0xc2 then complete (.bool false) s.arrays
    else if b = 0xc3 then complete (.bool true) s.arrays
    else if b < 0xe0 then .malformed
    else complete (.negative (b.toNat - 256)) s.arrays

mutual

def fixPack : Obj → Bytes
  | .nil => [0xc0]
  | .bool b => [if b then 0xc3 else 0xc2]
  | .positive n => [UInt8.ofNat n]
  | .negative n => [UInt8.ofNat (n + 256).toNat]
  | .raw bs => UInt8.ofNat (0xa0 + bs.length) :: bs
  | .array os => UInt8.ofNat (0x90 + os.length) :: fixPackAll os
  | .double _ | .map _ => []

def fixPackAll : List Obj → Bytes
  | [] => []
  | o :: os => fixPack o ++ fixPackAll os

end

/-- `MSGPACK_DEFINE(type, msgid, err, result)`. -/
def fixConvert : Obj → Option MsgResponse
  | .array [.positive type, .positive msgid, err, result] =>
    if type < 2 ^ 8 ∧ msgid < 2 ^ 32 then some ⟨UInt32.ofNat msgid, err, result⟩ else none
  | _ => none

def fixMsgpack : Msgpack where
  decoder := { σ := FixState, init := {}, feed := FixState.feed }
  pack := fixPack
  convert := fixConvert
  typeError := ascii "std::bad_cast"
  convert_obj := by
    intro m
    have hlt : 1 < 2 ^ 8 ∧ m.msgid.toNat < 2 ^ 32 := ⟨by decide, m.msgid.toNat_lt⟩
    rw [MsgResponse.obj, fixConvert, if_pos hlt, UInt32.ofNat_toNat]

/-- A request `[0, msgid, method, params]` with the parameters packed. -/
def fixRequest (msgid : UInt32) (method params : Bytes) : Bytes :=
  [0x94, 0x00, msgid.toUInt8, UInt8.ofNat (0xa0 + method.length)] ++ method ++ params

end FiberProxy.Client.Rpc
