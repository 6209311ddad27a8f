/-
  FiberProxy.Client.GetResponse

  One call of `FibpHttpClient::get_response` (`forward-manager/FibpClient.cpp`) with the
  loop of `response::parser_impl::parse`, over the bytes of a connection that may break off
  at any point: the reads give a response, a part of one or anything else, and then the end
  of the stream, an error or a timeout.  The deadline can also close the socket between two
  reads, and the loop finds it closed.

  The call succeeds only with a response of code 200 that the parser has reported complete,
  and returns its whole body.  The parser is left between two responses unless a byte that
  begins no response comes behind a response in the read that completes it, or the loop ends
  with the socket closed inside a response (`sound_ready_iff`).
-/

import FiberProxy.Client.HttpClient
import FiberProxy.Http.OctetView

namespace FiberProxy.Client.GetResponse

open Lib Http ByteParser
open HttpClient (Ec bufSize getResponse)

/-! ## A call -/

/-- What `parse` finds in a turn of its loop. -/
inductive Given where
  /-- The read gives bytes, one at least. -/
  | read (b : UInt8) (bs : Bytes)
  | eof
  | fail (aborted : Bool)
  /-- `is_.is_open()` is false. -/
  | closed

/-- A call under way. -/
structure Call where
  impl : ResponseImpl
  /-- The callbacks that the parser has made in the call. -/
  events : List ByteParser.Event := []
  /-- The bytes that the call has read. -/
  read : Bytes := []
  /-- What `get_response` has returned. -/
  returned : Option Result := none

/-- `next_rsp_.clear()` and the beginning of `parse`. -/
def Call.start (i : ResponseImpl) : Call where
  impl := { parser := i.parser }

def Call.goOn (s : Call) (data : Bytes) (i : ResponseImpl) (es : List ByteParser.Event) : Call where
  impl := i
  events := s.events ++ es
  read := s.read ++ data

/-- `parse` returns `ret`, and `get_response` after it. -/
def Call.finish (s : Call) (data : Bytes) (i : ResponseImpl) (es : List ByteParser.Event)
    (ret : Bool) (ec : Ec) : Call :=
  { s.goOn data i es with returned := some (getResponse i.rsp ret ec) }

/-- The loop after a read of `data`. -/
def Call.parsed (s : Call) (data : Bytes) (o : Parsed) : Call :=
  -- the end of the message is asked for before `nparsed`, and with a connection that stays
  -- open `http_parser_init` is not called
  if o.impl.shouldContinue = false then
    s.finish data (if o.impl.rsp.keepAlive then o.impl else o.impl.init) o.events true .clear
  else if o.parsed ≠ data.length then s.finish data o.impl.init o.events false .clear
  else s.goOn data o.impl o.events

/-- A turn of the loop; none where an assertion of the parser fails. -/
def Call.turn (s : Call) : Given → Option Call
  | .read b bs => (s.impl.execute (b :: bs)).map (s.parsed (b :: bs))
  | .eof => (s.impl.execute []).map fun o => s.finish [] o.impl.init o.events true .eof
  | .fail aborted => some (s.finish [] s.impl.init [] false (if aborted then .aborted else .other))
  -- `http_parser_init` is not called here either
  | .closed => some (s.finish [] s.impl [] true .clear)

/-- A read fits `buf_`. -/
def Given.fits : Given → Bool
  | .read _ bs => bs.length < bufSize
  | _ => true

def step (s : Call) (g : Given) : Option Call :=
  if s.returned = none ∧ g.fits = true then s.turn g else none

/-- What the parser has reported of the last response that began in the call. -/
def Call.reported (s : Call) : Reported := s.events.foldl Reported.add {}

/-- A success comes with a complete response of code 200 and its whole body, a failure with
    the status message or the text of the timeout. -/
def Sound (s : Call) : Prop :=
  ∀ result, s.returned = some result →
    if result.isSuccess then
      (∃ p, s.reported.complete = some p ∧ p.statusCode = 200) ∧ result.rsp = s.reported.body
    else result.rsp = timeoutErr ∨ result.rsp = s.reported.status

/-- A call that has returned leaves the parser where a response begins. -/
def Ready (s : Call) : Prop := s.returned.isSome = true → s.impl.parser.Idle

/-- Wherever a read is cut, what comes behind may follow what came before.  A socket is found
    closed only while nothing but ends of lines has come. -/
def Orderly (s : Call) : Given → Prop
  | .read b bs => ∀ n, n < (b :: bs).length →
      ∀ o ∈ s.impl.execute ((b :: bs).take (n + 1)), o.MayPrecede ((b :: bs).drop (n + 1))
  | .closed => (∀ b ∈ s.read, b = 13 ∨ b = 10) ∧ s.impl.parser.nread < maxHeaderSize
  | _ => True

instance (s : Call) (g : Given) : Decidable (Orderly s g) :=
  match g with
  | .read b bs => inferInstanceAs (Decidable (∀ n, n < (b :: bs).length →
      ∀ o ∈ s.impl.execute ((b :: bs).take (n + 1)), o.MayPrecede ((b :: bs).drop (n + 1))))
  | .closed =>
    inferInstanceAs (Decidable ((∀ b ∈ s.read, b = 13 ∨ b = 10) ∧
      s.impl.parser.nread < maxHeaderSize))
  | .eof | .fail _ => .isTrue trivial

/-! ## One turn -/

/-- A call that has not returned holds what the parser has reported. -/
structure Underway (s : Call) : Prop where
  returned : s.returned = none
  continues : s.impl.shouldContinue = true
  follows : ∃ z, Follows z s.read s.impl.parser s.impl.toReception s.reported

theorem underway_start {i : ResponseImpl} (hi : i.parser.Idle) : Underway (Call.start i) :=
  ⟨rfl, rfl, .start, hi.follows⟩

section Turn

variable {s s' : Call} {data : Bytes} {i : ResponseImpl} {es : List ByteParser.Event}
  {ret : Bool} {ec : Ec}

theorem reported_goOn : (s.goOn data i es).reported = es.foldl Reported.add s.reported :=
  List.foldl_append

/-- A call that returns with what was reported. -/
theorem sound_finish (hholds : Holds i.toReception (es.foldl Reported.add s.reported))
    (hstatus : i.rsp.statusMessage = (es.foldl Reported.add s.reported).status) :
    Sound (s.finish data i es ret ec) := by
  rintro result hresult
  obtain rfl := Option.some.inj hresult
  have hreported : (s.finish data i es ret ec).reported = es.foldl Reported.add s.reported :=
    List.foldl_append
  rw [hreported]
  unfold getResponse
  by_cases hok : (ret && i.rsp.code = 200) = true
  · rw [if_pos hok]
    refine ⟨?_, hholds.body⟩
    -- 504 stands where no response is complete
    have hcode := hholds.code
    cases hcomplete : (es.foldl Reported.add s.reported).complete with
    | none =>
      rw [hcomplete] at hcode
      simp [hcode] at hok
    | some p => exact ⟨p, rfl, by simp_all⟩
  · rw [if_neg hok]
    by_cases hec : ec = .aborted
    · simp [hec]
    · simp [hec, hstatus]

/-- What a turn of the loop leaves: the call goes on, or it has returned. -/
def After (s : Call) (g : Given) (s' : Call) : Prop :=
  Underway s' ∧ Orderly s g ∨
    s'.returned.isSome = true ∧ Sound s' ∧ (s'.impl.parser.Idle ↔ Orderly s g)

theorem after_fail (hs : Underway s) (aborted : Bool) :
    After s (.fail aborted)
      (s.finish [] s.impl.init [] false (if aborted then .aborted else .other)) := by
  obtain ⟨z, h⟩ := hs.follows
  exact .inr ⟨rfl, sound_finish (i := s.impl.init) h.holds h.status, iff_of_true idle_init trivial⟩

theorem after_closed (hs : Underway s) : After s .closed (s.finish [] s.impl [] true .clear) := by
  obtain ⟨z, h⟩ := hs.follows
  refine .inr ⟨rfl, sound_finish h.holds h.status, ?_⟩
  show s.impl.parser.Idle ↔ _ ∧ _
  rw [h.idle_iff, h.blank hs.continues]

theorem after_eof (hs : Underway s) :
    ∃ o, s.impl.execute [] = some o ∧
      After s .eof (s.finish [] o.impl.init o.events true .eof) := by
  obtain ⟨z, h⟩ := hs.follows
  obtain ⟨o, ho, hholds, hstatus⟩ := leaves_eof h
  exact ⟨o, ho, .inr ⟨rfl, sound_finish (i := o.impl.init) hholds hstatus,
    iff_of_true idle_init trivial⟩⟩

/-- A read is in order iff it leaves the parser idle behind a response that keeps the
    connection alive. -/
theorem orderly_read_iff (hs : Underway s) {b : UInt8} {bs : Bytes} {o : Parsed}
    (ho : s.impl.execute (b :: bs) = some o) :
    Orderly s (.read b bs) ↔ (o.impl.rsp.keepAlive = true → o.impl.parser.Idle) := by
  obtain ⟨z, h⟩ := hs.follows
  have hfresh : s.impl.rsp.keepAlive = false := by
    rw [h.holds.alive, h.holds.pending hs.continues]
    rfl
  constructor
  · intro horderly
    refine idle_of_mayPrecede h hfresh (List.cons_ne_nil b bs) ho fun n hn hle o' ho' => ?_
    obtain ⟨n, rfl⟩ := Nat.exists_eq_add_one.mpr hn
    exact horderly n hle o' ho'
  · intro hidle n hn o' ho'
    exact mayPrecede_of_idle h n.succ_pos hn ho hidle ho'

theorem after_read (hs : Underway s) (b : UInt8) (bs : Bytes) :
    ∃ o, s.impl.execute (b :: bs) = some o ∧ After s (.read b bs) (s.parsed (b :: bs) o) := by
  obtain ⟨z, h⟩ := hs.follows
  obtain ⟨o, ho, hleaves, hholds, hstatus⟩ := leaves_execute h (List.cons_ne_nil b bs)
  refine ⟨o, ho, ?_⟩
  have horderly := orderly_read_iff hs ho
  cases hcont : o.impl.shouldContinue with
  | false =>
    have hparsed : s.parsed (b :: bs) o = s.finish (b :: bs)
        (if o.impl.rsp.keepAlive then o.impl else o.impl.init) o.events true .clear :=
      if_pos hcont
    rw [After, hparsed, horderly]
    refine .inr ⟨rfl, ?_, ?_⟩
    · cases o.impl.rsp.keepAlive
      · exact sound_finish (i := o.impl.init) hholds hstatus
      · exact sound_finish hholds hstatus
    · cases halive : o.impl.rsp.keepAlive with
      | false => exact iff_of_true idle_init fun ha => by cases ha
      | true => exact ⟨fun hidle _ => hidle, fun hidle => hidle rfl⟩
  | true =>
    have halive : o.impl.rsp.keepAlive = false := by
      rw [hholds.alive, hholds.pending hcont]
      rfl
    have horderly : Orderly s (.read b bs) := horderly.mpr fun ha => by simp [halive] at ha
    by_cases hn : o.parsed = (b :: bs).length
    · have hparsed : s.parsed (b :: bs) o = s.goOn (b :: bs) o.impl o.events :=
        (if_neg (by simp [hcont])).trans (if_neg (not_not.mpr hn))
      rw [After, hparsed]
      refine .inl ⟨⟨rfl, hcont, ?_⟩, horderly⟩
      rw [reported_goOn]
      cases hleaves with
      | @running z' _ hfollows => exact ⟨z', hfollows⟩
      | exited _ hdone => simp [hcont] at hdone
      | failed _ hne => exact absurd hn hne
    · have hparsed : s.parsed (b :: bs) o =
          s.finish (b :: bs) o.impl.init o.events false .clear :=
        (if_neg (by simp [hcont])).trans (if_pos hn)
      rw [After, hparsed]
      exact .inr ⟨rfl, sound_finish (i := o.impl.init) hholds hstatus,
        iff_of_true idle_init horderly⟩

/-- **One turn.** -/
theorem after_turn (hs : Underway s) (g : Given) : ∃ s', s.turn g = some s' ∧ After s g s' := by
  cases g with
  | read b bs =>
    obtain ⟨o, ho, hafter⟩ := after_read hs b bs
    exact ⟨_, by rw [Call.turn, ho]; rfl, hafter⟩
  | eof =>
    obtain ⟨o, ho, hafter⟩ := after_eof hs
    exact ⟨_, by rw [Call.turn, ho]; rfl, hafter⟩
  | fail aborted => exact ⟨_, rfl, after_fail hs aborted⟩
  | closed => exact ⟨_, rfl, after_closed hs⟩

theorem after_step (hs : Underway s) {g : Given} (hstep : step s g = some s') : After s g s' := by
  obtain ⟨s₁, hturn, hafter⟩ := after_turn hs g
  unfold step at hstep
  split at hstep
  · obtain rfl := Option.some.inj (hturn.symm.trans hstep)
    exact hafter
  · cases hstep

end Turn

/-! ## Every call -/

section Call

variable {i : ResponseImpl} {es : List Given} {t : Call}

/-- The call goes on in order, or it has returned. -/
def Held (i : ResponseImpl) (es : List Given) (t : Call) : Prop :=
  Underway t ∧ Along step Orderly (Call.start i) es ∨
    t.returned.isSome = true ∧ Sound t ∧
      (t.impl.parser.Idle ↔ Along step Orderly (Call.start i) es)

/-- **A whole call.** -/
theorem held_of_run (hi : i.parser.Idle) (hrun : run step (Call.start i) es = some t) :
    Held i es t := by
  refine run_induction (P := fun es t => Held i es t) (.inl ⟨underway_start hi, trivial⟩) ?_ hrun
  intro es s g s' hes ih hstep
  have halong : Along step Orderly (Call.start i) (es ++ [g]) ↔
      Along step Orderly (Call.start i) es ∧ Orderly s g := by
    rw [along_append hes, along_cons hstep, and_iff_left (along_nil s')]
  -- only a call under way makes a turn, and that turn decides whether the run stays orderly
  rcases ih with ⟨hs, hbefore⟩ | ⟨hreturned, -⟩
  · rw [Held, halong, and_iff_right hbefore]
    exact after_step hs hstep
  · unfold step at hstep
    split at hstep
    · rename_i hnone
      simp [hnone.1] at hreturned
    · cases hstep

/-- A call that has not returned makes another turn, whatever comes: no assertion of the
    parser fails. -/
theorem step_isSome (hi : i.parser.Idle) (hrun : run step (Call.start i) es = some t)
    (ht : t.returned = none) {g : Given} (hg : g.fits = true) : (step t g).isSome = true := by
  rcases held_of_run hi hrun with ⟨hs, -⟩ | ⟨hreturned, -⟩
  · obtain ⟨t', hturn, -⟩ := after_turn hs g
    rw [step, if_pos ⟨ht, hg⟩, hturn]
    rfl
  · simp [ht] at hreturned

/-- **A truncated response is never a success**, in any call. -/
theorem sound_and_ready (hi : i.parser.Idle) (hrun : run step (Call.start i) es = some t) :
    Sound t ∧ (Ready t ↔ Along step Orderly (Call.start i) es) := by
  rcases held_of_run hi hrun with ⟨ht, halong⟩ | ⟨hreturned, hsound, hiff⟩
  · refine ⟨fun result hresult => ?_, iff_of_true (fun hreturned => ?_) halong⟩
    · simp [ht.returned] at hresult
    · simp [ht.returned] at hreturned
  · refine ⟨hsound, ?_⟩
    rw [← hiff, Ready, hreturned]
    simp

/-- The call returns what it should and leaves the parser between two responses iff no byte
    that begins no response comes behind one in the read that completes it, and the socket is
    not found closed inside a response. -/
theorem sound_ready_iff (hi : i.parser.Idle) (hrun : run step (Call.start i) es = some t) :
    Sound t ∧ Ready t ↔ Along step Orderly (Call.start i) es := by
  obtain ⟨hsound, hready⟩ := sound_and_ready hi hrun
  rw [and_iff_right hsound, hready]

end Call

/-- A read of a text. -/
def Given.ofText (text : Bytes) : Given :=
  match text with
  | [] => .eof
  | b :: bs => .read b bs

/-- The header of a response with a body of one byte. -/
def okHeader : Bytes := ascii "HTTP/1.1 200 OK\r\nContent-Length: 1\r\n\r\n"

/-- These are the octets that the pooled client reads. -/
example : octets (.init .response) (okHeader ++ ascii "x") = (HttpClient.okRsp 120).octets := by
  decide +kernel

/-- The header in two reads, and the end of the stream instead of the body. -/
def cutReads : List Given :=
  [.ofText (okHeader.take 14), .ofText (okHeader.drop 14), .eof]

theorem okHeader_cut :
    ∃ t, run step (Call.start {}) cutReads = some t ∧
      t.returned = some { isSuccess := false, rsp := ascii "OK", canRetry := true } ∧
      Sound t ∧ Ready t := by
  have hview : (run step (Call.start {}) cutReads).map Call.returned =
      some (some { isSuccess := false, rsp := ascii "OK", canRetry := true }) := by
    decide +kernel
  obtain ⟨t, hrun, hreturned⟩ := Option.map_eq_some_iff.mp hview
  exact ⟨t, hrun, hreturned, (sound_ready_iff idle_init hrun).mpr (by decide +kernel)⟩

/-- The response and a byte `y` behind it in one read. -/
def overReads : List Given := [.ofText (okHeader ++ ascii "xy")]

/-- The deadline passes after the first byte. -/
def closedReads : List Given := [.read 72 [], .closed]

/-- **The parser is not ready.** A byte that begins no response follows one in the same read:
    the call succeeds and `http_errno` stays set.  Or the deadline closes the socket after a
    read: the call fails and the parser stays inside the response. -/
theorem okHeader_notReady :
    (∃ t, run step (Call.start {}) overReads = some t ∧
      t.returned = some { isSuccess := true, rsp := ascii "x", canRetry := true } ∧ ¬ Ready t) ∧
    ∃ t, run step (Call.start {}) closedReads = some t ∧
      t.returned = some { isSuccess := false, rsp := [], canRetry := true } ∧ ¬ Ready t := by
  have hover : (run step (Call.start {}) overReads).map
      (fun t => (t.returned, t.impl.parser.state, t.impl.parser.errno)) =
      some (some { isSuccess := true, rsp := ascii "x", canRetry := true }, .startRes,
        .invalidConstant) := by
    decide +kernel
  have hclosed : (run step (Call.start {}) closedReads).map
      (fun t => (t.returned, t.impl.parser.state, t.impl.parser.errno)) =
      some (some { isSuccess := false, rsp := [], canRetry := true }, .resH, .ok) := by
    decide +kernel
  constructor
  · obtain ⟨t, hrun, ht⟩ := Option.map_eq_some_iff.mp hover
    simp only [Prod.mk.injEq] at ht
    refine ⟨t, hrun, ht.1, fun hready => ?_⟩
    have herrno := (hready (by rw [ht.1]; rfl)).errno
    simp [ht.2.2] at herrno
  · obtain ⟨t, hrun, ht⟩ := Option.map_eq_some_iff.mp hclosed
    simp only [Prod.mk.injEq] at ht
    refine ⟨t, hrun, ht.1, fun hready => ?_⟩
    have hstate := (hready (by rw [ht.1]; rfl)).state
    simp [ht.2.1] at hstate

/-- The first byte of another response behind a complete one in the same read takes the
    response away: the call fails, and the parser is ready. -/
example : (run step (Call.start {}) [.ofText (okHeader ++ ascii "xH")]).map
    (fun t => (t.returned, t.impl.parser)) =
    some (some { isSuccess := false, rsp := [], canRetry := true }, .init .response) := by
  decide +kernel

end FiberProxy.Client.GetResponse
