/-
  FiberProxy.Front.RawResponse

  The answer to a single call: `ResponseRender::generate_single_rsp` puts the body of
  the service into the raw response, and `HttpConnection::write_rsp` sends it.  An empty
  raw response means to `write_rsp` that there is a JSON response to be written instead.
  The length is printed into a buffer of ten characters, nine digits and the zero behind
  them.

  A body comes through when it is not empty and its length has at most nine digits
  (`bodyComesThrough_iff`).
-/

import FiberProxy.Common.Types
import FiberProxy.Http.ResponseRoundTrip

namespace FiberProxy.Front

open Lib Lib.Http1 Http

/-- What a handler leaves: the raw response, and the error of the JSON response. -/
structure Rendered where
  rawRsp : Bytes
  error : Option Bytes
deriving DecidableEq, Repr

/-- `ResponseRender::generate_single_rsp`; the raw response is empty before. -/
def generateSingleRsp (rsp : ServiceCallRsp) : Rendered :=
  if rsp.error ≠ [] then ⟨[], some rsp.error⟩ else ⟨rsp.rsp, none⟩

/-- `HttpConnection::write_rsp`, the text; `writer` gives the JSON response with this error.
    Where `sprintf` writes past the end of its buffer there is no text. -/
def writeRsp (writer : Option Bytes → Bytes) (keepAlive : Bool) (r : Rendered) : Option Bytes :=
  let body := if r.rawRsp = [] then writer r.error else r.rawRsp
  if (decimal body.length).length + 1 ≤ lengthBufSize then some (rspText keepAlive body) else none

/-! ## What is sent -/

/-- The headers that `write_rsp` pushes. -/
def pushedHeaders (keepAlive : Bool) : List Header :=
  (ascii "ContentType", ascii "application/json") ::
    if keepAlive then
      [(ascii "Connection", ascii "keep-alive"), (ascii "Keep-Alive", ascii "timeout=100")]
    else [(ascii "Connection", ascii "close")]

/-- The headers that a receiver sees. -/
def sentHeaders (keepAlive : Bool) (n : Nat) : List Header :=
  pushedHeaders keepAlive ++
    [(ascii "Server", ascii "FibpServer 1.0"), (ascii "Content-Length", decimal n)]

theorem filter_contentLength (keepAlive : Bool) (n : Nat) :
    (sentHeaders keepAlive n).filter (isNamed "content-length") =
      [(ascii "Content-Length", decimal n)] := by
  have hpushed : (pushedHeaders keepAlive).filter (isNamed "content-length") = [] := by
    cases keepAlive <;> decide
  have hserver : isNamed "content-length" (ascii "Server", ascii "FibpServer 1.0") = false := by
    decide
  have hlength : isNamed "content-length" (ascii "Content-Length", decimal n) = true := rfl
  rw [sentHeaders, List.filter_append, hpushed, List.nil_append, List.filter_cons_of_neg
    (by rw [hserver]; decide), List.filter_cons_of_pos hlength, List.filter_nil]

/-- What is sent is read as one response, with this body. -/
theorem readResponse_rspText (keepAlive : Bool) (body : Bytes) :
    readResponse (rspText keepAlive body) =
      some (⟨200, sentHeaders keepAlive body.length, body⟩, []) := by
  have hline : (⟨200, [], pushedHeaders keepAlive, body⟩ : ResponseT).OneLine := by
    constructor <;> cases keepAlive <;> simp only <;> decide
  have hlength : (pushedHeaders keepAlive).any (isNamed "content-length") = false := by
    cases keepAlive <;> decide
  have hfields : ∀ h ∈ pushedHeaders keepAlive, FieldOk h := by cases keepAlive <;> decide
  have hcoding : (pushedHeaders keepAlive).any (isNamed "transfer-encoding") = false := by
    cases keepAlive <;> decide
  have hsent : (⟨200, [], pushedHeaders keepAlive, body⟩ : ResponseT).sentHeaders =
      sentHeaders keepAlive body.length := by
    have hserver : (pushedHeaders keepAlive).any (isNamed "server") = false := by
      cases keepAlive <;> decide
    simp [ResponseT.sentHeaders, sentHeaders, hserver, hlength]
  have hbody : isBodiless 200 = false := by decide
  rw [← hsent]
  exact (readResponse_toBytes_iff hline hlength rfl).mpr
    ⟨hfields, hcoding, fun h => absurd (hbody.symm.trans h) Bool.false_ne_true⟩

/-! ## The body -/

/-- The answer to a single call is one response with this body and its length. -/
def BodyComesThrough (writer : Option Bytes → Bytes) (keepAlive : Bool) (rsp : ServiceCallRsp) :
    Prop :=
  ∃ text r, writeRsp writer keepAlive (generateSingleRsp rsp) = some text ∧
    readResponse text = some (r, []) ∧ r.body = rsp.rsp ∧
    (r.headers.filter (isNamed "content-length")).map Prod.snd = [decimal rsp.rsp.length]

/-- **The body comes through** when it is not empty, or the JSON writer writes nothing, and
    its length fits into the buffer. -/
theorem bodyComesThrough_iff (writer : Option Bytes → Bytes) (keepAlive : Bool)
    {rsp : ServiceCallRsp} (hok : rsp.error = []) :
    BodyComesThrough writer keepAlive rsp ↔
      (rsp.rsp ≠ [] ∨ writer none = []) ∧ rsp.rsp.length < 10 ^ 9 := by
  have hrendered : generateSingleRsp rsp = ⟨rsp.rsp, none⟩ := by
    rw [generateSingleRsp, if_neg (by simpa using hok)]
  have hfits (n : Nat) : (decimal n).length + 1 ≤ lengthBufSize ↔ n < 10 ^ 9 := by
    rw [← length_decimal_le_iff (by decide : 0 < 9), lengthBufSize]
    omega
  simp only [BodyComesThrough, hrendered, writeRsp]
  constructor
  · rintro ⟨text, r, htext, hread, hbody, -⟩
    obtain ⟨hlen, htext⟩ := Option.ite_none_right_eq_some.mp htext
    cases htext
    rw [readResponse_rspText] at hread
    cases hread
    simp only at hbody
    rw [hbody, hfits] at hlen
    refine ⟨?_, hlen⟩
    by_cases hnil : rsp.rsp = []
    · rw [if_pos hnil] at hbody
      exact Or.inr (hbody.trans hnil)
    · exact Or.inl hnil
  · rintro ⟨hbody, hlen⟩
    have hsame : (if rsp.rsp = [] then writer none else rsp.rsp) = rsp.rsp := by
      split
      · rename_i hnil
        rw [hnil]
        exact hbody.resolve_left fun h => h hnil
      · rfl
    rw [hsame, if_pos ((hfits _).mpr hlen)]
    exact ⟨_, _, rfl, readResponse_rspText keepAlive rsp.rsp, rfl, by
      rw [filter_contentLength]; rfl⟩

/-- What the JSON writer gives for a response without an error. -/
def successJson (_ : Option Bytes) : Bytes := ascii "\x7b\"header\":\x7b\"success\":true\x7d\x7d"

theorem bodyComesThrough_list :
    BodyComesThrough successJson true { rsp := ascii "[1, 2]" } :=
  (bodyComesThrough_iff successJson true rfl).mpr (by decide)

/-- An empty body becomes a JSON response. -/
theorem emptyBody_replaced :
    (writeRsp successJson true (generateSingleRsp { rsp := [] })).map readResponse =
      some (some (⟨200, sentHeaders true 27, successJson none⟩, [])) := by
  have htext : writeRsp successJson true (generateSingleRsp { rsp := [] }) =
      some (rspText true (successJson none)) := by
    have hfits : (decimal (successJson none).length).length + 1 ≤ lengthBufSize := by decide
    rw [writeRsp, generateSingleRsp]
    simp only [ne_eq, not_true, if_false, if_true, hfits]
  rw [htext, Option.map_some, readResponse_rspText]
  rfl

end FiberProxy.Front
