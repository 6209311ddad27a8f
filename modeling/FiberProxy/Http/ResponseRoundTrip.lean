/-
  FiberProxy.Http.ResponseRoundTrip

  What a receiver reads from the text that `operator<<` prints for a `response_t`
  (HttpProtocolHandler.cpp).  The status line of a response with a status message has
  no end: the first header stands in it.  The others are read back, with their headers,
  exactly when the headers are fields and the length fits into its buffer
  (`roundTrips_iff`).
-/

import FiberProxy.Http.RequestText
import FiberProxy.Http.ResponseText

namespace FiberProxy.Http

open Lib Lib.Http1

/-- The headers that are printed: `Server` and `Content-Length` come last, unless the
    response has them. -/
def ResponseT.sentHeaders (r : ResponseT) : List Header :=
  r.headers ++
    (if r.headers.any (isNamed "server") then [] else [(ascii "Server", ascii "FibpServer 1.0")]) ++
    (if r.headers.any (isNamed "content-length") then []
      else [(ascii "Content-Length", decimal r.body.length)])

/-- The text is one response, with this code, these headers and this body; and its length
    fits into the buffer with the zero behind it. -/
def ResponseT.RoundTrips (r : ResponseT) : Prop :=
  (decimal r.body.length).length + 1 ≤ lengthBufSize ∧
    readResponse r.toBytes = some (⟨r.code, r.sentHeaders, r.body⟩, [])

/-- The status message and the headers hold no line end, nor a part of one. -/
structure ResponseT.OneLine (r : ResponseT) : Prop where
  message : (13 : UInt8) ∉ r.statusMessage ∧ (10 : UInt8) ∉ r.statusMessage
  names : ∀ h ∈ r.headers, (13 : UInt8) ∉ h.1 ∧ (10 : UInt8) ∉ h.1
  values : ∀ h ∈ r.headers, (13 : UInt8) ∉ h.2 ∧ (10 : UInt8) ∉ h.2

/-! ## The text as lines -/

theorem headerText_eq (h : Header) : headerText h = h.1 ++ 58 :: 32 :: h.2 := by
  simp [headerText, ascii]

theorem toBytes_eq_headerBlock (r : ResponseT) :
    r.toBytes = ascii "HTTP/1.1 " ++ decimal r.code ++ ascii " " ++
      (if r.statusMessage ≠ [] then r.statusMessage else ascii " " ++ crlf) ++
      headerBlock (r.sentHeaders.map headerText) r.body := by
  have hlines : (r.sentHeaders.map headerText).flatMap (· ++ crlf) =
      r.headers.flatMap (fun h => h.1 ++ ascii ": " ++ h.2 ++ crlf) ++
        (if r.headers.any (isNamed "server") then []
          else ascii "Server: FibpServer 1.0" ++ crlf) ++
        (if r.headers.any (isNamed "content-length") then []
          else ascii "Content-Length: " ++ decimal r.body.length ++ crlf) := by
    have hserver : headerText (ascii "Server", ascii "FibpServer 1.0") =
        ascii "Server: FibpServer 1.0" := by decide
    have hlength : headerText (ascii "Content-Length", decimal r.body.length) =
        ascii "Content-Length: " ++ decimal r.body.length := rfl
    rw [List.flatMap_map, ResponseT.sentHeaders, List.flatMap_append, List.flatMap_append]
    congr 1
    · congr 1
      split
      · rfl
      · rw [List.flatMap_singleton, hserver]
    · split
      · rfl
      · rw [List.flatMap_singleton, hlength]
  rw [headerBlock, hlines]
  simp only [ResponseT.toBytes, List.append_assoc]

/-- Without a status message the status line ends. -/
theorem toBytes_of_no_message {r : ResponseT} (h : r.statusMessage = []) :
    r.toBytes = (ascii "HTTP/1.1 " ++ decimal r.code ++ ascii " " ++ ascii " ") ++
      (crlf ++ headerBlock (r.sentHeaders.map headerText) r.body) := by
  rw [toBytes_eq_headerBlock, if_neg (by simpa using h)]
  simp only [List.append_assoc]

/-- With one, the first header is part of the status line. -/
theorem toBytes_of_message {r : ResponseT} {first : Header} {rest : List Header}
    (h : r.statusMessage ≠ []) (hsent : r.sentHeaders = first :: rest) :
    r.toBytes = (ascii "HTTP/1.1 " ++ decimal r.code ++ ascii " " ++
        (r.statusMessage ++ headerText first)) ++
      (crlf ++ headerBlock (rest.map headerText) r.body) := by
  rw [toBytes_eq_headerBlock, if_pos h, hsent, List.map_cons, headerBlock_cons]
  simp only [List.append_assoc]

theorem mem_sentHeaders {r : ResponseT} {h : Header} (hh : h ∈ r.sentHeaders) :
    h ∈ r.headers ∨ h = (ascii "Server", ascii "FibpServer 1.0") ∨
      h = (ascii "Content-Length", decimal r.body.length) := by
  simp only [ResponseT.sentHeaders, List.mem_append] at hh
  rcases hh with (hh | hh) | hh
  · exact .inl hh
  · split at hh
    · simp at hh
    · exact .inr (.inl (List.mem_singleton.mp hh))
  · split at hh
    · simp at hh
    · exact .inr (.inr (List.mem_singleton.mp hh))

theorem cr_notMem_headerText {r : ResponseT} (hr : r.OneLine) {h : Header}
    (hh : h ∈ r.sentHeaders) : (13 : UInt8) ∉ headerText h := by
  have hlen : (13 : UInt8) ∉ ascii "Content-Length" ∧ (13 : UInt8) ∉ decimal r.body.length :=
    ⟨by decide, notMem_decimal rfl _⟩
  have hcr : (13 : UInt8) ∉ h.1 ∧ (13 : UInt8) ∉ h.2 := by
    rcases mem_sentHeaders hh with hh | rfl | rfl
    · exact ⟨(hr.names h hh).1, (hr.values h hh).1⟩
    · decide
    · exact hlen
  simp [headerText_eq, hcr.1, hcr.2]

theorem splitCrlf_of_mem_lines {r : ResponseT} (hr : r.OneLine) {hs : List Header}
    (hsub : ∀ h ∈ hs, h ∈ r.sentHeaders) : ∀ l ∈ hs.map headerText, splitCrlf l = none := by
  intro l hl
  obtain ⟨h, hh, rfl⟩ := List.mem_map.mp hl
  exact splitCrlf_eq_none_of_notMem (cr_notMem_headerText hr (hsub h hh))

theorem splitCrlf_statusLine {code : Nat} {reason : Bytes} (h : (13 : UInt8) ∉ reason) :
    splitCrlf (ascii "HTTP/1.1 " ++ decimal code ++ ascii " " ++ reason) = none := by
  apply splitCrlf_eq_none_of_notMem
  have hversion : (13 : UInt8) ∉ ascii "HTTP/1.1 " ∧ (13 : UInt8) ∉ ascii " " := by decide
  simp [hversion, h, notMem_decimal (b := 13) rfl code]

/-! ## What is read -/

theorem responseLength_sentHeaders {r : ResponseT}
    (hlength : r.headers.any (isNamed "content-length") = false) :
    responseLength r.code r.sentHeaders = some r.body.length ↔
      r.headers.any (isNamed "transfer-encoding") = false ∧
        (isBodiless r.code = true → r.body = []) := by
  have hcoding : r.sentHeaders.any (isNamed "transfer-encoding") =
      r.headers.any (isNamed "transfer-encoding") := by
    have hserver :
        isNamed "transfer-encoding" (ascii "Server", ascii "FibpServer 1.0") = false := by decide
    have hlen : isNamed "transfer-encoding" (ascii "Content-Length", decimal r.body.length) =
        false := rfl
    simp only [ResponseT.sentHeaders, List.any_append]
    split <;> split <;> simp [hserver, hlen]
  have hfilter : r.sentHeaders.filter (isNamed "content-length") =
      [(ascii "Content-Length", decimal r.body.length)] := by
    have hserver : isNamed "content-length" (ascii "Server", ascii "FibpServer 1.0") = false := by
      decide
    have hlen : isNamed "content-length" (ascii "Content-Length", decimal r.body.length) = true :=
      rfl
    have hnone : r.headers.filter (isNamed "content-length") = [] := by
      rw [List.filter_eq_nil_iff]
      intro h hh
      simpa using List.any_eq_false.mp hlength h hh
    simp only [ResponseT.sentHeaders, List.filter_append, hnone, List.nil_append, hlength,
      Bool.false_eq_true, if_false]
    split <;> simp [hserver, hlen]
  have hbody : bodyLength r.sentHeaders =
      if r.headers.any (isNamed "transfer-encoding") then none else some r.body.length := by
    rw [bodyLength, hcoding, hfilter]
    simp only [readDecimal_decimal]
  rw [responseLength, hbody]
  cases r.headers.any (isNamed "transfer-encoding") with
  | true => simp
  | false =>
    cases isBodiless r.code with
    | true => simp [eq_comm]
    | false => simp

/-- The length line, read back. -/
theorem readHeader_contentLength (n : Nat) :
    readHeader (ascii "Content-Length: " ++ decimal n) =
      some (ascii "Content-Length", decimal n) := by
  have hsplit : ascii "Content-Length: " = ascii "Content-Length" ++ [58, 32] := by decide
  rw [hsplit, List.append_assoc]
  exact readHeader_field (by decide) (all_decimal (by decide) n)

theorem mapM_sentHeaders_iff {r : ResponseT} :
    (r.sentHeaders.map headerText).mapM readHeader = some r.sentHeaders ↔
      ∀ h ∈ r.headers, FieldOk h := by
  have hserver : FieldOk (ascii "Server", ascii "FibpServer 1.0") := by decide
  have hlen : FieldOk (ascii "Content-Length", decimal r.body.length) := by
    rw [← readHeader_eq_self_iff, ← headerText_eq]
    exact readHeader_contentLength r.body.length
  rw [mapM_readHeader_eq_self_iff]
  simp only [headerText_eq, readHeader_eq_self_iff]
  constructor
  · intro h x hx
    exact h x (by simp [ResponseT.sentHeaders, hx])
  · intro h x hx
    rcases mem_sentHeaders hx with hx | rfl | rfl
    · exact h x hx
    · exact hserver
    · exact hlen

/-- A response without a status message. -/
theorem readResponse_toBytes_iff {r : ResponseT} (hr : r.OneLine)
    (hlength : r.headers.any (isNamed "content-length") = false) (hmessage : r.statusMessage = []) :
    readResponse r.toBytes = some (⟨r.code, r.sentHeaders, r.body⟩, []) ↔
      (∀ h ∈ r.headers, FieldOk h) ∧ r.headers.any (isNamed "transfer-encoding") = false ∧
        (isBodiless r.code = true → r.body = []) := by
  rw [toBytes_of_no_message hmessage, readResponse_lines_iff (splitCrlf_statusLine (by decide))
    (readStatusLine_line _ _) (splitCrlf_of_mem_lines hr fun _ => id), mapM_sentHeaders_iff,
    responseLength_sentHeaders hlength]

/-- A response with one: a header is missing. -/
theorem readResponse_toBytes_of_message {r : ResponseT} (hr : r.OneLine)
    (hlength : r.headers.any (isNamed "content-length") = false) (hmessage : r.statusMessage ≠ []) :
    readResponse r.toBytes ≠ some (⟨r.code, r.sentHeaders, r.body⟩, []) := by
  obtain ⟨first, rest, hsent⟩ : ∃ first rest, r.sentHeaders = first :: rest := by
    refine List.exists_cons_of_ne_nil ?_
    simp [ResponseT.sentHeaders, hlength]
  have hline : (13 : UInt8) ∉ r.statusMessage ++ headerText first := by
    rw [List.mem_append, not_or]
    exact ⟨hr.message.1, cr_notMem_headerText hr (by simp [hsent])⟩
  intro hread
  rw [toBytes_of_message hmessage hsent, readResponse_lines_iff (splitCrlf_statusLine hline)
    (readStatusLine_line _ _) (splitCrlf_of_mem_lines hr fun h hh => by simp [hsent, hh])] at hread
  have hlen := length_of_mapM_readHeader hread.1
  rw [hsent, List.length_cons, List.length_map] at hlen
  omega

/-- **What is printed is read back** exactly when there is no status message, the length has
    at most nine digits, the headers are fields and none is a transfer coding, and a response
    that can have no body has none. -/
theorem roundTrips_iff {r : ResponseT} (hr : r.OneLine)
    (hlength : r.headers.any (isNamed "content-length") = false) :
    r.RoundTrips ↔ r.statusMessage = [] ∧ r.body.length < 10 ^ 9 ∧ (∀ h ∈ r.headers, FieldOk h) ∧
      r.headers.any (isNamed "transfer-encoding") = false ∧
      (isBodiless r.code = true → r.body = []) := by
  have hfits : (decimal r.body.length).length + 1 ≤ lengthBufSize ↔ r.body.length < 10 ^ 9 := by
    rw [← length_decimal_le_iff (by decide : 0 < 9), lengthBufSize]
    omega
  unfold ResponseT.RoundTrips
  rw [hfits]
  by_cases hmessage : r.statusMessage = []
  · rw [readResponse_toBytes_iff hr hlength hmessage]
    simp only [hmessage, true_and]
  · refine iff_of_false ?_ fun h => hmessage h.1
    exact fun h => readResponse_toBytes_of_message hr hlength hmessage h.2

/-- A response with a header, and no status message. -/
def textRsp : ResponseT where
  code := 200
  headers := [(ascii "Content-Type", ascii "text/plain; charset=utf-8")]
  body := ascii "hello"

theorem textRsp_roundTrips : textRsp.RoundTrips :=
  (roundTrips_iff ⟨by decide, by decide, by decide⟩ (by decide)).mpr (by decide)

/-- With the status message `OK` its only header is gone. -/
theorem okMessage_headerLost :
    ({ textRsp with statusMessage := ascii "OK" } : ResponseT).OneLine ∧
      (readResponse ({ textRsp with statusMessage := ascii "OK" } : ResponseT).toBytes).map
        (fun p => p.1.headers) = some [(ascii "Server", ascii "FibpServer 1.0"),
          (ascii "Content-Length", ascii "5")] ∧
      ¬ ({ textRsp with statusMessage := ascii "OK" } : ResponseT).RoundTrips := by
  have hone : ({ textRsp with statusMessage := ascii "OK" } : ResponseT).OneLine :=
    ⟨by decide, by decide, by decide⟩
  refine ⟨hone, by decide +kernel, fun h => ?_⟩
  exact readResponse_toBytes_of_message hone (by decide) (by decide) h.2

end FiberProxy.Http
