/-
  FiberProxy.Front.SingleCall

  A single call from its target to the request that goes out: the target is parsed,
  `HttpConnection::handleRequest` finds the controller and the action,
  `handleRequestFunc` puts path and query together again, and
  `parse_single_api_request` cuts the service and its api out of the sum.

  Slashes are trimmed twice, from the path and from the sum, and the parser notes where
  path and query stand in 16 bits.  Behind the name of the service, path and query come
  through unchanged exactly when neither ends in a slash, the target has no character
  that the parser refuses or reads as the beginning of a fragment, and their places fit
  (`passesThrough_iff`).
-/

import FiberProxy.Front.Dispatch
import FiberProxy.Http.HttpParser
import FiberProxy.Http.RequestText
import Mathlib.Data.List.DropRight

namespace FiberProxy.Front

open Lib Http

/-! ## The handling of a target -/

/-- `"?" + query`, for a query that is not empty. -/
def queryText (query : Bytes) : Bytes := if query = [] then [] else 63 :: query

/-- What a handler is looked up with, and the path it gets. -/
structure Routed where
  controller : Bytes
  action : Bytes
  path : Bytes
deriving DecidableEq, Repr

/-- `HttpConnection::handleRequest`, with the path that `handleRequestFunc` passes on;
    `none` is the answer 400. -/
def handleRequest (path query : Bytes) : Option Routed :=
  if path = [] then none
  else
    match splitSlashes false (trimSlashes path) with
    | [] => none
    | controller :: elems =>
      some {
        controller := controller
        action := elems.headD []
        path := trimSlashes path ++ queryText query }

/-- The calls for a request whose head has `headRest` bytes beside the target; `none` when
    the parser refuses the request, or it leads to another handler, or to none. -/
def handleTarget (method : Int) (rawReq : Bytes) (headRest : Nat) (target : Bytes) :
    Option Handling :=
  if headRest + target.length ≤ ByteParser.maxHeaderSize then
    (parseUrl target).bind fun u =>
      (handleRequest (u.data target .path) (u.data target .query)).bind fun r =>
        if r.controller = ascii "commands" ∧ r.action = ascii "call_single_service_async" then
          some (callSingleServiceAsync method rawReq r.path)
        else none
  else none

/-- The target of a single call. -/
def singleCallTarget (serviceName path query : Bytes) : Bytes :=
  ascii "/commands/call_single_service_async/" ++ (serviceName ++ (path ++ queryText query))

/-- One call comes out, of the service and with path and query unchanged; they are what
    the request line to the service carries. -/
def PassesThrough (method : Int) (rawReq : Bytes) (headRest : Nat)
    (serviceName path query : Bytes) : Prop :=
  ∃ req, handleTarget method rawReq headRest (singleCallTarget serviceName path query) =
      some (.calls ⟨[req], [], false⟩ .afterCallSingleService) ∧
    req.serviceName = serviceName ∧ req.serviceApi = path ++ queryText query ∧
    printedTarget req.serviceApi = path ++ queryText query ∧
    splitQuery req.serviceApi = (path, query)

/-- The two names, each with a slash behind it. -/
def commandText : Bytes := ascii "commands/call_single_service_async/"

/-! ## Trimming -/

/-- Slashes at the end. -/
def trimEnd (bs : Bytes) : Bytes := bs.rdropWhile (· == 47)

theorem trimSlashes_eq (bs : Bytes) : trimSlashes bs = trimEnd (bs.dropWhile (· == 47)) := rfl

theorem length_trimEnd_le (bs : Bytes) : (trimEnd bs).length ≤ bs.length :=
  (List.rdropWhile_prefix _ bs).length_le

theorem trimEnd_eq_self_iff {bs : Bytes} : trimEnd bs = bs ↔ bs.getLast? ≠ some 47 := by
  rw [trimEnd, List.rdropWhile_eq_self_iff]
  cases hlast : bs.getLast? with
  | none => simp [List.getLast?_eq_none_iff.mp hlast]
  | some c =>
    obtain ⟨xs, rfl⟩ := List.getLast?_eq_some_iff.mp hlast
    simp

theorem trimEnd_eq_self_of_length {bs : Bytes} (h : (trimEnd bs).length = bs.length) :
    trimEnd bs = bs :=
  (List.rdropWhile_prefix _ bs).eq_of_length h

/-- Only the end of the sum is trimmed, unless all of the second part is slashes. -/
theorem trimEnd_append (a : Bytes) {b : Bytes} (h : trimEnd b ≠ []) :
    trimEnd (a ++ b) = a ++ trimEnd b := by
  have hne : (b.reverse.dropWhile (· == 47)).isEmpty = false := by
    rw [← Bool.not_eq_true, List.isEmpty_iff]
    exact fun hnil => h (by simp [trimEnd, List.rdropWhile, hnil])
  simp [trimEnd, List.rdropWhile, List.dropWhile_append, hne]

theorem trimEnd_ne_nil {c : UInt8} {bs : Bytes} (hc : c ≠ 47) (h : c ∈ bs) : trimEnd bs ≠ [] := by
  intro hnil
  exact hc (by simpa using List.rdropWhile_eq_nil_iff.mp hnil c h)

/-! ## Splitting -/

theorem splitSlashes_ne_nil (inRun : Bool) (bs : Bytes) : splitSlashes inRun bs ≠ [] := by
  induction bs generalizing inRun with
  | nil => simp [splitSlashes]
  | cons b bs ih =>
    unfold splitSlashes
    split
    · split
      · exact ih true
      · simp
    · split <;> simp

/-- A token and the slash behind it. -/
theorem splitSlashes_token {tok : Bytes} (htok : 47 ∉ tok) (bs : Bytes) :
    splitSlashes false (tok ++ 47 :: bs) = tok :: splitSlashes true bs := by
  induction tok with
  | nil => simp [splitSlashes]
  | cons c tok ih =>
    simp only [List.mem_cons, not_or] at htok
    rw [List.cons_append, splitSlashes, if_neg (Ne.symm htok.1), ih htok.2]

/-- Within a run of slashes a token that is not empty ends the run. -/
theorem splitSlashes_true {tok : Bytes} (htok : 47 ∉ tok) (hne : tok ≠ []) (bs : Bytes) :
    splitSlashes true (tok ++ 47 :: bs) = tok :: splitSlashes true bs := by
  obtain ⟨c, tok, rfl⟩ := List.exists_cons_of_ne_nil hne
  simp only [List.mem_cons, not_or] at htok
  rw [List.cons_append, splitSlashes, if_neg (Ne.symm htok.1), splitSlashes_token htok.2]

theorem splitSlashes_commandText (bs : Bytes) :
    splitSlashes false (commandText ++ bs) =
      ascii "commands" :: ascii "call_single_service_async" :: splitSlashes true bs := by
  have htext : commandText =
      ascii "commands" ++ 47 :: (ascii "call_single_service_async" ++ [47]) := by decide
  rw [htext, List.append_assoc, List.cons_append, List.append_assoc, List.singleton_append,
    splitSlashes_token (by decide), splitSlashes_true (by decide) (by decide)]

/-! ## A target with these two names -/

section Command

variable (method : Int) (rawReq : Bytes)

theorem trimSlashes_commandText {a : Bytes} (h : trimEnd a ≠ []) :
    trimSlashes (commandText ++ a) = commandText ++ trimEnd a := by
  rw [trimSlashes_eq]
  exact trimEnd_append commandText h

theorem handleRequest_command {a : Bytes} (h : trimEnd a ≠ []) (query : Bytes) :
    handleRequest (47 :: (commandText ++ a)) query =
      some ⟨ascii "commands", ascii "call_single_service_async",
        commandText ++ (trimEnd a ++ queryText query)⟩ := by
  have htrim : trimSlashes (47 :: (commandText ++ a)) = commandText ++ trimEnd a :=
    trimSlashes_commandText h
  rw [handleRequest, if_neg (List.cons_ne_nil _ _), htrim, splitSlashes_commandText,
    List.append_assoc]
  rfl

/-- The service is the next element, the api what follows it. -/
theorem parseSingleApiRequest_command {b : Bytes} (h : trimEnd b ≠ []) :
    parseSingleApiRequest method rawReq (commandText ++ b) =
      match splitSlashes true (trimEnd b) with
      | serviceName :: _ :: _ =>
        some {
          serviceName := serviceName
          serviceApi := (trimEnd b).drop serviceName.length
          serviceReqData := rawReq
          serviceType := 0
          method := method }
      | _ => none := by
  have hlen : (ascii "commands").length + 1 + ((ascii "call_single_service_async").length + 1) =
      commandText.length := rfl
  rw [parseSingleApiRequest, trimSlashes_commandText h, splitSlashes_commandText]
  rcases hsplit : splitSlashes true (trimEnd b) with _ | ⟨e, _ | ⟨e', es⟩⟩
  · rfl
  · rfl
  · simp only [hlen, List.drop_length_add_append]

end Command

/-! ## What comes through -/

section PassesThrough

variable {method : Int} {rawReq : Bytes} {headRest : Nat} {serviceName path query : Bytes}

theorem singleCallTarget_eq (serviceName path query : Bytes) :
    singleCallTarget serviceName path query =
      47 :: (commandText ++ (serviceName ++ (path ++ queryText query))) := by
  have htext : ascii "/commands/call_single_service_async/" = 47 :: commandText := by decide
  rw [singleCallTarget, htext, List.cons_append]

theorem getLast?_queryText (hq : query ≠ []) : (queryText query).getLast? = query.getLast? := by
  rw [queryText, if_neg hq, List.getLast?_cons_of_ne_nil hq]

/-- The api of a call goes out as it is. -/
theorem printedTarget_queryText (hpath : 63 ∉ path) (query : Bytes) :
    splitQuery (path ++ queryText query) = (path, query) ∧
      printedTarget (path ++ queryText query) = path ++ queryText query := by
  by_cases hq : query = []
  · subst hq
    simp [queryText, splitQuery_of_notMem hpath, printedTarget, RequestT.target]
  · simp [queryText, hq, splitQuery_append hpath, printedTarget, RequestT.target]

theorem isUrlChar_of_mem_commandText : ∀ c ∈ commandText, isUrlChar c = true := by
  decide +kernel

/-- The path of the target. -/
def targetPath (serviceName path : Bytes) : Bytes := 47 :: (commandText ++ (serviceName ++ path))

theorem singleCallTarget_eq_targetPath (serviceName path query : Bytes) :
    singleCallTarget serviceName path query = targetPath serviceName path ++ queryText query := by
  rw [singleCallTarget_eq, targetPath]
  simp

/-- Characters that the parser takes, no slash at the end of path or query, a head within
    the parser's limit, and places that fit into 16 bits.  Behind a path of 65535 bytes the
    query is looked for at the beginning of the target. -/
structure Plain (headRest : Nat) (serviceName path query : Bytes) : Prop where
  nameChars : ∀ c ∈ serviceName, isUrlChar c = true
  pathChars : ∀ c ∈ path, isUrlChar c = true
  queryChars : ∀ c ∈ query, isQueryChar c = true
  pathEnd : path.getLast? ≠ some 47
  queryEnd : query.getLast? ≠ some 47
  head : headRest + (singleCallTarget serviceName path query).length ≤ ByteParser.maxHeaderSize
  pathFits : (targetPath serviceName path).length < 65536
  queryFits : query.length < 65536
  queryStart : (targetPath serviceName path).length + 1 < 65536 ∨
    query <+: singleCallTarget serviceName path query

/-- What is cut out for the query, of a path and a query that fit. -/
theorem data_query_eq {p : UrlParse} {target path query : Bytes}
    (h : UrlReads target path query p) (frag : Bytes)
    (htarget : target = path ++ (queryText query ++ frag))
    (hpath : path.length < 65536) (hquery : query.length < 65536) :
    p.data target .query =
      if path.length + 1 < 65536 then query else target.take query.length := by
  rw [h.data_query, Nat.mod_eq_of_lt hquery]
  split
  · rename_i hlt
    rw [Nat.mod_eq_of_lt hlt, htarget, ← List.drop_drop, List.drop_left]
    by_cases hnil : query = []
    · simp [hnil]
    · simp [queryText, hnil]
  · rw [show path.length + 1 = 65536 by omega, Nat.mod_self, List.drop_zero]

theorem parseUrl_singleCallTarget (h : Plain headRest serviceName path query) :
    ∃ p, parseUrl (singleCallTarget serviceName path query) = some p ∧
      p.data (singleCallTarget serviceName path query) .path = targetPath serviceName path ∧
      p.data (singleCallTarget serviceName path query) .query = query := by
  have hchars : ∀ c ∈ commandText ++ (serviceName ++ path), isUrlChar c = true := by
    intro c hc
    simp only [List.mem_append] at hc
    rcases hc with hc | hc | hc
    · exact isUrlChar_of_mem_commandText c hc
    · exact h.nameChars c hc
    · exact h.pathChars c hc
  have heq := singleCallTarget_eq_targetPath serviceName path query
  obtain ⟨p, hp, hreads⟩ : ∃ p, parseUrl (singleCallTarget serviceName path query) = some p ∧
      UrlReads (singleCallTarget serviceName path query) (targetPath serviceName path) query p := by
    rw [heq]
    by_cases hq : query = []
    · obtain ⟨p, hp⟩ := parseUrl_path hchars
      exact ⟨p, by simpa [queryText, hq, targetPath] using hp⟩
    · obtain ⟨p, hp⟩ := parseUrl_query hchars h.queryChars
      exact ⟨p, by simpa [queryText, hq, targetPath] using hp⟩
  refine ⟨p, hp, ?_, ?_⟩
  · rw [hreads.data_path, Nat.mod_eq_of_lt h.pathFits, heq, List.take_left]
  · rw [data_query_eq hreads _ (by rw [heq, List.append_nil]) h.pathFits h.queryFits]
    split
    · rfl
    · rename_i hlt
      exact (List.prefix_iff_eq_take.mp (h.queryStart.resolve_left hlt)).symm

theorem passesThrough_of_plain (hname : serviceName ≠ []) (hslash : 47 ∉ serviceName)
    (hpath : path.head? = some 47) (h : Plain headRest serviceName path query) :
    PassesThrough method rawReq headRest serviceName path query := by
  obtain ⟨p, hparse, hp, hq⟩ := parseUrl_singleCallTarget h
  obtain ⟨rest, rfl⟩ : ∃ rest, path = 47 :: rest := by
    cases path with
    | nil => simp at hpath
    | cons c rest => exact ⟨rest, by simpa using hpath⟩
  -- nothing is trimmed
  have hlast : (serviceName ++ 47 :: rest).getLast? ≠ some 47 := by
    rw [List.getLast?_append_of_ne_nil _ (List.cons_ne_nil _ _)]
    exact h.pathEnd
  have hfirst : trimEnd (serviceName ++ 47 :: rest) = serviceName ++ 47 :: rest :=
    trimEnd_eq_self_iff.mpr hlast
  have hsecond : trimEnd (serviceName ++ (47 :: rest ++ queryText query)) =
      serviceName ++ (47 :: rest ++ queryText query) := by
    rw [trimEnd_eq_self_iff, ← List.append_assoc]
    by_cases hnil : query = []
    · simpa [hnil, queryText] using hlast
    · rw [List.getLast?_append_of_ne_nil _ (by simp [queryText, hnil]), getLast?_queryText hnil]
      exact h.queryEnd
  have hne : serviceName ++ 47 :: rest ≠ [] := by simp
  have hne' : serviceName ++ (47 :: rest ++ queryText query) ≠ [] := by simp
  obtain ⟨e, es, hes⟩ := List.exists_cons_of_ne_nil
    (splitSlashes_ne_nil true (rest ++ queryText query))
  have hsplit : splitSlashes true (serviceName ++ (47 :: rest ++ queryText query)) =
      serviceName :: e :: es := by
    rw [List.cons_append, splitSlashes_true hslash hname, hes]
  have hnot : 63 ∉ 47 :: rest := question_notMem_of_isUrlChar h.pathChars
  obtain ⟨hsq, hprinted⟩ := printedTarget_queryText hnot query
  refine ⟨{ serviceName := serviceName, serviceApi := 47 :: rest ++ queryText query,
            serviceReqData := rawReq, serviceType := 0, method := method }, ?_, rfl, rfl,
    hprinted, hsq⟩
  have hroute := handleRequest_command (a := serviceName ++ 47 :: rest) (by rwa [hfirst]) query
  rw [hfirst, List.append_assoc] at hroute
  rw [handleTarget, if_pos h.head, hparse, Option.bind_some, hp, hq, targetPath, hroute,
    Option.bind_some, if_pos ⟨rfl, rfl⟩, callSingleServiceAsync,
    parseSingleApiRequest_command _ _ (by rwa [hsecond]), hsecond, hsplit]
  simp only [List.drop_left]

/-- The parts of an accepted target: its path begins with the two names; what follows them
    is `a`. -/
theorem commandText_of_parseUrl {p : UrlParse}
    (h : parseUrl (singleCallTarget serviceName path query) = some p) :
    ∃ a query' mid frag,
      UrlReads (singleCallTarget serviceName path query) (47 :: (commandText ++ a)) query' p ∧
      serviceName ++ (path ++ queryText query) = a ++ (mid ++ frag) ∧
      (mid = [] ∧ query' = [] ∨ mid = 63 :: query') ∧
      (frag = [] ∨ frag.head? = some 35) := by
  rw [singleCallTarget_eq] at h ⊢
  obtain ⟨path', query', mid, frag, hreads, hsplit, hmid, hfrag⟩ := splits_of_parseUrl h
  have hhead : ∀ c x, mid ++ frag = c :: x → c = 63 ∨ c = 35 := by
    intro c x hcx
    rcases hmid with ⟨rfl, -⟩ | rfl
    · rcases hfrag with rfl | hfrag
      · cases hcx
      · rw [List.nil_append] at hcx
        exact Or.inr (by simpa [hcx] using hfrag)
    · cases hcx
      exact Or.inl rfl
  -- no character of the names can end the path
  rw [← List.cons_append] at hsplit
  rcases List.append_eq_append_iff.mp hsplit with ⟨a, rfl, hrest⟩ | ⟨x, hx, hrest⟩
  · exact ⟨a, query', mid, frag, hreads, hrest, hmid, hfrag⟩
  · cases x with
    | nil =>
      rw [List.append_nil] at hx
      exact ⟨[], query', mid, frag, by simpa [hx] using hreads, by simpa using hrest.symm, hmid,
        hfrag⟩
    | cons c x =>
      have hc : c ∈ 47 :: commandText := by
        rw [hx]
        simp
      rcases hhead c _ hrest with rfl | rfl <;> exact absurd hc (by decide)

theorem length_queryText_le {mid : Bytes}
    (h : mid = [] ∧ query = [] ∨ mid = 63 :: query) :
    (queryText query).length ≤ mid.length ∧
      ((queryText query).length = mid.length → mid = queryText query) := by
  rcases h with ⟨rfl, rfl⟩ | rfl
  · exact ⟨Nat.le_refl _, fun _ => rfl⟩
  · by_cases hq : query = []
    · simp [queryText, hq]
    · simp [queryText, hq]

theorem length_queryText_mono {q q' : Bytes} (h : q.length ≤ q'.length) :
    (queryText q).length ≤ (queryText q').length := by
  unfold queryText
  split
  · simp
  · rename_i hne
    have hpos := List.length_pos_of_ne_nil hne
    rw [if_neg (List.ne_nil_of_length_pos (by omega))]
    simp only [List.length_cons]
    omega

theorem queryText_inj {a a' q q' : Bytes} (ha : 63 ∉ a) (ha' : 63 ∉ a')
    (h : a ++ queryText q = a' ++ queryText q') : a = a' ∧ q = q' := by
  have hsplit := (printedTarget_queryText ha q).1
  rw [h, (printedTarget_queryText ha' q').1] at hsplit
  simp_all

theorem trimEnd_trimEnd_append {a : Bytes} (h : trimEnd a ≠ []) (b : Bytes) :
    trimEnd (trimEnd a ++ b) ≠ [] := by
  have hlast : (trimEnd a).getLast h ≠ 47 :=
    fun heq => List.rdropWhile_last_not _ a h (beq_iff_eq.mpr heq)
  exact trimEnd_ne_nil hlast (List.mem_append_left b (List.getLast_mem h))

/-- What the api of the call is cut out of. -/
theorem drop_of_handled {p : UrlParse} {req : ServiceCallReq} {a : Bytes} (ha : trimEnd a ≠ [])
    (hparse : parseUrl (singleCallTarget serviceName path query) = some p)
    (hp : p.data (singleCallTarget serviceName path query) .path = 47 :: (commandText ++ a))
    (h : handleTarget method rawReq headRest (singleCallTarget serviceName path query) =
      some (.calls ⟨[req], [], false⟩ .afterCallSingleService)) :
    req.serviceApi =
      (trimEnd (trimEnd a ++
        queryText (p.data (singleCallTarget serviceName path query) .query))).drop
          req.serviceName.length := by
  generalize singleCallTarget serviceName path query = target at *
  obtain ⟨-, h⟩ := Option.ite_none_right_eq_some.mp h
  rw [hparse, Option.bind_some, hp, handleRequest_command ha, Option.bind_some,
    if_pos ⟨rfl, rfl⟩, callSingleServiceAsync,
    parseSingleApiRequest_command _ _ (trimEnd_trimEnd_append ha _)] at h
  rcases hsplit : splitSlashes true (trimEnd (trimEnd a ++ queryText (p.data target .query))) with
    _ | ⟨e, _ | ⟨e', es⟩⟩
  · rw [hsplit] at h
    cases h
  · rw [hsplit] at h
    cases h
  · rw [hsplit] at h
    cases h
    rfl

/-- Without a character of the service nothing is called. -/
theorem not_handled_of_nil {p : UrlParse} {req : ServiceCallReq} {target : Bytes}
    (hparse : parseUrl target = some p)
    (hp : p.data target .path = 47 :: (commandText ++ [])) (hq : p.data target .query = []) :
    handleTarget method rawReq headRest target ≠
      some (.calls ⟨[req], [], false⟩ .afterCallSingleService) := by
  rw [handleTarget, hparse, Option.bind_some, hp, hq]
  intro h
  obtain ⟨-, h⟩ := Option.ite_none_right_eq_some.mp h
  cases h

theorem length_trimSlashes_le (bs : Bytes) : (trimSlashes bs).length ≤ bs.length := by
  rw [trimSlashes_eq]
  exact (length_trimEnd_le _).trans (List.length_dropWhile_le _ _)

/-- The api, the name and two slashes are cut out of what the parser gives as path and
    query. -/
theorem length_api_of_handled {p : UrlParse} {req : ServiceCallReq} {target : Bytes}
    (hparse : parseUrl target = some p) (hapi : req.serviceApi ≠ [])
    (h : handleTarget method rawReq headRest target =
      some (.calls ⟨[req], [], false⟩ .afterCallSingleService)) :
    req.serviceApi.length + req.serviceName.length + 2 ≤
      (p.data target .path).length + (queryText (p.data target .query)).length := by
  obtain ⟨-, h⟩ := Option.ite_none_right_eq_some.mp h
  rw [hparse, Option.bind_some] at h
  obtain ⟨r, hr, h⟩ := Option.bind_eq_some_iff.mp h
  obtain ⟨-, h⟩ := Option.ite_none_right_eq_some.mp h
  have hpath : r.path.length ≤
      (p.data target .path).length + (queryText (p.data target .query)).length := by
    unfold handleRequest at hr
    obtain ⟨-, hr⟩ := Option.ite_none_left_eq_some.mp hr
    split at hr
    · cases hr
    · obtain rfl := Option.some.inj hr
      rw [List.length_append]
      exact Nat.add_le_add_right (length_trimSlashes_le _) _
  have hle := length_trimSlashes_le r.path
  have hreq : parseSingleApiRequest method rawReq r.path = some req := by
    unfold callSingleServiceAsync at h
    split at h
    · cases h
    · rename_i req' hreq
      cases h
      exact hreq
  unfold parseSingleApiRequest at hreq
  dsimp only at hreq
  split at hreq
  · obtain rfl := Option.some.inj hreq
    have hpos := List.length_pos_of_ne_nil hapi
    simp only [List.length_drop] at hpos ⊢
    omega
  · cases hreq

/-- **Nothing is lost on the way** when nothing is missing in the api: the places fit. -/
theorem fits_of_handled {p : UrlParse} {req : ServiceCallReq} {a query' mid frag : Bytes}
    (hparse : parseUrl (singleCallTarget serviceName path query) = some p)
    (hreads : UrlReads (singleCallTarget serviceName path query) (47 :: (commandText ++ a))
      query' p)
    (hrest : serviceName ++ (path ++ queryText query) = a ++ (mid ++ frag))
    (hmid : mid = [] ∧ query' = [] ∨ mid = 63 :: query') (hne : path ≠ [])
    (hhandle : handleTarget method rawReq headRest (singleCallTarget serviceName path query) =
      some (.calls ⟨[req], [], false⟩ .afterCallSingleService))
    (hreq : req.serviceName = serviceName) (hapi : req.serviceApi = path ++ queryText query) :
    (47 :: (commandText ++ a)).length < 65536 ∧ query'.length < 65536 := by
  have hlen := length_api_of_handled hparse (by simp [hapi, hne]) hhandle
  have hcommand : commandText.length = 35 := rfl
  have hlenRest := congrArg List.length hrest
  have hmidLen : (mid = [] ∧ query'.length = 0) ∨ mid.length = query'.length + 1 := by
    rcases hmid with ⟨rfl, rfl⟩ | rfl <;> simp
  have hquery (bs : Bytes) : (queryText bs).length ≤ bs.length + 1 ∧
      (bs.length = 0 → (queryText bs).length = 0) := by
    unfold queryText
    split <;> simp_all
  have hcut := hquery (p.data (singleCallTarget serviceName path query) .query)
  have hpathLen : (p.data (singleCallTarget serviceName path query) .path).length ≤
      (47 :: (commandText ++ a)).length % 65536 := by
    rw [hreads.data_path]
    exact List.length_take_le _ _
  have hqueryLen : (p.data (singleCallTarget serviceName path query) .query).length ≤
      query'.length % 65536 := by
    rw [hreads.data_query]
    exact List.length_take_le _ _
  rw [hapi, hreq] at hlen
  simp only [List.length_append, List.length_cons, hcommand] at hlen hlenRest hpathLen ⊢
  rcases hmidLen with ⟨rfl, hzero⟩ | hmidLen
  · simp only [List.length_nil] at hlenRest
    constructor <;> omega
  · constructor <;> omega

/-- As nothing is missing in the api, nothing was lost on the way: there is no fragment, and neither
    the path nor the query ended in a slash. -/
theorem uncut_of_drop {a query' mid frag q' : Bytes} (hpath : path ≠ [])
    (hmid : mid = [] ∧ query' = [] ∨ mid = 63 :: query') (hlen : q'.length ≤ query'.length)
    (hrest : serviceName ++ (path ++ queryText query) = a ++ (mid ++ frag))
    (hdrop : path ++ queryText query =
      (trimEnd (trimEnd a ++ queryText q')).drop serviceName.length) :
    frag = [] ∧ mid = queryText query' ∧ trimEnd a = a ∧
      trimEnd (a ++ queryText q') = a ++ queryText q' := by
  obtain ⟨hmidLe, hmidEq⟩ := length_queryText_le hmid
  have hmono := length_queryText_mono hlen
  have hpos := List.length_pos_of_ne_nil hpath
  have hsum := length_trimEnd_le (trimEnd a ++ queryText q')
  have hle := length_trimEnd_le a
  replace hdrop := congrArg List.length hdrop
  replace hrest := congrArg List.length hrest
  simp only [List.length_append, List.length_drop] at hdrop hrest hsum
  have hfirst : trimEnd a = a := trimEnd_eq_self_of_length (by omega)
  refine ⟨List.length_eq_zero_iff.mp (by omega), hmidEq (by omega), hfirst, ?_⟩
  rw [hfirst] at hsum hdrop
  exact trimEnd_eq_self_of_length (by rw [List.length_append]; omega)

theorem plain_of_passesThrough (hname : serviceName ≠ []) (hslash : 47 ∉ serviceName)
    (hquestion : 63 ∉ serviceName) (hhead : path.head? = some 47) (hpathq : 63 ∉ path)
    (h : PassesThrough method rawReq headRest serviceName path query) :
    Plain headRest serviceName path query := by
  obtain ⟨req, hhandle, hreq, hapi, -, -⟩ := h
  obtain ⟨hlimit, hbind⟩ := Option.ite_none_right_eq_some.mp hhandle
  obtain ⟨p, hparse, -⟩ := Option.bind_eq_some_iff.mp hbind
  obtain ⟨a, query', mid, frag, hreads, hrest, hmid, hfrag⟩ := commandText_of_parseUrl hparse
  have hpathNe : path ≠ [] := by
    rintro rfl
    simp at hhead
  obtain ⟨hpathFits, hqueryFits⟩ :=
    fits_of_handled hparse hreads hrest hmid hpathNe hhandle hreq hapi
  have hp : p.data (singleCallTarget serviceName path query) .path = 47 :: (commandText ++ a) := by
    have htarget : singleCallTarget serviceName path query =
        47 :: (commandText ++ a) ++ (mid ++ frag) := by simp [singleCallTarget_eq, hrest]
    rw [hreads.data_path, Nat.mod_eq_of_lt hpathFits, htarget, List.take_left]
  have hqlen : (p.data (singleCallTarget serviceName path query) .query).length ≤
      query'.length := by
    rw [hreads.data_query, Nat.mod_eq_of_lt hqueryFits]
    exact List.length_take_le _ _
  obtain ⟨c, s, rfl⟩ := List.exists_cons_of_ne_nil hname
  simp only [List.mem_cons, not_or] at hslash hquestion
  -- the first character of the service is not lost in a run of slashes
  have ha : trimEnd a ≠ [] := by
    cases a with
    | nil =>
      rcases hmid with ⟨rfl, rfl⟩ | rfl
      · exact absurd hhandle (not_handled_of_nil hparse hp
          (List.length_eq_zero_iff.mp (Nat.le_zero.mp hqlen)))
      · exact absurd (List.cons.inj hrest).1 (Ne.symm hquestion.1)
    | cons d a =>
      obtain rfl : c = d := (List.cons.inj hrest).1
      exact trimEnd_ne_nil (Ne.symm hslash.1) List.mem_cons_self
  have hdrop := drop_of_handled ha hparse hp hhandle
  generalize hq' : p.data (singleCallTarget (c :: s) path query) .query = q' at *
  rw [hapi, hreq] at hdrop
  obtain ⟨rfl, rfl, hfirst, hsecond⟩ := uncut_of_drop hpathNe hmid hqlen hrest hdrop
  have hachars : ∀ d ∈ a, isUrlChar d = true := by
    intro d hd
    exact hreads.pathChars d (by simp [hd])
  have hxq : 63 ∉ (c :: s) ++ path := by
    simp only [List.mem_append, List.mem_cons, not_or]
    exact ⟨hquestion, hpathq⟩
  rw [List.append_nil, ← List.append_assoc] at hrest
  obtain ⟨rfl, rfl⟩ := queryText_inj hxq (question_notMem_of_isUrlChar hachars) hrest
  -- the api ends with what was cut out for the query
  obtain rfl : query = q' := by
    rw [hfirst, hsecond, List.append_assoc, List.drop_left] at hdrop
    exact (queryText_inj hpathq hpathq hdrop).2
  have htarget : targetPath (c :: s) path = 47 :: (commandText ++ ((c :: s) ++ path)) := rfl
  constructor
  case nameChars => exact fun d hd => hachars d (List.mem_append_left path hd)
  case pathChars => exact fun d hd => hachars d (List.mem_append_right (c :: s) hd)
  case queryChars => exact hreads.queryChars
  case pathEnd =>
    have hlast := trimEnd_eq_self_iff.mp hfirst
    rwa [List.getLast?_append_of_ne_nil _ hpathNe] at hlast
  case queryEnd =>
    by_cases hnil : query = []
    · simp [hnil]
    · have hlast := trimEnd_eq_self_iff.mp hsecond
      rwa [List.getLast?_append_of_ne_nil _ (by simp [queryText, hnil]),
        getLast?_queryText hnil] at hlast
  case head => exact hlimit
  case pathFits => exact hpathFits
  case queryFits => exact hqueryFits
  case queryStart =>
    rw [data_query_eq hreads [] (by rw [singleCallTarget_eq_targetPath, htarget,
      List.append_nil]) hpathFits hqueryFits] at hq'
    split at hq'
    · exact Or.inl ‹_›
    · exact Or.inr (List.prefix_iff_eq_take.mpr hq'.symm)

/-- **Path and query come through.** -/
theorem passesThrough_iff (method : Int) (rawReq : Bytes) (headRest : Nat)
    (hname : serviceName ≠ []) (hslash : 47 ∉ serviceName) (hquestion : 63 ∉ serviceName)
    (hhead : path.head? = some 47) (hpathq : 63 ∉ path) (query : Bytes) :
    PassesThrough method rawReq headRest serviceName path query ↔
      Plain headRest serviceName path query :=
  ⟨plain_of_passesThrough hname hslash hquestion hhead hpathq,
    passesThrough_of_plain hname hslash hhead⟩

/-- A repeated slash, and slashes and a question mark in the query. -/
theorem passesThrough_plain :
    PassesThrough 1 [] 100 (ascii "users") (ascii "/v1//list") (ascii "from=/a/b?c") := by
  refine (passesThrough_iff 1 [] 100 (by decide) (by decide) (by decide) (by decide) (by decide)
    (ascii "from=/a/b?c")).mpr ?_
  exact ⟨by decide +kernel, by decide +kernel, by decide +kernel, by decide, by decide,
    by decide, by decide, by decide, Or.inl (by decide)⟩

/-- A slash at the end of the path is lost. -/
theorem passesThrough_lost :
    handleTarget 1 [] 100 (singleCallTarget (ascii "users") (ascii "/list/") []) =
      some (.calls ⟨[{ serviceName := ascii "users", serviceApi := ascii "/list", method := 1 }],
        [], false⟩ .afterCallSingleService) := by
  rfl

/-- **A long path is cut.**  Of a target whose path has six bytes more than 2^16, `/comma` is
    left, and no handler is found. -/
theorem handleTarget_of_long {tail : Bytes} (hchars : ∀ c ∈ tail, isUrlChar c = true)
    (hlen : tail.length = 65506) (method : Int) (rawReq : Bytes) (headRest : Nat) :
    handleTarget method rawReq headRest (47 :: (commandText ++ tail)) = none := by
  have hall : ∀ c ∈ commandText ++ tail, isUrlChar c = true := by
    intro c hc
    rcases List.mem_append.mp hc with hc | hc
    · exact isUrlChar_of_mem_commandText c hc
    · exact hchars c hc
  obtain ⟨p, hp, hreads⟩ := parseUrl_path hall
  have hcommand : commandText.length = 35 := rfl
  have hlength : (47 :: (commandText ++ tail)).length % 65536 = 6 := by
    rw [List.length_cons, List.length_append, hlen, hcommand]
  have hpath : p.data (47 :: (commandText ++ tail)) .path = ascii "/comma" := by
    rw [hreads.data_path, hlength]
    rfl
  rw [handleTarget, hp, Option.bind_some, hpath]
  split <;> rfl

end PassesThrough

end FiberProxy.Front
