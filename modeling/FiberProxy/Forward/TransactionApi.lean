/-
  FiberProxy.Forward.TransactionApi

  What `FibpTransactionMgr` really reads and where it really posts.

  The id of a response should be the string after its `transaction_id` key.  Each
  of the two quotes is looked for together with the zero that ends the literal and
  the bytes behind it, so an id is found only in a response that has these bytes
  there (`transactionId_iff`); the body that the manager posts itself has not.

  The action is appended to the api of the call, and `FibpHttpClient::send_request`
  cuts the sum at its first `?`.  With a query in the api the action ends up behind
  it (`tranTarget_iff`).
-/

import FiberProxy.Forward.TransactionMgr
import FiberProxy.Http.RequestText
import FiberProxy.Lib.Lists

namespace FiberProxy.Forward

open Lib Lib.Http1 Http

/-! ## The id of a response -/

/-- What the two calls of `find` look for. -/
def LiteralMemory.startNeedle (mem : LiteralMemory) : Bytes := 34 :: 0 :: mem.behindStart

def LiteralMemory.endNeedle (mem : LiteralMemory) : Bytes := 34 :: 0 :: mem.behindEnd

/-- What follows the first key of a response. -/
def afterKey (rsp : Bytes) : Option Bytes :=
  (findSub tranKey rsp).map fun pos => rsp.drop (pos + tranKey.length)

/-- A colon with blanks around it. -/
def Separator (sep : Bytes) : Prop :=
  ∃ a b, sep = a ++ 58 :: b ∧ (∀ c ∈ a ++ b, c = 32 ∨ c = 9) ∧ sep.length < 10

/-- The response has the id `tranId`. -/
def TransactionIdIs (rsp tranId : Bytes) : Prop :=
  ∃ pre sep post, rsp = pre ++ (tranKey ++ (sep ++ 34 :: (tranId ++ 34 :: post))) ∧
    findSub tranKey pre = none ∧ Separator sep ∧ 34 ∉ tranId ∧ tranId.length < 128

/-- The value of the key is not a string. -/
def ValueNotString (rsp : Bytes) : Prop :=
  ∃ pre sep rest, rsp = pre ++ (tranKey ++ (sep ++ rest)) ∧ findSub tranKey pre = none ∧
    Separator sep ∧ rest.head? ≠ some 34

/-- After the key, one needle and then the other. -/
def ZeroEnded (mem : LiteralMemory) (rsp : Bytes) : Prop :=
  ∃ v i j, afterKey rsp = some v ∧ i < j ∧ mem.startNeedle <+: v.drop i ∧
    mem.endNeedle <+: v.drop j

/-- The first needle after the key begins a string `tranId` whose end is the second one. -/
def ZeroQuoted (mem : LiteralMemory) (rsp tranId : Bytes) : Prop :=
  ∃ u w, afterKey rsp = some (u ++ 34 :: (tranId ++ 34 :: w)) ∧
    findSub mem.startNeedle (u ++ 34 :: (tranId ++ 34 :: w)) = some u.length ∧
    0 :: mem.behindEnd <+: w

/-- The two calls of `find`, on what follows the key. -/
def idIn (mem : LiteralMemory) (v : Bytes) : Bytes :=
  match findSub mem.startNeedle v with
  | none => []
  | some i =>
    match findSub mem.endNeedle (v.drop (i + 1)) with
    | none => []
    | some j => (v.drop (i + 1)).take j

theorem getTransactionId_eq (mem : LiteralMemory) (rsp : Bytes) :
    getTransactionId mem rsp = (afterKey rsp).elim [] (idIn mem) := by
  unfold getTransactionId afterKey findFrom
  rw [List.drop_zero]
  cases findSub tranKey rsp with
  | none => rfl
  | some pos =>
    simp only [Option.map_some, Option.elim_some, idIn, LiteralMemory.startNeedle,
      LiteralMemory.endNeedle, Nat.add_zero]
    cases findSub (34 :: 0 :: mem.behindStart) (rsp.drop (pos + tranKey.length)) with
    | none => rfl
    | some i =>
      have hpos : i + (pos + tranKey.length) + 1 = pos + tranKey.length + (i + 1) := by omega
      simp only [Option.map_some, List.drop_drop, hpos]
      cases findSub (34 :: 0 :: mem.behindEnd) (rsp.drop (pos + tranKey.length + (i + 1))) with
      | none => rfl
      | some j =>
        have hlen : j + (pos + tranKey.length + (i + 1)) - (i + (pos + tranKey.length)) - 1 =
            j := by omega
        simp only [Option.map_some, hlen]

section IdIn

variable {mem : LiteralMemory} {v tranId : Bytes}

/-- The first needle begins with a quote and a zero. -/
theorem drop_of_startNeedle {i : Nat} (h : mem.startNeedle <+: v.drop i) :
    ∃ x, v.drop i = 34 :: 0 :: x ∧ v.drop (i + 1) = 0 :: x := by
  obtain ⟨x, hx⟩ := h
  refine ⟨mem.behindStart ++ x, by rw [← hx]; rfl, ?_⟩
  rw [← List.drop_drop, ← hx]
  rfl

/-- What is found is not empty: it begins with the zero of the first needle. -/
theorem idIn_of_found {i j : Nat} (hi : findSub mem.startNeedle v = some i)
    (hj : findSub mem.endNeedle (v.drop (i + 1)) = some j) :
    idIn mem v = (v.drop (i + 1)).take j ∧ idIn mem v ≠ [] := by
  have heq : idIn mem v = (v.drop (i + 1)).take j := by simp only [idIn, hi, hj]
  refine ⟨heq, ?_⟩
  obtain ⟨x, -, hx⟩ := drop_of_startNeedle (findSub_eq_some.mp hi).1
  rw [heq, hx]
  -- the second needle begins with a quote, so not at the zero
  cases j with
  | zero =>
    obtain ⟨y, hy⟩ := (findSub_eq_some.mp hj).1
    rw [hx] at hy
    cases hy
  | succ j => simp

theorem idIn_eq_nil : idIn mem v = [] ↔
    ¬ ∃ i j, i < j ∧ mem.startNeedle <+: v.drop i ∧ mem.endNeedle <+: v.drop j := by
  cases hi : findSub mem.startNeedle v with
  | none =>
    simp only [idIn, hi, true_iff]
    rintro ⟨i, -, -, hstart, -⟩
    exact findSub_eq_none.mp hi i hstart
  | some i =>
    obtain ⟨hstart, hfirst⟩ := findSub_eq_some.mp hi
    cases hj : findSub mem.endNeedle (v.drop (i + 1)) with
    | none =>
      simp only [idIn, hi, hj, true_iff]
      rintro ⟨i', j, hlt, hstart', hend⟩
      -- the first occurrence comes before the one that is given
      have hle : i ≤ i' := by
        by_contra hlt'
        exact hfirst i' (by omega) hstart'
      refine findSub_eq_none.mp hj (j - (i + 1)) ?_
      rwa [List.drop_drop, show i + 1 + (j - (i + 1)) = j by omega]
    | some j =>
      simp only [(idIn_of_found hi hj).2, false_iff, not_not]
      refine ⟨i, i + 1 + j, by omega, hstart, ?_⟩
      rw [← List.drop_drop]
      exact (findSub_eq_some.mp hj).1

/-- The id is found when it stands between the needles. -/
theorem idIn_of_quoted {u w : Bytes} (hq : 34 ∉ tranId)
    (hv : v = u ++ 34 :: (tranId ++ 34 :: w)) (hstart : findSub mem.startNeedle v = some u.length)
    (hw : 0 :: mem.behindEnd <+: w) : idIn mem v = tranId := by
  have hdrop : v.drop (u.length + 1) = tranId ++ 34 :: w := by
    rw [hv, ← List.drop_drop, List.drop_left]
    rfl
  have hend : findSub mem.endNeedle (v.drop (u.length + 1)) = some tranId.length := by
    rw [hdrop, findSub_eq_some]
    refine ⟨?_, fun j hj hpre => hq ?_⟩
    · rw [List.drop_left]
      exact List.cons_prefix_cons.mpr ⟨rfl, hw⟩
    -- no quote, no needle
    · have hget := getElem?_of_prefix_drop hpre
      rw [List.getElem?_append_left hj] at hget
      exact List.mem_of_getElem? hget
  rw [(idIn_of_found hstart hend).1, hdrop, List.take_left]

theorem quoted_of_idIn (h : idIn mem v = tranId) (hne : tranId ≠ []) :
    ∃ u w, v = u ++ 34 :: (tranId ++ 34 :: w) ∧ findSub mem.startNeedle v = some u.length ∧
      0 :: mem.behindEnd <+: w := by
  cases hi : findSub mem.startNeedle v with
  | none => exact absurd h (by simpa [idIn, hi] using Ne.symm hne)
  | some i =>
    cases hj : findSub mem.endNeedle (v.drop (i + 1)) with
    | none => exact absurd h (by simpa [idIn, hi, hj] using Ne.symm hne)
    | some j =>
      obtain ⟨w, hw⟩ := (findSub_eq_some.mp hj).1
      obtain ⟨x, hx, -⟩ := drop_of_startNeedle (findSub_eq_some.mp hi).1
      have hlen : i ≤ v.length := by
        by_contra hlt
        rw [List.drop_eq_nil_of_le (by omega)] at hx
        cases hx
      have hafter : v.drop (i + 1) = tranId ++ 34 :: (0 :: mem.behindEnd ++ w) := by
        rw [← h, (idIn_of_found hi hj).1]
        conv_lhs => rw [← List.take_append_drop j (v.drop (i + 1)), ← hw]
        rfl
      refine ⟨v.take i, 0 :: mem.behindEnd ++ w, ?_, ?_, List.prefix_append _ _⟩
      · rw [← hafter]
        conv_lhs => rw [← List.take_append_drop i v]
        rw [List.append_cancel_left_eq, ← List.drop_drop, hx]
        rfl
      · rw [List.length_take, Nat.min_eq_left hlen]

end IdIn

/-! ## The response as a whole -/

theorem getTransactionId_eq_nil {mem : LiteralMemory} {rsp : Bytes} :
    getTransactionId mem rsp = [] ↔ ¬ ZeroEnded mem rsp := by
  rw [getTransactionId_eq]
  cases h : afterKey rsp with
  | none => simp [ZeroEnded, h]
  | some v =>
    rw [Option.elim_some, idIn_eq_nil, not_iff_not]
    constructor
    · rintro ⟨i, j, hfound⟩
      exact ⟨v, i, j, h, hfound⟩
    · rintro ⟨v', i, j, hv, hfound⟩
      rw [h] at hv
      cases hv
      exact ⟨i, j, hfound⟩

theorem getTransactionId_eq_iff {mem : LiteralMemory} {rsp tranId : Bytes} (hq : 34 ∉ tranId) :
    getTransactionId mem rsp = tranId ↔
      ZeroQuoted mem rsp tranId ∨ (tranId = [] ∧ ¬ ZeroEnded mem rsp) := by
  constructor
  · intro h
    by_cases hne : tranId = []
    · subst hne
      exact Or.inr ⟨rfl, getTransactionId_eq_nil.mp h⟩
    · refine Or.inl ?_
      rw [getTransactionId_eq] at h
      cases hv : afterKey rsp with
      | none => exact absurd h (by simpa [hv] using Ne.symm hne)
      | some v =>
        rw [hv] at h
        obtain ⟨u, w, rfl, hstart, hw⟩ := quoted_of_idIn h hne
        exact ⟨u, w, hv, hstart, hw⟩
  · rintro (⟨u, w, hv, hstart, hw⟩ | ⟨rfl, hnot⟩)
    · rw [getTransactionId_eq, hv]
      exact idIn_of_quoted hq rfl hstart hw
    · exact getTransactionId_eq_nil.mpr hnot

/-- What follows the key in a body of the manager. -/
theorem afterKey_postdata (host port api tranId : Bytes) (action : TranAction) :
    afterKey (sendTransactionApi host port api tranId action).postdata =
      some (58 :: 34 :: (tranId ++ [34, 125])) := by
  have hbody : (sendTransactionApi host port api tranId action).postdata =
      123 :: (tranKey ++ (58 :: 34 :: (tranId ++ [34, 125]))) := by
    simp [sendTransactionApi, ascii]
  have hkey : findSub tranKey (123 :: (tranKey ++ (58 :: 34 :: (tranId ++ [34, 125])))) =
      some 1 := by
    rw [findSub_eq_some]
    refine ⟨List.prefix_append _ _, fun j hj hpre => ?_⟩
    -- the key begins with a quote, the body with a brace
    obtain rfl : j = 0 := by omega
    have hhead : (123 : UInt8) = 34 := Option.some.inj (getElem?_of_prefix_drop hpre)
    exact absurd hhead (by decide)
  rw [hbody, afterKey, hkey, Option.map_some, Nat.add_comm, List.drop_succ_cons, List.drop_left]

/-- After the key of such a body there are two quotes only, and no zero behind the second. -/
theorem zeroEnded_postdata (mem : LiteralMemory) (host port api : Bytes) {tranId : Bytes}
    (action : TranAction) (hq : 34 ∉ tranId) :
    ¬ ZeroEnded mem (sendTransactionApi host port api tranId action).postdata := by
  rintro ⟨v, i, j, hv, hij, hstart, hend⟩
  rw [afterKey_postdata] at hv
  cases hv
  have hi := getElem?_of_prefix_drop hstart
  have hj := getElem?_of_prefix_drop hend
  match i, j, hij with
  | 0, _, _ => simp at hi
  | i + 1, j + 2, _ =>
    rw [List.getElem?_cons_succ, List.getElem?_cons_succ] at hj
    by_cases hlt : j < tranId.length
    · rw [List.getElem?_append_left hlt] at hj
      exact hq (List.mem_of_getElem? hj)
    · have hlen := hend.length_le
      simp only [LiteralMemory.endNeedle, List.length_cons, List.length_drop,
        List.length_append, List.length_nil, mem.length_behindEnd] at hlen
      omega

/-- What the manager posts itself gives no id back. -/
theorem getTransactionId_postdata (mem : LiteralMemory) (host port api : Bytes) {tranId : Bytes}
    (action : TranAction) (hq : 34 ∉ tranId) :
    getTransactionId mem (sendTransactionApi host port api tranId action).postdata = [] :=
  getTransactionId_eq_nil.mpr (zeroEnded_postdata mem host port api action hq)

/-- The id of a response is returned when the bytes around it are those of the two needles,
    and an empty id also when there are no needles; what the manager posts itself gives no
    id back. -/
theorem transactionId_iff (mem : LiteralMemory) :
    (∀ rsp tranId, TransactionIdIs rsp tranId →
      (getTransactionId mem rsp = tranId ↔
        ZeroQuoted mem rsp tranId ∨ (tranId = [] ∧ ¬ ZeroEnded mem rsp))) ∧
    (∀ rsp, findSub tranKey rsp = none → getTransactionId mem rsp = []) ∧
    (∀ rsp, ValueNotString rsp →
      (getTransactionId mem rsp = [] ↔ ¬ ZeroEnded mem rsp)) ∧
    (∀ host port api tranId action, 34 ∉ tranId → tranId.length < 128 →
      (getTransactionId mem (sendTransactionApi host port api tranId action).postdata = tranId ↔
        tranId = [])) := by
  refine ⟨?_, ?_, ?_, ?_⟩
  · rintro rsp tranId ⟨-, -, -, -, -, -, hq, -⟩
    exact getTransactionId_eq_iff hq
  · intro rsp hkey
    rw [getTransactionId_eq, afterKey, hkey]
    rfl
  · intro rsp _
    exact getTransactionId_eq_nil
  · intro host port api tranId action hq _
    rw [getTransactionId_postdata mem host port api action hq, eq_comm]

/-- A response made of the needles of `zeroMemory`. -/
def zerosRsp : Bytes :=
  ascii "\x7b" ++ (tranKey ++ (ascii ":" ++
    34 :: (List.replicate 9 0 ++ 34 :: List.replicate 127 0)))

theorem zeroQuoted_zerosRsp : ZeroQuoted zeroMemory zerosRsp (List.replicate 9 0) :=
  ⟨ascii ":", List.replicate 127 0, by decide +kernel, by decide +kernel, by decide⟩

theorem transactionId_zeros : TransactionIdIs zerosRsp (List.replicate 9 0) ∧
    getTransactionId zeroMemory zerosRsp = List.replicate 9 0 := by
  have h : TransactionIdIs zerosRsp (List.replicate 9 0) := by
    refine ⟨ascii "\x7b", ascii ":", List.replicate 127 0, rfl, by decide, ?_, by decide,
      by decide⟩
    exact ⟨[], [], by decide, by simp, by decide⟩
  exact ⟨h, ((transactionId_iff zeroMemory).1 _ _ h).mpr (Or.inl zeroQuoted_zerosRsp)⟩

/-- A plain answer: its id is not found, whatever the memory holds. -/
theorem transactionId_lost :
    TransactionIdIs (ascii "\x7b\"transaction_id\":\"t7\"\x7d") (ascii "t7") ∧
      ∀ mem, getTransactionId mem (ascii "\x7b\"transaction_id\":\"t7\"\x7d") = [] := by
  constructor
  · refine ⟨ascii "\x7b", ascii ":", ascii "\x7d", by decide, by decide, ?_, by decide, by decide⟩
    exact ⟨[], [], by decide, by simp, by decide⟩
  · intro mem
    exact getTransactionId_postdata mem [] [] [] .confirm (by decide : 34 ∉ ascii "t7")

/-! ## Where the action is posted -/

/-- What comes behind a path without a query still belongs to the path; behind a query it
    belongs to the query. -/
theorem splitQuery_action {text : Bytes} (htext : 63 ∉ text) (api : Bytes) :
    (splitQuery (api ++ text)).1 =
      if 63 ∈ api then (splitQuery api).1 else (splitQuery api).1 ++ text := by
  obtain hnot | ⟨p, q, rfl, hp⟩ := query_cases api
  · rw [if_neg hnot, splitQuery_of_notMem hnot, splitQuery_of_notMem]
    simp only [List.mem_append, not_or]
    exact ⟨hnot, htext⟩
  · rw [if_pos (by simp), List.append_assoc, List.cons_append, splitQuery_append hp,
      splitQuery_append hp]

/-- The action is part of the path that is posted to when there is no `?` in the api;
    otherwise the path is that of the api itself. -/
theorem tranTarget_iff (host port api tranId : Bytes) (action : TranAction) :
    let msg := sendTransactionApi host port api tranId action
    sendRequest msg.host msg.port msg.path .post msg.postdata =
        requestLine .post (printedTarget msg.path) ++
          (crlf ++ headerBlock (requestLines (hostText host port) msg.postdata.length)
            msg.postdata) ∧
      ((splitQuery (printedTarget msg.path)).1 = (splitQuery api).1 ++ action.text ↔ 63 ∉ api) ∧
      ((splitQuery (printedTarget msg.path)).1 ≠ (splitQuery api).1 ↔ 63 ∉ api) := by
  refine ⟨sendRequest_eq _ _ _ _ _, ?_⟩
  have htext : 63 ∉ action.text := by cases action <;> decide
  have hne : action.text ≠ [] := by cases action <;> decide
  simp only [splitQuery_printedTarget, sendTransactionApi, splitQuery_action htext]
  by_cases h : 63 ∈ api
  · rw [if_pos h]
    simp [h, hne]
  · rw [if_neg h]
    simp [h, hne]

/-- A query in the api: the Confirm is posted to the Try itself. -/
theorem tranTarget_query :
    let msg := sendTransactionApi (ascii "h") (ascii "80") (ascii "/pay?v=2") (ascii "t7") .confirm
    (splitQuery (printedTarget msg.path)).1 = ascii "/pay" ∧
      printedTarget msg.path = ascii "/pay?v=2/confirm" := by
  decide

end FiberProxy.Forward
