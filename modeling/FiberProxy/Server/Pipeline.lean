/-
  FiberProxy.Server.Pipeline

  The order of the responses on one connection.  `do_parse` goes on to the next
  request as soon as an asynchronous handler has taken one, and every completion
  writes to the socket on its own.  The responses come out whole and in the order
  of the requests as long as every response is started in its turn
  (`inOrder_of_inTurn`); nothing in the connection sees to that.
-/

import FiberProxy.Server.HttpConnection
import FiberProxy.Lib.Lists

namespace FiberProxy.Server

open Lib Http

/-- The response a request is due. -/
def answer (r : Incoming) : Bytes :=
  if r.path = [] then ErrorRsp.text .badRequest
  else
    match r.handler with
    | .missing => ErrorRsp.text .notFound
    | .sync true | .immediate | .deferred => rspText r.keepAlive r.body
    | .sync false | .asyncThrows => ErrorRsp.text .internalServerError

/-- The writes in flight. -/
def Conn.inFlight (s : Conn) : List Writer := (s.writer .conn).toList ++ s.writers

/-- Nothing is under way: every delivered request has been dealt with. -/
def Conn.Quiet (s : Conn) : Prop := s.tasks = [] ∧ s.deferred = [] ∧ s.inFlight = []

/-- The first `k` responses. -/
def Conn.responses (s : Conn) (k : Nat) : Bytes := ((s.accepted.map answer).take k).flatten

/-- **Response order.**  The bytes on the connection are whole responses in the
    order of the requests, and a part of the next one; when nothing is under way,
    every request has its response. -/
def InOrder (s : Conn) : Prop :=
  ∃ k t, s.out = s.responses k ++ t ∧
    (t = [] ∨ ∃ r, s.accepted[k]? = some r ∧ t <+: answer r) ∧
    (s.Quiet → s.out = s.responses s.accepted.length)

/-- The request whose response this step starts to write. -/
def starts (pooled : Bool) (s : Conn) : Event → Option Nat
  | .parse =>
    match s.fiber with
    | .parsing (r :: _) _ =>
      if r.path = [] ∨ (pooled = false ∧ r.handler ≠ .deferred) then some s.accepted.length
      else none
    | _ => none
  | .runTask i => if (s.accepted[i]?).any (·.handler ≠ .deferred) then some i else none
  | .complete i => some i
  | _ => none

/-- The socket does not fail in this step. -/
def Event.socketOk : Event → Bool
  | .readError | .fail _ => false
  | _ => true

/-- The socket does not fail in this step, and a response that it starts is in its
    turn: every earlier request has been answered in full. -/
def InTurn (pooled : Bool) (s : Conn) (e : Event) : Prop :=
  e.socketOk = true ∧ ∀ i ∈ starts pooled s e, ∀ j < i, j ∈ s.answered

instance (pooled : Bool) (s : Conn) (e : Event) : Decidable (InTurn pooled s e) :=
  inferInstanceAs (Decidable (_ ∧ ∀ i ∈ _, _))

/-! ## The invariant -/

/-- Where each request is: it waits for a fiber or a completion, is being answered,
    or has been answered. -/
def Conn.places (s : Conn) : List Nat :=
  s.tasks ++ s.deferred ++ s.inFlight.filterMap (·.req) ++ s.answered

/-- At most the response that is next in order is in flight. -/
inductive Conn.Writing (s : Conn) : Prop where
  | idle (h : s.inFlight = []) (hout : s.out = s.responses s.answered.length)
  | one (w : Writer) (r : Incoming) (h : s.inFlight = [w])
      (hreq : w.req = some s.answered.length) (hr : s.accepted[s.answered.length]? = some r)
      (htext : w.text = answer r)
      (hout : s.out = s.responses s.answered.length ++ w.text.take w.sent)

structure Ordered (s : Conn) : Prop where
  /-- Every delivered request is in one place. -/
  placed : ∀ i, s.places.count i = if i < s.accepted.length then 1 else 0
  answered : s.answered = List.range s.answered.length
  tasks : ∀ i ∈ s.tasks, ∀ r, s.accepted[i]? = some r → r.path ≠ []
  deferred : ∀ i ∈ s.deferred, ∀ r, s.accepted[i]? = some r →
    r.path ≠ [] ∧ r.handler = .deferred
  writing : s.Writing

theorem ordered_start : Ordered {} where
  placed i := by simp [Conn.places, Conn.inFlight, Conn.writer, Fiber.writer]
  answered := rfl
  tasks := by simp
  deferred := by simp
  writing := .idle rfl rfl

section Invariant

variable {s : Conn}

theorem Ordered.answered_lt (hs : Ordered s) {i : Nat} (hi : i ∈ s.answered) :
    i < s.accepted.length := by
  have hpos : 0 < s.places.count i := List.count_pos_iff.mpr (by simp [Conn.places, hi])
  rw [hs.placed i] at hpos
  by_contra hge
  simp [hge] at hpos

theorem Ordered.mem_answered (hs : Ordered s) {i : Nat} :
    i ∈ s.answered ↔ i < s.answered.length := by
  rw [hs.answered]
  simp

theorem Ordered.length_le (hs : Ordered s) : s.answered.length ≤ s.accepted.length := by
  by_contra hlt
  have hmem : s.accepted.length ∈ s.answered := hs.mem_answered.mpr (by omega)
  exact absurd (hs.answered_lt hmem) (lt_irrefl _)

/-- **A response in its turn** is the next one, and no other write is in flight. -/
theorem Ordered.turn (hs : Ordered s) {i : Nat} (hi : i ∉ s.answered)
    (hfl : ∀ w ∈ s.inFlight, w.req ≠ some i) (hturn : ∀ j < i, j ∈ s.answered) :
    i = s.answered.length ∧ s.inFlight = [] ∧ s.out = s.responses s.answered.length := by
  -- the answered requests are an initial segment, and all below `i` are answered
  have hk : i = s.answered.length := by
    rw [hs.mem_answered] at hi
    by_contra hne
    have hmem := hturn s.answered.length (by omega)
    rw [hs.mem_answered] at hmem
    omega
  refine ⟨hk, ?_⟩
  cases hs.writing with
  | idle h hout => exact ⟨h, hout⟩
  | one w r h hreq =>
    rw [hk] at hfl
    exact absurd hreq (hfl w (by simp [h]))

/-- A request that waits is neither answered nor being answered. -/
theorem Ordered.waiting_free (hs : Ordered s) {i : Nat} (hi : i ∈ s.tasks ++ s.deferred) :
    i ∉ s.answered ∧ ∀ w ∈ s.inFlight, w.req ≠ some i := by
  have hcount := hs.placed i
  have hpos := List.count_pos_iff.mpr hi
  rw [Conn.places, List.count_append, List.count_append] at hcount
  -- it is counted where it waits, so it is counted nowhere else
  have hle : (if i < s.accepted.length then 1 else 0) ≤ 1 := by split <;> omega
  constructor
  · intro hmem
    have := List.count_pos_iff.mpr hmem
    omega
  · intro w hw hreq
    have hmem : i ∈ s.inFlight.filterMap (·.req) := List.mem_filterMap.mpr ⟨w, hw, hreq⟩
    have := List.count_pos_iff.mpr hmem
    omega

/-! ## The steps -/

theorem handleRequestFunc_eq_some {i : Nat} {r : Incoming} {w : Writer} (hp : r.path ≠ [])
    (h : handleRequestFunc i r = some w) :
    w.req = some i ∧ w.text = answer r ∧ w.sent = 0 ∧ r.handler ≠ .deferred := by
  unfold handleRequestFunc at h
  split at h <;> simp_all [answer, errorWriter, rspWriter] <;> subst h <;> simp

theorem responses_append {s t : Conn} {ext : List Incoming} (h : t.accepted = s.accepted ++ ext)
    {k : Nat} (hk : k ≤ s.accepted.length) : t.responses k = s.responses k := by
  simp only [Conn.responses, h, List.map_append]
  rw [List.take_append_of_le_length (by simpa using hk)]

/-- A request in some place has been delivered. -/
theorem Ordered.lt_of_mem (hs : Ordered s) {i : Nat} (hi : i ∈ s.places) :
    i < s.accepted.length := by
  have hpos := List.count_pos_iff.mpr hi
  rw [hs.placed i] at hpos
  by_contra hge
  simp [hge] at hpos

/-- A request that has just been delivered is in no place yet. -/
theorem Ordered.new_free (hs : Ordered s) :
    s.accepted.length ∉ s.answered ∧ ∀ w ∈ s.inFlight, w.req ≠ some s.accepted.length := by
  refine ⟨fun h => ?_, fun w hw hreq => ?_⟩
  · exact absurd (hs.lt_of_mem (by simp [Conn.places, h])) (lt_irrefl _)
  · have hmem : s.accepted.length ∈ s.inFlight.filterMap (·.req) :=
      List.mem_filterMap.mpr ⟨w, hw, hreq⟩
    exact absurd (hs.lt_of_mem (by simp [Conn.places, hmem])) (lt_irrefl _)

/-- The next response is started, for a request that waited or was just delivered. -/
theorem Ordered.startWrite (hs : Ordered s) {i : Nat} {r : Incoming} {w : Writer} {t : Conn}
    {ext : List Incoming}
    (hnext : i = s.answered.length ∧ s.inFlight = [] ∧ s.out = s.responses s.answered.length)
    (hr : t.accepted[i]? = some r) (hw : w.req = some i ∧ w.text = answer r ∧ w.sent = 0)
    (hacc : t.accepted = s.accepted ++ ext) (hfl : t.inFlight = [w]) (hout : t.out = s.out)
    (hans : t.answered = s.answered)
    (hsub : (∀ j ∈ t.tasks, j ∈ s.tasks) ∧ ∀ j ∈ t.deferred, j ∈ s.deferred)
    (hcount : ∀ j, t.tasks.count j + t.deferred.count j + (if j = i then 1 else 0) +
        (if j < s.accepted.length then 1 else 0) =
      s.tasks.count j + s.deferred.count j + (if j < t.accepted.length then 1 else 0)) :
    Ordered t := by
  obtain ⟨hi, hfl₀, hout₀⟩ := hnext
  obtain ⟨hreq, htext, hsent⟩ := hw
  have hget (j : Nat) (hj : j ∈ s.places) : t.accepted[j]? = s.accepted[j]? := by
    rw [hacc, List.getElem?_append_left (hs.lt_of_mem hj)]
  -- the request moves from where it waited to the only write in flight
  refine ⟨fun j => ?_, ?_, ?_, ?_, .one w r hfl ?_ ?_ htext ?_⟩
  · have hold := hs.placed j
    have hj := hcount j
    simp only [Conn.places, hfl₀, hfl, hans, hreq, List.filterMap_cons, List.filterMap_nil,
      List.count_append, List.count_nil, List.count_singleton] at hold ⊢
    by_cases hji : j = i
    · subst hji
      simp only [if_true, beq_self_eq_true] at hj ⊢
      omega
    · simp only [if_neg hji, Ne.symm hji, beq_iff_eq, if_false] at hj ⊢
      omega
  · rw [hans]
    exact hs.answered
  · intro j hj x hx
    rw [hget j (by simp [Conn.places, hsub.1 j hj])] at hx
    exact hs.tasks j (hsub.1 j hj) x hx
  · intro j hj x hx
    rw [hget j (by simp [Conn.places, hsub.2 j hj])] at hx
    exact hs.deferred j (hsub.2 j hj) x hx
  · rw [hreq, hans, hi]
  · rw [hans, ← hi, hr]
  · rw [hout, hout₀, hsent, hans, responses_append hacc hs.length_le]
    simp

/-- A request is delivered and waits. -/
theorem Ordered.accept (hs : Ordered s) {r : Incoming} {t : Conn} (hp : r.path ≠ [])
    (hacc : t.accepted = s.accepted ++ [r]) (hfl : t.inFlight = s.inFlight)
    (hout : t.out = s.out) (hans : t.answered = s.answered)
    (hwait : (t.tasks = s.tasks ++ [s.accepted.length] ∧ t.deferred = s.deferred) ∨
      (t.tasks = s.tasks ∧ t.deferred = s.deferred ++ [s.accepted.length] ∧
        r.handler = .deferred)) : Ordered t := by
  have hget (j : Nat) (hj : j ∈ s.places) : t.accepted[j]? = s.accepted[j]? := by
    rw [hacc, List.getElem?_append_left (hs.lt_of_mem hj)]
  have hnew : t.accepted[s.accepted.length]? = some r := by simp [hacc]
  -- the new request is counted once, where it waits
  refine ⟨fun j => ?_, ?_, fun j hj x hx => ?_, fun j hj x hx => ?_, ?_⟩
  · have hold := hs.placed j
    simp only [Conn.places, hfl, hans, List.count_append, hacc, List.length_append,
      List.length_cons, List.length_nil] at hold ⊢
    rcases hwait with ⟨ht, hd⟩ | ⟨ht, hd, -⟩ <;>
      · rw [ht, hd, List.count_append, count_singleton_eq]
        split at hold <;> split <;> split <;> omega
  · rw [hans]
    exact hs.answered
  · by_cases hj' : j ∈ s.tasks
    · rw [hget j (by simp [Conn.places, hj'])] at hx
      exact hs.tasks j hj' x hx
    · rcases hwait with ⟨ht, -⟩ | ⟨ht, -, -⟩
      · obtain rfl : j = s.accepted.length := by simpa [ht, hj'] using hj
        obtain rfl : r = x := by simpa [hnew] using hx
        exact hp
      · rw [ht] at hj
        exact absurd hj hj'
  · by_cases hj' : j ∈ s.deferred
    · rw [hget j (by simp [Conn.places, hj'])] at hx
      exact hs.deferred j hj' x hx
    · rcases hwait with ⟨-, hd⟩ | ⟨-, hd, hh⟩
      · rw [hd] at hj
        exact absurd hj hj'
      · obtain rfl : j = s.accepted.length := by simpa [hd, hj'] using hj
        obtain rfl : r = x := by simpa [hnew] using hx
        exact ⟨hp, hh⟩
  · cases hs.writing with
    | idle h hout₀ =>
      refine .idle (hfl.trans h) ?_
      rw [hout, hout₀, hans, responses_append hacc hs.length_le]
    | one w x h hreq hx htext hout₀ =>
      refine .one w x (hfl.trans h) (by rw [hans]; exact hreq) ?_ htext ?_
      · rw [hans, hacc, List.getElem?_append_left (List.getElem?_eq_some_iff.mp hx).1]
        exact hx
      · rw [hout, hout₀, hans, responses_append hacc hs.length_le]

/-- The fiber whose write is the only one in flight. -/
theorem inFlight_singleton {who : Who} {w w₀ : Writer} (h : s.inFlight = [w₀])
    (hw : s.writer who = some w) :
    w = w₀ ∧ (∀ w', (s.setWriter w' who).inFlight = [w']) ∧ (s.release w who).inFlight = [] := by
  cases who with
  | conn =>
    simp only [Conn.writer] at hw
    cases hf : s.fiber with
    | writing w₁ rest bad =>
      obtain rfl : w₁ = w := by simpa [hf, Fiber.writer] using hw
      simp only [Conn.inFlight, Conn.writer, hf, Fiber.writer, Option.toList_some,
        List.cons_append, List.nil_append, List.cons.injEq] at h
      obtain ⟨rfl, hnil⟩ := h
      refine ⟨rfl, fun w' => ?_, ?_⟩
      · simp [Conn.setWriter, hf, Fiber.setWriter, Conn.inFlight, Conn.writer, Fiber.writer,
          hnil]
      · have hnone : (afterRequest w₁.goOn rest bad).writer = none := by
          unfold afterRequest
          split <;> rfl
        simp [Conn.release, hf, Fiber.release, Conn.inFlight, Conn.writer, hnone, hnil]
    | _ => simp [hf, Fiber.writer] at hw
  | pool j =>
    simp only [Conn.writer] at hw
    have hne : s.writers ≠ [] := by
      rintro hnil
      simp [hnil] at hw
    have hsplit : s.writer .conn = none ∧ s.writers = [w₀] := by
      cases hc : s.writer .conn with
      | none => simpa [Conn.inFlight, hc] using h
      | some w₁ =>
        simp only [Conn.inFlight, hc, Option.toList_some, List.cons_append, List.nil_append,
          List.cons.injEq] at h
        exact absurd h.2 hne
    obtain ⟨hconn, hws⟩ := hsplit
    have hj : j = 0 := by
      have hlt := (List.getElem?_eq_some_iff.mp hw).1
      rw [hws] at hlt
      simpa using hlt
    subst hj
    obtain rfl : w₀ = w := by simpa [hws] using hw
    simp only [Conn.writer] at hconn
    refine ⟨rfl, fun w' => ?_, ?_⟩
    · simp [Conn.setWriter, Conn.inFlight, Conn.writer, hconn, hws]
    · simp [Conn.release, Conn.inFlight, Conn.writer, hconn, hws]

/-- No request starts or stops waiting. -/
theorem Ordered.move (hs : Ordered s) {t : Conn} (htasks : t.tasks = s.tasks)
    (hdeferred : t.deferred = s.deferred) (hacc : t.accepted = s.accepted)
    (hplaces : ∀ i, (t.inFlight.filterMap (·.req)).count i + t.answered.count i =
      (s.inFlight.filterMap (·.req)).count i + s.answered.count i)
    (hans : t.answered = List.range t.answered.length) (hwriting : t.Writing) : Ordered t := by
  refine ⟨fun i => ?_, hans, ?_, ?_, hwriting⟩
  · have hold := hs.placed i
    have hi := hplaces i
    simp only [Conn.places, htasks, hdeferred, hacc, List.count_append] at hold ⊢
    omega
  · rw [htasks, hacc]
    exact hs.tasks
  · rw [hdeferred, hacc]
    exact hs.deferred

/-- The connection's fiber moves on without a write. -/
theorem Ordered.fiberMove (hs : Ordered s) {f : Fiber} (hf : s.fiber.writer = none)
    (hf' : f.writer = none) : Ordered { s with fiber := f } := by
  have hfl : Conn.inFlight { s with fiber := f } = s.inFlight := by
    simp [Conn.inFlight, Conn.writer, hf, hf']
  refine hs.move rfl rfl rfl (fun i => by rw [hfl]) hs.answered ?_
  cases hs.writing with
  | idle h hout => exact .idle (hfl.trans h) hout
  | one w r h hreq hr htext hout => exact .one w r (hfl.trans h) hreq hr htext hout

theorem inFlight_append (h : s.inFlight = []) (w : Writer) {tasks deferred : List Nat} :
    Conn.inFlight { s with tasks := tasks, deferred := deferred, writers := s.writers ++ [w] } =
      [w] := by
  have h' : s.fiber.writer = none ∧ s.writers = [] := by
    simpa [Conn.inFlight, Conn.writer] using h
  simp [Conn.inFlight, Conn.writer, h'.1, h'.2]

theorem mem_inFlight {who : Who} {w : Writer} (hw : s.writer who = some w) :
    w ∈ s.inFlight := by
  cases who with
  | conn => simp [Conn.inFlight, hw]
  | pool j =>
    have hmem := List.mem_of_getElem? (show s.writers[j]? = some w from hw)
    simp [Conn.inFlight, hmem]

/-- The write in flight takes more bytes to the socket. -/
theorem Ordered.write (hs : Ordered s) {who : Who} {w : Writer} (n : Nat)
    (hw : s.writer who = some w) :
    Ordered { s.setWriter { w with sent := w.sent + n } who with
      out := s.out ++ (w.text.drop w.sent).take n } := by
  cases hs.writing with
  | idle h hout =>
    have hmem := mem_inFlight hw
    simp [h] at hmem
  | one w₀ r h hreq hr htext hout =>
    obtain ⟨rfl, hset, -⟩ := inFlight_singleton h hw
    have hfl := hset { w with sent := w.sent + n }
    refine hs.move rfl rfl rfl (fun i => ?_) hs.answered (.one _ r hfl hreq hr htext ?_)
    · have hfl' : Conn.inFlight { s.setWriter { w with sent := w.sent + n } who with
          out := s.out ++ (w.text.drop w.sent).take n } = [{ w with sent := w.sent + n }] := hfl
      rw [hfl', h]
      simp [hreq, Conn.setWriter]
    · simp only [hout, List.append_assoc, List.take_add]
      rfl

/-- The write in flight is complete: its request is answered. -/
theorem Ordered.written (hs : Ordered s) {who : Who} {w : Writer}
    (hw : s.writer who = some w) (hall : w.sent = w.text.length) :
    Ordered { s.release w who with answered := s.answered ++ w.req.toList } := by
  cases hs.writing with
  | idle h hout =>
    have hmem := mem_inFlight hw
    simp [h] at hmem
  | one w₀ r h hreq hr htext hout =>
    obtain ⟨rfl, -, hrel⟩ := inFlight_singleton h hw
    have hfl : Conn.inFlight { s.release w who with answered := s.answered ++ w.req.toList } =
        [] := hrel
    refine hs.move rfl rfl rfl (fun i => ?_) ?_ (.idle hfl ?_)
    · rw [hfl, h]
      simp [hreq, List.count_append]
      omega
    -- the request was the next one, so the segment grows by it
    · simp only [hreq, Option.toList_some, List.length_append, List.length_cons,
        List.length_nil]
      rw [List.range_succ, ← hs.answered]
    · have hk : s.answered.length < s.accepted.length := (List.getElem?_eq_some_iff.mp hr).1
      have hrk : s.accepted[s.answered.length] = r := (List.getElem?_eq_some_iff.mp hr).2
      simp only [hreq, Option.toList_some, List.length_append, List.length_cons,
        List.length_nil]
      rw [show (s.release w who).out = s.out from rfl, hout, hall, List.take_length, htext]
      simp [Conn.responses, Conn.release, List.take_add_one, hk, hrk]

/-- A pool fiber has handed the request to an asynchronous handler. -/
theorem Ordered.deferTask (hs : Ordered s) {i : Nat} {r : Incoming}
    (hr : s.accepted[i]? = some r) (hi : i ∈ s.tasks) (hd : r.handler = .deferred) :
    Ordered { s with tasks := s.tasks.erase i, deferred := s.deferred ++ [i] } := by
  refine ⟨fun j => ?_, hs.answered, ?_, ?_, ?_⟩
  · have hold := hs.placed j
    have herase := count_erase_add hi j
    simp only [Conn.places, Conn.inFlight, Conn.writer, List.count_append,
      count_singleton_eq] at hold ⊢
    omega
  · exact fun j hj => hs.tasks j (List.mem_of_mem_erase hj)
  · intro j hj x hx
    rcases List.mem_append.mp hj with hj | hj
    · exact hs.deferred j hj x hx
    · obtain rfl := List.mem_singleton.mp hj
      obtain rfl : r = x := by simpa [hr] using hx
      exact ⟨hs.tasks j hi r hr, hd⟩
  · cases hs.writing with
    | idle h hout => exact .idle h hout
    | one w x h hreq hx htext hout => exact .one w x h hreq hx htext hout

/-- The parser delivers a request. -/
theorem Ordered.deliver (hs : Ordered s) {pooled : Bool} {r : Incoming} {rest : List Incoming}
    {bad : Bool} (hf : s.fiber = .parsing (r :: rest) bad)
    (hturn : ∀ i, starts pooled s .parse = some i → ∀ j < i, j ∈ s.answered) :
    Ordered (s.handleRequest pooled r rest bad) := by
  have hnone : s.fiber.writer = none := by simp [hf, Fiber.writer]
  have hgo (b : Bool) : (afterRequest b rest bad).writer = none := by
    unfold afterRequest
    split <;> rfl
  -- a write that starts here is the next one, and the connection's fiber makes it
  have hstart {w : Writer} (hw : w.req = some s.accepted.length ∧ w.text = answer r ∧ w.sent = 0)
      (hst : starts pooled s .parse = some s.accepted.length) :
      Ordered { s with
        accepted := s.accepted ++ [r], fiber := .writing w rest bad } := by
    have hnext := hs.turn hs.new_free.1 hs.new_free.2 (hturn _ hst)
    have hwriters : s.writers = [] := by
      simpa [Conn.inFlight, Conn.writer, hnone] using hnext.2.1
    refine hs.startWrite hnext (by simp) hw rfl ?_ rfl rfl
      ⟨fun j hj => hj, fun j hj => hj⟩ (fun j => ?_)
    · simp [Conn.inFlight, Conn.writer, Fiber.writer, hwriters]
    · simp only [List.length_append, List.length_cons, List.length_nil]
      split <;> split <;> split <;> omega
  -- refused, given to the pool, answered here, or taken by the handler
  unfold Conn.handleRequest
  simp only
  split
  · rename_i hp
    exact hstart ⟨rfl, by simp [answer, hp, errorWriter], rfl⟩ (by simp [starts, hf, hp])
  · rename_i hp
    split
    · refine hs.accept hp rfl ?_ rfl rfl (.inl ⟨rfl, rfl⟩)
      simp [Conn.inFlight, Conn.writer, hgo, hnone]
    · rename_i hpool
      split
      · rename_i w hw
        have hw' := handleRequestFunc_eq_some hp hw
        exact hstart ⟨hw'.1, hw'.2.1, hw'.2.2.1⟩ (by simp [starts, hf, hpool, hw'.2.2.2])
      · rename_i hw
        refine hs.accept hp rfl ?_ rfl rfl (.inr ⟨rfl, rfl, handleRequestFunc_eq_none hw⟩)
        simp [Conn.inFlight, Conn.writer, hgo, hnone]

end Invariant

/-! ## Runs -/

theorem ordered_step {pooled : Bool} {s s' : Conn} {e : Event} (hs : Ordered s)
    (hturn : InTurn pooled s e) (h : step pooled s e = some s') : Ordered s' := by
  obtain ⟨hok, hturn⟩ := hturn
  obtain ⟨-, h⟩ := stepsTo_of_step h
  cases h with
  | read reqs bad hf | readEof hf => exact hs.fiberMove (by simp [hf, Fiber.writer]) rfl
  | readError | caught | escape => simp [Event.socketOk] at hok
  | deliver hf => exact hs.deliver hf hturn
  | @parsed bad hf =>
    refine hs.fiberMove (by simp [hf, Fiber.writer]) ?_
    split <;> rfl
  | @runTask i r w hr hi hw =>
    have hw' := handleRequestFunc_eq_some (hs.tasks i hi r hr) hw
    obtain ⟨hfree, hfl⟩ := hs.waiting_free (List.mem_append_left _ hi)
    have hnext := hs.turn hfree hfl (hturn i (by simp [starts, hr, hw'.2.2.2]))
    refine hs.startWrite hnext hr ⟨hw'.1, hw'.2.1, hw'.2.2.1⟩ (List.append_nil _).symm ?_ rfl rfl
      ⟨fun j hj => List.mem_of_mem_erase hj, fun j hj => hj⟩ (fun j => ?_)
    · exact inFlight_append hnext.2.1 w
    · have herase := count_erase_add hi j
      simp only
      omega
  | deferTask hr hi hw => exact hs.deferTask hr hi (handleRequestFunc_eq_none hw)
  | @complete i r hr hi =>
    obtain ⟨hp, hd⟩ := hs.deferred i hi r hr
    obtain ⟨hfree, hfl⟩ := hs.waiting_free (List.mem_append_right _ hi)
    have hnext := hs.turn hfree hfl (hturn i rfl)
    refine hs.startWrite (w := rspWriter i r false) hnext hr
      ⟨rfl, by simp [answer, hp, hd, rspWriter], rfl⟩ (List.append_nil _).symm ?_ rfl rfl
      ⟨fun j hj => hj, fun j hj => List.mem_of_mem_erase hj⟩ (fun j => ?_)
    · exact inFlight_append hnext.2.1 _
    · have herase := count_erase_add hi j
      simp only
      omega
  | write hw hn hle => exact hs.write _ hw
  | written hw hall => exact hs.written hw hall

theorem Ordered.inOrder {s : Conn} (hs : Ordered s) : InOrder s := by
  have hquiet (hq : s.Quiet) : s.answered.length = s.accepted.length := by
    obtain ⟨ht, hd, hfl⟩ := hq
    refine le_antisymm hs.length_le ?_
    -- a request that is not answered would be counted in some place
    by_contra hlt
    have hold := hs.placed s.answered.length
    have hnot : s.answered.count s.answered.length = 0 := by
      rw [List.count_eq_zero, hs.mem_answered]
      exact lt_irrefl _
    rw [if_pos (by omega)] at hold
    simp [Conn.places, ht, hd, hfl, hnot] at hold
  cases hs.writing with
  | idle h hout =>
    exact ⟨s.answered.length, [], by simp [hout], .inl rfl, fun hq => by
      rw [hout, hquiet hq]⟩
  | one w r h hreq hr htext hout =>
    refine ⟨s.answered.length, w.text.take w.sent, hout, .inr ⟨r, hr, ?_⟩, fun hq => ?_⟩
    · rw [htext]
      exact List.take_prefix _ _
    · exact absurd hq.2.2 (by simp [h])

/-- **HTTP/1.1 response order.**  In every run of a connection in which the socket
    does not fail and every response is started in its turn, the connection carries
    whole responses in the order of the requests, and one response for each request
    once nothing is under way. -/
theorem inOrder_of_inTurn {pooled : Bool} {es : List Event} {s : Conn}
    (hturn : Along (step pooled) (InTurn pooled) {} es)
    (h : run (step pooled) {} es = some s) : InOrder s :=
  Ordered.inOrder (run_inv_along (fun _ _ _ hs ht he => ordered_step hs ht he) ordered_start
    hturn h)

/-- A request whose handler completes later. -/
def slowRequest : Incoming where
  path := ascii "/commands/call_services_async"
  keepAlive := true
  handler := .deferred
  body := ascii "slow"

/-- The asynchronous request is answered before the next one is read. -/
def inTurnRun : List Event :=
  [.read [slowRequest] false, .parse, .complete 0, .write (.pool 0) 40,
    .write (.pool 0) ((answer slowRequest).length - 40), .written (.pool 0), .parse,
    .read [syncRequest] false, .parse, .write .conn (answer syncRequest).length, .written .conn]

theorem inTurnRun_inOrder :
    ∃ s, run (step false) {} inTurnRun = some s ∧ InOrder s := by
  have h : (run (step false) {} inTurnRun).isSome = true := by decide +kernel
  obtain ⟨s, hs⟩ := Option.isSome_iff_exists.mp h
  exact ⟨s, hs, inOrder_of_inTurn (by decide +kernel) hs⟩

/-- Both requests in one read: the parser goes on to the second one while the first
    is with its handler. -/
def pipelinedRun : List Event :=
  [.read [slowRequest, syncRequest] false, .parse, .parse,
    .write .conn (answer syncRequest).length, .written .conn,
    .complete 0, .write (.pool 0) (answer slowRequest).length, .written (.pool 0)]

/-- The second response goes out first. -/
theorem pipelinedRun_outOfOrder :
    ∃ s, run (step false) {} pipelinedRun = some s ∧ s.Quiet ∧
      s.out = answer syncRequest ++ answer slowRequest ∧ ¬ InOrder s := by
  have h : (run (step false) {} pipelinedRun).map (fun s => (s.out, s.accepted)) =
      some (answer syncRequest ++ answer slowRequest, [slowRequest, syncRequest]) := by
    decide +kernel
  have hq : (run (step false) {} pipelinedRun).map (fun s => (s.tasks, s.deferred, s.inFlight)) =
      some ([], [], []) := by decide +kernel
  obtain ⟨s, hs, hout⟩ := Option.map_eq_some_iff.mp h
  obtain ⟨hout, hacc⟩ := Prod.mk.inj hout
  have hquiet : s.Quiet := by simpa [hs, Conn.Quiet] using hq
  refine ⟨s, hs, hquiet, hout, ?_⟩
  rintro ⟨k, t, -, -, hall⟩
  have hne : answer syncRequest ++ answer slowRequest ≠
      answer slowRequest ++ answer syncRequest := by decide +kernel
  apply hne
  rw [← hout, hall hquiet, hacc]
  simp [Conn.responses, hacc]

end FiberProxy.Server
