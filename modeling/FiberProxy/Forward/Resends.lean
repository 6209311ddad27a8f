/-
  FiberProxy.Forward.Resends

  Whether a request that a host has executed is sent again.  The attempt loop of
  `FibpForwardManager::call_single_service` (`FiberProxy.Forward.CallSingleService`)
  sends an HTTP request through a client of the pool; what `get_response` returns
  (`FiberProxy.Client.HttpClient`) decides whether the loop goes on.  The clients are
  shared with other calls.  A server may close a connection before it has sent its
  whole answer.

  A client takes only the code 200 for a success, and every other code but 400 and 404
  for a reason to try again.
-/

import FiberProxy.Client.HttpClient
import FiberProxy.Forward.CallSingleService

namespace FiberProxy.Forward.Resends

open Lib Http Client
open Client.HttpClient (Orderly)

/-! ## The call and its clients -/

/-- A request of the call that went to a host, with the answer of that host. -/
structure Attempt where
  address : Bytes × Bytes
  client : Nat
  answer : Answer
  /-- What the attempt has read. -/
  read : List Octet := []
  /-- It has read the end of the stream. -/
  eof : Bool := false

/-- The attempt has received a complete response with a 2xx code. -/
def Attempt.Executed (t : Attempt) : Prop :=
  t.answer.octets <:+ t.read ∧ (t.answer.final.untilClose = true → t.eof = true) ∧
    t.answer.final.head.code / 100 = 2

instance (t : Attempt) : Decidable t.Executed := inferInstanceAs (Decidable (_ ∧ _ ∧ _))

structure State where
  call : CallState := { rsp := {} }
  /-- The clients of the pools and those in use. -/
  clients : Nat → HttpClient.State := fun _ => {}
  /-- The attempts that are over. -/
  ended : List Attempt := []
  current : Option Attempt := none

/-- The attempts of the call so far. -/
def State.sent (s : State) : List Attempt := s.ended ++ s.current.toList

inductive Event where
  | enter
  /-- `get_service_address`. -/
  | address (found : Option (Bytes × Bytes))
  /-- `client_mgr.send_request`: the client and the answer that the host gives, or a null
      pointer. -/
  | send (sent : Option (Nat × Answer))
  /-- `cache_.get`. -/
  | cached (hit : Option ServiceCallRsp)
  /-- Something happens on a client's connection; another call may send a request. -/
  | client (k : Nat) (e : HttpClient.Event)
  /-- The server closes a connection early: only `n` octets of what was not read arrive. -/
  | cut (k n : Nat)

/-- What an event on its connection gives an attempt to read. -/
def readBy (c : HttpClient.State) : HttpClient.Event → List Octet
  | .read n => c.stream.take n
  | _ => []

def Attempt.after (t : Attempt) (c : HttpClient.State) (e : HttpClient.Event) : Attempt :=
  { t with
    read := t.read ++ readBy c e
    eof := t.eof || match e with | .eof => true | _ => false }

/-- What `get_response` has returned, if it has. -/
def returned (c : HttpClient.State) : Option Result :=
  match c.waiting with
  | some _ => none
  | none => c.results.getLast?.map (·.2.result)

/-- The request's method is the one that the answer is for. -/
def answersTo (req : ServiceCallReq) (a : Answer) : Bool :=
  (Method.ofInt? req.method).all (· = a.final.method)

/-- The attempt under way, after its client became `c`. -/
def heard (req : ServiceCallReq) (s : State) (c : HttpClient.State) (t : Attempt) : Option State :=
  match returned c with
  | none => some { s with current := some t }
  | some r =>
    (callStep req s.call (.answered r.isSuccess r.rsp r.canRetry)).map fun call =>
      { s with call := call, ended := s.ended ++ [t], current := none }

/-- Client `k` has become `c`. -/
def State.set (s : State) (k : Nat) (c : HttpClient.State) : State :=
  { s with clients := Function.update s.clients k c }

def step (req : ServiceCallReq) (s : State) : Event → Option State
  | .enter => (callStep req s.call .enter).map fun call => { s with call := call }
  | .address found =>
    (callStep req s.call (.address found)).map fun call => { s with call := call }
  | .send none => (callStep req s.call (.sent false)).map fun call => { s with call := call }
  | .send (some (k, a)) =>
    if answersTo req a then
      (callStep req s.call (.sent true)).bind fun call =>
        (HttpClient.step (s.clients k) (.request a)).map fun c =>
          { s.set k c with
            call := call
            current := some { address := (s.call.rsp.host, s.call.rsp.port)
                              client := k, answer := a } }
    else none
  | .cached hit => (callStep req s.call (.cached hit)).map fun call => { s with call := call }
  | .client k e =>
    (HttpClient.step (s.clients k) e).bind fun c =>
      match s.current with
      | none => some (s.set k c)
      | some t =>
        if t.client = k then heard req (s.set k c) c (t.after (s.clients k) e)
        else some (s.set k c)
  | .cut k n =>
    some (s.set k { s.clients k with stream := (s.clients k).stream.take n })

/-- **An executed request is not sent again**, and its call is a success. -/
def NotResent (s : State) : Prop :=
  ∀ before t after, s.sent = before ++ t :: after → t.Executed →
    after = [] ∧ (s.call.phase = .done → s.call.isSuccess = true ∧ s.call.rsp.error = [] ∧
      s.call.rsp.rsp = t.answer.final.content)

/-- A 2xx answer has the code 200 and is framed as the parser frames it, and no client is
    left with a part of an answer, on its connection or in its parser. -/
def Plain (s : State) : Event → Prop
  | .send (some (_, a)) =>
    a.NoUpgrade ∧ (a.final.head.code / 100 = 2 → a.final.head.code = 200 ∧ a.Plain)
  | .client k e => Orderly (s.clients k) e
  | _ => True

instance (s : State) (e : Event) : Decidable (Plain s e) :=
  match e with
  | .send (some (_, a)) => inferInstanceAs (Decidable (a.NoUpgrade ∧
      (a.final.head.code / 100 = 2 → a.final.head.code = 200 ∧ a.Plain)))
  | .client k e => inferInstanceAs (Decidable (Orderly (s.clients k) e))
  | .send none | .enter | .address _ | .cached _ | .cut _ _ => .isTrue trivial

/-! ## One client -/

/-- A client that no call uses can take a request. -/
def Fresh (c : HttpClient.State) : Prop :=
  c.impl.parser = .start ∧ (c.isOpen = true → c.stream = [])

/-- A call has read `w` of its answer and has no response yet. -/
structure Underway (c : HttpClient.State) (a : Answer) (w : List Octet) : Prop where
  waiting : c.waiting = some a
  upgrade : a.NoUpgrade
  part : w ++ c.stream <+: a.octets
  parsed : execute {} w = (c.impl, w.length)
  continues : c.impl.shouldContinue = true
  reads : Reads a w c.impl

/-- Free, or in a call that has read only what was meant for it. -/
def Synced (c : HttpClient.State) : Prop :=
  c.waiting = none ∧ Fresh c ∨ ∃ a w, Underway c a w

/-- The client after an event of a call: it waits for more, or the call is over. -/
inductive After (c : HttpClient.State) (a : Answer) (w : List Octet) : Prop where
  | more (h : Underway c a w)
  | ended (hwait : c.waiting = none) (hfresh : Fresh c) (hret : (returned c).isSome = true)

theorem After.synced {c : HttpClient.State} {a : Answer} {w : List Octet} (h : After c a w) :
    Synced c := by
  cases h with
  | more h => exact .inr ⟨a, w, h⟩
  | ended hwait hfresh _ => exact .inl ⟨hwait, hfresh⟩

section Client

variable {c c' : HttpClient.State} {a : Answer} {w : List Octet}

theorem underway_cut (h : Underway c a w) (n : Nat) :
    Underway { c with stream := c.stream.take n } a w :=
  { h with
    part := ((List.prefix_append_right_inj w).mpr (List.take_prefix n c.stream)).trans h.part }

theorem readBy_prefix (h : Underway c a w) (e : HttpClient.Event) :
    w ++ readBy c e <+: a.octets := by
  cases e with
  | read n => exact (underway_cut h n).part
  | request | eof | fail | deadline =>
    simpa [readBy] using (List.prefix_append _ _).trans h.part

/-- The first octets of an answer go to a client that is free. -/
theorem underway_request (hfresh : Fresh c) (hup : a.NoUpgrade)
    (h : HttpClient.step c (.request a) = some c') : Underway c' a [] := by
  obtain ⟨hparser, hstream⟩ := hfresh
  have hempty : (if c.isOpen then c.stream else []) = [] := by
    split
    · exact hstream ‹_›
    · rfl
  have himpl : ({ c.impl with rsp := {}, inStatus := false, shouldContinue := true } : ParserImpl) =
      {} := by simp [hparser]
  cases hwait : c.waiting <;> simp only [HttpClient.step, hwait, reduceCtorEq] at h
  rw [hempty, himpl] at h
  cases h
  refine ⟨rfl, hup, List.prefix_rfl, rfl, rfl, .pending (by simp) rfl ⟨a.final.text.reason, ?_, ?_⟩
    (by simp)⟩
  · simp [Answer.reasons]
  · exact List.nil_prefix

/-- What the parser makes of the next octets. -/
theorem reads_next {n : Nat} (h : Underway c a w) (hn : 0 < n) (hlen : n ≤ c.stream.length)
    (horderly : Orderly c (.read n)) :
    Reads a (w ++ c.stream.take n) (execute c.impl (c.stream.take n)).1 :=
  reads_append a h.upgrade h.parsed h.continues (underway_cut h n).part
    (take_ne_nil hn hlen) horderly.1

@[simp] theorem returned_finish (s : HttpClient.State) (i : ParserImpl) (ret : Bool)
    (ec : HttpClient.Ec) :
    returned (HttpClient.finish s a i ret ec) =
      some (HttpClient.outcome s.isOpen s.stream i ret ec).result := by
  simp [returned, HttpClient.finish]

/-- A call ends with a closed connection. -/
theorem over_init (s : HttpClient.State) {i : ParserImpl} {ret : Bool} {ec : HttpClient.Ec}
    (h : i.rsp.keepAlive = false ∨ ec = .eof) :
    After (HttpClient.finish s a i.init ret ec) a w := by
  refine .ended rfl ⟨rfl, fun hopen => ?_⟩ (by simp)
  rcases h with h | h <;>
    simp [HttpClient.finish, HttpClient.outcome, ParserImpl.init, h] at hopen

theorem after_read {n : Nat} (h : Underway c a w) (hn : 0 < n) (hlen : n ≤ c.stream.length)
    (horderly : Orderly c (.read n)) :
    After (HttpClient.parsed { c with stream := c.stream.drop n } a n
      (execute c.impl (c.stream.take n)).2 (execute c.impl (c.stream.take n)).1) a
      (w ++ c.stream.take n) := by
  have hreads := reads_next h hn hlen horderly
  have hintime : c.isOpen = false → (execute c.impl (c.stream.take n)).1.shouldContinue = false ∨
      (execute c.impl (c.stream.take n)).2 ≠ n := horderly.2
  have happend := execute_append h.parsed h.continues (c.stream.take n)
  have hpart : w ++ c.stream.take n ++ c.stream.drop n <+: a.octets := by
    rw [List.append_assoc, List.take_append_drop]
    exact h.part
  generalize (execute c.impl (c.stream.take n)).1 = i at happend hreads hintime ⊢
  generalize (execute c.impl (c.stream.take n)).2 = m at happend hintime ⊢
  unfold HttpClient.parsed
  cases hreads with
  | pending hcode halive hreason heof =>
    split
    · rw [if_neg (by simp [halive])]
      exact over_init _ (.inl halive)
    · rename_i hcont
      split
      · exact over_init _ (.inl halive)
      · rename_i hm
        have hopen : ¬ c.isOpen = false := fun hclosed => (hintime hclosed).elim hcont hm
        have hm : m = n := by simpa using hm
        rw [if_neg hopen]
        refine .more ⟨h.waiting, h.upgrade, hpart, ?_, by simpa using hcont,
          .pending hcode halive hreason heof⟩
        rw [happend, hm, List.length_append, List.length_take, Nat.min_eq_left hlen,
          Nat.add_comm]
  | complete hw hrsp hparser hdone =>
    have hstream : c.stream.drop n = [] := by
      rw [← hw] at hpart
      have := hpart.length_le
      rw [List.length_append] at this
      exact List.length_eq_zero_iff.mp (by omega)
    rw [if_pos hdone]
    refine .ended rfl ⟨?_, fun _ => hstream⟩ (by simp)
    change (if i.rsp.keepAlive = true then i else i.init).parser = .start
    split
    · exact hparser ‹_›
    · rfl

theorem after_step {e : HttpClient.Event} (h : Underway c a w) (horderly : Orderly c e)
    (hstep : HttpClient.step c e = some c') : After c' a (w ++ readBy c e) := by
  have halive : c.impl.rsp.keepAlive = false := by
    cases h.reads with
    | pending _ halive => exact halive
    | complete _ _ _ hdone => simp [h.continues] at hdone
  cases c
  obtain rfl : _ = some a := h.waiting
  cases e with
  | request b => cases hstep
  | read n =>
    obtain ⟨hn, hstep⟩ := Option.ite_none_right_eq_some.mp hstep
    cases hstep
    exact after_read h hn.1 hn.2.2 horderly
  | eof =>
    obtain ⟨-, hstep⟩ := Option.ite_none_right_eq_some.mp hstep
    cases hstep
    exact over_init _ (.inr rfl)
  | fail aborted =>
    cases hstep
    exact over_init _ (.inl halive)
  | deadline =>
    cases hstep
    exact .more ⟨rfl, h.upgrade, by simpa [readBy] using h.part, by simpa [readBy] using h.parsed,
      h.continues, by simpa [readBy] using h.reads⟩

/-- `get_response` returns a response with the code 200. -/
theorem returned_success {s : HttpClient.State} {i : ParserImpl} {ec : HttpClient.Ec}
    (hcode : a.final.head.code = 200) (hrsp : i.rsp = a.final.rsp) :
    returned (HttpClient.finish s a i true ec) = some ⟨true, a.final.content, true⟩ := by
  simp [HttpClient.outcome, HttpClient.getResponse, hrsp, Final.rsp, hcode]

/-- A plain answer that has arrived while the call still waits ends with the connection. -/
theorem untilEof_of_waiting (h : Underway c a a.octets) (hplain : a.Plain)
    (hcode : a.final.head.code = 200) :
    a.final.untilClose = true ∧ (executeEof c.impl).rsp = a.final.rsp := by
  have hsettled := settled_answer a (i := {}) rfl h.upgrade hplain
  rw [h.parsed] at hsettled
  cases h.reads with
  | pending hne _ _ heof =>
    obtain ⟨⟨m, hm⟩, hclose⟩ := hsettled.resolve_left fun heq => hne (heq.trans hcode)
    refine ⟨hclose, ?_⟩
    rw [executeEof, hm]
    exact heof m hm rfl
  | complete _ _ _ hdone => exact absurd (h.continues.symm.trans hdone) (by simp)

/-- A plain answer with the code 200 that has arrived as a whole is returned. -/
theorem returned_of_arrived {e : HttpClient.Event} (h : Underway c a w)
    (horderly : Orderly c e) (hstep : HttpClient.step c e = some c') (hplain : a.Plain)
    (hcode : a.final.head.code = 200) (hall : w ++ readBy c e = a.octets)
    (hclose : a.final.untilClose = true → e = .eof) :
    returned c' = some ⟨true, a.final.content, true⟩ := by
  cases c
  obtain rfl : _ = some a := h.waiting
  cases e with
  | request b => cases hstep
  | read n =>
    obtain ⟨hn, hstep⟩ := Option.ite_none_right_eq_some.mp hstep
    cases hstep
    have hreads := reads_next h hn.1 hn.2.2 horderly
    have hsettled := settled_answer a (i := {}) rfl h.upgrade hplain
    simp only [readBy] at hall
    rw [hall] at hreads
    rw [← hall, execute_append h.parsed h.continues] at hsettled
    cases hreads with
    | pending hne =>
      have huntil := hsettled.resolve_left fun heq => hne (heq.trans hcode)
      cases hclose huntil.2
    | complete _ hrsp _ hdone =>
      rw [HttpClient.parsed, if_pos hdone]
      refine returned_success hcode ?_
      split <;> exact hrsp
  | eof =>
    obtain rfl : w = a.octets := by simpa [readBy] using hall
    obtain ⟨-, hstep⟩ := Option.ite_none_right_eq_some.mp hstep
    cases hstep
    exact returned_success hcode (untilEof_of_waiting h hplain hcode).2
  | fail | deadline =>
    obtain rfl : w = a.octets := by simpa [readBy] using hall
    cases hclose (untilEof_of_waiting h hplain hcode).1

theorem synced_step {e : HttpClient.Event} (h : Synced c) (horderly : Orderly c e)
    (hstep : HttpClient.step c e = some c') : Synced c' := by
  rcases h with ⟨hwait, hfresh⟩ | ⟨a, w, h⟩
  · -- a client that no call uses can only get a request
    cases e with
    | request a => exact .inr ⟨a, [], underway_request hfresh horderly.1 hstep⟩
    | read | eof | fail | deadline =>
      simp only [HttpClient.step, hwait] at hstep
      cases hstep
  · exact (after_step h horderly hstep).synced

theorem synced_cut (h : Synced c) (n : Nat) : Synced { c with stream := c.stream.take n } := by
  rcases h with ⟨hwait, hparser, hstream⟩ | ⟨a, w, h⟩
  · refine .inl ⟨hwait, hparser, fun hopen => ?_⟩
    rw [hstream hopen, List.take_nil]
  · exact .inr ⟨a, w, underway_cut h n⟩

end Client

/-! ## The call -/

/-- Nothing is in the call's `error` before it gives up. -/
def Clear (call : CallState) : Prop :=
  call.phase ≠ .consult → call.phase ≠ .done → call.rsp.error = []

/-- An executed attempt was the last one and made the call a success. -/
def Reported (call : CallState) (ended : List Attempt) : Prop :=
  ∀ before t after, ended = before ++ t :: after → t.Executed →
    after = [] ∧ call.phase = .done ∧ call.isSuccess = true ∧ call.rsp.error = [] ∧
      call.rsp.rsp = t.answer.final.content

/-- The attempt under way has read only octets of its own answer. -/
structure OnWire (clients : Nat → HttpClient.State) (t : Attempt) : Prop where
  underway : Underway (clients t.client) t.answer t.read
  notEof : t.eof = false
  plain : t.answer.final.head.code / 100 = 2 → t.answer.final.head.code = 200 ∧ t.answer.Plain

structure Inv (s : State) : Prop where
  synced : ∀ k, Synced (s.clients k)
  clear : Clear s.call
  current : ∀ t, s.current = some t → (∃ n, s.call.phase = .waiting n) ∧ OnWire s.clients t
  reported : Reported s.call s.ended

section Call

variable {req : ServiceCallReq} {call call' : CallState} {e : CallEvent}

theorem phase_ne_done_of_callStep (h : callStep req call e = some call') :
    call.phase ≠ .done := by
  intro hp
  have := callStep_weight h
  simp [hp, CallPhase.weight] at this

theorem clear_callStep (h : Clear call) (hstep : callStep req call e = some call') :
    Clear call' := by
  intro hconsult hdone
  have hne : call.phase ≠ .consult := by
    intro hp
    cases callStepsTo_of_callStep hstep with
    | cached => exact hdone rfl
    | localTest hp' | enter hp' | notFound hp' | found _ _ hp' | sent hp' | sendFailed _ hp'
    | success _ _ hp' | failed _ _ hp' | retry _ _ hp' => simp [hp'] at hp
  rw [error_of_callStep hstep hne hconsult]
  exact h hne (phase_ne_done_of_callStep hstep)

/-- Before the end of a call no attempt was executed, so whatever follows is right. -/
theorem Reported.not_executed {ended : List Attempt} (h : Reported call ended)
    (hp : call.phase ≠ .done) : ∀ t ∈ ended, ¬ t.Executed := by
  intro t ht hexec
  obtain ⟨before, after, heq⟩ := List.append_of_mem ht
  exact hp (h before t after heq hexec).2.1

theorem reported_of_not_executed {ended : List Attempt} (h : ∀ t ∈ ended, ¬ t.Executed) :
    Reported call ended :=
  fun before t after heq hexec => absurd hexec (h t (by simp [heq]))

/-- The last attempt alone may be an executed one. -/
theorem reported_snoc {ended : List Attempt} {t : Attempt} (h : ∀ u ∈ ended, ¬ u.Executed)
    (ht : t.Executed → call.phase = .done ∧ call.isSuccess = true ∧ call.rsp.error = [] ∧
      call.rsp.rsp = t.answer.final.content) : Reported call (ended ++ [t]) := by
  intro before u after heq hexec
  rcases List.eq_nil_or_concat' after with rfl | ⟨rest, x, rfl⟩
  · obtain ⟨-, hu⟩ := List.append_inj' heq rfl
    cases hu
    exact ⟨rfl, ht hexec⟩
  · rw [← List.cons_append, ← List.append_assoc] at heq
    obtain ⟨rfl, -⟩ := List.append_inj' heq rfl
    exact absurd hexec (h u (by simp))

theorem OnWire.not_executed {clients : Nat → HttpClient.State} {t : Attempt}
    (h : OnWire clients t) : ¬ t.Executed := by
  rintro ⟨hall, hclose, hcode⟩
  obtain ⟨h200, hplain⟩ := h.plain hcode
  have hunderway := h.underway
  have hread : t.read = t.answer.octets := by
    have hpre : t.read <+: t.answer.octets := (List.prefix_append _ _).trans hunderway.part
    exact hpre.eq_of_length (Nat.le_antisymm hpre.length_le hall.length_le)
  rw [hread] at hunderway
  have heof := hclose (untilEof_of_waiting hunderway hplain h200).1
  rw [h.notEof] at heof
  cases heof

theorem notResent_of_inv {s : State} (h : Inv s) : NotResent s := by
  intro before t after hsent hexec
  unfold State.sent at hsent
  cases hcurrent : s.current with
  | none =>
    rw [hcurrent, Option.toList_none, List.append_nil] at hsent
    obtain ⟨hlast, -, hsuccess⟩ := h.reported before t after hsent hexec
    exact ⟨hlast, fun _ => hsuccess⟩
  | some u =>
    obtain ⟨⟨n, hp⟩, hwire⟩ := h.current u hcurrent
    have hmem : t ∈ s.ended ++ [u] := by
      rw [hcurrent, Option.toList_some] at hsent
      simp [hsent]
    rcases List.mem_append.mp hmem with ht | ht
    · exact absurd hexec (h.reported.not_executed (by simp [hp]) t ht)
    · obtain rfl := List.mem_singleton.mp ht
      exact absurd hexec hwire.not_executed

end Call

/-! ## Every step, every run -/

section Step

variable {req : ServiceCallReq} {s s' : State}

theorem forall_synced_update {clients : Nat → HttpClient.State} {k : Nat} {c : HttpClient.State}
    (h : ∀ k, Synced (clients k)) (hc : Synced c) (j : Nat) :
    Synced (Function.update clients k c j) := by
  by_cases hj : j = k
  · rw [hj, Function.update_self]
    exact hc
  · rw [Function.update_of_ne hj]
    exact h j

/-- Where the call itself goes on, no attempt is under way. -/
theorem inv_call {e : CallEvent} {call : CallState} (h : Inv s)
    (hstep : callStep req s.call e = some call)
    (he : ∀ ok rspdata canRetry, e ≠ .answered ok rspdata canRetry) :
    Inv { s with call := call } := by
  refine ⟨h.synced, clear_callStep h.clear hstep, fun t ht => ?_,
    reported_of_not_executed (h.reported.not_executed (phase_ne_done_of_callStep hstep))⟩
  obtain ⟨⟨n, hp⟩, -⟩ := h.current t ht
  cases callStepsTo_of_callStep hstep with
  | success | failed | retry => exact absurd rfl (he _ _ _)
  | localTest hp' | enter hp' | notFound hp' | found _ _ hp' | sent hp' | sendFailed _ hp'
  | cached _ hp' => simp [hp'] at hp

theorem inv_send {k : Nat} {a : Answer} {call : CallState} {c : HttpClient.State} (h : Inv s)
    (hplain : Plain s (.send (some (k, a)))) (hcall : callStep req s.call (.sent true) = some call)
    (hc : HttpClient.step (s.clients k) (.request a) = some c) (address : Bytes × Bytes) :
    Inv { s.set k c with
      call := call
      current := some { address := address, client := k, answer := a } } := by
  have hunderway : Underway c a [] := by
    rcases h.synced k with ⟨-, hfresh⟩ | ⟨b, w, hb⟩
    · exact underway_request hfresh hplain.1 hc
    · simp only [HttpClient.step, hb.waiting] at hc
      cases hc
  refine ⟨forall_synced_update h.synced (.inr ⟨a, [], hunderway⟩), clear_callStep h.clear hcall,
    ?_, reported_of_not_executed (h.reported.not_executed (phase_ne_done_of_callStep hcall))⟩
  rintro _ ⟨rfl⟩
  refine ⟨?_, ?_, rfl, hplain.2⟩
  · cases callStepsTo_of_callStep hcall with
    | @sent n hp => exact ⟨n, rfl⟩
  · simpa [State.set] using hunderway

/-- The attempt under way gets something to read, or its connection fails. -/
theorem inv_heard {t : Attempt} {e : HttpClient.Event} {c : HttpClient.State} (h : Inv s)
    (ht : s.current = some t) (horderly : Orderly (s.clients t.client) e)
    (hc : HttpClient.step (s.clients t.client) e = some c)
    (hstep : heard req (s.set t.client c) c (t.after (s.clients t.client) e) = some s') :
    Inv s' := by
  obtain ⟨⟨n, hp⟩, hwire⟩ := h.current t ht
  have hafter := after_step hwire.underway horderly hc
  have hsynced := forall_synced_update (k := t.client) h.synced hafter.synced
  -- an attempt that is executed now has returned with success
  have hexecuted (hexec : (t.after (s.clients t.client) e).Executed) :
      returned c = some ⟨true, t.answer.final.content, true⟩ := by
    obtain ⟨hall, hclose, hcode⟩ := hexec
    obtain ⟨h200, hplain⟩ := hwire.plain hcode
    have hpre := readBy_prefix hwire.underway e
    refine returned_of_arrived hwire.underway horderly hc hplain h200
      (hpre.eq_of_length (Nat.le_antisymm hpre.length_le hall.length_le)) fun huntil => ?_
    have heof := hclose huntil
    cases e <;> simp [Attempt.after, hwire.notEof] at heof ⊢
  unfold heard at hstep
  cases hret : returned c with
  | none =>
    simp only [hret] at hstep
    cases hstep
    refine ⟨hsynced, h.clear, ?_, h.reported⟩
    rintro _ ⟨rfl⟩
    refine ⟨⟨n, hp⟩, ?_, ?_, hwire.plain⟩
    · cases hafter with
      | more hmore => simpa [State.set, Attempt.after] using hmore
      | ended _ _ hsome => simp [hret] at hsome
    · -- at the end of the stream the call would have returned
      cases e with
      | eof =>
        simp only [HttpClient.step, hwire.underway.waiting] at hc
        obtain ⟨-, hc⟩ := Option.ite_none_right_eq_some.mp hc
        cases hc
        simp at hret
      | request | read | fail | deadline => simp [Attempt.after, hwire.notEof]
  | some r =>
    simp only [hret] at hstep
    obtain ⟨call, hcall, rfl⟩ := Option.map_eq_some_iff.mp hstep
    refine ⟨hsynced, clear_callStep h.clear hcall, by simp,
      reported_snoc (h.reported.not_executed (by simp [hp])) fun hexec => ?_⟩
    cases Option.some.inj (hret.symm.trans (hexecuted hexec))
    have herror := h.clear (by simp [hp]) (by simp [hp])
    cases callStepsTo_of_callStep hcall with
    | success => exact ⟨rfl, rfl, herror, rfl⟩

theorem inv_step {e : Event} (h : Inv s) (hplain : Plain s e) (hstep : step req s e = some s') :
    Inv s' := by
  cases e with
  | enter | address _ | cached _ =>
    obtain ⟨call, hcall, rfl⟩ := Option.map_eq_some_iff.mp hstep
    exact inv_call h hcall (by simp)
  | send sent =>
    cases sent with
    | none =>
      obtain ⟨call, hcall, rfl⟩ := Option.map_eq_some_iff.mp hstep
      exact inv_call h hcall (by simp)
    | some ka =>
      obtain ⟨-, hstep⟩ := Option.ite_none_right_eq_some.mp hstep
      obtain ⟨call, hcall, hstep⟩ := Option.bind_eq_some_iff.mp hstep
      obtain ⟨c, hc, rfl⟩ := Option.map_eq_some_iff.mp hstep
      exact inv_send h hplain hcall hc _
  | client k e =>
    obtain ⟨c, hc, hstep⟩ := Option.bind_eq_some_iff.mp hstep
    have hsynced := forall_synced_update (k := k) h.synced (synced_step (h.synced k) hplain hc)
    cases hcurrent : s.current with
    | none =>
      simp only [hcurrent] at hstep
      cases hstep
      exact ⟨hsynced, h.clear, by simp [State.set, hcurrent], h.reported⟩
    | some t =>
      simp only [hcurrent] at hstep
      split at hstep
      · rename_i hk
        subst hk
        exact inv_heard h hcurrent hplain hc hstep
      · -- another call's client
        rename_i hk
        cases hstep
        refine ⟨hsynced, h.clear, fun u hu => ?_, h.reported⟩
        obtain rfl : t = u := Option.some.inj (hcurrent.symm.trans hu)
        obtain ⟨hp, hwire⟩ := h.current t hcurrent
        refine ⟨hp, ?_, hwire.notEof, hwire.plain⟩
        simpa [State.set, Function.update_of_ne hk] using hwire.underway
  | cut k n =>
    cases hstep
    refine ⟨forall_synced_update h.synced (synced_cut (h.synced k) n), h.clear, fun t ht => ?_,
      h.reported⟩
    obtain ⟨hp, hwire⟩ := h.current t ht
    refine ⟨hp, ?_, hwire.notEof, hwire.plain⟩
    by_cases hk : t.client = k
    · subst hk
      simpa [State.set] using underway_cut hwire.underway n
    · simpa [State.set, Function.update_of_ne hk] using hwire.underway

/-- **An executed request is not sent again.** In every run in which the 2xx answers to
    the call have the code 200 and are framed as the parser frames them, no read of any
    client ends with an interim response that keeps the connection alive, and none that is
    complete when the deadline passes ends inside a response. -/
theorem notResent {es : List Event} (hplain : Along (step req) Plain {} es)
    (hrun : run (step req) {} es = some s) : NotResent s :=
  notResent_of_inv <| run_inv_along (fun _ _ _ h hp hs => inv_step h hp hs)
    ⟨fun _ => .inl ⟨rfl, rfl, by simp⟩, fun _ _ => rfl, by simp, fun _ _ _ heq => by simp at heq⟩
    hplain hrun

end Step

/-! ## Runs -/

def shop : Bytes × Bytes := (ascii "10.0.0.1", ascii "80")

/-- The connection of the first attempt is closed before an answer; the second attempt
    gets a response after an interim one, in a read that the deadline no longer stops. -/
def secondAttempt : List Event :=
  [Event.enter, .address (some shop), .send (some (0, HttpClient.firstAnswer)), .cut 0 0,
    .client 0 .eof, .address (some shop), .send (some (1, HttpClient.firstAnswer)),
    .client 1 .deadline, .client 1 (.read 64)]

theorem notResent_secondAttempt :
    ∃ s, run (step { method := Method.get.toInt }) {} secondAttempt = some s ∧
      s.sent.map (decide ·.Executed) = [false, true] ∧ s.call.phase = .done ∧ NotResent s := by
  have hview : (run (step { method := Method.get.toInt }) {} secondAttempt).map
      (fun s => (s.sent.map (decide ·.Executed), s.call.phase)) =
      some ([false, true], .done) := by decide +kernel
  obtain ⟨s, hrun, hs⟩ := Option.map_eq_some_iff.mp hview
  obtain ⟨hsent, hphase⟩ := Prod.mk.inj hs
  exact ⟨s, hrun, hsent, hphase, notResent (by decide +kernel) hrun⟩

/-- `HTTP/1.1 201 Created` without a body. -/
def created : Final where
  method := .post
  text := { version := ascii "TTP/1.1 201 ", reason := ascii "Created"
            fields := (ascii "\r\nContent-Length: 0\r\n\r").map (·, true) }
  head := { code := 201, persistent := true, upgrade := false, framing := .length 0 }
  content := []
  body := []
  final := rfl
  framed := by simp [FramedAs]

/-- An attempt that is answered with `201 Created`. -/
def creation : List Event :=
  [Event.address (some shop), .send (some (0, created.answer)), .client 0 (.read 43)]

/-- **A POST is executed three times.** Each attempt creates what it should, and the call
    fails. -/
theorem created_resent :
    ∃ s, run (step {}) {} ([Event.enter] ++ creation ++ creation ++ creation ++ [.cached none]) =
        some s ∧
      s.sent.map (decide ·.Executed) = [true, true, true] ∧ s.call.phase = .done ∧
      s.call.rsp.error = ascii "Get Service Response Failed. Created" ∧ ¬ NotResent s := by
  have hview :
      (run (step {}) {} ([Event.enter] ++ creation ++ creation ++ creation ++ [.cached none])).map
        (fun s => (s.sent.map (decide ·.Executed), s.call.phase, s.call.rsp.error)) =
      some ([true, true, true], .done, ascii "Get Service Response Failed. Created") := by
    decide +kernel
  obtain ⟨s, hrun, hs⟩ := Option.map_eq_some_iff.mp hview
  simp only [Prod.mk.injEq] at hs
  obtain ⟨hsent, hphase, herror⟩ := hs
  refine ⟨s, hrun, hsent, hphase, herror, fun hnot => ?_⟩
  obtain ⟨t, ts, hcons, hexec, hrest⟩ := List.map_eq_cons_iff.mp hsent
  obtain ⟨rfl, -⟩ := hnot [] t ts hcons (of_decide_eq_true hexec)
  cases hrest

end FiberProxy.Forward.Resends
