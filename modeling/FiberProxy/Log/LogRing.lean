/-
  FiberProxy.Log.LogRing

  The ring of call logs with the entries of the services a call has called:
  `startServiceCall`, `sendServiceRequest`, `getServiceRsp`, `logServiceFailed`,
  `endServiceCall` and the loop of `sendLogToDB` that takes the logs out
  (`log-manager/FibpLogger.cpp`).  Any number of calls and the sender take turns;
  one function of the logger is one step.

  A slot belongs to the call whose number it has until the sender resets it, and
  the sender resets it only after the call has ended.  So every log that is taken
  out is the log of one call, with the entries of that call alone
  (`taken_owned`).
-/

import FiberProxy.Lib.Bytes
import FiberProxy.Lib.Lists
import FiberProxy.Lib.Run
import FiberProxy.Log.FibpLogger
import Mathlib.Data.List.Forall2

namespace FiberProxy.Log

open Lib

/-! ## The functions of the logger -/

section Logger

variable {l : FibpLogger}

theorem startServiceCall_refused {now : Nat}
    (h : (l.loggedCallList (slot (l.autoIncId + 1))).waitSend = true ∨
      (l.loggedCallList (slot (l.autoIncId + 1))).id ≠ 0) :
    l.startServiceCall now = (0, { l with autoIncId := l.autoIncId + 1 }) := by
  simp only [FibpLogger.startServiceCall, if_pos h]

theorem startServiceCall_accepted {now : Nat}
    (h : ¬ ((l.loggedCallList (slot (l.autoIncId + 1))).waitSend = true ∨
      (l.loggedCallList (slot (l.autoIncId + 1))).id ≠ 0)) :
    l.startServiceCall now = (l.autoIncId + 1,
      { l with autoIncId := l.autoIncId + 1 }.put (slot (l.autoIncId + 1))
        { l.loggedCallList (slot (l.autoIncId + 1)) with
          startTime := now, id := l.autoIncId + 1 }) := by
  simp only [FibpLogger.startServiceCall, if_neg h]

theorem sendNext_eq_some {l' : FibpLogger} :
    l.sendNext = some l' ↔ (l.loggedCallList (slot l.nextSend)).waitSend = true ∧
      { l.put (slot l.nextSend) {} with nextSend := l.nextSend + 1 } = l' := by
  unfold FibpLogger.sendNext
  split <;> simp [*]

end Logger

/-! ## Entries -/

/-- `struct RequestData`. -/
structure RequestData where
  startTime : Nat := 0
  endTime : Nat := 0
  hostPort : Bytes := []
  failedMsg : Bytes := []
deriving DecidableEq, Repr

/-- `service_send_reply_times`: the entries of each service. -/
abbrev Requests := Bytes → List RequestData

/-- A new entry at the end. -/
def pushBack (r : Requests) (name : Bytes) (d : RequestData) : Requests :=
  Function.update r name (r name ++ [d])

/-- The last entry is changed; `none`: there is no entry, and `back()` is undefined. -/
def updateBack (r : Requests) (name : Bytes) (f : RequestData → RequestData) : Option Requests :=
  (r name).getLast?.map fun d => Function.update r name ((r name).dropLast ++ [f d])

/-- What a call tells the logger about a service. -/
inductive LogOp where
  | request (name host port : Bytes) (now : Nat)
  | reply (name : Bytes) (now : Nat)
  | failed (name msg : Bytes)
deriving DecidableEq, Repr

/-- The entries after one more operation. -/
def record (r : Requests) : LogOp → Option Requests
  | .request name host port now =>
    some (pushBack r name { startTime := now, hostPort := host ++ ascii ":" ++ port })
  | .reply name now => updateBack r name fun d => { d with endTime := now }
  | .failed name msg => updateBack r name fun d => { d with failedMsg := msg }

/-- The entries that these operations leave when there was nothing before them. -/
def entries (ops : List LogOp) : Option Requests := run record (fun _ => []) ops

/-! ## The ring -/

/-- The logger, and the entries of every slot. -/
structure LogRing where
  logger : FibpLogger := {}
  requests : Nat → Requests := fun _ _ => []

namespace LogRing

/-- The entries of a call's slot are changed; without a number nothing is. -/
def modify (l : LogRing) (id : UInt64) (f : Requests → Option Requests) : Option LogRing :=
  if id = 0 then some l
  else
    (f (l.requests (slot id))).map fun r =>
      { l with requests := Function.update l.requests (slot id) r }

def sendServiceRequest (l : LogRing) (id : UInt64) (name host port : Bytes) (now : Nat) :
    Option LogRing :=
  l.modify id fun r =>
    some (pushBack r name { startTime := now, hostPort := host ++ ascii ":" ++ port })

def getServiceRsp (l : LogRing) (id : UInt64) (name : Bytes) (now : Nat) : Option LogRing :=
  l.modify id fun r => updateBack r name fun d => { d with endTime := now }

def logServiceFailed (l : LogRing) (id : UInt64) (name msg : Bytes) : Option LogRing :=
  l.modify id fun r => updateBack r name fun d => { d with failedMsg := msg }

def log (l : LogRing) (id : UInt64) : LogOp → Option LogRing
  | .request name host port now => l.sendServiceRequest id name host port now
  | .reply name now => l.getServiceRsp id name now
  | .failed name msg => l.logServiceFailed id name msg

theorem log_eq_modify (l : LogRing) (id : UInt64) (op : LogOp) :
    l.log id op = l.modify id fun r => record r op := by
  cases op <;> rfl

@[simp] theorem log_zero (l : LogRing) (op : LogOp) : l.log 0 op = some l := by
  rw [log_eq_modify, modify, if_pos rfl]

end LogRing

/-- What the sender reads of a slot. -/
structure LogRecord where
  id : UInt64
  startTime : Nat
  endTime : Nat
  requests : Requests

/-- A log that was taken out: sent, or abandoned because the sender has fallen behind. -/
structure Taken where
  record : LogRecord
  sent : Bool

/-- `auto_inc_id_ - next_send < MAX_LOG_NUM/2`. -/
def FibpLogger.keepsUp (l : FibpLogger) : Bool :=
  decide ((l.autoIncId - l.nextSend).toNat < maxLogNum / 2)

/-- What is in the sender's slot. -/
def LogRing.front (l : LogRing) : LogRecord where
  id := (l.logger.loggedCallList (slot l.logger.nextSend)).id
  startTime := (l.logger.loggedCallList (slot l.logger.nextSend)).startTime
  endTime := (l.logger.loggedCallList (slot l.logger.nextSend)).endTime
  requests := l.requests (slot l.logger.nextSend)

/-- One turn of the sender's inner loop. -/
def LogRing.sendNext (l : LogRing) : Option (Taken × LogRing) :=
  l.logger.sendNext.map fun logger =>
    (⟨l.front, l.logger.keepsUp⟩,
      { logger := logger
        requests := Function.update l.requests (slot l.logger.nextSend) fun _ => [] })

/-! ## Calls and the sender -/

/-- A call: the number it got, what it told the logger, and when it ended. -/
structure Call where
  id : UInt64
  startTime : Nat
  ops : List LogOp := []
  endTime : Option Nat := none

structure State where
  ring : LogRing := {}
  calls : List Call := []
  /-- The logs taken out so far. -/
  taken : List Taken := []

inductive Event where
  | start (now : Nat)
  | log (k : Nat) (op : LogOp)
  | finish (k : Nat) (now : Nat)
  | send
deriving DecidableEq, Repr

/-- A call starts. -/
def State.start (s : State) (now : Nat) : State :=
  { s with
    ring := { s.ring with logger := (s.ring.logger.startServiceCall now).2 }
    calls := s.calls ++ [{ id := (s.ring.logger.startServiceCall now).1, startTime := now }] }

/-- The call `k`, which is `c`, ends. -/
def State.finish (s : State) (k : Nat) (c : Call) (now : Nat) : State :=
  { s with
    ring := { s.ring with logger := s.ring.logger.endServiceCall c.id now }
    calls := s.calls.set k { c with endTime := some now } }

/-- A call that has not ended. -/
def State.open? (s : State) (k : Nat) : Option Call :=
  s.calls[k]?.filter fun c => c.endTime.isNone

def step (s : State) : Event → Option State
  | .start now => some (s.start now)
  | .log k op =>
    (s.open? k).bind fun c =>
      (s.ring.log c.id op).map fun ring =>
        { s with ring := ring, calls := s.calls.set k { c with ops := c.ops ++ [op] } }
  | .finish k now => (s.open? k).map fun c => s.finish k c now
  | .send =>
    s.ring.sendNext.map fun t => { s with ring := t.2, taken := s.taken ++ [t.1] }

theorem open?_eq_some {s : State} {k : Nat} {c : Call} :
    s.open? k = some c ↔ s.calls[k]? = some c ∧ c.endTime = none := by
  simp [State.open?, Option.filter_eq_some_iff]

/-! ## Slots belong to calls -/

/-- The slot is the call's: its number, its times and its entries. -/
structure Holds (d : LogData) (r : Requests) (c : Call) : Prop where
  id : d.id = c.id
  startTime : d.startTime = c.startTime
  waitSend : d.waitSend = c.endTime.isSome
  endTime : ∀ t, c.endTime = some t → d.endTime = t
  requests : entries c.ops = some r

/-- The record is the log of the call `k`, which got a number and has ended. -/
def Owns (calls : List Call) (k : Nat) (r : LogRecord) : Prop :=
  ∃ c, calls[k]? = some c ∧ c.id ≠ 0 ∧ r.id = c.id ∧ r.startTime = c.startTime ∧
    c.endTime = some r.endTime ∧ entries c.ops = some r.requests

/-- `occ` says which call has a slot, `owners` whose logs were taken out. -/
structure Inv (occ : Nat → Option Nat) (owners : List Nat) (s : State) : Prop where
  free : ∀ i, occ i = none → (s.ring.logger.loggedCallList i).id = 0 ∧
    (s.ring.logger.loggedCallList i).waitSend = false ∧ s.ring.requests i = fun _ => []
  held : ∀ i k, occ i = some k → ∃ c, s.calls[k]? = some c ∧ c.id ≠ 0 ∧ slot c.id = i ∧
    Holds (s.ring.logger.loggedCallList i) (s.ring.requests i) c
  mine : ∀ k c, s.calls[k]? = some c → c.id ≠ 0 → c.endTime = none → occ (slot c.id) = some k
  nodup : owners.Nodup
  owned : List.Forall₂ (fun k t => Owns s.calls k t.record) owners s.taken
  gone : ∀ k ∈ owners, ∀ i, occ i ≠ some k

section Inv

variable {occ : Nat → Option Nat} {owners : List Nat} {s s' : State}

theorem inv_init : Inv (fun _ => none) [] {} where
  free := by simp
  held := by simp
  mine := by simp
  nodup := List.nodup_nil
  owned := .nil
  gone := by simp

theorem Owns.snoc {calls : List Call} {k : Nat} {r : LogRecord} (h : Owns calls k r) (c : Call) :
    Owns (calls ++ [c]) k r := by
  obtain ⟨c', hc', hrest⟩ := h
  exact ⟨c', getElem?_snoc_of_some hc', hrest⟩

/-- An open call has no log that was taken out, so it can change. -/
theorem Owns.set {calls : List Call} {k j : Nat} {r : LogRecord} (h : Owns calls k r) {c : Call}
    (hc : calls[j]? = some c) (hopen : c.endTime = none) (c' : Call) :
    Owns (calls.set j c') k r := by
  obtain ⟨c₀, hc₀, hrest⟩ := h
  have hne : j ≠ k := by
    rintro rfl
    obtain rfl := Option.some.inj (hc.symm.trans hc₀)
    simp [hopen] at hrest
  exact ⟨c₀, by rw [List.getElem?_set_ne hne, hc₀], hrest⟩

/-- A slot that can be taken is nobody's. -/
theorem Inv.occ_eq_none (h : Inv occ owners s) {i : Nat}
    (hid : (s.ring.logger.loggedCallList i).id = 0) : occ i = none := by
  cases hocc : occ i with
  | none => rfl
  | some k =>
    obtain ⟨c, -, hne, -, hholds⟩ := h.held i k hocc
    exact absurd (hholds.id.symm.trans hid) hne

theorem Inv.lt_of_mem (h : Inv occ owners s) {k : Nat} (hk : k ∈ owners) : k < s.calls.length := by
  obtain ⟨i, hi, rfl⟩ := List.mem_iff_getElem.mp hk
  obtain ⟨c, hc, -⟩ := h.owned.get hi (h.owned.length_eq ▸ hi)
  exact (List.getElem?_eq_some_iff.mp hc).1

/-- A call that gets no number: the slots stay as they are, but for the start time of one
    that is nobody's. -/
theorem Inv.refuse (h : Inv occ owners s) {logger : FibpLogger} {c : Call} (hid : c.id = 0)
    (hslots : ∀ i, logger.loggedCallList i = s.ring.logger.loggedCallList i ∨
      occ i = none ∧ (logger.loggedCallList i).id = 0 ∧
        (logger.loggedCallList i).waitSend = false) :
    Inv occ owners { s with
      ring := { s.ring with logger := logger }, calls := s.calls ++ [c] } where
  free := by
    intro i hi
    obtain ⟨hid, hwait, hreq⟩ := h.free i hi
    rcases hslots i with heq | ⟨-, hid', hwait'⟩
    · exact ⟨by rw [heq]; exact hid, by rw [heq]; exact hwait, hreq⟩
    · exact ⟨hid', hwait', hreq⟩
  held := by
    intro i k hi
    obtain ⟨c', hc', hne, hslot, hholds⟩ := h.held i k hi
    rcases hslots i with heq | ⟨hnone, -⟩
    · exact ⟨c', getElem?_snoc_of_some hc', hne, hslot, by rw [heq]; exact hholds⟩
    · rw [hnone] at hi
      cases hi
  mine := by
    intro k c' hc' hne hopen
    rcases getElem?_snoc_eq_some hc' with hc' | ⟨-, rfl⟩
    · exact h.mine k c' hc' hne hopen
    · exact absurd hid hne
  nodup := h.nodup
  owned := h.owned.imp fun _ _ how => how.snoc c
  gone := h.gone

/-- A call gets a number and with it a slot that was nobody's. -/
theorem Inv.accept (h : Inv occ owners s) {logger : FibpLogger} {c : Call} {d : LogData}
    (hid : c.id ≠ 0) (hfree : occ (slot c.id) = none)
    (hlist : logger.loggedCallList = fun i => if i = slot c.id then d
      else s.ring.logger.loggedCallList i)
    (hholds : Holds d (fun _ => []) c) :
    Inv (Function.update occ (slot c.id) (some s.calls.length)) owners
      { s with ring := { s.ring with logger := logger }, calls := s.calls ++ [c] } where
  free := by
    intro i hi
    have hne : i ≠ slot c.id := by
      rintro rfl
      simp at hi
    rw [Function.update_of_ne hne] at hi
    simpa [hlist, hne] using h.free i hi
  held := by
    intro i k hi
    by_cases hi' : i = slot c.id
    · subst hi'
      obtain rfl : s.calls.length = k := by simpa using hi
      refine ⟨c, by simp, hid, rfl, ?_⟩
      simpa [hlist, (h.free _ hfree).2.2] using hholds
    · rw [Function.update_of_ne hi'] at hi
      obtain ⟨c', hc', hne, hslot, hholds'⟩ := h.held i k hi
      exact ⟨c', getElem?_snoc_of_some hc', hne, hslot, by simpa [hlist, hi'] using hholds'⟩
  mine := by
    intro k c' hc' hne hopen
    rcases getElem?_snoc_eq_some hc' with hc' | ⟨rfl, rfl⟩
    · have hmine := h.mine k c' hc' hne hopen
      have hslot : slot c'.id ≠ slot c.id := by
        intro heq
        rw [heq, hfree] at hmine
        cases hmine
      rw [Function.update_of_ne hslot, hmine]
    · rw [Function.update_self]
  nodup := h.nodup
  owned := h.owned.imp fun _ _ how => how.snoc c
  gone := by
    intro k hk i hi
    by_cases hi' : i = slot c.id
    · -- the number of the new call is larger than those of the owners
      subst hi'
      obtain rfl : s.calls.length = k := by simpa using hi
      exact absurd (h.lt_of_mem hk) (Nat.lt_irrefl _)
    · rw [Function.update_of_ne hi'] at hi
      exact h.gone k hk i hi

/-- A slot that does not belong to an open call is not its slot, unless it has no number. -/
theorem Inv.ne_slot (h : Inv occ owners s) {k i : Nat} {c : Call} (hc : s.calls[k]? = some c)
    (hopen : c.endTime = none) (hi : occ i ≠ some k) : i ≠ slot c.id ∨ c.id = 0 := by
  by_cases hzero : c.id = 0
  · exact .inr hzero
  · refine .inl ?_
    rintro rfl
    exact hi (h.mine k c hc hzero hopen)

/-- An open call changes its own slot, and itself with it. -/
theorem Inv.change (h : Inv occ owners s) {k : Nat} {c : Call} (hc : s.calls[k]? = some c)
    (hopen : c.endTime = none) (c' : Call) (hid : c'.id = c.id) {ring : LogRing}
    (hothers : ∀ i, i ≠ slot c.id ∨ c.id = 0 →
      ring.logger.loggedCallList i = s.ring.logger.loggedCallList i ∧
        ring.requests i = s.ring.requests i)
    (hholds : c.id ≠ 0 → Holds (s.ring.logger.loggedCallList (slot c.id))
        (s.ring.requests (slot c.id)) c →
      Holds (ring.logger.loggedCallList (slot c.id)) (ring.requests (slot c.id)) c') :
    Inv occ owners { s with ring := ring, calls := s.calls.set k c' } where
  free := by
    intro i hi
    obtain ⟨hdata, hreq⟩ := hothers i (h.ne_slot hc hopen (by simp [hi]))
    simpa only [hdata, hreq] using h.free i hi
  held := by
    intro i j hi
    obtain ⟨c₀, hc₀, hne, hslot, hholds₀⟩ := h.held i j hi
    have hlt : k < s.calls.length := (List.getElem?_eq_some_iff.mp hc).1
    by_cases hj : j = k
    · subst hj
      obtain rfl := Option.some.inj (hc.symm.trans hc₀)
      subst hslot
      refine ⟨c', by simp [hlt], hid ▸ hne, by rw [hid], hholds hne hholds₀⟩
    · refine ⟨c₀, by rw [List.getElem?_set_ne (Ne.symm hj), hc₀], hne, hslot, ?_⟩
      obtain ⟨hdata, hreq⟩ := hothers i (h.ne_slot hc hopen (by simp [hi, hj]))
      rw [hdata, hreq]
      exact hholds₀
  mine := by
    intro j c₀ hc₀ hne hopen₀
    rcases getElem?_set_eq_some hc₀ with ⟨rfl, rfl⟩ | ⟨-, hc₀⟩
    · rw [hid] at hne ⊢
      exact h.mine j c hc hne hopen
    · exact h.mine j c₀ hc₀ hne hopen₀
  nodup := h.nodup
  owned := h.owned.imp fun _ _ how => how.set hc hopen c'
  gone := h.gone

/-- The sender takes the log of a call that has ended, and resets its slot. -/
theorem Inv.send (h : Inv occ owners s) {k : Nat} {t : Taken} {ring : LogRing}
    (hocc : occ (slot s.ring.logger.nextSend) = some k)
    (hwait : (s.ring.logger.loggedCallList (slot s.ring.logger.nextSend)).waitSend = true)
    (hrecord : t.record = s.ring.front)
    (hlist : ring.logger.loggedCallList = fun i =>
      if i = slot s.ring.logger.nextSend then {} else s.ring.logger.loggedCallList i)
    (hreqs : ring.requests = Function.update s.ring.requests (slot s.ring.logger.nextSend)
      fun _ => []) :
    Inv (Function.update occ (slot s.ring.logger.nextSend) none) (owners ++ [k])
      { s with ring := ring, taken := s.taken ++ [t] } := by
  obtain ⟨c, hc, hid, hslot, hholds⟩ := h.held _ k hocc
  obtain ⟨endTime, hended⟩ : ∃ endTime, c.endTime = some endTime :=
    Option.isSome_iff_exists.mp (hholds.waitSend.symm.trans hwait)
  have hother {i j : Nat} (hi : Function.update occ (slot s.ring.logger.nextSend) none i = some j) :
      i ≠ slot s.ring.logger.nextSend ∧ occ i = some j := by
    by_cases hi' : i = slot s.ring.logger.nextSend
    · subst hi'
      simp at hi
    · exact ⟨hi', by rwa [Function.update_of_ne hi'] at hi⟩
  constructor
  case free =>
    intro i hi
    by_cases hi' : i = slot s.ring.logger.nextSend
    · simp [hlist, hreqs, hi']
    · rw [Function.update_of_ne hi'] at hi
      simpa [hlist, hreqs, hi'] using h.free i hi
  case held =>
    intro i j hi
    obtain ⟨hi', hi⟩ := hother hi
    simpa [hlist, hreqs, hi'] using h.held i j hi
  case mine =>
    intro j c₀ hc₀ hne hopen
    have hmine := h.mine j c₀ hc₀ hne hopen
    rw [Function.update_of_ne, hmine]
    intro heq
    rw [heq, hocc] at hmine
    obtain rfl := Option.some.inj hmine
    obtain rfl := Option.some.inj (hc.symm.trans hc₀)
    rw [hopen] at hended
    cases hended
  case nodup =>
    refine List.nodup_append.mpr ⟨h.nodup, by simp, ?_⟩
    rintro j hj _ hk rfl
    obtain rfl := List.mem_singleton.mp hk
    exact h.gone j hj _ hocc
  case owned =>
    refine List.rel_append h.owned (.cons ⟨c, hc, hid, ?_⟩ .nil)
    rw [hrecord]
    exact ⟨hholds.id, hholds.startTime, by rw [LogRing.front, hholds.endTime _ hended, hended],
      hholds.requests⟩
  case gone =>
    intro j hj i hi
    obtain ⟨hi', hi⟩ := hother hi
    rcases List.mem_append.mp hj with hj | hj
    · exact h.gone j hj i hi
    · obtain rfl := List.mem_singleton.mp hj
      obtain ⟨c₀, hc₀, -, hslot₀, -⟩ := h.held i j hi
      obtain rfl := Option.some.inj (hc.symm.trans hc₀)
      exact hi' (hslot₀.symm.trans hslot)

/-- A call starts: it gets a number, or it is refused. -/
theorem Inv.start (h : Inv occ owners s) (now : Nat) :
    ∃ occ', Inv occ' owners (s.start now) := by
  by_cases htaken :
      (s.ring.logger.loggedCallList (slot (s.ring.logger.autoIncId + 1))).waitSend = true ∨
        (s.ring.logger.loggedCallList (slot (s.ring.logger.autoIncId + 1))).id ≠ 0
  · rw [State.start, startServiceCall_refused htaken]
    exact ⟨occ, h.refuse rfl fun i => .inl rfl⟩
  · rw [State.start, startServiceCall_accepted htaken]
    simp only [not_or, Bool.not_eq_true, not_not] at htaken
    obtain ⟨hwait, hid⟩ := htaken
    have hfree := h.occ_eq_none hid
    by_cases hzero : s.ring.logger.autoIncId + 1 = 0
    · -- the numbers start again from 0, which stands for no number
      refine ⟨occ, h.refuse hzero fun i => ?_⟩
      by_cases hi : i = slot (s.ring.logger.autoIncId + 1)
      · exact .inr ⟨hi ▸ hfree, by simp [FibpLogger.put, hi, hzero],
          by simp [FibpLogger.put, hi, hwait]⟩
      · exact .inl (by simp [FibpLogger.put, hi])
    · refine ⟨_, h.accept hzero hfree rfl ?_⟩
      exact ⟨rfl, rfl, hwait, by simp, rfl⟩

/-- A call tells the logger something. -/
theorem Inv.log (h : Inv occ owners s) {k : Nat} {c : Call} {op : LogOp} {ring : LogRing}
    (hc : s.calls[k]? = some c) (hopen : c.endTime = none)
    (hring : s.ring.log c.id op = some ring) :
    Inv occ owners { s with
      ring := ring, calls := s.calls.set k { c with ops := c.ops ++ [op] } } := by
  by_cases hzero : c.id = 0
  · rw [hzero, LogRing.log_zero] at hring
    cases hring
    exact h.change hc hopen { c with ops := c.ops ++ [op] } rfl (fun _ _ => ⟨rfl, rfl⟩)
      fun hne => absurd hzero hne
  · rw [LogRing.log_eq_modify, LogRing.modify, if_neg hzero] at hring
    obtain ⟨r, hr, rfl⟩ := Option.map_eq_some_iff.mp hring
    refine h.change hc hopen { c with ops := c.ops ++ [op] } rfl (fun i hi => ⟨rfl, ?_⟩)
      fun _ hholds => ?_
    · exact Function.update_of_ne (hi.resolve_right hzero) _ _
    · refine ⟨hholds.id, hholds.startTime, hholds.waitSend, hholds.endTime, ?_⟩
      simp only [Function.update_self]
      exact run_snoc_eq_some.mpr ⟨_, hholds.requests, hr⟩

/-- A call ends. -/
theorem Inv.finish (h : Inv occ owners s) {k : Nat} {c : Call} (hc : s.calls[k]? = some c)
    (hopen : c.endTime = none) (now : Nat) : Inv occ owners (s.finish k c now) := by
  refine h.change hc hopen { c with endTime := some now } rfl (fun i hi => ⟨?_, rfl⟩)
    fun hne hholds => ?_
  · rcases hi with hi | hzero
    · unfold FibpLogger.endServiceCall
      split
      · rfl
      · simp [FibpLogger.put, hi]
    · simp [FibpLogger.endServiceCall, hzero]
  · constructor
    case requests => exact hholds.requests
    all_goals simp [FibpLogger.endServiceCall, FibpLogger.put, hne, hholds.id, hholds.startTime]

/-- One step of a call or of the sender. -/
theorem Inv.step {e : Event} (h : Inv occ owners s) (hstep : step s e = some s') :
    ∃ occ' owners', Inv occ' owners' s' := by
  cases e with
  | start now =>
    cases hstep
    obtain ⟨occ', h'⟩ := h.start now
    exact ⟨occ', owners, h'⟩
  | log k op =>
    obtain ⟨c, hc, hlog⟩ := Option.bind_eq_some_iff.mp hstep
    obtain ⟨ring, hring, rfl⟩ := Option.map_eq_some_iff.mp hlog
    obtain ⟨hc, hopen⟩ := open?_eq_some.mp hc
    exact ⟨occ, owners, h.log hc hopen hring⟩
  | finish k now =>
    obtain ⟨c, hc, rfl⟩ := Option.map_eq_some_iff.mp hstep
    obtain ⟨hc, hopen⟩ := open?_eq_some.mp hc
    exact ⟨occ, owners, h.finish hc hopen now⟩
  | send =>
    obtain ⟨t, ht, rfl⟩ := Option.map_eq_some_iff.mp hstep
    obtain ⟨logger, hlogger, rfl⟩ := Option.map_eq_some_iff.mp ht
    obtain ⟨hwait, rfl⟩ := sendNext_eq_some.mp hlogger
    cases hocc : occ (slot s.ring.logger.nextSend) with
    | none =>
      -- a slot that waits is somebody's
      rw [(h.free _ hocc).2.1] at hwait
      cases hwait
    | some k => exact ⟨_, _, h.send hocc hwait rfl rfl rfl⟩

theorem inv_run {es : List Event} (hrun : run Log.step {} es = some s) :
    ∃ occ owners, Inv occ owners s := by
  have hkeep (s : State) (e : Event) (s' : State) (h : ∃ occ owners, Inv occ owners s)
      (hstep : Log.step s e = some s') : ∃ occ owners, Inv occ owners s' := by
    obtain ⟨occ, owners, h⟩ := h
    exact h.step hstep
  exact run_inv hkeep ⟨_, _, inv_init⟩ hrun

end Inv

/-! ## The logs taken out -/

/-- **Slots are never shared.** In every interleaving of any number of calls with the sender,
    the logs taken out are those of different calls that got a number and have ended: each with
    the number, the times and exactly the entries of its own call, in order.  What a call without
    a number tells the logger changes nothing. -/
theorem taken_owned {es : List Event} {s : State} (hrun : run step {} es = some s) :
    (∃ owners : List Nat, owners.Nodup ∧
      List.Forall₂ (fun k t => Owns s.calls k t.record) owners s.taken) ∧
    ∀ c ∈ s.calls, c.id = 0 → (∀ op, s.ring.log c.id op = some s.ring) ∧
      ∀ now, s.ring.logger.endServiceCall c.id now = s.ring.logger := by
  obtain ⟨occ, owners, h⟩ := inv_run hrun
  refine ⟨⟨owners, h.nodup, h.owned⟩, fun c _ hid => ⟨fun op => ?_, fun now => ?_⟩⟩
  · rw [hid, LogRing.log_zero]
  · rw [hid, FibpLogger.endServiceCall, if_pos rfl]

/-- Two calls at once, the second of which ends first. -/
def twoCalls : List Event :=
  [.start 1, .start 2, .log 1 (.request (ascii "users") (ascii "n") (ascii "80") 3),
    .log 0 (.request (ascii "users") (ascii "m") (ascii "80") 4), .log 1 (.reply (ascii "users") 5),
    .finish 1 6, .log 0 (.reply (ascii "users") 7), .finish 0 8, .send, .send]

theorem twoCalls_owned :
    ∃ s, run step {} twoCalls = some s ∧ s.taken.length = 2 ∧
      ∃ owners : List Nat, owners.Nodup ∧
        List.Forall₂ (fun k t => Owns s.calls k t.record) owners s.taken := by
  have hlength : (run step {} twoCalls).map (fun s => s.taken.length) = some 2 := by decide +kernel
  obtain ⟨s, hrun, hs⟩ := Option.map_eq_some_iff.mp hlength
  exact ⟨s, hrun, hs, (taken_owned hrun).1⟩

end FiberProxy.Log
