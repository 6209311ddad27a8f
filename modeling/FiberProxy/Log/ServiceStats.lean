/-
  FiberProxy.Log.ServiceStats

  The statistics of the services that the sender of the call logs keeps
  (`FibpLogger::sendLogToDB`, `log-manager/FibpLogger.cpp`).  For every service there
  is a bucket for the current second, and a list of the buckets of the seconds before
  it.  An entry of another second closes the bucket, whatever the order of the two;
  when the closed bucket is more than 10 seconds after the first one in its list, all
  lists go to `recentServiceStats_`, where the reporter finds them.

  As long as no bucket counts more than an `int` can, the buckets count every entry
  once (`stats_exact`).  The span is a difference of unsigned numbers, so a bucket
  before the first one in its list publishes at once (`oncePerWindow_iff`).
-/

import FiberProxy.Lib.Bytes
import FiberProxy.Lib.Lists
import Mathlib.Algebra.BigOperators.Group.List.Basic
import Mathlib.Algebra.Order.Field.Rat
import Mathlib.Data.List.Forall2
import Mathlib.Data.List.Induction
import Mathlib.Logic.Function.Basic
import Mathlib.Tactic.FieldSimp

namespace FiberProxy.Log

open Lib

/-- An entry of a log that was taken out: the service and the times of the request.  The
    reply comes after the request. -/
structure Entry where
  service : Bytes
  startTime : UInt64
  endTime : UInt64
  ordered : startTime ≤ endTime

/-- The second of the request; the times are in microseconds. -/
def Entry.second (e : Entry) : UInt64 := e.startTime / 1000000

def Entry.latency (e : Entry) : ℚ := e.endTime.toNat - e.startTime.toNat

/-- `struct ServiceStat`.  `avgLatency` is a `double` in the source. -/
structure ServiceStat where
  avgLatency : ℚ := 0
  requestPerSec : Int32 := 0
  timestamp : UInt64 := 0
deriving DecidableEq

/-- `ServiceStatMapT`. -/
abbrev ServiceStatMap := Bytes → List ServiceStat

/-- `curTimeStats`, `serviceStats` and `recentServiceStats_`, with every bucket that was
    ever pushed. -/
structure Stats where
  curTimeStats : Bytes → Option ServiceStat := fun _ => none
  serviceStats : ServiceStatMap := fun _ => []
  recentServiceStats : ServiceStatMap := fun _ => []
  pushed : ServiceStatMap := fun _ => []

/-- One more bucket for a service. -/
def ServiceStatMap.push (m : ServiceStatMap) (name : Bytes) (b : ServiceStat) : ServiceStatMap :=
  Function.update m name (m name ++ [b])

namespace ServiceStat

/-- The entry is counted; until the bucket is closed `avgLatency` is the sum. -/
def count (b : ServiceStat) (e : Entry) : ServiceStat :=
  { b with
    requestPerSec := b.requestPerSec + 1
    avgLatency := b.avgLatency + (e.endTime - e.startTime).toNat }

def close (b : ServiceStat) : ServiceStat :=
  { b with avgLatency := b.avgLatency / b.requestPerSec.toInt }

end ServiceStat

namespace Stats

/-- The closed bucket is more than 10 seconds after the first one in its list, which it may
    be itself. -/
def windowOver (s : Stats) (name : Bytes) (b : ServiceStat) : Bool :=
  10 < b.timestamp - ((s.serviceStats name).headD b).timestamp

/-- A bucket is closed and pushed; the lists are swapped when the window is over, and those
    that come back are cleared. -/
def flush (s : Stats) (name : Bytes) (b : ServiceStat) : Stats :=
  let stats := s.serviceStats.push name b.close
  let pushed := s.pushed.push name b.close
  if s.windowOver name b then
    -- `swap` brings back what the reporter found before, and each list of it is cleared
    { s with recentServiceStats := stats, serviceStats := fun _ => [], pushed := pushed }
  else { s with serviceStats := stats, pushed := pushed }

/-- The bucket that an entry closes. -/
def closing (s : Stats) (e : Entry) : Option ServiceStat :=
  match s.curTimeStats e.service with
  | none => none
  | some b => if e.second ≠ b.timestamp then some b else none

/-- One entry. -/
def record (s : Stats) (e : Entry) : Stats :=
  -- a new bucket has the second of the entry and is not closed by it
  let b := (s.curTimeStats e.service).getD { timestamp := e.second }
  let (s, b) :=
    if e.second ≠ b.timestamp then (s.flush e.service b, { timestamp := e.second }) else (s, b)
  { s with curTimeStats := Function.update s.curTimeStats e.service (some (b.count e)) }

end Stats

/-- The entries, in the order in which they are taken out. -/
def drain (es : List Entry) : Stats := es.foldl Stats.record {}

theorem drain_snoc (es : List Entry) (e : Entry) : drain (es ++ [e]) = (drain es).record e :=
  List.foldl_append

/-! ## What an entry does -/

section Record

variable {s : Stats} {e : Entry} {b : ServiceStat} {name : Bytes}

theorem record_of_none (h : s.curTimeStats e.service = none) :
    s.record e = { s with
      curTimeStats := Function.update s.curTimeStats e.service
        (some (ServiceStat.count { timestamp := e.second } e)) } := by
  simp [Stats.record, h]

theorem record_of_same (h : s.curTimeStats e.service = some b) (hb : e.second = b.timestamp) :
    s.record e = { s with
      curTimeStats := Function.update s.curTimeStats e.service (some (b.count e)) } := by
  simp [Stats.record, h, hb]

theorem record_of_other (h : s.curTimeStats e.service = some b) (hb : e.second ≠ b.timestamp) :
    s.record e = { s.flush e.service b with
      curTimeStats := Function.update s.curTimeStats e.service
        (some (ServiceStat.count { timestamp := e.second } e)) } := by
  simp only [Stats.record, h, Option.getD_some, if_pos hb]
  unfold Stats.flush
  split <;> rfl

@[simp] theorem pushed_flush : (s.flush name b).pushed = s.pushed.push name b.close := by
  unfold Stats.flush
  split <;> rfl

/-- What an entry does to the buckets of a service: nothing, if it is of another one; it is
    the first of the service; it is counted in the current bucket; or it closes the bucket. -/
inductive Recorded (s : Stats) (e : Entry) (name : Bytes) : Stats → Prop where
  | other {s' : Stats} (hname : e.service ≠ name)
      (hcur : s'.curTimeStats name = s.curTimeStats name)
      (hpushed : s'.pushed name = s.pushed name) : Recorded s e name s'
  | first {s' : Stats} (hname : e.service = name) (hnone : s.curTimeStats name = none)
      (hcur : s'.curTimeStats name = some (ServiceStat.count { timestamp := e.second } e))
      (hpushed : s'.pushed name = s.pushed name) : Recorded s e name s'
  | same {s' : Stats} {b : ServiceStat} (hname : e.service = name)
      (hb : s.curTimeStats name = some b) (hsecond : e.second = b.timestamp)
      (hcur : s'.curTimeStats name = some (b.count e))
      (hpushed : s'.pushed name = s.pushed name) : Recorded s e name s'
  | close {s' : Stats} {b : ServiceStat} (hname : e.service = name)
      (hb : s.curTimeStats name = some b) (hsecond : e.second ≠ b.timestamp)
      (hcur : s'.curTimeStats name = some (ServiceStat.count { timestamp := e.second } e))
      (hpushed : s'.pushed name = s.pushed name ++ [b.close]) : Recorded s e name s'

theorem recorded (s : Stats) (e : Entry) (name : Bytes) : Recorded s e name (s.record e) := by
  by_cases hname : e.service = name
  · subst hname
    cases hcur : s.curTimeStats e.service with
    | none =>
      rw [record_of_none hcur]
      exact .first rfl hcur (by simp) rfl
    | some b =>
      by_cases hb : e.second = b.timestamp
      · rw [record_of_same hcur hb]
        exact .same rfl hcur hb (by simp) rfl
      · rw [record_of_other hcur hb]
        exact .close rfl hcur hb (by simp) (by simp [ServiceStatMap.push])
  · have hne : name ≠ e.service := fun h => hname h.symm
    cases hcur : s.curTimeStats e.service with
    | none =>
      rw [record_of_none hcur]
      exact .other hname (by simp [hne]) rfl
    | some b =>
      by_cases hb : e.second = b.timestamp
      · rw [record_of_same hcur hb]
        exact .other hname (by simp [hne]) rfl
      · rw [record_of_other hcur hb]
        exact .other hname (by simp [hne]) (by simp [ServiceStatMap.push, hne])

end Record

/-! ## What the buckets count -/

/-- The entries of a service. -/
def entriesOf (name : Bytes) (es : List Entry) : List Entry := es.filter (·.service = name)

/-- The sum of the latencies. -/
def totalLatency (g : List Entry) : ℚ := (g.map Entry.latency).sum

/-- A bucket that was pushed, and the entries it counts. -/
structure Bucket (name : Bytes) (g : List Entry) (b : ServiceStat) : Prop where
  pos : 1 ≤ b.requestPerSec.toInt
  count : b.requestPerSec.toInt = g.length
  second : ∀ e ∈ g, e.service = name ∧ e.startTime / 1000000 = b.timestamp
  mean : b.avgLatency * b.requestPerSec.toInt = totalLatency g

/-- The current bucket, and the entries it counts so far. -/
def Current (name : Bytes) (g : List Entry) : Option ServiceStat → Prop
  | none => g = []
  | some b => 1 ≤ b.requestPerSec.toInt ∧ b.requestPerSec.toInt = g.length ∧
      (∀ e ∈ g, e.service = name ∧ e.startTime / 1000000 = b.timestamp) ∧
      b.avgLatency = totalLatency g

/-- The number of entries that the current bucket counts. -/
def currentCount : Option ServiceStat → Int
  | none => 0
  | some b => b.requestPerSec.toInt

/-- The statistics of a service are exact: its entries fall into groups, one for each bucket
    that was pushed and one for the current bucket, and no entry is lost or counted twice. -/
structure Exact (name : Bytes) (es : List Entry) (s : Stats) : Prop where
  groups : ∃ groups cur, entriesOf name es = groups.flatten ++ cur ∧
    List.Forall₂ (Bucket name) groups (s.pushed name) ∧ Current name cur (s.curTimeStats name)
  total : ((s.pushed name).map (·.requestPerSec.toInt)).sum + currentCount (s.curTimeStats name) =
    (entriesOf name es).length

/-- No bucket gets more entries than an `int` can count: of the entries of a service, fewer
    than 2^31 that follow one another are of one second. -/
def Bounded (es : List Entry) : Prop :=
  ∀ name second g, g <:+: entriesOf name es → (∀ e ∈ g, e.second = second) → g.length < 2 ^ 31

theorem entriesOf_snoc_self (es : List Entry) (e : Entry) :
    entriesOf e.service (es ++ [e]) = entriesOf e.service es ++ [e] := by
  simp [entriesOf, List.filter_append]

theorem entriesOf_snoc_of_ne {name : Bytes} {e : Entry} (h : e.service ≠ name) (es : List Entry) :
    entriesOf name (es ++ [e]) = entriesOf name es := by
  simp [entriesOf, List.filter_append, h]

theorem Bounded.of_snoc {es : List Entry} {e : Entry} (h : Bounded (es ++ [e])) : Bounded es := by
  intro name second g hg
  refine h name second g (hg.trans ?_)
  exact ((List.prefix_append es [e]).filter _).isInfix

@[simp] theorem totalLatency_nil : totalLatency [] = 0 := rfl

theorem totalLatency_snoc (g : List Entry) (e : Entry) :
    totalLatency (g ++ [e]) = totalLatency g + e.latency := by
  simp [totalLatency]

/-- With the reply after the request the unsigned difference is the latency. -/
theorem toNat_latency (e : Entry) : ((e.endTime - e.startTime).toNat : ℚ) = e.latency := by
  rw [UInt64.toNat_sub_of_le _ _ e.ordered, Entry.latency, Nat.cast_sub]
  exact UInt64.le_iff_toNat_le.mp e.ordered

theorem toInt_succ {n : Int32} {k : Nat} (h : n.toInt = k) (hk : k + 1 < 2 ^ 31) :
    (n + 1).toInt = (k + 1 : Nat) := by
  rw [Int32.toInt_add, Int32.toInt_one, h]
  exact Int.bmod_eq_of_le (by omega) (by omega)

section Exact

variable {name : Bytes} {g : List Entry} {b : ServiceStat} {e : Entry}

/-- A bucket with its first entry. -/
theorem current_first (hname : e.service = name) :
    Current name [e] (some (ServiceStat.count { timestamp := e.second } e)) := by
  have hone : (0 + 1 : Int32).toInt = 1 := by decide
  refine ⟨hone.ge, hone, fun x hx => ?_, ?_⟩
  · rw [List.mem_singleton.mp hx]
    exact ⟨hname, rfl⟩
  · simp [ServiceStat.count, toNat_latency, totalLatency]

/-- One more entry of the same second. -/
theorem current_count (h : Current name g (some b)) (hname : e.service = name)
    (hsecond : e.second = b.timestamp) (hlen : g.length + 1 < 2 ^ 31) :
    Current name (g ++ [e]) (some (b.count e)) := by
  obtain ⟨hpos, hcount, hmem, hsum⟩ := h
  have hsucc := toInt_succ hcount hlen
  refine ⟨?_, ?_, forall_mem_snoc hmem ⟨hname, hsecond⟩, ?_⟩
  · rw [ServiceStat.count, hsucc]
    omega
  · rw [ServiceStat.count, hsucc, List.length_append, List.length_singleton]
  · rw [totalLatency_snoc, ← hsum, ← toNat_latency]
    rfl

/-- The sum becomes the mean. -/
theorem bucket_close (h : Current name g (some b)) : Bucket name g b.close := by
  obtain ⟨hpos, hcount, hmem, hsum⟩ := h
  refine ⟨hpos, hcount, hmem, ?_⟩
  have hne : (b.requestPerSec.toInt : ℚ) ≠ 0 := by
    have : b.requestPerSec.toInt ≠ 0 := by omega
    exact_mod_cast this
  rw [ServiceStat.close, div_mul_cancel₀ _ hne, hsum]

theorem Current.count_eq {c : Option ServiceStat} (h : Current name g c) :
    currentCount c = g.length := by
  cases c with
  | none =>
    obtain rfl := h
    rfl
  | some b => exact h.2.1

theorem sum_count_of_buckets {groups : List (List Entry)} {bs : List ServiceStat}
    (h : List.Forall₂ (Bucket name) groups bs) :
    (bs.map (·.requestPerSec.toInt)).sum = groups.flatten.length := by
  induction h with
  | nil => rfl
  | cons hb _ ih => simp [hb.count, ih]

theorem exact_of_groups {es : List Entry} {s : Stats} {groups : List (List Entry)}
    {cur : List Entry} (hes : entriesOf name es = groups.flatten ++ cur)
    (hgroups : List.Forall₂ (Bucket name) groups (s.pushed name))
    (hcur : Current name cur (s.curTimeStats name)) : Exact name es s := by
  refine ⟨⟨groups, cur, hes, hgroups, hcur⟩, ?_⟩
  rw [sum_count_of_buckets hgroups, hcur.count_eq, hes]
  simp

/-- **One entry.** -/
theorem exact_record {es : List Entry} {s : Stats} (h : Exact name es s)
    (hes : Bounded (es ++ [e])) : Exact name (es ++ [e]) (s.record e) := by
  obtain ⟨groups, cur, hsplit, hgroups, hcur⟩ := h.groups
  -- the last group takes the entry, or is finished and the entry begins a new one
  cases recorded s e name with
  | other hname hcur' hpushed =>
    refine exact_of_groups ?_ (hpushed ▸ hgroups) (hcur' ▸ hcur)
    rw [entriesOf_snoc_of_ne hname, hsplit]
  | first hname hnone hcur' hpushed =>
    subst hname
    rw [hnone] at hcur
    obtain rfl : cur = [] := hcur
    refine exact_of_groups ?_ (hpushed ▸ hgroups) (hcur' ▸ current_first rfl)
    rw [entriesOf_snoc_self, hsplit, List.append_nil]
  | same hname hb hsecond hcur' hpushed =>
    subst hname
    rw [hb] at hcur
    have hsplit' : entriesOf e.service (es ++ [e]) = groups.flatten ++ (cur ++ [e]) := by
      rw [entriesOf_snoc_self, hsplit, List.append_assoc]
    -- the group with this entry is still of one second, so the bound is about it
    have hlen : (cur ++ [e]).length < 2 ^ 31 := by
      refine hes e.service e.second _ ?_ (forall_mem_snoc (fun x hx => ?_) rfl)
      · rw [hsplit']
        exact (List.suffix_append _ _).isInfix
      · exact (hcur.2.2.1 x hx).2.trans hsecond.symm
    rw [List.length_append, List.length_singleton] at hlen
    exact exact_of_groups hsplit' (hpushed ▸ hgroups)
      (hcur' ▸ current_count hcur rfl hsecond hlen)
  | close hname hb hsecond hcur' hpushed =>
    subst hname
    rw [hb] at hcur
    have hgroups' : List.Forall₂ (Bucket e.service) (groups ++ [cur])
        ((s.record e).pushed e.service) := by
      rw [hpushed]
      exact List.rel_append hgroups (.cons (bucket_close hcur) .nil)
    refine exact_of_groups ?_ hgroups' (hcur' ▸ current_first rfl)
    rw [entriesOf_snoc_self, hsplit]
    simp

end Exact

/-- **The statistics are exact**, as long as no bucket counts more than an `int` can. -/
theorem stats_exact {es : List Entry} (hes : Bounded es) (name : Bytes) :
    Exact name es (drain es) := by
  induction es using List.reverseRecOn with
  | nil => exact exact_of_groups rfl .nil rfl
  | append_singleton es e ih =>
    rw [drain_snoc]
    exact exact_record (ih hes.of_snoc) hes

theorem bounded_of_length {es : List Entry} (h : es.length < 2 ^ 31) : Bounded es :=
  fun _ _ _ hg _ => (hg.length_le.trans (List.length_filter_le _ _)).trans_lt h

/-- A request to the service `a`, with the times in microseconds. -/
def callA (startTime endTime : UInt64) (ordered : startTime ≤ endTime := by decide) : Entry :=
  ⟨ascii "a", startTime, endTime, ordered⟩

def threeCalls : List Entry :=
  [callA 5000000 5000100, callA 5200000 5200300, callA 6000000 6000050]

theorem threeCalls_exact :
    (drain threeCalls).pushed (ascii "a") =
        [{ avgLatency := 200, requestPerSec := 2, timestamp := 5 }] ∧
      Exact (ascii "a") threeCalls (drain threeCalls) :=
  ⟨by decide +kernel, stats_exact (bounded_of_length (by decide)) (ascii "a")⟩

/-- The same entry, again and again. -/
theorem drain_replicate (e : Entry) (n : Nat) :
    ∃ b, (drain (List.replicate (n + 1) e)).curTimeStats e.service = some b ∧
      b.requestPerSec = Int32.ofInt (n + 1 : Nat) ∧ b.timestamp = e.second := by
  induction n with
  | zero =>
    have hdrain : drain (List.replicate 1 e) = Stats.record {} e := rfl
    rw [hdrain, record_of_none rfl]
    exact ⟨_, Function.update_self .., rfl, rfl⟩
  | succ n ih =>
    obtain ⟨b, hcur, hcount, hsecond⟩ := ih
    rw [List.replicate_succ', drain_snoc, record_of_same hcur hsecond.symm]
    refine ⟨b.count e, by simp, ?_, hsecond⟩
    rw [Nat.cast_succ, Int32.ofInt_add, ← hcount]
    rfl

/-- An entry of another second then closes the bucket. -/
theorem pushed_replicate {e e' : Entry} {name : Bytes} (he : e.service = name)
    (he' : e'.service = name) (hsecond : e'.second ≠ e.second) {n : Nat} (hn : 0 < n) :
    ∃ b ∈ (drain (List.replicate n e ++ [e'])).pushed name, b.requestPerSec = Int32.ofInt n := by
  obtain ⟨k, rfl⟩ := Nat.exists_eq_add_one.mpr hn
  obtain ⟨b, hcur, hcount, hb⟩ := drain_replicate e k
  rw [he, ← he'] at hcur
  rw [drain_snoc, record_of_other hcur (hb ▸ hsecond)]
  exact ⟨b.close, by simp [ServiceStatMap.push, he'], hcount⟩

/-- **The count overflows**: 2^31 entries of one second, and one of the next. -/
theorem replicate_overflows :
    ∃ b ∈ (drain (List.replicate (2 ^ 31) (callA 5000000 5000100) ++
        [callA 6000000 6000050])).pushed (ascii "a"), b.requestPerSec.toInt = -2 ^ 31 := by
  obtain ⟨b, hb, hcount⟩ := @pushed_replicate (callA 5000000 5000100) (callA 6000000 6000050)
    (ascii "a") rfl rfl (by decide) (2 ^ 31) (by decide)
  refine ⟨b, hb, ?_⟩
  rw [hcount]
  decide

/-! ## Where a pushed bucket is -/

section Moves

variable {s s' : Stats} {e : Entry} {b : ServiceStat} {name : Bytes}

theorem closing_eq_some :
    s.closing e = some b ↔ s.curTimeStats e.service = some b ∧ e.second ≠ b.timestamp := by
  unfold Stats.closing
  cases s.curTimeStats e.service with
  | none => simp
  | some c =>
    rw [Option.ite_none_right_eq_some]
    constructor
    · rintro ⟨hne, hc⟩
      obtain rfl := Option.some.inj hc
      exact ⟨rfl, hne⟩
    · rintro ⟨hc, hne⟩
      obtain rfl := Option.some.inj hc
      exact ⟨hne, rfl⟩

/-- What an entry does to the lists: nothing; it pushes a bucket; or it publishes the lists. -/
inductive Moves (s : Stats) (e : Entry) : Stats → Prop where
  | keep {s' : Stats} (hnone : s.closing e = none) (hstats : s'.serviceStats = s.serviceStats)
      (hrecent : s'.recentServiceStats = s.recentServiceStats) (hpushed : s'.pushed = s.pushed) :
      Moves s e s'
  | push {s' : Stats} {b : ServiceStat} (hb : s.closing e = some b)
      (hover : s.windowOver e.service b = false)
      (hstats : s'.serviceStats = s.serviceStats.push e.service b.close)
      (hrecent : s'.recentServiceStats = s.recentServiceStats)
      (hpushed : s'.pushed = s.pushed.push e.service b.close) : Moves s e s'
  | publish {s' : Stats} {b : ServiceStat} (hb : s.closing e = some b)
      (hover : s.windowOver e.service b = true) (hstats : s'.serviceStats = fun _ => [])
      (hrecent : s'.recentServiceStats = s.serviceStats.push e.service b.close)
      (hpushed : s'.pushed = s.pushed.push e.service b.close) : Moves s e s'

theorem moves (s : Stats) (e : Entry) : Moves s e (s.record e) := by
  cases hclosing : s.closing e with
  | none =>
    cases hcur : s.curTimeStats e.service with
    | none =>
      rw [record_of_none hcur]
      exact .keep hclosing rfl rfl rfl
    | some b =>
      have hb : e.second = b.timestamp := by
        by_contra hne
        simp [closing_eq_some.mpr ⟨hcur, hne⟩] at hclosing
      rw [record_of_same hcur hb]
      exact .keep hclosing rfl rfl rfl
  | some b =>
    obtain ⟨hcur, hb⟩ := closing_eq_some.mp hclosing
    rw [record_of_other hcur hb]
    cases hover : s.windowOver e.service b with
    | false =>
      exact .push hclosing hover (by simp [Stats.flush, hover])
        (by simp [Stats.flush, hover]) (by simp)
    | true =>
      exact .publish hclosing hover (by simp [Stats.flush, hover])
        (by simp [Stats.flush, hover]) (by simp)

@[simp] theorem push_self (m : ServiceStatMap) : m.push name b name = m name ++ [b] := by
  simp [ServiceStatMap.push]

theorem push_of_ne (m : ServiceStatMap) {other : Bytes} (h : other ≠ name) :
    m.push name b other = m other := by
  simp [ServiceStatMap.push, h]

end Moves

/-! ## Publication -/

/-- The entry makes the sender replace `recentServiceStats_`. -/
def Stats.publishes (s : Stats) (e : Entry) : Bool :=
  match s.closing e with
  | none => false
  | some b => s.windowOver e.service b

/-- What replaces `recentServiceStats_` covers, for the service whose bucket was closed, more
    than 10 seconds from its first bucket to the one just pushed. -/
def OncePerWindow (s : Stats) (e : Entry) : Prop :=
  s.publishes e = true → ∃ first last,
    ((s.record e).recentServiceStats e.service).head? = some first ∧
      ((s.record e).recentServiceStats e.service).getLast? = some last ∧
      first.timestamp.toNat + 10 < last.timestamp.toNat

/-- The bucket that the entry closes is not before the first one in its list. -/
def Forward (s : Stats) (e : Entry) : Prop :=
  ∀ b, s.closing e = some b → ∀ first, (s.serviceStats e.service).head? = some first →
    first.timestamp ≤ b.timestamp

/-- The last second that a time in microseconds can have. -/
def lastSecond : Nat := 18446744073709

theorem second_le (e : Entry) : e.second.toNat ≤ lastSecond := by
  have hlt : e.startTime.toNat < 2 ^ 64 := e.startTime.toNat_lt
  rw [Entry.second, UInt64.toNat_div]
  exact Nat.le_of_lt_succ ((Nat.div_lt_iff_lt_mul (by decide)).mpr (by
    simp only [lastSecond, UInt64.reduceToNat]
    omega))

/-- All buckets are of seconds that a time can have. -/
structure Dated (s : Stats) : Prop where
  current : ∀ name b, s.curTimeStats name = some b → b.timestamp.toNat ≤ lastSecond
  stats : ∀ name, ∀ b ∈ s.serviceStats name, b.timestamp.toNat ≤ lastSecond

theorem dated_record {s : Stats} (h : Dated s) (e : Entry) : Dated (s.record e) := by
  constructor
  · intro name b hb
    cases recorded s e name with
    | other _ hcur => exact h.current name b (hcur ▸ hb)
    | first _ _ hcur =>
      obtain rfl := Option.some.inj (hcur.symm.trans hb)
      exact second_le e
    | same _ hold _ hcur =>
      obtain rfl := Option.some.inj (hcur.symm.trans hb)
      have hle := h.current name _ hold
      exact hle
    | close _ _ _ hcur =>
      obtain rfl := Option.some.inj (hcur.symm.trans hb)
      exact second_le e
  · intro name b hb
    cases moves s e with
    | keep _ hstats => exact h.stats name b (hstats ▸ hb)
    | push hclosing _ hstats =>
      rw [hstats] at hb
      by_cases hname : name = e.service
      · subst hname
        rw [push_self] at hb
        rcases List.mem_append.mp hb with hb | hb
        · exact h.stats _ b hb
        · have hle := h.current _ _ (closing_eq_some.mp hclosing).1
          rw [List.mem_singleton.mp hb]
          exact hle
      · rw [push_of_ne _ hname] at hb
        exact h.stats name b hb
    | publish _ _ hstats => simp [hstats] at hb

theorem dated_drain (es : List Entry) : Dated (drain es) := by
  induction es using List.reverseRecOn with
  | nil => exact ⟨by simp [drain], by simp [drain]⟩
  | append_singleton es e ih =>
    rw [drain_snoc]
    exact dated_record ih e

/-- The unsigned difference is over 10 also when the bucket is before the first one. -/
theorem windowOver_iff {s : Stats} {name : Bytes} {b first : ServiceStat}
    (hfirst : (s.serviceStats name).head? = some first)
    (hle : first.timestamp.toNat ≤ lastSecond) :
    s.windowOver name b = true ↔
      b.timestamp < first.timestamp ∨ first.timestamp.toNat + 10 < b.timestamp.toNat := by
  have hhead : (s.serviceStats name).headD b = first := by
    rw [List.headD_eq_head?_getD, hfirst]
    rfl
  unfold Stats.windowOver
  rw [hhead, decide_eq_true_iff, UInt64.lt_iff_toNat_lt, UInt64.lt_iff_toNat_lt, UInt64.toNat_sub]
  have hb : b.timestamp.toNat < 2 ^ 64 := b.timestamp.toNat_lt
  simp only [lastSecond] at hle
  simp only [UInt64.reduceToNat]
  omega

theorem windowOver_of_nil {s : Stats} {name : Bytes} (h : (s.serviceStats name).head? = none)
    (b : ServiceStat) : s.windowOver name b = false := by
  unfold Stats.windowOver
  rw [List.headD_eq_head?_getD, h]
  simp

/-- What is published of the service goes from its first bucket to the one just pushed. -/
theorem recent_of_publishes {s : Stats} {e : Entry} {b first : ServiceStat}
    (hb : s.closing e = some b) (hover : s.windowOver e.service b = true)
    (hfirst : (s.serviceStats e.service).head? = some first) :
    ((s.record e).recentServiceStats e.service).head? = some first ∧
      ((s.record e).recentServiceStats e.service).getLast? = some b.close := by
  cases moves s e with
  | keep hnone => simp [hb] at hnone
  | push hb' hnot =>
    obtain rfl := Option.some.inj (hb.symm.trans hb')
    simp [hover] at hnot
  | publish hb' _ _ hrecent =>
    obtain rfl := Option.some.inj (hb.symm.trans hb')
    rw [hrecent, push_self]
    exact ⟨by simp [hfirst], by simp⟩

/-- **Publication once per window**: what is published covers more than 10 seconds iff the
    seconds of the service do not go back behind its first unpublished bucket. -/
theorem oncePerWindow_iff (es : List Entry) (e : Entry) :
    OncePerWindow (drain es) e ↔ Forward (drain es) e := by
  have hdated := dated_drain es
  generalize drain es = s at hdated
  cases hb : s.closing e with
  | none => exact iff_of_true (by simp [OncePerWindow, Stats.publishes, hb]) (by simp [Forward, hb])
  | some b =>
    have hpublishes : s.publishes e = s.windowOver e.service b := by rw [Stats.publishes, hb]
    cases hfirst : (s.serviceStats e.service).head? with
    | none =>
      refine iff_of_true ?_ (by simp [Forward, hfirst])
      rw [OncePerWindow, hpublishes, windowOver_of_nil hfirst]
      simp
    | some first =>
      have hforward : Forward s e ↔ first.timestamp ≤ b.timestamp := by
        simp [Forward, hb, hfirst]
      have hover := windowOver_iff (b := b) hfirst
        (hdated.stats _ first (List.mem_of_head? hfirst))
      rw [hforward, OncePerWindow, hpublishes]
      constructor
      · intro h
        by_contra hlt
        -- the difference wraps, and the lists go out with a span that is negative
        have hlt := UInt64.not_le.mp hlt
        have hwindow := hover.mpr (.inl hlt)
        obtain ⟨hhead, hlast⟩ := recent_of_publishes hb hwindow hfirst
        obtain ⟨first', last, hhead', hlast', hspan⟩ := h hwindow
        obtain rfl := Option.some.inj (hhead.symm.trans hhead')
        obtain rfl := Option.some.inj (hlast.symm.trans hlast')
        have hback : b.timestamp.toNat < first.timestamp.toNat := UInt64.lt_iff_toNat_lt.mp hlt
        have hspan : first.timestamp.toNat + 10 < b.timestamp.toNat := hspan
        omega
      · intro hle hwindow
        have hspan := (hover.mp hwindow).resolve_left (UInt64.not_lt.mpr hle)
        obtain ⟨hhead, hlast⟩ := recent_of_publishes hb hwindow hfirst
        exact ⟨first, b.close, hhead, hlast, hspan⟩

def backCalls : List Entry := [callA 5000000 5000100, callA 3000000 3000100]

/-- **A window that goes backwards.** The seconds 5, 3, 4 of one service: the bucket of
    second 3 is before the one of second 5, and the two are published at once. -/
theorem backCalls_published :
    (drain backCalls).publishes (callA 4000000 4000100) = true ∧
      (((drain backCalls).record (callA 4000000 4000100)).recentServiceStats
        (ascii "a")).map (·.timestamp) = [5, 3] ∧
      ¬ OncePerWindow (drain backCalls) (callA 4000000 4000100) := by
  have hpublishes : (drain backCalls).publishes (callA 4000000 4000100) = true := by
    decide +kernel
  have hrecent : (((drain backCalls).record (callA 4000000 4000100)).recentServiceStats
      (ascii "a")).map (·.timestamp) = [5, 3] := by decide +kernel
  refine ⟨hpublishes, hrecent, fun h => ?_⟩
  obtain ⟨first, last, hhead, hlast, hspan⟩ := h hpublishes
  have hfirst : some first.timestamp = [5, 3].head? := by
    rw [← hrecent, List.head?_map]
    exact (congrArg (Option.map ServiceStat.timestamp) hhead).symm
  have hend : some last.timestamp = [5, 3].getLast? := by
    rw [← hrecent, List.getLast?_map]
    exact (congrArg (Option.map ServiceStat.timestamp) hlast).symm
  rw [Option.some.inj hfirst, Option.some.inj hend] at hspan
  exact absurd hspan (by decide)

end FiberProxy.Log
