/-
  FiberProxy.Log.Alignment

  Whether the sender of the call logs finds the number it is at.  It goes through
  the numbers one by one and waits at each of them; a number whose start was
  refused is never skipped, though nobody will ever end it.

  While no number is accepted that is `MAX_LOG_NUM` or more ahead of the sender,
  the sender's slot has the sender's number and the logs leave in the order of
  their numbers (`aligned_of_timely`).  Once the sender stands at a refused number,
  the next call that takes the slot is read in its place (`refusedStart_not_aligned`).
-/

import FiberProxy.Log.LogRing

namespace FiberProxy.Log

open Lib

/-- Where the sender finds its slot waiting, the slot has the sender's number, and that is
    not after the last one given out. -/
def Aligned (l : FibpLogger) : Prop :=
  (l.loggedCallList (slot l.nextSend)).waitSend = true →
    (l.loggedCallList (slot l.nextSend)).id = l.nextSend ∧ l.nextSend ≤ l.autoIncId

/-- The slot of the next number is free. -/
def FibpLogger.Accepts (l : FibpLogger) : Prop :=
  ¬ ((l.loggedCallList (slot (l.autoIncId + 1))).waitSend = true ∨
    (l.loggedCallList (slot (l.autoIncId + 1))).id ≠ 0)

/-- A number is accepted only less than a round of the ring ahead of the sender, and the
    numbers do not start again. -/
def Timely (s : State) : Event → Prop
  | .start _ =>
    s.ring.logger.autoIncId.toNat + 2 < 2 ^ 64 ∧
      (s.ring.logger.Accepts →
        s.ring.logger.autoIncId.toNat + 1 < s.ring.logger.nextSend.toNat + maxLogNum)
  | _ => True

instance (l : FibpLogger) : Decidable l.Accepts := inferInstanceAs (Decidable (¬ (_ ∨ _)))

instance (s : State) : ∀ e, Decidable (Timely s e)
  | .start _ => inferInstanceAs (Decidable (_ ∧ (_ → _)))
  | .log _ _ | .finish _ _ | .send => isTrue trivial

/-! ## Numbers and slots -/

theorem toNat_succ {x : UInt64} (h : x.toNat + 1 < 2 ^ 64) : (x + 1).toNat = x.toNat + 1 := by
  rw [UInt64.toNat_add]
  exact Nat.mod_eq_of_lt h

theorem eq_ofNat_of_toNat {x : UInt64} {n : Nat} (h : x.toNat = n) : x = UInt64.ofNat n := by
  rw [← h, UInt64.ofNat_toNat]

theorem toNat_ofNat {n : Nat} (h : n < 2 ^ 64) : (UInt64.ofNat n).toNat = n :=
  UInt64.toNat_ofNat_of_lt h

theorem ofNat_ne_zero {n : Nat} (hpos : 0 < n) (h : n < 2 ^ 64) : UInt64.ofNat n ≠ 0 := by
  intro hzero
  have htoNat := toNat_ofNat h
  rw [hzero] at htoNat
  exact absurd htoNat (Nat.ne_of_lt hpos)

/-- Two numbers less than a round apart have different slots. -/
theorem mod_maxLogNum_ne {m n : Nat} (h : m < n) (h' : n < m + maxLogNum) :
    m % maxLogNum ≠ n % maxLogNum := by
  unfold maxLogNum at h' ⊢
  omega

/-! ## The window of the sender -/

/-- A number in the slot `i` lies between the sender's and the last one given out, within one
    round of the ring. -/
structure Fits (next last i : Nat) (d : LogData) : Prop where
  waiting : d.waitSend = true → d.id ≠ 0
  slot_eq : d.id ≠ 0 → slot d.id = i
  le_id : d.id ≠ 0 → next ≤ d.id.toNat
  id_le : d.id ≠ 0 → d.id.toNat ≤ last
  id_lt : d.id ≠ 0 → d.id.toNat < next + maxLogNum

theorem fits_empty (next last i : Nat) : Fits next last i {} := by
  constructor <;> simp

structure Window (l : FibpLogger) : Prop where
  bound : l.autoIncId.toNat + 1 < 2 ^ 64
  next : l.nextSend.toNat ≤ l.autoIncId.toNat + 1
  slots : ∀ i, Fits l.nextSend.toNat l.autoIncId.toNat i (l.loggedCallList i)

section Window

variable {l : FibpLogger}

theorem window_init : Window {} := ⟨by simp, by simp, fun i => fits_empty _ _ i⟩

/-- In the sender's slot there is no number but its own. -/
theorem Window.id_eq (h : Window l) (hid : (l.loggedCallList (slot l.nextSend)).id ≠ 0) :
    (l.loggedCallList (slot l.nextSend)).id = l.nextSend := by
  have hfits := h.slots (slot l.nextSend)
  have hle := hfits.le_id hid
  by_contra hne
  have hne' : (l.loggedCallList (slot l.nextSend)).id.toNat ≠ l.nextSend.toNat :=
    fun heq => hne (UInt64.toNat_inj.mp heq)
  exact mod_maxLogNum_ne (by omega) (hfits.id_lt hid) (hfits.slot_eq hid).symm

theorem Window.aligned (h : Window l) : Aligned l := by
  intro hwait
  have hid := (h.slots _).waiting hwait
  have hle := (h.slots _).id_le hid
  rw [h.id_eq hid] at hle
  exact ⟨h.id_eq hid, UInt64.le_iff_toNat_le.mpr hle⟩

theorem Window.put (h : Window l) {i : Nat} {d : LogData}
    (hd : Fits l.nextSend.toNat l.autoIncId.toNat i d) : Window (l.put i d) := by
  refine ⟨h.bound, h.next, fun j => ?_⟩
  by_cases hj : j = i
  · subst hj
    simpa [FibpLogger.put] using hd
  · simpa [FibpLogger.put, hj] using h.slots j

/-- A number is given out. -/
theorem Window.advance (h : Window l) (hbound : l.autoIncId.toNat + 2 < 2 ^ 64) :
    Window { l with autoIncId := l.autoIncId + 1 } := by
  have hnext := h.next
  have hauto : (l.autoIncId + 1).toNat = l.autoIncId.toNat + 1 := toNat_succ (by omega)
  refine ⟨?_, ?_, fun i => ?_⟩
  · rw [hauto]
    omega
  · show l.nextSend.toNat ≤ (l.autoIncId + 1).toNat + 1
    omega
  · have hfits := h.slots i
    refine ⟨hfits.waiting, hfits.slot_eq, hfits.le_id, fun hid => ?_, hfits.id_lt⟩
    rw [hauto]
    exact Nat.le_succ_of_le (hfits.id_le hid)

theorem Window.startServiceCall (h : Window l) (now : Nat)
    (hbound : l.autoIncId.toNat + 2 < 2 ^ 64)
    (hahead : l.Accepts → l.autoIncId.toNat + 1 < l.nextSend.toNat + maxLogNum) :
    Window (l.startServiceCall now).2 := by
  by_cases hfree : l.Accepts
  · have hnext := h.next
    have hauto : (l.autoIncId + 1).toNat = l.autoIncId.toNat + 1 := toNat_succ (by omega)
    have hlt := hahead hfree
    rw [startServiceCall_accepted hfree]
    refine (h.advance hbound).put ⟨fun hwait => ?_, fun _ => rfl, fun _ => ?_, fun _ => ?_,
      fun _ => ?_⟩
    · exact absurd (.inl hwait) hfree
    · rw [hauto]
      exact hnext
    · rw [hauto]
    · rw [hauto]
      exact hlt
  · rw [startServiceCall_refused (not_not.mp hfree)]
    exact h.advance hbound

/-- A call with a number ends while it has its slot. -/
theorem Window.endServiceCall (h : Window l) {id : UInt64} (now : Nat)
    (hid : id ≠ 0 → (l.loggedCallList (slot id)).id = id) : Window (l.endServiceCall id now) := by
  unfold FibpLogger.endServiceCall
  split
  · exact h
  · rename_i hne
    have hfits := h.slots (slot id)
    refine h.put ⟨fun _ => ?_, hfits.slot_eq, hfits.le_id, hfits.id_le, hfits.id_lt⟩
    rw [hid hne]
    exact hne

/-- The sender resets its slot and goes on. -/
theorem Window.sendNext (h : Window l)
    (hwait : (l.loggedCallList (slot l.nextSend)).waitSend = true) :
    Window { l.put (slot l.nextSend) {} with nextSend := l.nextSend + 1 } := by
  have hbound := h.bound
  obtain ⟨-, hle⟩ := h.aligned hwait
  replace hle := UInt64.le_iff_toNat_le.mp hle
  have hsucc : (l.nextSend + 1).toNat = l.nextSend.toNat + 1 := toNat_succ (by omega)
  refine ⟨hbound, ?_, fun i => ?_⟩
  · rw [hsucc]
    exact Nat.succ_le_succ hle
  · by_cases hi : i = slot l.nextSend
    · simpa [FibpLogger.put, hi] using fits_empty _ _ _
    · -- a number in another slot is not the sender's, so it lies after it
      have hfits := h.slots i
      have hne (hid : (l.loggedCallList i).id ≠ 0) :
          (l.loggedCallList i).id.toNat ≠ l.nextSend.toNat := by
        intro heq
        exact hi ((hfits.slot_eq hid).symm.trans (congrArg slot (UInt64.toNat_inj.mp heq)))
      simp only [FibpLogger.put, hi, if_false, hsucc]
      refine ⟨hfits.waiting, hfits.slot_eq, fun hid => ?_, hfits.id_le, fun hid => ?_⟩
      · have hge := hfits.le_id hid
        have := hne hid
        omega
      · have hlt := hfits.id_lt hid
        omega

end Window

/-! ## Every run in time -/

/-- The window, and the numbers of the logs taken out: increasing, and before the sender's. -/
structure InOrder (s : State) : Prop where
  window : Window s.ring.logger
  before : ∀ t ∈ s.taken, t.record.id.toNat < s.ring.logger.nextSend.toNat
  increasing : (s.taken.map fun t => t.record.id).Pairwise (· < ·)

theorem inOrder_init : InOrder {} := ⟨window_init, by simp, by simp⟩

/-- The sender takes out the log of its own number. -/
theorem InOrder.send {s s' : State} (h : InOrder s) (hstep : step s .send = some s') :
    InOrder s' := by
  obtain ⟨t, ht, rfl⟩ := Option.map_eq_some_iff.mp hstep
  obtain ⟨logger, hlogger, rfl⟩ := Option.map_eq_some_iff.mp ht
  obtain ⟨hwait, rfl⟩ := sendNext_eq_some.mp hlogger
  obtain ⟨hid, hle⟩ := h.window.aligned hwait
  have hbound := h.window.bound
  replace hle := UInt64.le_iff_toNat_le.mp hle
  have hsucc : (s.ring.logger.nextSend + 1).toNat = s.ring.logger.nextSend.toNat + 1 :=
    toNat_succ (by omega)
  refine ⟨h.window.sendNext hwait, fun t ht => ?_, ?_⟩
  · show t.record.id.toNat < (s.ring.logger.nextSend + 1).toNat
    rw [hsucc]
    rcases List.mem_append.mp ht with ht | ht
    · exact Nat.lt_succ_of_lt (h.before t ht)
    · obtain rfl := List.mem_singleton.mp ht
      show s.ring.front.id.toNat < _
      rw [LogRing.front, hid]
      exact Nat.lt_succ_self _
  · rw [List.map_append, List.pairwise_append]
    refine ⟨h.increasing, by simp, fun id hmem id' hmem' => ?_⟩
    obtain ⟨t, ht, rfl⟩ := List.mem_map.mp hmem
    obtain rfl : id' = s.ring.logger.nextSend := by
      rw [← hid]
      simpa [LogRing.front] using hmem'
    exact UInt64.lt_iff_toNat_lt.mpr (h.before t ht)

/-- One step in time. -/
theorem InOrder.step {s s' : State} {e : Event} {occ : Nat → Option Nat} {owners : List Nat}
    (h : InOrder s) (hinv : Inv occ owners s) (htimely : Timely s e)
    (hstep : step s e = some s') : InOrder s' := by
  cases e with
  | start now =>
    cases hstep
    have hnext : (s.ring.logger.startServiceCall now).2.nextSend = s.ring.logger.nextSend := by
      simp only [FibpLogger.startServiceCall]
      split <;> rfl
    refine ⟨h.window.startServiceCall now htimely.1 htimely.2, fun t ht => ?_, h.increasing⟩
    show _ < (s.ring.logger.startServiceCall now).2.nextSend.toNat
    rw [hnext]
    exact h.before t ht
  | log k op =>
    -- the entries of a slot have no part in its number
    obtain ⟨c, -, hlog⟩ := Option.bind_eq_some_iff.mp hstep
    obtain ⟨ring, hring, rfl⟩ := Option.map_eq_some_iff.mp hlog
    have hlogger : ring.logger = s.ring.logger := by
      rw [LogRing.log_eq_modify, LogRing.modify] at hring
      split at hring
      · cases hring
        rfl
      · obtain ⟨r, -, rfl⟩ := Option.map_eq_some_iff.mp hring
        rfl
    exact ⟨hlogger ▸ h.window, fun t ht => hlogger ▸ h.before t ht, h.increasing⟩
  | finish k now =>
    obtain ⟨c, hc, rfl⟩ := Option.map_eq_some_iff.mp hstep
    obtain ⟨hc, hopen⟩ := open?_eq_some.mp hc
    have hid (hne : c.id ≠ 0) : (s.ring.logger.loggedCallList (slot c.id)).id = c.id := by
      obtain ⟨c', hc', -, -, hholds⟩ := hinv.held _ k (hinv.mine k c hc hne hopen)
      obtain rfl := Option.some.inj (hc.symm.trans hc')
      exact hholds.id
    have hnext : (s.ring.logger.endServiceCall c.id now).nextSend = s.ring.logger.nextSend := by
      unfold FibpLogger.endServiceCall
      split <;> rfl
    refine ⟨h.window.endServiceCall now hid, fun t ht => ?_, h.increasing⟩
    show _ < (s.ring.logger.endServiceCall c.id now).nextSend.toNat
    rw [hnext]
    exact h.before t ht
  | send => exact h.send hstep

/-- **The sender finds its own number** in every run whose starts are in time, and the logs
    leave in the order of their numbers. -/
theorem aligned_of_timely {es : List Event} {s : State} (htimely : Along step Timely {} es)
    (hrun : run step {} es = some s) :
    Aligned s.ring.logger ∧ (s.taken.map fun t => t.record.id).Pairwise (· < ·) := by
  have hinOrder : InOrder s :=
    run_induction_along (Q := fun _ s => InOrder s) inOrder_init
      (fun es s e s' hes hs hP hstep => by
        obtain ⟨occ, owners, hinv⟩ := inv_run hes
        exact hs.step hinv hP hstep) htimely hrun
  exact ⟨hinOrder.window.aligned, hinOrder.increasing⟩

theorem twoCalls_aligned :
    ∃ s, run step {} twoCalls = some s ∧ Aligned s.ring.logger ∧
      (s.taken.map fun t => t.record.id).Pairwise (· < ·) := by
  have hsome : (run step {} twoCalls).isSome = true := by decide +kernel
  obtain ⟨s, hrun⟩ := Option.isSome_iff_exists.mp hsome
  exact ⟨s, hrun, aligned_of_timely (by decide +kernel) hrun⟩

/-! ## A refused start

The calls start until the ring is full, one more is refused, and the sender takes out all
the logs there are.  It is now at the refused number.  One round later a call gets the slot. -/

/-- The numbers after `lo` up to `hi` have their slots, the other slots are free.  No call with
    such a number has ended, and the calls are numbered in order. -/
structure Busy (lo hi : Nat) (s : State) : Prop where
  busy : ∀ m, lo < m → m ≤ hi →
    s.ring.logger.loggedCallList (m % maxLogNum) = { id := UInt64.ofNat m }
  free : ∀ m, hi < m → m ≤ lo + maxLogNum → s.ring.logger.loggedCallList (m % maxLogNum) = {}
  calls : ∀ m, lo < m → m ≤ hi → s.calls[m - 1]? = some { id := UInt64.ofNat m, startTime := 0 }
  length : s.calls.length = s.ring.logger.autoIncId.toNat

section Busy

variable {lo hi : Nat} {s : State}

theorem busy_init : Busy 0 0 {} where
  busy := by omega
  free := fun _ _ _ => rfl
  calls := by omega
  length := rfl

/-- A slot that is free for the number `lo + 1` is free for the number a round later. -/
theorem Busy.shift (h : Busy lo lo s) : Busy (lo + 1) (lo + 1) s where
  busy := by omega
  free := by
    intro m hm hle
    by_cases hlast : m = lo + 1 + maxLogNum
    · rw [hlast, Nat.add_mod_right]
      exact h.free _ (by omega) (by unfold maxLogNum; omega)
    · exact h.free m (by omega) (by omega)
  calls := by omega
  length := h.length

/-- The sender finds its slot waiting. -/
theorem step_send (hwait :
    (s.ring.logger.loggedCallList (slot s.ring.logger.nextSend)).waitSend = true) :
    step s .send = some { s with
      ring :=
        { logger := { s.ring.logger.put (slot s.ring.logger.nextSend) {} with
            nextSend := s.ring.logger.nextSend + 1 }
          requests := Function.update s.ring.requests (slot s.ring.logger.nextSend) fun _ => [] }
      taken := s.taken ++ [⟨s.ring.front, s.ring.logger.keepsUp⟩] } := by
  simp [step, LogRing.sendNext, FibpLogger.sendNext, hwait]

theorem slot_succ {hi : Nat} (hauto : s.ring.logger.autoIncId.toNat = hi)
    (hbound : hi + 1 < 2 ^ 64) :
    s.ring.logger.autoIncId + 1 = UInt64.ofNat (hi + 1) ∧
      slot (s.ring.logger.autoIncId + 1) = (hi + 1) % maxLogNum := by
  have htoNat : (s.ring.logger.autoIncId + 1).toNat = hi + 1 := by
    rw [toNat_succ (by omega), hauto]
  exact ⟨eq_ofNat_of_toNat htoNat, by rw [slot, htoNat]⟩

/-- A call gets the next number. -/
theorem Busy.start (h : Busy lo hi s) (hauto : s.ring.logger.autoIncId.toNat = hi)
    (hlo : lo ≤ hi) (hlt : hi < lo + maxLogNum) (hbound : hi + 1 < 2 ^ 64) :
    Busy lo (hi + 1) (s.start 0) ∧ (s.start 0).ring.logger.autoIncId.toNat = hi + 1 ∧
      (s.start 0).ring.logger.nextSend = s.ring.logger.nextSend := by
  obtain ⟨hid, hslot⟩ := slot_succ hauto hbound
  have hdata := h.free (hi + 1) (by omega) (by omega)
  have haccepts : s.ring.logger.Accepts := by
    simp [FibpLogger.Accepts, hslot, hdata]
  have hstart : s.ring.logger.startServiceCall 0 = _ := startServiceCall_accepted haccepts
  rw [hslot, hdata, hid] at hstart
  have hauto' : (s.start 0).ring.logger.autoIncId.toNat = hi + 1 := by
    rw [State.start, hstart]
    exact toNat_ofNat hbound
  have hlist (m : Nat) : (s.start 0).ring.logger.loggedCallList (m % maxLogNum) =
      if m % maxLogNum = (hi + 1) % maxLogNum then { id := UInt64.ofNat (hi + 1) }
      else s.ring.logger.loggedCallList (m % maxLogNum) := by
    rw [State.start, hstart]
    rfl
  have hcalls : (s.start 0).calls =
      s.calls ++ [{ id := UInt64.ofNat (hi + 1), startTime := 0 }] := by
    rw [State.start, hstart]
  refine ⟨⟨fun m hm hle => ?_, fun m hm hle => ?_, fun m hm hle => ?_, ?_⟩, hauto', ?_⟩
  · rw [hlist]
    by_cases hlast : m = hi + 1
    · rw [hlast, if_pos rfl]
    · rw [if_neg (mod_maxLogNum_ne (by omega) (by omega))]
      exact h.busy m hm (by omega)
  · rw [hlist, if_neg (Ne.symm (mod_maxLogNum_ne (by omega) (by omega)))]
    exact h.free m (by omega) hle
  · rw [hcalls]
    by_cases hlast : m = hi + 1
    · subst hlast
      simp [h.length, hauto]
    · exact getElem?_snoc_of_some (h.calls m hm (by omega))
  · rw [hcalls, hauto', List.length_append, h.length, hauto]
    rfl
  · rw [State.start, hstart]
    rfl

/-- The ring is full: a call gets no number. -/
theorem Busy.refuse (h : Busy lo (lo + maxLogNum) s)
    (hauto : s.ring.logger.autoIncId.toNat = lo + maxLogNum)
    (hbound : lo + maxLogNum + 1 < 2 ^ 64) :
    Busy lo (lo + maxLogNum) (s.start 0) ∧
      (s.start 0).ring.logger.autoIncId.toNat = lo + maxLogNum + 1 ∧
      (s.start 0).ring.logger.nextSend = s.ring.logger.nextSend := by
  obtain ⟨hid, hslot⟩ := slot_succ hauto hbound
  -- its slot is that of the number `lo + 1`
  have hmod : (lo + maxLogNum + 1) % maxLogNum = (lo + 1) % maxLogNum := by
    rw [show lo + maxLogNum + 1 = lo + 1 + maxLogNum by omega, Nat.add_mod_right]
  have hdata := h.busy (lo + 1) (by omega) (by unfold maxLogNum; omega)
  have hne : UInt64.ofNat (lo + 1) ≠ 0 := ofNat_ne_zero (by omega) (by omega)
  have hstart : s.ring.logger.startServiceCall 0 = _ :=
    startServiceCall_refused (.inr (by rw [hslot, hmod, hdata]; exact hne))
  have hauto' : (s.start 0).ring.logger.autoIncId.toNat = lo + maxLogNum + 1 := by
    rw [State.start, hstart, hid]
    exact toNat_ofNat hbound
  have hcalls : (s.start 0).calls = s.calls ++ [{ id := 0, startTime := 0 }] := by
    rw [State.start, hstart]
  have hlist : (s.start 0).ring.logger.loggedCallList = s.ring.logger.loggedCallList := by
    rw [State.start, hstart]
  refine ⟨⟨by rw [hlist]; exact h.busy, by rw [hlist]; exact h.free, fun m hm hle => ?_, ?_⟩,
    hauto', by rw [State.start, hstart]⟩
  · rw [hcalls]
    exact getElem?_snoc_of_some (h.calls m hm hle)
  · rw [hcalls, hauto', List.length_append, h.length, hauto]
    rfl

/-- Any number of calls start. -/
theorem Busy.starts (h : Busy lo lo s) (hauto : s.ring.logger.autoIncId.toNat = lo) {n : Nat}
    (hn : n ≤ maxLogNum) (hbound : lo + n + 1 < 2 ^ 64) :
    ∃ s', run step s (List.replicate n (.start 0)) = some s' ∧ Busy lo (lo + n) s' ∧
      s'.ring.logger.autoIncId.toNat = lo + n ∧
      s'.ring.logger.nextSend = s.ring.logger.nextSend := by
  induction n with
  | zero => exact ⟨s, rfl, h, hauto, rfl⟩
  | succ n ih =>
    obtain ⟨s', hrun, hbusy, hauto', hnext⟩ := ih (by omega) (by omega)
    obtain ⟨hbusy', hauto'', hnext'⟩ := hbusy.start hauto' (by omega) (by omega) (by omega)
    refine ⟨s'.start 0, ?_, hbusy', hauto'', hnext'.trans hnext⟩
    rw [List.replicate_succ']
    exact run_snoc_eq_some.mpr ⟨s', hrun, rfl⟩

/-- A call of the ring ends: its slot waits. -/
theorem Busy.finish (h : Busy lo hi s) {m : Nat} (hlo : lo < m) (hhi : m ≤ hi)
    (hbound : m < 2 ^ 64) :
    ∃ s', step s (.finish (m - 1) 0) = some s' ∧
      s'.ring.logger = s.ring.logger.put (m % maxLogNum)
        { id := UInt64.ofNat m, waitSend := true } ∧
      s'.calls = s.calls.set (m - 1)
        { id := UInt64.ofNat m, startTime := 0, endTime := some 0 } := by
  have hopen : s.open? (m - 1) = some { id := UInt64.ofNat m, startTime := 0 } :=
    open?_eq_some.mpr ⟨h.calls m hlo hhi, rfl⟩
  have hslot : slot (UInt64.ofNat m) = m % maxLogNum := by
    rw [slot, toNat_ofNat hbound]
  refine ⟨s.finish (m - 1) { id := UInt64.ofNat m, startTime := 0 } 0, ?_, ?_, rfl⟩
  · rw [step, hopen]
    rfl
  · show s.ring.logger.endServiceCall (UInt64.ofNat m) 0 = _
    rw [FibpLogger.endServiceCall, if_neg (ofNat_ne_zero (by omega) hbound), hslot,
      h.busy m hlo hhi]

/-- The call with the sender's number ends, and the sender takes its log. -/
theorem Busy.drain (h : Busy lo hi s) (hnext : s.ring.logger.nextSend.toNat = lo + 1)
    (hlt : lo < hi) (hhi : hi ≤ lo + maxLogNum) (hbound : hi + 1 < 2 ^ 64) :
    ∃ s', run step s [.finish lo 0, .send] = some s' ∧ Busy (lo + 1) hi s' ∧
      s'.ring.logger.nextSend.toNat = lo + 2 ∧
      s'.ring.logger.autoIncId = s.ring.logger.autoIncId := by
  obtain ⟨s₁, hfinish, hlogger, hcalls⟩ :=
    h.finish (m := lo + 1) (by omega) (by omega) (by omega)
  rw [Nat.add_sub_cancel] at hfinish hcalls
  have hslot : slot s₁.ring.logger.nextSend = (lo + 1) % maxLogNum := by
    rw [hlogger, slot]
    exact congrArg (· % maxLogNum) hnext
  have hwait : (s₁.ring.logger.loggedCallList (slot s₁.ring.logger.nextSend)).waitSend = true := by
    rw [hslot, hlogger]
    simp [FibpLogger.put]
  -- the slot of `lo + 1` is empty in the end, the others are as they were
  have hkeep {j : Nat} (hj : j ≠ (lo + 1) % maxLogNum) :
      (s₁.ring.logger.put (slot s₁.ring.logger.nextSend) {}).loggedCallList j =
        s.ring.logger.loggedCallList j := by
    rw [hslot, hlogger]
    simp [FibpLogger.put, hj]
  refine ⟨_, run_cons_eq_some.mpr ⟨s₁, hfinish, run_cons_eq_some.mpr ⟨_, step_send hwait, rfl⟩⟩,
    ⟨fun m hm hle => ?_, fun m hm hle => ?_, fun m hm hle => ?_, ?_⟩, ?_, ?_⟩
  · have hne := mod_maxLogNum_ne hm (show m < lo + 1 + maxLogNum by omega)
    exact (hkeep (Ne.symm hne)).trans (h.busy m (by omega) hle)
  · by_cases hlast : m = lo + 1 + maxLogNum
    · have hmod : m % maxLogNum = (lo + 1) % maxLogNum := by rw [hlast, Nat.add_mod_right]
      simp only [FibpLogger.put, hslot, hmod, if_true]
    · have hne := mod_maxLogNum_ne (show lo + 1 < m by omega) (show m < lo + 1 + maxLogNum by omega)
      exact (hkeep (Ne.symm hne)).trans (h.free m hm (by omega))
  · rw [hcalls, List.getElem?_set_ne (by omega)]
    exact h.calls m (by omega) hle
  · simp only [hcalls, List.length_set, h.length, FibpLogger.put, hlogger]
  · have hnext₁ : s₁.ring.logger.nextSend.toNat = lo + 1 := by
      rw [hlogger]
      exact hnext
    show (s₁.ring.logger.nextSend + 1).toNat = lo + 2
    rw [toNat_succ (by omega), hnext₁]
  · simp only [FibpLogger.put, hlogger]

/-- All the logs of a full ring are taken out. -/
theorem Busy.drains (h : Busy 0 hi s) (hnext : s.ring.logger.nextSend = 1)
    (hhi : hi ≤ maxLogNum) (hbound : hi + 1 < 2 ^ 64) {n : Nat} (hn : n ≤ hi) :
    ∃ s', run step s ((List.range n).flatMap fun k => [.finish k 0, .send]) = some s' ∧
      Busy n hi s' ∧ s'.ring.logger.nextSend.toNat = n + 1 ∧
      s'.ring.logger.autoIncId = s.ring.logger.autoIncId := by
  induction n with
  | zero => exact ⟨s, rfl, h, by rw [hnext]; rfl, rfl⟩
  | succ n ih =>
    obtain ⟨s₁, hrun, hbusy, hnext₁, hauto₁⟩ := ih (by omega)
    obtain ⟨s₂, hrun₂, hbusy₂, hnext₂, hauto₂⟩ :=
      hbusy.drain hnext₁ (by omega) (by omega) hbound
    refine ⟨s₂, ?_, hbusy₂, hnext₂, hauto₂.trans hauto₁⟩
    rw [List.range_succ, List.flatMap_append, List.flatMap_singleton, run_append, hrun]
    exact hrun₂

end Busy

/-- The ring fills, one more start is refused, and the calls end one after the other with the
    sender behind them.  After another round of starts the last call ends. -/
def refusedStart : List Event :=
  List.replicate maxLogNum (Event.start 0) ++ [Event.start 0] ++
    (List.range maxLogNum).flatMap (fun k => [Event.finish k 0, Event.send]) ++
    List.replicate maxLogNum (Event.start 0) ++ [Event.finish (2 * maxLogNum) 0]

/-- **The sender reads another number.** It waits at the refused number `MAX_LOG_NUM + 1`, and
    finds the call with the number `2 * MAX_LOG_NUM + 1`. -/
theorem refusedStart_not_aligned :
    ∃ s, run step {} refusedStart = some s ∧
      s.ring.logger.nextSend = UInt64.ofNat (maxLogNum + 1) ∧
      (s.ring.logger.loggedCallList (slot s.ring.logger.nextSend)).waitSend = true ∧
      (s.ring.logger.loggedCallList (slot s.ring.logger.nextSend)).id =
        UInt64.ofNat (2 * maxLogNum + 1) ∧
      ¬ Aligned s.ring.logger := by
  have hbound : 2 * maxLogNum + 2 < 2 ^ 64 := by decide
  -- the ring fills, and one more start is refused
  obtain ⟨s₁, hrun₁, hbusy₁, hauto₁, hnext₁⟩ :=
    busy_init.starts rfl (le_refl maxLogNum) (by omega)
  obtain ⟨hbusy₂, hauto₂, hnext₂⟩ := hbusy₁.refuse hauto₁ (by omega)
  rw [Nat.zero_add] at hbusy₂ hauto₂
  -- the sender empties it
  obtain ⟨s₃, hrun₃, hbusy₃, hnext₃, hauto₃⟩ :=
    hbusy₂.drains (hnext₂.trans hnext₁) (le_refl maxLogNum) (by omega) (le_refl maxLogNum)
  have hauto₃' : s₃.ring.logger.autoIncId.toNat = maxLogNum + 1 := by rw [hauto₃, hauto₂]
  -- another round of starts, whose last call takes the slot the sender waits for
  obtain ⟨s₄, hrun₄, hbusy₄, -, hnext₄⟩ :=
    hbusy₃.shift.starts hauto₃' (le_refl maxLogNum) (by omega)
  obtain ⟨s₅, hfinish, hlogger, -⟩ :=
    hbusy₄.finish (m := 2 * maxLogNum + 1) (by unfold maxLogNum; omega) (by omega) (by omega)
  rw [Nat.add_sub_cancel] at hfinish
  have hnext₅ : s₅.ring.logger.nextSend = UInt64.ofNat (maxLogNum + 1) := by
    rw [hlogger]
    exact hnext₄.trans (eq_ofNat_of_toNat hnext₃)
  have hslot : slot s₅.ring.logger.nextSend = (2 * maxLogNum + 1) % maxLogNum := by
    rw [hnext₅, slot, toNat_ofNat (by omega)]
    unfold maxLogNum
    rfl
  have hdata : s₅.ring.logger.loggedCallList (slot s₅.ring.logger.nextSend) =
      { id := UInt64.ofNat (2 * maxLogNum + 1), waitSend := true } := by
    rw [hslot, hlogger]
    simp only [FibpLogger.put, if_true]
  refine ⟨s₅, ?_, hnext₅, by rw [hdata], by rw [hdata], fun haligned => ?_⟩
  · have hrun₂ : run step {} (List.replicate maxLogNum (.start 0) ++ [.start 0]) =
        some (s₁.start 0) := run_snoc_eq_some.mpr ⟨s₁, hrun₁, rfl⟩
    rw [refusedStart, run_snoc_eq_some]
    refine ⟨s₄, ?_, hfinish⟩
    rw [run_append, run_append, hrun₂, Option.bind_some, hrun₃, Option.bind_some, hrun₄]
  · obtain ⟨hid, -⟩ := haligned (by rw [hdata])
    rw [hdata, hnext₅] at hid
    have htoNat := congrArg UInt64.toNat hid
    rw [toNat_ofNat (by omega), toNat_ofNat (by omega)] at htoNat
    exact absurd htoNat (by decide)

end FiberProxy.Log
