/-
  FiberProxy.Fiber.Refinement

  The pointer code of `FiberManager` does what the lists of `Scheduler` say.
  `Rep m s` relates the two: the ends and the links of `m` hold the two queues of
  `s`, and a fiber outside them points nowhere.

  Each operation on a queue has one specification (`push_spec`, `awakened_spec`,
  `pickNext_spec`, `setReady_spec`, `moveTo_spec`); the calls are composed of these
  (`call_spec`).  A specification says that the operation comes to its end with no
  assertion failed, so along every run of the lists the pointers follow
  (`rep_of_run`).
-/

import FiberProxy.Fiber.Scheduler

namespace FiberProxy.Fiber

open Lib
open scoped List

/-- The pointers of `m` hold the queues of `s`. -/
structure Rep (m : Manager) (s : Sched) : Prop where
  fibers : m.fibers = s.fibers
  created : m.created = s.created
  active : m.active = s.active
  wqueue : m.links.Holds m.wqueue s.wqueue
  rqueue : m.links.Holds m.rqueue s.rqueue
  disjoint : s.wqueue.Disjoint s.rqueue
  attached : ∀ f, m.attached f = true ↔ f ∈ s.wqueue
  detached : ∀ f, f ∉ s.wqueue → f ∉ s.rqueue → m.links.Detached f

/-- The operation comes to its end, with the queues of `s`. -/
def Sim (x : Option Manager) (s : Sched) : Prop := ∃ m, x = some m ∧ Rep m s

theorem Sim.bind {x : Option Manager} {k : Manager → Option Manager} {s s' : Sched}
    (h : Sim x s) (hk : ∀ m, Rep m s → Sim (k m) s') : Sim (x.bind k) s' := by
  obtain ⟨m, rfl, hm⟩ := h
  exact hk m hm

namespace Rep

variable {m : Manager} {s : Sched} {f : Fid}

theorem sim (h : Rep m s) : Sim (some m) s := ⟨m, rfl, h⟩

theorem modify (h : Rep m s) (f : Fid) (g : WorkerFiber → WorkerFiber) :
    Rep (m.modify f g) (s.modify f g) where
  fibers := by simp only [Manager.modify, Sched.modify, h.fibers]
  created := h.created
  active := h.active
  wqueue := h.wqueue
  rqueue := h.rqueue
  disjoint := h.disjoint
  attached := h.attached
  detached := h.detached

/-- The waiting queue is replaced by one with a fiber more; the links of the other
    fibers are as before. -/
theorem insert (h : Rep m s) (hf : f ∉ s.wqueue) (hr : f ∉ s.rqueue) {l : Links Fid}
    {e : Ends Fid} {ws : List Fid} (hholds : l.Holds e ws) (hperm : ws ~ f :: s.wqueue)
    (hsame : ∀ x, x ∉ f :: s.wqueue → l.prev x = m.links.prev x ∧ l.next x = m.links.next x) :
    Rep { m with links := l, wqueue := e, attached := Function.update m.attached f true }
      { s with wqueue := ws } where
  fibers := h.fibers
  created := h.created
  active := h.active
  wqueue := hholds
  rqueue := h.rqueue.frame fun x hx => hsame x fun hmem => by
    rcases List.mem_cons.mp hmem with rfl | hmem
    · exact hr hx
    · exact h.disjoint hmem hx
  disjoint := by
    intro x hx hxr
    rcases List.mem_cons.mp (hperm.mem_iff.mp hx) with rfl | hmem
    · exact hr hxr
    · exact h.disjoint hmem hxr
  attached x := by
    rw [hperm.mem_iff, List.mem_cons]
    by_cases hx : x = f
    · simp [hx]
    · simp [hx, h.attached]
  detached x hx hxr := by
    have hx' : x ∉ f :: s.wqueue := fun hmem => hx (hperm.mem_iff.mpr hmem)
    obtain ⟨hp, hn⟩ := hsame x hx'
    obtain ⟨hp', hn'⟩ := h.detached x (fun hmem => hx' (List.mem_cons_of_mem f hmem)) hxr
    exact ⟨hp.trans hp', hn.trans hn'⟩

/-- The run queue is replaced by one with a fiber more. -/
theorem insertRun (h : Rep m s) (hf : f ∉ s.wqueue) {l : Links Fid} {e : Ends Fid}
    {rs : List Fid} (hholds : l.Holds e rs) (hperm : rs ~ f :: s.rqueue)
    (hsame : ∀ x, x ∉ f :: s.rqueue → l.prev x = m.links.prev x ∧ l.next x = m.links.next x) :
    Rep { m with links := l, rqueue := e } { s with rqueue := rs } where
  fibers := h.fibers
  created := h.created
  active := h.active
  wqueue := h.wqueue.frame fun x hx => hsame x fun hmem => by
    rcases List.mem_cons.mp hmem with rfl | hmem
    · exact hf hx
    · exact h.disjoint hx hmem
  rqueue := hholds
  disjoint := by
    intro x hx hxr
    rcases List.mem_cons.mp (hperm.mem_iff.mp hxr) with rfl | hmem
    · exact hf hx
    · exact h.disjoint hx hmem
  attached := h.attached
  detached x hx hxr := by
    have hx' : x ∉ f :: s.rqueue := fun hmem => hxr (hperm.mem_iff.mpr hmem)
    obtain ⟨hp, hn⟩ := hsame x hx'
    obtain ⟨hp', hn'⟩ := h.detached x hx fun hmem => hx' (List.mem_cons_of_mem f hmem)
    exact ⟨hp.trans hp', hn.trans hn'⟩

/-! ## The run queue -/

theorem awakened_spec (h : Rep m s) (hw : f ∉ s.wqueue) (hr : f ∉ s.rqueue)
    (hstate : (s.fibers f).state = .ready ∨ (s.fibers f).state = .running) :
    Sim (m.awakened f) { s with rqueue := s.rqueue ++ [f] } := by
  obtain ⟨hprev, hnext⟩ := h.detached f hw hr
  have hassert : ¬ ((m.fibers f).state ≠ .ready ∧ (m.fibers f).state ≠ .running) := by
    rw [h.fibers]
    rcases hstate with hstate | hstate <;> simp [hstate]
  have hperm : s.rqueue ++ [f] ~ f :: s.rqueue := List.perm_append_singleton f s.rqueue
  unfold Manager.awakened
  rw [if_neg hassert, if_neg (by simp [hprev, hnext])]
  cases hhead : m.rqueue.head with
  | none =>
    have hholds : m.links.Holds ⟨some f, some f⟩ (s.rqueue ++ [f]) := by
      rw [h.rqueue.eq_nil hhead]
      exact Links.holds_singleton ⟨hprev, hnext⟩
    exact (h.insertRun hw hholds hperm fun _ _ => ⟨rfl, rfl⟩).sim
  | some b =>
    obtain ⟨ys, hys⟩ := h.rqueue.eq_cons hhead
    have hbf : b ≠ f := fun heq => hr (by simp [hys, heq])
    obtain ⟨t, ht⟩ := h.rqueue.exists_tail (by simp [hys])
    obtain ⟨zs, hzs⟩ := h.rqueue.eq_snoc ht
    have hholds := h.rqueue
    rw [hzs] at hholds hr
    have hpush := hholds.pushBack hnext hr
    rw [← hzs] at hpush
    simp only [ht, if_neg hbf]
    refine (h.insertRun hw hpush hperm fun x hx => Links.link_same ?_ ?_).sim
    · rintro rfl
      exact hx (by simp [hzs])
    · rintro rfl
      exact hx List.mem_cons_self

theorem pickNext_nil (h : Rep m s) (hrq : s.rqueue = []) : m.pickNext = (none, m) := by
  have hhead : m.rqueue.head = none := by rw [h.rqueue.head, hrq, List.head?_nil]
  simp only [Manager.pickNext, hhead]

theorem pickNext_spec (h : Rep m s) {rest : List Fid} (hrq : s.rqueue = f :: rest) :
    ∃ m', m.pickNext = (some f, m') ∧ Rep m' { s with rqueue := rest } := by
  have hholds := h.rqueue
  have hdisj := h.disjoint
  have hdetached := h.detached
  rw [hrq] at hholds hdisj hdetached
  have hhead : m.rqueue.head = some f := hholds.head
  refine ⟨{ m with links := (m.links.pop m.rqueue f).1, rqueue := (m.links.pop m.rqueue f).2 },
    by simp only [Manager.pickNext, hhead], ?_⟩
  constructor
  case fibers => exact h.fibers
  case created => exact h.created
  case active => exact h.active
  case wqueue => exact h.wqueue.frame fun x hx => hholds.pop_same (hdisj hx)
  case rqueue => exact hholds.pop
  case disjoint => exact fun x hx hxr => hdisj hx (List.mem_cons_of_mem f hxr)
  case attached => exact h.attached
  case detached =>
    intro x hx hxr
    by_cases hxf : x = f
    · exact hxf ▸ Links.detached_pop ..
    · have hx' : x ∉ f :: rest := by simp [hxf, hxr]
      obtain ⟨hp, hn⟩ := hholds.pop_same hx'
      obtain ⟨hp', hn'⟩ := hdetached x hx hx'
      exact ⟨hp.trans hp', hn.trans hn'⟩

/-! ## The waiting queue -/

theorem unqueue_spec (h : Rep m s) {rest : List Fid} (hwq : s.wqueue = f :: rest) :
    Rep (m.unqueue f) { s.modify f fun w => { w with tp := maxTime } with wqueue := rest } := by
  have hholds := h.wqueue
  have hdisj := h.disjoint
  have hdetached := h.detached
  have hattached := h.attached
  rw [hwq] at hholds hdisj
  simp only [hwq] at hdetached hattached
  have hf : f ∉ rest := (List.nodup_cons.mp hholds.nodup).1
  constructor
  case fibers => simp only [Manager.unqueue, Manager.modify, Sched.modify, h.fibers]
  case created => exact h.created
  case active => exact h.active
  case wqueue => exact hholds.pop
  case rqueue => exact h.rqueue.frame fun x hx => hholds.pop_same fun hmem => hdisj hmem hx
  case disjoint => exact fun x hx hxr => hdisj (List.mem_cons_of_mem f hx) hxr
  case attached =>
    intro x
    by_cases hxf : x = f
    · simp [Manager.unqueue, Manager.modify, hxf, hf]
    · simp [Manager.unqueue, Manager.modify, hxf, hattached]
  case detached =>
    intro x hx hxr
    by_cases hxf : x = f
    · exact hxf ▸ Links.detached_pop ..
    · have hx' : x ∉ f :: rest := by simpa [hxf] using hx
      obtain ⟨hp, hn⟩ := hholds.pop_same hx'
      obtain ⟨hp', hn'⟩ := hdetached x hx' hxr
      exact ⟨hp.trans hp', hn.trans hn'⟩

/-- The test of the loop of `push` compares the ranks. -/
theorem rank_le_iff {item : Fid} (hitem : (s.fibers item).state ≠ .ready) :
    s.rank item ≤ s.rank f ↔
      (s.fibers f).state ≠ .ready ∧ (s.fibers item).tp ≤ (s.fibers f).tp := by
  unfold Sched.rank
  rw [if_neg hitem]
  split
  · rename_i hf
    simp [hf]
  · rename_i hf
    simp [hf]

/-- The loop of `push` puts the item where the ordered list has it. -/
theorem pushTimed_spec (before : List Fid) (hfib : m.fibers = s.fibers) {item : Fid}
    (hitem : (s.fibers item).state ≠ .ready) (hdet : m.links.Detached item)
    {after : List Fid} {n : Nat} (hn : after.length < n)
    (h : m.links.Holds m.wqueue (before ++ f :: after)) (hnot : item ∉ before ++ f :: after) :
    ∃ l e, m.pushTimed item n before.getLast? f = some { m with links := l, wqueue := e } ∧
      l.Holds e (before ++ (f :: after).orderedInsert (fun a b => s.rank a ≤ s.rank b) item) ∧
      ∀ x, x ∉ item :: (before ++ f :: after) →
        l.prev x = m.links.prev x ∧ l.next x = m.links.next x := by
  induction n generalizing before after f with
  | zero => exact absurd hn (Nat.not_lt_zero _)
  | succ n ih =>
    by_cases hrank : s.rank item ≤ s.rank f
    · have htest := (rank_le_iff hitem).mp hrank
      rw [← hfib] at htest
      rw [List.orderedInsert_cons, if_pos hrank]
      rcases List.eq_nil_or_concat before with rfl | ⟨before, p, rfl⟩
      · -- in front of the whole queue
        have hhead : m.wqueue.head = some f := h.head
        refine ⟨m.links.link item f, { m.wqueue with head := some item }, ?_,
          h.pushFront hdet.1 hnot, fun x hx => Links.link_same ?_ ?_⟩
        · simp [Manager.pushTimed, htest, hhead]
        · rintro rfl
          exact hx List.mem_cons_self
        · rintro rfl
          exact hx (by simp)
      · -- between two fibers
        have hhead : m.wqueue.head ≠ some f := h.head_ne (by simp)
        have hsplit : before.concat p ++ f :: after = before ++ p :: f :: after := by simp
        have hinsert : ((m.links.link item f).link p item).Holds m.wqueue
            (before.concat p ++ item :: f :: after) := by
          rw [hsplit] at h hnot
          simpa using h.insert hnot
        refine ⟨(m.links.link item f).link p item, m.wqueue, ?_, hinsert, fun x hx => ?_⟩
        · simp [Manager.pushTimed, htest, hhead]
        · have hxi : x ≠ item := fun heq => hx (by simp [heq])
          obtain ⟨hp, hn'⟩ := Links.link_same (l := m.links) (b := f) hxi
            fun heq => hx (by simp [heq])
          obtain ⟨hp', hn''⟩ := Links.link_same (l := m.links.link item f) (a := p) (b := item)
            (fun heq => hx (by simp [heq])) hxi
          exact ⟨hp'.trans hp, hn''.trans hn'⟩
    · have htest := mt (rank_le_iff hitem).mpr hrank
      rw [← hfib] at htest
      rw [List.orderedInsert_cons, if_neg hrank]
      cases after with
      | nil =>
        -- at the end
        have htail : m.wqueue.tail = some f := by simp [h.tail]
        have hnext : m.links.next f = none := h.next
        refine ⟨m.links.link f item, { m.wqueue with tail := some item }, ?_, ?_,
          fun x hx => Links.link_same ?_ ?_⟩
        · simp [Manager.pushTimed, htest, htail, hnext]
        · simpa using h.pushBack hdet.2 hnot
        · rintro rfl
          exact hx (by simp)
        · rintro rfl
          exact hx List.mem_cons_self
      | cons g after =>
        have htail : m.wqueue.tail ≠ some f := h.tail_ne (by simp)
        have hnext : m.links.next f = some g := h.next
        have hsplit : before ++ f :: g :: after = (before ++ [f]) ++ g :: after := by simp
        rw [hsplit] at h hnot
        obtain ⟨l, e, hl, hholds, hsame⟩ := ih _ (by simpa using hn) h hnot
        refine ⟨l, e, ?_, by simpa using hholds, by simpa using hsame⟩
        simpa [Manager.pushTimed, htest, htail, hnext] using hl

theorem push_spec (h : Rep m s) (hw : f ∉ s.wqueue) (hr : f ∉ s.rqueue)
    (hlen : s.wqueue.length ≤ s.created) :
    Sim (m.push f) { s with wqueue := s.enqueue f } := by
  have hdet := h.detached f hw hr
  have hatt : ¬ m.attached f = true := mt (h.attached f).mp hw
  have hperm := s.enqueue_perm f
  cases hhead : m.wqueue.head with
  | none =>
    have henq : s.enqueue f = [f] := by
      rw [h.wqueue.eq_nil hhead] at hperm
      exact List.perm_singleton.mp hperm
    have hholds : m.links.Holds ⟨some f, some f⟩ (s.enqueue f) :=
      henq ▸ Links.holds_singleton hdet
    refine ⟨_, ?_, h.insert hw hr hholds hperm fun _ _ => ⟨rfl, rfl⟩⟩
    simp [Manager.push, hdet.1, hdet.2, hatt, hhead]
  | some b =>
    obtain ⟨ys, hys⟩ := h.wqueue.eq_cons hhead
    have hbf : b ≠ f := fun heq => hw (by simp [hys, heq])
    have hbw : b ∈ s.wqueue := by simp [hys]
    by_cases hready : (m.fibers f).state = .ready
    · have hholds := h.wqueue
      rw [hys] at hholds
      have hfront := hholds.pushFront hdet.1 (hys ▸ hw)
      have henq : s.enqueue f = f :: b :: ys := by
        rw [h.fibers] at hready
        rw [Sched.enqueue, if_pos hready, hys]
      rw [← henq] at hfront
      refine ⟨_, ?_, h.insert hw hr hfront hperm fun x hx => Links.link_same ?_ ?_⟩
      · simp [Manager.push, hdet.1, hdet.2, hatt, hhead, hbf, hready]
      · rintro rfl
        exact hx List.mem_cons_self
      · rintro rfl
        exact hx (List.mem_cons_of_mem f hbw)
    · by_cases htp : (m.fibers f).tp = maxTime
      · obtain ⟨t, ht⟩ := h.wqueue.exists_tail (by simp [hys])
        obtain ⟨zs, hzs⟩ := h.wqueue.eq_snoc ht
        have hholds := h.wqueue
        rw [hzs] at hholds
        have hback := hholds.pushBack hdet.2 (hzs ▸ hw)
        have henq : s.enqueue f = s.wqueue ++ [f] := by
          rw [h.fibers] at hready htp
          rw [Sched.enqueue, if_neg hready, if_pos htp]
        rw [← hzs, ← henq] at hback
        refine ⟨_, ?_, h.insert hw hr hback hperm fun x hx => Links.link_same ?_ ?_⟩
        · simp [Manager.push, hdet.1, hdet.2, hatt, hhead, hbf, hready, htp, ht]
        · rintro rfl
          exact hx (by simp [hzs])
        · rintro rfl
          exact hx List.mem_cons_self
      · -- the walk through the queue
        have hlen' : ys.length < m.created := by
          rw [h.created]
          rw [hys, List.length_cons] at hlen
          omega
        have hholds := h.wqueue
        rw [hys] at hholds
        obtain ⟨l, e, hl, hlholds, hsame⟩ := pushTimed_spec (s := s)
          (m := { m with attached := Function.update m.attached f true }) [] h.fibers
          (h.fibers ▸ hready) hdet hlen' hholds (hys ▸ hw)
        have henq : s.enqueue f
            = (b :: ys).orderedInsert (fun a c => s.rank a ≤ s.rank c) f := by
          rw [h.fibers] at hready htp
          rw [Sched.enqueue, if_neg hready, if_neg htp, hys]
        rw [List.nil_append, ← henq] at hlholds
        rw [List.nil_append, ← hys] at hsame
        refine ⟨_, ?_, h.insert hw hr hlholds hperm hsame⟩
        simpa [Manager.push, hdet.1, hdet.2, hatt, hhead, hbf, hready, htp] using hl

/-- The waiting queue is rearranged; the links of the other fibers are as before. -/
theorem rearrange (h : Rep m s) {l : Links Fid} {e : Ends Fid} {ws : List Fid}
    (hholds : l.Holds e ws) (hperm : ws ~ s.wqueue)
    (hsame : ∀ x, x ∉ s.wqueue → l.prev x = m.links.prev x ∧ l.next x = m.links.next x) :
    Rep { m with links := l, wqueue := e } { s with wqueue := ws } where
  fibers := h.fibers
  created := h.created
  active := h.active
  wqueue := hholds
  rqueue := h.rqueue.frame fun x hx => hsame x fun hmem => h.disjoint hmem hx
  disjoint := fun _ hx => h.disjoint (hperm.mem_iff.mp hx)
  attached x := (h.attached x).trans hperm.mem_iff.symm
  detached x hx hxr := by
    have hx' : x ∉ s.wqueue := fun hmem => hx (hperm.mem_iff.mpr hmem)
    obtain ⟨hp, hn⟩ := hsame x hx'
    obtain ⟨hp', hn'⟩ := h.detached x hx' hxr
    exact ⟨hp.trans hp', hn.trans hn'⟩

theorem moveToRun_spec (h : Rep m s) (hstate : (s.fibers f).state ≠ .running) :
    Sim (m.moveToRun f)
      { s with wqueue := if f ∈ s.wqueue then f :: s.wqueue.erase f else s.wqueue } := by
  rw [← h.fibers] at hstate
  by_cases hw : f ∈ s.wqueue
  · rw [if_pos hw]
    have hatt : m.attached f = true := (h.attached f).mpr hw
    obtain ⟨before, after, hsplit⟩ := List.append_of_mem hw
    have hholds := h.wqueue
    rw [hsplit] at hholds
    have hprev := hholds.prev
    have hnext := hholds.next
    have hfb : f ∉ before := fun hmem => by
      have := (List.nodup_append.mp hholds.nodup).2.2 f hmem f List.mem_cons_self
      exact this rfl
    have herase : s.wqueue.erase f = before ++ after := by
      rw [hsplit, List.erase_append_right _ hfb, List.erase_cons_head]
    rcases List.eq_nil_or_concat before with rfl | ⟨before, p, rfl⟩
    · -- the first fiber stays where it is
      refine ⟨m, by simp [Manager.moveToRun, hstate, hprev], ?_⟩
      rw [herase, List.nil_append, ← List.nil_append (f :: after), ← hsplit]
      exact h
    · have hmid : before.concat p ++ f :: after = before ++ p :: f :: after := by simp
      rw [hmid] at hholds
      obtain ⟨b, hhead⟩ := hholds.exists_head (by simp)
      have hlast : m.links.prev f = some p := by simpa using hprev
      have hfront := hholds.toFront hhead
      rw [herase]
      refine ⟨{ m with
        links := (m.links.toFront m.wqueue f p b).1
        wqueue := (m.links.toFront m.wqueue f p b).2 }, ?_, h.rearrange ?_ ?_ fun x hx => ?_⟩
      · simp [Manager.moveToRun, hstate, hlast, hatt, hhead]
      · simpa using hfront
      · rw [hsplit]
        exact List.perm_middle.symm
      · exact hholds.toFront_same hhead (by rwa [← hmid, ← hsplit])
  · rw [if_neg hw]
    have hatt : m.attached f = false := Bool.eq_false_iff.mpr (mt (h.attached f).mp hw)
    refine ⟨m, ?_, h⟩
    cases hprev : m.links.prev f with
    | none => simp [Manager.moveToRun, hstate, hprev]
    | some p => simp [Manager.moveToRun, hstate, hprev, hatt]

theorem setReady_spec (h : Rep m s) (hstate : (s.fibers f).state ≠ .terminated) :
    Sim (m.setReady f) (s.wake f) := by
  rw [← h.fibers] at hstate
  rw [Manager.setReady, if_neg hstate]
  exact (h.modify f fun w => { w with state := .ready }).moveToRun_spec (by simp)

/-- `fetch_ready` of the first fiber: it stays the first one, and is ready if it was due. -/
theorem fetchReady_spec (h : Rep m s) (now : Nat) {rest : List Fid} (hwq : s.wqueue = f :: rest)
    (hstate : (s.fibers f).state = .ready ∨ (s.fibers f).state = .waiting) :
    ∃ m', m.fetchReady f now = some (s.due now f, m') ∧
      Rep m' (if s.due now f then s.modify f fun w => { w with state := .ready } else s) := by
  have hassert : ¬ ((m.fibers f).state = .running ∨ (m.fibers f).state = .terminated) := by
    rw [h.fibers]
    rcases hstate with hstate | hstate <;> simp [hstate]
  by_cases htime : (m.fibers f).tp ≤ now ∨ (m.fibers f).interruptionRequested = true
  · have hdue : s.due now f = true := by
      rw [h.fibers] at htime
      rcases htime with htime | htime <;> simp [Sched.due, htime]
    obtain ⟨m', hm', hrep⟩ := h.setReady_spec (f := f) (by
      rcases hstate with hstate | hstate <;> simp [hstate])
    have hwake : s.wake f = s.modify f fun w => { w with state := .ready } := by
      simp [Sched.wake, Sched.modify, hwq]
    refine ⟨m', ?_, by rwa [if_pos hdue, ← hwake]⟩
    have hready : (m'.fibers f).state = .ready := by
      rw [hrep.fibers, Sched.wake_fibers_self]
    simp [Manager.fetchReady, hassert, htime, hm', hready, hdue]
  · have hdue : s.due now f = decide ((m.fibers f).state = .ready) := by
      rw [h.fibers] at htime ⊢
      simp only [not_or, Bool.not_eq_true] at htime
      simp [Sched.due, htime]
    refine ⟨m, ?_, ?_⟩
    · simp [Manager.fetchReady, hassert, htime, hdue]
    · by_cases hready : (m.fibers f).state = .ready
      · rw [if_pos (by simp [hdue, hready]), Sched.modify_eq_self]
        · exact h
        · rw [← h.fibers, ← hready]
      · rwa [if_neg (by simp [hdue, hready])]

theorem moveTo_spec (now : Nat) (h : Rep m s)
    (hstate : ∀ x ∈ s.wqueue, (s.fibers x).state = .ready ∨ (s.fibers x).state = .waiting)
    {n : Nat} (hn : s.wqueue.length ≤ n) :
    Sim (m.moveTo now n s.wqueue.head?) (s.moveTo now) := by
  induction hwq : s.wqueue generalizing m s n with
  | nil =>
    rw [Sched.moveTo_nil hwq]
    cases n <;> exact h.sim
  | cons f rest ih =>
    obtain ⟨hf, hnodup⟩ : f ∉ rest ∧ rest.Nodup := List.nodup_cons.mp (hwq ▸ h.wqueue.nodup)
    obtain ⟨n, rfl⟩ : ∃ k, n = k + 1 := ⟨n - 1, by
      rw [hwq, List.length_cons] at hn
      omega⟩
    have hnext : m.links.next f = rest.head? := by
      have hholds := h.wqueue
      rw [hwq] at hholds
      exact hholds.next_first
    obtain ⟨m₁, hfetch, hrep⟩ :=
      h.fetchReady_spec now hwq (hstate f (by simp [hwq]))
    cases hdue : s.due now f with
    | false =>
      rw [hdue] at hfetch hrep
      rw [Sched.moveTo_of_not_due hwq hdue]
      refine ⟨m₁, ?_, hrep⟩
      simp [Manager.moveTo, hfetch]
    | true =>
      rw [hdue] at hfetch hrep
      rw [Sched.moveTo_of_due hwq hdue hf]
      have hhead : m₁.wqueue.head = some f := by
        rw [hrep.wqueue.head]
        simp [hwq]
      have hshift : Sim ((m₁.unqueue f).awakened f) (s.shift f rest) := by
        have hout := hrep.unqueue_spec (by simpa using hwq)
        have hfr : f ∉ s.rqueue := h.disjoint (by simp [hwq])
        have hawake := hout.awakened_spec (f := f) hf (by simpa using hfr) (by simp)
        simpa [Sched.shift, Sched.modify_modify] using hawake
      have hcall : m.moveTo now (n + 1) (some f)
          = ((m₁.unqueue f).awakened f).bind (Manager.moveTo now n rest.head?) := by
        simp [Manager.moveTo, hfetch, hhead, hnext]
      rw [List.head?_cons, hcall]
      refine hshift.bind fun m₂ hm₂ => ?_
      refine ih hm₂ (fun x hx => ?_) ?_ rfl
      · have hxf : x ≠ f := fun heq => hf (heq ▸ hx)
        have hx' := hstate x (by simp [hwq, show x ∈ rest from hx])
        simpa [Sched.shift, Sched.modify_fibers_of_ne hxf] using hx'
      · rw [hwq, List.length_cons] at hn
        exact Nat.le_of_succ_le_succ hn

/-! ## The calls -/

theorem suspend (h : Rep m s) : Rep m.suspend { s with active := none } :=
  { h with active := rfl }

end Rep

section Calls

variable {m : Manager} {s : Sched} {f : Fid}

theorem length_wqueue_le (h : s.Inv) : s.wqueue.length ≤ s.created := by
  have hnodup : s.wqueue.Nodup := (List.nodup_append.mp (List.nodup_append.mp h.nodup).1).1
  have hsub : s.wqueue ⊆ List.range s.created := fun x hx =>
    List.mem_range.mpr (h.lt_created (by simp [Sched.places, hx]))
  simpa using (List.subperm_of_subset hnodup hsub).length_le

theorem fmSpawn_spec (h : Rep m s) (hinv : s.Inv) : Sim m.fmSpawn s.create := by
  have hout : s.created ∉ s.places := fun hmem => absurd (hinv.lt_created hmem) (lt_irrefl _)
  simp only [Sched.places, List.mem_append, Option.mem_toList, not_or] at hout
  obtain ⟨⟨hw, hr⟩, hact⟩ := hout
  -- the new fiber, in no queue
  have hnew : Rep
      { m with
        created := m.created + 1
        fibers := Function.update m.fibers m.created {}
        links := m.links.detach m.created
        attached := Function.update m.attached m.created false }
      { s with created := s.created + 1, fibers := Function.update s.fibers s.created {} } := by
    rw [h.created, h.fibers]
    have hsame {x : Fid} (hx : x ≠ s.created) := Links.detach_same (l := m.links) hx
    constructor
    case fibers => rfl
    case created => rfl
    case active => exact h.active
    case wqueue => exact h.wqueue.frame fun x hx => hsame fun heq => hw (heq ▸ hx)
    case rqueue => exact h.rqueue.frame fun x hx => hsame fun heq => hr (heq ▸ hx)
    case disjoint => exact h.disjoint
    case attached =>
      intro x
      by_cases hx : x = s.created
      · simp [hx, hw]
      · simp [hx, h.attached]
    case detached =>
      intro x hx hxr
      by_cases hxc : x = s.created
      · simp [hxc]
      · obtain ⟨hp, hn⟩ := hsame hxc
        obtain ⟨hp', hn'⟩ := h.detached x hx hxr
        exact ⟨hp.trans hp', hn.trans hn'⟩
  have hready := (hnew.modify s.created fun w => { w with state := .running }).setReady_spec
    (f := s.created) (by simp)
  unfold Manager.fmSpawn
  rw [h.created] at hready ⊢
  refine hready.bind fun m' hm' => ?_
  have hstate : (m'.fibers s.created).state = .ready := by
    rw [hm'.fibers, Sched.wake_fibers_self]
  have hactive : m'.active ≠ some s.created := by
    rw [hm'.active]
    exact hact
  rw [if_pos ⟨hstate, hactive⟩]
  have hawake := hm'.awakened_spec (f := s.created) (by simp [Sched.wake, hw])
    (by simpa [Sched.wake] using hr) (.inl (hm'.fibers ▸ hstate))
  simpa [Sched.create, Sched.wake, Sched.modify, hw] using hawake

theorem fmRun_spec (h : Rep m s) (hinv : s.Inv) (hact : s.active = none) {now : Nat}
    (hnow : now < maxTime) : Sim (m.fmRun now) (s.moveTo now).resume := by
  have hmove := h.moveTo_spec now hinv.queued (n := m.created) (by
    rw [h.created]
    exact length_wqueue_le hinv)
  have hinv' := hinv.moveTo hnow
  unfold Manager.fmRun
  rw [if_neg (by simp [h.active, hact]), h.wqueue.head]
  refine hmove.bind fun m' hm' => ?_
  cases hrq : (s.moveTo now).rqueue with
  | nil =>
    rw [hm'.pickNext_nil hrq, Sched.resume, hrq]
    exact hm'.sim
  | cons f rest =>
    obtain ⟨m'', hpick, hm''⟩ := hm'.pickNext_spec hrq
    have hready : (m''.fibers f).state = .ready := by
      rw [hm''.fibers]
      exact hinv'.ready f (by simp [hrq])
    have hactive : m''.active = none := by
      rw [hm''.active]
      exact hact
    have hresume : m''.resume f
        = some { m''.setState f .running with active := some f } := by
      simp [Manager.resume, hactive, hready]
    simp only [hpick, hresume, Sched.resume, hrq]
    exact ⟨_, rfl, { hm''.modify f fun w => { w with state := .running } with active := rfl }⟩

/-- The active fiber goes to the waiting queue; it is not suspended yet. -/
theorem push_active_spec (h : Rep m s) (hinv : s.Inv) (hf : s.active = some f) (st : FiberState)
    (t : Nat) : Sim ((m.modify f fun w => { w with state := st, tp := t }).push f)
      { s.park f st t with active := some f } := by
  obtain ⟨hw, hr⟩ := hinv.not_mem_of_active hf
  have hpush := (h.modify f fun w => { w with state := st, tp := t }).push_spec hw hr
    (by simpa using length_wqueue_le hinv)
  simpa [Sched.park, hf] using hpush

/-- The active fiber waits for no time, so that one without a time keeps its `tp_`. -/
theorem setState_active (h : Rep m s) (hinv : s.Inv) (hf : s.active = some f) (st : FiberState) :
    m.setState f st = m.modify f fun w => { w with state := st, tp := maxTime } := by
  have htp : (m.fibers f).tp = maxTime := by
    rw [h.fibers]
    exact hinv.tp_eq f (hinv.not_mem_of_active hf).1
  simp [Manager.setState, Manager.modify, ← htp]

/-- The active fiber is in no queue, so that making it ready only sets its state. -/
theorem setReady_active (h : Rep m s) (hinv : s.Inv) (hf : s.active = some f) :
    m.setReady f = some (m.setState f .ready) := by
  obtain ⟨hw, hr⟩ := hinv.not_mem_of_active hf
  have hprev : m.links.prev f = none := (h.detached f hw hr).1
  have hrun : (m.fibers f).state = .running := h.fibers ▸ hinv.running f hf
  simp [Manager.setReady, Manager.moveToRun, hrun, hprev, Manager.setState, Manager.modify]

theorem Sim.suspend {x : Option Manager} (h : Sim x s) :
    Sim (x.map Manager.suspend) { s with active := none } := by
  obtain ⟨m, rfl, hm⟩ := h
  exact ⟨m.suspend, rfl, hm.suspend⟩

theorem foldl_wake_active (ps : List Fid) (s : Sched) (a : Option Fid) :
    { ps.foldl Sched.wake s with active := a } = ps.foldl Sched.wake { s with active := a } := by
  induction ps generalizing s with
  | nil => rfl
  | cons p ps ih => exact ih (s.wake p)

theorem foldlM_setReady_spec (ps : List Fid) (h : Rep m s)
    (hps : ∀ p ∈ ps, (s.fibers p).state ≠ .terminated) :
    Sim (ps.foldlM Manager.setReady m) (ps.foldl Sched.wake s) := by
  induction ps generalizing m s with
  | nil => exact h.sim
  | cons p ps ih =>
    rw [List.foldlM_cons, List.foldl_cons]
    refine (h.setReady_spec (hps p List.mem_cons_self)).bind fun m' hm' => ?_
    refine ih hm' fun q hq => ?_
    by_cases hqp : q = p
    · simp [hqp, Sched.wake_fibers_self]
    · rw [Sched.wake_fibers_of_ne hqp]
      exact hps q (List.mem_cons_of_mem p hq)

theorem call_spec (h : Rep m s) (hinv : s.Inv) {c : Call} {s' : Sched}
    (hstep : s.step c = some s') : Sim (m.call c) s' := by
  have hrun {f : Fid} (hf : s.active = some f) : (m.fibers f).state = .running :=
    h.fibers ▸ hinv.running f hf
  cases Sched.stepped_of_step hstep with
  | spawned => exact fmSpawn_spec h hinv
  | ran hact hnow => exact fmRun_spec h hinv hact hnow
  | waited hf ht =>
    simp only [Manager.call, Manager.fmWaitUntil, h.active, hf, Option.bind_some,
      if_pos (hrun hf)]
    exact (push_active_spec h hinv hf .waiting _).suspend
  | yielded hf =>
    simp only [Manager.call, Manager.fmYield, h.active, hf, Option.bind_some, if_pos (hrun hf),
      setReady_active h hinv hf, setState_active h hinv hf]
    exact (push_active_spec h hinv hf .ready maxTime).suspend
  | joinedEnded hf hgf hg hended =>
    rename_i f g
    simp only [Manager.call, Manager.fmJoin, h.active, hf, Option.bind_some,
      if_neg (show ¬ (g = f ∨ (m.fibers f).state ≠ .running) by simp [hgf, hrun hf]),
      setState_active h hinv hf]
    refine (push_active_spec h hinv hf .waiting maxTime).bind fun m' hm' => ?_
    have hstate : (m'.fibers g).state = .terminated := by
      rw [hm'.fibers]
      simpa [Sched.park_fibers_of_ne hgf] using hended
    rw [if_pos hstate]
    refine (hm'.setReady_spec (f := f) ?_).suspend
    simp [Sched.park_fibers_self]
  | joined hf hgf hg hlive hflag =>
    rename_i f g
    simp only [Manager.call, Manager.fmJoin, h.active, hf, Option.bind_some,
      if_neg (show ¬ (g = f ∨ (m.fibers f).state ≠ .running) by simp [hgf, hrun hf]),
      setState_active h hinv hf]
    refine (push_active_spec h hinv hf .waiting maxTime).bind fun m' hm' => ?_
    have hstate : (m'.fibers g).state ≠ .terminated := by
      rw [hm'.fibers]
      simpa [Sched.park_fibers_of_ne hgf] using hlive
    rw [if_neg hstate]
    exact (hm'.modify g fun w => { w with waiting := w.waiting ++ [f] }).suspend.sim
  | woken hf => exact h.setReady_spec hf.2.1
  | interrupted hf =>
    refine (h.modify _ fun w => { w with interruptionRequested := true }).setReady_spec ?_
    simpa using hf.2.1
  | took hf =>
    simp only [Manager.call, h.active, hf, Option.map_some]
    exact (h.modify _ fun w => { w with interruptionRequested := false }).sim
  | finished hf =>
    rename_i f
    have hw := (hinv.not_mem_of_active hf).1
    simp only [Manager.call, Manager.terminate, h.active, hf, Option.bind_some,
      if_pos (hrun hf)]
    have hfold := foldlM_setReady_spec (m.fibers f).waiting
      (h.modify f fun w => { w with state := .terminated, waiting := [] }) fun p hp => ?_
    · have hsusp := hfold.suspend
      rw [foldl_wake_active, h.fibers] at hsusp
      rw [h.fibers]
      exact hsusp
    · -- a joiner is another fiber, and it waits
      rw [h.fibers] at hp
      obtain ⟨-, hpw, hps, -, -⟩ := hinv.joining.waits f p hp
      have hpf : p ≠ f := fun heq => hw (heq ▸ hpw)
      rw [Sched.modify_fibers_of_ne hpf, hps]
      simp

end Calls

theorem rep_init : Rep {} {} where
  fibers := rfl
  created := rfl
  active := rfl
  wqueue := Links.holds_nil _
  rqueue := Links.holds_nil _
  disjoint := by simp
  attached := by simp
  detached := fun _ _ _ => ⟨rfl, rfl⟩

/-- From related states the pointer code makes every run of the scheduler. -/
theorem Rep.run {m : Manager} {s t : Sched} {cs : List Call} (h : Rep m s) (hinv : s.Inv)
    (hrun : run Sched.step s cs = some t) : ∃ m', run Manager.call m cs = some m' ∧ Rep m' t := by
  induction cs generalizing m s with
  | nil =>
    obtain rfl : s = t := by simpa using hrun
    exact ⟨m, rfl, h⟩
  | cons c cs ih =>
    obtain ⟨s', hstep, hcs⟩ := run_cons_eq_some.mp hrun
    obtain ⟨m', hm', h'⟩ := call_spec h hinv hstep
    obtain ⟨m'', hm'', h''⟩ := ih h' (hinv.step hstep) hcs
    exact ⟨m'', run_cons_eq_some.mpr ⟨m', hm', hm''⟩, h''⟩

/-- **The pointers follow the lists.** Along every run of the scheduler the pointer code
    comes through with no assertion failed, and holds the same queues. -/
theorem rep_of_run {cs : List Call} {s : Sched} (hrun : run Sched.step {} cs = some s) :
    ∃ m, run Manager.call {} cs = some m ∧ Rep m s :=
  rep_init.run .init hrun

theorem rep_of_run_two :
    ∃ s m, run Sched.step {} [.spawn, .spawn, .run 0, .waitUntil 5] = some s ∧
      run Manager.call {} [.spawn, .spawn, .run 0, .waitUntil 5] = some m ∧ Rep m s := by
  have hsome : (run Sched.step {} [.spawn, .spawn, .run 0, .waitUntil 5]).isSome = true := by
    decide +kernel
  obtain ⟨s, hs⟩ := Option.isSome_iff_exists.mp hsome
  obtain ⟨m, hm, hrep⟩ := rep_of_run hs
  exact ⟨s, m, hs, hm, hrep⟩

end FiberProxy.Fiber
