/-
  FiberProxy.Client.FutureTable

  What `future_list_` holds.  An entry is made by `send_request` and taken out by
  the response, by the reader's failure and by a send that failed.  In every run an
  entry is the pending future of the call that made it.  The wait of `getRsp` takes
  nothing out: when its timer ends it, the entry stays behind.
-/

import FiberProxy.Client.Correlation

namespace FiberProxy.Client

open Lib

/-- Every entry is the pending future of a call with that id. -/
def Owned (s : MuxClient) : Prop :=
  ∀ id k, s.futureList id = some k →
    ∃ c, s.calls[k]? = some c ∧ c.id = id ∧ c.future.done = false

/-- Every entry belongs to a call that is still in `send_request` or in `get_response`. -/
def Tidy (s : MuxClient) : Prop :=
  ∀ id k, s.futureList id = some k → ∃ c, s.calls[k]? = some c ∧ c.id = id ∧ c.phase.live = true

/-- A listed call leaves its wait only when its future is completed. -/
def WaitsForFuture (s : MuxClient) : Event → Prop
  | .resume k => ∀ c, s.calls[k]? = some c → s.futureList c.id = some k → c.future.done = true
  | _ => True

instance (s : MuxClient) (e : Event) : Decidable (WaitsForFuture s e) :=
  match e with
  | .resume k =>
    decidable_of_iff
      (∀ c ∈ s.calls[k]?, s.futureList c.id = some k → c.future.done = true) <| by
        simp [WaitsForFuture]
  | .send .. | .proceed _ | .connected .. | .writeSome .. | .writeDone _ | .writeFail _
  | .frame .. | .readerFail _ => .isTrue trivial

/-! ## One step -/

theorem owned_init : Owned {} := by
  intro id k h
  simp at h

theorem tidy_init : Tidy {} := by
  intro id k h
  simp at h

/-- An entry after `set_response` is another entry, and its call is as it was. -/
theorem Owned.setResponse {s : MuxClient} (h : Owned s) {id : UInt32} {rsp : Bytes}
    {isSuccess canRetry : Bool} {i : UInt32} {k : Nat}
    (hi : (s.setResponse id rsp isSuccess canRetry).futureList i = some k) :
    s.futureList i = some k ∧
      (s.setResponse id rsp isSuccess canRetry).calls[k]? = s.calls[k]? := by
  have hne : i ≠ id := by
    rintro rfl
    simp [MuxClient.setResponse] at hi
  have hi' : s.futureList i = some k := by
    simpa [MuxClient.setResponse, Function.update_of_ne hne] using hi
  refine ⟨hi', ?_⟩
  unfold MuxClient.setResponse
  cases hid : s.futureList id with
  | none => rfl
  | some j =>
    -- one call has one id, so the entries are of two calls
    have hjk : j ≠ k := by
      rintro rfl
      obtain ⟨c, hc, rfl, -⟩ := h i j hi'
      obtain ⟨d, hd, rfl, -⟩ := h id j hid
      obtain rfl : c = d := Option.some.inj (hc.symm.trans hd)
      exact hne rfl
    simp only [List.getElem?_modify, if_neg hjk, Option.map_eq_map, Option.map_id']

/-- The entries after `send_request` has listed its future. -/
theorem listed_send {s : MuxClient} {frame : Bytes} {i : UInt32} {k : Nat}
    (hi : Function.update s.futureList (s.fid + 1) (some s.calls.length) i = some k) :
    (i = s.fid + 1 ∧ (s.calls ++ [{ id := s.fid + 1, frame := frame }])[k]? =
      some { id := s.fid + 1, frame := frame }) ∨ s.futureList i = some k := by
  by_cases hid : i = s.fid + 1
  · subst hid
    obtain rfl : s.calls.length = k := by simpa using hi
    exact .inl ⟨rfl, List.getElem?_concat_length⟩
  · rw [Function.update_of_ne hid] at hi
    exact .inr hi

/-- The `k`-th call moves on and perhaps unlists its id: the entries keep what they have
    when `Q` does not depend on the place of the call. -/
theorem entries_of_moved {s s' : MuxClient} {k : Nat} {c : Call} {phase : Phase}
    {Q : Call → Prop}
    (h : ∀ id j, s.futureList id = some j → ∃ d, s.calls[j]? = some d ∧ d.id = id ∧ Q d)
    (hk : s.calls[k]? = some c) (hcalls : s'.calls = (s.setPhase k c phase).calls)
    (hlist : ∀ id j, s'.futureList id = some j → s.futureList id = some j)
    (hQ : s'.futureList c.id = some k → Q c → Q { c with phase := phase }) :
    ∀ id j, s'.futureList id = some j → ∃ d, s'.calls[j]? = some d ∧ d.id = id ∧ Q d := by
  intro id j hj
  obtain ⟨d, hd, rfl, hq⟩ := h id j (hlist id j hj)
  rw [hcalls]
  by_cases hjk : j = k
  · subst hjk
    obtain rfl : c = d := Option.some.inj (hk.symm.trans hd)
    exact ⟨_, List.getElem?_set_self (List.getElem?_eq_some_iff.mp hk).1, rfl, hQ hj hq⟩
  · refine ⟨d, ?_, rfl, hq⟩
    rw [← hd]
    exact List.getElem?_set_ne (Ne.symm hjk)

theorem listed_of_sendFailed (s : MuxClient) (k : Nat) (c : Call) (id : UInt32) (j : Nat)
    (h : (s.sendFailed k c).futureList id = some j) : s.futureList id = some j := by
  rcases sendFailed_futureList s k c id with hkeep | ⟨-, -, hnone⟩
  · rw [← hkeep, h]
  · rw [hnone] at h
    simp at h

variable {kind : Kind}

/-- Every step keeps it: what completes a future takes its entry out. -/
theorem Owned.step {s s' : MuxClient} {e : Event} (h : Owned s) (hs : StepsTo kind s e s') :
    Owned s' := by
  cases hs with
  | send path reqdata =>
    intro id k hk
    rcases listed_send hk with ⟨rfl, hc⟩ | hold
    · exact ⟨_, hc, rfl, rfl⟩
    · obtain ⟨c, hc, hid, hf⟩ := h id k hold
      exact ⟨c, getElem?_snoc_of_some hc, hid, hf⟩
  | frame id rsp isSuccess hr =>
    intro i k hk
    obtain ⟨hold, hc⟩ := h.setResponse hk
    rw [hc]
    exact h i k hold
  | readerFail errinfo hr =>
    intro id k hk
    simp [MuxClient.setAllError] at hk
  | write hk hp | connect hk hp | connected hk hp | resolveFailed hk hp | writeSome hk hp
  | writeDone hk hp | resume hk hp =>
    exact entries_of_moved h hk rfl (fun _ _ hj => hj) fun _ hf => hf
  | @connectFailed k c hk hp | @writeFail k _ _ c hk hp =>
    exact entries_of_moved h hk rfl (listed_of_sendFailed s k c) fun _ hf => hf

theorem owned_of_run {s t : MuxClient} {es : List Event} (hs : Owned s)
    (hrun : run (step kind) s es = some t) : Owned t :=
  run_inv (fun _ _ _ h he => h.step (stepsTo_of_step he)) hs hrun

/-- A step leaves a call's entry behind exactly when it is the end of a wait whose future
    is not completed. -/
theorem Tidy.step_iff {s s' : MuxClient} {e : Event} (ho : Owned s) (h : Tidy s)
    (hs : StepsTo kind s e s') : Tidy s' ↔ WaitsForFuture s e := by
  cases hs with
  | send path reqdata =>
    refine iff_of_true (fun id k hk => ?_) trivial
    rcases listed_send hk with ⟨rfl, hc⟩ | hold
    · exact ⟨_, hc, rfl, rfl⟩
    · obtain ⟨c, hc, hid, hl⟩ := h id k hold
      exact ⟨c, getElem?_snoc_of_some hc, hid, hl⟩
  | frame id rsp isSuccess hr =>
    refine iff_of_true (fun i k hk => ?_) trivial
    obtain ⟨hold, hc⟩ := ho.setResponse hk
    rw [hc]
    exact h i k hold
  | readerFail errinfo hr =>
    refine iff_of_true (fun id k hk => ?_) trivial
    simp [MuxClient.setAllError] at hk
  | write hk hp | connect hk hp | connected hk hp | resolveFailed hk hp | writeSome hk hp
  | writeDone hk hp =>
    exact iff_of_true
      (entries_of_moved h hk rfl (fun _ _ hj => hj) fun _ _ => rfl) trivial
  | @connectFailed k c hk hp | @writeFail k _ _ c hk hp =>
    refine iff_of_true (entries_of_moved h hk rfl (listed_of_sendFailed s k c) ?_) trivial
    intro hj
    simp [MuxClient.sendFailed] at hj
  | @resume k c hk hp =>
    constructor
    · intro ht c' hc' hlisted
      -- the entry would be one of a call that has returned
      obtain rfl : c = c' := Option.some.inj (hk.symm.trans hc')
      obtain ⟨d, hd, -, hl⟩ := ht c.id k hlisted
      rcases getElem?_set_eq_some hd with ⟨-, rfl⟩ | ⟨hne, -⟩
      · simp [Phase.live] at hl
      · exact absurd rfl hne
    · intro hw
      refine entries_of_moved h hk rfl (fun _ _ hj => hj) fun hlisted _ => ?_
      obtain ⟨d, hd, -, hf⟩ := ho c.id k hlisted
      obtain rfl : c = d := Option.some.inj (hk.symm.trans hd)
      have := hw c hk hlisted
      simp [hf] at this

/-! ## Every run -/

/-- **The table does not leak, exactly.** In every run the entries of `future_list_` belong
    to calls under way, in every state, exactly when no wait of a listed call is ended by
    its timer. -/
theorem tidy_iff {es : List Event} {t : MuxClient} (hrun : run (step kind) {} es = some t) :
    Throughout (step kind) Tidy {} es ↔ Along (step kind) WaitsForFuture {} es :=
  throughout_iff_along (fun _ _ _ h he => h.step (stepsTo_of_step he))
    (fun _ _ _ ho h he => h.step_iff ho (stepsTo_of_step he)) owned_init tidy_init hrun

/-- A call that is answered before it returns. -/
def answeredRun : List Event :=
  [.send [] [97], .proceed 0, .connected 0 .ok, .writeSome 0 9, .writeDone 0,
    .frame 1 [65] true, .resume 0]

theorem answeredRun_tidy : Throughout (step .raw) Tidy {} answeredRun := by
  have hsome : (run (step .raw) {} answeredRun).isSome = true := by decide +kernel
  obtain ⟨t, hrun⟩ := Option.isSome_iff_exists.mp hsome
  exact (tidy_iff hrun).mpr (by decide +kernel)

/-- A call that times out. -/
def timedOutRun : List Event :=
  [.send [] [97], .proceed 0, .connected 0 .ok, .writeSome 0 9, .writeDone 0, .resume 0]

/-- The call has returned with the timeout, and its future is still listed. -/
theorem timedOutRun_leaks :
    ∃ s c, run (step .raw) {} timedOutRun = some s ∧ s.futureList 1 = some 0 ∧
      s.calls[0]? = some c ∧ c.phase = .returned ⟨false, timeoutErr, true⟩ ∧ ¬ Tidy s := by
  have hend : (run (step .raw) {} timedOutRun).map (fun s => (s.futureList 1, s.calls[0]?)) =
      some (some 0, some { id := 1, frame := [0, 0, 0, 1, 0, 0, 0, 1, 97]
                           phase := .returned ⟨false, timeoutErr, true⟩ }) := by decide +kernel
  obtain ⟨s, hrun, hs⟩ := Option.map_eq_some_iff.mp hend
  obtain ⟨hlisted, hcall⟩ := Prod.mk.inj hs
  refine ⟨s, _, hrun, hlisted, hcall, rfl, fun ht => ?_⟩
  obtain ⟨c, hc, -, hl⟩ := ht 1 0 hlisted
  obtain rfl := Option.some.inj (hcall.symm.trans hc)
  simp [Phase.live] at hl

end FiberProxy.Client
