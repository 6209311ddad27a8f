/-
  FiberProxy.Client.Recovery

  What a failed reader leaves to the next request.  `send_data` connects only when
  `socket_.is_open()` is false, so a new request goes to a new connection exactly
  when the failed one has been closed.  The reader of `FibpRpcClient` closes it
  (`rpc_fail`), that of `FibpRawClient` does not.
-/

import FiberProxy.Client.MuxClient

namespace FiberProxy.Client

open Lib

/-- The `n`-th and later calls write only to connections after the `g`-th, and the socket
    is open only for such a one. -/
structure Fresh (g n : Nat) (s : MuxClient) : Prop where
  later : g ≤ s.conn
  isOpen : s.isOpen = true → g < s.conn
  written : ∀ (k : Nat) c conn sent, n ≤ k → s.calls[k]? = some c →
    c.phase = .writing conn sent → 0 < sent → g < conn

/-- The client recovers from the failure of its reader in `s`, which left it in `s'`: the
    socket is closed, and in whatever follows nothing is written to, or read from, the
    connection that failed. -/
def Recovers (kind : Kind) (s s' : MuxClient) : Prop :=
  s'.isOpen = false ∧
    ∀ es t, run (step kind) s' es = some t → Fresh s.conn s.calls.length t

/-! ## The steps after the failure -/

/-- The `k`-th call moves on the connections that were there. -/
theorem Fresh.move {g n : Nat} {s s' : MuxClient} {k : Nat} {c : Call} {phase : Phase}
    (h : Fresh g n s) (hcalls : s'.calls = (s.setPhase k c phase).calls)
    (hconn : s'.conn = s.conn) (hopen : s'.isOpen = true → s.isOpen = true)
    (hphase : ∀ conn sent, phase = .writing conn sent → n ≤ k → 0 < sent → g < conn) :
    Fresh g n s' := by
  refine ⟨hconn ▸ h.later, fun ho => hconn ▸ h.isOpen (hopen ho), ?_⟩
  intro j d conn sent hn hj hp hsent
  rw [hcalls] at hj
  rcases getElem?_set_eq_some hj with ⟨rfl, rfl⟩ | ⟨-, hd⟩
  · exact hphase conn sent hp hn hsent
  · exact h.written j d conn sent hn hd hp hsent

/-- The reader completes futures and leaves the calls where they are. -/
theorem Fresh.answer {g n : Nat} {s s' : MuxClient} (h : Fresh g n s)
    (hcalls : s'.calls.map (fun c => (c.frame, c.phase)) =
      s.calls.map fun c => (c.frame, c.phase))
    (hconn : s'.conn = s.conn) (hopen : s'.isOpen = true → s.isOpen = true) : Fresh g n s' := by
  refine ⟨hconn ▸ h.later, fun ho => hconn ▸ h.isOpen (hopen ho), ?_⟩
  intro j d conn sent hn hj hp hsent
  have hplace : (s.calls.map fun c => (c.frame, c.phase))[j]? = some (d.frame, d.phase) := by
    rw [← hcalls, List.getElem?_map, hj]
    rfl
  rw [List.getElem?_map] at hplace
  obtain ⟨c, hc, hcd⟩ := Option.map_eq_some_iff.mp hplace
  exact h.written j c conn sent hn hc ((Prod.mk.inj hcd).2.trans hp) hsent

theorem Fresh.send {g n : Nat} {s s' : MuxClient} {c : Call} (h : Fresh g n s)
    (hcalls : s'.calls = s.calls ++ [c]) (hc : c.phase = .queued) (hconn : s'.conn = s.conn)
    (hopen : s'.isOpen = s.isOpen) : Fresh g n s' := by
  refine ⟨hconn ▸ h.later, fun ho => hconn ▸ h.isOpen (hopen ▸ ho), ?_⟩
  intro j d conn sent hn hj hp hsent
  rw [hcalls] at hj
  rcases getElem?_snoc_eq_some hj with hj | ⟨-, rfl⟩
  · exact h.written j d conn sent hn hj hp hsent
  · simp [hc] at hp

variable {kind : Kind}

theorem Fresh.step {g n : Nat} {s s' : MuxClient} {e : Event} (h : Fresh g n s)
    (hs : StepsTo kind s e s') : Fresh g n s' := by
  cases hs with
  | send path reqdata => exact h.send rfl rfl rfl rfl
  | frame id rsp isSuccess hr =>
    exact h.answer (setResponse_calls s id rsp isSuccess false) rfl fun ho => ho
  | readerFail errinfo hr =>
    refine h.answer (setAllError_calls s errinfo) rfl fun ho => ?_
    exact ((Bool.and_eq_true _ _).mp ho).1
  | write hk hp hc ho =>
    refine h.move rfl rfl id fun conn sent hw _ hsent => ?_
    obtain ⟨-, rfl⟩ := Phase.writing.inj hw
    omega
  | connect hk hp hc ho => exact h.move rfl rfl id (by simp)
  | @connected k c hk hp =>
    -- the connect makes the connection after the last one
    have hlater := h.later
    refine ⟨by show g ≤ s.conn + 1; omega, fun _ => by show g < s.conn + 1; omega, ?_⟩
    intro j d conn sent hn hj hw hsent
    rcases getElem?_set_eq_some hj with ⟨rfl, rfl⟩ | ⟨-, hd⟩
    · obtain ⟨rfl, -⟩ := Phase.writing.inj hw
      omega
    · exact h.written j d conn sent hn hd hw hsent
  | connectFailed hk hp => exact h.move rfl rfl (by simp) (by simp)
  | resolveFailed hk hp =>
    refine h.move rfl rfl (by simp) fun conn sent hw _ hsent => ?_
    obtain ⟨-, rfl⟩ := Phase.writing.inj hw
    omega
  | writeSome hk hp hn hle ho hon =>
    refine h.move rfl rfl id fun conn sent hw hlater _ => ?_
    obtain ⟨rfl, -⟩ := Phase.writing.inj hw
    rcases hon with rfl | hsent
    · -- a write needs an open socket, which is not the one that failed
      exact h.isOpen ho
    · exact h.written _ _ _ _ hlater hk hp hsent
  | writeDone hk hp hall => exact h.move rfl rfl id (by simp)
  | writeFail hk hp =>
    refine h.move rfl rfl (fun ho => ?_) (by simp)
    exact ((Bool.and_eq_true _ _).mp ho).2
  | resume hk hp => exact h.move rfl rfl id (by simp)

theorem fresh_of_run {g n : Nat} {s t : MuxClient} {es : List Event} (hs : Fresh g n s)
    (hrun : run (step kind) s es = some t) : Fresh g n t :=
  run_inv (fun _ _ _ h he => h.step (stepsTo_of_step he)) hs hrun

/-! ## The failure -/

/-- **Recovery, exactly.** After a reader's failure the client recovers exactly when its
    reader closes the session, as the RPC client's does, or the session was closed
    before. -/
theorem recovers_iff {s s' : MuxClient} {errinfo : Bytes}
    (hfail : step kind s (.readerFail errinfo) = some s') :
    Recovers kind s s' ↔ kind.readerCloses = true ∨ s.isOpen = false := by
  cases stepsTo_of_step hfail with
  | readerFail _ hr =>
  have hopen : (s.isOpen && !kind.readerCloses) = false ↔
      kind.readerCloses = true ∨ s.isOpen = false := by
    cases s.isOpen <;> cases kind.readerCloses <;> simp
  rw [← hopen]
  constructor
  · intro h
    exact h.1
  · intro hclosed
    refine ⟨hclosed, fun es t hrun => ?_⟩
    apply fresh_of_run ?_ hrun
    refine ⟨Nat.le_refl s.conn, ?_, ?_⟩
    · intro ho
      exact absurd (hclosed.symm.trans ho) (by simp)
    · -- there is no later call yet
      intro k c conn sent hk hc
      have hlen : (s.setAllError errinfo).calls.length = s.calls.length := List.length_mapIdx
      have hlt : k < (s.setAllError errinfo).calls.length := (List.getElem?_eq_some_iff.mp hc).1
      omega

/-- A call is made and waits for its response. -/
def oneCall : List Event :=
  [.send [] [97], .proceed 0, .connected 0 .ok, .writeSome 0 9, .writeDone 0]

/-- The RPC client recovers from the failure of its reader. -/
theorem oneCall_recovers :
    ∃ s s', run (step (.rpc fun _ _ _ => [148, 0, 1, 161, 97, 147, 1, 2, 3])) {} oneCall = some s ∧
      step (.rpc fun _ _ _ => [148, 0, 1, 161, 97, 147, 1, 2, 3]) s
        (.readerFail (ascii "End of file")) = some s' ∧
      Recovers (.rpc fun _ _ _ => [148, 0, 1, 161, 97, 147, 1, 2, 3]) s s' :=
  ⟨_, _, rfl, rfl, (recovers_iff rfl).mpr (.inl rfl)⟩

/-- The raw client writes its next request to the connection whose reader has failed. -/
theorem oneCall_reused :
    ∃ s s' t, run (step .raw) {} oneCall = some s ∧
      step .raw s (.readerFail (ascii "End of file")) = some s' ∧ ¬ Recovers .raw s s' ∧
      s.conn = 1 ∧ run (step .raw) s' [.send [] [98], .proceed 1, .writeSome 1 9] = some t ∧
      t.conn = 1 ∧ t.wire = [0, 0, 0, 1, 0, 0, 0, 1, 97, 0, 0, 0, 2, 0, 0, 0, 1, 98] := by
  refine ⟨_, _, _, rfl, rfl, fun h => ?_, rfl, rfl, rfl, by decide +kernel⟩
  exact absurd h.1 (by decide)

end FiberProxy.Client
