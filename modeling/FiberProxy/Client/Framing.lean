/-
  FiberProxy.Client.Framing

  The bytes that the fibers of a shared client put on one connection.  A write goes
  out in pieces and the fiber yields between them; the only guard of
  `ClientSession::send_data` is `connecting_`, so another fiber can write in between,
  and a write that a reconnect falls into goes on with the rest of its frame on the new
  connection.  The frames stay whole in every run in which a fiber writes only on the
  connection its frame was begun on, and not while another one is in the middle of its
  frame there.  Without that a frame is torn by a second call (`tornRun_not_wholeFrames`)
  or by a reconnect.
-/

import FiberProxy.Client.MuxClient
import FiberProxy.Lib.Frames

namespace FiberProxy.Client

open Lib

/-- Where the call's frame is cut on the `conn`-th connection. -/
def Call.cut (conn : Nat) (c : Call) : Option Nat :=
  match c.phase with
  | .writing conn' sent => if conn' = conn then cutAt c.frame sent else none
  | _ => none

/-- The calls as writers on the last connection. -/
def MuxClient.writers (s : MuxClient) : List (Bytes × Option Nat) :=
  s.calls.map fun c => (c.frame, c.cut s.conn)

/-- The bytes of the last connection are whole request frames, the last one perhaps
    truncated. -/
def WholeFrames (s : MuxClient) : Prop := Framed (s.calls.map Call.frame) s.wire

/-- The call is not in a write that was begun on an earlier connection. -/
def Call.begunOn (conn : Nat) (c : Call) : Bool :=
  match c.phase with
  | .writing conn' _ => conn' = conn
  | _ => true

/-- A piece is written only on the connection on which its frame was begun, while no other
    call is in the middle of its frame there. -/
def OneWriter (s : MuxClient) : Event → Prop
  | .writeSome k _ =>
    (s.calls[k]?).all (Call.begunOn s.conn) = true ∧
      ∀ (j : Nat) w, j ≠ k → s.writers[j]? = some w → w.2 = none
  | _ => True

instance (s : MuxClient) (e : Event) : Decidable (OneWriter s e) :=
  match e with
  | .writeSome k _ =>
    decidable_of_iff ((s.calls[k]?).all (Call.begunOn s.conn) = true ∧
        ∀ p ∈ s.writers.zipIdx, p.2 ≠ k → p.1.2 = none) <| by
      simp only [OneWriter, List.mem_zipIdx_iff_getElem?, Prod.forall]
      refine and_congr_right fun _ => ?_
      exact ⟨fun h j f n hj hw => h f n j hw hj, fun h f n j hw hj => h j f n hj hw⟩
  | .send .. | .proceed _ | .connected .. | .writeDone _ | .writeFail _ | .frame ..
  | .readerFail _ | .resume _ => .isTrue trivial

structure FramesInv (s : MuxClient) : Prop where
  closed : s.connecting = true → s.isOpen = false
  conns : ∀ c ∈ s.calls, ∀ conn sent, c.phase = .writing conn sent → conn ≤ s.conn
  aligned : s.isOpen = true → Aligned s.writers s.wire
  whole : WholeFrames s

/-! ## Steps that write nothing -/

theorem frames_eq_writers (s : MuxClient) : s.calls.map Call.frame = s.writers.map Prod.fst := by
  rw [MuxClient.writers, List.map_map]
  rfl

/-- A step that leaves the bytes alone and, unless it closes the connection, cuts no
    frame elsewhere. -/
theorem FramesInv.of_writers {s s' : MuxClient} (h : FramesInv s)
    (hclosed : s'.connecting = true → s'.isOpen = false)
    (hconns : ∀ c ∈ s'.calls, ∀ conn sent, c.phase = .writing conn sent → conn ≤ s'.conn)
    (hframes : s'.calls.map Call.frame = s.calls.map Call.frame) (hwire : s'.wire = s.wire)
    (hwriters : s'.isOpen = true → s.isOpen = true ∧ s'.writers = s.writers) : FramesInv s' := by
  refine ⟨hclosed, hconns, fun ho => ?_, ?_⟩
  · obtain ⟨hopen, hw⟩ := hwriters ho
    rw [hw, hwire]
    exact h.aligned hopen
  · rw [WholeFrames, hframes, hwire]
    exact h.whole

/-- The `k`-th call moves and its frame is cut where it was, or the connection closes. -/
theorem FramesInv.move {s s' : MuxClient} {k : Nat} {c : Call} {phase : Phase} (h : FramesInv s)
    (hk : s.calls[k]? = some c) (hcalls : s'.calls = (s.setPhase k c phase).calls)
    (hconn : s'.conn = s.conn) (hwire : s'.wire = s.wire)
    (hphase : ∀ conn sent, phase = .writing conn sent → conn ≤ s.conn)
    (hclosed : s'.connecting = true → s'.isOpen = false)
    (hcut : s'.isOpen = true →
      s.isOpen = true ∧ Call.cut s.conn { c with phase := phase } = c.cut s.conn) :
    FramesInv s' := by
  apply h.of_writers hclosed ?_ ?_ hwire ?_
  · rw [hcalls, hconn]
    exact forall_mem_set h.conns hphase
  · rw [hcalls, MuxClient.setPhase, List.map_set]
    exact set_getElem?_self (by rw [List.getElem?_map, hk]; rfl)
  · intro ho
    obtain ⟨hopen, hcut⟩ := hcut ho
    refine ⟨hopen, ?_⟩
    rw [MuxClient.writers, hcalls, hconn, MuxClient.setPhase, List.map_set, hcut]
    exact set_getElem?_self (by rw [List.getElem?_map, hk]; rfl)

/-- The reader touches only the futures. -/
theorem FramesInv.futures {s s' : MuxClient} (h : FramesInv s)
    (hcalls : s'.calls.map (fun c => (c.frame, c.phase)) =
      s.calls.map fun c => (c.frame, c.phase))
    (hconn : s'.conn = s.conn) (hwire : s'.wire = s.wire)
    (hconnecting : s'.connecting = s.connecting)
    (hopen : s'.isOpen = true → s.isOpen = true) : FramesInv s' := by
  have hmap {β : Type} (g : Bytes × Phase → β) :
      s'.calls.map (fun c => g (c.frame, c.phase)) =
        s.calls.map fun c => g (c.frame, c.phase) := by
    simpa only [List.map_map, Function.comp_def] using congrArg (List.map g) hcalls
  apply h.of_writers ?_ ?_ (hmap Prod.fst) hwire ?_
  · intro hc
    by_contra ho
    exact absurd (hopen (by simpa using ho)) (by simp [h.closed (hconnecting ▸ hc)])
  · intro c hc conn sent hp
    have hmem : (c.frame, c.phase) ∈ s.calls.map fun c => (c.frame, c.phase) := by
      rw [← hcalls]
      exact List.mem_map.mpr ⟨c, hc, rfl⟩
    obtain ⟨d, hd, heq⟩ := List.mem_map.mp hmem
    rw [hconn]
    exact h.conns d hd conn sent ((Prod.mk.inj heq).2.trans hp)
  · intro ho
    refine ⟨hopen ho, ?_⟩
    rw [MuxClient.writers, MuxClient.writers, hconn]
    exact hmap fun p => (p.1, Call.cut s.conn { id := 0, frame := p.1, phase := p.2 })

/-! ## Every step, every run -/

theorem cut_queued {c : Call} (h : c.phase = .queued) (conn : Nat) : c.cut conn = none := by
  rw [Call.cut, h]

theorem cut_writing {c : Call} {conn sent : Nat} (h : c.phase = .writing conn sent) :
    c.cut conn = cutAt c.frame sent := by
  simp [Call.cut, h]

theorem conn_of_begunOn {s : MuxClient} {k conn sent : Nat} {c : Call}
    (hk : s.calls[k]? = some c) (hp : c.phase = .writing conn sent)
    (h : (s.calls[k]?).all (Call.begunOn s.conn) = true) : conn = s.conn := by
  simpa [hk, Call.begunOn, hp] using h

theorem framesInv_init : FramesInv ({} : MuxClient) :=
  { closed := by simp, conns := by simp, aligned := by simp
    whole := ⟨[], [], rfl, by simp, .inl rfl⟩ }

section Run

variable {kind : Kind}

theorem FramesInv.send {s s' : MuxClient} {c : Call} (h : FramesInv s) (hc : c.phase = .queued)
    (hcalls : s'.calls = s.calls ++ [c]) (hconn : s'.conn = s.conn) (hwire : s'.wire = s.wire)
    (hconnecting : s'.connecting = s.connecting) (hopen : s'.isOpen = s.isOpen) :
    FramesInv s' := by
  constructor
  case closed => rw [hconnecting, hopen]; exact h.closed
  case conns =>
    intro d hd conn sent hp
    rw [hcalls] at hd
    rcases List.mem_append.mp hd with hd | hd
    · rw [hconn]
      exact h.conns d hd conn sent hp
    · rw [List.mem_singleton.mp hd, hc] at hp
      simp at hp
  case aligned =>
    intro ho
    rw [MuxClient.writers, hcalls, hconn, hwire, List.map_append, List.map_singleton,
      cut_queued hc]
    exact (h.aligned (hopen ▸ ho)).join c.frame
  case whole =>
    rw [WholeFrames, hcalls, hwire, List.map_append]
    exact h.whole.mono (List.subset_append_left ..)

/-- A new connection: nothing is written and no frame is cut on it. -/
theorem FramesInv.connected {s s' : MuxClient} {k : Nat} {c : Call} (h : FramesInv s)
    (hcalls : s'.calls = (s.setPhase k c (.writing (s.conn + 1) 0)).calls)
    (hconn : s'.conn = s.conn + 1) (hwire : s'.wire = []) (hconnecting : s'.connecting = false) :
    FramesInv s' := by
  constructor
  case closed => simp [hconnecting]
  case conns =>
    rw [hcalls, hconn]
    refine forall_mem_set (fun d hd conn sent hp => ?_) fun conn sent hp => ?_
    · exact Nat.le_succ_of_le (h.conns d hd conn sent hp)
    · obtain ⟨rfl, -⟩ := Phase.writing.inj hp
      exact Nat.le_refl _
  case aligned =>
    intro _
    rw [hwire]
    apply aligned_nil
    rw [MuxClient.writers, hcalls, hconn, List.forall_mem_map]
    refine forall_mem_set (fun d hd => ?_) (by simp [Call.cut, cutAt])
    -- a call that is writing is on an earlier connection
    unfold Call.cut
    split
    · have := h.conns d hd _ _ ‹_›
      exact if_neg (by omega)
    · rfl
  case whole => exact ⟨[], [], by rw [hwire]; rfl, by simp, .inl rfl⟩

/-- One more piece of the frame of the only call in the middle of one. -/
theorem FramesInv.writeSome {s s' : MuxClient} {k n sent : Nat} {c : Call} (h : FramesInv s)
    (hone : ∀ (j : Nat) w, j ≠ k → s.writers[j]? = some w → w.2 = none)
    (hk : s.calls[k]? = some c)
    (hp : c.phase = .writing s.conn sent) (hn : 0 < n) (hle : sent + n ≤ c.frame.length)
    (ho : s.isOpen = true) (hcalls : s'.calls = (s.setPhase k c (.writing s.conn (sent + n))).calls)
    (hconn : s'.conn = s.conn) (hwire : s'.wire = s.wire ++ (c.frame.drop sent).take n)
    (hconnecting : s'.connecting = s.connecting) : FramesInv s' := by
  have hwk : s.writers[k]? = some (c.frame, cutAt c.frame sent) := by
    rw [MuxClient.writers, List.getElem?_map, hk, ← cut_writing hp]
    rfl
  have hwriters : s'.writers = s.writers.set k (c.frame, cutAt c.frame (sent + n)) := by
    rw [MuxClient.writers, hcalls, hconn, MuxClient.setPhase, List.map_set, cut_writing rfl]
    rfl
  have haligned : Aligned s'.writers s'.wire := by
    rw [hwriters, hwire]
    exact (h.aligned ho).put hwk hn hle hone
  constructor
  case closed =>
    intro hc
    simp [h.closed (hconnecting ▸ hc)] at ho
  case conns =>
    rw [hcalls, hconn]
    refine forall_mem_set h.conns fun conn sent hp => ?_
    obtain ⟨rfl, -⟩ := Phase.writing.inj hp
    exact Nat.le_refl _
  case aligned => exact fun _ => haligned
  case whole =>
    rw [WholeFrames, frames_eq_writers]
    exact haligned.framed

theorem FramesInv.step {s s' : MuxClient} {e : Event} (h : FramesInv s) (hone : OneWriter s e)
    (hs : StepsTo kind s e s') : FramesInv s' := by
  cases hs with
  | send path reqdata => exact h.send rfl rfl rfl rfl rfl rfl
  | frame id rsp isSuccess hr =>
    exact h.futures (setResponse_calls s id rsp isSuccess false) rfl rfl rfl fun ho => ho
  | readerFail errinfo hr =>
    exact h.futures (setAllError_calls s errinfo) rfl rfl rfl fun ho =>
      (Bool.and_eq_true_iff.mp ho).1
  | write hk hp hc ho =>
    exact h.move hk rfl rfl rfl (by simp +contextual) h.closed fun _ =>
      ⟨ho, by simp [Call.cut, hp, cutAt]⟩
  | connect hk hp hc ho =>
    exact h.move hk rfl rfl rfl (by simp) (fun _ => ho)
      fun ho' => absurd (ho'.symm.trans ho) (by simp)
  | connected hk hp => exact h.connected rfl rfl rfl rfl
  | connectFailed hk hp => exact h.move hk rfl rfl rfl (by simp) (fun _ => rfl) (by simp)
  | resolveFailed hk hp =>
    exact h.move hk rfl rfl rfl (by simp +contextual) (fun _ => rfl) (by simp)
  | writeSome hk hp hn hle ho =>
    obtain ⟨hbegun, hone⟩ := hone
    obtain rfl := conn_of_begunOn hk hp hbegun
    exact h.writeSome hone hk hp hn hle ho rfl rfl rfl rfl
  | writeDone hk hp hall =>
    exact h.move hk rfl rfl rfl (by simp) h.closed fun ho =>
      ⟨ho, by simp [Call.cut, hp, cutAt, hall]⟩
  | writeFail hk hp =>
    have hclosed : (s.connecting && s.isOpen) = false := by
      cases hc : s.connecting with
      | false => rfl
      | true => exact h.closed hc
    exact h.move hk rfl rfl rfl (by simp) (fun _ => hclosed) (by simp [hclosed])
  | resume hk hp =>
    exact h.move hk rfl rfl rfl (by simp) h.closed fun ho => ⟨ho, by simp [Call.cut, hp]⟩

/-- **Frames stay whole while calls take turns.** In every run in which a call writes only on
    the connection its frame was begun on, and not while another is in the middle of its frame
    there, the bytes of the connection are whole request frames and at most one truncated last
    frame. -/
theorem wholeFrames_of_oneWriter {es : List Event} {s : MuxClient}
    (hone : Along (step kind) OneWriter {} es) (hrun : run (step kind) {} es = some s) :
    WholeFrames s :=
  (run_inv_along (fun _ _ _ h ho hs => h.step ho (stepsTo_of_step hs))
    framesInv_init hone hrun).whole

end Run

/-- Two calls connect and begin to write. -/
def twoWriters : List Event :=
  [.send [] [97], .send [] [98], .proceed 0, .connected 0 .ok, .proceed 1, .writeSome 0 4]

theorem turns_wholeFrames :
    ∃ s, run (step .raw) {} (twoWriters ++ [.writeSome 0 5, .writeSome 1 3]) = some s ∧
      s.wire = [0, 0, 0, 1, 0, 0, 0, 1, 97, 0, 0, 0] ∧ WholeFrames s := by
  have hwire : (run (step .raw) {} (twoWriters ++ [.writeSome 0 5, .writeSome 1 3])).map (·.wire) =
      some [0, 0, 0, 1, 0, 0, 0, 1, 97, 0, 0, 0] := by decide +kernel
  obtain ⟨s, hrun, hw⟩ := Option.map_eq_some_iff.mp hwire
  exact ⟨s, hrun, hw, wholeFrames_of_oneWriter (by decide +kernel) hrun⟩

/-- **A torn frame.** The second call writes its frame after four bytes of the first
    call's. -/
theorem tornRun_not_wholeFrames :
    ∃ s, run (step .raw) {} (twoWriters ++ [.writeSome 1 9, .writeSome 0 5]) = some s ∧
      ¬ WholeFrames s := by
  have hstate : (run (step .raw) {} (twoWriters ++ [.writeSome 1 9, .writeSome 0 5])).map
      (fun s => (s.calls.map Call.frame, s.wire)) =
      some ([[0, 0, 0, 1, 0, 0, 0, 1, 97], [0, 0, 0, 2, 0, 0, 0, 1, 98]],
        [0, 0, 0, 1, 0, 0, 0, 2, 0, 0, 0, 1, 98, 0, 0, 0, 1, 97]) := by decide +kernel
  obtain ⟨s, hrun, hs⟩ := Option.map_eq_some_iff.mp hstate
  obtain ⟨hframes, hwire⟩ := Prod.mk.inj hs
  refine ⟨s, hrun, ?_⟩
  rw [WholeFrames, hframes, hwire]
  rintro ⟨fs, t, hout, hfs, ht⟩
  cases fs with
  | nil =>
    -- a single truncated frame would be longer than either frame
    have hlen := congrArg List.length hout
    rcases ht with rfl | ⟨f, hf, hpre⟩
    · simp at hlen
    · have hle := hpre.length_le
      simp only [List.mem_cons, List.not_mem_nil, or_false] at hf
      rcases hf with rfl | rfl <;> simp at hlen hle <;> omega
  | cons f fs =>
    have hf := hfs f List.mem_cons_self
    simp only [List.mem_cons, List.not_mem_nil, or_false] at hf
    rcases hf with rfl | rfl <;> simp at hout

-- The reader of an RPC client fails while the second call is in the middle of its frame; the
-- third call connects, and the rest of the second frame is all that the connection has.
example : (run (step (.rpc fun id _ reqdata => be32 id ++ reqdata)) {}
    [.send [] [97], .proceed 0, .connected 0 .ok, .writeSome 0 5, .writeDone 0,
      .send [] [98], .proceed 1, .writeSome 1 3, .readerFail [], .send [] [99], .proceed 2,
      .connected 2 .ok, .writeSome 1 2]).map (fun s => (s.conn, s.wire)) =
    some (2, [2, 98]) := by decide +kernel

end FiberProxy.Client
