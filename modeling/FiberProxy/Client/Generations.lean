/-
  FiberProxy.Client.Generations

  Successive connections of one RPC client.  The session, `reading_fiber_` and
  `future_list_` are shared by all of them and carry no number of the connection
  they belong to.  A sender whose write fails closes the session and another one
  connects it again, while the reader of the old connection has yet to see its
  error; its cleanup then closes what is there and fails whoever is listed.
-/

import FiberProxy.Client.RpcReader

namespace FiberProxy.Client.Rpc

open Lib

variable {mp : Msgpack} {pack : UInt32 → Bytes → Bytes → Bytes}

/-- The call's future is in `future_list_`. -/
def RpcClient.Listed (s : RpcClient mp) (k : Nat) (c : Call) : Prop :=
  s.mux.calls[k]? = some c ∧ s.mux.futureList c.id = some k

/-- The reader's cleanup, from `s` to `t`, spares what is not its own: a session open on
    another connection than the one it read, another connect under way, and the calls that
    were not sent on its connection. -/
structure Spares (s t : RpcClient mp) : Prop where
  isOpen : s.mux.isOpen = true → s.read.gen ≠ some s.gen → t.mux.isOpen = true
  connecting : s.mux.connecting = true → s.aborted = false → s.read.gen ≠ some s.gen →
    t.mux.connecting = true ∧ t.aborted = false
  calls : ∀ (k : Nat) c, s.Listed k c → s.sentOn k ≠ s.read.gen → t.Listed k c

/-- Every cleanup spares what is not its own. -/
def CleansOwn (pack : UInt32 → Bytes → Bytes → Bytes) (s : RpcClient mp) (e : Event) : Prop :=
  ∀ u errinfo t, s.cleanupAt e = some (u, errinfo) → step pack s e = some t → Spares u t

/-- No other connection was begun since the reader issued its read, or it is closed again;
    and no listed call is still to be sent, or was sent on another connection. -/
structure OnlyConnection (s : RpcClient mp) : Prop where
  isOpen : s.mux.isOpen = true → s.read.gen = some s.gen
  connecting : s.mux.connecting = true → s.aborted = false → s.read.gen = some s.gen
  calls : ∀ (k : Nat) c, s.Listed k c → s.sentOn k = s.read.gen

/-- The reader comes to its cleanup only when its connection is the only one. -/
def ReadsOnly (s : RpcClient mp) (e : Event) : Prop :=
  match s.cleanupAt e with
  | some (u, _) => OnlyConnection u
  | none => True

instance (s : RpcClient mp) : Decidable (OnlyConnection s) :=
  decidable_of_iff
    ((s.mux.isOpen = true → s.read.gen = some s.gen) ∧
      (s.mux.connecting = true → s.aborted = false → s.read.gen = some s.gen) ∧
      ∀ p ∈ s.mux.calls.zipIdx, s.mux.futureList p.1.id = some p.2 → s.sentOn p.2 = s.read.gen)
    (by
      simp only [List.mem_zipIdx_iff_getElem?, Prod.forall]
      exact ⟨fun ⟨ho, hc, hk⟩ => ⟨ho, hc, fun k c h => hk c k h.1 h.2⟩,
        fun h => ⟨h.isOpen, h.connecting, fun c k hk hl => h.calls k c ⟨hk, hl⟩⟩⟩)

instance (s : RpcClient mp) (e : Event) : Decidable (ReadsOnly s e) := by
  unfold ReadsOnly
  split <;> infer_instance

/-- The cleanup closes the session, aborts a connect and unlists every call, whosever they
    are. -/
theorem spares_fail_iff (s : RpcClient mp) (errinfo : Bytes) :
    Spares s (s.fail errinfo) ↔ OnlyConnection s := by
  constructor
  -- whatever is there is closed, aborted or unlisted, so it has to be the reader's own
  · intro h
    refine ⟨fun ho => ?_, fun hc ha => ?_, fun k c hk => ?_⟩
    · by_contra hne
      have hopen : false = true := h.isOpen ho hne
      simp at hopen
    · by_contra hne
      have haborted : (s.aborted || s.mux.connecting) = false := (h.connecting hc ha hne).2
      simp [hc] at haborted
    · by_contra hne
      have hlisted : none = some k := (h.calls k c hk hne).2
      simp at hlisted
  · intro h
    exact ⟨fun ho hne => absurd (h.isOpen ho) hne, fun hc ha hne => absurd (h.connecting hc ha) hne,
      fun k c hk hne => absurd (h.calls k c hk) hne⟩

theorem cleansOwn_iff {s t : RpcClient mp} {e : Event} (h : step pack s e = some t) :
    CleansOwn pack s e ↔ ReadsOnly s e := by
  unfold CleansOwn ReadsOnly
  cases hc : s.cleanupAt e with
  | none => simp
  | some p =>
    obtain ⟨u, errinfo⟩ := p
    -- the step is the cleanup and nothing else
    have ht : t = u.fail errinfo := eq_fail_of_cleanupAt h hc
    constructor
    · intro hown
      exact (spares_fail_iff u errinfo).mp (ht ▸ hown u errinfo t rfl h)
    · intro hread u' errinfo' t' hu ht'
      obtain ⟨rfl, rfl⟩ := Prod.mk.inj (Option.some.inj hu)
      obtain rfl := Option.some.inj (h.symm.trans ht')
      rw [ht]
      exact (spares_fail_iff u errinfo).mpr hread

/-- **A dead reader damages no newer connection, exactly.** In every run every cleanup of the
    reader spares the connections and calls that are not its own exactly when its connection
    is the only one each time. -/
theorem spares_iff {es : List Event} {t : RpcClient mp}
    (hrun : run (step pack) {} es = some t) :
    Along (step pack) (CleansOwn pack) ({} : RpcClient mp) es ↔
      Along (step pack) ReadsOnly ({} : RpcClient mp) es :=
  along_congr (fun _ _ _ _ _ => trivial) (fun _ _ _ _ he => cleansOwn_iff he) trivial hrun

/-- Two calls wait on one connection, and the reader fails. -/
theorem twoCalls_spares :
    Along (step fixRequest) (CleansOwn fixRequest) ({} : RpcClient fixMsgpack)
      (twoCalls ++ [.readError (ascii "End of file")]) := by
  have hsome : (run (step fixRequest) ({} : RpcClient fixMsgpack)
      (twoCalls ++ [.readError (ascii "End of file")])).isSome = true := by decide +kernel
  obtain ⟨t, hrun⟩ := Option.isSome_iff_exists.mp hsome
  exact (spares_iff hrun).mpr (by decide +kernel)

/-- A call waits on the first connection; the write of the second call fails and closes it;
    the third call connects again. -/
def reconnecting : List Event :=
  [.send [97] [1], .fiber (.connected 0 .ok), .fiber (.writeSome 0 6), .fiber (.writeDone 0),
    .issue, .send [98] [2], .fiber (.writeFail 1), .send [99] [3]]

/-- The reader of the first connection sees its error: the connect of the third call is
    aborted, and the call's future has the error of a connection it was never sent on. -/
theorem staleReader_aborts :
    ∃ s t c, run (step fixRequest) ({} : RpcClient fixMsgpack) reconnecting = some s ∧
      s.read = .on 1 ∧ s.gen = 2 ∧ s.mux.connecting = true ∧ s.aborted = false ∧
      s.sentOn 2 = none ∧
      step fixRequest s (.readError (ascii "Operation canceled")) = some t ∧
      t.mux.connecting = true ∧ t.aborted = true ∧
      t.mux.calls[2]? = some c ∧ c.phase = .connecting ∧
      c.future = setResult (ascii "Operation canceled") false true ∧
      ¬ CleansOwn fixRequest s (.readError (ascii "Operation canceled")) := by
  refine ⟨_, _, _, rfl, rfl, rfl, rfl, rfl, rfl, rfl, rfl, rfl, rfl, rfl, rfl, fun h => ?_⟩
  have hspares := h _ _ _ rfl rfl
  exact absurd (hspares.connecting rfl rfl (by decide)).2 (by decide)

end FiberProxy.Client.Rpc
