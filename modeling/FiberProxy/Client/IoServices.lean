/-
  FiberProxy.Client.IoServices

  The `io_service` of a pooled HTTP client.  A client is made with the `io_service`
  that the caller gives and is filed under host and port alone, so the next caller of
  that host and port gets it whatever it gives itself.  An ordinary call gives the
  `io_service` of its connection, a confirm or cancel the manager's own
  (`Event.transaction`).
-/

import FiberProxy.Client.ClientMgr

namespace FiberProxy.Client.Mgr

open Lib

variable {Io : Type}

/-- Every fiber has a client of the `io_service` it gave. -/
def Bound (s : ClientMgr Io) : Prop :=
  ∀ f l, s.fibers f = some l → ∃ c, s.clients[l.client]? = some c ∧ c.io = l.io

/-- The HTTP calls of a run are among these. -/
def CallsAmong (calls : Io → Bytes → Bytes → Prop) (es : List (Event Io)) : Prop :=
  ∀ f io ip port, .sendRequest f io ip port ∈ es → calls io ip port

/-- All calls to one host and port give the same `io_service`. -/
def OneIoService (calls : Io → Bytes → Bytes → Prop) : Prop :=
  ∀ io ip port io' ip' port', calls io ip port → calls io' ip' port' →
    getClientId ip port = getClientId ip' port' → io = io'

/-- Every client was made by one of the calls. -/
def MadeBy (calls : Io → Bytes → Bytes → Prop) (s : ClientMgr Io) : Prop :=
  ∀ c ∈ s.clients, calls c.io c.host c.port

/-- A fiber gets a client, perhaps with others made, or gives its own back. -/
theorem bound_update {s s' : ClientMgr Io} (h : Bound s) {f : Nat} {l : Option (Lease Io)}
    (hfibers : s'.fibers = Function.update s.fibers f l)
    (hclients : s.clients <+: s'.clients)
    (hl : ∀ l', l = some l' → ∃ c, s'.clients[l'.client]? = some c ∧ c.io = l'.io) :
    Bound s' := by
  intro f' l' hf'
  rw [hfibers] at hf'
  by_cases hff : f' = f
  · subst hff
    rw [Function.update_self] at hf'
    exact hl l' hf'
  · rw [Function.update_of_ne hff] at hf'
    obtain ⟨c, hc, hio⟩ := h f' l' hf'
    obtain ⟨more, hmore⟩ := hclients
    refine ⟨c, ?_, hio⟩
    rw [← hmore, List.getElem?_append_left (List.getElem?_eq_some_iff.mp hc).1, hc]

theorem bound_step {calls : Io → Bytes → Bytes → Prop} (hone : OneIoService calls)
    {s s' : ClientMgr Io} {e : Event Io}
    (he : ∀ f io ip port, e = .sendRequest f io ip port → calls io ip port) (hinv : Inv s)
    (hmade : MadeBy calls s) (h : Bound s) (hs : StepsTo s e s') : MadeBy calls s' ∧ Bound s' := by
  cases hs with
  | @reuse f io ip port k ks hf hp =>
    refine ⟨hmade, bound_update h rfl (List.prefix_refl _) ?_⟩
    rintro _ ⟨⟩
    have hk : k ∈ s.httpClientPoolList (getClientId ip port) := by simp [hp]
    have hc := List.getElem?_eq_getElem (hinv.custody.known_shelf _ k hk)
    refine ⟨_, hc, ?_⟩
    -- the client is filed under the key of the call that made it
    have hhome := hinv.custody.home_eq _ k hk
    rw [ClientMgr.home, hc] at hhome
    exact hone _ _ _ _ _ _ (hmade _ (List.getElem_mem _)) (he f io ip port rfl) hhome
  | limit => exact ⟨hmade, h⟩
  | @create f io ip port hf hnum =>
    refine ⟨forall_mem_snoc hmade (he f io ip port rfl),
      bound_update h rfl (List.prefix_append _ _) ?_⟩
    rintro _ ⟨⟩
    exact ⟨_, List.getElem?_concat_length, rfl⟩
  | @sent f k io clientId hf =>
    refine ⟨hmade, bound_update h rfl (List.prefix_refl _) ?_⟩
    rintro _ ⟨⟩
    obtain ⟨d, hd, hio⟩ := h f _ hf
    exact ⟨d, hd, hio⟩
  | @getResponse f k io c hf hk =>
    refine ⟨hmade, bound_update h rfl (List.prefix_refl _) ?_⟩
    rintro _ ⟨⟩
    obtain ⟨d, hd, hio⟩ := h f _ hf
    exact ⟨d, hd, hio⟩
  | sendFailed hf | responseEnd hf =>
    refine ⟨hmade, bound_update h rfl (List.prefix_refl _) ?_⟩
    rintro _ ⟨⟩
  | muxKnown => exact ⟨hmade, h⟩
  | muxCreate ht hnew => exact ⟨hmade, h⟩

theorem bound_of_run {calls : Io → Bytes → Bytes → Prop} (hone : OneIoService calls)
    {s : ClientMgr Io} {es : List (Event Io)} (hes : CallsAmong calls es)
    (hrun : run step {} es = some s) : MadeBy calls s ∧ Bound s := by
  refine run_induction (P := fun es s => CallsAmong calls es → MadeBy calls s ∧ Bound s)
    ?_ ?_ hrun hes
  · exact fun _ => ⟨fun c hc => absurd hc List.not_mem_nil, fun _ _ hf => nomatch hf⟩
  · intro es s e s' hrun' ih hs hes
    obtain ⟨hmade, hbound⟩ := ih fun f io ip port hmem => hes f io ip port (by simp [hmem])
    refine bound_step hone ?_ (inv_of_run hrun') hmade hbound (stepsTo_of_step hs)
    rintro f io ip port rfl
    exact hes f io ip port (by simp)

/-- A call makes a client, and the next call of its host and port gets it. -/
def reused (io io' : Io) (ip port ip' port' : Bytes) : List (Event Io) :=
  [.sendRequest 0 io ip port, .sendEnd 0 true, .getResponse 0, .responseEnd 0,
    .sendRequest 0 io' ip' port', .sendEnd 0 true]

theorem run_reused (io io' : Io) {ip port ip' port' : Bytes}
    (hid : getClientId ip port = getClientId ip' port') :
    ∃ s, run step {} (reused io io' ip port ip' port') = some s ∧
      s.clients = [⟨io, ip, port⟩] ∧ s.fibers 0 = some ⟨0, io', .returned⟩ := by
  have hmap : (run step {} (reused io io' ip port ip' port')).map
      (fun s => (s.clients, s.fibers 0)) =
        some ([⟨io, ip, port⟩], some ⟨0, io', .returned⟩) := by
    simp [reused, step, ClientMgr.sendRequest, ClientMgr.setFiber, ClientMgr.pushBack,
      HttpClient.clientId, hid]
  obtain ⟨s, hrun, hs⟩ := Option.map_eq_some_iff.mp hmap
  exact ⟨s, hrun, (Prod.mk.inj hs).1, (Prod.mk.inj hs).2⟩

/-- **A pooled client is its caller's own, exactly** when all calls to one host and port
    give the same `io_service`: whatever calls there are, ordinary ones and transactions,
    in every run of them the client a fiber gets is bound to the `io_service` it gave
    if and only if no two of the calls give different ones for one host and port. -/
theorem bound_iff (calls : Io → Bytes → Bytes → Prop) :
    (∀ es s, CallsAmong calls es → run step {} es = some s → Bound s) ↔ OneIoService calls := by
  constructor
  · intro h io ip port io' ip' port' hcall hcall' hid
    obtain ⟨s, hrun, hclients, hf⟩ := run_reused io io' hid
    have hamong : CallsAmong calls (reused io io' ip port ip' port') := by
      intro f j a b hmem
      simp only [reused, List.mem_cons, Event.sendRequest.injEq, reduceCtorEq, List.not_mem_nil,
        or_false, false_or] at hmem
      rcases hmem with ⟨-, rfl, rfl, rfl⟩ | ⟨-, rfl, rfl, rfl⟩
      · exact hcall
      · exact hcall'
    obtain ⟨c, hc, hio⟩ := h _ s hamong hrun 0 _ hf
    rw [hclients] at hc
    obtain rfl : (⟨io, ip, port⟩ : HttpClient Io) = c := by simpa using hc
    exact hio
  · exact fun hone es s hes hrun => (bound_of_run hone hes hrun).2

/-- **A confirm spoils the pool**: it makes a client with the manager's `io_service`, here
    0, and the next ordinary call, which gives 1, gets that client. -/
theorem confirm_not_bound :
    ∃ s, run step {} [Event.transaction 0 7 (ascii "n") (ascii "80"), .sendEnd 7 true,
        .getResponse 7, .responseEnd 7, .sendRequest 8 1 (ascii "n") (ascii "80"),
        .sendEnd 8 true] = some s ∧
      s.clients = [⟨0, ascii "n", ascii "80"⟩] ∧ s.fibers 8 = some ⟨0, 1, .returned⟩ ∧
      ¬ Bound s := by
  refine ⟨_, rfl, rfl, rfl, fun h => ?_⟩
  obtain ⟨c, hc, hio⟩ := h 8 _ rfl
  obtain rfl := Option.some.inj hc
  exact absurd hio (by decide)

end FiberProxy.Client.Mgr
