/-
  FiberProxy.Client.Correlation

  Responses find their callers.  The answer that a call returns is decided by the
  events between its own `send` and its own return: the first response frame with
  its id, or the first failure of the reader, whichever comes first, and the
  timeout if there is neither.  `Correlated` relates the events so far to
  `fid_`, `future_list_` and the futures, and every step keeps it.
-/

import FiberProxy.Client.MuxClient

namespace FiberProxy.Client

open Lib

/-- A call that is still under way. -/
def Phase.live : Phase → Bool
  | .failed | .returned _ => false
  | _ => true

/-- Fewer than `2 ^ 32` sends while a call is under way. -/
def FewSends (s : MuxClient) : Event → Prop
  | .send .. => ∀ (k : Nat) c, s.calls[k]? = some c → c.phase.live = true →
      s.calls.length - k < 2 ^ 32
  | _ => True

instance (s : MuxClient) (e : Event) : Decidable (FewSends s e) :=
  match e with
  | .send .. =>
    decidable_of_iff
      (∀ p ∈ s.calls.zipIdx, p.1.phase.live = true → s.calls.length - p.2 < 2 ^ 32) <| by
        simp only [FewSends, List.mem_zipIdx_iff_getElem?, Prod.forall]
        exact forall_comm
  | .proceed _ | .connected .. | .writeSome .. | .writeDone _ | .writeFail _ | .frame ..
  | .readerFail _ | .resume _ => .isTrue trivial

def Event.isSend : Event → Bool
  | .send .. => true
  | _ => false

/-- The events after the `k`-th `send`. -/
def afterSend : Nat → List Event → Option (List Event)
  | _, [] => none
  | 0, .send .. :: es => some es
  | k + 1, .send .. :: es => afterSend k es
  | k, _ :: es => afterSend k es

/-- The future that an event completes under an id. -/
def answerTo (id : UInt32) : Event → Option Future
  | .frame id' rsp isSuccess => if id' = id then some (setResult rsp isSuccess false) else none
  | .readerFail errinfo => some (setResult errinfo false true)
  | _ => none

/-- The future of a call after these events: the first answer decides. -/
def futureAfter (id : UInt32) (w : List Event) : Future := (w.findSome? (answerTo id)).getD {}

/-- A call's state, explained by the events after its `send`. -/
def Explained (k : Nat) (c : Call) (w : List Event) : Prop :=
  match c.phase with
  | .returned r =>
    ∃ u v, w = u ++ .resume k :: v ∧ .resume k ∉ u ∧ r = (futureAfter c.id u).getRsp
  | .failed => True
  | _ => .resume k ∉ w ∧ c.future = futureAfter c.id w

structure Correlated (es : List Event) (s : MuxClient) : Prop where
  fid : s.fid = UInt32.ofNat s.calls.length
  sends : es.countP Event.isSend = s.calls.length
  ids : ∀ (k : Nat) c, s.calls[k]? = some c → c.id = UInt32.ofNat (k + 1)
  near : ∀ (k : Nat) c, s.calls[k]? = some c → c.phase.live = true → s.calls.length - k ≤ 2 ^ 32
  listed : ∀ (k : Nat) c, s.calls[k]? = some c → c.phase.live = true →
    (s.futureList c.id = some k ↔ c.future.done = false)
  owner : ∀ id k, s.futureList id = some k → ∃ c, s.calls[k]? = some c ∧ c.id = id
  explained : ∀ (k : Nat) c, s.calls[k]? = some c → ∃ w, afterSend k es = some w ∧ Explained k c w

/-! ## The events after a send -/

theorem afterSend_snoc {k : Nat} {es w : List Event} (h : afterSend k es = some w) (e : Event) :
    afterSend k (es ++ [e]) = some (w ++ [e]) := by
  induction es generalizing k with
  | nil => simp [afterSend] at h
  | cons e' es ih =>
    cases e' with
    | send path reqdata =>
      cases k with
      | zero =>
        obtain rfl : es = w := by simpa [afterSend] using h
        rfl
      | succ k => exact ih h
    | _ => cases k <;> exact ih h

/-- The send that makes the `k`-th call. -/
theorem afterSend_new {k : Nat} {es : List Event} (h : es.countP Event.isSend = k)
    (path reqdata : Bytes) : afterSend k (es ++ [.send path reqdata]) = some [] := by
  induction es generalizing k with
  | nil =>
    obtain rfl : 0 = k := by simpa using h
    rfl
  | cons e' es ih =>
    cases e' with
    | send path' reqdata' =>
      obtain rfl : es.countP Event.isSend + 1 = k := by
        rw [← h, List.countP_cons_of_pos rfl]
      exact ih rfl
    | _ =>
      have h' : es.countP Event.isSend = k := by
        rw [← h, List.countP_cons_of_neg (by simp [Event.isSend])]
      cases k <;> exact ih h'

theorem done_of_answerTo {id : UInt32} {e : Event} {f : Future} (h : answerTo id e = some f) :
    f.done = true := by
  unfold answerTo at h
  split at h
  · split at h
    · obtain rfl := Option.some.inj h
      rfl
    · simp at h
  · obtain rfl := Option.some.inj h
    rfl
  · simp at h

/-- An event that does not answer the id changes nothing. -/
theorem futureAfter_snoc_of_none {id : UInt32} {e : Event} (h : answerTo id e = none)
    (w : List Event) : futureAfter id (w ++ [e]) = futureAfter id w := by
  simp [futureAfter, List.findSome?_append, h]

/-- After the first answer no other counts. -/
theorem futureAfter_snoc_of_done {id : UInt32} {w : List Event}
    (h : (futureAfter id w).done = true) (e : Event) :
    futureAfter id (w ++ [e]) = futureAfter id w := by
  unfold futureAfter at h ⊢
  rw [List.findSome?_append]
  cases hw : w.findSome? (answerTo id) with
  | none => simp [hw] at h
  | some f => rfl

theorem futureAfter_snoc_of_pending {id : UInt32} {w : List Event} {e : Event} {f : Future}
    (h : (futureAfter id w).done = false) (he : answerTo id e = some f) :
    futureAfter id (w ++ [e]) = f := by
  unfold futureAfter at h ⊢
  rw [List.findSome?_append]
  cases hw : w.findSome? (answerTo id) with
  | none => simp [he]
  | some g =>
    obtain ⟨e', -, he'⟩ := List.exists_of_findSome?_eq_some hw
    simp [hw, done_of_answerTo he'] at h

/-! ## One more event -/

theorem explained_of_live {k : Nat} {c : Call} {w : List Event} (h : c.phase.live = true) :
    Explained k c w ↔ .resume k ∉ w ∧ c.future = futureAfter c.id w := by
  unfold Explained
  cases hp : c.phase with
  | failed => simp [hp, Phase.live] at h
  | returned r => simp [hp, Phase.live] at h
  | _ => rfl

/-- A call that stays where it is, its future following the events. -/
theorem Explained.snoc {k : Nat} {c c' : Call} {w : List Event} {e : Event}
    (h : Explained k c w) (hid : c'.id = c.id) (hphase : c'.phase = c.phase)
    (hlive : c.phase.live = true → c.future = futureAfter c.id w →
      e ≠ .resume k ∧ c'.future = futureAfter c.id (w ++ [e])) :
    Explained k c' (w ++ [e]) := by
  -- a call that has ended keeps its explanation, whatever comes later
  by_cases hl : c.phase.live = true
  · obtain ⟨hr, hf⟩ := (explained_of_live hl).mp h
    obtain ⟨he, hf'⟩ := hlive hl hf
    rw [explained_of_live (by rwa [hphase]), hid]
    exact ⟨by simp [hr, Ne.symm he], hf'⟩
  · unfold Explained at h ⊢
    rw [hphase, hid]
    cases hp : c.phase with
    | failed => trivial
    | returned r =>
      rw [hp] at h
      obtain ⟨u, v, rfl, hr, hres⟩ := h
      exact ⟨u, v ++ [e], by simp, hr, hres⟩
    | _ => simp [hp, Phase.live] at hl

theorem ofNat_ne_of_lt {a b : Nat} (h : a < b) (hb : b - a < 2 ^ 32) :
    UInt32.ofNat a ≠ UInt32.ofNat b := by
  intro heq
  have := congrArg UInt32.toNat heq
  simp only [UInt32.toNat_ofNat'] at this
  omega

/-- Two calls under way have different ids. -/
theorem Correlated.id_ne {es : List Event} {s : MuxClient} (h : Correlated es s) {j k : Nat}
    {c d : Call} (hj : s.calls[j]? = some c) (hk : s.calls[k]? = some d)
    (hc : c.phase.live = true) (hd : d.phase.live = true) (hne : j ≠ k) : c.id ≠ d.id := by
  have hjn := h.near j c hj hc
  have hkn := h.near k d hk hd
  have hjl := (List.getElem?_eq_some_iff.mp hj).1
  have hkl := (List.getElem?_eq_some_iff.mp hk).1
  rw [h.ids j c hj, h.ids k d hk]
  rcases Nat.lt_or_gt_of_ne hne with hlt | hlt
  · exact ofNat_ne_of_lt (by omega) (by omega)
  · exact (ofNat_ne_of_lt (by omega) (by omega)).symm

/-- A call as an answering event leaves it: only a listed call is completed. -/
def Call.answered (s : MuxClient) (e : Event) (k : Nat) (c : Call) : Call :=
  if s.futureList c.id = some k then { c with future := (answerTo c.id e).getD c.future } else c

@[simp] theorem Call.answered_id (s : MuxClient) (e : Event) (k : Nat) (c : Call) :
    (c.answered s e k).id = c.id := by
  unfold Call.answered
  split <;> rfl

@[simp] theorem Call.answered_phase (s : MuxClient) (e : Event) (k : Nat) (c : Call) :
    (c.answered s e k).phase = c.phase := by
  unfold Call.answered
  split <;> rfl

/-- An answer completes the future and takes the entry out at once. -/
theorem Correlated.listed_answered {es : List Event} {s : MuxClient} {e : Event}
    (h : Correlated es s) {k : Nat} {c : Call} (hk : s.calls[k]? = some c)
    (hl : c.phase.live = true) :
    ((if (answerTo c.id e).isSome then none else s.futureList c.id) = some k ↔
      (c.answered s e k).future.done = false) := by
  have hlisted := h.listed k c hk hl
  unfold Call.answered
  cases ha : answerTo c.id e with
  | none => simpa [apply_ite] using hlisted
  | some f =>
    by_cases hin : s.futureList c.id = some k
    · simp [hin, done_of_answerTo ha]
    · simpa [hin] using hlisted

/-- The future of a call under way follows the events. -/
theorem Correlated.future_answered {es w : List Event} {s : MuxClient} (e : Event)
    (h : Correlated es s) {k : Nat} {c : Call} (hk : s.calls[k]? = some c)
    (hl : c.phase.live = true) (hf : c.future = futureAfter c.id w) :
    (c.answered s e k).future = futureAfter c.id (w ++ [e]) := by
  have hlisted := h.listed k c hk hl
  unfold Call.answered
  cases ha : answerTo c.id e with
  | none =>
    rw [futureAfter_snoc_of_none ha, ← hf]
    split <;> rfl
  | some f =>
    by_cases hin : s.futureList c.id = some k
    · rw [if_pos hin, futureAfter_snoc_of_pending (by rw [← hf]; exact hlisted.mp hin) ha]
      rfl
    -- not listed any more: an earlier answer has decided
    · rw [if_neg hin, futureAfter_snoc_of_done ?_, hf]
      rw [← hf]
      simpa [hin] using hlisted

/-- The reader completes futures: it answers exactly the ids it unlists. -/
theorem Correlated.answer {es : List Event} {s s' : MuxClient} {e : Event} (h : Correlated es s)
    (hsend : e.isSend = false) (hresume : ∀ k, e ≠ .resume k) (hfid : s'.fid = s.fid)
    (hcalls : s'.calls = s.calls.mapIdx fun k c => c.answered s e k)
    (hlist : ∀ id, s'.futureList id =
      if (answerTo id e).isSome then none else s.futureList id) :
    Correlated (es ++ [e]) s' := by
  -- every call is an old one, perhaps with its future completed
  have hget (k : Nat) (c' : Call) (hk : s'.calls[k]? = some c') :
      ∃ c, s.calls[k]? = some c ∧ c' = c.answered s e k := by
    rw [hcalls, List.getElem?_mapIdx] at hk
    obtain ⟨c, hc, rfl⟩ := Option.map_eq_some_iff.mp hk
    exact ⟨c, hc, rfl⟩
  have hlen : s'.calls.length = s.calls.length := by rw [hcalls, List.length_mapIdx]
  constructor
  case fid => rw [hfid, hlen, h.fid]
  case sends =>
    rw [List.countP_append, h.sends, hlen]
    simp [hsend]
  case ids =>
    intro k c' hk
    obtain ⟨c, hc, rfl⟩ := hget k c' hk
    rw [Call.answered_id, h.ids k c hc]
  case near =>
    intro k c' hk hl
    obtain ⟨c, hc, rfl⟩ := hget k c' hk
    rw [hlen]
    exact h.near k c hc (by simpa using hl)
  case listed =>
    intro k c' hk hl
    obtain ⟨c, hc, rfl⟩ := hget k c' hk
    rw [Call.answered_id, hlist]
    exact h.listed_answered hc (by simpa using hl)
  case owner =>
    intro id k hk
    rw [hlist] at hk
    split at hk
    · simp at hk
    · obtain ⟨c, hc, hid⟩ := h.owner id k hk
      refine ⟨c.answered s e k, ?_, by simpa using hid⟩
      rw [hcalls, List.getElem?_mapIdx, hc]
      rfl
  case explained =>
    intro k c' hk
    obtain ⟨c, hc, rfl⟩ := hget k c' hk
    obtain ⟨w, hw, hex⟩ := h.explained k c hc
    exact ⟨w ++ [e], afterSend_snoc hw e, hex.snoc (by simp) (by simp) fun hl hf =>
      ⟨hresume k, h.future_answered e hc hl hf⟩⟩

/-- A step of the fiber of a call under way moves that call.  Its id may be unlisted
    when the call ends there. -/
theorem Correlated.move {es : List Event} {s s' : MuxClient} {e : Event} {k : Nat} {c : Call}
    {phase : Phase} (h : Correlated es s) (hk : s.calls[k]? = some c) (hc : c.phase.live = true)
    (hsend : e.isSend = false) (hother : ∀ j, j ≠ k → e ≠ .resume j)
    (hanswer : ∀ id, answerTo id e = none)
    (hcalls : s'.calls = (s.setPhase k c phase).calls) (hfid : s'.fid = s.fid)
    (hlist : ∀ id, s'.futureList id = s.futureList id ∨
      id = c.id ∧ phase.live = false ∧ s'.futureList id = none)
    (hex : ∀ w, Explained k c w → Explained k { c with phase := phase } (w ++ [e])) :
    Correlated (es ++ [e]) s' := by
  have hget (j : Nat) (d : Call) (hj : s'.calls[j]? = some d) :
      (j = k ∧ d = { c with phase := phase }) ∨ (j ≠ k ∧ s.calls[j]? = some d) := by
    rw [hcalls] at hj
    exact getElem?_set_eq_some hj
  have hlen : s'.calls.length = s.calls.length := by rw [hcalls]; exact List.length_set
  constructor
  case fid => rw [hfid, hlen, h.fid]
  case sends =>
    rw [List.countP_append, h.sends, hlen]
    simp [hsend]
  case ids =>
    intro j d hj
    rcases hget j d hj with ⟨rfl, rfl⟩ | ⟨-, hd⟩
    · exact h.ids j c hk
    · exact h.ids j d hd
  case near =>
    intro j d hj hl
    rw [hlen]
    rcases hget j d hj with ⟨rfl, rfl⟩ | ⟨-, hd⟩
    · exact h.near j c hk hc
    · exact h.near j d hd hl
  case listed =>
    intro j d hj hl
    rcases hget j d hj with ⟨rfl, rfl⟩ | ⟨hne, hd⟩
    · rcases hlist c.id with hkeep | ⟨-, hdead, -⟩
      · rw [hkeep]
        exact h.listed j c hk hc
      · simp [hdead] at hl
    · rcases hlist d.id with hkeep | ⟨hid, -⟩
      · rw [hkeep]
        exact h.listed j d hd hl
      -- another call under way has another id
      · exact absurd hid (h.id_ne hd hk hl hc hne)
  case owner =>
    intro id j hj
    rcases hlist id with hkeep | ⟨-, -, hnone⟩
    · obtain ⟨d, hd, hid⟩ := h.owner id j (hkeep ▸ hj)
      rw [hcalls]
      by_cases hjk : j = k
      · subst hjk
        obtain rfl : c = d := Option.some.inj (hk.symm.trans hd)
        exact ⟨_, List.getElem?_set_self (List.getElem?_eq_some_iff.mp hk).1, hid⟩
      · exact ⟨d, by rw [← hd]; exact List.getElem?_set_ne (Ne.symm hjk), hid⟩
    · simp [hnone] at hj
  case explained =>
    intro j d hj
    rcases hget j d hj with ⟨rfl, rfl⟩ | ⟨hne, hd⟩
    · obtain ⟨w, hw, hex'⟩ := h.explained j c hk
      exact ⟨w ++ [e], afterSend_snoc hw e, hex w hex'⟩
    · obtain ⟨w, hw, hex'⟩ := h.explained j d hd
      refine ⟨w ++ [e], afterSend_snoc hw e, hex'.snoc rfl rfl fun _ hf => ⟨hother j hne, ?_⟩⟩
      rw [futureAfter_snoc_of_none (hanswer _), hf]

/-- The call moves on and is still under way. -/
theorem explained_moved {k : Nat} {c : Call} {phase : Phase} {e : Event}
    (hc : c.phase.live = true) (hphase : phase.live = true) (he : e ≠ .resume k)
    (hanswer : ∀ id, answerTo id e = none) (w : List Event) (h : Explained k c w) :
    Explained k { c with phase := phase } (w ++ [e]) := by
  obtain ⟨hr, hf⟩ := (explained_of_live hc).mp h
  rw [explained_of_live hphase, futureAfter_snoc_of_none (hanswer _)]
  exact ⟨by simp [hr, he.symm], hf⟩

/-- The call returns with what its future holds. -/
theorem explained_returned {k : Nat} {c : Call} (hc : c.phase.live = true) (w : List Event)
    (h : Explained k c w) :
    Explained k { c with phase := .returned c.future.getRsp } (w ++ [.resume k]) := by
  obtain ⟨hr, hf⟩ := (explained_of_live hc).mp h
  exact ⟨w, [], rfl, hr, by rw [hf]⟩

/-- `send_request` lists a new future under a fresh id. -/
theorem Correlated.send {es : List Event} {s s' : MuxClient} {path reqdata frame : Bytes}
    (h : Correlated es s) (hfew : FewSends s (.send path reqdata)) (hfid : s'.fid = s.fid + 1)
    (hcalls : s'.calls = s.calls ++ [{ id := s.fid + 1, frame := frame }])
    (hlist : s'.futureList =
      Function.update s.futureList (s.fid + 1) (some s.calls.length)) :
    Correlated (es ++ [.send path reqdata]) s' := by
  have hnew : s.fid + 1 = UInt32.ofNat (s.calls.length + 1) := by
    rw [h.fid, UInt32.ofNat_add]
    rfl
  have hlen : s'.calls.length = s.calls.length + 1 := by rw [hcalls]; simp
  have hget (j : Nat) (d : Call) (hj : s'.calls[j]? = some d) :
      s.calls[j]? = some d ∨
        j = s.calls.length ∧ d = { id := s.fid + 1, frame := frame } := by
    exact getElem?_snoc_eq_some (hcalls ▸ hj)
  have hold (j : Nat) (d : Call) (hd : s.calls[j]? = some d) : s'.calls[j]? = some d := by
    rw [hcalls]
    exact getElem?_snoc_of_some hd
  constructor
  case fid => rw [hfid, hlen, hnew]
  case sends =>
    rw [List.countP_append, h.sends, hlen]
    rfl
  case ids =>
    intro j d hj
    rcases hget j d hj with hd | ⟨rfl, rfl⟩
    · exact h.ids j d hd
    · exact hnew
  case near =>
    intro j d hj hl
    rw [hlen]
    rcases hget j d hj with hd | ⟨rfl, rfl⟩
    · have := hfew j d hd hl
      omega
    · omega
  case listed =>
    intro j d hj hl
    rw [hlist]
    rcases hget j d hj with hd | ⟨rfl, rfl⟩
    · have hlt := (List.getElem?_eq_some_iff.mp hd).1
      have hlim := hfew j d hd hl
      -- the new id is not that of a call under way, which began fewer than 2 ^ 32 sends ago
      have hne : d.id ≠ s.fid + 1 := by
        rw [h.ids j d hd, hnew]
        exact ofNat_ne_of_lt (by omega) (by omega)
      rw [Function.update_of_ne hne]
      exact h.listed j d hd hl
    · simp
  case owner =>
    intro id j hj
    rw [hlist] at hj
    by_cases hid : id = s.fid + 1
    · subst hid
      obtain rfl : s.calls.length = j := by simpa using hj
      exact ⟨_, by rw [hcalls, List.getElem?_concat_length], rfl⟩
    · rw [Function.update_of_ne hid] at hj
      obtain ⟨d, hd, hdid⟩ := h.owner id j hj
      exact ⟨d, hold j d hd, hdid⟩
  case explained =>
    intro j d hj
    rcases hget j d hj with hd | ⟨rfl, rfl⟩
    · obtain ⟨w, hw, hex⟩ := h.explained j d hd
      refine ⟨_, afterSend_snoc hw _, hex.snoc rfl rfl fun _ hf => ⟨by simp, ?_⟩⟩
      rw [futureAfter_snoc_of_none rfl, hf]
    · exact ⟨[], afterSend_new h.sends path reqdata, by simp, rfl⟩

/-! ## Every step, every run -/

section Run

variable {kind : Kind}

/-- A call that fails to send unlists no id but its own. -/
theorem sendFailed_futureList (s : MuxClient) (k : Nat) (c : Call) (id : UInt32) :
    (s.sendFailed k c).futureList id = s.futureList id ∨
      id = c.id ∧ Phase.failed.live = false ∧ (s.sendFailed k c).futureList id = none := by
  by_cases hid : id = c.id
  · subst hid
    exact .inr ⟨rfl, rfl, Function.update_self ..⟩
  · exact .inl (Function.update_of_ne hid ..)

/-- `set_response` completes the one call listed under the id. -/
theorem Correlated.setResponse_calls {es : List Event} {s : MuxClient} (h : Correlated es s)
    (id : UInt32) (rsp : Bytes) (isSuccess : Bool) :
    (s.setResponse id rsp isSuccess false).calls =
      s.calls.mapIdx fun k c => c.answered s (.frame id rsp isSuccess) k := by
  apply List.ext_getElem?
  intro j
  rw [List.getElem?_mapIdx]
  have hmiss (c : Call) (hc : s.calls[j]? = some c) (hj : s.futureList id ≠ some j) :
      c.answered s (.frame id rsp isSuccess) j = c := by
    unfold Call.answered
    by_cases hid : id = c.id
    · rw [if_neg (hid ▸ hj)]
    · simp [answerTo, hid]
  unfold MuxClient.setResponse
  cases hl : s.futureList id with
  | none =>
    cases hc : s.calls[j]? with
    | none => simp
    | some c => simp [hmiss c hc (by simp [hl])]
  | some k =>
    simp only [List.getElem?_modify]
    cases hc : s.calls[j]? with
    | none => rfl
    | some c =>
      by_cases hjk : k = j
      · subst hjk
        obtain ⟨c', hc', rfl⟩ := h.owner id k hl
        obtain rfl : c = c' := Option.some.inj (hc.symm.trans hc')
        simp [Call.answered, hl, answerTo]
      · simp [hjk, hmiss c hc (by simp [hl, hjk])]

theorem correlated_init : Correlated [] ({} : MuxClient) :=
  { fid := rfl, sends := rfl, ids := by simp, near := by simp, listed := by simp
    owner := by simp, explained := by simp }

theorem Correlated.step {es : List Event} {s s' : MuxClient} {e : Event} (h : Correlated es s)
    (hfew : FewSends s e) (hs : StepsTo kind s e s') : Correlated (es ++ [e]) s' := by
  cases hs with
  | send path reqdata => exact h.send hfew rfl rfl rfl
  | frame id rsp isSuccess hr =>
    refine h.answer rfl (by simp) rfl (h.setResponse_calls id rsp isSuccess) fun i => ?_
    by_cases hi : i = id
    · simp [MuxClient.setResponse, answerTo, hi]
    · simp [MuxClient.setResponse, answerTo, hi, Ne.symm hi]
  | readerFail errinfo hr => exact h.answer rfl (by simp) rfl rfl fun _ => rfl
  | write hk hp | connect hk hp | connected hk hp | resolveFailed hk hp | writeSome hk hp
  | writeDone hk hp =>
    have hc : Phase.live _ = true := congrArg Phase.live hp
    exact h.move hk hc rfl (by simp) (fun _ => rfl) rfl rfl (fun _ => .inl rfl)
      (explained_moved hc rfl (by simp) fun _ => rfl)
  | @connectFailed k c hk hp | @writeFail k _ _ c hk hp =>
    have hc : Phase.live _ = true := congrArg Phase.live hp
    exact h.move hk hc rfl (by simp) (fun _ => rfl) rfl rfl
      (sendFailed_futureList s k c) fun _ _ => trivial
  | resume hk hp =>
    have hc : Phase.live _ = true := congrArg Phase.live hp
    exact h.move hk hc rfl (by simp +contextual [eq_comm]) (fun _ => rfl) rfl rfl
      (fun _ => .inl rfl) (explained_returned hc)

theorem correlated_run {es : List Event} {s : MuxClient}
    (hfew : Along (step kind) FewSends {} es) (hrun : run (step kind) {} es = some s) :
    Correlated es s :=
  run_induction_along correlated_init
    (fun _ _ _ _ _ h hf hs => h.step hf (stepsTo_of_step hs)) hfew hrun

/-! ## What a call returns -/

/-- A completed future came from one event: the reader's failure, or the first frame
    with the id. -/
theorem futureAfter_cases (id : UInt32) (u : List Event) :
    (futureAfter id u = {} ∧ ∀ e ∈ u, answerTo id e = none) ∨
    ∃ before e after, u = before ++ e :: after ∧ (∀ e ∈ before, answerTo id e = none) ∧
      answerTo id e = some (futureAfter id u) := by
  unfold futureAfter
  cases h : u.findSome? (answerTo id) with
  | none => exact .inl ⟨rfl, List.findSome?_eq_none_iff.mp h⟩
  | some f =>
    obtain ⟨before, e, after, hu, he, hb⟩ := List.findSome?_eq_some_iff.mp h
    exact .inr ⟨before, e, after, hu, hb, he⟩

/-- **Responses find their callers.** In every run with fewer than `2 ^ 32` sends while a
    call is under way, what a call returns is decided by the events `u` between its own
    `send` and its own return. -/
theorem returned_of_answered {es : List Event} {s : MuxClient}
    (hfew : Along (step kind) FewSends {} es) (hrun : run (step kind) {} es = some s)
    {k : Nat} {c : Call} {r : Result} (hk : s.calls[k]? = some c)
    (hr : c.phase = .returned r) :
    ∃ u v, afterSend k es = some (u ++ .resume k :: v) ∧ .resume k ∉ u ∧
      -- a success is the first frame with the call's id
      (r.isSuccess = true → ∃ before after, u = before ++ .frame c.id r.rsp true :: after ∧
        ∀ rsp ok, .frame c.id rsp ok ∉ before) ∧
      -- without a frame the call fails, by the timeout or by the reader
      ((∀ rsp ok, .frame c.id rsp ok ∉ u) →
        r.isSuccess = false ∧ (r.rsp = timeoutErr ∨ .readerFail r.rsp ∈ u)) ∧
      -- nothing else is ever returned, in particular no frame of another id
      (r.rsp = timeoutErr ∨ .readerFail r.rsp ∈ u ∨ ∃ ok, .frame c.id r.rsp ok ∈ u) := by
  obtain ⟨w, hw, hex⟩ := (correlated_run hfew hrun).explained k c hk
  unfold Explained at hex
  rw [hr] at hex
  obtain ⟨u, v, rfl, hnot, rfl⟩ := hex
  refine ⟨u, v, hw, hnot, ?_⟩
  rcases futureAfter_cases c.id u with ⟨hf, hnone⟩ | ⟨before, e, after, hu, hb, he⟩
  · rw [hf]
    exact ⟨by simp [Future.getRsp], fun _ => ⟨rfl, .inl rfl⟩, .inl rfl⟩
  · have hmem : e ∈ u := by simp [hu]
    have hgetRsp : (futureAfter c.id u).getRsp.rsp = (futureAfter c.id u).rsp := by
      simp [Future.getRsp, done_of_answerTo he]
    have hsuccess : (futureAfter c.id u).getRsp.isSuccess = (futureAfter c.id u).isSuccess := by
      simp [Future.getRsp, done_of_answerTo he]
    rw [hgetRsp, hsuccess]
    cases e with
    | frame id rsp isSuccess =>
      obtain ⟨rfl, hf⟩ : id = c.id ∧ setResult rsp isSuccess false = futureAfter c.id u := by
        simpa [answerTo] using he
      rw [← hf]
      refine ⟨fun hs => ?_, fun hno => absurd hmem (hno _ _), .inr (.inr ⟨_, hmem⟩)⟩
      obtain rfl : isSuccess = true := hs
      refine ⟨before, after, hu, fun rsp' ok hin => ?_⟩
      simpa [answerTo] using hb _ hin
    | readerFail errinfo =>
      have hf : setResult errinfo false true = futureAfter c.id u := by
        simpa [answerTo] using he
      rw [← hf]
      exact ⟨by simp [setResult], fun _ => ⟨rfl, .inr hmem⟩, .inr (.inl hmem)⟩
    | _ => simp [answerTo] at he

/-- Two calls on one connection, answered in the other order, the second one twice. -/
def crossedRun : List Event :=
  [.send [] [97], .send [] [98], .proceed 0, .connected 0 .ok, .proceed 1, .writeSome 0 9,
    .writeSome 1 9, .writeDone 1, .writeDone 0, .frame 2 [66] true, .frame 7 [67] true,
    .frame 2 [68] true, .frame 1 [65] true, .resume 0, .resume 1]

/-- The second call of this run returns the first frame with its id. -/
theorem crossedRun_answered :
    ∃ u v, afterSend 1 crossedRun = some (u ++ .resume 1 :: v) ∧
      ∃ before after, u = before ++ .frame 2 [66] true :: after ∧
        ∀ rsp ok, .frame 2 rsp ok ∉ before := by
  have hcall : (run (step .raw) {} crossedRun).map (·.calls[1]?) =
      some (some { id := 2, frame := [0, 0, 0, 2, 0, 0, 0, 1, 98]
                   future := setResult [66] true false
                   phase := .returned ⟨true, [66], false⟩ }) := by decide +kernel
  obtain ⟨s, hrun, hk⟩ := Option.map_eq_some_iff.mp hcall
  obtain ⟨u, v, hw, -, hs, -⟩ := returned_of_answered (by decide +kernel) hrun hk rfl
  exact ⟨u, v, hw, hs rfl⟩

end Run

end FiberProxy.Client
